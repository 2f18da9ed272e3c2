import PbsLevel2.Proofs.Abreast
import PbsLevel2.Proofs.RoundTrip

/-!
# Parsing over an earlier plan

`parse_plan` writes into a structure that may hold anything.  What of it survives, and what
a run of the new plan sees of it.
-/

namespace PbsLevel2

open Lib

/-! ## Well-formed texts -/

def planTasks (rest : List Char) : List PbsTask :=
  fieldTasks (semicolons rest) rest

/-- The text of a plan.  Its header announces `n` processes and lists as many, beside which the
idle one has room.  `rest`, the task section, fits in the text and in the array; a task belongs
to a listed process, and a free slot has the task id and the process id -1.  As the assertions of
`handle_free_slot` demand, no free slot is the first entry or follows another one. -/
structure WellFormed (text : List Char) (n : Nat) (rest : List Char) : Prop where
  number : parseCurSymbol (text ++ ['\x00']) = .ok .number
  announced : (strtoll (text ++ ['\x00'])).1 = n
  header : Header true n (nextField (text ++ ['\x00'])) n n rest
  processes : n < maxNumberProcesses
  tasks : TasksFit rest
  entries : ∀ t ∈ planTasks rest, t.taskId ≠ -2 ∧ (t.taskId = -1 ↔ t.processId = -1) ∧
    (t.processId = -1 ∨ 0 ≤ t.processId ∧ t.processId < n)
  first : ∀ t ∈ (planTasks rest).head?, t.taskId ≠ -1
  spaced : (planTasks rest).IsChain fun t u => ¬ (t.taskId = -1 ∧ u.taskId = -1)

/-- What `parse_plan` makes of `p` when the text lists `n` processes and the tasks `l`. -/
def PbsPlan.reread (p : PbsPlan) (n : Nat) (l : List PbsTask)
    (processes : Vector PbsProcess maxNumberProcesses)
    (tasks : Vector PbsTask maxNumberTasksInPlan) : PbsPlan :=
  { p with
    numProcesses := n
    numTasks := l.length
    processes := processes
    tasks := tasks
    finishedTasks := 0
    curProcess := (l.head?.map PbsTask.processId).getD (-2)
    curTask := 0
    indexCurTask := 0
    instructionsPlanned := (l.map PbsTask.instructionsPlanned).sum
    tickCounter := 0
    tasksFinished := 0 }

theorem processId_first {w : Vector PbsTask maxNumberTasksInPlan} {l tail : List PbsTask}
    (hw : w.toList = l ++ tail) (ht : Terminates tail) (h : 0 < maxNumberTasksInPlan) :
    (w.get ⟨0, h⟩).processId = (l.head?.map PbsTask.processId).getD (-2) := by
  have hget : w.toList[0]? = some (w.get ⟨0, h⟩) := by
    rw [List.getElem?_eq_getElem (by simp [h]), Vector.getElem_toList]
    rfl
  rw [hw] at hget
  obtain ⟨t, post, rfl, _, hpid⟩ := ht
  cases l with
  | nil =>
      obtain rfl := Option.some.inj hget
      exact hpid
  | cons u l =>
      obtain rfl := Option.some.inj hget
      rfl

namespace WellFormed

variable {text rest : List Char} {n : Nat}

theorem fullHeader (h : WellFormed text n rest) (k : Int) :
    Header false k (text ++ ['\x00']) n n rest :=
  .number h.number (by rw [h.announced]; exact h.header)

theorem parseMeta (h : WellFormed text n rest) (p : PbsPlan) :
    ∃ v, parseMeta (text ++ ['\x00']) p =
        .ok (rest, { p with numProcesses := n, processes := v }) ∧
      ∀ i : Int, 0 ≤ i → i < n →
        processAt v i = fieldsProcess (nextField^[2 * i.toNat + 1] (text ++ ['\x00'])) := by
  have hn := h.processes
  have hidle : ProcessIndex n := ⟨by omega, by simpa using hn⟩
  obtain ⟨v, hv, hlisted, _⟩ := h.header.lists (p := { p with numProcesses := n })
    (show n < maxNumberProcesses + 1 by omega) (show 0 + n ≤ maxNumberProcesses by omega)
  refine ⟨updateProcess v n fun q => { q with processId := -2, buffer := -2, lengthPlan := 0 },
    ?_, fun i hi hlt => ?_⟩
  · rw [PbsLevel2.parseMeta, parseMetaLoop_number h.number
      (delimited_of_suffix (nextField_suffix _) h.header.delimited_str), h.announced, hv, ok_bind]
    dsimp only
    rw [modifyProcess_eq hidle]
    rfl
  · have hentry := hlisted i.toNat (by omega)
    rw [show ((0 : Nat) : Int) + (i.toNat : Nat) = i by omega] at hentry
    rw [processAt_updateProcess _ _ hidle, if_neg (by omega), hentry, Function.iterate_succ_apply]

theorem parsePlan (h : WellFormed text n rest) :
    ∃ listed : Int → PbsProcess, ∀ p : PbsPlan, ∃ v tasks tail,
      parsePlan text p = .ok (p.reread n (planTasks rest) v tasks) ∧
      tasks.toList = planTasks rest ++ tail ∧ Terminates tail ∧
      ∀ i : Int, 0 ≤ i → i < n → processAt v i = listed i := by
  have hn := h.processes
  obtain ⟨hfew, hfits⟩ := tasksFit_iff.1 h.tasks
  refine ⟨fun i => { fieldsProcess (nextField^[2 * i.toNat + 1] (text ++ ['\x00'])) with
    numTasksRemaining := 0 + processTotal (fun _ => 1) i (planTasks rest)
    lengthPlan := 0 + processTotal PbsTask.instructionsPlanned i (planTasks rest) }, fun p => ?_⟩
  obtain ⟨v, hmeta, hentries⟩ := h.parseMeta p
  -- the array, cut at the entry that becomes the terminator
  have hlen : p.tasks.toList.length = maxNumberTasksInPlan := p.tasks.length_toList
  have hsplit := List.take_append_drop (semicolons rest) p.tasks.toList
  rw [List.drop_eq_getElem_cons (by omega)] at hsplit
  set t := p.tasks.toList[semicolons rest] with ht
  set post := p.tasks.toList.drop (semicolons rest + 1) with hpost
  have htasks := parseTasks_eq (p := { p with numProcesses := n, processes := v })
    (h.fullHeader 0).nul_mem hfits hsplit.symm (by rw [List.length_take]; omega)
  have hall := toList_withTasks (p := { p with
      numProcesses := n
      numTasks := semicolons rest
      processes := (planTasks rest).foldl tallyTask v })
    (l := planTasks rest ++ { t with taskId := -2, processId := -2 } :: post)
    (by simp [planTasks, length_fieldTasks, hpost]; omega)
  have hlength := lengthFrom_terminated (planTasks rest)
    (t := { t with taskId := -2, processId := -2 }) rfl post
  rw [← hall, List.takeWhile_eq_self_iff.2 fun u hu => by simpa using (h.entries u hu).1] at hlength
  have hterminates : Terminates ({ t with taskId := -2, processId := -2 } :: post) :=
    ⟨_, _, rfl, rfl, rfl⟩
  refine ⟨(planTasks rest).foldl tallyTask v, _, _, ?_, hall, hterminates,
    fun i hi hlt => ?_⟩
  · have hnum : semicolons rest = (planTasks rest).length := (length_fieldTasks _ _).symm
    rw [parsePlan_eq hmeta htasks hlength, PbsPlan.reread,
      ← processId_first hall hterminates (by decide), ← hnum]
    rfl
  · rw [processAt_foldl_tallyTask _ _ ⟨hi, by omega⟩, hentries i hi hlt]
    rfl

/-! ## The start of the run -/

section Start

variable {p q : PbsPlan} {v w : Vector PbsProcess maxNumberProcesses}
  {tasks tasks' : Vector PbsTask maxNumberTasksInPlan} {tail tail' : List PbsTask}

theorem processId_ne (h : WellFormed text n rest) {t : PbsTask} (ht : t ∈ planTasks rest) :
    t.processId ≠ -2 := by
  obtain ⟨_, _, hpid⟩ := h.entries t ht
  omega

theorem readCurTask_reread (htasks : tasks.toList = planTasks rest ++ tail)
    (hterminates : Terminates tail) {cur : PbsTask}
    (hcur : (p.reread n (planTasks rest) v tasks).readCurTask = .ok cur) :
    (planTasks rest).head? = some cur ∨
      planTasks rest = [] ∧ cur.taskId = -2 ∧ cur.processId = -2 := by
  have hget : tasks.toList[0]? = some cur := readTask_eq_ok.1 hcur
  rw [htasks] at hget
  cases hl : planTasks rest with
  | nil =>
      obtain ⟨t, post, rfl, hid, hpid⟩ := hterminates
      rw [hl] at hget
      obtain rfl := Option.some.inj hget
      exact .inr ⟨rfl, hid, hpid⟩
  | cons t l =>
      rw [hl] at hget
      exact .inl hget

theorem headReal (h : WellFormed text n rest) (htasks : tasks.toList = planTasks rest ++ tail)
    (hterminates : Terminates tail) : HeadReal (p.reread n (planTasks rest) v tasks) := by
  intro cur hcur
  rcases readCurTask_reread htasks hterminates hcur with hfirst | ⟨_, hid, _⟩
  · exact h.first cur (by rw [hfirst]; rfl)
  · omega

theorem valid (h : WellFormed text n rest) (htasks : tasks.toList = planTasks rest ++ tail)
    (hterminates : Terminates tail) :
    Valid (p.reread n (planTasks rest) v tasks) [] (planTasks rest) tail := by
  refine ⟨⟨⟨htasks, hterminates, ?_, rfl, rfl⟩, ?_, ?_⟩, ?_⟩
  · exact fun t ht => ⟨(h.entries t ht).1, h.processId_ne ht⟩
  · exact fun t ht => (h.entries t ht).2.1
  · intro cur hcur
    rw [processOf, if_pos (h.headReal htasks hterminates cur hcur)]
    rcases readCurTask_reread htasks hterminates hcur with hfirst | ⟨hnil, _, hpid⟩
    · rw [PbsPlan.reread, hfirst]
      rfl
    · rw [PbsPlan.reread, hnil, hpid]
      rfl
  · rw [SpacedJobs, Agenda.Spaced, List.isChain_map]
    refine h.spaced.imp_of_mem_imp ?_
    rintro t u ht hu hne ⟨hidle, hidle'⟩
    exact hne ⟨(h.entries t ht).2.1.2 hidle, (h.entries u hu).2.1.2 hidle'⟩

end Start

end WellFormed

/-! ### The texts of plans -/

/-- The text of a plan is well-formed, if no entry has the id of the terminator, no task that of
a free slot, and its free slots stand alone behind the first entry. -/
theorem wellFormed_planText {buffers : List Int} {entries : List Entry}
    (hlen : buffers.length < maxNumberProcesses) (hbuffers : ∀ b ∈ buffers, InLong b)
    (hfew : entries.length < maxNumberTasksInPlan) (hfits : ∀ e ∈ entries, e.Fits buffers.length)
    (hids : ∀ e ∈ entries, e.taskId ≠ -2 ∧ (e.taskId = -1 → e.processId = -1))
    (hfirst : ∀ e ∈ entries.head?, e.taskId ≠ -1)
    (hspaced : entries.IsChain fun e f => ¬ (e.taskId = -1 ∧ f.taskId = -1)) :
    WellFormed (planText buffers entries) buffers.length (entriesText entries ++ ['\x00']) := by
  have hsemi : isDigit ';' = false := by decide
  have hlong := inLong_of_le hlen.le
  have hcount : semicolons (entriesText entries ++ ['\x00']) = entries.length := by
    rw [semicolons_entriesText]
    rfl
  have htasks : planTasks (entriesText entries ++ ['\x00']) = entries.map Entry.task := by
    rw [planTasks, hcount, fieldTasks_entriesText hlen.le hfits]
  refine ⟨?_, ?_, ?_, hlen, ?_, ?_, ?_, ?_⟩
  · rw [planText_append_nul, parseCurSymbol_decimal]
  · rw [planText_append_nul, strtoll_decimal hlong hsemi]
  · rw [planText_append_nul, nextField_decimal hlong hsemi]
    exact header_processesText hbuffers (by omega) _ _
  · rw [tasksFit_iff, hcount]
    exact ⟨hfew, fieldsFit_entriesText hlen.le hfits _⟩
  · rw [htasks]
    rintro t ht
    obtain ⟨e, he, rfl⟩ := List.mem_map.1 ht
    obtain ⟨hid, hfree⟩ := hids e he
    have hprocess := (hfits e he).process
    change e.taskId ≠ -2 ∧ (e.taskId = -1 ↔ e.processId = -1) ∧
      (e.processId = -1 ∨ 0 ≤ e.processId ∧ e.processId < buffers.length)
    omega
  · rw [htasks, List.head?_map]
    rintro t ht
    obtain ⟨e, he, rfl⟩ := Option.mem_map.1 ht
    exact hfirst e he
  · rw [htasks, List.isChain_map]
    exact hspaced

/-! ## Two parses -/

/-- The two structures agree on what the parser leaves as it was and the scheduler reads. -/
structure SameLeftovers (p q : PbsPlan) : Prop where
  lateness : q.lateness = p.lateness
  stress : q.stress = p.stress
  state : q.state = p.state
  instructionsRetired : q.instructionsRetired = p.instructionsRetired

/-- After the text was parsed into both structures they agree on every field the scheduler reads,
and no sequence of calls tells them apart. -/
def StartAlike (text : List Char) (p q : PbsPlan) : Prop :=
  ∃ p' q', parsePlan text p = .ok p' ∧ parsePlan text q = .ok q' ∧ Alike p' q' ∧
    ∀ (b : Build) (signals : SignalBuffer) (calls : List Call), (∀ call ∈ calls, call.Counts) →
      Agrees FaultsAlike (Option.Rel SystemsAlike) (performCalls b calls ⟨p', signals⟩)
        (performCalls b calls ⟨q', signals⟩)

section

variable {text rest : List Char} {n : Nat} {p q : PbsPlan}
  {v w : Vector PbsProcess maxNumberProcesses} {tasks tasks' : Vector PbsTask maxNumberTasksInPlan}
  {tail tail' : List PbsTask}

theorem WellFormed.twins (h : WellFormed text n rest) (hsame : SameLeftovers p q)
    (htasks : tasks.toList = planTasks rest ++ tail) (ht : Terminates tail)
    (htasks' : tasks'.toList = planTasks rest ++ tail') (ht' : Terminates tail')
    (hprocesses : ∀ i : Int, 0 ≤ i → i < n → processAt v i = processAt w i) :
    Twins (planTasks rest) (p.reread n (planTasks rest) v tasks)
      (q.reread n (planTasks rest) w tasks') where
  fields := by
    rw [PbsPlan.reread, PbsPlan.reread, hsame.lateness, hsame.stress, hsame.state,
      hsame.instructionsRetired]
  left := ⟨tail, htasks, ht⟩
  right := ⟨tail', htasks', ht'⟩
  entries := fun t ht => by
    obtain ⟨hid, hfree, hpid⟩ := h.entries t ht
    exact ⟨hid, h.processId_ne ht, hpid.imp_left hfree.2⟩
  cur := Nat.zero_le _
  index := rfl
  processes := hprocesses
  table := by
    have := h.processes
    change (n : Int) ≤ _
    omega

theorem SameLeftovers.of_alike {l m : List PbsTask}
    (h : Alike (p.reread n l v tasks) (q.reread n m w tasks')) : SameLeftovers p q := by
  obtain ⟨live, hl⟩ := h
  have hlateness := congrArg PbsPlan.lateness hl.fields
  have hstress := congrArg PbsPlan.stress hl.fields
  have hstate := congrArg PbsPlan.state hl.fields
  have hretired := congrArg PbsPlan.instructionsRetired hl.fields
  exact ⟨hlateness, hstress, hstate, hretired⟩

/-- Parsing resets neither the lateness nor the stress, the state or the counter of the plan, and
a well-formed text starts a fresh run just when these four do not differ. -/
theorem parsePlan_startAlike_iff (h : WellFormed text n rest) (p q : PbsPlan) :
    StartAlike text p q ↔ SameLeftovers p q := by
  obtain ⟨listed, hparses⟩ := h.parsePlan
  obtain ⟨v, tasks, tail, hp, htasks, ht, hv⟩ := hparses p
  obtain ⟨w, tasks', tail', hq, htasks', ht', hw⟩ := hparses q
  constructor
  · rintro ⟨p', q', hp', hq', halike, _⟩
    obtain rfl := Except.ok.inj (hp.symm.trans hp')
    obtain rfl := Except.ok.inj (hq.symm.trans hq')
    exact .of_alike halike
  · intro hsame
    have htwins := h.twins hsame htasks ht htasks' ht' fun i hi hlt =>
      (hv i hi hlt).trans (hw i hi hlt).symm
    refine ⟨_, _, hp, hq, ⟨_, htwins⟩, fun b signals calls hcalls => ?_⟩
    have habreast : Abreast ⟨_, signals⟩ ⟨_, signals⟩ := ⟨⟨⟨_, htwins⟩, rfl⟩,
      ⟨_, _, _, _, h.valid htasks ht, rfl, trivial⟩, h.headReal htasks ht⟩
    refine (habreast.performCalls hcalls).mono ?_
    rintro x y - - (⟨h'⟩ | _)
    · exact .some h'.toSystemsAlike
    · exact .none

end

/-- A zeroed structure, and one that holds other tasks and processes and an advanced clock. -/
theorem parsePlan_startAlike_two :
    StartAlike "2;0,50;1,-1;;;0,7,100,90;-1,-1,20,0;1,8,30,40;".toList zeroedPlan
      { zeroedPlan with
        numProcesses := 7
        numTasks := 3
        processes := Vector.replicate _ { processId := 4, lateness := 8 }
        tasks := Vector.replicate _ { taskId := 3, state := .finished }
        curTask := 2
        tickCounter := 9
        tasksFinished := 2 } := by
  rw [planText_two]
  refine (parsePlan_startAlike_iff (wellFormed_planText (by decide) (by decide) (by decide)
    fits_two ?_ ?_ (by decide)) _ _).2 ⟨rfl, rfl, rfl, rfl⟩
  · simp
  · simp

/-- After five ticks the only task has found no preemption slot and the plan has ended.  Parsed
into that structure the same text gives a plan that `start_run` leaves at once. -/
theorem parsePlan_overEnded :
    ∃ n rest p t q, WellFormed "1;0,0;;;0,0,10,1000000000;".toList n rest ∧
      parsePlan "1;0,0;;;0,0,10,1000000000;".toList zeroedPlan = .ok p ∧
      runTicks .userland everyTick ⟨p, zeroedSignals⟩ 5 = .ok t ∧
      parsePlan "1;0,0;;;0,0,10,1000000000;".toList t.plan = .ok q ∧
      p.state = .onPlan ∧ startRun .userland everyTick 1 0 ⟨q, t.signals⟩ =
        .ok (some ⟨q, t.signals⟩) ∧
      ¬ StartAlike "1;0,0;;;0,0,10,1000000000;".toList zeroedPlan t.plan := by
  have htext : "1;0,0;;;0,0,10,1000000000;".toList =
      planText [0] [⟨0, 0, 10, 1000000000⟩] := by
    decide +kernel
  obtain ⟨p, t, hp, ht, hcheck⟩ :=
    @of_onRun .userland "1;0,0;;;0,0,10,1000000000;".toList everyTick 5
      (fun p t => decide (p.state = .onPlan ∧
        (parsePlan "1;0,0;;;0,0,10,1000000000;".toList t.plan >>= fun q => .ok q.state) =
          .ok .planFinished))
      (by decide +kernel)
  obtain ⟨hstart, hended⟩ := of_decide_eq_true hcheck
  obtain ⟨q, hq, hstate⟩ := bind_eq_ok.1 hended
  replace hstate : q.state = .planFinished := Except.ok.inj hstate
  have hwell : WellFormed (planText [0] [⟨0, 0, 10, 1000000000⟩]) 1 _ :=
    wellFormed_planText (by decide) (by decide) (by decide)
      (by simpa using ⟨by decide, by decide, by decide, by decide⟩) (by simp) (by simp) (by decide)
  refine ⟨1, _, p, t, q, htext ▸ hwell, hp, ht, hq, hstart, ?_, ?_⟩
  · rw [startRun, if_pos hstate]
    rfl
  · rintro ⟨p', q', hp', hq', ⟨live, hl⟩, _⟩
    obtain rfl := Except.ok.inj (hp.symm.trans hp')
    obtain rfl := Except.ok.inj (hq.symm.trans hq')
    have hsame := congrArg PbsPlan.state hl.fields
    rw [hstate] at hsame
    exact absurd (hsame.trans hstart) (by decide)

end PbsLevel2

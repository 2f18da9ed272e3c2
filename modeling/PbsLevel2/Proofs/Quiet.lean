import PbsLevel2.Proofs.Limits
import PbsLevel2.Proofs.Runs

/-!
# Plans that are right

A plan in which every task needs the instructions that were planned for it is run without a
preemption and without a signal, as long as the free slots it skips do not make the node look
early.
-/

namespace PbsLevel2

open Lib

/-! ## Plans that are right -/

/-- The total length of the free slots among some entries, each counted with `length`. -/
abbrev freeTime (length : PbsTask → Int) (l : List PbsTask) : Int :=
  total PbsTask.taskId length (-1) l

/-- In front of every task the free slots take at most a fifth of the plan. -/
def FitsFifth (length : PbsTask → Int) (p : PbsPlan) : Prop :=
  ∀ i (hi : i < p.parsedTasks.length), p.parsedTasks[i].taskId ≠ -1 →
    5 * freeTime length (p.parsedTasks.take i) ≤ p.instructionsPlanned

instance (length : PbsTask → Int) (p : PbsPlan) : Decidable (FitsFifth length p) :=
  inferInstanceAs (Decidable (∀ i (_ : i < p.parsedTasks.length), _ → _))

/-- What `handle_free_slot` books for a free slot, whichever it is. -/
def PbsPlan.bookedLength (p : PbsPlan) : Int :=
  (p.tasks.toList.headD {}).instructionsPlanned

/-- The tasks need what was planned for them. -/
structure Predicted (p : PbsPlan) : Prop where
  exact : ∀ t ∈ p.parsedTasks, t.taskId ≠ -1 → t.instructionsReal = t.instructionsPlanned
  length : ∀ t ∈ p.parsedTasks, t.taskId ≠ -1 → 2 ≤ t.instructionsPlanned
  total : 5 ≤ p.instructionsPlanned

instance (p : PbsPlan) : Decidable (Predicted p) :=
  decidable_of_iff
    ((∀ t ∈ p.parsedTasks, t.taskId ≠ -1 → t.instructionsReal = t.instructionsPlanned) ∧
      (∀ t ∈ p.parsedTasks, t.taskId ≠ -1 → 2 ≤ t.instructionsPlanned) ∧ 5 ≤ p.instructionsPlanned)
    ⟨fun h => ⟨h.1, h.2.1, h.2.2⟩, fun h => ⟨h.1, h.2, h.3⟩⟩

/-! ## Runs on schedule -/

/-- A task ahead: it has run in its own slot only, and not for as long as it was planned. -/
structure InTime (t : PbsTask) : Prop where
  unfinished : t.state ≠ .finished
  slot : t.instructionsRetiredSlot = t.instructionsRetiredTask
  nonneg : 0 ≤ t.instructionsRetiredTask
  lt : t.taskId ≠ -1 → t.instructionsRetiredTask < t.instructionsReal

/-- `p` was reached from the parsed plan `o` and nothing but time has passed. -/
structure OnSchedule (o p : PbsPlan) (done todo tail : List PbsTask) : Prop
    extends Valid p done todo tail where
  frames : (done ++ todo).map PbsTask.frame = o.parsedTasks.map PbsTask.frame
  tailFrames : tail.map PbsTask.frame = (o.tasks.toList.drop o.numTasks).map PbsTask.frame
  finished : ∀ t ∈ done, t.taskId ≠ -1 → t.state = .finished
  inTime : ∀ t ∈ todo, InTime t
  lateness : p.lateness = -freeTime (fun _ => o.bookedLength) (o.parsedTasks.take done.length)
  processes : ∀ i, (processAt p.processes i).lateness = 0 ∧
    (processAt p.processes i).lengthPlan = (processAt o.processes i).lengthPlan
  constants : p.numProcesses = o.numProcesses ∧ p.numTasks = o.numTasks ∧
    p.instructionsPlanned = o.instructionsPlanned

section Schedule

variable {o p : PbsPlan} {done todo rest tail : List PbsTask} {cur : PbsTask} {b : Build} {r : Int}
  {s : System}

theorem Parsed.onSchedule (ho : Parsed o) (ha : Admissible o) (hpred : Predicted o) :
    OnSchedule o o [] o.parsedTasks (o.tasks.toList.drop o.numTasks) := by
  refine ⟨ho.valid ha, rfl, rfl, by simp, fun t ht => ?_, ?_, fun i => ?_, rfl, rfl, rfl⟩
  · have hfresh := ho.fresh t ht
    refine ⟨by rw [hfresh.state]; decide, by rw [hfresh.retiredSlot, hfresh.retiredTask],
      hfresh.retiredTask.ge, fun hreal => ?_⟩
    have hexact := hpred.exact t ht hreal
    have hlength := hpred.length t ht hreal
    have hzero := hfresh.retiredTask
    omega
  · rw [ho.counters.1]
    rfl
  · exact ⟨(ho.processes i).2.1, rfl⟩

theorem OnSchedule.entry (h : OnSchedule o p done (cur :: rest) tail) :
    ∃ hi : done.length < o.parsedTasks.length, o.parsedTasks[done.length].frame = cur.frame := by
  have hget := congrArg (·[done.length]?) h.frames
  simp only [List.map_append, List.map_cons] at hget
  rw [List.getElem?_append_right (by simp), List.length_map, Nat.sub_self, List.getElem?_cons_zero,
    List.getElem?_map, eq_comm, Option.map_eq_some_iff] at hget
  obtain ⟨t, ht, hframe⟩ := hget
  obtain ⟨hi, rfl⟩ := List.getElem?_eq_some_iff.1 ht
  exact ⟨hi, hframe⟩

theorem OnSchedule.freeTime_succ (h : OnSchedule o p done (cur :: rest) tail)
    (length : PbsTask → Int) :
    ∃ t, t.frame = cur.frame ∧ freeTime length (o.parsedTasks.take (done.length + 1)) =
      freeTime length (o.parsedTasks.take done.length) + if cur.taskId = -1 then length t else 0 := by
  obtain ⟨hi, hframe⟩ := h.entry
  refine ⟨_, hframe, ?_⟩
  rw [← List.take_append_getElem hi, freeTime, total_append, total_cons, total_nil, add_zero,
    frame_taskId hframe]

end Schedule

def instructionsLeft (t : PbsTask) : Nat :=
  if t.taskId = -1 then 0 else (t.instructionsReal - t.instructionsRetiredTask).toNat

section Next

variable {o p q : PbsPlan} {done todo rest tail : List PbsTask} {cur cur' : PbsTask} {b : Build}

theorem OnSchedule.next (h : OnSchedule o p done (cur :: rest) tail)
    (hv : Valid q (done ++ [cur']) (rest.modifyHead start) (startTail rest tail))
    (hframe : cur'.frame = cur.frame) (hfinished : cur'.taskId ≠ -1 → cur'.state = .finished)
    (hlateness : q.lateness = p.lateness - if cur.taskId = -1 then o.bookedLength else 0)
    (hprocesses : ∀ i, (processAt q.processes i).lateness = (processAt p.processes i).lateness ∧
      (processAt q.processes i).lengthPlan = (processAt p.processes i).lengthPlan)
    (hconstants : q.numProcesses = p.numProcesses ∧ q.numTasks = p.numTasks ∧
      q.instructionsPlanned = p.instructionsPlanned) :
    OnSchedule o q (done ++ [cur']) (rest.modifyHead start) (startTail rest tail) := by
  have hstart := map_startHead PbsTask.frame fun _ => rfl
  refine ⟨hv, ?_, ?_, ?_, ?_, ?_, fun i => ?_, ?_⟩
  · rw [← h.frames]
    simp only [List.map_append, List.map_cons, List.append_assoc, List.cons_append,
      List.nil_append, hstart, hframe]
  · rw [← h.tailFrames, startTail]
    split
    · exact hstart tail
    · rfl
  · intro t ht hreal
    rcases List.mem_append.1 ht with ht | ht
    · exact h.finished t ht hreal
    · obtain rfl := List.mem_singleton.1 ht
      exact hfinished hreal
  · intro t ht
    cases rest with
    | nil => cases ht
    | cons n rest =>
        rcases List.mem_cons.1 ht with rfl | ht
        · have hn := h.inTime n (by simp)
          exact ⟨show TaskState.running ≠ .finished by decide, hn.slot, hn.nonneg, hn.lt⟩
        · exact h.inTime t (by simp [ht])
  · obtain ⟨_, _, hsucc⟩ := h.freeTime_succ fun _ => o.bookedLength
    rw [hlateness, h.lateness, List.length_append, List.length_singleton, hsucc]
    omega
  · rw [(hprocesses i).1, (hprocesses i).2]
    exact h.processes i
  · rw [hconstants.1, hconstants.2.1, hconstants.2.2]
    exact h.constants

theorem OnSchedule.exists_bookedLength (ha : Admissible o) (hpred : Predicted o)
    (h : OnSchedule o p done (cur :: rest) tail) : 2 ≤ o.bookedLength := by
  obtain ⟨hi, _⟩ := h.entry
  obtain ⟨t, l, hl⟩ := List.exists_cons_of_length_pos (Nat.zero_lt_of_lt hi)
  have htake : o.tasks.toList = t :: (l ++ o.tasks.toList.drop o.numTasks) := by
    rw [← List.cons_append, ← hl, PbsPlan.parsedTasks, List.take_append_drop]
  rw [PbsPlan.bookedLength, htake]
  exact hpred.length t (by rw [hl]; simp) (ha.first t (by rw [htake]; rfl))

theorem OnSchedule.map_frame (h : OnSchedule o p done todo tail) :
    p.tasks.toList.map PbsTask.frame = o.tasks.toList.map PbsTask.frame := by
  rw [h.tasks, ← List.append_assoc, List.map_append, h.frames, h.tailFrames, ← List.map_append,
    PbsPlan.parsedTasks, List.take_append_drop]

theorem OnSchedule.first_planned (h : OnSchedule o p done todo tail) {first : PbsTask}
    (hfirst : p.readTask 0 = .ok first) : first.instructionsPlanned = o.bookedLength := by
  have hget := congrArg (·[0]?) h.map_frame
  simp only [List.getElem?_map, readTask_eq_ok.1 hfirst, Option.map_some] at hget
  obtain ⟨t, ht, hframe⟩ := Option.map_eq_some_iff.1 hget.symm
  rw [PbsPlan.bookedLength, List.headD_eq_head?_getD, List.head?_eq_getElem?, ht, Option.getD_some,
    frame_instructionsPlanned hframe]

theorem OnSchedule.skip (ha : Admissible o) (hpred : Predicted o)
    (h : OnSchedule o p done todo tail) :
    ∃ q done' todo' tail', skipFreeSlot b p = .ok q ∧ OnSchedule o q done' todo' tail' ∧
      HeadReal q ∧ (todo'.map instructionsLeft).sum = (todo.map instructionsLeft).sum := by
  obtain ⟨cur, _, _, hcur⟩ := h.head
  by_cases hfree : cur.taskId = -1
  · obtain ⟨rest, rfl⟩ := h.of_readCurTask hcur (by omega)
    have hbooked := h.exists_bookedLength ha hpred
    have hvp := h.toValid.passed
    obtain ⟨first, _, hfirst⟩ := h.toValid.passed_first
    have hplanned := h.first_planned (h.toValid.skip_reads.2 first hfirst)
    set q : PbsPlan := { p.passed done cur rest tail with
      lateness := p.lateness + -first.instructionsPlanned }
    have hskip : skipFreeSlot b p = .ok q :=
      h.toValid.skipFreeSlot_eq hfree hfirst (by omega)
    have hvq : Valid q (done ++ [cur]) (rest.modifyHead start) (startTail rest tail) :=
      hvp.of_same rfl rfl rfl rfl
    refine ⟨q, _, _, _, hskip, h.next hvq rfl (fun hreal => absurd hfree hreal) ?_
      (fun _ => ⟨rfl, rfl⟩) ⟨rfl, rfl, rfl⟩, h.toValid.headReal_passed hfree, ?_⟩
    · rw [if_pos hfree, ← hplanned]
      rfl
    · rw [map_startHead instructionsLeft fun _ => rfl, List.map_cons, List.sum_cons, instructionsLeft,
        if_pos hfree, Nat.zero_add]
  · refine ⟨p, done, todo, tail, skipFreeSlot_real hcur hfree, h, fun c hc => ?_, rfl⟩
    rw [← Except.ok.inj (hcur.symm.trans hc)]
    exact hfree

end Next

section Credit

variable {o p : PbsPlan} {done todo rest tail : List PbsTask} {cur : PbsTask} {b : Build} {r : Int}

def PbsPlan.creditedOwn (p : PbsPlan) (r : Int) (done : List PbsTask) (cur : PbsTask)
    (rest : List PbsTask) : PbsPlan :=
  { p.withTasks (done ++ credited r cur :: rest) with
    processes := updateProcess p.processes p.curProcess (updateRetiredInstructionsProcess r)
    instructionsRetired := p.instructionsRetired + r }

theorem Valid.creditedOwn (hv : Valid p done (cur :: rest) tail) (r : Int) :
    Valid (p.creditedOwn r done cur (rest ++ tail)) done (credited r cur :: rest) tail :=
  hv.of_jobs (toList_withTasks_joint hv.toLayout.tasks_cons _) rfl
    (by rw [List.map_cons, List.map_cons, job_credited]) rfl rfl rfl rfl

theorem Valid.updateRetiredInstructions_own (hv : Valid p done (cur :: rest) tail)
    (hown : cur.slotOwner = cur.taskId) (hr : 0 ≤ r) (hi : ProcessIndex p.curProcess) :
    updateRetiredInstructions r p = .ok (p.creditedOwn r done cur (rest ++ tail)) := by
  have hlist := toList_withTasks_joint hv.toLayout.tasks_cons
    (pbsUpdateRetiredInstructionsTask r cur)
  have hfirst : p.modifyTask p.curTask (pbsUpdateRetiredInstructionsTask r) =
      .ok (p.withTasks (done ++ pbsUpdateRetiredInstructionsTask r cur :: (rest ++ tail))) := by
    rw [hv.cur]
    exact modifyTask_joint hv.toLayout.tasks_cons _
  have hslot : slotOfCurTask
      (p.withTasks (done ++ pbsUpdateRetiredInstructionsTask r cur :: (rest ++ tail))) =
      .ok done.length := by
    rw [slotOfCurTask, readCurTask_joint hlist hv.cur, ok_bind, if_pos (by simpa using hown)]
    exact congrArg Except.ok hv.cur
  have hsecond := modifyTask_joint hlist (creditSlot r)
  have hcredited : creditSlot r (pbsUpdateRetiredInstructionsTask r cur) = credited r cur := by
    rw [credited, if_pos hown]
  rw [hcredited] at hsecond
  rw [updateRetiredInstructions, if_neg (by omega), hfirst, ok_bind, hslot, ok_bind]
  change (PbsPlan.modifyTask _ _ (creditSlot r) >>= _) = _
  rw [hsecond, ok_bind]
  dsimp only [PbsPlan.withTasks]
  rw [modifyProcess_eq hi]
  rfl

end Credit

/-! ## A tick on schedule -/

/-- What the parsed plan says about a current task. -/
structure Due (p : PbsPlan) (cur : PbsTask) : Prop where
  own : cur.slotOwner = cur.taskId
  exact : cur.instructionsReal = cur.instructionsPlanned
  long : 2 ≤ cur.instructionsPlanned
  index : ProcessIndex p.curProcess
  length : 0 < (processAt p.processes p.curProcess).lengthPlan

section Tick

variable {o p q : PbsPlan} {done todo rest tail : List PbsTask} {cur : PbsTask} {b : Build} {r : Int}
  {s : System}

theorem OnSchedule.due (ho : Parsed o) (ha : Admissible o) (hpred : Predicted o)
    (h : OnSchedule o p done (cur :: rest) tail) (hcur : cur.taskId ≠ -1) : Due p cur := by
  obtain ⟨hlt, hframe⟩ := h.entry
  have hmem := List.getElem_mem hlt
  set t := o.parsedTasks[done.length]
  have hreal : t.taskId ≠ -1 := by rwa [frame_taskId hframe]
  have hpid : t.processId ≠ -1 := fun hpid => hreal ((ha.entries t hmem).2.2 hpid)
  have hindex := ho.pid t hmem hpid
  have hprocess : p.curProcess = t.processId := by
    rw [h.process cur h.readCurTask, processOf, if_pos hcur, frame_processId hframe]
  have hlong := hpred.length t hmem hreal
  refine ⟨?_, ?_, ?_, hprocess ▸ hindex, ?_⟩
  · rw [← frame_slotOwner hframe, ← frame_taskId hframe, (ho.fresh t hmem).slotOwner]
  · rw [← frame_instructionsReal hframe, ← frame_instructionsPlanned hframe,
      hpred.exact t hmem hreal]
  · rwa [← frame_instructionsPlanned hframe]
  · rw [(h.processes _).2, hprocess, (ho.processes _).2.2 hindex]
    refine lt_of_lt_of_le (show 0 < t.instructionsPlanned by omega) (value_le_total hmem rfl ?_)
    intro u hu hsame
    have hnonneg := hindex.1
    have hlong' := hpred.length u hu fun hfree => by
      have hpid' := (ha.entries u hu).2.1 hfree
      omega
    omega

theorem OnSchedule.lateness_bounds (ha : Admissible o) (hpred : Predicted o)
    (hfits : FitsFifth (fun _ => o.bookedLength) o)
    (h : OnSchedule o p done (cur :: rest) tail) (hcur : cur.taskId ≠ -1) :
    p.lateness ≤ 0 ∧ 0 ≤ 5 * p.lateness + p.instructionsPlanned := by
  obtain ⟨hlt, hframe⟩ := h.entry
  have hbooked := h.exists_bookedLength ha hpred
  have hnonneg : 0 ≤ freeTime (fun _ => o.bookedLength) (o.parsedTasks.take done.length) :=
    total_nonneg fun _ _ => by omega
  have hfit := hfits done.length hlt (by rwa [frame_taskId hframe])
  rw [h.lateness, h.constants.2.2]
  omega

theorem OnSchedule.clock (h : OnSchedule o p done todo tail) (stress tickCounter : Int) :
    OnSchedule o { p with stress := stress, tickCounter := tickCounter } done todo tail :=
  ⟨h.toValid.of_same rfl rfl rfl rfl, h.frames,
    h.tailFrames, h.finished, h.inTime, h.lateness, h.processes, h.constants⟩

theorem OnSchedule.credit (h : OnSchedule o p done (cur :: rest) tail)
    (hd : Due p cur) (hr : 0 ≤ r)
    (hlt : cur.instructionsRetiredTask + r < cur.instructionsReal) :
    OnSchedule o (p.creditedOwn r done cur (rest ++ tail)) done (credited r cur :: rest) tail := by
  have hcur := h.inTime cur (by simp)
  refine ⟨h.toValid.creditedOwn r, ?_, h.tailFrames, h.finished, ?_, h.lateness, fun i => ?_,
    h.constants⟩
  · rw [← h.frames]
    simp
  · intro t ht
    rcases List.mem_cons.1 ht with rfl | ht
    · refine ⟨?_, ?_, ?_, fun _ => ?_⟩
      · rw [state_credited, retire_state_of_lt r cur hlt]
        exact hcur.unfinished
      · rw [retiredSlot_credited, retiredTask_credited, if_pos hd.own, hcur.slot]
      · have hnonneg := hcur.nonneg
        rw [retiredTask_credited]
        omega
      · rwa [retiredTask_credited, instructionsReal_credited]
    · exact h.inTime t (by simp [ht])
  · change (processAt (updateProcess p.processes p.curProcess _) i).lateness = 0 ∧
      (processAt (updateProcess p.processes p.curProcess _) i).lengthPlan = _
    rw [@view_updateProcess _ _ _ hd.index (updateRetiredInstructionsProcess r) PbsProcess.lateness
        (fun _ => rfl),
      @view_updateProcess _ _ _ hd.index (updateRetiredInstructionsProcess r) PbsProcess.lengthPlan
        (fun _ => rfl)]
    exact h.processes i

theorem OnSchedule.finish (h : OnSchedule o p done (cur :: rest) tail) (hd : Due p cur)
    (hreal : cur.taskId ≠ -1)
    (hle : cur.instructionsReal ≤ cur.instructionsRetiredTask + r) (surplus : Int) :
    OnSchedule o (((p.creditedOwn r done cur (rest ++ tail)).booked surplus (credited r cur)).passed
      done (credited r cur) rest tail) (done ++ [credited r cur]) (rest.modifyHead start)
      (startTail rest tail) := by
  have hontime : (credited r cur).instructionsReal - (credited r cur).instructionsPlanned = 0 := by
    rw [instructionsReal_credited, frame_instructionsPlanned (frame_credited r cur), hd.exact]
    omega
  refine h.next ((h.toValid.creditedOwn r).booked surplus).passed (frame_credited r cur)
    (fun _ => ?_) ?_ (fun i => ?_) ⟨rfl, rfl, rfl⟩
  · rw [state_credited]
    exact retire_state_of_le r cur hle
  · change p.lateness + ((credited r cur).instructionsReal - (credited r cur).instructionsPlanned) = _
    rw [hontime, if_neg hreal]
    omega
  · -- of the three updates of the process only the middle one is about lateness
    have hview : ∀ {α : Type} (g : PbsProcess → α),
        (∀ n x, g (updateRetiredInstructionsProcess n x) = g x) →
        (∀ x, g (updateLatenessProcess 0 x) = g x) →
        g (processAt (((p.creditedOwn r done cur (rest ++ tail)).booked surplus
          (credited r cur)).passed done (credited r cur) rest tail).processes i) =
        g (processAt p.processes i) := by
      intro α g hretired hlate
      change g (processAt (updateProcess (updateProcess (updateProcess p.processes p.curProcess _)
        p.curProcess (updateLatenessProcess _)) p.curProcess _) i) = _
      rw [hontime, view_updateProcess hd.index g (hretired _), view_updateProcess hd.index g hlate,
        view_updateProcess hd.index g (hretired _)]
    exact ⟨hview _ (fun _ _ => rfl) fun x => add_zero x.lateness,
      hview _ (fun _ _ => rfl) fun _ => rfl⟩

theorem OnSchedule.tick_wait (ho : Parsed o) (ha : Admissible o) (hpred : Predicted o)
    (hfits : FitsFifth (fun _ => o.bookedLength) o) (hb : b = .userland → 1 ≤ o.numProcesses)
    (hr : 0 ≤ r) (h : OnSchedule o s.plan done (cur :: rest) tail) (hreal : cur.taskId ≠ -1)
    (hlt : cur.instructionsRetiredTask + r < cur.instructionsReal) :
    preemptionPoint b r s = .ok none ∧
    ∃ q, pbsRunTimerTick b r s = .ok ⟨q, s.signals⟩ ∧
      OnSchedule o q done (credited r cur :: rest) tail := by
  have hd := h.due ho ha hpred hreal
  have hcredit := h.toValid.updateRetiredInstructions_own hd.own hr hd.index
  have hnum : s.plan.numTasks < 400 := h.constants.2.1 ▸ ho.numTasks_lt
  have hlive : cur.taskId ≠ -2 := (h.live cur (by simp)).1
  have h₁ := h.credit hd hr hlt
  set p₁ := s.plan.creditedOwn r done cur (rest ++ tail)
  have hread : p₁.readCurTask = .ok (credited r cur) := h₁.readCurTask
  have hreal₁ : (credited r cur).taskId ≠ -1 := by rwa [frame_taskId (frame_credited r cur)]
  have hd₁ := h₁.due ho ha hpred hreal₁
  have hin := h₁.inTime (credited r cur) (by simp)
  have hslot : (credited r cur).instructionsRetiredSlot ≤ (credited r cur).instructionsPlanned := by
    have hlt₁ := hin.lt hreal₁
    rw [hin.slot, ← hd₁.exact]
    omega
  have hlate := (h₁.lateness_bounds ha hpred hfits hreal₁).1
  have hsignal : signalIfT2 b { s with plan := p₁ } = .ok { s with plan := p₁ } :=
    signalIfT2_quiet (raisesT2_quiet hread hslot hd₁.index hd₁.length (h₁.processes _).1.le
      (fun hu => h₁.constants.1 ▸ hb hu) (h₁.constants.1 ▸ ho.numProcesses.1) hlate)
  have ht1 : checkT1 p₁ = .ok .ok := checkT1_quiet hread hd₁.own hslot
  constructor
  · exact preemptionPoint_waited h.readCurTask hlive hcredit hread hin.unfinished hsignal
      ⟨_, ht1, rfl⟩
  · refine ⟨_, ?_, h₁.clock (relieveStress p₁).stress (p₁.tickCounter + 1)⟩
    rw [tick_of_live hnum h.readCurTask hlive hcredit hread, if_neg hin.unfinished,
      scheduleTimerTick_of hsignal ht1, if_neg (by decide), ok_bind, relieveStress_eq]

theorem OnSchedule.tick_finish (ho : Parsed o) (ha : Admissible o) (hpred : Predicted o)
    (hfits : FitsFifth (fun _ => o.bookedLength) o) (hr : 0 ≤ r)
    (h : OnSchedule o s.plan done (cur :: rest) tail) (hreal : cur.taskId ≠ -1)
    (hle : cur.instructionsReal ≤ cur.instructionsRetiredTask + r) :
    preemptionPoint b r s = .ok none ∧
    ∃ q done' todo' tail', pbsRunTimerTick b r s = .ok ⟨q, s.signals⟩ ∧
      OnSchedule o q done' todo' tail' ∧ HeadReal q ∧
      (todo'.map instructionsLeft).sum = (rest.map instructionsLeft).sum := by
  have hd := h.due ho ha hpred hreal
  have hcredit := h.toValid.updateRetiredInstructions_own hd.own hr hd.index
  have hnum : s.plan.numTasks < 400 := h.constants.2.1 ▸ ho.numTasks_lt
  have hlive : cur.taskId ≠ -2 := (h.live cur (by simp)).1
  have hv₁ := h.toValid.creditedOwn r
  have hlate := (h.lateness_bounds ha hpred hfits hreal).2
  have hnext := h.finish hd hreal hle
  set p₁ := s.plan.creditedOwn r done cur (rest ++ tail)
  have hread : p₁.readCurTask = .ok (credited r cur) := hv₁.readCurTask
  have hstate : (credited r cur).state = .finished := by
    rw [state_credited]
    exact retire_state_of_le r cur hle
  have hsignal : signalIfTm2 b { s with plan := p₁ } = .ok { s with plan := p₁ } := by
    refine signalIfTm2_quiet (raisesTm2_quiet hread ?_ ?_ (h.constants.2.2 ▸ hpred.total) hlate)
    · rw [frame_instructionsPlanned (frame_credited r cur)]
      exact hd.long
    · rw [frame_instructionsPlanned (frame_credited r cur), retiredSlot_credited, if_pos hd.own,
        (h.inTime cur (by simp)).slot, ← hd.exact]
      exact hle
  constructor
  · exact preemptionPoint_finished h.readCurTask hlive hcredit hread hstate
  · set surplus := (credited r cur).instructionsRetiredSlot - (credited r cur).instructionsReal
    obtain ⟨q, done', todo', tail', hskip, h', hh', hleft⟩ := (hnext surplus).skip (b := b) ha hpred
    have hbook := bookFinishedTask_eq hv₁.toLayout hd.index surplus
    refine ⟨_, done', todo', tail', ?_, h'.clock q.stress (q.tickCounter + 1), hh', ?_⟩
    · rw [tick_of_live hnum h.readCurTask hlive hcredit hread, if_pos hstate,
        scheduleTaskFinished_of hread hsignal hbook hread hstate
          (hv₁.booked surplus).toLayout.updateCurProcess_next hskip]
      rfl
    · rw [hleft, map_startHead instructionsLeft fun _ => rfl]

end Tick

section Run

variable {o : PbsPlan} {done todo tail : List PbsTask} {b : Build} {r : Int} {s : System}

/-- A tick on schedule raises no signal and preempts no task, and before the terminator it
executes instructions of the current task. -/
theorem OnSchedule.tick (ho : Parsed o) (ha : Admissible o) (hpred : Predicted o)
    (hfits : FitsFifth (fun _ => o.bookedLength) o) (hb : b = .userland → 1 ≤ o.numProcesses)
    (hr : 0 < r) (h : OnSchedule o s.plan done todo tail) (hh : HeadReal s.plan) :
    preemptionPoint b r s = .ok none ∧
    ∃ q done' todo' tail', pbsRunTimerTick b r s = .ok ⟨q, s.signals⟩ ∧
      OnSchedule o q done' todo' tail' ∧ HeadReal q ∧
      (todo ≠ [] → (todo'.map instructionsLeft).sum < (todo.map instructionsLeft).sum) := by
  cases todo with
  | nil =>
      obtain ⟨t, hread, hid⟩ := h.toLayout.ended
      have hnum : s.plan.numTasks < 400 := h.constants.2.1 ▸ ho.numTasks_lt
      exact ⟨preemptionPoint_ended hread hid, s.plan, done, [], tail,
        tick_of_ended hnum hread hid, h, hh, fun hne => absurd rfl hne⟩
  | cons cur rest =>
      have hreal := hh cur h.readCurTask
      have hlt := (h.inTime cur (by simp)).lt hreal
      have hleft : instructionsLeft cur =
          (cur.instructionsReal - cur.instructionsRetiredTask).toNat := by
        rw [instructionsLeft, if_neg hreal]
      simp only [List.map_cons, List.sum_cons, hleft]
      rcases Int.lt_or_le (cur.instructionsRetiredTask + r) cur.instructionsReal with hrun | hend
      · obtain ⟨hpoint, q, htick, h'⟩ := h.tick_wait ho ha hpred hfits hb hr.le hreal hrun
        refine ⟨hpoint, q, done, _, tail, htick, h', fun c hc => ?_, fun _ => ?_⟩
        · obtain rfl := Except.ok.inj (h'.readCurTask.symm.trans hc)
          rwa [frame_taskId (frame_credited r cur)]
        · rw [List.map_cons, List.sum_cons, instructionsLeft, frame_taskId (frame_credited r cur),
            if_neg hreal, instructionsReal_credited, retiredTask_credited]
          omega
      · obtain ⟨hpoint, q, done', todo', tail', htick, h', hh', hsum⟩ :=
          h.tick_finish ho ha hpred hfits hr.le hreal hend
        refine ⟨hpoint, q, done', todo', tail', htick, h', hh', fun _ => ?_⟩
        rw [hsum]
        omega

/-- A plan in which every task needs what was planned for it, and whose free slots in front of
its tasks take at most a fifth of it, as planned and as booked, is run to its end without a
signal and without a preemption, in the planned order.  A fifth as planned is the condition of the
design; what `handle_free_slot` books is what the steps of the run need. -/
theorem quiet_run {text : List Char} {pmu : Nat → Int}
    (hparse : parsePlan text zeroedPlan = .ok s.plan) (hadmissible : Admissible s.plan)
    (hpredicted : Predicted s.plan)
    (hfits : FitsFifth PbsTask.instructionsPlanned s.plan ∧
      FitsFifth (fun _ => s.plan.bookedLength) s.plan)
    (hb : b = .userland → 1 ≤ s.plan.numProcesses) (hpmu : ∀ k, 0 < pmu k) :
    (∀ k, ∃ t, runTicks b pmu s k = .ok t ∧ t.signals = s.signals ∧
      preemptionPoint b (pmu k) t = .ok none ∧
      t.plan.tasks.toList.map PbsTask.frame = s.plan.tasks.toList.map PbsTask.frame ∧
      (∀ u ∈ t.plan.doneTasks, u.taskId ≠ -1 → u.state = .finished) ∧
      ∀ u ∈ t.plan.todoTasks, u.state ≠ .finished) ∧
    ∃ k t cur, runTicks b pmu s k = .ok t ∧ t.plan.readCurTask = .ok cur ∧ cur.taskId = -2 := by
  have hparsed := parsePlan_parsed hparse
  have hstart := hparsed.onSchedule hadmissible hpredicted
  set I : System → Prop := fun t => t.signals = s.signals ∧ HeadReal t.plan ∧
    ∃ done todo tail, OnSchedule s.plan t.plan done todo tail
  have h0 : I s := ⟨rfl, hparsed.headReal hadmissible, _, _, _, hstart⟩
  have hstep : ∀ k t, I t → preemptionPoint b (pmu k) t = .ok none ∧
      ∃ u, pbsRunTimerTick b (pmu k) t = .ok u ∧ I u ∧ (t.plan.todoTasks ≠ [] →
        (u.plan.todoTasks.map instructionsLeft).sum <
          (t.plan.todoTasks.map instructionsLeft).sum) := by
    rintro k t ⟨hsignals, hhead, done, todo, tail, h⟩
    obtain ⟨hpoint, q, done', todo', tail', htick, h', hh', hlt⟩ :=
      h.tick hparsed hadmissible hpredicted hfits.2 hb (hpmu k) hhead
    refine ⟨hpoint, _, htick, ⟨hsignals, hh', done', todo', tail', h'⟩, ?_⟩
    rw [h.toLayout.todoTasks_eq, h'.toLayout.todoTasks_eq]
    exact hlt
  constructor
  · intro k
    obtain ⟨t, ht, hI⟩ := run_total h0 (fun j u hu => by
      obtain ⟨_, v, hv, hIv, _⟩ := hstep j u hu
      exact ⟨v, hv, hIv⟩) k
    obtain ⟨hsignals, _, done, todo, tail, h⟩ := id hI
    refine ⟨t, ht, hsignals, (hstep k t hI).1, h.map_frame, ?_, ?_⟩
    · rw [h.toLayout.doneTasks_eq]
      exact h.finished
    · rw [h.toLayout.todoTasks_eq]
      exact fun u hu => (h.inTime u hu).unfinished
  · obtain ⟨k, t, _, ht, ⟨_, _, done, todo, tail, h⟩, hdone⟩ :=
      run_reaches (m := fun t => (t.plan.todoTasks.map instructionsLeft).sum)
        (D := fun t => t.plan.todoTasks = []) h0 fun j u hu hne => by
        obtain ⟨_, v, hv, hIv, hlt⟩ := hstep j u hu
        exact ⟨v, hv, hIv, hlt hne⟩
    rw [h.toLayout.todoTasks_eq] at hdone
    subst hdone
    obtain ⟨cur, hcur, hid⟩ := h.toLayout.ended
    exact ⟨k, t, cur, ht, hcur, hid⟩

end Run

set_option maxRecDepth 4000 in
/-- A free slot of a tenth of the plan is skipped without a signal. -/
theorem quiet_run_skipped :
    ∃ p, parsePlan "1;0,0;;;0,0,10,10;-1,-1,10,0;0,1,90,90;".toList zeroedPlan = .ok p ∧
      ∃ k t cur, runTicks .userland everyTick ⟨p, zeroedSignals⟩ k = .ok t ∧
        t.plan.readCurTask = .ok cur ∧ cur.taskId = -2 := by
  obtain ⟨p, t, hp, ht, hcheck⟩ :=
    @of_onRun .userland "1;0,0;;;0,0,10,10;-1,-1,10,0;0,1,90,90;".toList everyTick 0
      (fun p _ => decide (Admissible p ∧ Predicted p ∧ FitsFifth PbsTask.instructionsPlanned p ∧
        FitsFifth (fun _ => p.bookedLength) p ∧ 1 ≤ p.numProcesses)) (by decide +kernel)
  simp only [decide_eq_true_eq] at hcheck
  obtain ⟨hadmissible, hpredicted, hplanned, hbooked, hn⟩ := hcheck
  exact ⟨p, hp, (quiet_run (s := ⟨p, zeroedSignals⟩) (b := .userland) hp hadmissible hpredicted
    ⟨hplanned, hbooked⟩ (fun _ => hn) fun _ => show 0 < getRetiredInstructions by decide).2⟩

set_option maxRecDepth 4000 in
/-- The free slot takes a third of the plan, so that the task behind it finishes too early for
Tm2; and with assertions a plan without processes is not run to its end. -/
theorem quiet_run_early :
    (∃ p t, parsePlan "1;0,0;;;0,0,10,10;-1,-1,10,0;0,1,10,10;".toList zeroedPlan = .ok p ∧
      Admissible p ∧ Predicted p ∧ p.bookedLength = 10 ∧
      runTicks .userland everyTick ⟨p, zeroedSignals⟩ 2 = .ok t ∧
      t.signals.predictionFailuresCaused = 1) ∧
    ∃ p, parsePlan "0;0,0;;;0,0,20000000,20000000;".toList zeroedPlan = .ok p ∧ Admissible p ∧
      Predicted p ∧
      runTicks .userland everyTick ⟨p, zeroedSignals⟩ 1 = .error (.assertion .calculateT2Node) := by
  constructor
  · obtain ⟨p, t, hp, ht, hcheck⟩ :=
      @of_onRun .userland "1;0,0;;;0,0,10,10;-1,-1,10,0;0,1,10,10;".toList everyTick 2
        (fun p t => decide (Admissible p ∧ Predicted p ∧ p.bookedLength = 10 ∧
          t.signals.predictionFailuresCaused = 1)) (by decide +kernel)
    simp only [decide_eq_true_eq] at hcheck
    obtain ⟨hadmissible, hpredicted, hbooked, hsignal⟩ := hcheck
    exact ⟨p, t, hp, hadmissible, hpredicted, hbooked, ht, hsignal⟩
  · obtain ⟨p, t, hp, ht, hcheck⟩ :=
      @of_onRun .userland "0;0,0;;;0,0,20000000,20000000;".toList everyTick 0
        (fun p _ => decide (Admissible p ∧ Predicted p ∧
          faultOf (runTicks .userland everyTick ⟨p, zeroedSignals⟩ 1) =
            some (.assertion .calculateT2Node))) (by decide +kernel)
    simp only [decide_eq_true_eq] at hcheck
    obtain ⟨hadmissible, hpredicted, hfault⟩ := hcheck
    exact ⟨p, hp, hadmissible, hpredicted, eq_error_of_faultOf hfault⟩

end PbsLevel2

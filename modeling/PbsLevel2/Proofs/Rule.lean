import PbsLevel2.Proofs.Tick

/-!
# The invariant rule of a tick

A tick moves the agenda by passing the due job, by passing a free slot and by putting off
a stack.  A property of plans that each of these operations keeps is kept by the tick.
-/

namespace PbsLevel2

open Lib

/-! ## Operations on valid plans -/

section Valid

variable {p q : PbsPlan} {done todo tail rest blk ns post : List PbsTask} {cur n f : PbsTask}

theorem Placed.bumped (hv : Placed p done (cur :: todo) tail) :
    Placed (p.bumped done cur (todo ++ tail)) done (bump cur :: todo) tail :=
  hv.of_jobs hv.toLayout.bumped.tasks rfl rfl rfl rfl rfl rfl

theorem Valid.bumped (hv : Valid p done (cur :: todo) tail) :
    Valid (p.bumped done cur (todo ++ tail)) done (bump cur :: todo) tail :=
  hv.of_jobs hv.toLayout.bumped.tasks rfl rfl rfl rfl rfl rfl

theorem agenda_rotated (hc : Cut cur todo blk n ns f post) (done : List PbsTask) :
    agenda done (cur :: todo) = ⟨done.map PbsTask.job,
      (cur :: blk).map PbsTask.job ++ ((n :: ns).map PbsTask.job ++ f.job :: post.map PbsTask.job)⟩ ∧
    agenda done (changeTaskState n .running :: ns ++
      ((bump cur :: blk).map (hosted f.taskId) ++ f :: post)) = ⟨done.map PbsTask.job,
        (n :: ns).map PbsTask.job ++
          ((cur :: blk).map PbsTask.job ++ f.job :: post.map PbsTask.job)⟩ := by
  constructor
  · rw [agenda, hc.todo_eq]
    simp
  · rw [agenda]
    simp only [List.map_append, List.map_cons, List.map_map]
    rfl

theorem Cut.jobs_perm (hc : Cut cur todo blk n ns f post) :
    ((changeTaskState n .running :: ns ++
      ((bump cur :: blk).map (hosted f.taskId) ++ f :: post)).map PbsTask.job).Perm
        ((cur :: todo).map PbsTask.job) :=
  hc.view_perm f.taskId (fun _ => rfl) (fun _ => rfl) (fun _ => rfl)

theorem Cut.move (hc : Cut cur todo blk n ns f post) (hv : Valid p done (cur :: todo) tail)
    (hcur : cur.taskId ≠ -1) {allowed : List Job → List Job → Prop}
    (hallowed : allowed ((cur :: blk).map PbsTask.job) ((n :: ns).map PbsTask.job)) :
    Agenda.Move Job.processId Idle allowed (agenda done (cur :: todo))
      (agenda done (changeTaskState n .running :: ns ++
        ((bump cur :: blk).map (hosted f.taskId) ++ f :: post))) := by
  obtain ⟨hbefore, hafter⟩ := agenda_rotated hc done
  have hpid : cur.processId ≠ -1 := fun h => hcur ((hv.free cur (by simp)).2 h)
  rw [hbefore, hafter]
  refine .postpone _ _ _ _ f.job ?_ ?_ hallowed
  · intro j hj
    obtain ⟨t, ht, rfl⟩ := List.mem_map.1 hj
    rcases List.mem_cons.1 ht with rfl | ht
    · exact hc.next.symm
    · exact (hc.stack t ht).2.1.symm.trans hc.next.symm
  · rw [Idle]
    exact fun h => hpid (hc.next.symm.trans h)

theorem Placed.rotated (hv : Placed p done (cur :: todo) tail)
    (hc : Cut cur todo blk n ns f post) :
    Placed (p.rotated done n ns cur blk f (post ++ tail)) done
      (changeTaskState n .running :: ns ++
        ((bump cur :: blk).map (hosted f.taskId) ++ f :: post)) tail := by
  refine ⟨hv.toLayout.rotated hc, ?_, ?_⟩
  · intro t ht
    have hjobs : t.job ∈ (done ++ cur :: todo).map PbsTask.job := by
      rw [List.map_append]
      apply (hc.jobs_perm.append_left (done.map PbsTask.job)).subset
      rw [← List.map_append]
      exact List.mem_map_of_mem ht
    obtain ⟨u, hu, hjob⟩ := List.mem_map.1 hjobs
    rw [← job_taskId hjob, ← job_processId hjob]
    exact hv.free u hu
  · intro c hread
    have hc' := (hv.toLayout.rotated hc).readCurTask
    rw [hread] at hc'
    cases hc'
    rfl

theorem Valid.rotated (hv : Valid p done (cur :: todo) tail) (hcur : cur.taskId ≠ -1)
    (hc : Cut cur todo blk n ns f post) :
    Valid (p.rotated done n ns cur blk f (post ++ tail)) done
      (changeTaskState n .running :: ns ++
        ((bump cur :: blk).map (hosted f.taskId) ++ f :: post)) tail := by
  have hmove : Agenda.Move Job.processId Idle (fun _ _ => True) _ _ := hc.move hv hcur trivial
  exact ⟨hv.toPlaced.rotated hc, hmove.spaced hv.spaced⟩

end Valid

/-! ## The rule -/

/-- What the parser settles about a plan as a whole. -/
def PbsPlan.header (p : PbsPlan) : Int × Nat × Int :=
  (p.numProcesses, p.numTasks, p.instructionsPlanned)

/-- The two plans agree on everything but the node lateness, the stress, the clock and the
state of the plan. -/
structure SameBooks (p q : PbsPlan) : Prop where
  header : q.header = p.header
  tasks : q.tasks = p.tasks
  curTask : q.curTask = p.curTask
  indexCurTask : q.indexCurTask = p.indexCurTask
  curProcess : q.curProcess = p.curProcess
  processes : q.processes = p.processes
  instructionsRetired : q.instructionsRetired = p.instructionsRetired
  tasksFinished : q.tasksFinished = p.tasksFinished

theorem sameBooks (p : PbsPlan) (lateness stress tickCounter : Int) (state : PlanState) :
    SameBooks p { p with
      lateness := lateness, stress := stress, tickCounter := tickCounter, state := state } :=
  ⟨rfl, rfl, rfl, rfl, rfl, rfl, rfl, rfl⟩

/-- `K` is kept by every operation of a tick, by the booking of a finished task provided
that it satisfies `F`. -/
structure Maintained (F : PbsTask → Prop) (K : PbsPlan → Prop) : Prop where
  congr : ∀ {p q : PbsPlan}, SameBooks p q → K p → K q
  credit : ∀ {p q : PbsPlan} {done rest tail : List PbsTask} {cur : PbsTask} {r : Int},
    Valid p done (cur :: rest) tail → cur.taskId ≠ -1 → 0 ≤ r →
    updateRetiredInstructions r p = .ok q → K p → K q
  signal : ∀ {p : PbsPlan} {done todo tail : List PbsTask} {factor pid : Int},
    Valid p done todo tail → ProcessIndex p.curProcess → K p →
    K (p.rescheduled done todo tail factor pid)
  finish : ∀ {p : PbsPlan} {done rest tail : List PbsTask} {cur : PbsTask},
    Valid p done (cur :: rest) tail → cur.taskId ≠ -1 → ProcessIndex p.curProcess → F cur → K p →
    K ((p.booked (cur.instructionsRetiredSlot - cur.instructionsReal) cur).passed done cur rest tail)
  skip : ∀ {p : PbsPlan} {done rest tail : List PbsTask} {cur : PbsTask},
    Valid p done (cur :: rest) tail → cur.taskId = -1 → K p → K (p.passed done cur rest tail)
  giveUp : ∀ {p q : PbsPlan} {done todo tail : List PbsTask} {cur : PbsTask},
    Valid p done (cur :: todo) tail → cur.taskId ≠ -1 →
    cur.instructionsRetiredTask < cur.instructionsReal →
    updateRetiredInstructions (cur.instructionsReal - cur.instructionsRetiredTask)
      (p.bumped done cur (todo ++ tail)) = .ok q → K p → K q
  rotate : ∀ {p : PbsPlan} {done todo tail blk ns post : List PbsTask} {cur n f : PbsTask},
    Valid p done (cur :: todo) tail → cur.taskId ≠ -1 →
    cur.instructionsRetiredTask < cur.instructionsReal → Cut cur todo blk n ns f post → K p →
    K (p.rotated done n ns cur blk f (post ++ tail))

/-- `K` does not depend on the count of the preemptions either. -/
structure Kept (F : PbsTask → Prop) (K : PbsPlan → Prop) : Prop extends Maintained F K where
  bump : ∀ {p : PbsPlan} {done todo tail : List PbsTask} {cur : PbsTask},
    Valid p done (cur :: todo) tail → cur.taskId ≠ -1 → K p → K (p.bumped done cur (todo ++ tail))
  giveUp := fun hv hcur hrun hq h =>
    credit hv.bumped hcur (Int.sub_nonneg_of_le (Int.le_of_lt hrun)) hq (bump hv hcur h)

theorem Kept.and {F : PbsTask → Prop} {K L : PbsPlan → Prop} (hK : Kept F K) (hL : Kept F L) :
    Kept F fun p => K p ∧ L p where
  congr := fun hsame h => ⟨hK.congr hsame h.1, hL.congr hsame h.2⟩
  credit := fun hv hcur hr hq h => ⟨hK.credit hv hcur hr hq h.1, hL.credit hv hcur hr hq h.2⟩
  signal := fun hv hi h => ⟨hK.signal hv hi h.1, hL.signal hv hi h.2⟩
  finish := fun hv hcur hi hF h => ⟨hK.finish hv hcur hi hF h.1, hL.finish hv hcur hi hF h.2⟩
  skip := fun hv hfree h => ⟨hK.skip hv hfree h.1, hL.skip hv hfree h.2⟩
  bump := fun hv hcur h => ⟨hK.bump hv hcur h.1, hL.bump hv hcur h.2⟩
  rotate := fun hv hcur hrun hc h =>
    ⟨hK.rotate hv hcur hrun hc h.1, hL.rotate hv hcur hrun hc h.2⟩

/-- `K` is kept by every operation of a tick whatever the current entry is: the kernel build goes
on where a free slot becomes current. -/
structure Upheld (K : PbsPlan → Prop) : Prop where
  congr : ∀ {p q : PbsPlan}, SameBooks p q → K p → K q
  credit : ∀ {p q : PbsPlan} {done rest tail : List PbsTask} {cur : PbsTask} {r : Int},
    Placed p done (cur :: rest) tail → 0 ≤ r → updateRetiredInstructions r p = .ok q → K p → K q
  signal : ∀ {p : PbsPlan} {done todo tail : List PbsTask} {factor pid : Int},
    Placed p done todo tail → ProcessIndex p.curProcess → K p →
    K (p.rescheduled done todo tail factor pid)
  finish : ∀ {p : PbsPlan} {done rest tail : List PbsTask} {cur : PbsTask} {surplus : Int},
    Placed p done (cur :: rest) tail → ProcessIndex p.curProcess → K p →
    K ((p.booked surplus cur).passed done cur rest tail)
  skip : ∀ {p : PbsPlan} {done rest tail : List PbsTask} {cur : PbsTask},
    Placed p done (cur :: rest) tail → K p → K (p.passed done cur rest tail)
  bump : ∀ {p : PbsPlan} {done todo tail : List PbsTask} {cur : PbsTask},
    Placed p done (cur :: todo) tail → K p → K (p.bumped done cur (todo ++ tail))
  rotate : ∀ {p : PbsPlan} {done todo tail blk ns post : List PbsTask} {cur n f : PbsTask},
    Placed p done (cur :: todo) tail → cur.instructionsRetiredTask < cur.instructionsReal →
    Cut cur todo blk n ns f post → K p → K (p.rotated done n ns cur blk f (post ++ tail))

theorem Upheld.kept {K : PbsPlan → Prop} (hk : Upheld K) : Kept (fun _ => True) K where
  congr := hk.congr
  credit := fun hv _ => hk.credit hv.toPlaced
  signal := fun hv => hk.signal hv.toPlaced
  finish := fun hv _ hi _ => hk.finish hv.toPlaced hi
  skip := fun hv _ => hk.skip hv.toPlaced
  bump := fun hv _ => hk.bump hv.toPlaced
  rotate := fun hv _ => hk.rotate hv.toPlaced

theorem Upheld.and {K L : PbsPlan → Prop} (hK : Upheld K) (hL : Upheld L) :
    Upheld fun p => K p ∧ L p where
  congr := fun hsame h => ⟨hK.congr hsame h.1, hL.congr hsame h.2⟩
  credit := fun hv hr hq h => ⟨hK.credit hv hr hq h.1, hL.credit hv hr hq h.2⟩
  signal := fun hv hi h => ⟨hK.signal hv hi h.1, hL.signal hv hi h.2⟩
  finish := fun hv hi h => ⟨hK.finish hv hi h.1, hL.finish hv hi h.2⟩
  skip := fun hv h => ⟨hK.skip hv h.1, hL.skip hv h.2⟩
  bump := fun hv h => ⟨hK.bump hv h.1, hL.bump hv h.2⟩
  rotate := fun hv hrun hc h => ⟨hK.rotate hv hrun hc h.1, hL.rotate hv hrun hc h.2⟩

theorem upheld_process {α : Type} (g : PbsProcess → α)
    (hretired : ∀ n q, g (updateRetiredInstructionsProcess n q) = g q)
    (hlateness : ∀ n q, g (updateLatenessProcess n q) = g q)
    (hsettled : ∀ q : PbsProcess, g { q with lateness := 0 } = g q) (c : Int → α) :
    Upheld fun p => ∀ i, g (processAt p.processes i) = c i where
  congr := fun hsame h i => by rw [hsame.processes]; exact h i
  credit := by
    intro p q done rest tail cur r hv hr hq h i
    obtain ⟨_, _, _, _, _, _, _, hi, heq⟩ := hv.toLayout.retire hr hq
    rw [heq]
    exact (view_updateProcess hi g (hretired r) i).trans (h i)
  signal := fun _ hi h i => (view_updateProcess hi g hsettled i).trans (h i)
  finish := fun _ hi h i =>
    (view_updateProcess hi g (hretired _) i).trans
      ((view_updateProcess hi g (hlateness _) i).trans (h i))
  skip := fun _ h => h
  bump := fun _ h => h
  rotate := fun _ _ _ h => h

theorem upheld_header (c : Int × Nat × Int) : Upheld fun p => p.header = c where
  congr := fun hsame h => hsame.header.trans h
  credit := by
    intro p q done rest tail cur r hv hr hq h
    obtain ⟨_, _, _, _, _, _, _, _, heq⟩ := hv.toLayout.retire hr hq
    rw [heq]
    exact h
  signal := fun _ _ h => h
  finish := fun _ _ h => h
  skip := fun _ h => h
  bump := fun _ h => h
  rotate := fun _ _ _ h => h

/-- A valid plan with agenda `a` that satisfies `K`. -/
def At (K : PbsPlan → Prop) (a : Agenda Job) (p : PbsPlan) : Prop :=
  ∃ done todo tail, Valid p done todo tail ∧ agenda done todo = a ∧ K p

section Rule

variable {F : PbsTask → Prop} {K : PbsPlan → Prop} {a : Agenda Job} {p q : PbsPlan} {b : Build}
  {r : Int} {s s' : System} {allowed : List Job → List Job → Prop}

theorem HeadReal.of_agenda {done todo tail done' todo' tail' : List PbsTask}
    (hh : HeadReal p) (hv : Valid p done todo tail) (hv' : Valid q done' todo' tail')
    (htodo : todo'.map PbsTask.job = todo.map PbsTask.job) : HeadReal q := by
  intro c hc hid
  obtain ⟨rest, rfl⟩ := hv'.of_readCurTask hc (by omega)
  rw [List.map_cons] at htodo
  obtain ⟨t, rest', rfl, hjob, _⟩ := List.map_eq_cons_iff.1 htodo.symm
  exact hh t hv.readCurTask ((job_taskId hjob).trans hid)

theorem Maintained.congrAt (hk : Maintained F K) (h : At K a p) (hsame : SameBooks p q) :
    At K a q := by
  obtain ⟨done, todo, tail, hv, ha, hK⟩ := h
  refine ⟨done, todo, tail, ?_, ha, hk.congr hsame hK⟩
  exact hv.of_jobs (by rw [hsame.tasks]; exact hv.tasks) rfl rfl rfl hsame.curTask
    hsame.indexCurTask hsame.curProcess

theorem Maintained.creditAt (hk : Maintained F K) (h : At K a p) (hh : HeadReal p) (hr : 0 ≤ r)
    (hq : updateRetiredInstructions r p = .ok q) : At K a q ∧ HeadReal q := by
  obtain ⟨done, todo, tail, hv, rfl, hK⟩ := h
  obtain ⟨cur, rest, rfl⟩ := hv.retire_todo hr hq
  have hcur : cur.taskId ≠ -1 := hh cur hv.readCurTask
  obtain ⟨done', rest', tail', hv', hd, hrest, _⟩ := hv.credit hr hq
  have htodo : (credited r cur :: rest').map PbsTask.job = (cur :: rest).map PbsTask.job := by
    rw [List.map_cons, List.map_cons, job_credited, map_job_of_body hrest]
  refine ⟨⟨done', _, tail', hv', ?_, hk.credit hv hcur hr hq hK⟩, hh.of_agenda hv hv' htodo⟩
  rw [agenda, agenda, htodo, map_job_of_body hd]

/-- From `s` to `s₂` a signal was raised, or nothing was done. -/
def Signalled (b : Build) (s s₂ : System) : Prop :=
  s₂ = s ∨ signalT2 b s = .ok s₂ ∨ signalTm2 b s = .ok s₂

theorem signalIfT2_eq_ok {s₂ : System} (h : signalIfT2 b s = .ok s₂) : Signalled b s s₂ := by
  obtain ⟨raised, _, h⟩ := bind_eq_ok.1 h
  cases raised
  · exact .inl (Except.ok.inj h).symm
  · exact .inr (.inl h)

theorem signalIfTm2_eq_ok {s₂ : System} (h : signalIfTm2 b s = .ok s₂) : Signalled b s s₂ := by
  obtain ⟨raised, _, h⟩ := bind_eq_ok.1 h
  cases raised
  · exact .inl (Except.ok.inj h).symm
  · exact .inr (.inr h)

theorem readCurTask_rescheduled {done todo tail : List PbsTask} (hv : Valid p done todo tail)
    (factor pid : Int) {cur : PbsTask} (hcur : p.readCurTask = .ok cur) :
    ∃ planned, (p.rescheduled done todo tail factor pid).readCurTask =
      .ok { cur with instructionsPlanned := planned } := by
  have hv' := hv.rescheduled factor pid
  cases todo with
  | nil =>
      obtain ⟨c, rest, heq, hc⟩ := hv.head
      obtain ⟨c', rest', heq', hc'⟩ := hv'.head
      obtain rfl := Except.ok.inj (hcur.symm.trans hc)
      rw [List.map_nil, heq] at heq'
      obtain ⟨rfl, _⟩ := List.cons.inj heq'
      exact ⟨cur.instructionsPlanned, hc'⟩
  | cons t todo =>
      obtain rfl := Except.ok.inj (hcur.symm.trans hv.readCurTask)
      have hread : (p.rescheduled done (cur :: todo) tail factor pid).readCurTask =
          .ok (rescale factor pid cur) := hv'.readCurTask
      rw [hread, rescale]
      split
      · exact ⟨_, rfl⟩
      · exact ⟨cur.instructionsPlanned, rfl⟩

theorem Maintained.signalAt {s₂ : System} (hk : Maintained F K) (h : At K a s.plan)
    (hs : Signalled b s s₂) :
    At K a s₂.plan ∧ (HeadReal s.plan → HeadReal s₂.plan) ∧
    ∀ cur, s.plan.readCurTask = .ok cur →
      ∃ planned, s₂.plan.readCurTask = .ok { cur with instructionsPlanned := planned } := by
  obtain ⟨done, todo, tail, hv, rfl, hK⟩ := h
  have hresched : ∀ factor pid, ProcessIndex s.plan.curProcess →
      s₂.plan = PbsPlan.rescheduled { s.plan with stress := stressReset } done todo tail factor pid →
      At K (agenda done todo) s₂.plan ∧ (HeadReal s.plan → HeadReal s₂.plan) ∧
      ∀ cur, s.plan.readCurTask = .ok cur →
        ∃ planned, s₂.plan.readCurTask = .ok { cur with instructionsPlanned := planned } := by
    intro factor pid hi heq
    rw [heq]
    have hvs := hv.stressed stressReset
    have hvr := hvs.rescheduled factor pid
    have hKs : K { s.plan with stress := stressReset } :=
      hk.congr (sameBooks s.plan _ _ _ _) hK
    refine ⟨⟨done, _, tail, hvr, ?_, hk.signal hvs hi hKs⟩, fun hh => ?_, fun cur hcur => ?_⟩
    · rw [agenda, agenda, map_job_rescale]
    · exact HeadReal.of_agenda hh hv hvr (map_job_rescale _ _ _)
    · exact readCurTask_rescheduled hvs factor pid hcur
  rcases hs with rfl | hs | hs
  · exact ⟨⟨done, todo, tail, hv, rfl, hK⟩, id, fun cur hcur => ⟨cur.instructionsPlanned, hcur⟩⟩
  · obtain ⟨hi, heq, _⟩ := signalT2_eq_ok hv.toLayout hs
    exact hresched _ _ hi heq
  · obtain ⟨hi, heq, _⟩ := signalTm2_eq_ok hv.toLayout hs
    exact hresched _ _ hi heq

theorem Maintained.finishAt (hk : Maintained F K) (allowed : List Job → List Job → Prop)
    (h : At K a p) (hh : HeadReal p) {cur : PbsTask}
    (hcur : p.readCurTask = .ok cur) (hlive : cur.taskId ≠ -2) (hF : F cur)
    (hq : (bookFinishedTask (cur.instructionsRetiredSlot - cur.instructionsReal) p >>=
      advanceCurTask) = .ok q) :
    ∃ a', At K a' q ∧ Agenda.Move Job.processId Idle allowed a a' := by
  obtain ⟨done, todo, tail, hv, rfl, hK⟩ := h
  obtain ⟨rest, rfl⟩ := hv.of_readCurTask hcur hlive
  obtain ⟨hi, rfl⟩ := finishTask_eq_ok hv.toPlaced hq
  have hvp := (hv.booked (cur.instructionsRetiredSlot - cur.instructionsReal)).passed
  refine ⟨_, ⟨_, _, _, hvp, rfl, hk.finish hv (hh cur hcur) hi hF hK⟩, ?_⟩
  rw [agenda, agenda, map_job_startHead, List.map_append]
  exact .pass _ _ _

theorem Maintained.skipAt (hk : Maintained F K) (allowed : List Job → List Job → Prop)
    (h : At K a p)
    (hq : skipFreeSlot b p = .ok q) :
    ∃ a', At K a' q ∧ HeadReal q ∧ Agenda.Moves Job.processId Idle allowed a a' := by
  obtain ⟨done, todo, tail, hv, rfl, hK⟩ := h
  rcases skipFreeSlot_eq_ok hv.toLayout hq with ⟨hh, rfl⟩ | ⟨cur, rest, first, rfl, hfree, _, hq⟩
  · exact ⟨_, ⟨done, todo, tail, hv, rfl, hK⟩, hh, Agenda.Moves.refl _⟩
  · have hh := hv.headReal_passed hfree
    have hat : At K (agenda (done ++ [cur]) (rest.modifyHead start))
        (p.passed done cur rest tail) := ⟨_, _, _, hv.passed, rfl, hk.skip hv hfree hK⟩
    have hmove : Agenda.Moves Job.processId Idle allowed (agenda done (cur :: rest))
        (agenda (done ++ [cur]) (rest.modifyHead start)) := by
      rw [agenda, agenda, map_job_startHead, List.map_append]
      exact (Agenda.Move.pass _ _ _).moves
    by_cases hr : -first.instructionsPlanned < 0
    · rw [updateRetiredInstructions_neg hr] at hq
      obtain rfl := Except.ok.inj hq
      refine ⟨_, hk.congrAt hat (sameBooks _ _ _ _ _), ?_, hmove⟩
      exact hh
    · obtain ⟨hat', hh'⟩ := hk.creditAt hat hh (by omega) hq
      exact ⟨_, hat', hh', hmove⟩

/-- What a preemption may put off, as far as the two searches are concerned. -/
def AllowedAt (allowed : List Job → List Job → Prop) (p : PbsPlan) : Prop :=
  ∀ done cur todo tail blk n ns f post, Layout p done (cur :: todo) tail →
    Cut cur todo blk n ns f post →
    allowed ((cur :: blk).map PbsTask.job) ((n :: ns).map PbsTask.job)

theorem allowedAt_any (p : PbsPlan) : AllowedAt (fun _ _ => True) p :=
  fun _ _ _ _ _ _ _ _ _ _ _ => trivial

theorem Maintained.preemptAt (hk : Maintained F K) (h : At K a p) (hh : HeadReal p) {cur : PbsTask}
    (hcur : p.readCurTask = .ok cur) (hlive : cur.taskId ≠ -2)
    (hrun : cur.instructionsRetiredTask < cur.instructionsReal) (hallowed : AllowedAt allowed p)
    (hq : preemptCurTask b p = .ok q) :
    ∃ a', At K a' q ∧ Agenda.Moves Job.processId Idle allowed a a' := by
  obtain ⟨done, todo, tail, hv, rfl, hK⟩ := h
  obtain ⟨rest, rfl⟩ := hv.of_readCurTask hcur hlive
  have hreal : cur.taskId ≠ -1 := hh cur hcur
  rcases preemptCurTask_eq_ok hv.toLayout hq with
    ⟨blk, n, ns, f, post, hc, _, rfl⟩ | ⟨_, q₁, hq₁, rfl⟩
  · exact ⟨_, ⟨_, _, _, hv.rotated hreal hc, rfl, hk.rotate hv hreal hrun hc hK⟩,
      (hc.move hv hreal (hallowed _ _ _ _ _ _ _ _ _ hv.toLayout hc)).moves⟩
  · obtain ⟨done', rest', tail', hv', hd, hrest, _⟩ :=
      hv.bumped.credit (Int.sub_nonneg_of_le (Int.le_of_lt hrun)) hq₁
    have hat : At K (agenda done' (credited (cur.instructionsReal - cur.instructionsRetiredTask)
        (bump cur) :: rest')) q₁ := ⟨_, _, _, hv', rfl, hk.giveUp hv hreal hrun hq₁ hK⟩
    have hsame : agenda done' (credited (cur.instructionsReal - cur.instructionsRetiredTask)
        (bump cur) :: rest') = agenda done (cur :: rest) := by
      rw [agenda, agenda, List.map_cons, List.map_cons, job_credited, map_job_of_body hd,
        map_job_of_body hrest]
      rfl
    rw [hsame] at hat
    exact ⟨_, hk.congrAt hat (sameBooks _ _ _ _ _), Agenda.Moves.refl _⟩

theorem credited_state {cur : PbsTask} (h : (credited r cur).state ≠ .finished) :
    (credited r cur).instructionsRetiredTask < (credited r cur).instructionsReal := by
  by_contra hle
  apply h
  rw [instructionsReal_credited, retiredTask_credited] at hle
  rw [state_credited]
  exact retire_state_of_le r cur (by omega)

theorem credited_finished {cur : PbsTask} (h : (credited r cur).state = .finished)
    (hcur : cur.state = .finished → cur.instructionsReal ≤ cur.instructionsRetiredTask)
    (hr : 0 ≤ r) : (credited r cur).instructionsReal ≤ (credited r cur).instructionsRetiredTask := by
  rw [instructionsReal_credited, retiredTask_credited]
  by_contra hlt
  rw [state_credited, retire_state_of_lt r cur (by omega)] at h
  have hle := hcur h
  omega

theorem Kept.readCurTask_credit (h : At K a p) (hr : 0 ≤ r)
    (hq : updateRetiredInstructions r p = .ok q) :
    ∃ c, p.readCurTask = .ok c ∧ q.readCurTask = .ok (credited r c) ∧ c.taskId ≠ -2 := by
  obtain ⟨done, todo, tail, hv, rfl, hK⟩ := h
  obtain ⟨cur, rest, rfl⟩ := hv.retire_todo hr hq
  obtain ⟨done', rest', tail', hv', hd, hrest, _⟩ := hv.credit hr hq
  exact ⟨cur, hv.readCurTask, hv'.readCurTask, (hv.live cur (by simp)).1⟩

theorem Maintained.signalled (hk : Maintained F K) (h : At K a s.plan) (hh : HeadReal s.plan)
    (hr : 0 ≤ r)
    {s₂ : System} {cur : PbsTask} (hcredit : updateRetiredInstructions r s.plan = .ok p)
    (hcur : p.readCurTask = .ok cur)
    (hs : Signalled b { s with plan := p } s₂) :
    At K a s₂.plan ∧ cur.taskId ≠ -1 ∧
    (cur.state ≠ .finished → cur.instructionsRetiredTask < cur.instructionsReal) ∧
    ∃ planned done rest tail,
      Valid s₂.plan done ({ cur with instructionsPlanned := planned } :: rest) tail := by
  obtain ⟨c, _, hc, hlive⟩ := Kept.readCurTask_credit h hr hcredit
  obtain rfl := Except.ok.inj (hcur.symm.trans hc)
  rw [← job_taskId (job_credited r c)] at hlive
  obtain ⟨h₁, hh₁⟩ := hk.creditAt h hh hr hcredit
  obtain ⟨h₂, _, hcur₂⟩ := hk.signalAt (s := { s with plan := p }) h₁ hs
  obtain ⟨planned, hcur₂⟩ := hcur₂ _ hcur
  obtain ⟨done, todo, tail, hv, _⟩ := id h₂
  obtain ⟨rest, rfl⟩ := hv.of_readCurTask hcur₂ hlive
  exact ⟨h₂, hh₁ _ hcur, credited_state, planned, done, rest, tail, hv⟩

theorem Maintained.preemptionPointAt (hk : Maintained F K) (h : At K a s.plan) (hh : HeadReal s.plan)
    (hr : 0 ≤ r) (hp : preemptionPoint b r s = .ok (some p)) :
    At K a p ∧ HeadReal p ∧ ∃ cur, p.readCurTask = .ok cur ∧ cur.taskId ≠ -2 ∧
      cur.instructionsRetiredTask < cur.instructionsReal := by
  obtain ⟨c₀, p₁, cur, s₂, _, _, hcredit, hcur, hstate, hsignal, rfl⟩ := preemptionPoint_eq_ok hp
  obtain ⟨h₂, hreal, hrun, planned, done, rest, tail, hv⟩ :=
    hk.signalled h hh hr hcredit hcur (signalIfT2_eq_ok hsignal)
  refine ⟨h₂, fun c hc => ?_, _, hv.readCurTask, (hv.live _ (by simp)).1, hrun hstate⟩
  obtain rfl := Except.ok.inj (hv.readCurTask.symm.trans hc)
  exact hreal

theorem Maintained.finishedAt (hk : Maintained F K) (allowed : List Job → List Job → Prop)
    (h : At K a s.plan) (hh : HeadReal s.plan) (hr : 0 ≤ r)
    (hF : ∀ c, s.plan.readCurTask = .ok c → c.taskId ≠ -2 → (credited r c).state = .finished →
      ∀ planned, F { credited r c with instructionsPlanned := planned })
    {cur : PbsTask} {p₁ : PbsPlan} {s₂ : System}
    (hcredit : updateRetiredInstructions r s.plan = .ok p₁) (hcur : p₁.readCurTask = .ok cur)
    (hstate : cur.state = .finished) (hsignal : signalIfTm2 b { s with plan := p₁ } = .ok s₂)
    (hbook : (bookFinishedTask (cur.instructionsRetiredSlot - cur.instructionsReal) s₂.plan >>=
      advanceCurTask) = .ok p) :
    ∃ a', At K a' p ∧ Agenda.Move Job.processId Idle allowed a a' := by
  obtain ⟨c, hc, hc₁, hclive⟩ := Kept.readCurTask_credit h hr hcredit
  obtain rfl := Except.ok.inj (hcur.symm.trans hc₁)
  obtain ⟨h₂, hreal, _, planned, done, rest, tail, hv⟩ :=
    hk.signalled h hh hr hcredit hcur (signalIfTm2_eq_ok hsignal)
  refine hk.finishAt allowed h₂ (fun c' hc' => ?_) hv.readCurTask (hv.live _ (by simp)).1
    (hF c hc hclive hstate planned) hbook
  obtain rfl := Except.ok.inj (hv.readCurTask.symm.trans hc')
  exact hreal

theorem Maintained.freeSlotPointAt (hk : Maintained F K) (h : At K a s.plan) (hh : HeadReal s.plan)
    (hr : 0 ≤ r)
    (hF : ∀ c, s.plan.readCurTask = .ok c → c.taskId ≠ -2 → (credited r c).state = .finished →
      ∀ planned, F { credited r c with instructionsPlanned := planned })
    (hp : freeSlotPoint b r s = .ok (some p)) : ∃ a', At K a' p := by
  rcases freeSlotPoint_eq_ok hp with
    ⟨p₂, hpoint, hpreempt⟩ | ⟨p₁, cur, s₂, hcredit, hcur, hstate, hsignal, hbook⟩
  · obtain ⟨h₂, hh₂, cur, hcur, hlive, hrun⟩ := hk.preemptionPointAt h hh hr hpoint
    obtain ⟨a', h', _⟩ := hk.preemptAt h₂ hh₂ hcur hlive hrun (allowedAt_any p₂) hpreempt
    exact ⟨a', h'⟩
  · obtain ⟨a', h', _⟩ :=
      hk.finishedAt (fun _ _ => True) h hh hr hF hcredit hcur hstate hsignal hbook
    exact ⟨a', h'⟩

theorem Maintained.tick (hk : Maintained F K) (h : At K a s.plan) (hh : HeadReal s.plan) (hr : 0 ≤ r)
    (hF : ∀ c, s.plan.readCurTask = .ok c → c.taskId ≠ -2 → (credited r c).state = .finished →
      ∀ planned, F { credited r c with instructionsPlanned := planned })
    (hallowed : ∀ p, preemptionPoint b r s = .ok (some p) → AllowedAt allowed p)
    (htick : pbsRunTimerTick b r s = .ok s') :
    ∃ a', At K a' s'.plan ∧ HeadReal s'.plan ∧ Agenda.Moves Job.processId Idle allowed a a' := by
  cases tick_cases htick with
  | ended cur hcur hend hs =>
      rw [hs]
      exact ⟨a, h, hh, Agenda.Moves.refl a⟩
  | finished p₁ cur s₂ p₃ p₄ hlive hcredit hcur hstate hsignal hbook hskip hs =>
      obtain ⟨a₃, h₃, hmove⟩ :=
        hk.finishedAt allowed h hh hr hF hcredit hcur hstate hsignal hbook
      obtain ⟨a₄, h₄, hh₄, hmoves⟩ := hk.skipAt allowed h₃ hskip
      rw [hs]
      exact ⟨a₄, hk.congrAt h₄ (sameBooks _ _ _ _ _), hh₄, hmove.moves.trans hmoves⟩
  | preempted p₁ cur s₂ p₃ p₄ hlive hcredit hcur hstate hsignal ht1 hpreempt hskip hs =>
      obtain ⟨c, hc, _, hclive⟩ := Kept.readCurTask_credit h hr hcredit
      have hpoint := preemptionPoint_eq hc hclive hcredit hcur hstate hsignal ht1
      obtain ⟨h₂, hh₂, cur₂, hcur₂, hlive₂, hrun⟩ := hk.preemptionPointAt h hh hr hpoint
      obtain ⟨a₃, h₃, hmove⟩ := hk.preemptAt h₂ hh₂ hcur₂ hlive₂ hrun (hallowed _ hpoint) hpreempt
      obtain ⟨a₄, h₄, hh₄, hmoves⟩ := hk.skipAt allowed h₃ hskip
      rw [hs]
      exact ⟨a₄, hk.congrAt h₄ (sameBooks _ _ _ _ _), hh₄, hmove.trans hmoves⟩
  | waited p₁ cur s₂ hlive hcredit hcur hstate hsignal ht1 hs =>
      obtain ⟨h₁, hh₁⟩ := hk.creditAt h hh hr hcredit
      obtain ⟨h₂, hh₂, _⟩ := hk.signalAt (s := { s with plan := p₁ }) h₁
        (signalIfT2_eq_ok hsignal)
      rw [hs]
      rw [relieveStress_eq]
      exact ⟨a, hk.congrAt h₂ (sameBooks _ _ _ _ _), hh₂ hh₁, Agenda.Moves.refl a⟩

/-- What its operations keep holds in every state that a run reaches. -/
theorem Maintained.run (hk : Maintained F K) {pmu : Nat → Int} (hpmu : ∀ k, 0 ≤ pmu k)
    (h : At K a s.plan) (hh : HeadReal s.plan) {k : Nat}
    (hF : ∀ j < k, ∀ t c, runTicks b pmu s j = .ok t → t.plan.readCurTask = .ok c →
      c.taskId ≠ -2 → (credited (pmu j) c).state = .finished →
      ∀ planned, F { credited (pmu j) c with instructionsPlanned := planned })
    (hallowed : ∀ j < k, ∀ t p, runTicks b pmu s j = .ok t →
      preemptionPoint b (pmu j) t = .ok (some p) → AllowedAt allowed p)
    {t : System} (ht : runTicks b pmu s k = .ok t) :
    ∃ a', At K a' t.plan ∧ HeadReal t.plan ∧ Agenda.Moves Job.processId Idle allowed a a' := by
  refine run_invariant
    (I := fun t => ∃ a', At K a' t.plan ∧ HeadReal t.plan ∧
      Agenda.Moves Job.processId Idle allowed a a') ⟨a, h, hh, Agenda.Moves.refl a⟩ ?_ ht
  rintro j hj t u hreach ⟨a₁, h₁, hh₁, hmoves⟩ hstep
  obtain ⟨a₂, h₂, hh₂, hmoves'⟩ := hk.tick h₁ hh₁ (hpmu j) (fun c => hF j hj t c hreach)
    (fun p => hallowed j hj t p hreach) hstep
  exact ⟨a₂, h₂, hh₂, hmoves.trans hmoves'⟩

end Rule

end PbsLevel2

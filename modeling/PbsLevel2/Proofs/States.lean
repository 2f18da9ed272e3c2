import PbsLevel2.Proofs.FreeSlots

/-!
# Task states

`update_cur_process` sets a task running and finishing sets it finished.  Nothing sets it
preempted, and a skipped free slot stays running.  So the states fit in a run exactly as
long as no preemption finds a slot and no free slot is skipped.
-/

namespace PbsLevel2

open Lib

/-- The state of a passed entry. -/
def PastFits (t : PbsTask) : Prop :=
  if t.taskId = -1 then t.state ≠ .running else t.state = .finished

/-- The state of an entry behind the current one. It has run if and only if it was preempted. -/
def AheadFits (t : PbsTask) : Prop :=
  t.state ≠ .running ∧ (0 < t.wasPreempted → t.state = .preempted) ∧
    (t.wasPreempted = 0 → t.state = .waiting)

/-- The states of the tasks, but for the current one, tell what was done with them. -/
structure StatesFit (p : PbsPlan) : Prop where
  past : ∀ t ∈ p.doneTasks, PastFits t
  ahead : ∀ t ∈ p.todoTasks.tail, AheadFits t

instance (t : PbsTask) : Decidable (PastFits t) :=
  inferInstanceAs (Decidable (if t.taskId = -1 then t.state ≠ .running else t.state = .finished))

instance (p : PbsPlan) : Decidable (StatesFit p) :=
  decidable_of_iff ((∀ t ∈ p.doneTasks, PastFits t) ∧ ∀ t ∈ p.todoTasks.tail,
      t.state ≠ .running ∧ (0 < t.wasPreempted → t.state = .preempted) ∧
        (t.wasPreempted = 0 → t.state = .waiting))
    ⟨fun h => ⟨h.1, h.2⟩, fun h => ⟨h.past, h.ahead⟩⟩

/-- The preemption of the current task finds no slot to move to. -/
def findsNoSlot (b : Build) (p : PbsPlan) : Bool :=
  match p.readCurTask with
  | .ok cur =>
      match findSlotToMoveTo b cur.processId p with
      | .ok none => true
      | _ => false
  | _ => true

/-- No free slot is skipped, unless it is the last entry. -/
def skipsNoSlot (p : PbsPlan) : Bool :=
  match p.readCurTask, p.readTask (p.curTask + 1) with
  | .ok cur, .ok next => cur.taskId ≠ -1 || next.taskId = -2
  | _, _ => true

/-- The tick from `s` preempts no task that finds a slot and skips no free slot but the last. -/
def StaysInOrder (b : Build) (r : Int) (s : System) : Prop :=
  (∀ p, preemptionPoint b r s = .ok (some p) → findsNoSlot b p = true) ∧
    ∀ p, freeSlotPoint b r s = .ok (some p) → skipsNoSlot p = true

/-- So far no task was put off and no free slot skipped. -/
structure InOrder (done : List PbsTask) (cur : PbsTask) (rest : List PbsTask) : Prop where
  past : ∀ t ∈ done, PastFits t
  real : cur.taskId ≠ -1
  count : 0 ≤ cur.wasPreempted
  state : cur.state ≠ .preempted
  ahead : ∀ t ∈ rest, t.state = .waiting ∧ t.wasPreempted = 0

section States

variable {p q : PbsPlan} {done todo rest tail done' rest' : List PbsTask} {cur cur' : PbsTask}
  {r : Int} {b : Build} {s s' : System}

theorem Placed.statesFit_of_lists (hv : Placed p done (cur :: rest) tail) :
    StatesFit p ↔ (∀ t ∈ done, PastFits t) ∧ ∀ t ∈ rest, AheadFits t := by
  constructor
  · rintro ⟨hpast, hahead⟩
    rw [hv.toLayout.doneTasks_eq] at hpast
    rw [hv.toLayout.todoTasks_eq] at hahead
    exact ⟨hpast, hahead⟩
  · rintro ⟨hpast, hahead⟩
    refine ⟨?_, ?_⟩
    · rwa [hv.toLayout.doneTasks_eq]
    · rwa [hv.toLayout.todoTasks_eq]

theorem InOrder.statesFit (h : InOrder done cur rest) (hv : Placed p done (cur :: rest) tail) :
    StatesFit p := by
  refine hv.statesFit_of_lists.2 ⟨h.past, fun t ht => ?_⟩
  obtain ⟨hstate, hcount⟩ := h.ahead t ht
  refine ⟨by simp [hstate], fun hpos => ?_, fun _ => hstate⟩
  omega

theorem PastFits.of_core (hpast : ∀ t ∈ done, PastFits t)
    (h : done'.map PbsTask.core = done.map PbsTask.core) : ∀ t ∈ done', PastFits t := by
  intro t ht
  obtain ⟨u, hu, hut⟩ := mem_of_map_eq h ht
  change PastFits t.core
  rw [← hut]
  exact hpast u hu

theorem InOrder.of_core (h : InOrder done cur rest) (hdone : ∀ t ∈ done', PastFits t)
    (hrest : rest'.map PbsTask.core = rest.map PbsTask.core) (hid : cur'.taskId = cur.taskId)
    (hcount : 0 ≤ cur'.wasPreempted) (hstate : cur'.state ≠ .preempted) :
    InOrder done' cur' rest' := by
  refine ⟨hdone, hid ▸ h.real, hcount, hstate, fun t ht => ?_⟩
  obtain ⟨u, hu, hut⟩ := mem_of_map_eq hrest ht
  change t.core.state = .waiting ∧ t.core.wasPreempted = 0
  rw [← hut]
  exact h.ahead u hu

theorem InOrder.started (hdone : ∀ t ∈ done, PastFits t)
    (hahead : ∀ t ∈ cur :: rest, t.state = .waiting ∧ t.wasPreempted = 0) (hreal : cur.taskId ≠ -1) :
    InOrder done (start cur) rest := by
  obtain ⟨_, hcount⟩ := hahead cur (by simp)
  refine ⟨hdone, hreal, ?_, ?_, fun t ht => hahead t (by simp [ht])⟩
  · exact hcount.ge
  · change TaskState.running ≠ .preempted
    decide

theorem wasPreempted_credited (r : Int) (t : PbsTask) :
    (credited r t).wasPreempted = t.wasPreempted :=
  show (credited r t).frame.wasPreempted = t.frame.wasPreempted by rw [frame_credited]

theorem credited_not_preempted (h : cur.state ≠ .preempted) :
    (credited r cur).state ≠ .preempted := by
  rw [state_credited]
  by_cases hle : cur.instructionsReal ≤ cur.instructionsRetiredTask + r
  · rw [retire_state_of_le r cur hle]
    decide
  · rwa [retire_state_of_lt r cur (by omega)]

theorem InOrder.front (h : InOrder done cur rest) (hcur : cur'.core = (credited r cur).core)
    (hdone : done'.map PbsTask.core = done.map PbsTask.core)
    (hrest : rest'.map PbsTask.core = rest.map PbsTask.core) : InOrder done' cur' rest' := by
  refine h.of_core (PastFits.of_core h.past hdone) hrest ?_ ?_ ?_
  · exact job_taskId ((job_of_core hcur).trans (job_credited r cur))
  · change 0 ≤ cur'.core.wasPreempted
    rw [hcur]
    exact (wasPreempted_credited r cur).symm ▸ h.count
  · rw [state_of_core hcur]
    exact credited_not_preempted h.state

/-! ## The two ways out of order -/

/-- The plan has ended, or it is in order. -/
def Orderly (p : PbsPlan) : Prop :=
  ∃ done todo tail, Placed p done todo tail ∧ ∀ cur rest, todo = cur :: rest → InOrder done cur rest

/-- The plan goes on, with a state that does not fit. -/
def Strayed (p : PbsPlan) : Prop :=
  p.todoTasks ≠ [] ∧ ¬ StatesFit p

theorem Orderly.fits (h : Orderly p) (hend : p.todoTasks ≠ []) : StatesFit p := by
  obtain ⟨done, todo, tail, hv, horder⟩ := h
  rw [hv.toLayout.todoTasks_eq] at hend
  obtain ⟨cur, rest, rfl⟩ := List.exists_cons_of_ne_nil hend
  exact (horder cur rest rfl).statesFit hv

theorem Placed.skipsNoSlot_iff (hv : Placed p done (cur :: rest) tail) :
    skipsNoSlot p = true ↔ cur.taskId ≠ -1 ∨ rest = [] := by
  rw [skipsNoSlot, hv.readCurTask, hv.skip_reads.1]
  have hnext : (nextEntry rest tail).taskId = -2 ↔ rest = [] := by
    cases rest with
    | nil =>
        obtain ⟨t, more, rfl, hid, _⟩ := hv.terminates
        exact iff_of_true hid rfl
    | cons n rest => exact iff_of_false (hv.live n (by simp)).1 (by simp)
  simp [hnext]

theorem Placed.skip_strays (hv : Placed p done (cur :: rest) tail) (hrun : cur.state = .running)
    (hslot : skipsNoSlot p ≠ true) (hq : skipFreeSlot b p = .ok q) : Strayed q := by
  rw [Ne, hv.skipsNoSlot_iff, not_or, not_not] at hslot
  obtain ⟨hfree, hrest⟩ := hslot
  rcases hv.skip hq with ⟨hh, _⟩ | ⟨c, l, done', todo', tail', heq, _, hv', hd, htodo⟩
  · exact absurd hfree (hh cur hv.readCurTask)
  · obtain ⟨rfl, rfl⟩ := List.cons.inj heq
    refine ⟨?_, fun hfits => ?_⟩
    · rw [hv'.toLayout.todoTasks_eq]
      rintro rfl
      exact hrest (List.map_eq_nil_iff.1 htodo.symm)
    · obtain ⟨t, ht, hbody⟩ := mem_of_map_eq hd.symm (show cur ∈ done ++ [cur] by simp)
      have hpast := hfits.past t (hv'.toLayout.doneTasks_eq ▸ ht)
      have hid : t.taskId = -1 := (job_taskId (job_of_body hbody)).trans hfree
      rw [PastFits, if_pos hid] at hpast
      exact hpast ((show t.body.state = cur.body.state by rw [hbody]).trans hrun)

theorem Placed.skip_orderly (hv : Placed p done (cur :: rest) tail) (hslot : skipsNoSlot p = true)
    (horder : cur.taskId ≠ -1 → InOrder done cur rest) (hq : skipFreeSlot b p = .ok q) :
    Orderly q := by
  rcases hv.skip hq with ⟨hh, rfl⟩ | ⟨c, l, done', todo', tail', heq, hfree, hv', _, htodo⟩
  · refine ⟨done, _, tail, hv, fun c l heq => ?_⟩
    obtain ⟨rfl, rfl⟩ := List.cons.inj heq
    exact horder (hh cur hv.readCurTask)
  · obtain ⟨rfl, rfl⟩ := List.cons.inj heq
    rw [hv.skipsNoSlot_iff] at hslot
    obtain rfl := hslot.resolve_left (not_not.2 hfree)
    obtain rfl := List.map_eq_nil_iff.1 htodo
    exact ⟨done', [], tail', hv', fun _ _ heq => absurd heq.symm (List.cons_ne_nil _ _)⟩

theorem Placed.rotated_strays {f : PbsTask} {blk ns post : List PbsTask} {n : PbsTask}
    (hcount : 0 ≤ cur.wasPreempted) (hstate : cur.state ≠ .preempted)
    (hv : Placed p done (changeTaskState n .running :: ns ++
      ((bump cur :: blk).map (hosted f.taskId) ++ f :: post)) tail)
    (hq : skipFreeSlot b p = .ok q) : Strayed q := by
  by_cases hslot : skipsNoSlot p = true
  · have hreal : n.taskId ≠ -1 := (hv.skipsNoSlot_iff.1 hslot).resolve_right (by simp)
    have hh : HeadReal p := fun c hc => Except.ok.inj (hv.readCurTask.symm.trans hc) ▸ hreal
    rw [skipFreeSlot_real hv.readCurTask hreal] at hq
    obtain rfl := Except.ok.inj hq
    refine ⟨by rw [hv.toLayout.todoTasks_eq]; simp, fun hfits => ?_⟩
    have hmoved := hfits.ahead (hosted f.taskId (bump cur)) (by rw [hv.toLayout.todoTasks_eq]; simp)
    refine hstate (hmoved.2.1 ?_)
    change 0 < cur.wasPreempted + 1
    omega
  · exact hv.skip_strays rfl hslot hq

/-! ## The tick -/

theorem findsNoSlot_of_noSlot (hv : Placed p done (cur :: rest) tail) (h : NoSlot cur rest) :
    findsNoSlot b p = true := by
  rw [findsNoSlot, hv.readCurTask]
  dsimp only
  rw [findSlotToMoveTo_noSlot hv.toLayout h]

theorem findsNoSlot_of_cut {f : PbsTask} {blk ns post : List PbsTask} {n : PbsTask}
    (hv : Placed p done (cur :: rest) tail) (h : Cut cur rest blk n ns f post) :
    findsNoSlot b p ≠ true := by
  rw [findsNoSlot, hv.readCurTask]
  dsimp only
  rw [findSlotToMoveTo_cut hv.toLayout h]
  simp

theorem skipsNoSlot_of_headReal (hh : HeadReal p) : skipsNoSlot p = true := by
  rw [skipsNoSlot]
  split
  · rename_i hcur _
    simp [hh _ hcur]
  · rfl

theorem Placed.passed_orderly (hv : Placed p done (rest.modifyHead start) tail)
    (hdone : ∀ t ∈ done, PastFits t) (hahead : ∀ t ∈ rest, t.state = .waiting ∧ t.wasPreempted = 0)
    (hskip : skipFreeSlot b p = .ok q) :
    (skipsNoSlot p = true → Orderly q) ∧ (skipsNoSlot p ≠ true → Strayed q) := by
  cases rest with
  | nil =>
      have hv : Placed p done [] tail := hv
      obtain ⟨c, hc, hend⟩ := hv.toLayout.ended
      have hreal : c.taskId ≠ -1 := by omega
      have hh : HeadReal p := fun u hu => Except.ok.inj (hc.symm.trans hu) ▸ hreal
      rw [skipFreeSlot_real hc hreal] at hskip
      obtain rfl := Except.ok.inj hskip
      exact ⟨fun _ => ⟨done, [], tail, hv, fun _ _ heq => absurd heq.symm (List.cons_ne_nil _ _)⟩,
        fun h => absurd (skipsNoSlot_of_headReal hh) h⟩
  | cons n rest =>
      have hv : Placed p done (start n :: rest) tail := hv
      exact ⟨fun h => hv.skip_orderly h (fun hreal => InOrder.started hdone hahead hreal) hskip,
        fun h => hv.skip_strays rfl h hskip⟩

theorem Placed.slot_orderly (hv : Placed s.plan done (cur :: rest) tail)
    (horder : InOrder done cur rest) (hr : 0 ≤ r) (hslot : freeSlotPoint b r s = .ok (some p))
    (hskip : skipFreeSlot b p = .ok q) :
    (StaysInOrder b r s → Orderly q) ∧ (¬ StaysInOrder b r s → Strayed q) := by
  obtain ⟨done₂, cur₂, rest₂, tail₂, hcur₂, hdone₂, hrest₂, _, hcourse⟩ := hv.course hr hslot
  have horder₂ := horder.front hcur₂ hdone₂ hrest₂
  have hstays : (∀ p₂, preemptionPoint b r s = .ok (some p₂) → findsNoSlot b p₂ = true) →
      (StaysInOrder b r s ↔ skipsNoSlot p = true) := by
    intro hfinds
    refine ⟨fun h => h.2 p hslot, fun h => ⟨hfinds, fun p' hp' => ?_⟩⟩
    obtain rfl := Option.some.inj (Except.ok.inj (hslot.symm.trans hp'))
    exact h
  cases hcourse with
  | finished tail' hfinished hpoint hv₃ =>
      rw [hstays fun p₂ hp₂ => absurd (hpoint.symm.trans hp₂) (by simp)]
      refine hv₃.passed_orderly (fun t ht => ?_) horder₂.ahead hskip
      rcases List.mem_append.1 ht with ht | ht
      · exact horder₂.past t ht
      · obtain rfl := List.mem_singleton.1 ht
        rw [PastFits, if_neg horder₂.real]
        exact hfinished
  | rotated p₂ blk n ns f post _ hcut hpoint hv₂ hv₃ =>
      exact ⟨fun h => absurd (h.1 p₂ hpoint) (findsNoSlot_of_cut hv₂ hcut),
        fun _ => Placed.rotated_strays horder₂.count horder₂.state hv₃ hskip⟩
  | gaveUp p₂ done₃ rest₃ tail₃ _ hnone hpoint hv₂ hv₃ hdone₃ hrest₃ =>
      have hid : (credited (cur₂.instructionsReal - cur₂.instructionsRetiredTask)
        (bump cur₂)).taskId = cur₂.taskId := job_taskId (job_credited _ _)
      have hslotless : skipsNoSlot p = true := hv₃.skipsNoSlot_iff.2 (.inl (hid ▸ horder₂.real))
      rw [hstays fun p' hp' => ?_]
      · refine ⟨fun _ => hv₃.skip_orderly hslotless (fun _ => ?_) hskip,
          fun h => absurd hslotless h⟩
        refine horder₂.of_core (PastFits.of_core horder₂.past (map_core_of_body hdone₃))
          (map_core_of_body hrest₃) hid ?_ ?_
        · rw [wasPreempted_credited]
          exact Int.le_trans horder₂.count (Int.le_add_of_nonneg_right (by decide))
        · exact credited_not_preempted horder₂.state
      · obtain rfl := Option.some.inj (Except.ok.inj (hpoint.symm.trans hp'))
        exact findsNoSlot_of_noSlot hv₂ hnone

theorem Strayed.of_lists (h : Strayed p) (hdone : q.doneTasks = p.doneTasks)
    (htodo : q.todoTasks = p.todoTasks) : Strayed q := by
  refine ⟨htodo ▸ h.1, fun hfits => h.2 ⟨?_, ?_⟩⟩
  · exact hdone ▸ hfits.past
  · exact htodo ▸ hfits.ahead

theorem Orderly.of_same (h : Orderly p) (htasks : q.tasks = p.tasks) (hcur : q.curTask = p.curTask)
    (hindex : q.indexCurTask = p.indexCurTask) (hprocess : q.curProcess = p.curProcess) :
    Orderly q := by
  obtain ⟨done, todo, tail, hv, horder⟩ := h
  exact ⟨done, todo, tail, hv.of_same htasks hcur hindex hprocess, horder⟩

/-- One tick keeps the order exactly if it preempts nothing into a slot and skips no slot. -/
theorem Orderly.tick (h : Orderly s.plan) (hr : 0 ≤ r) (htick : pbsRunTimerTick b r s = .ok s') :
    (StaysInOrder b r s → Orderly s'.plan) ∧ (¬ StaysInOrder b r s → Strayed s'.plan) := by
  obtain ⟨done, todo, tail, hv, horder⟩ := id h
  cases todo with
  | nil =>
      obtain ⟨c, hc, hend⟩ := hv.toLayout.ended
      have hpoint := preemptionPoint_ended (b := b) (r := r) hc hend
      have hstays : StaysInOrder b r s := by
        refine ⟨fun p hp => absurd (hpoint.symm.trans hp) (by simp), fun p hp => ?_⟩
        obtain ⟨_, _, heq⟩ := hv.todo_of_slot hr hp
        cases heq
      exact ⟨fun _ => hv.tick_ended htick ▸ h, fun h => absurd hstays h⟩
  | cons cur rest =>
      rcases hv.tick_cases hr htick with ⟨p, q, hslot, hskip, hs⟩ |
        ⟨hslot, hpoint, done₂, cur₂, rest₂, tail₂, hv₂, _, hcur₂, hdone₂, hrest₂, _⟩
      · obtain ⟨horderly, hstrayed⟩ := hv.slot_orderly (horder cur rest rfl) hr hslot hskip
        rw [hs]
        exact ⟨fun h => (horderly h).of_same rfl rfl rfl rfl,
          fun h => (hstrayed h).of_lists rfl rfl⟩
      · have hstays : StaysInOrder b r s :=
          ⟨fun p hp => absurd (hpoint.symm.trans hp) (by simp),
            fun p hp => absurd (hslot.symm.trans hp) (by simp)⟩
        refine ⟨fun _ => ⟨done₂, _, tail₂, hv₂, fun c l heq => ?_⟩, fun h => absurd hstays h⟩
        obtain ⟨rfl, rfl⟩ := List.cons.inj heq
        exact (horder cur rest rfl).front hcur₂ hdone₂ hrest₂

theorem Parsed.statesFit (hp : Parsed p) (hf : Formatted p) : StatesFit p := by
  have hl := hp.layout hf
  refine ⟨fun t ht => ?_, fun t ht => ?_⟩
  · rw [hl.doneTasks_eq] at ht
    cases ht
  · rw [hl.todoTasks_eq] at ht
    have hfresh := hp.fresh t (List.mem_of_mem_tail ht)
    have hcount := hfresh.wasPreempted
    refine ⟨by simp [hfresh.state], fun hpos => by omega, fun _ => hfresh.state⟩

theorem Parsed.orderly (hp : Parsed p) (hf : Formatted p) (hfirst : FirstReal p) : Orderly p := by
  refine ⟨_, _, _, hp.placed hf (hp.first hf hfirst), fun cur rest heq => ?_⟩
  have hfresh : ∀ t ∈ cur :: rest, t.Fresh := heq ▸ hp.fresh
  have hcur := hfresh cur (by simp)
  refine ⟨fun t ht => absurd ht List.not_mem_nil, ?_, hcur.wasPreempted.ge, by simp [hcur.state],
    fun t ht => ?_⟩
  · exact hfirst cur (by rw [heq]; rfl)
  · have ht := hfresh t (by simp [ht])
    exact ⟨ht.state, ht.wasPreempted⟩

end States

/-- Up to every tick of a run that goes on the states fit if and only if so far no preemption found
a slot and no free slot was skipped, but for the last entry. -/
theorem statesFit_iff {text : List Char} {b : Build} {pmu : Nat → Int} {s t : System} {k : Nat}
    (hparse : parsePlan text zeroedPlan = .ok s.plan) (hformatted : Formatted s.plan)
    (hpmu : ∀ k, 0 ≤ pmu k) (ht : runTicks b pmu s k = .ok t) :
    (∀ j ≤ k, ∀ u, runTicks b pmu s j = .ok u → u.plan.todoTasks ≠ [] → StatesFit u.plan) ↔
      ∀ j < k, ∀ u, runTicks b pmu s j = .ok u → StaysInOrder b (pmu j) u := by
  have hparsed := parsePlan_parsed hparse
  cases k with
  | zero =>
      refine iff_of_true (fun j hj u hu _ => ?_) fun j hj => absurd hj (Nat.not_lt_zero j)
      obtain rfl := Nat.le_zero.1 hj
      obtain rfl := Except.ok.inj hu
      exact hparsed.statesFit hformatted
  | succ k =>
      have hfirst := hparsed.firstReal_of_run hformatted hpmu (Nat.succ_pos k) ht
      refine run_forall_iff_of (G := fun _ u => Orderly u.plan)
        (P := fun _ u => u.plan.todoTasks ≠ [] → StatesFit u.plan)
        (C := fun j u => StaysInOrder b (pmu j) u) ht (hparsed.orderly hformatted hfirst)
        (fun j _ u _ h hend => h.fits hend) fun j _ u v _ htick horderly => ?_
      obtain ⟨hkeeps, hstrays⟩ := horderly.tick (hpmu j) htick
      refine ⟨hkeeps, fun hfits => ?_⟩
      by_contra hno
      obtain ⟨hend, hwrong⟩ := hstrays hno
      exact hwrong (hfits hend)

set_option maxRecDepth 4000 in
/-- Task 0 overruns its slot, finds no other one and is finished; task 1 of the other process
becomes current behind it and task 2 waits. -/
theorem statesFit_iff_gaveUp :
    ∃ p t, parsePlan "2;0,0;1,0;;;0,0,10,90000000;1,1,10,10;1,2,10,10;".toList zeroedPlan = .ok p ∧
      runTicks .userland everyTick ⟨p, zeroedSignals⟩ 5 = .ok t ∧ t.plan.indexCurTask = 1 ∧
      t.plan.todoTasks.length = 2 ∧ StatesFit t.plan := by
  obtain ⟨p, t, hp, ht, hcheck⟩ :=
    @of_onRun .userland "2;0,0;1,0;;;0,0,10,90000000;1,1,10,10;1,2,10,10;".toList everyTick 5
      (fun p t => decide (Formatted p ∧ t.plan.indexCurTask = 1 ∧ t.plan.todoTasks.length = 2) &&
        (allTicks (atPoint preemptionPoint (findsNoSlot .userland) .userland) .userland everyTick
            ⟨p, zeroedSignals⟩ 5 &&
          allTicks (atPoint freeSlotPoint skipsNoSlot .userland) .userland everyTick
            ⟨p, zeroedSignals⟩ 5)) (by decide +kernel)
  simp only [Bool.and_eq_true, decide_eq_true_eq] at hcheck
  obtain ⟨⟨hformatted, hindex, hlen⟩, hfinds, hskips⟩ := hcheck
  have hend : t.plan.todoTasks ≠ [] := by
    rintro hnil
    rw [hnil] at hlen
    cases hlen
  refine ⟨p, t, hp, ht, hindex, hlen, (statesFit_iff (s := ⟨p, zeroedSignals⟩) hp hformatted
    everyTick_nonneg ht).2 (fun j hj u hu => ⟨fun q hq => ?_, fun q hq => ?_⟩) 5 (Nat.le_refl 5) t ht
    hend⟩
  · exact of_atPoint (of_allTicks hfinds hj hu) hq
  · exact of_atPoint (of_allTicks hskips hj hu) hq

set_option maxRecDepth 4000 in
/-- A task that is put off by its preemption is not set preempted, and a free slot that is skipped
stays running. -/
theorem statesFit_putOff :
    (∃ p t, parsePlan "2;0,0;1,0;;;0,0,2,90000000;1,1,2,2;0,2,2,2;".toList zeroedPlan = .ok p ∧
      Formatted p ∧ runTicks .userland everyTick ⟨p, zeroedSignals⟩ 4 = .ok t ∧
      t.plan.todoTasks ≠ [] ∧ ¬ StatesFit t.plan) ∧
    ∃ p t, parsePlan "1;0,0;;;0,0,10,10;-1,-1,20,0;0,1,10,10;".toList zeroedPlan = .ok p ∧
      Formatted p ∧ runTicks .userland everyTick ⟨p, zeroedSignals⟩ 1 = .ok t ∧
      t.plan.todoTasks ≠ [] ∧ ¬ StatesFit t.plan := by
  constructor
  · obtain ⟨p, t, hp, ht, hcheck⟩ :=
      @of_onRun .userland "2;0,0;1,0;;;0,0,2,90000000;1,1,2,2;0,2,2,2;".toList everyTick 4
        (fun p t => decide (Formatted p ∧ t.plan.todoTasks ≠ [] ∧ ¬ StatesFit t.plan))
        (by decide +kernel)
    obtain ⟨hformatted, hend, hwrong⟩ := of_decide_eq_true hcheck
    exact ⟨p, t, hp, hformatted, ht, hend, hwrong⟩
  · obtain ⟨p, t, hp, ht, hcheck⟩ :=
      @of_onRun .userland "1;0,0;;;0,0,10,10;-1,-1,20,0;0,1,10,10;".toList everyTick 1
        (fun p t => decide (Formatted p ∧ t.plan.todoTasks ≠ [] ∧ ¬ StatesFit t.plan))
        (by decide +kernel)
    obtain ⟨hformatted, hend, hwrong⟩ := of_decide_eq_true hcheck
    exact ⟨p, t, hp, hformatted, ht, hend, hwrong⟩

end PbsLevel2

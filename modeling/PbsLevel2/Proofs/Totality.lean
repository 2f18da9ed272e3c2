import PbsLevel2.Proofs.Owners

/-!
# Ticks of the kernel build

Without assertions a tick can fault in four places: a division by the length of a process or
by their number, the look-up of a slot owner, the booking of a free slot, and the copying of
the stack that a preemption moves.  On a parsed plan only the last one is left.
-/

namespace PbsLevel2

open Lib

/-! ## The checks of the kernel build -/

/-- What the threshold checks divide by and look up. -/
structure Calculable (p : PbsPlan) : Prop where
  index : ProcessIndex p.curProcess
  length : (processAt p.processes p.curProcess).lengthPlan ≠ 0
  count : p.numProcesses ≠ 0

section Checks

variable {p q : PbsPlan} {done todo rest tail : List PbsTask} {cur : PbsTask} {s : System}

theorem Calculable.readProcess (h : Calculable p) :
    p.readProcess p.curProcess = .ok (processAt p.processes p.curProcess) :=
  readProcess_eq h.index

theorem Calculable.calculateAllowedPlanBuffer (h : Calculable p) :
    Succeeds (calculateAllowedPlanBuffer .kernel (processAt p.processes p.curProcess) p) := by
  simp [PbsLevel2.calculateAllowedPlanBuffer, calculateProcessCompletion, divide, h.length, h.count]

theorem Calculable.checkT2Process (h : Calculable p) : Succeeds (checkT2Process .kernel p) := by
  simp only [PbsLevel2.checkT2Process, t2ProcessEnabled, Bool.not_true, Bool.false_eq_true, if_false,
    h.readProcess, ok_bind, calculateCapacityBuffer, assertThat_kernel, pure_eq_ok]
  split
  · rw [Succeeds.bind]
    refine ⟨h.calculateAllowedPlanBuffer, fun _ _ => ?_⟩
    split <;> split <;> simp
  · simp

theorem succeeds_checkT2Task (hcur : p.readCurTask = .ok cur) : Succeeds (checkT2Task p) := by
  simp only [checkT2Task, t2TaskEnabled, Bool.not_true, Bool.false_eq_true, if_false, hcur, ok_bind]
  split <;> simp

theorem succeeds_checkT2Node (p : PbsPlan) : Succeeds (checkT2Node .kernel p) := by
  simp only [checkT2Node, calculateT2Node, t2NodeEnabled, Bool.not_true, Bool.false_eq_true, if_false,
    assertThat_kernel, ok_bind, pure_eq_ok]
  split <;> split <;> simp

theorem Calculable.raisesT2 (h : Calculable p) (hcur : p.readCurTask = .ok cur) :
    Succeeds (raisesT2 .kernel p) := by
  simp only [PbsLevel2.raisesT2, hcur, ok_bind]
  split
  · rw [Succeeds.bind]
    refine ⟨succeeds_checkT2Task hcur, fun _ _ => ?_⟩
    split
    · simp
    · rw [Succeeds.bind]
      refine ⟨h.checkT2Process, fun _ _ => ?_⟩
      split
      · simp
      · simp [succeeds_checkT2Node]
  · simp

theorem succeeds_raisesTm2 (hcur : p.readCurTask = .ok cur) : Succeeds (raisesTm2 .kernel p) := by
  have htask : Succeeds (checkTm2Task .kernel p) := by
    simp only [checkTm2Task, tm2TaskEnabled, Bool.not_true, Bool.false_eq_true, if_false, hcur,
      assertThat_kernel, ok_bind]
    split <;> simp
  have hnode : Succeeds (checkTm2Node .kernel p) := by
    simp only [checkTm2Node, calculateTm2Node, tm2NodeEnabled, Bool.not_true, Bool.false_eq_true,
      if_false, assertThat_kernel, ok_bind, pure_eq_ok]
    split <;> split <;> simp
  simp [raisesTm2, htask, hnode]

theorem Calculable.printThresholds (h : Calculable p) (hcur : p.readCurTask = .ok cur) :
    Succeeds (printThresholds .kernel p) := by
  simp [PbsLevel2.printThresholds, hcur, h.readProcess, calculateCapacityBuffer, calculateT2Node,
    h.calculateAllowedPlanBuffer]

theorem Calculable.reschedule (h : Calculable p) (hv : Valid p done todo tail) (signal : Check)
    (pid : Int) : Succeeds (reschedule .kernel p signal pid) := by
  set factor := if signal = .t2 then stretchConstant else shrinkConstant
  obtain ⟨cur, _, _, hcur⟩ := (hv.rescheduled factor pid).head
  have hc : Calculable (p.rescheduled done todo tail factor pid) := by
    refine ⟨h.index, ?_, h.count⟩
    have hview := @view_updateProcess _ p.processes _ h.index (fun q => { q with lateness := 0 })
      PbsProcess.lengthPlan (fun _ => rfl) p.curProcess
    exact fun hzero => h.length (hview.symm.trans hzero)
  have hbalance : balanceLateness (p.withTasks (done ++ (todo.map (rescale factor pid) ++ tail))) =
      .ok (p.rescheduled done todo tail factor pid) := by
    rw [balanceLateness]
    exact modifyProcess_eq h.index _
  rw [PbsLevel2.reschedule, hv.toLayout.rescheduleFrom, ok_bind, hbalance, ok_bind]
  simp [hc.printThresholds hcur]

theorem Calculable.signals (h : Calculable s.plan) (hv : Valid s.plan done todo tail) :
    Succeeds (signalT2 .kernel s) ∧ Succeeds (signalTm2 .kernel s) := by
  have hs : Calculable { s.plan with stress := stressReset } := ⟨h.index, h.length, h.count⟩
  obtain ⟨cur, _, _, hcur⟩ := (hv.stressed stressReset).head
  constructor
  · simp [signalT2, hcur, hs.readProcess, hs.reschedule (hv.stressed _)]
  · simp [signalTm2, hcur, hs.readProcess, hs.reschedule (hv.stressed _)]

theorem Calculable.signalIfT2 (h : Calculable s.plan) (hv : Valid s.plan done todo tail) :
    Succeeds (signalIfT2 .kernel s) := by
  obtain ⟨cur, _, _, hcur⟩ := hv.head
  rw [PbsLevel2.signalIfT2, Succeeds.bind]
  refine ⟨h.raisesT2 hcur, fun raised _ => ?_⟩
  cases raised
  · simp
  · exact (h.signals hv).1

theorem Calculable.signalIfTm2 (h : Calculable s.plan) (hv : Valid s.plan done todo tail) :
    Succeeds (signalIfTm2 .kernel s) := by
  obtain ⟨cur, _, _, hcur⟩ := hv.head
  rw [PbsLevel2.signalIfTm2, Succeeds.bind]
  refine ⟨succeeds_raisesTm2 hcur, fun raised _ => ?_⟩
  cases raised
  · simp
  · exact (h.signals hv).2

end Checks

/-! ## The length that is booked for a free slot -/

/-- What keeps the planned length of the first entry positive: until an entry is passed nothing
is late and every planned length is positive, and a task that runs in another task's slot had a
slot of its own that was used. -/
structure Bookable (p : PbsPlan) : Prop where
  start : p.doneTasks = [] → p.lateness = 0 ∧ ∀ t ∈ p.todoTasks, 0 < t.instructionsPlanned
  first : ∀ t ∈ p.doneTasks.head?, 0 < t.instructionsPlanned
  slots : ∀ t ∈ p.todoTasks, 0 ≤ t.instructionsRetiredSlot ∧
    (t.slotOwner ≠ t.taskId → 0 < t.instructionsRetiredSlot)

def SlotUsed (cur : PbsTask) (todo : List PbsTask) : Prop :=
  ∀ t ∈ todo, t.taskId = cur.slotOwner → 0 < t.instructionsRetiredSlot

section Bookable

variable {p q : PbsPlan} {done todo tail done' todo' tail' rest : List PbsTask} {cur : PbsTask}
  {r : Int}

theorem Layout.bookable (hl : Layout p done todo tail)
    (hstart : done = [] → p.lateness = 0 ∧ ∀ t ∈ todo, 0 < t.instructionsPlanned)
    (hfirst : ∀ t ∈ done.head?, 0 < t.instructionsPlanned)
    (hslots : ∀ t ∈ todo, 0 ≤ t.instructionsRetiredSlot ∧
      (t.slotOwner ≠ t.taskId → 0 < t.instructionsRetiredSlot)) : Bookable p := by
  refine ⟨?_, ?_, ?_⟩
  · rw [hl.doneTasks_eq, hl.todoTasks_eq]
    exact hstart
  · rw [hl.doneTasks_eq]
    exact hfirst
  · rw [hl.todoTasks_eq]
    exact hslots

theorem Bookable.lists (h : Bookable p) (hl : Layout p done todo tail) :
    (done = [] → p.lateness = 0 ∧ ∀ t ∈ todo, 0 < t.instructionsPlanned) ∧
    (∀ t ∈ done.head?, 0 < t.instructionsPlanned) ∧
    ∀ t ∈ todo, 0 ≤ t.instructionsRetiredSlot ∧
      (t.slotOwner ≠ t.taskId → 0 < t.instructionsRetiredSlot) := by
  obtain ⟨hstart, hfirst, hslots⟩ := h
  rw [hl.doneTasks_eq, hl.todoTasks_eq] at hstart
  rw [hl.doneTasks_eq] at hfirst
  rw [hl.todoTasks_eq] at hslots
  exact ⟨hstart, hfirst, hslots⟩

theorem Bookable.congr (h : Bookable p) (htasks : q.tasks = p.tasks)
    (hindex : q.indexCurTask = p.indexCurTask) (hlateness : q.lateness = p.lateness) :
    Bookable q := by
  have hdone : q.doneTasks = p.doneTasks := by
    rw [PbsPlan.doneTasks, PbsPlan.doneTasks, htasks, hindex]
  have htodo : q.todoTasks = p.todoTasks := by
    rw [PbsPlan.todoTasks, PbsPlan.todoTasks, htasks, hindex]
  exact ⟨hdone ▸ htodo ▸ hlateness ▸ h.start, hdone ▸ h.first, htodo ▸ h.slots⟩

theorem Bookable.credit (h : Bookable p) (howned : Owned p) (hv : Valid p done (cur :: rest) tail)
    (hcur : cur.taskId ≠ -1) (hr : 0 ≤ r) (hi : ProcessIndex p.curProcess) :
    ∃ q todo', updateRetiredInstructions r p = .ok q ∧ Bookable q ∧ Valid q done todo' tail ∧
      (0 < r → SlotUsed cur todo') := by
  obtain ⟨a, o, b, hsplit, _, _, hothers, hvp, heq⟩ :=
    howned.updateRetiredInstructions_eq hv.toPlaced hr hi
  have hne := hothers hcur
  obtain ⟨hstart, hfirst, hslots⟩ := h.lists hv.toLayout
  have hold : ∀ t ∈ a ++ o :: b, 0 ≤ t.instructionsRetiredSlot ∧
      (t.slotOwner ≠ t.taskId → 0 < t.instructionsRetiredSlot) := by
    rw [← hsplit]
    intro t ht
    rcases List.mem_cons.1 ht with rfl | ht
    · simpa using hslots cur (by simp)
    · exact hslots t (by simp [ht])
  have hpositive : (∀ t ∈ cur :: rest, 0 < t.instructionsPlanned) →
      ∀ t ∈ a ++ o :: b, 0 < t.instructionsPlanned := by
    rw [← hsplit]
    intro hpos t ht
    rcases List.mem_cons.1 ht with rfl | ht
    · simpa using hpos cur (by simp)
    · exact hpos t (by simp [ht])
  have hmem : ∀ {P : PbsTask → Prop}, (∀ t ∈ a ++ o :: b, P t) → (P o → P (creditSlot r o)) →
      ∀ t ∈ a ++ creditSlot r o :: b, P t := by
    intro P hP hcredit t ht
    simp only [List.mem_append, List.mem_cons] at ht hP
    rcases ht with ht | rfl | ht
    · exact hP t (.inl ht)
    · exact hcredit (hP o (.inr (.inl rfl)))
    · exact hP t (.inr (.inr ht))
  set q := { p.withTasks (done ++ (a ++ creditSlot r o :: b ++ tail)) with
    processes := updateProcess p.processes p.curProcess (updateRetiredInstructionsProcess r)
    instructionsRetired := p.instructionsRetired + r } with hq
  have hvq' : Valid q done (a ++ creditSlot r o :: b) tail := by
    refine hv.of_placed (hvp.of_same rfl rfl rfl rfl) ?_
    have hjobs : (a ++ o :: b).map PbsTask.job = (cur :: rest).map PbsTask.job := by
      rw [← hsplit]
      simp [PbsTask.job]
    rw [← hjobs, List.map_append, List.map_append]
    rfl
  refine ⟨q, _, heq, hvq'.toLayout.bookable (fun hdone => ?_) hfirst ?_, hvq', fun hpos t ht hid => ?_⟩
  · obtain ⟨hlate, hplanned⟩ := hstart hdone
    exact ⟨hlate, hmem (hpositive hplanned) id⟩
  · refine hmem hold fun ho => ⟨Int.add_nonneg ho.1 hr, fun hown => ?_⟩
    exact Int.add_pos_of_pos_of_nonneg (ho.2 hown) hr
  · rcases List.mem_append.1 ht with ht | ht
    · exact absurd hid (hne t (by simp [ht]))
    · rcases List.mem_cons.1 ht with rfl | ht
      · exact Int.add_pos_of_nonneg_of_pos (hold o (by simp)).1 hpos
      · exact absurd hid (hne t (by simp [ht]))

end Bookable

/-! ## Signals and the length that is booked -/

section Rescaled

variable {p q : PbsPlan} {done todo tail rest : List PbsTask} {cur t : PbsTask} {factor pid r : Int}
  {s s₂ : System}

@[simp] theorem slot_rescale (factor pid : Int) (t : PbsTask) :
    (rescale factor pid t).slotOwner = t.slotOwner ∧
      (rescale factor pid t).instructionsRetiredSlot = t.instructionsRetiredSlot := by
  rw [rescale]
  split <;> exact ⟨rfl, rfl⟩

theorem taskId_rescale (factor pid : Int) (t : PbsTask) :
    (rescale factor pid t).taskId = t.taskId :=
  job_taskId (job_rescale factor pid t)

theorem planned_stretch (h : 0 < t.instructionsPlanned) :
    0 < (rescale stretchConstant pid t).instructionsPlanned := by
  rw [rescale]
  split
  · change 0 < (t.instructionsPlanned * 105).tdiv 100
    rw [Int.tdiv_eq_ediv_of_nonneg (by omega)]
    omega
  · exact h

theorem planned_shrink (h : 2 ≤ t.instructionsPlanned) :
    0 < (rescale shrinkConstant pid t).instructionsPlanned := by
  rw [rescale]
  split
  · change 0 < (t.instructionsPlanned * 95).tdiv 100
    rw [Int.tdiv_eq_ediv_of_nonneg (by omega)]
    omega
  · omega

theorem slots_rescale (hslots : ∀ t ∈ todo, 0 ≤ t.instructionsRetiredSlot ∧
    (t.slotOwner ≠ t.taskId → 0 < t.instructionsRetiredSlot)) :
    ∀ t ∈ todo.map (rescale factor pid), 0 ≤ t.instructionsRetiredSlot ∧
      (t.slotOwner ≠ t.taskId → 0 < t.instructionsRetiredSlot) := by
  intro t ht
  obtain ⟨u, hu, rfl⟩ := List.mem_map.1 ht
  rw [(slot_rescale factor pid u).1, (slot_rescale factor pid u).2, taskId_rescale]
  exact hslots u hu

theorem SlotUsed.rescale (h : SlotUsed cur todo) :
    SlotUsed (rescale factor pid cur) (todo.map (rescale factor pid)) := by
  intro t ht hid
  obtain ⟨u, hu, rfl⟩ := List.mem_map.1 ht
  rw [taskId_rescale, (slot_rescale factor pid cur).1] at hid
  rw [(slot_rescale factor pid u).2]
  exact h u hu hid

theorem Bookable.signalIfT2 (h : Bookable s.plan) (hv : Valid s.plan done (cur :: rest) tail)
    (hused : SlotUsed cur (cur :: rest)) (hs : signalIfT2 .kernel s = .ok s₂) :
    ∃ cur₂ rest₂, Valid s₂.plan done (cur₂ :: rest₂) tail ∧ Bookable s₂.plan ∧
      SlotUsed cur₂ (cur₂ :: rest₂) := by
  obtain ⟨raised, _, hs⟩ := bind_eq_ok.1 hs
  cases raised with
  | false =>
      obtain rfl := Except.ok.inj hs
      exact ⟨cur, rest, hv, h, hused⟩
  | true =>
      obtain ⟨_, heq, _⟩ := signalT2_eq_ok hv.toLayout hs
      obtain ⟨hstart, hfirst, hslots⟩ := h.lists hv.toLayout
      have hv₂ := (hv.stressed stressReset).rescheduled stretchConstant
        (processAt s.plan.processes s.plan.curProcess).processId
      rw [heq]
      refine ⟨_, _, hv₂, hv₂.toLayout.bookable (fun hdone => ⟨rfl, fun t ht => ?_⟩) hfirst
        (slots_rescale hslots), hused.rescale⟩
      obtain ⟨u, hu, rfl⟩ := List.mem_map.1 ht
      exact planned_stretch ((hstart hdone).2 u hu)

theorem calculateTm2Task_le (t : PbsTask) :
    calculateTm2Task t ≤ max 1 (t.instructionsPlanned + tm2TaskSignalingLimit) := by
  have hlimit : tm2TaskSignalingLimit = -100000000 := rfl
  have hstart : tm2TaskSignalingStart = -1000000000 := rfl
  unfold calculateTm2Task
  dsimp only
  by_cases hrelative : (t.instructionsPlanned * tm2Sigma).tdiv 100 > tm2TaskSignalingLimit
  · rw [if_pos hrelative]
    split <;> split <;> omega
  · rw [if_neg hrelative, if_neg (by omega), if_neg (by omega)]
    omega

theorem long_of_raisesTm2 (hraises : raisesTm2 .kernel p = .ok true)
    (hcur : p.readCurTask = .ok cur) (hlate : p.lateness = 0) (htotal : 0 ≤ p.instructionsPlanned)
    (hslot : 0 < cur.instructionsRetiredSlot) : 2 ≤ cur.instructionsPlanned := by
  obtain ⟨c, htask, hraises⟩ := bind_eq_ok.1 hraises
  obtain ⟨d, hnode, hraises⟩ := bind_eq_ok.1 hraises
  have hd : d = .ok := by
    have hbound : (tm2NodeLowerBound * p.instructionsPlanned).tdiv 100 ≤ 0 := by
      rw [show tm2NodeLowerBound * p.instructionsPlanned = -(20 * p.instructionsPlanned) from
        Int.neg_mul 20 _, Int.neg_tdiv, Int.tdiv_eq_ediv_of_nonneg (by omega)]
      omega
    have hcap : p.instructionsPlanned * tm2NodeEarlinessCap = p.instructionsPlanned * -90 := rfl
    simp only [checkTm2Node, calculateTm2Node, tm2NodeEnabled, Bool.not_true, Bool.false_eq_true,
      if_false, assertThat_kernel, ok_bind, pure_eq_ok] at hnode
    rw [if_neg (by split <;> omega)] at hnode
    exact (Except.ok.inj hnode).symm
  rw [checkTm2Task, hcur, ok_bind, if_neg (by decide)] at htask
  simp only [assertThat_kernel, ok_bind] at htask
  split at htask <;> rename_i hearly
  · have hle := calculateTm2Task_le cur
    have hlimit : tm2TaskSignalingLimit = -100000000 := rfl
    simp only [Bool.and_eq_true, decide_eq_true_eq] at hearly
    omega
  · obtain rfl := Except.ok.inj htask
    rw [hd] at hraises
    cases hraises

end Rescaled

/-! ## Entries that are passed or moved -/

section Moves

variable {p q : PbsPlan} {done todo tail rest blk ns post : List PbsTask} {cur n f : PbsTask}
  {r : Int} {s s₂ : System}

theorem Bookable.passed (hv : Valid p done (cur :: rest) tail)
    (hcur : done = [] → 0 < cur.instructionsPlanned)
    (hfirst : ∀ t ∈ done.head?, 0 < t.instructionsPlanned)
    (hslots : ∀ t ∈ rest, 0 ≤ t.instructionsRetiredSlot ∧
      (t.slotOwner ≠ t.taskId → 0 < t.instructionsRetiredSlot)) :
    Bookable (p.passed done cur rest tail) := by
  refine hv.passed.toLayout.bookable (fun hnil => ?_) (fun t ht => ?_) fun t ht => ?_
  · simp at hnil
  · cases done with
    | nil =>
        obtain rfl : cur = t := by simpa using ht
        exact hcur rfl
    | cons d done => exact hfirst t ht
  · cases rest with
    | nil => cases ht
    | cons n rest =>
        rcases List.mem_cons.1 ht with rfl | ht
        · exact hslots n (by simp)
        · exact hslots t (by simp [ht])

theorem Bookable.finish (h : Bookable s.plan) (hv : Valid s.plan done (cur :: rest) tail)
    (hused : SlotUsed cur (cur :: rest)) (htotal : 0 ≤ s.plan.instructionsPlanned)
    (hs : PbsLevel2.signalIfTm2 .kernel s = .ok s₂) :
    ∃ cur₂ rest₂, Valid s₂.plan done (cur₂ :: rest₂) tail ∧ cur₂.state = cur.state ∧
      ∀ surplus, Bookable ((s₂.plan.booked surplus cur₂).passed done cur₂ rest₂ tail) := by
  obtain ⟨hstart, hfirst, hslots⟩ := h.lists hv.toLayout
  obtain ⟨raised, hraised, hs⟩ := bind_eq_ok.1 hs
  cases raised with
  | false =>
      obtain rfl := Except.ok.inj hs
      exact ⟨cur, rest, hv, rfl, fun surplus => .passed (hv.booked surplus)
        (fun hdone => (hstart hdone).2 cur (by simp)) hfirst fun t ht => hslots t (by simp [ht])⟩
  | true =>
      obtain ⟨_, heq, _⟩ := signalTm2_eq_ok hv.toLayout hs
      have hv₂ := (hv.stressed stressReset).rescheduled shrinkConstant 0
      have hslot : 0 < cur.instructionsRetiredSlot := by
        by_cases hown : cur.slotOwner = cur.taskId
        · exact hused cur (by simp) hown.symm
        · exact (hslots cur (by simp)).2 hown
      rw [heq]
      refine ⟨_, _, hv₂, ?_, fun surplus => .passed (hv₂.booked surplus) (fun hdone => ?_) hfirst
        (slots_rescale fun t ht => hslots t (by simp [ht]))⟩
      · rw [rescale]
        split <;> rfl
      · exact planned_shrink (long_of_raisesTm2 hraised hv.readCurTask (hstart hdone).1 htotal hslot)

theorem Bookable.skip (h : Bookable p) (hv : Valid p done todo tail) :
    ∃ q, skipFreeSlot .kernel p = .ok q ∧ Bookable q := by
  obtain ⟨cur, _, _, hcur⟩ := hv.head
  by_cases hfree : cur.taskId = -1
  · obtain ⟨rest, rfl⟩ := hv.of_readCurTask hcur (by omega)
    obtain ⟨hstart, hfirst, hslots⟩ := h.lists hv.toLayout
    obtain ⟨first, hmem, hread⟩ := hv.passed_first
    have hpassed : Bookable (p.passed done cur rest tail) := .passed hv
      (fun hdone => (hstart hdone).2 cur (by simp)) hfirst fun t ht => hslots t (by simp [ht])
    have hpos := (hpassed.lists hv.passed.toLayout).2.1 first hmem
    refine ⟨_, hv.skipFreeSlot_eq hfree hread hpos, ⟨fun hnil => ?_, hpassed.first, hpassed.slots⟩⟩
    have hdone := hv.passed.toLayout.doneTasks_eq
    rw [show (p.passed done cur rest tail).doneTasks = [] from hnil] at hdone
    simp at hdone
  · exact ⟨p, skipFreeSlot_real hcur hfree, h⟩

theorem Bookable.bumped (h : Bookable p) (hv : Valid p done (cur :: todo) tail) :
    Bookable (p.bumped done cur (todo ++ tail)) := by
  obtain ⟨hstart, hfirst, hslots⟩ := h.lists hv.toLayout
  refine hv.bumped.toLayout.bookable (fun hdone => ⟨(hstart hdone).1, fun t ht => ?_⟩) hfirst
    fun t ht => ?_
  · rcases List.mem_cons.1 ht with rfl | ht
    · exact (hstart hdone).2 cur (by simp)
    · exact (hstart hdone).2 t (by simp [ht])
  · rcases List.mem_cons.1 ht with rfl | ht
    · exact hslots cur (by simp)
    · exact hslots t (by simp [ht])

theorem Cut.mem_rotated (hc : Cut cur todo blk n ns f post) {t : PbsTask}
    (ht : t ∈ changeTaskState n .running :: ns ++
      ((bump cur :: blk).map (hosted f.taskId) ++ f :: post)) : ∃ u ∈ cur :: todo,
      t.taskId = u.taskId ∧ t.instructionsPlanned = u.instructionsPlanned ∧
      t.instructionsRetiredSlot = u.instructionsRetiredSlot ∧
      (t.slotOwner = u.slotOwner ∨ u ∈ cur :: blk) := by
  rw [hc.todo_eq]
  simp only [List.map_cons, List.cons_append, List.mem_cons, List.mem_append, List.mem_map] at ht
  rcases ht with rfl | ht | rfl | ⟨u, hu, rfl⟩ | rfl | ht
  · exact ⟨n, by simp, rfl, rfl, rfl, .inl rfl⟩
  · exact ⟨t, by simp [ht], rfl, rfl, rfl, .inl rfl⟩
  · exact ⟨cur, by simp, rfl, rfl, rfl, .inr (by simp)⟩
  · exact ⟨u, by simp [hu], rfl, rfl, rfl, .inr (by simp [hu])⟩
  · exact ⟨t, by simp, rfl, rfl, rfl, .inl rfl⟩
  · exact ⟨t, by simp [ht], rfl, rfl, rfl, .inl rfl⟩

theorem Bookable.rotated (h : Bookable p) (hv : Valid p done (cur :: todo) tail)
    (hcur : cur.taskId ≠ -1) (hused : SlotUsed cur (cur :: todo))
    (hc : Cut cur todo blk n ns f post) :
    Bookable (p.rotated done n ns cur blk f (post ++ tail)) := by
  obtain ⟨hstart, hfirst, hslots⟩ := h.lists hv.toLayout
  refine (hv.rotated hcur hc).toLayout.bookable (fun hdone => ⟨(hstart hdone).1, fun t ht => ?_⟩)
    hfirst fun t ht => ?_
  · obtain ⟨u, hu, _, hplanned, _⟩ := hc.mem_rotated ht
    rw [hplanned]
    exact (hstart hdone).2 u hu
  · obtain ⟨u, hu, hid, _, hslot, howner⟩ := hc.mem_rotated ht
    rw [hslot, hid]
    refine ⟨(hslots u hu).1, fun hne => ?_⟩
    by_cases hown : u.slotOwner = u.taskId
    · rcases howner with hsame | hstack
      · exact absurd (hsame.trans hown) hne
      · refine hused u hu ?_
        rcases List.mem_cons.1 hstack with rfl | hblk
        · exact hown.symm
        · exact hown.symm.trans (hc.stack u hblk).2.2.symm
    · exact (hslots u hu).2 hown

end Moves

/-! ## Preemption -/

/-- If the search finds an insertion slot, then the last entry the move reads is one of the
array. -/
def readsInside (b : Build) (p : PbsPlan) : Bool :=
  match p.readCurTask with
  | .error _ => true
  | .ok cur =>
      match findSlotToMoveTo b cur.processId p, getStackSizePreemptedTasks p with
      | .ok (some insertionSlot), .ok stackSize =>
          insertionSlot + stackSize ≤ maxNumberTasksInPlan
      | _, _ => true

section Preempt

variable {p q : PbsPlan} {done todo tail rest blk ns post : List PbsTask} {cur n f : PbsTask}
  {r : Int} {s s₂ : System} {b : Build}

theorem Cut.readsInside_iff (hc : Cut cur todo blk n ns f post)
    (hl : Layout p done (cur :: todo) tail) : readsInside b p = true ↔
      done.length + ns.length + 2 * (blk.length + 1) ≤ maxNumberTasksInPlan := by
  rw [readsInside, hl.readCurTask]
  dsimp only
  rw [findSlotToMoveTo_cut hl hc, getStackSizePreemptedTasks_cut hl hc]
  simp only [decide_eq_true_eq]
  omega

/-- The kernel build preempts a task without a fault if and only if the move reads entries of
the array only. -/
theorem Bookable.preempt (h : Bookable p) (howned : Owned p)
    (hv : Valid p done (cur :: todo) tail) (hcur : cur.taskId ≠ -1)
    (hrun : cur.instructionsRetiredTask < cur.instructionsReal) (hi : ProcessIndex p.curProcess)
    (hused : SlotUsed cur (cur :: todo)) (hroom : readsInside .kernel p = true) :
    ∃ q todo', preemptCurTask .kernel p = .ok q ∧ Bookable q ∧ Valid q done todo' tail := by
  rcases exists_cut_or_noSlot cur todo with ⟨blk, n, ns, f, post, hc⟩ | hno
  · refine ⟨_, _, ?_, h.rotated hv hcur hused hc, hv.rotated hcur hc⟩
    rw [preemptCurTask_kernel_cut hv.toLayout hc, if_pos ((hc.readsInside_iff hv.toLayout).1 hroom)]
  · obtain ⟨q, todo', hq, hbook, hvq, _⟩ := (h.bumped hv).credit (kept_owned.bump hv hcur howned)
      hv.bumped hcur (show 0 ≤ cur.instructionsReal - cur.instructionsRetiredTask by omega) hi
    refine ⟨{ q with state := .planFinished }, todo', ?_, hbook.congr rfl rfl rfl,
      hvq.of_same rfl rfl rfl rfl⟩
    rw [preemptCurTask_noSlot .kernel hv.toLayout rfl hno, handleNoPreemptionSlotFound,
      hv.bumped.readCurTask, ok_bind]
    change (updateRetiredInstructions (cur.instructionsReal - cur.instructionsRetiredTask) _ >>= _) = _
    rw [hq]
    rfl

end Preempt

/-! ## Ticks that do not fault -/

/-- A parsed plan that announces a process and whose planned lengths are positive. -/
structure Ready (o : PbsPlan) : Prop where
  parsed : Parsed o
  admissible : Admissible o
  distinct : DistinctIds o
  processes : 1 ≤ o.numProcesses
  planned : ∀ t ∈ o.parsedTasks, 0 < t.instructionsPlanned

/-- What the lookups and the divisions of a tick rest on. -/
def Sound (o p : PbsPlan) : Prop :=
  (Owned p ∧ ∀ i, (processAt p.processes i).lengthPlan = (processAt o.processes i).lengthPlan) ∧
    p.header = o.header

theorem kept_sound (o : PbsPlan) : Kept (fun _ => True) (Sound o) :=
  (kept_owned.and (upheld_process PbsProcess.lengthPlan (fun _ _ => rfl) (fun _ _ => rfl)
    (fun _ => rfl) _).kept).and (upheld_header _).kept

section Totality

variable {o p q : PbsPlan} {done todo tail rest : List PbsTask} {cur : PbsTask} {r : Int}
  {s s₂ : System} {a : Agenda Job}

theorem lengthFrom_nonneg {l : List PbsTask} {n : Int} (h : lengthFrom l = .ok n)
    (hl : ∀ t ∈ l.takeWhile (fun t => t.taskId ≠ -2), 0 ≤ t.instructionsPlanned) : 0 ≤ n := by
  induction l generalizing n with
  | nil => cases h
  | cons t l ih =>
      rw [lengthFrom] at h
      split at h <;> rename_i hend
      · exact (Except.ok.inj h).le
      · obtain ⟨sum, hsum, h⟩ := bind_eq_ok.1 h
        obtain rfl := Except.ok.inj h
        rw [List.takeWhile_cons_of_pos (by simpa using hend)] at hl
        exact Int.add_nonneg (hl t (by simp)) (ih hsum fun u hu => hl u (List.mem_cons_of_mem t hu))

theorem Ready.total_nonneg (ho : Ready o) : 0 ≤ o.instructionsPlanned := by
  refine lengthFrom_nonneg ho.parsed.instructionsPlanned fun t ht => ?_
  have hlive := (ho.parsed.valid ho.admissible).toLayout.liveTasks_eq
  rw [PbsPlan.liveTasks] at hlive
  rw [hlive, List.nil_append] at ht
  exact (ho.planned t ht).le

theorem Ready.sound (ho : Ready o) : Sound o o :=
  ⟨⟨ho.parsed.owned ho.admissible.entries ho.distinct, fun _ => rfl⟩, rfl⟩

theorem Ready.bookable (ho : Ready o) : Bookable o := by
  refine (ho.parsed.valid ho.admissible).toLayout.bookable
    (fun _ => ⟨ho.parsed.counters.1, ho.planned⟩) (by simp) fun t ht => ?_
  have hfresh := ho.parsed.fresh t ht
  exact ⟨hfresh.retiredSlot.ge, fun hne => absurd hfresh.slotOwner hne⟩

theorem Parsed.lengthPlan_pos (ho : Parsed o)
    (hplanned : ∀ t ∈ o.parsedTasks, 0 < t.instructionsPlanned)
    (hlengths : ∀ i, (processAt p.processes i).lengthPlan = (processAt o.processes i).lengthPlan)
    (hv : Placed p done (cur :: rest) tail)
    (hjobs : ((done ++ cur :: rest).map PbsTask.job).Perm (o.parsedTasks.map PbsTask.job))
    (hreal : cur.taskId ≠ -1) :
    ProcessIndex p.curProcess ∧ 0 < (processAt p.processes p.curProcess).lengthPlan := by
  obtain ⟨u, hu, hjob⟩ := List.mem_map.1 (hjobs.subset
    (List.mem_map_of_mem (show cur ∈ done ++ cur :: rest by simp)))
  have hpid : u.processId ≠ -1 := by
    rw [job_processId hjob, ne_eq, ← hv.free cur (by simp)]
    exact hreal
  have hindex := ho.pid u hu hpid
  have hprocess : p.curProcess = u.processId := by
    rw [hv.process cur hv.readCurTask, processOf, if_pos hreal, job_processId hjob]
  rw [hlengths, hprocess, (ho.processes _).2.2 hindex]
  refine ⟨hindex, ?_⟩
  calc
    0 < u.instructionsPlanned := hplanned u hu
    _ ≤ processTotal PbsTask.instructionsPlanned u.processId o.parsedTasks :=
      value_le_total hu rfl fun t ht _ => (hplanned t ht).le

theorem Ready.calculable (ho : Ready o) (h : At (Sound o) a p)
    (hjobs : a.jobs.Perm (o.parsedTasks.map PbsTask.job)) (hcur : p.readCurTask = .ok cur)
    (hreal : cur.taskId ≠ -1) (hlive : cur.taskId ≠ -2) : Calculable p := by
  obtain ⟨done, todo, tail, hv, rfl, ⟨_, hlengths⟩, hheader⟩ := h
  obtain ⟨rest, rfl⟩ := hv.of_readCurTask hcur hlive
  obtain ⟨hindex, hlength⟩ := ho.parsed.lengthPlan_pos ho.planned hlengths hv.toPlaced
    (by rw [List.map_append]; exact hjobs) hreal
  have hcount : p.numProcesses = o.numProcesses := congrArg Prod.fst hheader
  exact ⟨hindex, hlength.ne', by have := ho.processes; omega⟩

theorem Owned.checkT1 (h : Owned p) (hv : Placed p done (cur :: rest) tail) :
    Succeeds (checkT1 p) := by
  obtain ⟨a, o, b, hsplit, _, _, _, hslot⟩ := h.slotOfCurTask hv
  have htasks : p.tasks.toList = (done ++ a) ++ o :: (b ++ tail) := by
    rw [hv.tasks, hsplit]
    simp
  have hread := readTask_joint htasks
  rw [PbsLevel2.checkT1, if_neg (by decide), hslot, ok_bind, hread, ok_bind]
  dsimp only
  split <;> simp

theorem Ready.finished (ho : Ready o) (h : At (Sound o) a s.plan)
    (hjobs : a.jobs.Perm (o.parsedTasks.map PbsTask.job)) (hb : Bookable s.plan)
    (hv : Valid s.plan done (cur :: rest) tail) (hcur : cur.taskId ≠ -1)
    (hstate : cur.state = .finished) (hused : SlotUsed cur (cur :: rest)) :
    ∃ s', scheduleTaskFinished .kernel s = .ok s' ∧ Bookable s'.plan := by
  have hlive : cur.taskId ≠ -2 := (hv.live cur (by simp)).1
  obtain ⟨s₂, hsignal⟩ := (ho.calculable h hjobs hv.readCurTask hcur hlive).signalIfTm2 hv
  obtain ⟨h₂, hreal₂, hcur₂⟩ := (kept_sound o).signalAt h (signalIfTm2_eq_ok hsignal)
  obtain ⟨planned, hread₂⟩ := hcur₂ cur hv.readCurTask
  have hi := (ho.calculable h₂ hjobs hread₂ hcur hlive).index
  have htotal : 0 ≤ s.plan.instructionsPlanned := by
    obtain ⟨_, _, _, _, _, _, hheader⟩ := h
    rw [show s.plan.instructionsPlanned = o.instructionsPlanned from
      congrArg (fun x => x.2.2) hheader]
    exact ho.total_nonneg
  obtain ⟨cur₂, rest₂, hv₂, hstate₂, hpassed⟩ := hb.finish hv hused htotal hsignal
  set surplus := cur.instructionsRetiredSlot - cur.instructionsReal
  obtain ⟨q, hskip, hq⟩ := (hpassed surplus).skip (hv₂.booked surplus).passed
  exact ⟨_, scheduleTaskFinished_of hv.readCurTask hsignal
    (bookFinishedTask_eq hv₂.toLayout hi surplus)
    (show PbsPlan.readCurTask _ = .ok cur₂ from (hv₂.booked surplus).readCurTask)
    (hstate₂.trans hstate) (hv₂.booked surplus).toLayout.updateCurProcess_next hskip, hq⟩

theorem Ready.unfinished (ho : Ready o) (h : At (Sound o) a s.plan)
    (hjobs : a.jobs.Perm (o.parsedTasks.map PbsTask.job)) (hb : Bookable s.plan)
    (hv : Valid s.plan done (cur :: rest) tail) (hcur : cur.taskId ≠ -1)
    (hrun : cur.instructionsRetiredTask < cur.instructionsReal) (hused : SlotUsed cur (cur :: rest))
    (hroom : ∀ s₂ c, signalIfT2 .kernel s = .ok s₂ → checkT1 s₂.plan = .ok c →
      c.transgressed = true → readsInside .kernel s₂.plan = true) :
    ∃ s', scheduleTimerTick .kernel s = .ok s' ∧ Bookable s'.plan := by
  have hlive : cur.taskId ≠ -2 := (hv.live cur (by simp)).1
  obtain ⟨s₂, hsignal⟩ := (ho.calculable h hjobs hv.readCurTask hcur hlive).signalIfT2 hv
  obtain ⟨h₂, hreal₂, hcur₂⟩ := (kept_sound o).signalAt h (signalIfT2_eq_ok hsignal)
  obtain ⟨planned, hread₂⟩ := hcur₂ cur hv.readCurTask
  have hi := (ho.calculable h₂ hjobs hread₂ hcur hlive).index
  have howned : Owned s₂.plan := by
    obtain ⟨_, _, _, _, _, ⟨howned, _⟩, _⟩ := h₂
    exact howned
  obtain ⟨cur₂, rest₂, hv₂, hb₂, hused₂⟩ := hb.signalIfT2 hv hused hsignal
  obtain rfl : cur₂ = { cur with instructionsPlanned := planned } :=
    Except.ok.inj (hv₂.readCurTask.symm.trans hread₂)
  obtain ⟨c, ht1⟩ := howned.checkT1 hv₂.toPlaced
  rw [scheduleTimerTick_of hsignal ht1]
  split <;> rename_i hc
  · obtain ⟨q, todo', hpreempt, hbq, hvq⟩ :=
      hb₂.preempt howned hv₂ hcur hrun hi hused₂ (hroom s₂ c hsignal ht1 hc)
    obtain ⟨q', hskip, hbq'⟩ := hbq.skip hvq
    rw [hpreempt, ok_bind, hskip]
    exact ⟨_, rfl, hbq'⟩
  · refine ⟨_, rfl, hb₂.congr ?_ ?_ ?_⟩ <;> dsimp only <;> rw [relieveStress_eq]

/-- A tick of the kernel build ends in no fault, provided that a preemption reads entries of the
array only. -/
theorem Ready.tick (ho : Ready o) (h : At (Sound o) a s.plan) (hh : HeadReal s.plan)
    (hjobs : a.jobs.Perm (o.parsedTasks.map PbsTask.job)) (hb : Bookable s.plan) (hr : 0 < r)
    (hroom : ∀ p, preemptionPoint .kernel r s = .ok (some p) → readsInside .kernel p = true) :
    ∃ s', pbsRunTimerTick .kernel r s = .ok s' ∧ Bookable s'.plan := by
  obtain ⟨done, todo, tail, hv, _, hsound⟩ := id h
  have hnum : s.plan.numTasks < 400 :=
    (congrArg (fun x => x.2.1) (show s.plan.header = o.header from hsound.2)).trans_lt
      ho.parsed.numTasks_lt
  cases todo with
  | nil =>
      obtain ⟨cur, hcur, hend⟩ := hv.toLayout.ended
      exact ⟨s, tick_of_ended hnum hcur hend, hb⟩
  | cons cur rest =>
      have hreal := hh cur hv.readCurTask
      have hlive : cur.taskId ≠ -2 := (hv.live cur (by simp)).1
      obtain ⟨p₁, todo₁, hcredit, hb₁, hv₁, hused⟩ := hb.credit hsound.1.1 hv hreal hr.le
        (ho.calculable h hjobs hv.readCurTask hreal hlive).index
      obtain ⟨h₁, hh₁⟩ := (kept_sound o).creditAt h hh hr.le hcredit
      obtain ⟨c, hc, hcur₁, _⟩ := Kept.readCurTask_credit h hr.le hcredit
      obtain rfl := Except.ok.inj (hv.readCurTask.symm.trans hc)
      have hid := frame_taskId (frame_credited r cur)
      obtain ⟨rest₁, rfl⟩ := hv₁.of_readCurTask hcur₁ (by rwa [hid])
      have hused₁ : SlotUsed (credited r cur) (credited r cur :: rest₁) := by
        rw [SlotUsed, frame_slotOwner (frame_credited r cur)]
        exact hused hr
      rw [tick_of_live hnum hv.readCurTask hlive hcredit hcur₁]
      by_cases hstate : (credited r cur).state = .finished
      · obtain ⟨s', hs', hb'⟩ := ho.finished (s := { s with plan := p₁ }) h₁ hjobs hb₁ hv₁
          (by rwa [hid]) hstate hused₁
        rw [if_pos hstate, hs', ok_bind]
        exact ⟨_, rfl, hb'.congr rfl rfl rfl⟩
      · obtain ⟨s', hs', hb'⟩ := ho.unfinished (s := { s with plan := p₁ }) h₁ hjobs hb₁ hv₁
          (by rwa [hid]) (credited_state hstate) hused₁ fun s₂ c hsignal ht1 hc => hroom _
            (preemptionPoint_eq hv.readCurTask hlive hcredit hcur₁ hstate hsignal ⟨c, ht1, hc⟩)
        rw [if_neg hstate, hs', ok_bind]
        exact ⟨_, rfl, hb'.congr rfl rfl rfl⟩

end Totality

end PbsLevel2

import PbsLevel2.Proofs.Operations

/-!
# Assertions that do not fail

The functions that make no assertion fail none; the others fail their own at most.  What
is left is the assertion of `calculate_process_completion`: it holds as long as no process
was debited more than it was credited.
-/

namespace PbsLevel2

open Lib

section Avoids

variable {a : Assertion} {b : Build}

theorem avoids_assertThat {a' : Assertion} (h : a' ≠ a) (b : Build) (c : Bool) :
    Avoids (.assertion a) (assertThat b a' c) := by
  cases b
  · cases c
    · simpa [assertThat] using h
    · simp [assertThat]
  · simp [assertThat]

/-! ## `plan.c` -/

@[simp] theorem avoids_readTask (p : PbsPlan) (i : Nat) : Avoids (.assertion a) (p.readTask i) := by
  rw [PbsPlan.readTask]
  split <;> simp

@[simp] theorem avoids_writeTask (p : PbsPlan) (i : Nat) (t : PbsTask) :
    Avoids (.assertion a) (p.writeTask i t) := by
  rw [PbsPlan.writeTask]
  split <;> simp

@[simp] theorem avoids_modifyTask (p : PbsPlan) (i : Nat) (f : PbsTask → PbsTask) :
    Avoids (.assertion a) (p.modifyTask i f) := by
  simp [PbsPlan.modifyTask]

@[simp] theorem avoids_readCurTask (p : PbsPlan) : Avoids (.assertion a) p.readCurTask :=
  avoids_readTask p _

@[simp] theorem avoids_readProcess (p : PbsPlan) (i : Int) :
    Avoids (.assertion a) (p.readProcess i) := by
  rw [PbsPlan.readProcess]
  split <;> simp

@[simp] theorem avoids_modifyProcess (p : PbsPlan) (i : Int) (f : PbsProcess → PbsProcess) :
    Avoids (.assertion a) (p.modifyProcess i f) := by
  have hwrite : ∀ q, Avoids (.assertion a) (p.writeProcess i q) := by
    intro q
    rw [PbsPlan.writeProcess]
    split <;> simp
  simp [PbsPlan.modifyProcess, hwrite]

@[simp] theorem avoids_divide (m n : Int) : Avoids (.assertion a) (divide m n) := by
  rw [divide]
  split <;> simp

@[simp] theorem avoids_findTaskFrom (taskId : Int) (l : List PbsTask) (i : Nat) :
    Avoids (.assertion a) (findTaskFrom taskId l i) := by
  induction l generalizing i with
  | nil => simp [findTaskFrom]
  | cons t l ih =>
      rw [findTaskFrom]
      split
      · simp
      · split
        · simp
        · exact ih _

@[simp] theorem avoids_slotOfCurTask (p : PbsPlan) : Avoids (.assertion a) (slotOfCurTask p) := by
  simp only [slotOfCurTask, findTaskWithTaskId, Avoids.bind, avoids_readCurTask, true_and]
  intro cur _
  split
  · simp
  · simp only [Avoids.bind, avoids_findTaskFrom, true_and]
    intro k _
    cases k <;> simp

@[simp] theorem avoids_updateRetiredInstructions (r : Int) (p : PbsPlan) :
    Avoids (.assertion a) (updateRetiredInstructions r p) := by
  rw [updateRetiredInstructions]
  split <;> simp

@[simp] theorem avoids_updateCurProcess (p : PbsPlan) :
    Avoids (.assertion a) (updateCurProcess p) := by
  simp only [updateCurProcess, Avoids.bind, avoids_modifyTask, avoids_readCurTask, true_and]
  intro _ _ _ _
  split <;> simp

@[simp] theorem avoids_balanceLateness (p : PbsPlan) :
    Avoids (.assertion a) (balanceLateness p) := by
  simp [balanceLateness]

/-! ## `prediction_failure_handling.c` -/

@[simp] theorem avoids_skipOwnRun (targetPid : Int) (l : List PbsTask) (slot : Nat) :
    Avoids (.assertion a) (skipOwnRun targetPid l slot) := by
  induction l generalizing slot with
  | nil => simp [skipOwnRun]
  | cons t l ih =>
      rw [skipOwnRun]
      split
      · exact ih _
      · simp

theorem avoids_searchSlot (ha : .findSlotToMoveTo ≠ a) (targetPid : Int) (l : List PbsTask)
    (slot : Nat) : Avoids (.assertion a) (searchSlot b targetPid l slot) := by
  induction l generalizing slot with
  | nil => simp [searchSlot]
  | cons t l ih =>
      rw [searchSlot]
      split
      · simp [avoids_assertThat ha]
      · split
        · simp
        · exact ih _

@[simp] theorem avoids_stackSizeFrom (cur : PbsTask) (l : List PbsTask) :
    Avoids (.assertion a) (stackSizeFrom cur l) := by
  induction l with
  | nil => simp [stackSizeFrom]
  | cons t l ih =>
      rw [stackSizeFrom]
      split
      · simpa using ih
      · simp

@[simp] theorem avoids_savePreemptedTasks (p : PbsPlan) (n i : Nat) :
    Avoids (.assertion a) (savePreemptedTasks p n i) := by
  induction n generalizing i with
  | zero => simp [savePreemptedTasks]
  | succ n ih => simp [savePreemptedTasks, ih]

@[simp] theorem avoids_shiftForward (stackSize n i : Nat) (p : PbsPlan) :
    Avoids (.assertion a) (shiftForward stackSize n i p) := by
  induction n generalizing i p with
  | zero => simp [shiftForward]
  | succ n ih => simp [shiftForward, ih]

@[simp] theorem avoids_writePreemptedTasks (ts : List PbsTask) (i : Nat) (p : PbsPlan) :
    Avoids (.assertion a) (writePreemptedTasks ts i p) := by
  induction ts generalizing i p with
  | nil => simp [writePreemptedTasks]
  | cons t ts ih => simp [writePreemptedTasks, ih]

@[simp] theorem avoids_moveTasks (insertionSlot stackSize : Nat) (p : PbsPlan) :
    Avoids (.assertion a) (moveTasks insertionSlot stackSize p) := by
  simp only [moveTasks, Avoids.bind, avoids_readTask, avoids_savePreemptedTasks,
    avoids_shiftForward, true_and]
  intro _ _ _ _ _ _
  split <;> simp

@[simp] theorem avoids_noIdIsDuplicatedFrom (l : List PbsTask)
    (found : Vector Nat maxNumberTasksInPlan) :
    Avoids (.assertion a) (noIdIsDuplicatedFrom l found) := by
  induction l generalizing found with
  | nil => simp [noIdIsDuplicatedFrom]
  | cons t l ih =>
      rw [noIdIsDuplicatedFrom]
      split
      · simp
      · split
        · exact ih _
        · split
          · split
            · simp
            · exact ih _
          · simp

theorem avoids_preemptCurTask (ha : a ∉ [Assertion.preemptCurTaskEntry, .preemptCurTaskSlot,
    .preemptCurTaskIds, .findSlotToMoveTo]) (p : PbsPlan) :
    Avoids (.assertion a) (preemptCurTask b p) := by
  simp only [List.mem_cons, List.not_mem_nil, or_false, not_or] at ha
  obtain ⟨hentry, hslot, hids, hfind⟩ := ha
  have hduplicates : ∀ q, Avoids (.assertion a) (assertNoIdIsDuplicated b q) := by
    intro q
    cases b
    · simp [assertNoIdIsDuplicated, noIdIsDuplicated, avoids_assertThat (Ne.symm hids)]
    · simp [assertNoIdIsDuplicated]
  simp only [preemptCurTask, findSlotToMoveTo, getStackSizePreemptedTasks, Avoids.bind,
    avoids_readCurTask, avoids_assertThat (Ne.symm hentry), avoids_modifyTask, avoids_skipOwnRun,
    avoids_searchSlot (Ne.symm hfind), avoids_stackSizeFrom, implies_true, true_and, and_true]
  intro _ _ _ _ _ _ slot _ _ _
  cases slot with
  | none => simp [handleNoPreemptionSlotFound]
  | some slot => simp [avoids_assertThat (Ne.symm hslot), hduplicates]

/-! ## `threshold_checking.c` -/

@[simp] theorem avoids_checkT1 (p : PbsPlan) : Avoids (.assertion a) (checkT1 p) := by
  simp only [checkT1, t1Enabled, Bool.not_true, Bool.false_eq_true, if_false, Avoids.bind,
    avoids_slotOfCurTask, avoids_readTask, true_and]
  intro _ _ _ _
  split <;> simp

@[simp] theorem avoids_checkT2Task (p : PbsPlan) : Avoids (.assertion a) (checkT2Task p) := by
  simp only [checkT2Task, t2TaskEnabled, Bool.not_true, Bool.false_eq_true, if_false, Avoids.bind,
    avoids_readCurTask, true_and]
  intro _ _
  split <;> simp

theorem avoids_calculateCapacityBuffer (ha : .calculateCapacityBuffer ≠ a) (q : PbsProcess) :
    Avoids (.assertion a) (calculateCapacityBuffer b q) := by
  simp [calculateCapacityBuffer, avoids_assertThat ha]

theorem avoids_calculateT2Node (ha : .calculateT2Node ≠ a) (p : PbsPlan) :
    Avoids (.assertion a) (calculateT2Node b p) := by
  simp [calculateT2Node, avoids_assertThat ha]

theorem avoids_checkT2Node (ha : .calculateT2Node ≠ a) (p : PbsPlan) :
    Avoids (.assertion a) (checkT2Node b p) := by
  simp only [checkT2Node, t2NodeEnabled, Bool.not_true, Bool.false_eq_true, if_false, Avoids.bind,
    avoids_calculateT2Node ha, true_and]
  intro _ _
  split <;> simp

theorem avoids_checkTm2Task (ha : a ∉ [Assertion.checkTm2TaskUpper, .checkTm2TaskLower])
    (p : PbsPlan) : Avoids (.assertion a) (checkTm2Task b p) := by
  simp only [List.mem_cons, List.not_mem_nil, or_false, not_or] at ha
  simp only [checkTm2Task, tm2TaskEnabled, Bool.not_true, Bool.false_eq_true, if_false, Avoids.bind,
    avoids_readCurTask, avoids_assertThat (Ne.symm ha.1), avoids_assertThat (Ne.symm ha.2),
    true_and]
  intro _ _ _ _ _ _
  split <;> simp

theorem avoids_checkTm2Node (ha : .calculateTm2Node ≠ a) (p : PbsPlan) :
    Avoids (.assertion a) (checkTm2Node b p) := by
  simp only [checkTm2Node, calculateTm2Node, tm2NodeEnabled, Bool.not_true, Bool.false_eq_true,
    if_false, Avoids.bind, avoids_assertThat ha, true_and]
  refine ⟨fun _ _ => Avoids.ok _, fun _ _ => ?_⟩
  split <;> simp

/-! ## `pb-scheduler.c` -/

theorem avoids_skipFreeSlot (ha : a ∉ [Assertion.handleFreeSlotEntry, .handleFreeSlotLateness,
    .handleFreeSlotNext]) (p : PbsPlan) : Avoids (.assertion a) (skipFreeSlot b p) := by
  simp only [List.mem_cons, List.not_mem_nil, or_false, not_or] at ha
  simp only [skipFreeSlot, Avoids.bind, avoids_readCurTask, true_and]
  intro _ _
  split
  · simp [handleFreeSlot, avoids_assertThat (Ne.symm ha.1), avoids_assertThat (Ne.symm ha.2.1),
      avoids_assertThat (Ne.symm ha.2.2)]
  · simp

@[simp] theorem avoids_bookFinishedTask (surplus : Int) (p : PbsPlan) :
    Avoids (.assertion a) (bookFinishedTask surplus p) := by
  simp [bookFinishedTask]

end Avoids

/-! ## `calculate_process_completion` -/

/-- No process was debited more than it was credited. -/
def Solvent (p : PbsPlan) : Prop :=
  ∀ i, ProcessIndex i → 0 ≤ (processAt p.processes i).instructionsRetired

section Completion

variable {b : Build} {p : PbsPlan} {q : PbsProcess} {s : System} {r : Int}
  {done todo tail : List PbsTask}

theorem calculateCapacityBuffer_userland {capacity : Int}
    (h : calculateCapacityBuffer .userland q = .ok capacity) : 0 < q.lengthPlan := by
  obtain ⟨_, h, _⟩ := bind_eq_ok.1 h
  rw [assertThat] at h
  split at h <;> rename_i hlt
  · rw [decide_eq_true_eq, t2CapacityBuffer] at hlt
    omega
  · cases h

theorem avoids_calculateProcessCompletion (hq : 0 ≤ q.instructionsRetired) {capacity : Int}
    (hcapacity : calculateCapacityBuffer b q = .ok capacity) :
    Avoids (.assertion .calculateProcessCompletion) (calculateProcessCompletion b q) := by
  simp only [calculateProcessCompletion, Avoids.bind, avoids_divide, true_and, Avoids.ok,
    pure_eq_ok, implies_true, and_true]
  intro completion hcompletion
  cases b with
  | kernel => exact Avoids.ok _
  | userland =>
      have hlen := calculateCapacityBuffer_userland hcapacity
      rw [divide, if_neg (by omega)] at hcompletion
      obtain rfl := Except.ok.inj hcompletion
      have hnonneg : 0 ≤ (q.instructionsRetired * 100).tdiv q.lengthPlan :=
        Int.tdiv_nonneg (by omega) (by omega)
      rw [assertThat_true _ _ (by simpa using hnonneg)]
      exact Avoids.ok _

theorem avoids_calculateAllowedPlanBuffer (hq : 0 ≤ q.instructionsRetired) {capacity : Int}
    (hcapacity : calculateCapacityBuffer b q = .ok capacity) (p : PbsPlan) :
    Avoids (.assertion .calculateProcessCompletion) (calculateAllowedPlanBuffer b q p) := by
  simp [calculateAllowedPlanBuffer, avoids_calculateProcessCompletion hq hcapacity]

theorem Solvent.readProcess (h : Solvent p) {i : Int} (hq : p.readProcess i = .ok q) :
    0 ≤ q.instructionsRetired := by
  have hi := readProcess_index hq
  rw [readProcess_eq hi] at hq
  obtain rfl := Except.ok.inj hq
  exact h i hi

theorem Solvent.avoids_checkT2Process (h : Solvent p) :
    Avoids (.assertion .calculateProcessCompletion) (checkT2Process b p) := by
  simp only [checkT2Process, t2ProcessEnabled, Bool.not_true, Bool.false_eq_true, if_false,
    Avoids.bind, avoids_readProcess,
    avoids_calculateCapacityBuffer (a := .calculateProcessCompletion) (by decide), true_and]
  intro q hq capacity hcapacity
  split
  · simp only [Avoids.bind, avoids_calculateAllowedPlanBuffer (h.readProcess hq) hcapacity,
      true_and]
    intro _ _
    split <;> split <;> simp
  · simp

theorem Solvent.avoids_printThresholds (h : Solvent p) :
    Avoids (.assertion .calculateProcessCompletion) (printThresholds b p) := by
  simp only [printThresholds, Avoids.bind, avoids_readCurTask, avoids_readProcess,
    avoids_calculateCapacityBuffer (a := .calculateProcessCompletion) (by decide),
    avoids_calculateT2Node (a := .calculateProcessCompletion) (by decide), pure_eq_ok,
    Avoids.ok, implies_true, and_true, true_and]
  intro _ _ q hq capacity hcapacity
  exact avoids_calculateAllowedPlanBuffer (h.readProcess hq) hcapacity p

theorem Solvent.balanceLateness {q : PbsPlan} (h : Solvent p) (hq : balanceLateness p = .ok q) :
    Solvent q := by
  obtain ⟨hi, rfl⟩ := modifyProcess_eq_ok hq
  intro i hindex
  have hretired := @view_updateProcess _ p.processes p.curProcess hi
    (fun r => { r with lateness := 0 }) PbsProcess.instructionsRetired (fun _ => rfl) i
  exact (h i hindex).trans_eq hretired.symm

theorem Solvent.avoids_reschedule (h : Solvent p) (hl : Layout p done todo tail) (signal : Check)
    (pid : Int) : Avoids (.assertion .calculateProcessCompletion) (reschedule b p signal pid) := by
  rw [reschedule, hl.rescheduleFrom, ok_bind]
  simp only [Avoids.bind, avoids_balanceLateness, pure_eq_ok, Avoids.ok, implies_true, and_true,
    true_and]
  intro p₂ hp₂
  exact (Solvent.balanceLateness (p := p.withTasks _) h hp₂).avoids_printThresholds

theorem Solvent.avoids_signals (h : Solvent s.plan) (hl : Layout s.plan done todo tail) :
    Avoids (.assertion .calculateProcessCompletion) (signalT2 b s) ∧
    Avoids (.assertion .calculateProcessCompletion) (signalTm2 b s) := by
  have hs : Solvent { s.plan with stress := stressReset } := h
  constructor
  · simp [signalT2, hs.avoids_reschedule (hl.stressed _)]
  · simp [signalTm2, hs.avoids_reschedule (hl.stressed _)]

theorem Solvent.avoids_scheduleTaskFinished (h : Solvent s.plan)
    (hl : Layout s.plan done todo tail) :
    Avoids (.assertion .calculateProcessCompletion) (scheduleTaskFinished b s) := by
  have hraises : Avoids (.assertion .calculateProcessCompletion) (raisesTm2 b s.plan) := by
    simp [raisesTm2, avoids_checkTm2Task, avoids_checkTm2Node]
  have hswitch : ∀ p, Avoids (.assertion .calculateProcessCompletion) (switchTask b p) := by
    simp [switchTask, advanceCurTask, avoids_assertThat, avoids_skipFreeSlot]
  simp only [scheduleTaskFinished, Avoids.bind, avoids_readCurTask, hraises, true_and]
  intro _ _ raised _
  cases raised
  · simp [hswitch]
  · simp [hswitch, h.avoids_signals hl]

theorem Solvent.avoids_signalIfT2 (h : Solvent s.plan) (hl : Layout s.plan done todo tail) :
    Avoids (.assertion .calculateProcessCompletion) (signalIfT2 b s) := by
  have hraises : Avoids (.assertion .calculateProcessCompletion) (raisesT2 b s.plan) := by
    simp only [raisesT2, Avoids.bind, avoids_readCurTask, true_and]
    intro _ _
    split
    · simp only [Avoids.bind, avoids_checkT2Task, true_and]
      intro _ _
      split
      · simp
      · simp only [Avoids.bind, h.avoids_checkT2Process, true_and]
        intro _ _
        split
        · simp
        · simp [avoids_checkT2Node]
    · simp
  rw [signalIfT2, Avoids.bind]
  refine ⟨hraises, fun raised _ => ?_⟩
  cases raised
  · exact Avoids.ok _
  · exact (h.avoids_signals hl).1

theorem Solvent.avoids_scheduleTimerTick (h : Solvent s.plan) (hl : Layout s.plan done todo tail) :
    Avoids (.assertion .calculateProcessCompletion) (scheduleTimerTick b s) := by
  simp only [scheduleTimerTick, Avoids.bind, avoids_checkT1, h.avoids_signalIfT2 hl, true_and]
  intro _ _ _ _
  split
  · simp [avoids_preemptCurTask, avoids_skipFreeSlot]
  · exact Avoids.ok _

/-- A tick fails the assertion of `calculate_process_completion` only if its credit leaves a
process insolvent. -/
theorem avoids_pbsRunTimerTick (h : ∀ p₁, updateRetiredInstructions r s.plan = .ok p₁ →
    Solvent p₁ ∧ ∃ done todo tail, Layout p₁ done todo tail) :
    Avoids (.assertion .calculateProcessCompletion) (pbsRunTimerTick b r s) := by
  simp only [pbsRunTimerTick, Avoids.bind, avoids_readCurTask,
    avoids_assertThat (show Assertion.pbsRunTimerTick ≠ .calculateProcessCompletion by decide),
    true_and]
  intro _ _ cur _
  split
  · exact Avoids.ok _
  · simp only [Avoids.bind, avoids_updateRetiredInstructions, avoids_readCurTask, true_and]
    intro p₁ hp₁ cur _
    obtain ⟨hsolvent, done, todo, tail, hl⟩ := h p₁ hp₁
    split
    · simp [Solvent.avoids_scheduleTaskFinished (s := { s with plan := p₁ }) hsolvent hl]
    · simp [Solvent.avoids_scheduleTimerTick (s := { s with plan := p₁ }) hsolvent hl]

end Completion

end PbsLevel2

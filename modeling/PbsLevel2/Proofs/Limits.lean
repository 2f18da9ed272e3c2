import PbsLevel2.Proofs.Tick

/-!
# Checks that find nothing

What the thresholds amount to, and on which tasks and plans each check answers `OK`.
-/

namespace PbsLevel2

open Lib

section Checks

variable {p : PbsPlan} {t : PbsTask} {b : Build} {s : System}

/-- The relative threshold is never below the absolute one, which is therefore T1. -/
theorem calculateT1_eq (t : PbsTask) :
    calculateT1 t = t.instructionsPlanned + t1NoPreemption := by
  unfold calculateT1
  dsimp only
  by_cases h : t.instructionsPlanned + t1NoPreemption > t.instructionsPlanned * t1Sigma
  · rw [if_pos h, if_neg (by omega)]
  · rw [if_neg h, if_neg h]

theorem le_calculateT2Task (t : PbsTask) :
    t.instructionsPlanned + t1NoPreemption + t2Spacer ≤ calculateT2Task t := by
  unfold calculateT2Task
  dsimp only
  rw [calculateT1_eq]
  split <;> omega

theorem calculateTm2Task_bounds (h : 2 ≤ t.instructionsPlanned) :
    0 < calculateTm2Task t ∧ calculateTm2Task t < t.instructionsPlanned := by
  have hlimit : tm2TaskSignalingLimit = -100000000 := rfl
  have hstart : tm2TaskSignalingStart = -1000000000 := rfl
  have hrelative : 0 ≤ (t.instructionsPlanned * tm2Sigma).tdiv 100 :=
    Int.tdiv_nonneg (Int.mul_nonneg (by omega) (by decide)) (by omega)
  unfold calculateTm2Task
  dsimp only
  rw [if_pos (show (t.instructionsPlanned * tm2Sigma).tdiv 100 > tm2TaskSignalingLimit by omega)]
  by_cases hmax : t.instructionsPlanned + tm2TaskSignalingLimit > 0
  · rw [if_pos hmax, if_neg (by omega)]
    omega
  · rw [if_neg hmax, if_neg (by omega)]
    omega

theorem calculateT2Node_eq (hb : b = .userland → 1 ≤ p.numProcesses) :
    ∃ t2Node, calculateT2Node b p = .ok t2Node ∧ p.numProcesses * t2ProcessMinimum ≤ t2Node := by
  have hmin : p.numProcesses * t2ProcessMinimum = p.numProcesses * 1000000000 := rfl
  unfold calculateT2Node
  dsimp only
  set relative := (p.instructionsPlanned * t2NodeLateness).tdiv 100 + p.stress * t2StressGain -
    rescheduleTime - p.instructionsPlanned
  have hle : p.numProcesses * t2ProcessMinimum ≤ if relative < p.numProcesses * t2ProcessMinimum
      then p.numProcesses * t2ProcessMinimum else relative := by
    split <;> omega
  set t2Node := if relative < p.numProcesses * t2ProcessMinimum
    then p.numProcesses * t2ProcessMinimum else relative
  refine ⟨t2Node, ?_, hle⟩
  cases b with
  | kernel => rfl
  | userland =>
      have := hb rfl
      rw [assertThat_true _ _ (by simp; omega)]
      rfl

theorem checkTm2Task_quiet (hcur : p.readCurTask = .ok t) (hplanned : 2 ≤ t.instructionsPlanned)
    (hslot : t.instructionsPlanned ≤ t.instructionsRetiredSlot) :
    checkTm2Task b p = .ok .ok := by
  obtain ⟨hpos, hlt⟩ := calculateTm2Task_bounds hplanned
  rw [checkTm2Task, hcur, ok_bind, if_neg (by decide)]
  dsimp only
  rw [assertThat_true _ _ (by simpa using hlt), ok_bind, assertThat_true _ _ (by simpa using hpos),
    ok_bind, if_neg (by simp; omega)]
  rfl

theorem calculateTm2Node_eq (h : 5 ≤ p.instructionsPlanned) :
    calculateTm2Node b p = .ok (-(p.instructionsPlanned / 5)) := by
  have hbound : (tm2NodeLowerBound * p.instructionsPlanned).tdiv 100 =
      -(p.instructionsPlanned / 5) := by
    rw [show tm2NodeLowerBound * p.instructionsPlanned = -(20 * p.instructionsPlanned) from
      Int.neg_mul 20 _, Int.neg_tdiv, Int.tdiv_eq_ediv_of_nonneg (by omega)]
    omega
  have hcap : p.instructionsPlanned * tm2NodeEarlinessCap = p.instructionsPlanned * -90 := rfl
  unfold calculateTm2Node
  dsimp only
  rw [hbound, if_neg (by omega), assertThat_true _ _ (by simp; omega)]
  rfl

theorem checkTm2Node_quiet (h : 5 ≤ p.instructionsPlanned)
    (hlate : 0 ≤ 5 * p.lateness + p.instructionsPlanned) : checkTm2Node b p = .ok .ok := by
  rw [checkTm2Node, if_neg (by decide), calculateTm2Node_eq h, ok_bind, if_neg (by omega)]
  rfl

theorem checkT2Task_quiet (hcur : p.readCurTask = .ok t)
    (hslot : t.instructionsRetiredSlot ≤ t.instructionsPlanned) : checkT2Task p = .ok .ok := by
  have hle := le_calculateT2Task t
  have hspace : 0 ≤ t1NoPreemption + t2Spacer := by decide
  rw [checkT2Task, if_neg (by decide), hcur, ok_bind, if_neg (by omega)]
  rfl

theorem checkT2Process_quiet (hi : ProcessIndex p.curProcess)
    (hlength : 0 < (processAt p.processes p.curProcess).lengthPlan)
    (hlate : (processAt p.processes p.curProcess).lateness ≤ 0) :
    checkT2Process b p = .ok .ok := by
  have hbuffer : t2CapacityBuffer = 110 := rfl
  rw [checkT2Process, if_neg (by decide), readProcess_eq hi, ok_bind, calculateCapacityBuffer,
    hbuffer, assertThat_true _ _ (by simp; omega)]
  change (if _ then _ else _) = _
  rw [if_neg (by omega)]
  rfl

theorem checkT2Node_quiet (hb : b = .userland → 1 ≤ p.numProcesses) (hn : 0 ≤ p.numProcesses)
    (hlate : p.lateness ≤ 0) : checkT2Node b p = .ok .ok := by
  obtain ⟨t2Node, heq, hle⟩ := calculateT2Node_eq hb
  have hmin : p.numProcesses * t2ProcessMinimum = p.numProcesses * 1000000000 := rfl
  rw [checkT2Node, heq, ok_bind, if_neg (by decide), if_neg (by omega)]
  rfl

theorem checkT1_quiet (hcur : p.readCurTask = .ok t) (hown : t.slotOwner = t.taskId)
    (hslot : t.instructionsRetiredSlot ≤ t.instructionsPlanned) : checkT1 p = .ok .ok := by
  have hspace : 0 < t1NoPreemption := by decide
  have hread : p.readTask p.curTask = .ok t := hcur
  rw [checkT1, if_neg (by decide), slotOfCurTask, hcur, ok_bind, if_pos hown]
  change (p.readTask p.curTask >>= _) = _
  rw [hread, ok_bind, calculateT1_eq, if_neg (by omega)]
  rfl

theorem raisesT2_quiet (hcur : p.readCurTask = .ok t)
    (hslot : t.instructionsRetiredSlot ≤ t.instructionsPlanned)
    (hi : ProcessIndex p.curProcess) (hlength : 0 < (processAt p.processes p.curProcess).lengthPlan)
    (hprocess : (processAt p.processes p.curProcess).lateness ≤ 0)
    (hb : b = .userland → 1 ≤ p.numProcesses) (hn : 0 ≤ p.numProcesses) (hlate : p.lateness ≤ 0) :
    raisesT2 b p = .ok false := by
  rw [raisesT2, hcur, ok_bind]
  split
  · rw [checkT2Task_quiet hcur hslot, ok_bind, if_neg (by decide),
      checkT2Process_quiet hi hlength hprocess, ok_bind, if_neg (by decide),
      checkT2Node_quiet hb hn hlate]
    rfl
  · rfl

theorem raisesTm2_quiet (hcur : p.readCurTask = .ok t) (hplanned : 2 ≤ t.instructionsPlanned)
    (hslot : t.instructionsPlanned ≤ t.instructionsRetiredSlot)
    (htotal : 5 ≤ p.instructionsPlanned) (hlate : 0 ≤ 5 * p.lateness + p.instructionsPlanned) :
    raisesTm2 b p = .ok false := by
  rw [raisesTm2, checkTm2Task_quiet hcur hplanned hslot, ok_bind, checkTm2Node_quiet htotal hlate]
  rfl

theorem signalIfT2_quiet (h : raisesT2 b s.plan = .ok false) : signalIfT2 b s = .ok s := by
  rw [signalIfT2, h]
  rfl

theorem signalIfTm2_quiet (h : raisesTm2 b s.plan = .ok false) : signalIfTm2 b s = .ok s := by
  rw [signalIfTm2, h]
  rfl

end Checks

end PbsLevel2

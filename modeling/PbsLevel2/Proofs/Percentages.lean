import PbsLevel2.Proofs.Deviation

/-!
# Buffers of a process

The two buffers `check_t2_process` compares the lateness of a process with, against the
percentages of `config.h` they are meant to be.
-/

namespace PbsLevel2

open Lib

/-- A hundred times a share is at most this percentage of the whole. -/
def AtMostPercent (percentage whole share : Int) : Prop :=
  100 * share ≤ percentage * whole

/-- The buffers of process `q` in plan `p` are percentages, and a lateness above all of them is
reported. -/
structure BuffersArePercentages (b : Build) (p : PbsPlan) (q : PbsProcess) : Prop where
  allowed : ∃ allowed, calculateAllowedPlanBuffer b q p = .ok allowed ∧ 0 ≤ allowed ∧
    AtMostPercent t2AssignablePlanBuffer q.buffer allowed
  grows : ∀ retired allowed later, q.instructionsRetired ≤ retired →
    calculateAllowedPlanBuffer b q p = .ok allowed →
    calculateAllowedPlanBuffer b { q with instructionsRetired := retired } p = .ok later →
    allowed ≤ later
  capacity : ∃ capacity, calculateCapacityBuffer b q = .ok capacity ∧
    AtMostPercent t2CapacityBuffer q.lengthPlan capacity
  reports : p.readProcess p.curProcess = .ok q → p.stress = 0 →
    t2CapacityBuffer * q.lengthPlan < 100 * q.lateness → t2ProcessMinimum < q.lateness →
    t2AssignablePlanBuffer * q.buffer < 100 * q.lateness → checkT2Process b p = .ok .t2

/-- How much of the plan of `q` is executed, in whole percent. -/
def completionOf (q : PbsProcess) : Int :=
  min 100 (q.instructionsRetired * 100 / q.lengthPlan)

/-- The share of each process in a buffer of which 109 times the whole is handed out. -/
def bufferPerProcess (q : PbsProcess) (p : PbsPlan) : Int :=
  q.buffer * 109 / p.numProcesses

section Buffers

variable {b : Build} {p : PbsPlan} {q : PbsProcess}

theorem completionOf_bounds (hlength : 0 < q.lengthPlan) (hretired : 0 ≤ q.instructionsRetired) :
    0 ≤ completionOf q ∧ completionOf q ≤ 100 := by
  have hquotient : 0 ≤ q.instructionsRetired * 100 / q.lengthPlan :=
    Int.ediv_nonneg (by omega) (by omega)
  unfold completionOf
  omega

theorem completionOf_mono (hlength : 0 < q.lengthPlan) {retired : Int}
    (h : q.instructionsRetired ≤ retired) :
    completionOf q ≤ completionOf { q with instructionsRetired := retired } := by
  have hquotient : q.instructionsRetired * 100 / q.lengthPlan ≤ retired * 100 / q.lengthPlan :=
    Int.ediv_le_ediv hlength (by omega)
  unfold completionOf
  dsimp only
  omega

theorem bufferPerProcess_nonneg (hbuffer : 0 ≤ q.buffer) (hprocesses : 1 ≤ p.numProcesses) :
    0 ≤ bufferPerProcess q p :=
  Int.ediv_nonneg (by omega) (by omega)

theorem calculateProcessCompletion_eq (hlength : 0 < q.lengthPlan)
    (hretired : 0 ≤ q.instructionsRetired) :
    calculateProcessCompletion b q = .ok (completionOf q) := by
  have hquotient : 0 ≤ q.instructionsRetired * 100 / q.lengthPlan :=
    Int.ediv_nonneg (by omega) (by omega)
  unfold calculateProcessCompletion
  rw [divide, if_neg (by omega), ok_bind, Int.tdiv_eq_ediv_of_nonneg (by omega)]
  dsimp only
  rw [assertThat_true _ _ (by simpa using hquotient), ok_bind]
  change Except.ok _ = _
  unfold completionOf
  by_cases hfull : q.instructionsRetired * 100 / q.lengthPlan > 100
  · rw [if_pos hfull]
    congr 1
    omega
  · rw [if_neg hfull, toInt, Int.bmod_eq_of_le (by omega) (by omega)]
    congr 1
    omega

/-- The 50 percent are taken fifty times, and only the completion is divided by 100. -/
theorem calculateAllowedPlanBuffer_eq (hlength : 0 < q.lengthPlan) (hbuffer : 0 ≤ q.buffer)
    (hretired : 0 ≤ q.instructionsRetired) (hprocesses : 1 ≤ p.numProcesses) :
    calculateAllowedPlanBuffer b q p = .ok (bufferPerProcess q p * completionOf q / 2) := by
  have hcompletion := (completionOf_bounds hlength hretired).1
  have hshare := bufferPerProcess_nonneg (p := p) hbuffer hprocesses
  have hdeadline : q.buffer * t2CapacityBuffer - q.buffer = q.buffer * 109 := by
    rw [show t2CapacityBuffer = 110 from rfl]
    omega
  unfold calculateAllowedPlanBuffer
  rw [calculateProcessCompletion_eq hlength hretired, ok_bind]
  dsimp only
  rw [hdeadline, divide, if_neg (by omega), ok_bind,
    Int.tdiv_eq_ediv_of_nonneg (a := q.buffer * 109) (by omega)]
  change Except.ok ((bufferPerProcess q p * 50 * completionOf q).tdiv 100) = _
  have hproduct : bufferPerProcess q p * 50 * completionOf q =
      50 * (bufferPerProcess q p * completionOf q) := by
    rw [Int.mul_comm (bufferPerProcess q p), Int.mul_assoc]
  have hpos : 0 ≤ bufferPerProcess q p * completionOf q := Int.mul_nonneg hshare hcompletion
  rw [hproduct, Int.tdiv_eq_ediv_of_nonneg (by omega)]
  congr 1
  omega

theorem calculateCapacityBuffer_eq (hlength : 0 < q.lengthPlan) :
    calculateCapacityBuffer b q = .ok (110 * q.lengthPlan) := by
  unfold calculateCapacityBuffer
  rw [show t2CapacityBuffer = 110 from rfl]
  dsimp only
  rw [assertThat_true _ _ (by simp; omega), Int.mul_comm]
  rfl

theorem allowed_atMostPercent_iff :
    AtMostPercent t2AssignablePlanBuffer q.buffer (bufferPerProcess q p * completionOf q / 2) ↔
      bufferPerProcess q p * completionOf q ≤ 2 * (q.buffer / 2) + 1 := by
  unfold AtMostPercent
  rw [show t2AssignablePlanBuffer = 50 from rfl]
  omega

theorem not_atMostPercent_capacity (hlength : 0 < q.lengthPlan) :
    ¬ AtMostPercent t2CapacityBuffer q.lengthPlan (110 * q.lengthPlan) := by
  unfold AtMostPercent
  rw [show t2CapacityBuffer = 110 from rfl]
  omega

theorem checkT2Process_iff (hcur : p.readProcess p.curProcess = .ok q) (hstress : p.stress = 0)
    (hlength : 0 < q.lengthPlan) (hbuffer : 0 ≤ q.buffer) (hretired : 0 ≤ q.instructionsRetired)
    (hprocesses : 1 ≤ p.numProcesses) (hminimum : t2ProcessMinimum < q.lateness) :
    checkT2Process b p = .ok .t2 ↔ 110 * q.lengthPlan < q.lateness ∧
      bufferPerProcess q p * completionOf q / 2 - rescheduleTime < q.lateness := by
  unfold checkT2Process
  rw [if_neg (by decide), hcur, ok_bind, calculateCapacityBuffer_eq hlength, ok_bind]
  by_cases hcapacity : q.lateness > 110 * q.lengthPlan
  · rw [if_pos hcapacity, calculateAllowedPlanBuffer_eq hlength hbuffer hretired hprocesses,
      ok_bind, hstress]
    dsimp only
    set allowed := bufferPerProcess q p * completionOf q / 2 + 0 * t2StressGain - rescheduleTime
      with hallowed
    have hno : bufferPerProcess q p * completionOf q / 2 - rescheduleTime = allowed := by omega
    rw [hno, and_iff_right hcapacity]
    -- a minimum above the allowed buffer is below the lateness as well
    have hlate : (if allowed < t2ProcessMinimum then t2ProcessMinimum else allowed) < q.lateness ↔
        allowed < q.lateness := by
      by_cases hlow : allowed < t2ProcessMinimum
      · rw [if_pos hlow]
        omega
      · rw [if_neg hlow]
    rw [← hlate]
    by_cases hreport : (if allowed < t2ProcessMinimum then t2ProcessMinimum else allowed) < q.lateness
    · rw [if_pos hreport]
      exact iff_of_true rfl hreport
    · rw [if_neg hreport]
      exact iff_of_false (fun h => nomatch h) hreport
  · rw [if_neg hcapacity]
    exact iff_of_false (fun h => nomatch h) fun h => hcapacity h.1

theorem calculateAllowedPlanBuffer_mono (hlength : 0 < q.lengthPlan) (hbuffer : 0 ≤ q.buffer)
    (hretired : 0 ≤ q.instructionsRetired) (hprocesses : 1 ≤ p.numProcesses)
    {retired allowed later : Int} (hle : q.instructionsRetired ≤ retired)
    (hallowed : calculateAllowedPlanBuffer b q p = .ok allowed)
    (hlater : calculateAllowedPlanBuffer b { q with instructionsRetired := retired } p = .ok later) :
    allowed ≤ later := by
  rw [calculateAllowedPlanBuffer_eq hlength hbuffer hretired hprocesses] at hallowed
  have heq := calculateAllowedPlanBuffer_eq (b := b) (p := p)
    (q := { q with instructionsRetired := retired }) hlength hbuffer (hretired.trans hle) hprocesses
  rw [← Except.ok.inj hallowed, Except.ok.inj (hlater.symm.trans heq)]
  apply Int.ediv_le_ediv (by omega)
  apply Int.mul_le_mul_of_nonneg_left
  · exact completionOf_mono hlength hle
  · exact bufferPerProcess_nonneg hbuffer hprocesses

/-- The buffers are percentages of no process: the capacity buffer is 110 times the length of the
plan.  The allowed buffer is not negative and grows with the instructions retired, but is within
its percentage for a small enough share only; and the lateness that is reported is above both. -/
theorem not_buffersArePercentages (b : Build) (p : PbsPlan) (q : PbsProcess)
    (hlength : 0 < q.lengthPlan) (hbuffer : 0 ≤ q.buffer) (hretired : 0 ≤ q.instructionsRetired)
    (hprocesses : 1 ≤ p.numProcesses) :
    ¬ BuffersArePercentages b p q ∧
    calculateCapacityBuffer b q = .ok (110 * q.lengthPlan) ∧
    (∃ allowed, calculateAllowedPlanBuffer b q p = .ok allowed ∧ 0 ≤ allowed ∧
      (AtMostPercent t2AssignablePlanBuffer q.buffer allowed ↔
        bufferPerProcess q p * completionOf q ≤ 2 * (q.buffer / 2) + 1)) ∧
    (∀ retired allowed later, q.instructionsRetired ≤ retired →
      calculateAllowedPlanBuffer b q p = .ok allowed →
      calculateAllowedPlanBuffer b { q with instructionsRetired := retired } p = .ok later →
      allowed ≤ later) ∧
    (p.readProcess p.curProcess = .ok q → p.stress = 0 → t2ProcessMinimum < q.lateness →
      (checkT2Process b p = .ok .t2 ↔ 110 * q.lengthPlan < q.lateness ∧
        bufferPerProcess q p * completionOf q / 2 - rescheduleTime < q.lateness)) := by
  have hcapacity := calculateCapacityBuffer_eq (b := b) hlength
  refine ⟨fun h => ?_, hcapacity, ⟨_, calculateAllowedPlanBuffer_eq hlength hbuffer hretired
    hprocesses, ?_, allowed_atMostPercent_iff⟩, ?_, ?_⟩
  · obtain ⟨capacity, heq, hmost⟩ := h.capacity
    rw [← Except.ok.inj (hcapacity.symm.trans heq)] at hmost
    exact not_atMostPercent_capacity hlength hmost
  · apply Int.ediv_nonneg
    · exact Int.mul_nonneg (bufferPerProcess_nonneg hbuffer hprocesses)
        (completionOf_bounds hlength hretired).1
    · omega
  · intro retired allowed later hle hallowed hlater
    exact calculateAllowedPlanBuffer_mono hlength hbuffer hretired hprocesses hle hallowed hlater
  · intro hcur hstress hminimum
    exact checkT2Process_iff hcur hstress hlength hbuffer hretired hprocesses hminimum

end Buffers

theorem not_buffersArePercentages_halfDone :
    ¬ BuffersArePercentages .userland { zeroedPlan with numProcesses := 2 }
      { lengthPlan := 1000, buffer := 100, instructionsRetired := 500 } :=
  (not_buffersArePercentages .userland { zeroedPlan with numProcesses := 2 }
    { lengthPlan := 1000, buffer := 100, instructionsRetired := 500 }
    (by decide) (by decide) (by decide) (by decide)).1

set_option maxRecDepth 4000 in
/-- Task 0 finished 2 000 000 000 instructions late in a process of 1 000 000 000 without a
buffer, and the process is not late enough. -/
theorem lateness_below_capacity :
    ∃ p t q, parsePlan "1;0,0;;;0,0,2,2000000002;0,1,999999998,1000000000;".toList zeroedPlan =
        .ok p ∧
      runTicks .userland (fun _ => 2000000002) ⟨p, zeroedSignals⟩ 1 = .ok t ∧
      t.plan.readProcess t.plan.curProcess = .ok q ∧ t.plan.numProcesses = 1 ∧
      t.plan.stress = 0 ∧ q.lengthPlan = 1000000000 ∧ q.buffer = 0 ∧
      0 ≤ q.instructionsRetired ∧ q.lateness = 2000000000 ∧
      calculateCapacityBuffer .userland q = .ok 110000000000 ∧
      checkT2Process .userland t.plan = .ok .ok ∧ ¬ BuffersArePercentages .userland t.plan q := by
  obtain ⟨p, t, hp, ht, hcheck⟩ :=
    @of_onRun .userland "1;0,0;;;0,0,2,2000000002;0,1,999999998,1000000000;".toList
      (fun _ => 2000000002) 1
      (fun _ t => decide (t.plan.numProcesses = 1 ∧ t.plan.stress = 0) &&
        onOk (t.plan.readProcess t.plan.curProcess) (fun q =>
          decide (q.lengthPlan = 1000000000 ∧ q.buffer = 0 ∧ 0 ≤ q.instructionsRetired ∧
            q.lateness = 2000000000)) &&
        onOk (checkT2Process .userland t.plan) (fun c => decide (c = .ok))) (by decide +kernel)
  simp only [Bool.and_eq_true, decide_eq_true_eq] at hcheck
  obtain ⟨⟨⟨hprocesses, hstress⟩, hprocess⟩, hquiet⟩ := hcheck
  obtain ⟨q, hq, hprocess⟩ := of_onOk hprocess
  rw [decide_eq_true_eq] at hprocess
  obtain ⟨hlength, hbuffer, hretired, hlate⟩ := hprocess
  obtain ⟨c, hsilent, hc⟩ := of_onOk hquiet
  rw [decide_eq_true_eq] at hc
  rw [hc] at hsilent
  have hcapacity : calculateCapacityBuffer .userland q = .ok 110000000000 := by
    rw [calculateCapacityBuffer_eq (by omega), hlength]
    rfl
  refine ⟨p, t, q, hp, ht, hq, hprocesses, hstress, hlength, hbuffer, hretired, hlate, hcapacity,
    hsilent, fun h => ?_⟩
  have hreport := h.reports hq hstress (by rw [hlength, hlate]; decide) (by rw [hlate]; decide)
    (by rw [hbuffer, hlate]; decide)
  rw [hsilent] at hreport
  cases hreport

end PbsLevel2

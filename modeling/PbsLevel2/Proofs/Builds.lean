import PbsLevel2.Lib.Guards
import PbsLevel2.Proofs.Tick

/-!
# The two builds

`make_src_kernel_ready.py` deletes the lines with an assertion.  The kernel build does what
the userland build does, up to the first assertion that fails there.
-/

namespace PbsLevel2

open Lib

def FailsAssertion (e : Fault) : Prop :=
  ∃ a, e = .assertion a

/-- The preemption of the current task of `p` stops in the userland build only: by an assertion, or
while `no_id_is_duplicated`, which is called for an assertion only, reads its table at the ids of
the tasks that were moved. -/
def StopsPreemption (p : PbsPlan) (e : Fault) : Prop :=
  FailsAssertion e ∨ ∃ q, preemptCurTask .kernel p = .ok q ∧ noIdIsDuplicated q = .error e

/-- How the tick from `s` stops in the userland build where the kernel build goes on. -/
def StopsBuild (r : Int) (s : System) (e : Fault) : Prop :=
  FailsAssertion e ∨ ∃ p q, preemptionPoint .userland r s = .ok (some p) ∧
    preemptCurTask .kernel p = .ok q ∧ noIdIsDuplicated q = .error e

/-! ## The operations -/

section Operations

variable (p : PbsPlan) (s : System) (r : Int)

theorem builds_assertThat (a : Assertion) (c : Bool) :
    Guarded FailsAssertion (assertThat .userland a c) (assertThat .kernel a c) := by
  cases c with
  | true => exact .refl _
  | false => exact .stop ⟨a, rfl⟩ _

theorem builds_searchSlot (targetPid : Int) (l : List PbsTask) (slot : Nat) :
    Guarded FailsAssertion (searchSlot .userland targetPid l slot)
      (searchSlot .kernel targetPid l slot) := by
  induction l generalizing slot with
  | nil => exact .refl _
  | cons t l ih =>
      unfold searchSlot
      apply Guarded.ite
      · intro _
        exact (builds_assertThat _ _).bind fun _ _ => .refl _
      · intro _
        exact .ite (fun _ => .refl _) fun _ => ih (slot + 1)

theorem builds_findSlotToMoveTo (targetPid : Int) :
    Guarded FailsAssertion (findSlotToMoveTo .userland targetPid p)
      (findSlotToMoveTo .kernel targetPid p) :=
  .bind_right _ fun found _ => builds_searchSlot targetPid found.1 found.2

/-- The duplicate check stops in its table, or as an assertion. -/
theorem builds_assertNoIdIsDuplicated :
    Guarded (fun e => FailsAssertion e ∨ noIdIsDuplicated p = .error e)
      (assertNoIdIsDuplicated .userland p) (assertNoIdIsDuplicated .kernel p) := by
  change Guarded _ (noIdIsDuplicated p >>= assertThat .userland .preemptCurTaskIds) (.ok ())
  cases noIdIsDuplicated p with
  | error e => exact .inr ⟨e, .inr rfl, rfl⟩
  | ok distinct =>
      exact (builds_assertThat .preemptCurTaskIds distinct).mono fun _ he => Or.inl he

theorem builds_preemptCurTask :
    Guarded (StopsPreemption p) (preemptCurTask .userland p) (preemptCurTask .kernel p) := by
  have hasserts : ∀ e, FailsAssertion e → StopsPreemption p e := fun _ he => .inl he
  apply Guarded.bind_right
  intro cur hcur
  apply ((builds_assertThat _ _).mono hasserts).bind
  intro _ _
  apply Guarded.bind_right
  intro p₁ hbump
  apply ((builds_findSlotToMoveTo p₁ cur.processId).mono hasserts).bind
  intro insertionSlot hslot
  apply Guarded.bind_right
  intro stackSize hstack
  cases insertionSlot with
  | none => exact .refl _
  | some insertionSlot =>
      apply ((builds_assertThat _ _).mono hasserts).bind
      intro _ _
      apply Guarded.bind_right
      intro p₂ hmove
      refine ((builds_assertNoIdIsDuplicated p₂).mono ?_).bind fun _ _ => .refl _
      rintro e (he | hfault)
      · exact .inl he
      · refine .inr ⟨p₂, ?_, hfault⟩
        rw [preemptCurTask, hcur, ok_bind, assertThat_kernel, ok_bind, hbump, ok_bind,
          (builds_findSlotToMoveTo p₁ cur.processId).eq_ok hslot, ok_bind, hstack, ok_bind]
        dsimp only
        rw [assertThat_kernel, ok_bind, hmove]
        rfl

theorem builds_calculateProcessCompletion (q : PbsProcess) :
    Guarded FailsAssertion (calculateProcessCompletion .userland q)
      (calculateProcessCompletion .kernel q) :=
  .bind_right _ fun _ _ => (builds_assertThat _ _).bind fun _ _ => .refl _

theorem builds_calculateCapacityBuffer (q : PbsProcess) :
    Guarded FailsAssertion (calculateCapacityBuffer .userland q) (calculateCapacityBuffer .kernel q) :=
  (builds_assertThat _ _).bind fun _ _ => .refl _

theorem builds_calculateAllowedPlanBuffer (q : PbsProcess) :
    Guarded FailsAssertion (calculateAllowedPlanBuffer .userland q p)
      (calculateAllowedPlanBuffer .kernel q p) :=
  (builds_calculateProcessCompletion q).bind fun _ _ => .refl _

theorem builds_checkT2Process :
    Guarded FailsAssertion (checkT2Process .userland p) (checkT2Process .kernel p) := by
  unfold checkT2Process
  apply Guarded.ite
  · exact fun _ => .refl _
  · intro _
    apply Guarded.bind_right
    intro curProcess _
    apply (builds_calculateCapacityBuffer curProcess).bind
    intro capacityBuffer _
    apply Guarded.ite
    · exact fun _ => (builds_calculateAllowedPlanBuffer p curProcess).bind fun _ _ => .refl _
    · exact fun _ => .refl _

theorem builds_calculateT2Node :
    Guarded FailsAssertion (calculateT2Node .userland p) (calculateT2Node .kernel p) :=
  (builds_assertThat _ _).bind fun _ _ => .refl _

theorem builds_checkT2Node :
    Guarded FailsAssertion (checkT2Node .userland p) (checkT2Node .kernel p) :=
  (builds_calculateT2Node p).bind fun _ _ => .refl _

theorem builds_raisesT2 : Guarded FailsAssertion (raisesT2 .userland p) (raisesT2 .kernel p) := by
  apply Guarded.bind_right
  intro cur _
  apply Guarded.ite
  · intro _
    apply Guarded.bind_right
    intro t2Task _
    apply Guarded.ite
    · exact fun _ => .refl _
    · intro _
      apply (builds_checkT2Process p).bind
      intro t2Process _
      apply Guarded.ite
      · exact fun _ => .refl _
      · exact fun _ => (builds_checkT2Node p).bind fun _ _ => .refl _
  · exact fun _ => .refl _

theorem builds_checkTm2Task :
    Guarded FailsAssertion (checkTm2Task .userland p) (checkTm2Task .kernel p) := by
  apply Guarded.bind_right
  intro task _
  apply Guarded.ite
  · exact fun _ => .refl _
  · intro _
    apply (builds_assertThat _ _).bind
    intro _ _
    exact (builds_assertThat _ _).bind fun _ _ => .refl _

theorem builds_checkTm2Node :
    Guarded FailsAssertion (checkTm2Node .userland p) (checkTm2Node .kernel p) := by
  unfold checkTm2Node
  apply Guarded.ite
  · exact fun _ => .refl _
  · intro _
    apply Guarded.bind
    · exact (builds_assertThat _ _).bind fun _ _ => .refl _
    · exact fun _ _ => .refl _

theorem builds_raisesTm2 : Guarded FailsAssertion (raisesTm2 .userland p) (raisesTm2 .kernel p) :=
  (builds_checkTm2Task p).bind fun _ _ => (builds_checkTm2Node p).bind fun _ _ => .refl _

theorem builds_printThresholds :
    Guarded FailsAssertion (printThresholds .userland p) (printThresholds .kernel p) := by
  apply Guarded.bind_right
  intro _ _
  apply Guarded.bind_right
  intro curProcess _
  apply (builds_calculateCapacityBuffer curProcess).bind
  intro _ _
  apply (builds_calculateAllowedPlanBuffer p curProcess).bind
  intro _ _
  exact (builds_calculateT2Node p).bind fun _ _ => .refl _

theorem builds_reschedule (signal : Check) (targetPid : Int) :
    Guarded FailsAssertion (reschedule .userland p signal targetPid)
      (reschedule .kernel p signal targetPid) := by
  apply Guarded.bind_right
  intro p₁ _
  apply Guarded.bind_right
  intro p₂ _
  exact (builds_printThresholds p₂).bind fun _ _ => .refl _

theorem builds_signalT2 : Guarded FailsAssertion (signalT2 .userland s) (signalT2 .kernel s) := by
  apply Guarded.bind_right
  intro cur _
  apply Guarded.bind_right
  intro process _
  exact (builds_reschedule _ _ _).bind fun _ _ => .refl _

theorem builds_signalTm2 : Guarded FailsAssertion (signalTm2 .userland s) (signalTm2 .kernel s) := by
  apply Guarded.bind_right
  intro cur _
  apply Guarded.bind_right
  intro process _
  exact (builds_reschedule _ _ _).bind fun _ _ => .refl _

theorem builds_skipFreeSlot :
    Guarded FailsAssertion (skipFreeSlot .userland p) (skipFreeSlot .kernel p) := by
  apply Guarded.bind_right
  intro cur _
  apply Guarded.ite
  · intro _
    apply Guarded.bind_right
    intro _ _
    apply (builds_assertThat _ _).bind
    intro _ _
    apply Guarded.bind_right
    intro _ _
    apply Guarded.bind_right
    intro _ _
    apply Guarded.bind_right
    intro _ _
    apply (builds_assertThat _ _).bind
    intro _ _
    apply Guarded.bind_right
    intro _ _
    exact (builds_assertThat _ _).bind fun _ _ => .refl _
  · exact fun _ => .refl _

theorem builds_switchTask : Guarded FailsAssertion (switchTask .userland p) (switchTask .kernel p) := by
  apply Guarded.bind_right
  intro cur _
  apply (builds_assertThat _ _).bind
  intro _ _
  exact .bind_right _ fun p₁ _ => builds_skipFreeSlot p₁

theorem builds_scheduleTaskFinished :
    Guarded FailsAssertion (scheduleTaskFinished .userland s) (scheduleTaskFinished .kernel s) := by
  apply Guarded.bind_right
  intro cur _
  have hfinish : ∀ s₁ : System, Guarded FailsAssertion
      (do
        let p ← bookFinishedTask (cur.instructionsRetiredSlot - cur.instructionsReal) s₁.plan
        let p ← switchTask .userland p
        return { s₁ with plan := p })
      (do
        let p ← bookFinishedTask (cur.instructionsRetiredSlot - cur.instructionsReal) s₁.plan
        let p ← switchTask .kernel p
        return { s₁ with plan := p }) := by
    intro s₁
    apply Guarded.bind_right
    intro p₁ _
    exact (builds_switchTask p₁).bind fun _ _ => .refl _
  apply (builds_raisesTm2 s.plan).bind
  intro raised _
  have hsignal : Guarded FailsAssertion (if raised then signalTm2 .userland s else pure s)
      (if raised then signalTm2 .kernel s else pure s) :=
    .ite (fun _ => builds_signalTm2 s) fun _ => .refl _
  -- both branches of the check go on with the same lines
  cases raised with
  | true => exact hsignal.bind fun s₁ _ => hfinish s₁
  | false => exact hsignal.bind fun s₁ _ => hfinish s₁

theorem builds_signalIfT2 :
    Guarded FailsAssertion (signalIfT2 .userland s) (signalIfT2 .kernel s) := by
  apply (builds_raisesT2 s.plan).bind
  intro raised _
  exact .ite (fun _ => builds_signalT2 s) fun _ => .refl _

theorem builds_scheduleTimerTick :
    Guarded (fun e => FailsAssertion e ∨ ∃ s₂ q, signalIfT2 .userland s = .ok s₂ ∧
        (∃ c, checkT1 s₂.plan = .ok c ∧ c.transgressed = true) ∧
        preemptCurTask .kernel s₂.plan = .ok q ∧ noIdIsDuplicated q = .error e)
      (scheduleTimerTick .userland s) (scheduleTimerTick .kernel s) := by
  apply ((builds_signalIfT2 s).mono fun _ => .inl).bind
  intro s₂ hsignal
  apply Guarded.bind_right
  intro check hcheck
  apply Guarded.ite
  · intro htrans
    apply Guarded.bind
    · refine (builds_preemptCurTask s₂.plan).mono ?_
      rintro e (he | ⟨q, hq, hfault⟩)
      · exact .inl he
      · exact .inr ⟨s₂, q, hsignal, ⟨check, hcheck, htrans⟩, hq, hfault⟩
    · intro p₁ _
      exact ((builds_skipFreeSlot p₁).bind fun _ _ => .refl _).mono fun _ => .inl
  · exact fun _ => .refl _

theorem builds_pbsRunTimerTick :
    Guarded (StopsBuild r s) (pbsRunTimerTick .userland r s) (pbsRunTimerTick .kernel r s) := by
  apply ((builds_assertThat _ _).mono fun _ => .inl).bind
  intro _ _
  apply Guarded.bind_right
  intro cur hcur
  apply Guarded.ite
  · exact fun _ => .refl _
  · intro hlive
    apply Guarded.bind_right
    intro p₁ hcredit
    apply Guarded.bind_right
    intro cur₁ hcur₁
    apply Guarded.ite
    · exact fun _ =>
        ((builds_scheduleTaskFinished _).bind fun _ _ => .refl _).mono fun _ => .inl
    · intro hstate
      refine ((builds_scheduleTimerTick _).mono ?_).bind fun _ _ => .refl _
      rintro e (he | ⟨s₂, q, hsignal, ht1, hq, hfault⟩)
      · exact .inl he
      · exact .inr ⟨s₂.plan, q, preemptionPoint_eq hcur hlive hcredit hcur₁ hstate hsignal ht1, hq,
          hfault⟩

end Operations

/-! ## Runs -/

end PbsLevel2

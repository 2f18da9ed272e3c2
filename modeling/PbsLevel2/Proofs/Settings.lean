import PbsLevel2.Proofs.Tick

/-!
# Settings

What the parser settles about a plan as a whole, its stress and its clock: the functions a
tick calls on the lists leave all of it alone.
-/

namespace PbsLevel2

open Lib

structure Settings where
  numProcesses : Int
  numTasks : Nat
  instructionsPlanned : Int
  stress : Int
  tickCounter : Int

def PbsPlan.settings (p : PbsPlan) : Settings :=
  ⟨p.numProcesses, p.numTasks, p.instructionsPlanned, p.stress, p.tickCounter⟩

def KeepsSettings (p : PbsPlan) (x : Exec PbsPlan) : Prop :=
  Ensures (fun q => q.settings = p.settings) x

section Settings

variable {p q : PbsPlan} {x : Exec PbsPlan} {b : Build}

theorem KeepsSettings.bind {f : PbsPlan → Exec PbsPlan} (hx : KeepsSettings p x)
    (hf : ∀ q, KeepsSettings q (f q)) : KeepsSettings p (x >>= f) := by
  rw [KeepsSettings, Ensures.bind]
  exact hx.mono fun q hq => (hf q).mono fun _ h => h.trans hq

theorem KeepsSettings.read {α : Type} {y : Exec α} {f : α → Exec PbsPlan}
    (hf : ∀ a, KeepsSettings p (f a)) : KeepsSettings p (y >>= f) := by
  rw [KeepsSettings, Ensures.bind]
  exact .of_forall hf

theorem KeepsSettings.of_eq (h : q.settings = p.settings) (hx : KeepsSettings q x) :
    KeepsSettings p x :=
  hx.mono fun _ hr => hr.trans h

theorem keepsSettings_pure (h : q.settings = p.settings) : KeepsSettings p (pure q) :=
  Ensures.ok.2 h

theorem keepsSettings_error (e : Fault) : KeepsSettings p (.error e) :=
  Ensures.error e

theorem keepsSettings_writeTask (p : PbsPlan) (i : Nat) (t : PbsTask) :
    KeepsSettings p (p.writeTask i t) := by
  rw [PbsPlan.writeTask]
  split
  · exact keepsSettings_pure rfl
  · exact keepsSettings_error _

theorem keepsSettings_modifyTask (p : PbsPlan) (i : Nat) (f : PbsTask → PbsTask) :
    KeepsSettings p (p.modifyTask i f) :=
  .read fun _ => keepsSettings_writeTask p i _

theorem keepsSettings_modifyProcess (p : PbsPlan) (i : Int) (f : PbsProcess → PbsProcess) :
    KeepsSettings p (p.modifyProcess i f) := by
  refine .read fun q => ?_
  rw [PbsPlan.writeProcess]
  split
  · exact keepsSettings_pure rfl
  · exact keepsSettings_error _

theorem keepsSettings_updateRetiredInstructions (r : Int) (p : PbsPlan) :
    KeepsSettings p (updateRetiredInstructions r p) := by
  rw [updateRetiredInstructions]
  split
  · exact keepsSettings_pure rfl
  · refine (keepsSettings_modifyTask p _ _).bind fun p => .read fun slot => ?_
    refine (keepsSettings_modifyTask p _ _).bind fun p => ?_
    exact (keepsSettings_modifyProcess p _ _).bind fun p => keepsSettings_pure rfl

theorem keepsSettings_updateCurProcess (p : PbsPlan) : KeepsSettings p (updateCurProcess p) := by
  refine (keepsSettings_modifyTask p _ _).bind fun p => .read fun cur => ?_
  split <;> exact keepsSettings_pure rfl

theorem keepsSettings_advanceCurTask (p : PbsPlan) : KeepsSettings p (advanceCurTask p) :=
  .of_eq rfl (keepsSettings_updateCurProcess _)

/-! ### Signals -/

theorem keepsSettings_rescheduleFrom (factor pid : Int) (n i : Nat) (p : PbsPlan) :
    KeepsSettings p (rescheduleFrom factor pid n i p) := by
  induction n generalizing i p with
  | zero => exact keepsSettings_error _
  | succ n ih =>
      refine .read fun t => ?_
      split
      · exact keepsSettings_pure rfl
      · split
        · exact (keepsSettings_writeTask p _ _).bind fun p => ih _ p
        · exact ih _ p

theorem keepsSettings_reschedule (p : PbsPlan) (signal : Check) (pid : Int) :
    KeepsSettings p (reschedule b p signal pid) := by
  refine (keepsSettings_rescheduleFrom _ _ _ _ p).bind fun p => ?_
  refine KeepsSettings.bind ?_ fun p => .read fun _ => keepsSettings_pure rfl
  exact .of_eq (q := { p with lateness := 0 }) rfl (keepsSettings_modifyProcess _ _ _)

/-! ### Preemption and free slots -/

theorem keepsSettings_shiftForward (stackSize n i : Nat) (p : PbsPlan) :
    KeepsSettings p (shiftForward stackSize n i p) := by
  induction n generalizing i p with
  | zero => exact keepsSettings_pure rfl
  | succ n ih => exact .read fun t => (keepsSettings_writeTask p _ _).bind fun p => ih _ p

theorem keepsSettings_writePreemptedTasks (ts : List PbsTask) (i : Nat) (p : PbsPlan) :
    KeepsSettings p (writePreemptedTasks ts i p) := by
  induction ts generalizing i p with
  | nil => exact keepsSettings_pure rfl
  | cons t ts ih => exact (keepsSettings_writeTask p _ _).bind fun p => ih _ p

theorem keepsSettings_moveTasks (insertionSlot stackSize : Nat) (p : PbsPlan) :
    KeepsSettings p (moveTasks insertionSlot stackSize p) := by
  refine .read fun next => .read fun preempted => ?_
  refine (keepsSettings_shiftForward _ _ _ p).bind fun p => ?_
  split
  · exact keepsSettings_error _
  · exact (keepsSettings_writePreemptedTasks _ _ p).bind keepsSettings_updateCurProcess

theorem keepsSettings_preemptCurTask (p : PbsPlan) : KeepsSettings p (preemptCurTask b p) := by
  refine .read fun cur => .read fun _ => ?_
  refine (keepsSettings_modifyTask p _ _).bind fun p => .read fun insertionSlot => .read fun n => ?_
  cases insertionSlot with
  | none =>
      refine .read fun cur => ?_
      exact (keepsSettings_updateRetiredInstructions _ p).bind fun p => keepsSettings_pure rfl
  | some insertionSlot =>
      refine .read fun _ => (keepsSettings_moveTasks _ _ p).bind fun p => .read fun _ => ?_
      exact keepsSettings_pure rfl

theorem keepsSettings_skipFreeSlot (p : PbsPlan) : KeepsSettings p (skipFreeSlot b p) := by
  refine .read fun cur => ?_
  split
  · refine .read fun cur => .read fun _ => ?_
    refine KeepsSettings.bind (.of_eq rfl (keepsSettings_updateCurProcess _)) fun p => ?_
    refine .read fun t => ?_
    refine (keepsSettings_updateRetiredInstructions _ p).bind fun p => ?_
    exact .read fun _ => .read fun _ => .read fun _ => keepsSettings_pure rfl
  · exact keepsSettings_pure rfl

end Settings

/-! ## Signals and the booking of a finished task -/

section Stress

variable {p q : PbsPlan} {s s₂ s' : System} {b : Build} {r surplus : Int}

theorem settings_signal (hs : signalT2 b s = .ok s₂ ∨ signalTm2 b s = .ok s₂) :
    s₂.plan.settings = { s.plan.settings with stress := stressReset } := by
  rcases hs with hs | hs
  all_goals
    obtain ⟨_, _, hs⟩ := bind_eq_ok.1 hs
    obtain ⟨_, _, hs⟩ := bind_eq_ok.1 hs
    obtain ⟨q, hq, hs⟩ := bind_eq_ok.1 hs
    obtain rfl := Except.ok.inj hs
    exact keepsSettings_reschedule _ _ _ q hq

theorem settings_bookFinishedTask (h : bookFinishedTask surplus p = .ok q) :
    q.settings = { p.settings with stress := (relieveStress p).stress } := by
  obtain ⟨cur, _, h⟩ := bind_eq_ok.1 h
  obtain ⟨p₁, h₁, h⟩ := bind_eq_ok.1 h
  obtain ⟨p₂, h₂, h⟩ := bind_eq_ok.1 h
  obtain rfl := Except.ok.inj h
  have hsame : p₂.settings = p.settings :=
    (keepsSettings_modifyProcess _ _ _ p₂ h₂).trans (keepsSettings_modifyProcess _ _ _ p₁ h₁)
  have hstress : p₂.stress = p.stress := congrArg Settings.stress hsame
  have hrelieved : (relieveStress p₂).stress = (relieveStress p).stress := by
    rw [stress_relieveStress, stress_relieveStress, hstress]
  rw [relieveStress_eq, ← hrelieved, ← hsame]
  rfl

end Stress

end PbsLevel2

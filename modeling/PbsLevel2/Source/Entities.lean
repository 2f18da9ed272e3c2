import Mathlib.Data.Int.Notation

/-!
# Configuration, records and memory

`config.h`, `pbs_entities.h` and the way the C code reaches its two arrays.

A C `long` is an `Int` here: signed overflow is undefined in C, so the model
describes runs whose products and sums stay within `long`.  Pointers into an array
are offsets; every dereference is bounds-checked and an access outside the array is
the fault `outOfBounds`, not an arbitrary value.
-/

namespace PbsLevel2

/-! ## `config.h` -/

def maxNumberProcesses : Nat := 10
def maxNumberTasksInPlan : Nat := 400

def pbsHz : Int := 100
def insPerSec : Int := 1000000000
def insPerTick : Int := insPerSec.tdiv pbsHz
def rescheduleTime : Int := pbsHz * insPerTick

def t1MaxTicksOff : Int := 10
def t1MinTicksOff : Int := 3
def t1NoPreemption : Int := t1MinTicksOff * insPerTick
def t1Sigma : Int := 125

def t2Sigma : Int := t1Sigma + 50
def t2Spacer : Int := t1MaxTicksOff * insPerTick
def t2TaskSignalingLimit : Int := pbsHz * insPerTick
def t2CapacityBuffer : Int := 110
def t2AssignablePlanBuffer : Int := 50
def t2ProcessMinimum : Int := t2TaskSignalingLimit
def t2NodeLateness : Int := 110
def t2MaxPreemptions : Int := 5
def stressReset : Int := pbsHz * 30
def t2StressGain : Int := (25 * insPerTick).tdiv 100

def tm2Sigma : Int := 100 - (t2Sigma - 100)
def tm2TaskSignalingLimit : Int := t2Spacer * -1
def tm2TaskSignalingStart : Int := t2TaskSignalingLimit * -1
def tm2NodeEarlinessCap : Int := -1 * (100 - (t2NodeLateness - 100))
def tm2NodeLowerBound : Int := -20

def stretchConstant : Int := 105
def shrinkConstant : Int := 95

def t1Enabled : Bool := true
def t2TaskEnabled : Bool := true
def tm2TaskEnabled : Bool := true
def t2ProcessEnabled : Bool := true
def t2NodeEnabled : Bool := true
def tm2NodeEnabled : Bool := true
def t2PreemptionsEnabled : Bool := true

/-! ## `pbs_entities.h` -/

/-- `PLAN_TASK_WAITING` to `PLAN_TASK_ABORTED`. -/
inductive TaskState where
  | waiting | running | preempted | signaled | finished | aborted
  deriving DecidableEq, Repr

/-- `ON_PLAN`, `SIGNALED` and `PLAN_FINISHED`. -/
inductive PlanState where
  | onPlan | signaled | planFinished
  deriving DecidableEq, Repr

/-- `struct PBS_Task`. The defaults are those of a zeroed structure. -/
structure PbsTask where
  taskId : Int := 0
  processId : Int := 0
  instructionsPlanned : Int := 0
  instructionsReal : Int := 0
  instructionsRetiredTask : Int := 0
  instructionsRetiredSlot : Int := 0
  wasPreempted : Int := 0
  state : TaskState := .waiting
  lateness : Int := 0
  slotOwner : Int := 0
  deriving DecidableEq, Repr

/-- `struct PBS_Process`. -/
structure PbsProcess where
  processId : Int := 0
  numTasksRemaining : Int := 0
  buffer : Int := 0
  lateness : Int := 0
  lengthPlan : Int := 0
  instructionsRetired : Int := 0
  deriving DecidableEq, Repr

/-- `struct PBS_Plan`. `curTask` and `curProcess` are the offsets of the two pointers
in `tasks` and `processes`; `curProcess` is an `Int` because `update_cur_process`
points it in front of the array when the terminator becomes current. -/
structure PbsPlan where
  numProcesses : Int := 0
  numTasks : Nat := 0
  processes : Vector PbsProcess maxNumberProcesses := Vector.replicate _ {}
  tasks : Vector PbsTask maxNumberTasksInPlan := Vector.replicate _ {}
  finishedTasks : Nat := 0
  curProcess : Int := 0
  curTask : Nat := 0
  indexCurTask : Nat := 0
  lateness : Int := 0
  instructionsRetired : Int := 0
  instructionsPlanned : Int := 0
  state : PlanState := .onPlan
  tickCounter : Int := 0
  tasksFinished : Int := 0
  stress : Int := 0

/-- `struct PBS_Plan plan = {0}`. -/
def zeroedPlan : PbsPlan := {}

/-! ## Faults and assertions -/

/-- The assertions of the scheduler and of the signal buffer, each named after the function that makes it. -/
inductive Assertion where
  | pbsRunTimerTick | switchTask | handleFreeSlotEntry | handleFreeSlotLateness
  | handleFreeSlotNext | preemptCurTaskEntry | preemptCurTaskSlot | preemptCurTaskIds
  | findSlotToMoveTo | calculateCapacityBuffer | calculateT2Node | checkTm2TaskUpper
  | checkTm2TaskLower | calculateTm2Node | calculateProcessCompletion | getPbsSignal
  deriving DecidableEq, Repr

/-- What ends a run: C gives no meaning to what would follow. -/
inductive Fault where
  | outOfBounds | nullPointer | divisionByZero
  | assertion (a : Assertion)
  deriving DecidableEq, Repr

abbrev Exec := Except Fault

/-- The userland program keeps its assertions; `make_src_kernel_ready.py` deletes every
line with an `assert` from the kernel sources. -/
inductive Build where
  | userland | kernel
  deriving DecidableEq, Repr

def assertThat (b : Build) (a : Assertion) (c : Bool) : Exec Unit :=
  match b with
  | .kernel => .ok ()
  | .userland => if c then .ok () else .error (.assertion a)

/-! ## Array accesses -/

def PbsPlan.readTask (p : PbsPlan) (i : Nat) : Exec PbsTask :=
  if h : i < maxNumberTasksInPlan then .ok p.tasks[i] else .error .outOfBounds

def PbsPlan.writeTask (p : PbsPlan) (i : Nat) (t : PbsTask) : Exec PbsPlan :=
  if h : i < maxNumberTasksInPlan then .ok { p with tasks := p.tasks.set i t h }
  else .error .outOfBounds

def PbsPlan.modifyTask (p : PbsPlan) (i : Nat) (f : PbsTask → PbsTask) : Exec PbsPlan := do
  let t ← p.readTask i
  p.writeTask i (f t)

/-- `i` is the offset of an entry of `processes`. -/
def ProcessIndex (i : Int) : Prop :=
  0 ≤ i ∧ i.toNat < maxNumberProcesses

instance (i : Int) : Decidable (ProcessIndex i) :=
  inferInstanceAs (Decidable (_ ∧ _))

theorem ProcessIndex.lt {i : Int} (h : ProcessIndex i) : i.toNat < maxNumberProcesses :=
  h.2

def PbsPlan.readProcess (p : PbsPlan) (i : Int) : Exec PbsProcess :=
  if h : ProcessIndex i then .ok (p.processes.get ⟨i.toNat, h.lt⟩) else .error .outOfBounds

def PbsPlan.writeProcess (p : PbsPlan) (i : Int) (q : PbsProcess) : Exec PbsPlan :=
  if h : ProcessIndex i then .ok { p with processes := p.processes.set i.toNat q h.lt }
  else .error .outOfBounds

def PbsPlan.modifyProcess (p : PbsPlan) (i : Int) (f : PbsProcess → PbsProcess) :
    Exec PbsPlan := do
  let q ← p.readProcess i
  p.writeProcess i (f q)

/-- `*p->cur_task`. -/
def PbsPlan.readCurTask (p : PbsPlan) : Exec PbsTask :=
  p.readTask p.curTask

end PbsLevel2

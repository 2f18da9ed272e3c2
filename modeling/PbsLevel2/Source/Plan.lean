import Mathlib.Algebra.Ring.Int.Defs
import Mathlib.Algebra.Ring.Nat
import PbsLevel2.Source.Entities

/-!
# Tasks, processes and the plan

`task.c`, `process.c` and `plan.c`.  Log lines are left out; where an argument of one
is computed and could fault, the computation stays.
-/

namespace PbsLevel2

/-! ## `task.c` -/

def changeTaskState (t : PbsTask) (state : TaskState) : PbsTask :=
  { t with state := state }

def pbsUpdateRetiredInstructionsTask (instructions : Int) (t : PbsTask) : PbsTask :=
  let t := { t with instructionsRetiredTask := t.instructionsRetiredTask + instructions }
  let t :=
    if t.instructionsRetiredTask > t.instructionsPlanned then
      { t with lateness := t.instructionsRetiredTask - t.instructionsPlanned }
    else t
  if t.instructionsRetiredTask ≥ t.instructionsReal then
    changeTaskState { t with lateness := t.instructionsReal - t.instructionsPlanned } .finished
  else t

def clearPreemption (t : PbsTask) : PbsTask :=
  { t with wasPreempted := 0, slotOwner := t.taskId }

/-! ## `process.c` -/

def updateRetiredInstructionsProcess (instructions : Int) (q : PbsProcess) : PbsProcess :=
  { q with instructionsRetired := q.instructionsRetired + instructions }

def updateLatenessProcess (lateInstructions : Int) (q : PbsProcess) : PbsProcess :=
  { q with lateness := q.lateness + lateInstructions }

/-- The quotient of two `long`s, a fault when the divisor is zero. -/
def divide (a b : Int) : Exec Int :=
  if b = 0 then .error .divisionByZero else .ok (a.tdiv b)

/-- The cast `(int)` of a `long`. -/
def toInt (a : Int) : Int := a.bmod (2 ^ 32)

def calculateProcessCompletion (b : Build) (q : PbsProcess) : Exec Int := do
  let processCompletion ← divide (q.instructionsRetired * 100) q.lengthPlan
  let completion := if processCompletion > 100 then 100 else toInt processCompletion
  assertThat b .calculateProcessCompletion (processCompletion ≥ 0)
  return completion

/-! ## `plan.c` -/

/-- The pointer walk of `find_task_with_task_id`: `i` is the offset of the first entry. -/
def findTaskFrom (taskId : Int) : List PbsTask → Nat → Exec (Option Nat)
  | [], _ => .error .outOfBounds
  | t :: ts, i =>
      if t.taskId = -2 then .ok none
      else if t.taskId = taskId then .ok (some i)
      else findTaskFrom taskId ts (i + 1)

/-- The offset of the first task with this id; `none` is the `NULL` of the source. -/
def findTaskWithTaskId (p : PbsPlan) (taskId : Int) : Exec (Option Nat) :=
  findTaskFrom taskId p.tasks.toList 0

def updateFreeSpaceUsage (lengthFreeSpace : Int) (p : PbsPlan) : PbsPlan :=
  { p with lateness := p.lateness + lengthFreeSpace }

def updateNodeLateness (instructions : Int) (p : PbsPlan) : PbsPlan :=
  { p with lateness := p.lateness + instructions }

/-- The slot the current task runs in: its own, or that of its slot owner. -/
def slotOfCurTask (p : PbsPlan) : Exec Nat := do
  let cur ← p.readCurTask
  if cur.slotOwner = cur.taskId then return p.curTask
  else
    match ← findTaskWithTaskId p cur.slotOwner with
    | some k => return k
    | none => .error .nullPointer

/-- `does_task_turn_late` is called here as well; it is pure and its result unused. -/
def updateRetiredInstructions (instructionsRetired : Int) (p : PbsPlan) : Exec PbsPlan := do
  if instructionsRetired < 0 then
    return updateFreeSpaceUsage instructionsRetired p
  else
    let p ← p.modifyTask p.curTask (pbsUpdateRetiredInstructionsTask instructionsRetired)
    let slot ← slotOfCurTask p
    let p ← p.modifyTask slot fun t =>
      { t with instructionsRetiredSlot := t.instructionsRetiredSlot + instructionsRetired }
    let p ← p.modifyProcess p.curProcess (updateRetiredInstructionsProcess instructionsRetired)
    return { p with instructionsRetired := p.instructionsRetired + instructionsRetired }

def updateCurProcess (p : PbsPlan) : Exec PbsPlan := do
  let p ← p.modifyTask p.curTask (changeTaskState · .running)
  let cur ← p.readCurTask
  if cur.taskId ≠ -1 then return { p with curProcess := cur.processId }
  else return { p with curProcess := maxNumberProcesses - 1 }

/-- The loop of `replace_unallocated_slot_in_plan` from entry `i` on; `n` is what is left of
the array. -/
def moveForwardFrom : Nat → Nat → PbsPlan → Exec PbsPlan
  | 0, _, _ => .error .outOfBounds
  | n + 1, i, p => do
      let t ← p.readTask i
      if t.taskId = -2 then return p
      else
        let next ← p.readTask (i + 1)
        let p ← p.writeTask i next
        moveForwardFrom n (i + 1) p

/-- `replacementTask` is the offset of the task pointed to, `none` the `NULL` of the source. -/
def replaceUnallocatedSlotInPlan (replacementTask : Option Nat) (p : PbsPlan) : Exec PbsPlan :=
  match replacementTask with
  | none => .error .nullPointer
  | some i => do
      let t ← p.readTask i
      let p ← p.writeTask 0 t
      moveForwardFrom (maxNumberTasksInPlan - i) i p

/-- The sum over the entries in front of the terminator. -/
def lengthFrom : List PbsTask → Exec Int
  | [] => .error .outOfBounds
  | t :: ts =>
      if t.taskId = -2 then .ok 0
      else do
        let sum ← lengthFrom ts
        return t.instructionsPlanned + sum

def calculateLengthPlan (p : PbsPlan) : Exec Int :=
  lengthFrom p.tasks.toList

/-- The pointer walk of `number_processes_in_plan`. -/
def countProcessesFrom : List PbsProcess → Exec Nat
  | [] => .error .outOfBounds
  | q :: qs =>
      if q.processId = -2 then .ok 0
      else do
        let num ← countProcessesFrom qs
        return num + 1

def numberProcessesInPlan (p : PbsPlan) : Exec Nat :=
  countProcessesFrom p.processes.toList

def balanceLateness (p : PbsPlan) : Exec PbsPlan := do
  let p := { p with lateness := 0 }
  p.modifyProcess p.curProcess fun q => { q with lateness := 0 }

end PbsLevel2

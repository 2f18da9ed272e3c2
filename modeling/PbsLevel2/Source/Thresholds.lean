import PbsLevel2.Source.Plan

/-!
# Thresholds

`threshold_checking.c`: the thresholds T1, T2 and Tm2 of a task, a process and the node,
and the checks that compare a plan with them.
-/

namespace PbsLevel2

/-- `OK`, `T1`, `T2` and `TM2`, the results of the checks and the types of a signal. -/
inductive Check where
  | ok | t1 | t2 | tm2
  deriving DecidableEq, Repr

/-- A check used as a condition: every result but `OK` is true. -/
def Check.transgressed (c : Check) : Bool := c ≠ .ok

/-! ## T1 -/

/-- `t1_maximum` is computed from `T1_NO_PREEMPTION` as in the source. -/
def calculateT1 (task : PbsTask) : Int :=
  let t1Minimum := task.instructionsPlanned + t1NoPreemption
  let t1Relative := task.instructionsPlanned * t1Sigma
  let t1Maximum := task.instructionsPlanned + t1NoPreemption
  let t1Relative := if t1Minimum > t1Relative then t1Minimum else t1Relative
  if t1Maximum > t1Relative then t1Relative else t1Maximum

def checkT1 (p : PbsPlan) : Exec Check := do
  if !t1Enabled then return .ok
  let taskToCheck ← p.readTask (← slotOfCurTask p)
  let t1 := calculateT1 taskToCheck
  if taskToCheck.instructionsRetiredSlot ≥ t1 then return .t1 else return .ok

/-! ## T2 -/

def calculateT2Task (task : PbsTask) : Int :=
  let t1 := calculateT1 task
  let t2TaskMin := t1 + t2Spacer
  let t2TaskRelative := task.instructionsPlanned * t2Sigma
  if t2TaskMin > t2TaskRelative then t2TaskMin else t2TaskRelative

def checkT2Task (p : PbsPlan) : Exec Check := do
  if !t2TaskEnabled then return .ok
  let cur ← p.readCurTask
  if cur.instructionsRetiredSlot > calculateT2Task cur then return .t2 else return .ok

def calculateCapacityBuffer (b : Build) (q : PbsProcess) : Exec Int := do
  let capacityBuffer := q.lengthPlan * t2CapacityBuffer
  assertThat b .calculateCapacityBuffer (capacityBuffer > q.lengthPlan)
  return capacityBuffer

def calculateAllowedPlanBuffer (b : Build) (q : PbsProcess) (p : PbsPlan) : Exec Int := do
  let processCompletion ← calculateProcessCompletion b q
  let planBuffer := q.buffer
  let capacityBufferDeadline := planBuffer * t2CapacityBuffer - planBuffer
  let capacityBufferPerProcess ← divide capacityBufferDeadline p.numProcesses
  let clearedPlanBuffer := capacityBufferPerProcess * t2AssignablePlanBuffer
  return (clearedPlanBuffer * processCompletion).tdiv 100

def checkT2Process (b : Build) (p : PbsPlan) : Exec Check := do
  if !t2ProcessEnabled then return .ok
  let curProcess ← p.readProcess p.curProcess
  let capacityBuffer ← calculateCapacityBuffer b curProcess
  if curProcess.lateness > capacityBuffer then
    let allowedPlanBuffer ← calculateAllowedPlanBuffer b curProcess p
    let allowedPlanBuffer := allowedPlanBuffer + p.stress * t2StressGain - rescheduleTime
    let allowedPlanBuffer :=
      if allowedPlanBuffer < t2ProcessMinimum then t2ProcessMinimum else allowedPlanBuffer
    if curProcess.lateness > allowedPlanBuffer then return .t2 else return .ok
  else return .ok

def calculateT2Node (b : Build) (p : PbsPlan) : Exec Int := do
  let t2NodeMin := p.numProcesses * t2ProcessMinimum
  let t2NodeRelative := (p.instructionsPlanned * t2NodeLateness).tdiv 100 +
    p.stress * t2StressGain - rescheduleTime
  let t2NodeRelative := t2NodeRelative - p.instructionsPlanned
  let t2Node := if t2NodeRelative < t2NodeMin then t2NodeMin else t2NodeRelative
  assertThat b .calculateT2Node (t2Node > 0)
  return t2Node

def checkT2Node (b : Build) (p : PbsPlan) : Exec Check := do
  let t2Node ← calculateT2Node b p
  if !t2NodeEnabled then return .ok
  if p.lateness > t2Node then return .t2 else return .ok

def checkT2Preemptions (t : PbsTask) : Check :=
  if !t2PreemptionsEnabled then .ok
  else if t.wasPreempted > t2MaxPreemptions then .t2 else .ok

/-! ## Tm2 -/

def calculateTm2Task (t : PbsTask) : Int :=
  let tm2TaskRelative := (t.instructionsPlanned * tm2Sigma).tdiv 100
  let tm2TaskMax :=
    if tm2TaskRelative > tm2TaskSignalingLimit then
      t.instructionsPlanned + tm2TaskSignalingLimit
    else tm2TaskRelative
  let tm2TaskMax := if tm2TaskMax > 0 then tm2TaskMax else 1
  if tm2TaskMax < tm2TaskSignalingStart then tm2TaskSignalingStart else tm2TaskMax

def checkTm2Task (b : Build) (p : PbsPlan) : Exec Check := do
  let task ← p.readCurTask
  if !tm2TaskEnabled then return .ok
  let tm2Task := calculateTm2Task task
  assertThat b .checkTm2TaskUpper (tm2Task < task.instructionsPlanned)
  assertThat b .checkTm2TaskLower (tm2Task > 0)
  if task.instructionsRetiredSlot < tm2Task && task.state = .finished then return .tm2
  else return .ok

def calculateTm2Node (b : Build) (p : PbsPlan) : Exec Int := do
  let tm2NodeRelative := p.instructionsPlanned * tm2NodeEarlinessCap
  let lowerBound := (tm2NodeLowerBound * p.instructionsPlanned).tdiv 100
  let tm2Node := if tm2NodeRelative > lowerBound then tm2NodeRelative else lowerBound
  assertThat b .calculateTm2Node (tm2Node < 0)
  return tm2Node

def checkTm2Node (b : Build) (p : PbsPlan) : Exec Check := do
  if !tm2NodeEnabled then return .ok
  let tm2Node ← calculateTm2Node b p
  if p.lateness < tm2Node then return .tm2 else return .ok

/-- Only prints, but computes every threshold of the current task and process first. -/
def printThresholds (b : Build) (p : PbsPlan) : Exec Unit := do
  let _ ← p.readCurTask
  let curProcess ← p.readProcess p.curProcess
  let _ ← calculateCapacityBuffer b curProcess
  let _ ← calculateAllowedPlanBuffer b curProcess p
  let _ ← calculateT2Node b p
  return ()

end PbsLevel2

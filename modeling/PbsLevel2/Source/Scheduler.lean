import PbsLevel2.Lib.Run
import PbsLevel2.Source.Signaling
import PbsLevel2.Source.Handling

/-!
# The tick

`pb-scheduler.c`: what one timer interrupt does to the plan, and the run loop.
-/

namespace PbsLevel2

/-- `get_retired_instructions` of `pmu_interface.c`, the stub of the repository. -/
def getRetiredInstructions : Int := insPerTick

/-- `free_slot` is the first entry of the task list, as in the source. -/
def handleFreeSlot (b : Build) (p : PbsPlan) : Exec PbsPlan := do
  let cur ← p.readCurTask
  assertThat b .handleFreeSlotEntry (cur.taskId = -1)
  let latenessNodeBefore := p.lateness
  let p ← updateCurProcess
    { p with indexCurTask := p.indexCurTask + 1, curTask := p.curTask + 1 }
  let freeSlot ← p.readTask 0
  let p ← updateRetiredInstructions (-freeSlot.instructionsPlanned) p
  assertThat b .handleFreeSlotLateness (latenessNodeBefore > p.lateness)
  let cur ← p.readCurTask
  assertThat b .handleFreeSlotNext (cur.taskId ≠ -1)
  return p

/-- `if (p->cur_task->task_id == -1) handle_free_slot(p);` -/
def skipFreeSlot (b : Build) (p : PbsPlan) : Exec PbsPlan := do
  let cur ← p.readCurTask
  if cur.taskId = -1 then handleFreeSlot b p else return p

/-- The first half of `switch_task`: the next entry becomes the current task. -/
def advanceCurTask (p : PbsPlan) : Exec PbsPlan :=
  updateCurProcess
    { p with
      tasksFinished := p.tasksFinished + 1
      indexCurTask := p.indexCurTask + 1
      curTask := p.curTask + 1 }

def switchTask (b : Build) (p : PbsPlan) : Exec PbsPlan := do
  let cur ← p.readCurTask
  assertThat b .switchTask (cur.state = .finished)
  let p ← advanceCurTask p
  skipFreeSlot b p

/-- `if (p->stress) p->stress--;` -/
def relieveStress (p : PbsPlan) : PbsPlan :=
  if p.stress ≠ 0 then { p with stress := p.stress - 1 } else p

/-- The check for Tm2 in `schedule_task_finished`. Both halves are evaluated. -/
def raisesTm2 (b : Build) (p : PbsPlan) : Exec Bool := do
  let tm2Task ← checkTm2Task b p
  let tm2Node ← checkTm2Node b p
  return tm2Task.transgressed || tm2Node.transgressed

/-- The updates of `schedule_task_finished` for the task that leaves. -/
def bookFinishedTask (instructionSurplus : Int) (p : PbsPlan) : Exec PbsPlan := do
  let cur ← p.readCurTask
  let latenessCurTask := cur.instructionsReal - cur.instructionsPlanned
  let p ← p.modifyProcess p.curProcess (updateLatenessProcess latenessCurTask)
  let p := updateNodeLateness latenessCurTask p
  let p := { p with instructionsRetired := p.instructionsRetired - instructionSurplus }
  let p ← p.modifyProcess p.curProcess (updateRetiredInstructionsProcess (-instructionSurplus))
  return relieveStress p

def scheduleTaskFinished (b : Build) (s : System) : Exec System := do
  let cur ← s.plan.readCurTask
  let instructionSurplus := cur.instructionsRetiredSlot - cur.instructionsReal
  let s ← if ← raisesTm2 b s.plan then signalTm2 b s else pure s
  let p ← bookFinishedTask instructionSurplus s.plan
  let p ← switchTask b p
  return { s with plan := p }

/-- The check for T2 in `schedule_timer_tick`, with the short circuits of `||`. -/
def raisesT2 (b : Build) (p : PbsPlan) : Exec Bool := do
  let cur ← p.readCurTask
  if p.stress ≤ 0 || (checkT2Preemptions cur).transgressed then
    if (← checkT2Task p).transgressed then return true
    else if (← checkT2Process b p).transgressed then return true
    else return (← checkT2Node b p).transgressed
  else return false

/-- The first half of `schedule_timer_tick`. -/
def signalIfT2 (b : Build) (s : System) : Exec System := do
  if ← raisesT2 b s.plan then signalT2 b s else return s

def scheduleTimerTick (b : Build) (s : System) : Exec System := do
  let s ← signalIfT2 b s
  if (← checkT1 s.plan).transgressed then
    let p ← preemptCurTask b s.plan
    let p ← skipFreeSlot b p
    return { s with plan := p }
  else return { s with plan := relieveStress s.plan }

/-! ## Unallocated slots -/

/-- `struct PBS_Task next_tasks[MAX_NUMBER_PROCESSES]`: the index is the process id. -/
abbrev NextTasks := Vector PbsTask maxNumberProcesses

def readNextTask (nextTasks : NextTasks) (i : Int) : Exec PbsTask :=
  if h : ProcessIndex i then .ok (nextTasks.get ⟨i.toNat, h.lt⟩) else .error .outOfBounds

def writeNextTask (nextTasks : NextTasks) (i : Int) (t : PbsTask) : Exec NextTasks :=
  if h : ProcessIndex i then .ok (nextTasks.set i.toNat t h.lt) else .error .outOfBounds

def noTaskFound : PbsTask :=
  { taskId := -1, processId := -1, instructionsPlanned := -1 }

/-- "mark all tasks as not found", from entry `i` on; `n` entries are left. -/
def markNotFound : Nat → Nat → NextTasks → Exec NextTasks
  | 0, _, nextTasks => .ok nextTasks
  | n + 1, i, nextTasks => do
      let t ← readNextTask nextTasks i
      if t.processId = -2 then return nextTasks
      else
        let nextTasks ← writeNextTask nextTasks i noTaskFound
        markNotFound n (i + 1) nextTasks

/-- "finds the next task for each process": the loop over the entries of the plan.  The
terminator, which ends it, is looked at as well. -/
def collectNextTasks : List PbsTask → NextTasks → Exec NextTasks
  | [], _ => .error .outOfBounds
  | t :: ts, nextTasks => do
      let nextTasks ←
        if t.processId = -1 ∨ t.processId = -2 then pure nextTasks
        else do
          let found ← readNextTask nextTasks t.processId
          if found.instructionsPlanned = -1 then writeNextTask nextTasks t.processId t
          else pure nextTasks
      if t.taskId = -2 then return nextTasks else collectNextTasks ts nextTasks

def findNextTaskForAllProcesses (p : PbsPlan) (nextTasks : NextTasks) : Exec NextTasks := do
  let nextTasks ← markNotFound maxNumberProcesses 0 nextTasks
  let nextTasks ← collectNextTasks p.tasks.toList nextTasks
  let last ← readNextTask nextTasks (maxNumberProcesses - 1)
  writeNextTask nextTasks (maxNumberProcesses - 1) { last with taskId := -2 }

/-- "filter out processes whose next task was not preempted". -/
def filterNotPreempted : List PbsTask → Exec (List PbsTask)
  | [] => .error .outOfBounds
  | t :: ts =>
      if t.taskId = -2 then .ok (t :: ts)
      else do
        let ts ← filterNotPreempted ts
        return (if t.wasPreempted = 0 then { t with taskId := -1 } else t) :: ts

/-- "of all preempted tasks find that which process' is the latest". -/
def latestNextTask (p : PbsPlan) :
    List PbsTask → Int → Option PbsTask → Exec (Option PbsTask)
  | [], _, _ => .error .outOfBounds
  | t :: ts, maxLateness, subTask =>
      if t.taskId = -2 then .ok subTask
      else if t.taskId ≠ -1 then do
        let process ← p.readProcess t.processId
        if maxLateness < process.lateness then latestNextTask p ts process.lateness (some t)
        else latestNextTask p ts maxLateness subTask
      else latestNextTask p ts maxLateness subTask

/-- The offset in `tasks` of the task to which the result points, `none` for `NULL`. -/
def findSubstitutionTask (nextTasks : NextTasks) (p : PbsPlan) : Exec (Option Nat) := do
  let nextTasks ← filterNotPreempted nextTasks.toList
  match ← latestNextTask p nextTasks 0 none with
  | none => return none
  | some subTask => findTaskWithTaskId p subTask.taskId

def handleUnallocatedSlot (p : PbsPlan) : Exec PbsPlan := do
  let nextTasks ← findNextTaskForAllProcesses p (Vector.replicate _ {})
  let nextTaskToRun ← findSubstitutionTask nextTasks p
  let p ← replaceUnallocatedSlotInPlan nextTaskToRun p
  match nextTaskToRun with
  | none => .error .nullPointer
  | some i => p.modifyTask i clearPreemption

/-! ## The run -/

/-- One timer interrupt; `retiredInstructions` is the reading of the counter. -/
def pbsRunTimerTick (b : Build) (retiredInstructions : Int) (s : System) : Exec System := do
  assertThat b .pbsRunTimerTick (s.plan.numTasks < 400)
  let cur ← s.plan.readCurTask
  if cur.taskId = -2 then return s
  else
    let p ← updateRetiredInstructions retiredInstructions s.plan
    let s := { s with plan := p }
    let cur ← s.plan.readCurTask
    let s ← if cur.state = .finished then scheduleTaskFinished b s else scheduleTimerTick b s
    return { s with plan := { s.plan with tickCounter := s.plan.tickCounter + 1 } }

/-- The state after `k` calls of `pbs_run_timer_tick`; `pmu k` is the reading of the
counter in the call after the first `k`. -/
def runTicks (b : Build) (pmu : Nat → Int) (s : System) : Nat → Exec System :=
  Lib.run (fun k => pbsRunTimerTick b (pmu k)) s

/-- The loop of `start_run`, `none` when it has not ended after `fuel` passes. -/
def startRun (b : Build) (pmu : Nat → Int) : Nat → Nat → System → Exec (Option System)
  | 0, _, _ => .ok none
  | fuel + 1, k, s => do
      if s.plan.state = .planFinished then return some s
      else
        let s ← pbsRunTimerTick b (pmu k) s
        startRun b pmu fuel (k + 1) s

end PbsLevel2

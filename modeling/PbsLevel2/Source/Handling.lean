import PbsLevel2.Source.ParsePlan

/-!
# Preemption

`prediction_failure_handling.c`: the search for an insertion slot, the size of the
stack that moves, and the move itself.  The lists of ids at the end are for debugging.
-/

namespace PbsLevel2

/-- First loop of `find_slot_to_move_to`: past the run of tasks of `targetPid`. -/
def skipOwnRun (targetPid : Int) : List PbsTask → Nat → Exec (List PbsTask × Nat)
  | [], _ => .error .outOfBounds
  | t :: ts, slot =>
      if t.processId = targetPid then skipOwnRun targetPid ts (slot + 1)
      else .ok (t :: ts, slot)

/-- Second loop of `find_slot_to_move_to`: the slot in front of the next task of
`targetPid`, `none` (the -2 of the source) when the terminator comes first. -/
def searchSlot (b : Build) (targetPid : Int) : List PbsTask → Nat → Exec (Option Nat)
  | [], _ => .error .outOfBounds
  | t :: ts, slot =>
      if t.processId = targetPid then do
        assertThat b .findSlotToMoveTo (slot ≥ 1)
        return some (slot - 1)
      else if t.processId = -2 then .ok none
      else searchSlot b targetPid ts (slot + 1)

def findSlotToMoveTo (b : Build) (targetPid : Int) (p : PbsPlan) : Exec (Option Nat) := do
  let (rest, slot) ← skipOwnRun targetPid (p.tasks.toList.drop p.curTask) p.indexCurTask
  searchSlot b targetPid rest slot

/-- The loop of `get_stack_size_preempted_tasks`; `cur` is the preempted task. -/
def stackSizeFrom (cur : PbsTask) : List PbsTask → Exec Nat
  | [] => .error .outOfBounds
  | t :: ts =>
      if t.taskId ≠ -2 ∧ cur.processId = t.processId ∧ cur.slotOwner = t.slotOwner then do
        let n ← stackSizeFrom cur ts
        return n + 1
      else .ok 0

def getStackSizePreemptedTasks (p : PbsPlan) : Exec Nat := do
  stackSizeFrom (← p.readCurTask) (p.tasks.toList.drop p.curTask)

/-- Saves `n` tasks from entry `i` on. -/
def savePreemptedTasks (p : PbsPlan) : Nat → Nat → Exec (List PbsTask)
  | 0, _ => .ok []
  | n + 1, i => do
      let t ← p.readTask i
      let ts ← savePreemptedTasks p n (i + 1)
      return t :: ts

/-- The forward shift: `n` entries from `i` on are overwritten, each by the entry
`stackSize` further on. -/
def shiftForward (stackSize : Nat) : Nat → Nat → PbsPlan → Exec PbsPlan
  | 0, _, p => .ok p
  | n + 1, i, p => do
      let t ← p.readTask (i + stackSize)
      let p ← p.writeTask i t
      shiftForward stackSize n (i + 1) p

/-- Writes the saved tasks to consecutive entries from `i` on. -/
def writePreemptedTasks : List PbsTask → Nat → PbsPlan → Exec PbsPlan
  | [], _, p => .ok p
  | t :: ts, i, p => do
      let p ← p.writeTask i t
      writePreemptedTasks ts (i + 1) p

def moveTasks (insertionSlot stackSize : Nat) (p : PbsPlan) : Exec PbsPlan := do
  let next ← p.readTask (insertionSlot + 1)
  let slotIdForPreemptedTasks := next.taskId
  let preemptedTasks ← savePreemptedTasks p stackSize p.curTask
  let preemptedTasks :=
    preemptedTasks.map fun t => { t with slotOwner := slotIdForPreemptedTasks }
  let p ← shiftForward stackSize (insertionSlot - p.indexCurTask) p.indexCurTask p
  -- the first written entry, `insertion_slot - stack_size + 1`, must not be negative
  if insertionSlot + 1 < stackSize then .error .outOfBounds
  else
    let p ← writePreemptedTasks preemptedTasks (insertionSlot + 1 - stackSize) p
    updateCurProcess p

/-- The loop of `no_id_is_duplicated` over the entries up to the terminator. -/
def noIdIsDuplicatedFrom :
    List PbsTask → Vector Nat maxNumberTasksInPlan → Exec Bool
  | [], _ => .error .outOfBounds
  | t :: ts, found =>
      if t.taskId = -2 then .ok true
      else if t.taskId = -1 then noIdIsDuplicatedFrom ts found
      else if h : 0 ≤ t.taskId ∧ t.taskId.toNat < maxNumberTasksInPlan then
        if found[t.taskId.toNat] ≠ 0 then .ok false
        else noIdIsDuplicatedFrom ts (found.set t.taskId.toNat (found[t.taskId.toNat] + 1))
      else .error .outOfBounds

def noIdIsDuplicated (p : PbsPlan) : Exec Bool :=
  noIdIsDuplicatedFrom p.tasks.toList (Vector.replicate _ 0)

/-- `assert(no_id_is_duplicated(p))`: a deleted assertion does not run the check either. -/
def assertNoIdIsDuplicated (b : Build) (p : PbsPlan) : Exec Unit :=
  match b with
  | .kernel => .ok ()
  | .userland => do assertThat b .preemptCurTaskIds (← noIdIsDuplicated p)

def handleNoPreemptionSlotFound (p : PbsPlan) : Exec PbsPlan := do
  let cur ← p.readCurTask
  let instructionsMissing := cur.instructionsReal - cur.instructionsRetiredTask
  let p ← updateRetiredInstructions instructionsMissing p
  return { p with state := .planFinished }

def preemptCurTask (b : Build) (p : PbsPlan) : Exec PbsPlan := do
  let cur ← p.readCurTask
  assertThat b .preemptCurTaskEntry (cur.taskId ≠ -1)
  let p ← p.modifyTask p.curTask fun t => { t with wasPreempted := t.wasPreempted + 1 }
  let insertionSlot ← findSlotToMoveTo b cur.processId p
  let stackSize ← getStackSizePreemptedTasks p
  match insertionSlot with
  | none => handleNoPreemptionSlotFound p
  | some insertionSlot =>
      assertThat b .preemptCurTaskSlot (insertionSlot > p.indexCurTask)
      let p ← moveTasks insertionSlot stackSize p
      assertNoIdIsDuplicated b p
      return p

/-! ## Lists of ids -/

/-- The length of a list of ids, which the source writes as a number. -/
def lengthListIds : Nat := 400

/-- `list_ids[counter] = id`. -/
def writeId (listIds : Vector Int lengthListIds) (counter : Nat) (id : Int) :
    Exec (Vector Int lengthListIds) :=
  if h : counter < lengthListIds then .ok (listIds.set counter id h) else .error .outOfBounds

/-- The pointer walk of `get_all_ids_from_plan`, and the `LONG_MAX` behind the ids. -/
def allIdsFrom :
    List PbsTask → Nat → Vector Int lengthListIds → Exec (Vector Int lengthListIds)
  | [], _, _ => .error .outOfBounds
  | t :: ts, counter, listIds =>
      if t.taskId = -2 then writeId listIds counter longMax
      else do
        let listIds ← writeId listIds counter t.taskId
        allIdsFrom ts (counter + 1) listIds

/-- `listIds` is what the array of the caller holds before. -/
def getAllIdsFromPlan (listIds : Vector Int lengthListIds) (p : PbsPlan) :
    Exec (Vector Int lengthListIds) :=
  allIdsFrom p.tasks.toList 0 listIds

/-- The inner loop of `same_ids`: the first entry of `second` that is equal to `id` changes its
sign; `none` when the loop runs to its end. -/
def matchId (id : Int) : List Int → Option (List Int)
  | [] => none
  | other :: second =>
      if id = other ∧ id ≥ 0 then some (other * -1 :: second)
      else (matchId id second).map (other :: ·)

/-- The first loop of `same_ids`: both lists as it leaves them. -/
def matchIds : List Int → List Int → List Int × List Int
  | [], second => ([], second)
  | id :: first, second =>
      if id = longMax then (id :: first, second)
      else
        match matchId id second with
        | some second =>
            let (first, second) := matchIds first second
            (id * -1 :: first, second)
        | none =>
            let (first, second) := matchIds first second
            (id :: first, second)

/-- The last loop of `same_ids`. -/
def noIdLeft : List Int → List Int → Bool
  | id :: first, other :: second =>
      if id = longMax then true
      else if id > 0 ∨ other > 0 then false
      else noIdLeft first second
  | _, _ => true

/-- The arrays of the caller are left as `matchIds` leaves them. -/
def sameIds (first second : Vector Int lengthListIds) : Bool :=
  let (first, second) := matchIds first.toList second.toList
  noIdLeft first second

/-! ## The order of the tasks of a process -/

/-- `long last_id[MAX_NUMBER_PROCESSES]`: the index is the process id. -/
abbrev LastIds := Vector Int maxNumberProcesses

def readLastId (lastId : LastIds) (processId : Int) : Exec Int :=
  if h : ProcessIndex processId then .ok (lastId.get ⟨processId.toNat, h.lt⟩)
  else .error .outOfBounds

def writeLastId (lastId : LastIds) (processId taskId : Int) : Exec LastIds :=
  if h : ProcessIndex processId then .ok (lastId.set processId.toNat taskId h.lt)
  else .error .outOfBounds

/-- The loop of `order_is_kept`. The log line in front of `return 0` reads the current task. -/
def orderIsKeptFrom (p : PbsPlan) : List PbsTask → LastIds → Exec Bool
  | [], _ => .error .outOfBounds
  | t :: ts, lastId =>
      if t.taskId = -2 then .ok true
      else if t.taskId = -1 then orderIsKeptFrom p ts lastId
      else do
        let last ← readLastId lastId t.processId
        if t.taskId < last then
          let _ ← p.readCurTask
          return false
        else
          let lastId ← writeLastId lastId t.processId t.taskId
          orderIsKeptFrom p ts lastId

def orderIsKept (p : PbsPlan) : Exec Bool :=
  orderIsKeptFrom p p.tasks.toList (Vector.replicate _ 0)

end PbsLevel2

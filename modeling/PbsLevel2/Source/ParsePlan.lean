import PbsLevel2.Source.Plan

/-!
# The plan parser

`parse_plan.c`.  A `char *` is the rest of the text it points to, its terminating NUL
included; reading or stepping at the empty list is an access behind that NUL.
-/

namespace PbsLevel2

/-- The classes of `parse_cur_symbol`. -/
inductive Symbol where
  | number | comma | semi | «end»
  deriving DecidableEq, Repr

def parseCurSymbol : List Char → Exec Symbol
  | [] => .error .outOfBounds
  | ',' :: _ => .ok .comma
  | ';' :: _ => .ok .semi
  | '\n' :: _ => .ok .end
  | _ :: _ => .ok .number

/-! ## `strtoll` in base 10 -/

/-- `isspace` in the C locale. -/
def isSpace (c : Char) : Bool :=
  c = ' ' || (9 ≤ c.toNat && c.toNat ≤ 13)

def isDigit (c : Char) : Bool :=
  48 ≤ c.toNat && c.toNat ≤ 57

def skipSpaces : List Char → List Char
  | [] => []
  | c :: cs => if isSpace c then skipSpaces cs else c :: cs

/-- The value of the digits at the front, on top of `acc`, and the rest behind them. -/
def readDigits (acc : Nat) : List Char → Nat × List Char
  | [] => (acc, [])
  | c :: cs => if isDigit c then readDigits (acc * 10 + (c.toNat - 48)) cs else (acc, c :: cs)

def readSign : List Char → Int × List Char
  | '-' :: cs => (-1, cs)
  | '+' :: cs => (1, cs)
  | cs => (1, cs)

def longMax : Int := 2 ^ 63 - 1
def longMin : Int := -2 ^ 63

/-- The value, limited to the range of a `long`, and `*endptr`; without a digit the
value is 0 and `*endptr` the start. -/
def strtoll (start : List Char) : Int × List Char :=
  let (sign, digits) := readSign (skipSpaces start)
  match digits with
  | [] => (0, start)
  | c :: _ =>
      if isDigit c then
        let (value, rest) := readDigits 0 digits
        (max longMin (min longMax (sign * value)), rest)
      else (0, start)

/-- The loop of `parse_next_number`: to the next `,`, `;` or newline. -/
def skipNumber : List Char → Exec (List Char)
  | [] => .error .outOfBounds
  | c :: cs => do
      if (← parseCurSymbol (c :: cs)) = .number then skipNumber cs else return c :: cs

/-- The position the loop reaches is overwritten by the `endptr` of `strtoll`. -/
def parseNextNumber (str : List Char) : Exec (Int × List Char) := do
  let _ ← skipNumber str
  return strtoll str

/-! ## The meta section -/

def parseNextProcess (str : List Char) (q : PbsProcess) : Exec (PbsProcess × List Char) := do
  let (processId, str) ← parseNextNumber str
  let (buffer, str) ← parseNextNumber str.tail
  return ({ q with processId := processId, buffer := buffer }, str.tail)

/-- The loop of `parse_meta`. One pass reads the number of processes, every other pass
but the last fills one entry of `processes`, so `fuel` is not what ends it. -/
def parseMetaLoop : Nat → Bool → Nat → List Char → PbsPlan → Exec (List Char × PbsPlan)
  | 0, _, _, _, _ => .error .outOfBounds
  | fuel + 1, foundNumber, processCounter, str, p => do
      let curSymbol ← parseCurSymbol str
      if curSymbol = .number ∧ foundNumber = false then
        let (numberProcesses, str) ← parseNextNumber str
        parseMetaLoop fuel true processCounter str.tail { p with numProcesses := numberProcesses }
      else
        let nextSymbol ← (if curSymbol = .semi then parseCurSymbol str.tail else pure .number)
        if nextSymbol = .semi then return (str.tail.tail, p)
        else
          let p ← p.modifyProcess processCounter fun _ => {}
          let (q, str) ← parseNextProcess str {}
          let p ← p.writeProcess processCounter q
          parseMetaLoop fuel foundNumber (processCounter + 1) str p

def parseMeta (planS : List Char) (p : PbsPlan) : Exec (List Char × PbsPlan) := do
  let (str, p) ← parseMetaLoop (maxNumberProcesses + 2) false 0 planS p
  -- setup process for unallocated time slots
  let p ← p.modifyProcess p.numProcesses fun q =>
    { q with processId := -2, buffer := -2, lengthPlan := 0 }
  return (str, p)

/-! ## The task section -/

def countTasks : List Char → Exec Nat
  | [] => .error .outOfBounds
  | c :: cs =>
      if c = '\x00' then .ok 0
      else do
        let n ← countTasks cs
        return if c = ';' then n + 1 else n

/-- `if (pid != -1)` in front of the two per-process sums. -/
def modifyTaskProcess (processId : Int) (f : PbsProcess → PbsProcess) (p : PbsPlan) :
    Exec PbsPlan :=
  if processId ≠ -1 then p.modifyProcess processId f else return p

def parseNextTask (p : PbsPlan) (index : Nat) (str : List Char) :
    Exec (PbsPlan × List Char) := do
  let (processId, str) ← parseNextNumber str
  let p ← modifyTaskProcess processId
    (fun q => { q with numTasksRemaining := q.numTasksRemaining + 1 }) p
  let (taskId, str) ← parseNextNumber str.tail
  let (instructionsPlanned, str) ← parseNextNumber str.tail
  let p ← modifyTaskProcess processId
    (fun q => { q with lengthPlan := q.lengthPlan + instructionsPlanned }) p
  let (instructionsReal, str) ← parseNextNumber str.tail
  let p ← p.writeTask index
    { taskId := taskId, processId := processId, instructionsPlanned := instructionsPlanned,
      instructionsReal := instructionsReal, instructionsRetiredTask := 0,
      instructionsRetiredSlot := 0, wasPreempted := 0, state := .waiting, lateness := 0,
      slotOwner := taskId }
  return (p, str.tail)

/-- The loop of `parse_tasks`: `n` tasks, written from entry `i` on. -/
def parseTasksLoop : Nat → Nat → List Char → PbsPlan → Exec PbsPlan
  | 0, _, _, p => .ok p
  | n + 1, i, str, p => do
      let (p, str) ← parseNextTask p i str
      parseTasksLoop n (i + 1) str p

def parseTasks (str : List Char) (p : PbsPlan) : Exec PbsPlan := do
  let numTasks ← countTasks str
  let p ← parseTasksLoop numTasks 0 str { p with numTasks := numTasks }
  -- signals end of plan
  p.modifyTask numTasks fun t => { t with taskId := -2, processId := -2 }

/-! ## `parse_plan` -/

/-- `planS` is the text without its terminating NUL. -/
def parsePlan (planS : List Char) (plan : PbsPlan) : Exec PbsPlan := do
  let (str, plan) ← parseMeta (planS ++ ['\x00']) plan
  let plan ← parseTasks str plan
  let plan := { plan with indexCurTask := 0, tasksFinished := 0, curTask := 0, finishedTasks := 0 }
  let cur ← plan.readCurTask
  let plan := { plan with curProcess := cur.processId, tickCounter := 0 }
  let length ← calculateLengthPlan plan
  return { plan with instructionsPlanned := length }

end PbsLevel2

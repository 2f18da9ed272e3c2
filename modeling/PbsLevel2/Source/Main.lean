import PbsLevel2.Source.ParsePlan
import PbsLevel2.Source.Scheduler

/-!
# The driver

`main.c`: a plan is read from its file, parsed and run to its end.  A file is the list of its
characters, and a buffer that is not initialised holds arbitrary ones.
-/

namespace PbsLevel2

/-! ## The plan file -/

/-- At most `n` characters, up to the first newline, which is included. -/
def readLine : Nat → List Char → List Char
  | 0, _ => []
  | _ + 1, [] => []
  | n + 1, c :: cs => if c = '\n' then [c] else c :: readLine n cs

/-- What `fgets` leaves in the buffer. At the end of the file it writes nothing. -/
def fgets (buffer : List Char) (n : Int) (file : List Char) : Exec (List Char) :=
  if n ≤ 0 ∨ n ≠ 1 ∧ file = [] then .ok buffer
  else
    let line := readLine (n - 1).toNat file
    if line.length < buffer.length then .ok (line ++ '\x00' :: buffer.drop (line.length + 1))
    else .error .outOfBounds

def readPlan (file buffer : List Char) (lengthBuffer : Int) : Exec (List Char) := do
  let lenBufInt := toInt lengthBuffer
  let buffer ← fgets buffer lenBufInt file
  if 1 ≤ lengthBuffer ∧ (lengthBuffer - 1).toNat < buffer.length then
    return buffer.set (lengthBuffer - 1).toNat '\x00'
  else .error .outOfBounds

/-- "to include '\0'". -/
def getFileSize (file : List Char) : Int :=
  file.length + 1

/-- The text a `char *` to the start of a buffer stands for. -/
def cString (buffer : List Char) : List Char :=
  buffer.takeWhile (· ≠ '\x00')

/-! ## The run -/

/-- What ends the driver: a fault of the code it calls, or the assertion of one of its functions. -/
inductive Failure where
  | fault (e : Fault)
  | testPlanParsing
  | fullRun
  deriving DecidableEq, Repr

def called {α : Type} (x : Exec α) : Except Failure α :=
  x.mapError .fault

/-- `garbage` is what the buffer holds before it is written. -/
def testPlanParsing (garbage : Nat → Char) (file : List Char) (plan : PbsPlan) :
    Except Failure PbsPlan := do
  let bufferSize := getFileSize file
  let planString ← called (readPlan file ((List.range bufferSize.toNat).map garbage) bufferSize)
  let plan ← called (parsePlan (cString planString) plan)
  let number ← called (numberProcessesInPlan plan)
  if number = 3 then return plan else throw .testPlanParsing

/-- The loop of `full_run`, `none` when it has not ended after `fuel` passes. -/
def fullRunLoop : Nat → System → Except Failure (Option System)
  | 0, _ => .ok none
  | fuel + 1, s => do
      let cur ← called s.plan.readCurTask
      if cur.taskId = -2 then return some s
      else if cur.taskId = -1 then throw .fullRun
      else
        let s ← called (pbsRunTimerTick .userland getRetiredInstructions s)
        fullRunLoop fuel s

/-- `signals` are the globals of the signals as the earlier calls of `main` left them. -/
def fullRun (garbage : Nat → Char) (fuel : Nat) (file : List Char) (signals : SignalBuffer) :
    Except Failure (Option System) := do
  let plan ← testPlanParsing garbage file zeroedPlan
  match ← fullRunLoop fuel { plan := plan, signals := signals } with
  | none => return none
  | some s =>
      let s ← called (runTicks .userland (fun _ => getRetiredInstructions) s 100)
      return some s

end PbsLevel2

import PbsLevel2.Source.Thresholds

/-!
# Signals

`prediction_failure_signaling.c`: the ring buffer of the latest signals, the two signals
and the simulated rescheduling.
-/

namespace PbsLevel2

def sizeSigBuffer : Nat := 100

/-- `struct PredictionFailureSignal`. -/
structure PredictionFailureSignal where
  taskId : Int := 0
  processId : Int := 0
  tick : Int := 0
  typeSignal : Check := .ok
  deriving DecidableEq, Repr

/-- The file's globals `lastSignals`, `cur_sig_buffer_position` and
`prediction_failures_caused`.  The position is an index of the buffer at all times. -/
structure SignalBuffer where
  lastSignals : Vector PredictionFailureSignal sizeSigBuffer := Vector.replicate _ {}
  curSigBufferPosition : Nat := 0
  predictionFailuresCaused : Nat := 0
  position_lt : curSigBufferPosition < sizeSigBuffer := by decide

/-- The globals at program start. -/
def zeroedSignals : SignalBuffer := {}

/-- The state a tick works on: the plan and the globals of the signals. -/
structure System where
  plan : PbsPlan
  signals : SignalBuffer

def addSignal (sig : PredictionFailureSignal) (b : SignalBuffer) : SignalBuffer :=
  let position := b.curSigBufferPosition + 1
  if h : position = 100 then
    { lastSignals := b.lastSignals.set 0 sig (by decide)
      curSigBufferPosition := 0
      predictionFailuresCaused := b.predictionFailuresCaused + 1 }
  else
    have hlt : position < sizeSigBuffer := by
      have := b.position_lt
      simp only [sizeSigBuffer, position] at *
      omega
    { lastSignals := b.lastSignals.set position sig hlt
      curSigBufferPosition := position
      predictionFailuresCaused := b.predictionFailuresCaused + 1
      position_lt := hlt }

/-- `lastSignals[i]`. -/
def SignalBuffer.readSignal (b : SignalBuffer) (i : Int) : Exec PredictionFailureSignal :=
  if h : 0 ≤ i ∧ i.toNat < sizeSigBuffer then .ok (b.lastSignals.get ⟨i.toNat, h.2⟩)
  else .error .outOfBounds

/-- The offset in `lastSignals` of the address that `get_pbs_signal` returns. -/
def getPbsSignal (b : Build) (pickSignal : Int) (s : SignalBuffer) : Exec Int := do
  assertThat b .getPbsSignal (0 ≤ pickSignal && pickSignal < sizeSigBuffer)
  let targetIndex := s.curSigBufferPosition - pickSignal
  if targetIndex ≥ 0 then return targetIndex
  else return sizeSigBuffer + targetIndex

/-- The loop of `print_signals` over the cells that are left: the printed entries.  `sig` is
the local variable of the source. -/
def printSignalsFrom (sig : PredictionFailureSignal) :
    List PredictionFailureSignal → List PredictionFailureSignal
  | [] => []
  | cell :: cells => if sig.tick ≠ 0 then cell :: printSignalsFrom cell cells else []

/-- The local variable is read before it is written: its first value is the argument `sig`. -/
def printSignals (sig : PredictionFailureSignal) (s : SignalBuffer) :
    List PredictionFailureSignal :=
  printSignalsFrom sig s.lastSignals.toList

def numberPredictionFailuresCaused (s : SignalBuffer) : Nat :=
  s.predictionFailuresCaused

/-- The loop of `reschedule` from entry `i` on; `n` is what is left of the array. -/
def rescheduleFrom (stretchFactor targetPid : Int) : Nat → Nat → PbsPlan → Exec PbsPlan
  | 0, _, _ => .error .outOfBounds
  | n + 1, i, p => do
      let t ← p.readTask i
      if t.taskId = -2 then return p
      else if t.processId = targetPid then
        let newLength := (t.instructionsPlanned * stretchFactor).tdiv 100
        let p ← p.writeTask i { t with instructionsPlanned := newLength }
        rescheduleFrom stretchFactor targetPid n (i + 1) p
      else rescheduleFrom stretchFactor targetPid n (i + 1) p

def reschedule (b : Build) (p : PbsPlan) (signal : Check) (targetPid : Int) :
    Exec PbsPlan := do
  let stretchFactor := if signal = .t2 then stretchConstant else shrinkConstant
  let p ← rescheduleFrom stretchFactor targetPid (maxNumberTasksInPlan - p.curTask) p.curTask p
  let p ← balanceLateness p
  printThresholds b p
  return p

def signalT2 (b : Build) (s : System) : Exec System := do
  let p := { s.plan with stress := stressReset }
  let cur ← p.readCurTask
  let process ← p.readProcess p.curProcess
  let sig : PredictionFailureSignal :=
    { taskId := cur.taskId, processId := process.processId, tick := p.tickCounter,
      typeSignal := .t2 }
  let signals := addSignal sig s.signals
  let p ← reschedule b p .t2 process.processId
  return { plan := p, signals := signals }

/-- The target process of the rescheduling is the constant 0, as in the source. -/
def signalTm2 (b : Build) (s : System) : Exec System := do
  let p := { s.plan with stress := stressReset }
  let cur ← p.readCurTask
  let process ← p.readProcess p.curProcess
  let sig : PredictionFailureSignal :=
    { taskId := cur.taskId, processId := process.processId, tick := p.tickCounter,
      typeSignal := .tm2 }
  let signals := addSignal sig s.signals
  let p ← reschedule b p .tm2 0
  return { plan := p, signals := signals }

end PbsLevel2

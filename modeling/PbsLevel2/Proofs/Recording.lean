import PbsLevel2.Lib.Log
import PbsLevel2.Proofs.Report
import PbsLevel2.Proofs.Stress

/-!
# What the signal buffer holds after a run

Every signal a tick raises is recorded, in the order of the ticks, and nothing else is.  None
of this depends on how the plan came about.
-/

namespace PbsLevel2

open Lib

/-- The entry recorded for a signal that is raised on `p`. -/
def signalEntry (signal : Check) (p : PbsPlan) : Exec PredictionFailureSignal := do
  let cur ← p.readCurTask
  let process ← p.readProcess p.curProcess
  return { taskId := cur.taskId, processId := process.processId, tick := p.tickCounter,
           typeSignal := signal }

def entryOf (b : Build) (r : Int) (s : System) : Exec (Option PredictionFailureSignal) := do
  match ← signalPoint b r s with
  | none => return none
  | some (signal, p) => return some (← signalEntry signal p)

def entriesOf (b : Build) (r : Int) (s : System) : List PredictionFailureSignal :=
  match entryOf b r s with
  | .ok (some sig) => [sig]
  | _ => []

section Tick

variable {b : Build} {r : Int} {s s₂ s' : System} {p : PbsPlan} {c cur : PbsTask}
  {sig : PredictionFailureSignal} {signal : Check}

theorem entryOf_eq_ok :
    entryOf b r s = .ok (some sig) ↔
      ∃ signal p, signalPoint b r s = .ok (some (signal, p)) ∧ signalEntry signal p = .ok sig := by
  constructor
  · intro h
    obtain ⟨point, hpoint, h⟩ := bind_eq_ok.1 h
    match point with
    | none => cases h
    | some (signal, p) =>
        obtain ⟨sig', hsig, h⟩ := bind_eq_ok.1 h
        cases h
        exact ⟨signal, p, hpoint, hsig⟩
  · rintro ⟨signal, p, hpoint, hsig⟩
    rw [entryOf, hpoint, ok_bind]
    dsimp only
    rw [hsig]
    rfl

theorem mem_entriesOf : sig ∈ entriesOf b r s ↔ entryOf b r s = .ok (some sig) := by
  unfold entriesOf
  split <;> rename_i h
  · rw [List.mem_singleton, h]
    simp [eq_comm]
  · exact iff_of_false (List.not_mem_nil) (h sig)

theorem entriesOf_of_eq (h : signalPoint b r s = .ok (some (signal, p)))
    (hsig : signalEntry signal p = .ok sig) : entriesOf b r s = [sig] := by
  rw [entriesOf, entryOf_eq_ok.2 ⟨signal, p, h, hsig⟩]

theorem entriesOf_of_none (h : signalPoint b r s = .ok none) : entriesOf b r s = [] := by
  unfold entriesOf entryOf
  rw [h]
  rfl

theorem signals_signal {x : PbsProcess → Exec PbsPlan}
    (h : (do
      let cur ← s.plan.readCurTask
      let process ← s.plan.readProcess s.plan.curProcess
      let p ← x process
      return ⟨p, addSignal
        { taskId := cur.taskId, processId := process.processId, tick := s.plan.tickCounter,
          typeSignal := signal } s.signals⟩) = Except.ok s₂) :
    ∃ sig, signalEntry signal s.plan = .ok sig ∧ s₂.signals = addSignal sig s.signals := by
  obtain ⟨cur, hcur, h⟩ := bind_eq_ok.1 h
  obtain ⟨q, hq, h⟩ := bind_eq_ok.1 h
  obtain ⟨p, _, h⟩ := bind_eq_ok.1 h
  cases h
  refine ⟨_, ?_, rfl⟩
  rw [signalEntry, hcur, ok_bind, hq]
  rfl

theorem signals_check {raises : Exec Bool} {raise : Exec System}
    (hpoint : ∀ raised, raises = .ok raised →
      signalPoint b r s = if raised then .ok (some (signal, p)) else .ok none)
    (hraise : raise = .ok s₂ →
      ∃ sig, signalEntry signal p = .ok sig ∧ s₂.signals = addSignal sig s.signals)
    (h : (do if ← raises then raise else return { s with plan := p }) = Except.ok s₂) :
    s₂.signals = (entriesOf b r s).foldl (fun buffer sig => addSignal sig buffer) s.signals := by
  obtain ⟨raised, hraised, h⟩ := bind_eq_ok.1 h
  have hsignal := hpoint raised hraised
  cases raised with
  | true =>
      obtain ⟨sig, hsig, hs₂⟩ := hraise h
      rw [entriesOf_of_eq hsignal hsig]
      exact hs₂
  | false =>
      obtain rfl := Except.ok.inj h
      rw [entriesOf_of_none hsignal]
      rfl

section Signalled

variable (hc : s.plan.readCurTask = .ok c) (hlive : c.taskId ≠ -2)
  (hcredit : updateRetiredInstructions r s.plan = .ok p) (hcur : p.readCurTask = .ok cur)

include hc hlive hcredit hcur

theorem signals_signalIfTm2 (hstate : cur.state = .finished)
    (h : signalIfTm2 b { s with plan := p } = .ok s₂) :
    s₂.signals = (entriesOf b r s).foldl (fun buffer sig => addSignal sig buffer) s.signals := by
  refine @signals_check b r s s₂ p .tm2 _ _ (fun raised hraised => ?_) signals_signal h
  rw [signalPoint, hc, ok_bind, if_neg hlive, hcredit, ok_bind, hcur, ok_bind, if_pos hstate,
    show raisesTm2 b p = .ok raised from hraised]
  cases raised <;> rfl

theorem signals_signalIfT2 (hstate : cur.state ≠ .finished)
    (h : signalIfT2 b { s with plan := p } = .ok s₂) :
    s₂.signals = (entriesOf b r s).foldl (fun buffer sig => addSignal sig buffer) s.signals := by
  refine @signals_check b r s s₂ p .t2 _ _ (fun raised hraised => ?_) signals_signal h
  rw [signalPoint, hc, ok_bind, if_neg hlive, hcredit, ok_bind, hcur, ok_bind, if_neg hstate,
    show raisesT2 b p = .ok raised from hraised]
  cases raised <;> rfl

end Signalled

theorem signals_tick (htick : pbsRunTimerTick b r s = .ok s') :
    s'.signals = (entriesOf b r s).foldl (fun buffer sig => addSignal sig buffer) s.signals := by
  obtain ⟨c, hc⟩ : ∃ c, s.plan.readCurTask = .ok c := by
    obtain ⟨_, _, h⟩ := bind_eq_ok.1 htick
    obtain ⟨c, hc, _⟩ := bind_eq_ok.1 h
    exact ⟨c, hc⟩
  cases tick_cases htick with
  | ended cur hcur hend hs =>
      have hpoint : signalPoint b r s = .ok none := by
        rw [signalPoint, hcur, ok_bind, if_pos hend]
        rfl
      rw [hs, entriesOf_of_none hpoint]
      rfl
  | finished p₁ cur s₂ p₃ p₄ hlive hcredit hcur hstate hsignal hbook hskip hs =>
      have hrecord := signals_signalIfTm2 hc (hlive c hc) hcredit hcur hstate hsignal
      rw [hs]
      exact hrecord
  | preempted p₁ cur s₂ p₃ p₄ hlive hcredit hcur hstate hsignal ht1 hpreempt hskip hs =>
      have hrecord := signals_signalIfT2 hc (hlive c hc) hcredit hcur hstate hsignal
      rw [hs]
      exact hrecord
  | waited p₁ cur s₂ hlive hcredit hcur hstate hsignal ht1 hs =>
      have hrecord := signals_signalIfT2 hc (hlive c hc) hcredit hcur hstate hsignal
      rw [hs]
      exact hrecord

theorem tick_of_mem_entriesOf (h : sig ∈ entriesOf b r s) : sig.tick = s.plan.tickCounter := by
  obtain ⟨signal, p, hpoint, hsig⟩ := entryOf_eq_ok.1 (mem_entriesOf.1 h)
  obtain ⟨_, hcredit, _⟩ := signalPoint_eq_ok hpoint
  obtain ⟨_, _, hsig⟩ := bind_eq_ok.1 hsig
  obtain ⟨_, _, hsig⟩ := bind_eq_ok.1 hsig
  obtain rfl := Except.ok.inj hsig
  exact congrArg Settings.tickCounter (keepsSettings_updateRetiredInstructions _ _ _ hcredit)

theorem lt_of_mem_entriesOf (htick : pbsRunTimerTick b r s = .ok s')
    (h : sig ∈ entriesOf b r s) : sig.tick < s'.plan.tickCounter := by
  obtain ⟨signal, p, hpoint, _⟩ := entryOf_eq_ok.1 (mem_entriesOf.1 h)
  rw [tick_of_mem_entriesOf h]
  rcases stress_tick htick with ⟨_, hnone⟩ | ⟨_, _, hcount, _⟩
  · exact absurd hpoint (hnone _)
  · omega

end Tick

/-! ## Runs -/

section Run

variable {b : Build} {pmu : Nat → Int} {s t : System} {k : Nat}

/-- The entries of the signals that the first `k` ticks raise. -/
def signalLog (b : Build) (pmu : Nat → Int) (s : System) (k : Nat) : List PredictionFailureSignal :=
  emitted (fun k => pbsRunTimerTick b (pmu k)) (fun k => entriesOf b (pmu k)) s k

/-- The log is recorded, and its entries are older than the clock. -/
structure Logged (t : System) (log : List PredictionFailureSignal) : Prop where
  signals : t.signals = recorded log
  ordered : log.Pairwise fun sig sig' => sig.tick < sig'.tick
  older : ∀ sig ∈ log, sig.tick < t.plan.tickCounter

theorem clock_tick {r : Int} (htick : pbsRunTimerTick b r s = .ok t) :
    s.plan.tickCounter ≤ t.plan.tickCounter := by
  rcases stress_tick htick with ⟨rfl, _⟩ | ⟨_, _, hcount, _⟩
  · exact Int.le_refl _
  · omega

theorem Logged.tick {r : Int} {log : List PredictionFailureSignal} (h : Logged s log)
    (htick : pbsRunTimerTick b r s = .ok t) : Logged t (log ++ entriesOf b r s) := by
  constructor
  · rw [signals_tick htick, h.signals, recorded, recorded, List.foldl_append]
  · rw [List.pairwise_append]
    refine ⟨h.ordered, ?_, fun sig hsig sig' hsig' => ?_⟩
    · unfold entriesOf
      split
      · exact List.pairwise_singleton _ _
      · exact List.Pairwise.nil
    · rw [tick_of_mem_entriesOf hsig']
      exact h.older sig hsig
  · intro sig hsig
    rcases List.mem_append.1 hsig with hsig | hsig
    · exact Int.lt_of_lt_of_le (h.older sig hsig) (clock_tick htick)
    · exact lt_of_mem_entriesOf htick hsig

theorem Logged.run (hsignals : s.signals = zeroedSignals) (ht : runTicks b pmu s k = .ok t) :
    Logged t (signalLog b pmu s k) := by
  refine run_emitted (I := Logged) ⟨hsignals, List.Pairwise.nil, by simp⟩ ?_ ht
  exact fun _ _ _ _ _ _ h htick => h.tick htick

end Run

/-- After a run that starts with no signal recorded, the buffer holds the signals of the run: one
entry for each tick that raised one, in the order of the ticks, with the task, the process and the
time of the tick.  `get_pbs_signal` finds the latest of them. -/
theorem signals_run {b : Build} {pmu : Nat → Int} {s t : System} {k : Nat}
    (hsignals : s.signals = zeroedSignals) (ht : runTicks b pmu s k = .ok t) :
    ∃ log : List PredictionFailureSignal, t.signals = recorded log ∧
      log.Pairwise (fun sig sig' => sig.tick < sig'.tick) ∧
      (∀ sig, sig ∈ log ↔ ∃ j < k, ∃ u signal p, runTicks b pmu s j = .ok u ∧
        signalPoint b (pmu j) u = .ok (some (signal, p)) ∧ signalEntry signal p = .ok sig) ∧
      numberPredictionFailuresCaused t.signals = log.length ∧
      ∀ i < min log.length sizeSigBuffer, ∃ (a : Int) (sig : PredictionFailureSignal),
        getPbsSignal b i t.signals = .ok a ∧ t.signals.readSignal a = .ok sig ∧
        log.reverse[i]? = some sig := by
  have hlogged := Logged.run hsignals ht
  refine ⟨signalLog b pmu s k, hlogged.signals, hlogged.ordered, fun sig => ?_, ?_, ?_⟩
  · refine mem_emitted.trans ⟨?_, ?_⟩
    · rintro ⟨j, hj, u, hu, hsig⟩
      obtain ⟨signal, p, hpoint, hsig⟩ := entryOf_eq_ok.1 (mem_entriesOf.1 hsig)
      exact ⟨j, hj, u, signal, p, hu, hpoint, hsig⟩
    · rintro ⟨j, hj, u, signal, p, hu, hpoint, hsig⟩
      exact ⟨j, hj, u, hu, mem_entriesOf.2 (entryOf_eq_ok.2 ⟨signal, p, hpoint, hsig⟩)⟩
  · rw [hlogged.signals]
    exact numberPredictionFailuresCaused_recorded _
  · intro i hi
    rw [hlogged.signals]
    have hk : i < sizeSigBuffer := by omega
    have hlatest := window_recorded_getElem (signalLog b pmu s k) hi
    rw [Ring.window_getElem _ hk] at hlatest
    obtain ⟨sig, hsig⟩ : ∃ sig, (signalLog b pmu s k).reverse[i]? = some sig :=
      ⟨_, List.getElem?_eq_getElem (by rw [List.length_reverse]; omega)⟩
    rw [hsig] at hlatest
    exact ⟨_, sig, getPbsSignal_eq b hk, readSignal_eq_ok.2 hlatest, hsig⟩

set_option maxRecDepth 4000 in
/-- Task 0 leaves its process 10 seconds late, and T2 is recorded for task 1 at time 1. -/
theorem signals_run_raised :
    ∃ p t sig, parsePlan "1;0,0;;;0,0,2,10000000000;0,1,1000,1000;".toList zeroedPlan = .ok p ∧
      runTicks .userland (fun k => if k = 0 then 10000000000 else 1) ⟨p, zeroedSignals⟩ 2 = .ok t ∧
      t.signals = recorded [sig] ∧ sig.tick = 1 ∧ sig.taskId = 1 ∧ sig.typeSignal = .t2 ∧
      ∃ j < 2, ∃ u signal q,
        runTicks .userland (fun k => if k = 0 then 10000000000 else 1) ⟨p, zeroedSignals⟩ j = .ok u ∧
        signalPoint .userland (if j = 0 then 10000000000 else 1) u = .ok (some (signal, q)) ∧
        signalEntry signal q = .ok sig := by
  obtain ⟨p, t, hp, ht, hcheck⟩ :=
    @of_onRun .userland "1;0,0;;;0,0,2,10000000000;0,1,1000,1000;".toList
      (fun k => if k = 0 then 10000000000 else 1) 2
      (fun _ t => decide (numberPredictionFailuresCaused t.signals = 1 ∧
        t.signals.lastSignals.toList[1]? = some (⟨1, 0, 1, .t2⟩ : PredictionFailureSignal)))
      (by decide +kernel)
  obtain ⟨hnumber, hcell⟩ := of_decide_eq_true hcheck
  obtain ⟨log, hlog, _, hmem, hlength, hlatest⟩ := signals_run (s := ⟨p, zeroedSignals⟩) rfl ht
  obtain ⟨sig, rfl⟩ := List.length_eq_one_iff.1 (hlength.symm.trans hnumber)
  have hsig : sig = ⟨1, 0, 1, .t2⟩ := by
    rw [hlog] at hcell
    exact Option.some.inj hcell
  refine ⟨p, t, sig, hp, ht, hlog, ?_, ?_, ?_, (hmem sig).1 (by simp)⟩ <;> rw [hsig]

end PbsLevel2

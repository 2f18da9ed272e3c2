import PbsLevel2.Proofs.Settings
import PbsLevel2.Proofs.Signals

/-!
# Stress

A signal sets the stress to `STRESS_RESET`, a tick takes at most one off again, and T2 is
only checked at stress 0 or for a task that was preempted too often.  None of this depends
on how the plan came about: the facts below are about runs from any plan.
-/

namespace PbsLevel2

open Lib

/-! ## The stress through a tick -/

section Stress

variable {p q : PbsPlan} {s s₂ s' t u : System} {b : Build} {r n : Int} {pmu : Nat → Int} {k : Nat}

/-- `n` is the stress behind the signals of a tick: `STRESS_RESET`, if one was raised. -/
def StressBehind (b : Build) (r : Int) (s : System) (n : Int) : Prop :=
  n = stressReset ∨ n = s.plan.stress ∧ ∀ x, signalPoint b r s ≠ .ok (some x)

section Signalled

variable {c cur : PbsTask} (hc : s.plan.readCurTask = .ok c) (hlive : c.taskId ≠ -2)
  (hcredit : updateRetiredInstructions r s.plan = .ok p) (hcur : p.readCurTask = .ok cur)

include hcredit

theorem stress_check {raises : Exec Bool} {signal : Exec System}
    (hraise : signal = .ok s₂ →
      signalT2 b { s with plan := p } = .ok s₂ ∨ signalTm2 b { s with plan := p } = .ok s₂)
    (hquiet : raises = .ok false → signalPoint b r s = .ok none)
    (hcheck : (do if ← raises then signal else return { s with plan := p }) = Except.ok s₂) :
    StressBehind b r s s₂.plan.stress ∧ s₂.plan.tickCounter = s.plan.tickCounter := by
  have hsame := keepsSettings_updateRetiredInstructions _ _ _ hcredit
  obtain ⟨raised, hraised, hcheck⟩ := bind_eq_ok.1 hcheck
  cases raised with
  | true =>
      have hset := settings_signal (hraise hcheck)
      exact ⟨.inl (congrArg Settings.stress hset), (congrArg Settings.tickCounter hset).trans
        (congrArg Settings.tickCounter hsame)⟩
  | false =>
      obtain rfl := Except.ok.inj hcheck
      refine ⟨.inr ⟨congrArg Settings.stress hsame, fun x hx => ?_⟩,
        congrArg Settings.tickCounter hsame⟩
      rw [hquiet hraised] at hx
      cases hx

include hc hlive hcur

theorem stress_signalIfTm2 (hstate : cur.state = .finished)
    (hsignal : signalIfTm2 b { s with plan := p } = .ok s₂) :
    StressBehind b r s s₂.plan.stress ∧ s₂.plan.tickCounter = s.plan.tickCounter := by
  apply stress_check hcredit .inr _ hsignal
  intro hraised
  rw [signalPoint, hc, ok_bind, if_neg hlive, hcredit, ok_bind, hcur, ok_bind, if_pos hstate,
    show raisesTm2 b p = .ok false from hraised]
  rfl

theorem stress_signalIfT2 (hstate : cur.state ≠ .finished)
    (hsignal : signalIfT2 b { s with plan := p } = .ok s₂) :
    StressBehind b r s s₂.plan.stress ∧ s₂.plan.tickCounter = s.plan.tickCounter := by
  apply stress_check hcredit .inl _ hsignal
  intro hraised
  rw [signalPoint, hc, ok_bind, if_neg hlive, hcredit, ok_bind, hcur, ok_bind, if_neg hstate,
    show raisesT2 b p = .ok false from hraised]
  rfl

end Signalled

theorem stress_tick (htick : pbsRunTimerTick b r s = .ok s') :
    (s' = s ∧ ∀ x, signalPoint b r s ≠ .ok (some x)) ∨
    ∃ n, StressBehind b r s n ∧ s'.plan.tickCounter = s.plan.tickCounter + 1 ∧
      (s'.plan.stress = n ∨ s'.plan.stress = if n ≠ 0 then n - 1 else n) := by
  obtain ⟨c, hc⟩ : ∃ c, s.plan.readCurTask = .ok c := by
    obtain ⟨_, _, h⟩ := bind_eq_ok.1 htick
    obtain ⟨c, hc, _⟩ := bind_eq_ok.1 h
    exact ⟨c, hc⟩
  cases tick_cases htick with
  | ended cur hcur hend hs =>
      refine .inl ⟨hs, fun x hx => ?_⟩
      rw [signalPoint, hcur, ok_bind, if_pos hend] at hx
      cases hx
  | finished p₁ cur s₂ p₃ p₄ hlive hcredit hcur hstate hsignal hbook hskip hs =>
      obtain ⟨hbehind, hsame⟩ := stress_signalIfTm2 hc (hlive c hc) hcredit hcur hstate hsignal
      obtain ⟨p₂, hp₂, hadv⟩ := bind_eq_ok.1 hbook
      have hset := ((keepsSettings_skipFreeSlot _ _ hskip).trans
        (keepsSettings_advanceCurTask _ _ hadv)).trans (settings_bookFinishedTask hp₂)
      have hstress : p₄.stress = (relieveStress s₂.plan).stress := congrArg Settings.stress hset
      have hcount : p₄.tickCounter = s₂.plan.tickCounter := congrArg Settings.tickCounter hset
      refine .inr ⟨_, hbehind, ?_, .inr ?_⟩
      · rw [hs, ← hsame, ← hcount]
      · rw [hs, ← stress_relieveStress, ← hstress]
  | preempted p₁ cur s₂ p₃ p₄ hlive hcredit hcur hstate hsignal ht1 hpreempt hskip hs =>
      obtain ⟨hbehind, hsame⟩ := stress_signalIfT2 hc (hlive c hc) hcredit hcur hstate hsignal
      have hset := (keepsSettings_skipFreeSlot _ _ hskip).trans
        (keepsSettings_preemptCurTask _ _ hpreempt)
      have hstress : p₄.stress = s₂.plan.stress := congrArg Settings.stress hset
      have hcount : p₄.tickCounter = s₂.plan.tickCounter := congrArg Settings.tickCounter hset
      refine .inr ⟨_, hbehind, ?_, .inl ?_⟩
      · rw [hs, ← hsame, ← hcount]
      · rw [hs, ← hstress]
  | waited p₁ cur s₂ hlive hcredit hcur hstate hsignal ht1 hs =>
      obtain ⟨hbehind, hsame⟩ := stress_signalIfT2 hc (hlive c hc) hcredit hcur hstate hsignal
      refine .inr ⟨_, hbehind, ?_, .inr ?_⟩
      · rw [hs, ← hsame]
      · rw [hs, ← stress_relieveStress]

/-- T2 is raised at stress 0 or for a task that was preempted too often. -/
theorem calm_of_signalPoint (h : signalPoint b r s = .ok (some (.t2, q))) :
    s.plan.stress ≤ 0 ∨ ∃ cur, q.readCurTask = .ok cur ∧ t2MaxPreemptions < cur.wasPreempted := by
  obtain ⟨c, _, h⟩ := bind_eq_ok.1 h
  split at h
  · cases h
  · obtain ⟨p₁, hcredit, h⟩ := bind_eq_ok.1 h
    have hstress : p₁.stress = s.plan.stress :=
      congrArg Settings.stress (keepsSettings_updateRetiredInstructions _ _ _ hcredit)
    obtain ⟨cur, hcur, h⟩ := bind_eq_ok.1 h
    split at h
    · obtain ⟨raised, _, h⟩ := bind_eq_ok.1 h
      cases raised <;> cases h
    · obtain ⟨raised, hraised, h⟩ := bind_eq_ok.1 h
      cases raised <;> cases h
      rw [raisesT2, hcur, ok_bind] at hraised
      split at hraised <;> rename_i hcalm
      · simp only [Bool.or_eq_true, decide_eq_true_eq, checkT2Preemptions, t2PreemptionsEnabled,
          Bool.not_true, Bool.false_eq_true, if_false] at hcalm
        rcases hcalm with hcalm | hoften
        · exact .inl (hstress ▸ hcalm)
        · refine .inr ⟨cur, hcur, ?_⟩
          split at hoften <;> rename_i hlt
          · exact hlt
          · cases hoften
      · cases hraised

end Stress

/-! ## The stress through a run -/

section Run

variable {s t u : System} {b : Build} {pmu : Nat → Int} {i j : Nat} {signal : Check} {p q : PbsPlan}

theorem stress_bounds (h0 : s.plan.stress = 0) (ht : runTicks b pmu s i = .ok t) :
    0 ≤ t.plan.stress ∧ t.plan.stress ≤ stressReset := by
  have hreset : stressReset = 3000 := rfl
  refine run_invariant (I := fun t => 0 ≤ t.plan.stress ∧ t.plan.stress ≤ stressReset)
    (by omega) ?_ ht
  intro j _ t u _ hI htick
  rcases stress_tick htick with ⟨rfl, _⟩ | ⟨n, hn, _, hu⟩
  · exact hI
  · have hn' : 0 ≤ n ∧ n ≤ stressReset := by
      rcases hn with rfl | ⟨rfl, _⟩
      · omega
      · exact hI
    rcases hu with hu | hu
    · omega
    · split at hu <;> omega

theorem stress_behind_signal (h0 : s.plan.stress = 0) (ht : runTicks b pmu s i = .ok t)
    (hsignal : signalPoint b (pmu i) t = .ok (some (signal, p))) (hij : i < j)
    (hu : runTicks b pmu s j = .ok u) :
    stressReset ≤ u.plan.stress + (u.plan.tickCounter - t.plan.tickCounter) := by
  have hreset : stressReset = 3000 := rfl
  induction j generalizing u with
  | zero => omega
  | succ j ih =>
      obtain ⟨w, hw, htick⟩ := run_succ_eq_ok.1 hu
      rcases Nat.lt_or_ge i j with hlt | hge
      · have hI := ih hlt hw
        rcases stress_tick htick with ⟨rfl, _⟩ | ⟨n, hn, hcount, hstress⟩
        · exact hI
        · have hw' := stress_bounds h0 hw
          have hn' : w.plan.stress ≤ n := by
            rcases hn with rfl | ⟨rfl, _⟩ <;> omega
          rcases hstress with hstress | hstress
          · omega
          · split at hstress <;> omega
      · -- the tick of the signal itself
        obtain rfl : j = i := by omega
        obtain rfl := Except.ok.inj (ht.symm.trans hw)
        rcases stress_tick htick with ⟨_, hnone⟩ | ⟨n, hn, hcount, hstress⟩
        · exact absurd hsignal (hnone _)
        · rcases hn with rfl | ⟨_, hnone⟩
          · rcases hstress with hstress | hstress
            · omega
            · split at hstress <;> omega
          · exact absurd hsignal (hnone _)

end Run

/-- In a run from a plan without stress the stress stays between 0 and `STRESS_RESET`, and
between a signal and a later T2 lie `STRESS_RESET` ticks, unless the later T2 is for a task
that was preempted more than `T2_MAX_PREEMPTIONS` times. -/
theorem stress_limits_t2 {s : System} {b : Build} {pmu : Nat → Int} (h0 : s.plan.stress = 0) :
    (∀ k t, runTicks b pmu s k = .ok t → 0 ≤ t.plan.stress ∧ t.plan.stress ≤ stressReset) ∧
    ∀ i j t u signal p q, i < j → runTicks b pmu s i = .ok t → runTicks b pmu s j = .ok u →
      signalPoint b (pmu i) t = .ok (some (signal, p)) →
      signalPoint b (pmu j) u = .ok (some (.t2, q)) →
      stressReset ≤ u.plan.tickCounter - t.plan.tickCounter ∨
        ∃ cur, q.readCurTask = .ok cur ∧ t2MaxPreemptions < cur.wasPreempted := by
  refine ⟨fun k t => stress_bounds h0, fun i j t u signal p q hij ht hu hsignal hlater => ?_⟩
  have hbehind := stress_behind_signal h0 ht hsignal hij hu
  rcases calm_of_signalPoint hlater with hcalm | hoften
  · left
    omega
  · exact .inr hoften

set_option maxRecDepth 4000 in
/-- Task 0 leaves its process 10 seconds late, and tick 1 raises T2. -/
theorem stress_limits_t2_raised :
    ∃ p t q, parsePlan "1;0,0;;;0,0,2,10000000000;0,1,1000,1000;".toList zeroedPlan = .ok p ∧
      runTicks .userland (fun k => if k = 0 then 10000000000 else 1) ⟨p, zeroedSignals⟩ 1 = .ok t ∧
      signalPoint .userland 1 t = .ok (some (.t2, q)) ∧ t.plan.tickCounter = 1 ∧
      ∀ j u q', 1 < j →
        runTicks .userland (fun k => if k = 0 then 10000000000 else 1) ⟨p, zeroedSignals⟩ j =
          .ok u → signalPoint .userland 1 u = .ok (some (.t2, q')) →
        3001 ≤ u.plan.tickCounter ∨
          ∃ cur, q'.readCurTask = .ok cur ∧ t2MaxPreemptions < cur.wasPreempted := by
  obtain ⟨p, t, hp, ht, hcheck⟩ :=
    @of_onRun .userland "1;0,0;;;0,0,2,10000000000;0,1,1000,1000;".toList
      (fun k => if k = 0 then 10000000000 else 1) 1
      (fun p t => decide (p.stress = 0 ∧ t.plan.tickCounter = 1) &&
        onSignal .userland 1 t fun signal _ _ => signal = .t2) (by decide +kernel)
  simp only [Bool.and_eq_true, decide_eq_true_eq] at hcheck
  obtain ⟨⟨hstress, hcount⟩, hsignal⟩ := hcheck
  obtain ⟨signal, q, _, hpoint, _, hsignal⟩ := of_onSignal hsignal
  obtain rfl := of_decide_eq_true hsignal
  refine ⟨p, t, q, hp, ht, hpoint, hcount, fun j u q' hj hu hlater => ?_⟩
  have hpmu : (if j = 0 then (10000000000 : Int) else 1) = 1 := if_neg (by omega)
  rcases (stress_limits_t2 (s := ⟨p, zeroedSignals⟩) hstress).2 1 j t u .t2 q q' hj ht hu hpoint
    (by rw [hpmu]; exact hlater) with hlate | hoften
  · left
    have hreset : stressReset = 3000 := rfl
    omega
  · exact .inr hoften

end PbsLevel2

import PbsLevel2.Lib.Fallible

/-!
# Runs of a fallible step function

A system that takes numbered steps, each of which may end in a fault.  The rules below
turn facts about one step into facts about every state a run reaches.
-/

namespace PbsLevel2.Lib

variable {ε σ : Type}

/-- The state after `k` steps. -/
def run (step : Nat → σ → Except ε σ) (s : σ) : Nat → Except ε σ
  | 0 => .ok s
  | k + 1 => run step s k >>= step k

variable {step : Nat → σ → Except ε σ} {s : σ}

theorem run_succ (k : Nat) : run step s (k + 1) = run step s k >>= step k := rfl

theorem run_succ_eq_ok {k : Nat} {t : σ} :
    run step s (k + 1) = .ok t ↔ ∃ u, run step s k = .ok u ∧ step k u = .ok t :=
  bind_eq_ok

theorem run_succ_of_eq {k : Nat} {t : σ} (h : run step s k = .ok t) :
    run step s (k + 1) = step k t := by
  rw [run_succ, h, ok_bind]

theorem run_prefix {k j : Nat} {t : σ} (h : run step s k = .ok t) (hj : j ≤ k) :
    ∃ u, run step s j = .ok u := by
  induction k generalizing t with
  | zero => exact ⟨t, by rwa [Nat.le_zero.1 hj]⟩
  | succ k ih =>
      obtain ⟨u, hu, _⟩ := run_succ_eq_ok.1 h
      rcases Nat.lt_or_ge j (k + 1) with hlt | hge
      · exact ih hu (by omega)
      · exact ⟨t, by rwa [show j = k + 1 by omega]⟩

theorem run_add {j : Nat} {t : σ} (h : run step s j = .ok t) (k : Nat) :
    run step s (j + k) = run (fun i => step (j + i)) t k := by
  induction k with
  | zero => exact h
  | succ k ih => rw [← Nat.add_assoc, run_succ, run_succ, ih]

/-- What holds at the start and is kept by every step taken holds in the state reached. -/
theorem run_invariant {I : σ → Prop} (h0 : I s) {k : Nat}
    (hstep : ∀ j < k, ∀ t u, run step s j = .ok t → I t → step j t = .ok u → I u) {t : σ}
    (h : run step s k = .ok t) : I t := by
  induction k generalizing t with
  | zero => exact Except.ok.inj h ▸ h0
  | succ k ih =>
      obtain ⟨u, hu, hut⟩ := run_succ_eq_ok.1 h
      exact hstep k (by omega) u t hu (ih (fun j hj => hstep j (by omega)) hu) hut

/-- If no step can fault where the invariant holds, no run faults. -/
theorem run_total {I : σ → Prop} (h0 : I s)
    (hstep : ∀ k t, I t → ∃ u, step k t = .ok u ∧ I u) (k : Nat) :
    ∃ t, run step s k = .ok t ∧ I t := by
  induction k with
  | zero => exact ⟨s, rfl, h0⟩
  | succ k ih =>
      obtain ⟨t, ht, hI⟩ := ih
      obtain ⟨u, hu, hIu⟩ := hstep k t hI
      exact ⟨u, by rw [run_succ_of_eq ht, hu], hIu⟩

theorem run_between {α : Type} {V : σ → α} {j k : Nat} {u t : σ} (hjk : j ≤ k)
    (hu : run step s j = .ok u) (ht : run step s k = .ok t)
    (hstep : ∀ i, j ≤ i → i < k → ∀ v w, run step s i = .ok v → step i v = .ok w → V w = V v) :
    V t = V u := by
  induction hjk generalizing t with
  | refl =>
      obtain rfl := Except.ok.inj (hu.symm.trans ht)
      rfl
  | @step k hle ih =>
      obtain ⟨v, hv, htv⟩ := run_succ_eq_ok.1 ht
      calc V t = V v := hstep k hle (Nat.lt_succ_self k) v t hv htv
        _ = V u := ih hv fun i hi hlt => hstep i hi (Nat.lt_succ_of_lt hlt)

/-- Along a run, `P` holds up to step `k` if and only if `C` holds at every step before: where the
invariant `G` holds, `P` does, a step under `C` keeps `G`, and `P` behind a step shows `C`. -/
theorem forall_le_iff_of {G P C : Nat → Prop} {k : Nat} (h0 : G 0) (hP : ∀ i ≤ k, G i → P i)
    (hstep : ∀ i < k, G i → (C i → G (i + 1)) ∧ (P (i + 1) → C i)) :
    (∀ i ≤ k, P i) ↔ ∀ i < k, C i := by
  have hkeeps : ∀ n ≤ k, (∀ i < n, G i → C i) → ∀ i ≤ n, G i := by
    intro n hn h i hi
    induction i with
    | zero => exact h0
    | succ i ih =>
        have hi' := ih (by omega)
        exact (hstep i (by omega) hi').1 (h i (by omega) hi')
  constructor
  · intro h i hi
    have hshown : ∀ j < k, G j → C j := fun j hj hG => (hstep j hj hG).2 (h (j + 1) hj)
    exact hshown i hi (hkeeps k (Nat.le_refl k) hshown i (by omega))
  · intro h i hi
    exact hP i hi (hkeeps k (Nat.le_refl k) (fun j hj _ => h j hj) i hi)

theorem run_forall_iff_of {G P C : Nat → σ → Prop} {k : Nat} {t : σ} (ht : run step s k = .ok t)
    (h0 : G 0 s) (hP : ∀ j ≤ k, ∀ u, run step s j = .ok u → G j u → P j u)
    (hstep : ∀ j < k, ∀ u v, run step s j = .ok u → step j u = .ok v → G j u →
      (C j u → G (j + 1) v) ∧ (P (j + 1) v → C j u)) :
    (∀ j ≤ k, ∀ u, run step s j = .ok u → P j u) ↔
      ∀ j < k, ∀ u, run step s j = .ok u → C j u := by
  refine forall_le_iff_of (G := fun j => ∀ u, run step s j = .ok u → G j u) ?_
    (fun j hj hG u hu => hP j hj u hu (hG u hu)) fun j hj hG => ?_
  · intro u hu
    obtain rfl := Except.ok.inj hu
    exact h0
  · obtain ⟨v, hv⟩ := run_prefix ht (show j + 1 ≤ k from hj)
    obtain ⟨u, hu, huv⟩ := run_succ_eq_ok.1 hv
    obtain ⟨hkeeps, hshows⟩ := hstep j hj u v hu huv (hG u hu)
    constructor
    · intro hC w hw
      obtain rfl := Except.ok.inj (hv.symm.trans hw)
      exact hkeeps (hC u hu)
    · intro hP w hw
      obtain rfl := Except.ok.inj (hu.symm.trans hw)
      exact hshows (hP v hv)

/-- Along a run, a property that each step passes on exactly under `C` holds up to
step `k` if and only if `C` holds at every step before. -/
theorem run_forall_iff {P C : Nat → σ → Prop} {k : Nat} {t : σ} (ht : run step s k = .ok t)
    (h0 : P 0 s) (hstep : ∀ j < k, ∀ u v, run step s j = .ok u → step j u = .ok v → P j u →
      (P (j + 1) v ↔ C j u)) :
    (∀ j ≤ k, ∀ u, run step s j = .ok u → P j u) ↔
      ∀ j < k, ∀ u, run step s j = .ok u → C j u :=
  run_forall_iff_of ht h0 (fun _ _ _ _ h => h) fun j hj u v hu huv h =>
    ⟨(hstep j hj u v hu huv h).2, (hstep j hj u v hu huv h).1⟩

/-- A measure that drops with every step of a run bounds its length: where the invariant
holds and the run is not over, a step succeeds, keeps the invariant and lowers `m`. -/
theorem run_reaches {I D : σ → Prop} {m : σ → Nat} (h0 : I s)
    (hstep : ∀ k t, I t → ¬ D t → ∃ u, step k t = .ok u ∧ I u ∧ m u < m t) :
    ∃ k t, k ≤ m s ∧ run step s k = .ok t ∧ I t ∧ D t := by
  suffices h : ∀ d n t, m t ≤ d → run step s n = .ok t → I t →
      ∃ k u, k ≤ n + d ∧ run step s k = .ok u ∧ I u ∧ D u by
    simpa using h (m s) 0 s (Nat.le_refl _) rfl h0
  intro d
  induction d with
  | zero =>
      intro n t hd ht hI
      by_cases hdone : D t
      · exact ⟨n, t, Nat.le_add_right _ _, ht, hI, hdone⟩
      · obtain ⟨u, _, _, hlt⟩ := hstep n t hI hdone
        omega
  | succ d ih =>
      intro n t hd ht hI
      by_cases hdone : D t
      · exact ⟨n, t, Nat.le_add_right _ _, ht, hI, hdone⟩
      · obtain ⟨u, hu, hIu, hlt⟩ := hstep n t hI hdone
        obtain ⟨k, v, hk, hv⟩ := ih (n + 1) u (by omega) (by rw [run_succ_of_eq ht, hu]) hIu
        exact ⟨k, v, by omega, hv⟩

/-! ## Runs with a history -/

/-- The steps of `step`, each of which is noted in a history. -/
def track {η : Type} (note : σ → σ → η → η) (step : Nat → σ → Except ε σ) (k : Nat)
    (x : σ × η) : Except ε (σ × η) := do
  let t ← step k x.1
  return (t, note x.1 t x.2)

theorem track_of_eq {η : Type} {note : σ → σ → η → η} {k : Nat} {t u : σ} (h : step k t = .ok u)
    (g : η) : track note step k (t, g) = .ok (u, note t u g) := by
  rw [track, h]
  rfl

end PbsLevel2.Lib

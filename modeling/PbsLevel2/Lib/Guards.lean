import PbsLevel2.Lib.Run

/-!
# Computations with and without their checks

A program is built twice, once with run-time checks and once with these deleted.  What the
checked program computes is what the other one computes, up to the check that stops it.
-/

namespace PbsLevel2.Lib

variable {ε α β σ : Type}

/-- `x` is `y`, unless it was stopped by a fault of a check. -/
def Guarded (E : ε → Prop) (x y : Except ε α) : Prop :=
  x = y ∨ ∃ e, E e ∧ x = .error e

namespace Guarded

variable {E E' : ε → Prop} {x y : Except ε α} {f g : α → Except ε β}

theorem refl (x : Except ε α) : Guarded E x x :=
  .inl rfl

theorem stop {e : ε} (he : E e) (y : Except ε α) : Guarded E (.error e) y :=
  .inr ⟨e, he, rfl⟩

theorem eq_ok (h : Guarded E x y) {a : α} (hx : x = .ok a) : y = .ok a := by
  rcases h with h | ⟨e, _, h⟩
  · exact h ▸ hx
  · rw [hx] at h
    cases h

theorem mono (h : Guarded E x y) (hE : ∀ e, E e → E' e) : Guarded E' x y := by
  rcases h with h | ⟨e, he, h⟩
  · exact .inl h
  · exact .inr ⟨e, hE e he, h⟩

theorem bind (h : Guarded E x y) (hf : ∀ a, x = .ok a → Guarded E (f a) (g a)) :
    Guarded E (x >>= f) (y >>= g) := by
  rcases h with rfl | ⟨e, he, rfl⟩
  · cases x with
    | error e => exact refl _
    | ok a => exact hf a rfl
  · exact stop he _

theorem bind_right (x : Except ε α) (hf : ∀ a, x = .ok a → Guarded E (f a) (g a)) :
    Guarded E (x >>= f) (x >>= g) :=
  (refl x).bind hf

theorem ite {c : Prop} [Decidable c] {x' y' : Except ε α} (h : c → Guarded E x y)
    (h' : ¬ c → Guarded E x' y') :
    Guarded E (if c then x else x') (if c then y else y') := by
  by_cases hc : c
  · rw [if_pos hc, if_pos hc]
    exact h hc
  · rw [if_neg hc, if_neg hc]
    exact h' hc

/-! ## Runs -/

variable {step step' : Nat → σ → Except ε σ} {S : Nat → σ → ε → Prop}

theorem run (hstep : ∀ k s, Guarded (S k s) (step k s) (step' k s)) (s : σ) (k : Nat) :
    (∀ j ≤ k, run step s j = run step' s j) ∨
    ∃ j < k, (∀ i ≤ j, Lib.run step s i = Lib.run step' s i) ∧
      ∃ t e, Lib.run step s j = .ok t ∧ step j t = .error e ∧ S j t e := by
  induction k with
  | zero =>
      left
      intro j hj
      rw [Nat.le_zero.1 hj]
      rfl
  | succ k ih =>
      rcases ih with heq | ⟨j, hj, hstop⟩
      · have hlast : Lib.run step' s (k + 1) = Lib.run step s k >>= step' k := by
          rw [run_succ, ← heq k (Nat.le_refl k)]
        cases hrun : Lib.run step s k with
        | error e =>
            left
            intro j hj
            rcases Nat.lt_or_eq_of_le hj with hlt | rfl
            · exact heq j (by omega)
            · rw [hlast, run_succ, hrun]
              rfl
        | ok t =>
            rcases hstep k t with hsame | ⟨e, he, hfault⟩
            · left
              intro j hj
              rcases Nat.lt_or_eq_of_le hj with hlt | rfl
              · exact heq j (by omega)
              · rw [hlast, run_succ, hrun, ok_bind, ok_bind, hsame]
            · exact .inr ⟨k, by omega, heq, t, e, hrun, hfault, he⟩
      · exact .inr ⟨j, by omega, hstop⟩

end Guarded

end PbsLevel2.Lib

import PbsLevel2.Lib.Agrees
import PbsLevel2.Lib.Run

/-!
# Agreement on a view

A view shows a part of a state.  Two computations agree on it if they end in the same fault, or
with results that look the same; what neither reads anything else agrees on the view in the end.
-/

namespace PbsLevel2.Lib

variable {ε α β γ δ σ : Type}

theorem eq_of_view {view : α → α} {a b : α} (h : view a = view b) (f : α → β)
    (hf : ∀ a, f (view a) = f a) : f a = f b := by
  rw [← hf a, h, hf b]

/-- The computations end alike as far as the view shows. -/
def AgreeOn (view : α → γ) (x y : Except ε α) : Prop :=
  x.map view = y.map view

namespace AgreeOn

variable {view : α → γ} {view' : β → δ} {x y : Except ε α} {f g : α → Except ε β} {a b : α}

theorem ok (h : view a = view b) : AgreeOn view (.ok a : Except ε α) (.ok b) :=
  congrArg Except.ok h

theorem of_eq (h : x = y) : AgreeOn view x y :=
  congrArg _ h

theorem agrees_iff : AgreeOn view x y ↔ Agrees Eq (fun a b => view a = view b) x y := by
  constructor
  · intro h
    unfold AgreeOn at h
    cases x with
    | error e =>
        cases y with
        | error e' => exact .error (Except.error.inj h)
        | ok b => cases h
    | ok a =>
        cases y with
        | error e => cases h
        | ok b => exact .ok (Except.ok.inj h)
  · rintro (h | h)
    · exact .ok h
    · exact .of_eq (congrArg _ h)

theorem bind (h : AgreeOn view x y) (hf : ∀ a b, view a = view b → AgreeOn view' (f a) (g b)) :
    AgreeOn view' (x >>= f) (y >>= g) :=
  agrees_iff.2 ((agrees_iff.1 h).bind fun a b _ _ hab => agrees_iff.1 (hf a b hab))

theorem bind_of_eq (h : x = y) (hf : ∀ a, AgreeOn view' (f a) (g a)) :
    AgreeOn view' (x >>= f) (y >>= g) :=
  agrees_iff.2 (.bind_of_eq (fun _ => rfl) h fun a _ => agrees_iff.1 (hf a))

theorem bind_eq (h : AgreeOn view x y) (hf : ∀ a b, view a = view b → f a = g b) :
    (x >>= f) = (y >>= g) := by
  cases agrees_iff.1 h with
  | ok hab => exact hf _ _ hab
  | error he => rw [he]; rfl

theorem read_eq {view : α → α} (h : AgreeOn view x y) (hf : ∀ a, f (view a) = f a) :
    (x >>= f) = (y >>= f) :=
  h.bind_eq fun _ _ hab => eq_of_view hab f hf

theorem ite {c d : Prop} [Decidable c] [Decidable d] {z w : Except ε α} (hc : c ↔ d)
    (hthen : c → AgreeOn view x y) (helse : ¬ c → AgreeOn view z w) :
    AgreeOn view (if c then x else z) (if d then y else w) := by
  by_cases h : c
  · rw [if_pos h, if_pos (hc.1 h)]
    exact hthen h
  · rw [if_neg h, if_neg fun hd => h (hc.2 hd)]
    exact helse h

end AgreeOn

/-- Steps that agree on a view, wherever they start from states that look the same, make runs
that agree on it. -/
theorem run_agreeOn {step : Nat → σ → Except ε σ} {view : σ → γ} {s t : σ}
    (hstep : ∀ k u v, view u = view v → AgreeOn view (step k u) (step k v))
    (h : view s = view t) (k : Nat) : AgreeOn view (run step s k) (run step t k) := by
  induction k with
  | zero => exact .ok h
  | succ k ih =>
      rw [run_succ, run_succ]
      exact ih.bind fun u v => hstep k u v

end PbsLevel2.Lib

import PbsLevel2.Lib.Fallible

/-!
# Two computations side by side

What two computations have in common that start from states which agree in part.
-/

namespace PbsLevel2.Lib

variable {ε α β γ δ : Type}

/-- Both computations succeed, with results related by `R`, or both end in a fault, and the
faults are related by `E`. -/
inductive Agrees (E : ε → ε → Prop) (R : α → β → Prop) : Except ε α → Except ε β → Prop
  | ok {a : α} {b : β} (h : R a b) : Agrees E R (.ok a) (.ok b)
  | error {e e' : ε} (h : E e e') : Agrees E R (.error e) (.error e')

namespace Agrees

variable {E : ε → ε → Prop} {R : α → β → Prop} {S : γ → δ → Prop}
  {x : Except ε α} {y : Except ε β} {f : α → Except ε γ} {g : β → Except ε δ}

theorem bind (h : Agrees E R x y)
    (hf : ∀ a b, x = .ok a → y = .ok b → R a b → Agrees E S (f a) (g b)) :
    Agrees E S (x >>= f) (y >>= g) := by
  cases h with
  | ok h => exact hf _ _ rfl rfl h
  | error h => exact .error h

theorem bind_of_eq (hE : ∀ e, E e e) {x y : Except ε α} {f g : α → Except ε γ}
    {S : γ → γ → Prop} (h : x = y) (hf : ∀ a, x = .ok a → Agrees E S (f a) (g a)) :
    Agrees E S (x >>= f) (y >>= g) := by
  subst h
  cases x with
  | ok a => exact hf a rfl
  | error e => exact .error (hE e)

theorem mono {R' : α → β → Prop} (h : Agrees E R x y)
    (hR : ∀ a b, x = .ok a → y = .ok b → R a b → R' a b) : Agrees E R' x y := by
  cases h with
  | ok h => exact .ok (hR _ _ rfl rfl h)
  | error h => exact .error h

end Agrees

end PbsLevel2.Lib

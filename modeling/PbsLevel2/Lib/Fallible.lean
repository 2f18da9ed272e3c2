/-!
# Fallible computations

Inversion of binds in `Except ε`, the faults a computation does not end in, and what its
results satisfy.
-/

namespace PbsLevel2.Lib

variable {ε α β : Type}

@[simp] theorem ok_bind (a : α) (f : α → Except ε β) :
    ((Except.ok a : Except ε α) >>= f) = f a := rfl

@[simp] theorem error_bind (e : ε) (f : α → Except ε β) :
    ((Except.error e : Except ε α) >>= f) = .error e := rfl

@[simp] theorem pure_eq_ok (a : α) : (pure a : Except ε α) = .ok a := rfl

theorem bind_eq_ok {x : Except ε α} {f : α → Except ε β} {b : β} :
    (x >>= f) = .ok b ↔ ∃ a, x = .ok a ∧ f a = .ok b := by
  cases x <;> simp

/-! ## Faults that do not occur -/

/-- `x` does not end in the fault `e`. -/
def Avoids (e : ε) (x : Except ε α) : Prop :=
  x ≠ .error e

namespace Avoids

variable {e : ε} {x : Except ε α}

@[simp] theorem ok (a : α) : Avoids e (.ok a : Except ε α) :=
  fun h => nomatch h

@[simp] theorem error {e' : ε} : Avoids e (.error e' : Except ε α) ↔ e' ≠ e := by
  simp [Avoids]

@[simp] theorem bind {f : α → Except ε β} :
    Avoids e (x >>= f) ↔ Avoids e x ∧ ∀ a, x = .ok a → Avoids e (f a) := by
  cases x <;> simp

@[simp] theorem map {f : α → β} : Avoids e (f <$> x) ↔ Avoids e x := by
  cases x
  · exact error.trans error.symm
  · exact iff_of_true (ok _) (ok _)

end Avoids

/-! ## Computations that succeed -/

/-- `x` ends in no fault at all. -/
def Succeeds (x : Except ε α) : Prop :=
  ∃ a, x = .ok a

namespace Succeeds

variable {x : Except ε α}

@[simp] theorem ok (a : α) : Succeeds (.ok a : Except ε α) :=
  ⟨a, rfl⟩

@[simp] theorem bind {f : α → Except ε β} :
    Succeeds (x >>= f) ↔ Succeeds x ∧ ∀ a, x = .ok a → Succeeds (f a) := by
  cases x <;> simp [Succeeds]

theorem not_of_isOk (h : x.isOk = false) : ¬ Succeeds x := by
  rintro ⟨a, rfl⟩
  cases h

end Succeeds

/-! ## What every result satisfies -/

/-- Every result of `x` satisfies `P`; a fault is not ruled out. -/
def Ensures (P : α → Prop) (x : Except ε α) : Prop :=
  ∀ a, x = .ok a → P a

namespace Ensures

variable {P : α → Prop} {Q : β → Prop} {x : Except ε α}

@[simp] theorem ok {a : α} : Ensures P (.ok a : Except ε α) ↔ P a := by
  simp [Ensures]

@[simp] theorem error (e : ε) : Ensures P (.error e : Except ε α) :=
  fun _ h => nomatch h

@[simp] theorem bind {f : α → Except ε β} :
    Ensures Q (x >>= f) ↔ Ensures (fun a => Ensures Q (f a)) x := by
  cases x <;> simp

theorem mono {R : α → Prop} (h : Ensures P x) (hPR : ∀ a, P a → R a) : Ensures R x :=
  fun a ha => hPR a (h a ha)

theorem of_forall (h : ∀ a, P a) : Ensures P x :=
  fun a _ => h a

end Ensures

end PbsLevel2.Lib

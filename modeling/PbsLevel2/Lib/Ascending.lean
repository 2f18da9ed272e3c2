import Mathlib.Data.List.Chain
import Mathlib.Logic.Function.Basic
import Mathlib.Order.Lattice

/-!
# Order within each key

One pass over a list of keyed values that remembers the last value of every key decides
whether the values of each key ascend.
-/

namespace PbsLevel2.Lib

variable {κ α : Type} [DecidableEq κ]

/-- The values of one key, in the order of the list. -/
def valuesOf (l : List (κ × α)) (k : κ) : List α :=
  (l.filter (·.1 = k)).map Prod.snd

theorem valuesOf_cons (x : κ × α) (l : List (κ × α)) (k : κ) :
    valuesOf (x :: l) k = if x.1 = k then x.2 :: valuesOf l k else valuesOf l k := by
  unfold valuesOf
  by_cases hk : x.1 = k
  · rw [if_pos hk, List.filter_cons_of_pos (by simpa using hk), List.map_cons]
  · rw [if_neg hk, List.filter_cons_of_neg (by simpa using hk)]

theorem valuesOf_perm {l m : List (κ × α)} (h : l.Perm m) (k : κ) :
    (valuesOf l k).Perm (valuesOf m k) :=
  (h.filter _).map _

variable [LinearOrder α]

/-- The pass: `last` holds the last value of every key. -/
def ascends : List (κ × α) → (κ → α) → Bool
  | [], _ => true
  | x :: l, last => if x.2 < last x.1 then false else ascends l (Function.update last x.1 x.2)

theorem ascends_cons (x : κ × α) (l : List (κ × α)) (last : κ → α) :
    ascends (x :: l) last =
      if x.2 < last x.1 then false else ascends l (Function.update last x.1 x.2) := rfl

theorem ascends_iff (l : List (κ × α)) (last : κ → α) :
    ascends l last = true ↔ ∀ k, (last k :: valuesOf l k).IsChain (· ≤ ·) := by
  induction l generalizing last with
  | nil => exact iff_of_true rfl fun k => List.isChain_singleton _
  | cons x l ih =>
      rw [ascends_cons]
      by_cases hlt : x.2 < last x.1
      · rw [if_pos hlt]
        refine iff_of_false Bool.false_ne_true fun h => ?_
        have hx := h x.1
        rw [valuesOf_cons, if_pos rfl, List.isChain_cons_cons] at hx
        exact absurd hlt (not_lt.2 hx.1)
      · rw [if_neg hlt, ih]
        refine forall_congr' fun k => ?_
        rw [valuesOf_cons]
        by_cases hk : x.1 = k
        · subst hk
          rw [if_pos rfl, Function.update_self, List.isChain_cons_cons, and_iff_right (not_lt.1 hlt)]
        · rw [if_neg hk, Function.update_of_ne (Ne.symm hk)]

/-- What is in another order under some key does not pass: of two orders of the same entries the
pass accepts, if it accepts one, exactly those that agree with it under every key. -/
theorem ascends_perm_iff {l m : List (κ × α)} {last : κ → α} (h : l.Perm m)
    (hl : ascends l last = true) :
    ascends m last = true ↔ ∀ k, valuesOf m k = valuesOf l k := by
  rw [ascends_iff] at hl ⊢
  constructor
  · intro hm k
    have hml := (hm k).pairwise.of_cons
    have hll := (hl k).pairwise.of_cons
    exact (valuesOf_perm h k).symm.eq_of_pairwise (fun _ _ _ _ => le_antisymm) hml hll
  · intro heq k
    rw [heq k]
    exact hl k

end PbsLevel2.Lib

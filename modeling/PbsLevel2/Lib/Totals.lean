import Mathlib.Algebra.BigOperators.Group.List.Basic
import Mathlib.Algebra.Order.BigOperators.Group.List
import Mathlib.Algebra.Ring.Int.Defs
import Mathlib.Algebra.Order.Ring.Int

/-!
# Totals by account

Sums of a value over those entries of a list that belong to one account.
-/

namespace PbsLevel2.Lib

variable {α β κ : Type} [DecidableEq κ]

/-- The sum of `value` over the entries of account `k`. -/
def total (account : α → κ) (value : α → Int) (k : κ) (l : List α) : Int :=
  ((l.filter (account · = k)).map value).sum

variable {account : α → κ} {value : α → Int} {k : κ}

@[simp] theorem total_nil : total account value k [] = 0 := rfl

theorem total_cons (a : α) (l : List α) :
    total account value k (a :: l) =
      (if account a = k then value a else 0) + total account value k l := by
  by_cases h : account a = k <;> simp [total, h]

theorem total_append (l m : List α) :
    total account value k (l ++ m) = total account value k l + total account value k m := by
  simp [total]

theorem total_perm {l m : List α} (h : l.Perm m) :
    total account value k l = total account value k m :=
  ((h.filter _).map value).sum_eq

theorem total_congr {l m : List α} (haccount : l.map account = m.map account)
    (hvalue : l.map value = m.map value) : total account value k l = total account value k m := by
  induction l generalizing m with
  | nil =>
      obtain rfl : m = [] := by simpa using haccount
      rfl
  | cons a l ih =>
      cases m with
      | nil => simp at haccount
      | cons b m =>
          simp only [List.map_cons, List.cons.injEq] at haccount hvalue
          rw [total_cons, total_cons, ih haccount.2 hvalue.2, haccount.1, hvalue.1]

theorem total_map {γ : Type} (f : γ → α) (l : List γ) :
    total account value k (l.map f) = total (account ∘ f) (value ∘ f) k l := by
  simp [total, List.filter_map, Function.comp_def]

theorem total_nonneg {l : List α} (h : ∀ a ∈ l, 0 ≤ value a) : 0 ≤ total account value k l := by
  apply List.sum_nonneg
  intro x hx
  obtain ⟨a, ha, rfl⟩ := List.mem_map.1 hx
  exact h a (List.mem_of_mem_filter ha)

theorem value_le_total {l : List α} {a : α} (ha : a ∈ l) (hk : account a = k)
    (h : ∀ b ∈ l, account b = k → 0 ≤ value b) : value a ≤ total account value k l := by
  refine List.single_le_sum ?_ _ (List.mem_map_of_mem (List.mem_filter.2 ⟨ha, by simpa using hk⟩))
  intro x hx
  obtain ⟨b, hb, rfl⟩ := List.mem_map.1 hx
  obtain ⟨hb, hkb⟩ := List.mem_filter.1 hb
  exact h b hb (by simpa using hkb)

theorem total_le_total {value' : α → Int} {l : List α}
    (h : ∀ a ∈ l, value a ≤ value' a) : total account value k l ≤ total account value' k l := by
  induction l with
  | nil => exact Int.le_refl 0
  | cons a l ih =>
      have hhead := h a (by simp)
      have htail := ih fun b hb => h b (by simp [hb])
      rw [total_cons, total_cons]
      split <;> omega

/-- Values none of which is lower have the same total only if all of the account are the same. -/
theorem total_eq_total_iff_of_le {value' : α → Int} {l : List α}
    (h : ∀ a ∈ l, value a ≤ value' a) : total account value k l = total account value' k l ↔
      ∀ a ∈ l, account a = k → value a = value' a := by
  induction l with
  | nil => simp
  | cons a l ih =>
      have hhead := h a (by simp)
      have htail : ∀ b ∈ l, value b ≤ value' b := fun b hb => h b (by simp [hb])
      have hle : total account value k l ≤ total account value' k l := total_le_total htail
      rw [total_cons, total_cons, List.forall_mem_cons, ← ih htail]
      by_cases hk : account a = k
      · rw [if_pos hk, if_pos hk]
        constructor
        · intro heq
          exact ⟨fun _ => by omega, by omega⟩
        · rintro ⟨ha, heq⟩
          rw [ha hk, heq]
      · rw [if_neg hk, if_neg hk, Int.zero_add, Int.zero_add]
        exact ⟨fun heq => ⟨fun h => absurd h hk, heq⟩, fun h => h.2⟩

end PbsLevel2.Lib

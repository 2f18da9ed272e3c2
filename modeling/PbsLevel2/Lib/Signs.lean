import Mathlib.Data.List.Count

/-!
# Matching by sign

Two lists of integers are matched by changing signs: each item of one list, from left to right,
changes its own sign and that of the first cell of the other list that holds it.  What is still
positive found no partner.
-/

namespace PbsLevel2.Lib

variable {v w : Int} {items cells l m : List Int}

/-- The first cell that holds `v` changes its sign. -/
def negateFirst (v : Int) : List Int → List Int
  | [] => []
  | x :: cells => if x = v then -x :: cells else x :: negateFirst v cells

/-- The items and the cells once all items were matched. -/
def matchBySign : List Int → List Int → List Int × List Int
  | [], cells => ([], cells)
  | v :: items, cells =>
      if 0 ≤ v ∧ v ∈ cells then
        let rest := matchBySign items (negateFirst v cells)
        (-v :: rest.1, rest.2)
      else
        let rest := matchBySign items cells
        (v :: rest.1, rest.2)

/-- Some positive number stands in `l` more often than in `m`. -/
def Surplus (l m : List Int) : Prop :=
  ∃ v ∈ l, 0 < v ∧ m.count v < l.count v

instance (l m : List Int) : Decidable (Surplus l m) :=
  inferInstanceAs (Decidable (∃ _ ∈ l, _))

theorem not_surplus_iff : ¬ Surplus l m ↔ ∀ v, 0 < v → l.count v ≤ m.count v := by
  constructor
  · intro h v hv
    by_contra hlt
    have hmem : v ∈ l := List.count_pos_iff.1 (by omega)
    exact h ⟨v, hmem, hv, by omega⟩
  · rintro h ⟨v, _, hv, hlt⟩
    have := h v hv
    omega

theorem not_surplus_nil_iff : ¬ Surplus l [] ↔ ∀ v ∈ l, v ≤ 0 := by
  rw [not_surplus_iff]
  constructor
  · intro h v hv
    by_contra hpos
    have hcount := h v (by omega)
    have := List.count_pos_iff.2 hv
    rw [List.count_nil] at hcount
    omega
  · intro h v hv
    have hmem : v ∉ l := fun hmem => by
      have := h v hmem
      omega
    rw [List.count_eq_zero_of_not_mem hmem]
    omega

theorem count_negateFirst (hv : 0 ≤ v) (hw : 0 < w) (cells : List Int) :
    (negateFirst v cells).count w = cells.count w - if w = v then 1 else 0 := by
  induction cells with
  | nil => simp [negateFirst]
  | cons x cells ih =>
      rw [negateFirst]
      by_cases hx : x = v
      · have hne : -x ≠ w := by omega
        rw [if_pos hx, List.count_cons_of_ne hne]
        by_cases hwv : w = v
        · rw [if_pos hwv, hx, hwv, List.count_cons_self, Nat.add_sub_cancel]
        · rw [if_neg hwv, List.count_cons_of_ne (by omega), Nat.sub_zero]
      · rw [if_neg hx]
        by_cases hwx : x = w
        · have hwv : w ≠ v := by omega
          rw [if_neg hwv] at ih ⊢
          rw [hwx, List.count_cons_self, List.count_cons_self, ih]
          omega
        · rw [List.count_cons_of_ne hwx, List.count_cons_of_ne hwx, ih]

theorem take_negateFirst (v : Int) (k : Nat) (cells : List Int) :
    (negateFirst v cells).take k = negateFirst v (cells.take k) := by
  induction cells generalizing k with
  | nil => simp [negateFirst]
  | cons x cells ih =>
      cases k with
      | zero => simp [negateFirst]
      | succ k =>
          rw [negateFirst, List.take_succ_cons, negateFirst]
          by_cases hx : x = v
          · rw [if_pos hx, if_pos hx, List.take_succ_cons]
          · rw [if_neg hx, if_neg hx, List.take_succ_cons, ih]

theorem length_negateFirst (v : Int) (cells : List Int) :
    (negateFirst v cells).length = cells.length := by
  induction cells with
  | nil => rfl
  | cons x cells ih =>
      rw [negateFirst]
      by_cases hx : x = v
      · rw [if_pos hx, List.length_cons, List.length_cons]
      · rw [if_neg hx, List.length_cons, List.length_cons, ih]

theorem length_matchBySign (items cells : List Int) :
    (matchBySign items cells).1.length = items.length ∧
      (matchBySign items cells).2.length = cells.length := by
  induction items generalizing cells with
  | nil => exact ⟨rfl, rfl⟩
  | cons v items ih =>
      rw [matchBySign]
      by_cases hmatch : 0 ≤ v ∧ v ∈ cells
      · rw [if_pos hmatch]
        dsimp only
        rw [List.length_cons, List.length_cons, (ih _).1, (ih _).2, length_negateFirst]
        exact ⟨rfl, rfl⟩
      · rw [if_neg hmatch]
        dsimp only
        rw [List.length_cons, List.length_cons, (ih _).1, (ih _).2]
        exact ⟨rfl, rfl⟩

theorem mem_matchBySign_items (hx : w ∈ (matchBySign items cells).1) : w ≤ 0 ∨ w ∈ items := by
  induction items generalizing cells with
  | nil => simp [matchBySign] at hx
  | cons v items ih =>
      rw [matchBySign] at hx
      by_cases hmatch : 0 ≤ v ∧ v ∈ cells
      · rw [if_pos hmatch] at hx
        rcases List.mem_cons.1 hx with rfl | hx
        · left
          omega
        · exact (ih hx).imp_right (List.mem_cons_of_mem v)
      · rw [if_neg hmatch] at hx
        rcases List.mem_cons.1 hx with rfl | hx
        · exact .inr List.mem_cons_self
        · exact (ih hx).imp_right (List.mem_cons_of_mem v)

/-- Every item finds its own cell if and only if no positive number stands more often among the
items. -/
theorem matchBySign_items_iff (items cells : List Int) :
    (∀ x ∈ (matchBySign items cells).1, x ≤ 0) ↔ ¬ Surplus items cells := by
  induction items generalizing cells with
  | nil =>
      apply iff_of_true
      · simp [matchBySign]
      · rintro ⟨v, hv, _⟩
        simp at hv
  | cons v items ih =>
      rw [matchBySign, not_surplus_iff]
      by_cases hmatch : 0 ≤ v ∧ v ∈ cells
      · obtain ⟨hv, hmem⟩ := hmatch
        have hcount := List.count_pos_iff.2 hmem
        rw [if_pos ⟨hv, hmem⟩]
        dsimp only
        rw [List.forall_mem_cons, ih, not_surplus_iff, and_iff_right (by omega)]
        apply forall₂_congr
        intro w hw
        rw [count_negateFirst hv hw]
        by_cases hwv : w = v
        · rw [if_pos hwv, hwv, List.count_cons_self]
          omega
        · rw [if_neg hwv, List.count_cons_of_ne (Ne.symm hwv), Nat.sub_zero]
      · rw [if_neg hmatch]
        dsimp only
        rw [List.forall_mem_cons, ih, not_surplus_iff]
        by_cases hv : v ≤ 0
        · rw [and_iff_right hv]
          apply forall₂_congr
          intro w hw
          rw [List.count_cons_of_ne (by omega)]
        · have habsent : cells.count v = 0 :=
            List.count_eq_zero_of_not_mem fun hmem => hmatch ⟨by omega, hmem⟩
          apply iff_of_false (fun h => hv h.1)
          intro h
          have hle := h v (by omega)
          rw [List.count_cons_self] at hle
          omega

/-- Nothing positive is left among the first `k` cells if and only if no positive number stands
there more often than among the items. -/
theorem matchBySign_cells_iff (items cells : List Int) (k : Nat) :
    (∀ x ∈ (matchBySign items cells).2.take k, x ≤ 0) ↔ ¬ Surplus (cells.take k) items := by
  induction items generalizing cells with
  | nil => rw [matchBySign, not_surplus_nil_iff]
  | cons v items ih =>
      rw [matchBySign, not_surplus_iff]
      by_cases hmatch : 0 ≤ v ∧ v ∈ cells
      · rw [if_pos hmatch]
        dsimp only
        rw [ih, take_negateFirst, not_surplus_iff]
        apply forall₂_congr
        intro w hw
        rw [count_negateFirst hmatch.1 hw]
        by_cases hwv : w = v
        · rw [if_pos hwv, hwv, List.count_cons_self]
          omega
        · rw [if_neg hwv, List.count_cons_of_ne (Ne.symm hwv), Nat.sub_zero]
      · rw [if_neg hmatch]
        dsimp only
        rw [ih, not_surplus_iff]
        apply forall₂_congr
        intro w hw
        by_cases hwv : w = v
        · have habsent : w ∉ cells.take k := fun hmem =>
            hmatch ⟨by omega, hwv ▸ List.mem_of_mem_take hmem⟩
          rw [List.count_eq_zero_of_not_mem habsent]
          exact iff_of_true (Nat.zero_le _) (Nat.zero_le _)
        · rw [List.count_cons_of_ne (Ne.symm hwv)]

end PbsLevel2.Lib

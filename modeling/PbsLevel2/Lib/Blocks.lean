import Mathlib.Data.List.Basic

/-!
# Blocks of a client

How often the entries of one client come in one block, and properties of an entry and what
follows it.
-/

namespace PbsLevel2.Lib

section Blocks

variable {κ : Type} [DecidableEq κ] {k : κ}

/-- The number of maximal blocks of `k` in a list; the block at its front is not counted when
it goes on from an entry before. -/
def blocksFrom (k : κ) : Bool → List κ → Nat
  | _, [] => 0
  | inside, a :: l =>
      if a = k then (if inside then 0 else 1) + blocksFrom k true l else blocksFrom k false l

theorem blocksFrom_le_length (inside : Bool) (l : List κ) : blocksFrom k inside l ≤ l.length := by
  induction l generalizing inside with
  | nil => exact Nat.le_refl 0
  | cons a l ih =>
      have h₁ := ih true
      have h₂ := ih false
      rw [blocksFrom, List.length_cons]
      split
      · split <;> omega
      · omega

theorem blocksFrom_own {own : List κ} (hown : ∀ a ∈ own, a = k) (l : List κ) :
    blocksFrom k true (own ++ l) = blocksFrom k true l := by
  induction own with
  | nil => rfl
  | cons a own ih =>
      rw [List.cons_append, blocksFrom, if_pos (hown a (by simp)), if_pos rfl, Nat.zero_add]
      exact ih fun b hb => hown b (by simp [hb])

theorem blocksFrom_others {others : List κ} (hne : others ≠ []) (hothers : ∀ a ∈ others, a ≠ k)
    (inside : Bool) (l : List κ) :
    blocksFrom k inside (others ++ k :: l) = 1 + blocksFrom k true l := by
  induction others generalizing inside with
  | nil => exact absurd rfl hne
  | cons a others ih =>
      rw [List.cons_append, blocksFrom, if_neg (hothers a (by simp))]
      cases others with
      | nil => simp [blocksFrom]
      | cons b others => exact ih (by simp) (fun c hc => hothers c (by simp [hc])) false

theorem blocksFrom_insert {blk : List κ} {f : κ} (hblk : ∀ a ∈ blk, a = f) (inside : Bool)
    (pre post : List κ) :
    blocksFrom k inside (pre ++ (blk ++ f :: post)) = blocksFrom k inside (pre ++ f :: post) := by
  induction pre generalizing inside with
  | nil =>
      rw [List.nil_append, List.nil_append]
      induction blk generalizing inside with
      | nil => rfl
      | cons a blk ih =>
          obtain rfl := hblk a (by simp)
          have htrue := ih (fun b hb => hblk b (by simp [hb])) true
          have hfalse := ih (fun b hb => hblk b (by simp [hb])) false
          rw [List.cons_append, blocksFrom, blocksFrom, htrue, hfalse]
          split <;> rename_i ha
          · rw [blocksFrom, if_pos ha, if_pos rfl, Nat.zero_add]
          · rw [blocksFrom, if_neg ha]
  | cons a pre ih =>
      rw [List.cons_append, List.cons_append, blocksFrom, blocksFrom, ih, ih]

end Blocks

section Along

variable {α : Type} {P Q : α → List α → Prop} {ctx l m : List α}

/-- `P` holds of every entry of `l` and what follows it in `l` and `ctx`. -/
def Along (P : α → List α → Prop) (ctx : List α) : List α → Prop
  | [] => True
  | a :: l => P a (l ++ ctx) ∧ Along P ctx l

namespace Along

theorem append : Along P ctx (l ++ m) ↔ Along P (m ++ ctx) l ∧ Along P ctx m := by
  induction l with
  | nil => simp [Along]
  | cons a l ih => simp [Along, ih, and_assoc]

theorem imp {ctx' : List α} (h : Along P ctx l)
    (himp : ∀ pre a post, l = pre ++ a :: post → P a (post ++ ctx) → Q a (post ++ ctx')) :
    Along Q ctx' l := by
  induction l with
  | nil => trivial
  | cons a l ih =>
      refine ⟨himp [] a l rfl h.1, ih h.2 fun pre b post heq => himp (a :: pre) b post ?_⟩
      rw [heq]
      rfl

theorem of_forall (h : ∀ a ∈ l, ∀ rest, P a rest) : Along P ctx l := by
  induction l with
  | nil => trivial
  | cons a l ih => exact ⟨h a (by simp) _, ih fun b hb => h b (by simp [hb])⟩

theorem of_mem (h : Along P ctx l) {a : α} (ha : a ∈ l) : ∃ rest, P a rest := by
  induction l with
  | nil => cases ha
  | cons b l ih =>
      rcases List.mem_cons.1 ha with rfl | ha
      · exact ⟨_, h.1⟩
      · exact ih h.2 ha

end Along

end Along

end PbsLevel2.Lib

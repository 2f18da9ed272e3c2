import Mathlib.Data.List.Basic

/-!
# Partners ahead

`Ahead R ctx l`: every entry of `l` has a partner at its own place or behind it, in `l` or in
the entries `ctx` that follow `l`.
-/

namespace PbsLevel2.Lib

variable {α β : Type} {R : α → α → Prop} {ctx l m : List α}

def Ahead (R : α → α → Prop) (ctx : List α) : List α → Prop
  | [] => True
  | a :: l => (∃ o ∈ a :: (l ++ ctx), R a o) ∧ Ahead R ctx l

namespace Ahead

@[simp] theorem nil : Ahead R ctx [] := trivial

theorem append : Ahead R ctx (l ++ m) ↔ Ahead R (m ++ ctx) l ∧ Ahead R ctx m := by
  induction l with
  | nil => simp [Ahead]
  | cons a l ih => simp [Ahead, ih, and_assoc]

theorem mono {ctx' : List α} (hsub : ∀ o ∈ ctx, o ∈ ctx') (h : Ahead R ctx l) : Ahead R ctx' l := by
  induction l with
  | nil => trivial
  | cons a l ih =>
      obtain ⟨⟨o, ho, hR⟩, hl⟩ := h
      refine ⟨⟨o, ?_, hR⟩, ih hl⟩
      simp only [List.mem_cons, List.mem_append] at ho ⊢
      rcases ho with ho | ho | ho
      · exact .inl ho
      · exact .inr (.inl ho)
      · exact .inr (.inr (hsub o ho))

theorem of_common {o : α} (ho : o ∈ ctx) (h : ∀ a ∈ l, R a o) : Ahead R ctx l := by
  induction l with
  | nil => trivial
  | cons a l ih =>
      exact ⟨⟨o, by simp [ho], h a (by simp)⟩, ih fun b hb => h b (by simp [hb])⟩

theorem of_self (h : ∀ a ∈ l, R a a) : Ahead R ctx l := by
  induction l with
  | nil => trivial
  | cons a l ih => exact ⟨⟨a, by simp, h a (by simp)⟩, ih fun b hb => h b (by simp [hb])⟩

theorem map {g : α → β} {S : β → β → Prop} (h : Ahead S (ctx.map g) (l.map g)) :
    Ahead (fun a o => S (g a) (g o)) ctx l := by
  induction l with
  | nil => trivial
  | cons a l ih =>
      obtain ⟨⟨o, ho, hS⟩, hl⟩ := h
      rw [← List.map_append, ← List.map_cons] at ho
      obtain ⟨o', ho', rfl⟩ := List.mem_map.1 ho
      exact ⟨⟨o', ho', hS⟩, ih hl⟩

theorem of_map {g : α → β} {S : β → β → Prop} (h : Ahead (fun a o => S (g a) (g o)) ctx l) :
    Ahead S (ctx.map g) (l.map g) := by
  induction l with
  | nil => trivial
  | cons a l ih =>
      obtain ⟨⟨o, ho, hS⟩, hl⟩ := h
      refine ⟨⟨g o, ?_, hS⟩, ih hl⟩
      rw [← List.map_append, ← List.map_cons]
      exact List.mem_map_of_mem ho

theorem partner {pre post : List α} {a : α} (h : Ahead R ctx (pre ++ a :: post)) :
    ∃ o ∈ a :: (post ++ ctx), R a o :=
  (append.1 h).2.1

end Ahead

end PbsLevel2.Lib

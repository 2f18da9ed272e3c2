import PbsLevel2.Lib.Agenda

/-!
# Agendas that advance

Jobs leave the front of an agenda and stay where they left; what is ahead may change its order.
-/

namespace PbsLevel2.Lib

variable {α : Type}

namespace Agenda

/-- From `a` to `b` the jobs `gone` were passed, and no job was rewritten. -/
def Advances (gone : List α) (a b : Agenda α) : Prop :=
  b.done = a.done ++ gone ∧ (gone ++ b.todo).Perm a.todo

namespace Advances

variable {a b c : Agenda α} {gone gone' : List α}

theorem refl (a : Agenda α) : Advances [] a a :=
  ⟨(List.append_nil _).symm, List.Perm.refl _⟩

theorem trans (hab : Advances gone a b) (hbc : Advances gone' b c) :
    Advances (gone ++ gone') a c := by
  obtain ⟨hdone, htodo⟩ := hab
  obtain ⟨hdone', htodo'⟩ := hbc
  refine ⟨by rw [hdone', hdone, List.append_assoc], ?_⟩
  rw [List.append_assoc]
  exact (htodo'.append_left gone).trans htodo

theorem pass (done todo : List α) (x : α) : Advances [x] ⟨done, x :: todo⟩ ⟨done ++ [x], todo⟩ :=
  ⟨rfl, List.Perm.refl _⟩

theorem reorder {todo todo' : List α} (done : List α) (h : todo'.Perm todo) :
    Advances [] ⟨done, todo⟩ ⟨done, todo'⟩ :=
  ⟨(List.append_nil _).symm, h⟩

theorem mem_todo (h : Advances gone a b) {x : α} : x ∈ a.todo ↔ x ∈ gone ∨ x ∈ b.todo := by
  rw [← h.2.mem_iff, List.mem_append]

theorem forall_mem {D T : α → Prop} (h : Advances gone a b) (hpassed : ∀ x, T x → D x)
    (hdone : ∀ x ∈ a.done, D x) (htodo : ∀ x ∈ a.todo, T x) :
    (∀ x ∈ b.done, D x) ∧ ∀ x ∈ b.todo, T x := by
  constructor
  · intro x hx
    rw [h.1] at hx
    rcases List.mem_append.1 hx with hx | hx
    · exact hdone x hx
    · exact hpassed x (htodo x (h.mem_todo.2 (.inl hx)))
  · exact fun x hx => htodo x (h.mem_todo.2 (.inr hx))

end Advances

end Agenda

end PbsLevel2.Lib

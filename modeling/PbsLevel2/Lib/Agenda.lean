import Mathlib.Data.List.Chain
import Mathlib.Data.List.Perm.Basic
import Mathlib.Logic.Relation

/-!
# Agendas

A list of jobs cut in front of the one that is due.  Jobs leave the front one by one, and
a block of jobs of one client may be put off until just before a later job of the same
client.  A client is idle when its jobs are gaps in the agenda.
-/

namespace PbsLevel2.Lib

variable {α κ : Type}

structure Agenda (α : Type) where
  done : List α
  todo : List α

def Agenda.jobs (a : Agenda α) : List α :=
  a.done ++ a.todo

namespace Agenda

/-- `allowed stack gap` limits which blocks may be put off behind which jobs. -/
inductive Move (client : α → κ) (idle : κ → Prop) (allowed : List α → List α → Prop) :
    Agenda α → Agenda α → Prop
  | pass (done todo : List α) (a : α) :
      Move client idle allowed ⟨done, a :: todo⟩ ⟨done ++ [a], todo⟩
  | postpone (done stack gap post : List α) (f : α)
      (hclient : ∀ a ∈ stack, client a = client f) (hreal : ¬ idle (client f))
      (hallowed : allowed stack gap) :
      Move client idle allowed ⟨done, stack ++ (gap ++ f :: post)⟩
        ⟨done, gap ++ (stack ++ f :: post)⟩

/-- Any number of moves. -/
def Moves (client : α → κ) (idle : κ → Prop) (allowed : List α → List α → Prop) :
    Agenda α → Agenda α → Prop :=
  Relation.ReflTransGen (Move client idle allowed)

variable {client : α → κ} {idle : κ → Prop} {allowed : List α → List α → Prop}
  {a b c : Agenda α}

theorem Moves.refl (a : Agenda α) : Moves client idle allowed a a :=
  Relation.ReflTransGen.refl

theorem Moves.trans (hab : Moves client idle allowed a b) (hbc : Moves client idle allowed b c) :
    Moves client idle allowed a c :=
  Relation.ReflTransGen.trans hab hbc

theorem Move.moves (h : Move client idle allowed a b) : Moves client idle allowed a b :=
  Relation.ReflTransGen.single h

theorem Moves.invariant {I : Agenda α → Prop}
    (hmove : ∀ a b, Move client idle allowed a b → I a → I b)
    (h : Moves client idle allowed a b) (ha : I a) : I b := by
  induction h with
  | refl => exact ha
  | tail _ hstep ih => exact hmove _ _ hstep ih

/-! ## No job is lost or duplicated -/

theorem Move.perm (h : Move client idle allowed a b) : b.jobs.Perm a.jobs := by
  cases h with
  | pass done todo a => simp [jobs]
  | postpone done stack gap post f => exact (List.perm_append_comm_assoc _ _ _).append_left done

theorem Moves.perm (h : Moves client idle allowed a b) : b.jobs.Perm a.jobs :=
  h.invariant (I := fun c => c.jobs.Perm a.jobs) (fun _ _ hm hp => hm.perm.trans hp)
    (List.Perm.refl _)

/-! ## Gaps stay apart -/

/-- No two gaps stand side by side. -/
def Spaced (client : α → κ) (idle : κ → Prop) (l : List α) : Prop :=
  l.IsChain fun a b => ¬ (idle (client a) ∧ idle (client b))

theorem Move.spaced (h : Move client idle allowed a b) (ha : Spaced client idle a.todo) :
    Spaced client idle b.todo := by
  cases h with
  | pass done todo a => exact List.IsChain.tail ha
  | postpone done stack gap post f hclient hreal =>
      obtain ⟨hstack, hrest, _⟩ := List.isChain_append.1 ha
      obtain ⟨hgap, hpost, _⟩ := List.isChain_append.1 hrest
      refine List.isChain_append.2 ⟨hgap, List.isChain_append.2 ⟨hstack, hpost, ?_⟩, ?_⟩
      · rintro x _ y hy ⟨_, hidle⟩
        obtain rfl : f = y := by simpa using hy
        exact hreal hidle
      · rintro x _ y hy ⟨_, hidle⟩
        cases stack with
        | nil =>
            obtain rfl : f = y := by simpa using hy
            exact hreal hidle
        | cons s stack =>
            obtain rfl : s = y := by simpa using hy
            exact hreal (hclient s (by simp) ▸ hidle)

/-! ## The order of each client's jobs -/

/-- The block is put off behind jobs of other clients only. -/
def PastOthers (client : α → κ) (stack gap : List α) : Prop :=
  ∀ a ∈ stack, ∀ g ∈ gap, client g ≠ client a

variable [DecidableEq κ]

theorem Move.filter_client (h : Move client idle (PastOthers client) a b) (k : κ) :
    b.jobs.filter (client · = k) = a.jobs.filter (client · = k) := by
  cases h with
  | pass done todo a => simp [jobs]
  | postpone done stack gap post f hclient _ hpast =>
      simp only [jobs, List.filter_append]
      congr 1
      rw [← List.append_assoc, ← List.append_assoc]
      congr 1
      -- one of the two blocks holds no job of client `k`
      cases stack with
      | nil => simp
      | cons s stack =>
          by_cases hk : client s = k
          · have hnil : gap.filter (client · = k) = [] := by
              simpa using fun g hg => hk ▸ hpast s (by simp) g hg
            rw [hnil, List.nil_append, List.append_nil]
          · have hnil : (s :: stack).filter (client · = k) = [] := by
              simp only [List.filter_eq_nil_iff, decide_eq_true_eq]
              intro x hx hxk
              exact hk ((hclient s (by simp)).trans ((hclient x hx).symm.trans hxk))
            rw [hnil, List.nil_append, List.append_nil]

theorem Moves.filter_client (h : Moves client idle (PastOthers client) a b) (k : κ) :
    b.jobs.filter (client · = k) = a.jobs.filter (client · = k) :=
  h.invariant (I := fun c => c.jobs.filter (client · = k) = a.jobs.filter (client · = k))
    (fun _ _ hm hk => (hm.filter_client k).trans hk) rfl

end Agenda

end PbsLevel2.Lib

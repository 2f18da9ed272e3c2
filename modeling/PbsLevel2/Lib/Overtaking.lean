import PbsLevel2.Lib.Discipline
import Mathlib.Algebra.Order.Group.Multiset

/-!
# Overtaking

A job that gives way loses its place.  Whoever keeps his place is overtaken by nobody: in front of
him stand none but those who stood there before.
-/

namespace PbsLevel2.Lib

variable {β : Type} {x : β} {front : Multiset β} {l m n : List (β × Bool)}

/-- `x` keeps its place in a list of marked entries, behind `front`. -/
def KeepsPlace (x : β) (front : Multiset β) (l : List (β × Bool)) : Prop :=
  ∃ before behind, l = before ++ (x, true) :: behind ∧ front = before.map Prod.fst

/-- From `m` to `l` nobody came in front of an entry that keeps its place. -/
def NoneOvertaken (l m : List (β × Bool)) : Prop :=
  ∀ x front, KeepsPlace x front l → ∃ front', KeepsPlace x front' m ∧ front ≤ front'

theorem append_eq_split {α : Type} {l m before behind : List α} {a : α} :
    l ++ m = before ++ a :: behind ↔ (∃ c, l = before ++ a :: c ∧ behind = c ++ m) ∨
      ∃ c, before = l ++ c ∧ m = c ++ a :: behind := by
  constructor
  · intro h
    rcases List.append_eq_append_iff.1 h with ⟨c, hc, hm⟩ | ⟨_ | ⟨e, c⟩, hl, hc⟩
    · exact .inr ⟨c, hc, hm⟩
    · exact .inr ⟨[], by simpa using hl.symm, hc.symm⟩
    · obtain ⟨rfl, rfl⟩ := List.cons.inj hc
      exact .inl ⟨c, hl, rfl⟩
  · rintro (⟨c, rfl, rfl⟩ | ⟨c, rfl, rfl⟩) <;> simp

theorem keepsPlace_append : KeepsPlace x front (l ++ m) ↔
    KeepsPlace x front l ∨
      ∃ front', KeepsPlace x front' m ∧ front = (l.map Prod.fst : Multiset β) + front' := by
  constructor
  · rintro ⟨before, behind, hsplit, rfl⟩
    rcases append_eq_split.1 hsplit with ⟨c, rfl, rfl⟩ | ⟨c, rfl, rfl⟩
    · exact .inl ⟨before, c, rfl, rfl⟩
    · refine .inr ⟨_, ⟨c, behind, rfl, rfl⟩, ?_⟩
      rw [List.map_append, Multiset.coe_add]
  · rintro (⟨before, behind, rfl, rfl⟩ | ⟨_, ⟨before, behind, rfl, rfl⟩, rfl⟩)
    · exact ⟨before, behind ++ m, by simp, rfl⟩
    · exact ⟨l ++ before, behind, by simp, by simp⟩

namespace NoneOvertaken

theorem refl (l : List (β × Bool)) : NoneOvertaken l l :=
  fun _ front h => ⟨front, h, le_rfl⟩

theorem trans (hlm : NoneOvertaken l m) (hmn : NoneOvertaken m n) : NoneOvertaken l n := by
  intro x front h
  obtain ⟨front', h', hle⟩ := hlm x front h
  obtain ⟨front'', h'', hle'⟩ := hmn x front' h'
  exact ⟨front'', h'', hle.trans hle'⟩

theorem move {stack moved : List (β × Bool)} (hkeys : moved.map Prod.fst = stack.map Prod.fst)
    (hlost : ∀ e ∈ moved, e.2 = false) (done gap post : List (β × Bool)) :
    NoneOvertaken (done ++ (gap ++ (moved ++ post))) (done ++ (stack ++ (gap ++ post))) := by
  intro x front h
  simp only [keepsPlace_append] at h ⊢
  rcases h with h | ⟨_, h | ⟨_, h | ⟨front', h, rfl⟩, rfl⟩, rfl⟩
  · exact ⟨front, .inl h, le_rfl⟩
  · refine ⟨_, .inr ⟨_, .inr ⟨_, .inl h, rfl⟩, rfl⟩, ?_⟩
    exact add_le_add le_rfl (Multiset.le_add_left _ _)
  · obtain ⟨before, behind, rfl, _⟩ := h
    exact absurd (hlost (x, true) (by simp)) Bool.noConfusion
  · refine ⟨_, .inr ⟨_, .inr ⟨_, .inr ⟨front', h, rfl⟩, rfl⟩, rfl⟩, ?_⟩
    rw [hkeys, add_left_comm (gap.map Prod.fst : Multiset β)]

end NoneOvertaken

/-! ## Queues -/

namespace Discipline

variable {ι α κ : Type} {d : Discipline ι α κ} {key : α → β} {home : α → Bool} {r : ι}
  {a b : α} {done rest todo jobs : List α} {q : Agenda α}

/-- The jobs of a queue, those marked that stand at home. -/
def marks (key : α → β) (home : α → Bool) (q : Agenda α) : List (β × Bool) :=
  q.jobs.map fun a => (key a, home a)

/-- A job keeps its client, its key and its home, but for a move in front of another job. -/
structure KeepsHome (d : Discipline ι α κ) (key : α → β) (home : α → Bool) : Prop where
  serve : ∀ r a, d.client (d.serve r a) = d.client a ∧ key (d.serve r a) = key a ∧
    home (d.serve r a) = home a
  yield : ∀ a, d.client (d.yield a) = d.client a ∧ key (d.yield a) = key a ∧
    home (d.yield a) = home a
  giveUp : ∀ a, key (d.giveUp a) = key a ∧ home (d.giveUp a) = home a
  settle : ∀ f a, key (d.settle f a) = key a ∧ (key f ≠ key a → home (d.settle f a) = false)

/-- The jobs of the client at the front of a queue have keys of their own. -/
def FrontDistinct (d : Discipline ι α κ) (key : α → β) (a : α) (l : List α) : Prop :=
  (a :: l).Pairwise fun u v =>
    d.client u = d.client a → d.client v = d.client a → key v ≠ key u

theorem FrontDistinct.congr (h : d.FrontDistinct key a rest) (hclient : d.client b = d.client a)
    (hkey : key b = key a) : d.FrontDistinct key b rest := by
  unfold FrontDistinct at h ⊢
  rw [List.pairwise_cons] at h ⊢
  rw [hclient, hkey]
  exact h

theorem FrontDistinct.settle {blk : List α} {f : α} (h : d.FrontDistinct key a (blk ++ rest))
    (hk : d.KeepsHome key home) (hblk : ∀ u ∈ blk, d.client u = d.client a) (hmem : f ∈ rest)
    (hf : d.client f = d.client a) : ∀ u ∈ a :: blk, home (d.settle f u) = false := by
  intro u hu
  have hclient : d.client u = d.client a := by
    rcases List.mem_cons.1 hu with rfl | hu
    · rfl
    · exact hblk u hu
  unfold FrontDistinct at h
  rw [← List.cons_append] at h
  exact (hk.settle f u).2 ((List.pairwise_append.1 h).2.2 u hu f hmem hclient hf)

theorem marks_front (hkey : key b = key a) (hhome : home b = home a) :
    marks key home ⟨done, b :: rest⟩ = marks key home ⟨done, a :: rest⟩ := by
  unfold marks Agenda.jobs
  rw [List.map_append, List.map_append, List.map_cons, List.map_cons, hkey, hhome]

theorem marks_skipIdle (q : Agenda α) :
    marks key home (d.skipIdle q) = marks key home q := by
  rw [marks, jobs_skipIdle, marks]

theorem marks_pass : marks key home ⟨done ++ [a], rest⟩ = marks key home ⟨done, a :: rest⟩ := by
  rw [marks, jobs_pass, marks]

variable [DecidableEq κ]

theorem giveWay_noneOvertaken (hk : d.KeepsHome key home) (hdistinct : d.FrontDistinct key a rest)
    (h : d.giveWay a rest = some todo) :
    NoneOvertaken (marks key home ⟨done, todo⟩) (marks key home ⟨done, a :: rest⟩) := by
  obtain ⟨blk, keep, others, f, post, rfl, hblk, hf, _, rfl⟩ := giveWay_cases h
  have hkeys : (((a :: blk).map (d.settle f)).map fun u => (key u, home u)).map Prod.fst =
      ((a :: blk).map fun u => (key u, home u)).map Prod.fst := by
    rw [List.map_map, List.map_map, List.map_map]
    exact List.map_congr_left fun u _ => (hk.settle f u).1
  have hlost : ∀ e ∈ ((a :: blk).map (d.settle f)).map fun u => (key u, home u), e.2 = false := by
    intro e he
    rw [List.map_map] at he
    obtain ⟨u, hu, rfl⟩ := List.mem_map.1 he
    exact hdistinct.settle hk hblk (by simp) hf u hu
  have hmove := NoneOvertaken.move hkeys hlost (done.map fun u => (key u, home u))
    ((keep ++ others).map fun u => (key u, home u)) ((f :: post).map fun u => (key u, home u))
  unfold marks Agenda.jobs
  simpa using hmove

/-- Nobody overtakes a job that stands at home. -/
theorem step_noneOvertaken (hk : d.KeepsHome key home) {overrun : Bool}
    (hdistinct : ∀ a rest, q.todo = a :: rest → d.FrontDistinct key a rest) :
    NoneOvertaken (marks key home (d.step r overrun q)) (marks key home q) := by
  obtain ⟨done, _ | ⟨a, rest⟩⟩ := q
  · exact .refl _
  · obtain ⟨hclient, hkey, hhome⟩ := hk.serve r a
    obtain ⟨hclient', hkey', hhome'⟩ := hk.yield (d.serve r a)
    by_cases hlast : d.finished (d.serve r a)
    · rw [step_finished hlast, marks_skipIdle, marks_pass, marks_front hkey hhome]
      exact .refl _
    · cases overrun with
      | false =>
          rw [step_waited hlast, marks_front hkey hhome]
          exact .refl _
      | true =>
          rw [← marks_front (hkey'.trans hkey) (hhome'.trans hhome)]
          cases hway : d.giveWay (d.yield (d.serve r a)) rest with
          | none =>
              obtain ⟨hkey₂, hhome₂⟩ := hk.giveUp (d.yield (d.serve r a))
              rw [step_gaveUp hlast hway, marks_front hkey₂ hhome₂]
              exact .refl _
          | some todo =>
              rw [step_gaveWay hlast hway, marks_skipIdle]
              apply giveWay_noneOvertaken hk _ hway
              exact (hdistinct a rest rfl).congr (hclient'.trans hclient) (hkey'.trans hkey)

end Discipline

end PbsLevel2.Lib

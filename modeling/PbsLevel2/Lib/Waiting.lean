import PbsLevel2.Lib.Overtaking
import Mathlib.Algebra.Order.Ring.Nat

/-!
# Waiting

A job that keeps its place waits for the jobs in front of it only, and each step works off some of
their weight.
-/

namespace PbsLevel2.Lib.Discipline

variable {ι α β κ : Type} {d : Discipline ι α κ} {key : α → β} {home : α → Bool}
  {weight : α → Nat} {r : ι} {a b : α} {done done' rest todo : List α} {q : Agenda α} {x : β}
  {n : Nat}

/-- The job `x` stands at home behind jobs that weigh `n` together; it is not the front. -/
def Waits (key : α → β) (home : α → Bool) (weight : α → Nat) (x : β) (n : Nat)
    (q : Agenda α) : Prop :=
  ∃ before a behind, q.todo = before ++ a :: behind ∧ before ≠ [] ∧ key a = x ∧ home a ∧
    (before.map weight).sum = n

/-- Serving the front works off some of its weight, and nothing else adds to a weight. -/
structure WorksOff (d : Discipline ι α κ) (r : ι) (weight : α → Nat) : Prop where
  busy : ∀ a, ¬ d.idle a → 1 ≤ weight a
  serve : ∀ a, ¬ d.idle a → ¬ d.finished (d.serve r a) → weight (d.serve r a) + 1 ≤ weight a
  yield : ∀ a, weight (d.yield a) = weight a
  settle : ∀ f a, weight (d.settle f a) = weight a
  giveUp : ∀ a, weight (d.giveUp a) ≤ weight a

theorem Waits.of_skipIdle (h : Waits key home weight x n (d.skipIdle q)) :
    ∃ n', Waits key home weight x n' q ∧ n ≤ n' := by
  obtain ⟨done, _ | ⟨a, rest⟩⟩ := q
  · exact ⟨n, h, le_rfl⟩
  · by_cases ha : d.idle a
    · rw [skipIdle_idle ha] at h
      obtain ⟨before, e, behind, rfl, _, hkey, hhome, rfl⟩ := h
      refine ⟨_, ⟨a :: before, e, behind, rfl, List.cons_ne_nil _ _, hkey, hhome, rfl⟩, ?_⟩
      rw [List.map_cons, List.sum_cons]
      exact Nat.le_add_left _ _
    · rw [skipIdle_busy (by rintro u ⟨⟩; exact ha)] at h
      exact ⟨n, h, le_rfl⟩

theorem Waits.of_pass (h : Waits key home weight x n ⟨done', rest⟩) (hone : 1 ≤ weight a) :
    ∃ n', Waits key home weight x n' ⟨done, a :: rest⟩ ∧ n + 1 ≤ n' := by
  obtain ⟨before, e, behind, rfl, _, hkey, hhome, rfl⟩ := h
  refine ⟨_, ⟨a :: before, e, behind, rfl, List.cons_ne_nil _ _, hkey, hhome, rfl⟩, ?_⟩
  rw [List.map_cons, List.sum_cons]
  omega

theorem Waits.of_front (h : Waits key home weight x n ⟨done', b :: rest⟩)
    (hle : weight b + 1 ≤ weight a) :
    ∃ n', Waits key home weight x n' ⟨done, a :: rest⟩ ∧ n + 1 ≤ n' := by
  obtain ⟨_ | ⟨c, before⟩, e, behind, hsplit, hne, hkey, hhome, rfl⟩ := h
  · exact absurd rfl hne
  · obtain ⟨rfl, rfl⟩ := List.cons.inj hsplit
    refine ⟨_, ⟨a :: before, e, behind, rfl, List.cons_ne_nil _ _, hkey, hhome, rfl⟩, ?_⟩
    rw [List.map_cons, List.map_cons, List.sum_cons, List.sum_cons]
    omega

variable [DecidableEq κ]

theorem Waits.of_giveWay (h : Waits key home weight x n ⟨done', todo⟩)
    (hk : d.KeepsHome key home) (hw : d.WorksOff r weight)
    (hdistinct : d.FrontDistinct key b rest) (hway : d.giveWay b rest = some todo)
    (hle : weight b + 1 ≤ weight a) :
    ∃ n', Waits key home weight x n' ⟨done, a :: rest⟩ ∧ n + 1 ≤ n' := by
  obtain ⟨blk, keep, others, f, post, rfl, hblk, hf, _, rfl⟩ := giveWay_cases hway
  have haway := hdistinct.settle hk hblk (by simp) hf
  have hstay : ∀ e ∈ (b :: blk).map (d.settle f), ¬ home e := by
    intro e he hhome
    obtain ⟨u, hu, rfl⟩ := List.mem_map.1 he
    exact absurd (haway u hu) (by simp [hhome])
  have hsum : (((b :: blk).map (d.settle f)).map weight).sum =
      weight b + (blk.map weight).sum := by
    rw [List.map_map, ← List.sum_cons, ← List.map_cons]
    exact congrArg List.sum (List.map_congr_left fun u _ => hw.settle f u)
  obtain ⟨before, e, behind, hsplit, _, hkey, hhome, rfl⟩ := h
  generalize (b :: blk).map (d.settle f) = moved at hstay hsum hsplit
  rcases append_eq_split.1 hsplit with ⟨c, hgap, _⟩ | ⟨c, rfl, hrest⟩
  · refine ⟨_, ⟨a :: (blk ++ before), e, c ++ f :: post, ?_, List.cons_ne_nil _ _, hkey, hhome,
      rfl⟩, ?_⟩
    · rw [← List.append_assoc keep, hgap]
      simp
    · simp only [List.map_cons, List.map_append, List.sum_cons, List.sum_append]
      omega
  · rcases append_eq_split.1 hrest with ⟨_, hmoved, _⟩ | ⟨c, rfl, hpost⟩
    · exact absurd hhome (hstay e (by simp [hmoved]))
    · refine ⟨_, ⟨a :: (blk ++ (keep ++ (others ++ c))), e, behind, ?_, List.cons_ne_nil _ _, hkey,
        hhome, rfl⟩, ?_⟩
      · rw [hpost]
        simp
      · simp only [List.map_cons, List.map_append, List.sum_cons, List.sum_append, hsum]
        omega

/-- While a job that keeps its place waits, every step works off weight in front of it. -/
theorem step_waits (hk : d.KeepsHome key home) (hw : d.WorksOff r weight) {overrun : Bool}
    (hbusy : ∀ a rest, q.todo = a :: rest → ¬ d.idle a)
    (hdistinct : ∀ a rest, q.todo = a :: rest → d.FrontDistinct key a rest)
    (h : Waits key home weight x n (d.step r overrun q)) :
    ∃ n', Waits key home weight x n' q ∧ n + 1 ≤ n' := by
  obtain ⟨done, _ | ⟨a, rest⟩⟩ := q
  · obtain ⟨before, e, behind, hsplit, _⟩ := h
    exact absurd hsplit (by simp [step])
  · have ha := hbusy a rest rfl
    obtain ⟨hclient, hkey, _⟩ := hk.serve r a
    obtain ⟨hclient', hkey', _⟩ := hk.yield (d.serve r a)
    by_cases hlast : d.finished (d.serve r a)
    · rw [step_finished hlast] at h
      obtain ⟨n', h', hle⟩ := h.of_skipIdle
      obtain ⟨n'', h'', hle'⟩ := h'.of_pass (hw.busy a ha)
      exact ⟨n'', h'', by omega⟩
    · have hserved := hw.serve a ha hlast
      cases overrun with
      | false =>
          rw [step_waited hlast] at h
          exact h.of_front hserved
      | true =>
          cases hway : d.giveWay (d.yield (d.serve r a)) rest with
          | none =>
              have hless := hw.giveUp (d.yield (d.serve r a))
              rw [hw.yield] at hless
              rw [step_gaveUp hlast hway] at h
              exact h.of_front (by omega)
          | some todo =>
              rw [step_gaveWay hlast hway] at h
              obtain ⟨n', h', hle⟩ := h.of_skipIdle
              have hfront := (hdistinct a rest rfl).congr (hclient'.trans hclient)
                (hkey'.trans hkey)
              have hless : weight (d.yield (d.serve r a)) + 1 ≤ weight a := by rwa [hw.yield]
              obtain ⟨n'', h'', hle'⟩ := h'.of_giveWay hk hw hfront hway hless
              exact ⟨n'', h'', by omega⟩

end PbsLevel2.Lib.Discipline

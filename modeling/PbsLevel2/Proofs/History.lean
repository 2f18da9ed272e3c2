import PbsLevel2.Proofs.Owners

/-!
# History

The entries in front of the current task have left.  A credit goes to the slot of an entry
ahead, a signal and a preemption start at the current task, so later ticks write none of
them.
-/

namespace PbsLevel2

open Lib

/-- The entries `past` were passed, and are as they were then. -/
structure Records (past : List PbsTask) (p : PbsPlan) : Prop where
  owned : Owned p
  past : past <+: p.doneTasks

section Records

variable {past : List PbsTask} {p q : PbsPlan} {done todo tail todo' tail' more : List PbsTask}

theorem Records.of_done (h : Records past p) (hq : Owned q) (hl : Layout p done todo tail)
    (hl' : Layout q (done ++ more) todo' tail') : Records past q := by
  refine ⟨hq, ?_⟩
  rw [hl'.doneTasks_eq, ← hl.doneTasks_eq]
  exact h.past.trans (List.prefix_append _ _)

theorem Records.of_same (h : Records past p) (hq : Owned q) (hl : Layout p done todo tail)
    (hl' : Layout q done todo' tail') : Records past q :=
  h.of_done hq hl (show Layout q (done ++ []) todo' tail' by rwa [List.append_nil])

theorem kept_records (past : List PbsTask) : Kept (fun _ => True) (Records past) where
  congr := by
    intro p q hsame h
    refine ⟨kept_owned.congr hsame h.owned, ?_⟩
    rw [PbsPlan.doneTasks, hsame.tasks, hsame.indexCurTask]
    exact h.past
  credit := by
    intro p q done rest tail cur r hv hcur hr hq h
    obtain ⟨_, _, _, _, _, _, _, hvq⟩ := h.owned.placed_credit hv.toPlaced hr hq
    exact h.of_same (kept_owned.credit hv hcur hr hq h.owned) hv.toLayout hvq.toLayout
  signal := fun hv hi h =>
    h.of_same (kept_owned.signal hv hi h.owned) hv.toLayout (hv.rescheduled _ _).toLayout
  finish := fun hv hcur hi hF h =>
    h.of_done (kept_owned.finish hv hcur hi hF h.owned) hv.toLayout (hv.booked _).passed.toLayout
  skip := fun hv hfree h =>
    h.of_done (kept_owned.skip hv hfree h.owned) hv.toLayout hv.passed.toLayout
  bump := fun hv hcur h =>
    h.of_same (kept_owned.bump hv hcur h.owned) hv.toLayout hv.bumped.toLayout
  rotate := fun hv hcur hrun hc h =>
    h.of_same (kept_owned.rotate hv hcur hrun hc h.owned) hv.toLayout
      (hv.rotated hcur hc).toLayout

end Records

/-- What was passed in a state of a run is the same in every later state. -/
theorem history_frozen {text : List Char} {b : Build} {pmu : Nat → Int} {s t u : System}
    {j k : Nat} (hparse : parsePlan text zeroedPlan = .ok s.plan)
    (hadmissible : Admissible s.plan) (hdistinct : DistinctIds s.plan) (hpmu : ∀ k, 0 ≤ pmu k)
    (hjk : j ≤ k) (ht : runTicks b pmu s j = .ok t) (hu : runTicks b pmu s k = .ok u) :
    t.plan.indexCurTask ≤ u.plan.indexCurTask ∧
      u.plan.tasks.toList.take t.plan.indexCurTask =
        t.plan.tasks.toList.take t.plan.indexCurTask := by
  have hparsed := parsePlan_parsed hparse
  obtain ⟨a, ⟨done, todo, tail, hv, ha, howned⟩, hhead, _⟩ := kept_owned.reached hparse
    hadmissible hpmu (hparsed.owned hadmissible.entries hdistinct) ht
  have hlater : runTicks b (fun i => pmu (j + i)) t (k - j) = .ok u := by
    rw [runTicks, ← run_add ht, Nat.add_sub_cancel' hjk]
    exact hu
  obtain ⟨_, ⟨done', todo', tail', hv', _, hrecords⟩, _⟩ :=
    (kept_records t.plan.doneTasks).run (fun i => hpmu (j + i))
      ⟨done, todo, tail, hv, ha, howned, List.prefix_refl _⟩ hhead
      (fun _ _ _ _ _ _ _ _ _ => trivial)
      (fun _ _ _ p _ _ => allowedAt_any p) hlater
  have hpast := hrecords.past
  rw [hv.toLayout.doneTasks_eq, hv'.toLayout.doneTasks_eq] at hpast
  constructor
  · rw [hv.index, hv'.index]
    exact hpast.length_le
  · obtain ⟨more, rfl⟩ := hpast
    rw [hv.index, hv.tasks, hv'.tasks, List.append_assoc, List.take_left, List.take_left]

set_option maxRecDepth 4000 in
/-- Task 1 has finished when task 0 goes on in the slot of task 2. -/
theorem history_frozen_moved :
    ∃ p t u, parsePlan "2;0,0;1,0;;;0,0,2,90000000;1,1,2,2;0,2,2,2;".toList zeroedPlan = .ok p ∧
      runTicks .userland everyTick ⟨p, zeroedSignals⟩ 5 = .ok t ∧
      runTicks .userland everyTick ⟨p, zeroedSignals⟩ 8 = .ok u ∧ t.plan.indexCurTask = 1 ∧
      u.plan.tasks.toList.take t.plan.indexCurTask =
        t.plan.tasks.toList.take t.plan.indexCurTask := by
  obtain ⟨p, u, hp, hu, hcheck⟩ :=
    @of_onRun .userland "2;0,0;1,0;;;0,0,2,90000000;1,1,2,2;0,2,2,2;".toList everyTick 8
      (fun p _ => decide (Admissible p ∧ DistinctIds p)) (by decide +kernel)
  obtain ⟨p', t, hp', ht, hindex⟩ :=
    @of_onRun .userland "2;0,0;1,0;;;0,0,2,90000000;1,1,2,2;0,2,2,2;".toList everyTick 5
      (fun _ t => decide (t.plan.indexCurTask = 1)) (by decide +kernel)
  obtain rfl := Except.ok.inj (hp.symm.trans hp')
  simp only [decide_eq_true_eq] at hcheck hindex
  exact ⟨p, t, u, hp, ht, hu, hindex, (history_frozen (s := ⟨p, zeroedSignals⟩) hp hcheck.1
    hcheck.2 everyTick_nonneg (by decide) ht hu).2⟩

end PbsLevel2

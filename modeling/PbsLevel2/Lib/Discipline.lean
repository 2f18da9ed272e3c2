import PbsLevel2.Lib.Agenda
import PbsLevel2.Lib.Run
import Mathlib.Data.List.TakeWhile

/-!
# Queue disciplines

The jobs of several clients wait in one queue, and the front is served until it has finished.  A
front that takes too long gives way to the jobs of the other clients, up to the next job of its own
client; if there is none, it is given up.
-/

namespace PbsLevel2.Lib

/-- The rules of a queue: who is whose client, which jobs are gaps, and what happens to a job that
is served, that is held up, that moves in front of another one or that is given up. -/
structure Discipline (ι α κ : Type) where
  client : α → κ
  idle : α → Bool
  mates : α → α → Bool
  serve : ι → α → α
  finished : α → Bool
  yield : α → α
  settle : α → α → α
  giveUp : α → α

namespace Discipline

variable {ι α κ : Type} (d : Discipline ι α κ)

/-- A gap at the front is passed. -/
def skipIdle : Agenda α → Agenda α
  | ⟨done, []⟩ => ⟨done, []⟩
  | ⟨done, a :: rest⟩ => if d.idle a then ⟨done ++ [a], rest⟩ else ⟨done, a :: rest⟩

section Gaps

variable {d} {a : α} {done rest todo : List α}

theorem skipIdle_idle (h : d.idle a) : d.skipIdle ⟨done, a :: rest⟩ = ⟨done ++ [a], rest⟩ :=
  if_pos h

theorem skipIdle_busy (h : ∀ u ∈ todo.head?, ¬ d.idle u) :
    d.skipIdle ⟨done, todo⟩ = ⟨done, todo⟩ := by
  cases todo with
  | nil => rfl
  | cons u todo => exact if_neg (h u rfl)

theorem jobs_pass : Agenda.jobs ⟨done ++ [a], rest⟩ = Agenda.jobs ⟨done, a :: rest⟩ :=
  List.append_assoc done [a] rest

theorem jobs_skipIdle (q : Agenda α) : (d.skipIdle q).jobs = q.jobs := by
  obtain ⟨done, _ | ⟨a, rest⟩⟩ := q
  · rfl
  · by_cases h : d.idle a
    · rw [skipIdle_idle h, jobs_pass]
    · rw [skipIdle_busy (by rintro u ⟨⟩; exact h)]

end Gaps

variable [DecidableEq κ]

/-- The queue `a :: l` once its front, and the mates directly behind it, stand in front of the next
job of their client behind jobs of others; `none` when there is no such job. -/
def giveWay (a : α) (l : List α) : Option (List α) :=
  let own := l.takeWhile fun u => d.client u = d.client a
  let behind := l.dropWhile fun u => d.client u = d.client a
  let others := behind.takeWhile fun u => d.client u ≠ d.client a
  match behind.dropWhile fun u => d.client u ≠ d.client a with
  | [] => none
  | f :: post =>
      some (own.dropWhile (d.mates a) ++ others ++
        ((a :: own.takeWhile (d.mates a)).map (d.settle f) ++ f :: post))

/-- The front is served; `overrun` says that it takes too long. -/
def step (r : ι) (overrun : Bool) : Agenda α → Agenda α
  | ⟨done, []⟩ => ⟨done, []⟩
  | ⟨done, a :: rest⟩ =>
      let a := d.serve r a
      if d.finished a then d.skipIdle ⟨done ++ [a], rest⟩
      else if overrun then
        match d.giveWay (d.yield a) rest with
        | some todo => d.skipIdle ⟨done, todo⟩
        | none => ⟨done, d.giveUp (d.yield a) :: rest⟩
      else ⟨done, a :: rest⟩

/-- The queue after `k` steps. -/
def run (serving : Nat → ι) (overruns : Nat → Bool) (a : Agenda α) : Nat → Agenda α
  | 0 => a
  | k + 1 => d.step (serving k) (overruns k) (run serving overruns a k)

variable {d} {a f : α} {l m done rest todo blk keep others post : List α} {r : ι}

/-! ## Giving way -/

theorem split_while {p : α → Bool} (hl : ∀ u ∈ l, p u) (hm : ∀ u ∈ m.head?, ¬ p u) :
    (l ++ m).takeWhile p = l ∧ (l ++ m).dropWhile p = m := by
  rw [List.takeWhile_append_of_pos hl, List.dropWhile_append_of_pos hl]
  cases m with
  | nil => exact ⟨List.append_nil l, rfl⟩
  | cons u m =>
      have hu : ¬ p u := hm u rfl
      rw [List.takeWhile_cons_of_neg hu, List.dropWhile_cons_of_neg hu]
      exact ⟨List.append_nil l, rfl⟩

theorem giveWay_eq_some (hown : ∀ u ∈ blk ++ keep, d.client u = d.client a)
    (hothers : ∀ u ∈ others, d.client u ≠ d.client a) (hne : others ≠ [])
    (hf : d.client f = d.client a) (hmates : ∀ u ∈ blk, d.mates a u)
    (hkeep : ∀ u ∈ keep.head?, ¬ d.mates a u) :
    d.giveWay a (blk ++ keep ++ (others ++ f :: post)) =
      some (keep ++ others ++ ((a :: blk).map (d.settle f) ++ f :: post)) := by
  obtain ⟨o, os, rfl⟩ := List.exists_cons_of_ne_nil hne
  have hrun := split_while (p := fun u => d.client u = d.client a) (l := blk ++ keep)
    (m := o :: os ++ f :: post) (fun u hu => decide_eq_true (hown u hu)) (by
      rintro u ⟨⟩
      simpa using hothers o (by simp))
  have hgap := split_while (p := fun u => d.client u ≠ d.client a) (l := o :: os)
    (m := f :: post) (fun u hu => decide_eq_true (hothers u hu)) (by
      rintro u ⟨⟩
      simpa using hf)
  obtain ⟨htake, hdrop⟩ := split_while hmates hkeep
  unfold giveWay
  dsimp only
  rw [hrun.1, hrun.2, hgap.1, hgap.2, htake, hdrop]

theorem giveWay_eq_none {own : List α} (hown : ∀ u ∈ own, d.client u = d.client a)
    (hothers : ∀ u ∈ others, d.client u ≠ d.client a) : d.giveWay a (own ++ others) = none := by
  have hrun := split_while (p := fun u => d.client u = d.client a) (l := own) (m := others)
    (fun u hu => decide_eq_true (hown u hu)) (fun u hu => by
      simpa using hothers u (List.mem_of_mem_head? hu))
  have hgap : others.dropWhile (fun u => d.client u ≠ d.client a) = [] :=
    List.dropWhile_eq_nil_iff.2 fun u hu => decide_eq_true (hothers u hu)
  unfold giveWay
  dsimp only
  rw [hrun.2, hgap]

theorem giveWay_cases (h : d.giveWay a l = some todo) : ∃ blk keep others f post,
    l = blk ++ (keep ++ (others ++ f :: post)) ∧ (∀ u ∈ blk, d.client u = d.client a) ∧
      d.client f = d.client a ∧ (∃ u ∈ others, d.client u ≠ d.client a) ∧
      todo = keep ++ others ++ ((a :: blk).map (d.settle f) ++ f :: post) := by
  unfold giveWay at h
  dsimp only at h
  split at h
  · cases h
  · rename_i f post hpost
    obtain rfl := Option.some.inj h
    have hf : d.client f = d.client a := by
      have hhead := List.head?_dropWhile_not (fun u => decide (d.client u ≠ d.client a))
        (l.dropWhile fun u => d.client u = d.client a)
      rw [hpost] at hhead
      simpa using hhead
    refine ⟨_, _, _, f, post, ?_, ?_, hf, ?_, rfl⟩
    · rw [← hpost, List.takeWhile_append_dropWhile, ← List.append_assoc,
        List.takeWhile_append_dropWhile, List.takeWhile_append_dropWhile]
    · intro u hu
      have hown := List.mem_takeWhile_imp (List.takeWhile_subset _ hu)
      exact of_decide_eq_true hown
    · have hhead := List.head?_dropWhile_not (fun u => decide (d.client u = d.client a)) l
      cases hbehind : l.dropWhile fun u => d.client u = d.client a with
      | nil =>
          rw [hbehind] at hpost
          cases hpost
      | cons u behind =>
          rw [hbehind] at hhead
          have hu : d.client u ≠ d.client a := by simpa using hhead
          exact ⟨u, by simp [hu], hu⟩

/-! ## Steps -/

theorem step_finished {overrun : Bool} (h : d.finished (d.serve r a)) :
    d.step r overrun ⟨done, a :: rest⟩ = d.skipIdle ⟨done ++ [d.serve r a], rest⟩ :=
  if_pos h

theorem step_waited (h : ¬ d.finished (d.serve r a)) :
    d.step r false ⟨done, a :: rest⟩ = ⟨done, d.serve r a :: rest⟩ := by
  unfold step
  dsimp only
  rw [if_neg h, if_neg Bool.false_ne_true]

theorem step_gaveWay (h : ¬ d.finished (d.serve r a))
    (hway : d.giveWay (d.yield (d.serve r a)) rest = some todo) :
    d.step r true ⟨done, a :: rest⟩ = d.skipIdle ⟨done, todo⟩ := by
  unfold step
  dsimp only
  rw [if_neg h, if_pos rfl, hway]

theorem step_gaveUp (h : ¬ d.finished (d.serve r a))
    (hway : d.giveWay (d.yield (d.serve r a)) rest = none) :
    d.step r true ⟨done, a :: rest⟩ = ⟨done, d.giveUp (d.yield (d.serve r a)) :: rest⟩ := by
  unfold step
  dsimp only
  rw [if_neg h, if_pos rfl, hway]

/-- A run whose steps look like those of the discipline looks like a run of the discipline. -/
theorem run_refines {ε σ : Type} {step : Nat → σ → Except ε σ} {view : σ → Agenda α}
    {serving : Nat → ι} {overruns : Nat → Bool} {s : σ}
    (hstep : ∀ j t u, Lib.run step s j = .ok t → step j t = .ok u →
      view u = d.step (serving j) (overruns j) (view t)) {k : Nat} {t : σ}
    (ht : Lib.run step s k = .ok t) : view t = d.run serving overruns (view s) k := by
  induction k generalizing t with
  | zero => exact congrArg view (Except.ok.inj ht).symm
  | succ k ih =>
      obtain ⟨u, hu, hut⟩ := run_succ_eq_ok.1 ht
      rw [hstep k u t hu hut, ih hu]
      rfl

end Discipline

end PbsLevel2.Lib

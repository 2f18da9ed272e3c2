import PbsLevel2.Lib.Overtaking

/-!
# Comebacks

A list comes back to a client where a job of his stands behind one of somebody else.  A job that
gives way is put in front of the next comeback to its client, so it gives way no more often than
there are comebacks behind it.
-/

namespace PbsLevel2.Lib

section Lists

variable {β κ : Type} [DecidableEq κ] {c k u : κ} {l m n : List κ}

/-- How often the list `u :: l` of clients comes back to `c`. -/
def comebacks (c : κ) : κ → List κ → Nat
  | _, [] => 0
  | u, v :: l => (if u ≠ c ∧ v = c then 1 else 0) + comebacks c v l

theorem comebacks_cons (c u v : κ) (l : List κ) :
    comebacks c u (v :: l) = (if u ≠ c ∧ v = c then 1 else 0) + comebacks c v l :=
  rfl

theorem comebacks_stay (c v : κ) (l : List κ) : comebacks c v (v :: l) = comebacks c v l := by
  rw [comebacks_cons, if_neg (by tauto), Nat.zero_add]

theorem comebacks_le_cons (c u v : κ) (l : List κ) : comebacks c u l ≤ comebacks c u (v :: l) := by
  cases l with
  | nil => exact Nat.zero_le _
  | cons w l =>
      rw [comebacks_cons, comebacks_cons, comebacks_cons]
      by_cases hw : w = c
      · by_cases hv : v = c <;> by_cases hu : u = c <;> simp [hu, hv, hw]
      · simp [hw]

theorem comebacks_le_of_sublist (h : l.Sublist m) (c u : κ) :
    comebacks c u l ≤ comebacks c u m := by
  induction h generalizing u with
  | slnil => exact le_rfl
  | cons v _ ih => exact (ih u).trans (comebacks_le_cons c u v _)
  | cons_cons v _ ih =>
      rw [comebacks_cons, comebacks_cons]
      exact Nat.add_le_add_left (ih v) _

theorem comebacks_block (hl : ∀ v ∈ l, v = k) :
    comebacks c u (l ++ k :: n) = comebacks c u (k :: n) := by
  induction l generalizing u with
  | nil => rfl
  | cons v l ih =>
      obtain rfl : v = k := hl v List.mem_cons_self
      rw [List.cons_append, comebacks_cons, ih fun w hw => hl w (List.mem_cons_of_mem _ hw),
        comebacks_stay, comebacks_cons]

theorem comebacks_append_block (m : List κ) (hl : ∀ v ∈ l, v = k) :
    comebacks c u (m ++ (l ++ k :: n)) = comebacks c u (m ++ k :: n) := by
  induction m generalizing u with
  | nil => exact comebacks_block hl
  | cons v m ih => rw [List.cons_append, comebacks_cons, ih, List.cons_append, comebacks_cons]

/-- A block of one client that moves in front of one of his jobs adds no comeback. -/
theorem comebacks_move (m : List κ) {gap : List κ} (hl : ∀ v ∈ l, v = k) :
    comebacks c u (m ++ (gap ++ (k :: l ++ k :: n))) ≤
      comebacks c u (m ++ (k :: l ++ (gap ++ k :: n))) := by
  rw [← List.append_assoc m, comebacks_append_block _ (List.forall_mem_cons.2 ⟨rfl, hl⟩),
    List.append_assoc]
  exact comebacks_le_of_sublist ((List.sublist_append_right _ _).append_left m) c u

theorem comebacks_gap (n : List κ) (hl : ∀ v ∈ l, v = k) (hgap : ∃ v ∈ m, v ≠ k) :
    comebacks k k (l ++ k :: n) + 1 ≤ comebacks k k (l ++ (m ++ k :: n)) := by
  obtain ⟨v, hmem, hv⟩ := hgap
  have hsub : (v :: k :: n).Sublist (l ++ (m ++ k :: n)) :=
    ((List.singleton_sublist.2 hmem).append (List.Sublist.refl (k :: n))).trans
      (List.sublist_append_right l _)
  have hle := comebacks_le_of_sublist hsub k k
  rw [comebacks_cons, comebacks_cons, if_neg (by tauto), if_pos ⟨hv, rfl⟩] at hle
  rw [comebacks_block hl, comebacks_stay]
  omega

/-! ## Lists of jobs -/

/-- A list of keys, clients and counts holds the key `x` of client `c`, and `n` is its count with
the comebacks behind it. -/
def Allots (x : β) (c : κ) (n : Int) (l : List (β × κ × Int)) : Prop :=
  ∃ before v behind, l = before ++ (x, c, v) :: behind ∧
    n = v + comebacks c c (behind.map fun e => e.2.1)

/-- From `m` to `l` no count grew by more than the comebacks behind it dwindled. -/
def NoneFavoured (l m : List (β × κ × Int)) : Prop :=
  ∀ x c n, Allots x c n l → ∃ n', Allots x c n' m ∧ n ≤ n'

namespace NoneFavoured

variable {l m n rest done gap blk : List (β × κ × Int)} {f : β × κ × Int} {x : β} {v w : Int}

theorem refl (l : List (β × κ × Int)) : NoneFavoured l l :=
  fun _ _ n h => ⟨n, h, le_rfl⟩

theorem trans (hlm : NoneFavoured l m) (hmn : NoneFavoured m n) : NoneFavoured l n := by
  intro x c i h
  obtain ⟨i', h', hle⟩ := hlm x c i h
  obtain ⟨i'', h'', hle'⟩ := hmn x c i' h'
  exact ⟨i'', h'', hle.trans hle'⟩

theorem front (hle : w ≤ v) :
    NoneFavoured (done ++ (x, k, w) :: rest) (done ++ (x, k, v) :: rest) := by
  rintro y c _ ⟨before, i, behind, hsplit, rfl⟩
  rcases append_eq_split.1 hsplit with ⟨l, rfl, rfl⟩ | ⟨_ | ⟨e, l⟩, rfl, hrest⟩
  · refine ⟨_, ⟨before, i, l ++ (x, k, v) :: rest, by simp, rfl⟩, ?_⟩
    rw [List.map_append, List.map_append, List.map_cons, List.map_cons]
  · obtain ⟨he, rfl⟩ := List.cons.inj hrest
    cases he
    exact ⟨_, ⟨done, v, rest, rfl, rfl⟩, by omega⟩
  · obtain ⟨rfl, rfl⟩ := List.cons.inj hrest
    exact ⟨_, ⟨done ++ (x, k, v) :: l, i, behind, by simp, rfl⟩, le_rfl⟩

theorem move (hblk : ∀ e ∈ blk, e.2.1 = f.2.1) (hgap : ∃ e ∈ gap, e.2.1 ≠ f.2.1) (x : β) (v : Int)
    (done post : List (β × κ × Int)) :
    NoneFavoured (done ++ (gap ++ ((x, f.2.1, v + 1) :: blk ++ f :: post)))
      (done ++ ((x, f.2.1, v) :: blk ++ (gap ++ f :: post))) := by
  have hblock : ∀ u ∈ blk.map fun e => e.2.1, u = f.2.1 := by
    intro u hu
    obtain ⟨e, he, rfl⟩ := List.mem_map.1 hu
    exact hblk e he
  have hback : ∃ u ∈ gap.map fun e => e.2.1, u ≠ f.2.1 := by
    obtain ⟨e, he, hne⟩ := hgap
    exact ⟨_, List.mem_map_of_mem he, hne⟩
  rintro y c _ ⟨before, i, behind, hsplit, rfl⟩
  rcases append_eq_split.1 hsplit with ⟨l, rfl, rfl⟩ | ⟨b, rfl, hgapped⟩
  · refine ⟨_, ⟨before, i, l ++ ((x, f.2.1, v) :: blk ++ (gap ++ f :: post)), by simp, rfl⟩, ?_⟩
    simp only [List.map_append, List.map_cons]
    exact Int.add_le_add_left (Int.ofNat_le.2 (comebacks_move _ hblock)) i
  rcases append_eq_split.1 hgapped with ⟨l, rfl, rfl⟩ | ⟨b, rfl, hmoved⟩
  · refine ⟨_, ⟨done ++ ((x, f.2.1, v) :: blk ++ b), i, l ++ f :: post, by simp, rfl⟩, ?_⟩
    simp only [List.map_append, List.map_cons]
    rw [comebacks_append_block _ (List.forall_mem_cons.2 ⟨rfl, hblock⟩)]
  rcases append_eq_split.1 hmoved with ⟨l, hstack, rfl⟩ | ⟨b, rfl, hpost⟩
  · cases b with
    | nil =>
        obtain ⟨he, rfl⟩ := List.cons.inj hstack
        cases he
        refine ⟨_, ⟨done, v, blk ++ (gap ++ f :: post), by simp, rfl⟩, ?_⟩
        simp only [List.map_append, List.map_cons]
        have hle := comebacks_gap (post.map fun e => e.2.1) hblock hback
        omega
    | cons e b =>
        obtain ⟨rfl, rfl⟩ := List.cons.inj hstack
        refine ⟨_, ⟨done ++ (x, f.2.1, v) :: b, i, l ++ (gap ++ f :: post), by simp, rfl⟩, ?_⟩
        simp only [List.map_append, List.map_cons]
        have hsub := (List.sublist_append_right (gap.map fun e => e.2.1)
          (f.2.1 :: post.map fun e => e.2.1)).append_left (l.map fun e => e.2.1)
        exact Int.add_le_add_left (Int.ofNat_le.2 (comebacks_le_of_sublist hsub c c)) i
  · rw [hpost]
    exact ⟨_, ⟨done ++ ((x, f.2.1, v) :: blk ++ (gap ++ b)), i, behind, by simp, rfl⟩, le_rfl⟩

end NoneFavoured

end Lists

/-! ## Queues -/

namespace Discipline

variable {ι α β κ : Type} {d : Discipline ι α κ} {key : α → β} {used : α → Int} {r : ι} {a b f : α}
  {done rest todo : List α} {q : Agenda α}

/-- The keys and clients of the jobs of a queue, with a count for each. -/
def allotments (d : Discipline ι α κ) (key : α → β) (used : α → Int) (q : Agenda α) :
    List (β × κ × Int) :=
  q.jobs.map fun a => (key a, d.client a, used a)

/-- Giving way is counted once, and what else is done to a job is not. -/
structure CountsYields (d : Discipline ι α κ) (r : ι) (key : α → β) (used : α → Int) : Prop where
  serve : ∀ a, key (d.serve r a) = key a ∧ d.client (d.serve r a) = d.client a ∧
    used (d.serve r a) ≤ used a
  yield : ∀ a, key (d.yield a) = key a ∧ d.client (d.yield a) = d.client a ∧
    used (d.yield a) = used a + 1
  settle : ∀ f a, key (d.settle f a) = key a ∧ d.client (d.settle f a) = d.client a ∧
    used (d.settle f a) = used a
  giveUp : ∀ a, ¬ d.finished a → key (d.giveUp (d.yield a)) = key a ∧
    d.client (d.giveUp (d.yield a)) = d.client a ∧ used (d.giveUp (d.yield a)) ≤ used a

theorem allotments_skipIdle (q : Agenda α) :
    allotments d key used (d.skipIdle q) = allotments d key used q := by
  rw [allotments, jobs_skipIdle, allotments]

theorem allotments_pass : allotments d key used ⟨done ++ [a], rest⟩ =
    allotments d key used ⟨done, a :: rest⟩ := by
  rw [allotments, jobs_pass, allotments]

variable [DecidableEq κ]

theorem allotments_noneFavoured_front
    (h : key b = key a ∧ d.client b = d.client a ∧ used b ≤ used a) :
    NoneFavoured (allotments d key used ⟨done, b :: rest⟩)
      (allotments d key used ⟨done, a :: rest⟩) := by
  obtain ⟨hkey, hclient, hle⟩ := h
  unfold allotments Agenda.jobs
  rw [List.map_append, List.map_append, List.map_cons, List.map_cons, hkey, hclient]
  exact .front hle

theorem giveWay_noneFavoured (hc : d.CountsYields r key used)
    (h : d.giveWay (d.yield a) rest = some todo) :
    NoneFavoured (allotments d key used ⟨done, todo⟩)
      (allotments d key used ⟨done, a :: rest⟩) := by
  obtain ⟨blk, keep, others, f, post, rfl, hblk, hf, ⟨o, ho, hne⟩, rfl⟩ := giveWay_cases h
  obtain ⟨hkey, hclient, hcount⟩ := hc.yield a
  obtain ⟨hkey', hclient', hcount'⟩ := hc.settle f (d.yield a)
  have hfront : (key (d.settle f (d.yield a)), d.client (d.settle f (d.yield a)),
      used (d.settle f (d.yield a))) = (key a, d.client f, used a + 1) := by
    rw [hkey', hkey, hclient', hf, hcount', hcount]
  have hsettled : (blk.map (d.settle f)).map (fun u => (key u, d.client u, used u)) =
      blk.map fun u => (key u, d.client u, used u) := by
    rw [List.map_map]
    refine List.map_congr_left fun u _ => ?_
    obtain ⟨hu, hu', hu''⟩ := hc.settle f u
    exact Prod.ext hu (Prod.ext hu' hu'')
  have hown : ∀ e ∈ blk.map fun u => (key u, d.client u, used u), e.2.1 = d.client f := by
    intro e he
    obtain ⟨u, hu, rfl⟩ := List.mem_map.1 he
    exact (hblk u hu).trans hf.symm
  have hgap : ∃ e ∈ (keep ++ others).map fun u => (key u, d.client u, used u),
      e.2.1 ≠ d.client f :=
    ⟨_, List.mem_map_of_mem (List.mem_append_right _ ho), fun heq => hne (heq.trans hf)⟩
  have hmove := NoneFavoured.move (f := (key f, d.client f, used f)) hown hgap (key a) (used a)
    (done.map fun u => (key u, d.client u, used u)) (post.map fun u => (key u, d.client u, used u))
  unfold allotments Agenda.jobs
  simpa [hfront, hsettled, hf, hclient, Function.comp_def] using hmove

/-- No job gives way more often than it loses a comeback behind it. -/
theorem step_noneFavoured (hc : d.CountsYields r key used) {overrun : Bool} :
    NoneFavoured (allotments d key used (d.step r overrun q)) (allotments d key used q) := by
  obtain ⟨done, _ | ⟨a, rest⟩⟩ := q
  · exact .refl _
  · refine NoneFavoured.trans ?_ (allotments_noneFavoured_front (hc.serve a))
    by_cases hlast : d.finished (d.serve r a)
    · rw [step_finished hlast, allotments_skipIdle, allotments_pass]
      exact .refl _
    · cases overrun with
      | false =>
          rw [step_waited hlast]
          exact .refl _
      | true =>
          cases hway : d.giveWay (d.yield (d.serve r a)) rest with
          | none =>
              rw [step_gaveUp hlast hway]
              exact allotments_noneFavoured_front (hc.giveUp _ hlast)
          | some todo =>
              rw [step_gaveWay hlast hway, allotments_skipIdle]
              exact giveWay_noneFavoured hc hway

end Discipline

end PbsLevel2.Lib

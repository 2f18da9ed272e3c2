import Mathlib.Data.List.TakeWhile

/-!
# Partners in the same run

A run of a list is a stretch of entries with the same key.  `Nearby key R l`: every entry has a
partner at its own place or behind it in its run.  `behindRun key l` is what follows the run at
the front.
-/

namespace PbsLevel2.Lib

variable {α β κ : Type} [DecidableEq κ] {key : α → κ} {R : α → α → Prop} {l m : List α} {a o : α}

def Nearby (key : α → κ) (R : α → α → Prop) : List α → Prop
  | [] => True
  | a :: l => (∃ o ∈ a :: l.takeWhile (key · = key a), R a o) ∧ Nearby key R l

def behindRun (key : α → κ) : List α → List α
  | [] => []
  | a :: l => l.dropWhile (key · = key a)

namespace Nearby

@[simp] theorem nil : Nearby key R [] := trivial

theorem cons_iff : Nearby key R (a :: l) ↔
    (∃ o ∈ a :: l.takeWhile (key · = key a), R a o) ∧ Nearby key R l :=
  Iff.rfl

theorem suffix (h : Nearby key R (l ++ m)) : Nearby key R m := by
  induction l with
  | nil => exact h
  | cons a l ih => exact ih h.2

theorem of_self (h : ∀ a ∈ l, R a a) : Nearby key R l := by
  induction l with
  | nil => trivial
  | cons a l ih => exact ⟨⟨a, by simp, h a (by simp)⟩, ih fun b hb => h b (by simp [hb])⟩

/-- Where the key changes between `a :: l` and `m`, the run of `a` does not reach into `m`. -/
theorem takeWhile_border (hborder : ∀ x ∈ (a :: l).getLast?, ∀ b ∈ m.head?, key x ≠ key b) :
    (l ++ m).takeWhile (key · = key a) = l.takeWhile (key · = key a) := by
  rw [List.takeWhile_append]
  split
  · rename_i hlen
    have hall := (List.takeWhile_sublist (key · = key a)).eq_of_length hlen
    rw [hall]
    cases m with
    | nil => simp
    | cons b m =>
        have hlast : key ((a :: l).getLast (by simp)) = key a := by
          rcases List.mem_cons.1 (List.getLast_mem (show a :: l ≠ [] by simp)) with heq | hmem
          · rw [heq]
          · simpa using List.takeWhile_eq_self_iff.1 hall _ hmem
        have hne := hborder _ (List.getLast?_eq_some_getLast (by simp)) b rfl
        rw [List.takeWhile_cons_of_neg, List.append_nil]
        rw [decide_eq_true_eq, ← hlast]
        exact hne.symm
  · rfl

theorem append_iff (hborder : ∀ a ∈ l.getLast?, ∀ b ∈ m.head?, key a ≠ key b) :
    Nearby key R (l ++ m) ↔ Nearby key R l ∧ Nearby key R m := by
  induction l with
  | nil => simp
  | cons a l ih =>
      have hrest : ∀ x ∈ l.getLast?, ∀ b ∈ m.head?, key x ≠ key b := by
        intro x hx
        refine hborder x ?_
        rw [List.getLast?_cons]
        rw [Option.mem_def] at hx
        rw [hx]
        rfl
      rw [List.cons_append, cons_iff, cons_iff, ih hrest, takeWhile_border hborder, and_assoc]

theorem of_common (h : ∀ a ∈ l, key a = key o ∧ R a o) (hm : Nearby key R (o :: m)) :
    Nearby key R (l ++ o :: m) := by
  induction l with
  | nil => exact hm
  | cons a l ih =>
      have hrest : ∀ x ∈ l, key x = key o ∧ R x o := fun x hx => h x (by simp [hx])
      obtain ⟨hkey, hpartner⟩ := h a (by simp)
      refine ⟨⟨o, ?_, hpartner⟩, ih hrest⟩
      have hrun : ∀ x ∈ l, decide (key x = key a) = true := fun x hx => by
        rw [decide_eq_true_eq, (hrest x hx).1, hkey]
      change o ∈ a :: (l ++ o :: m).takeWhile _
      rw [List.takeWhile_append_of_pos hrun, List.takeWhile_cons_of_pos (by simp [hkey])]
      simp

theorem run_to_partner {pre post : List α} (h : Nearby key R (a :: l))
    (hsplit : a :: l = pre ++ o :: post) (hothers : ∀ x ∈ pre ++ post, ¬ R a x) :
    ∀ x ∈ pre ++ [o], key x = key a := by
  obtain ⟨⟨x, hx, hpartner⟩, _⟩ := h
  have hrun : ∀ y ∈ a :: l.takeWhile (key · = key a), key y = key a := by
    intro y hy
    rcases List.mem_cons.1 hy with rfl | hy
    · rfl
    · simpa using List.mem_takeWhile_imp hy
  have hcut : (a :: l.takeWhile (key · = key a)) ++ l.dropWhile (key · = key a) =
      pre ++ o :: post := by
    rw [List.cons_append, List.takeWhile_append_dropWhile, hsplit]
  rcases List.append_eq_append_iff.1 hcut with ⟨more, hpre, _⟩ | ⟨more, hrunEq, hmore⟩
  · refine absurd hpartner (hothers x ?_)
    rw [hpre]
    simp only [List.mem_append]
    exact .inl (.inl hx)
  · cases more with
    | nil =>
        rw [List.append_nil] at hrunEq
        exact absurd hpartner (hothers x (List.mem_append_left _ (hrunEq ▸ hx)))
    | cons y more =>
        obtain ⟨rfl, _⟩ := List.cons.inj hmore
        intro z hz
        apply hrun z
        rw [hrunEq]
        rcases List.mem_append.1 hz with hz | hz
        · simp [hz]
        · simp [List.mem_singleton.1 hz]

theorem map_iff {g : α → β} {key : β → κ} {S : β → β → Prop} :
    Nearby key S (l.map g) ↔ Nearby (fun a => key (g a)) (fun a o => S (g a) (g o)) l := by
  induction l with
  | nil => simp
  | cons a l ih =>
      rw [List.map_cons, cons_iff, cons_iff, ih, List.takeWhile_map, ← List.map_cons]
      simp [Function.comp_def]

end Nearby

section BehindRun

theorem behindRun_subset : behindRun key l ⊆ l := by
  cases l with
  | nil => exact List.Subset.refl _
  | cons a l => exact fun x hx => List.mem_cons_of_mem a ((List.dropWhile_sublist _).subset hx)

theorem mem_behindRun_cons (h : o ∈ behindRun key l) : o ∈ behindRun key (a :: l) := by
  cases l with
  | nil => cases h
  | cons b l =>
      rw [behindRun]
      by_cases hkey : key b = key a
      · rw [List.dropWhile_cons_of_pos (by simpa using hkey)]
        rw [behindRun, hkey] at h
        exact h
      · rw [List.dropWhile_cons_of_neg (by simpa using hkey)]
        exact List.mem_cons_of_mem b ((List.dropWhile_sublist _).subset h)

theorem behindRun_append {k : κ} (h : ∀ a ∈ l, key a = k) (hl : l ≠ []) :
    behindRun key (l ++ m) = m.dropWhile (key · = k) := by
  cases l with
  | nil => exact absurd rfl hl
  | cons a l =>
      have ha : key a = k := h a (by simp)
      rw [List.cons_append, behindRun, ha,
        List.dropWhile_append_of_pos fun x hx => by simpa using h x (by simp [hx])]

theorem behindRun_map {g : α → β} {key : β → κ} :
    behindRun key (l.map g) = (behindRun (fun a => key (g a)) l).map g := by
  cases l with
  | nil => rfl
  | cons a l =>
      rw [List.map_cons, behindRun, behindRun, List.dropWhile_map]
      rfl

end BehindRun

end PbsLevel2.Lib

/-!
# Peaks

The first of the entries of a list whose value is the greatest, provided that it exceeds a
floor, and the scan from left to right that finds it.
-/

namespace PbsLevel2.Lib

variable {α : Type} {value : α → Int} {floor : Int} {l : List α} {a b : α}

/-- `best` is kept until an entry exceeds the floor, which rises to its value. -/
def peakFrom (value : α → Int) : Int → Option α → List α → Option α
  | _, best, [] => best
  | floor, best, a :: l =>
      if floor < value a then peakFrom value (value a) (some a) l
      else peakFrom value floor best l

/-- `a` exceeds the floor and all entries before it, and is exceeded by none behind it. -/
structure IsPeak (value : α → Int) (floor : Int) (l : List α) (a : α) : Prop where
  floor_lt : floor < value a
  split : ∃ before behind, l = before ++ a :: behind ∧ (∀ b ∈ before, value b < value a) ∧
    ∀ b ∈ behind, value b ≤ value a

namespace IsPeak

theorem mem (h : IsPeak value floor l a) : a ∈ l := by
  obtain ⟨before, behind, rfl, _⟩ := h.split
  simp

theorem le (h : IsPeak value floor l a) (hb : b ∈ l) : value b ≤ value a := by
  obtain ⟨before, behind, rfl, hbefore, hbehind⟩ := h.split
  rcases List.mem_append.1 hb with hb | hb
  · exact Int.le_of_lt (hbefore b hb)
  · rcases List.mem_cons.1 hb with rfl | hb
    · exact Int.le_refl _
    · exact hbehind b hb

theorem lt_of_key {key : α → Int} (h : IsPeak value floor l a)
    (hl : l.Pairwise fun x y => key x < key y) (hb : b ∈ l) (hkey : key b < key a) :
    value b < value a := by
  obtain ⟨before, behind, rfl, hbefore, _⟩ := h.split
  obtain ⟨_, hrest, _⟩ := List.pairwise_append.1 hl
  rcases List.mem_append.1 hb with hb | hb
  · exact hbefore b hb
  · rcases List.mem_cons.1 hb with rfl | hb
    · omega
    · have := (List.pairwise_cons.1 hrest).1 b hb
      omega

theorem cons_of_lt (h : IsPeak value (value b) l a) (hb : floor < value b) :
    IsPeak value floor (b :: l) a := by
  obtain ⟨before, behind, rfl, hbefore, hbehind⟩ := h.split
  refine ⟨Int.lt_trans hb h.floor_lt, b :: before, behind, rfl, ?_, hbehind⟩
  intro c hc
  rcases List.mem_cons.1 hc with rfl | hc
  · exact h.floor_lt
  · exact hbefore c hc

theorem cons_of_le (h : IsPeak value floor l a) (hb : value b ≤ floor) :
    IsPeak value floor (b :: l) a := by
  obtain ⟨before, behind, rfl, hbefore, hbehind⟩ := h.split
  refine ⟨h.floor_lt, b :: before, behind, rfl, ?_, hbehind⟩
  intro c hc
  rcases List.mem_cons.1 hc with rfl | hc
  · exact Int.lt_of_le_of_lt hb h.floor_lt
  · exact hbefore c hc

end IsPeak

/-- The scan ends with a peak, or leaves what it was given when there is none. -/
theorem peakFrom_cases (value : α → Int) (l : List α) (floor : Int) (best : Option α) :
    peakFrom value floor best l = best ∧ (∀ a ∈ l, value a ≤ floor) ∨
      ∃ a, peakFrom value floor best l = some a ∧ IsPeak value floor l a := by
  induction l generalizing floor best with
  | nil => exact .inl ⟨rfl, by simp⟩
  | cons b l ih =>
      rw [peakFrom]
      by_cases hb : floor < value b
      · right
        rw [if_pos hb]
        rcases ih (value b) (some b) with ⟨hbest, hnone⟩ | ⟨a, ha, hpeak⟩
        · exact ⟨b, hbest, hb, [], l, rfl, by simp, hnone⟩
        · exact ⟨a, ha, hpeak.cons_of_lt hb⟩
      · rw [if_neg hb]
        rcases ih floor best with ⟨hbest, hnone⟩ | ⟨a, ha, hpeak⟩
        · left
          refine ⟨hbest, fun a ha => ?_⟩
          rcases List.mem_cons.1 ha with rfl | ha
          · omega
          · exact hnone a ha
        · exact .inr ⟨a, ha, hpeak.cons_of_le (Int.not_lt.1 hb)⟩

end PbsLevel2.Lib

import Mathlib.Data.List.Basic
import Mathlib.Data.List.Perm.Basic

/-!
# Rings

A ring of `m` cells keeps the latest `m` entries of an unbounded history.  Its window
lists the cells from the one written last backwards; a write puts its entry in front of the
window and drops the last one.
-/

namespace PbsLevel2.Lib

variable {α : Type} {m : Nat}

/-- `position` is the cell written last. -/
@[ext]
structure Ring (α : Type) (m : Nat) where
  cells : Vector α m
  position : Nat
  position_lt : position < m

namespace Ring

/-- The position behind the current one. -/
def next (r : Ring α m) : Nat :=
  if r.position + 1 = m then 0 else r.position + 1

theorem next_lt (r : Ring α m) : r.next < m := by
  have hlt := r.position_lt
  unfold next
  split <;> omega

def write (r : Ring α m) (x : α) : Ring α m where
  cells := r.cells.set r.next x r.next_lt
  position := r.next
  position_lt := r.next_lt

/-- The cell written `k` writes before the latest one. -/
def back (r : Ring α m) (k : Nat) : Nat :=
  if k ≤ r.position then r.position - k else m + r.position - k

theorem back_lt (r : Ring α m) {k : Nat} (hk : k < m) : r.back k < m := by
  have hlt := r.position_lt
  unfold back
  split <;> omega

/-- The cells from the latest one backwards. -/
def window (r : Ring α m) : List α :=
  (r.cells.toList.take (r.position + 1)).reverse ++ (r.cells.toList.drop (r.position + 1)).reverse

theorem length_window (r : Ring α m) : r.window.length = m := by
  have hlt := r.position_lt
  simp only [window, List.length_append, List.length_reverse, List.length_take, List.length_drop,
    Vector.length_toList]
  omega

theorem window_perm (r : Ring α m) : r.window.Perm r.cells.toList := by
  have hperm := ((r.cells.toList.take (r.position + 1)).reverse_perm).append
    ((r.cells.toList.drop (r.position + 1)).reverse_perm)
  rwa [List.take_append_drop] at hperm

theorem window_getElem (r : Ring α m) {k : Nat} (hk : k < m) :
    r.window[k]? = r.cells.toList[r.back k]? := by
  have hlt := r.position_lt
  have hlen : (r.cells.toList.take (r.position + 1)).length = r.position + 1 := by
    rw [List.length_take, Vector.length_toList]
    omega
  have hlen' : (r.cells.toList.drop (r.position + 1)).length = m - (r.position + 1) := by
    rw [List.length_drop, Vector.length_toList]
  unfold window back
  by_cases hwrap : k ≤ r.position
  · rw [if_pos hwrap, List.getElem?_append_left (by rw [List.length_reverse]; omega),
      List.getElem?_reverse (by omega), hlen, List.getElem?_take_of_lt (by omega)]
    congr 1
  · rw [if_neg hwrap, List.getElem?_append_right (by rw [List.length_reverse]; omega),
      List.getElem?_reverse (by rw [List.length_reverse]; omega), List.length_reverse, hlen, hlen',
      List.getElem?_drop]
    congr 1
    omega

theorem write_cells (r : Ring α m) (x : α) :
    (r.write x).cells.toList = r.cells.toList.set r.next x :=
  Vector.toList_set r.next_lt

theorem window_write (r : Ring α m) (x : α) : (r.write x).window = x :: r.window.dropLast := by
  have hlt := r.position_lt
  have hlen : r.cells.toList.length = m := r.cells.length_toList
  unfold window
  rw [write_cells]
  change ((r.cells.toList.set r.next x).take (r.next + 1)).reverse ++
    ((r.cells.toList.set r.next x).drop (r.next + 1)).reverse = _
  rw [List.drop_set_of_lt (Nat.lt_succ_self r.next)]
  by_cases hwrap : r.position + 1 = m
  · have hnext : r.next = 0 := if_pos hwrap
    rw [hnext, hwrap, List.take_of_length_le (Nat.le_of_eq hlen),
      List.drop_of_length_le (Nat.le_of_eq hlen)]
    cases hcells : r.cells.toList with
    | nil => rw [hcells, List.length_nil] at hlen; omega
    | cons c cells => simp
  · have hnext : r.next = r.position + 1 := if_neg hwrap
    have hlt' : r.position + 1 < (r.cells.toList.set (r.position + 1) x).length := by
      rw [List.length_set]
      omega
    have hne : (r.cells.toList.drop (r.position + 1)).reverse ≠ [] := by
      rw [ne_eq, List.reverse_eq_nil_iff, List.drop_eq_nil_iff]
      omega
    rw [hnext, List.take_succ_eq_append_getElem hlt', List.getElem_set_self,
      List.take_set_of_le (Nat.le_refl _), List.dropLast_append_of_ne_nil hne,
      List.dropLast_reverse, List.tail_drop, List.reverse_append]
    rfl

/-! ## The latest entries of a history -/

/-- The ring after the entries `xs` were written, one after the other. -/
def record (r : Ring α m) (xs : List α) : Ring α m :=
  xs.foldl write r

/-- The window of a ring is that of the history, cut off behind `m` entries. -/
theorem window_record (r : Ring α m) (xs : List α) :
    (r.record xs).window = (xs.reverse ++ r.window).take m := by
  induction xs generalizing r with
  | nil => exact (List.take_of_length_le (Nat.le_of_eq r.length_window)).symm
  | cons x xs ih =>
      have hcut : ∀ l : List α, (l ++ x :: r.window.dropLast).take m = (l ++ x :: r.window).take m := by
        intro l
        rw [List.take_append, List.take_append, List.dropLast_eq_take, r.length_window]
        cases hroom : m - l.length with
        | zero => rfl
        | succ n =>
            rw [List.take_succ_cons, List.take_succ_cons, List.take_take, Nat.min_eq_left (by omega)]
      change ((r.write x).record xs).window = _
      rw [ih, window_write, hcut, List.reverse_cons, List.append_assoc, List.singleton_append]

end Ring

end PbsLevel2.Lib

import Mathlib.Data.List.Range
import Mathlib.Order.Basic

/-!
# Support — Cells

A list that is made of cells of one size, one after the other, and a list that is filled up behind its end: what is found at a place in them.  Nothing here is about this driver.
-/

namespace Qcacld.Support
open List Nat

variable {α : Type*}

/-- What is longer is cut, and what is shorter is filled up. -/
def fitted (pad : α) (size : Nat) (l : List α) : List α :=
  l.take size ++ List.replicate (size - l.length) pad

@[simp] theorem fitted_length (pad : α) (size : Nat) (l : List α) :
    (fitted pad size l).length = size := by
  simp only [fitted, length_append, length_take, length_replicate]
  omega

theorem fitted_of_le {pad : α} {size : Nat} {l : List α} (h : size ≤ l.length) :
    fitted pad size l = l.take size := by
  simp [fitted, Nat.sub_eq_zero_of_le h]

variable {cell : Nat → List α} {size : Nat}

theorem length_cells (hc : ∀ i, (cell i).length = size) (n : Nat) :
    ((range n).flatMap cell).length = n * size := by
  induction n with
  | zero => simp
  | succ n ih =>
    rw [range_succ, flatMap_append, length_append, ih, succ_mul]
    simp [hc]

/-- **A cell is found at its place.** -/
theorem take_drop_cells (hc : ∀ i, (cell i).length = size) {n i : Nat} (hi : i < n) :
    (((range n).flatMap cell).drop (i * size)).take size = cell i := by
  induction n with
  | zero => exact absurd hi (not_lt_zero i)
  | succ n ih =>
    have hlen := length_cells hc n
    rw [range_succ, flatMap_append]
    rcases Nat.lt_succ_iff_lt_or_eq.1 hi with hi | rfl
    · have hle : i * size + size ≤ n * size := by
        rw [← succ_mul]
        exact mul_le_mul_right size hi
      rw [drop_append_of_le_length (by omega), take_append_of_le_length]
      · exact ih hi
      · rw [length_drop]
        omega
    · rw [← hlen, drop_left]
      simp [← hc i]

theorem take_drop_filled {pad : α} {l : List α} {k start : Nat} (h : start + size ≤ l.length + k) :
    ((l ++ replicate k pad).drop start).take size = fitted pad size ((l.drop start).take size) := by
  apply ext_getElem?
  intro i
  simp only [fitted, getElem?_take, getElem?_drop, getElem?_append,
    getElem?_replicate, length_take, length_drop]
  split_ifs <;> first | rfl | omega

end Qcacld.Support

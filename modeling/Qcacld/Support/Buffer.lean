import Mathlib.Data.List.TakeDrop

/-!
# Support — Buffer

A buffer of a fixed size as a list, with accesses that fail outside of it: `load` and `store` of several cells at once, `slice` and `patch` for what they read and leave.  A slice of a patched buffer is the patch, or what it was.
-/

namespace Qcacld.Support
open List

variable {β : Type*} {b b' xs ys : List β} {i j m n : ℕ} {x : β}

/-- The `n` cells from `i` on. -/
def slice (b : List β) (i n : ℕ) : List β := (b.drop i).take n

/-- The buffer with other cells from `i` on. -/
def patch (b : List β) (i : ℕ) (xs : List β) : List β := b.take i ++ xs ++ b.drop (i + xs.length)

/-- Read `n` cells from `i` on. -/
def load (b : List β) (i n : ℕ) : Option (List β) :=
  if i + n ≤ b.length then some (slice b i n) else none

/-- Write cells from `i` on. -/
def store (b : List β) (i : ℕ) (xs : List β) : Option (List β) :=
  if i + xs.length ≤ b.length then some (patch b i xs) else none

theorem load_of_le (h : i + n ≤ b.length) : load b i n = some (slice b i n) := if_pos h

theorem store_of_le (h : i + xs.length ≤ b.length) : store b i xs = some (patch b i xs) := if_pos h

theorem store_of_not_le (h : ¬i + xs.length ≤ b.length) : store b i xs = none := if_neg h

theorem load_eq_some : load b i n = some xs ↔ i + n ≤ b.length ∧ slice b i n = xs := by
  rw [load]
  split
  · next h => simp [h]
  · next h => simp [h]

theorem store_eq_some : store b i xs = some b' ↔ i + xs.length ≤ b.length ∧ patch b i xs = b' := by
  rw [store]
  split
  · next h => simp [h]
  · next h => simp [h]

/-! ### Slices -/

theorem length_slice (h : i + n ≤ b.length) : (slice b i n).length = n := by
  rw [slice, length_take, length_drop]
  omega

@[simp] theorem slice_zero : slice b i 0 = [] := take_zero

theorem slice_all : slice b 0 b.length = b := by
  rw [slice, drop_zero, take_length]

theorem slice_add : slice b i (m + n) = slice b i m ++ slice b (i + m) n := by
  rw [slice, slice, slice, take_add, drop_drop]

theorem slice_succ (h : b[i]? = some x) : slice b i (n + 1) = x :: slice b (i + 1) n := by
  obtain ⟨hi, rfl⟩ := List.getElem?_eq_some_iff.1 h
  rw [slice, drop_eq_getElem_cons hi, take_succ_cons, slice]

theorem getElem?_slice (h : j < n) : (slice b i n)[j]? = b[i + j]? := by
  rw [slice, getElem?_take_of_lt h, getElem?_drop]

/-! ### Patches -/

theorem length_patch (h : i + xs.length ≤ b.length) : (patch b i xs).length = b.length := by
  simp only [patch, length_append, length_take, length_drop]
  omega

@[simp] theorem patch_nil : patch b i [] = b := by
  rw [patch, append_nil, length_nil, Nat.add_zero, take_append_drop]

theorem take_patch (h : i ≤ b.length) : (patch b i xs).take i = b.take i := by
  rw [patch, append_assoc]
  exact take_left' (length_take_of_le h)

theorem drop_patch (h : i ≤ b.length) : (patch b i xs).drop (i + xs.length)
    = b.drop (i + xs.length) := by
  rw [patch]
  exact drop_left' (by rw [length_append, length_take_of_le h])

theorem slice_patch (xs : List β) (h : i ≤ b.length) : slice (patch b i xs) i xs.length = xs := by
  rw [slice, patch, append_assoc, drop_left' (length_take_of_le h), take_left]

theorem slice_patch_before (h : i ≤ b.length) (hj : j + n ≤ i) :
    slice (patch b i xs) j n = slice b j n := by
  have hslice : ∀ c : List β, slice c j n = slice (c.take i) j n := by
    intro c
    rw [slice, slice, drop_take, take_take, Nat.min_eq_left (by omega)]
  rw [hslice, take_patch h, ← hslice]

theorem slice_patch_behind (h : i ≤ b.length) (hj : i + xs.length ≤ j) :
    slice (patch b i xs) j n = slice b j n := by
  obtain ⟨k, rfl⟩ := Nat.exists_eq_add_of_le hj
  rw [slice, slice, ← drop_drop, drop_patch h, drop_drop]

theorem patch_cons (h : i < b.length) : patch (patch b i [x]) (i + 1) xs = patch b i (x :: xs) := by
  have hlen : (b.take i ++ [x]).length = i + 1 := by
    rw [length_append, length_take_of_le (Nat.le_of_lt h), length_singleton]
  have htake : (patch b i [x]).take (i + 1) = b.take i ++ [x] := take_left' hlen
  have hdrop : (patch b i [x]).drop (i + 1 + xs.length) = b.drop (i + 1 + xs.length) := by
    have hone : (patch b i [x]).drop (i + [x].length) = b.drop (i + [x].length) :=
      drop_patch (Nat.le_of_lt h)
    have hmore := congrArg (drop xs.length) hone
    rwa [drop_drop, drop_drop, length_singleton] at hmore
  rw [patch, htake, hdrop, patch, length_cons, Nat.add_assoc, Nat.add_comm 1]
  simp

end Qcacld.Support

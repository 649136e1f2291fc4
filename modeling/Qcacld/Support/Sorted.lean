import Mathlib.Data.Set.Insert
import Mathlib.Order.Basic

/-!
# Support — Sorted

Arrays whose first places are in use and strictly increase: an element put in at its place, the element at a place taken out, and what a comparison at one place says of the others.  Nothing here is about this driver.
-/

namespace Qcacld.Support
open Nat

variable {α : Type*} {f : ℕ → α} {n k i : ℕ} {x : α}

/-- What stands at the first `n` places. -/
def entries (f : ℕ → α) (n : ℕ) : Set α := {x | ∃ i < n, f i = x}

/-- The array with `x` at place `k`, and what was there and behind one place further. -/
def insertAt (f : ℕ → α) (k : ℕ) (x : α) (i : ℕ) : α :=
  if i < k then f i else if i = k then x else f (i - 1)

/-- The array without what stands at place `k`, and what was behind one place nearer. -/
def removeAt (f : ℕ → α) (k i : ℕ) : α := if i < k then f i else f (i + 1)

theorem insertAt_of_lt (h : i < k) : insertAt f k x i = f i := if_pos h

@[simp]
theorem insertAt_self : insertAt f k x k = x := by simp [insertAt]

theorem insertAt_of_gt (h : k < i) : insertAt f k x i = f (i - 1) := by
  rw [insertAt, if_neg (by omega), if_neg (by omega)]

theorem removeAt_of_lt (h : i < k) : removeAt f k i = f i := if_pos h

theorem removeAt_of_le (h : k ≤ i) : removeAt f k i = f (i + 1) := if_neg (by omega)

@[simp]
theorem entries_zero : entries f 0 = ∅ := by simp [entries]

theorem entries_congr {g : ℕ → α} (h : ∀ i < n, g i = f i) : entries g n = entries f n := by
  ext x
  constructor
  · rintro ⟨i, hi, rfl⟩
    exact ⟨i, hi, (h i hi).symm⟩
  · rintro ⟨i, hi, rfl⟩
    exact ⟨i, hi, h i hi⟩

theorem entries_insertAt (hk : k ≤ n) : entries (insertAt f k x) (n + 1) = insert x (entries f n) := by
  ext y
  constructor
  · rintro ⟨i, hi, rfl⟩
    rcases lt_trichotomy i k with h | rfl | h
    · exact .inr ⟨i, by omega, (insertAt_of_lt h).symm⟩
    · exact .inl insertAt_self
    · exact .inr ⟨i - 1, by omega, (insertAt_of_gt h).symm⟩
  · rintro (rfl | ⟨i, hi, rfl⟩)
    · exact ⟨k, by omega, insertAt_self⟩
    · by_cases h : i < k
      · exact ⟨i, by omega, insertAt_of_lt h⟩
      · refine ⟨i + 1, by omega, ?_⟩
        rw [insertAt_of_gt (by omega), Nat.add_sub_cancel]

section Order
variable [LinearOrder α]

/-- The first `n` places strictly increase. -/
def Increasing (f : ℕ → α) (n : ℕ) : Prop := ∀ i j, i < j → j < n → f i < f j

theorem Increasing.congr {g : ℕ → α} (h : Increasing f n) (hg : ∀ i < n, g i = f i) :
    Increasing g n := fun i j hij hj => by
  rw [hg i (hij.trans hj), hg j hj]
  exact h i j hij hj

theorem Increasing.inj (h : Increasing f n) {j : ℕ} (hi : i < n) (hj : j < n) (he : f i = f j) :
    i = j := by
  rcases lt_trichotomy i j with hij | rfl | hij
  · exact absurd he (h i j hij hj).ne
  · rfl
  · exact absurd he (h j i hij hi).ne'

/-- What is above the one at place `k` stands behind it. -/
theorem Increasing.lt_of_lt (h : Increasing f n) (hk : k < n) (hi : i < n) (hlt : f k < f i) :
    k < i := by
  rcases lt_trichotomy k i with hki | rfl | hki
  · exact hki
  · exact absurd hlt (lt_irrefl _)
  · exact absurd (h i k hki hk) hlt.asymm

theorem Increasing.insertAt (h : Increasing f n) (hlo : ∀ i < k, f i < x)
    (hhi : ∀ i, k ≤ i → i < n → x < f i) (hk : k ≤ n) : Increasing (insertAt f k x) (n + 1) := by
  intro i j hij hj
  rcases lt_trichotomy j k with hjk | rfl | hjk
  · rw [insertAt_of_lt (hij.trans hjk), insertAt_of_lt hjk]
    exact h i j hij (by omega)
  · rw [insertAt_of_lt hij, insertAt_self]
    exact hlo i hij
  · rw [insertAt_of_gt hjk]
    rcases lt_trichotomy i k with hik | rfl | hik
    · rw [insertAt_of_lt hik]
      exact h i (j - 1) (by omega) (by omega)
    · rw [insertAt_self]
      exact hhi (j - 1) (by omega) (by omega)
    · rw [insertAt_of_gt hik]
      exact h (i - 1) (j - 1) (by omega) (by omega)

theorem Increasing.removeAt (h : Increasing f n) (k : ℕ) : Increasing (removeAt f k) (n - 1) := by
  intro i j hij hj
  by_cases hjk : j < k
  · rw [removeAt_of_lt (hij.trans hjk), removeAt_of_lt hjk]
    exact h i j hij (by omega)
  · rw [removeAt_of_le (i := j) (by omega)]
    by_cases hik : i < k
    · rw [removeAt_of_lt hik]
      exact h i (j + 1) (by omega) (by omega)
    · rw [removeAt_of_le (by omega)]
      exact h (i + 1) (j + 1) (by omega) (by omega)

theorem Increasing.entries_removeAt (h : Increasing f n) (hk : k < n) :
    entries (Support.removeAt f k) (n - 1) = entries f n \ {f k} := by
  ext y
  constructor
  · rintro ⟨i, hi, rfl⟩
    by_cases hik : i < k
    · rw [removeAt_of_lt hik]
      exact ⟨⟨i, by omega, rfl⟩, fun he => by have := h.inj (by omega) hk he; omega⟩
    · rw [removeAt_of_le (by omega)]
      exact ⟨⟨i + 1, by omega, rfl⟩, fun he => by have := h.inj (by omega) hk he; omega⟩
  · rintro ⟨⟨i, hi, rfl⟩, hne⟩
    rcases lt_trichotomy i k with hik | rfl | hik
    · exact ⟨i, by omega, removeAt_of_lt hik⟩
    · exact absurd rfl hne
    · refine ⟨i - 1, by omega, ?_⟩
      rw [removeAt_of_le (by omega), Nat.sub_add_cancel (by omega)]

end Order

end Qcacld.Support

import Mathlib.Data.List.Perm.Basic

/-!
# Support — SwapRemove

Taking an entry out of a table without gaps by moving the last one into its place.  The entries left are those of the table without that one (`swapRemove_perm`), and the first entry with a property is found and taken out by `removeFirst`.  Nothing here is about this driver.
-/

namespace Qcacld.Support
open List

variable {α : Type*} {l l₁ l₂ : List α} {a z : α} {p : α → Bool}

/-- The last entry is moved to a position, and the table is one shorter. -/
def swapRemove (l : List α) (i : ℕ) : List α :=
  match l.getLast? with
  | some z => (l.set i z).dropLast
  | none => []

theorem swapRemove_last : swapRemove (l ++ [a]) l.length = l := by
  rw [swapRemove, getLast?_concat]
  dsimp only
  rw [set_append_right _ _ (Nat.le_refl _), Nat.sub_self]
  exact dropLast_concat

theorem swapRemove_middle : swapRemove (l₁ ++ a :: (l₂ ++ [z])) l₁.length = l₁ ++ z :: l₂ := by
  have hlast : (l₁ ++ a :: (l₂ ++ [z])).getLast? = some z := by
    rw [← cons_append, ← append_assoc, getLast?_concat]
  rw [swapRemove, hlast]
  dsimp only
  rw [set_append_right _ _ (Nat.le_refl _), Nat.sub_self, set_cons_zero, ← cons_append,
    ← append_assoc]
  exact dropLast_concat

/-- **The entries left.** -/
theorem swapRemove_perm : (swapRemove (l₁ ++ a :: l₂) l₁.length).Perm (l₁ ++ l₂) := by
  rcases l₂.eq_nil_or_concat with rfl | ⟨l₂, z, rfl⟩
  · rw [swapRemove_last, append_nil]
  · rw [concat_eq_append, swapRemove_middle]
    exact (perm_append_singleton z l₂).symm.append_left l₁

/-- The first entry with a property is taken out. -/
def removeFirst (p : α → Bool) (l : List α) : List α :=
  match l.findIdx? p with
  | some i => swapRemove l i
  | none => l

theorem removeFirst_of_forall (h : ∀ x ∈ l, p x = false) : removeFirst p l = l := by
  rw [removeFirst, findIdx?_eq_none_iff.2 h]

theorem removeFirst_append (h : ∀ x ∈ l₁, p x = false) (ha : p a = true) :
    removeFirst p (l₁ ++ a :: l₂) = swapRemove (l₁ ++ a :: l₂) l₁.length := by
  have hfind : (l₁ ++ a :: l₂).findIdx? p = some l₁.length := by
    rw [findIdx?_append, findIdx?_eq_none_iff.2 h, findIdx?_cons, if_pos ha]
    simp
  rw [removeFirst, hfind]

/-- **What is taken out**: nothing, or the first entry with the property. -/
theorem removeFirst_spec (p : α → Bool) (l : List α) :
    (∀ x ∈ l, p x = false) ∧ removeFirst p l = l ∨
      ∃ l₁ a l₂, l = l₁ ++ a :: l₂ ∧ p a = true ∧ (removeFirst p l).Perm (l₁ ++ l₂) := by
  cases h : l.find? p with
  | none =>
    have hnot : ∀ x ∈ l, p x = false := by simpa using h
    exact .inl ⟨hnot, removeFirst_of_forall hnot⟩
  | some a =>
    obtain ⟨ha, l₁, l₂, rfl, hl₁⟩ := find?_eq_some_iff_append.1 h
    refine .inr ⟨l₁, a, l₂, rfl, ha, ?_⟩
    rw [removeFirst_append (by simpa using hl₁) ha]
    exact swapRemove_perm

end Qcacld.Support

import Mathlib.Data.List.Perm.Basic

/-!
# Support — Swaps

Selection sort in place: for each position, the least entry from there on is looked for and swapped with the one that stands there.  Whatever the comparison, the entries stay the same.  And what changing an entry in place keeps of the table.  Nothing here is about this driver.
-/

namespace Qcacld.Support
open List Option

variable {α β : Type*}

theorem map_modify {f : α → β} {g : α → α} (h : ∀ a, f (g a) = f a) (l : List α) (i : Nat) :
    (l.modify i g).map f = l.map f := by
  refine ext_getElem? fun j => ?_
  simp only [getElem?_map, getElem?_modify]
  cases l[j]? with
  | none => rfl
  | some a =>
    by_cases hij : i = j
    · simp [hij, h]
    · simp [hij]

theorem map_mapIdx {f : α → β} {g : Nat → α → α} (h : ∀ i a, f (g i a) = f a) (l : List α) :
    (l.mapIdx g).map f = l.map f := by
  refine List.ext_getElem? fun j => ?_
  simp only [List.getElem?_map, List.getElem?_mapIdx, Option.map_map]
  congr 1
  funext a
  exact h j a

def swapAt (l : List α) (i j : Nat) : List α :=
  match l[i]?, l[j]? with
  | some a, some b => (l.set i b).set j a
  | _, _ => l

/-- The entry at `j` comes before the one at `m`. -/
def beforeAt (lt : α → α → Bool) (l : List α) (j m : Nat) : Bool :=
  match l[j]?, l[m]? with
  | some a, some b => lt a b
  | _, _ => false

/-- Where the least entry from `i` on stands, the first of several. -/
def minIndex (lt : α → α → Bool) (l : List α) (i : Nat) : Nat :=
  (List.range' (i + 1) (l.length - (i + 1))).foldl (fun m j => if beforeAt lt l j m then j else m) i

def selectionSort (lt : α → α → Bool) (l : List α) : List α :=
  (List.range l.length).foldl (fun l i => swapAt l i (minIndex lt l i)) l

theorem swapAt_perm (l : List α) (i j : Nat) : (swapAt l i j).Perm l := by
  rw [swapAt]
  split
  · next a b ha hb =>
    obtain ⟨hi, rfl⟩ := List.getElem?_eq_some_iff.1 ha
    obtain ⟨hj, rfl⟩ := List.getElem?_eq_some_iff.1 hb
    exact set_set_perm hi hj
  · exact .refl l

/-- **The entries stay the same.** -/
theorem selectionSort_perm (lt : α → α → Bool) (l : List α) : (selectionSort lt l).Perm l := by
  have hloop : ∀ (is : List Nat) (t : List α),
      (is.foldl (fun l i => swapAt l i (minIndex lt l i)) t).Perm t := by
    intro is
    induction is with
    | nil => exact fun t => .refl t
    | cons i is ih => exact fun t => (ih _).trans (swapAt_perm t i _)
  exact hloop _ l

end Qcacld.Support

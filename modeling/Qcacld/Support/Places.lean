import Mathlib.Data.List.Nodup
import Mathlib.Data.List.Perm.Subperm

/-!
# Support — Places

Items that are in one place at a time.  `loc` says where each item is; the places that keep a list of what they hold are the shelves.  Items that move from one place to another leave the one list and join the other.  Nothing here is about this driver.
-/

namespace Qcacld.Support
open List

variable {α π : Type*} {loc : α → π} {p p' r : π} {l l' moved : List α} {shelf shelf' : π → Option (List α)}

/-- `l` lists what is at the place `p`, each item once. -/
structure Lists (loc : α → π) (p : π) (l : List α) : Prop where
  nodup : l.Nodup
  mem_iff : ∀ x, x ∈ l ↔ loc x = p

theorem Lists.perm (h : Lists loc p l) (hp : l'.Perm l) : Lists loc p l' :=
  ⟨hp.nodup_iff.2 h.nodup, fun x => hp.mem_iff.trans (h.mem_iff x)⟩

theorem lists_nil_iff : Lists loc p [] ↔ ∀ x, loc x ≠ p := by
  refine ⟨fun h x hx => ?_, fun h => ⟨nodup_nil, fun x => ?_⟩⟩
  · exact not_mem_nil ((h.mem_iff x).2 hx)
  · exact iff_of_false not_mem_nil (h x)

section Bring
variable [DecidableEq α]

/-- Some items are brought to the place `p`. -/
def bring (loc : α → π) (moved : List α) (p : π) : α → π := fun x => if x ∈ moved then p else loc x

variable {x : α}

@[simp] theorem bring_of_mem (h : x ∈ moved) : bring loc moved p x = p := if_pos h

@[simp] theorem bring_of_notMem (h : x ∉ moved) : bring loc moved p x = loc x := if_neg h

theorem Lists.bystander (h : Lists loc r l) (hat : ∀ x ∈ moved, loc x ≠ r) (hr : r ≠ p') :
    Lists (bring loc moved p') r l := by
  refine ⟨h.nodup, fun x => (h.mem_iff x).trans ?_⟩
  by_cases hx : x ∈ moved
  · simp [hx, hat x hx, Ne.symm hr]
  · simp [hx]

theorem Lists.leave (h : Lists loc p (moved ++ l)) (hp : p ≠ p') :
    Lists (bring loc moved p') p l := by
  obtain ⟨-, hl, hdisj⟩ := nodup_append.1 h.nodup
  refine ⟨hl, fun x => ?_⟩
  by_cases hx : x ∈ moved
  · simp only [bring_of_mem hx, hp.symm, iff_false]
    exact fun hxl => hdisj x hx x hxl rfl
  · rw [bring_of_notMem hx, ← h.mem_iff x, mem_append, or_iff_right hx]

theorem Lists.arrive (h : Lists loc p' l) (hm : moved.Nodup) (hat : ∀ x ∈ moved, loc x ≠ p') :
    Lists (bring loc moved p') p' (moved ++ l) := by
  refine ⟨nodup_append.2 ⟨hm, h.nodup, ?_⟩, fun x => ?_⟩
  · rintro x hx _ hxl rfl
    exact hat x hx ((h.mem_iff x).1 hxl)
  · by_cases hx : x ∈ moved
    · simp [hx]
    · simp [hx, h.mem_iff]

def Shelved (loc : α → π) (shelf : π → Option (List α)) : Prop :=
  ∀ p l, shelf p = some l → Lists loc p l

/-- **The move rule.**  Items go from the place `p` to the place `p'`, and their lists follow. -/
theorem Shelved.move (h : Shelved loc shelf) (hne : p ≠ p') (hm : moved.Nodup)
    (hat : ∀ x ∈ moved, loc x = p)
    (hfrom : ∀ l', shelf' p = some l' → ∃ l, shelf p = some l ∧ l.Perm (moved ++ l'))
    (hto : ∀ l', shelf' p' = some l' → ∃ l, shelf p' = some l ∧ l'.Perm (moved ++ l))
    (hothers : ∀ r, r ≠ p → r ≠ p' → shelf' r = shelf r) :
    Shelved (bring loc moved p') shelf' := by
  intro r l' hl'
  by_cases hrp : r = p
  · subst hrp
    obtain ⟨l, hl, hperm⟩ := hfrom l' hl'
    exact ((h r l hl).perm hperm.symm).leave hne
  by_cases hrp' : r = p'
  · subst hrp'
    obtain ⟨l, hl, hperm⟩ := hto l' hl'
    refine ((h r l hl).arrive hm fun x hx => ?_).perm hperm
    rw [hat x hx]
    exact hne
  · rw [hothers r hrp hrp'] at hl'
    refine (h r l' hl').bystander (fun x hx => ?_) hrp'
    rw [hat x hx]
    exact Ne.symm hrp

end Bring

end Qcacld.Support

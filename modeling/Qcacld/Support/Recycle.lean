import Mathlib.Data.List.Perm.Basic
import Mathlib.Data.List.Range
import Mathlib.Data.List.Pairwise
import Mathlib.Logic.Function.Basic

/-!
# Support — Recycle

A pool of buffers for producers that must not wait.  One buffer is being filled; a full one goes to the end of a list from which they are fetched, and the next one comes from the free list or, when that is empty, is the one that has waited longest, whose contents are dropped and counted.

`Recycler.Right` says where the buffers are and what has become of the contents that were ever filled in; each operation has a lemma that it keeps this.  Nothing here is about this driver.
-/

namespace Qcacld.Support
open Function List Option

/-- A pool, with the history of its contents: each filling has a number. -/
structure Recycler where
  size : Nat
  cur : Option Nat
  free : List Nat
  filled : List Nat
  dropCount : UInt32
  /-- The number of the contents of a buffer that has been filled. -/
  serial : Nat → Nat
  fills : Nat
  delivered : List Nat
  counted : List Nat
  /-- The drop count at the start. -/
  base : UInt32

namespace Recycler

/-- The contents with this number are dropped, and counted. -/
def drop (p : Recycler) (no : Nat) : Recycler :=
  { p with
    dropCount := p.dropCount + 1
    counted := p.counted ++ [no] }

/-- The buffer `c` is full, and the next one is put in its place. -/
def rotate (p : Recycler) (c : Nat) : Recycler :=
  let p := { p with
    serial := update p.serial c p.fills
    fills := p.fills + 1
    filled := p.filled ++ [c] }
  match p.free, p.filled with
  | f :: fs, _ => { p with cur := some f, free := fs }
  | [], f :: fs => ({ p with cur := some f, filled := fs } : Recycler).drop (p.serial f)
  | [], [] => p

/-- The buffer that comes after `c`: a free one, or the one that has waited longest. -/
def next (p : Recycler) (c : Nat) : Nat := (p.free ++ p.filled).headD c

def give (p : Recycler) (i : Nat) : Recycler := { p with free := p.free ++ [i] }

def deliver (p : Recycler) (no : Nat) : Recycler := { p with delivered := p.delivered ++ [no] }

def clear (p : Recycler) : Recycler :=
  { p with
    size := 0
    cur := none
    free := []
    filled := [] }

/-- **The law of a pool**, while the buffers `held` have been fetched, and the contents `nos` are on their way.  Each buffer is in one place; the contents delivered, on their way and waiting are in the order of their filling; with those that were counted they are all there were. -/
structure Right (p : Recycler) (held nos : List Nat) : Prop where
  places : (p.cur.toList ++ p.free ++ p.filled ++ held).Perm (List.range p.size)
  order : (p.delivered ++ nos ++ p.filled.map p.serial).Pairwise (· < ·)
  missing : (p.counted ++ (p.delivered ++ nos ++ p.filled.map p.serial)).Perm (List.range p.fills)
  drops : p.size ≠ 0 → p.dropCount = p.base + .ofNat p.counted.length

section
variable {p : Recycler} {held nos fs : List Nat} {c f i no : Nat}

theorem Right.nodup (h : p.Right held nos) : (p.cur.toList ++ p.free ++ p.filled ++ held).Nodup :=
  h.places.nodup_iff.2 nodup_range

theorem Right.lt_fills (h : p.Right held nos)
    (hm : no ∈ p.delivered ++ nos ++ p.filled.map p.serial) : no < p.fills :=
  mem_range.1 (h.missing.subset (mem_append_right _ hm))

theorem Right.length (h : p.Right held nos) :
    p.counted.length + (p.delivered.length + nos.length + p.filled.length) = p.fills := by
  simpa [Nat.add_assoc] using h.missing.length_eq

theorem add_ofNat_succ (b : UInt32) (n : Nat) : b + .ofNat n + 1 = b + .ofNat (n + 1) := by
  rw [UInt32.add_assoc, UInt32.ofNat_add]
  rfl

theorem Right.drop (h : p.Right held (no :: nos)) : (p.drop no).Right held nos where
  places := h.places
  order := h.order.sublist (by
    rw [append_assoc, append_assoc]
    exact (sublist_cons_self no _).append_left _)
  missing := by
    refine List.Perm.trans ?_ h.missing
    simp only [Recycler.drop, append_assoc, cons_append, nil_append]
    exact perm_middle.symm.append_left _
  drops hc := by
    simp only [Recycler.drop, length_append, length_singleton]
    rw [h.drops hc, add_ofNat_succ]

theorem Right.deliver (h : p.Right held (no :: nos)) : (p.deliver no).Right held nos where
  places := h.places
  order := by simpa [Recycler.deliver] using h.order
  missing := by simpa [Recycler.deliver] using h.missing
  drops := h.drops

theorem Right.fetch (h : p.Right held nos) (hf : p.filled = f :: fs) :
    ({ p with filled := fs } : Recycler).Right (f :: held) (nos ++ [p.serial f]) where
  places := by
    refine List.Perm.trans ?_ h.places
    rw [hf]
    simp only [append_assoc, cons_append]
    exact (perm_middle.append_left _).append_left _
  order := by simpa [hf] using h.order
  missing := by simpa [hf] using h.missing
  drops := h.drops

theorem Right.give (h : p.Right (i :: held) nos) : (p.give i).Right held nos where
  places := by
    refine List.Perm.trans ?_ h.places
    simp only [Recycler.give, append_assoc, singleton_append]
    exact (perm_middle.symm.append_left _).append_left _
  order := h.order
  missing := h.missing
  drops := h.drops

theorem Right.not_lost (h : p.Right held (no :: nos)) {p' : Recycler} {held' : List Nat}
    (hl : p'.counted.length + (p'.delivered.length + p'.filled.length)
      = p.counted.length + (p.delivered.length + p.filled.length))
    (hf : p'.fills = p.fills) : ¬ p'.Right held' nos := by
  intro h'
  have h₁ := h.length
  have h₂ := h'.length
  simp only [length_cons] at h₁
  omega

theorem Right.clear (h : p.Right [] []) (hf : p.filled = []) : p.clear.Right [] [] where
  places := .refl _
  order := by simpa [Recycler.clear, hf] using h.order
  missing := by simpa [Recycler.clear, hf] using h.missing
  drops hc := absurd rfl hc

theorem Right.not_clear (h : p.Right [] []) (hf : p.filled ≠ []) : ¬ p.clear.Right [] [] := by
  intro h'
  have h₁ := h.length
  have h₂ := h'.length
  have hpos := length_pos_iff.2 hf
  simp only [Recycler.clear, length_nil] at h₁ h₂
  omega

theorem Right.fill (h : p.Right held nos) (hc : p.cur = some c) : ({ p with
      cur := none
      serial := update p.serial c p.fills
      fills := p.fills + 1
      filled := p.filled ++ [c] } : Recycler).Right held nos := by
  have hnd := h.nodup
  have hnot : c ∉ p.filled := by
    intro hm
    rw [hc] at hnd
    simp only [toList_some, append_assoc, cons_append, nodup_cons] at hnd
    exact hnd.1 (by simp [hm])
  have hmap : (p.filled ++ [c]).map (update p.serial c p.fills)
      = p.filled.map p.serial ++ [p.fills] := by
    simp only [map_append, map_singleton, update_self, append_cancel_right_eq]
    refine map_congr_left fun i hi => update_of_ne ?_ _ _
    rintro rfl
    exact hnot hi
  refine ⟨?_, ?_, ?_, h.drops⟩
  · refine List.Perm.trans ?_ h.places
    rw [hc]
    simp only [toList_none, toList_some, nil_append, append_assoc, singleton_append]
    exact ((perm_middle.append_left _).trans perm_middle)
  · rw [hmap, ← append_assoc, pairwise_append]
    refine ⟨h.order, pairwise_singleton _ _, fun a ha b hb => ?_⟩
    rw [mem_singleton.1 hb]
    exact h.lt_fills ha
  · rw [hmap, ← append_assoc (p.delivered ++ nos), ← append_assoc, range_succ]
    exact h.missing.append_right _

theorem Right.pick (h : p.Right held nos) (hc : p.cur = none) (hf : p.free = f :: fs) : ({ p with
      cur := some f
      free := fs } : Recycler).Right held nos where
  places := by
    refine List.Perm.trans (.of_eq ?_) h.places
    simp [hc, hf]
  order := h.order
  missing := h.missing
  drops := h.drops

/-- The buffer that has waited longest becomes the current one, and its contents are dropped. -/
theorem Right.reuse (h : p.Right held nos) (hc : p.cur = none) (hf : p.filled = f :: fs) :
    (({ p with
      cur := some f
      filled := fs } : Recycler).drop (p.serial f)).Right held nos where
  places := by
    refine List.Perm.trans ?_ h.places
    simp only [Recycler.drop, hc, hf, toList_some, toList_none, nil_append,
      append_assoc, cons_append]
    exact perm_middle.symm
  order := by
    refine h.order.sublist ?_
    simp only [Recycler.drop, hf, map_cons]
    exact (sublist_cons_self _ _).append_left _
  missing := by
    refine List.Perm.trans ?_ h.missing
    simp only [Recycler.drop, hf, map_cons, append_assoc, cons_append, nil_append]
    exact ((perm_middle.append_left _).trans perm_middle).symm.append_left _
  drops hz := by
    simp only [Recycler.drop, length_append, length_singleton]
    rw [h.drops hz, add_ofNat_succ]

/-- **Filling.**  The next buffer is put in the place of the one that is full. -/
theorem Right.rotate (h : p.Right held nos) (hc : p.cur = some c) : (p.rotate c).Right held nos := by
  have hfill := h.fill hc
  simp only [Recycler.rotate]
  split
  · next f fs _ hf => exact hfill.pick rfl hf
  · next f fs _ hf => exact hfill.reuse rfl hf
  · next _ hf => exact absurd hf (by simp)

theorem rotate_cur (p : Recycler) (c : Nat) : (p.rotate c).cur = some (p.next c) := by
  rcases hf : p.free with _ | ⟨f, fs⟩
  · rcases hl : p.filled with _ | ⟨f, fs⟩
    · simp [rotate, next, drop, hf, hl]
    · simp [rotate, next, drop, hf, hl]
  · simp [rotate, next, hf]

@[simp]
theorem rotate_size (p : Recycler) (c : Nat) : (p.rotate c).size = p.size := by
  simp only [Recycler.rotate]
  split <;> rfl

theorem rotate_filled (p : Recycler) (c : Nat) : p.filled.length ≤ (p.rotate c).filled.length := by
  simp only [Recycler.rotate]
  split
  · simp
  · next f fs _ hf =>
    have hl := congrArg length hf
    simp only [length_append, length_cons, length_nil, Nat.add_right_cancel_iff] at hl
    exact hl.le
  · next _ hf => exact absurd hf (by simp)

theorem perm_map_update {l : List Nat} {i : Nat} (hd : l.Nodup) (hi : i ∈ l) (f : Nat → Nat)
    (x : Nat) : (f i :: l.map (update f i x)).Perm (x :: l.map f) := by
  have hp := perm_cons_erase hi
  have hmap : (l.erase i).map (update f i x) = (l.erase i).map f := by
    refine map_congr_left fun j hj => update_of_ne ?_ _ _
    rintro rfl
    exact hd.not_mem_erase hj
  have h₁ := hp.map (update f i x)
  have h₂ := hp.map f
  rw [map_cons, update_self, hmap] at h₁
  rw [map_cons] at h₂
  exact (h₁.cons _).trans ((List.Perm.swap _ _ _).trans (h₂.symm.cons _))

end

end Recycler

end Qcacld.Support

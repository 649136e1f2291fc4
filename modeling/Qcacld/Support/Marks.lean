import Mathlib.Data.List.Perm.Basic
import Mathlib.Data.List.Nodup

/-!
# Support — Marks

Keys in a list, objects the keys lead to, and a mark on every object that says whether a key in the list leads to it.  The marks are kept by whoever changes the list; an object that is not live has none that counts.  `Marked` says that they are right, and the rules below say what has to be done to a mark when a key comes to the list, when one goes, and when what the keys lead to changes.  Nothing here is about this driver.
-/

namespace Qcacld.Support
open List Option

variable {κ α : Type*} {keys keys' : List κ} {k : κ} {a : α} {resolve resolve' : κ → Option α}
  {live live' marked marked' : α → Prop}

/-- The keys differ, no two lead to one object, and the marks are right. -/
structure Marked (keys : List κ) (resolve : κ → Option α) (live marked : α → Prop) : Prop where
  nodup : keys.Nodup
  apart : ∀ k ∈ keys, ∀ k' ∈ keys, ∀ a, resolve k = some a → resolve k' = some a → k = k'
  marked_iff : ∀ a, live a → (marked a ↔ ∃ k ∈ keys, resolve k = some a)

namespace Marked

theorem empty (hm : ∀ a, live a → ¬ marked a) : Marked [] resolve live marked where
  nodup := .nil
  apart _ hk := nomatch hk
  marked_iff a ha := by simpa using hm a ha

theorem perm (h : Marked keys resolve live marked) (hp : keys'.Perm keys) :
    Marked keys' resolve live marked where
  nodup := hp.nodup_iff.2 h.nodup
  apart k hk k' hk' := h.apart k (hp.mem_iff.1 hk) k' (hp.mem_iff.1 hk')
  marked_iff a ha := by simpa [hp.mem_iff] using h.marked_iff a ha

/-- **A key comes**: its object, which no other key leads to, is marked. -/
theorem add (h : Marked keys resolve live marked) (hk : k ∉ keys) (hr : resolve k = some a)
    (hother : ∀ k' ∈ keys, resolve k' ≠ some a)
    (hm : ∀ b, live b → (marked' b ↔ b = a ∨ marked b)) :
    Marked (k :: keys) resolve live marked' where
  nodup := nodup_cons.2 ⟨hk, h.nodup⟩
  apart := by
    intro k₁ h₁ k₂ h₂ b e₁ e₂
    rcases mem_cons.1 h₁ with e | m₁ <;> rcases mem_cons.1 h₂ with e' | m₂
    · exact e.trans e'.symm
    · rw [e, hr] at e₁
      exact absurd (e₂.trans e₁.symm) (hother k₂ m₂)
    · rw [e', hr] at e₂
      exact absurd (e₁.trans e₂.symm) (hother k₁ m₁)
    · exact h.apart k₁ m₁ k₂ m₂ b e₁ e₂
  marked_iff := by
    intro b hb
    rw [hm b hb, h.marked_iff b hb, exists_mem_cons_iff, hr, some_inj, eq_comm]

/-- **A key goes**: the object it leads to, if any, loses its mark. -/
theorem remove (h : Marked (k :: keys) resolve live marked)
    (hm : ∀ b, live b → (marked' b ↔ marked b ∧ resolve k ≠ some b)) :
    Marked keys resolve live marked' where
  nodup := (nodup_cons.1 h.nodup).2
  apart k₁ h₁ k₂ h₂ := h.apart k₁ (mem_cons_of_mem _ h₁) k₂ (mem_cons_of_mem _ h₂)
  marked_iff := by
    intro b hb
    rw [hm b hb, h.marked_iff b hb, exists_mem_cons_iff]
    constructor
    · rintro ⟨hr | he, hne⟩
      · exact absurd hr hne
      · exact he
    · intro he
      refine ⟨.inr he, fun hr => ?_⟩
      obtain ⟨k', hk', hr'⟩ := he
      have hkk := h.apart k' (mem_cons_of_mem _ hk') k (mem_cons_self ..) b hr' hr
      exact (nodup_cons.1 h.nodup).1 (hkk ▸ hk')

/-- **What the keys lead to changes**: a listed key leads to the object it led to as long as that is live, and an object that comes to life is led to by none and has no mark. -/
theorem change (h : Marked keys resolve live marked)
    (hr : ∀ k ∈ keys, ∀ a, resolve' k = some a ↔ resolve k = some a ∧ live' a)
    (hm : ∀ a, live' a → live a ∧ (marked' a ↔ marked a) ∨
      ¬ marked' a ∧ ∀ k ∈ keys, resolve k ≠ some a) :
    Marked keys resolve' live' marked' where
  nodup := h.nodup
  apart k hk k' hk' a e e' :=
    h.apart k hk k' hk' a ((hr k hk a).1 e).1 ((hr k' hk' a).1 e').1
  marked_iff := by
    intro a ha
    have hex : (∃ k ∈ keys, resolve' k = some a) ↔ ∃ k ∈ keys, resolve k = some a := by
      refine exists_congr fun k => and_congr_right fun hk => ?_
      rw [hr k hk a]
      exact and_iff_left ha
    rw [hex]
    rcases hm a ha with ⟨hl, hmm⟩ | ⟨hn, hno⟩
    · exact hmm.trans (h.marked_iff a hl)
    · exact iff_of_false hn fun ⟨k, hk, e⟩ => hno k hk e

end Marked

end Qcacld.Support

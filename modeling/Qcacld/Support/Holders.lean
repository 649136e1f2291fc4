import Mathlib.Data.Finset.Card

/-!
# Support — Holders

Reference counts.  A count is right when it is the number of those who hold a reference; taking one, dropping one and handing one over say how holders and count change together.  Nothing here is about this driver.
-/

namespace Qcacld.Support

variable {τ : Type*} {R S : τ → Prop} {t t' : τ} {n : ℕ}

/-- `n` is the number of those who hold a reference. -/
def Counts (R : τ → Prop) (n : ℕ) : Prop :=
  ∃ holders : Finset τ, (∀ t, t ∈ holders ↔ R t) ∧ holders.card = n

namespace Counts

theorem congr (h : Counts R n) (hr : ∀ t, S t ↔ R t) : Counts S n := by
  obtain ⟨holders, hm, hc⟩ := h
  exact ⟨holders, fun t => (hm t).trans (hr t).symm, hc⟩

theorem zero_iff : Counts R 0 ↔ ∀ t, ¬ R t := by
  constructor
  · rintro ⟨holders, hm, hc⟩ t ht
    rw [Finset.card_eq_zero] at hc
    subst hc
    exact absurd ((hm t).2 ht) (Finset.notMem_empty t)
  · intro h
    exact ⟨∅, fun t => iff_of_false (Finset.notMem_empty t) (h t), Finset.card_empty⟩

theorem pos (h : Counts R n) (ht : R t) : 0 < n := by
  obtain ⟨holders, hm, rfl⟩ := h
  exact Finset.card_pos.2 ⟨t, (hm t).2 ht⟩

theorem unique {m : ℕ} (h : Counts R n) (h' : Counts R m) : n = m := by
  obtain ⟨holders, hm, rfl⟩ := h
  obtain ⟨holders', hm', rfl⟩ := h'
  exact congrArg Finset.card (Finset.ext fun t => (hm t).trans (hm' t).symm)

variable [DecidableEq τ]

theorem take (h : Counts R n) (ht : ¬ R t) (hr : ∀ u, S u ↔ u = t ∨ R u) : Counts S (n + 1) := by
  obtain ⟨holders, hm, rfl⟩ := h
  refine ⟨insert t holders, fun u => ?_, Finset.card_insert_of_notMem fun h => ht ((hm t).1 h)⟩
  rw [Finset.mem_insert, hm, hr]

theorem drop (h : Counts R n) (ht : R t) (hr : ∀ u, S u ↔ u ≠ t ∧ R u) :
    ∃ m, n = m + 1 ∧ Counts S m := by
  obtain ⟨holders, hm, rfl⟩ := h
  have hmem : t ∈ holders := (hm t).2 ht
  refine ⟨(holders.erase t).card, (Finset.card_erase_add_one hmem).symm, holders.erase t, ?_, rfl⟩
  intro u
  rw [Finset.mem_erase, hm, hr]

theorem handOver (h : Counts R n) (ht : R t) (ht' : ¬ R t')
    (hr : ∀ u, S u ↔ u = t' ∨ (u ≠ t ∧ R u)) : Counts S n := by
  obtain ⟨m, rfl, hd⟩ := h.drop ht (S := fun u => u ≠ t ∧ R u) fun _ => Iff.rfl
  exact hd.take (fun h => ht' h.2) hr

end Counts

end Qcacld.Support

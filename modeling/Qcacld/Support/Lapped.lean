import Mathlib.Data.Nat.ModEq
import Qcacld.Support.Layout

/-!
# Support — Lapped

A ring of `size` cells that is written round after round.  A position counts on from round to round, and stands at the cell of its remainder.  Positions that are less than a round apart stand at different cells, so that what is written ahead of a position, by less than a round, leaves it alone.  Nothing here is about this driver.
-/

namespace Qcacld.Support
open Nat

variable {size v w x y l : ℕ}

def lapStart (size w : ℕ) : ℕ := w - w % size

theorem dvd_lapStart (size w : ℕ) : size ∣ lapStart size w := dvd_sub_mod w

theorem dvd_next_lapStart (size w : ℕ) : size ∣ lapStart size w + size :=
  Nat.dvd_add (dvd_lapStart size w) (Nat.dvd_refl size)

theorem lapStart_add_mod (size w : ℕ) : lapStart size w + w % size = w :=
  Nat.sub_add_cancel (Nat.mod_le w size)

theorem lap_add_mod (hl : size ∣ l) {n : ℕ} (hn : n < size) : (l + n) % size = n := by
  obtain ⟨c, rfl⟩ := hl
  rw [mul_add_mod, mod_eq_of_lt hn]

/-- A position up to a round behind `w` stands in its round or in the one before. -/
theorem mod_cases (hs : 0 < size) (h : v ≤ w) (h' : w ≤ v + size) :
    lapStart size w ≤ v ∧ v % size = v - lapStart size w ∨
      v < lapStart size w ∧ v % size = v + size - lapStart size w := by
  have hw := lapStart_add_mod size w
  have hlt := mod_lt w hs
  rcases lt_or_ge v (lapStart size w) with hv | hv
  · have hmod := lap_add_mod (dvd_lapStart size w) (n := v + size - lapStart size w) (by omega)
    rw [Nat.add_sub_cancel' (by omega), Nat.add_mod_right] at hmod
    exact .inr ⟨hv, hmod⟩
  · have hmod := lap_add_mod (dvd_lapStart size w) (n := v - lapStart size w) (by omega)
    rw [Nat.add_sub_cancel' hv] at hmod
    exact .inl ⟨hv, hmod⟩

theorem mod_ne_mod (h : x < y) (h' : y < x + size) : x % size ≠ y % size := by
  intro he
  have hdvd : size ∣ y - x := (modEq_iff_dvd' h.le).1 he
  have := le_of_dvd (by omega) hdvd
  omega

variable {β : Type*} {b b' : ℕ → β} {bs : List β} {n p : ℕ}

theorem span_congr_lapped (hl : size ∣ l) (hend : p + n ≤ size)
    (h : ∀ y, l + p ≤ y → y < l + p + n → b (y % size) = b' (y % size)) :
    span b p n = span b' p n := by
  refine span_congr fun k hk hkn => ?_
  have hcell := h (l + k) (by omega) (by omega)
  rwa [lap_add_mod hl (by omega)] at hcell

/-- What is written within a round, and up to a round ahead of `v`, leaves the cells from `v` up to there alone. -/
theorem blit_lapped (hl : size ∣ l) (hend : p + bs.length ≤ size) (hv : v ≤ y) (hy : y < l + p)
    (hround : l + p + bs.length ≤ v + size) : blit b p bs (y % size) = b (y % size) := by
  apply blit_of_disjoint
  by_contra hin
  rw [not_or, not_lt, not_le] at hin
  have hmod : (l + y % size) % size = y % size := lap_add_mod hl (by omega)
  exact mod_ne_mod (x := y) (y := l + y % size) (by omega) (by omega) hmod.symm

end Qcacld.Support

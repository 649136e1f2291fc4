import Mathlib.Data.List.DropRight
import Mathlib.Order.Basic

/-!
# Support — Tiled

Extents that lie one behind the other, and the longest end of a list that meets a condition.  A walk from extent to extent that is to stop at a position stops at the first extent that does not begin before it (`Tiled.split`).  Nothing here is about this driver.
-/

namespace Qcacld.Support
open List Nat

variable {α : Type*}

/-- The extents lie one behind the other from `a` to `b`. -/
def Tiled (start len : α → ℕ) : ℕ → List α → ℕ → Prop
  | a, [], b => a = b
  | a, x :: xs, b => start x = a ∧ 0 < len x ∧ Tiled start len (a + len x) xs b

section Tiled
variable {start len : α → ℕ} {a b c : ℕ} {x : α} {xs ys : List α}

theorem Tiled.le (h : Tiled start len a xs b) : a ≤ b := by
  induction xs generalizing a with
  | nil => exact le_of_eq h
  | cons x xs ih => exact le_of_add_right_le (ih h.2.2)

theorem Tiled.mem (h : Tiled start len a xs b) (hx : x ∈ xs) :
    a ≤ start x ∧ 0 < len x ∧ start x + len x ≤ b := by
  induction xs generalizing a with
  | nil => exact nomatch hx
  | cons y ys ih =>
    obtain ⟨rfl, hlen, ht⟩ := h
    rcases mem_cons.1 hx with rfl | hx
    · exact ⟨le_refl _, hlen, ht.le⟩
    · exact ⟨le_of_add_right_le (ih ht hx).1, (ih ht hx).2⟩

theorem Tiled.append (h : Tiled start len a xs b) (h' : Tiled start len b ys c) :
    Tiled start len a (xs ++ ys) c := by
  induction xs generalizing a with
  | nil =>
    obtain rfl : a = b := h
    exact h'
  | cons x xs ih => exact ⟨h.1, h.2.1, ih h.2.2⟩

theorem Tiled.concat (h : Tiled start len a xs b) (hx : start x = b) (hlen : 0 < len x) :
    Tiled start len a (xs ++ [x]) (b + len x) :=
  h.append ⟨hx, hlen, rfl⟩

theorem Tiled.nodup (h : Tiled start len a xs b) : (xs.map start).Nodup := by
  induction xs generalizing a with
  | nil => exact nodup_nil
  | cons x xs ih =>
    obtain ⟨rfl, hlen, ht⟩ := h
    refine nodup_cons.2 ⟨fun hmem => ?_, ih ht⟩
    obtain ⟨y, hy, hxy⟩ := mem_map.1 hmem
    have hle := (ht.mem hy).1
    omega

theorem Tiled.length_le (h : Tiled start len a xs b) : a + xs.length ≤ b := by
  induction xs generalizing a with
  | nil => exact le_of_eq h
  | cons x xs ih =>
    obtain ⟨-, hlen, ht⟩ := h
    have := ih ht
    rw [length_cons]
    omega

theorem Tiled.ne_nil (h : Tiled start len a xs b) (hab : a < b) : xs ≠ [] := by
  rintro rfl
  exact lt_irrefl a (lt_of_lt_of_eq hab h.symm)

/-- The extents that begin before `c`, and those that do not. -/
theorem Tiled.split (h : Tiled start len a xs b) (hc : c ≤ b) :
    ∃ ys zs q, xs = ys ++ zs ∧ Tiled start len a ys q ∧ Tiled start len q zs b ∧ c ≤ q ∧
      ∀ y ∈ ys, start y < c := by
  induction xs generalizing a with
  | nil =>
    obtain rfl : a = b := h
    exact ⟨[], [], a, rfl, rfl, rfl, hc, fun _ hy => nomatch hy⟩
  | cons x xs ih =>
    rcases lt_or_ge a c with hac | hca
    · obtain ⟨rfl, hlen, ht⟩ := h
      obtain ⟨ys, zs, q, rfl, hys, hzs, hq, hlt⟩ := ih ht
      exact ⟨x :: ys, zs, q, rfl, ⟨rfl, hlen, hys⟩, hzs, hq, forall_mem_cons.2 ⟨hac, hlt⟩⟩
    · exact ⟨[], x :: xs, a, rfl, rfl, h, hca, fun _ hy => nomatch hy⟩

end Tiled

theorem rtakeWhile_append {p : α → Bool} {ys zs : List α} (hz : ∀ z ∈ zs, p z)
    (hy : ∀ h : ys ≠ [], ¬ p (ys.getLast h)) : (ys ++ zs).rtakeWhile p = zs := by
  induction zs using reverseRecOn with
  | nil =>
    rw [append_nil]
    exact rtakeWhile_eq_nil_iff.2 hy
  | append_singleton zs z ih =>
    rw [← append_assoc, rtakeWhile_concat_pos p _ z (hz z (by simp)),
      ih fun z' hz' => hz z' (mem_append_left _ hz')]

end Qcacld.Support

import Mathlib.Algebra.BigOperators.Group.List.Basic
import Mathlib.Algebra.Group.Int.Defs
import Mathlib.Data.List.Nodup
import Mathlib.Data.List.Perm.Lattice
import Mathlib.Tactic.Abel

/-!
# Support — Tally

The tally of a weight over a list without repeats, and how it changes when one member's weight changes or one member comes or goes: the accounting of a counter kept beside a list.  Nothing here is about this driver.
-/

namespace Qcacld.Support
open List Nat

variable {ι M : Type*}

def tally [AddCommMonoid M] (f : ι → M) (l : List ι) : M := (l.map f).sum

section Monoid
variable [AddCommMonoid M] {f g : ι → M} {l l' : List ι}

@[simp] theorem tally_nil : tally f [] = 0 := rfl

@[simp] theorem tally_cons (x : ι) : tally f (x :: l) = f x + tally f l := by
  simp [tally]

@[simp] theorem tally_append : tally f (l ++ l') = tally f l + tally f l' := by
  simp [tally]

theorem tally_congr (h : ∀ x ∈ l, f x = g x) : tally f l = tally g l := by
  rw [tally, map_congr_left h, tally]

theorem tally_perm (h : l.Perm l') : tally f l = tally f l' := (h.map f).sum_eq

variable [DecidableEq ι]

theorem tally_eq_add_filter (h : l.Nodup) (q : ι) :
    tally f l = (if q ∈ l then f q else 0) + tally f (l.filter (· ≠ q)) := by
  induction l with
  | nil => simp
  | cons x l ih =>
    obtain ⟨hx, hl⟩ := nodup_cons.1 h
    have ih := ih hl
    by_cases hq : x = q
    · subst hq
      have hf : l.filter (· ≠ x) = l :=
        filter_eq_self.2 fun y hy => by
          simpa using ne_of_mem_of_not_mem hy hx
      rw [tally_cons, if_pos mem_cons_self, filter_cons_of_neg (by simp), hf]
    · rw [tally_cons, ih, filter_cons_of_pos (by simpa using hq), tally_cons]
      simp only [mem_cons, Ne.symm hq, false_or]
      abel

/-- Lists with the same members but for `q`, under weights that agree but for `q`, have the same tally but for `q`. -/
theorem tally_others (h : l.Nodup) (h' : l'.Nodup) {q : ι} (hf : ∀ x, x ≠ q → g x = f x)
    (hm : ∀ x, x ≠ q → (x ∈ l' ↔ x ∈ l)) :
    tally g (l'.filter (· ≠ q)) = tally f (l.filter (· ≠ q)) := by
  have hp : (l'.filter (· ≠ q)).Perm (l.filter (· ≠ q)) := by
    refine (perm_ext_iff_of_nodup (h'.filter _) (h.filter _)).2 fun x => ?_
    by_cases hx : x = q
    · simp [hx]
    · simp [hx, hm x hx]
  rw [tally_perm hp]
  refine tally_congr fun x hx => hf x ?_
  simpa using (mem_filter.1 hx).2

end Monoid

/-- **One member changes**: the tally changes by what the member weighed and what it weighs now. -/
theorem tally_update [AddCommGroup M] [DecidableEq ι] {f g : ι → M} {l l' : List ι} (h : l.Nodup)
    (h' : l'.Nodup) {q : ι} (hf : ∀ x, x ≠ q → g x = f x) (hm : ∀ x, x ≠ q → (x ∈ l' ↔ x ∈ l)) :
    tally g l' = tally f l - (if q ∈ l then f q else 0) + (if q ∈ l' then g q else 0) := by
  rw [tally_eq_add_filter (f := f) h q, tally_eq_add_filter (f := g) h' q, tally_others h h' hf hm]
  abel

/-! ### Counts -/

section Nonneg
variable {f : ι → ℤ} {l : List ι}

theorem tally_nonneg (h : ∀ x ∈ l, 0 < f x) : 0 ≤ tally f l := by
  induction l with
  | nil => exact Int.le_refl 0
  | cons x l ih =>
    have hx := h x mem_cons_self
    have hl := ih fun y hy => h y (mem_cons_of_mem _ hy)
    rw [tally_cons]
    omega

theorem le_tally (h : ∀ x ∈ l, 0 < f x) {x : ι} (hx : x ∈ l) : f x ≤ tally f l := by
  induction l with
  | nil => cases hx
  | cons y l ih =>
    have hy := h y mem_cons_self
    have hl : ∀ z ∈ l, 0 < f z := fun z hz => h z (mem_cons_of_mem _ hz)
    have hn := tally_nonneg hl
    rw [tally_cons]
    rcases mem_cons.1 hx with rfl | hx
    · omega
    · have := ih hl hx
      omega

theorem tally_ne_zero_iff (h : ∀ x ∈ l, 0 < f x) : tally f l ≠ 0 ↔ l ≠ [] := by
  cases l with
  | nil => simp
  | cons x l =>
    have hx := h x mem_cons_self
    have hle := le_tally h mem_cons_self
    exact iff_of_true (by omega) (cons_ne_nil x l)

end Nonneg

theorem tally_le_of_sublist {f : ι → ℕ} {l l' : List ι} (h : l.Sublist l') :
    tally f l ≤ tally f l' := by
  induction h with
  | slnil => exact le_refl 0
  | cons x _ ih =>
    rw [tally_cons]
    exact le_add_left_of_le ih
  | cons_cons x _ ih =>
    rw [tally_cons, tally_cons]
    exact Nat.add_le_add_left ih (f x)

end Qcacld.Support

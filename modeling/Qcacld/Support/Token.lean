import Mathlib.Algebra.Group.Int.Defs
import Mathlib.Data.Option.Basic
import Mathlib.Logic.Function.Basic

/-!
# Support — Token

A count that serves as a token: a call that finds it at zero takes it and holds it until it sets it back to zero; one that finds it taken goes on without.  The calls are a table from names to the points they have got to, and some of the points hold the token.  Nothing here is about this driver.
-/

namespace Qcacld.Support
open Function Option

variable {ι κ α : Type*} {holds : κ → Prop} {calls : ι → Option κ} {count : ℤ} {holder : Option ι}
  {t : ι} {c c' : κ}

/-- The calls at points that hold the token are the holder, if there is one, and no other; and the count is their number. -/
structure Token (holds : κ → Prop) (calls : ι → Option κ) (count : ℤ) (holder : Option ι) :
    Prop where
  count_eq : count = if holder.isSome then 1 else 0
  holds_iff : ∀ t, (∃ c, calls t = some c ∧ holds c) ↔ holder = some t

theorem Token.start : Token holds (fun _ : ι => none) 0 none :=
  ⟨rfl, fun t => by simp⟩

namespace Token

theorem holder_eq (h : Token holds calls count holder) (hc : calls t = some c) (hh : holds c) :
    holder = some t :=
  (h.holds_iff t).1 ⟨c, hc, hh⟩

/-- **One at a time.** -/
theorem exclusive {u : ι} {d : κ} (h : Token holds calls count holder) (hc : calls t = some c)
    (hh : holds c) (hd : calls u = some d) (hu : holds d) : t = u :=
  some.inj ((h.holder_eq hc hh).symm.trans (h.holder_eq hd hu))

theorem exists_holder (h : Token holds calls count holder) (hpos : 0 < count) :
    ∃ t c, holder = some t ∧ calls t = some c ∧ holds c := by
  cases holder with
  | none => simp [h.count_eq] at hpos
  | some t =>
    obtain ⟨c, hc, hh⟩ := (h.holds_iff t).2 rfl
    exact ⟨t, c, rfl, hc, hh⟩

theorem free (h : Token holds calls count holder) (hpos : ¬ 0 < count) :
    holder = none ∧ count = 0 := by
  cases holder with
  | none => simp [h.count_eq]
  | some t => simp [h.count_eq] at hpos

theorem ne_holder (h : Token holds calls count holder) (hc : ∀ c, calls t = some c → ¬ holds c) :
    holder ≠ some t := by
  intro heq
  obtain ⟨c, hct, hh⟩ := (h.holds_iff t).2 heq
  exact hc c hct hh

variable [DecidableEq ι]

theorem keep (h : Token holds calls count holder) (hc : calls t = some c) (hh : holds c)
    (hh' : holds c') : Token holds (update calls t (some c')) count holder where
  count_eq := h.count_eq
  holds_iff u := by
    by_cases hu : u = t
    · subst hu
      simp [hh', h.holder_eq hc hh]
    · simp only [update_of_ne hu]
      exact h.holds_iff u

theorem other {x : Option κ} (h : Token holds calls count holder)
    (hc : ∀ c, calls t = some c → ¬ holds c) (hx : ∀ c, x = some c → ¬ holds c) :
    Token holds (update calls t x) count holder where
  count_eq := h.count_eq
  holds_iff u := by
    by_cases hu : u = t
    · subst hu
      refine iff_of_false ?_ (h.ne_holder hc)
      rintro ⟨c, hcx, hh⟩
      exact hx c (by simpa using hcx) hh
    · simp only [update_of_ne hu]
      exact h.holds_iff u

theorem take (h : Token holds calls count none) (hh : holds c) :
    Token holds (update calls t (some c)) 1 (some t) where
  count_eq := rfl
  holds_iff u := by
    by_cases hu : u = t
    · subst hu
      simp [hh]
    · simp only [update_of_ne hu, some.injEq, Ne.symm hu, iff_false]
      rw [h.holds_iff u]
      simp

theorem release {x : Option κ} (h : Token holds calls count holder) (hc : calls t = some c)
    (hh : holds c) (hx : ∀ c, x = some c → ¬ holds c) :
    Token holds (update calls t x) 0 none where
  count_eq := rfl
  holds_iff u := by
    refine iff_of_false ?_ (by simp)
    rintro ⟨d, hd, hhd⟩
    by_cases hu : u = t
    · subst hu
      exact hx d (by simpa using hd) hhd
    · rw [update_of_ne hu] at hd
      exact hu (h.exclusive hd hhd hc hh)

end Token

/-! ### What the holder has in hand -/

/-- What the holder has in hand, by the point it has got to. -/
def inHand (f : κ → α) (none' : α) (calls : ι → Option κ) (holder : Option ι) : α :=
  holder.elim none' fun t => (calls t).elim none' f

section InHand
variable {f : κ → α} {none' : α}

@[simp] theorem inHand_none : inHand f none' calls none = none' := rfl

theorem inHand_of_eq (hc : calls t = some c) : inHand f none' calls (some t) = f c := by
  simp [inHand, hc]

theorem Token.inHand_eq (h : Token holds calls count holder) (hc : calls t = some c)
    (hh : holds c) : inHand f none' calls holder = f c := by
  rw [h.holder_eq hc hh, inHand_of_eq hc]

variable [DecidableEq ι]

@[simp] theorem inHand_update_self : inHand f none' (update calls t (some c)) (some t) = f c := by
  simp [inHand]

theorem inHand_update_of_ne {x : Option κ} (ht : holder ≠ some t) :
    inHand f none' (update calls t x) holder = inHand f none' calls holder := by
  cases holder with
  | none => rfl
  | some u =>
    have hu : u ≠ t := fun h => ht (congrArg some h)
    simp [inHand, update_of_ne hu]

end InHand

end Qcacld.Support

import Mathlib.Logic.Basic

/-!
# Support — Fallible

Computations that end with a result or an error, as `Except`: what it says of the parts that the whole has a result, and the invariant rule for a loop that stops at the first error.  Nothing here is about this driver.
-/

namespace Qcacld.Support

variable {ε α β σ ι : Type*}

theorem bind_eq_ok {x : Except ε α} {f : α → Except ε β} {b : β} :
    x.bind f = .ok b ↔ ∃ a, x = .ok a ∧ f a = .ok b := by
  cases x with
  | error e => simp [Except.bind]
  | ok a => simp [Except.bind]

/-- **The loop rule.**  What holds of no elements at the start, and is kept by every turn that has a result, holds of all elements when the loop has a result. -/
theorem foldlM_ok_rule {step : σ → ι → Except ε σ} {l : List ι} (Inv : List ι → σ → Prop)
    (hstep : ∀ pre x post s s', l = pre ++ x :: post → Inv pre s → step s x = .ok s' →
      Inv (pre ++ [x]) s')
    {s s' : σ} (h₀ : Inv [] s) (h : l.foldlM step s = .ok s') : Inv l s' := by
  suffices hall : ∀ post pre s, l = pre ++ post → Inv pre s → post.foldlM step s = .ok s' →
      Inv l s' from hall l [] s rfl h₀ h
  intro post
  induction post with
  | nil =>
    intro pre s hl hi hs
    rw [List.append_nil] at hl
    cases hs
    exact hl ▸ hi
  | cons x post ih =>
    intro pre s hl hi hs
    rw [List.foldlM_cons] at hs
    obtain ⟨s₁, h₁, hs⟩ := bind_eq_ok.1 hs
    exact ih (pre ++ [x]) s₁ (by simp [hl]) (hstep pre x post s s₁ hl hi h₁) hs

end Qcacld.Support

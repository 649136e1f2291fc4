import Mathlib.Data.Option.Basic
import Mathlib.Logic.Function.Basic

/-!
# Support — Runs

Machines with partial, labelled steps: the runs of a list of events, the states guarded runs reach, and the invariant rule.  A guard is a condition on the event and the state it is taken in; `Reach` under the guard `fun _ _ => True` is plain reachability.  Nothing here is about this driver.
-/

namespace Qcacld.Support

theorem guarded_eq_some {α : Type} {p : Prop} [Decidable p] {a b : α} :
    ((do guard p; return a) : Option α) = some b ↔ p ∧ a = b := by
  by_cases h : p
  · simp [guard, h]
  · simp only [guard, h, if_false, false_and]
    exact iff_of_false (fun h => by cases h) id

theorem guard_bind_eq_some {α : Type} {p : Prop} [Decidable p] {x : Option α} {b : α} :
    ((do guard p; x) : Option α) = some b ↔ p ∧ x = some b := by
  by_cases h : p
  · simp [guard, h]
  · simp only [guard, h, if_false, false_and]
    exact iff_of_false (fun h => by cases h) id

/-- A machine: where it may start, and what each event does.  `none` is an event the state does not enable. -/
structure Machine (σ ε : Type*) where
  init : σ → Prop
  step : σ → ε → Option σ

namespace Machine

variable {σ ε : Type*} {M : Machine σ ε} {ok ok' : σ → ε → Prop}

/-- The states reached from an initial one by events that all meet `ok` where they are taken. -/
inductive Reach (M : Machine σ ε) (ok : σ → ε → Prop) : σ → Prop where
  | start {s : σ} (h : M.init s) : Reach M ok s
  | step {s s' : σ} {e : ε} (t : Reach M ok s) (hok : ok s e) (h : M.step s e = some s') :
      Reach M ok s'

def run (M : Machine σ ε) (s : σ) : List ε → Option σ
  | [] => some s
  | e :: es => (M.step s e).bind fun s' => M.run s' es

/-- Every event of the run from `s` meets `ok` where it is taken. -/
def Along (M : Machine σ ε) (ok : σ → ε → Prop) (s : σ) : List ε → Prop
  | [] => True
  | e :: es => ok s e ∧ ∀ s', M.step s e = some s' → M.Along ok s' es

theorem run_cons (s : σ) (e : ε) (es : List ε) :
    M.run s (e :: es) = (M.step s e).bind fun s' => M.run s' es := rfl

theorem along_cons_of_step {s s' : σ} {e : ε} {es : List ε} (h : M.step s e = some s') :
    M.Along ok s (e :: es) ↔ ok s e ∧ M.Along ok s' es := by
  refine and_congr_right' ⟨fun ha => ha s' h, fun ha t ht => ?_⟩
  rw [h] at ht
  cases ht
  exact ha

instance decidableAlong [∀ s e, Decidable (ok s e)] (s : σ) :
    (es : List ε) → Decidable (M.Along ok s es)
  | [] => .isTrue trivial
  | e :: es =>
    match h : M.step s e with
    | none => decidable_of_iff (ok s e)
        ⟨fun ho => ⟨ho, fun s' h' => by rw [h] at h'; cases h'⟩, And.left⟩
    | some s' =>
      have := decidableAlong s' es
      decidable_of_iff _ (along_cons_of_step h).symm

/-- **The invariant rule.**  What holds at the start and is kept by every guarded step holds
wherever guarded runs go. -/
theorem Reach.invariant (Inv : σ → Prop) (h₀ : ∀ s, M.init s → Inv s)
    (hs : ∀ s e s', Inv s → ok s e → M.step s e = some s' → Inv s') {s : σ}
    (h : M.Reach ok s) : Inv s := by
  induction h with
  | start h => exact h₀ _ h
  | step _ hok h ih => exact hs _ _ _ ih hok h

theorem Reach.mono (hok : ∀ s e, ok s e → ok' s e) {s : σ} (h : M.Reach ok s) : M.Reach ok' s := by
  induction h with
  | start h => exact .start h
  | step _ ho h ih => exact .step ih (hok _ _ ho) h

theorem Reach.run {s s' : σ} {es : List ε} (t : M.Reach ok s) (ha : M.Along ok s es)
    (h : M.run s es = some s') : M.Reach ok s' := by
  induction es generalizing s with
  | nil => cases h; exact t
  | cons e es ih =>
    obtain ⟨hok, ha⟩ := ha
    rw [run_cons, Option.bind_eq_some_iff] at h
    obtain ⟨s₁, h₁, h⟩ := h
    exact ih (.step t hok h₁) (ha s₁ h₁) h

theorem along_true (s : σ) (es : List ε) : M.Along (fun _ _ => True) s es := by
  induction es generalizing s with
  | nil => trivial
  | cons e es ih => exact ⟨trivial, fun s' _ => ih s'⟩

theorem reach_of_run {s s' : σ} {es : List ε} (h₀ : M.init s) (h : M.run s es = some s') :
    M.Reach (fun _ _ => True) s' :=
  Reach.run (.start h₀) (along_true s es) h

/-! ### Runs that are evaluated -/

section
variable {s : σ} {es : List ε} {p q : σ → Prop} [DecidablePred q]

theorem exists_run (h : (M.run s es).any (fun t => decide (q t)) = true) :
    ∃ t, M.run s es = some t ∧ q t := by
  obtain ⟨t, ht, hq⟩ := (Option.any_eq_true _ _).1 h
  exact ⟨t, ht, of_decide_eq_true hq⟩

/-- Of the state a run ends in holds what follows from what is decided of it. -/
theorem exists_run_of (h : (M.run s es).any (fun t => decide (q t)) = true)
    (hp : ∀ t, q t → p t) : ∃ t, M.run s es = some t ∧ p t := by
  obtain ⟨t, ht, hq⟩ := exists_run h
  exact ⟨t, ht, hp t hq⟩

/-- A guarded run. -/
theorem exists_reach (h₀ : M.init s) (ha : M.Along ok s es)
    (h : (M.run s es).any (fun t => decide (q t)) = true) :
    ∃ t, M.run s es = some t ∧ M.Reach ok t ∧ q t := by
  obtain ⟨t, ht, hq⟩ := exists_run h
  exact ⟨t, ht, .run (.start h₀) ha ht, hq⟩

theorem exists_reach_of (h₀ : M.init s) (ha : M.Along ok s es)
    (h : (M.run s es).any (fun t => decide (q t)) = true) (hp : ∀ t, M.Reach ok t → q t → p t) :
    ∃ t, M.run s es = some t ∧ p t := by
  obtain ⟨t, ht, hr, hq⟩ := exists_reach h₀ ha h
  exact ⟨t, ht, hp t hr hq⟩

/-- What holds wherever guarded runs go holds at the end of one. -/
theorem exists_right (hp : ∀ t, M.Reach ok t → p t) (h₀ : M.init s) (ha : M.Along ok s es)
    (h : (M.run s es).any (fun t => decide (q t)) = true) :
    ∃ t, M.run s es = some t ∧ p t ∧ q t :=
  exists_reach_of h₀ ha h fun t hr hq => ⟨hp t hr, hq⟩

end

end Machine

end Qcacld.Support

import Mathlib.Logic.Basic

/-!
# Support — Logged

Programs over a state that log what they do, and what the log says about a resource that some of the entries end: freeing a buffer, say, or handing it on.  A program `Keeps` the resource when none of its entries ends it, `Ends` it when the last one does and no other, and `Handles` it when it either keeps it and asks its caller to go on, or ends it and asks the caller to return.  The three are closed under sequencing, so each is read off the text of a program.  Nothing here is about this driver.
-/

namespace Qcacld.Support
open List

/-- A program: from a state, a result, the next state and the entries logged. -/
def Logged (σ ε α : Type) := σ → α × σ × List ε

/-- How the body of a `switch` is left: at its end, or by a `return` of the whole function. -/
inductive Exit where
  | brk
  | ret

namespace Logged

variable {σ ε α β : Type}

instance : Monad (Logged σ ε) where
  pure a s := (a, s, [])
  bind x f s :=
    let (a, s₁, l₁) := x s
    let (b, s₂, l₂) := f a s₁
    (b, s₂, l₁ ++ l₂)

def emit (e : ε) : Logged σ ε Unit := fun s => ((), s, [e])

def gets (f : σ → α) : Logged σ ε α := fun s => (f s, s, [])

def modify (f : σ → σ) : Logged σ ε Unit := fun s => ((), f s, [])

/-- Do `x` under a condition. -/
def when (c : Prop) [Decidable c] (x : Logged σ ε Unit) : Logged σ ε Unit :=
  if c then x else pure ()

def log (x : Logged σ ε α) (s : σ) : List ε := (x s).2.2

@[simp] theorem log_pure (a : α) (s : σ) : (pure a : Logged σ ε α).log s = [] := rfl

@[simp] theorem log_emit (e : ε) (s : σ) : (emit e).log s = [e] := rfl

theorem log_bind (x : Logged σ ε α) (f : α → Logged σ ε β) (s : σ) :
    (x >>= f).log s = x.log s ++ (f (x s).1).log (x s).2.1 := rfl

variable {D : ε → Prop}

/-- The last entry ends the resource, and no other does. -/
def EndsOnce (D : ε → Prop) (l : List ε) : Prop :=
  ∃ pre e, l = pre ++ [e] ∧ D e ∧ ∀ a ∈ pre, ¬ D a

theorem EndsOnce.prepend {l l' : List ε} (h : EndsOnce D l) (hk : ∀ e ∈ l', ¬ D e) :
    EndsOnce D (l' ++ l) := by
  obtain ⟨pre, e, rfl, he, hp⟩ := h
  refine ⟨l' ++ pre, e, (append_assoc _ _ _).symm, he, fun a ha => ?_⟩
  rcases mem_append.1 ha with ha | ha
  · exact hk a ha
  · exact hp a ha

theorem not_endsOnce {l : List ε} (hk : ∀ e ∈ l, ¬ D e) : ¬ EndsOnce D l := by
  rintro ⟨pre, e, rfl, he, -⟩
  exact hk e (mem_append_right _ (mem_singleton_self e)) he

def Keeps (D : ε → Prop) (x : Logged σ ε α) : Prop := ∀ s, ∀ e ∈ x.log s, ¬ D e

def Ends (D : ε → Prop) (x : Logged σ ε α) : Prop := ∀ s, EndsOnce D (x.log s)

/-- A body that keeps the resource and breaks, or ends it and returns. -/
def Handles (D : ε → Prop) (x : Logged σ ε Exit) : Prop :=
  ∀ s, ((x s).1 = .brk ∧ ∀ e ∈ x.log s, ¬ D e) ∨ ((x s).1 = .ret ∧ EndsOnce D (x.log s))

/-! ### Programs that keep it -/

theorem keeps_pure (a : α) : Keeps D (pure a : Logged σ ε α) := fun _ _ h => nomatch h

theorem keeps_gets (f : σ → α) : Keeps D (gets f : Logged σ ε α) := fun _ _ h => nomatch h

theorem keeps_modify (f : σ → σ) : Keeps D (modify f : Logged σ ε Unit) := fun _ _ h => nomatch h

theorem keeps_emit {e : ε} (h : ¬ D e) : Keeps D (emit e : Logged σ ε Unit) :=
  fun _ _ he => mem_singleton.1 he ▸ h

theorem keeps_bind {x : Logged σ ε α} {f : α → Logged σ ε β} (hx : Keeps D x)
    (hf : ∀ a, Keeps D (f a)) : Keeps D (x >>= f) := by
  intro s e he
  rw [log_bind] at he
  rcases mem_append.1 he with he | he
  · exact hx s e he
  · exact hf _ _ e he

theorem keeps_when {c : Prop} [Decidable c] {x : Logged σ ε Unit} (hx : Keeps D x) :
    Keeps D (when c x) := by
  rw [when]
  split
  · exact hx
  · exact keeps_pure ()

/-! ### Programs that leave a part of the state alone -/

section
variable {γ : Type} {π : σ → γ}

/-- The part `π` of the state is as it was. -/
def Leaves (π : σ → γ) (x : Logged σ ε α) : Prop := ∀ s, π (x s).2.1 = π s

theorem leaves_pure (a : α) : Leaves π (pure a : Logged σ ε α) := fun _ => rfl

theorem leaves_gets (f : σ → α) : Leaves π (gets f : Logged σ ε α) := fun _ => rfl

theorem leaves_emit (e : ε) : Leaves π (emit e : Logged σ ε Unit) := fun _ => rfl

theorem leaves_modify {f : σ → σ} (h : ∀ s, π (f s) = π s) :
    Leaves π (modify f : Logged σ ε Unit) := h

theorem leaves_bind {x : Logged σ ε α} {f : α → Logged σ ε β} (hx : Leaves π x)
    (hf : ∀ a, Leaves π (f a)) : Leaves π (x >>= f) :=
  fun s => (hf _ _).trans (hx s)

theorem leaves_when {c : Prop} [Decidable c] {x : Logged σ ε Unit} (hx : Leaves π x) :
    Leaves π (when c x) := by
  rw [when]
  split
  · exact hx
  · exact leaves_pure ()

end

/-! ### Programs that end it -/

theorem ends_emit {e : ε} (h : D e) : Ends D (emit e : Logged σ ε Unit) :=
  fun _ => ⟨[], e, rfl, h, fun _ ha => nomatch ha⟩

theorem ends_bind {x : Logged σ ε α} {f : α → Logged σ ε β} (hx : Keeps D x)
    (hf : ∀ a, Ends D (f a)) : Ends D (x >>= f) :=
  fun s => (hf _ _).prepend (hx s)

/-! ### Bodies -/

theorem handles_brk : Handles D (pure .brk : Logged σ ε Exit) :=
  fun _ => Or.inl ⟨rfl, fun _ h => nomatch h⟩

theorem handles_bind {x : Logged σ ε α} {f : α → Logged σ ε Exit} (hx : Keeps D x)
    (hf : ∀ a, Handles D (f a)) : Handles D (x >>= f) := by
  intro s
  rcases hf (x s).1 (x s).2.1 with ⟨he, hk⟩ | ⟨he, hk⟩
  · refine Or.inl ⟨he, fun e hm => ?_⟩
    rw [log_bind] at hm
    rcases mem_append.1 hm with hm | hm
    · exact hx s e hm
    · exact hk e hm
  · exact Or.inr ⟨he, hk.prepend (hx s)⟩

theorem handles_ret {x : Logged σ ε Unit} (hx : Ends D x) :
    Handles D (x >>= fun _ => pure .ret) := by
  refine fun s => Or.inr ⟨rfl, ?_⟩
  rw [log_bind, log_pure, append_nil]
  exact hx s

theorem handles_ite {c : Prop} [Decidable c] {x y : Logged σ ε Exit} (hx : c → Handles D x)
    (hy : ¬ c → Handles D y) : Handles D (if c then x else y) := by
  split
  · exact hx ‹_›
  · exact hy ‹_›

/-- What follows the `switch` is done when its body breaks. -/
def andThen (x : Logged σ ε Exit) (y : Logged σ ε Unit) : Logged σ ε Unit := do
  match ← x with
  | .brk => y
  | .ret => pure ()

theorem Handles.andThen {x : Logged σ ε Exit} {y : Logged σ ε Unit} (hx : Handles D x)
    (hy : Ends D y) : Ends D (x.andThen y) := by
  intro s
  rw [Logged.andThen, log_bind]
  rcases hx s with ⟨he, hk⟩ | ⟨he, hk⟩
  · rw [he]
    exact (hy _).prepend hk
  · rw [he]
    exact (append_nil (x.log s)).symm ▸ hk

end Logged

end Qcacld.Support

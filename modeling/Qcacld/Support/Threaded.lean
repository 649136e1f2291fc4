import Qcacld.Support.Chain

/-!
# Support — Threaded

Lists threaded through `next` pointers and ended by NULL.  `Threaded next p l` says that the nodes from `p` on are those of `l`; such a list has no cycle (`Threaded.nodup`) and is determined by its head (`Threaded.unique`).  The pointer writes are those of a push (`Threaded.push`), of an append (`Threaded.append`) and of an unlink behind a node (`Threaded.unlink_behind`); `seek` is a search that remembers the node before, and `seek_spec` what it finds.  Nothing here is about this driver.
-/

namespace Qcacld.Support
open Function List Option Nat

variable {α : Type*} {next next' : α → Option α} {p : Option α} {a c x : α} {l l₁ l₂ : List α}

/-- The nodes from `p` on are those of `l`, and after them comes NULL. -/
def Threaded (next : α → Option α) : Option α → List α → Prop
  | p, [] => p = none
  | p, a :: l => p = some a ∧ Threaded next (next a) l

@[simp] theorem threaded_nil : Threaded next p [] ↔ p = none := Iff.rfl

instance decidableThreaded [DecidableEq α] : (p : Option α) → (l : List α) →
    Decidable (Threaded next p l)
  | p, [] => inferInstanceAs (Decidable (p = none))
  | p, a :: l =>
    have := decidableThreaded (next a) l
    inferInstanceAs (Decidable (p = some a ∧ Threaded next (next a) l))

theorem Threaded.head (h : Threaded next p l) : p = l.head? := by
  cases l with
  | nil => exact h
  | cons a l => exact h.1

theorem Threaded.congr (h : Threaded next p l) (hn : ∀ y ∈ l, next' y = next y) :
    Threaded next' p l := by
  induction l generalizing p with
  | nil => exact h
  | cons a l ih =>
    obtain ⟨rfl, h⟩ := h
    refine ⟨rfl, ih ?_ fun y hy => hn y (mem_cons_of_mem a hy)⟩
    rw [hn a mem_cons_self]
    exact h

theorem Threaded.unique (h₁ : Threaded next p l₁) (h₂ : Threaded next p l₂) : l₁ = l₂ := by
  induction l₁ generalizing p l₂ with
  | nil =>
    obtain rfl : p = none := h₁
    exact (head?_eq_none_iff.1 h₂.head.symm).symm
  | cons a l₁ ih =>
    obtain ⟨rfl, h₁⟩ := h₁
    cases l₂ with
    | nil => exact absurd h₂ (some_ne_none a)
    | cons b l₂ =>
      obtain ⟨hb, h₂⟩ := h₂
      obtain rfl := some.inj hb
      rw [ih h₁ h₂]

/-- What follows a node is threaded from its `next`. -/
theorem Threaded.after (h : Threaded next p (l₁ ++ a :: l₂)) : Threaded next (next a) l₂ := by
  induction l₁ generalizing p with
  | nil => exact h.2
  | cons b l₁ ih => exact ih h.2

theorem Threaded.nodup (h : Threaded next p l) : l.Nodup := by
  induction l generalizing p with
  | nil => exact nodup_nil
  | cons a l ih =>
    refine nodup_cons.2 ⟨fun ha => ?_, ih h.2⟩
    -- from the second occurrence on the list would be the same, and shorter
    obtain ⟨m, n, rfl⟩ := append_of_mem ha
    have heq : m ++ a :: n = n := h.2.unique h.2.after
    have hlen := congrArg length heq
    rw [length_append, length_cons] at hlen
    exact absurd hlen (by omega)

theorem Threaded.next_ne_self (h : Threaded next p l) (ha : a ∈ l) : next a ≠ some a := by
  obtain ⟨m, n, rfl⟩ := append_of_mem ha
  intro hn
  have h' := h.after
  rw [hn] at h'
  have hnd := (nodup_append.1 h.nodup).2.1
  exact (nodup_cons.1 hnd).1 (mem_of_mem_head? h'.head.symm)

theorem Threaded.walk {n : ℕ} (h : Threaded next p l) (hn : l.length ≤ n) :
    walk next n p = some l := by
  induction l generalizing p n with
  | nil =>
    obtain rfl : p = none := h
    exact walk_none n
  | cons a l ih =>
    obtain ⟨rfl, h⟩ := h
    cases n with
    | zero => exact absurd hn (not_succ_le_zero _)
    | succ n => rw [walk_succ, ih h (le_of_succ_le_succ hn), map_some]

theorem Threaded.linked (h : Threaded next p l) : Linked next l := by
  induction l generalizing p with
  | nil => exact linked_nil
  | cons a l ih =>
    refine isChain_cons.2 ⟨fun y hy => ?_, ih h.2⟩
    exact h.2.head.trans hy

theorem Linked.threaded (h : Linked next l) (hn : ∀ x ∈ l.getLast?, next x = none) :
    Threaded next l.head? l := by
  induction l with
  | nil => rfl
  | cons a l ih =>
    refine ⟨rfl, ?_⟩
    cases l with
    | nil => exact hn a rfl
    | cons b l =>
      obtain ⟨hb, hl⟩ := linked_cons_cons.1 h
      rw [hb]
      exact ih hl fun x hx => hn x (by simpa using hx)

section Update
variable [DecidableEq α] {v : Option α}

/-- Thread the nodes of a list in order, and end it with NULL. -/
def threadAll (next : α → Option α) : List α → α → Option α
  | [] => next
  | a :: l => update (threadAll next l) a l.head?

theorem threadAll_of_notMem (hx : x ∉ l) : threadAll next l x = next x := by
  induction l with
  | nil => rfl
  | cons a l ih =>
    rw [threadAll, update_of_ne (ne_of_not_mem_cons hx)]
    exact ih (not_mem_of_not_mem_cons hx)

theorem threaded_threadAll (hd : l.Nodup) : Threaded (threadAll next l) l.head? l := by
  induction l with
  | nil => rfl
  | cons a l ih =>
    obtain ⟨ha, hl⟩ := nodup_cons.1 hd
    refine ⟨rfl, ?_⟩
    rw [threadAll, update_self]
    exact (ih hl).congr fun y hy =>
      update_of_ne (fun e : y = a => ha (e ▸ hy)) l.head? (threadAll next l)

theorem Threaded.update_of_notMem (h : Threaded next p l) (hx : x ∉ l) :
    Threaded (update next x v) p l :=
  h.congr fun y hy => update_of_ne (fun e : y = x => hx (e ▸ hy)) v next

/-- **A push.** -/
theorem Threaded.push (h : Threaded next p l) (hx : x ∉ l) :
    Threaded (update next x p) (some x) (x :: l) := by
  refine ⟨rfl, ?_⟩
  rw [update_self]
  exact h.update_of_notMem hx

/-- The list without a node that is not the first: the node before is hooked to the node behind. -/
theorem Threaded.unlink_behind (h : Threaded next p (l₁ ++ c :: x :: l₂)) :
    Threaded (update next c (next x)) p (l₁ ++ c :: l₂) := by
  induction l₁ generalizing p with
  | nil =>
    obtain ⟨rfl, hc, hx⟩ := h
    refine ⟨rfl, ?_⟩
    rw [update_self]
    refine hx.update_of_notMem fun hm => ?_
    have hn : (c :: x :: l₂).Nodup := nodup (p := some c) ⟨rfl, hc, hx⟩
    exact (nodup_cons.1 hn).1 (mem_cons_of_mem x hm)
  | cons b l₁ ih =>
    have hb : b ≠ c := by
      rintro rfl
      exact (nodup_cons.1 h.nodup).1 (mem_append_right _ mem_cons_self)
    obtain ⟨rfl, h⟩ := h
    refine ⟨rfl, ?_⟩
    rw [update_of_ne hb]
    exact ih h

theorem Threaded.append (h : Threaded next p (l ++ [c])) (hx : x ∉ l ++ [c]) :
    Threaded (update (update next c (some x)) x none) p (l ++ [c, x]) := by
  have hcx : c ≠ x := fun e => hx (e ▸ mem_append_right l mem_cons_self)
  induction l generalizing p with
  | nil =>
    obtain ⟨rfl, -⟩ := h
    refine ⟨rfl, ?_⟩
    rw [update_of_ne hcx, update_self]
    refine ⟨rfl, ?_⟩
    rw [threaded_nil, update_self]
  | cons b l ih =>
    have hbx : b ≠ x := fun e => hx (e ▸ mem_cons_self)
    have hbc : b ≠ c := by
      rintro rfl
      exact (nodup_cons.1 h.nodup).1 (mem_append_right l mem_cons_self)
    obtain ⟨rfl, h⟩ := h
    refine ⟨rfl, ?_⟩
    rw [update_of_ne hbx, update_of_ne hbc]
    exact ih h fun hm => hx (mem_cons_of_mem b hm)

theorem Threaded.cut (h : Threaded next p (l₁ ++ c :: l₂)) :
    Threaded (update next c none) p (l₁ ++ [c]) := by
  have hd := h.nodup
  induction l₁ generalizing p with
  | nil => exact ⟨h.1, update_self ..⟩
  | cons b l₁ ih =>
    obtain ⟨hb, hd⟩ := nodup_cons.1 hd
    have hbc : b ≠ c := by
      rintro rfl
      exact hb (mem_append_right l₁ mem_cons_self)
    obtain ⟨rfl, h⟩ := h
    refine ⟨rfl, ?_⟩
    rw [update_of_ne hbc]
    exact ih h hd

/-- **One list is hooked behind another.** -/
theorem Threaded.hook {q : Option α} (h : Threaded next p (l₁ ++ [c])) (h₂ : Threaded next q l₂)
    (hd : (l₁ ++ c :: l₂).Nodup) : Threaded (update next c q) p (l₁ ++ c :: l₂) := by
  induction l₁ generalizing p with
  | nil =>
    obtain ⟨rfl, -⟩ := h
    refine ⟨rfl, ?_⟩
    rw [update_self]
    exact h₂.update_of_notMem (nodup_cons.1 hd).1
  | cons b l₁ ih =>
    obtain ⟨hb, hd⟩ := nodup_cons.1 hd
    have hbc : b ≠ c := by
      rintro rfl
      exact hb (mem_append_right l₁ mem_cons_self)
    obtain ⟨rfl, h⟩ := h
    refine ⟨rfl, ?_⟩
    rw [update_of_ne hbc]
    exact ih h hd

end Update

/-! ### Searching -/

inductive Look where
  | found
  | giveUp
  | goOn

/-- How a search ends: at a node, with the one before; or at NULL. -/
inductive Sought (α : Type*) where
  | found (prev : Option α) (x : α)
  | gaveUp
  | ended

/-- Search from a node on, given the node before; `none` when the fuel is gone first. -/
def seek (next : α → Option α) (look : Option α → α → Look) :
    ℕ → Option α → Option α → Option (Sought α)
  | _, _, none => some .ended
  | 0, _, some _ => none
  | n + 1, prev, some a =>
    match look prev a with
    | .found => some (.found prev a)
    | .giveUp => some .gaveUp
    | .goOn => seek next look n (some a) (next a)

def before (prev : Option α) (l : List α) : Option α := l.getLast?.or prev

@[simp] theorem before_nil (prev : Option α) : before prev ([] : List α) = prev := rfl

theorem before_cons (prev : Option α) (a : α) (l : List α) :
    before prev (a :: l) = before (some a) l := by
  cases l with
  | nil => rfl
  | cons b l =>
    rw [before, before, getLast?_cons_cons]
    cases h : (b :: l).getLast? with
    | none => exact absurd (getLast?_eq_none_iff.1 h) (cons_ne_nil b l)
    | some z => rfl

/-- **What a search finds** in a list, when at its nodes it looks for `q`: the first node that has it. -/
theorem seek_spec {k : Option α → α → Look} {q : α → Prop} {u : Option α} {n : ℕ}
    (h : Threaded next p l) (hn : l.length ≤ n) (hprev : ∀ y ∈ l, u ≠ some y)
    (hf : ∀ prev', ∀ y ∈ l, next y ≠ some y → q y → k prev' y = .found)
    (hg : ∀ prev', ∀ y ∈ l, prev' ≠ some y → next y ≠ some y → ¬ q y → k prev' y = .goOn) :
    (∃ l₁ x l₂, l = l₁ ++ x :: l₂ ∧ (∀ y ∈ l₁, ¬ q y) ∧ q x ∧
      seek next k n u p = some (.found (before u l₁) x)) ∨
    ((∀ y ∈ l, ¬ q y) ∧ seek next k n u p = some .ended) := by
  induction l generalizing p u n with
  | nil =>
    obtain rfl : p = none := h
    refine Or.inr ⟨fun y hy => (not_mem_nil hy).elim, ?_⟩
    cases n <;> rfl
  | cons a l ih =>
    have hself := h.next_ne_self mem_cons_self
    have hnd := nodup_cons.1 h.nodup
    obtain ⟨rfl, h⟩ := h
    obtain ⟨n, rfl⟩ := Nat.exists_eq_add_one_of_ne_zero (Nat.ne_zero_of_lt hn)
    by_cases hq : q a
    · refine Or.inl ⟨[], a, l, rfl, fun y hy => (not_mem_nil hy).elim, hq, ?_⟩
      rw [seek, hf u a mem_cons_self hself hq]
      rfl
    · have hgo := hg u a mem_cons_self (hprev a mem_cons_self) hself hq
      have hstep : seek next k (n + 1) u (some a) = seek next k n (some a) (next a) := by
        rw [seek, hgo]
      rcases ih (u := some a) h (le_of_succ_le_succ hn) (fun y hy e => hnd.1 (some.inj e ▸ hy))
          (fun prev' y hy => hf prev' y (mem_cons_of_mem a hy))
          (fun prev' y hy => hg prev' y (mem_cons_of_mem a hy)) with
        ⟨l₁, x, l₂, rfl, hl₁, hx, hs⟩ | ⟨hl, hs⟩
      · refine Or.inl ⟨a :: l₁, x, l₂, rfl, fun y hy => ?_, hx, ?_⟩
        · rcases mem_cons.1 hy with rfl | hy
          · exact hq
          · exact hl₁ y hy
        · rw [hstep, hs, before_cons]
      · refine Or.inr ⟨fun y hy => ?_, hstep.trans hs⟩
        rcases mem_cons.1 hy with rfl | hy
        · exact hq
        · exact hl y hy

end Qcacld.Support

import Mathlib.Data.List.Nodup
import Mathlib.Logic.Function.Basic

/-!
# Support — Tailq

Tail queues whose links live in the elements: each element has the next element and the address of the place that points at it, the queue has its first element and the address of the place at its end.  `Rep` reads the elements off the links; `insertTail` and `remove` keep it, and a queue whose links lead to an element leads to it as long as the links before it stay.  Nothing here is about this driver.
-/

namespace Qcacld.Support
open Function List Option

/-- A place that holds a pointer to an element: the queue's `tqh_first`, or an element's `tqe_next`. -/
inductive TailqSlot (α : Type*) where
  | first
  | next (a : α)
deriving DecidableEq

open TailqSlot

/-- A queue's head and the links of all elements.  The address of an element's predecessor place is `none` when it is NULL. -/
structure Tailq (α : Type*) where
  first : Option α
  last : TailqSlot α
  next : α → Option α
  prev : α → Option (TailqSlot α)

namespace Tailq

variable {α : Type*}

/-- `TAILQ_INIT`, over elements that are in no queue. -/
def empty : Tailq α := ⟨none, .first, fun _ => none, fun _ => none⟩

def get (q : Tailq α) : TailqSlot α → Option α
  | .first => q.first
  | .next a => q.next a

variable [DecidableEq α]

def set (q : Tailq α) (slot : TailqSlot α) (v : Option α) : Tailq α :=
  match slot with
  | .first => { q with first := v }
  | .next a => { q with next := update q.next a v }

def insertTail (q : Tailq α) (a : α) : Tailq α :=
  let q := { q with next := update q.next a none }
  let q := { q with prev := update q.prev a (some q.last) }
  let q := q.set q.last (some a)
  { q with last := .next a }

/-- `TAILQ_REMOVE`; a NULL back pointer is dereferenced. -/
def remove (q : Tailq α) (a : α) : Option (Tailq α) := do
  let prev ← q.prev a
  let q' := match q.next a with
    | some b => { q with prev := update q.prev b (some prev) }
    | none => { q with last := prev }
  return q'.set prev (q.next a)

def clear (q : Tailq α) (a : α) : Tailq α :=
  { q with next := update q.next a none, prev := update q.prev a none }

omit [DecidableEq α] in
/-- From the place `s` on, the links lead through `l` to the place `e`, and back. -/
def Seg (q : Tailq α) (s : TailqSlot α) : List α → TailqSlot α → Prop
  | [], e => s = e
  | a :: l, e => q.get s = some a ∧ q.prev a = some s ∧ q.Seg (.next a) l e

/-- The queue's links lead through the elements of `l`, each of them once. -/
structure Rep (q : Tailq α) (l : List α) : Prop where
  nodup : l.Nodup
  seg : q.Seg .first l q.last
  ends : q.get q.last = none

section Lemmas
variable {q q' : Tailq α} {s s' e e' : TailqSlot α} {l l₁ l₂ : List α} {a b : α}

omit [DecidableEq α] in
theorem seg_append : q.Seg s (l₁ ++ l₂) e ↔ ∃ m, q.Seg s l₁ m ∧ q.Seg m l₂ e := by
  induction l₁ generalizing s with
  | nil => simp [Seg]
  | cons a l₁ ih => simp only [cons_append, Seg, ih, and_assoc, exists_and_left]

omit [DecidableEq α] in
theorem Seg.end_eq (h : q.Seg s l e) : (l = [] ∧ e = s) ∨ ∃ x ∈ l, e = .next x := by
  induction l generalizing s with
  | nil => exact .inl ⟨rfl, h.symm⟩
  | cons a l ih =>
    rcases ih h.2.2 with ⟨rfl, rfl⟩ | ⟨x, hx, rfl⟩
    · exact .inr ⟨a, mem_cons_self, rfl⟩
    · exact .inr ⟨x, mem_cons_of_mem a hx, rfl⟩

omit [DecidableEq α] in

omit [DecidableEq α] in
/-- A segment depends on the places before its end and on the back pointers of its elements. -/
theorem Seg.congr (h : q.Seg s l e) (hn : l.Nodup) (hs : ∀ x ∈ l, s ≠ .next x)
    (hg : ∀ t, (t = s ∨ ∃ x ∈ l, t = .next x) → t ≠ e → q'.get t = q.get t)
    (hp : ∀ x ∈ l, q'.prev x = q.prev x) : q'.Seg s l e := by
  induction l generalizing s with
  | nil => exact h
  | cons a l ih =>
    obtain ⟨hget, hprev, hseg⟩ := h
    obtain ⟨ha, hn⟩ := nodup_cons.1 hn
    have hse : s ≠ e := by
      rcases hseg.end_eq with ⟨-, rfl⟩ | ⟨x, hx, rfl⟩
      · exact hs a mem_cons_self
      · exact hs x (mem_cons_of_mem a hx)
    refine ⟨(hg s (.inl rfl) hse).trans hget, (hp a mem_cons_self).trans hprev, ?_⟩
    refine ih hseg hn (fun x hx he => ha ?_) (fun t ht => hg t ?_)
      fun x hx => hp x (mem_cons_of_mem a hx)
    · cases he
      exact hx
    · rcases ht with rfl | ⟨x, hx, rfl⟩
      · exact .inr ⟨a, mem_cons_self, rfl⟩
      · exact .inr ⟨x, mem_cons_of_mem a hx, rfl⟩

theorem get_set (q : Tailq α) (slot t : TailqSlot α) (v : Option α) :
    (q.set slot v).get t = if t = slot then v else q.get t := by
  cases slot with
  | first =>
    cases t with
    | first => rfl
    | next a => rfl
  | next b =>
    cases t with
    | first => rfl
    | next a =>
      change update q.next b v a = if TailqSlot.next a = .next b then v else q.next a
      by_cases h : a = b
      · subst h
        rw [update_self, if_pos rfl]
      · rw [update_of_ne h, if_neg fun he => h (next.inj he)]

@[simp] theorem prev_set (q : Tailq α) (slot : TailqSlot α) (v : Option α) :
    (q.set slot v).prev = q.prev := by
  cases slot <;> rfl

@[simp] theorem last_set (q : Tailq α) (slot : TailqSlot α) (v : Option α) :
    (q.set slot v).last = q.last := by
  cases slot <;> rfl

theorem prev_insertTail (q : Tailq α) (a : α) :
    (q.insertTail a).prev = update q.prev a (some q.last) := by
  unfold insertTail
  exact prev_set ..

theorem get_insertTail (q : Tailq α) (a : α) (t : TailqSlot α) : (q.insertTail a).get t =
    if t = q.last then some a else if t = .next a then none else q.get t := by
  change (({ q with next := update q.next a none, prev := _ } : Tailq α).set q.last
    (some a)).get t = _
  rw [get_set]
  refine ite_congr rfl (fun _ => rfl) fun _ => ?_
  exact get_set q (.next a) t none

theorem Rep.insertTail (h : q.Rep l) (ha : a ∉ l) : (q.insertTail a).Rep (l ++ [a]) := by
  have hlast : q.last ≠ .next a := by
    rcases h.seg.end_eq with ⟨-, he⟩ | ⟨x, hx, he⟩
    · rw [he]
      exact (nomatch ·)
    · rw [he]
      exact fun hxa => ha (next.inj hxa ▸ hx)
  refine ⟨nodup_append.2 ⟨h.nodup, nodup_singleton a, ?_⟩, ?_, ?_⟩
  · rintro x hx y hy rfl
    exact ha (mem_singleton.1 hy ▸ hx)
  · refine seg_append.2 ⟨q.last, ?_, ?_, ?_, rfl⟩
    · refine h.seg.congr h.nodup (fun _ _ => (nomatch ·)) (fun t ht hne => ?_) fun x hx => ?_
      · rw [get_insertTail, if_neg hne, if_neg]
        rintro rfl
        rcases ht with ht | ⟨x, hx, ht⟩
        · cases ht
        · exact ha (next.inj ht ▸ hx)
      · rw [prev_insertTail, update_of_ne]
        rintro rfl
        exact ha hx
    · rw [get_insertTail, if_pos rfl]
    · rw [prev_insertTail, update_self]
  · change (q.insertTail a).get (.next a) = none
    rw [get_insertTail, if_neg hlast.symm, if_pos rfl]

omit [DecidableEq α] in
theorem Seg.split (h : q.Seg s (l₁ ++ a :: l₂) e) :
    ∃ m, q.Seg s l₁ m ∧ q.get m = some a ∧ q.prev a = some m ∧ q.Seg (.next a) l₂ e := by
  obtain ⟨m, h₁, h₂⟩ := seg_append.1 h
  exact ⟨m, h₁, h₂⟩

theorem Rep.remove (h : q.Rep l) (ha : a ∈ l) :
    ∃ q', q.remove a = some q' ∧ q'.Rep (l.erase a) ∧ ∀ x, q'.prev x = none ↔ q.prev x = none := by
  obtain ⟨l₁, l₂, rfl⟩ := append_of_mem ha
  obtain ⟨m, h₁, hget, hprev, h₂⟩ := h.seg.split
  have hnd := h.nodup
  obtain ⟨hn₁, hn₂, hd⟩ := nodup_append.1 hnd
  obtain ⟨ha₂, hn₂⟩ := nodup_cons.1 hn₂
  have ha₁ : a ∉ l₁ := fun hx => hd a hx a mem_cons_self rfl
  have hdis : ∀ x ∈ l₁, x ∉ l₂ := fun x hx hx₂ => hd x hx x (mem_cons_of_mem a hx₂) rfl
  -- the place before `a` is not one of the places behind it
  have hm : m ≠ .next a ∧ ∀ x ∈ l₂, m ≠ .next x := by
    rcases h₁.end_eq with ⟨-, rfl⟩ | ⟨x, hx, rfl⟩
    · exact ⟨(nomatch ·), fun _ _ => (nomatch ·)⟩
    · refine ⟨fun he => ha₁ (next.inj he ▸ hx), fun y hy he => hdis x hx ?_⟩
      exact next.inj he ▸ hy
  have herase : (l₁ ++ a :: l₂).erase a = l₁ ++ l₂ := by
    rw [erase_append_right _ ha₁, erase_cons_head]
  have hnd' : (l₁ ++ l₂).Nodup := herase ▸ hnd.erase a
  rw [herase]
  cases l₂ with
  | nil =>
    have hlast : q.last = .next a := h₂.symm
    have hnext : q.next a = none := by
      have := h.ends
      rw [hlast] at this
      exact this
    refine ⟨({ q with last := m } : Tailq α).set m none, ?_, ⟨hnd', ?_, ?_⟩, ?_⟩
    · rw [Tailq.remove, hprev, hnext]
      rfl
    · rw [last_set]
      refine seg_append.2 ⟨m, ?_, rfl⟩
      refine h₁.congr hn₁ (fun _ _ => (nomatch ·)) (fun t _ hne => ?_) fun x _ => ?_
      · rw [get_set, if_neg hne]
        rfl
      · rw [prev_set]
    · rw [last_set, get_set, if_pos rfl]
    · intro x
      rw [prev_set]
  | cons b l₂ =>
    obtain ⟨hgetb, hprevb, h₃⟩ := h₂
    obtain ⟨hb, hn₃⟩ := nodup_cons.1 hn₂
    have hlast : ∃ x ∈ b :: l₂, q.last = .next x := by
      rcases h₃.end_eq with ⟨-, he⟩ | ⟨x, hx, he⟩
      · exact ⟨b, mem_cons_self, he⟩
      · exact ⟨x, mem_cons_of_mem b hx, he⟩
    obtain ⟨z, hz, hlast⟩ := hlast
    refine ⟨({ q with prev := update q.prev b (some m) } : Tailq α).set m (some b), ?_,
      ⟨hnd', ?_, ?_⟩, ?_⟩
    · have hgetb' : q.next a = some b := hgetb
      rw [Tailq.remove, hprev, hgetb']
      rfl
    · rw [last_set]
      refine seg_append.2 ⟨m, ?_, ?_, ?_, ?_⟩
      · refine h₁.congr hn₁ (fun _ _ => (nomatch ·)) (fun t _ hne => ?_) fun x hx => ?_
        · rw [get_set, if_neg hne]
          rfl
        · rw [prev_set]
          refine update_of_ne ?_ ..
          rintro rfl
          exact hdis x hx mem_cons_self
      · rw [get_set, if_pos rfl]
      · rw [prev_set]
        exact update_self ..
      · refine h₃.congr hn₃ (fun x hx he => hb (next.inj he ▸ hx)) (fun t ht _ => ?_) fun x hx => ?_
        · rw [get_set, if_neg]
          · rfl
          · rintro rfl
            rcases ht with rfl | ⟨x, hx, rfl⟩
            · exact hm.2 b mem_cons_self rfl
            · exact hm.2 x (mem_cons_of_mem b hx) rfl
        · rw [prev_set]
          refine update_of_ne ?_ ..
          rintro rfl
          exact hb hx
    · rw [last_set]
      change (Tailq.set _ m (some b)).get q.last = none
      rw [get_set, if_neg]
      · exact h.ends
      · rw [hlast]
        exact (hm.2 z hz).symm
    · intro x
      rw [prev_set]
      by_cases hx : x = b
      · subst hx
        change update q.prev x (some m) x = none ↔ _
        rw [update_self, hprevb]
        exact iff_of_false (nomatch ·) (nomatch ·)
      · change update q.prev b (some m) x = none ↔ _
        rw [update_of_ne hx]

theorem get_clear (q : Tailq α) (a : α) (t : TailqSlot α) :
    (q.clear a).get t = if t = .next a then none else q.get t :=
  get_set q (.next a) t none

theorem Rep.clear (h : q.Rep l) (ha : a ∉ l) : (q.clear a).Rep l := by
  refine ⟨h.nodup, ?_, ?_⟩
  · refine h.seg.congr h.nodup (fun _ _ => (nomatch ·)) (fun t ht _ => ?_) fun x hx => ?_
    · rw [get_clear, if_neg]
      rintro rfl
      rcases ht with ht | ⟨x, hx, ht⟩
      · cases ht
      · exact ha (next.inj ht ▸ hx)
    · refine update_of_ne ?_ ..
      rintro rfl
      exact ha hx
  · change (q.clear a).get q.last = none
    rw [get_clear]
    split_ifs
    · rfl
    · exact h.ends

omit [DecidableEq α] in
/-- A queue whose links before `a` are as they were still leads to `a`. -/
theorem Seg.mem_of_get (h : q.Seg s (l₁ ++ a :: l₂) e) (h' : q'.Seg s l e')
    (he : q'.get e' = none) (hn : (l₁ ++ a :: l₂).Nodup)
    (hs : ∀ x ∈ l₁ ++ a :: l₂, s ≠ .next x) (hg : ∀ t, t ≠ .next a → q'.get t = q.get t) :
    a ∈ l := by
  induction l₁ generalizing s l with
  | nil =>
    have hget : q'.get s = some a := (hg s (hs a (by simp))).trans h.1
    cases l with
    | nil =>
      obtain rfl : s = e' := h'
      rw [hget] at he
      cases he
    | cons z l =>
      obtain rfl := some.inj (hget.symm.trans h'.1)
      exact mem_cons_self
  | cons b l₁ ih =>
    rw [cons_append] at hn hs
    obtain ⟨hb, hn⟩ := nodup_cons.1 hn
    have hget : q'.get s = some b := (hg s (hs a (by simp))).trans h.1
    cases l with
    | nil =>
      obtain rfl : s = e' := h'
      rw [hget] at he
      cases he
    | cons z l =>
      obtain rfl := some.inj (hget.symm.trans h'.1)
      refine mem_cons_of_mem b (ih h.2.2 h'.2.2 hn fun x hx he => hb ?_)
      exact next.inj he ▸ hx

theorem Rep.mem_of_clear {l' : List α} (h : q.Rep l) (ha : a ∈ l) (h' : (q.clear a).Rep l') :
    a ∈ l' := by
  obtain ⟨l₁, l₂, rfl⟩ := append_of_mem ha
  refine h.seg.mem_of_get h'.seg h'.ends h.nodup (fun _ _ => (nomatch ·)) fun t ht => ?_
  rw [get_clear, if_neg ht]

end Lemmas

/-! ### Queues that know their members -/

section Tracked
variable {q : Tailq α} {P P' : α → Prop} {a : α}

omit [DecidableEq α] in
/-- The queue holds exactly the elements whose back pointer is not NULL, and these all meet `P`. -/
def Tracked (q : Tailq α) (P : α → Prop) : Prop :=
  ∃ l, q.Rep l ∧ (∀ a, a ∈ l ↔ q.prev a ≠ none) ∧ ∀ a ∈ l, P a

omit [DecidableEq α] in
theorem tracked_empty : (empty : Tailq α).Tracked P :=
  ⟨[], ⟨nodup_nil, rfl, rfl⟩, fun _ => iff_of_false (nomatch ·) fun h => h rfl,
    fun _ ha => nomatch ha⟩

omit [DecidableEq α] in
theorem Tracked.holds (h : q.Tracked P) (ha : q.prev a ≠ none) : P a := by
  obtain ⟨l, -, hm, hl⟩ := h
  exact hl a ((hm a).2 ha)

omit [DecidableEq α] in
theorem Tracked.prev_first (h : q.Tracked P) (ha : q.first = some a) : q.prev a ≠ none := by
  obtain ⟨l, hr, hm, -⟩ := h
  cases l with
  | nil =>
    have hend : q.get .first = none := hr.seg ▸ hr.ends
    exact absurd (ha.symm.trans hend) (some_ne_none a)
  | cons b l =>
    obtain rfl := some.inj (ha.symm.trans hr.seg.1)
    exact (hm a).1 mem_cons_self

omit [DecidableEq α] in
theorem Tracked.mono (h : q.Tracked P) (hpp : ∀ a, q.prev a ≠ none → P a → P' a) :
    q.Tracked P' := by
  obtain ⟨l, hr, hm, hl⟩ := h
  exact ⟨l, hr, hm, fun a ha => hpp a ((hm a).1 ha) (hl a ha)⟩

theorem Tracked.insertTail (h : q.Tracked P) (ha : q.prev a = none) (hP : P a) :
    (q.insertTail a).Tracked P := by
  obtain ⟨l, hr, hm, hl⟩ := h
  refine ⟨l ++ [a], hr.insertTail fun hx => (hm a).1 hx ha, fun x => ?_, fun x hx => ?_⟩
  · rw [prev_insertTail, mem_append, mem_singleton]
    by_cases hx : x = a
    · subst hx
      rw [update_self]
      exact iff_of_true (.inr rfl) (some_ne_none _)
    · rw [update_of_ne hx, hm x]
      exact or_iff_left hx
  · rcases mem_append.1 hx with hx | hx
    · exact hl x hx
    · exact mem_singleton.1 hx ▸ hP

theorem prev_clear (q : Tailq α) (a x : α) :
    (q.clear a).prev x = none ↔ x = a ∨ q.prev x = none := by
  change update q.prev a none x = none ↔ _
  by_cases hx : x = a
  · subst hx
    rw [update_self]
    exact iff_of_true rfl (.inl rfl)
  · rw [update_of_ne hx]
    exact (or_iff_right hx).symm

theorem Tracked.remove (h : q.Tracked P) (ha : q.prev a ≠ none) :
    ∃ q', q.remove a = some q' ∧ (q'.clear a).Tracked P ∧
      ∀ x, (q'.clear a).prev x = none ↔ x = a ∨ q.prev x = none := by
  obtain ⟨l, hr, hm, hl⟩ := h
  obtain ⟨q', hq, hr', hp⟩ := hr.remove ((hm a).2 ha)
  have hprev : ∀ x, (q'.clear a).prev x = none ↔ x = a ∨ q.prev x = none := by
    intro x
    rw [prev_clear, hp x]
  refine ⟨q', hq, ⟨l.erase a, hr'.clear hr.nodup.not_mem_erase, fun x => ?_, fun x hx => ?_⟩, hprev⟩
  · rw [hr.nodup.mem_erase_iff, hm x, Ne, Ne, Ne, hprev x, not_or]
  · exact hl x (mem_of_mem_erase hx)

/-- Clearing the links of an element is harmless when it is not in the queue, and only then. -/
theorem Tracked.clear_iff (h : q.Tracked P) : (q.clear a).Tracked P ↔ q.prev a = none := by
  obtain ⟨l, hr, hm, hl⟩ := h
  constructor
  · rintro ⟨l', hr', hm', -⟩
    by_contra ha
    exact (hm' a).1 (hr.mem_of_clear ((hm a).2 ha) hr') ((prev_clear q a a).2 (.inl rfl))
  · intro ha
    refine ⟨l, hr.clear fun hx => (hm a).1 hx ha, fun x => (hm x).trans (not_congr ?_), hl⟩
    rw [prev_clear]
    refine (or_iff_right_of_imp ?_).symm
    rintro rfl
    exact ha

end Tracked

end Tailq

end Qcacld.Support

import Mathlib.Data.List.Chain
import Mathlib.Data.List.Nodup
import Mathlib.Logic.Function.Basic

/-!
# Support — Chain

Singly linked lists in a heap of `next` pointers: `Linked next l` says that the nodes of `l` are threaded in order, and says nothing about where the last one points; `Chunk` adds a head and a tail pointer; `walk` reads a NULL-terminated list back.  The two rules the code's pointer writes need are `Linked.congr` (a write outside the list, or at its tail) and `Linked.join` (the write that hooks one list behind another).
-/

namespace Qcacld.Support
open Function List Option

variable {α : Type*} {next next' : α → Option α} {a b x : α} {l l₁ l₂ : List α}

/-- The nodes of `l` are threaded through `next` in order. -/
def Linked (next : α → Option α) (l : List α) : Prop :=
  l.IsChain fun a b => next a = some b

instance [DecidableEq α] : Decidable (Linked next l) :=
  inferInstanceAs (Decidable (l.IsChain fun a b => next a = some b))

/-- `head` and `tail` delimit the threaded list `l`; both are NULL when it is empty. -/
structure Chunk (next : α → Option α) (head tail : Option α) (l : List α) : Prop where
  head_eq : head = l.head?
  tail_eq : tail = l.getLast?
  linked : Linked next l

/-- Follow `next` from a pointer to NULL; `none` when the fuel is gone first. -/
def walk (next : α → Option α) : ℕ → Option α → Option (List α)
  | _, none => some []
  | 0, some _ => none
  | n + 1, some a => (walk next n (next a)).map (a :: ·)

@[simp] theorem linked_nil : Linked next [] := .nil

@[simp] theorem linked_singleton : Linked next [a] := .singleton _

@[simp] theorem linked_cons_cons :
    Linked next (a :: b :: l) ↔ next a = some b ∧ Linked next (b :: l) :=
  isChain_cons_cons

theorem linked_append : Linked next (l₁ ++ l₂) ↔
    Linked next l₁ ∧ Linked next l₂ ∧ ∀ x ∈ l₁.getLast?, ∀ y ∈ l₂.head?, next x = some y :=
  isChain_append

theorem Linked.tail (h : Linked next (a :: l)) : Linked next l :=
  List.IsChain.tail h

theorem Linked.congr (h : Linked next l) (hn : ∀ x ∈ l.dropLast, next' x = next x) :
    Linked next' l := by
  induction l with
  | nil => exact linked_nil
  | cons a l ih =>
    cases l with
    | nil => exact linked_singleton
    | cons b l =>
      rw [linked_cons_cons] at h ⊢
      refine ⟨(hn a (by simp)).trans h.1, ih h.2 fun x hx => hn x ?_⟩
      rw [dropLast_cons_cons]
      exact mem_cons_of_mem _ hx

theorem getLast_notMem_dropLast (hd : (l₁ ++ [x]).Nodup) : x ∉ (l₁ ++ [x]).dropLast := by
  rw [dropLast_concat]
  rw [nodup_append] at hd
  exact fun hx => hd.2.2 x hx x (by simp) rfl

section Update
variable [DecidableEq α] {v : Option α}

theorem Linked.update_of_notMem (h : Linked next l) (hx : x ∉ l) : Linked (update next x v) l :=
  h.congr fun y hy => update_of_ne (fun e : y = x => hx (e ▸ dropLast_subset l hy)) v next

theorem Linked.update_tail (h : Linked next l) (hd : l.Nodup) (hx : l.getLast? = some x) :
    Linked (update next x v) l := by
  obtain ⟨l, rfl⟩ := getLast?_eq_some_iff.1 hx
  exact h.congr fun y hy => update_of_ne
    (fun e : y = x => getLast_notMem_dropLast hd (e ▸ hy)) v next

/-- **Hooking one list behind another.** -/
theorem Linked.join (h₁ : Linked next l₁) (h₂ : Linked next l₂) (hd : (l₁ ++ l₂).Nodup)
    (hx : l₁.getLast? = some x) :
    Linked (update next x l₂.head?) (l₁ ++ l₂) := by
  have hn := nodup_append.1 hd
  have hx₁ : x ∈ l₁ := mem_of_mem_getLast? hx
  have hx₂ : x ∉ l₂ := fun h => hn.2.2 x hx₁ x h rfl
  refine linked_append.2 ⟨h₁.update_tail hn.1 hx, h₂.update_of_notMem hx₂, fun y hy z hz => ?_⟩
  obtain rfl : x = y := some.inj (hx.symm.trans hy)
  rw [update_self]
  exact hz

/-- **Inserting a node behind another.** -/
theorem Linked.insert {c : α} (h : Linked next (l₁ ++ c :: l₂)) (hd : (l₁ ++ c :: l₂).Nodup)
    (hx : x ∉ l₁ ++ c :: l₂) :
    Linked (update (update next c (some x)) x (next c)) (l₁ ++ c :: x :: l₂) := by
  have hxc : c ≠ x := by rintro rfl; exact hx (by simp)
  obtain ⟨-, hcl₂, hl₁⟩ := nodup_append.1 hd
  rw [append_cons] at h ⊢
  obtain ⟨h₁, h₂, hj⟩ := linked_append.1 h
  refine linked_append.2 ⟨h₁.congr fun y hy => ?_, isChain_cons.2 ⟨fun y hy => ?_, ?_⟩,
    fun y hy z hz => ?_⟩
  · rw [dropLast_concat] at hy
    have hyx : y ≠ x := by rintro rfl; exact hx (by simp [hy])
    rw [update_of_ne hyx, update_of_ne (hl₁ y hy c (by simp))]
  · rw [update_self]
    exact hj c (by simp) y hy
  · exact (h₂.update_of_notMem (nodup_cons.1 hcl₂).1).update_of_notMem fun hm => hx (by simp [hm])
  · obtain rfl : c = y := by simpa using hy
    obtain rfl : x = z := by simpa using hz
    rw [update_of_ne hxc, update_self]

end Update

/-! ### Reading a list back -/

@[simp] theorem walk_none (n : ℕ) : walk next n none = some [] := by
  cases n <;> rfl

@[simp] theorem walk_succ (n : ℕ) :
    walk next (n + 1) (some a) = (walk next n (next a)).map (a :: ·) := rfl

theorem walk_unique {n m : ℕ} {p : Option α} (h₁ : walk next n p = some l₁)
    (h₂ : walk next m p = some l₂) : l₁ = l₂ := by
  induction n generalizing m p l₁ l₂ with
  | zero =>
    cases p with
    | none => rw [walk_none] at h₁ h₂; exact some.inj (h₁.symm.trans h₂)
    | some a => cases h₁
  | succ n ih =>
    cases p with
    | none => rw [walk_none] at h₁ h₂; exact some.inj (h₁.symm.trans h₂)
    | some a =>
      cases m with
      | zero => cases h₂
      | succ m =>
        obtain ⟨t₁, ht₁, rfl⟩ := map_eq_some_iff.1 h₁
        obtain ⟨t₂, ht₂, rfl⟩ := map_eq_some_iff.1 h₂
        rw [ih ht₁ ht₂]

theorem walk_eq {n : ℕ} (h : Linked next l) (hn : ∀ x ∈ l.getLast?, next x = none)
    (hl : l.length ≤ n) : walk next n l.head? = some l := by
  induction l generalizing n with
  | nil => simp
  | cons a l ih =>
    obtain ⟨n, rfl⟩ : ∃ m, n = m + 1 := ⟨n - 1, by simp at hl; omega⟩
    have hl' : l.length ≤ n := by simpa using hl
    cases l with
    | nil => simp [hn a rfl]
    | cons b l =>
      rw [linked_cons_cons] at h
      have hw := ih h.2 (fun x hx => hn x (by simpa using hx)) hl'
      rw [head?_cons] at hw
      simp [h.1, hw]

namespace Chunk
variable {head tail : Option α}

theorem nil : Chunk next none none ([] : List α) := ⟨rfl, rfl, linked_nil⟩

theorem eq_nil_iff (h : Chunk next head tail l) : head = none ↔ l = [] := by
  rw [h.head_eq, head?_eq_none_iff]

theorem isSome_iff (h : Chunk next head tail l) : head.isSome ↔ l ≠ [] := by
  rw [isSome_iff_ne_none, Ne, h.eq_nil_iff]

theorem tail_none_iff (h : Chunk next head tail l) : tail = none ↔ l = [] := by
  rw [h.tail_eq, getLast?_eq_none_iff]

theorem congr (h : Chunk next head tail l) (hn : ∀ x ∈ l, next' x = next x) :
    Chunk next' head tail l :=
  ⟨h.head_eq, h.tail_eq, h.linked.congr fun x hx => hn x (dropLast_subset l hx)⟩

theorem unique (h₁ : Chunk next head tail l₁) (h₂ : Chunk next head tail l₂) (hd₁ : l₁.Nodup)
    (hd₂ : l₂.Nodup) : l₁ = l₂ := by
  induction l₁ generalizing head l₂ with
  | nil => exact (h₂.eq_nil_iff.1 h₁.head_eq).symm
  | cons a m ih =>
    obtain ⟨m₂, rfl⟩ : ∃ m₂, l₂ = a :: m₂ :=
      head?_eq_some_iff.1 (h₂.head_eq.symm.trans h₁.head_eq)
    cases m with
    | nil =>
      have ha : (a :: m₂).getLast? = some a := h₂.tail_eq.symm.trans h₁.tail_eq
      cases m₂ with
      | nil => rfl
      | cons b m₂ =>
        rw [getLast?_cons_cons] at ha
        exact absurd (mem_of_mem_getLast? ha) (nodup_cons.1 hd₂).1
    | cons b m =>
      cases m₂ with
      | nil =>
        have ha : (b :: m).getLast? = some a := by
          have he : (a :: b :: m).getLast? = (b :: m).getLast? := getLast?_cons_cons
          rw [← he]
          exact h₁.tail_eq.symm.trans h₂.tail_eq
        exact absurd (mem_of_mem_getLast? ha) (nodup_cons.1 hd₁).1
      | cons b₂ m₂ =>
        have hb := (linked_cons_cons.1 h₁.linked).1
        have hb₂ := (linked_cons_cons.1 h₂.linked).1
        obtain rfl : b = b₂ := some.inj (hb.symm.trans hb₂)
        have ht := h₁.tail_eq
        have ht₂ := h₂.tail_eq
        rw [getLast?_cons_cons] at ht ht₂
        have hm : b :: m = b :: m₂ := ih ⟨rfl, ht, h₁.linked.tail⟩
          ⟨rfl, ht₂, h₂.linked.tail⟩ (nodup_cons.1 hd₁).2 (nodup_cons.1 hd₂).2
        rw [hm]

variable [DecidableEq α]

theorem join {head₂ tail₂ : Option α} (h₁ : Chunk next head (some x) l₁)
    (h₂ : Chunk next head₂ tail₂ l₂) (hd : (l₁ ++ l₂).Nodup) (h₂n : l₂ ≠ []) :
    Chunk (update next x head₂) head tail₂ (l₁ ++ l₂) := by
  have hx : l₁.getLast? = some x := h₁.tail_eq.symm
  have h₁n : l₁ ≠ [] := by rintro rfl; simp at hx
  refine ⟨?_, ?_, h₂.head_eq ▸ h₁.linked.join h₂.linked hd hx⟩
  · rw [h₁.head_eq, head?_append_of_ne_nil _ h₁n]
  · rw [h₂.tail_eq, getLast?_append_of_ne_nil _ h₂n]

theorem walk_update_tail {n : ℕ} (h : Chunk next head (some x) l) (hd : l.Nodup)
    (hl : l.length ≤ n) : walk (update next x none) n head = some l := by
  have hx : l.getLast? = some x := h.tail_eq.symm
  rw [h.head_eq]
  refine walk_eq (h.linked.update_tail hd hx) (fun y hy => ?_) hl
  obtain rfl : x = y := some.inj (hx.symm.trans hy)
  exact update_self ..

end Chunk

end Qcacld.Support

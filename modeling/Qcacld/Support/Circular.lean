import Mathlib.Data.List.Nodup
import Mathlib.Data.List.Perm.Subperm
import Mathlib.Logic.Function.Basic

/-!
# Support — Circular

Doubly linked lists whose nodes are part of what they link, and which close at a head that is a node itself.  `Links` is the memory the links are in, with as many lists in it as there are heads; `Circle` says that from a head forward and back one passes certain nodes and comes back to it.  An operation on one list changes no link of a node that is not on it, but for the node it adds.  Nothing here is about this driver.
-/

namespace Qcacld.Support
open Function List Nat

structure Links (α : Type*) where
  next : α → α
  prev : α → α

open Links

namespace Links
variable {α : Type*}

/-! ### The operations -/

section Operations
variable [DecidableEq α]

def setNext (l : Links α) (x y : α) : Links α := { l with next := update l.next x y }
def setPrev (l : Links α) (x y : α) : Links α := { l with prev := update l.prev x y }

@[simp] theorem setNext_next (l : Links α) (x y : α) :
    (l.setNext x y).next = update l.next x y := rfl
@[simp] theorem setNext_prev (l : Links α) (x y : α) : (l.setNext x y).prev = l.prev := rfl
@[simp] theorem setPrev_next (l : Links α) (x y : α) : (l.setPrev x y).next = l.next := rfl
@[simp] theorem setPrev_prev (l : Links α) (x y : α) :
    (l.setPrev x y).prev = update l.prev x y := rfl

def init (l : Links α) (head : α) : Links α :=
  (l.setPrev head head).setNext head head

/-- Add a node in front of the head, which is the end of the list. -/
def addTail (l : Links α) (head node : α) : Links α :=
  let l := l.setNext (l.prev head) node
  let l := l.setPrev node (l.prev head)
  let l := l.setNext node head
  l.setPrev head node

def remove (l : Links α) (node : α) : Links α :=
  let l := l.setNext (l.prev node) (l.next node)
  l.setPrev (l.next node) (l.prev node)

/-- Add a node between two that follow each other. -/
def addBetween (l : Links α) (node a b : α) : Links α :=
  let l := l.setPrev b node
  let l := l.setNext node b
  let l := l.setPrev node a
  l.setNext a node

/-- From a node on, whether one comes to `x` before the head; `none` when neither is found within `fuel` nodes. -/
def search (l : Links α) (head x : α) : ℕ → α → Option Bool
  | 0, _ => none
  | fuel + 1, node =>
    if node = head then some false
    else if node = x then some true
    else l.search head x fuel (l.next node)

end Operations

/-! ### Paths -/

/-- From `a` one passes `xs` and comes to `b`, and from there back. -/
def Path (l : Links α) : α → List α → α → Prop
  | a, [], b => l.next a = b ∧ l.prev b = a
  | a, x :: xs, b => (l.next a = x ∧ l.prev x = a) ∧ l.Path x xs b

structure SameAt (l l' : Links α) (x : α) : Prop where
  next : l'.next x = l.next x
  prev : l'.prev x = l.prev x

section Path
variable {l l' : Links α} {a b x y : α} {xs ys : List α}

theorem path_append : l.Path a (xs ++ x :: ys) b ↔ l.Path a xs x ∧ l.Path x ys b := by
  induction xs generalizing a with
  | nil => rfl
  | cons y xs ih => exact (and_congr_right' ih).trans and_assoc.symm

theorem Path.next (h : l.Path a xs b) : l.next a = (xs ++ [b]).head (by simp) := by
  cases xs with
  | nil => exact h.1
  | cons x xs => exact h.1.1

theorem Path.prev_mem (h : l.Path a xs b) : l.prev b ∈ a :: xs := by
  induction xs generalizing a with
  | nil => exact mem_singleton.2 h.2
  | cons x xs ih => exact mem_cons_of_mem _ (ih h.2)

theorem Path.next_prev (h : l.Path a xs b) : l.next (l.prev b) = b := by
  induction xs generalizing a with
  | nil => exact h.2.symm ▸ h.1
  | cons x xs ih => exact ih h.2

theorem Path.next_mem (h : l.Path a xs b) : l.next a ∈ xs ++ [b] := by
  rw [h.next]
  exact head_mem _

theorem Path.mem_of_closed {S : List α} (h : l.Path a xs b) (ha : a ∈ S)
    (hS : ∀ x ∈ S, l.next x ∈ S) : xs ⊆ S := by
  induction xs generalizing a with
  | nil => exact nil_subset S
  | cons x xs ih =>
    have hx : x ∈ S := h.1.1 ▸ hS a ha
    exact cons_subset.2 ⟨hx, ih h.2 hx⟩

theorem Path.next_mem_of (h : l.Path a xs b) (hx : x ∈ a :: xs) : l.next x ∈ xs ++ [b] := by
  induction xs generalizing a with
  | nil =>
    rw [mem_singleton.1 hx]
    exact h.next_mem
  | cons y ys ih =>
    rcases mem_cons.1 hx with rfl | hx
    · exact h.next_mem
    · exact mem_cons_of_mem y (ih h.2 hx)

/-- From the last of the first nodes one goes on to the others, or to the end. -/
theorem Path.next_getLast {u : α} {pre post : List α} (h : l.Path a (pre ++ post) b)
    (hu : (a :: pre).getLast (cons_ne_nil a pre) = u) : l.next u ∈ post ++ [b] := by
  induction pre generalizing a with
  | nil =>
    obtain rfl : a = u := hu
    exact h.next_mem
  | cons p pre ih => exact ih h.2 hu

theorem Path.congr (h : l.Path a xs b) (hnext : ∀ x ∈ a :: xs, l'.next x = l.next x)
    (hprev : ∀ x ∈ xs ++ [b], l'.prev x = l.prev x) : l'.Path a xs b := by
  induction xs generalizing a with
  | nil =>
    exact ⟨(hnext a (by simp)).trans h.1, (hprev b (by simp)).trans h.2⟩
  | cons x xs ih =>
    refine ⟨⟨(hnext a (by simp)).trans h.1.1, (hprev x (by simp)).trans h.1.2⟩, ih h.2 ?_ ?_⟩
    · exact fun y hy => hnext y (mem_cons_of_mem _ hy)
    · exact fun y hy => hprev y (mem_cons_of_mem _ hy)

theorem Path.relink (h : l.Path a xs b) (hnodup : (a :: xs).Nodup)
    (hnext : ∀ x ∈ a :: xs, x ≠ l.prev b → l'.next x = l.next x)
    (hprev : ∀ x ∈ xs, l'.prev x = l.prev x)
    (hlast : l'.next (l.prev b) = y ∧ l'.prev y = l.prev b) : l'.Path a xs y := by
  induction xs generalizing a with
  | nil =>
    rw [h.2] at hlast
    exact hlast
  | cons x xs ih =>
    -- the first node is not the last one
    have hne : a ≠ l.prev b := fun heq =>
      (nodup_cons.1 hnodup).1 (heq ▸ h.2.prev_mem)
    refine ⟨⟨(hnext a (by simp) hne).trans h.1.1, (hprev x (by simp)).trans h.1.2⟩,
      ih h.2 (nodup_cons.1 hnodup).2 ?_ ?_⟩
    · exact fun y hy => hnext y (mem_cons_of_mem _ hy)
    · exact fun y hy => hprev y (mem_cons_of_mem _ hy)

end Path

/-! ### Circles -/

/-- From the head one passes `xs` and comes back to it. -/
structure Circle (l : Links α) (head : α) (xs : List α) : Prop where
  nodup : (head :: xs).Nodup
  path : l.Path head xs head

section Circle
variable {l l' : Links α} {head node x : α} {xs ys : List α}

theorem Circle.head_notMem (h : l.Circle head xs) : head ∉ xs := (nodup_cons.1 h.nodup).1

theorem Circle.next_nil (h : l.Circle head []) : l.next head = head := h.path.1

theorem Circle.next_cons (h : l.Circle head (x :: xs)) : l.next head = x := h.path.1.1

theorem Circle.next_eq_head (h : l.Circle head xs) : l.next head = head ↔ xs = [] := by
  cases xs with
  | nil => exact iff_of_true h.next_nil rfl
  | cons x xs =>
    refine iff_of_false (fun e => ?_) (cons_ne_nil x xs)
    rw [h.next_cons] at e
    exact h.head_notMem (e ▸ mem_cons_self)

theorem Circle.prev_mem (h : l.Circle head xs) : l.prev head ∈ head :: xs := h.path.prev_mem

theorem Circle.next_mem (h : l.Circle head xs) (hx : x ∈ head :: xs) : l.next x ∈ head :: xs := by
  rcases mem_append.1 (h.path.next_mem_of hx) with hm | hm
  · exact mem_cons_of_mem head hm
  · exact mem_singleton.1 hm ▸ mem_cons_self

theorem Circle.congr (h : l.Circle head xs) (hsame : ∀ x ∈ head :: xs, SameAt l l' x) :
    l'.Circle head xs where
  nodup := h.nodup
  path := h.path.congr (fun x hx => (hsame x hx).next) fun x hx => by
    refine (hsame x ?_).prev
    rcases mem_append.1 hx with hx | hx
    · exact mem_cons_of_mem _ hx
    · rw [mem_singleton.1 hx]
      exact mem_cons_self

end Circle

/-! ### The operations on circles -/

section Operations
variable [DecidableEq α] {l : Links α} {head node x : α} {xs ys : List α}

theorem circle_init (l : Links α) (head : α) : (l.init head).Circle head [] where
  nodup := nodup_singleton head
  path := ⟨by simp [init], by simp [init]⟩

theorem sameAt_init (hx : x ≠ head) : SameAt l (l.init head) x :=
  ⟨by simp [init, hx], by simp [init, hx]⟩

/-- **A node is added at the end.** -/
theorem Circle.addTail (h : l.Circle head xs) (hn : node ∉ head :: xs) :
    (l.addTail head node).Circle head (xs ++ [node]) where
  nodup := by
    rw [← cons_append]
    exact List.Nodup.append h.nodup (nodup_singleton node) (disjoint_singleton.2 hn)
  path := by
    have hlast := h.prev_mem
    have hne {x : α} (hx : x ∈ head :: xs) : x ≠ node := fun heq => hn (heq ▸ hx)
    refine path_append.2 ⟨h.path.relink h.nodup ?_ ?_ ?_, ?_⟩
    · intro x hx hxl
      simp [Links.addTail, hne hx, hxl]
    · intro x hx
      have hxh : x ≠ head := fun heq => h.head_notMem (heq ▸ hx)
      simp [Links.addTail, hne (mem_cons_of_mem _ hx), hxh]
    · simp [Links.addTail, hne hlast, (hne (mem_cons_self (a := head) (l := xs))).symm]
    · exact ⟨by simp [Links.addTail], by simp [Links.addTail]⟩

theorem Circle.sameAt_addTail (h : l.Circle head xs) (hx : x ∉ head :: xs) (hxn : x ≠ node) :
    SameAt l (l.addTail head node) x := by
  have hlast : x ≠ l.prev head := fun heq => hx (heq ▸ h.prev_mem)
  have hhead : x ≠ head := fun heq => hx (heq ▸ mem_cons_self)
  exact ⟨by simp [Links.addTail, hlast, hxn], by simp [Links.addTail, hxn, hhead]⟩

@[simp] theorem remove_next (l : Links α) (node : α) :
    (l.remove node).next = update l.next (l.prev node) (l.next node) := rfl

@[simp] theorem remove_prev (l : Links α) (node : α) :
    (l.remove node).prev = update l.prev (l.next node) (l.prev node) := by
  -- what is next to the node is the same after the first of the two writes
  have hnext : update l.next (l.prev node) (l.next node) node = l.next node := by
    rw [update_apply, ite_eq_right_iff]
    exact fun _ => rfl
  simp [remove, setPrev_prev, setNext_prev, setNext_next, hnext]

/-- **A node is taken out**, wherever it is. -/
theorem Circle.remove (h : l.Circle head (xs ++ node :: ys)) :
    (l.remove node).Circle head (xs ++ ys) where
  nodup := h.nodup.sublist
    ((List.Sublist.append_left (sublist_cons_self node ys) xs).cons_cons head)
  path := by
    obtain ⟨hto, hfrom⟩ := path_append.1 h.path
    have hnodup : (head :: xs).Nodup :=
      h.nodup.sublist ((sublist_append_left xs _).cons_cons head)
    have hprev := hto.prev_mem
    have hnext {x : α} (_ : x ∈ head :: xs) (hx : x ≠ l.prev node) :
        (l.remove node).next x = l.next x := by simp [hx]
    cases ys with
    | nil =>
      rw [append_nil]
      refine hto.relink hnodup (fun x hx => hnext hx) ?_ ?_
      · intro x hx
        have hxh : x ≠ head := fun heq => (nodup_cons.1 hnodup).1 (heq ▸ hx)
        simp [hfrom.1, hxh]
      · simp [hfrom.1]
    | cons y ys =>
      have hsplit : (head :: xs ++ node :: y :: ys).Nodup := h.nodup
      obtain ⟨-, hrest, hapart⟩ := nodup_append.1 hsplit
      have hy : y ∉ ys := (nodup_cons.1 (nodup_cons.1 hrest).2).1
      have hbefore {x : α} (hx : x ∈ head :: xs) : x ≠ y := hapart x hx y (by simp)
      refine path_append.2 ⟨hto.relink hnodup (fun x hx => hnext hx) ?_ ?_, ?_⟩
      · intro x hx
        simp [hfrom.1.1, hbefore (mem_cons_of_mem _ hx)]
      · simp [hfrom.1.1]
      · refine hfrom.2.congr ?_ ?_
        · intro x hx
          have hxp : x ≠ l.prev node := fun heq =>
            hapart _ hprev x (mem_cons_of_mem _ hx) heq.symm
          simp [hxp]
        · intro x hx
          have hxy : x ≠ y := by
            rcases mem_append.1 hx with hx | hx
            · exact fun heq => hy (heq ▸ hx)
            · rw [mem_singleton.1 hx]
              exact hbefore mem_cons_self
          simp [hfrom.1.1, hxy]

theorem Circle.sameAt_remove (h : l.Circle head xs) (hn : node ∈ xs) (hx : x ∉ head :: xs) :
    SameAt l (l.remove node) x := by
  obtain ⟨before, after, rfl⟩ := append_of_mem hn
  obtain ⟨hto, hfrom⟩ := path_append.1 h.path
  have hprev : x ≠ l.prev node := fun heq => hx (by
    have := hto.prev_mem
    rw [← heq] at this
    exact cons_subset_cons head (subset_append_left before _) this)
  have hnext : x ≠ l.next node := fun heq => hx (by
    have := hfrom.next_mem
    rw [← heq] at this
    simp only [mem_append, mem_singleton] at this
    simp only [mem_cons, mem_append]
    exact this.elim (fun h => .inr (.inr (.inr h))) .inl)
  exact ⟨by simp [hprev], by simp [hnext]⟩

/-! ### Adding and searching anywhere -/

section Between
variable {a b u v : α} {pre post : List α} {fuel : ℕ}

theorem Path.addBetween (h : l.Path a (pre ++ post) b) (hnd : (a :: (pre ++ post)).Nodup)
    (hb : b ∉ pre ++ post) (hn : node ∉ a :: (pre ++ post)) (hnb : node ≠ b)
    (hu : (a :: pre).getLast (cons_ne_nil a pre) = u) :
    (l.addBetween node u (l.next u)).Path a (pre ++ node :: post) b := by
  induction pre generalizing a with
  | nil =>
    obtain rfl : a = u := hu
    have hna : node ≠ a := fun e => hn (e ▸ mem_cons_self)
    have hfirst : ∀ v, v ≠ node →
        (l.addBetween node a v).next node = v ∧ (l.addBetween node a v).prev v = node := by
      intro v hv
      simp [addBetween, hna, hv]
    refine ⟨⟨by simp [addBetween], by simp [addBetween]⟩, ?_⟩
    cases post with
    | nil =>
      rw [h.1]
      exact hfirst b hnb.symm
    | cons v post =>
      have hv : v ≠ node := fun e => hn (by simp [e])
      rw [h.1.1]
      refine ⟨hfirst v hv, congr h.2 ?_ ?_⟩
      · intro x hx
        have hxa : x ≠ a := fun e => (nodup_cons.1 hnd).1 (e ▸ hx)
        have hxn : x ≠ node := fun e => hn (mem_cons_of_mem a (e ▸ hx))
        simp [addBetween, hxa, hxn]
      · intro x hx
        have hxv : x ≠ v := by
          rintro rfl
          rcases mem_append.1 hx with hx | hx
          · exact (nodup_cons.1 (nodup_cons.1 hnd).2).1 hx
          · exact hb (mem_singleton.1 hx ▸ mem_cons_self)
        have hxn : x ≠ node := by
          rintro rfl
          rcases mem_append.1 hx with hx | hx
          · exact hn (by simp [hx])
          · exact hnb (mem_singleton.1 hx)
        simp [addBetween, hxv, hxn]
  | cons p pre ih =>
    have hu' : (p :: pre).getLast (cons_ne_nil p pre) = u := hu
    have humem : u ∈ p :: pre := hu' ▸ getLast_mem _
    have hnd' := (nodup_cons.1 hnd).2
    have hau : a ≠ u := by
      rintro rfl
      exact (nodup_cons.1 hnd).1 (mem_append_left post humem)
    have han : a ≠ node := fun e => hn (e ▸ mem_cons_self)
    have hpn : p ≠ node := fun e => hn (by simp [e])
    have hpv : p ≠ l.next u := by
      intro e
      have hnext := h.2.next_getLast hu'
      rw [← e] at hnext
      rcases mem_append.1 hnext with hp | hp
      · exact (nodup_cons.1 hnd').1 (mem_append_right pre hp)
      · exact hb (mem_singleton.1 hp ▸ mem_cons_self)
    refine ⟨⟨?_, ?_⟩, ih h.2 hnd' (fun hm => hb (mem_cons_of_mem p hm))
      (fun hm => hn (mem_cons_of_mem a hm)) hu'⟩
    · simp [addBetween, hau, han, h.1.1]
    · simp [addBetween, hpv, hpn, h.1.2]

/-- **A node is added**, behind any other or the head. -/
theorem Circle.addBetween (h : l.Circle head xs) (hu : u ∈ head :: xs) (hn : node ∉ head :: xs) :
    ∃ ys, (l.addBetween node u (l.next u)).Circle head ys ∧ ys.length = xs.length + 1 := by
  obtain ⟨pre, post, rfl, hlast⟩ : ∃ pre post, xs = pre ++ post ∧
      (head :: pre).getLast (cons_ne_nil head pre) = u := by
    rcases mem_cons.1 hu with rfl | hu
    · exact ⟨[], xs, rfl, rfl⟩
    · obtain ⟨pre, post, rfl⟩ := append_of_mem hu
      exact ⟨pre ++ [u], post, by simp, by simp⟩
  have hnh : node ≠ head := fun e => hn (e ▸ mem_cons_self)
  refine ⟨pre ++ node :: post, ⟨?_, h.path.addBetween h.nodup h.head_notMem hn hnh hlast⟩, by simp; omega⟩
  rw [← cons_append, nodup_middle]
  exact nodup_cons.2 ⟨hn, h.nodup⟩

/-- **A node that is there already is added**: no more nodes are passed than before. -/
theorem Circle.length_le_of_addBetween (h : l.Circle head xs)
    (hv : v ∈ head :: xs) (hn : node ∈ head :: xs)
    (h' : (l.addBetween node u v).Circle head ys) : ys.length ≤ xs.length := by
  have hS : ∀ x ∈ head :: xs, (l.addBetween node u v).next x ∈ head :: xs := by
    intro x hx
    have hset : (l.addBetween node u v).next = update (update l.next node v) u node := rfl
    rw [hset, update_apply, update_apply]
    split_ifs
    · exact hn
    · exact hv
    · exact h.next_mem hx
  have hsub := h'.path.mem_of_closed mem_cons_self hS
  have hsub' : head :: ys ⊆ head :: xs := cons_subset.2 ⟨mem_cons_self, hsub⟩
  exact le_of_succ_le_succ (subperm_of_subset h'.nodup hsub').length_le

theorem Path.search (h : l.Path a xs head) (hh : head ∉ xs) (hf : xs.length < fuel) (x : α) :
    l.search head x fuel (l.next a) = some (decide (x ∈ xs)) := by
  induction xs generalizing a fuel with
  | nil =>
    obtain ⟨fuel, rfl⟩ : ∃ m, fuel = m + 1 := ⟨fuel - 1, by omega⟩
    rw [h.1, search, if_pos rfl]
    rfl
  | cons y ys ih =>
    obtain ⟨fuel, rfl⟩ : ∃ m, fuel = m + 1 := ⟨fuel - 1, by omega⟩
    have hy : y ≠ head := fun e => hh (e ▸ mem_cons_self)
    rw [h.1.1, search, if_neg hy]
    by_cases hyx : y = x
    · simp [hyx]
    · rw [if_neg hyx, ih h.2 (fun hm => hh (mem_cons_of_mem y hm)) (lt_of_succ_lt_succ hf)]
      simp [Ne.symm hyx]

end Between

end Operations

/-! ### Two circles -/

structure Circles (l : Links α) (head : α) (xs : List α) (head' : α) (ys : List α) : Prop where
  left : l.Circle head xs
  right : l.Circle head' ys
  apart : ∀ x ∈ head :: xs, x ∉ head' :: ys

section Circles
variable {l l' : Links α} {head head' node : α} {xs ys zs : List α}

theorem Circles.symm (h : l.Circles head xs head' ys) : l.Circles head' ys head xs :=
  ⟨h.right, h.left, fun x hx hx' => h.apart x hx' hx⟩

theorem Circles.congr (h : l.Circles head xs head' ys)
    (hsame : ∀ x ∈ (head :: xs) ++ (head' :: ys), SameAt l l' x) : l'.Circles head xs head' ys :=
  ⟨h.left.congr fun x hx => hsame x (mem_append_left _ hx),
    h.right.congr fun x hx => hsame x (mem_append_right _ hx), h.apart⟩

variable [DecidableEq α]

theorem Circles.addTail (h : l.Circles head xs head' ys) (hn : node ∉ head :: xs)
    (hn' : node ∉ head' :: ys) : (l.addTail head node).Circles head (xs ++ [node]) head' ys where
  left := h.left.addTail hn
  right := h.right.congr fun x hx =>
    h.left.sameAt_addTail (h.symm.apart x hx) fun heq => hn' (heq ▸ hx)
  apart := fun x hx => by
    rw [← cons_append] at hx
    rcases mem_append.1 hx with hx | hx
    · exact h.apart x hx
    · rw [mem_singleton.1 hx]
      exact hn'

theorem Circles.remove (h : l.Circles head (xs ++ node :: ys) head' zs) :
    (l.remove node).Circles head (xs ++ ys) head' zs where
  left := h.left.remove
  right := h.right.congr fun x hx =>
    h.left.sameAt_remove (mem_append_right _ mem_cons_self) (h.symm.apart x hx)
  apart := fun x hx => h.apart x (by
    simp only [mem_cons, mem_append] at hx ⊢
    exact hx.imp_right (Or.imp_right .inr))

end Circles

end Links
end Qcacld.Support

import Mathlib.Data.Fintype.Card
import Qcacld.Support.Circular
import Qcacld.Support.Runs

/-!
# Vos — VosList

The lists of the driver: circular ones, whose nodes are part of what they link, each with a count, a cookie that says that it is initialised, and a lock, which every call takes.

`ListRight` says what is to hold between calls, and `vos_lists_iff` which calls keep it: a call that looks for a node and does not find it keeps the lock, and a node that is linked already, or the anchor, must not be inserted.
-/

namespace Qcacld.Vos
open Qcacld.Support List Option

inductive ListStatus where
  | success
  | eEmpty
  | eInval
  | eFault
  | eBusy

/-- `vos_list_t`, and the memory the links are in.  `count` is a `v_SIZE_t`, and no list has as many nodes as would make it wrap. -/
structure VosList (α : Type*) where
  anchor : α
  links : Links α
  count : ℕ
  cookie : ℕ
  lock : Bool

open VosList

def vosListCookie : ℕ := 0xabadfeed

/-- What a call returns, with the node it has written to `*ppNode`. -/
abbrev ListReturn (α : Type*) := ListStatus × Option α × VosList α

variable {α : Type*}

namespace VosList

/-! ### What the calls share -/

/-- The checks and `mutex_lock_interruptible`; `none` when the lock is held and the call waits for it for ever. -/
def enter (s : VosList α) (interrupted : Bool) (body : VosList α → Option (ListReturn α)) :
    Option (ListReturn α) :=
  if s.cookie ≠ vosListCookie then some (.eInval, none, s)
  else if interrupted then some (.eFault, none, s)
  else if s.lock then none
  else body { s with lock := true }

/-- `mutex_unlock`, and the return. -/
def leave (s : VosList α) (status : ListStatus) (node : Option α) : Option (ListReturn α) :=
  some (status, node, { s with lock := false })

variable [DecidableEq α]

/-- `list_add` of a node behind `u`, and the count. -/
def insert (s : VosList α) (x u v : α) : VosList α :=
  { s with links := s.links.addBetween x u v, count := s.count + 1 }

/-- `list_del`, but for what it leaves in the node, and the count. -/
def delete (s : VosList α) (x : α) : VosList α :=
  { s with links := s.links.remove x, count := s.count - 1 }

/-- The calls about the front or the back. -/
def atEnd (s : VosList α) (ppNode interrupted : Bool)
    (body : VosList α → Option (ListReturn α)) : Option (ListReturn α) :=
  if !ppNode then some (.eFault, none, s)
  else s.enter interrupted fun s =>
    if s.links.next s.anchor = s.anchor then s.leave .eEmpty none else body s

section
variable [Fintype α]

/-- `list_for_each` with `found`. -/
def found (s : VosList α) (x : α) : Option Bool :=
  s.links.search s.anchor x (Fintype.card α) (s.links.next s.anchor)

/-- The calls about a node, which is looked for first; when it is not found, the return is without `mutex_unlock`. -/
def atNode (s : VosList α) (pNode : Option α) (interrupted : Bool)
    (body : VosList α → α → Option (ListReturn α)) : Option (ListReturn α) :=
  match pNode with
  | none => some (.eFault, none, s)
  | some x => s.enter interrupted fun s =>
    if s.links.next s.anchor = s.anchor then s.leave .eEmpty none
    else
      match s.found x with
      | none => none
      | some false => some (.eInval, none, s)
      | some true => body s x

end

end VosList

/-! ### The calls -/

section
variable [DecidableEq α]

def vosListInit (s : VosList α) : Option (ListReturn α) :=
  if s.cookie = vosListCookie then some (.eBusy, none, s)
  else some (.success, none, { s with
    lock := false, links := s.links.init s.anchor, count := 0, cookie := vosListCookie })

def vosListDestroy (s : VosList α) (interrupted : Bool) : Option (ListReturn α) :=
  s.enter interrupted fun s =>
    if s.count ≠ 0 then s.leave .eBusy none
    else VosList.leave { s with cookie := 0 } .success none

def vosListInsertFront (s : VosList α) (pNode : Option α) (interrupted : Bool) :
    Option (ListReturn α) :=
  match pNode with
  | none => some (.eFault, none, s)
  | some x => s.enter interrupted fun s =>
    (s.insert x s.anchor (s.links.next s.anchor)).leave .success none

def vosListInsertBack (s : VosList α) (pNode : Option α) (interrupted : Bool) :
    Option (ListReturn α) :=
  match pNode with
  | none => some (.eFault, none, s)
  | some x => s.enter interrupted fun s =>
    (s.insert x (s.links.prev s.anchor) s.anchor).leave .success none

def vosListRemoveFront (s : VosList α) (ppNode interrupted : Bool) : Option (ListReturn α) :=
  s.atEnd ppNode interrupted fun s =>
    let listptr := s.links.next s.anchor
    (s.delete listptr).leave .success (some listptr)

def vosListRemoveBack (s : VosList α) (ppNode interrupted : Bool) : Option (ListReturn α) :=
  s.atEnd ppNode interrupted fun s =>
    let listptr := s.links.prev s.anchor
    (s.delete listptr).leave .success (some listptr)

def vosListPeekFront (s : VosList α) (ppNode interrupted : Bool) : Option (ListReturn α) :=
  s.atEnd ppNode interrupted fun s => s.leave .success (some (s.links.next s.anchor))

def vosListPeekBack (s : VosList α) (ppNode interrupted : Bool) : Option (ListReturn α) :=
  s.atEnd ppNode interrupted fun s => s.leave .success (some (s.links.prev s.anchor))

variable [Fintype α]

def vosListPeekNext (s : VosList α) (pNode : Option α) (ppNode interrupted : Bool) :
    Option (ListReturn α) :=
  s.atNode (if ppNode then pNode else none) interrupted fun s x =>
    let listptr := s.links.next x
    if listptr = s.anchor then s.leave .eEmpty none else s.leave .success (some listptr)

def vosListPeekPrev (s : VosList α) (pNode : Option α) (ppNode interrupted : Bool) :
    Option (ListReturn α) :=
  s.atNode (if ppNode then pNode else none) interrupted fun s x =>
    let listptr := s.links.prev x
    if listptr = s.anchor then s.leave .eEmpty none else s.leave .success (some listptr)

/-- The node is inserted behind `pNode`. -/
def vosListInsertBefore (s : VosList α) (pNodeToInsert pNode : Option α) (interrupted : Bool) :
    Option (ListReturn α) :=
  match pNodeToInsert with
  | none => some (.eFault, none, s)
  | some y => s.atNode pNode interrupted fun s x =>
    (s.insert y x (s.links.next x)).leave .success none

def vosListRemoveNode (s : VosList α) (pNodeToRemove : Option α) (interrupted : Bool) :
    Option (ListReturn α) :=
  s.atNode pNodeToRemove interrupted fun s x => (s.delete x).leave .success none

end

/-! ### What is to hold -/

/-- What is to hold of a list that is initialised, between calls. -/
def ListRight (s : VosList α) : Prop :=
  s.cookie = vosListCookie → s.lock = false ∧ ∃ xs, s.links.Circle s.anchor xs ∧ s.count = xs.length

/-- A call returns, leaves the list as it is when it fails, and keeps what is to hold exactly under a condition. -/
def Settles (s : VosList α) (ok : Prop) (r : Option (ListReturn α)) : Prop :=
  ∃ a, r = some a ∧ (a.1 ≠ .success → a.2.2.links = s.links ∧ a.2.2.count = s.count) ∧
    (ListRight a.2.2 ↔ ok)

/-- The list is initialised, and the call gets the lock. -/
def VosList.Enters (s : VosList α) (interrupted : Bool) : Prop :=
  s.cookie = vosListCookie ∧ interrupted = false

/-- A list that is initialised and right, with its nodes. -/
structure Held (s : VosList α) (xs : List α) : Prop where
  cookie : s.cookie = vosListCookie
  circle : s.links.Circle s.anchor xs
  count : s.count = xs.length

theorem ListRight.unchanged {s : VosList α} (h : ListRight s) (status : ListStatus)
    (node : Option α) : Settles s True (some (status, node, s)) :=
  ⟨_, rfl, fun _ => ⟨rfl, rfl⟩, iff_true_intro h⟩

theorem Held.leave {s : VosList α} {xs : List α} (h : Held s xs) (status : ListStatus)
    (node : Option α) : Settles s True (VosList.leave { s with lock := true } status node) :=
  ⟨_, rfl, fun _ => ⟨rfl, rfl⟩, iff_true_intro fun _ => ⟨rfl, xs, h.circle, h.count⟩⟩

theorem settles_enter {s : VosList α} {q : Prop} {i : Bool} {f : VosList α → Option (ListReturn α)}
    (h : ListRight s) (hf : ∀ xs, Held s xs → Settles s q (f { s with lock := true })) :
    Settles s (s.Enters i → q) (s.enter i f) := by
  by_cases hc : s.cookie = vosListCookie
  · obtain ⟨hlock, xs, hcircle, hcount⟩ := h hc
    cases i with
    | true =>
      have hno : ¬ s.Enters true := fun he => Bool.noConfusion he.2
      simpa [enter, hc, hno] using h.unchanged .eFault none
    | false =>
      have hyes : s.Enters false := ⟨hc, rfl⟩
      simpa [enter, hc, hlock, hyes] using hf xs ⟨hc, hcircle, hcount⟩
  · have hno : ¬ s.Enters i := fun he => hc he.1
    simpa [enter, hc, hno] using h.unchanged .eInval none

/-! ### Runs -/

/-- The calls, each with whether a signal interrupts it while it waits for the lock. -/
inductive ListCall (α : Type*) where
  | init
  | destroy (interrupted : Bool)
  | insertFront (pNode : Option α) (interrupted : Bool)
  | insertBack (pNode : Option α) (interrupted : Bool)
  | insertBefore (pNodeToInsert pNode : Option α) (interrupted : Bool)
  | removeFront (ppNode interrupted : Bool)
  | removeBack (ppNode interrupted : Bool)
  | removeNode (pNodeToRemove : Option α) (interrupted : Bool)
  | peekFront (ppNode interrupted : Bool)
  | peekBack (ppNode interrupted : Bool)
  | peekNext (pNode : Option α) (ppNode interrupted : Bool)
  | peekPrev (pNode : Option α) (ppNode interrupted : Bool)

section
variable [DecidableEq α] [Fintype α]

def listCall (s : VosList α) : ListCall α → Option (ListReturn α)
  | .init => vosListInit s
  | .destroy i => vosListDestroy s i
  | .insertFront p i => vosListInsertFront s p i
  | .insertBack p i => vosListInsertBack s p i
  | .insertBefore y p i => vosListInsertBefore s y p i
  | .removeFront pp i => vosListRemoveFront s pp i
  | .removeBack pp i => vosListRemoveBack s pp i
  | .removeNode p i => vosListRemoveNode s p i
  | .peekFront pp i => vosListPeekFront s pp i
  | .peekBack pp i => vosListPeekBack s pp i
  | .peekNext p pp i => vosListPeekNext s p pp i
  | .peekPrev p pp i => vosListPeekPrev s p pp i

/-- A list from the memory it is in on, before it is initialised. -/
def listMachine (α : Type*) [DecidableEq α] [Fintype α] : Machine (VosList α) (ListCall α) where
  init s := s.cookie ≠ vosListCookie
  step s c := (listCall s c).map fun r => r.2.2

/-- A node that is not in the list, nor the anchor. -/
def VosList.Fresh (s : VosList α) (x : α) : Prop := x ≠ s.anchor ∧ s.found x ≠ some true
deriving Decidable

/-- A node that is looked for is found, if there is any. -/
def VosList.Finds (s : VosList α) (p : Option α) (interrupted : Bool) (q : Prop) : Prop :=
  s.Enters interrupted → s.links.next s.anchor ≠ s.anchor → ∀ x ∈ p, s.found x = some true ∧ q

/-- **The condition.**  What is looked for is in the list, and what is inserted is not. -/
def ListCallOk (s : VosList α) : ListCall α → Prop
  | .insertFront p i | .insertBack p i => s.Enters i → ∀ x ∈ p, s.Fresh x
  | .insertBefore y p i => ∀ x ∈ y, s.Finds p i (s.Fresh x)
  | .removeNode p i => s.Finds p i True
  | .peekNext p pp i | .peekPrev p pp i => s.Finds (if pp then p else none) i True
  | _ => True

instance (s : VosList α) (p : Option α) (i : Bool) (q : Prop) [Decidable q] :
    Decidable (s.Finds p i q) :=
  inferInstanceAs (Decidable (_ ∧ _ → _ → ∀ x ∈ p, _ ∧ q))

instance (s : VosList α) : (c : ListCall α) → Decidable (ListCallOk s c)
  | .insertFront p _ | .insertBack p _ => inferInstanceAs (Decidable (_ ∧ _ → ∀ x ∈ p, s.Fresh x))
  | .insertBefore y p i => inferInstanceAs (Decidable (∀ x ∈ y, s.Finds p i (s.Fresh x)))
  | .removeNode p i => inferInstanceAs (Decidable (s.Finds p i True))
  | .peekNext p pp i | .peekPrev p pp i =>
    inferInstanceAs (Decidable (s.Finds (if pp then p else none) i True))
  | .init | .destroy _ | .removeFront .. | .removeBack .. | .peekFront .. | .peekBack .. =>
    .isTrue trivial

/-! ### What a call does -/

variable {s : VosList α} {xs : List α} {u x : α} {i : Bool} {q : Prop} {p : Option α}

omit [Fintype α] in
theorem settles_atEnd {pp : Bool} {f : VosList α → Option (ListReturn α)} (h : ListRight s)
    (hf : ∀ x xs, Held s (x :: xs) → Settles s True (f { s with lock := true })) :
    Settles s True (s.atEnd pp i f) := by
  cases pp with
  | false => exact h.unchanged .eFault none
  | true =>
    have henter := settles_enter (i := i) (q := True) (f := fun s =>
      if s.links.next s.anchor = s.anchor then s.leave .eEmpty none else f s) h ?_
    · simpa [atEnd] using henter
    intro xs hs
    cases xs with
    | nil => simpa [hs.circle.next_nil] using hs.leave .eEmpty none
    | cons x xs =>
      have hne := mt hs.circle.next_eq_head.1 (cons_ne_nil x xs)
      simpa [hne] using hf x xs hs

theorem Held.found (h : Held s xs) (x : α) : s.found x = some (decide (x ∈ xs)) := by
  have hlen : (s.anchor :: xs).length ≤ Fintype.card α := h.circle.nodup.length_le_card
  exact h.circle.path.search h.circle.head_notMem hlen x

theorem Held.fresh_iff (h : Held s xs) : s.Fresh x ↔ x ∉ s.anchor :: xs := by
  rw [VosList.Fresh, h.found, mem_cons, not_or]
  simp

theorem settles_atNode {f : VosList α → α → Option (ListReturn α)} (h : ListRight s)
    (hf : ∀ x xs, Held s xs → x ∈ xs → Settles s q (f { s with lock := true } x)) :
    Settles s (s.Finds p i q) (s.atNode p i f) := by
  cases p with
  | none => simpa [VosList.Finds, atNode] using h.unchanged .eFault none
  | some x =>
    simp only [VosList.Finds, atNode]
    refine settles_enter h fun xs hs => ?_
    have hfound : found { s with lock := true } x = some (decide (x ∈ xs)) := hs.found x
    by_cases hnil : xs = []
    · have hempty := hs.circle.next_eq_head.2 hnil
      simpa [hempty] using hs.leave .eEmpty none
    have hne := mt hs.circle.next_eq_head.1 hnil
    rw [if_neg hne, hfound]
    by_cases hx : x ∈ xs
    · simpa [hne, hx, hs.found x] using hf x xs hs hx
    · -- the lock stays
      refine ⟨(.eInval, none, { s with lock := true }), by simp [hx], fun _ => ⟨rfl, rfl⟩, ?_⟩
      refine iff_of_false (fun hr => ?_) (by simp [hne, hx, hs.found x])
      exact Bool.noConfusion (hr hs.cookie).1

/-- **A node is inserted.** -/
theorem Held.insert (h : Held s xs) (hu : u ∈ s.anchor :: xs) :
    Settles s (s.Fresh x) ((VosList.insert { s with lock := true } x u (s.links.next u)).leave
      .success none) := by
  refine ⟨_, rfl, absurd rfl, ?_⟩
  rw [h.fresh_iff]
  constructor
  · intro hr hx
    obtain ⟨-, ys, hys, hlen⟩ := hr h.cookie
    have hle := h.circle.length_le_of_addBetween (h.circle.next_mem hu) hx hys
    have hlen : s.count + 1 = ys.length := hlen
    have := h.count
    omega
  · intro hx _
    obtain ⟨ys, hys, hlen⟩ := h.circle.addBetween hu hx
    exact ⟨rfl, ys, hys, (congrArg (· + 1) h.count).trans hlen.symm⟩

omit [Fintype α] in
/-- **A node is taken out.** -/
theorem Held.delete (h : Held s xs) (hx : x ∈ xs) (node : Option α) :
    Settles s True ((VosList.delete { s with lock := true } x).leave .success node) := by
  obtain ⟨pre, post, rfl⟩ := append_of_mem hx
  refine ⟨_, rfl, absurd rfl, iff_true_intro fun _ => ⟨rfl, pre ++ post, h.circle.remove, ?_⟩⟩
  have hcount : s.count - 1 = (pre ++ x :: post).length - 1 := congrArg (· - 1) h.count
  have hlen : (pre ++ x :: post).length - 1 = (pre ++ post).length := by simp
  exact hcount.trans hlen

/-- **One call.** -/
theorem listCall_settles (h : ListRight s) (c : ListCall α) :
    Settles s (ListCallOk s c) (listCall s c) := by
  cases c with
  | init =>
    by_cases hc : s.cookie = vosListCookie
    · simpa [listCall, ListCallOk, vosListInit, hc] using h.unchanged .eBusy none
    · refine ⟨_, if_neg hc, absurd rfl, iff_true_intro fun _ => ⟨rfl, [], ?_, rfl⟩⟩
      exact Links.circle_init s.links s.anchor
  | destroy i =>
    have henter := settles_enter (i := i) (q := True) (f := fun s =>
      if s.count ≠ 0 then s.leave .eBusy none
      else leave { s with cookie := 0 } .success none) h fun xs hs => ?_
    · simpa [listCall, vosListDestroy, ListCallOk] using henter
    by_cases hzero : s.count = 0
    · rw [if_neg (not_not.2 hzero)]
      refine ⟨_, rfl, absurd rfl, iff_true_intro fun hc => ?_⟩
      have hcookie : (0 : ℕ) = vosListCookie := hc
      exact absurd hcookie (by decide)
    · rw [if_pos hzero]
      exact hs.leave .eBusy none
  | insertFront p i =>
    cases p with
    | none => simpa [ListCallOk, listCall, vosListInsertFront] using h.unchanged .eFault none
    | some x =>
      simp only [ListCallOk, listCall, vosListInsertFront, mem_def, some.injEq, forall_eq']
      exact settles_enter h fun xs hs => hs.insert mem_cons_self
  | insertBack p i =>
    cases p with
    | none => simpa [ListCallOk, listCall, vosListInsertBack] using h.unchanged .eFault none
    | some x =>
      simp only [ListCallOk, listCall, vosListInsertBack, mem_def, some.injEq, forall_eq']
      refine settles_enter h fun xs hs => ?_
      have hins := hs.insert (x := x) hs.circle.prev_mem
      rwa [hs.circle.path.next_prev] at hins
  | insertBefore y p i =>
    cases y with
    | none => simpa [ListCallOk, listCall, vosListInsertBefore] using h.unchanged .eFault none
    | some y =>
      simp only [ListCallOk, listCall, vosListInsertBefore, mem_def, some.injEq, forall_eq']
      exact settles_atNode h fun x xs hs hx => hs.insert (mem_cons_of_mem _ hx)
  | removeFront pp i =>
    refine settles_atEnd h fun x xs hs => hs.delete ?_ _
    rw [hs.circle.next_cons]
    exact mem_cons_self
  | removeBack pp i =>
    refine settles_atEnd h fun x xs hs => hs.delete ?_ _
    refine (mem_cons.1 hs.circle.prev_mem).resolve_left fun e => ?_
    have hnext := hs.circle.path.next_prev
    rw [e] at hnext
    cases hs.circle.next_eq_head.1 hnext
  | removeNode p i => exact settles_atNode h fun x xs hs hx => hs.delete hx none
  | peekFront pp i => exact settles_atEnd h fun x xs hs => hs.leave _ _
  | peekBack pp i => exact settles_atEnd h fun x xs hs => hs.leave _ _
  | peekNext p pp i =>
    refine settles_atNode h fun x xs hs _ => ?_
    dsimp only
    split
    · exact hs.leave _ _
    · exact hs.leave _ _
  | peekPrev p pp i =>
    refine settles_atNode h fun x xs hs _ => ?_
    dsimp only
    split
    · exact hs.leave _ _
    · exact hs.leave _ _

/-- **The lists.**  Where all calls have met the condition, the lock is free, and the links are one circle with as many nodes as are counted; the next call returns, changes nothing when it fails, and keeps this exactly when it meets the condition too. -/
theorem vos_lists_iff (s : VosList α) (hs : (listMachine α).Reach ListCallOk s) :
    ListRight s ∧ ∀ c : ListCall α, Settles s (ListCallOk s c) (listCall s c) := by
  have hr : ListRight s := by
    refine hs.invariant ListRight (fun s h hc => absurd hc h) fun s c s' hr hok hstep => ?_
    obtain ⟨a, ha, -, hiff⟩ := listCall_settles hr c
    obtain ⟨b, hb, rfl⟩ := map_eq_some_iff.1 hstep
    obtain rfl := some.inj (ha.symm.trans hb)
    exact hiff.2 hok
  exact ⟨hr, listCall_settles hr⟩

end

def blankList : VosList (Fin 4) := ⟨0, ⟨fun _ => 0, fun _ => 0⟩, 7, 0, true⟩

/-- **A node that is not in the list is looked for**: the call fails and keeps the lock, and the next one does not return. -/
theorem peekNext_keeps_lock :
    ∃ s, (listMachine (Fin 4)).run blankList [.init, .insertFront (some 1) false] = some s ∧
      ∃ s', listCall s (.peekNext (some 2) true false) = some (.eInval, none, s') ∧
        s'.lock = true ∧ listCall s' (.peekFront true false) = none ∧ ¬ ListRight s' := by
  refine ⟨_, rfl, _, rfl, rfl, rfl, fun hr => ?_⟩
  exact Bool.noConfusion (hr rfl).1

theorem vos_lists_iff_calls :
    ∃ s, (listMachine (Fin 4)).run blankList [.init, .insertFront (some 1) false,
        .insertBack (some 2) false, .insertBefore (some 3) (some 1) false,
        .peekNext (some 2) true false, .removeNode (some 3) false, .removeFront true false,
        .peekPrev (some 2) true true] = some s ∧
      (ListRight s ∧ ∀ c : ListCall (Fin 4), Settles s (ListCallOk s c) (listCall s c)) ∧
      s.count = 1 ∧ s.links.next 0 = 2 :=
  Machine.exists_right vos_lists_iff (by change blankList.cookie ≠ vosListCookie; decide)
    (by decide +kernel) (by decide +kernel)

end Qcacld.Vos

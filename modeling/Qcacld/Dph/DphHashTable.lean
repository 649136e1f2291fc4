import Mathlib.Algebra.GroupWithZero.Nat
import Mathlib.Data.List.Perm.Subperm
import Qcacld.Support.Pointwise
import Qcacld.Support.Runs
import Qcacld.Support.Threaded

/-!
# Dph — DphHashTable

The stations of a session.  A node array is indexed by association id, and threaded into chains by a hash of the MAC address, so that a station is found by either.  `dphAddHashEntry` checks the id against the array and the address against a chain; `dphDeleteHashEntry` checks that the id was added, and unlinks the node that has the address.

`TableRight` says that the two views are one partial bijection, and `dph_table_iff` that every call keeps it and does what it says on it (`CallRight`), but for two: a delete that names the id of one station and the address of another, which takes the other away, and an add whose id does not fit `getNode`, which takes it as a byte.
-/

namespace Qcacld.Dph
open Qcacld.Support Function List Option Nat

/-! ### Stations -/

structure SirMacAddr where
  a0 : UInt8
  a1 : UInt8
  a2 : UInt8
  a3 : UInt8
  a4 : UInt8
  a5 : UInt8
deriving DecidableEq

namespace SirMacAddr

def bytes (a : SirMacAddr) : List UInt8 := [a.a0, a.a1, a.a2, a.a3, a.a4, a.a5]

def zero : SirMacAddr := ⟨0, 0, 0, 0, 0, 0⟩

end SirMacAddr

/-- What the table reads and writes of `tDphHashNode`. -/
structure DphHashNode where
  next : Option Nat
  staAddr : SirMacAddr
  assocId : Nat
  added : Bool
  valid : Bool
  staIndex : Nat

/-- `dphHashTableClass`: a node is known by its index. -/
structure DphHashTable where
  size : Nat
  pHashTable : Nat → Option Nat
  pDphNodeArray : Nat → DphHashNode

open DphHashTable

def halStaInvalidIdx : Nat := 0xFF

namespace DphHashTable

def setNode (t : DphHashTable) (i : Nat) (n : DphHashNode) : DphHashTable :=
  { t with pDphNodeArray := update t.pDphNodeArray i n }

def setHead (t : DphHashTable) (b : Nat) (p : Option Nat) : DphHashTable :=
  { t with pHashTable := update t.pHashTable b p }

/-- The `next` pointers. -/
def next (t : DphHashTable) (i : Nat) : Option Nat := (t.pDphNodeArray i).next

end DphHashTable

/-! ### The functions -/

def hashFunction (staAddr : SirMacAddr) (numSta : Nat) : Nat :=
  (staAddr.bytes.map UInt8.toNat).sum % 2 ^ 16 % numSta

/-- The loops over a chain run out of nodes before this. -/
def DphHashTable.fuel (t : DphHashTable) : Nat := t.size + 1

/-- `dphLookupHashEntry`: the node, whose `assocId` is returned too. -/
def dphLookupHashEntry (t : DphHashTable) (staAddr : SirMacAddr) : Option (Option Nat) :=
  let index := hashFunction staAddr t.size
  let look _ i := if staAddr = (t.pDphNodeArray i).staAddr then Look.found else .goOn
  (seek t.next look t.fuel none (t.pHashTable index)).map fun
    | .found _ ptr => some ptr
    | _ => none

def dphGetHashEntry (t : DphHashTable) (peerIdx : Nat) : Option Nat :=
  if peerIdx < t.size then if (t.pDphNodeArray peerIdx).added then some peerIdx else none
  else none

/-- `getNode`, whose `assocId` is a `tANI_U8` -/
def getNode (assocId : Nat) : Nat := assocId % 2 ^ 8

def dphInitStaState (t : DphHashTable) (staAddr : SirMacAddr) (assocId : Nat)
    (validStaIdx : Bool) : Option DphHashTable :=
  if assocId ≥ t.size then none
  else
    let pStaDs := getNode assocId
    let old := t.pDphNodeArray pStaDs
    some <| t.setNode pStaDs {
      next := old.next
      staAddr := staAddr
      assocId := assocId
      added := true
      valid := true
      staIndex := if validStaIdx then old.staIndex else halStaInvalidIdx }

def linkNode (t : DphHashTable) (index assocId : Nat) : DphHashTable :=
  let t := t.setNode assocId { t.pDphNodeArray assocId with next := t.pHashTable index }
  t.setHead index (some assocId)

/-- `dphAddHashEntry`: whether it returns the node, and the table; `none` when its loop does not end. -/
def dphAddHashEntry (t : DphHashTable) (staAddr : SirMacAddr) (assocId : Nat) :
    Option (Bool × DphHashTable) :=
  let index := hashFunction staAddr t.size
  if assocId ≥ t.size then some (false, t)
  else if (t.pDphNodeArray assocId).added then some (false, t)
  else
    let look _ i :=
      if t.next i = some i then Look.giveUp
      else if staAddr = (t.pDphNodeArray i).staAddr ∨ (t.pDphNodeArray i).assocId = assocId then
        .found
      else .goOn
    (seek t.next look t.fuel none (t.pHashTable index)).map fun
      | .gaveUp => (false, t)
      | .found .. => (false, t)
      | .ended =>
        match dphInitStaState t staAddr assocId false with
        | none => (false, t)
        | some t => (true, linkNode t index assocId)

/-- What `dphDeleteHashEntry` does with the node it has found, and the one before. -/
def unlinkNode (t : DphHashTable) (index : Nat) (prev : Option Nat) (ptr : Nat) : DphHashTable :=
  let t := t.setNode ptr
    { t.pDphNodeArray ptr with
      valid := false
      staAddr := .zero }
  let t := match prev with
    | none => t.setHead index (t.next ptr)
    | some prev => t.setNode prev { t.pDphNodeArray prev with next := t.next ptr }
  t.setNode ptr
    { t.pDphNodeArray ptr with
      added := false
      next := none }

/-- `dphDeleteHashEntry`: whether it succeeds, and the table; `none` when its loop does not end. -/
def dphDeleteHashEntry (t : DphHashTable) (staAddr : SirMacAddr) (assocId : Nat) :
    Option (Bool × DphHashTable) :=
  let index := hashFunction staAddr t.size
  if assocId ≥ t.size then some (false, t)
  else if (t.pDphNodeArray assocId).added = false then some (false, t)
  else
    let look prev i :=
      if staAddr = (t.pDphNodeArray i).staAddr then Look.found
      else if prev = some i then .giveUp
      else .goOn
    (seek t.next look t.fuel none (t.pHashTable index)).map fun
      | .gaveUp => (false, t)
      | .ended => (false, t)
      | .found prev ptr => (true, unlinkNode t index prev ptr)

/-! ### Runs -/

inductive DphCall where
  | add (staAddr : SirMacAddr) (assocId : Nat)
  | delete (staAddr : SirMacAddr) (assocId : Nat)
  /-- `dphInitStaState` of a present station, with its own address and id -/
  | reinit (assocId : Nat) (validStaIdx : Bool)

def DphHashTable.Present (t : DphHashTable) (i : Nat) : Prop :=
  i < t.size ∧ (t.pDphNodeArray i).added = true
deriving Decidable

def DphCall.Allowed (t : DphHashTable) : DphCall → Prop
  | .add .. | .delete .. => True
  | .reinit assocId _ => t.Present assocId

instance (t : DphHashTable) : (c : DphCall) → Decidable (c.Allowed t)
  | .add .. | .delete .. => .isTrue trivial
  | .reinit assocId _ => inferInstanceAs (Decidable (t.Present assocId))

/-- One call: whether it succeeds, and the table. -/
def dphCall (t : DphHashTable) : DphCall → Option (Bool × DphHashTable)
  | .add staAddr assocId => dphAddHashEntry t staAddr assocId
  | .delete staAddr assocId => dphDeleteHashEntry t staAddr assocId
  | .reinit assocId validStaIdx =>
    (dphInitStaState t (t.pDphNodeArray assocId).staAddr assocId validStaIdx).map (true, ·)

/-- `dphHashTableClassInit` has been called: no chains, no stations, and what else is in the memory of the nodes. -/
def DphHashTable.Initial (t : DphHashTable) : Prop :=
  0 < t.size ∧ ∀ i, t.pHashTable i = none ∧ (t.pDphNodeArray i).added = false
    ∧ (t.pDphNodeArray i).assocId = i

def dphMachine : Machine DphHashTable DphCall where
  init := DphHashTable.Initial
  step t c := do
    guard (c.Allowed t)
    (·.2) <$> dphCall t c

/-! ### The partial bijection -/

def DphHashTable.station (t : DphHashTable) (i : Nat) : Option SirMacAddr :=
  if t.Present i then some (t.pDphNodeArray i).staAddr else none

structure TableRight (t : DphHashTable) : Prop where
  /-- no two ids have the same address -/
  inj : ∀ i j a, t.station i = some a → t.station j = some a → i = j
  /-- every chain ends, and holds exactly the stations that hash to it -/
  chains : ∀ b < t.size, ∃ l, Threaded t.next (t.pHashTable b) l ∧
    ∀ i, i ∈ l ↔ ∃ a, t.station i = some a ∧ hashFunction a t.size = b
  /-- the lookup finds exactly the addresses of stations -/
  lookup : ∀ a, ∃ r, dphLookupHashEntry t a = some r ∧ ∀ i, r = some i ↔ t.station i = some a
  /-- and their ids -/
  ids : ∀ i, t.Present i → (t.pDphNodeArray i).assocId = i
  /-- a node is got for exactly the ids of stations -/
  get : ∀ i, dphGetHashEntry t i = if t.Present i then some i else none

/-- Neither the id nor the address is that of a station. -/
def DphHashTable.CanAdd (t : DphHashTable) (staAddr : SirMacAddr) (assocId : Nat) : Prop :=
  assocId < t.size ∧ t.station assocId = none ∧ ∀ j, t.station j ≠ some staAddr

/-- What a call is to do: a partial bijection is updated, or nothing is changed. -/
def CallRight (t : DphHashTable) (c : DphCall) : Prop :=
  ∃ ok t', dphCall t c = some (ok, t') ∧ TableRight t' ∧ t'.size = t.size ∧
    match c with
    | .add staAddr assocId =>
      (t.CanAdd staAddr assocId →
        ok = true ∧ t'.station = update t.station assocId (some staAddr)) ∧
      (¬ t.CanAdd staAddr assocId → ok = false ∧ t' = t)
    | .delete staAddr assocId =>
      if t.station assocId = some staAddr then
        ok = true ∧ t'.station = update t.station assocId none
      else ok = false ∧ t' = t
    | .reinit .. => ok = true ∧ t'.station = t.station

/-- **The condition.**  An id that is added fits a byte; a delete whose id is that of a station
does not name the address of another. -/
def DphCallOk (t : DphHashTable) : DphCall → Prop
  | .add staAddr assocId => t.CanAdd staAddr assocId → assocId < 2 ^ 8
  | .delete staAddr assocId =>
    t.Present assocId → ∀ j, t.station j = some staAddr → j = assocId
  | .reinit .. => True

/-! ### The chains -/

section
variable {t t' : DphHashTable} {a : SirMacAddr} {b i j : Nat} {l : List Nat}

@[simp] theorem next_setNode (n : DphHashNode) : (t.setNode i n).next = update t.next i n.next := by
  funext j
  rcases eq_or_ne j i with rfl | h
  · simp [DphHashTable.next, DphHashTable.setNode]
  · simp [DphHashTable.next, setNode, update_of_ne h]

@[simp] theorem next_setHead (q : Option Nat) : (t.setHead b q).next = t.next := rfl

theorem station_eq_some : t.station i = some a ↔ t.Present i ∧ (t.pDphNodeArray i).staAddr = a := by
  rw [station]
  split
  · next h => exact ⟨fun e => ⟨h, some.inj e⟩, fun e => congrArg some e.2⟩
  · next h => exact ⟨fun e => (nomatch e), fun e => absurd e.1 h⟩

theorem station_eq_none : t.station i = none ↔ ¬ t.Present i := by
  rw [station]
  split
  · next h => exact iff_of_false (fun e => nomatch e) fun hn => hn h
  · next h => exact iff_of_true rfl h

/-- Chain `b` ends, and holds the stations that hash to `b`. -/
def ChainHolds (t : DphHashTable) (b : Nat) (l : List Nat) : Prop :=
  Threaded t.next (t.pHashTable b) l ∧
    ∀ i, i ∈ l ↔ ∃ a, t.station i = some a ∧ hashFunction a t.size = b

theorem ChainHolds.present (h : ChainHolds t b l) (hi : i ∈ l) : t.Present i := by
  obtain ⟨a, ha, -⟩ := (h.2 i).1 hi
  exact (station_eq_some.1 ha).1

theorem ChainHolds.length_le (h : ChainHolds t b l) : l.length ≤ t.fuel := by
  have hsub : l ⊆ range t.size := fun i hi => mem_range.2 (h.present hi).1
  have hle := (subperm_of_subset h.1.nodup hsub).length_le
  rw [length_range] at hle
  exact le_trans hle (le_succ _)

theorem ChainHolds.mem_of_station (h : ChainHolds t (hashFunction a t.size) l)
    (hi : t.station i = some a) : i ∈ l :=
  (h.2 i).2 ⟨a, hi, rfl⟩

theorem lookup_of_chain (h : ChainHolds t (hashFunction a t.size) l)
    (hinj : ∀ i j a, t.station i = some a → t.station j = some a → i = j) :
    ∃ r, dphLookupHashEntry t a = some r ∧ ∀ i, r = some i ↔ t.station i = some a := by
  rw [dphLookupHashEntry]
  have hs := seek_spec (q := fun i => a = (t.pDphNodeArray i).staAddr) (u := none)
    (k := fun _ i => if a = (t.pDphNodeArray i).staAddr then Look.found else .goOn)
    h.1 h.length_le (fun _ _ e => by cases e)
    (fun _ i _ _ hq => if_pos hq) (fun _ i _ _ _ hq => if_neg hq)
  rcases hs with ⟨l₁, x, l₂, rfl, -, hx, hs⟩ | ⟨hl, hs⟩
  · have hstation : t.station x = some a :=
      station_eq_some.2 ⟨h.present (by simp), hx.symm⟩
    refine ⟨some x, by rw [hs]; rfl, fun i => ⟨?_, fun hi => ?_⟩⟩
    · rintro ⟨⟩
      exact hstation
    · rw [hinj x i a hstation hi]
  · refine ⟨none, by rw [hs]; rfl, fun i => ⟨(fun e => by cases e), fun hi => ?_⟩⟩
    exact absurd (station_eq_some.1 hi).2.symm (hl i (h.mem_of_station hi))

/-- What is left to show of `TableRight`. -/
theorem tableRight_of_chains (hpos : 0 < t.size)
    (hinj : ∀ i j a, t.station i = some a → t.station j = some a → i = j)
    (hch : ∀ b < t.size, ∃ l, ChainHolds t b l)
    (hid : ∀ i, t.Present i → (t.pDphNodeArray i).assocId = i) : TableRight t where
  inj := hinj
  chains := hch
  lookup a := by
    obtain ⟨l, hl⟩ := hch (hashFunction a t.size) (mod_lt _ hpos)
    exact lookup_of_chain hl hinj
  ids := hid
  get i := by
    rw [dphGetHashEntry]
    by_cases h : i < t.size
    · by_cases ha : (t.pDphNodeArray i).added = true
      · rw [if_pos h, if_pos ha, if_pos ⟨h, ha⟩]
      · rw [if_pos h, if_neg ha, if_neg fun hp => ha hp.2]
    · rw [if_neg h, if_neg fun hp => h hp.1]

theorem TableRight.chain (h : TableRight t) (hb : b < t.size) : ∃ l, ChainHolds t b l :=
  h.chains b hb

/-! ### Adding -/

/-- The node `dphInitStaState` leaves. -/
def freshNode (t : DphHashTable) (a : SirMacAddr) (id : Nat) (validStaIdx : Bool) : DphHashNode where
  next := t.next (getNode id)
  staAddr := a
  assocId := id
  added := true
  valid := true
  staIndex := if validStaIdx then (t.pDphNodeArray (getNode id)).staIndex else halStaInvalidIdx

theorem dphInitStaState_eq {id : Nat} (h : id < t.size) (v : Bool) :
    dphInitStaState t a id v = some (t.setNode (getNode id) (freshNode t a id v)) :=
  if_neg (not_le.2 h)

theorem add_seek (h : TableRight t) {id : Nat} (hid : ¬ t.Present id) (hpos : 0 < t.size) :
    let look : Option Nat → Nat → Look := fun _ i =>
      if t.next i = some i then Look.giveUp
      else if a = (t.pDphNodeArray i).staAddr ∨ (t.pDphNodeArray i).assocId = id then .found
      else .goOn
    (∃ j prev, t.station j = some a ∧ seek t.next look t.fuel none
        (t.pHashTable (hashFunction a t.size)) = some (.found prev j)) ∨
    ((∀ j, t.station j ≠ some a) ∧ seek t.next look t.fuel none
        (t.pHashTable (hashFunction a t.size)) = some .ended) := by
  intro look
  obtain ⟨l, hl⟩ := h.chain (mod_lt (_ : Nat) hpos : hashFunction a t.size < t.size)
  have hq : ∀ i ∈ l, (a = (t.pDphNodeArray i).staAddr ∨ (t.pDphNodeArray i).assocId = id) →
      a = (t.pDphNodeArray i).staAddr := by
    intro i hi hq
    refine hq.resolve_right fun e => hid ?_
    exact e ▸ (h.ids i (hl.present hi)).symm ▸ hl.present hi
  rcases seek_spec (k := look) (u := none)
      (q := fun i => a = (t.pDphNodeArray i).staAddr ∨ (t.pDphNodeArray i).assocId = id)
      hl.1 hl.length_le (fun _ _ e => by cases e)
      (fun _ i _ hn hi => (if_neg hn).trans (if_pos hi))
      (fun _ i _ _ hn hi => (if_neg hn).trans (if_neg hi)) with
    ⟨l₁, x, l₂, rfl, -, hx, hs⟩ | ⟨hn, hs⟩
  · have hm : x ∈ l₁ ++ x :: l₂ := by simp
    exact Or.inl ⟨x, _, station_eq_some.2 ⟨hl.present hm, (hq x hm hx).symm⟩, hs⟩
  · refine Or.inr ⟨fun j hj => ?_, hs⟩
    exact hn j (hl.mem_of_station hj) (Or.inl (station_eq_some.1 hj).2.symm)

theorem dphAddHashEntry_fails (h : TableRight t) {id : Nat} (hc : ¬ t.CanAdd a id)
    (hpos : 0 < t.size) : dphAddHashEntry t a id = some (false, t) := by
  rw [dphAddHashEntry]
  split
  · rfl
  · next hid =>
    split
    · rfl
    · next hadd =>
      have hp : ¬ t.Present id := fun hp => hadd hp.2
      rcases add_seek (a := a) h hp hpos with ⟨j, prev, hj, hs⟩ | ⟨hn, -⟩
      · dsimp only
        rw [hs]
        rfl
      · exact absurd ⟨not_le.1 hid, station_eq_none.2 hp, hn⟩ hc

theorem dphAddHashEntry_succeeds (h : TableRight t) {id : Nat} (hc : t.CanAdd a id) :
    dphAddHashEntry t a id = some (true,
      linkNode (t.setNode (getNode id) (freshNode t a id false)) (hashFunction a t.size) id) := by
  have hp : ¬ t.Present id := station_eq_none.1 hc.2.1
  rw [dphAddHashEntry, if_neg (not_le.2 hc.1), if_neg fun hadd => hp ⟨hc.1, hadd⟩]
  dsimp only
  rcases add_seek (a := a) h hp (zero_lt_of_lt hc.1) with ⟨j, prev, hj, -⟩ | ⟨-, hs⟩
  · exact absurd hj (hc.2.2 j)
  · rw [hs, map_some, dphInitStaState_eq hc.1]

/-- The table after an add whose id fits a byte. -/
def added (t : DphHashTable) (a : SirMacAddr) (id : Nat) : DphHashTable :=
  linkNode (t.setNode id (freshNode t a id false)) (hashFunction a t.size) id

theorem added_present {id : Nat} (hid : id < t.size) :
    (added t a id).Present i ↔ t.Present i ∨ i = id := by
  rcases eq_or_ne i id with rfl | h
  · simp [added, linkNode, DphHashTable.Present, setNode, setHead, freshNode, hid]
  · simp [added, linkNode, DphHashTable.Present, setNode, setHead, h]

theorem added_station {id : Nat} (hid : id < t.size) :
    (added t a id).station = update t.station id (some a) := by
  funext i
  rcases eq_or_ne i id with rfl | h
  · rw [update_self, station_eq_some, added_present hid]
    exact ⟨Or.inr rfl, by simp [added, linkNode, setNode, setHead, freshNode]⟩
  · rw [update_of_ne h, station, station]
    have hn : (added t a id).pDphNodeArray i = t.pDphNodeArray i := by
      simp [added, linkNode, setNode, setHead, h]
    rw [hn]
    exact if_congr ((added_present hid).trans (or_iff_left h)) rfl rfl

theorem added_next {id : Nat} :
    (added t a id).next = update t.next id (t.pHashTable (hashFunction a t.size)) := by
  rw [added, linkNode, next_setHead, next_setNode, next_setNode, update_idem]
  rfl

/-- **An add keeps the table right.** -/
theorem added_right (h : TableRight t) {id : Nat} (hc : t.CanAdd a id) :
    TableRight (added t a id) := by
  have hst : (added t a id).station = update t.station id (some a) := added_station hc.1
  have hnot : ¬ t.Present id := station_eq_none.1 hc.2.1
  refine tableRight_of_chains (zero_lt_of_lt hc.1) (fun i j a' hi hj => ?_) (fun b hb => ?_)
    fun i hi => ?_
  · rw [hst, update_some_eq_some hc.2.1] at hi hj
    rcases hi with ⟨rfl, rfl⟩ | hi
    · rcases hj with ⟨rfl, -⟩ | hj
      · rfl
      · exact absurd hj (hc.2.2 j)
    · rcases hj with ⟨rfl, rfl⟩ | hj
      · exact absurd hi (hc.2.2 i)
      · exact h.inj i j a' hi hj
  · obtain ⟨l, hl⟩ := h.chain (b := b) hb
    have hid : id ∉ l := fun hm => hnot (hl.present hm)
    by_cases hbe : b = hashFunction a t.size
    · refine ⟨id :: l, ?_, fun i => ?_⟩
      · rw [added_next, hbe]
        have hhead : (added t a id).pHashTable (hashFunction a t.size) = some id :=
          update_self ..
        rw [hhead]
        exact (hbe ▸ hl.1).push hid
      · simp only [hst, update_some_eq_some hc.2.1, mem_cons, hl.2 i, or_and_right, exists_or]
        refine or_congr_left ⟨fun hi => ⟨a, ⟨hi, rfl⟩, hbe.symm⟩, ?_⟩
        rintro ⟨a', ⟨hi, -⟩, -⟩
        exact hi
    · refine ⟨l, ?_, fun i => ?_⟩
      · have hhead : (added t a id).pHashTable b = t.pHashTable b :=
          update_of_ne hbe ..
        rw [added_next, hhead]
        exact hl.1.update_of_notMem hid
      · simp only [hst, update_some_eq_some hc.2.1, hl.2 i, or_and_right, exists_or]
        refine (or_iff_right ?_).symm
        rintro ⟨a', ⟨-, rfl⟩, hb'⟩
        exact hbe hb'.symm
  · rcases eq_or_ne i id with rfl | hne
    · simp [added, linkNode, setNode, setHead, freshNode]
    · have hn : (added t a id).pDphNodeArray i = t.pDphNodeArray i := by
        simp [added, linkNode, setNode, setHead, hne]
      rw [hn]
      exact h.ids i (((added_present hc.1).1 hi).resolve_right hne)

theorem added_wide_wrong {id : Nat} (hc : t.CanAdd a id) (hw : ¬ id < 2 ^ 8) :
    ¬ TableRight (linkNode (t.setNode (getNode id) (freshNode t a id false))
      (hashFunction a t.size) id) := by
  intro h
  have hne : id ≠ getNode id := by
    intro e
    exact hw (e ▸ mod_lt _ (by decide))
  obtain ⟨l, hl⟩ := h.chain (b := hashFunction a t.size) (mod_lt _ (zero_lt_of_lt hc.1))
  have hhead : some id = l.head? := by
    rw [← hl.1.head]
    simp [linkNode, setNode, setHead]
  have hp := hl.present (mem_of_mem_head? hhead.symm)
  refine station_eq_none.1 hc.2.1 ⟨hc.1, ?_⟩
  have hadd := hp.2
  simp only [linkNode, setNode, setHead, update_self] at hadd
  rwa [update_of_ne hne] at hadd

/-! ### Deleting -/

section
variable {x : Nat} {prev : Option Nat}

@[simp] theorem unlinkNode_size : (unlinkNode t b prev x).size = t.size := by
  cases prev <;> rfl

theorem unlinkNode_added : ((unlinkNode t b prev x).pDphNodeArray x).added = false := by
  cases prev <;> simp [unlinkNode, setNode]

theorem unlinkNode_other (hi : i ≠ x) :
    ((unlinkNode t b prev x).pDphNodeArray i).added = (t.pDphNodeArray i).added ∧
      ((unlinkNode t b prev x).pDphNodeArray i).staAddr = (t.pDphNodeArray i).staAddr ∧
      ((unlinkNode t b prev x).pDphNodeArray i).assocId = (t.pDphNodeArray i).assocId := by
  cases prev with
  | none => simp [unlinkNode, setNode, setHead, hi]
  | some c =>
    rcases eq_or_ne i c with rfl | hc
    · simp [unlinkNode, setNode, hi]
    · simp [unlinkNode, setNode, hi, hc]

theorem unlinkNode_present : (unlinkNode t b prev x).Present i ↔ t.Present i ∧ i ≠ x := by
  rcases eq_or_ne i x with rfl | hi
  · refine iff_of_false (fun h => ?_) fun h => h.2 rfl
    exact absurd h.2 (by rw [unlinkNode_added]; exact Bool.false_ne_true)
  · rw [DphHashTable.Present, unlinkNode_size, (unlinkNode_other hi).1]
    exact (and_iff_left hi).symm

theorem unlinkNode_station : (unlinkNode t b prev x).station = update t.station x none := by
  funext i
  rcases eq_or_ne i x with rfl | hi
  · rw [update_self, station_eq_none, unlinkNode_present]
    exact fun h => h.2 rfl
  · rw [update_of_ne hi, station, station, (unlinkNode_other hi).2.1]
    exact if_congr (unlinkNode_present.trans (and_iff_left hi)) rfl rfl

theorem unlinkNode_next_none : (unlinkNode t b none x).next = update t.next x none := by
  simp [unlinkNode, DphHashTable.next]

theorem unlinkNode_next_some {c : Nat} : (unlinkNode t b (some c) x).next =
    update (update t.next c (t.next x)) x none := by
  funext i
  rcases eq_or_ne i x with rfl | hi
  · simp [unlinkNode, DphHashTable.next, DphHashTable.setNode]
  · rcases eq_or_ne i c with rfl | hc
    · simp [unlinkNode, DphHashTable.next, setNode, hi]
    · simp [unlinkNode, DphHashTable.next, setNode, hi, hc]

theorem unlinkNode_heads_none :
    (unlinkNode t b none x).pHashTable = update t.pHashTable b (t.next x) := by
  simp [unlinkNode, DphHashTable.setNode, DphHashTable.setHead, DphHashTable.next]

theorem unlinkNode_heads_some {c : Nat} :
    (unlinkNode t b (some c) x).pHashTable = t.pHashTable := rfl

theorem before_concat {m : List Nat} {c : Nat} : before none (m ++ [c]) = some c := by
  simp [before]

theorem unlinkNode_threaded {l₁ l₂ : List Nat}
    (h : Threaded t.next (t.pHashTable b) (l₁ ++ x :: l₂)) :
    Threaded (unlinkNode t b (before none l₁) x).next
      ((unlinkNode t b (before none l₁) x).pHashTable b) (l₁ ++ l₂) := by
  have hx : x ∉ l₁ ++ l₂ := (nodup_middle.1 h.nodup).notMem
  rcases eq_nil_or_concat l₁ with rfl | ⟨m, c, rfl⟩
  · rw [before_nil, unlinkNode_next_none, unlinkNode_heads_none, update_self]
    exact h.2.update_of_notMem hx
  · rw [concat_eq_append] at h hx ⊢
    rw [before_concat, unlinkNode_next_some, unlinkNode_heads_some, append_assoc]
    rw [append_assoc] at h hx
    exact h.unlink_behind.update_of_notMem hx

theorem unlinkNode_threaded_other {b' : Nat} {l₁ : List Nat} (hb : b' ≠ b)
    (hl : Threaded t.next (t.pHashTable b') l) (hx : x ∉ l) (hl₁ : ∀ y ∈ l₁, y ∉ l) :
    Threaded (unlinkNode t b (before none l₁) x).next
      ((unlinkNode t b (before none l₁) x).pHashTable b') l := by
  rcases eq_nil_or_concat l₁ with rfl | ⟨m, c, rfl⟩
  · rw [before_nil, unlinkNode_next_none, unlinkNode_heads_none, update_of_ne hb]
    exact hl.update_of_notMem hx
  · rw [concat_eq_append] at hl₁ ⊢
    rw [before_concat, unlinkNode_next_some, unlinkNode_heads_some]
    exact (hl.update_of_notMem (hl₁ c (by simp))).update_of_notMem hx

/-- **A delete keeps the table right.** -/
theorem unlinkNode_right (h : TableRight t) {l₁ l₂ : List Nat}
    (hl : ChainHolds t (hashFunction a t.size) (l₁ ++ x :: l₂)) (hx : t.station x = some a) :
    TableRight (unlinkNode t (hashFunction a t.size) (before none l₁) x) := by
  have hxp := (station_eq_some.1 hx).1
  have hnd := nodup_middle.1 hl.1.nodup
  -- the hash of a station says which chain it is in
  have hchain : ∀ y ∈ l₁ ++ x :: l₂, ∀ b l, ChainHolds t b l → y ∈ l → b = hashFunction a t.size := by
    intro y hy b l hb hm
    obtain ⟨a₁, ha₁, hh₁⟩ := (hl.2 y).1 hy
    obtain ⟨a₂, ha₂, hh₂⟩ := (hb.2 y).1 hm
    obtain rfl := some.inj (ha₁.symm.trans ha₂)
    exact hh₂.symm.trans hh₁
  refine tableRight_of_chains ?_ (fun i j a' hi hj => ?_) (fun b hb => ?_) fun i hi => ?_
  · rw [unlinkNode_size]
    exact zero_lt_of_lt hxp.1
  · rw [unlinkNode_station, update_none_eq_some] at hi hj
    exact h.inj i j a' hi.2 hj.2
  · rw [unlinkNode_size] at hb
    by_cases hbe : b = hashFunction a t.size
    · subst hbe
      refine ⟨l₁ ++ l₂, unlinkNode_threaded hl.1, fun i => ?_⟩
      have hmem : i ∈ l₁ ++ l₂ ↔ i ≠ x ∧ i ∈ l₁ ++ x :: l₂ := by
        rw [perm_middle.mem_iff, mem_cons, and_or_left, ne_eq, not_and_self_iff, false_or]
        exact (and_iff_right_of_imp (ne_of_mem_of_not_mem · hnd.notMem)).symm
      rw [hmem, hl.2 i, unlinkNode_station, unlinkNode_size]
      simp [update_none_eq_some, and_assoc]
    · obtain ⟨l, hlb⟩ := h.chain hb
      have hout : ∀ y ∈ l₁ ++ x :: l₂, y ∉ l := fun y hy hm => hbe (hchain y hy b l hlb hm)
      refine ⟨l, unlinkNode_threaded_other hbe hlb.1 (hout x (by simp))
        fun y hy => hout y (mem_append_left _ hy), fun i => ?_⟩
      rw [unlinkNode_station, unlinkNode_size]
      simp only [update_none_eq_some, and_assoc, exists_and_left, ← hlb.2 i]
      exact (and_iff_right_of_imp (ne_of_mem_of_not_mem · (hout x (by simp)))).symm
  · obtain ⟨hp, hne⟩ := unlinkNode_present.1 hi
    rw [(unlinkNode_other hne).2.2]
    exact h.ids i hp

theorem delete_seek (h : TableRight t) (hpos : 0 < t.size) :
    let look : Option Nat → Nat → Look := fun prev i =>
      if a = (t.pDphNodeArray i).staAddr then Look.found
      else if prev = some i then .giveUp
      else .goOn
    (∃ l₁ x l₂, ChainHolds t (hashFunction a t.size) (l₁ ++ x :: l₂) ∧ t.station x = some a ∧
      seek t.next look t.fuel none (t.pHashTable (hashFunction a t.size))
        = some (.found (before none l₁) x)) ∨
    ((∀ j, t.station j ≠ some a) ∧ seek t.next look t.fuel none
        (t.pHashTable (hashFunction a t.size)) = some .ended) := by
  intro look
  obtain ⟨l, hl⟩ := h.chain (mod_lt (_ : Nat) hpos : hashFunction a t.size < t.size)
  rcases seek_spec (k := look) (u := none) (q := fun i => a = (t.pDphNodeArray i).staAddr)
      hl.1 hl.length_le (fun _ _ e => by cases e)
      (fun _ i _ _ hi => if_pos hi)
      (fun _ i _ hp _ hi => (if_neg hi).trans (if_neg hp)) with
    ⟨l₁, x, l₂, rfl, -, hx, hs⟩ | ⟨hn, hs⟩
  · exact Or.inl ⟨l₁, x, l₂, hl, station_eq_some.2 ⟨hl.present (by simp), hx.symm⟩, hs⟩
  · exact Or.inr ⟨fun j hj => hn j (hl.mem_of_station hj) (station_eq_some.1 hj).2.symm, hs⟩

theorem dphDeleteHashEntry_fails (h : TableRight t) {id : Nat} (hpos : 0 < t.size)
    (hf : t.Present id → ∀ j, t.station j ≠ some a) :
    dphDeleteHashEntry t a id = some (false, t) := by
  rw [dphDeleteHashEntry]
  split
  · rfl
  · next hid =>
    split
    · rfl
    · next hadd =>
      have hp : t.Present id := ⟨not_le.1 hid, by simpa using hadd⟩
      rcases delete_seek (a := a) h hpos with ⟨l₁, x, l₂, -, hx, -⟩ | ⟨-, hs⟩
      · exact absurd hx (hf hp x)
      · dsimp only
        rw [hs]
        rfl

theorem dphDeleteHashEntry_succeeds (h : TableRight t) {id : Nat} (hp : t.Present id)
    (hx : t.station x = some a) : ∃ t', dphDeleteHashEntry t a id = some (true, t') ∧
      TableRight t' ∧ t'.size = t.size ∧ t'.station = update t.station x none := by
  rcases delete_seek (a := a) h (zero_lt_of_lt hp.1) with ⟨l₁, y, l₂, hl, hy, hs⟩ | ⟨hn, -⟩
  · obtain rfl := h.inj y x a hy hx
    refine ⟨_, ?_, unlinkNode_right h hl hx, unlinkNode_size, unlinkNode_station⟩
    rw [dphDeleteHashEntry, if_neg (not_le.2 hp.1), if_neg (by rw [hp.2]; exact Bool.noConfusion)]
    dsimp only
    rw [hs]
    rfl
  · exact absurd hx (hn x)

end

/-! ### Re-initialising -/

theorem reinit_right (h : TableRight t) {id : Nat} {v : Bool} (hp : t.Present id)
    (hw : id < 2 ^ 8) : ∃ t', dphInitStaState t (t.pDphNodeArray id).staAddr id v = some t' ∧
      TableRight t' ∧ t'.size = t.size ∧ t'.station = t.station := by
  have hget : getNode id = id := mod_eq_of_lt hw
  refine ⟨_, dphInitStaState_eq hp.1 v, ?_⟩
  rw [hget]
  have hnext : (t.setNode id (freshNode t (t.pDphNodeArray id).staAddr id v)).next = t.next := by
    rw [next_setNode, freshNode, hget]
    exact update_eq_self id t.next
  have hpres : ∀ i, (t.setNode id (freshNode t (t.pDphNodeArray id).staAddr id v)).Present i ↔
      t.Present i := by
    intro i
    rcases eq_or_ne i id with rfl | hi
    · simp [DphHashTable.Present, setNode, freshNode, hp.2]
    · simp [DphHashTable.Present, setNode, hi]
  have hst : (t.setNode id (freshNode t (t.pDphNodeArray id).staAddr id v)).station
      = t.station := by
    funext i
    rw [station, station]
    refine if_congr (hpres i) ?_ rfl
    rcases eq_or_ne i id with rfl | hi
    · simp [setNode, freshNode]
    · simp [setNode, hi]
  refine ⟨tableRight_of_chains (zero_lt_of_lt hp.1) (by rw [hst]; exact h.inj) ?_ ?_, rfl, hst⟩
  · intro b hb
    obtain ⟨l, hl⟩ := h.chain (b := b) hb
    exact ⟨l, by rw [ChainHolds, hnext, hst]; exact hl⟩
  · intro i hi
    rcases eq_or_ne i id with rfl | hne
    · simp [setNode, freshNode]
    · simpa [setNode, hne] using h.ids i ((hpres i).1 hi)

/-! ### Runs -/

structure DphInv (t : DphHashTable) : Prop where
  right : TableRight t
  pos : 0 < t.size
  /-- the ids of stations fit a byte -/
  narrow : ∀ i, t.Present i → i < 2 ^ 8

theorem DphHashTable.Initial.inv (h : t.Initial) : DphInv t := by
  have hnone : ∀ i, ¬ t.Present i := fun i hp => by
    rw [DphHashTable.Present, (h.2 i).2.1] at hp
    exact Bool.false_ne_true hp.2
  have hst : ∀ i, t.station i = none := fun i => station_eq_none.2 (hnone i)
  refine ⟨tableRight_of_chains h.1 (fun i j a hi => ?_) (fun b hb => ⟨[], (h.2 b).1, fun i => ?_⟩)
    (fun i hi => absurd hi (hnone i)), h.1, fun i hi => absurd hi (hnone i)⟩
  · rw [hst] at hi
    nomatch hi
  · refine iff_of_false not_mem_nil ?_
    rintro ⟨a, ha, -⟩
    rw [hst] at ha
    nomatch ha

theorem add_right (h : DphInv t) {id : Nat} (hok : DphCallOk t (.add a id)) :
    CallRight t (.add a id) := by
  by_cases hc : t.CanAdd a id
  · have hget : getNode id = id := mod_eq_of_lt (hok hc)
    refine ⟨true, added t a id, ?_, added_right h.right hc, rfl,
      fun _ => ⟨rfl, added_station hc.1⟩, fun hn => absurd hc hn⟩
    rw [dphCall, dphAddHashEntry_succeeds h.right hc, hget, added]
  · exact ⟨false, t, dphAddHashEntry_fails h.right hc h.pos, h.right, rfl, fun h' => absurd h' hc,
      fun _ => ⟨rfl, rfl⟩⟩

theorem delete_right (h : DphInv t) {id : Nat} (hok : DphCallOk t (.delete a id)) :
    CallRight t (.delete a id) := by
  by_cases hs : t.station id = some a
  · obtain ⟨t', hd, hr, hsz, hst⟩ :=
      dphDeleteHashEntry_succeeds h.right (station_eq_some.1 hs).1 hs
    refine ⟨true, t', hd, hr, hsz, ?_⟩
    dsimp only
    rw [if_pos hs]
    exact ⟨rfl, hst⟩
  · refine ⟨false, t, dphDeleteHashEntry_fails h.right h.pos fun hp j hj => ?_, h.right, rfl, ?_⟩
    · exact hs (hok hp j hj ▸ hj)
    · dsimp only
      rw [if_neg hs]
      exact ⟨rfl, rfl⟩

/-- **One call.**  It is right exactly under the condition. -/
theorem callRight_iff (h : DphInv t) (c : DphCall) (hall : c.Allowed t) :
    CallRight t c ↔ DphCallOk t c := by
  cases c with
  | add a id =>
    refine ⟨fun ⟨ok, t', hd, hr, _⟩ hc => ?_, add_right h⟩
    by_contra hw
    rw [dphCall, dphAddHashEntry_succeeds h.right hc] at hd
    obtain ⟨-, rfl⟩ := Prod.mk.inj (some.inj hd)
    exact added_wide_wrong hc hw hr
  | delete a id =>
    refine ⟨fun ⟨ok, t', hd, hr, _, hdel⟩ hp j hj => ?_, delete_right h⟩
    by_contra hne
    obtain ⟨t'', hd', -⟩ := dphDeleteHashEntry_succeeds h.right hp hj
    rw [dphCall, hd'] at hd
    obtain ⟨rfl, rfl⟩ := Prod.mk.inj (some.inj hd)
    dsimp only at hdel
    rw [if_neg fun hs => hne (h.right.inj j id a hj hs)] at hdel
    nomatch hdel.1
  | reinit id v =>
    refine iff_of_true ?_ trivial
    obtain ⟨t', hd, hr, hsz, hst⟩ := reinit_right (v := v) h.right hall (h.narrow id hall)
    exact ⟨true, t', by rw [dphCall, hd]; rfl, hr, hsz, rfl, hst⟩

theorem station_before {ok : Bool} {c : DphCall} (h : CallRight t c)
    (hd : dphCall t c = some (ok, t')) (hi : t'.Present i) :
    t.Present i ∨ ∃ a, c = .add a i ∧ t.CanAdd a i := by
  obtain ⟨ok', t'', hd', -, -, hspec⟩ := h
  rw [hd] at hd'
  obtain ⟨rfl, rfl⟩ := Prod.mk.inj (some.inj hd')
  obtain ⟨a', ha'⟩ : ∃ a, t'.station i = some a := ⟨_, station_eq_some.2 ⟨hi, rfl⟩⟩
  cases c with
  | add a id =>
    by_cases hc : t.CanAdd a id
    · rw [(hspec.1 hc).2] at ha'
      rcases eq_or_ne i id with rfl | hne
      · exact Or.inr ⟨a, rfl, hc⟩
      · rw [update_of_ne hne] at ha'
        exact Or.inl (station_eq_some.1 ha').1
    · exact Or.inl ((hspec.2 hc).2 ▸ hi)
  | delete a id =>
    dsimp only at hspec
    split at hspec
    · rw [hspec.2] at ha'
      rcases eq_or_ne i id with rfl | hne
      · rw [update_self] at ha'
        nomatch ha'
      · rw [update_of_ne hne] at ha'
        exact Or.inl (station_eq_some.1 ha').1
    · exact Or.inl (hspec.2 ▸ hi)
  | reinit id v =>
    rw [hspec.2] at ha'
    exact Or.inl (station_eq_some.1 ha').1

theorem DphInv.step (h : DphInv t) {c : DphCall} (hok : DphCallOk t c)
    (hs : dphMachine.step t c = some t') : DphInv t' := by
  obtain ⟨hall, hs⟩ := guard_bind_eq_some.1 hs
  have hright := (callRight_iff h c hall).2 hok
  obtain ⟨⟨ok, t''⟩, hd, rfl⟩ := map_eq_some_iff.1 hs
  obtain ⟨ok', t', hd', hr, hsz, -⟩ := id hright
  rw [hd] at hd'
  obtain ⟨rfl, rfl⟩ := Prod.mk.inj (some.inj hd')
  refine ⟨hr, hsz ▸ h.pos, fun i hi => ?_⟩
  rcases station_before hright hd hi with hp | ⟨a, rfl, hc⟩
  · exact h.narrow i hp
  · exact hok hc

/-- **The station table.**  Where all calls have met the condition the table is right, and the
next call is right exactly when it meets the condition too. -/
theorem dph_table_iff (t : DphHashTable) (ht : dphMachine.Reach DphCallOk t) :
    TableRight t ∧ ∀ c : DphCall, c.Allowed t → (CallRight t c ↔ DphCallOk t c) := by
  have h : DphInv t := ht.invariant DphInv (fun _ => DphHashTable.Initial.inv)
    fun _ _ _ h hok hs => h.step hok hs
  exact ⟨h.right, fun c hall => callRight_iff h c hall⟩

end

def emptyTable : DphHashTable where
  size := 4
  pHashTable _ := none
  pDphNodeArray i := ⟨none, .zero, i, false, false, halStaInvalidIdx⟩

theorem emptyTable_initial : emptyTable.Initial := ⟨by decide, fun _ => ⟨rfl, rfl, rfl⟩⟩

def staA : SirMacAddr := ⟨0, 0, 0, 0, 0, 1⟩
def staB : SirMacAddr := ⟨0, 0, 0, 0, 0, 5⟩

theorem mismatched_delete_removes :
    ∃ t t', dphMachine.run emptyTable [.add staA 1, .add staB 2] = some t ∧
      t.station 1 = some staA ∧ t.station 2 = some staB ∧
      dphDeleteHashEntry t staB 1 = some (true, t') ∧ t'.station 2 = none ∧
      ¬ CallRight t (.delete staB 1) := by
  obtain ⟨t, ht, h₁, h₂, hd⟩ : ∃ t, dphMachine.run emptyTable [.add staA 1, .add staB 2] = some t ∧
      t.station 1 = some staA ∧ t.station 2 = some staB ∧
        (dphDeleteHashEntry t staB 1).any (fun r => r.1 = true ∧ r.2.station 2 = none) = true :=
    Machine.exists_run (by decide +kernel)
  obtain ⟨⟨ok, t'⟩, ht', hd⟩ := (any_eq_true _ _).1 hd
  obtain ⟨hok, h₃⟩ := of_decide_eq_true hd
  refine ⟨t, t', ht, h₁, h₂, ?_, h₃, ?_⟩
  · rw [ht', show ok = true from hok]
  · rintro ⟨ok', t'', hc, -, -, hspec⟩
    rw [dphCall, ht'] at hc
    obtain ⟨rfl, rfl⟩ := Prod.mk.inj (some.inj hc)
    have hne : t.station 1 ≠ some staB := by rw [h₁]; decide
    dsimp only at hspec
    rw [if_neg hne] at hspec
    exact absurd (hspec.1.symm.trans hok) Bool.false_ne_true

/-- Calls that meet the condition wherever they are made. -/
def PlainCall (t : DphHashTable) : DphCall → Prop
  | .add _ assocId => assocId < 2 ^ 8
  | .delete _ assocId => ¬ t.Present assocId
  | .reinit .. => True

instance (t : DphHashTable) : (c : DphCall) → Decidable (PlainCall t c)
  | .add _ assocId => inferInstanceAs (Decidable (assocId < 2 ^ 8))
  | .delete _ assocId => inferInstanceAs (Decidable (¬ t.Present assocId))
  | .reinit .. => .isTrue trivial

theorem PlainCall.ok (t : DphHashTable) (c : DphCall) (h : PlainCall t c) : DphCallOk t c := by
  cases c with
  | add a id => exact fun _ => h
  | delete a id => exact fun hp => absurd hp h
  | reinit id v => trivial

theorem dph_table_iff_twoStations :
    ∃ t, dphMachine.run emptyTable [.add staA 1, .add staB 1, .delete staA 3, .reinit 1 true,
        .add staB 2] = some t ∧ TableRight t ∧ t.station 1 = some staA ∧ t.station 2 = some staB :=
  Machine.exists_right (fun t ht => (dph_table_iff t (ht.mono PlainCall.ok)).1)
    emptyTable_initial (by decide +kernel) (by decide +kernel)

end Qcacld.Dph

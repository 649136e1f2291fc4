import Mathlib.Data.List.Range
import Qcacld.Support.Layout
import Qcacld.Support.Threaded

/-!
# Lim — LimAidMgmt

The indices a session gives to its peers.  The free ones are queued in an array of bytes: `gpLimPeerIdxpool` has at a free index the next one, and 0 at the last.  `limAssignPeerIdx` takes the first and `limReleasePeerIdx` puts one behind the last; 0, which is no index, is returned when none can be had.

`FreeQueue` is what is to hold of the queue, given which indices have been assigned.
-/

namespace Qcacld.Lim
open Qcacld.Support Function List Option Nat

/-- The part of `tPESession` that is about peer indices.  `assigned` is its history: the indices that have been given out and have not come back. -/
structure PeerIdxPool where
  gpLimPeerIdxpool : Nat → Nat
  freePeerIdxHead : Nat
  freePeerIdxTail : Nat
  gLimNumOfCurrentSTAs : Nat
  assigned : Nat → Bool

open PeerIdxPool

def peerIdx? (i : Nat) : Option Nat := if i = 0 then none else some i

namespace PeerIdxPool

def setNext (p : PeerIdxPool) (i next : Nat) : PeerIdxPool :=
  { p with gpLimPeerIdxpool := update p.gpLimPeerIdxpool i next }

def next (p : PeerIdxPool) (i : Nat) : Option Nat := peerIdx? (p.gpLimPeerIdxpool i)

end PeerIdxPool

/-- The loop of `limInitPeerIdxpool`: the indices from 1 on, `n` of them, are each hooked to the next. -/
def PeerIdxPool.link (n : Nat) (p : PeerIdxPool) : PeerIdxPool :=
  n.fold (fun k _ p => p.setNext (k + 1) ((k + 2) % 2 ^ 8)) p

/-- `limInitPeerIdxpool`, in a role other than that of a station -/
def limInitPeerIdxpool (maxAssocSta : Nat) (p : PeerIdxPool) : PeerIdxPool :=
  { ((p.setNext 0 0).link (maxAssocSta - 1)).setNext (max maxAssocSta 1) 0 with
    freePeerIdxHead := 1
    freePeerIdxTail := max maxAssocSta 1 }

def PeerIdxPool.takeHead (p : PeerIdxPool) : PeerIdxPool :=
  let head := p.gpLimPeerIdxpool p.freePeerIdxHead
  { p with
    freePeerIdxHead := head
    freePeerIdxTail := if head = 0 then 0 else p.freePeerIdxTail
    gLimNumOfCurrentSTAs := (p.gLimNumOfCurrentSTAs + 1) % 2 ^ 16
    assigned := update p.assigned p.freePeerIdxHead true }

/-- `peGetCurrentSTAsCount`, which adds up in a byte.  `others` is the number of stations the other sessions have. -/
def peGetCurrentSTAsCount (others : Nat) (p : PeerIdxPool) : Nat :=
  (p.gLimNumOfCurrentSTAs + others) % 2 ^ 8

/-- `limAssignPeerIdx`, of a persona that has no limit of its own -/
def limAssignPeerIdx (gLimAssocStaLimit others : Nat) (p : PeerIdxPool) : Nat × PeerIdxPool :=
  if gLimAssocStaLimit ≤ peGetCurrentSTAsCount others p then (0, p)
  else if p.freePeerIdxHead ≠ 0 then (p.freePeerIdxHead, p.takeHead)
  else (0, p)

def PeerIdxPool.insertTail (p : PeerIdxPool) (peerIdx : Nat) : PeerIdxPool :=
  if p.freePeerIdxTail ≠ 0 then
    { p.setNext p.freePeerIdxTail (peerIdx % 2 ^ 8) with freePeerIdxTail := peerIdx % 2 ^ 8 }
  else
    { p with
      freePeerIdxTail := peerIdx % 2 ^ 8
      freePeerIdxHead := peerIdx % 2 ^ 8 }

def PeerIdxPool.uncount (p : PeerIdxPool) : PeerIdxPool :=
  { p with gLimNumOfCurrentSTAs := (p.gLimNumOfCurrentSTAs + (2 ^ 16 - 1)) % 2 ^ 16 }

def limReleasePeerIdx (p : PeerIdxPool) (peerIdx : Nat) : PeerIdxPool :=
  { (p.uncount.insertTail peerIdx).setNext (peerIdx % 2 ^ 8) 0 with
    assigned := update p.assigned peerIdx false }

/-- The free indices, in order: those up to `maxStation` that are not assigned. -/
structure FreeQueue (maxStation : Nat) (p : PeerIdxPool) (q : List Nat) : Prop where
  threaded : Threaded p.next (peerIdx? p.freePeerIdxHead) q
  tail : peerIdx? p.freePeerIdxTail = q.getLast?
  mem : ∀ i, i ∈ q ↔ 1 ≤ i ∧ i ≤ maxStation ∧ p.assigned i = false
  assigned : ∀ i, p.assigned i = true → 1 ≤ i ∧ i ≤ maxStation

section
variable {maxStation limit others i n : Nat} {p p' : PeerIdxPool} {q : List Nat}

theorem peerIdx?_of_pos (h : 1 ≤ i) : peerIdx? i = some i := if_neg (ne_of_gt h)

theorem peerIdx?_eq_some {j : Nat} : peerIdx? i = some j ↔ i = j ∧ 1 ≤ j := by
  rw [peerIdx?]
  split
  · next h =>
    refine iff_of_false (fun h => by cases h) ?_
    rintro ⟨rfl, hj⟩
    exact absurd h (ne_of_gt hj)
  · next h =>
    rw [some_inj]
    refine ⟨fun hij => ⟨hij, ?_⟩, And.left⟩
    subst hij
    exact one_le_iff_ne_zero.2 h

theorem peerIdx?_eq_none : peerIdx? i = none ↔ i = 0 := by
  simp [peerIdx?]

theorem gpLimPeerIdxpool_setNext :
    (p.setNext i n).gpLimPeerIdxpool = update p.gpLimPeerIdxpool i n := rfl

@[simp] theorem next_setNext : (p.setNext i n).next = update p.next i (peerIdx? n) := by
  ext1 j
  rcases eq_or_ne j i with rfl | h
  · simp [PeerIdxPool.next, PeerIdxPool.setNext]
  · simp [PeerIdxPool.next, setNext, update_of_ne h]

theorem threaded_range {next : Nat → Option Nat} (h : ∀ j, i ≤ j → j + 1 < i + (n + 1) →
    next j = some (j + 1)) (hlast : next (i + n) = none) :
    Threaded next (some i) (range' i (n + 1)) := by
  induction n generalizing i with
  | zero => exact ⟨rfl, hlast⟩
  | succ n ih =>
    rw [range'_succ]
    refine ⟨rfl, ?_⟩
    rw [h i (le_refl i) (by omega)]
    refine ih (fun j hj hjn => h j (by omega) (by omega)) ?_
    rw [← hlast]
    congr 1
    omega

theorem link_spec (hn : n + 1 < 2 ^ 8) :
    (∀ j < n, (p.link n).gpLimPeerIdxpool (j + 1) = j + 2) ∧ (p.link n).assigned = p.assigned := by
  refine fold_rule (fun m (r : PeerIdxPool) => (∀ j < m, r.gpLimPeerIdxpool (j + 1) = j + 2) ∧
    r.assigned = p.assigned) ⟨fun j hj => absurd hj (not_lt_zero j), rfl⟩ ?_
  intro k r hk hinv
  refine ⟨fun j hj => ?_, hinv.2⟩
  rcases Nat.lt_succ_iff_lt_or_eq.1 hj with hj | rfl
  · rw [gpLimPeerIdxpool_setNext, update_of_ne fun e => Nat.ne_of_lt hj (Nat.succ.inj e)]
    exact hinv.1 j hj
  · rw [gpLimPeerIdxpool_setNext, update_self, mod_eq_of_lt (by omega)]

theorem limInitPeerIdxpool_free (hmax : 1 ≤ maxStation) (hbyte : maxStation < 2 ^ 8)
    (hp : ∀ i, p.assigned i = false) :
    FreeQueue maxStation (limInitPeerIdxpool maxStation p) (range' 1 maxStation) := by
  obtain ⟨n, rfl⟩ : ∃ n, maxStation = n + 1 := ⟨maxStation - 1, by omega⟩
  obtain ⟨hnext, hassigned⟩ := link_spec (p := p.setNext 0 0) (n := n) (by omega)
  have hinit : limInitPeerIdxpool (n + 1) p = { ((p.setNext 0 0).link n).setNext (n + 1) 0 with
      freePeerIdxHead := 1
      freePeerIdxTail := n + 1 } := by
    rw [limInitPeerIdxpool, Nat.max_eq_left hmax, Nat.add_sub_cancel]
  rw [hinit]
  generalize (p.setNext 0 0).link n = r at hnext hassigned
  have hlink : ∀ j, 1 ≤ j → j + 1 < 1 + (n + 1) → (r.setNext (n + 1) 0).next j = some (j + 1) := by
    intro j hj hjn
    obtain ⟨k, rfl⟩ : ∃ k, j = k + 1 := ⟨j - 1, by omega⟩
    rw [next_setNext, update_of_ne (by omega), PeerIdxPool.next, hnext k (by omega)]
    rfl
  have hlast : (r.setNext (n + 1) 0).next (1 + n) = none := by
    rw [next_setNext, add_comm 1 n, update_self]
    rfl
  refine ⟨threaded_range hlink hlast, ?_, fun i => ?_, fun i hi => ?_⟩
  · rw [getLast?_range']
    rw [peerIdx?_of_pos (succ_pos n)]
    simp
  · have hfree : r.assigned i = false := by
      rw [hassigned]
      exact hp i
    rw [mem_range'_1]
    constructor
    · intro h
      exact ⟨h.1, by omega, hfree⟩
    · intro h
      exact ⟨h.1, by omega⟩
  · have hassigned' : r.assigned = p.assigned := hassigned
    have hi' : r.assigned i = true := hi
    rw [hassigned', hp i] at hi'
    cases hi'

/-- An index can be had when the limit is not reached and one is free. -/
def CanAssign (limit others : Nat) (p : PeerIdxPool) : Prop :=
  peGetCurrentSTAsCount others p < limit ∧ p.freePeerIdxHead ≠ 0
deriving Decidable

theorem limAssignPeerIdx_none (h : ¬CanAssign limit others p) :
    limAssignPeerIdx limit others p = (0, p) := by
  rw [limAssignPeerIdx]
  split
  · rfl
  · next hl =>
    rw [if_neg]
    exact fun hh => h ⟨not_le.1 hl, hh⟩

/-- **The first free index is assigned.** -/
theorem FreeQueue.assign (h : FreeQueue maxStation p q) (hc : CanAssign limit others p) :
    ∃ i q', limAssignPeerIdx limit others p = (i, p.takeHead) ∧ q = i :: q' ∧
      FreeQueue maxStation p.takeHead q' ∧ p.takeHead.assigned = update p.assigned i true := by
  have hhead := h.threaded.head
  rw [peerIdx?_of_pos (one_le_iff_ne_zero.2 hc.2)] at hhead
  obtain ⟨q', rfl⟩ : ∃ q', q = p.freePeerIdxHead :: q' := by
    cases q with
    | nil => cases hhead
    | cons i q' => exact ⟨q', by rw [some.inj hhead]⟩
  have hnd := nodup_cons.1 h.threaded.nodup
  have hthread : Threaded p.next (p.next p.freePeerIdxHead) q' := h.threaded.2
  refine ⟨p.freePeerIdxHead, q', ?_, rfl, ⟨hthread, ?_, fun i => ?_, fun i hi => ?_⟩, rfl⟩
  · rw [limAssignPeerIdx, if_neg (not_le.2 hc.1), if_pos hc.2]
  · have hhead' := hthread.head
    have htail := h.tail
    rw [PeerIdxPool.next] at hhead'
    rw [takeHead]
    cases q' with
    | nil =>
      rw [if_pos (peerIdx?_eq_none.1 hhead')]
      rfl
    | cons j q' =>
      rw [if_neg, htail, getLast?_cons_cons]
      intro hz
      rw [hz] at hhead'
      cases hhead'
  · rw [takeHead]
    rcases eq_or_ne i p.freePeerIdxHead with rfl | hi
    · simp [hnd.1]
    · have hm := h.mem i
      rw [mem_cons, or_iff_right hi] at hm
      simpa [update_of_ne hi] using hm
  · rcases eq_or_ne i p.freePeerIdxHead with rfl | hne
    · obtain ⟨h₁, h₂, -⟩ := (h.mem p.freePeerIdxHead).1 mem_cons_self
      exact ⟨h₁, h₂⟩
    · refine h.assigned i ?_
      simpa [takeHead, update_of_ne hne] using hi

theorem FreeQueue.insertTail (h : FreeQueue maxStation p q) (hpos : 1 ≤ i) (hbyte : i < 2 ^ 8)
    (hi : i ∉ q) : Threaded ((p.insertTail i).setNext i 0).next
      (peerIdx? (p.insertTail i).freePeerIdxHead) (q ++ [i]) ∧
        (p.insertTail i).freePeerIdxTail = i := by
  have hmod : i % 2 ^ 8 = i := mod_eq_of_lt hbyte
  rcases eq_nil_or_concat q with rfl | ⟨m, c, rfl⟩
  · have htail : p.freePeerIdxTail = 0 := peerIdx?_eq_none.1 h.tail
    rw [insertTail, if_neg (not_not.2 htail), hmod, next_setNext]
    refine ⟨⟨peerIdx?_of_pos hpos, ?_⟩, rfl⟩
    rw [threaded_nil, update_self]
    rfl
  · have htail : p.freePeerIdxTail = c ∧ 1 ≤ c := by
      have htail := h.tail
      rw [concat_eq_append, getLast?_concat] at htail
      exact peerIdx?_eq_some.1 htail
    have hne : p.freePeerIdxTail ≠ 0 := by
      rw [htail.1]
      exact ne_of_gt htail.2
    have hthread := h.threaded
    rw [concat_eq_append] at hthread hi ⊢
    rw [insertTail, if_pos hne, hmod, htail.1, next_setNext, append_assoc]
    have hnext : next { p.setNext c i with freePeerIdxTail := i } = update p.next c (some i) := by
      rw [← peerIdx?_of_pos hpos]
      exact next_setNext
    rw [hnext]
    exact ⟨hthread.append hi, rfl⟩

theorem FreeQueue.congr (h : FreeQueue maxStation p q)
    (hpool : p'.gpLimPeerIdxpool = p.gpLimPeerIdxpool)
    (hhead : p'.freePeerIdxHead = p.freePeerIdxHead)
    (htail : p'.freePeerIdxTail = p.freePeerIdxTail) (hassigned : p'.assigned = p.assigned) :
    FreeQueue maxStation p' q := by
  have hnext : p'.next = p.next := by
    ext1 i
    rw [PeerIdxPool.next, PeerIdxPool.next, hpool]
  refine ⟨?_, ?_, fun i => ?_, fun i hi => ?_⟩
  · rw [hnext, hhead]
    exact h.threaded
  · rw [htail]
    exact h.tail
  · rw [hassigned]
    exact h.mem i
  · rw [hassigned] at hi
    exact h.assigned i hi

/-- **An assigned index comes back** behind the free ones. -/
theorem FreeQueue.release (h : FreeQueue maxStation p q) (hbyte : maxStation < 2 ^ 8)
    (hi : p.assigned i = true) : FreeQueue maxStation (limReleasePeerIdx p i) (q ++ [i]) ∧
      (limReleasePeerIdx p i).assigned = update p.assigned i false := by
  obtain ⟨hpos, hle⟩ := h.assigned i hi
  have hlt := lt_of_le_of_lt hle hbyte
  have hmem : i ∉ q := fun hm => by
    rw [((h.mem i).1 hm).2.2] at hi
    cases hi
  have h' : FreeQueue maxStation p.uncount q := by
    refine h.congr ?_ ?_ ?_ ?_ <;> rw [uncount]
  obtain ⟨hthread, htail⟩ := h'.insertTail hpos hlt hmem
  have hrel : limReleasePeerIdx p i = { (p.uncount.insertTail i).setNext i 0 with
      assigned := update p.assigned i false } := by
    simp only [limReleasePeerIdx, mod_eq_of_lt hlt]
  refine ⟨⟨?_, ?_, fun j => ?_, fun j hj => ?_⟩, by rw [hrel]⟩
  · rw [hrel]
    exact hthread
  · rw [hrel]
    refine (congrArg peerIdx? htail).trans ?_
    rw [peerIdx?_of_pos hpos, getLast?_concat]
  · rw [hrel]
    dsimp only
    rcases eq_or_ne j i with rfl | hj
    · simp [hpos, hle]
    · rw [update_of_ne hj, ← h.mem j]
      simp [hj]
  · rw [hrel] at hj
    dsimp only at hj
    rcases eq_or_ne j i with rfl | hne
    · exact ⟨hpos, hle⟩
    · rw [update_of_ne hne] at hj
      exact h.assigned j hj

end

end Qcacld.Lim

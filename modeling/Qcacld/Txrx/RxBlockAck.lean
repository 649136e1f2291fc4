import Qcacld.Support.Runs
import Qcacld.Txrx.RxReorder

/-!
# Txrx — RxBlockAck

The life of one peer-TID's reorder array: `ol_rx_reorder_init` at attach, `ol_rx_addba_handler`, `ol_rx_delba_handler` and the end of `ol_txrx_peer_unref_delete`, interleaved with stores, releases and flushes.

ADDBA overwrites the array pointer and DELBA frees the array, and neither looks at what they hold.  The window and its size stay consistent in every run; `blockAck_iff` says when a session change also keeps every frame and accounts for every array: an ADDBA needs the embedded element in use and empty, a DELBA an empty window.
-/

namespace Qcacld.Txrx
open Qcacld.Adf Qcacld.Support Function List Option Nat

def invalidReorderIndex : Nat := 0xffff

/-- `g_log2ceil`: for each window size up to 64 the power of two that covers it. -/
def gLog2ceil : List Nat :=
  [1, 1, 2, 4, 4, 8, 8, 8, 8] ++ List.replicate 8 16 ++ List.replicate 16 32 ++ List.replicate 32 64

def olRxReorderInit (s : RxTid) : RxTid :=
  { s with
    winSz := 1, winSzMask := 0, array := .base
    elems := update s.elems .base [emptyElem] }

/-- `ol_rx_addba_handler`, for a peer and a TID that exist. -/
def olRxAddbaHandler (s : RxTid) (winSz : Nat) (failed : Bool) : Option RxTid :=
  if failed then some s
  else do
    let roundPwr2WinSz ← gLog2ceil[winSz]?
    return { s with
      lastSeq := ieee80211SeqMax, winSz := winSz, array := .allocated s.arrays
      elems := update s.elems (.allocated s.arrays) (List.replicate roundPwr2WinSz emptyElem)
      arrays := s.arrays + 1, winSzMask := roundPwr2WinSz - 1, numMpdus := 0, nextRelIdx := 0 }

/-- Free `rx_reorder->array` if it is not the embedded element. -/
def reorderArrayFree (s : RxTid) : RxTid :=
  match s.array with
  | .base => s
  | .allocated id => { s with
    elems := update s.elems (.allocated id) [], arraysFreed := s.arraysFreed ++ [id] }

/-- `ol_rx_delba_handler`, for a peer and a TID that exist. -/
def olRxDelbaHandler (s : RxTid) : RxTid :=
  olRxReorderInit (reorderArrayFree { s with nextRelIdx := invalidReorderIndex })

/-- What `ol_txrx_peer_unref_delete` does to a TID: `ol_rx_reorder_peer_cleanup` discards its frames, then the array is freed. -/
def olTxrxPeerUnrefDelete (seqNum : AdfNbuf → Nat) (fuel : Nat) (s : RxTid) : Option RxTid := do
  let s ← olRxReorderFlush seqNum fuel s 0 0 .discard
  match s.array with
  | .base => return s
  | .allocated _ => return olRxReorderInit (reorderArrayFree s)

/-- A peer-TID, with a record of every frame stored in it and whether the peer still exists. -/
structure RxSession where
  tid : RxTid
  stored : List AdfNbuf
  live : Bool

inductive RxEvent where
  | addba (winSz : Nat) (failed : Bool)
  | delba
  | store (idx : Nat) (msdus : List AdfNbuf)
  | release (idxStart idxEnd : Nat)
  | flush (idxStart idxEnd : Nat) (action : HttRxFlushAction)
  | peerDelete
deriving DecidableEq

/-- One event.  A window is of at most 64 frames, and each frame received is a new one. -/
def rxStep (seqNum : AdfNbuf → Nat) (s : RxSession) : RxEvent → Option RxSession
  | .addba winSz failed => do
    guard (s.live ∧ winSz ≤ 64)
    let tid ← olRxAddbaHandler s.tid winSz failed
    return { s with tid := tid }
  | .delba => do
    guard s.live
    return { s with tid := olRxDelbaHandler s.tid }
  | .store idx msdus => do
    guard (s.live ∧ msdus.Nodup ∧ ∀ x ∈ msdus, x ∉ s.stored)
    let head ← msdus.head?
    let tail ← msdus.getLast?
    let tid ← olRxReorderStore { s.tid with heap := linkNbufs s.tid.heap msdus } idx head tail
    return { s with tid := tid, stored := s.stored ++ msdus }
  | .release idxStart idxEnd => do
    guard s.live
    let tid ← olRxReorderRelease seqNum s.stored.length s.tid idxStart idxEnd
    return { s with tid := tid }
  | .flush idxStart idxEnd action => do
    guard s.live
    let tid ← olRxReorderFlush seqNum s.stored.length s.tid idxStart idxEnd action
    return { s with tid := tid }
  | .peerDelete => do
    guard s.live
    let tid ← olTxrxPeerUnrefDelete seqNum s.stored.length s.tid
    return { s with tid := tid, live := false }

/-- A peer-TID as `ol_rx_peer_init` leaves it. -/
def RxSession.attached (heap : NbufHeap) : RxSession where
  tid := olRxReorderInit {
    winSz := 0, winSzMask := 0, numMpdus := 0, array := .base
    elems := fun _ => [], nextRelIdx := invalidReorderIndex, lastSeq := ieee80211SeqMax
    heap := heap, delivered := [], freed := [], arrays := 0, arraysFreed := [] }
  stored := []
  live := true

def rxMachine (seqNum : AdfNbuf → Nat) : Machine RxSession RxEvent where
  init s := ∃ heap, s = .attached heap
  step := rxStep seqNum

/-! ### What must hold of a session -/

/-- `n` is the smallest power of two that is at least `winSz`. -/
structure LeastPow2 (winSz n : ℕ) : Prop where
  pow : ∃ k, n = 2 ^ k
  covers : winSz ≤ n
  least : ∀ k, winSz ≤ 2 ^ k → n ≤ 2 ^ k

/-- The array has as many elements as the mask says, the smallest power of two for the window, and every masked index is inside it. -/
structure WindowOk (s : RxTid) : Prop where
  length_eq : s.slots.length = s.winSzMask + 1
  least : LeastPow2 s.winSz (s.winSzMask + 1)
  inside : ∀ idx, idx &&& s.winSzMask < s.slots.length

/-- The array in use, when it is an allocated one. -/
def arrayInUse (s : RxTid) : List Nat :=
  match s.array with
  | .base => []
  | .allocated id => [id]

/-- Every array allocated so far is either in use or has been freed once. -/
def ArraysOnce (s : RxTid) : Prop :=
  (s.arraysFreed ++ arrayInUse s).Perm (List.range s.arrays)

/-- The frame `x` is stored in the window. -/
def StoredIn (s : RxTid) (x : AdfNbuf) : Prop :=
  ∃ i : ℕ, ∃ elem : OlRxReorderArrayElem, ∃ l, s.slots[i]? = some elem ∧
    Chunk s.heap elem.head elem.tail l ∧ l.Nodup ∧ x ∈ l

/-- Every frame stored in `s` is still stored in `s'`, or has been delivered or freed. -/
def NothingLost (s s' : RxTid) : Prop :=
  ∀ x, StoredIn s x → StoredIn s' x ∨ x ∈ s'.delivered.flatten ∨ x ∈ s'.freed

def RxEvent.isSessionChange : RxEvent → Bool
  | .addba .. | .delba | .peerDelete => true
  | .store .. | .release .. | .flush .. => false

def WindowEmpty (s : RxTid) : Prop := ∀ elem ∈ s.slots, elem.head = none

/-- A session change that the handlers are up to: a successful ADDBA finds the embedded element in use, and ADDBA and DELBA find the window empty. -/
def SessionOk (s : RxSession) : RxEvent → Prop
  | .addba _ failed => failed = true ∨ (s.tid.array = .base ∧ WindowEmpty s.tid)
  | .delba => WindowEmpty s.tid
  | _ => True

/-- What has left the window. -/
def RxTid.out (s : RxTid) : List AdfNbuf := s.delivered.flatten ++ s.freed

def SlotEmpty (s : RxTid) (i : ℕ) : Prop := ∀ elem ∈ s.slots[i]?, elem.head = none
deriving Decidable

/-- A session change that the handlers are up to, or a release that does not begin at a hole before frames. -/
def FrameOk (s : RxSession) : RxEvent → Prop
  | .release idxStart idxEnd => SlotEmpty s.tid (idxStart % (s.tid.winSzMask + 1)) →
    ∀ i ∈ ringRange (s.tid.winSzMask + 1) idxStart idxEnd, SlotEmpty s.tid i
  | e => SessionOk s e

instance (s : RxSession) : (e : RxEvent) → Decidable (FrameOk s e)
  | .addba .. => inferInstanceAs (Decidable (_ ∨ _ ∧ ∀ elem ∈ s.tid.slots, elem.head = none))
  | .delba => inferInstanceAs (Decidable (∀ elem ∈ s.tid.slots, elem.head = none))
  | .release .. => inferInstanceAs (Decidable (_ → ∀ i ∈ ringRange .., _))
  | .store .. | .flush .. | .peerDelete => .isTrue trivial

/-- From `s` to `s'` the frames `out` have left the window, each once.  If they are `all` that have, a frame that was in the window, or is new, is in it or among them. -/
structure Turn (s s' : RxSession) (all : Prop) (out : List AdfNbuf) : Prop where
  perm : s'.tid.out.Perm (s.tid.out ++ out)
  nodup : out.Nodup
  stored : ∀ x ∈ out, StoredIn s.tid x
  kept : all → ∀ x ∈ s'.stored, (x ∈ s.stored → StoredIn s.tid x) → StoredIn s'.tid x ∨ x ∈ out

section Specs
variable {s s' : RxTid} {c : ℕ → List AdfNbuf} {winSz : ℕ}

theorem leastPow2_two_pow {k : ℕ} (hle : winSz ≤ 2 ^ k) (hlt : k = 0 ∨ 2 ^ (k - 1) < winSz) :
    LeastPow2 winSz (2 ^ k) where
  pow := ⟨k, rfl⟩
  covers := hle
  least j hj := by
    refine Nat.pow_le_pow_right (by decide) ?_
    rcases hlt with rfl | hlt
    · exact Nat.zero_le j
    · have := (Nat.pow_lt_pow_iff_right (by decide : 1 < 2)).1 (hlt.trans_le hj)
      omega

theorem gLog2ceil_spec (h : winSz ≤ 64) :
    ∃ k, gLog2ceil[winSz]? = some (2 ^ k) ∧ LeastPow2 winSz (2 ^ k) := by
  have htable : ∀ w < 65, ∃ k < 7, gLog2ceil[w]? = some (2 ^ k) ∧ w ≤ 2 ^ k ∧
      (k = 0 ∨ 2 ^ (k - 1) < w) := by decide
  obtain ⟨k, -, hk, hle, hlt⟩ := htable winSz (lt_succ_of_le h)
  exact ⟨k, hk, leastPow2_two_pow hle hlt⟩

theorem holds_replicate (hs : s.slots = replicate (s.winSzMask + 1) emptyElem)
    (hp : ∃ k, s.winSzMask + 1 = 2 ^ k) : Holds s fun _ => [] where
  length_eq := by rw [hs, length_replicate]
  pow := hp
  chunk i elem he := by
    rw [hs] at he
    obtain rfl := eq_of_mem_replicate (mem_of_getElem? he)
    exact .nil
  apart := ⟨fun _ _ => nodup_nil, fun _ _ _ _ _ => disjoint_nil_left _⟩

theorem holds_init (s : RxTid) : Holds (olRxReorderInit s) fun _ => [] := by
  refine holds_replicate ?_ ⟨0, rfl⟩
  change update s.elems .base [emptyElem] .base = _
  rw [update_self]
  rfl

/-- **ADDBA.**  The new window is empty and of the right size; the old array is not looked at. -/
theorem addba_spec (s : RxTid) (h : winSz ≤ 64) :
    ∃ s', olRxAddbaHandler s winSz false = some s' ∧ Holds s' (fun _ => []) ∧
      LeastPow2 s'.winSz (s'.winSzMask + 1) ∧ s'.array = .allocated s.arrays ∧
      s'.arrays = s.arrays + 1 ∧ s'.arraysFreed = s.arraysFreed ∧
      s'.delivered = s.delivered ∧ s'.freed = s.freed := by
  obtain ⟨k, hk, hleast⟩ := gLog2ceil_spec h
  have hpos : 2 ^ k - 1 + 1 = 2 ^ k := Nat.sub_add_cancel Nat.one_le_two_pow
  let s' : RxTid := { s with
    lastSeq := ieee80211SeqMax, winSz := winSz, array := .allocated s.arrays
    elems := update s.elems (.allocated s.arrays) (replicate (2 ^ k) emptyElem)
    arrays := s.arrays + 1, winSzMask := 2 ^ k - 1, numMpdus := 0, nextRelIdx := 0 }
  refine ⟨s', ?_, ?_, ?_, rfl, rfl, rfl, rfl, rfl⟩
  · simp only [olRxAddbaHandler, hk]
    rfl
  · refine holds_replicate ?_ ⟨k, hpos⟩
    change update s.elems _ _ _ = replicate (2 ^ k - 1 + 1) _
    rw [update_self, hpos]
  · change LeastPow2 winSz (2 ^ k - 1 + 1)
    rw [hpos]
    exact hleast

theorem ArraysOnce.reorderArrayFree (h : ArraysOnce s) :
    ArraysOnce (olRxReorderInit (reorderArrayFree s)) := by
  cases harr : s.array with
  | base =>
    simp only [ArraysOnce, arrayInUse, harr] at h
    simpa [ArraysOnce, arrayInUse, Txrx.reorderArrayFree, harr, olRxReorderInit] using h
  | allocated id =>
    simp only [ArraysOnce, arrayInUse, harr] at h
    simpa [ArraysOnce, arrayInUse, Txrx.reorderArrayFree, harr, olRxReorderInit] using h

@[simp] theorem delivered_reorderArrayFree (s : RxTid) :
    (reorderArrayFree s).delivered = s.delivered := by
  rw [reorderArrayFree]
  split <;> rfl

@[simp] theorem freed_reorderArrayFree (s : RxTid) : (reorderArrayFree s).freed = s.freed := by
  rw [reorderArrayFree]
  split <;> rfl

theorem Holds.storedIn_iff (h : Holds s c) {x : AdfNbuf} :
    StoredIn s x ↔ ∃ i < s.winSzMask + 1, x ∈ c i := by
  constructor
  · rintro ⟨i, elem, l, he, hl, hd, hx⟩
    have hi : i < s.winSzMask + 1 := by
      rw [← h.length_eq]
      exact (List.getElem?_eq_some_iff.1 he).1
    obtain rfl := hl.unique (h.chunk i elem he) hd (h.apart.nodup i hi)
    exact ⟨i, hi, hx⟩
  · rintro ⟨i, hi, hx⟩
    obtain ⟨elem, he, hc⟩ := h.exists_elem hi
    exact ⟨i, elem, c i, he, hc, h.apart.nodup i hi, hx⟩

theorem out_perm (hd : s'.delivered = s.delivered) (hf : s'.freed = s.freed) :
    s'.out.Perm s.out := by
  rw [RxTid.out, RxTid.out, hd, hf]

theorem Holds.slotEmpty_iff (h : Holds s c) {i : ℕ} (hi : i < s.winSzMask + 1) :
    SlotEmpty s i ↔ c i = [] := by
  obtain ⟨elem, he, hc⟩ := h.exists_elem hi
  simp only [SlotEmpty, he, Option.mem_some_iff, forall_eq']
  exact hc.eq_nil_iff

theorem Holds.windowEmpty_iff (h : Holds s c) :
    WindowEmpty s ↔ ∀ i < s.winSzMask + 1, c i = [] := by
  constructor
  · intro hw i hi
    obtain ⟨elem, he, hc⟩ := h.exists_elem hi
    exact hc.eq_nil_iff.1 (hw elem (mem_of_getElem? he))
  · intro hc elem he
    obtain ⟨i, he⟩ := mem_iff_getElem?.1 he
    have hi : i < s.winSzMask + 1 := by
      rw [← h.length_eq]
      exact (List.getElem?_eq_some_iff.1 he).1
    exact (h.chunk i elem he).eq_nil_iff.2 (hc i hi)

end Specs

/-! ### The invariant -/

/-- **The session invariant.**  The window is well formed and of the right size, and its frames have been stored and not yet delivered or freed. -/
structure RxInv (s : RxSession) (c : ℕ → List AdfNbuf) : Prop where
  holds : Holds s.tid c
  least : LeastPow2 s.tid.winSz (s.tid.winSzMask + 1)
  held : ∀ i < s.tid.winSzMask + 1, ∀ x ∈ c i,
    x ∈ s.stored ∧ x ∉ s.tid.delivered.flatten ∧ x ∉ s.tid.freed
  out : ∀ x, x ∈ s.tid.delivered.flatten ∨ x ∈ s.tid.freed → x ∈ s.stored

section Inv
variable {seqNum : AdfNbuf → ℕ} {s s' : RxSession} {c : ℕ → List AdfNbuf} {e : RxEvent}
  {range : List ℕ} {tid : RxTid}

theorem rxInv_attached (heap : NbufHeap) : RxInv (.attached heap) fun _ => [] where
  holds := holds_init _
  least := leastPow2_two_pow (le_refl 1) (.inl rfl)
  held _ _ _ hx := absurd hx not_mem_nil
  out x hx := by simp [RxSession.attached, olRxReorderInit] at hx

theorem RxInv.windowOk (h : RxInv s c) : WindowOk s.tid where
  length_eq := h.holds.length_eq
  least := h.least
  inside idx := by
    rw [h.holds.length_eq]
    exact lt_succ_of_le and_le_right

/-- The frames of any range are among those stored, so the record is fuel enough to read them. -/
theorem RxInv.fuel (h : RxInv s c) (hd : range.Nodup) (hr : ∀ i ∈ range, i < s.tid.winSzMask + 1) :
    (range.flatMap c).length ≤ s.stored.length := by
  refine ((h.holds.apart.flatMap_nodup hd hr).subperm fun x hx => ?_).length_le
  obtain ⟨i, hi, hx⟩ := mem_flatMap.1 hx
  exact (h.held i (hr i hi) x hx).1

theorem RxInv.empty (h : RxInv s c) (ht : Holds tid fun _ => [])
    (hl : LeastPow2 tid.winSz (tid.winSzMask + 1)) (hd : tid.delivered = s.tid.delivered)
    (hf : tid.freed = s.tid.freed) (live : Bool) :
    RxInv { s with tid := tid, live := live } fun _ => [] where
  holds := ht
  least := hl
  held _ _ _ hx := absurd hx not_mem_nil
  out x hx := h.out x (by rwa [← hd, ← hf])

theorem flatten_callsFor (l : List AdfNbuf) : (callsFor l).flatten = l := by
  rw [callsFor]
  split
  · next hnil => exact hnil.symm
  · exact flatten_singleton

theorem RxInv.rangeEmptied (h : RxInv s c) (out : List AdfNbuf)
    (he : RangeEmptied s.tid tid c range) (hr : ∀ i ∈ range, i < s.tid.winSzMask + 1)
    (hout : out ⊆ range.flatMap c) (hp : tid.out.Perm (s.tid.out ++ out)) :
    RxInv { s with tid := tid } (clearRange c range) where
  holds := he.holds h.holds hr
  least := by
    change LeastPow2 tid.winSz (tid.winSzMask + 1)
    rw [he.winSz, he.winSzMask]
    exact h.least
  held i hi x hx := by
    have hi : i < s.tid.winSzMask + 1 := he.winSzMask ▸ hi
    have hir : i ∉ range := by
      intro hm
      rw [clearRange, if_pos hm] at hx
      exact absurd hx not_mem_nil
    rw [clearRange, if_neg hir] at hx
    obtain ⟨hst, hnd, hnf⟩ := h.held i hi x hx
    have hx' : x ∉ tid.out := by
      rw [hp.mem_iff, RxTid.out, List.mem_append, List.mem_append]
      rintro ((hm | hm) | hm)
      · exact hnd hm
      · exact hnf hm
      · exact h.holds.apart.notMem hr hi hir hx (hout hm)
    exact ⟨hst, fun hm => hx' (mem_append_left _ hm), fun hm => hx' (mem_append_right _ hm)⟩
  out x hx := by
    rcases List.mem_append.1 (hp.mem_iff.1 (List.mem_append.2 hx)) with hm | hm
    · exact h.out x (List.mem_append.1 hm)
    · obtain ⟨i, hi, hx⟩ := mem_flatMap.1 (hout hm)
      exact (h.held i (hr i hi) x hx).1

theorem RxInv.nothingLost_iff (h : RxInv s c) (ht : Holds tid fun _ => [])
    (hd : tid.delivered = s.tid.delivered) (hf : tid.freed = s.tid.freed) :
    NothingLost s.tid tid ↔ WindowEmpty s.tid := by
  rw [h.holds.windowEmpty_iff]
  constructor
  · intro hn i hi
    refine eq_nil_iff_forall_not_mem.2 fun x hx => ?_
    obtain ⟨-, hxd, hxf⟩ := h.held i hi x hx
    rcases hn x (h.holds.storedIn_iff.2 ⟨i, hi, hx⟩) with hm | hm | hm
    · obtain ⟨j, -, hj⟩ := ht.storedIn_iff.1 hm
      exact not_mem_nil hj
    · exact hxd (hd ▸ hm)
    · exact hxf (hf ▸ hm)
  · intro hc x hx
    obtain ⟨i, hi, hx⟩ := h.holds.storedIn_iff.1 hx
    rw [hc i hi] at hx
    exact absurd hx not_mem_nil

/-! ### A turn -/

theorem RxInv.turn_empty (h : RxInv s c) {all : Prop} (hd : tid.delivered = s.tid.delivered)
    (hf : tid.freed = s.tid.freed) (hw : all → WindowEmpty s.tid) :
    Turn s { s with tid := tid } all [] where
  perm := by rw [append_nil]; exact out_perm hd hf
  nodup := nodup_nil
  stored _ hx := absurd hx not_mem_nil
  kept hall x hx hin := by
    obtain ⟨i, hi, hx⟩ := h.holds.storedIn_iff.1 (hin hx)
    rw [h.holds.windowEmpty_iff.1 (hw hall) i hi] at hx
    exact absurd hx not_mem_nil

/-- A range is emptied, and all of it leaves or nothing. -/
theorem RxInv.turn_range (h : RxInv s c) {all : Prop} {out : List AdfNbuf}
    (he : RangeEmptied s.tid tid c range) (hd : range.Nodup)
    (hr : ∀ i ∈ range, i < s.tid.winSzMask + 1) (hp : tid.out.Perm (s.tid.out ++ out))
    (hout : out = [] ∨ out = range.flatMap c) (hall : all → out = range.flatMap c) :
    Turn s { s with tid := tid } all out where
  perm := hp
  nodup := by
    rcases hout with rfl | rfl
    · exact nodup_nil
    · exact h.holds.apart.flatMap_nodup hd hr
  stored x hx := by
    rcases hout with rfl | rfl
    · exact absurd hx not_mem_nil
    · obtain ⟨i, hi, hx⟩ := mem_flatMap.1 hx
      exact h.holds.storedIn_iff.2 ⟨i, hr i hi, hx⟩
  kept ha x hx hin := by
    obtain ⟨i, hi, hx⟩ := h.holds.storedIn_iff.1 (hin hx)
    by_cases hir : i ∈ range
    · exact .inr (hall ha ▸ mem_flatMap.2 ⟨i, hir, hx⟩)
    · refine .inl ((he.holds h.holds hr).storedIn_iff.2 ⟨i, he.winSzMask ▸ hi, ?_⟩)
      rwa [clearRange, if_neg hir]

theorem arraysOnce_addba_iff {t t' : RxTid} (h : ArraysOnce t) (ha : t'.array = .allocated t.arrays)
    (hn : t'.arrays = t.arrays + 1) (hf : t'.arraysFreed = t.arraysFreed) :
    ArraysOnce t' ↔ t.array = .base := by
  simp only [ArraysOnce, arrayInUse] at h ⊢
  rw [ha, hn, hf, range_succ, perm_append_right_iff]
  cases harr : t.array with
  | base =>
    rw [harr, append_nil] at h
    exact iff_of_true h rfl
  | allocated id =>
    rw [harr] at h
    refine iff_of_false (fun h' => ?_) nofun
    have hlen := h.length_eq
    have hlen' := h'.length_eq
    rw [length_append, length_singleton] at hlen
    omega

theorem ArraysOnce.of_eq {t t' : RxTid} (h : ArraysOnce t) (ha : t'.array = t.array)
    (hn : t'.arrays = t.arrays) (hf : t'.arraysFreed = t.arraysFreed) : ArraysOnce t' := by
  simp only [ArraysOnce, arrayInUse] at h ⊢
  rwa [ha, hn, hf]

/-! ### One event -/

theorem rxStep_store {idx : ℕ} {msdus : List AdfNbuf} (h : RxInv s c)
    (hs : rxStep seqNum s (.store idx msdus) = some s') :
    (∃ c', RxInv s' c') ∧ (ArraysOnce s.tid → ArraysOnce s'.tid) ∧ Turn s s' True [] := by
  simp only [rxStep, bind_eq_bind, bind_eq_some_iff, guard_eq_some'] at hs
  obtain ⟨-, ⟨-, hnd, hnew⟩, head, hhead, tail, htail, tid, htid, hs⟩ := hs
  obtain rfl := some.inj hs
  have hfresh (i : ℕ) (hi : i < s.tid.winSzMask + 1) : List.Disjoint (c i) msdus :=
    fun x hx hm => hnew x hm (h.held i hi x hx).1
  have hlink : Holds { s.tid with heap := linkNbufs s.tid.heap msdus } c := by
    refine ⟨h.holds.length_eq, h.holds.pow, fun i elem he => ?_, h.holds.apart⟩
    have hi : i < s.tid.winSzMask + 1 := by
      rw [← h.holds.length_eq]
      exact (List.getElem?_eq_some_iff.1 he).1
    exact (h.holds.chunk i elem he).congr fun x hx =>
      linkNbufs_of_notMem fun hm => hfresh i hi hx hm
  obtain ⟨tid', htid', hsame, hholds⟩ := store_spec idx hlink
    ⟨hhead.symm, htail.symm, linked_linkNbufs _ hnd⟩ hnd hfresh
  obtain rfl := some.inj (htid.symm.trans htid')
  refine ⟨⟨_, hholds, ?_, ?_, ?_⟩, fun ha => ha.of_eq hsame.array hsame.arrays hsame.arraysFreed,
    by rw [append_nil]; exact out_perm hsame.delivered hsame.freed, nodup_nil,
    fun _ hx => absurd hx not_mem_nil, fun _ x hx hin => .inl (hholds.storedIn_iff.2 ?_)⟩
  · change LeastPow2 tid.winSz (tid.winSzMask + 1)
    rw [hsame.winSz, hsame.winSzMask]
    exact h.least
  · intro i hi x hx
    have hi : i < s.tid.winSzMask + 1 := hsame.winSzMask ▸ hi
    change x ∈ s.stored ++ msdus ∧ x ∉ tid.delivered.flatten ∧ x ∉ tid.freed
    rw [hsame.delivered, hsame.freed]
    have hx : x ∈ c i ∨ x ∈ msdus := by
      by_cases hidx : i = idx % (s.tid.winSzMask + 1)
      · subst hidx
        rw [update_self] at hx
        exact mem_append.1 hx
      · rw [update_of_ne hidx] at hx
        exact .inl hx
    rcases hx with hx | hx
    · obtain ⟨h₁, h₂⟩ := h.held i hi x hx
      exact ⟨mem_append_left _ h₁, h₂⟩
    · exact ⟨mem_append_right _ hx, fun hm => hnew x hx (h.out x (.inl hm)),
        fun hm => hnew x hx (h.out x (.inr hm))⟩
  · intro x hx
    refine mem_append_left _ (h.out x ?_)
    change x ∈ tid.delivered.flatten ∨ x ∈ tid.freed at hx
    rwa [hsame.delivered, hsame.freed] at hx
  · rw [hsame.winSzMask]
    by_cases hold : StoredIn s.tid x
    · obtain ⟨i, hi, hx⟩ := h.holds.storedIn_iff.1 hold
      refine ⟨i, hi, ?_⟩
      by_cases hidx : i = idx % (s.tid.winSzMask + 1)
      · subst hidx
        rw [update_self]
        exact mem_append_left _ hx
      · rwa [update_of_ne hidx]
    · refine ⟨_, mod_lt idx s.tid.winSzMask.succ_pos, ?_⟩
      rw [update_self]
      exact mem_append_right _ ((List.mem_append.1 hx).resolve_left (hold ∘ hin))

theorem rxStep_release {idxStart idxEnd : ℕ} (h : RxInv s c)
    (hs : rxStep seqNum s (.release idxStart idxEnd) = some s') :
    (∃ c', RxInv s' c') ∧ (ArraysOnce s.tid → ArraysOnce s'.tid) ∧
      ∃ out, Turn s s' (FrameOk s (.release idxStart idxEnd)) out := by
  simp only [rxStep, bind_eq_bind, bind_eq_some_iff] at hs
  obtain ⟨-, -, tid, htid, hs⟩ := hs
  obtain rfl := some.inj hs
  obtain ⟨hd, hr⟩ := ringRange_window s.tid idxStart idxEnd
  obtain ⟨tid', htid', hemp, hdel, hfree⟩ := release_spec h.holds (h.fuel hd hr)
  obtain rfl := some.inj (htid.symm.trans htid')
  have hp : tid.out.Perm (s.tid.out ++ if c (idxStart % (s.tid.winSzMask + 1)) = [] then []
      else (ringRange (s.tid.winSzMask + 1) idxStart idxEnd).flatMap c) := by
    rw [RxTid.out, RxTid.out, hdel, hfree, flatten_append, flatten_callsFor, append_assoc,
      append_assoc]
    exact perm_append_comm.append_left _
  refine ⟨⟨_, h.rangeEmptied _ hemp hr ?_ hp⟩,
    fun ha => ha.of_eq hemp.array hemp.arrays hemp.arraysFreed, _,
    h.turn_range hemp hd hr hp (ite_eq_or_eq _ _ _) fun hok => ?_⟩
  · split
    · exact nil_subset _
    · exact List.Subset.refl _
  · split
    · next hhole =>
      have hlt := mod_lt idxStart s.tid.winSzMask.succ_pos
      have hall := hok ((h.holds.slotEmpty_iff hlt).2 hhole)
      exact (flatMap_eq_nil_iff.2 fun i hi => (h.holds.slotEmpty_iff (hr i hi)).1 (hall i hi)).symm
    · rfl

theorem RxInv.flush {idxStart idxEnd : ℕ} {action : HttRxFlushAction} (h : RxInv s c)
    (hs : olRxReorderFlush seqNum s.stored.length s.tid idxStart idxEnd action = some tid) :
    RangeEmptied s.tid tid c (flushRange (s.tid.winSzMask + 1) idxStart idxEnd) ∧
      RxInv { s with tid := tid }
        (clearRange c (flushRange (s.tid.winSzMask + 1) idxStart idxEnd)) ∧
      Turn s { s with tid := tid } True
        ((flushRange (s.tid.winSzMask + 1) idxStart idxEnd).flatMap c) := by
  obtain ⟨hd, hr⟩ : (flushRange (s.tid.winSzMask + 1) idxStart idxEnd).Nodup ∧
      ∀ j ∈ flushRange (s.tid.winSzMask + 1) idxStart idxEnd, j < s.tid.winSzMask + 1 :=
    ringRange_window s.tid ..
  obtain ⟨tid', htid', hemp, hout⟩ := flush_spec h.holds (h.fuel hd hr) action
  obtain rfl := some.inj (hs.symm.trans htid')
  have hp : tid.out.Perm
      (s.tid.out ++ (flushRange (s.tid.winSzMask + 1) idxStart idxEnd).flatMap c) := by
    rw [RxTid.out, RxTid.out]
    cases action with
    | release =>
      rw [hout.1, hout.2, flatten_append, flatten_callsFor, append_assoc, append_assoc]
      exact perm_append_comm.append_left _
    | discard => rw [hout.1, hout.2, append_assoc]
  exact ⟨hemp, h.rangeEmptied _ hemp hr (List.Subset.refl _) hp,
    h.turn_range hemp hd hr hp (.inr rfl) fun _ => rfl⟩

theorem rxStep_flush {idxStart idxEnd : ℕ} {action : HttRxFlushAction} (h : RxInv s c)
    (hs : rxStep seqNum s (.flush idxStart idxEnd action) = some s') :
    (∃ c', RxInv s' c') ∧ (ArraysOnce s.tid → ArraysOnce s'.tid) ∧ ∃ out, Turn s s' True out := by
  simp only [rxStep, bind_eq_bind, bind_eq_some_iff] at hs
  obtain ⟨-, -, tid, htid, hs⟩ := hs
  obtain rfl := some.inj hs
  obtain ⟨hemp, hinv, hturn⟩ := h.flush htid
  exact ⟨⟨_, hinv⟩, fun ha => ha.of_eq hemp.array hemp.arrays hemp.arraysFreed, _, hturn⟩

theorem rxStep_addba {winSz : ℕ} {failed : Bool} (h : RxInv s c)
    (hs : rxStep seqNum s (.addba winSz failed) = some s') :
    (∃ c', RxInv s' c') ∧ (ArraysOnce s.tid →
      ((NothingLost s.tid s'.tid ∧ ArraysOnce s'.tid) ↔ SessionOk s (.addba winSz failed))) ∧
      Turn s s' (SessionOk s (.addba winSz failed)) [] := by
  simp only [rxStep, bind_eq_bind, bind_eq_some_iff, guard_eq_some'] at hs
  obtain ⟨-, ⟨-, hw⟩, tid, htid, hs⟩ := hs
  obtain rfl := some.inj hs
  cases failed with
  | true =>
    obtain rfl := some.inj htid
    exact ⟨⟨c, h⟩, fun ha => iff_of_true ⟨fun x hx => .inl hx, ha⟩ (.inl rfl), by rw [append_nil],
      nodup_nil, fun _ hx => absurd hx not_mem_nil, fun _ x hx hin => .inl (hin hx)⟩
  | false =>
    obtain ⟨tid', htid', hholds, hleast, harr, harrs, haf, hdel, hfree⟩ := addba_spec s.tid hw
    obtain rfl := some.inj (htid.symm.trans htid')
    refine ⟨⟨_, h.empty hholds hleast hdel hfree _⟩, fun ha => ?_,
      h.turn_empty hdel hfree fun hok => (hok.resolve_left nofun).2⟩
    change NothingLost s.tid tid ∧ ArraysOnce tid ↔ _
    rw [h.nothingLost_iff hholds hdel hfree, arraysOnce_addba_iff ha harr harrs haf, and_comm]
    exact ⟨.inr, fun hok => hok.resolve_left nofun⟩

theorem rxStep_delba (h : RxInv s c) (hs : rxStep seqNum s .delba = some s') :
    (∃ c', RxInv s' c') ∧ (ArraysOnce s.tid →
      ((NothingLost s.tid s'.tid ∧ ArraysOnce s'.tid) ↔ SessionOk s .delba)) ∧
      Turn s s' (SessionOk s .delba) [] := by
  simp only [rxStep, bind_eq_bind, bind_eq_some_iff] at hs
  obtain ⟨-, -, hs⟩ := hs
  obtain rfl := some.inj hs
  have hdel : (olRxDelbaHandler s.tid).delivered = s.tid.delivered := delivered_reorderArrayFree _
  have hfree : (olRxDelbaHandler s.tid).freed = s.tid.freed := freed_reorderArrayFree _
  have hholds : Holds (olRxDelbaHandler s.tid) fun _ => [] := holds_init _
  refine ⟨⟨_, h.empty hholds (leastPow2_two_pow (le_refl 1) (.inl rfl)) hdel hfree _⟩,
    fun ha => ?_, h.turn_empty hdel hfree id⟩
  have ha' : ArraysOnce (olRxDelbaHandler s.tid) := ArraysOnce.reorderArrayFree (ha.of_eq rfl rfl rfl)
  change NothingLost s.tid (olRxDelbaHandler s.tid) ∧ ArraysOnce (olRxDelbaHandler s.tid) ↔ _
  rw [h.nothingLost_iff hholds hdel hfree]
  exact and_iff_left ha'

theorem rxStep_peerDelete (h : RxInv s c) (hs : rxStep seqNum s .peerDelete = some s') :
    (∃ c', RxInv s' c') ∧ (ArraysOnce s.tid → NothingLost s.tid s'.tid ∧ ArraysOnce s'.tid) ∧
      s'.tid.array = .base ∧ ∃ out, Turn s s' True out := by
  simp only [rxStep, olTxrxPeerUnrefDelete, bind_eq_bind, bind_eq_some_iff] at hs
  obtain ⟨-, -, tid, ⟨tid₁, hflush, htid⟩, hs⟩ := hs
  obtain rfl := some.inj hs
  obtain ⟨hemp, hinv, hturn⟩ := h.flush hflush
  have hleft (x : AdfNbuf) (hx : StoredIn s.tid x) :
      x ∈ (flushRange (s.tid.winSzMask + 1) 0 0).flatMap c := by
    obtain ⟨i, hi, hx⟩ := h.holds.storedIn_iff.1 hx
    exact mem_flatMap.2 ⟨i, mem_ringRange_self hi, hx⟩
  have hlost (x : AdfNbuf) (hx : StoredIn s.tid x) : x ∈ tid₁.delivered.flatten ∨ x ∈ tid₁.freed :=
    List.mem_append.1 (hturn.perm.mem_iff.2 (mem_append_right _ (hleft x hx)))
  have honce (ha : ArraysOnce s.tid) : ArraysOnce tid₁ :=
    ha.of_eq hemp.array hemp.arrays hemp.arraysFreed
  split at htid
  · next harr =>
    obtain rfl := some.inj htid
    exact ⟨⟨_, hinv.holds, hinv.least, hinv.held, hinv.out⟩,
      fun ha => ⟨fun x hx => .inr (hlost x hx), honce ha⟩, harr, _, hturn.perm, hturn.nodup,
      hturn.stored, fun _ x hx hin => .inr (hleft x (hin hx))⟩
  · obtain rfl := some.inj htid
    refine ⟨⟨_, RxInv.empty hinv (holds_init _)
      (leastPow2_two_pow (le_refl 1) (.inl rfl)) ?_ ?_ false⟩,
      fun ha => ⟨fun x hx => ?_, (honce ha).reorderArrayFree⟩, rfl, _, ?_, hturn.nodup,
      hturn.stored, fun _ x hx hin => .inr (hleft x (hin hx))⟩
    · exact delivered_reorderArrayFree tid₁
    · exact freed_reorderArrayFree tid₁
    · change _ ∨ x ∈ (reorderArrayFree tid₁).delivered.flatten ∨ x ∈ (reorderArrayFree tid₁).freed
      rw [delivered_reorderArrayFree, freed_reorderArrayFree]
      exact .inr (hlost x hx)
    · exact (out_perm (delivered_reorderArrayFree tid₁) (freed_reorderArrayFree tid₁)).trans
        hturn.perm

/-- **One event.**  Every event keeps the invariant; one that is no session change also keeps the
arrays accounted for, and one that is keeps them and every frame just when it is `SessionOk`. -/
theorem rxStep_spec (h : RxInv s c) (hs : rxStep seqNum s e = some s') :
    (∃ c', RxInv s' c') ∧ (ArraysOnce s.tid →
      if e.isSessionChange then
        (NothingLost s.tid s'.tid ∧ ArraysOnce s'.tid) ↔ SessionOk s e
      else ArraysOnce s'.tid) := by
  cases e with
  | addba winSz failed =>
    obtain ⟨hinv, harrays, -⟩ := rxStep_addba h hs
    exact ⟨hinv, harrays⟩
  | delba =>
    obtain ⟨hinv, harrays, -⟩ := rxStep_delba h hs
    exact ⟨hinv, harrays⟩
  | store idx msdus =>
    obtain ⟨hinv, harrays, -⟩ := rxStep_store h hs
    exact ⟨hinv, harrays⟩
  | release idxStart idxEnd =>
    obtain ⟨hinv, harrays, -⟩ := rxStep_release h hs
    exact ⟨hinv, harrays⟩
  | flush idxStart idxEnd action =>
    obtain ⟨hinv, harrays, -⟩ := rxStep_flush h hs
    exact ⟨hinv, harrays⟩
  | peerDelete =>
    obtain ⟨hinv, hok, -⟩ := rxStep_peerDelete h hs
    exact ⟨hinv, fun ha => iff_of_true (hok ha) trivial⟩

theorem Turn.all_true {all : Prop} {out : List AdfNbuf} (h : Turn s s' True out) :
    Turn s s' all out :=
  ⟨h.perm, h.nodup, h.stored, fun _ => h.kept trivial⟩

theorem rxStep_turn (h : RxInv s c) (hs : rxStep seqNum s e = some s') :
    ∃ out, Turn s s' (FrameOk s e) out := by
  cases e with
  | addba winSz failed => exact ⟨[], (rxStep_addba h hs).2.2⟩
  | delba => exact ⟨[], (rxStep_delba h hs).2.2⟩
  | store idx msdus => exact ⟨[], (rxStep_store h hs).2.2.all_true⟩
  | release idxStart idxEnd => exact (rxStep_release h hs).2.2
  | flush idxStart idxEnd action => exact (rxStep_flush h hs).2.2.imp fun _ => Turn.all_true
  | peerDelete => exact (rxStep_peerDelete h hs).2.2.2.imp fun _ => Turn.all_true

end Inv

/-! ### Every run -/

section Runs
variable {seqNum : AdfNbuf → ℕ} {s s' : RxSession} {e : RxEvent}

/-- What holds along every run of block-ack sessions whose changes are all `SessionOk`. -/
structure BlockAckOk (s : RxSession) : Prop where
  window : WindowOk s.tid
  arrays : ArraysOnce s.tid
  deleted : s.live = false → s.tid.arraysFreed.Perm (List.range s.tid.arrays)

theorem rxStep_live (hs : rxStep seqNum s e = some s') (he : e ≠ .peerDelete) : s'.live = true := by
  have hguard : s.live = true ∧ s'.live = s.live := by
    cases e with
    | peerDelete => exact absurd rfl he
    | addba _ _ =>
      simp only [rxStep, bind_eq_bind, bind_eq_some_iff, guard_eq_some'] at hs
      obtain ⟨-, ⟨hl, -⟩, _, -, hs⟩ := hs
      exact ⟨hl, (some.inj hs) ▸ rfl⟩
    | delba =>
      simp only [rxStep, bind_eq_bind, bind_eq_some_iff, guard_eq_some'] at hs
      obtain ⟨-, hl, hs⟩ := hs
      exact ⟨hl, (some.inj hs) ▸ rfl⟩
    | store _ _ =>
      simp only [rxStep, bind_eq_bind, bind_eq_some_iff, guard_eq_some'] at hs
      obtain ⟨-, ⟨hl, -⟩, _, -, _, -, _, -, hs⟩ := hs
      exact ⟨hl, (some.inj hs) ▸ rfl⟩
    | release _ _ | flush _ _ _ =>
      simp only [rxStep, bind_eq_bind, bind_eq_some_iff, guard_eq_some'] at hs
      obtain ⟨-, hl, _, -, hs⟩ := hs
      exact ⟨hl, (some.inj hs) ▸ rfl⟩
  exact hguard.2.trans hguard.1

theorem rxInv_reachable {ok : RxSession → RxEvent → Prop} (h : (rxMachine seqNum).Reach ok s) :
    ∃ c, RxInv s c := by
  refine h.invariant (fun s => ∃ c, RxInv s c) ?_ ?_
  · rintro s ⟨heap, rfl⟩
    exact ⟨_, rxInv_attached heap⟩
  · rintro s e s' ⟨c, hc⟩ - hs
    exact (rxStep_spec hc hs).1

theorem blockAckOk_reachable (h : (rxMachine seqNum).Reach SessionOk s) : BlockAckOk s := by
  obtain ⟨c, hc⟩ := rxInv_reachable h
  have hinv : (∃ c, RxInv s c) ∧ ArraysOnce s.tid ∧ (s.live = false → s.tid.array = .base) := by
    refine h.invariant (fun s => (∃ c, RxInv s c) ∧ ArraysOnce s.tid ∧
      (s.live = false → s.tid.array = .base)) ?_ ?_
    · rintro s ⟨heap, rfl⟩
      exact ⟨⟨_, rxInv_attached heap⟩, List.Perm.refl _, nofun⟩
    · rintro s e s' ⟨⟨c, hc⟩, ha, -⟩ hok hs
      obtain ⟨hinv, hstep⟩ := rxStep_spec hc hs
      refine ⟨hinv, ?_, fun hl => ?_⟩
      · have hkeep := hstep ha
        split at hkeep
        · exact (hkeep.2 hok).2
        · exact hkeep
      · by_cases he : e = .peerDelete
        · subst he
          exact (rxStep_peerDelete hc hs).2.2.1
        · exact absurd (rxStep_live hs he) (by simp [hl])
  refine ⟨hc.windowOk, hinv.2.1, fun hl => ?_⟩
  have ha := hinv.2.1
  rwa [ArraysOnce, arrayInUse, hinv.2.2 hl, append_nil] at ha

/-- **Block-ack session changes.**  Along every run whose ADDBAs find the embedded element in use
and empty and whose DELBAs find the window empty, the window is consistent and each array is in
use or freed once, all of them once the peer is gone; and there a session change keeps every
frame and every array accounted for exactly when it is again such a change. -/
theorem blockAck_iff (h : (rxMachine seqNum).Reach SessionOk s) :
    BlockAckOk s ∧ ∀ e s', e.isSessionChange = true → rxStep seqNum s e = some s' →
      ((NothingLost s.tid s'.tid ∧ ArraysOnce s'.tid) ↔ SessionOk s e) := by
  refine ⟨blockAckOk_reachable h, fun e s' he hs => ?_⟩
  obtain ⟨c, hc⟩ := rxInv_reachable h
  have hstep := (rxStep_spec hc hs).2 (blockAckOk_reachable h).arrays
  rwa [if_pos he] at hstep

theorem blockAck_setup_teardown : ∃ s, (rxMachine fun _ => 0).run (.attached fun _ => none)
    [.addba 5 false, .delba] = some s ∧ BlockAckOk s := by
  have haddba : SessionOk (.attached fun _ => none) (.addba 5 false) := by
    refine Or.inr ⟨rfl, ?_⟩
    unfold WindowEmpty
    decide
  have hopen : (rxMachine fun _ => 0).Reach SessionOk _ :=
    .step (.start ⟨fun _ => none, rfl⟩) haddba rfl
  refine ⟨_, rfl, (@blockAck_iff (fun _ => 0) _ (.step (e := .delba) hopen ?_ rfl)).1⟩
  change WindowEmpty _
  unfold WindowEmpty
  decide

theorem second_addba_loses : ∃ s s', (rxMachine fun _ => 0).Reach (fun _ _ => True) s ∧
    rxStep (fun _ => 0) s (.addba 8 false) = some s' ∧
    ¬ NothingLost s.tid s'.tid ∧ ¬ ArraysOnce s'.tid := by
  have hrun : (rxMachine fun _ => 0).run (.attached fun _ => none)
    [.addba 4 false, .store 1 [5]] = some _ := rfl
  refine ⟨_, _, Machine.reach_of_run ⟨fun _ => none, rfl⟩ hrun, rfl, fun h => ?_, fun h => ?_⟩
  · rcases h 5 ⟨1, ⟨some 5, some 5⟩, [5], rfl, ⟨rfl, rfl, linked_singleton⟩, by simp, by simp⟩
      with ⟨i, elem, l, he, hl, -, hx⟩ | hx | hx
    · obtain rfl := eq_of_mem_replicate (n := 8) (mem_of_getElem? he)
      rw [hl.eq_nil_iff.1 rfl] at hx
      exact not_mem_nil hx
    · exact not_mem_nil hx
    · exact not_mem_nil hx
  · exact absurd h.length_eq (by decide)

/-! ### Each frame once -/

/-- **Each frame once.**  In every run no frame is delivered or freed twice, and one that has been is not in the window any more.  And where the session changes are those that the handlers are up to, and no release begins at a hole before frames, every frame received is in the window, or has been delivered or freed. -/
theorem rx_each_once {ok : RxSession → RxEvent → Prop} (h : (rxMachine seqNum).Reach ok s) :
    s.tid.out.Nodup ∧ (∀ x ∈ s.tid.out, x ∈ s.stored ∧ ¬ StoredIn s.tid x) ∧
      ((∀ s e, ok s e → FrameOk s e) → ∀ x ∈ s.stored, StoredIn s.tid x ∨ x ∈ s.tid.out) := by
  have hleft {s : RxSession} (h : ∃ c, RxInv s c) :
      ∀ x ∈ s.tid.out, x ∈ s.stored ∧ ¬ StoredIn s.tid x := by
    intro x hx
    obtain ⟨c, h⟩ := h
    refine ⟨h.out x (List.mem_append.1 hx), fun hin => ?_⟩
    obtain ⟨i, hi, hxi⟩ := h.holds.storedIn_iff.1 hin
    obtain ⟨-, hd, hf⟩ := h.held i hi x hxi
    exact (List.mem_append.1 hx).elim hd hf
  have hinv : (∃ c, RxInv s c) ∧ s.tid.out.Nodup ∧
      ((∀ s e, ok s e → FrameOk s e) → ∀ x ∈ s.stored, StoredIn s.tid x ∨ x ∈ s.tid.out) := by
    refine h.invariant (fun s => (∃ c, RxInv s c) ∧ s.tid.out.Nodup ∧ ((∀ s e, ok s e → FrameOk s e) →
      ∀ x ∈ s.stored, StoredIn s.tid x ∨ x ∈ s.tid.out)) ?_ ?_
    · rintro s ⟨heap, rfl⟩
      exact ⟨⟨_, rxInv_attached heap⟩, nodup_nil, fun _ x hx => absurd hx not_mem_nil⟩
    · rintro s e s' ⟨hc, hd, hall⟩ hok hs
      obtain ⟨c, hci⟩ := hc
      obtain ⟨out, ht⟩ := rxStep_turn hci hs
      refine ⟨(rxStep_spec hci hs).1, ht.perm.nodup_iff.2 (hd.append ht.nodup fun x hx hx' => ?_),
        fun hframe x hx => ?_⟩
      · exact (hleft ⟨c, hci⟩ x hx).2 (ht.stored x hx')
      · rw [ht.perm.mem_iff, List.mem_append]
        by_cases hxo : x ∈ s.tid.out
        · exact .inr (.inl hxo)
        · refine (ht.kept (hframe s e hok) x hx fun hst => ?_).imp_right .inr
          exact (hall hframe x hst).resolve_right hxo
  exact ⟨hinv.2.1, hleft hinv.1, hinv.2.2⟩

/-- Two buffers are released, one waits behind a hole. -/
theorem rx_each_once_waits : ∃ s, (rxMachine fun _ => 0).run (.attached fun _ => none)
    [.addba 4 false, .store 0 [5, 6], .store 2 [7], .release 0 2] = some s ∧
      (s.tid.out.Nodup ∧ ∀ x ∈ s.stored, StoredIn s.tid x ∨ x ∈ s.tid.out) ∧ s.tid.out = [5, 6] :=
  Machine.exists_right (fun _ h => ⟨(rx_each_once h).1, (rx_each_once h).2.2 fun _ _ => id⟩)
    ⟨_, rfl⟩ (by decide +kernel : Machine.Along _ FrameOk ..) (by decide +kernel)

end Runs

end Qcacld.Txrx

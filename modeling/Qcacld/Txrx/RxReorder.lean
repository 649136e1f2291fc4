import Qcacld.Adf.Nbuf
import Qcacld.Support.Ring
import Mathlib.Data.List.Perm.Subperm
import Mathlib.Tactic.IntervalCases

/-!
# Txrx — RxReorder

The rx reorder window of one peer-TID: `ol_rx_reorder_store`, `ol_rx_reorder_release` and `ol_rx_reorder_flush`, over the buffers' `next` pointers.  Each slot of the window is a list of MSDUs delimited by a head and a tail pointer.

The release takes the head of the list it delivers from the first slot of its range before the loop, and `OL_RX_REORDER_LIST_APPEND` links later slots only behind an existing tail.  So a release whose first slot is a hole empties the filled slots behind it without delivering them (`release_spec`); the flush takes its head from the first filled slot and loses nothing (`flush_spec`).
-/

namespace Qcacld.Txrx
open Qcacld.Adf Qcacld.Support Function List Option Nat

/-- `struct ol_rx_reorder_array_elem_t`. -/
structure OlRxReorderArrayElem where
  head : Option AdfNbuf
  tail : Option AdfNbuf
deriving DecidableEq

/-- What `rx_reorder->array` points at: the embedded element, or an allocated array. -/
inductive ReorderArray where
  | base
  | allocated (id : Nat)
deriving DecidableEq

/-- `IEEE80211_SEQ_MAX`, which marks `tids_last_seq` as invalid. -/
def ieee80211SeqMax : Nat := 4096

/-- `enum htt_rx_flush_action`. -/
inductive HttRxFlushAction where
  | release
  | discard
deriving DecidableEq

/-- One peer-TID: `tids_rx_reorder[tid]`, `tids_next_rel_idx[tid]` and `tids_last_seq[tid]`, with the memory they point into.  `elems` is empty at an array that is not allocated.  `delivered` records the lists given to `rx_opt_proc`, `freed` the buffers given to `htt_rx_desc_frame_free`, `arrays` the number of arrays allocated so far and `arraysFreed` the ones given back. -/
structure RxTid where
  winSz : Nat
  winSzMask : Nat
  numMpdus : Nat
  array : ReorderArray
  elems : ReorderArray → List OlRxReorderArrayElem
  nextRelIdx : Nat
  lastSeq : Nat
  heap : NbufHeap
  delivered : List (List AdfNbuf)
  freed : List AdfNbuf
  arrays : Nat
  arraysFreed : List Nat

namespace RxTid

/-- The elements `rx_reorder->array` gives access to. -/
def slots (s : RxTid) : List OlRxReorderArrayElem := s.elems s.array

/-- Write `rx_reorder->array[idx]`. -/
def setSlot (s : RxTid) (idx : Nat) (elem : OlRxReorderArrayElem) : RxTid :=
  { s with elems := update s.elems s.array (s.slots.set idx elem) }

end RxTid

def emptyElem : OlRxReorderArrayElem := ⟨none, none⟩

def olRxReorderStore (s : RxTid) (idx : Nat) (headMsdu tailMsdu : AdfNbuf) : Option RxTid := do
  let idx := idx &&& s.winSzMask
  let elem ← s.slots[idx]?
  match elem.head with
  | some _ =>
    let tail ← elem.tail
    return { s.setSlot idx { elem with tail := some tailMsdu } with
      heap := adfNbufSetNext s.heap tail (some headMsdu) }
  | none => return s.setSlot idx { head := some headMsdu, tail := some tailMsdu }

/-- `OL_RX_REORDER_LIST_APPEND`; it does not look at `head_msdu`. -/
def olRxReorderListAppend (heap : NbufHeap) (_headMsdu tailMsdu : Option AdfNbuf)
    (elem : OlRxReorderArrayElem) : NbufHeap :=
  match tailMsdu with
  | some tail => adfNbufSetNext heap tail elem.head
  | none => heap

/-- The body of the loop of `ol_rx_reorder_release`, over the state and `tail_msdu`. -/
def reorderReleaseSlot (headMsdu : Option AdfNbuf) (st : RxTid × Option AdfNbuf) (idx : Nat) :
    Option (RxTid × Option AdfNbuf) := do
  let (s, tailMsdu) := st
  let elem ← s.slots[idx]?
  if elem.head.isSome then
    let heap := olRxReorderListAppend s.heap headMsdu tailMsdu elem
    return ({ s.setSlot idx emptyElem with heap := heap }, elem.tail)
  else
    return (s.setSlot idx emptyElem, tailMsdu)

/-- The body of the loop of `ol_rx_reorder_flush`, over the state, `head_msdu` and `tail_msdu`. -/
def reorderFlushSlot (st : RxTid × Option AdfNbuf × Option AdfNbuf) (idx : Nat) :
    Option (RxTid × Option AdfNbuf × Option AdfNbuf) := do
  let (s, headMsdu, tailMsdu) := st
  let elem ← s.slots[idx]?
  if elem.head.isSome then
    if headMsdu.isNone then
      return (s.setSlot idx emptyElem, elem.head, elem.tail)
    else
      let tail ← tailMsdu
      let heap := adfNbufSetNext s.heap tail elem.head
      return ({ s.setSlot idx emptyElem with heap := heap }, headMsdu, elem.tail)
  else
    return st

section Deliver
variable (seqNum : AdfNbuf → Nat) (fuel : Nat)

/-- Terminate the list from `head_msdu` to `tail_msdu` and read it: what `rx_opt_proc` is given. -/
def reorderFinish (s : RxTid) (headMsdu : AdfNbuf) (tailMsdu : Option AdfNbuf) :
    Option (RxTid × List AdfNbuf) := do
  let s := { s with lastSeq := seqNum headMsdu % 2 ^ 16 }
  let tail ← tailMsdu
  let s := { s with heap := adfNbufSetNext s.heap tail none }
  let msdus ← walk s.heap fuel (some headMsdu)
  return (s, msdus)

def olRxReorderRelease (s : RxTid) (idxStart idxEnd : Nat) : Option RxTid := do
  let s := { s with nextRelIdx := idxEnd % 2 ^ 16 }
  let winSzMask := s.winSzMask
  let idxStart := idxStart &&& winSzMask
  let idxEnd := idxEnd &&& winSzMask
  let elem ← s.slots[idxStart]?
  let headMsdu := elem.head
  let s := s.setSlot idxStart emptyElem
  let (s, tailMsdu) ← maskLoop (reorderReleaseSlot headMsdu) winSzMask idxEnd (winSzMask + 1)
    (s, elem.tail) ((idxStart + 1) &&& winSzMask)
  match headMsdu with
  | some head =>
    let (s, msdus) ← reorderFinish seqNum fuel s head tailMsdu
    return { s with delivered := s.delivered ++ [msdus] }
  | none => return s

/-- `ol_rx_reorder_flush`.  An `idx_end` of 0xffff means the entire array. -/
def olRxReorderFlush (s : RxTid) (idxStart idxEnd : Nat) (action : HttRxFlushAction) :
    Option RxTid := do
  let winSzMask := s.winSzMask
  let (s, idxEnd) := if idxEnd = 0xffff then ({ s with nextRelIdx := 0 }, idxStart)
    else ({ s with nextRelIdx := idxEnd % 2 ^ 16 }, idxEnd)
  let idxStart := idxStart &&& winSzMask
  let idxEnd := idxEnd &&& winSzMask
  let st ← reorderFlushSlot (s, none, none) idxStart
  let (s, headMsdu, tailMsdu) ← maskLoop reorderFlushSlot winSzMask idxEnd (winSzMask + 1) st
    ((idxStart + 1) &&& winSzMask)
  match headMsdu with
  | some head =>
    let (s, msdus) ← reorderFinish seqNum fuel s head tailMsdu
    match action with
    | .release => return { s with delivered := s.delivered ++ [msdus] }
    | .discard => return { s with freed := s.freed ++ msdus }
  | none => return s

end Deliver

/-! ### Window contents -/

/-- `c i` is the list of MSDUs in slot `i`; no buffer is in two places. -/
structure Apart (n : ℕ) (c : ℕ → List AdfNbuf) : Prop where
  nodup : ∀ i < n, (c i).Nodup
  disjoint : ∀ i < n, ∀ j < n, i ≠ j → List.Disjoint (c i) (c j)

/-- **The window invariant.**  The window has a power of two of slots, as many as the mask says, and slot `i` holds the MSDUs `c i`, threaded from its head to its tail. -/
structure Holds (s : RxTid) (c : ℕ → List AdfNbuf) : Prop where
  length_eq : s.slots.length = s.winSzMask + 1
  pow : ∃ k, s.winSzMask + 1 = 2 ^ k
  chunk : ∀ i elem, s.slots[i]? = some elem → Chunk s.heap elem.head elem.tail (c i)
  apart : Apart (s.winSzMask + 1) c

/-- The contents once the slots of `range` have been emptied. -/
def clearRange (c : ℕ → List AdfNbuf) (range : List ℕ) (i : ℕ) : List AdfNbuf :=
  if i ∈ range then [] else c i

/-- From `s` to `s'` exactly the slots of `range` have been emptied, and no pointer outside their buffers has changed. -/
structure RangeEmptied (s s' : RxTid) (c : ℕ → List AdfNbuf) (range : List ℕ) : Prop where
  winSz : s'.winSz = s.winSz
  winSzMask : s'.winSzMask = s.winSzMask
  array : s'.array = s.array
  arrays : s'.arrays = s.arrays
  arraysFreed : s'.arraysFreed = s.arraysFreed
  elsewhere : ∀ a, a ≠ s.array → s'.elems a = s.elems a
  length_eq : s'.slots.length = s.slots.length
  emptied : ∀ i ∈ range, s'.slots[i]? = some emptyElem
  others : ∀ i, i ∉ range → s'.slots[i]? = s.slots[i]?
  heap : ∀ x, x ∉ range.flatMap c → s'.heap x = s.heap x

section Slots
variable {s s' : RxTid} {c : ℕ → List AdfNbuf} {range : List ℕ} {i j n : ℕ}
  {elem : OlRxReorderArrayElem}

@[simp] theorem slots_setSlot : (s.setSlot i elem).slots = s.slots.set i elem := by
  simp [RxTid.slots, RxTid.setSlot]

theorem elems_setSlot_of_ne {a : ReorderArray} (h : a ≠ s.array) :
    (s.setSlot i elem).elems a = s.elems a :=
  update_of_ne h ..

theorem getElem?_setSlot_self (h : i < s.slots.length) :
    (s.setSlot i elem).slots[i]? = some elem := by
  rw [slots_setSlot, getElem?_set_self h]

theorem getElem?_setSlot_of_ne (h : i ≠ j) : (s.setSlot i elem).slots[j]? = s.slots[j]? := by
  rw [slots_setSlot, getElem?_set_ne h]

theorem setSlot_eq_self (h : s.slots[i]? = some elem) : s.setSlot i elem = s := by
  obtain ⟨hi, rfl⟩ := List.getElem?_eq_some_iff.1 h
  rw [RxTid.setSlot, set_getElem_self]
  exact congrArg (fun e => { s with elems := e }) (update_eq_self ..)

theorem Holds.exists_elem (h : Holds s c) (hi : i < s.winSzMask + 1) :
    ∃ elem, s.slots[i]? = some elem ∧ Chunk s.heap elem.head elem.tail (c i) := by
  rw [← h.length_eq] at hi
  exact ⟨_, getElem?_eq_getElem hi, h.chunk i _ (getElem?_eq_getElem hi)⟩

theorem Apart.flatMap_nodup (h : Apart n c) (hr : range.Nodup) (hn : ∀ i ∈ range, i < n) :
    (range.flatMap c).Nodup := by
  refine nodup_flatMap.2 ⟨fun i hi => h.nodup i (hn i hi), ?_⟩
  exact hr.imp_of_mem fun hi hj hij => h.disjoint _ (hn _ hi) _ (hn _ hj) hij

theorem Apart.notMem (h : Apart n c) (hr : ∀ j ∈ range, j < n) (hi : i < n) (hir : i ∉ range)
    {x : AdfNbuf} (hx : x ∈ c i) : x ∉ range.flatMap c := by
  intro hm
  obtain ⟨j, hj, hxj⟩ := mem_flatMap.1 hm
  have hij : i ≠ j := by
    rintro rfl
    exact hir hj
  exact h.disjoint i hi j (hr j hj) hij hx hxj

theorem Apart.clearRange (h : Apart n c) : Apart n (clearRange c range) := by
  have hsub (i : ℕ) : Txrx.clearRange c range i ⊆ c i := by
    rw [Txrx.clearRange]
    split
    · exact nil_subset _
    · exact List.Subset.refl _
  refine ⟨fun i hi => ?_, fun i hi j hj hij x hx hx' =>
    h.disjoint i hi j hj hij (hsub i hx) (hsub j hx')⟩
  rw [Txrx.clearRange]
  split
  · exact nodup_nil
  · exact h.nodup i hi

theorem RangeEmptied.refl (s : RxTid) (c : ℕ → List AdfNbuf) : RangeEmptied s s c [] where
  winSz := rfl
  winSzMask := rfl
  array := rfl
  arrays := rfl
  arraysFreed := rfl
  elsewhere _ _ := rfl
  length_eq := rfl
  emptied := nofun
  others _ _ := rfl
  heap _ _ := rfl

theorem RangeEmptied.clearSlot {s₁ s₂ : RxTid} (h : RangeEmptied s s₁ c range)
    (hi : i < s₁.slots.length) (hs₂ : s₂ = { s₁.setSlot i emptyElem with
      nextRelIdx := s₂.nextRelIdx, lastSeq := s₂.lastSeq, numMpdus := s₂.numMpdus,
      heap := s₂.heap, delivered := s₂.delivered, freed := s₂.freed })
    (hheap : ∀ x, x ∉ (range ++ [i]).flatMap c → s₂.heap x = s₁.heap x) :
    RangeEmptied s s₂ c (range ++ [i]) := by
  have hslots : s₂.slots = (s₁.setSlot i emptyElem).slots := by rw [hs₂]; rfl
  have hself : s₂.slots[i]? = some emptyElem := by rw [hslots, getElem?_setSlot_self hi]
  have hne (j : ℕ) (hj : i ≠ j) : s₂.slots[j]? = s₁.slots[j]? := by
    rw [hslots, getElem?_setSlot_of_ne hj]
  refine ⟨?_, ?_, ?_, ?_, ?_, fun a ha => ?_, ?_, fun j hj => ?_, fun j hj => ?_, fun x hx => ?_⟩
  · rw [hs₂]; exact h.winSz
  · rw [hs₂]; exact h.winSzMask
  · rw [hs₂]; exact h.array
  · rw [hs₂]; exact h.arrays
  · rw [hs₂]; exact h.arraysFreed
  · rw [hs₂, ← h.elsewhere a ha]
    exact elems_setSlot_of_ne (h.array ▸ ha)
  · rw [hslots, slots_setSlot, length_set, h.length_eq]
  · by_cases hij : i = j
    · exact hij ▸ hself
    · rw [hne j hij]
      rcases mem_append.1 hj with hj | hj
      · exact h.emptied j hj
      · exact absurd (mem_singleton.1 hj).symm hij
  · rw [hne j fun e => hj (by simp [e])]
    exact h.others j fun hm => hj (mem_append_left _ hm)
  · refine (hheap x hx).trans (h.heap x fun hm => hx ?_)
    rw [flatMap_append]
    exact mem_append_left _ hm

theorem RangeEmptied.holds (h : RangeEmptied s s' c range) (hs : Holds s c)
    (hr : ∀ i ∈ range, i < s.winSzMask + 1) : Holds s' (clearRange c range) where
  length_eq := by rw [h.length_eq, h.winSzMask, hs.length_eq]
  pow := by rw [h.winSzMask]; exact hs.pow
  apart := by rw [h.winSzMask]; exact hs.apart.clearRange
  chunk i elem he := by
    by_cases hi : i ∈ range
    · rw [h.emptied i hi] at he
      obtain rfl := some.inj he
      rw [clearRange, if_pos hi]
      exact .nil
    · rw [h.others i hi] at he
      have hlt : i < s.winSzMask + 1 := by
        rw [← hs.length_eq]
        exact (List.getElem?_eq_some_iff.1 he).1
      rw [clearRange, if_neg hi]
      exact (hs.chunk i elem he).congr fun x hx => h.heap x (hs.apart.notMem hr hlt hi hx)

end Slots

/-! ### Gathering a range -/

/-- The slots of `visited` have been emptied and their MSDUs threaded into one list, which ends at `tailMsdu`. -/
structure Gathered (s s' : RxTid) (c : ℕ → List AdfNbuf) (visited : List ℕ)
    (tailMsdu : Option AdfNbuf) : Prop extends RangeEmptied s s' c visited where
  chunk : Chunk s'.heap (visited.flatMap c).head? tailMsdu (visited.flatMap c)
  nextRelIdx : s'.nextRelIdx = s.nextRelIdx
  lastSeq : s'.lastSeq = s.lastSeq
  delivered : s'.delivered = s.delivered
  freed : s'.freed = s.freed

section Gather
variable {s s₁ : RxTid} {c : ℕ → List AdfNbuf} {visited : List ℕ}
  {tailMsdu : Option AdfNbuf} {i : ℕ}

theorem Gathered.refl (s : RxTid) (c : ℕ → List AdfNbuf) : Gathered s s c [] none where
  toRangeEmptied := .refl s c
  chunk := .nil
  nextRelIdx := rfl
  lastSeq := rfl
  delivered := rfl
  freed := rfl

/-- The pointer write of one iteration hooks the slot's list behind what has been gathered. -/
theorem Gathered.append_chunk {elem : OlRxReorderArrayElem}
    (headMsdu : Option AdfNbuf) (h : Gathered s s₁ c visited tailMsdu)
    (he : Chunk s₁.heap elem.head elem.tail (c i)) (hci : c i ≠ [])
    (hd : (visited.flatMap c ++ c i).Nodup) :
    Chunk (olRxReorderListAppend s₁.heap headMsdu tailMsdu elem)
        (visited.flatMap c ++ c i).head? elem.tail (visited.flatMap c ++ c i) ∧
      ∀ x, x ∉ visited.flatMap c →
        olRxReorderListAppend s₁.heap headMsdu tailMsdu elem x = s₁.heap x := by
  cases tailMsdu with
  | none =>
    have hnil : visited.flatMap c = [] := h.chunk.tail_none_iff.1 rfl
    rw [hnil, nil_append]
    exact ⟨⟨rfl, he.tail_eq, he.linked⟩, fun _ _ => rfl⟩
  | some t =>
    have hj := h.chunk.join he hd hci
    have ht : t ∈ visited.flatMap c := mem_of_mem_getLast? h.chunk.tail_eq.symm
    refine ⟨⟨rfl, hj.tail_eq, hj.linked⟩, fun x hx => adfNbufSetNext_of_ne ?_⟩
    rintro rfl
    exact hx ht

theorem Gathered.slot (h : Gathered s s₁ c visited tailMsdu) (hs : Holds s c)
    (hv : ∀ j ∈ visited, j < s.winSzMask + 1) (hi : i < s.winSzMask + 1) (hiv : i ∉ visited) :
    ∃ elem, s₁.slots[i]? = some elem ∧ Chunk s₁.heap elem.head elem.tail (c i) := by
  obtain ⟨elem, he, hce⟩ := hs.exists_elem hi
  refine ⟨elem, (h.others i hiv).trans he, hce.congr fun x hx => ?_⟩
  exact h.heap x (hs.apart.notMem hv hi hiv hx)

/-- **One iteration**, of the release and of the flush. -/
theorem gathered_step (headMsdu : Option AdfNbuf) (hs : Holds s c)
    (h : Gathered s s₁ c visited tailMsdu)
    (hv : ∀ j ∈ visited, j < s.winSzMask + 1) (hi : i < s.winSzMask + 1)
    (hd : (visited ++ [i]).Nodup) :
    ∃ s₂ tail₂, Gathered s s₂ c (visited ++ [i]) tail₂ ∧
      reorderReleaseSlot headMsdu (s₁, tailMsdu) i = some (s₂, tail₂) ∧
      reorderFlushSlot (s₁, (visited.flatMap c).head?, tailMsdu) i =
        some (s₂, ((visited ++ [i]).flatMap c).head?, tail₂) := by
  have hiv : i ∉ visited := fun hm => (nodup_append.1 hd).2.2 i hm i (by simp) rfl
  obtain ⟨elem, he, hce⟩ := h.slot hs hv hi hiv
  have hflat : (visited ++ [i]).flatMap c = visited.flatMap c ++ c i := by simp
  have hlt : i < s₁.slots.length := (List.getElem?_eq_some_iff.1 he).1
  by_cases hci : c i = []
  · -- an empty slot: nothing to gather, and clearing it writes what is there
    obtain rfl : elem = emptyElem := by
      have hhead := hce.eq_nil_iff.2 hci
      have htail := hce.tail_none_iff.2 hci
      cases elem
      cases hhead
      cases htail
      rfl
    rw [hci, append_nil] at hflat
    refine ⟨s₁, tailMsdu, ?_, ?_, ?_⟩
    · refine { h with emptied := ?_, others := ?_, heap := by rw [hflat]; exact h.heap,
                      chunk := by rw [hflat]; exact h.chunk }
      · intro j hj
        rcases mem_append.1 hj with hj | hj
        · exact h.emptied j hj
        · obtain rfl := mem_singleton.1 hj
          exact he
      · exact fun j hj => h.others j fun hm => hj (mem_append_left _ hm)
    · simp only [reorderReleaseSlot, he, setSlot_eq_self he]
      rfl
    · rw [hflat]
      simp only [reorderFlushSlot, he]
      rfl
  · have hdn : (visited.flatMap c ++ c i).Nodup := by
      rw [← hflat]
      refine hs.apart.flatMap_nodup hd fun j hj => ?_
      rcases mem_append.1 hj with hj | hj
      · exact hv j hj
      · obtain rfl := mem_singleton.1 hj
        exact hi
    obtain ⟨hchunk, hheap⟩ := h.append_chunk headMsdu hce hci hdn
    have hsome : elem.head.isSome := hce.isSome_iff.2 hci
    refine ⟨{ s₁.setSlot i emptyElem with
      heap := olRxReorderListAppend s₁.heap headMsdu tailMsdu elem }, elem.tail, ?_, ?_, ?_⟩
    · refine { h with toRangeEmptied := ?_, chunk := hflat ▸ hchunk }
      refine h.toRangeEmptied.clearSlot hlt rfl fun x hx => hheap x fun hm => hx ?_
      rw [hflat]
      exact mem_append_left _ hm
    · simp only [reorderReleaseSlot, he, bind_eq_bind, bind_some, hsome, if_true]
      rfl
    · rw [hflat]
      simp only [reorderFlushSlot, he, bind_eq_bind, bind_some, hsome, if_true]
      cases tailMsdu with
      | none =>
        have hnil : visited.flatMap c = [] := h.chunk.tail_none_iff.1 rfl
        simp only [hnil, hce.head_eq, olRxReorderListAppend]
        rfl
      | some t =>
        have hne : visited.flatMap c ≠ [] := by
          intro e
          have := h.chunk.tail_none_iff.2 e
          simp at this
        have hhead : (visited.flatMap c).head? ≠ none := by
          rw [Ne, head?_eq_none_iff]
          exact hne
        rw [head?_append_of_ne_nil _ hne, if_neg (by simpa using hhead)]
        rfl

theorem gather_release {range : List ℕ} (headMsdu : Option AdfNbuf) (hs : Holds s c)
    (hd : range.Nodup) (hr : ∀ j ∈ range, j < s.winSzMask + 1) :
    ∃ st, range.foldlM (reorderReleaseSlot headMsdu) (s, none) = some st ∧
      Gathered s st.1 c range st.2 := by
  refine foldlM_rule (fun pre (st : RxTid × _) => Gathered s st.1 c pre st.2) ?_ (.refl s c)
  rintro pre i post ⟨s₁, tailMsdu⟩ e h
  have hsub (j : ℕ) (hj : j ∈ pre ++ [i]) : j ∈ range := by
    rw [e, append_cons]
    exact mem_append_left _ hj
  have hnd : (pre ++ [i]).Nodup := by
    rw [e, append_cons] at hd
    exact (nodup_append.1 hd).1
  obtain ⟨s₂, tail₂, h₂, hrel, -⟩ := gathered_step headMsdu hs h
    (fun j hj => hr j (hsub j (by simp [hj]))) (hr i (hsub i (by simp))) hnd
  exact ⟨(s₂, tail₂), hrel, h₂⟩

theorem gather_flush {range : List ℕ} (hs : Holds s c) (hd : range.Nodup)
    (hr : ∀ j ∈ range, j < s.winSzMask + 1) :
    ∃ st, range.foldlM reorderFlushSlot (s, none, none) = some st ∧
      Gathered s st.1 c range st.2.2 ∧ st.2.1 = (range.flatMap c).head? := by
  refine foldlM_rule (fun pre (st : RxTid × _ × _) =>
      Gathered s st.1 c pre st.2.2 ∧ st.2.1 = (pre.flatMap c).head?) ?_ ⟨.refl s c, rfl⟩
  rintro pre i post ⟨s₁, headMsdu, tailMsdu⟩ e ⟨h, rfl⟩
  have hsub (j : ℕ) (hj : j ∈ pre ++ [i]) : j ∈ range := by
    rw [e, append_cons]
    exact mem_append_left _ hj
  have hnd : (pre ++ [i]).Nodup := by
    rw [e, append_cons] at hd
    exact (nodup_append.1 hd).1
  obtain ⟨s₂, tail₂, h₂, -, hflush⟩ := gathered_step none hs h
    (fun j hj => hr j (hsub j (by simp [hj]))) (hr i (hsub i (by simp))) hnd
  exact ⟨(s₂, _, tail₂), hflush, h₂, rfl⟩

end Gather

/-! ### Release and flush -/

/-- The slots a flush is to empty: an `idx_end` of 0xffff means all of them. -/
def flushRange (n idxStart idxEnd : ℕ) : List ℕ :=
  ringRange n idxStart (if idxEnd = 0xffff then idxStart else idxEnd)

/-- The calls of `rx_opt_proc` that hand over a list: none for an empty one. -/
def callsFor (msdus : List AdfNbuf) : List (List AdfNbuf) :=
  if msdus = [] then [] else [msdus]

section Spec
variable {seqNum : AdfNbuf → ℕ} {fuel : ℕ} {s s₁ : RxTid} {c : ℕ → List AdfNbuf}
  {range : List ℕ} {idxStart idxEnd : ℕ} {tailMsdu : Option AdfNbuf}

theorem reorderFinish_eq (seqNum : AdfNbuf → ℕ) (h : Gathered s s₁ c range tailMsdu)
    (hs : Holds s c)
    (hd : range.Nodup) (hr : ∀ j ∈ range, j < s.winSzMask + 1)
    (hfuel : (range.flatMap c).length ≤ fuel) {head : AdfNbuf}
    (hh : (range.flatMap c).head? = some head) :
    ∃ s₂, reorderFinish seqNum fuel s₁ head tailMsdu = some (s₂, range.flatMap c) ∧
      RangeEmptied s s₂ c range ∧ s₂.delivered = s.delivered ∧ s₂.freed = s.freed := by
  have hne : range.flatMap c ≠ [] := by
    intro e
    simp [e] at hh
  obtain ⟨t, rfl⟩ : ∃ t, tailMsdu = some t :=
    ne_none_iff_exists'.1 (h.chunk.tail_none_iff.not.2 hne)
  have ht : t ∈ range.flatMap c := mem_of_mem_getLast? h.chunk.tail_eq.symm
  have hwalk : walk (adfNbufSetNext s₁.heap t none) fuel (some head) = some (range.flatMap c) :=
    hh ▸ h.chunk.walk_update_tail (hs.apart.flatMap_nodup hd hr) hfuel
  refine ⟨{ s₁ with lastSeq := seqNum head % 2 ^ 16, heap := adfNbufSetNext s₁.heap t none },
    ?_, { h.toRangeEmptied with heap := fun x hx => ?_ }, h.delivered, h.freed⟩
  · simp only [reorderFinish, bind_eq_bind, bind_some, hwalk]
    rfl
  · have hxt : x ≠ t := by
      rintro rfl
      exact hx ht
    exact (adfNbufSetNext_of_ne hxt).trans (h.heap x hx)

theorem ringRange_window (s : RxTid) (idxStart idxEnd : ℕ) :
    (ringRange (s.winSzMask + 1) idxStart idxEnd).Nodup ∧
      ∀ j ∈ ringRange (s.winSzMask + 1) idxStart idxEnd, j < s.winSzMask + 1 :=
  ⟨ringRange_nodup (succ_pos _) .., fun _ hj => mem_ringRange_lt (succ_pos _) hj⟩

/-- The window invariant does not see `tids_next_rel_idx`. -/
theorem Holds.setNextRelIdx (hs : Holds s c) (v : ℕ) : Holds { s with nextRelIdx := v } c :=
  ⟨hs.length_eq, hs.pow, hs.chunk, hs.apart⟩

theorem RangeEmptied.ofNextRelIdx {s₂ : RxTid} {v : ℕ}
    (h : RangeEmptied { s with nextRelIdx := v } s₂ c range) : RangeEmptied s s₂ c range :=
  { h with }

/-- **Release.**  It empties its range, and delivers the range's MSDUs in order if the first slot
is filled, and nothing if it is a hole. -/
theorem release_spec (hs : Holds s c)
    (hfuel : ((ringRange (s.winSzMask + 1) idxStart idxEnd).flatMap c).length ≤ fuel) :
    ∃ s', olRxReorderRelease seqNum fuel s idxStart idxEnd = some s' ∧
      RangeEmptied s s' c (ringRange (s.winSzMask + 1) idxStart idxEnd) ∧
      s'.delivered = s.delivered ++ callsFor (if c (idxStart % (s.winSzMask + 1)) = [] then []
        else (ringRange (s.winSzMask + 1) idxStart idxEnd).flatMap c) ∧
      s'.freed = s.freed := by
  obtain ⟨k, hk⟩ := hs.pow
  obtain ⟨hd, hr⟩ := ringRange_window s idxStart idxEnd
  have hs₁ := hs.setNextRelIdx (idxEnd % 2 ^ 16)
  have hlt : idxStart % (s.winSzMask + 1) < s.winSzMask + 1 := mod_lt _ (succ_pos _)
  obtain ⟨elem, he, hce⟩ := hs₁.exists_elem hlt
  obtain ⟨d, -, hrange, -⟩ := ringRange_eq_cons (s.winSzMask + 1) idxStart idxEnd (succ_pos _)
  obtain ⟨⟨s₂, tail₂⟩, hfold, h⟩ := gather_release elem.head hs₁ hd hr
  -- the code takes the first slot outside the loop; it is one more iteration
  have hfirst : reorderReleaseSlot elem.head ({ s with nextRelIdx := idxEnd % 2 ^ 16 }, none)
      (idxStart % (s.winSzMask + 1)) =
        some (({ s with nextRelIdx := idxEnd % 2 ^ 16 } : RxTid).setSlot
          (idxStart % (s.winSzMask + 1)) emptyElem, elem.tail) := by
    simp only [reorderReleaseSlot, he, bind_eq_bind, bind_some]
    split
    · rfl
    · next hnone =>
      rw [hce.tail_none_iff.2 (hce.eq_nil_iff.1 (by simpa using hnone))]
      rfl
  have hloop := bind_maskLoop_eq hk (reorderReleaseSlot elem.head)
    ({ s with nextRelIdx := idxEnd % 2 ^ 16 }, none) idxStart idxEnd
  rw [hfirst, bind_some, hfold] at hloop
  have hrel : olRxReorderRelease seqNum fuel s idxStart idxEnd =
      match elem.head with
      | some head => (reorderFinish seqNum fuel s₂ head tail₂).bind fun (s, msdus) =>
        some { s with delivered := s.delivered ++ [msdus] }
      | none => some s₂ := by
    simp only [olRxReorderRelease, and_mask hk, he, bind_eq_bind, bind_some, hloop]
    rfl
  rw [hrel]
  by_cases hc : c (idxStart % (s.winSzMask + 1)) = []
  · rw [hce.eq_nil_iff.2 hc, if_pos hc]
    refine ⟨s₂, rfl, h.toRangeEmptied.ofNextRelIdx, ?_, h.freed⟩
    rw [callsFor, if_pos rfl, append_nil]
    exact h.delivered
  · obtain ⟨head, hhead⟩ : ∃ head, elem.head = some head :=
      ne_none_iff_exists'.1 (hce.eq_nil_iff.not.2 hc)
    have hh : ((ringRange (s.winSzMask + 1) idxStart idxEnd).flatMap c).head? = some head := by
      rw [hrange, flatMap_cons, head?_append_of_ne_nil _ hc, ← hce.head_eq, hhead]
    have hne : (ringRange (s.winSzMask + 1) idxStart idxEnd).flatMap c ≠ [] := by
      intro e
      simp [e] at hh
    obtain ⟨s₃, hfin, hemp, hdel, hfree⟩ := reorderFinish_eq seqNum h hs₁ hd hr hfuel hh
    rw [hhead, if_neg hc]
    refine ⟨{ s₃ with delivered := s₃.delivered ++
        [(ringRange (s.winSzMask + 1) idxStart idxEnd).flatMap c] },
      by simp only [hfin]; rfl, { hemp.ofNextRelIdx with }, ?_, ?_⟩
    · rw [callsFor, if_neg hne, hdel]
    · exact hfree

/-- **Flush.**  It empties its range, and delivers or frees the range's MSDUs in order. -/
theorem flush_spec (hs : Holds s c)
    (hfuel : ((flushRange (s.winSzMask + 1) idxStart idxEnd).flatMap c).length ≤ fuel)
    (action : HttRxFlushAction) :
    ∃ s', olRxReorderFlush seqNum fuel s idxStart idxEnd action = some s' ∧
      RangeEmptied s s' c (flushRange (s.winSzMask + 1) idxStart idxEnd) ∧
      match action with
      | .release => s'.delivered = s.delivered ++
          callsFor ((flushRange (s.winSzMask + 1) idxStart idxEnd).flatMap c) ∧ s'.freed = s.freed
      | .discard => s'.delivered = s.delivered ∧
          s'.freed = s.freed ++ (flushRange (s.winSzMask + 1) idxStart idxEnd).flatMap c := by
  obtain ⟨k, hk⟩ := hs.pow
  obtain ⟨hd, hr⟩ : (flushRange (s.winSzMask + 1) idxStart idxEnd).Nodup ∧
      ∀ j ∈ flushRange (s.winSzMask + 1) idxStart idxEnd, j < s.winSzMask + 1 :=
    ringRange_window s ..
  generalize hrange : flushRange (s.winSzMask + 1) idxStart idxEnd = range at *
  obtain ⟨v, stop, hstop, hv⟩ : ∃ v stop, flushRange (s.winSzMask + 1) idxStart idxEnd =
      ringRange (s.winSzMask + 1) idxStart stop ∧
      (if idxEnd = 0xffff then (({ s with nextRelIdx := 0 } : RxTid), idxStart)
        else ({ s with nextRelIdx := idxEnd % 2 ^ 16 }, idxEnd)) =
        ({ s with nextRelIdx := v }, stop) := by
    by_cases h : idxEnd = 0xffff
    · exact ⟨0, idxStart, by rw [flushRange, if_pos h], if_pos h⟩
    · exact ⟨idxEnd % 2 ^ 16, idxEnd, by rw [flushRange, if_neg h], if_neg h⟩
  rw [hrange] at hstop
  have hs₁ := hs.setNextRelIdx v
  obtain ⟨⟨s₂, head₂, tail₂⟩, hfold, h, hhead⟩ := gather_flush hs₁ hd hr
  have hloop := bind_maskLoop_eq hk reorderFlushSlot ({ s with nextRelIdx := v }, none, none)
    idxStart stop
  rw [← hstop, hfold, bind_eq_some_iff] at hloop
  obtain ⟨st₁, hfirst, hloop⟩ := hloop
  have hflush : olRxReorderFlush seqNum fuel s idxStart idxEnd action =
      match head₂ with
      | some head => (reorderFinish seqNum fuel s₂ head tail₂).bind fun (s, msdus) =>
        match action with
        | .release => some { s with delivered := s.delivered ++ [msdus] }
        | .discard => some { s with freed := s.freed ++ msdus }
      | none => some s₂ := by
    simp only [olRxReorderFlush, hv, and_mask hk, bind_eq_bind, hfirst, bind_some, hloop]
    cases head₂ <;> cases action <;> rfl
  rw [hflush]
  cases head₂ with
  | none =>
    have hnil : range.flatMap c = [] := head?_eq_none_iff.1 hhead.symm
    refine ⟨s₂, rfl, h.toRangeEmptied.ofNextRelIdx, ?_⟩
    cases action with
    | release => exact ⟨by rw [callsFor, if_pos hnil, append_nil, h.delivered], h.freed⟩
    | discard => exact ⟨h.delivered, by rw [hnil, append_nil, h.freed]⟩
  | some head =>
    have hne : range.flatMap c ≠ [] := by
      intro e
      simp [e] at hhead
    obtain ⟨s₃, hfin, hemp, hdel, hfree⟩ := reorderFinish_eq seqNum h hs₁ hd hr hfuel hhead.symm
    simp only [hfin, bind_some]
    cases action with
    | release =>
      refine ⟨{ s₃ with delivered := s₃.delivered ++ [range.flatMap c] }, rfl,
        { hemp.ofNextRelIdx with }, ?_, hfree⟩
      rw [callsFor, if_neg hne, hdel]
    | discard =>
      exact ⟨{ s₃ with freed := s₃.freed ++ range.flatMap c }, rfl,
        { hemp.ofNextRelIdx with }, hdel, by rw [hfree]⟩

end Spec

/-! ### Store -/

section Store
variable {s : RxTid} {c : ℕ → List AdfNbuf} {headMsdu tailMsdu : AdfNbuf} {msdus : List AdfNbuf}

/-- From `s` to `s'` only the slots of the current window and the `next` pointers have changed. -/
structure SameOutside (s s' : RxTid) : Prop where
  winSz : s'.winSz = s.winSz
  winSzMask : s'.winSzMask = s.winSzMask
  array : s'.array = s.array
  arrays : s'.arrays = s.arrays
  arraysFreed : s'.arraysFreed = s.arraysFreed
  elsewhere : ∀ a, a ≠ s.array → s'.elems a = s.elems a
  delivered : s'.delivered = s.delivered
  freed : s'.freed = s.freed

theorem Apart.append {n idx : ℕ} (h : Apart n c) (hnd : msdus.Nodup)
    (hfresh : ∀ i < n, List.Disjoint (c i) msdus) :
    Apart n (update c idx (c idx ++ msdus)) := by
  constructor
  · intro i hi
    by_cases h' : i = idx
    · subst h'
      rw [update_self]
      exact nodup_append'.2 ⟨h.nodup i hi, hnd, hfresh i hi⟩
    · rw [update_of_ne h']
      exact h.nodup i hi
  · intro i hi j hj hij
    by_cases hi' : i = idx
    · subst hi'
      rw [update_self, update_of_ne hij.symm]
      exact disjoint_append_left.2 ⟨h.disjoint i hi j hj hij, fun x hx hx' => hfresh j hj hx' hx⟩
    · rw [update_of_ne hi']
      by_cases hj' : j = idx
      · subst hj'
        rw [update_self]
        exact disjoint_append_right.2 ⟨h.disjoint i hi j hj hij, hfresh i hi⟩
      · rw [update_of_ne hj']
        exact h.disjoint i hi j hj hij

/-- **Store.**  The new MSDUs come behind those the slot already holds. -/
theorem store_spec (idx : ℕ) (hs : Holds s c)
    (hm : Chunk s.heap (some headMsdu) (some tailMsdu) msdus) (hnd : msdus.Nodup)
    (hfresh : ∀ i < s.winSzMask + 1, List.Disjoint (c i) msdus) :
    ∃ s', olRxReorderStore s idx headMsdu tailMsdu = some s' ∧ SameOutside s s' ∧
      Holds s' (update c (idx % (s.winSzMask + 1)) (c (idx % (s.winSzMask + 1)) ++ msdus)) := by
  obtain ⟨k, hk⟩ := hs.pow
  have hi : idx % (s.winSzMask + 1) < s.winSzMask + 1 := mod_lt _ (succ_pos _)
  generalize hidx : idx % (s.winSzMask + 1) = i at hi ⊢
  obtain ⟨elem, he, hce⟩ := hs.exists_elem hi
  have hlt : i < s.slots.length := hs.length_eq ▸ hi
  have hmne : msdus ≠ [] := by
    rintro rfl
    cases hm.head_eq
  -- the slot as it is left, over the pointers as they are left
  obtain ⟨heap, elem', hst, hchunk, hheap⟩ : ∃ heap elem',
      olRxReorderStore s idx headMsdu tailMsdu = some { s.setSlot i elem' with heap := heap } ∧
      Chunk heap elem'.head elem'.tail (c i ++ msdus) ∧
      ∀ x, x ∉ c i → heap x = s.heap x := by
    cases hhead : elem.head with
    | none =>
      have hci : c i = [] := hce.eq_nil_iff.1 hhead
      refine ⟨s.heap, ⟨some headMsdu, some tailMsdu⟩, ?_, by rw [hci]; exact hm, fun _ _ => rfl⟩
      simp only [olRxReorderStore, and_mask hk, hidx, he, hhead, bind_eq_bind, bind_some]
      rfl
    | some head =>
      have hci : c i ≠ [] := hce.eq_nil_iff.not.1 (by simp [hhead])
      obtain ⟨t, ht⟩ := ne_none_iff_exists'.1 (hce.tail_none_iff.not.2 hci)
      have htm : t ∈ c i := mem_of_mem_getLast? (hce.tail_eq.symm.trans ht)
      refine ⟨adfNbufSetNext s.heap t (some headMsdu), ⟨elem.head, some tailMsdu⟩, ?_, ?_, ?_⟩
      · simp only [olRxReorderStore, and_mask hk, hidx, he, hhead, ht, bind_eq_bind, bind_some]
        rfl
      · rw [ht] at hce
        exact hce.join hm (nodup_append'.2 ⟨hs.apart.nodup i hi, hnd, hfresh i hi⟩) hmne
      · intro x hx
        refine adfNbufSetNext_of_ne ?_
        rintro rfl
        exact hx htm
  refine ⟨_, hst, ⟨rfl, rfl, rfl, rfl, rfl, fun a ha => elems_setSlot_of_ne ha, rfl, rfl⟩, ?_⟩
  refine ⟨?_, hs.pow, ?_, hs.apart.append hnd hfresh⟩
  · change (s.setSlot i elem').slots.length = _
    rw [slots_setSlot, length_set]
    exact hs.length_eq
  · intro j e hj
    change (s.setSlot i elem').slots[j]? = some e at hj
    by_cases hij : i = j
    · subst hij
      rw [getElem?_setSlot_self hlt] at hj
      obtain rfl := some.inj hj
      rw [update_self]
      exact hchunk
    · rw [getElem?_setSlot_of_ne hij] at hj
      have hjlt : j < s.winSzMask + 1 := by
        rw [← hs.length_eq]
        exact (List.getElem?_eq_some_iff.1 hj).1
      rw [update_of_ne (Ne.symm hij)]
      exact (hs.chunk j e hj).congr fun x hx =>
        hheap x fun hxi => hs.apart.disjoint i hi j hjlt hij hxi hx

end Store

/-! ### The law of a range -/

section Law
variable (seqNum : AdfNbuf → ℕ) (fuel : ℕ) (s : RxTid) (c : ℕ → List AdfNbuf) (idxStart idxEnd : ℕ)

/-- The release hands over exactly the MSDUs of its range, in order, and empties exactly its slots. -/
def ReleaseLaw : Prop :=
  ∃ s', olRxReorderRelease seqNum fuel s idxStart idxEnd = some s' ∧
    RangeEmptied s s' c (ringRange (s.winSzMask + 1) idxStart idxEnd) ∧
    Holds s' (clearRange c (ringRange (s.winSzMask + 1) idxStart idxEnd)) ∧
    s'.delivered = s.delivered ++
      callsFor ((ringRange (s.winSzMask + 1) idxStart idxEnd).flatMap c) ∧
    s'.freed = s.freed

/-- The flush does the same for its range, delivering or freeing. -/
def FlushLaw (action : HttRxFlushAction) : Prop :=
  ∃ s', olRxReorderFlush seqNum fuel s idxStart idxEnd action = some s' ∧
    RangeEmptied s s' c (flushRange (s.winSzMask + 1) idxStart idxEnd) ∧
    Holds s' (clearRange c (flushRange (s.winSzMask + 1) idxStart idxEnd)) ∧
    match action with
    | .release => s'.delivered = s.delivered ++
        callsFor ((flushRange (s.winSzMask + 1) idxStart idxEnd).flatMap c) ∧ s'.freed = s.freed
    | .discard => s'.delivered = s.delivered ∧
        s'.freed = s.freed ++ (flushRange (s.winSzMask + 1) idxStart idxEnd).flatMap c

variable {seqNum fuel s c idxStart idxEnd}

theorem length_flatMap_range_le (hs : Holds s c) :
    ((ringRange (s.winSzMask + 1) idxStart idxEnd).flatMap c).length ≤
      ((range (s.winSzMask + 1)).flatMap c).length := by
  obtain ⟨hd, hr⟩ := ringRange_window s idxStart idxEnd
  refine ((hs.apart.flatMap_nodup hd hr).subperm fun x hx => ?_).length_le
  obtain ⟨i, hi, hx⟩ := mem_flatMap.1 hx
  exact mem_flatMap.2 ⟨i, mem_range.2 (hr i hi), hx⟩

theorem flushLaw (hs : Holds s c) (hfuel : ((range (s.winSzMask + 1)).flatMap c).length ≤ fuel)
    (action : HttRxFlushAction) : FlushLaw seqNum fuel s c idxStart idxEnd action := by
  obtain ⟨s', hs', hemp, hout⟩ := flush_spec hs ((length_flatMap_range_le hs).trans hfuel) action
  exact ⟨s', hs', hemp, hemp.holds hs (ringRange_window s ..).2, hout⟩

theorem releaseLaw_iff (hs : Holds s c)
    (hfuel : ((range (s.winSzMask + 1)).flatMap c).length ≤ fuel) :
    ReleaseLaw seqNum fuel s c idxStart idxEnd ↔ c (idxStart % (s.winSzMask + 1)) ≠ [] ∨
        ∀ i ∈ ringRange (s.winSzMask + 1) idxStart idxEnd, c i = [] := by
  obtain ⟨s', hs', hemp, hdel, hfree⟩ :=
    release_spec hs ((length_flatMap_range_le hs).trans hfuel)
  constructor
  · rintro ⟨s₁, hs₁, -, -, hdel₁, -⟩
    obtain rfl := some.inj (hs'.symm.trans hs₁)
    by_contra hc
    obtain ⟨hfirst, hrange⟩ := not_or.1 hc
    rw [hdel, if_pos (not_not.1 hfirst)] at hdel₁
    have hnil := append_cancel_left hdel₁
    rw [callsFor, if_pos rfl, callsFor, eq_comm] at hnil
    split at hnil
    · next hempty => exact hrange fun i hi => flatMap_eq_nil_iff.1 hempty i hi
    · exact absurd hnil (cons_ne_nil _ _)
  · intro hc
    refine ⟨s', hs', hemp, hemp.holds hs (ringRange_window s ..).2, ?_, hfree⟩
    rw [hdel]
    split
    · next hfirst =>
      have hall := hc.resolve_left (not_not.2 hfirst)
      rw [flatMap_eq_nil_iff.2 hall]
    · rfl

/-- **The reorder window delivers what it stores.**  Release and flush hand over exactly the MSDUs
of their ranges if and only if the first slot of the range is filled or all of it is empty. -/
theorem reorder_law_iff (hs : Holds s c)
    (hfuel : ((List.range (s.winSzMask + 1)).flatMap c).length ≤ fuel) :
    (ReleaseLaw seqNum fuel s c idxStart idxEnd ∧
        ∀ action, FlushLaw seqNum fuel s c idxStart idxEnd action) ↔
      c (idxStart % (s.winSzMask + 1)) ≠ [] ∨
        ∀ i ∈ ringRange (s.winSzMask + 1) idxStart idxEnd, c i = [] := by
  rw [← releaseLaw_iff hs hfuel, and_iff_left]
  exact flushLaw hs hfuel

end Law

/-- A window of four slots with MSDUs 5 and 6 in slot 1 and MSDU 7 in slot 3. -/
def holeWindow : RxTid where
  winSz := 4
  winSzMask := 3
  numMpdus := 0
  array := .allocated 0
  elems
    | .base => [emptyElem]
    | .allocated _ => [emptyElem, ⟨some 5, some 6⟩, emptyElem, ⟨some 7, some 7⟩]
  nextRelIdx := 0
  lastSeq := ieee80211SeqMax
  heap := fun x => if x = 5 then some 6 else none
  delivered := []
  freed := []
  arrays := 1
  arraysFreed := []

/-- What `holeWindow` holds. -/
def holeContents : ℕ → List AdfNbuf
  | 1 => [5, 6]
  | 3 => [7]
  | _ => []

theorem holeWindow_holds : Holds holeWindow holeContents where
  length_eq := rfl
  pow := ⟨2, rfl⟩
  chunk i elem he := by
    obtain ⟨hi, rfl⟩ := List.getElem?_eq_some_iff.1 he
    have hi : i < 4 := hi
    interval_cases i
    · exact .nil
    · exact ⟨rfl, rfl, by decide⟩
    · exact .nil
    · exact ⟨rfl, rfl, by decide⟩
  apart := by
    refine ⟨by decide, fun i hi j hj hij => ?_⟩
    have hi : i < 4 := hi
    have hj : j < 4 := hj
    interval_cases i <;> interval_cases j <;> simp_all [holeContents]

theorem reorder_law_filled : ReleaseLaw (fun _ => 0) 3 holeWindow holeContents 3 3 ∧
    ∀ action, FlushLaw (fun _ => 0) 3 holeWindow holeContents 3 3 action :=
  (reorder_law_iff holeWindow_holds (by decide)).2 (.inl (by decide))

/-- Released from the hole in slot 0 on, MSDUs 5 and 6 leave the window and are not delivered. -/
theorem release_hole_loses : ¬ ReleaseLaw (fun _ => 0) 3 holeWindow holeContents 0 2 := by
  rintro ⟨s', hs', -, -, hdel, -⟩
  have hrun : (olRxReorderRelease (fun _ => 0) 3 holeWindow 0 2).map (·.delivered) = some [] := by
    decide
  rw [hs', map_some, hdel] at hrun
  exact absurd hrun (by decide)

end Qcacld.Txrx

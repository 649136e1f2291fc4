import Qcacld.Support.Ring
import Qcacld.Support.Runs

/-!
# Hif — CopyEngine

The rings of a copy engine.  Software posts descriptors at `write_index` and takes them back at `sw_index`: when the hardware is done with them, or by cancelling a send or revoking a receive buffer.  On the source ring it knows how far the hardware is from a cached copy of the hardware's index, on the destination ring from the length word of a descriptor.

`RingRight` is what is to hold of a ring.  `ce_rings_iff` says which calls keep it: neither cancelling nor revoking brings the cached index or the length words up to date, so that a later call can take a descriptor for completed that the hardware has not come to.  `reach_ok_of_tidy` says that nothing of this happens where nothing is revoked and only what the cached index is ahead of is cancelled.
-/

namespace Qcacld.Hif
open Qcacld.Support Function List Nat

/-! ### Rings -/

/-- How a descriptor is taken back: `passed` is the number of descriptors the hardware is through with then. -/
structure Back where
  context : Nat
  completed : Bool
  passed : Nat
deriving DecidableEq

/-- `CE_ring_state` with descriptors of type `δ`, and the hardware's registers.  The last five fields are its history: the index it has been set up with, the contexts of the descriptors that have been posted, how many of them the hardware has been told of and how many it is through with, and what has been taken back. -/
structure CeRingState (δ : Type) where
  nentries : Nat
  nentriesMask : Nat
  swIndex : Nat
  writeIndex : Nat
  hwIndex : Nat
  base : Nat → δ
  shadowBase : Nat → δ
  perTransferContext : Nat → Nat
  writeIdxReg : Nat
  origin : Nat
  posted : List Nat
  announced : Nat
  passed : Nat
  returned : List Back

open CeRingState

def CeRingState.readIdxReg {δ : Type} (r : CeRingState δ) : Nat := (r.origin + r.passed) % r.nentries

def ceRingDelta (nentriesMask fromidx toidx : Nat) : Nat :=
  (toidx + 2 ^ 32 - fromidx) % 2 ^ 32 &&& nentriesMask

def ceRingIdxIncr (nentriesMask idx : Nat) : Nat := (idx + 1) % 2 ^ 32 &&& nentriesMask

/-- How many descriptors can be posted: `CE_RING_DELTA(nentries_mask, write_index, sw_index-1)` -/
def CeRingState.room {δ : Type} (r : CeRingState δ) : Nat :=
  ceRingDelta r.nentriesMask r.writeIndex ((r.swIndex + 2 ^ 32 - 1) % 2 ^ 32)

structure CeSrcDesc where
  srcPtr : Nat
  metaData : BitVec 14
  byteSwap : Bool
  gather : Bool
  nbytes : BitVec 16

structure CeDestDesc where
  destPtr : Nat
  metaData : BitVec 14
  byteSwap : Bool
  nbytes : BitVec 16

def aOk : Int := 0
def aError : Int := -1
def enomem : Int := 12

def ceSendFlagSwapDisable : UInt32 := 1

def ceSendFlagGather : UInt32 := 0x00010000

def ceRecvFlagSwapped : UInt32 := 1

def ceSendlistItemCtxt : Nat := 0xcecebeef

def ceSendlistItemsMax : Nat := 12

/-- Whether the target wakes up at `A_TARGET_ACCESS_BEGIN_RET`, and whether `A_TARGET_ACCESS_END_RET` succeeds. -/
structure Access where
  wakes : Bool
  ends : Bool

/-- The status of a call that has done its work. -/
def Access.status (a : Access) (status : Int) : Int := if a.ends then status else -1

/-- `CE_sendlist_item`, and how the access goes when it is sent. -/
structure CeSendlistItem where
  data : Nat
  nbytes : UInt32
  flags : UInt32
  access : Access

/-! ### Posting -/

section Posting
variable (r : CeRingState CeSrcDesc) (swapData : Bool)

/-- The descriptor that `CE_send_nolock` writes.  `swapData` is `CE_ATTR_BYTE_SWAP_DATA`. -/
def ceSrcDesc (buffer : Nat) (nbytes transferId flags : UInt32) : CeSrcDesc where
  srcPtr := buffer
  metaData := transferId.toBitVec.setWidth 14
  byteSwap := swapData && (flags &&& ceSendFlagSwapDisable) = 0
  gather := (flags &&& ceSendFlagGather) ≠ 0
  nbytes := nbytes.toBitVec.setWidth 16

/-- The ring after a descriptor has been written at `write_index`.  Unless it is gathered with the next one the hardware is told. -/
def postSrc (perTransferContext : Nat) (desc : CeSrcDesc) : CeRingState CeSrcDesc :=
  let writeIndex := ceRingIdxIncr r.nentriesMask r.writeIndex
  { r with
    shadowBase := update r.shadowBase r.writeIndex desc
    base := update r.base r.writeIndex desc
    perTransferContext := update r.perTransferContext r.writeIndex perTransferContext
    writeIdxReg := if desc.gather then r.writeIdxReg else writeIndex
    writeIndex
    posted := r.posted ++ [perTransferContext]
    announced := if desc.gather then r.announced else r.posted.length + 1 }

def ceSendNolock (perTransferContext buffer : Nat) (nbytes transferId flags : UInt32)
    (access : Access) : Int × CeRingState CeSrcDesc :=
  if !access.wakes then (-1, r)
  else if r.room ≤ 0 then (access.status aError, r)
  else (access.status aOk, postSrc r perTransferContext
    (ceSrcDesc swapData buffer nbytes transferId flags))

end Posting

/-- The loop of `CE_sendlist_send`: all items but the last are gathered, and have no context of their own. -/
def ceSendlistLoop (swapData : Bool) (perTransferContext : Nat) (transferId : UInt32)
    (r : CeRingState CeSrcDesc) : List CeSendlistItem → Int × CeRingState CeSrcDesc
  | [] => (-enomem, r)
  | [item] => ceSendNolock r swapData perTransferContext item.data item.nbytes transferId
      item.flags item.access
  | item :: items => ceSendlistLoop swapData perTransferContext transferId
      (ceSendNolock r swapData ceSendlistItemCtxt item.data item.nbytes transferId
        (item.flags ||| ceSendFlagGather) item.access).2 items

def ceSendlistSend (r : CeRingState CeSrcDesc) (swapData : Bool) (perTransferContext : Nat)
    (items : List CeSendlistItem) (transferId : UInt32) : Int × CeRingState CeSrcDesc :=
  if items.length ≤ r.room then ceSendlistLoop swapData perTransferContext transferId r items
  else (-enomem, r)

def ceRecvBufEnqueue (r : CeRingState CeDestDesc) (perRecvContext buffer : Nat) (access : Access) :
    Int × CeRingState CeDestDesc :=
  if !access.wakes then (-1, r)
  else if 0 < r.room then
    let writeIndex := ceRingIdxIncr r.nentriesMask r.writeIndex
    (access.status aOk, { r with
      base := update r.base r.writeIndex
        { r.base r.writeIndex with
          destPtr := buffer
          nbytes := 0 }
      perTransferContext := update r.perTransferContext r.writeIndex perRecvContext
      writeIdxReg := writeIndex
      writeIndex
      posted := r.posted ++ [perRecvContext]
      announced := r.posted.length + 1 })
  else (access.status aError, r)

/-! ### Taking back -/

/-- The context at `sw_index` is handed over and the index goes on. -/
def CeRingState.takeBack {δ : Type} (r : CeRingState δ) (completed : Bool) : CeRingState δ :=
  { r with
    perTransferContext := update r.perTransferContext r.swIndex 0
    swIndex := ceRingIdxIncr r.nentriesMask r.swIndex
    returned := r.returned ++ [⟨r.perTransferContext r.swIndex, completed, r.passed⟩] }

/-- What `CE_completed_send_next` gives its caller. -/
structure SendDone where
  context : Nat
  buffer : Nat
  nbytes : BitVec 16
  transferId : BitVec 14
  swIdx : Nat
  hwIdx : Nat

/-- The cached index is not `sw_index`: this is taken for progress. -/
def completeSrc (r : CeRingState CeSrcDesc) : Option SendDone × CeRingState CeSrcDesc :=
  if r.hwIndex ≠ r.swIndex ∧ r.hwIndex ≠ 0xffffffff then
    let desc := r.shadowBase r.swIndex
    (some ⟨r.perTransferContext r.swIndex, desc.srcPtr, desc.nbytes, desc.metaData, r.swIndex,
      r.hwIndex⟩, r.takeBack true)
  else (none, r)

/-- `CE_completed_send_next_nolock`, when the hardware's read index reads as `readIndex`.  It is read when the cached index is `sw_index`. -/
def ceCompletedSendNextNolock (r : CeRingState CeSrcDesc) (readIndex : Nat) (access : Access) :
    Option SendDone × CeRingState CeSrcDesc :=
  if r.hwIndex = r.swIndex then
    if !access.wakes then (none, r)
    else
      let r := { r with hwIndex := readIndex }
      if !access.ends || r.nentries ≤ r.hwIndex then (none, r) else completeSrc r
  else completeSrc r

def ceCancelSendNext (r : CeRingState CeSrcDesc) : Option SendDone × CeRingState CeSrcDesc :=
  if r.writeIndex ≠ r.swIndex then
    let desc := r.base r.swIndex
    (some ⟨r.perTransferContext r.swIndex, desc.srcPtr, desc.nbytes, desc.metaData, r.swIndex,
      r.hwIndex⟩, r.takeBack false)
  else (none, r)

/-- What `CE_completed_recv_next` gives its caller. -/
structure RecvDone where
  context : Nat
  buffer : Nat
  nbytes : BitVec 16
  transferId : BitVec 14
  flags : UInt32

/-- The length of the descriptor at `sw_index` is set to 0. -/
def clearLength (r : CeRingState CeDestDesc) : CeRingState CeDestDesc :=
  { r with base := update r.base r.swIndex { r.base r.swIndex with nbytes := 0 } }

def ceCompletedRecvNextNolock (r : CeRingState CeDestDesc) :
    Option RecvDone × CeRingState CeDestDesc :=
  let desc := r.base r.swIndex
  if desc.nbytes = 0 then (none, r)
  else
    (some ⟨r.perTransferContext r.swIndex, desc.destPtr, desc.nbytes, desc.metaData,
      if desc.byteSwap then ceRecvFlagSwapped else 0⟩, (clearLength r).takeBack true)

/-- `CE_revoke_recv_next`, with the context and the buffer it gives its caller -/
def ceRevokeRecvNext (r : CeRingState CeDestDesc) : Option (Nat × Nat) × CeRingState CeDestDesc :=
  if r.writeIndex ≠ r.swIndex then
    (some (r.perTransferContext r.swIndex, (r.base r.swIndex).destPtr), r.takeBack false)
  else (none, r)

/-! ### The hardware -/

/-- The hardware is through with `n` more descriptors. -/
def CeRingState.pass {δ : Type} (r : CeRingState δ) (n : Nat) : CeRingState δ :=
  { r with passed := r.passed + n }

/-- The hardware has received into the next descriptor. -/
def hwReceive (r : CeRingState CeDestDesc) (nbytes : BitVec 16) (metaData : BitVec 14)
    (byteSwap : Bool) : CeRingState CeDestDesc :=
  let desc := { r.base r.readIdxReg with
    nbytes
    metaData
    byteSwap }
  { r with base := update r.base r.readIdxReg desc }.pass 1

/-! ### The law -/

/-- **The law.**  What has been taken back is what has been posted first, in the order of posting; at most `nentries - 1` descriptors are on the ring; and what was taken for completed the hardware was through with. -/
structure RingRight {δ : Type} (r : CeRingState δ) : Prop where
  order : r.returned.map Back.context <+: r.posted
  room : r.posted.length ≤ r.returned.length + (r.nentries - 1)
  passed : ∀ i (b : Back), r.returned[i]? = some b → b.completed = true → i < b.passed

/-- A copy engine.  `swapData` is its `CE_ATTR_BYTE_SWAP_DATA`. -/
structure CopyEngine where
  src : CeRingState CeSrcDesc
  dest : CeRingState CeDestDesc
  swapData : Bool

/-- The calls, and what the hardware does: it is through with `n` more descriptors of the source ring, or has received into one of the destination ring. -/
inductive CeEvent where
  | send (perTransferContext buffer : Nat) (nbytes transferId flags : UInt32) (access : Access)
  | sendlistSend (perTransferContext : Nat) (items : List CeSendlistItem) (transferId : UInt32)
  | completedSendNext (access : Access)
  | cancelSendNext
  | recvBufEnqueue (perRecvContext buffer : Nat) (access : Access)
  | completedRecvNext
  | revokeRecvNext
  | hwSend (n : Nat)
  | hwReceive (nbytes : BitVec 16) (metaData : BitVec 14) (byteSwap : Bool)

/-- The hardware goes on over descriptors only that it has been told of. -/
def ceStep (e : CopyEngine) : CeEvent → Option CopyEngine
  | .send ctx buffer nbytes transferId flags access =>
    some { e with src := (ceSendNolock e.src e.swapData ctx buffer nbytes transferId flags access).2 }
  | .sendlistSend ctx items transferId => do
    guard (items ≠ [] ∧ items.length ≤ ceSendlistItemsMax)
    return { e with src := (ceSendlistSend e.src e.swapData ctx items transferId).2 }
  | .completedSendNext access =>
    some { e with src := (ceCompletedSendNextNolock e.src e.src.readIdxReg access).2 }
  | .cancelSendNext => some { e with src := (ceCancelSendNext e.src).2 }
  | .recvBufEnqueue ctx buffer access =>
    some { e with dest := (ceRecvBufEnqueue e.dest ctx buffer access).2 }
  | .completedRecvNext => some { e with dest := (ceCompletedRecvNextNolock e.dest).2 }
  | .revokeRecvNext => some { e with dest := (ceRevokeRecvNext e.dest).2 }
  | .hwSend n => do
    guard (e.src.passed + n ≤ e.src.announced)
    return { e with src := e.src.pass n }
  | .hwReceive nbytes metaData byteSwap => do
    guard (e.dest.passed < e.dest.announced)
    return { e with dest := hwReceive e.dest nbytes metaData byteSwap }

/-- A ring as `CE_init` sets it up, at the index where the hardware is. -/
structure RingStart {δ : Type} (r : CeRingState δ) : Prop where
  size : ∃ k ≤ 31, r.nentries = 2 ^ k
  mask : r.nentriesMask = r.nentries - 1
  origin_lt : r.origin < r.nentries
  sw : r.swIndex = r.origin
  write : r.writeIndex = r.origin
  posted : r.posted = []
  announced : r.announced = 0
  passed : r.passed = 0
  returned : r.returned = []

def ceMachine : Machine CopyEngine CeEvent where
  init e := RingStart e.src ∧ e.src.hwIndex = e.src.origin ∧
    RingStart e.dest ∧ ∀ i, (e.dest.base i).nbytes = 0
  step := ceStep

def sendlistContexts (perTransferContext : Nat) (items : List CeSendlistItem) : List Nat :=
  List.replicate (items.length - 1) ceSendlistItemCtxt ++ [perTransferContext]

/-- What a call is to do: it keeps the law, and a list is posted as a whole or not at all. -/
def CeStepRight (e : CopyEngine) (ev : CeEvent) (e' : CopyEngine) : Prop :=
  RingRight e'.src ∧ RingRight e'.dest ∧
    match ev with
    | .sendlistSend ctx items _ => e'.src.posted = e.src.posted ∨
        e'.src.posted = e.src.posted ++ sendlistContexts ctx items
    | _ => True

/-- **The condition.**  A completed send is asked for while the hardware is through with the descriptor at
`sw_index`, or while `sw_index` is the cached index and, if it can be read, the hardware's too.  A received
buffer is asked for while the hardware is through with the descriptor, or while no length has been left in
it.  While a list is posted that there is room for the target wakes up each time, or never. -/
def CeStepOk (e : CopyEngine) : CeEvent → Prop
  | .completedSendNext access => e.src.returned.length < e.src.passed ∨
      e.src.hwIndex = e.src.swIndex ∧
        ((access.wakes && access.ends) = true → e.src.readIdxReg = e.src.swIndex)
  | .completedRecvNext => e.dest.returned.length < e.dest.passed ∨
      (e.dest.base e.dest.swIndex).nbytes = 0
  | .sendlistSend _ items _ => e.src.room < items.length ∨
      (∀ item ∈ items, item.access.wakes = true) ∨ ∀ item ∈ items, item.access.wakes = false
  | _ => True

/-! ### Posting and taking back -/

/-- The indices and the contexts of a ring with `len` descriptors, by its parts. -/
structure RingOk (n mask sw write : Nat) (ctx : Nat → Nat) (posted : List Nat)
    (announced passed : Nat) (returned : List Back) (origin len : Nat) : Prop where
  size : ∃ k ≤ 31, n = 2 ^ k
  mask_eq : mask = n - 1
  spans : Spans n sw write len
  live : returned.map Back.context ++ (ringIdxs n sw len).map ctx = posted
  sw_eq : sw = (origin + returned.length) % n
  told : passed ≤ announced
  announced_le : announced ≤ posted.length

section
variable {n mask sw write : Nat} {ctx : Nat → Nat} {posted : List Nat} {announced passed : Nat}
  {returned : List Back} {origin len : Nat}

theorem RingOk.length (h : RingOk n mask sw write ctx posted announced passed returned origin len) :
    posted.length = returned.length + len := by
  simpa [ringIdxs] using (congrArg List.length h.live).symm

theorem RingOk.incr (h : RingOk n mask sw write ctx posted announced passed returned origin len)
    (i : Nat) : ceRingIdxIncr mask i = (i + 1) % n := by
  obtain ⟨k, hk, hn⟩ := h.size
  rw [ceRingIdxIncr, h.mask_eq]
  exact masked_succ hn (hk.trans (by decide)) i

theorem RingOk.delta (h : RingOk n mask sw write ctx posted announced passed returned origin len) :
    ceRingDelta mask write ((sw + 2 ^ 32 - 1) % 2 ^ 32) = n - 1 - len := by
  obtain ⟨k, hk, hn⟩ := h.size
  rw [ceRingDelta, h.mask_eq]
  exact h.spans.masked_room hn (hk.trans (by decide))

theorem RingOk.post (h : RingOk n mask sw write ctx posted announced passed returned origin len)
    (hroom : 0 < n - 1 - len) (c : Nat) {a : Nat} (hp : passed ≤ a) (ha : a ≤ posted.length + 1) :
    RingOk n mask sw (ceRingIdxIncr mask write) (update ctx write c) (posted ++ [c]) a
      passed returned origin (len + 1) where
  size := h.size
  mask_eq := h.mask_eq
  spans := by
    rw [h.incr]
    exact h.spans.push (by omega)
  live := by rw [h.spans.map_push, ← append_assoc, h.live]
  sw_eq := h.sw_eq
  told := hp
  announced_le := by simpa using ha

theorem RingOk.takeBack
    (h : RingOk n mask sw write ctx posted announced passed returned origin (len + 1))
    (completed : Bool) (p x : Nat) :
    RingOk n mask (ceRingIdxIncr mask sw) write (update ctx sw x) posted announced passed
      (returned ++ [⟨ctx sw, completed, p⟩]) origin len where
  size := h.size
  mask_eq := h.mask_eq
  spans := by
    rw [h.incr]
    exact h.spans.pop
  live := by
    have hnodup := ringIdxs_nodup (i := sw) h.spans.room.le
    have hlive := h.live
    rw [ringIdxs_succ h.spans.consumer_lt] at hnodup hlive
    have hsame : (ringIdxs n ((sw + 1) % n) len).map (update ctx sw x)
        = (ringIdxs n ((sw + 1) % n) len).map ctx := by
      refine map_congr_left fun j hj => update_of_ne ?_ _ _
      rintro rfl
      exact (nodup_cons.1 hnodup).1 hj
    rw [h.incr, hsame, ← hlive]
    simp
  sw_eq := by
    rw [h.incr, h.sw_eq, mod_add_mod]
    simp [add_assoc]
  told := h.told
  announced_le := h.announced_le

end

/-! ### One ring -/

/-- **The invariant of a ring.** -/
structure RingInv {δ : Type} (r : CeRingState δ) : Prop where
  ok : ∃ len, RingOk r.nentries r.nentriesMask r.swIndex r.writeIndex r.perTransferContext
    r.posted r.announced r.passed r.returned r.origin len
  back : ∀ i (b : Back), r.returned[i]? = some b → b.completed = true → i < b.passed

section
variable {δ : Type} {r : CeRingState δ}

theorem RingInv.right (h : RingInv r) : RingRight r := by
  obtain ⟨len, hk⟩ := h.ok
  refine ⟨⟨_, hk.live⟩, ?_, h.back⟩
  have hlen := hk.length
  have hroom := hk.spans.room
  omega

theorem ringInv_start (h : RingStart r) : RingInv r := by
  refine ⟨⟨0, h.size, h.mask, ?_, ?_, ?_, ?_, ?_⟩, ?_⟩
  · rw [h.sw, h.write]
    exact spans_zero h.origin_lt
  · simp [h.posted, h.returned]
  · simp [h.sw, h.returned, mod_eq_of_lt h.origin_lt]
  · simp [h.passed]
  · simp [h.announced]
  · simp [h.returned]

theorem RingInv.readIdxReg_lt (h : RingInv r) : r.readIdxReg < r.nentries := by
  obtain ⟨len, hk⟩ := h.ok
  exact mod_lt _ (zero_lt_of_lt hk.spans.room)

/-- There is something to take back when the hardware is through with more than has been. -/
theorem RingInv.takeBack (h : RingInv r)
    (hne : r.writeIndex ≠ r.swIndex ∨ r.returned.length < r.passed) {completed : Bool}
    (hc : completed = true → r.returned.length < r.passed) : RingInv (r.takeBack completed) := by
  obtain ⟨len, hk⟩ := h.ok
  have hpos : len ≠ 0 := by
    rintro rfl
    obtain hne | hlt := hne
    · exact hne (hk.spans.eq_iff.2 rfl)
    · have hlen := hk.length
      have ha := hk.told.trans hk.announced_le
      omega
  obtain ⟨len, rfl⟩ := exists_eq_succ_of_ne_zero hpos
  refine ⟨⟨len, hk.takeBack completed r.passed 0⟩, fun i b hb hcb => ?_⟩
  obtain hlt | hge := lt_or_ge i r.returned.length
  · exact h.back i b ((getElem?_append_left hlt).symm.trans hb) hcb
  · have hb' : [(⟨r.perTransferContext r.swIndex, completed, r.passed⟩ : Back)][i
        - r.returned.length]? = some b := (getElem?_append_right hge).symm.trans hb
    obtain ⟨hi, rfl⟩ : i - r.returned.length = 0 ∧
        (⟨r.perTransferContext r.swIndex, completed, r.passed⟩ : Back) = b := by
      simpa [getElem?_singleton] using hb'
    have hlt : r.returned.length < r.passed := hc hcb
    exact Nat.lt_of_le_of_lt (Nat.le_of_sub_eq_zero hi) hlt

theorem not_right_of_early (h : ¬ r.returned.length < r.passed) :
    ¬ RingRight (r.takeBack true) := fun hr =>
  h (hr.passed r.returned.length ⟨r.perTransferContext r.swIndex, true, r.passed⟩
    (by simp [takeBack]) rfl)

/-- Taking a descriptor for completed is right exactly when the hardware is through with it. -/
theorem RingInv.takeBack_iff (h : RingInv r) :
    RingRight (r.takeBack true) ↔ r.returned.length < r.passed :=
  ⟨fun hr => by_contra fun hn => not_right_of_early hn hr,
    fun hlt => (h.takeBack (Or.inr hlt) fun _ => hlt).right⟩

theorem RingInv.pass (h : RingInv r) {n : Nat} (hn : r.passed + n ≤ r.announced) :
    RingInv (r.pass n) := by
  obtain ⟨len, hk⟩ := h.ok
  exact ⟨⟨len, hk.size, hk.mask_eq, hk.spans, hk.live, hk.sw_eq, hn, hk.announced_le⟩, h.back⟩

end

/-! ### The source ring -/

/-- The contexts of the items for which the target wakes up. -/
def postedContexts (ctx : Nat) : List CeSendlistItem → List Nat
  | [] => []
  | [item] => if item.access.wakes then [ctx] else []
  | item :: items =>
    (if item.access.wakes then [ceSendlistItemCtxt] else []) ++ postedContexts ctx items

theorem postedContexts_cons {ctx : Nat} {item : CeSendlistItem} {items : List CeSendlistItem}
    (hne : items ≠ []) : postedContexts ctx (item :: items)
      = (if item.access.wakes then [ceSendlistItemCtxt] else []) ++ postedContexts ctx items := by
  cases items with
  | nil => exact absurd rfl hne
  | cons item' items => rfl

theorem length_postedContexts (ctx : Nat) (items : List CeSendlistItem) :
    (postedContexts ctx items).length = items.countP fun item => item.access.wakes := by
  induction items with
  | nil => rfl
  | cons item items ih =>
    cases items with
    | nil => cases h : item.access.wakes <;> simp [postedContexts, h]
    | cons item' items =>
      rw [postedContexts_cons (cons_ne_nil _ _), length_append, ih, countP_cons,
        countP_cons, countP_cons, add_comm]
      cases h : item.access.wakes <;> simp

theorem postedContexts_all {ctx : Nat} {items : List CeSendlistItem} (hne : items ≠ [])
    (h : ∀ item ∈ items, item.access.wakes = true) :
    postedContexts ctx items = sendlistContexts ctx items := by
  induction items with
  | nil => exact absurd rfl hne
  | cons item items ih =>
    obtain ⟨hw, ht⟩ := forall_mem_cons.1 h
    cases items with
    | nil => simp [postedContexts, sendlistContexts, hw]
    | cons item' items =>
      rw [postedContexts_cons (cons_ne_nil _ _), if_pos hw, ih (cons_ne_nil _ _) ht]
      rfl

/-- A list is posted as a whole or not at all exactly when the target wakes up always or never. -/
theorem postedContexts_iff {ctx : Nat} {items : List CeSendlistItem} (hne : items ≠ [])
    {posted : List Nat} : (posted ++ postedContexts ctx items = posted ∨
        posted ++ postedContexts ctx items = posted ++ sendlistContexts ctx items) ↔
      (∀ item ∈ items, item.access.wakes = true) ∨ ∀ item ∈ items, item.access.wakes = false := by
  have hlen := length_postedContexts ctx items
  have hsend : (sendlistContexts ctx items).length = items.length := by
    have hpos := length_pos_of_ne_nil hne
    simp [sendlistContexts]
    omega
  constructor
  · rintro (hp | hp)
    · refine Or.inr ?_
      have hz : postedContexts ctx items = [] := by simpa using hp
      rw [hz, length_nil] at hlen
      simpa using countP_eq_zero.1 hlen.symm
    · refine Or.inl ?_
      have he := append_cancel_left hp
      rw [he, hsend] at hlen
      exact countP_eq_length.1 hlen.symm
  · rintro (hw | hw)
    · rw [postedContexts_all hne hw]
      exact Or.inr rfl
    · refine Or.inl ?_
      have hz : (items.countP fun item => item.access.wakes) = 0 := by
        simpa [countP_eq_zero] using hw
      rw [eq_nil_of_length_eq_zero (hlen.trans hz), append_nil]

/-- The invariant of the source ring: the cached index is one of the ring. -/
structure SrcInv (r : CeRingState CeSrcDesc) : Prop where
  ring : RingInv r
  hw_lt : r.hwIndex < r.nentries

section
variable {r : CeRingState CeSrcDesc} {swapData : Bool} {ctx buffer : Nat}
  {nbytes transferId flags : UInt32} {access : Access} {desc : CeSrcDesc}
  {items : List CeSendlistItem}

theorem SrcInv.postSrc (h : SrcInv r) (hroom : 0 < r.room) :
    SrcInv (postSrc r ctx desc) ∧ r.room = (Hif.postSrc r ctx desc).room + 1 := by
  obtain ⟨len, hk⟩ := h.ring.ok
  rw [room, hk.delta] at hroom
  have hpost := hk.post hroom ctx (a := if desc.gather then r.announced else r.posted.length + 1)
    (by split; exacts [hk.told, hk.told.trans (hk.announced_le.trans (le_succ _))])
    (by split; exacts [hk.announced_le.trans (le_succ _), le_rfl])
  refine ⟨⟨⟨⟨len + 1, hpost⟩, h.ring.back⟩, h.hw_lt⟩, ?_⟩
  have hr : r.room = r.nentries - 1 - len := hk.delta
  have hr' : (Hif.postSrc r ctx desc).room = r.nentries - 1 - (len + 1) := hpost.delta
  omega

theorem SrcInv.send (h : SrcInv r) :
    SrcInv (ceSendNolock r swapData ctx buffer nbytes transferId flags access).2 := by
  rw [ceSendNolock]
  split
  · exact h
  split
  · exact h
  · next hroom => exact (h.postSrc (not_le.1 hroom)).1

theorem SrcInv.send_room (h : SrcInv r) (hroom : 0 < r.room) :
    (ceSendNolock r swapData ctx buffer nbytes transferId flags access).2.posted
        = r.posted ++ (if access.wakes then [ctx] else []) ∧
      r.room ≤ (ceSendNolock r swapData ctx buffer nbytes transferId flags access).2.room + 1 := by
  rw [ceSendNolock]
  cases hw : access.wakes with
  | false => simp
  | true =>
    rw [if_neg (by simp), if_neg (not_le.2 hroom)]
    exact ⟨rfl, (h.postSrc hroom).2.le⟩

theorem SrcInv.sendlistLoop (h : SrcInv r) (hroom : items.length ≤ r.room) :
    SrcInv (ceSendlistLoop swapData ctx transferId r items).2 ∧
      (ceSendlistLoop swapData ctx transferId r items).2.posted
        = r.posted ++ postedContexts ctx items := by
  induction items generalizing r with
  | nil => exact ⟨h, by simp [ceSendlistLoop, postedContexts]⟩
  | cons item items ih =>
    have hpos : 0 < r.room := lt_of_lt_of_le (succ_pos _) hroom
    cases items with
    | nil => exact ⟨h.send, (h.send_room hpos).1⟩
    | cons item' items =>
      have hs : SrcInv (ceSendNolock r swapData ceSendlistItemCtxt item.data item.nbytes transferId
          (item.flags ||| ceSendFlagGather) item.access).2 := h.send
      obtain ⟨hp, hr⟩ : _ ∧ r.room ≤ (ceSendNolock r swapData ceSendlistItemCtxt item.data
          item.nbytes transferId (item.flags ||| ceSendFlagGather) item.access).2.room + 1 :=
        h.send_room hpos
      obtain ⟨hi, hp'⟩ := ih hs (le_of_succ_le_succ (hroom.trans hr))
      refine ⟨hi, ?_⟩
      rw [postedContexts_cons (cons_ne_nil _ _), ← append_assoc, ← hp]
      exact hp'

theorem SrcInv.sendlistSend (h : SrcInv r) :
    SrcInv (ceSendlistSend r swapData ctx items transferId).2 := by
  rw [ceSendlistSend]
  split
  · next hroom => exact (h.sendlistLoop hroom).1
  · exact h

theorem SrcInv.sendlistSend_iff (h : SrcInv r) (hne : items ≠ []) :
    ((ceSendlistSend r swapData ctx items transferId).2.posted = r.posted ∨
        (ceSendlistSend r swapData ctx items transferId).2.posted
          = r.posted ++ sendlistContexts ctx items) ↔
      r.room < items.length ∨ (∀ item ∈ items, item.access.wakes = true) ∨
        ∀ item ∈ items, item.access.wakes = false := by
  rw [ceSendlistSend]
  split
  · next hroom =>
    rw [(h.sendlistLoop hroom).2, postedContexts_iff hne]
    exact (or_iff_right (not_lt.2 hroom)).symm
  · next hroom => exact iff_of_true (Or.inl rfl) (Or.inl (not_le.1 hroom))

theorem SrcInv.hwIndex_ne (h : SrcInv r) : r.hwIndex ≠ 0xffffffff := by
  obtain ⟨len, hk⟩ := h.ring.ok
  obtain ⟨k, hk31, hn⟩ := hk.size
  have hle : r.nentries ≤ 2 ^ 31 := hn ▸ Nat.pow_le_pow_right Nat.two_pos hk31
  exact (lt_of_lt_of_le h.hw_lt (hle.trans (by decide))).ne

theorem SrcInv.completeSrc_eq (h : SrcInv r) : (completeSrc r).2
    = if r.hwIndex = r.swIndex then r else r.takeBack true := by
  rw [completeSrc]
  by_cases he : r.hwIndex = r.swIndex
  · rw [if_neg (by simp [he]), if_pos he]
  · rw [if_pos ⟨he, h.hwIndex_ne⟩, if_neg he]

theorem SrcInv.refresh (h : SrcInv r) : SrcInv { r with hwIndex := r.readIdxReg } :=
  ⟨⟨h.ring.ok, h.ring.back⟩, h.ring.readIdxReg_lt⟩

/-- What is taken for completed: the ring after the call, when the cached index is up to date. -/
theorem SrcInv.completed_eq (h : SrcInv r) : (ceCompletedSendNextNolock r r.readIdxReg access).2 =
      if r.hwIndex = r.swIndex then
        if (access.wakes && access.ends) = true then
          if r.readIdxReg = r.swIndex then { r with hwIndex := r.readIdxReg }
          else { r with hwIndex := r.readIdxReg }.takeBack true
        else if access.wakes then { r with hwIndex := r.readIdxReg } else r
      else r.takeBack true := by
  rw [ceCompletedSendNextNolock]
  split
  · next he =>
    cases hw : access.wakes with
    | false => simp
    | true =>
      cases hends : access.ends with
      | false => simp
      | true =>
        have hlt : ¬ r.nentries ≤ r.readIdxReg := not_le.2 h.ring.readIdxReg_lt
        simpa [hlt] using h.refresh.completeSrc_eq
  · next he => rw [h.completeSrc_eq, if_neg he]

theorem SrcInv.completed_iff (h : SrcInv r) :
    RingRight (ceCompletedSendNextNolock r r.readIdxReg access).2 ↔ r.returned.length < r.passed ∨
        r.hwIndex = r.swIndex ∧ ((access.wakes && access.ends) = true → r.readIdxReg = r.swIndex) := by
  rw [h.completed_eq]
  split
  · next he =>
    split
    · next ha =>
      split
      · next hr => exact iff_of_true h.refresh.ring.right (Or.inr ⟨he, fun _ => hr⟩)
      · next hr =>
        rw [h.refresh.ring.takeBack_iff, or_iff_left]
        exact fun hn => hr (hn.2 ha)
    · next ha =>
      refine iff_of_true ?_ (Or.inr ⟨he, fun hn => absurd hn ha⟩)
      split
      · exact h.refresh.ring.right
      · exact h.ring.right
  · next he =>
    rw [h.ring.takeBack_iff, or_iff_left]
    exact fun hn => he hn.1

theorem SrcInv.completed (h : SrcInv r) (hok : r.returned.length < r.passed ∨
      r.hwIndex = r.swIndex ∧ ((access.wakes && access.ends) = true → r.readIdxReg = r.swIndex)) :
    SrcInv (ceCompletedSendNextNolock r r.readIdxReg access).2 := by
  rw [h.completed_eq]
  split
  · next he =>
    split
    · next ha =>
      split
      · exact h.refresh
      · next hr =>
        have hlt := hok.resolve_right fun hn => hr (hn.2 ha)
        exact ⟨h.refresh.ring.takeBack (Or.inr hlt) fun _ => hlt, h.ring.readIdxReg_lt⟩
    split
    · exact h.refresh
    · exact h
  · next he =>
    have hlt := hok.resolve_right fun hn => he hn.1
    exact ⟨h.ring.takeBack (Or.inr hlt) fun _ => hlt, h.hw_lt⟩

theorem SrcInv.cancel (h : SrcInv r) : SrcInv (ceCancelSendNext r).2 := by
  rw [ceCancelSendNext]
  split
  · next hne => exact ⟨h.ring.takeBack (Or.inl hne) (by simp), h.hw_lt⟩
  · exact h

end

/-! ### The destination ring -/

section
variable {r : CeRingState CeDestDesc} {ctx buffer : Nat} {access : Access}

theorem RingInv.enqueue (h : RingInv r) : RingInv (ceRecvBufEnqueue r ctx buffer access).2 := by
  rw [ceRecvBufEnqueue]
  split
  · exact h
  split
  · next hroom =>
    obtain ⟨len, hk⟩ := h.ok
    rw [room, hk.delta] at hroom
    exact ⟨⟨len + 1, hk.post hroom ctx (hk.told.trans (hk.announced_le.trans (le_succ _)))
      le_rfl⟩, h.back⟩
  · exact h

theorem RingInv.clearLength (h : RingInv r) : RingInv (clearLength r) := ⟨h.ok, h.back⟩

theorem RingInv.completedRecv_iff (h : RingInv r) : RingRight (ceCompletedRecvNextNolock r).2 ↔
      r.returned.length < r.passed ∨ (r.base r.swIndex).nbytes = 0 := by
  rw [ceCompletedRecvNextNolock]
  split
  · next hz => exact iff_of_true h.right (Or.inr hz)
  · next hz =>
    rw [or_iff_left hz]
    exact h.clearLength.takeBack_iff

theorem RingInv.completedRecv (h : RingInv r)
    (hok : r.returned.length < r.passed ∨ (r.base r.swIndex).nbytes = 0) :
    RingInv (ceCompletedRecvNextNolock r).2 := by
  rw [ceCompletedRecvNextNolock]
  split
  · exact h
  · next hz =>
    have hlt := hok.resolve_right hz
    exact h.clearLength.takeBack (Or.inr hlt) fun _ => hlt

theorem RingInv.revoke (h : RingInv r) : RingInv (ceRevokeRecvNext r).2 := by
  rw [ceRevokeRecvNext]
  split
  · next hne => exact h.takeBack (Or.inl hne) (by simp)
  · exact h

theorem RingInv.hwReceive (h : RingInv r) (hlt : r.passed < r.announced) {nbytes : BitVec 16}
    {metaData : BitVec 14} {byteSwap : Bool} : RingInv (hwReceive r nbytes metaData byteSwap) := by
  obtain ⟨len, hk⟩ := h.ok
  exact ⟨⟨len, hk.size, hk.mask_eq, hk.spans, hk.live, hk.sw_eq, hlt, hk.announced_le⟩, h.back⟩

end

/-! ### Runs -/

/-- **The invariant of a copy engine.** -/
structure CeInv (e : CopyEngine) : Prop where
  src : SrcInv e.src
  dest : RingInv e.dest

section
variable {e e' : CopyEngine} {ev : CeEvent}

theorem ceInv_start (h : ceMachine.init e) : CeInv e := by
  obtain ⟨hs, hw, hd, -⟩ := h
  exact ⟨⟨ringInv_start hs, hw ▸ hs.origin_lt⟩, ringInv_start hd⟩

/-- **One call**: it does what it is to do exactly under the condition. -/
theorem ceStep_right_iff (h : CeInv e) (hs : ceMachine.step e ev = some e') :
    CeStepRight e ev e' ↔ CeStepOk e ev := by
  have hsrc := h.src.ring.right
  have hdest := h.dest.right
  cases ev with
  | send ctx buffer nbytes transferId flags access =>
    cases hs
    exact iff_of_true ⟨h.src.send.ring.right, hdest, trivial⟩ trivial
  | sendlistSend ctx items transferId =>
    obtain ⟨⟨hne, -⟩, rfl⟩ := guarded_eq_some.1 hs
    exact ⟨fun hr => (h.src.sendlistSend_iff hne).1 hr.2.2,
      fun hr => ⟨h.src.sendlistSend.ring.right, hdest, (h.src.sendlistSend_iff hne).2 hr⟩⟩
  | completedSendNext access =>
    cases hs
    refine Iff.trans ?_ h.src.completed_iff
    exact ⟨fun hr => hr.1, fun hr => ⟨hr, hdest, trivial⟩⟩
  | cancelSendNext =>
    cases hs
    exact iff_of_true ⟨h.src.cancel.ring.right, hdest, trivial⟩ trivial
  | recvBufEnqueue ctx buffer access =>
    cases hs
    exact iff_of_true ⟨hsrc, h.dest.enqueue.right, trivial⟩ trivial
  | completedRecvNext =>
    cases hs
    refine Iff.trans ?_ h.dest.completedRecv_iff
    exact ⟨fun hr => hr.2.1, fun hr => ⟨hsrc, hr, trivial⟩⟩
  | revokeRecvNext =>
    cases hs
    exact iff_of_true ⟨hsrc, h.dest.revoke.right, trivial⟩ trivial
  | hwSend n =>
    obtain ⟨hle, rfl⟩ := guarded_eq_some.1 hs
    exact iff_of_true ⟨(h.src.ring.pass hle).right, hdest, trivial⟩ trivial
  | hwReceive nbytes metaData byteSwap =>
    obtain ⟨hlt, rfl⟩ := guarded_eq_some.1 hs
    exact iff_of_true ⟨hsrc, (h.dest.hwReceive hlt).right, trivial⟩ trivial

theorem ceInv_step (h : CeInv e) (hok : CeStepOk e ev) (hs : ceMachine.step e ev = some e') :
    CeInv e' := by
  cases ev with
  | send ctx buffer nbytes transferId flags access =>
    cases hs
    exact ⟨h.src.send, h.dest⟩
  | sendlistSend ctx items transferId =>
    obtain ⟨-, rfl⟩ := guarded_eq_some.1 hs
    exact ⟨h.src.sendlistSend, h.dest⟩
  | completedSendNext access =>
    cases hs
    exact ⟨h.src.completed hok, h.dest⟩
  | cancelSendNext =>
    cases hs
    exact ⟨h.src.cancel, h.dest⟩
  | recvBufEnqueue ctx buffer access =>
    cases hs
    exact ⟨h.src, h.dest.enqueue⟩
  | completedRecvNext =>
    cases hs
    exact ⟨h.src, h.dest.completedRecv hok⟩
  | revokeRecvNext =>
    cases hs
    exact ⟨h.src, h.dest.revoke⟩
  | hwSend n =>
    obtain ⟨hle, rfl⟩ := guarded_eq_some.1 hs
    exact ⟨⟨h.src.ring.pass hle, h.src.hw_lt⟩, h.dest⟩
  | hwReceive nbytes metaData byteSwap =>
    obtain ⟨hlt, rfl⟩ := guarded_eq_some.1 hs
    exact ⟨h.src, h.dest.hwReceive hlt⟩

theorem reach_ceInv (h : ceMachine.Reach CeStepOk e) : CeInv e :=
  h.invariant CeInv (fun _ => ceInv_start) fun _ _ _ => ceInv_step

/-- **The rings.**  Where all calls have met the condition both rings are right, and the next call does what it is to do exactly when it meets the condition too. -/
theorem ce_rings_iff (e : CopyEngine) (he : ceMachine.Reach CeStepOk e) :
    (RingRight e.src ∧ RingRight e.dest) ∧
      ∀ ev e', ceMachine.step e ev = some e' → (CeStepRight e ev e' ↔ CeStepOk e ev) :=
  have h := reach_ceInv he
  ⟨⟨h.src.ring.right, h.dest.right⟩, fun _ _ => ceStep_right_iff h⟩

end

/-! ### Tidy runs -/

/-- What the hardware is through with and has not been taken back: `CE_RING_DELTA(nentries_mask, sw_index, read_index)` -/
def CeRingState.done {δ : Type} (r : CeRingState δ) : Nat :=
  ceRingDelta r.nentriesMask r.swIndex r.readIdxReg

def ceSendEntriesAvail (e : CopyEngine) : Nat := e.src.room

def ceRecvEntriesAvail (e : CopyEngine) : Nat := e.dest.room

def ceSendEntriesDoneNolock (e : CopyEngine) : Nat := e.src.done

def ceRecvEntriesDoneNolock (e : CopyEngine) : Nat := e.dest.done

/-- The counts of a ring are those of its descriptors. -/
structure Counts {δ : Type} (r : CeRingState δ) (avail done : Nat) : Prop where
  avail : avail + (r.posted.length - r.returned.length) = r.nentries - 1
  done : done = r.passed - r.returned.length

/-- Only what the cached index is ahead of is cancelled, no receive buffer is revoked, and the target wakes up for each item of a list. -/
def CeStepTidy (e : CopyEngine) : CeEvent → Prop
  | .cancelSendNext => e.src.writeIndex = e.src.swIndex ∨ e.src.hwIndex ≠ e.src.swIndex
  | .revokeRecvNext => e.dest.writeIndex = e.dest.swIndex
  | .sendlistSend _ items _ => ∀ item ∈ items, item.access.wakes = true
  | _ => True

/-- The cached index is one that the hardware has had, and not behind `sw_index`. -/
def SrcTidy (r : CeRingState CeSrcDesc) : Prop :=
  ∃ cached, r.returned.length ≤ cached ∧ cached ≤ r.passed ∧
    r.hwIndex = (r.origin + cached) % r.nentries

/-- There are lengths only in descriptors the hardware is through with and that are not taken back. -/
structure DestTidy (r : CeRingState CeDestDesc) : Prop where
  le : r.returned.length ≤ r.passed
  lengths : ∀ i, (r.base i).nbytes ≠ 0 →
    ∃ q, r.returned.length ≤ q ∧ q < r.passed ∧ i = (r.origin + q) % r.nentries

section
variable {r : CeRingState CeSrcDesc} {swapData : Bool} {ctx buffer : Nat}
  {nbytes transferId flags : UInt32} {access : Access} {items : List CeSendlistItem}

theorem RingInv.swIndex_eq {δ : Type} {r : CeRingState δ} (h : RingInv r) :
    r.swIndex = (r.origin + r.returned.length) % r.nentries := by
  obtain ⟨len, hk⟩ := h.ok
  exact hk.sw_eq

theorem RingInv.counts {δ : Type} {r : CeRingState δ} (h : RingInv r)
    (hle : r.returned.length ≤ r.passed) : Counts r r.room r.done := by
  obtain ⟨len, hk⟩ := h.ok
  obtain ⟨k, hk31, hn⟩ := hk.size
  have hlen := hk.length
  have hroom := hk.spans.room
  have hpassed := hk.told.trans hk.announced_le
  have hdone : Spans r.nentries r.swIndex r.readIdxReg (r.passed - r.returned.length) := by
    refine ⟨hk.spans.consumer_lt, ?_, by omega⟩
    rw [readIdxReg, hk.sw_eq, mod_add_mod, add_assoc, Nat.add_sub_cancel' hle]
  constructor
  · rw [room, hk.delta]
    omega
  · rw [CeRingState.done, ceRingDelta, hk.mask_eq, add_comm r.readIdxReg]
    exact hdone.masked hn (hk31.trans (by decide : 31 ≤ 32))

theorem length_takeBack {δ : Type} {r : CeRingState δ} {completed : Bool} :
    (r.takeBack completed).returned.length = r.returned.length + 1 := by
  simp [takeBack]

theorem SrcTidy.send (h : SrcTidy r) :
    SrcTidy (ceSendNolock r swapData ctx buffer nbytes transferId flags access).2 := by
  rw [ceSendNolock]
  split
  · exact h
  split
  · exact h
  · exact h

theorem SrcTidy.sendlistSend (h : SrcTidy r) :
    SrcTidy (ceSendlistSend r swapData ctx items transferId).2 := by
  rw [ceSendlistSend]
  split
  · clear * - h
    induction items generalizing r with
    | nil => exact h
    | cons item items ih =>
      cases items with
      | nil => exact h.send
      | cons item' items => exact ih h.send
  · exact h

theorem SrcTidy.takeBack (h : SrcTidy r) (hi : RingInv r) (hne : r.hwIndex ≠ r.swIndex)
    (completed : Bool) : SrcTidy (r.takeBack completed) := by
  obtain ⟨c, hc, hp, hw⟩ := h
  refine ⟨c, ?_, hp, hw⟩
  have hcne : c ≠ r.returned.length := by
    rintro rfl
    exact hne (hw.trans hi.swIndex_eq.symm)
  rw [length_takeBack]
  omega

theorem SrcTidy.refresh (h : SrcTidy r) : SrcTidy { r with hwIndex := r.readIdxReg } := by
  obtain ⟨c, hc, hp, -⟩ := h
  exact ⟨r.passed, hc.trans hp, le_rfl, rfl⟩

theorem SrcTidy.completed (h : SrcTidy r) (hi : SrcInv r) :
    SrcTidy (ceCompletedSendNextNolock r r.readIdxReg access).2 := by
  rw [hi.completed_eq]
  split
  · split
    · split
      · exact h.refresh
      · next hr => exact h.refresh.takeBack hi.refresh.ring hr true
    split
    · exact h.refresh
    · exact h
  · next hne => exact h.takeBack hi.ring hne true

theorem SrcTidy.ok (h : SrcTidy r) (hi : RingInv r) : r.returned.length < r.passed ∨
    r.hwIndex = r.swIndex ∧ ((access.wakes && access.ends) = true → r.readIdxReg = r.swIndex) := by
  obtain ⟨c, hc, hp, hw⟩ := h
  refine or_iff_not_imp_left.2 fun hn => ?_
  -- all three indices have come to the same descriptor
  obtain rfl : c = r.returned.length := by omega
  have hpassed : r.passed = r.returned.length := by omega
  have hread : r.readIdxReg = r.swIndex := by
    rw [readIdxReg, hpassed, hi.swIndex_eq]
  exact ⟨hw.trans hi.swIndex_eq.symm, fun _ => hread⟩

end

section
variable {r : CeRingState CeDestDesc} {ctx buffer : Nat} {access : Access}

theorem DestTidy.ok (h : DestTidy r) :
    r.returned.length < r.passed ∨ (r.base r.swIndex).nbytes = 0 := by
  refine or_iff_not_imp_right.2 fun hn => ?_
  obtain ⟨q, hq, hp, -⟩ := h.lengths _ hn
  exact lt_of_le_of_lt hq hp

theorem DestTidy.enqueue (h : DestTidy r) : DestTidy (ceRecvBufEnqueue r ctx buffer access).2 := by
  rw [ceRecvBufEnqueue]
  split
  · exact h
  split
  · refine ⟨h.le, fun i hi => ?_⟩
    by_cases hw : i = r.writeIndex
    · subst hw
      simp at hi
    · exact h.lengths i (by simpa [hw] using hi)
  · exact h

theorem DestTidy.completedRecv (h : DestTidy r) (hi : RingInv r) :
    DestTidy (ceCompletedRecvNextNolock r).2 := by
  rw [ceCompletedRecvNextNolock]
  split
  · exact h
  · next hz =>
    refine ⟨?_, fun i hn => ?_⟩
    · rw [length_takeBack]
      exact h.ok.resolve_right hz
    · by_cases hs : i = r.swIndex
      · subst hs
        simp [takeBack, clearLength] at hn
      · obtain ⟨q, hq, hp, he⟩ := h.lengths i (by simpa [takeBack, clearLength, hs] using hn)
        refine ⟨q, ?_, hp, he⟩
        have hqne : q ≠ r.returned.length := by
          rintro rfl
          exact hs (he.trans hi.swIndex_eq.symm)
        have hlen : (clearLength r).returned.length = r.returned.length := rfl
        rw [length_takeBack, hlen]
        omega

theorem DestTidy.hwReceive (h : DestTidy r) {nbytes : BitVec 16} {metaData : BitVec 14}
    {byteSwap : Bool} : DestTidy (hwReceive r nbytes metaData byteSwap) := by
  refine ⟨le_succ_of_le h.le, fun i hn => ?_⟩
  by_cases hs : i = r.readIdxReg
  · exact ⟨r.passed, h.le, lt_succ_self _, hs⟩
  · obtain ⟨q, hq, hp, he⟩ := h.lengths i (by simpa [Hif.hwReceive, CeRingState.pass, hs] using hn)
    exact ⟨q, hq, lt_succ_of_lt hp, he⟩

end

section
variable {e e' : CopyEngine} {ev : CeEvent}

/-- **The invariant of tidy runs.** -/
structure CeTidy (e : CopyEngine) : Prop where
  inv : CeInv e
  src : SrcTidy e.src
  dest : DestTidy e.dest

theorem ceTidy_start (h : ceMachine.init e) : CeTidy e := by
  have hinv := ceInv_start h
  obtain ⟨hs, hw, hd, hz⟩ := h
  refine ⟨hinv, ⟨0, ?_, zero_le _, ?_⟩, ?_, fun i hn => absurd (hz i) hn⟩
  · simp [hs.returned]
  · rw [hw, add_zero, mod_eq_of_lt hs.origin_lt]
  · simp [hd.returned]

theorem CeTidy.ok (h : CeTidy e) (ht : CeStepTidy e ev) : CeStepOk e ev := by
  cases ev with
  | completedSendNext access => exact h.src.ok h.inv.src.ring
  | completedRecvNext => exact h.dest.ok
  | sendlistSend ctx items transferId => exact Or.inr (Or.inl ht)
  | _ => trivial

theorem ceTidy_step (h : CeTidy e) (ht : CeStepTidy e ev) (hs : ceMachine.step e ev = some e') :
    CeTidy e' := by
  have hinv := ceInv_step h.inv (h.ok ht) hs
  cases ev with
  | send ctx buffer nbytes transferId flags access =>
    cases hs
    exact ⟨hinv, h.src.send, h.dest⟩
  | sendlistSend ctx items transferId =>
    obtain ⟨-, rfl⟩ := guarded_eq_some.1 hs
    exact ⟨hinv, h.src.sendlistSend, h.dest⟩
  | completedSendNext access =>
    cases hs
    exact ⟨hinv, h.src.completed h.inv.src, h.dest⟩
  | cancelSendNext =>
    cases hs
    refine ⟨hinv, ?_, h.dest⟩
    rw [ceCancelSendNext]
    split
    · next hne => exact h.src.takeBack h.inv.src.ring (ht.resolve_left hne) false
    · exact h.src
  | recvBufEnqueue ctx buffer access =>
    cases hs
    exact ⟨hinv, h.src, h.dest.enqueue⟩
  | completedRecvNext =>
    cases hs
    exact ⟨hinv, h.src, h.dest.completedRecv h.inv.dest⟩
  | revokeRecvNext =>
    cases hs
    have hempty : e.dest.writeIndex = e.dest.swIndex := ht
    refine ⟨hinv, h.src, ?_⟩
    rw [ceRevokeRecvNext, if_neg (not_not.2 hempty)]
    exact h.dest
  | hwSend n =>
    obtain ⟨-, rfl⟩ := guarded_eq_some.1 hs
    obtain ⟨c, hc, hp, hw⟩ := h.src
    exact ⟨hinv, ⟨c, hc, le_add_right_of_le hp, hw⟩, h.dest⟩
  | hwReceive nbytes metaData byteSwap =>
    obtain ⟨-, rfl⟩ := guarded_eq_some.1 hs
    exact ⟨hinv, h.src, h.dest.hwReceive⟩

theorem reach_ceTidy (he : ceMachine.Reach CeStepTidy e) : CeTidy e :=
  he.invariant CeTidy (fun _ => ceTidy_start) fun _ _ _ h ht hs => ceTidy_step h ht hs

/-- **Tidy runs.**  Where nothing is revoked and only what the cached index is ahead of is cancelled, the rings and all calls are right, and so are the counts of what there is room for and of what is through. -/
theorem ce_rings_tidy (he : ceMachine.Reach CeStepTidy e) : (RingRight e.src ∧ RingRight e.dest) ∧
    (Counts e.src (ceSendEntriesAvail e) (ceSendEntriesDoneNolock e) ∧
      Counts e.dest (ceRecvEntriesAvail e) (ceRecvEntriesDoneNolock e)) ∧
    ∀ ev e', CeStepTidy e ev → ceMachine.step e ev = some e' → CeStepRight e ev e' := by
  have h := reach_ceTidy he
  obtain ⟨c, hc, hp, -⟩ := h.src
  refine ⟨⟨h.inv.src.ring.right, h.inv.dest.right⟩,
    ⟨h.inv.src.ring.counts (hc.trans hp), h.inv.dest.counts h.dest.le⟩, fun ev e' ht hs => ?_⟩
  exact (ceStep_right_iff h.inv hs).2 (h.ok ht)

end

def freshSrc : CeRingState CeSrcDesc where
  nentries := 4
  nentriesMask := 3
  swIndex := 0
  writeIndex := 0
  hwIndex := 0
  base _ := ⟨0, 0, false, false, 0⟩
  shadowBase _ := ⟨0, 0, false, false, 0⟩
  perTransferContext _ := 0
  writeIdxReg := 0
  origin := 0
  posted := []
  announced := 0
  passed := 0
  returned := []

def freshDest : CeRingState CeDestDesc :=
  { freshSrc with
    base _ := ⟨0, 0, false, 0⟩
    shadowBase _ := ⟨0, 0, false, 0⟩ }

def freshCe : CopyEngine := ⟨freshSrc, freshDest, false⟩

theorem freshCe_init : ceMachine.init freshCe :=
  ⟨⟨⟨2, by decide, rfl⟩, rfl, by decide, rfl, rfl, rfl, rfl, rfl, rfl⟩, rfl,
    ⟨⟨2, by decide, rfl⟩, rfl, by decide, rfl, rfl, rfl, rfl, rfl, rfl⟩, fun _ => rfl⟩

instance : ∀ e ev, Decidable (CeStepOk e ev)
  | _, .send .. => .isTrue trivial
  | _, .sendlistSend .. => inferInstanceAs (Decidable (_ ∨ _))
  | _, .completedSendNext _ => inferInstanceAs (Decidable (_ ∨ _))
  | _, .cancelSendNext => .isTrue trivial
  | _, .recvBufEnqueue .. => .isTrue trivial
  | _, .completedRecvNext => inferInstanceAs (Decidable (_ ∨ _))
  | _, .revokeRecvNext => .isTrue trivial
  | _, .hwSend _ => .isTrue trivial
  | _, .hwReceive .. => .isTrue trivial

def fine : Access := ⟨true, true⟩

/-- A list of two items is sent and completed, another send is cancelled, and a buffer is received into. -/
theorem ce_rings_iff_sent :
    ∃ e, ceMachine.run freshCe [.sendlistSend 7 [⟨0x1000, 8, 0, fine⟩, ⟨0x2000, 64, 0, fine⟩] 1,
        .recvBufEnqueue 9 0x3000 fine, .hwSend 2, .completedSendNext fine, .completedSendNext fine,
        .send 8 0x4000 32 2 0 fine, .cancelSendNext, .hwReceive 100 3 false,
        .completedRecvNext] = some e ∧ (RingRight e.src ∧ RingRight e.dest) ∧
      e.src.returned.map Back.context = [ceSendlistItemCtxt, 7, 8] ∧
      e.dest.returned.map Back.context = [9] :=
  Machine.exists_right (fun e he => (ce_rings_iff e he).1) freshCe_init
    (by decide +kernel) (by decide +kernel)

/-- One of two sends is through, and there is room for one more. -/
theorem ce_rings_tidy_through : ∃ e, ceMachine.run freshCe [.send 7 0x1000 8 1 0 fine,
      .send 8 0x2000 8 2 0 fine, .recvBufEnqueue 9 0x3000 fine, .hwSend 1] = some e ∧
    (Counts e.src (ceSendEntriesAvail e) (ceSendEntriesDoneNolock e) ∧
      Counts e.dest (ceRecvEntriesAvail e) (ceRecvEntriesDoneNolock e)) ∧
    (ceSendEntriesAvail e, ceSendEntriesDoneNolock e, ceRecvEntriesAvail e) = (1, 1, 2) :=
  Machine.exists_right (fun _ he => (ce_rings_tidy he).2.1) freshCe_init
    (by simp [Machine.Along, CeStepTidy]) (by decide +kernel)

/-- Of two sends one is cancelled: the other is taken for completed before the hardware has come to either. -/
theorem cancelled_completes_next :
    ∃ e, ceMachine.run freshCe [.send 7 0x1000 8 1 0 fine, .send 8 0x2000 8 2 0 fine,
        .cancelSendNext, .completedSendNext fine] = some e ∧
      e.src.returned = [⟨7, false, 0⟩, ⟨8, true, 0⟩] ∧ ¬ RingRight e.src := by
  refine Machine.exists_run_of (q := fun e => e.src.returned = [⟨7, false, 0⟩, ⟨8, true, 0⟩])
    (by decide +kernel) fun e hb => ⟨hb, fun hr => ?_⟩
  exact not_lt_zero 1 (hr.passed 1 ⟨8, true, 0⟩ (by rw [hb]; rfl) rfl)

end Qcacld.Hif

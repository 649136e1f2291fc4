import Mathlib.Algebra.BigOperators.Group.Finset.Basic
import Mathlib.Algebra.GroupWithZero.Nat
import Mathlib.Algebra.Ring.Int.Defs
import Mathlib.Data.Fintype.Basic
import Mathlib.Data.Fintype.BigOperators

/-!
# Txrx — TxSched

The high-latency tx queues and the advanced weighted-round-robin scheduler that downloads from them: the categories and their order list, the choice of a category, the batch taken from its first queue, and the discard when descriptors run short.

A queue is named by the peer and TID, or by the vdev and the index, it belongs to.  A category's `head` is the list of the queues linked on it; since a queue is an element of one list at a time, `TAILQ_REMOVE` takes it out of whichever it is on (`unlink`).  The 16-bit `frms` of a queue counts descriptors of a pool of fewer than 2¹⁶, and is a natural number here.  The build has group credits (`FEATURE_HL_GROUP_CREDIT_FLOW_CONTROL`, one group a queue) and no bad-peer limit.
-/

namespace Qcacld.Txrx

/-- `enum ol_tx_queue_status`. -/
inductive TxqFlag where
  | empty
  | active
  | paused
deriving DecidableEq

/-- A tx descriptor in a queue: its id, the length of its frame, and what `htt_tx_msdu_credit` says the frame costs. -/
structure TxFrm where
  id : Nat
  len : Nat
  credit : Nat
deriving DecidableEq

/-- `struct ol_tx_frms_queue_t`. -/
structure TxFrmsQueue where
  frms : Nat
  bytes : Int
  head : List TxFrm
  flag : TxqFlag
  /-- `paused_count.total`, 8 bits -/
  pausedTotal : Nat
  /-- `group_ptrs[0]` -/
  groupPtr : Option Nat

inductive TxqId where
  | peer (peer tid : Nat)
  | vdev (vdev i : Nat)
deriving DecidableEq

/-- `enum ol_tx_sched_wrr_adv_cat`: BE, BK, VI, VO, non-QoS data, unicast management, multicast data, multicast management. -/
abbrev Cat := Fin 8

def extTidNonQosMcastBcast : Nat := 16
def extTidMgmt : Nat := 17
def olTxNumTids : Nat := 18
/-- `OL_TX_VDEV_NUM_QUEUES`; queue 0 is `OL_TX_VDEV_MCAST_BCAST`, queue 1 is `OL_TX_VDEV_DEFAULT_MGMT`. -/
def olTxVdevNumQueues : Nat := 2

def txrxTidToWmmAc (tid : Nat) : Cat :=
  if tid / 2 = 3 then 3
  else if tid / 2 = 2 then 2
  else if (tid ^^^ (tid / 2)) % 2 = 1 then 1
  else 0

/-- `pdev->tid_to_ac`. -/
def tidToAc (tid : Nat) : Cat :=
  if tid < 16 then txrxTidToWmmAc tid
  else if tid = 16 then 4
  else if tid = 17 then 5
  else if tid = 18 then 6
  else 7

/-- A category's `specs`.  `creditReserve` is an `int` that the code compares as unsigned. -/
structure CatSpecs where
  wrrSkipWeight : Int
  creditThreshold : Nat
  sendLimit : Nat
  creditReserve : Nat
  discardWeight : Int

/-- The specs of the SDIO build (`OL_TX_SCHED_WRR_ADV_CAT_CFG_SPEC`). -/
def sdioSpecs : Cat → CatSpecs
  | 0 => ⟨10, 17, 16, 1, 8⟩
  | 1 => ⟨12, 6, 6, 1, 8⟩
  | 2 => ⟨3, 17, 16, 1, 4⟩
  | 3 => ⟨1, 17, 24, 0, 1⟩
  | 4 => ⟨10, 17, 16, 1, 8⟩
  | 5 => ⟨1, 1, 4, 0, 1⟩
  | 6 => ⟨10, 17, 4, 1, 4⟩
  | 7 => ⟨1, 1, 4, 0, 1⟩

/-- A category's `state`. -/
structure CatState where
  wrrCount : Int
  frms : Int
  bytes : Int
  head : List TxqId
  active : Bool

/-- `struct ol_tx_sched_wrr_adv_t`, the queues, and the credits. -/
structure HlPdev where
  txqs : TxqId → TxFrmsQueue
  specs : Cat → CatSpecs
  cats : Cat → CatState
  order : List Cat
  index : Nat
  lastUsedTxq : Option TxqId
  targetTxCredit : Int
  groupCredit : Nat → Int

/-- `struct ol_tx_sched_ctx`. -/
structure SchedCtx where
  frms : Nat
  head : List TxFrm

namespace HlPdev

def setTxq (p : HlPdev) (q : TxqId) (txq : TxFrmsQueue) : HlPdev :=
  { p with txqs := Function.update p.txqs q txq }

def setCat (p : HlPdev) (c : Cat) (st : CatState) : HlPdev :=
  { p with cats := Function.update p.cats c st }

/-- `TAILQ_REMOVE(&category->state.head, txq, list_elem)`. -/
def unlink (p : HlPdev) (q : TxqId) : HlPdev :=
  { p with cats := fun c => { p.cats c with head := (p.cats c).head.filter (· ≠ q) } }

end HlPdev

/-! ### Taking frames from a queue -/

/-- The loop of `ol_tx_dequeue`: the frames moved, the frames left, and `flush_all`. -/
def dequeueLoop (credit : Nat) : Nat → Nat → List TxFrm → List TxFrm × List TxFrm × Bool
  | 0, _, head => ([], head, false)
  | _ + 1, _, [] => ([], [], true)
  | n + 1, creditSum, frm :: head =>
    if creditSum + frm.credit > credit then ([], frm :: head, false)
    else
      let (moved, left, flushAll) := dequeueLoop credit n (creditSum + frm.credit) head
      (frm :: moved, left, flushAll)

def creditOf (frms : List TxFrm) : Nat := (frms.map TxFrm.credit).sum

def bytesOf (frms : List TxFrm) : Int := (frms.map fun frm => (frm.len : Int)).sum

/-- What `ol_tx_dequeue` leaves and returns.  `freed` are the frames of its flush. -/
structure Dequeued where
  txq : TxFrmsQueue
  head : List TxFrm
  frames : Nat
  credit : Nat
  bytes : Int
  freed : List TxFrm

def olTxDequeue (txq : TxFrmsQueue) (head : List TxFrm) (maxFrames credit : Nat) : Dequeued :=
  let (moved, left, flushAll) := dequeueLoop credit (min txq.frms maxFrames) 0 txq.head
  let frms := txq.frms - moved.length
  let txq' := { txq with
    frms := frms
    bytes := txq.bytes - bytesOf moved
    head := left
    -- a paused queue remains paused, regardless of whether it has frames
    flag := if frms = 0 ∧ txq.flag = .active then .empty else txq.flag }
  if flushAll ∧ bytesOf moved ≠ 0 then
    { txq := { txq' with frms := 0, bytes := 0 }
      head := (head ++ moved).drop moved.length
      frames := 0
      credit := 0
      bytes := txq.bytes
      freed := (head ++ moved).take moved.length }
  else
    { txq := txq'
      head := head ++ moved
      frames := moved.length
      credit := creditOf moved
      bytes := bytesOf moved
      freed := [] }

/-! ### Choosing a category -/

def rotateOrderListTail (order : List Cat) (idx : Nat) : List Cat :=
  match order[idx]? with
  | none => order
  | some value => order.eraseIdx idx ++ [value]

/-- The loop of `ol_tx_sched_select_batch_wrr_adv`, from `index`: the category chosen and its place, or none when no category from there on is active.  `fuel` bounds the turns. -/
def selectLoop (p : HlPdev) : Nat → Nat → Option (HlPdev × Option (Nat × Cat))
  | 0, _ => none
  | fuel + 1, index =>
    match p.order[index]? with
    | none => some (p, none)
    | some c =>
      if (p.cats c).active then
        let p := p.setCat c { p.cats c with wrrCount := (p.cats c).wrrCount + 1 }
        if (p.cats c).wrrCount < (p.specs c).wrrSkipWeight then
          -- skip this category, and try again on the one that moved up
          selectLoop { p with order := rotateOrderListTail p.order index } fuel index
        else some (p, some (index, c))
      else selectLoop p fuel (index + 1)

/-- The turns the loop may take: the places left, and for each category the skips its weight allows. -/
def selectFuel (p : HlPdev) (index : Nat) : Nat :=
  (p.order.length - index) + (∑ c, ((p.specs c).wrrSkipWeight - (p.cats c).wrrCount).toNat) + 1

/-! ### Selecting a batch -/

def olTxTxqGroupCreditLimit (p : HlPdev) (txq : TxFrmsQueue) (credit : Nat) : Nat :=
  let updatedCredit : Int := match txq.groupPtr with
    | none => credit
    | some g => min (credit : Int) (p.groupCredit g)
  if updatedCredit < 0 then 0 else updatedCredit.toNat

/-- `ol_tx_txq_group_credit_update`, with `absolute` 0. -/
def olTxTxqGroupCreditUpdate (p : HlPdev) (txq : TxFrmsQueue) (credit : Int) : HlPdev :=
  match txq.groupPtr with
  | none => p
  | some g => { p with groupCredit := Function.update p.groupCredit g (p.groupCredit g + credit) }

/-- `ol_tx_sched_select_init_wrr_adv`. -/
def olTxSchedSelectInit (p : HlPdev) : HlPdev := { p with index := 0, lastUsedTxq := none }

/-- The part of `ol_tx_sched_select_batch_wrr_adv` that serves the queue `txq`, taken from the head of its category's list; `rest` is the list without it. -/
def serveTxq (p : HlPdev) (sctx : SchedCtx) (c : Cat) (q : TxqId) (rest : List TxqId)
    (credit : Nat) : HlPdev × SchedCtx × Nat :=
  let st := p.cats c
  let limit := olTxTxqGroupCreditLimit p (p.txqs q) credit
  if limit > (p.specs c).creditReserve then
    let d := olTxDequeue (p.txqs q) sctx.head (p.specs c).sendLimit
      (limit - (p.specs c).creditReserve)
    let frms := st.frms - d.frames
    let st := { st with
      frms := frms
      bytes := st.bytes - d.bytes
      head := if d.txq.frms > 0 then rest ++ [q] else rest
      active := if d.txq.frms > 0 then st.active else if frms = 0 then false else st.active }
    let p := { (p.setTxq q d.txq).setCat c st with lastUsedTxq := some q }
    (olTxTxqGroupCreditUpdate p d.txq (-d.credit), ⟨sctx.frms + d.frames, d.head⟩, d.credit)
  else if p.lastUsedTxq = some q then
    -- every active queue was looked at, and none could download
    (p.setCat c { st with head := q :: rest }, sctx, 0)
  else
    let p := p.setCat c { st with head := rest ++ [q] }
    (if p.lastUsedTxq = none then { p with lastUsedTxq := some q } else p, sctx, 0)

/-- `ol_tx_sched_select_batch_wrr_adv` once it has chosen category `c`, at `index` of the order list. -/
def selectCategory (p : HlPdev) (sctx : SchedCtx) (index : Nat) (c : Cat) (credit : Nat) :
    HlPdev × SchedCtx × Nat :=
  let st := p.cats c
  if credit < (p.specs c).creditThreshold then
    -- not serviced after all: restore the WRR counter
    (p.setCat c { st with wrrCount := st.wrrCount - 1 }, sctx, 0)
  else
    let p := { p.setCat c { st with wrrCount := 0 } with
      order := rotateOrderListTail p.order index, index := index }
    match st.head with
    | [] => (p, sctx, 0)
    | q :: rest => serveTxq p sctx c q rest credit

/-- `ol_tx_sched_select_batch_wrr_adv`. -/
def olTxSchedSelectBatch (p : HlPdev) (sctx : SchedCtx) (credit : Nat) :
    Option (HlPdev × SchedCtx × Nat) := do
  let (p, choice) ← selectLoop p (selectFuel p p.index) p.index
  match choice with
  | none => return (p, sctx, 0)
  | some (index, c) => return selectCategory p sctx index c credit

/-- One turn of the loop of `ol_tx_sched`, when it is taken: the state, the dispatch list, and the credits used. -/
def olTxSchedTurn (p : HlPdev) (sctx : SchedCtx) : Option (HlPdev × SchedCtx × Nat) := do
  guard (p.targetTxCredit > 0)
  let (p', sctx, numCredits) ← olTxSchedSelectBatch p sctx p.targetTxCredit.toNat
  return ({ p' with targetTxCredit := p'.targetTxCredit - numCredits }, sctx, numCredits)

/-! ### Discarding -/

/-- `ol_tx_sched_discard_select_category_wrr_adv`. -/
def olTxSchedDiscardSelectCategory (p : HlPdev) : Cat :=
  ((List.finRange 8).foldl (fun (best : Int × Cat) i =>
      let score := (p.cats i).frms * (p.specs i).discardWeight
      if best.1 = 0 ∨ score > best.1 then (score, i) else best)
    (0, 0)).2

/-- `ol_tx_sched_discard_select_txq`: the queue with the most frames. -/
def olTxSchedDiscardSelectTxq (p : HlPdev) (txQueues : List TxqId) : Option TxqId :=
  (txQueues.foldl (fun (best : Nat × Option TxqId) q =>
      if (p.txqs q).frms > best.1 then ((p.txqs q).frms, some q) else best)
    (0, none)).2

/-- `ol_tx_sched_txq_discard_wrr_adv`. -/
def olTxSchedTxqDiscard (p : HlPdev) (q : TxqId) (cat : Cat) (frames : Nat) (bytes : Int) :
    HlPdev :=
  let p := if (p.txqs q).frms = 0 then p.unlink q else p
  let st := p.cats cat
  let frms := st.frms - frames
  p.setCat cat { st with
    frms := frms, bytes := st.bytes - bytes, active := if frms = 0 then false else st.active }

/-- `ol_tx_sched_discard_select`: the state, the frames discarded, and how many. -/
def olTxSchedDiscardSelect (p : HlPdev) (frms : Nat) (txDescs : List TxFrm) (force : Bool) :
    HlPdev × List TxFrm × Nat :=
  let cat := olTxSchedDiscardSelectCategory p
  match olTxSchedDiscardSelectTxq p (p.cats cat).head with
  | none => (p, txDescs, 0)
  | some q =>
    let txq := p.txqs q
    let frms := if force then frms else
      let frms := min 10 frms
      if txq.frms > 1 ∧ frms ≥ txq.frms / 2 then txq.frms / 2 else frms
    -- no credit limit
    let d := olTxDequeue txq txDescs frms 10000
    (olTxSchedTxqDiscard (p.setTxq q d.txq) q cat d.frames d.bytes, d.head, d.frames)

/-! ### What the queues tell the scheduler -/

/-- `ol_tx_sched_txq_enqueue_wrr_adv`. -/
def olTxSchedTxqEnqueue (p : HlPdev) (q : TxqId) (tid : Nat) (frms : Nat) (bytes : Int) : HlPdev :=
  let c := tidToAc tid
  let st := p.cats c
  let st := { st with frms := st.frms + frms, bytes := st.bytes + bytes }
  p.setCat c (if (p.txqs q).flag ≠ .active then
    { st with head := st.head ++ [q], active := true } else st)

/-- `ol_tx_sched_txq_deactivate_wrr_adv`. -/
def olTxSchedTxqDeactivate (p : HlPdev) (q : TxqId) (tid : Nat) : HlPdev :=
  let c := tidToAc tid
  let txq := p.txqs q
  let p := p.unlink q
  let st := p.cats c
  let frms := st.frms - txq.frms
  p.setCat c { st with
    frms := frms
    bytes := st.bytes - txq.bytes
    active := if frms = 0 ∧ st.active then false else st.active }

/-- `ol_tx_sched_notify` with `OL_TX_DELETE_QUEUE` or `OL_TX_PAUSE_QUEUE`. -/
def notifyDeactivate (p : HlPdev) (q : TxqId) (tid : Nat) : HlPdev :=
  if (p.txqs q).flag = .active then olTxSchedTxqDeactivate p q tid else p

/-- `ol_tx_sched_notify` with `OL_TX_UNPAUSE_QUEUE`. -/
def notifyUnpause (p : HlPdev) (q : TxqId) (tid : Nat) : HlPdev :=
  if (p.txqs q).frms ≠ 0 then
    olTxSchedTxqEnqueue p q tid (p.txqs q).frms (p.txqs q).bytes
  else p

/-! ### The queue operations -/

/-- The extended TID that frames of the queue are classified with. -/
def enqueueTid : TxqId → Nat
  | .peer _ tid => tid
  | .vdev _ i => if i = 0 then extTidNonQosMcastBcast else extTidMgmt

/-- `ol_tx_enqueue`, from where it takes the queue lock. -/
def olTxEnqueue (p : HlPdev) (q : TxqId) (frm : TxFrm) : HlPdev :=
  let txq := p.txqs q
  let txq := { txq with
    head := txq.head ++ [frm], frms := txq.frms + 1, bytes := txq.bytes + frm.len }
  let p := p.setTxq q txq
  if txq.flag ≠ .paused then
    let p := olTxSchedTxqEnqueue p q (enqueueTid q) 1 frm.len
    p.setTxq q { txq with flag := .active }
  else p

/-- `ol_tx_queue_free`: the state, and the frames it frees. -/
def olTxQueueFree (p : HlPdev) (q : TxqId) (tid : Nat) : HlPdev × List TxFrm :=
  let p := notifyDeactivate p q tid
  let txq := p.txqs q
  (p.setTxq q { txq with
    frms := 0
    -- the bytes of the first `frms` descriptors, one by one
    bytes := txq.bytes - bytesOf (txq.head.take txq.frms)
    flag := .empty
    head := [] }, txq.head.take txq.frms)

def olTxrxPeerTidPauseBase (p : HlPdev) (peer tid : Nat) : HlPdev :=
  let q := TxqId.peer peer tid
  let total := (p.txqs q).pausedTotal
  let p := p.setTxq q { p.txqs q with pausedTotal := (total + 1) % 2 ^ 8 }
  if total = 0 then
    let p := notifyDeactivate p q tid
    p.setTxq q { p.txqs q with flag := .paused }
  else p

/-- `ol_txrx_peer_tid_unpause_base`, up to the call of `ol_tx_sched`. -/
def olTxrxPeerTidUnpauseBase (p : HlPdev) (peer tid : Nat) : HlPdev :=
  let q := TxqId.peer peer tid
  let total := (p.txqs q).pausedTotal
  if total = 0 then p
  else
    let p := p.setTxq q { p.txqs q with pausedTotal := total - 1 }
    if total - 1 = 0 then
      let p := notifyUnpause p q tid
      p.setTxq q { p.txqs q with flag := if (p.txqs q).frms = 0 then .empty else .active }
    else p

def TxFrmsQueue.attached (groupPtr : Option Nat) : TxFrmsQueue where
  frms := 0
  bytes := 0
  head := []
  flag := .empty
  pausedTotal := 0
  groupPtr := groupPtr

/-- `ol_tx_sched_init_wrr_adv`, over queues as attach leaves them. -/
def HlPdev.attached (groupPtr : TxqId → Option Nat) (specs : Cat → CatSpecs)
    (targetTxCredit : Int) (groupCredit : Nat → Int) : HlPdev where
  txqs q := .attached (groupPtr q)
  specs := specs
  cats c :=
    -- categories are not skipped before their initial selection
    { wrrCount := (specs c).wrrSkipWeight - 1, frms := 0, bytes := 0, head := [], active := false }
  order := List.finRange 8
  index := 0
  lastUsedTxq := none
  targetTxCredit := targetTxCredit
  groupCredit := groupCredit

end Qcacld.Txrx

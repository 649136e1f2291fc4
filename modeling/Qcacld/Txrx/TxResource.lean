import Qcacld.Support.Places
import Qcacld.Txrx.TxDescPool
import Qcacld.Txrx.TxGroupCredit

/-!
# Txrx — TxResource

What a high latency device's frame is charged on its way: a descriptor, counted by `tx_queue.rsrc_cnt`, and with the scheduling a credit of the target and one of a queue group.  Each exit gives back by hand what was charged.

The path is whole here: descriptors go from the free list to a frame, with it to a tx queue, to the list of the running scheduler, down to the target and back.  `hl_resources_conserved` says when nothing is lost: when no frame is rejected or fails its download once it was scheduled, and completions name frames that are due.  The exits for the other cases give back the credit of the target and the descriptor, but neither count the descriptor nor pay the group back.
-/

namespace Qcacld.Txrx
open Qcacld.Adf Qcacld.Support Function List Option Nat TxFrmsQueue

def txrxHlTxFlowCtrlMgmtReserved : Nat := 100
def txrxHlTxDescHiPrioReserved : Int := 20

/-- The build flags and the configuration of a high latency device. -/
structure HlTxCfg where
  /-- `QCA_SUPPORT_TXDESC_SANITY_CHECKS` -/
  sanity : Bool
  /-- `QCA_TX_SINGLE_COMPLETIONS` -/
  singleCompletions : Bool
  /-- `pdev->tx_data_callback.func` is registered. -/
  txDataCallback : Bool
  /-- `ol_cfg_tx_free_at_download`.  If it is not set, `default_tx_comp_req` is. -/
  txFreeAtDownload : Bool
  /-- `CONFIG_TX_DESC_HI_PRIO_RESERVE` -/
  hiPrioReserve : Bool
  /-- `CONFIG_PER_VDEV_TX_DESC_POOL` -/
  perVdevPool : Bool

namespace HlTxCfg
variable (cfg : HlTxCfg)

def tx : TxCfg where
  sanity := cfg.sanity
  singleCompletions := cfg.singleCompletions
  tracksCredit := true
  isHighLatency := true
  txDataCallback := cfg.txDataCallback

/-- The callback that `htt_attach` chooses. -/
def downloadMode : DownloadMode := if cfg.txFreeAtDownload then .hlFree else .hlRetain

/-- `tx_queue.rsrc_threshold_lo` -/
def rsrcThresholdLo (descPoolSize : Nat) : Nat :=
  if cfg.perVdevPool then txrxHlTxFlowCtrlMgmtReserved else 5 * descPoolSize / 100

/-- `tx_queue.rsrc_threshold_hi` -/
def rsrcThresholdHi (descPoolSize : Nat) : Nat :=
  if cfg.perVdevPool then 15 * descPoolSize / 100 / 2 else 15 * descPoolSize / 100

end HlTxCfg

structure HlTxPath where
  /-- the queues, the groups and the credits -/
  grp : GroupPdev
  /-- the descriptors; its own `targetTxCredit` is not used -/
  pool : TxPdev
  /-- `tx_sched_status` is `ol_tx_scheduler_running`. -/
  running : Bool
  /-- the running scheduler's list -/
  sctx : SchedCtx
  /-- the descriptors of the frames whose download HTC is to report -/
  downloading : List Nat

open HlTxPath

namespace HlTxPath

def targetTxCredit (s : HlTxPath) : Int := s.grp.hl.targetTxCredit

/-- A handler of the descriptors runs.  It sees the credit there is. -/
def onPool (s : HlTxPath) (f : TxPdev → TxPdev) : HlTxPath :=
  let pool := f { s.pool with targetTxCredit := s.targetTxCredit }
  { s with
    pool := pool
    grp := { s.grp with hl := { s.grp.hl with targetTxCredit := pool.targetTxCredit } } }

def addRsrc (s : HlTxPath) (n : Int) : HlTxPath :=
  { s with pool := { s.pool with rsrcCnt := s.pool.rsrcCnt + n } }

/-- Frames whose descriptor is free are not in flight any more. -/
def landFreed (s : HlTxPath) : HlTxPath :=
  { s with
    grp := { s.grp with inflight := s.grp.inflight.filter fun frm => frm.1 ∉ s.pool.freelist } }

end HlTxPath

section Path
variable (cfg : HlTxCfg)

/-! ### Discards -/

/-- The loop of `ol_tx_queue_discard`: the queues, the frames, and how many there are.  A turn that discards nothing is the last one; each other one lowers `num`. -/
def discardLoop (flushAll : Bool) : Nat → Nat → HlPdev → List TxFrm → Nat → HlPdev × List TxFrm × Nat
  | 0, _, p, txDescs, actual => (p, txDescs, actual)
  | fuel + 1, num, p, txDescs, actual =>
    if num = 0 then (p, txDescs, actual)
    else
      let (p', txDescs', discarded) := olTxSchedDiscardSelect p num txDescs flushAll
      if discarded = 0 then (p', txDescs', actual)
      else discardLoop flushAll fuel (num - discarded) p' txDescs' (actual + discarded)

/-- How many frames `ol_tx_queue_discard` is to discard, in 16 bits. -/
def discardNum (s : HlTxPath) (flushAll : Bool) : Nat :=
  let num : Int := if flushAll then s.pool.poolSize - s.pool.rsrcCnt
    else cfg.rsrcThresholdHi s.pool.poolSize - cfg.rsrcThresholdLo s.pool.poolSize
  (num % 2 ^ 16).toNat

/-- `ol_tx_queue_discard`, and its caller's `ol_tx_desc_frame_list_free` of what it returns. -/
def olTxQueueDiscard (s : HlTxPath) (flushAll : Bool) : HlTxPath :=
  let num := discardNum cfg s flushAll
  let (hl, txDescs, actual) := discardLoop flushAll num num s.grp.hl [] 0
  ({ s with grp := { s.grp with hl := hl } }.addRsrc actual).onPool
    fun pool => olTxDescFrameListFree cfg.tx pool (txDescs.map TxFrm.id) true

/-- `ol_tx_queue_free` -/
def hlQueueFree (s : HlTxPath) (q : TxqId) : HlTxPath :=
  let (hl, frms) := olTxQueueFree s.grp.hl q (flushTid q)
  ({ s with grp := { s.grp with hl := hl } }.addRsrc (s.grp.hl.txqs q).frms).onPool
    fun pool => (frms.map TxFrm.id).foldl (olTxDescFrameFreeNonstd cfg.tx · · false) pool

/-! ### New frames -/

/-- What comes of a frame once it has its descriptor. -/
inductive FrameFate where
  /-- `goto free_tx_desc`, where the header of the frame is not right -/
  | freeTxDesc
  /-- There is no queue for it, the state of its peer forbids it, or encapsulation fails. -/
  | dropped
  /-- It goes to a queue.  `vdevCrowded` says whether its vdev has too many descriptors, where each vdev has its share. -/
  | queued (q : TxqId) (len : Nat) (vdevCrowded : Bool)

/-- A frame that `ol_tx_hl_base` is given. -/
structure HlMsdu where
  /-- the id of the vdev it is sent by -/
  vdev : Nat
  netbuf : AdfNbuf
  /-- `ol_tx_frm_std`, `ol_tx_frm_no_free` or `ol_tx_frm_tso` -/
  pktType : Nat
  /-- It is a DHCP or EAPOL frame. -/
  hiPrio : Bool
  /-- Its radiotap header exceeds `MAX_RADIOTAP_LEN`. -/
  rtapTooLong : Bool
  fate : FrameFate

/-- `ol_tx_desc_hl`, and the type that the caller sets. -/
def olTxDescHl (s : HlTxPath) (vdev : Nat) (netbuf : AdfNbuf) (pktType : Nat) :
    Option (Nat × HlTxPath) := do
  let (id, pool) ← olTxDescAllocHl s.pool
  return (id, { s with
    pool := txDescInit pool id netbuf pktType
    grp := { s.grp with descVdev := update s.grp.descVdev id vdev } })

/-- `ol_tx_enqueue`.  If few descriptors are left, queued frames are discarded before. -/
def hlEnqueue (s : HlTxPath) (id : Nat) (q : TxqId) (len : Nat) (vdevCrowded : Bool) : HlTxPath :=
  let crowded := if cfg.perVdevPool then vdevCrowded
    else s.pool.rsrcCnt ≤ cfg.rsrcThresholdLo s.pool.poolSize
  let s := if crowded then olTxQueueDiscard cfg s false else s
  { s with grp := { s.grp with hl := olTxEnqueue s.grp.hl q ⟨id, len, httTxMsduCredit⟩ } }

/-- What is done with a frame that has its descriptor. -/
def meetFate (s : HlTxPath) (id : Nat) : FrameFate → HlTxPath
  | .freeTxDesc => (s.addRsrc 1).onPool (olTxDescFree cfg.tx · id)
  | .dropped => (s.addRsrc 1).onPool (olTxDescFrameFreeNonstd cfg.tx · id true)
  | .queued q len vdevCrowded => hlEnqueue cfg s id q len vdevCrowded

/-- One turn of the loop of `ol_tx_hl_base`. -/
def olTxHlBase (s : HlTxPath) (msdu : HlMsdu) : HlTxPath :=
  if msdu.rtapTooLong then s
  else if cfg.hiPrioReserve ∧ ¬ s.pool.rsrcCnt > txrxHlTxDescHiPrioReserved ∧ ¬ msdu.hiPrio then s
  else match olTxDescHl s msdu.vdev msdu.netbuf msdu.pktType with
    | none => s
    | some (id, s) => meetFate cfg s id msdu.fate

/-- `ol_txrx_mgmt_send`.  `txq` is what `ol_tx_classify_mgmt` returns, with what `FrameFate.queued` has. -/
def olTxrxMgmtSend (s : HlTxPath) (vdev : Nat) (netbuf : AdfNbuf) (type : Nat)
    (txq : Option (TxqId × Nat × Bool)) : HlTxPath :=
  match olTxDescHl s vdev netbuf (type + olTxrxMgmtTypeBase) with
  | none => s
  | some (id, s) => meetFate cfg s id <| match txq with
    | none => .dropped
    | some (q, len, vdevCrowded) => .queued q len vdevCrowded

/-! ### The scheduler -/

/-- `ol_tx_sched`, up to its loop -/
def hlSchedStart (s : HlTxPath) : HlTxPath :=
  { s with
    grp := { s.grp with hl := olTxSchedSelectInit s.grp.hl }
    running := true
    sctx := ⟨0, []⟩ }

/-- One turn of its loop.  What it takes is in flight from here on. -/
def hlSchedTurn (s : HlTxPath) : Option HlTxPath := do
  let (hl, sctx, _) ← olTxSchedTurn s.grp.hl s.sctx
  let taken := sctx.head.drop s.sctx.head.length
  return { s with
    grp := { s.grp with
      hl := hl
      inflight := s.grp.inflight ++ taken.map fun frm => (frm.id, debited s.grp.hl hl) }
    sctx := sctx }

/-- The descriptors the running scheduler has taken. -/
def HlTxPath.scheduled (s : HlTxPath) : List Nat := s.sctx.head.map TxFrm.id

/-- `ol_tx_sched`, after its loop: HTC has what is not rejected. -/
def hlSchedDispatch (s : HlTxPath) (storageErr rejects : Nat → Bool) : HlTxPath :=
  let s' := s.onPool fun pool =>
    olTxSchedDispatch cfg.tx storageErr rejects pool s.sctx.frms s.scheduled
  { s' with
    running := false
    sctx := ⟨0, []⟩
    downloading := s.downloading ++ (s.scheduled.take s.sctx.frms).filter (!rejects ·) }.landFreed

/-! ### The target -/

def hlDownloadDone (s : HlTxPath) (id : Nat) (status : AStatus) : HlTxPath :=
  let s' := s.onPool fun pool => olTxDownloadDone cfg.tx cfg.downloadMode pool id status
  { s' with downloading := s.downloading.erase id }.landFreed

/-- What HTT credits for the frames of a completion message before it handles them.  If frames are free at download, it goes through `htt_tx_credit`, and is another event here. -/
def httCredit (s : HlTxPath) (numMsdus : Nat) : HlTxPath :=
  if cfg.txFreeAtDownload then s
  else { s with grp := { s.grp with hl := { s.grp.hl with
    targetTxCredit := s.targetTxCredit + numMsdus } } }

/-- `OL_TX_DESC_UPDATE_GROUP_CREDIT`, for each frame of the message -/
def refundAll (s : HlTxPath) (descIds : List Nat) : HlTxPath :=
  { s with grp := descIds.foldl (fun grp id => olTxDescUpdateGroupCredit grp id 1 false) s.grp }

/-- `HTT_T2H_MSG_TYPE_TX_COMPL_IND` -/
def hlTxComplInd (s : HlTxPath) (descIds : List Nat) (status : HttTxStatus) : HlTxPath :=
  ((refundAll (httCredit cfg s descIds.length) descIds).onPool fun pool =>
    olTxCompletionHandler cfg.tx pool descIds status).landFreed

/-- `ol_tx_desc_find_check`, of a descriptor `linked` to its vdev -/
def olTxDescFindCheck (pool : TxPdev) (id : Nat) (linked : Bool) : Bool :=
  id < pool.poolSize && if cfg.sanity then (pool.descs id).pktType ≠ olTxFrmFreed else linked

def olTxSingleCompletionHandler (pool : TxPdev) (id : Nat) (status : HttTxStatus) (linked : Bool) :
    TxPdev :=
  if olTxDescFindCheck cfg pool id linked then
    let pool := pool.setDesc id { pool.descs id with status := status }
    let (pool, noRefs) := olTxDescNoRefs pool id
    let pool := if noRefs then olTxDescFrameFreeNonstd cfg.tx pool id (status != .ok) else pool
    { pool with rsrcCnt := pool.rsrcCnt + 1 }
  else pool

/-- `HTT_T2H_MSG_TYPE_MGMT_TX_COMPL_IND` -/
def hlMgmtTxComplInd (s : HlTxPath) (id : Nat) (status : HttTxStatus) (linked : Bool) : HlTxPath :=
  ((refundAll (httCredit cfg s 1) [id]).onPool fun pool =>
    olTxSingleCompletionHandler cfg pool id status linked).landFreed

end Path

/-! ### Runs -/

inductive HlTxEvent where
  | hlBase (msdu : HlMsdu)
  | mgmtSend (vdev : Nat) (netbuf : AdfNbuf) (type : Nat) (txq : Option (TxqId × Nat × Bool))
  /-- `ol_tx_queue_free` -/
  | queueFree (q : TxqId)
  /-- `ol_txrx_discard_tx_pending` -/
  | discardTxPending
  | schedStart
  | schedTurn
  | schedDispatch (storageErr rejects : Nat → Bool)
  | downloadDone (id : Nat) (status : AStatus)
  | txComplInd (descIds : List Nat) (status : HttTxStatus)
  | mgmtTxComplInd (id : Nat) (status : HttTxStatus) (linked : Bool)
  /-- credit that the target grants -/
  | targetCredit (credit : Int)
  /-- a group of a credit update message -/
  | groupUpdate (groupId : Nat) (credit : Int) (absolute : Bool) (vdevIdMask acMask : BitVec 32)
  | pause (peer tid : Nat)
  | unpause (peer tid : Nat)

def hlTxStep (cfg : HlTxCfg) (s : HlTxPath) : HlTxEvent → Option HlTxPath
  | .hlBase msdu => some (olTxHlBase cfg s msdu)
  | .mgmtSend vdev netbuf type txq => some (olTxrxMgmtSend cfg s vdev netbuf type txq)
  | .queueFree q => some (hlQueueFree cfg s q)
  | .discardTxPending => some (olTxQueueDiscard cfg s true)
  | .schedStart => do
    guard (s.running = false)
    return hlSchedStart s
  | .schedTurn => do
    guard (s.running = true)
    hlSchedTurn s
  | .schedDispatch storageErr rejects => do
    guard (s.running = true)
    return hlSchedDispatch cfg s storageErr rejects
  | .downloadDone id status => do
    guard (id ∈ s.downloading)
    return hlDownloadDone cfg s id status
  | .txComplInd descIds status => do
    -- with frames free at download, this status is for frames that are gone
    guard (¬ (cfg.txFreeAtDownload = true ∧ status = .failNotify))
    return hlTxComplInd cfg s descIds status
  | .mgmtTxComplInd id status linked => some (hlMgmtTxComplInd cfg s id status linked)
  | .targetCredit credit => do
    let grp ← groupStep s.grp (.targetCredit credit)
    return { s with grp := grp }
  | .groupUpdate groupId credit absolute vdevIdMask acMask => do
    let grp ← groupStep s.grp (.update groupId credit absolute vdevIdMask acMask)
    return { s with grp := grp }
  | .pause peer tid => do
    let grp ← groupStep s.grp (.pause peer tid)
    return { s with grp := grp }
  | .unpause peer tid => do
    let grp ← groupStep s.grp (.unpause peer tid)
    return { s with grp := grp }

/-- The path before the first frame, for any vdevs and peers, groups and credits. -/
structure HlTxPath.Fresh (s : HlTxPath) : Prop where
  pool : ∃ poolSize credit descs, poolSize < 2 ^ 16 ∧ (∀ id, (descs id).refCnt = 0) ∧
    s.pool = .attached poolSize credit descs
  poolSize : s.grp.poolSize = s.pool.poolSize
  queues : ∀ q, (s.grp.hl.txqs q).frms = 0 ∧ (s.grp.hl.txqs q).head = []
  inflight : s.grp.inflight = []
  idle : s.running = false
  sctx : s.sctx = ⟨0, []⟩
  downloading : s.downloading = []

def hlTxMachine (cfg : HlTxCfg) : Machine HlTxPath HlTxEvent where
  init := HlTxPath.Fresh
  step := hlTxStep cfg

/-! ### What must hold -/

def HlTxPath.allocated (s : HlTxPath) : Nat :=
  (List.range s.pool.poolSize).countP (· ∉ s.pool.freelist)

/-- `rsrc_cnt` counts the descriptors that are not. -/
def RsrcOk (s : HlTxPath) : Prop := s.pool.rsrcCnt = s.pool.poolSize - s.allocated
deriving Decidable

/-- The frames that fail after they were scheduled. -/
def failedFrames (s : HlTxPath) : HlTxEvent → List Nat
  | .schedDispatch _ rejects => s.scheduled.filter rejects
  | .downloadDone id .error => [id]
  | .txComplInd descIds status => if status = .ok then [] else descIds
  | .mgmtTxComplInd id status _ => if status = .ok ∨ id ≥ s.pool.poolSize then [] else [id]
  | _ => []

/-- The credit of the target for a frame that failed there comes through `htt_tx_credit`. -/
def creditedByHtt (cfg : HlTxCfg) : HlTxEvent → Bool
  | .txComplInd .. | .mgmtTxComplInd .. => cfg.txFreeAtDownload
  | _ => false

/-- The frames that fail give back what they were charged. -/
structure GivesBack (cfg : HlTxCfg) (s : HlTxPath) (e : HlTxEvent) (s' : HlTxPath) : Prop where
  target : creditedByHtt cfg e = false →
    s'.targetTxCredit = s.targetTxCredit + (failedFrames s e).length
  group : ∀ group, s'.grp.hl.groupCredit group = s.grp.hl.groupCredit group +
    (failedFrames s e).countP fun id => charged s.grp id = some group

/-! ### When it does -/

/-- A frame that a completion names has been downloaded, and not been completed; if it failed, the group that is found for it is the one that paid. -/
structure CompletesOnce (s : HlTxPath) (id : Nat) (status : HttTxStatus) : Prop where
  valid : id < s.pool.poolSize
  lastRef : (s.pool.descs id).refCnt = 1
  payer : status ≠ .ok → refundGroup s.grp id = charged s.grp id

instance (s : HlTxPath) (id : Nat) (status : HttTxStatus) : Decidable (CompletesOnce s id status) :=
  decidable_of_iff (id < s.pool.poolSize ∧ (s.pool.descs id).refCnt = 1 ∧
    (status ≠ .ok → refundGroup s.grp id = charged s.grp id))
    ⟨fun h => ⟨h.1, h.2.1, h.2.2⟩, fun h => ⟨h.valid, h.lastRef, h.payer⟩⟩

/-- No frame is rejected or fails its download once it was scheduled, and a completion names each of its frames once. -/
def HlTxStepOk (s : HlTxPath) : HlTxEvent → Prop
  | .schedDispatch _ rejects => ∀ id ∈ s.scheduled, rejects id = false
  | .downloadDone _ status => status = .ok
  | .txComplInd descIds status => descIds.Nodup ∧ ∀ id ∈ descIds, CompletesOnce s id status
  | .mgmtTxComplInd id status _ => id < s.pool.poolSize → CompletesOnce s id status
  | _ => True

instance (s : HlTxPath) : (e : HlTxEvent) → Decidable (HlTxStepOk s e)
  | .schedDispatch _ rejects =>
    inferInstanceAs (Decidable (∀ id ∈ s.scheduled, rejects id = false))
  | .downloadDone _ status => inferInstanceAs (Decidable (status = .ok))
  | .txComplInd descIds status =>
    inferInstanceAs (Decidable (descIds.Nodup ∧ ∀ id ∈ descIds, CompletesOnce s id status))
  | .mgmtTxComplInd id status _ =>
    inferInstanceAs (Decidable (id < s.pool.poolSize → CompletesOnce s id status))
  | .hlBase _ | .mgmtSend .. | .queueFree _ | .discardTxPending | .schedStart | .schedTurn
  | .targetCredit _ | .groupUpdate .. | .pause .. | .unpause .. => .isTrue trivial

/-! ### What the handlers do to the descriptors -/

/-- Some frames have been freed, and `rsrc_cnt` has gone up by `n`. -/
structure Freed (s s' : TxPdev) (ids : List ℕ) (n : ℤ) : Prop where
  freelist : s'.freelist.Perm (ids ++ s.freelist)
  refCnt : ∀ x, (s'.descs x).refCnt = if x ∈ ids then 0 else (s.descs x).refCnt
  poolSize : s'.poolSize = s.poolSize
  rsrcCnt : s'.rsrcCnt = s.rsrcCnt + n
  target : s'.targetTxCredit = s.targetTxCredit

section Freed
variable {cfg : TxCfg} {s s' s'' : TxPdev} {ids ids' : List ℕ} {m n : ℤ} {id : ℕ} {hadError : Bool}

theorem Freed.refl (s : TxPdev) : Freed s s [] 0 :=
  ⟨.refl _, fun _ => by simp, rfl, (add_zero _).symm, rfl⟩

theorem Freed.trans (h : Freed s s' ids m) (h' : Freed s' s'' ids' n) :
    Freed s s'' (ids ++ ids') (m + n) where
  freelist := by
    refine h'.freelist.trans (((h.freelist.append_left ids').trans ?_))
    rw [← append_assoc]
    exact perm_append_comm.append_right _
  refCnt x := by
    rw [h'.refCnt, h.refCnt]
    by_cases hx : x ∈ ids' <;> simp [hx]
  poolSize := h'.poolSize.trans h.poolSize
  rsrcCnt := by rw [h'.rsrcCnt, h.rsrcCnt, add_assoc]
  target := h'.target.trans h.target

theorem freed_descFree (h : (s.descs id).refCnt = 0) : Freed s (olTxDescFree cfg s id) [id] 0 where
  freelist := .refl _
  refCnt x := by
    rw [refCnt_olTxDescFree]
    by_cases hx : x = id
    · simp [hx, h]
    · simp [hx]
  poolSize := rfl
  rsrcCnt := (add_zero _).symm
  target := rfl

theorem freed_frameFree : Freed s (olTxDescFrameFreeNonstd cfg s id hadError) [id] 0 where
  freelist := .refl _
  refCnt x := by simp [refCnt_frameFree]
  poolSize := rfl
  rsrcCnt := (add_zero _).symm
  target := rfl

theorem freed_frameListFreeBody : Freed s (frameListFreeBody cfg hadError s id) [id] 0 where
  freelist := .refl _
  refCnt x := by
    rw [frameListFreeBody, refCnt_olTxDescFree]
    by_cases hx : x = id
    · simp [hx]
    · simp [hx, descs_setDesc_of_ne hx]
  poolSize := rfl
  rsrcCnt := (add_zero _).symm
  target := rfl

theorem freed_foldl {f : TxPdev → ℕ → TxPdev} (hf : ∀ s id, Freed s (f s id) [id] 0) (s : TxPdev)
    (ids : List ℕ) : Freed s (ids.foldl f s) ids 0 := by
  induction ids generalizing s with
  | nil => exact .refl s
  | cons id ids ih => exact (hf s id).trans (ih (f s id))

theorem freed_frameListFree (ids : List ℕ) : Freed s (olTxDescFrameListFree cfg s ids hadError) ids 0 :=
  freed_foldl (fun _ _ => freed_frameListFreeBody) s ids

/-- Two references are taken for each of some frames, and nothing else is done. -/
structure Sent (s s' : TxPdev) (ids : List ℕ) : Prop where
  freelist : s'.freelist = s.freelist
  refCnt : ∀ x, (s'.descs x).refCnt = if x ∈ ids then 2 else (s.descs x).refCnt
  poolSize : s'.poolSize = s.poolSize
  rsrcCnt : s'.rsrcCnt = s.rsrcCnt
  target : s'.targetTxCredit = s.targetTxCredit

variable {storageErr rejects : ℕ → Bool} {batch : List ℕ}

theorem olTxSendBatch_accepted (h : ∀ id ∈ ids, rejects id = false) :
    olTxSendBatch cfg rejects s ids = s := by
  have hnone : ids.filter rejects = [] := filter_eq_nil_iff.2 fun id hid => by simp [h id hid]
  rw [olTxSendBatch, hnone]
  rfl

theorem sent_foldl (hb : ∀ id ∈ batch, rejects id = false) (h : ∀ id ∈ ids, rejects id = false) :
    Sent s (ids.foldl (dispatchBody cfg storageErr rejects) (s, batch)).1 ids ∧
      ∀ id ∈ (ids.foldl (dispatchBody cfg storageErr rejects) (s, batch)).2, rejects id = false := by
  induction ids generalizing s batch with
  | nil => exact ⟨⟨rfl, fun _ => by simp, rfl, rfl, rfl⟩, hb⟩
  | cons id ids ih =>
    obtain ⟨hid, hids⟩ := forall_mem_cons.1 h
    have hbody : ∃ batch', (∀ x ∈ batch', rejects x = false) ∧
        dispatchBody cfg storageErr rejects (s, batch) id =
          (s.setDesc id { s.descs id with refCnt := 2 }, batch') := by
      by_cases herr : storageErr id = true
      · refine ⟨[], nofun, ?_⟩
        simp [dispatchBody, herr, hid, olTxSendBatch_accepted hb]
      · refine ⟨batch ++ [id], ?_, by simp [dispatchBody, herr]⟩
        rintro x hx
        rcases mem_append.1 hx with hx | hx
        · exact hb x hx
        · rwa [mem_singleton.1 hx]
    obtain ⟨batch', hb', hbody⟩ := hbody
    rw [foldl_cons, hbody]
    obtain ⟨hsent, hrest⟩ := @ih (s.setDesc id { s.descs id with refCnt := 2 }) _ hb' hids
    refine ⟨⟨hsent.freelist, fun x => ?_, hsent.poolSize, hsent.rsrcCnt, hsent.target⟩, hrest⟩
    rw [hsent.refCnt]
    by_cases hx : x = id
    · simp [hx]
    · simp [hx, descs_setDesc_of_ne hx]

theorem sent_dispatch {head : List ℕ} (h : ∀ id ∈ head, rejects id = false) :
    Sent s (olTxSchedDispatch cfg storageErr rejects s head.length head) head := by
  have hfold : Sent s (head.foldl (dispatchBody cfg storageErr rejects) (s, [])).1 head ∧
      ∀ id ∈ (head.foldl (dispatchBody cfg storageErr rejects) (s, [])).2, rejects id = false :=
    sent_foldl nofun h
  rw [olTxSchedDispatch, take_length, olTxSendBatch_accepted hfold.2]
  exact hfold.1

end Freed

/-! ### What the target's messages do to them -/

section Messages
variable {cfg : TxCfg} {s s' : TxPdev} {ids done : List ℕ} {id : ℕ} {st : ComplLoop}
  {status : HttTxStatus}

/-- One reference of `id` is dropped, and nothing else is done. -/
structure Dropped (s s' : TxPdev) (id : ℕ) : Prop where
  freelist : s'.freelist = s.freelist
  refCnt : ∀ x, (s'.descs x).refCnt = (s.descs x).refCnt - if x = id then 1 else 0
  poolSize : s'.poolSize = s.poolSize
  rsrcCnt : s'.rsrcCnt = s.rsrcCnt
  target : s'.targetTxCredit = s.targetTxCredit

theorem dropped_noRefs : Dropped s (olTxDescNoRefs s id).1 id := by
  refine ⟨rfl, fun x => ?_, rfl, rfl, rfl⟩
  by_cases hx : x = id
  · simp [olTxDescNoRefs, hx]
  · simp [olTxDescNoRefs, descs_setDesc_of_ne hx, hx]

theorem dropped_dropRef : Dropped s (dropRef status s id) id := by
  refine ⟨rfl, fun x => ?_, rfl, rfl, rfl⟩
  by_cases hx : x = id
  · subst hx
    simp [refCnt_dropRef_self]
  · simp [descs_dropRef_of_ne hx, hx]

theorem downloadDoneBase_ok (h : (s.descs id).refCnt = 2) :
    olTxDownloadDoneBase cfg s id .ok = (olTxDescNoRefs s id).1 := by
  simp [olTxDownloadDoneBase, olTxDescNoRefs, h]

/-- What a download that succeeds does: with frames free at download, those of data are done. -/
theorem downloadDone_ok (freeAtDownload : Bool) (h : (s.descs id).refCnt = 2) :
    Dropped s (olTxDownloadDone cfg (if freeAtDownload then .hlFree else .hlRetain) s id .ok) id ∨
      Freed s (olTxDownloadDone cfg (if freeAtDownload then .hlFree else .hlRetain) s id .ok) [id] 1 := by
  cases freeAtDownload with
  | false =>
    left
    change Dropped s (olTxDownloadDoneBase cfg s id .ok) id
    rw [downloadDoneBase_ok h]
    exact dropped_noRefs
  | true =>
    change Dropped s (olTxDownloadDoneHlFree cfg s id .ok) id ∨
      Freed s (olTxDownloadDoneHlFree cfg s id .ok) [id] 1
    have hdrop : Dropped s (olTxDescNoRefs s id).1 id := dropped_noRefs
    simp only [olTxDownloadDoneHlFree, downloadDoneBase_ok h]
    split
    · right
      refine ⟨.refl _, fun x => ?_, rfl, rfl, rfl⟩
      rw [refCnt_frameFree]
      by_cases hx : x = id
      · simp [hx]
      · simpa [hx] using hdrop.refCnt x
    · exact .inl hdrop

/-- What the loop of the completion handler has done after the ids `done`, on the state `s` it started in: the descriptors are on one of its lists, or free. -/
structure Completed (cfg : TxCfg) (s : TxPdev) (done : List ℕ) (st : ComplLoop) : Prop where
  freelist : (st.lclFreelist ++ (st.txDescs ++ st.pdev.freelist)).Perm (done ++ s.freelist)
  refCnt : ∀ x, (st.pdev.descs x).refCnt = if x ∈ done then 0 else (s.descs x).refCnt
  poolSize : st.pdev.poolSize = s.poolSize
  rsrcCnt : st.pdev.rsrcCnt = s.rsrcCnt
  target : st.pdev.targetTxCredit = s.targetTxCredit
  /-- Only one of the lists is used. -/
  oneList : if cfg.singleCompletions then st.txDescs = [] else st.lclFreelist = []
  txDescs : ∀ x ∈ st.txDescs, x ∈ done

theorem completed_start : Completed cfg s [] ⟨s, [], []⟩ :=
  ⟨.refl _, fun _ => by simp, rfl, rfl, rfl, by simp, nofun⟩

theorem refCnt_markFreed (x : ℕ) :
    ((markFreed cfg st id).pdev.descs x).refCnt = (st.pdev.descs x).refCnt := by
  unfold markFreed
  split
  · by_cases hx : x = id
    · simp [hx]
    · simp [descs_setDesc_of_ne hx]
  · rfl

theorem markFreed_eq (cfg : TxCfg) (st : ComplLoop) (id : ℕ) :
    ∃ descs, markFreed cfg st id = { st with pdev := { st.pdev with descs := descs } } := by
  unfold markFreed
  split
  · exact ⟨_, rfl⟩
  · exact ⟨st.pdev.descs, rfl⟩

theorem Completed.mark (h : Completed cfg s done st) : Completed cfg s done (markFreed cfg st id) := by
  have hrefs : ∀ x, ((markFreed cfg st id).pdev.descs x).refCnt =
      if x ∈ done then 0 else (s.descs x).refCnt :=
    fun x => (refCnt_markFreed x).trans (h.refCnt x)
  obtain ⟨descs, heq⟩ := markFreed_eq cfg st id
  rw [heq] at hrefs ⊢
  exact ⟨h.freelist, hrefs, h.poolSize, h.rsrcCnt, h.target, h.oneList, h.txDescs⟩

theorem perm_done {l l' : List ℕ} (h : l.Perm (done ++ s.freelist)) (hl : l'.Perm (id :: l)) :
    l'.Perm (done ++ [id] ++ s.freelist) := by
  rw [append_assoc]
  exact (hl.trans (h.cons id)).trans perm_middle.symm

theorem Completed.body (h : Completed cfg s done st) (hid : id < s.poolSize)
    (hlast : (s.descs id).refCnt = 1) (hnew : id ∉ done) :
    Completed cfg s (done ++ [id]) (complBody cfg status st id) := by
  have hone : (st.pdev.descs id).refCnt - 1 = 0 := by simp [h.refCnt, hnew, hlast]
  have hdrop : Dropped st.pdev (dropRef status st.pdev id) id := dropped_dropRef
  have hzero : ∀ x, ((dropRef status st.pdev id).descs x).refCnt =
      if x ∈ done ++ [id] then 0 else (s.descs x).refCnt := by
    intro x
    rw [hdrop.refCnt, h.refCnt]
    by_cases hx : x = id
    · simp [hx, hnew, hlast]
    · simp [hx]
  rw [complBody_eq, if_neg (by rw [h.poolSize]; exact not_le.2 hid), if_pos hone]
  have htxDescs : ∀ x ∈ st.txDescs, x ∈ done ++ [id] :=
    fun x hx => mem_append_left [id] (h.txDescs x hx)
  unfold olTxMsduComplete
  have hlists := h.oneList
  split
  · split
    · rename_i hsingle
      rw [if_pos hsingle] at hlists
      refine mark ⟨perm_done h.freelist (.refl _), fun x => ?_, h.poolSize, h.rsrcCnt,
        h.target, by rwa [if_pos hsingle], htxDescs⟩
      by_cases hx : x = id
      · simp [olTxMsduCompleteSingle, hx]
      · simpa [olTxMsduCompleteSingle, descs_setDesc_of_ne hx] using hzero x
    · rename_i hsingle
      rw [if_neg hsingle] at hlists
      refine mark ⟨perm_done h.freelist ?_, hzero, h.poolSize, h.rsrcCnt, h.target, ?_, ?_⟩
      · simp only [hlists, nil_append, append_assoc]
        exact perm_middle
      · rwa [if_neg hsingle]
      · intro x hx
        rcases mem_append.1 hx with hx | hx
        · exact htxDescs x hx
        · exact mem_append_right done hx
  · refine ⟨perm_done h.freelist ?_, fun x => ?_, h.poolSize, h.rsrcCnt, h.target, hlists, htxDescs⟩
    · rw [freelist_frameFree, ← append_assoc, ← append_assoc]
      exact perm_middle
    · rw [refCnt_frameFree, hzero]
      by_cases hx : x = id
      · simp [hx]
      · simp [hx]

theorem completed_foldl (hnd : ids.Nodup)
    (hids : ∀ id ∈ ids, id < s.poolSize ∧ (s.descs id).refCnt = 1)
    (h : Completed cfg s done st) (hnew : ∀ id ∈ ids, id ∉ done) :
    Completed cfg s (done ++ ids) (ids.foldl (complBody cfg status) st) := by
  induction ids generalizing done st with
  | nil => simpa using h
  | cons id ids ih =>
    obtain ⟨hid, hrest⟩ := forall_mem_cons.1 hids
    obtain ⟨hnotin, hnd⟩ := nodup_cons.1 hnd
    obtain ⟨hidnew, hnew⟩ := forall_mem_cons.1 hnew
    rw [foldl_cons, ← singleton_append, ← append_assoc]
    refine ih hnd hrest (h.body hid.1 hid.2 hidnew) fun x hx => ?_
    rw [mem_append, mem_singleton]
    rintro (hxd | rfl)
    · exact hnew x hx hxd
    · exact hnotin hx

/-- **A completion message** that names frames with one reference left, each once, frees them all. -/
theorem freed_completionHandler (hl : cfg.isHighLatency = true) (hnd : ids.Nodup)
    (hids : ∀ id ∈ ids, id < s.poolSize ∧ (s.descs id).refCnt = 1) :
    Freed s (olTxCompletionHandler cfg s ids status) ids ids.length := by
  have hdone : Completed cfg s ids (ids.foldl (complBody cfg status) ⟨s, [], []⟩) :=
    completed_foldl hnd hids completed_start fun _ _ => not_mem_nil
  unfold olTxCompletionHandler
  dsimp only
  generalize ids.foldl (complBody cfg status) ⟨s, [], []⟩ = st at hdone ⊢
  rw [if_pos hl]
  have hlists := hdone.oneList
  split
  · rename_i hlcl
    have hdescs : st.txDescs = [] := by
      split at hlists
      · exact hlists
      · exact absurd hlists hlcl
    have hfree := hdone.freelist
    rw [hdescs] at hfree
    exact ⟨hfree, hdone.refCnt, hdone.poolSize, congrArg (· + _) hdone.rsrcCnt, hdone.target⟩
  · rename_i hlcl
    have hfreed : Freed st.pdev (olTxDescFrameListFree cfg st.pdev st.txDescs (status != .ok))
        st.txDescs 0 := freed_frameListFree st.txDescs
    have hfree := hdone.freelist
    rw [not_not.1 hlcl, nil_append] at hfree
    refine ⟨hfreed.freelist.trans hfree, fun x => ?_, hfreed.poolSize.trans hdone.poolSize, ?_,
      hfreed.target.trans hdone.target⟩
    · rw [hfreed.refCnt, hdone.refCnt]
      by_cases hx : x ∈ st.txDescs
      · simp [hx, hdone.txDescs x hx]
      · simp [hx]
    · rw [← hdone.rsrcCnt, hfreed.rsrcCnt, add_zero]

end Messages

/-! ### Where the descriptors are -/

inductive DescPlace where
  | free
  | queue (q : TxqId)
  /-- in the hands of the function that runs -/
  | held
  | sctx
  | downloading
  /-- downloaded, and not completed -/
  | target
  /-- There is no such descriptor. -/
  | outside

open DescPlace

/-- The references that are held on a descriptor. -/
def DescPlace.refs : DescPlace → ℤ
  | .downloading => 2
  | .target => 1
  | .free | .queue _ | .held | .sctx | .outside => 0

/-- The lists that descriptors are on, where the function that runs holds `held`. -/
def HlTxPath.shelf (s : HlTxPath) (held : List ℕ) : DescPlace → Option (List ℕ)
  | .free => some s.pool.freelist
  | .queue q => some ((s.grp.hl.txqs q).head.map TxFrm.id)
  | .held => some held
  | .sctx => some s.scheduled
  | .downloading => some s.downloading
  | .target | .outside => none

/-- Each descriptor is in the place that `loc` says. -/
structure Placed (loc : ℕ → DescPlace) (held : List ℕ) (s : HlTxPath) : Prop where
  shelved : Shelved loc (s.shelf held)
  inside : ∀ id, loc id ≠ .outside ↔ id < s.pool.poolSize
  refCnt : ∀ id, id < s.pool.poolSize → (s.pool.descs id).refCnt = (loc id).refs

section Placed
variable {loc : ℕ → DescPlace} {held held' moved : List ℕ} {s s' : HlTxPath} {p p' : DescPlace}
  {q : TxqId} {n : ℤ} {id : ℕ} {frms left : List TxFrm}

theorem Placed.move (h : Placed loc held s) (p p' : DescPlace) (hne : p ≠ p') (hin : p ≠ .outside)
    (hin' : p' ≠ .outside) (hm : moved.Nodup) (hat : ∀ x ∈ moved, loc x = p)
    (hfrom : ∀ l', s'.shelf held' p = some l' → ∃ l, s.shelf held p = some l ∧ l.Perm (moved ++ l'))
    (hto : ∀ l', s'.shelf held' p' = some l' → ∃ l, s.shelf held p' = some l ∧ l'.Perm (moved ++ l))
    (hothers : ∀ r, r ≠ p → r ≠ p' → s'.shelf held' r = s.shelf held r)
    (hsize : s'.pool.poolSize = s.pool.poolSize)
    (hrefs : ∀ x, x < s.pool.poolSize → (s'.pool.descs x).refCnt =
      if x ∈ moved then p'.refs else (s.pool.descs x).refCnt) :
    Placed (bring loc moved p') held' s' where
  shelved := h.shelved.move hne hm hat hfrom hto hothers
  inside x := by
    rw [hsize, ← h.inside x]
    by_cases hx : x ∈ moved
    · simp [hx, hin', hat x hx, hin]
    · simp [hx]
  refCnt x hx := by
    rw [hsize] at hx
    rw [hrefs x hx]
    by_cases hxm : x ∈ moved
    · simp [hxm]
    · simp [hxm, h.refCnt x hx]

theorem Placed.carry (h : Placed loc held s) (p p' : DescPlace) (hne : p ≠ p') (hin : p ≠ .outside)
    (hin' : p' ≠ .outside) (hm : moved.Nodup) (hat : ∀ x ∈ moved, loc x = p)
    (hfrom : ∀ l', s'.shelf held' p = some l' → ∃ l, s.shelf held p = some l ∧ l.Perm (moved ++ l'))
    (hto : ∀ l', s'.shelf held' p' = some l' → ∃ l, s.shelf held p' = some l ∧ l'.Perm (moved ++ l))
    (hothers : ∀ r, r ≠ p → r ≠ p' → s'.shelf held' r = s.shelf held r)
    (hsize : s'.pool.poolSize = s.pool.poolSize) (hrefs : p.refs = p'.refs)
    (hsame : ∀ x, (s'.pool.descs x).refCnt = (s.pool.descs x).refCnt) :
    Placed (bring loc moved p') held' s' := by
  refine h.move p p' hne hin hin' hm hat hfrom hto hothers hsize fun x hx => ?_
  rw [hsame x]
  split
  · rename_i hxm
    rw [h.refCnt x hx, hat x hxm, hrefs]
  · rfl

theorem Placed.at (h : Placed loc held s) {l : List ℕ} (hl : s.shelf held p = some l) :
    l.Nodup ∧ ∀ x ∈ l, loc x = p :=
  ⟨(h.shelved p l hl).nodup, fun x hx => ((h.shelved p l hl).mem_iff x).1 hx⟩

theorem Placed.congr (h : Placed loc held s) (hshelf : s'.shelf held = s.shelf held)
    (hsize : s'.pool.poolSize = s.pool.poolSize)
    (hrefs : ∀ x, (s'.pool.descs x).refCnt = (s.pool.descs x).refCnt) : Placed loc held s' where
  shelved := by
    rw [hshelf]
    exact h.shelved
  inside x := by
    rw [hsize]
    exact h.inside x
  refCnt x hx := by
    rw [hrefs]
    exact h.refCnt x (by rwa [hsize] at hx)

theorem Placed.freed (h : Placed loc held s) (hne : p ≠ .free) (hin : p ≠ .outside)
    (hm : moved.Nodup) (hat : ∀ x ∈ moved, loc x = p) {c r : ℤ} (hf : Freed { s.pool with targetTxCredit := c, rsrcCnt := r } s'.pool moved n)
    (hfrom : ∀ l', s'.shelf held' p = some l' → ∃ l, s.shelf held p = some l ∧ l.Perm (moved ++ l'))
    (hothers : ∀ r, r ≠ p → r ≠ .free → s'.shelf held' r = s.shelf held r) :
    Placed (bring loc moved .free) held' s' := by
  refine h.move p .free hne hin nofun hm hat hfrom ?_ hothers hf.poolSize fun x _ => hf.refCnt x
  rintro l' hl'
  cases hl'
  exact ⟨_, rfl, hf.freelist⟩

theorem Placed.unqueue (h : Placed loc held s) (hp' : p' = .held ∨ p' = .sctx)
    (hpool : s'.pool = s.pool)
    (hq : (s.grp.hl.txqs q).head.map TxFrm.id = moved ++ (s'.grp.hl.txqs q).head.map TxFrm.id)
    (hqs : ∀ r, r ≠ q → s'.grp.hl.txqs r = s.grp.hl.txqs r)
    (hto : ∀ l', s'.shelf held' p' = some l' → ∃ l, s.shelf held p' = some l ∧ l'.Perm (moved ++ l))
    (hothers : ∀ r, r ≠ p' → (∀ q, r ≠ .queue q) → s'.shelf held' r = s.shelf held r) :
    Placed (bring loc moved p') held' s' := by
  obtain ⟨hnd, hat⟩ := h.at (p := .queue q) rfl
  rw [hq] at hnd hat
  have hrefs : (queue q).refs = p'.refs := by
    rcases hp' with rfl | rfl <;> rfl
  refine h.carry (.queue q) p' ?_ nofun ?_ (nodup_append.1 hnd).1
    (fun x hx => hat x (mem_append_left _ hx)) ?_ hto ?_ (by rw [hpool]) hrefs
    fun x => by rw [hpool]
  · rcases hp' with rfl | rfl <;> exact nofun
  · rcases hp' with rfl | rfl <;> exact nofun
  · rintro l' hl'
    cases hl'
    exact ⟨_, rfl, by rw [hq]⟩
  · intro r hr hr'
    by_cases hqr : ∃ q', r = .queue q'
    · obtain ⟨q', rfl⟩ := hqr
      have hne : q' ≠ q := fun he => hr (congrArg queue he)
      simp [shelf, hqs q' hne]
    · exact hothers r hr' fun q' he => hqr ⟨q', he⟩

end Placed

/-! ### The invariant -/

/-- What the path keeps, where the function that runs holds `held`. -/
structure HlHolds (held : List ℕ) (s : HlTxPath) : Prop where
  placed : ∃ loc, Placed loc held s
  rsrc : s.pool.rsrcCnt = s.pool.freelist.length
  frms : ∀ q, (s.grp.hl.txqs q).frms = (s.grp.hl.txqs q).head.length
  sctx : s.sctx.frms = s.sctx.head.length
  idle : s.running = false → s.sctx = ⟨0, []⟩

section Holds
variable {cfg : HlTxCfg} {held ids : List ℕ} {s s' : HlTxPath} {p p' : HlPdev} {q : TxqId} {id : ℕ}
  {f : TxPdev → TxPdev} {txDescs : List TxFrm}

def HlTxPath.withHl (s : HlTxPath) (p : HlPdev) : HlTxPath :=
  { s with grp := { s.grp with hl := p } }

theorem HlHolds.congr (h : HlHolds held s) (hpool : s'.pool = s.pool)
    (hqs : ∀ q, (s'.grp.hl.txqs q).head = (s.grp.hl.txqs q).head ∧
      (s'.grp.hl.txqs q).frms = (s.grp.hl.txqs q).frms)
    (hsctx : s'.sctx = s.sctx) (hdown : s'.downloading = s.downloading)
    (hidle : s'.running = false → s'.sctx = ⟨0, []⟩) : HlHolds held s' := by
  obtain ⟨loc, hloc⟩ := h.placed
  have hshelf : s'.shelf held = s.shelf held := by
    ext r
    cases r <;> simp [shelf, scheduled, hpool, hqs, hsctx, hdown]
  refine ⟨⟨loc, hloc.congr hshelf (by rw [hpool]) fun x => by rw [hpool]⟩, ?_, fun q => ?_, ?_, hidle⟩
  · rw [hpool, h.rsrc]
  · rw [(hqs q).1, (hqs q).2, h.frms q]
  · rw [hsctx, h.sctx]

theorem HlHolds.freed {held' : List ℕ} {c r n : ℤ} (h : HlHolds held s) (place : DescPlace)
    (hne : place ≠ .free) (hin : place ≠ .outside) (hnd : ids.Nodup)
    (hat : ∀ loc, Placed loc held s → ∀ x ∈ ids, loc x = place)
    (hf : Freed { s.pool with targetTxCredit := c, rsrcCnt := r } s'.pool ids n)
    (hcount : r + n = s.pool.rsrcCnt + ids.length)
    (hfrom : ∀ l', s'.shelf held' place = some l' →
      ∃ l, s.shelf held place = some l ∧ l.Perm (ids ++ l'))
    (hothers : ∀ x, x ≠ place → x ≠ .free → s'.shelf held' x = s.shelf held x)
    (hqs : s'.grp.hl.txqs = s.grp.hl.txqs) (hsctx : s'.sctx = s.sctx)
    (hrun : s'.running = s.running) : HlHolds held' s' := by
  obtain ⟨loc, hloc⟩ := h.placed
  refine ⟨⟨_, hloc.freed hne hin hnd (hat loc hloc) hf hfrom hothers⟩, ?_, ?_, ?_, ?_⟩
  · rw [hf.rsrcCnt, hf.freelist.length_eq, length_append]
    simp only [hcount, h.rsrc]
    push_cast
    exact add_comm _ _
  · rw [hqs]
    exact h.frms
  · rw [hsctx]
    exact h.sctx
  · rw [hsctx, hrun]
    exact h.idle

theorem HlHolds.release (h : HlHolds (held ++ ids) s)
    (hf : ∀ pool : TxPdev, (∀ x ∈ ids, (pool.descs x).refCnt = 0) → Freed pool (f pool) ids 0) :
    HlHolds held ((s.addRsrc ids.length).onPool f) := by
  obtain ⟨loc, hloc⟩ := h.placed
  have hzero : ∀ x ∈ ids, (s.pool.descs x).refCnt = 0 := by
    intro x hx
    have hplace := (hloc.at (p := .held) rfl).2 x (mem_append_right held hx)
    have hin : x < s.pool.poolSize := (hloc.inside x).1 (by rw [hplace]; exact nofun)
    rw [hloc.refCnt x hin, hplace]
    rfl
  have hfreed : Freed { s.pool with
      targetTxCredit := s.targetTxCredit
      rsrcCnt := s.pool.rsrcCnt + ids.length } ((s.addRsrc ids.length).onPool f).pool ids 0 :=
    hf _ hzero
  refine h.freed .held nofun nofun
    (nodup_append.1 (hloc.at (p := .held) rfl).1).2.1 ?_ hfreed (add_zero _) ?_ ?_ rfl rfl rfl
  · intro loc hloc x hx
    exact (hloc.at (p := .held) rfl).2 x (mem_append_right held hx)
  · rintro l' hl'
    cases hl'
    exact ⟨_, rfl, perm_append_comm⟩
  · intro r hr hr'
    cases r <;> first | rfl | contradiction

theorem HlHolds.unqueue {place : DescPlace} {held' : List ℕ} {txq : TxFrmsQueue}
    {moved : List TxFrm} (h : HlHolds held s) (hplace : place = .held ∨ place = .sctx)
    (hpool : s'.pool = s.pool)
    (ht : s'.grp.hl.txqs = update s.grp.hl.txqs q txq)
    (hsplit : (s.grp.hl.txqs q).head = moved ++ txq.head) (hfrms : txq.frms = txq.head.length)
    (hsctx : s'.sctx.frms = s'.sctx.head.length)
    (hidle : s'.running = false → s'.sctx = ⟨0, []⟩)
    (hto : ∀ l', s'.shelf held' place = some l' →
      ∃ l, s.shelf held place = some l ∧ l'.Perm (moved.map TxFrm.id ++ l))
    (hothers : ∀ r, r ≠ place → (∀ q, r ≠ .queue q) → s'.shelf held' r = s.shelf held r) :
    HlHolds held' s' := by
  obtain ⟨loc, hloc⟩ := h.placed
  have hq : (s.grp.hl.txqs q).head.map TxFrm.id =
      moved.map TxFrm.id ++ (s'.grp.hl.txqs q).head.map TxFrm.id := by
    simp [ht, hsplit]
  have hqs : ∀ r, r ≠ q → s'.grp.hl.txqs r = s.grp.hl.txqs r := by
    intro r hr
    rw [ht, update_of_ne hr]
  refine ⟨⟨_, hloc.unqueue hplace hpool hq hqs hto hothers⟩, ?_, fun r => ?_, hsctx, hidle⟩
  · rw [hpool, h.rsrc]
  · by_cases hr : r = q
    · simp [ht, hr, hfrms]
    · rw [hqs r hr, h.frms r]

theorem HlHolds.grab {txq : TxFrmsQueue} {moved : List TxFrm} (h : HlHolds held s)
    (ht : p.txqs = update s.grp.hl.txqs q txq)
    (hsplit : (s.grp.hl.txqs q).head = moved ++ txq.head) (hfrms : txq.frms = txq.head.length) :
    HlHolds (held ++ moved.map TxFrm.id) (s.withHl p) := by
  refine h.unqueue (.inl rfl) rfl ht hsplit hfrms h.sctx h.idle ?_ ?_
  · rintro l' hl'
    cases hl'
    exact ⟨_, rfl, perm_append_comm⟩
  · intro r hr hrq
    cases r <;> first | rfl | exact absurd rfl (hrq _) | exact absurd rfl hr

theorem HlHolds.queueFree (h : HlHolds [] s) (q : TxqId) : HlHolds [] (hlQueueFree cfg s q) := by
  have hfrms : (olTxQueueFree s.grp.hl q (flushTid q)).2 = (s.grp.hl.txqs q).head := by
    simp [olTxQueueFree, txqs_notifyDeactivate, h.frms q]
  have hgrab : HlHolds ([] ++ (s.grp.hl.txqs q).head.map TxFrm.id)
      (s.withHl (olTxQueueFree s.grp.hl q (flushTid q)).1) :=
    h.grab (txqs_queueFree s.grp.hl q (flushTid q)) (by simp [emptied]) rfl
  have hfree := hgrab.release (f := fun pool =>
    ((s.grp.hl.txqs q).head.map TxFrm.id).foldl (olTxDescFrameFreeNonstd cfg.tx · · false) pool)
    fun pool _ => freed_foldl (fun _ _ => freed_frameFree) pool _
  unfold hlQueueFree
  dsimp only
  rw [hfrms, h.frms q]
  rwa [length_map] at hfree

theorem HlHolds.discardLoop (flushAll : Bool) (fuel num : ℕ) {actual : ℕ}
    (h : HlHolds (held ++ txDescs.map TxFrm.id) (s.withHl p)) (hactual : actual = txDescs.length) :
    HlHolds (held ++ (discardLoop flushAll fuel num p txDescs actual).2.1.map TxFrm.id)
        (s.withHl (discardLoop flushAll fuel num p txDescs actual).1) ∧
      (discardLoop flushAll fuel num p txDescs actual).2.2 =
        (discardLoop flushAll fuel num p txDescs actual).2.1.length := by
  induction fuel generalizing num p txDescs actual with
  | zero => exact ⟨h, hactual⟩
  | succ fuel ih =>
    unfold Qcacld.Txrx.discardLoop
    split
    · exact ⟨h, hactual⟩
    · have hsel : HlHolds (held ++ (olTxSchedDiscardSelect p num txDescs flushAll).2.1.map TxFrm.id)
            (s.withHl (olTxSchedDiscardSelect p num txDescs flushAll).1) ∧
          (olTxSchedDiscardSelect p num txDescs flushAll).2.1.length =
            txDescs.length + (olTxSchedDiscardSelect p num txDescs flushAll).2.2 := by
        have hfrms : ∀ q, (p.txqs q).frms = (p.txqs q).head.length := h.frms
        rcases discardSelect_spec hfrms num txDescs flushAll with he | ⟨q, moved, left, hd⟩
        · rw [he]
          exact ⟨h, rfl⟩
        · rw [hd.txDescs_eq, hd.frames, map_append, ← append_assoc, length_append]
          exact ⟨h.grab hd.txqs hd.split rfl, rfl⟩
      obtain ⟨hholds, hlen⟩ := hsel
      dsimp only
      split
      · rename_i hnone
        refine ⟨hholds, ?_⟩
        rw [hlen, hnone, hactual, add_zero]
      · refine ih _ hholds ?_
        rw [hlen, hactual]

theorem HlHolds.queueDiscard (h : HlHolds held s) (flushAll : Bool) :
    HlHolds held (olTxQueueDiscard cfg s flushAll) := by
  have hstart : HlHolds (held ++ ([] : List TxFrm).map TxFrm.id) (s.withHl s.grp.hl) := by
    rw [map_nil, append_nil]
    exact h
  obtain ⟨hloop, hactual⟩ :=
    hstart.discardLoop flushAll (discardNum cfg s flushAll) (discardNum cfg s flushAll) rfl
  unfold olTxQueueDiscard
  dsimp only
  generalize Qcacld.Txrx.discardLoop flushAll _ _ s.grp.hl [] 0 = r at hloop hactual ⊢
  rw [hactual]
  have hfree := hloop.release (f := fun pool =>
    olTxDescFrameListFree cfg.tx pool (r.2.1.map TxFrm.id) true)
    fun pool _ => freed_frameListFree _
  rwa [length_map] at hfree

/-! ### New frames -/

theorem HlHolds.alloc {vdev pktType : ℕ} {netbuf : AdfNbuf} (h : HlHolds [] s)
    (ha : olTxDescHl s vdev netbuf pktType = some (id, s')) : HlHolds ([] ++ [id]) s' := by
  obtain ⟨loc, hloc⟩ := h.placed
  obtain ⟨⟨id', pool⟩, hhl, hs'⟩ := bind_eq_some_iff.1 ha
  obtain ⟨⟨id'', pool'⟩, hpop, hpool⟩ := bind_eq_some_iff.1 hhl
  cases hpool
  cases hs'
  have hlist : s.pool.freelist = id :: pool'.freelist ∧ pool'.descs = s.pool.descs ∧
      pool'.poolSize = s.pool.poolSize ∧ pool'.rsrcCnt = s.pool.rsrcCnt := by
    unfold olTxDescAlloc at hpop
    split at hpop
    · cases hpop
    · rename_i hfree
      cases hpop
      exact ⟨hfree, rfl, rfl, rfl⟩
  obtain ⟨hfree, hdescs, hsize, hrsrc⟩ := hlist
  have hid : loc id = .free := (hloc.at (p := .free) rfl).2 id (by rw [hfree]; exact mem_cons_self)
  refine ⟨⟨_, hloc.carry .free .held nofun nofun nofun
    (nodup_singleton id) ?_ ?_ ?_ ?_ hsize rfl ?_⟩, ?_, h.frms, h.sctx, h.idle⟩
  · intro x hx
    rwa [mem_singleton.1 hx]
  · rintro l' hl'
    cases hl'
    exact ⟨_, rfl, .of_eq hfree⟩
  · rintro l' hl'
    cases hl'
    exact ⟨_, rfl, .refl _⟩
  · intro r hr hr'
    cases r <;> first | rfl | contradiction
  · intro x
    by_cases hx : x = id
    · simp [txDescInit, hx, hdescs]
    · simp [txDescInit, descs_setDesc_of_ne hx, hdescs]
  · change pool'.rsrcCnt - 1 = pool'.freelist.length
    rw [hrsrc, h.rsrc, hfree, length_cons]
    push_cast
    exact add_sub_cancel_right _ _

theorem HlHolds.enqueue (h : HlHolds ([] ++ [id]) s) (q : TxqId) (len : ℕ) :
    HlHolds [] (s.withHl (olTxEnqueue s.grp.hl q ⟨id, len, httTxMsduCredit⟩)) := by
  obtain ⟨loc, hloc⟩ := h.placed
  have htxqs := txqs_enqueue s.grp.hl q ⟨id, len, httTxMsduCredit⟩
  refine ⟨⟨_, hloc.carry .held (.queue q) nofun nofun nofun
    (nodup_singleton id) (hloc.at (p := .held) rfl).2 ?_ ?_ ?_ rfl rfl fun _ => rfl⟩, h.rsrc,
    fun r => ?_, h.sctx, h.idle⟩
  · rintro l' hl'
    cases hl'
    exact ⟨_, rfl, .refl _⟩
  · rintro l' hl'
    cases hl'
    refine ⟨_, rfl, ?_⟩
    simp only [withHl, htxqs, update_self, enqueued, map_append]
    exact perm_append_comm
  · intro r hr hr'
    cases r with
    | queue r =>
      have hne : r ≠ q := fun he => hr' (congrArg queue he)
      simp [shelf, withHl, htxqs, hne]
    | _ => first | rfl | contradiction
  · simp only [withHl, htxqs]
    by_cases hr : r = q
    · simp [hr, enqueued, h.frms q]
    · simp [hr, h.frms r]

theorem HlHolds.meetFate (h : HlHolds ([] ++ [id]) s) (fate : FrameFate) :
    HlHolds [] (meetFate cfg s id fate) := by
  cases fate with
  | freeTxDesc =>
    exact h.release fun pool hzero => freed_descFree (hzero id mem_cons_self)
  | dropped => exact h.release fun pool _ => freed_frameFree
  | queued q len vdevCrowded =>
    have hroom : ∀ crowded : Bool,
        HlHolds ([] ++ [id]) (if crowded then olTxQueueDiscard cfg s false else s) := by
      intro crowded
      cases crowded with
      | false => exact h
      | true => exact h.queueDiscard false
    exact (hroom _).enqueue q len

theorem HlHolds.hlBase (h : HlHolds [] s) (msdu : HlMsdu) : HlHolds [] (olTxHlBase cfg s msdu) := by
  unfold olTxHlBase
  split_ifs
  · exact h
  · exact h
  · split
    · exact h
    · rename_i ha
      exact (h.alloc ha).meetFate _

theorem HlHolds.mgmtSend (h : HlHolds [] s) (vdev : ℕ) (netbuf : AdfNbuf) (type : ℕ)
    (txq : Option (TxqId × ℕ × Bool)) : HlHolds [] (olTxrxMgmtSend cfg s vdev netbuf type txq) := by
  unfold olTxrxMgmtSend
  split
  · exact h
  · rename_i ha
    exact (h.alloc ha).meetFate _

/-! ### Scheduled frames -/

theorem HlHolds.schedStart (h : HlHolds [] s) (hrun : s.running = false) :
    HlHolds [] (hlSchedStart s) :=
  h.congr rfl (fun _ => ⟨rfl, rfl⟩) (h.idle hrun).symm rfl fun _ => rfl

theorem HlHolds.schedTurn (h : HlHolds [] s) (hrun : s.running = true)
    (hs : hlSchedTurn s = some s') : HlHolds [] s' := by
  obtain ⟨⟨hl, sctx, n⟩, hturn, hs⟩ := bind_eq_some_iff.1 hs
  obtain ⟨-, hturn⟩ := guard_bind_eq_some.1 hturn
  obtain ⟨⟨p, sctx', n'⟩, hbatch, hturn⟩ := bind_eq_some_iff.1 hturn
  cases hturn
  cases hs
  have hrunning : s.running = false → sctx = ⟨0, []⟩ := by
    rw [hrun]
    exact nofun
  rcases selectBatch_batch h.frms hbatch with hi | ⟨c, q, moved, left, hk⟩
  · refine h.congr rfl (fun q => ?_) hi.sctx_eq rfl hrunning
    simp [hi.txqs]
  · refine h.unqueue (.inr rfl) rfl hk.txqs hk.split rfl ?_ hrunning ?_ ?_
    · change sctx.frms = sctx.head.length
      rw [hk.sctx_eq, length_append, ← h.sctx]
    · rintro l' hl'
      cases hl'
      refine ⟨_, rfl, ?_⟩
      simp only [scheduled, hk.sctx_eq, map_append]
      exact perm_append_comm
    · intro r hr hrq
      cases r <;> first | rfl | exact absurd rfl (hrq _) | exact absurd rfl hr

theorem HlHolds.schedDispatch {storageErr rejects : ℕ → Bool} (h : HlHolds [] s)
    (hok : ∀ id ∈ s.scheduled, rejects id = false) :
    HlHolds [] (hlSchedDispatch cfg s storageErr rejects) := by
  obtain ⟨loc, hloc⟩ := h.placed
  have hlen : s.sctx.frms = s.scheduled.length := by rw [h.sctx, scheduled, length_map]
  have hsent : Sent { s.pool with targetTxCredit := s.targetTxCredit }
      (hlSchedDispatch cfg s storageErr rejects).pool s.scheduled := by
    simp only [hlSchedDispatch, landFreed, onPool, hlen]
    exact sent_dispatch hok
  have hdown : (hlSchedDispatch cfg s storageErr rejects).downloading =
      s.downloading ++ s.scheduled := by
    simp only [hlSchedDispatch, landFreed, hlen, take_length]
    rw [filter_eq_self.2 fun id hid => by simp [hok id hid]]
  obtain ⟨hnd, hat⟩ := hloc.at (p := .sctx) rfl
  refine ⟨⟨_, hloc.move .sctx .downloading nofun nofun nofun hnd hat ?_ ?_ ?_
    hsent.poolSize fun x _ => hsent.refCnt x⟩, ?_, h.frms, rfl, fun _ => rfl⟩
  · rintro l' hl'
    cases hl'
    exact ⟨_, rfl, .of_eq (append_nil _).symm⟩
  · rintro l' hl'
    cases hl'
    refine ⟨_, rfl, ?_⟩
    rw [hdown]
    exact perm_append_comm
  · intro r hr hr'
    cases r with
    | free => exact congrArg some hsent.freelist
    | _ => first | rfl | contradiction
  · rw [hsent.rsrcCnt, hsent.freelist]
    exact h.rsrc

theorem HlHolds.downloadDone (h : HlHolds [] s) (hid : id ∈ s.downloading) :
    HlHolds [] (hlDownloadDone cfg s id .ok) := by
  obtain ⟨loc, hloc⟩ := h.placed
  have hat : ∀ loc, Placed loc [] s → ∀ x ∈ [id], loc x = .downloading := by
    intro loc hloc x hx
    rw [mem_singleton.1 hx]
    exact (hloc.at (p := .downloading) rfl).2 id hid
  have hplace := hat loc hloc id mem_cons_self
  have hin : id < s.pool.poolSize := (hloc.inside id).1 (by rw [hplace]; exact nofun)
  have hrefs : (s.pool.descs id).refCnt = 2 := by
    rw [hloc.refCnt id hin, hplace]
    rfl
  have hfrom : ∀ l', (hlDownloadDone cfg s id .ok).shelf [] .downloading = some l' →
      ∃ l, s.shelf [] .downloading = some l ∧ l.Perm ([id] ++ l') := by
    rintro l' hl'
    cases hl'
    exact ⟨_, rfl, perm_cons_erase hid⟩
  have hdone : Dropped { s.pool with targetTxCredit := s.targetTxCredit }
        (hlDownloadDone cfg s id .ok).pool id ∨
      Freed { s.pool with targetTxCredit := s.targetTxCredit }
        (hlDownloadDone cfg s id .ok).pool [id] 1 :=
    downloadDone_ok cfg.txFreeAtDownload hrefs
  rcases hdone with hdrop | hfreed
  · refine ⟨⟨_, hloc.move .downloading .target nofun nofun nofun
      (nodup_singleton id) (hat loc hloc) hfrom nofun ?_ hdrop.poolSize fun x _ => ?_⟩, ?_,
      h.frms, h.sctx, h.idle⟩
    · intro r hr hr'
      cases r with
      | free => exact congrArg some hdrop.freelist
      | _ => first | rfl | contradiction
    · rw [hdrop.refCnt]
      by_cases hx : x = id
      · simp [hx, hrefs, refs]
      · simp [hx]
    · rw [hdrop.rsrcCnt, hdrop.freelist]
      exact h.rsrc
  · refine h.freed .downloading nofun nofun (nodup_singleton id) hat hfreed rfl hfrom ?_ rfl rfl rfl
    intro r hr hr'
    cases r <;> first | rfl | contradiction

/-! ### Completed frames -/

theorem refundAll_eq (s : HlTxPath) (ids : List ℕ) : ∃ groupCredit,
    refundAll s ids = s.withHl { s.grp.hl with groupCredit := groupCredit } ∧
      ∀ group, groupCredit group =
        s.grp.hl.groupCredit group + ids.countP fun id => refundGroup s.grp id = some group := by
  induction ids generalizing s with
  | nil => exact ⟨s.grp.hl.groupCredit, rfl, fun _ => by simp⟩
  | cons id ids ih =>
    obtain ⟨credit, hone⟩ : ∃ credit, olTxDescUpdateGroupCredit s.grp id 1 false =
        { s.grp with hl := { s.grp.hl with groupCredit := credit } } := by
      unfold olTxDescUpdateGroupCredit
      split
      · exact ⟨_, rfl⟩
      · exact ⟨s.grp.hl.groupCredit, rfl⟩
    have hcredit : ∀ group, credit group =
        s.grp.hl.groupCredit group + if refundGroup s.grp id = some group then 1 else 0 := by
      intro group
      have hpaid := groupCredit_refund s.grp id group
      rwa [hone] at hpaid
    obtain ⟨groupCredit, heq, hsum⟩ := ih (s.withHl { s.grp.hl with groupCredit := credit })
    refine ⟨groupCredit, ?_, fun group => ?_⟩
    · rw [refundAll, foldl_cons, hone]
      exact heq
    · rw [hsum]
      change credit group + ids.countP (fun id => decide (refundGroup s.grp id = some group)) = _
      rw [hcredit, countP_cons]
      simp only [decide_eq_true_eq]
      split <;> push_cast <;> omega

theorem HlHolds.httCredit (h : HlHolds held s) (numMsdus : ℕ) :
    HlHolds held (httCredit cfg s numMsdus) := by
  unfold Qcacld.Txrx.httCredit
  split
  · exact h
  · exact h.congr rfl (fun _ => ⟨rfl, rfl⟩) rfl rfl h.idle

theorem HlHolds.refundAll (h : HlHolds held s) (ids : List ℕ) : HlHolds held (refundAll s ids) := by
  obtain ⟨groupCredit, heq, -⟩ := refundAll_eq s ids
  rw [heq]
  exact h.congr rfl (fun _ => ⟨rfl, rfl⟩) rfl rfl h.idle

theorem Placed.at_target {loc : ℕ → DescPlace} (h : Placed loc held s) (hid : id < s.pool.poolSize)
    (hlast : (s.pool.descs id).refCnt = 1) : loc id = .target := by
  rw [h.refCnt id hid] at hlast
  cases hloc : loc id with
  | target => rfl
  | _ =>
    rw [hloc] at hlast
    simp [refs] at hlast

theorem HlHolds.complete (h : HlHolds [] s) (hnd : ids.Nodup)
    (hids : ∀ id ∈ ids, id < s.pool.poolSize ∧ (s.pool.descs id).refCnt = 1)
    (hf : Freed { s.pool with targetTxCredit := s.targetTxCredit } (s.onPool f).pool ids ids.length) :
    HlHolds [] (s.onPool f).landFreed := by
  refine h.freed .target nofun nofun hnd ?_ hf rfl nofun ?_ rfl rfl rfl
  · intro loc hloc id hid
    exact hloc.at_target (hids id hid).1 (hids id hid).2
  · intro r hr hr'
    cases r <;> first | rfl | contradiction

theorem pool_credited (cfg : HlTxCfg) (s : HlTxPath) (n : ℕ) (ids : List ℕ) :
    (Qcacld.Txrx.refundAll (Qcacld.Txrx.httCredit cfg s n) ids).pool = s.pool := by
  obtain ⟨groupCredit, heq, -⟩ := refundAll_eq (Qcacld.Txrx.httCredit cfg s n) ids
  rw [heq]
  unfold Qcacld.Txrx.httCredit
  split <;> rfl

theorem HlHolds.txComplInd {status : HttTxStatus} (h : HlHolds [] s) (hnd : ids.Nodup)
    (hids : ∀ id ∈ ids, CompletesOnce s id status) : HlHolds [] (hlTxComplInd cfg s ids status) := by
  have hpool := pool_credited cfg s ids.length ids
  have hlast : ∀ id ∈ ids, id < s.pool.poolSize ∧ (s.pool.descs id).refCnt = 1 :=
    fun id hid => ⟨(hids id hid).valid, (hids id hid).lastRef⟩
  refine ((h.httCredit ids.length).refundAll ids).complete hnd (by rwa [hpool]) ?_
  have hlatency : cfg.tx.isHighLatency = true := rfl
  refine freed_completionHandler hlatency hnd ?_
  simp only [hpool]
  exact hlast

theorem freed_singleCompletionHandler {pool : TxPdev} {status : HttTxStatus} {linked : Bool}
    (hlast : id < pool.poolSize → (pool.descs id).refCnt = 1) :
    Freed pool (olTxSingleCompletionHandler cfg pool id status linked) [] 0 ∨
      id < pool.poolSize ∧ Freed pool (olTxSingleCompletionHandler cfg pool id status linked) [id] 1 := by
  unfold olTxSingleCompletionHandler
  by_cases hcheck : olTxDescFindCheck cfg pool id linked = true
  · have hid : id < pool.poolSize := by
      have hboth := hcheck
      simp only [olTxDescFindCheck, Bool.and_eq_true, decide_eq_true_eq] at hboth
      exact hboth.1
    have hdrop : Dropped pool (dropRef status pool id) id := dropped_dropRef
    rw [if_pos hcheck]
    refine .inr ⟨hid, ?_⟩
    have hnone : (olTxDescNoRefs (pool.setDesc id { pool.descs id with status := status }) id).2 =
        true := by
      simp [olTxDescNoRefs, hlast hid]
    dsimp only
    rw [if_pos hnone]
    have hfree : Freed (dropRef status pool id) (olTxDescFrameFreeNonstd cfg.tx (dropRef status pool id)
        id (status != .ok)) [id] 0 := freed_frameFree
    refine ⟨hfree.freelist, fun x => ?_, hfree.poolSize, rfl, hfree.target⟩
    refine (hfree.refCnt x).trans ?_
    rw [hdrop.refCnt]
    by_cases hx : x = id
    · simp [hx]
    · simp [hx]
  · rw [if_neg hcheck]
    exact .inl (.refl pool)

theorem HlHolds.mgmtTxComplInd {status : HttTxStatus} {linked : Bool} (h : HlHolds [] s)
    (hid : id < s.pool.poolSize → CompletesOnce s id status) :
    HlHolds [] (hlMgmtTxComplInd cfg s id status linked) := by
  have hpool := pool_credited cfg s 1 [id]
  have hcredited : HlHolds [] (Qcacld.Txrx.refundAll (Qcacld.Txrx.httCredit cfg s 1) [id]) :=
    (h.httCredit 1).refundAll [id]
  unfold hlMgmtTxComplInd
  generalize Qcacld.Txrx.refundAll (Qcacld.Txrx.httCredit cfg s 1) [id] = t at hpool hcredited ⊢
  have hlast : id < t.pool.poolSize → (t.pool.descs id).refCnt = 1 := by
    rw [hpool]
    exact fun hlt => (hid hlt).lastRef
  have hdone : Freed { t.pool with targetTxCredit := t.targetTxCredit }
        (t.onPool (olTxSingleCompletionHandler cfg · id status linked)).pool [] 0 ∨
      id < t.pool.poolSize ∧ Freed { t.pool with targetTxCredit := t.targetTxCredit }
        (t.onPool (olTxSingleCompletionHandler cfg · id status linked)).pool [id] 1 :=
    freed_singleCompletionHandler hlast
  rcases hdone with hskip | ⟨hlt, hfree⟩
  · exact hcredited.complete nodup_nil nofun hskip
  · refine hcredited.complete (nodup_singleton id) (fun x hx => ?_) hfree
    rw [mem_singleton.1 hx]
    exact ⟨hlt, hlast hlt⟩

/-! ### What changes no list -/

def SameFrames (p p' : HlPdev) : Prop :=
  ∀ q, (p'.txqs q).head = (p.txqs q).head ∧ (p'.txqs q).frms = (p.txqs q).frms

theorem SameFrames.of_update {txq : TxFrmsQueue} (ht : p'.txqs = update p.txqs q txq)
    (hhead : txq.head = (p.txqs q).head) (hfrms : txq.frms = (p.txqs q).frms) : SameFrames p p' := by
  intro r
  rw [ht]
  by_cases hr : r = q
  · simp [hr, hhead, hfrms]
  · simp [hr]

theorem sameFrames_pause (peer tid : ℕ) : SameFrames p (olTxrxPeerTidPauseBase p peer tid) :=
  .of_update txqs_tidPause rfl rfl

theorem sameFrames_unpause (peer tid : ℕ) : SameFrames p (olTxrxPeerTidUnpauseBase p peer tid) := by
  refine .of_update txqs_tidUnpause ?_ ?_ <;>
    · unfold unpausedOnce
      split <;> rfl

theorem sameFrames_groupUpdate (grp : GroupPdev) (groupId : ℕ) (credit : ℤ) (absolute : Bool)
    (vdevIdMask acMask : BitVec 32) :
    SameFrames grp.hl (olTxrxUpdateTxQueueGroups grp groupId credit absolute vdevIdMask acMask).hl := by
  have hvdevs : ∀ old vdevs,
      SameFrames grp.hl (updateVdevs groupId old vdevIdMask grp vdevs).hl := by
    intro old vdevs
    refine foldl_keeps (P := fun t : GroupPdev => SameFrames grp.hl t.hl) (fun t vdevId _ ht => ?_)
      fun _ => ⟨rfl, rfl⟩
    split
    · intro q
      rw [← (ht q).1, ← (ht q).2]
      simp only [olTxSetVdevGroupPtr]
      split <;> exact ⟨rfl, rfl⟩
    · exact ht
  unfold olTxrxUpdateTxQueueGroups
  split
  · exact fun _ => ⟨rfl, rfl⟩
  · unfold updateMembership
    dsimp only
    split
    · exact fun _ => ⟨rfl, rfl⟩
    · exact hvdevs _ _

theorem HlHolds.sameFrames {grp : GroupPdev} (h : HlHolds [] s)
    (hf : SameFrames s.grp.hl grp.hl) : HlHolds [] { s with grp := grp } :=
  h.congr rfl hf rfl rfl h.idle

/-! ### Runs -/

/-- **The step lemma.** -/
theorem HlHolds.step {e : HlTxEvent} (h : HlHolds [] s) (hok : HlTxStepOk s e)
    (hs : hlTxStep cfg s e = some s') : HlHolds [] s' := by
  cases e with
  | hlBase msdu =>
    cases hs
    exact h.hlBase msdu
  | mgmtSend vdev netbuf type txq =>
    cases hs
    exact h.mgmtSend vdev netbuf type txq
  | queueFree q =>
    cases hs
    exact h.queueFree q
  | discardTxPending =>
    cases hs
    exact h.queueDiscard true
  | schedStart =>
    obtain ⟨hrun, rfl⟩ := guarded_eq_some.1 hs
    exact h.schedStart hrun
  | schedTurn =>
    obtain ⟨hrun, hturn⟩ := guard_bind_eq_some.1 hs
    exact h.schedTurn hrun hturn
  | schedDispatch storageErr rejects =>
    obtain ⟨-, rfl⟩ := guarded_eq_some.1 hs
    exact h.schedDispatch hok
  | downloadDone id status =>
    obtain ⟨hid, rfl⟩ := guarded_eq_some.1 hs
    have hstatus : status = .ok := hok
    rw [hstatus]
    exact h.downloadDone hid
  | txComplInd descIds status =>
    obtain ⟨-, rfl⟩ := guarded_eq_some.1 hs
    exact h.txComplInd hok.1 hok.2
  | mgmtTxComplInd id status linked =>
    cases hs
    exact h.mgmtTxComplInd hok
  | targetCredit credit =>
    cases hs
    exact h.sameFrames fun _ => ⟨rfl, rfl⟩
  | groupUpdate groupId credit absolute vdevIdMask acMask =>
    cases hs
    exact h.sameFrames (sameFrames_groupUpdate _ _ _ _ _ _)
  | pause peer tid =>
    obtain ⟨grp, hgrp, hs⟩ := bind_eq_some_iff.1 hs
    obtain ⟨-, rfl⟩ := guarded_eq_some.1 hgrp
    cases hs
    exact h.sameFrames (sameFrames_pause peer tid)
  | unpause peer tid =>
    obtain ⟨grp, hgrp, hs⟩ := bind_eq_some_iff.1 hs
    obtain ⟨-, rfl⟩ := guarded_eq_some.1 hgrp
    cases hs
    exact h.sameFrames (sameFrames_unpause peer tid)

theorem hlHolds_fresh (h : s.Fresh) : HlHolds [] s := by
  obtain ⟨poolSize, credit, descs, -, hrefs, hpool⟩ := h.pool
  have hfree : s.pool.freelist = range poolSize := by rw [hpool]; rfl
  have hsize : s.pool.poolSize = poolSize := by rw [hpool]; rfl
  have hempty : ∀ p : DescPlace, p ≠ .free → p ≠ .outside →
      Lists (fun id => if id < poolSize then free else .outside) p ([] : List ℕ) := by
    intro p hp hp'
    refine lists_nil_iff.2 fun id => ?_
    split
    · exact hp.symm
    · exact hp'.symm
  refine ⟨⟨fun id => if id < poolSize then .free else .outside, ?_, ?_, ?_⟩, ?_, fun q => ?_, ?_, ?_⟩
  · intro p l hl
    cases p with
    | free =>
      cases hl
      rw [hfree]
      refine ⟨nodup_range, fun id => ?_⟩
      rw [mem_range]
      by_cases hid : id < poolSize <;> simp [hid]
    | queue q =>
      cases hl
      rw [(h.queues q).2]
      exact hempty _ nofun nofun
    | held =>
      cases hl
      exact hempty _ nofun nofun
    | sctx =>
      cases hl
      rw [scheduled, h.sctx]
      exact hempty _ nofun nofun
    | downloading =>
      cases hl
      rw [h.downloading]
      exact hempty _ nofun nofun
    | target => cases hl
    | outside => cases hl
  · intro id
    rw [hsize]
    by_cases hid : id < poolSize <;> simp [hid]
  · intro id hid
    rw [hsize] at hid
    rw [hpool, if_pos hid]
    exact hrefs id
  · rw [hfree, hpool]
    simp [TxPdev.attached]
  · rw [(h.queues q).1, (h.queues q).2]
    rfl
  · rw [h.sctx]
    rfl
  · exact fun _ => h.sctx

theorem countP_notMem {l : List ℕ} {n : ℕ} (hnd : l.Nodup) (hl : ∀ x ∈ l, x < n) :
    (range n).countP (· ∉ l) + l.length = n := by
  have hperm : ((range n).filter (· ∈ l)).Perm l := by
    refine (perm_ext_iff_of_nodup (nodup_range.filter _) hnd).2 fun x => ?_
    simp only [mem_filter, mem_range, decide_eq_true_eq]
    exact and_iff_right_of_imp (hl x)
  have hcount := length_eq_countP_add_countP (fun x => decide (x ∈ l)) (l := range n)
  rw [length_range, countP_eq_length_filter, hperm.length_eq] at hcount
  rw [add_comm]
  simpa using hcount.symm

theorem HlHolds.rsrcOk (h : HlHolds [] s) : RsrcOk s := by
  obtain ⟨loc, hloc⟩ := h.placed
  obtain ⟨hnd, hat⟩ := hloc.at (p := .free) rfl
  have hlt : ∀ x ∈ s.pool.freelist, x < s.pool.poolSize := by
    intro x hx
    refine (hloc.inside x).1 ?_
    rw [hat x hx]
    exact nofun
  have hcount := countP_notMem hnd hlt
  rw [RsrcOk, h.rsrc, allocated]
  omega

/-! ### What is given back -/

theorem credited_spec (cfg : HlTxCfg) (s : HlTxPath) (ids : List ℕ) {status : HttTxStatus}
    (hstatus : status ≠ .ok) (hids : ∀ id ∈ ids, CompletesOnce s id status) :
    (cfg.txFreeAtDownload = false →
      (refundAll (httCredit cfg s ids.length) ids).targetTxCredit = s.targetTxCredit + ids.length) ∧
    ∀ group, (refundAll (httCredit cfg s ids.length) ids).grp.hl.groupCredit group =
      s.grp.hl.groupCredit group + ids.countP fun id => charged s.grp id = some group := by
  obtain ⟨groupCredit, heq, hsum⟩ := refundAll_eq (httCredit cfg s ids.length) ids
  have hpayer : ∀ group, ids.countP (fun id => refundGroup s.grp id = some group) =
      ids.countP fun id => charged s.grp id = some group := by
    intro group
    refine countP_congr fun id hid => ?_
    rw [(hids id hid).payer hstatus]
  rw [heq]
  unfold httCredit at hsum ⊢
  split at hsum
  · rename_i hfree
    simp only [hfree, if_true]
    exact ⟨nofun, fun group => by rw [← hpayer]; exact hsum group⟩
  · rename_i hfree
    simp only [hfree]
    exact ⟨fun _ => rfl, fun group => by rw [← hpayer]; exact hsum group⟩

theorem target_singleCompletionHandler {pool : TxPdev} {status : HttTxStatus} {linked : Bool} :
    (olTxSingleCompletionHandler cfg pool id status linked).targetTxCredit = pool.targetTxCredit := by
  unfold olTxSingleCompletionHandler
  dsimp only
  split
  · split <;> rfl
  · rfl

theorem target_completionHandler {status : HttTxStatus} (hnd : ids.Nodup)
    (hids : ∀ id ∈ ids, CompletesOnce s id status) :
    (hlTxComplInd cfg s ids status).targetTxCredit =
      (refundAll (httCredit cfg s ids.length) ids).targetTxCredit := by
  have hlatency : cfg.tx.isHighLatency = true := rfl
  refine (freed_completionHandler hlatency hnd fun id hid => ?_).target
  simp only [pool_credited]
  exact ⟨(hids id hid).valid, (hids id hid).lastRef⟩

theorem givesBack {e : HlTxEvent} (hok : HlTxStepOk s e) (hs : hlTxStep cfg s e = some s')
    (hfailed : failedFrames s e ≠ []) : GivesBack cfg s e s' := by
  cases e with
  | schedDispatch storageErr rejects =>
    refine absurd (filter_eq_nil_iff.2 fun id hid => ?_) hfailed
    rw [hok id hid]
    exact Bool.false_ne_true
  | downloadDone id status =>
    have hstatus : status = .ok := hok
    subst hstatus
    exact absurd rfl hfailed
  | txComplInd descIds status =>
    obtain ⟨-, rfl⟩ := guarded_eq_some.1 hs
    obtain ⟨hnd, hids⟩ := hok
    by_cases hstatus : status = .ok
    · exact absurd (if_pos hstatus) hfailed
    have hframes : failedFrames s (.txComplInd descIds status) = descIds := if_neg hstatus
    obtain ⟨htarget, hgroup⟩ := credited_spec cfg s descIds hstatus hids
    refine ⟨fun hcredit => ?_, fun group => ?_⟩
    · rw [hframes, target_completionHandler hnd hids, htarget hcredit]
    · rw [hframes]
      exact hgroup group
  | mgmtTxComplInd id status linked =>
    cases hs
    by_cases hskip : status = .ok ∨ id ≥ s.pool.poolSize
    · exact absurd (if_pos hskip) hfailed
    have hframes : failedFrames s (.mgmtTxComplInd id status linked) = [id] := if_neg hskip
    obtain ⟨hstatus, hid⟩ := not_or.1 hskip
    obtain ⟨htarget, hgroup⟩ := credited_spec cfg s [id] hstatus fun x hx => by
      rw [mem_singleton.1 hx]
      exact hok (not_le.1 hid)
    refine ⟨fun hcredit => ?_, fun group => ?_⟩
    · rw [hframes]
      exact target_singleCompletionHandler.trans (htarget hcredit)
    · rw [hframes]
      exact hgroup group
  | _ => exact absurd rfl hfailed

/-- **Resources are conserved.**  In a run that rejects or loses no frame once it was scheduled, and whose completions name the frames that are due, `rsrc_cnt` counts the descriptors that are not allocated, and the frames that fail give back what they were charged. -/
theorem hl_resources_conserved (cfg : HlTxCfg) (s : HlTxPath)
    (h : (hlTxMachine cfg).Reach HlTxStepOk s) :
    RsrcOk s ∧ ∀ e s', HlTxStepOk s e → hlTxStep cfg s e = some s' → failedFrames s e ≠ [] →
      GivesBack cfg s e s' := by
  have hholds : HlHolds [] s :=
    h.invariant (HlHolds []) (fun _ => hlHolds_fresh) fun _ _ _ hi hok hs => hi.step hok hs
  exact ⟨hholds.rsrcOk, fun _ _ hok hs hfailed => givesBack hok hs hfailed⟩

/-! ### A frame's way -/

/-- SDIO keeps the frames until they are completed here. -/
def retainCfg : HlTxCfg where
  sanity := false
  singleCompletions := false
  txDataCallback := false
  txFreeAtDownload := false
  hiPrioReserve := false
  perVdevPool := false

/-- A voice queue of group 0, of 8 descriptors, with credit for all. -/
def voicePath : HlTxPath where
  grp := { GroupPdev.attached sdioSpecs 20 8 with
    hl := .attached (fun _ => some 0) sdioSpecs 20 fun _ => 10
    membership := fun _ => olTxqGroupMembershipGet 0b10 0xf
    vdevs := [1]
    peers := [(0, 1)] }
  pool := .attached 8 0 fun _ => ⟨.next, 0, .ok, olTxFrmStd⟩
  running := false
  sctx := ⟨0, []⟩
  downloading := []

theorem voicePath_fresh : voicePath.Fresh where
  pool := ⟨8, 0, _, by decide, fun _ => rfl, rfl⟩
  poolSize := rfl
  queues _ := ⟨rfl, rfl⟩
  inflight := rfl
  idle := rfl
  sctx := rfl
  downloading := rfl

def voiceScheduled : List HlTxEvent :=
  [.hlBase ⟨1, 5, olTxFrmStd, false, false, .queued (.peer 0 6) 100 false⟩, .schedStart, .schedTurn]

theorem hl_resources_conserved_noAck : ∃ s,
    (hlTxMachine retainCfg).run voicePath
      (voiceScheduled ++ [.schedDispatch (fun _ => false) fun _ => false, .downloadDone 0 .ok]) = some s ∧
    HlTxStepOk s (.txComplInd [0] .noAck) ∧ RsrcOk s ∧
    ∀ e s', HlTxStepOk s e → hlTxStep retainCfg s e = some s' → failedFrames s e ≠ [] →
      GivesBack retainCfg s e s' :=
  Machine.exists_reach_of (q := fun s => HlTxStepOk s (.txComplInd [0] .noAck)) voicePath_fresh
    (by decide +kernel) (by decide +kernel) fun s hr hok =>
      ⟨hok, hl_resources_conserved retainCfg s hr⟩

/-- The download of the frame fails.  Its descriptor is free again and the target is paid back; `rsrc_cnt` and the credit of the group stay one short. -/
theorem failed_download_leaks : ∃ s,
    (hlTxMachine retainCfg).Reach (fun _ _ => True) s ∧ s.allocated = 0 ∧
      s.pool.rsrcCnt = 7 ∧ s.targetTxCredit = 20 ∧ s.grp.hl.groupCredit 0 = 9 ∧ ¬ RsrcOk s := by
  obtain ⟨s, hs, hends⟩ : ∃ s, (hlTxMachine retainCfg).run voicePath (voiceScheduled ++
      [.schedDispatch (fun _ => false) fun _ => false, .downloadDone 0 .error]) = some s ∧
      s.allocated = 0 ∧ s.pool.rsrcCnt = 7 ∧ s.targetTxCredit = 20 ∧
      s.grp.hl.groupCredit 0 = 9 ∧ ¬ RsrcOk s :=
    Machine.exists_run (by decide +kernel)
  exact ⟨s, Machine.reach_of_run voicePath_fresh hs, hends⟩

end Holds

end Qcacld.Txrx

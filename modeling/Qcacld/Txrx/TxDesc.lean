import Mathlib.Algebra.Group.Nat.Defs
import Qcacld.Adf.Nbuf

/-!
# Txrx — TxDesc

Tx descriptors: the pool they are allocated from and returned to, the two references a frame has once it is handed down (the download and the target), and the handlers that drop them: `ol_tx_send` and its kin, the download-done callbacks, and `ol_tx_completion_handler`.

The build is the one that counts references (no `ATH_11AC_TXCOMPACT`).  What the callbacks a client may register do with a frame is left out, and so is the call of `ol_tx_sched` from the completion handler: the scheduler takes its steps by itself.
-/

namespace Qcacld.Txrx
open Qcacld.Adf Function

/-- `ol_tx_frm_std` and the other values of `enum ol_tx_frm_type`; management frames have their type above `OL_TXRX_MGMT_TYPE_BASE`. -/
def olTxFrmStd : Nat := 0
def olTxFrmTso : Nat := 1
def olTxFrmAudio : Nat := 2
def olTxFrmNoFree : Nat := 3
def olTxFrmFreed : Nat := 0xff
def olTxrxMgmtTypeBase : Nat := 4

/-- `A_STATUS`, as far as the download-done callbacks look at it. -/
inductive AStatus where
  | ok
  | error
deriving DecidableEq

/-- `enum htt_tx_status`. -/
inductive HttTxStatus where
  | ok
  | discard
  | noAck
  | downloadFail
  | peerDel
  | failNotify
deriving DecidableEq

/-- The first word of `union ol_tx_desc_list_elem_t`: the frame of a descriptor in use, the link of one on a free list. -/
inductive DescWord where
  | netbuf (msdu : AdfNbuf)
  | next
deriving DecidableEq

/-- `struct ol_tx_desc_t`. -/
structure OlTxDesc where
  word : DescWord
  refCnt : Int
  status : HttTxStatus
  pktType : Nat

inductive ReleasePath where
  | dataCallback
  | txFree
  | nbufFree

/-- A frame given back, and whether with an error. -/
structure Release where
  path : ReleasePath
  word : DescWord
  hadError : Bool

/-- The build flags and the configuration the handlers look at. -/
structure TxCfg where
  /-- `QCA_SUPPORT_TXDESC_SANITY_CHECKS` -/
  sanity : Bool
  /-- `QCA_TX_SINGLE_COMPLETIONS` -/
  singleCompletions : Bool
  /-- `CONFIG_HL_SUPPORT` or `TX_CREDIT_RECLAIM_SUPPORT`: the host tracks the target's credit. -/
  tracksCredit : Bool
  /-- `pdev->cfg.is_high_latency` -/
  isHighLatency : Bool
  /-- `pdev->tx_data_callback.func` is registered. -/
  txDataCallback : Bool

/-- What the tx path keeps in `struct ol_txrx_pdev_t`.  `released` records the frames given back. -/
structure TxPdev where
  poolSize : Nat
  descs : Nat → OlTxDesc
  freelist : List Nat
  numFree : Nat
  rsrcCnt : Int
  targetTxCredit : Int
  released : List Release

namespace TxPdev

def setDesc (s : TxPdev) (id : Nat) (desc : OlTxDesc) : TxPdev :=
  { s with descs := update s.descs id desc }

end TxPdev

section SetDesc
variable {s : TxPdev} {id id' : Nat} {desc : OlTxDesc}

@[simp] theorem descs_setDesc_self : (s.setDesc id desc).descs id = desc :=
  update_self ..

theorem descs_setDesc_of_ne (h : id' ≠ id) : (s.setDesc id desc).descs id' = s.descs id' :=
  update_of_ne h ..

end SetDesc

section Handlers
variable (cfg : TxCfg)

def olTxDescAlloc (s : TxPdev) : Option (Nat × TxPdev) :=
  match s.freelist with
  | [] => none
  | id :: rest => some (id, { s with numFree := (s.numFree + 0xffff) % 2 ^ 16, freelist := rest })

def olTxDescAllocHl (s : TxPdev) : Option (Nat × TxPdev) := do
  let (id, s) ← olTxDescAlloc s
  return (id, { s with rsrcCnt := s.rsrcCnt - 1 })

/-- The fields of a new descriptor that the sender fills in. -/
def txDescInit (s : TxPdev) (id : Nat) (netbuf : AdfNbuf) (pktType : Nat) : TxPdev :=
  s.setDesc id { s.descs id with word := .netbuf netbuf, pktType := pktType }

def olTxDescFree (s : TxPdev) (id : Nat) : TxPdev :=
  let desc := s.descs id
  let desc := if cfg.sanity then { desc with pktType := olTxFrmFreed } else desc
  { s.setDesc id { desc with word := .next } with
    freelist := id :: s.freelist, numFree := (s.numFree + 1) % 2 ^ 16 }

/-- Which way `ol_tx_desc_frame_free_nonstd` gives the frame back. -/
def frameReleasePath (pktType : Nat) : ReleasePath :=
  if pktType = olTxFrmNoFree ∧ cfg.txDataCallback then .dataCallback
  else if pktType = olTxFrmTso then .txFree
  else if pktType ≥ olTxrxMgmtTypeBase ∧ pktType ≠ olTxFrmFreed then .nbufFree
  else .txFree

def olTxDescFrameFreeNonstd (s : TxPdev) (id : Nat) (hadError : Bool) : TxPdev :=
  let desc := s.descs id
  let s := s.setDesc id { desc with refCnt := 0 }
  let s := { s with
    released := s.released ++ [⟨frameReleasePath cfg desc.pktType, desc.word, hadError⟩] }
  olTxDescFree cfg s id

/-- `OL_TX_TARGET_CREDIT_ADJUST`, by the credit of one frame, which is 1. -/
def olTxTargetCreditAdjust (s : TxPdev) (factor : Int) : TxPdev :=
  if cfg.tracksCredit then { s with targetTxCredit := s.targetTxCredit + factor } else s

/-- `ol_tx_send_base`: charge the credit, and take the download's and the target's reference. -/
def olTxSendBase (s : TxPdev) (id : Nat) : TxPdev :=
  let s := olTxTargetCreditAdjust cfg s (-1)
  s.setDesc id { s.descs id with refCnt := 2 }

def txSendWith (failed : Bool) (s : TxPdev) (id : Nat) : TxPdev :=
  let s := olTxSendBase cfg s id
  if failed then olTxDescFrameFreeNonstd cfg (olTxTargetCreditAdjust cfg s 1) id true else s

/-- `ol_tx_send`; `failed` is what `htt_tx_send_std` returns. -/
def olTxSend (s : TxPdev) (id : Nat) (failed : Bool) : TxPdev := txSendWith cfg failed s id

/-- `ol_tx_send_nonstd`; `failed` is what `htt_tx_send_nonstd` returns. -/
def olTxSendNonstd (s : TxPdev) (id : Nat) (failed : Bool) : TxPdev := txSendWith cfg failed s id

/-- `ol_tx_send_batch`, for the frames of the descriptors `ids`.  `rejects` is what `htt_tx_send_base` answers for each; `htt_tx_send_batch` collects the rejected frames in reverse. -/
def olTxSendBatch (rejects : Nat → Bool) (s : TxPdev) (ids : List Nat) : TxPdev :=
  (ids.filter rejects).reverse.foldl
    (fun s id => olTxDescFrameFreeNonstd cfg (olTxTargetCreditAdjust cfg s 1) id true) s

/-- One turn of the loop of `ol_tx_sched_dispatch`, on the state and the batch so far.  `storageErr` is `OL_TX_MSDU_ID_STORAGE_ERR`. -/
def dispatchBody (storageErr rejects : Nat → Bool) (st : TxPdev × List Nat) (id : Nat) :
    TxPdev × List Nat :=
  let s := st.1.setDesc id { st.1.descs id with refCnt := 2 }
  if storageErr id then
    let s := olTxSendBatch cfg rejects s st.2
    if rejects id then
      (olTxDescFrameFreeNonstd cfg (olTxTargetCreditAdjust cfg s 1) id true, [])
    else (s, [])
  else (s, st.2 ++ [id])

/-- `ol_tx_sched_dispatch`, for `frms` frames of the list `head`. -/
def olTxSchedDispatch (storageErr rejects : Nat → Bool) (s : TxPdev) (frms : Nat)
    (head : List Nat) : TxPdev :=
  let st := (head.take frms).foldl (dispatchBody cfg storageErr rejects) (s, [])
  olTxSendBatch cfg rejects st.1 st.2

/-- `OL_TX_DESC_NO_REFS`: drop a reference, and say whether it was the last. -/
def olTxDescNoRefs (s : TxPdev) (id : Nat) : TxPdev × Bool :=
  let refCnt := (s.descs id).refCnt - 1
  (s.setDesc id { s.descs id with refCnt := refCnt }, refCnt == 0)

def olTxDownloadDoneBase (s : TxPdev) (id : Nat) (status : AStatus) : TxPdev :=
  match status with
  | .error => olTxDescFrameFreeNonstd cfg (olTxTargetCreditAdjust cfg s 1) id true
  | .ok =>
    let (s, noRefs) := olTxDescNoRefs s id
    if noRefs then olTxDescFrameFreeNonstd cfg s id ((s.descs id).status != .ok) else s

def olTxDownloadDoneLl (s : TxPdev) (id : Nat) (status : AStatus) : TxPdev :=
  olTxDownloadDoneBase cfg s id status

def olTxDownloadDoneHlRetain (s : TxPdev) (id : Nat) (status : AStatus) : TxPdev :=
  olTxDownloadDoneBase cfg s id status

def olTxDownloadDoneHlFree (s : TxPdev) (id : Nat) (status : AStatus) : TxPdev :=
  let s := olTxDownloadDoneBase cfg s id status
  if (s.descs id).pktType ≠ olTxFrmNoFree ∧ (s.descs id).pktType < olTxrxMgmtTypeBase then
    olTxDescFrameFreeNonstd cfg { s with rsrcCnt := s.rsrcCnt + 1 } id (status != .ok)
  else s

/-- `tx_send_complete_part2`: the callback HTT is given when it attaches. -/
inductive DownloadMode where
  | ll
  | hlRetain
  | hlFree
deriving DecidableEq

def olTxDownloadDone : DownloadMode → TxPdev → Nat → AStatus → TxPdev
  | .ll => olTxDownloadDoneLl cfg
  | .hlRetain => olTxDownloadDoneHlRetain cfg
  | .hlFree => olTxDownloadDoneHlFree cfg

/-! ### Completion -/

/-- The completion handler's loop variables: the local freelist, and the descriptors whose frames are to be freed as a batch. -/
structure ComplLoop where
  pdev : TxPdev
  lclFreelist : List Nat
  txDescs : List Nat

def olTxMsduCompleteSingle (st : ComplLoop) (id : Nat) : ComplLoop :=
  let desc := st.pdev.descs id
  let s := st.pdev.setDesc id { desc with refCnt := 0, word := .next }
  { st with
    pdev := { s with released := s.released ++ [⟨.nbufFree, desc.word, false⟩] }
    lclFreelist := id :: st.lclFreelist }

/-- The sanity mark of a descriptor that `ol_tx_msdu_complete` did not free itself. -/
def markFreed (st : ComplLoop) (id : Nat) : ComplLoop :=
  if cfg.sanity then
    { st with pdev := st.pdev.setDesc id { st.pdev.descs id with pktType := olTxFrmFreed } }
  else st

/-- `ol_tx_msdu_complete`, and the sanity mark that follows it. -/
def olTxMsduComplete (status : HttTxStatus) (st : ComplLoop) (id : Nat) : ComplLoop :=
  if (st.pdev.descs id).pktType = olTxFrmStd then
    if cfg.singleCompletions then markFreed cfg (olTxMsduCompleteSingle st id) id
    else markFreed cfg { st with txDescs := st.txDescs ++ [id] } id
  else { st with pdev := olTxDescFrameFreeNonstd cfg st.pdev id (status != .ok) }

def complBody (status : HttTxStatus) (st : ComplLoop) (id : Nat) : ComplLoop :=
  if id ≥ st.pdev.poolSize then st
  else
    let s := st.pdev.setDesc id { st.pdev.descs id with status := status }
    let (s, noRefs) := olTxDescNoRefs s id
    if noRefs then olTxMsduComplete cfg status { st with pdev := s } id
    else { st with pdev := s }

/-- One turn of the loop of `ol_tx_desc_frame_list_free`. -/
def frameListFreeBody (hadError : Bool) (s : TxPdev) (id : Nat) : TxPdev :=
  let desc := s.descs id
  let s := s.setDesc id { desc with refCnt := 0 }
  olTxDescFree cfg { s with released := s.released ++ [⟨.txFree, desc.word, hadError⟩] } id

def olTxDescFrameListFree (s : TxPdev) (txDescs : List Nat) (hadError : Bool) : TxPdev :=
  txDescs.foldl (frameListFreeBody cfg hadError) s

/-- `ol_tx_completion_handler`, for the ids of one message. -/
def olTxCompletionHandler (s : TxPdev) (descIds : List Nat) (status : HttTxStatus) : TxPdev :=
  let numMsdus := descIds.length
  let st := descIds.foldl (complBody cfg status) ⟨s, [], []⟩
  let s := if st.lclFreelist ≠ [] then
      { st.pdev with
        freelist := st.lclFreelist ++ st.pdev.freelist
        numFree := (st.pdev.numFree + numMsdus % 2 ^ 16) % 2 ^ 16 }
    else olTxDescFrameListFree cfg st.pdev st.txDescs (status != .ok)
  if cfg.isHighLatency then { s with rsrcCnt := s.rsrcCnt + numMsdus }
  else olTxTargetCreditAdjust cfg s numMsdus

end Handlers

section DropRef
variable {cfg : TxCfg} {s : TxPdev} {id : ℕ} {st : ComplLoop} {status : HttTxStatus}

/-- The state `OL_TX_DESC_NO_REFS` leaves, in the loop's body. -/
def dropRef (status : HttTxStatus) (s : TxPdev) (id : ℕ) : TxPdev :=
  (olTxDescNoRefs (s.setDesc id { s.descs id with status := status }) id).1

theorem refCnt_dropRef_self : ((dropRef status s id).descs id).refCnt = (s.descs id).refCnt - 1 := by
  simp [dropRef, olTxDescNoRefs]

theorem descs_dropRef_of_ne {x : ℕ} (h : x ≠ id) : (dropRef status s id).descs x = s.descs x := by
  rw [dropRef, olTxDescNoRefs, descs_setDesc_of_ne h, descs_setDesc_of_ne h]

theorem pktType_dropRef (x : ℕ) :
    ((dropRef status s id).descs x).pktType = (s.descs x).pktType := by
  by_cases hx : x = id
  · subst hx
    simp [dropRef, olTxDescNoRefs]
  · rw [descs_dropRef_of_ne hx]

theorem refCnt_dropRef_of_ne (x : ℕ) (hx : x ≠ id) :
    ((dropRef status s id).descs x).refCnt = (s.descs x).refCnt :=
  congrArg OlTxDesc.refCnt (descs_dropRef_of_ne hx)

theorem complBody_eq : complBody cfg status st id =
    if id ≥ st.pdev.poolSize then st
    else if (st.pdev.descs id).refCnt - 1 = 0 then
      olTxMsduComplete cfg status { st with pdev := dropRef status st.pdev id } id
    else { st with pdev := dropRef status st.pdev id } := by
  simp [complBody, olTxDescNoRefs, dropRef]

end DropRef

/-- The pool as `ol_txrx_pdev_attach` leaves it. -/
def TxPdev.attached (poolSize : Nat) (targetTxCredit : Int) (descs : Nat → OlTxDesc) : TxPdev where
  poolSize := poolSize
  descs := descs
  freelist := List.range poolSize
  numFree := poolSize
  rsrcCnt := poolSize
  targetTxCredit := targetTxCredit
  released := []

end Qcacld.Txrx

import Qcacld.Support.Logged
import Qcacld.Htt.HttTxCredit

/-!
# Htt — HttT2h

The messages the target sends.  `htt_t2h_msg_handler` decodes a message, calls the data path, and frees the buffer the message came in; what it does not know it leaves to `htt_t2h_lp_msg_handler`.  On a high latency device the frames come in the messages themselves, and four of the calls take the buffer.

The handlers are programs that log every use of the buffer (`T2hAction`).  `message_disposed_once` says that one use frees the buffer or gives it away, and is the last, for every message and every configuration but for one: a CFR dump without a payload, which is never freed.
-/

namespace Qcacld.Htt
open Qcacld.Support List
open Qcacld.Support.Logged

/-! ### Messages -/

/-- A message: the words in memory from its start on, and `adf_nbuf_len`. -/
structure T2hMsg where
  word : Nat → UInt32
  len : Nat

def httWordGet (mask shift word : UInt32) : Nat := ((word &&& mask) >>> shift).toNat

/-- `enum htt_t2h_msg_type`, as far as the host knows it -/
inductive T2hMsgType where
  | versionConf | rxInd | rxFlush | peerMap | peerUnmap | rxAddba | rxDelba | txComplInd | pktlog
  | statsConf | rxFragInd | secInd | txInspectInd | mgmtTxComplInd | txCreditUpdateInd | rxPnInd
  | rxOffloadDeliverInd | rxInOrdPaddrInd | wdiIpaOpResponse | rxOfldPktErr | rateReport
  | monitorMacHeaderInd | cfrDumpComplInd | other

def T2hMsgType.decode : Nat → T2hMsgType
  | 0x0 => .versionConf
  | 0x1 => .rxInd
  | 0x2 => .rxFlush
  | 0x3 => .peerMap
  | 0x4 => .peerUnmap
  | 0x5 => .rxAddba
  | 0x6 => .rxDelba
  | 0x7 => .txComplInd
  | 0x8 => .pktlog
  | 0x9 => .statsConf
  | 0xa => .rxFragInd
  | 0xb => .secInd
  | 0xd => .txInspectInd
  | 0xe => .mgmtTxComplInd
  | 0xf => .txCreditUpdateInd
  | 0x10 => .rxPnInd
  | 0x11 => .rxOffloadDeliverInd
  | 0x12 => .rxInOrdPaddrInd
  | 0x14 => .wdiIpaOpResponse
  | 0x16 => .rxOfldPktErr
  | 0x17 => .rateReport
  | 0x20 => .monitorMacHeaderInd
  | 0x22 => .cfrDumpComplInd
  | _ => .other

def httT2hMsgTypeGet (w : UInt32) : T2hMsgType := .decode (httWordGet 0xff 0 w)
def httT2hPayloadPresentGet (w : UInt32) : Nat := httWordGet 0x100 8 w

def httVerConfMajorGet := httWordGet 0x00ff0000 16
def httVerConfMinorGet := httWordGet 0x0000ff00 8
def httRxIndPeerIdGet := httWordGet 0xffff0000 16
def httRxIndExtTidGet := httWordGet 0x1f00 8
def httRxIndFwRxDescBytesGet := httWordGet 0xffff 0
def httRxIndNumMpduRangesGet := httWordGet 0xff000000 24
def httRxFlushPeerIdGet := httWordGet 0xffff00 8
def httRxFlushTidGet := httWordGet 0xff000000 24
def httRxFlushSeqNumStartGet := httWordGet 0x00ff0000 16
def httRxFlushSeqNumEndGet := httWordGet 0xff000000 24
def httRxFlushMpduStatusGet := httWordGet 0x0000ff00 8
def httRxOffloadDeliverIndMsduCntGet := httWordGet 0xffff0000 16
def httRxFragIndPeerIdGet := httRxIndPeerIdGet
def httRxFragIndExtTidGet := httRxIndExtTidGet
def httRxFragIndFwRxDescBytesGet := httRxIndFwRxDescBytesGet
def httRxAddbaPeerIdGet := httWordGet 0xfff00000 20
def httRxAddbaTidGet := httWordGet 0xf0000 16
def httRxAddbaWinSizeGet := httWordGet 0xff00 8
def httRxDelbaPeerIdGet := httRxAddbaPeerIdGet
def httRxDelbaTidGet := httRxAddbaTidGet
def httRxPeerMapPeerIdGet := httWordGet 0xffff0000 16
def httRxPeerMapVdevIdGet := httWordGet 0xff00 8
def httRxPeerUnmapPeerIdGet := httRxPeerMapPeerIdGet
def httSecIndPeerIdGet := httWordGet 0xffff0000 16
def httSecIndSecTypeGet := httWordGet 0x00007f00 8
def httSecIndUnicastGet := httWordGet 0x00008000 15
def httTxCreditDeltaAbsGet := httWordGet 0xffff0000 16
def httTxCreditSignBitGet := httWordGet 0x00000100 8
def httWdiIpaOpResponseOpCodeGet := httWordGet 0xffff0000 16
def httWdiIpaOpResponseRspLenGet := httWordGet 0x0000ffff 0
def httRxOfldPktErrMsgSubTypeGet := httWordGet 0x0000ff00 8
def httRxOfldPktErrMicErrPeerIdGet := httWordGet 0x0000ffff 0
def httRxOfldPktErrMicErrKeyidGet := httWordGet 0x00ff0000 16
def httPeerRateReportMsgPeerCountGet := httWordGet 0xffff0000 16
def httPeerRateReportMsgPeerIdGet := httWordGet 0x0000ffff 0
def httPeerRateReportMsgPhyGet := httWordGet 0x000f0000 16
def httTxComplIndStatusGet := httWordGet 0x00000700 8
def httTxComplIndNumGet := httWordGet 0x00ff0000 16
def httTxComplIndTidGet := httWordGet 0x00007800 11
def httRxPnIndPeerIdGet := httWordGet 0xffff00 8
def httRxPnIndExtTidGet := httWordGet 0xff000000 24
def httRxPnIndSeqNumStartGet := httWordGet 0x000000ff 0
def httRxPnIndSeqNumEndGet := httWordGet 0x0000ff00 8
def httRxPnIndPnIeCntGet := httWordGet 0x00ff0000 16
def httRxInOrdPaddrIndPeerIdGet := httWordGet 0xffff0000 16
def httRxInOrdPaddrIndExtTidGet := httWordGet 0x00001f00 8
def httRxInOrdPaddrIndOffloadGet := httWordGet 0x00002000 13
def httRxInOrdPaddrIndFragGet := httWordGet 0x00004000 14

/-- `payload[i]` of a `htt_tx_compl_ind_base` -/
def T2hMsg.payload (m : T2hMsg) (i : Nat) : Nat :=
  httWordGet (if i % 2 = 0 then 0xffff else 0xffff0000) (if i % 2 = 0 then 0 else 16)
    (m.word (1 + i / 2))

/-- Write `payload[i]`. -/
def T2hMsg.setPayload (m : T2hMsg) (i v : Nat) : T2hMsg :=
  let w := m.word (1 + i / 2)
  let w : UInt32 :=
    if i % 2 = 0 then (w &&& 0xffff0000) ||| UInt32.ofNat v
    else (w &&& 0x0000ffff) ||| (UInt32.ofNat v <<< (16 : UInt32))
  { m with word := Function.update m.word (1 + i / 2) w }

/-! ### What the handlers do -/

structure RateReport where
  id : Nat
  phy : Nat
  rate : UInt32
deriving DecidableEq

/-- The events `wdi_event_handler` is given. -/
inductive WdiEvent where
  | txStatus | rateFind | rateUpdate | rxDesc
deriving DecidableEq

/-- What a handler does: with the message, and with the rest of the driver. -/
inductive T2hAction where
  /-- word `i` is read -/
  | read (i : Nat)
  /-- `payload[i]` is read, or written -/
  | readPayload (i : Nat)
  | writePayload (i : Nat)
  /-- the first bytes are copied -/
  | copy (bytes : Nat)
  /-- `adf_nbuf_free` -/
  | free
  -- calls that are given the buffer
  | olRxIndicationHandler (peerId tid numMpduRanges : Nat)
  | olRxMonIndicationHandler (peerId tid numMpduRanges : Nat)
  | olRxOffloadDeliverIndHandler (msduCnt : Nat)
  | olRxFragIndicationHandler (peerId tid : Nat)
  | olRxInOrderIndicationHandler (peerId tid offloadInd : Nat)
  | olRxMonMacHeaderHandler
  -- calls that are given a pointer into the message
  | olTxCompletionHandler (numMsdus status : Nat)
  | olTxInspectHandler (numMsdus : Nat)
  | olRxPnIndHandler (peerId tid seqNumStart seqNumEnd pnIeCnt : Nat)
  | olRxSecIndHandler (peerId secType isUnicast : Nat)
  | olRxPeerMapHandler (peerId vdevId : Nat)
  | olTxrxFwStatsHandler (cookie : Nat)
  | wdiEventHandler (event : WdiEvent) (len : UInt32)
  | httPeerCfrComplInd
  | httTxGroupCreditProcess
  -- calls without it
  | olRxFlushHandler (peerId tid seqNumStart seqNumEnd : Nat) (release : Bool)
  | olRxAddbaHandler (peerId tid winSz startSeqNum failed : Nat)
  | olRxDelbaHandler (peerId tid : Nat)
  | olRxPeerUnmapHandler (peerId : Nat)
  | olTxTargetCreditUpdate (creditDelta : Int)
  | olTxCreditCompletionHandler (credits : Int)
  | olTxDescUpdateGroupCredit (descId credit absolute status : Nat)
  | olTxSingleCompletionHandler (status descId : Nat)
  | olTxFailureIndication (tid numMsdus status : Nat)
  | olTxrxIpaUcOpResponse
  | olIndicateErr (vdevId keyId : Nat)
  | olTxrxPeerLinkStatusHandler (peerCnt : Nat) (report : List RateReport)
  | htcPmRuntimePut
  | httTxSched
deriving DecidableEq

/-- The build, the configuration, and what the rest of the driver answers. -/
structure T2hCfg where
  configHlSupport : Bool
  txrxStatsLevelOff : Bool
  removePktLog : Bool
  ipaUcOffload : Bool
  httRxRestore : Bool
  ath11acTxcompact : Bool
  featureHlGroupCredit : Bool
  isHighLatency : Bool
  isFullReorderOffload : Bool
  defaultTxCompReq : Bool
  /-- `ol_cfg_tx_free_at_download` -/
  txFreeAtDownload : Bool
  /-- `vos_get_conparam` is `VOS_MONITOR_MODE` -/
  monitorMode : Bool
  /-- `ol_cfg_max_peer_id` -/
  maxPeerId : Nat
  /-- `rx_ring.rx_reset` -/
  rxReset : Bool
  /-- `adf_os_mem_alloc` succeeds -/
  memAlloc : Bool
  /-- `ol_txrx_peer_find_by_id`, as far as the vdev of the peer -/
  peerVdevId : Nat → Option Nat

/-- The message and the state of `htt_pdev_t` that the handlers change. -/
structure T2hState where
  msg : T2hMsg
  credit : HttTxCredit
  htcErrCnt : Nat
  tgtVer : Nat × Nat
  rxMpduRangeOffsetWords : Nat
  rxIndMsduByteIdx : Nat

/-- The calls that take the buffer on a high latency device, where the frames are in it, and `adf_nbuf_free`. -/
def T2hAction.disposes (isHighLatency : Bool) : T2hAction → Prop
  | .free => True
  | .olRxIndicationHandler .. | .olRxMonIndicationHandler .. | .olRxOffloadDeliverIndHandler _
  | .olRxFragIndicationHandler .. => isHighLatency = true
  | _ => False

abbrev T2h := Logged T2hState T2hAction

namespace T2h

/-- Read word `i`. -/
def word (i : Nat) : T2h UInt32 := do
  emit (.read i)
  gets fun s => s.msg.word i

def nbufLen : T2h Nat := gets fun s => s.msg.len

def httTxSched (cfg : T2hCfg) : T2h Unit :=
  when (cfg.ath11acTxcompact = true) (emit .httTxSched)

def modifyCredit (f : HttTxCredit → HttTxCredit) : T2h Unit :=
  modify fun s => { s with credit := f s.credit }

def creditUpdate : T2h Int := do
  let c ← gets fun s => (httTxCreditUpdate s.credit).1
  modifyCredit fun s => (httTxCreditUpdate s).2
  return c

def targetCreditUpdate (creditDelta : Int) : T2h Unit := do
  emit (.olTxTargetCreditUpdate creditDelta)
  modifyCredit fun s => Htt.olTxTargetCreditUpdate s creditDelta

/-- The credit of `n` frames that are completed, when the host keeps it: `htt_tx_credit_update` after it is counted, and what it moves. -/
def completedCredit (n : Nat) : T2h Unit := do
  modifyCredit fun s => s.name n
  let creditDelta ← creditUpdate
  when (creditDelta ≠ 0) (targetCreditUpdate creditDelta)

/-! ### Messages of low priority -/

def versionConf : T2h Exit := do
  emit .htcPmRuntimePut
  let w ← word 0
  modify fun s => { s with tgtVer := (httVerConfMajorGet w, httVerConfMinorGet w) }
  return .brk

def rxFlush : T2h Exit := do
  let w ← word 0
  let w₁ ← word 1
  emit (.olRxFlushHandler (httRxFlushPeerIdGet w) (httRxFlushTidGet w)
    (httRxFlushSeqNumStartGet w₁) (httRxFlushSeqNumEndGet w₁) (httRxFlushMpduStatusGet w₁ = 1))
  return .brk

def rxOffloadDeliverInd (cfg : T2hCfg) : T2h Exit := do
  let w ← word 0
  emit (.olRxOffloadDeliverIndHandler (httRxOffloadDeliverIndMsduCntGet w))
  -- return here for HL to avoid double free on htt_t2h_msg
  if cfg.isHighLatency then return .ret else return .brk

def httRxFragSetLastMsdu (cfg : T2hCfg) : T2h Unit :=
  when (cfg.configHlSupport = false) do
    let w ← word 2
    modify fun s => { s with
      rxMpduRangeOffsetWords := 3 + ((httRxFragIndFwRxDescBytesGet w + 3) >>> 2)
      rxIndMsduByteIdx := 0 }
    let _ ← word 3

/-- `HTT_RX_FRAG_IND_BYTES`, the sizes of `struct hl_htt_rx_ind_base` and of `struct ieee80211_frame` -/
def httRxFragIndBytes : Nat := 16
def hlHttRxIndBaseBytes : Nat := 56
def ieee80211FrameBytes : Nat := 24

def rxFragInd (cfg : T2hCfg) : T2h Exit := do
  let w ← word 0
  let peerId := httRxFragIndPeerIdGet w
  let tid := httRxFragIndExtTidGet w
  httRxFragSetLastMsdu cfg
  let rxPktLen ← nbufLen
  if cfg.isHighLatency ∧
      rxPktLen < httRxFragIndBytes + hlHttRxIndBaseBytes + ieee80211FrameBytes then
    return .brk
  else do
    emit (.olRxFragIndicationHandler peerId tid)
    if cfg.isHighLatency then return .ret else return .brk

def rxAddba : T2h Exit := do
  let w ← word 0
  emit (.olRxAddbaHandler (httRxAddbaPeerIdGet w) (httRxAddbaTidGet w) (httRxAddbaWinSizeGet w) 0 0)
  return .brk

def rxDelba : T2h Exit := do
  let w ← word 0
  emit (.olRxDelbaHandler (httRxDelbaPeerIdGet w) (httRxDelbaTidGet w))
  return .brk

def peerMap (cfg : T2hCfg) : T2h Exit := do
  let w ← word 0
  let peerId := httRxPeerMapPeerIdGet w
  if peerId > cfg.maxPeerId then return .brk
  else do
    emit (.olRxPeerMapHandler peerId (httRxPeerMapVdevIdGet w))
    return .brk

def peerUnmap (cfg : T2hCfg) : T2h Exit := do
  let w ← word 0
  let peerId := httRxPeerUnmapPeerIdGet w
  if peerId > cfg.maxPeerId then return .brk
  else do
    emit (.olRxPeerUnmapHandler peerId)
    return .brk

def secInd : T2h Exit := do
  let w ← word 0
  emit (.olRxSecIndHandler (httSecIndPeerIdGet w) (httSecIndSecTypeGet w) (httSecIndUnicastGet w))
  return .brk

def mgmtTxComplInd (cfg : T2hCfg) : T2h Exit := do
  when (cfg.isHighLatency = true) (
    if cfg.defaultTxCompReq then targetCreditUpdate 1 else completedCredit 1)
  let descId ← word 1
  let status ← word 2
  when (cfg.featureHlGroupCredit = true)
    (emit (.olTxDescUpdateGroupCredit descId.toNat 1 0 status.toNat))
  emit (.olTxSingleCompletionHandler status.toNat descId.toNat)
  emit .htcPmRuntimePut
  httTxSched cfg
  return .brk

def statsConf : T2h Exit := do
  let w₁ ← word 1
  let w₂ ← word 2
  emit .htcPmRuntimePut
  emit (.olTxrxFwStatsHandler (w₁.toNat + w₂.toNat <<< 32))
  return .brk

/-- The event for a `log_type`: TX_CTRL, TX_STAT, TX_MSDU_ID, TX_FRM_HDR, TX_VIRT_ADDR; RC_FIND; RC_UPDATE; RX_STAT. -/
def pktlogEvent : Nat → Option WdiEvent
  | 1 | 2 | 3 | 4 | 8 => some .txStatus
  | 6 => some .rateFind
  | 7 => some .rateUpdate
  | 5 => some .rxDesc
  | _ => none

def pktlog : T2h Exit := do
  let len ← nbufLen
  let w ← word 2
  match pktlogEvent (httWordGet 0xffff 0 w) with
  | some event => do
    emit (.wdiEventHandler event (.ofNat len - 4))
    return .brk
  | none => return .brk

/-- The part of a credit update that can be moved, when the host keeps the credit. -/
def movedDelta (cfg : T2hCfg) (httCreditDelta : Int) : T2h Int :=
  if cfg.isHighLatency ∧ ¬ cfg.defaultTxCompReq then do
    modifyCredit fun s => s.name httCreditDelta
    let httCreditDelta ← creditUpdate
    modifyCredit fun s => if httCreditDelta ≥ 0 then s.topUp httCreditDelta else s.topUp 0
    return httCreditDelta
  else return httCreditDelta

def txCreditUpdateInd (cfg : T2hCfg) : T2h Exit := do
  let w ← word 0
  let httCreditDelta := httCreditDelta (httTxCreditSignBitGet w ≠ 0) (httTxCreditDeltaAbsGet w)
  let credit ← gets fun s => s.credit
  if InvalidUpdate credit httCreditDelta then return .brk
  else do
    let httCreditDelta ← movedDelta cfg httCreditDelta
    when (cfg.featureHlGroupCredit = true) (emit .httTxGroupCreditProcess)
    emit (.olTxCreditCompletionHandler httCreditDelta)
    modifyCredit fun s => olTxCreditCompletionHandler s httCreditDelta
    return .brk

def wdiIpaOpResponse (cfg : T2hCfg) : T2h Exit := do
  emit .htcPmRuntimePut
  let _ ← word 0
  let w₁ ← word 1
  if cfg.memAlloc then do
    emit (.copy (8 + httWdiIpaOpResponseRspLenGet w₁))
    emit .olTxrxIpaUcOpResponse
    return .brk
  else return .brk

def words : List Nat → T2h (List UInt32)
  | [] => pure []
  | i :: is => do
    let w ← word i
    let ws ← words is
    return w :: ws

def rxOfldPktErr (cfg : T2hCfg) : T2h Exit := do
  let w ← word 0
  if httRxOfldPktErrMsgSubTypeGet w = 1 then do
    let w₁ ← word 1
    match cfg.peerVdevId (httRxOfldPktErrMicErrPeerIdGet w₁) with
    | none => return .brk
    | some vdevId => do
      -- da, sa and pn
      let _ ← words [1, 2, 3, 4, 5, 6, 7]
      emit (.olIndicateErr vdevId (httRxOfldPktErrMicErrKeyidGet w₁))
      return .brk
  else return .brk

/-- The entries of a report, from entry `i` on. -/
def rateReports (i : Nat) : Nat → T2h (List RateReport)
  | 0 => pure []
  | n + 1 => do
    let w ← word (1 + i * 2)
    let rate ← word (1 + i * 2 + 1)
    let rest ← rateReports (i + 1) n
    return ⟨httPeerRateReportMsgPeerIdGet w, httPeerRateReportMsgPhyGet w, rate⟩ :: rest

def rateReport (cfg : T2hCfg) : T2h Exit := do
  let w ← word 0
  let peerCnt := httPeerRateReportMsgPeerCountGet w
  if peerCnt = 0 then return .brk
  else if peerCnt > cfg.maxPeerId + 1 then return .brk
  else if cfg.memAlloc then do
    let report ← rateReports 0 peerCnt
    emit (.olTxrxPeerLinkStatusHandler peerCnt report)
    return .brk
  else return .brk

def cfrDumpComplInd (payloadPresent : Nat) : T2h Exit :=
  if payloadPresent = 0 then return .ret
  else do
    emit .httPeerCfrComplInd
    return .brk

/-- The `switch` of `htt_t2h_lp_msg_handler`. -/
def lpSwitch (cfg : T2hCfg) (payloadPresent : Nat) : T2hMsgType → T2h Exit
  | .versionConf => versionConf
  | .rxFlush => rxFlush
  | .rxOffloadDeliverInd => rxOffloadDeliverInd cfg
  | .rxFragInd => rxFragInd cfg
  | .rxAddba => rxAddba
  | .rxDelba => rxDelba
  | .peerMap => peerMap cfg
  | .peerUnmap => peerUnmap cfg
  | .secInd => secInd
  | .mgmtTxComplInd => mgmtTxComplInd cfg
  | .statsConf => if cfg.txrxStatsLevelOff then return .brk else statsConf
  | .pktlog => if cfg.removePktLog then return .brk else pktlog
  | .txCreditUpdateInd => txCreditUpdateInd cfg
  | .wdiIpaOpResponse => if cfg.ipaUcOffload then wdiIpaOpResponse cfg else return .brk
  | .rxOfldPktErr => rxOfldPktErr cfg
  | .rateReport => rateReport cfg
  | .cfrDumpComplInd => cfrDumpComplInd payloadPresent
  | _ => return .brk

def httT2hLpMsgHandler (cfg : T2hCfg) : T2h Unit := do
  let w ← word 0
  (lpSwitch cfg (httT2hPayloadPresentGet w) (httT2hMsgTypeGet w)).andThen (emit .free)

/-! ### Messages of high priority -/

/-- `OL_TXRX_NUM_EXT_TIDS`, `HTT_RX_PPDU_DESC_SIZE32` and `HTT_RX_IND_HDR_BYTES` -/
def olTxrxNumExtTids : Nat := 19
def httRxPpduDescSize32 : Nat := 9
def httRxIndHdrBytes : Nat := 48

def rxInd (cfg : T2hCfg) : T2h Exit :=
  if cfg.isFullReorderOffload then return .brk
  else do
    let w ← word 0
    let peerId := httRxIndPeerIdGet w
    let tid := httRxIndExtTidGet w
    if tid ≥ olTxrxNumExtTids then return .brk
    else do
      let w' ← word (2 + httRxPpduDescSize32)
      let w₁ ← word 1
      let numMpduRanges := httRxIndNumMpduRangesGet w₁
      modify fun s => { s with
        rxMpduRangeOffsetWords := (httRxIndHdrBytes + httRxIndFwRxDescBytesGet w' + 3) >>> 2
        rxIndMsduByteIdx := 0 }
      if cfg.isHighLatency then do
        emit (if cfg.monitorMode then .olRxMonIndicationHandler peerId tid numMpduRanges
          else .olRxIndicationHandler peerId tid numMpduRanges)
        return .ret
      else do
        emit (.olRxIndicationHandler peerId tid numMpduRanges)
        return .brk

/-- The last of an odd number of MSDU ids, where the host finds it. -/
def fixOddId (numMsdus : Nat) : T2h Unit :=
  when (numMsdus % 2 = 1) do
    emit (.readPayload numMsdus)
    let id ← gets fun s => s.msg.payload numMsdus
    when (id ≠ 0xffff) do
      emit (.readPayload numMsdus)
      emit (.writePayload (numMsdus - 1))
      modify fun s => { s with msg := s.msg.setPayload (numMsdus - 1) id }

/-- `HTT_TX_COMPL_IND_STAT_FAIL_NOTIFY` -/
def httTxStatusFailNotify : Nat := 5

def httFailNotifyBreakCheck (cfg : T2hCfg) (status : Nat) : Bool :=
  cfg.configHlSupport && status == httTxStatusFailNotify

def txComplInd (cfg : T2hCfg) : T2h Exit := do
  let msgLen ← nbufLen
  let w ← word 0
  let status := httTxComplIndStatusGet w
  let numMsdus := httTxComplIndNumGet w
  if numMsdus * httTxComplBytesPerMsduId + httTxComplHeadSz > msgLen then return .brk
  else do
    fixOddId numMsdus
    let w ← word 0
    emit (.olTxFailureIndication (httTxComplIndTidGet w) numMsdus status)
    -- for regular frames these have already been freed
    if cfg.isHighLatency ∧ cfg.txFreeAtDownload ∧ httFailNotifyBreakCheck cfg status then
      return .brk
    else do
      let credit ← gets fun s => s.credit
      when (cfg.isHighLatency ∧ ¬ InvalidUpdate credit numMsdus) (
        if cfg.defaultTxCompReq then targetCreditUpdate numMsdus else completedCredit numMsdus)
      emit (.olTxCompletionHandler numMsdus status)
      httTxSched cfg
      return .brk

def rxPnInd : T2h Exit := do
  let w ← word 0
  let w₁ ← word 1
  emit (.olRxPnIndHandler (httRxPnIndPeerIdGet w) (httRxPnIndExtTidGet w)
    (httRxPnIndSeqNumStartGet w₁) (httRxPnIndSeqNumEndGet w₁) (httRxPnIndPnIeCntGet w₁))
  return .brk

def txInspectInd (cfg : T2hCfg) : T2h Exit := do
  let msgLen ← nbufLen
  let w ← word 0
  let numMsdus := httTxComplIndNumGet w
  if numMsdus * httTxComplBytesPerMsduId + httTxComplHeadSz > msgLen then return .brk
  else do
    fixOddId numMsdus
    emit (.olTxInspectHandler numMsdus)
    httTxSched cfg
    return .brk

def rxInOrdPaddrInd (cfg : T2hCfg) : T2h Exit :=
  if cfg.isFullReorderOffload = false then return .brk
  else if cfg.isHighLatency then return .brk
  else do
    let w ← word 0
    let peerId := httRxInOrdPaddrIndPeerIdGet w
    let tid := httRxInOrdPaddrIndExtTidGet w
    if httRxInOrdPaddrIndFragGet w ≠ 0 then do
      emit (.olRxFragIndicationHandler peerId tid)
      return .brk
    else do
      emit (.olRxInOrderIndicationHandler peerId tid (httRxInOrdPaddrIndOffloadGet w))
      return .brk

def monitorMacHeaderInd : T2h Exit := do
  emit .olRxMonMacHeaderHandler
  return .brk

/-- The `switch` of `htt_t2h_msg_handler`: what it does not know goes to the handler of low priority, which does the rest. -/
def hpSwitch (cfg : T2hCfg) : T2hMsgType → T2h Exit
  | .rxInd => rxInd cfg
  | .txComplInd => txComplInd cfg
  | .rxPnInd => rxPnInd
  | .txInspectInd => txInspectInd cfg
  | .rxInOrdPaddrInd => rxInOrdPaddrInd cfg
  | .monitorMacHeaderInd => monitorMacHeaderInd
  | _ => do
    httT2hLpMsgHandler cfg
    return .ret

inductive HtcStatus where
  | ok
  | canceled
  | other
deriving DecidableEq

def httT2hMsgHandler (cfg : T2hCfg) (status : HtcStatus) : T2h Unit :=
  if status ≠ .ok then do
    when (status ≠ .canceled) (modify fun s => { s with htcErrCnt := s.htcErrCnt + 1 })
    emit .free
  else if cfg.httRxRestore ∧ cfg.rxReset then emit .free
  else do
    let w ← word 0
    (hpSwitch cfg (httT2hMsgTypeGet w)).andThen (emit .free)

/-! ### The steps keep the buffer -/

section
variable {hl : Bool} {cfg : T2hCfg}

theorem keeps_word (i : Nat) : Keeps (T2hAction.disposes hl) (word i) :=
  keeps_bind (keeps_emit id) fun _ => keeps_gets _

theorem keeps_words (is : List Nat) : Keeps (T2hAction.disposes hl) (words is) := by
  induction is with
  | nil => exact keeps_pure _
  | cons i is ih => exact keeps_bind (keeps_word i) fun _ => keeps_bind ih fun _ => keeps_pure _

theorem keeps_rateReports (i n : Nat) : Keeps (T2hAction.disposes hl) (rateReports i n) := by
  induction n generalizing i with
  | zero => exact keeps_pure _
  | succ n ih =>
    refine keeps_bind (keeps_word _) fun _ => keeps_bind (keeps_word _) fun _ => ?_
    exact keeps_bind (ih (i + 1)) fun _ => keeps_pure _

theorem keeps_httTxSched {D : T2hAction → Prop} (h : ¬ D .httTxSched) : Keeps D (httTxSched cfg) :=
  keeps_when (keeps_emit h)

theorem keeps_creditUpdate {D : T2hAction → Prop} : Keeps D creditUpdate :=
  keeps_bind (keeps_gets _) fun _ => keeps_bind (keeps_modify _) fun _ => keeps_pure _

section
variable {D : T2hAction → Prop} (hD : ∀ c, ¬ D (.olTxTargetCreditUpdate c))
include hD

theorem keeps_targetCreditUpdate (c : Int) : Keeps D (targetCreditUpdate c) :=
  keeps_bind (keeps_emit (hD c)) fun _ => keeps_modify _

theorem keeps_completedCredit (n : Nat) : Keeps D (completedCredit n) :=
  keeps_bind (keeps_modify _) fun _ => keeps_bind keeps_creditUpdate fun _ =>
    keeps_when (keeps_targetCreditUpdate hD _)

theorem keeps_frameCredit (b : Bool) (n : Nat) :
    Keeps D (if b then targetCreditUpdate n else completedCredit n) := by
  cases b
  · exact keeps_completedCredit hD n
  · exact keeps_targetCreditUpdate hD n

end

theorem keeps_movedDelta (c : Int) : Keeps (T2hAction.disposes hl) (movedDelta cfg c) := by
  rw [movedDelta]
  split
  · exact keeps_bind (keeps_modify _) fun _ => keeps_bind keeps_creditUpdate fun _ =>
      keeps_bind (keeps_modify _) fun _ => keeps_pure _
  · exact keeps_pure _

theorem keeps_httRxFragSetLastMsdu : Keeps (T2hAction.disposes hl) (httRxFragSetLastMsdu cfg) :=
  keeps_when (keeps_bind (keeps_word _) fun _ => keeps_bind (keeps_modify _) fun _ =>
    keeps_bind (keeps_word _) fun _ => keeps_pure _)

theorem keeps_fixOddId (n : Nat) : Keeps (T2hAction.disposes hl) (fixOddId n) := by
  refine keeps_when (keeps_bind (keeps_emit id) fun _ => keeps_bind (keeps_gets _) fun id' => ?_)
  refine keeps_when (keeps_bind (keeps_emit id) fun _ => ?_)
  exact keeps_bind (keeps_emit id) fun _ => keeps_modify _

/-! ### The bodies handle it -/

theorem handles_call {e : T2hAction} (h : ¬ e.disposes hl) :
    Handles (T2hAction.disposes hl) (emit e >>= fun _ => pure .brk : T2h Exit) :=
  handles_bind (keeps_emit h) fun _ => handles_brk

theorem handles_consumer {e : T2hAction} (h : e.disposes hl ↔ hl = true) :
    Handles (T2hAction.disposes hl)
      (emit e >>= fun _ => if hl then pure .ret else pure .brk : T2h Exit) := by
  cases hl
  · exact handles_call fun he => nomatch h.1 he
  · exact handles_ret (ends_emit (h.2 rfl))

theorem handles_versionConf : Handles (T2hAction.disposes hl) versionConf :=
  handles_bind (keeps_emit id) fun _ => handles_bind (keeps_word _) fun _ =>
    handles_bind (keeps_modify _) fun _ => handles_brk

theorem handles_rxFlush : Handles (T2hAction.disposes hl) rxFlush :=
  handles_bind (keeps_word _) fun _ => handles_bind (keeps_word _) fun _ => handles_call id

theorem handles_rxOffloadDeliverInd :
    Handles (T2hAction.disposes cfg.isHighLatency) (rxOffloadDeliverInd cfg) :=
  handles_bind (keeps_word _) fun _ => handles_consumer Iff.rfl

theorem handles_rxFragInd : Handles (T2hAction.disposes cfg.isHighLatency) (rxFragInd cfg) := by
  refine handles_bind (keeps_word _) fun w => ?_
  refine handles_bind keeps_httRxFragSetLastMsdu fun _ => handles_bind (keeps_gets _) fun len => ?_
  exact handles_ite (fun _ => handles_brk) fun _ => handles_consumer Iff.rfl

theorem handles_rxAddba : Handles (T2hAction.disposes hl) rxAddba :=
  handles_bind (keeps_word _) fun _ => handles_call id

theorem handles_rxDelba : Handles (T2hAction.disposes hl) rxDelba :=
  handles_bind (keeps_word _) fun _ => handles_call id

theorem handles_peerMap : Handles (T2hAction.disposes hl) (peerMap cfg) :=
  handles_bind (keeps_word _) fun _ => handles_ite (fun _ => handles_brk) fun _ => handles_call id

theorem handles_peerUnmap : Handles (T2hAction.disposes hl) (peerUnmap cfg) :=
  handles_bind (keeps_word _) fun _ => handles_ite (fun _ => handles_brk) fun _ => handles_call id

theorem handles_secInd : Handles (T2hAction.disposes hl) secInd :=
  handles_bind (keeps_word _) fun _ => handles_call id

theorem handles_mgmtTxComplInd : Handles (T2hAction.disposes hl) (mgmtTxComplInd cfg) := by
  refine handles_bind (keeps_when (keeps_frameCredit (fun _ => id) _ 1)) fun _ => ?_
  refine handles_bind (keeps_word _) fun _ => handles_bind (keeps_word _) fun _ => ?_
  refine handles_bind (keeps_when (keeps_emit id)) fun _ => handles_bind (keeps_emit id) fun _ => ?_
  exact handles_bind (keeps_emit id) fun _ => handles_bind (keeps_httTxSched id) fun _ => handles_brk

theorem handles_statsConf : Handles (T2hAction.disposes hl) statsConf :=
  handles_bind (keeps_word _) fun _ => handles_bind (keeps_word _) fun _ =>
    handles_bind (keeps_emit id) fun _ => handles_call id

theorem handles_pktlog : Handles (T2hAction.disposes hl) pktlog := by
  refine handles_bind (keeps_gets _) fun len => handles_bind (keeps_word _) fun w => ?_
  split
  · exact handles_call id
  · exact handles_brk

theorem handles_txCreditUpdateInd : Handles (T2hAction.disposes hl) (txCreditUpdateInd cfg) := by
  refine handles_bind (keeps_word _) fun w => handles_bind (keeps_gets _) fun credit => ?_
  refine handles_ite (fun _ => handles_brk) fun _ => handles_bind (keeps_movedDelta _) fun c => ?_
  refine handles_bind (keeps_when (keeps_emit id)) fun _ => handles_bind (keeps_emit id) fun _ => ?_
  exact handles_bind (keeps_modify _) fun _ => handles_brk

theorem handles_wdiIpaOpResponse : Handles (T2hAction.disposes hl) (wdiIpaOpResponse cfg) := by
  refine handles_bind (keeps_emit id) fun _ => handles_bind (keeps_word _) fun _ => ?_
  refine handles_bind (keeps_word _) fun _ => handles_ite (fun _ => ?_) fun _ => handles_brk
  exact handles_bind (keeps_emit id) fun _ => handles_call id

theorem handles_rxOfldPktErr : Handles (T2hAction.disposes hl) (rxOfldPktErr cfg) := by
  refine handles_bind (keeps_word _) fun w => handles_ite (fun _ => ?_) fun _ => handles_brk
  refine handles_bind (keeps_word _) fun w₁ => ?_
  split
  · exact handles_brk
  · exact handles_bind (keeps_words _) fun _ => handles_call id

theorem handles_rateReport : Handles (T2hAction.disposes hl) (rateReport cfg) := by
  refine handles_bind (keeps_word _) fun w => handles_ite (fun _ => handles_brk) fun _ => ?_
  refine handles_ite (fun _ => handles_brk) fun _ => handles_ite (fun _ => ?_) fun _ => handles_brk
  exact handles_bind (keeps_rateReports _ _) fun _ => handles_call id

theorem handles_cfrDumpComplInd {n : Nat} (h : n ≠ 0) :
    Handles (T2hAction.disposes hl) (cfrDumpComplInd n) := by
  rw [cfrDumpComplInd, if_neg h]
  exact handles_call id

theorem handles_rxInd : Handles (T2hAction.disposes cfg.isHighLatency) (rxInd cfg) := by
  refine handles_ite (fun _ => handles_brk) fun _ => handles_bind (keeps_word _) fun w => ?_
  refine handles_ite (fun _ => handles_brk) fun _ => handles_bind (keeps_word _) fun w' => ?_
  refine handles_bind (keeps_word _) fun w₁ => handles_bind (keeps_modify _) fun _ => ?_
  refine handles_ite (fun hl => ?_) fun hl => handles_call fun h => hl h
  refine handles_ret (ends_emit ?_)
  split
  · exact hl
  · exact hl

theorem handles_txComplInd : Handles (T2hAction.disposes hl) (txComplInd cfg) := by
  refine handles_bind (keeps_gets _) fun len => handles_bind (keeps_word _) fun w => ?_
  refine handles_ite (fun _ => handles_brk) fun _ => handles_bind (keeps_fixOddId _) fun _ => ?_
  refine handles_bind (keeps_word _) fun w => handles_bind (keeps_emit id) fun _ => ?_
  refine handles_ite (fun _ => handles_brk) fun _ => handles_bind (keeps_gets _) fun credit => ?_
  refine handles_bind (keeps_when (keeps_frameCredit (fun _ => id) _ _)) fun _ => ?_
  refine handles_bind (keeps_emit id) fun _ => handles_bind (keeps_httTxSched id) fun _ => ?_
  exact handles_brk

theorem handles_rxPnInd : Handles (T2hAction.disposes hl) rxPnInd :=
  handles_bind (keeps_word _) fun _ => handles_bind (keeps_word _) fun _ => handles_call id

theorem handles_txInspectInd : Handles (T2hAction.disposes hl) (txInspectInd cfg) := by
  refine handles_bind (keeps_gets _) fun len => handles_bind (keeps_word _) fun w => ?_
  refine handles_ite (fun _ => handles_brk) fun _ => handles_bind (keeps_fixOddId _) fun _ => ?_
  exact handles_bind (keeps_emit id) fun _ => handles_bind (keeps_httTxSched id) fun _ => handles_brk

theorem handles_rxInOrdPaddrInd :
    Handles (T2hAction.disposes cfg.isHighLatency) (rxInOrdPaddrInd cfg) := by
  refine handles_ite (fun _ => handles_brk) fun _ => handles_ite (fun _ => handles_brk) fun hl => ?_
  refine handles_bind (keeps_word _) fun w => handles_ite (fun _ => ?_) fun _ => handles_call id
  -- the consumer of fragments takes nothing on a low latency device
  exact handles_call fun h => hl h

theorem handles_monitorMacHeaderInd : Handles (T2hAction.disposes hl) monitorMacHeaderInd :=
  handles_call id

/-- The body of every message of low priority handles the buffer, but for the dump without a payload. -/
theorem handles_lpSwitch {n : Nat} {t : T2hMsgType} (h : t = .cfrDumpComplInd → n ≠ 0) :
    Handles (T2hAction.disposes cfg.isHighLatency) (lpSwitch cfg n t) := by
  cases t with
  | versionConf => exact handles_versionConf
  | rxFlush => exact handles_rxFlush
  | rxOffloadDeliverInd => exact handles_rxOffloadDeliverInd
  | rxFragInd => exact handles_rxFragInd
  | rxAddba => exact handles_rxAddba
  | rxDelba => exact handles_rxDelba
  | peerMap => exact handles_peerMap
  | peerUnmap => exact handles_peerUnmap
  | secInd => exact handles_secInd
  | mgmtTxComplInd => exact handles_mgmtTxComplInd
  | statsConf => exact handles_ite (fun _ => handles_brk) fun _ => handles_statsConf
  | pktlog => exact handles_ite (fun _ => handles_brk) fun _ => handles_pktlog
  | txCreditUpdateInd => exact handles_txCreditUpdateInd
  | wdiIpaOpResponse => exact handles_ite (fun _ => handles_wdiIpaOpResponse) fun _ => handles_brk
  | rxOfldPktErr => exact handles_rxOfldPktErr
  | rateReport => exact handles_rateReport
  | cfrDumpComplInd => exact handles_cfrDumpComplInd (h rfl)
  | rxInd | txComplInd | txInspectInd | rxPnInd | rxInOrdPaddrInd | monitorMacHeaderInd | other =>
    exact handles_brk

end

/-! ### The buffer is disposed of once -/

def EmptyDump (m : T2hMsg) : Prop :=
  httT2hMsgTypeGet (m.word 0) = .cfrDumpComplInd ∧ httT2hPayloadPresentGet (m.word 0) = 0

section
variable {cfg : T2hCfg} {s : T2hState}

theorem ends_free {hl : Bool} : Ends (T2hAction.disposes hl) (emit .free : T2h Unit) :=
  ends_emit trivial

theorem keeps_read {hl : Bool} {i : Nat} : ∀ e ∈ [T2hAction.read i], ¬ e.disposes hl :=
  fun _ he => mem_singleton.1 he ▸ id

theorem log_word_bind (x : UInt32 → T2h Unit) :
    (word 0 >>= x).log s = .read 0 :: (x (s.msg.word 0)).log s := rfl

theorem httT2hLpMsgHandler_endsOnce (h : ¬ EmptyDump s.msg) :
    EndsOnce (T2hAction.disposes cfg.isHighLatency) ((httT2hLpMsgHandler cfg).log s) := by
  rw [httT2hLpMsgHandler, log_word_bind]
  have hb : Handles (T2hAction.disposes cfg.isHighLatency) (lpSwitch cfg
      (httT2hPayloadPresentGet (s.msg.word 0)) (httT2hMsgTypeGet (s.msg.word 0))) :=
    handles_lpSwitch fun ht hn => h ⟨ht, hn⟩
  exact (hb.andThen ends_free s).prepend keeps_read

theorem httT2hLpMsgHandler_emptyDump (h : EmptyDump s.msg) :
    (httT2hLpMsgHandler cfg).log s = [.read 0] := by
  rw [httT2hLpMsgHandler, log_word_bind, h.1, h.2]
  rfl

theorem lp_log : ((httT2hLpMsgHandler cfg >>= fun _ => pure Exit.ret).andThen
    (emit .free)).log s = (httT2hLpMsgHandler cfg).log s := by
  rw [Logged.andThen, log_bind, log_bind]
  exact (append_nil _).trans (append_nil _)

theorem hpSwitch_cases (t : T2hMsgType) :
    Handles (T2hAction.disposes cfg.isHighLatency) (hpSwitch cfg t) ∨
      ((hpSwitch cfg t).andThen (emit .free)).log s = (httT2hLpMsgHandler cfg).log s := by
  cases t with
  | rxInd => exact Or.inl handles_rxInd
  | txComplInd => exact Or.inl handles_txComplInd
  | rxPnInd => exact Or.inl handles_rxPnInd
  | txInspectInd => exact Or.inl handles_txInspectInd
  | rxInOrdPaddrInd => exact Or.inl handles_rxInOrdPaddrInd
  | monitorMacHeaderInd => exact Or.inl handles_monitorMacHeaderInd
  | _ => exact Or.inr lp_log

theorem hpSwitch_endsOnce (t : T2hMsgType) (hd : ¬ EmptyDump s.msg) :
    EndsOnce (T2hAction.disposes cfg.isHighLatency)
      (((hpSwitch cfg t).andThen (emit .free)).log s) := by
  rcases hpSwitch_cases t with h | h
  · exact h.andThen ends_free s
  · exact h ▸ httT2hLpMsgHandler_endsOnce hd

end

/-- The buffer of a message is never freed: HTC delivered it, the receive ring is not being
restored, and it is a CFR dump without a payload. -/
def NeverFreed (cfg : T2hCfg) (status : HtcStatus) (m : T2hMsg) : Prop :=
  status = .ok ∧ ¬ (cfg.httRxRestore = true ∧ cfg.rxReset = true) ∧ EmptyDump m

/-- **The buffer is disposed of once.**  Of all uses of the buffer of a message exactly one frees
it or gives it away, and that is the last, unless the message is a CFR dump without a payload. -/
theorem message_disposed_once (cfg : T2hCfg) (status : HtcStatus) (s : T2hState) :
    EndsOnce (T2hAction.disposes cfg.isHighLatency) ((httT2hMsgHandler cfg status).log s)
      ↔ ¬ NeverFreed cfg status s.msg := by
  have hfree : EndsOnce (T2hAction.disposes cfg.isHighLatency) [T2hAction.free] :=
    ends_free s
  rw [httT2hMsgHandler]
  split
  · next h =>
    refine iff_of_true ?_ fun hn => h hn.1
    exact ends_bind (keeps_when (keeps_modify _)) (fun _ => ends_free) s
  · next h =>
    split
    · next hr => exact iff_of_true hfree fun hn => hn.2.1 hr
    · next hr =>
      rw [log_word_bind]
      by_cases hd : EmptyDump s.msg
      · refine iff_of_false (not_endsOnce ?_) fun hn => hn ⟨not_not.1 h, hr, hd⟩
        have hlp : hpSwitch cfg .cfrDumpComplInd = (httT2hLpMsgHandler cfg >>= fun _ => pure .ret) :=
          rfl
        rw [hd.1, hlp, lp_log, httT2hLpMsgHandler_emptyDump hd]
        intro e he
        rcases mem_cons.1 he with rfl | he
        · exact id
        · exact keeps_read e he
      · refine iff_of_true ?_ fun hn => hd hn.2.2
        exact (hpSwitch_endsOnce _ hd).prepend keeps_read

def lowLatencyCfg : T2hCfg where
  configHlSupport := false
  txrxStatsLevelOff := false
  removePktLog := false
  ipaUcOffload := true
  httRxRestore := false
  ath11acTxcompact := true
  featureHlGroupCredit := false
  isHighLatency := false
  isFullReorderOffload := true
  defaultTxCompReq := true
  txFreeAtDownload := false
  monitorMode := false
  maxPeerId := 64
  rxReset := false
  memAlloc := true
  peerVdevId _ := none

def oneWordMsg (w : UInt32) : T2hState where
  msg := ⟨fun i => if i = 0 then w else 0, 4⟩
  credit := .attached
  htcErrCnt := 0
  tgtVer := (0, 0)
  rxMpduRangeOffsetWords := 0
  rxIndMsduByteIdx := 0

theorem empty_dump_leaks :
    (httT2hMsgHandler lowLatencyCfg .ok).log (oneWordMsg 0x22) = [.read 0, .read 0]
      ∧ ¬ EndsOnce (T2hAction.disposes lowLatencyCfg.isHighLatency)
          ((httT2hMsgHandler lowLatencyCfg .ok).log (oneWordMsg 0x22)) := by
  have hlog : (httT2hMsgHandler lowLatencyCfg .ok).log (oneWordMsg 0x22) = [.read 0, .read 0] := rfl
  refine ⟨hlog, not_endsOnce ?_⟩
  rw [hlog]
  intro e he
  rcases mem_cons.1 he with rfl | he
  · exact id
  · exact keeps_read e he

/-- One with a payload is freed. -/
example : (httT2hMsgHandler lowLatencyCfg .ok).log (oneWordMsg 0x122)
    = [.read 0, .read 0, .httPeerCfrComplInd, .free] := rfl

end T2h

end Qcacld.Htt

import Qcacld.Support.Runs
import Qcacld.Support.Token

/-!
# Htc — HtcSend

The send side of one HTC endpoint, in a build for USB or SDIO.  Senders append to `TxQueue`; whoever finds `TxProcessCount` at zero drains it into a queue of its own and hands that to HIF, packet by packet or in bundles.  Each section under the HTC tx lock is one step, and so is what runs between two of them, so that any number of calls may be under way at once.

What is in the state and not in the driver is a record of the run: what HIF has taken, what was appended, what credit the target has granted, and the network buffers as they were when HIF or their owner got them.
-/

namespace Qcacld.Htc
open Qcacld.Support

/-! ### Endpoints and packets -/

inductive HifBus where
  | usb
  | sdio
deriving DecidableEq

/-- `ServiceID`, as far as it matters here. -/
inductive HtcService where
  /-- `WMI_CONTROL_SVC` -/
  | wmiControl
  /-- `HTT_DATA_MSG_SVC` -/
  | httData
  | other
deriving DecidableEq

def endpoint0 : Nat := 0
/-- The endpoint `HTCSendDataPkt` serves when it is given no packet. -/
def endpoint1 : Nat := 1
def htcHdrLength : Nat := 8
def htcMinMsgPerBundle : Nat := 2
def htcMaxMsgPerBundleTx : HifBus → Nat
  | .usb => 8
  | .sdio => 32
def htcMaxTxBundleSendLimit : Nat := 255

/-- What is fixed when the service of an `HTC_ENDPOINT` is connected. -/
structure EpConfig where
  id : Nat
  serviceId : HtcService
  bus : HifBus
  /-- `HTC_ENABLE_BUNDLE` -/
  enableBundle : Bool
  maxTxQueueDepth : Nat
  /-- whether there is an `EpSendFull` -/
  epSendFull : Bool
  txCreditFlowEnabled : Bool
  txCreditSize : Nat
  txCreditsPerMaxMsg : Nat
  /-- A target that reports no credit size is turned down. -/
  txCreditSize_pos : 0 < txCreditSize

structure Netbuf where
  /-- the frame headers in front of the payload -/
  hdrs : Int
  /-- how often it is mapped -/
  maps : Int
deriving DecidableEq

/-- What the owner of the endpoint asks to send. -/
structure HtcMsg where
  id : Nat
  actualLength : Nat
  /-- `adf_nbuf_get_num_frags` -/
  numFrags : Nat
deriving DecidableEq

structure HtcPacket extends HtcMsg where
  creditsUsed : Nat
  /-- `HTC_FLAGS_NEED_CREDIT_UPDATE` in `SendFlags` -/
  needCreditUpdate : Bool
  /-- `HTC_TX_PACKET_FLAG_FIXUP_NETBUF` in `Flags` -/
  fixup : Bool
  netbuf : Netbuf
  /-- whether it is a data frame, whose owner has made the room for the header and has mapped it -/
  data : Bool
deriving DecidableEq

/-- What `HIFSend_head` is given: the buffer of a packet, or that of a bundle. -/
inductive HtcSend where
  | single (pPacket : HtcPacket)
  /-- `HTC_TX_PACKET_TAG_BUNDLED`, with the queue in `pContext` -/
  | bundle (pQueueSave : List HtcPacket)
deriving DecidableEq

def HtcSend.packets : HtcSend → List HtcPacket
  | .single pPacket => [pPacket]
  | .bundle pQueueSave => pQueueSave

/-! ### Calls -/

inductive Drainer where
  /-- `HTCTrySend` -/
  | trySend
  /-- `HTCSendDataPkt` -/
  | sendData
deriving DecidableEq

/-- How far a call has got that drains the queue, with its local `sendQueue`. -/
inductive DrainPc where
  /-- at the head of the issue loop -/
  | issue (sendQueue : List HtcPacket)
  /-- in the loop, when bundling is done with -/
  | dequeue (sendQueue : List HtcPacket)
  /-- in `HIFSend_head` -/
  | sending (send : HtcSend) (sendQueue : List HtcPacket)
  /-- out of `HTCIssuePackets`, with what failed to be put back -/
  | failed (sendQueue : List HtcPacket)
  /-- out of `HTCIssuePackets`, with nothing left -/
  | issued
  /-- before the lock is taken to look at the queue again -/
  | look (txResources : Nat)
  /-- before `HTCSendDataPkt` clears the count -/
  | clear

inductive Call where
  /-- `HTCTrySend` before its first lock section, before and after it has read `tx_resources` -/
  | entering (sendQueue pCallersSendQueue : List HtcPacket) (txResources : Option Nat)
  /-- `HTCProcessCreditRpt` before it calls `HTCSendDataPkt` -/
  | notify
  /-- `HTCTxCompletionHandler` before it looks the packet up -/
  | completion (send : HtcSend)
  | draining (who : Drainer) (pCallersSendQueue : List HtcPacket) (pc : DrainPc)

/-- `HTC_ENDPOINT`, with what goes on at it. -/
structure HtcEndpoint where
  txQueue : List HtcPacket
  txLookupQueue : List HtcSend
  txCredits : Int
  txProcessCount : Int
  /-- the target's `is_nodrop_pkt` -/
  isNodropPkt : Bool
  /-- the free transfer blocks of the pipe, on USB -/
  urbCnt : Nat
  /-- what HIF has taken and not completed -/
  atHif : List HtcSend
  calls : Nat → Option Call
  /-- Ghost: the packets appended to `TxQueue`, by id. -/
  appended : List Nat
  /-- Ghost: the packets HIF has taken. -/
  handed : List HtcPacket
  /-- Ghost: what `HIFSend_head` was called with. -/
  given : List HtcSend
  /-- Ghost: what the owner was given back or shown. -/
  returned : List HtcPacket
  /-- Ghost: the credits granted in all. -/
  granted : Int
  /-- Ghost: whether the last HIF send failed. -/
  lastSendFailed : Bool

def HtcEndpoint.goTo (s : HtcEndpoint) (t : Nat) (call : Option Call) : HtcEndpoint :=
  { s with calls := Function.update s.calls t call }

def hifGetFreeQueueNumber (ep : EpConfig) (s : HtcEndpoint) : Nat :=
  match ep.bus with
  | .usb => s.urbCnt
  | .sdio => 1

/-! ### Network buffers -/

/-- `adf_nbuf_push_head` of a frame header -/
def HtcPacket.pushHead (pPacket : HtcPacket) : HtcPacket :=
  { pPacket with netbuf := { pPacket.netbuf with hdrs := pPacket.netbuf.hdrs + 1 } }

/-- `HTC_TX_PACKET_FLAG_FIXUP_NETBUF` is set, and `adf_nbuf_map` called. -/
def HtcPacket.fixupMap (pPacket : HtcPacket) : HtcPacket :=
  { pPacket with
    fixup := true
    netbuf := { pPacket.netbuf with maps := pPacket.netbuf.maps + 1 } }

def restoreTxPacket (pPacket : HtcPacket) : HtcPacket :=
  if pPacket.fixup then
    { pPacket with
      fixup := false
      netbuf := ⟨pPacket.netbuf.hdrs - 1, pPacket.netbuf.maps - 1⟩ }
  else pPacket

/-- A packet as its owner gives it to `HTCSendPktsMultiple`. -/
def HtcMsg.packet (msg : HtcMsg) : HtcPacket where
  toHtcMsg := msg
  creditsUsed := 0
  needCreditUpdate := false
  fixup := false
  netbuf := ⟨0, 0⟩
  data := false

/-- What `HTCSendPktsMultiple` does to each packet before it calls `HTCTrySend`. -/
def prepare (ep : EpConfig) (msg : HtcMsg) : HtcPacket :=
  if ep.txCreditFlowEnabled then msg.packet.pushHead else msg.packet.pushHead.fixupMap

/-- A packet as `HTCSendDataPkt` appends it. -/
def HtcMsg.dataPacket (ep : EpConfig) (msg : HtcMsg) : HtcPacket where
  id := msg.id
  actualLength :=
    -- the difference is unsigned
    if htcHdrLength ≤ ep.txCreditSize ∧ msg.actualLength > ep.txCreditSize - htcHdrLength then
      ep.txCreditSize - htcHdrLength
    else msg.actualLength
  numFrags := msg.numFrags
  creditsUsed := 0
  needCreditUpdate := false
  fixup := false
  netbuf := ⟨1, 1⟩
  data := true

/-! ### Taking packets from the queue -/

/-- The credits `GetHTCSendPacketsCreditBased` charges for a packet. -/
def creditsRequired (ep : EpConfig) (pPacket : HtcPacket) : Nat :=
  let transferLength := pPacket.actualLength + htcHdrLength
  if ep.id = endpoint0 then 0
  else if transferLength ≤ ep.txCreditSize then 1
  else transferLength / ep.txCreditSize + if transferLength % ep.txCreditSize ≠ 0 then 1 else 0

/-- `GetHTCSendPacketsCreditBased`: what it takes from the queue, the credits left, and the queue left. -/
def getHTCSendPacketsCreditBased (ep : EpConfig) (txCredits : Int) :
    List HtcPacket → List HtcPacket × Int × List HtcPacket
  | [] => ([], txCredits, [])
  | pPacket :: txQueue =>
    let creditsRequired := creditsRequired ep pPacket
    if ep.id ≠ endpoint0 ∧ txCredits < creditsRequired then ([], txCredits, pPacket :: txQueue)
    else
      let txCredits := txCredits - creditsRequired
      let pPacket := { pPacket with
        creditsUsed := creditsRequired
        needCreditUpdate := ep.id ≠ endpoint0 ∧ txCredits ≤ ep.txCreditsPerMaxMsg }
      let taken := getHTCSendPacketsCreditBased ep txCredits txQueue
      (pPacket :: taken.1, taken.2)

/-- `GetHTCSendPackets`: what it takes from the queue, and what it leaves. -/
def getHTCSendPackets (resources : Int) : List HtcPacket → List HtcPacket × List HtcPacket
  | [] => ([], [])
  | pPacket :: txQueue =>
    if resources > 0 then
      let numFrags : Nat := if pPacket.fixup then 1 else pPacket.numFrags
      let taken := getHTCSendPackets (resources - numFrags) txQueue
      ({ pPacket with creditsUsed := 0, needCreditUpdate := false } :: taken.1, taken.2)
    else ([], pPacket :: txQueue)

/-- What a call takes into its `sendQueue`, and the endpoint it leaves. -/
def takePackets (ep : EpConfig) (s : HtcEndpoint) (txResources : Nat) :
    List HtcPacket × HtcEndpoint :=
  if ep.txCreditFlowEnabled then
    let taken := getHTCSendPacketsCreditBased ep s.txCredits s.txQueue
    (taken.1, { s with txCredits := taken.2.1, txQueue := taken.2.2 })
  else
    let taken := getHTCSendPackets txResources s.txQueue
    (taken.1, { s with txQueue := taken.2 })

/-! ### `HTCTrySend` -/

/-- The overflow that `HTCTrySend` computes. -/
def overflow (ep : EpConfig) (depth callersDepth : Nat) : Int :=
  if depth ≥ ep.maxTxQueueDepth then callersDepth
  else depth + callersDepth - (ep.maxTxQueueDepth : Int)

/-- What `HTCTrySend` makes of the caller's packets: its `sendQueue`, what stays in the caller's queue, and what `EpSendFull` is shown.  `EpSendFull` keeps those whose ids are in `keep`. -/
def acceptPackets (ep : EpConfig) (depth : Nat) (callers : List HtcPacket) (keep : List Nat) :
    List HtcPacket × List HtcPacket × List HtcPacket :=
  let overflow := overflow ep depth callers.length
  if overflow ≤ 0 ∨ ¬ ep.epSendFull then (callers, [], [])
  else
    let goodPkts := (callers.length - overflow).toNat
    let shown := (callers.drop goodPkts).map restoreTxPacket
    let kept := (shown.filter fun p => p.id ∈ keep).map HtcPacket.pushHead
    (callers.take goodPkts ++ kept, shown.filter fun p => p.id ∉ keep, shown)

/-- The end of `HTCSendPktsMultiple`: what is left in the caller's queue is completed. -/
def HtcEndpoint.returns (s : HtcEndpoint) (t : Nat) (callers : List HtcPacket) : HtcEndpoint :=
  { s.goTo t none with returned := s.returned ++ callers.map restoreTxPacket }

/-- The exit of `HTCTrySend` that clears the count. -/
def HtcEndpoint.finish (s : HtcEndpoint) (t : Nat) (callers : List HtcPacket) : HtcEndpoint :=
  HtcEndpoint.returns { s with txProcessCount := 0 } t callers

/-- On USB the loop of `HTCTrySend` counts transfers when it bundles. -/
def bundledResources (ep : EpConfig) (txResources : Nat) : Nat :=
  if ep.bus = .usb ∧ ep.enableBundle ∧ txResources ≠ 0 then
    if ep.serviceId = .wmiControl then htcMaxMsgPerBundleTx ep.bus
    else htcMaxMsgPerBundleTx ep.bus * 2
  else txResources

/-- The head of the loop of `HTCTrySend`, under the lock. -/
def HtcEndpoint.drain (ep : EpConfig) (s : HtcEndpoint) (t : Nat) (callers : List HtcPacket)
    (txResources : Nat) : HtcEndpoint :=
  if s.txQueue = [] then s.finish t callers
  else
    let taken := takePackets ep s (bundledResources ep txResources)
    if taken.1 = [] then taken.2.finish t callers
    else taken.2.goTo t (some (.draining .trySend callers (.issue taken.1)))

/-- Packets are put into `TxQueue`, ahead of the others when they may not be dropped. -/
def HtcEndpoint.append (s : HtcEndpoint) (sendQueue : List HtcPacket) : HtcEndpoint :=
  if sendQueue = [] then s
  else if s.isNodropPkt then { s with
    txQueue := sendQueue ++ s.txQueue
    isNodropPkt := false
    appended := s.appended ++ sendQueue.map (·.id) }
  else { s with
    txQueue := s.txQueue ++ sendQueue
    appended := s.appended ++ sendQueue.map (·.id) }

/-- The first lock section of `HTCTrySend`. -/
def HtcEndpoint.enter (ep : EpConfig) (s : HtcEndpoint) (t : Nat)
    (sendQueue callers : List HtcPacket) (txResources : Nat) : HtcEndpoint :=
  let s := s.append sendQueue
  -- a second drainer takes its increment back under the same lock
  if s.txProcessCount + 1 > 1 then s.returns t callers
  else HtcEndpoint.drain ep { s with txProcessCount := s.txProcessCount + 1 } t callers txResources

/-- `HTCSendPktsMultiple`, up to the point in `HTCTrySend` where `tx_resources` is read. -/
def htcSendPktsMultiple (ep : EpConfig) (s : HtcEndpoint) (t : Nat) (msgs : List HtcMsg)
    (keep : List Nat) : HtcEndpoint :=
  let (sendQueue, callers, shown) :=
    acceptPackets ep s.txQueue.length (msgs.map (prepare ep)) keep
  let s := { s with returned := s.returned ++ shown }
  if sendQueue = [] then s.returns t callers
  else s.goTo t (some (.entering sendQueue callers none))

/-! ### `HTCSendDataPkt` -/

/-- The `tx_resources` of `HTCSendDataPkt`. -/
def dataResources (ep : EpConfig) (s : HtcEndpoint) : Nat :=
  if ep.enableBundle then
    match ep.bus with
    | .usb => if s.urbCnt ≠ 0 then htcMaxMsgPerBundleTx ep.bus * 2 else 0
    | .sdio => htcMaxTxBundleSendLimit
  else hifGetFreeQueueNumber ep s

/-- The rest of the lock section of `HTCSendDataPkt`, when the packet is in the queue. -/
def HtcEndpoint.drainData (ep : EpConfig) (s : HtcEndpoint) (t : Nat) : HtcEndpoint :=
  if s.txProcessCount + 1 > 1 then s.goTo t none
  else
    let taken := takePackets ep { s with txProcessCount := s.txProcessCount + 1 }
      (dataResources ep s)
    taken.2.goTo t (some (.draining .sendData [] (.issue taken.1)))

/-- `HTCSendDataPkt`, up to the end of its lock section. -/
def htcSendDataPkt (ep : EpConfig) (s : HtcEndpoint) (t : Nat) (msg : HtcMsg) (moreData : Bool) :
    HtcEndpoint :=
  let s := { s with
    txQueue := s.txQueue ++ [msg.dataPacket ep]
    appended := s.appended ++ [msg.id] }
  if ep.enableBundle ∧ moreData then s else s.drainData ep t

/-! ### Issuing -/

/-- What `HTCIssuePacketsBundle` takes for a packet. -/
def bundledLength (ep : EpConfig) (pPacket : HtcPacket) : Nat :=
  let transferLength := pPacket.actualLength + htcHdrLength
  let creditRemainder := transferLength % ep.txCreditSize
  if creditRemainder = 0 then transferLength
  else if transferLength < ep.txCreditSize then
    transferLength + (ep.txCreditSize - transferLength)
  else transferLength + creditRemainder

def bundleSpace (ep : EpConfig) : Int := htcMaxMsgPerBundleTx ep.bus * ep.txCreditSize

/-- The packets that still fit into a bundle, and the others. -/
def fillBundle (ep : EpConfig) (bundlesSpaceRemaining : Int) :
    List HtcPacket → List HtcPacket × List HtcPacket
  | [] => ([], [])
  | pPacket :: pktQueue =>
    if bundlesSpaceRemaining < bundledLength ep pPacket then ([], pPacket :: pktQueue)
    else
      let filled := fillBundle ep (bundlesSpaceRemaining - bundledLength ep pPacket) pktQueue
      (pPacket :: filled.1, filled.2)

/-- A bundle after the first: the packet that did not fit into the last one goes into it unseen. -/
def nextBundle (ep : EpConfig) : List HtcPacket → List HtcPacket × List HtcPacket
  | [] => ([], [])
  | pPacket :: pktQueue =>
    let filled := fillBundle ep (bundleSpace ep - bundledLength ep pPacket) pktQueue
    (pPacket :: filled.1, filled.2)

/-- Whether the issue loop of a drainer tries to bundle. -/
def bundles (ep : EpConfig) (who : Drainer) (sendQueue : List HtcPacket) : Bool :=
  (who = .sendData ∨ ep.bus = .usb ∨ ep.txCreditFlowEnabled) ∧ ep.enableBundle ∧
    sendQueue.length ≥ htcMinMsgPerBundle

/-- What a drainer does to a packet before it stores it in the lookup queue. -/
def submit (ep : EpConfig) (who : Drainer) (pPacket : HtcPacket) : HtcPacket :=
  if who = .trySend ∧ ep.txCreditFlowEnabled then pPacket.fixupMap else pPacket

/-- Something is stored in the lookup queue and goes into `HIFSend_head`. -/
def HtcEndpoint.submitSend (s : HtcEndpoint) (t : Nat) (who : Drainer) (callers : List HtcPacket)
    (send : HtcSend) (sendQueue : List HtcPacket) : HtcEndpoint :=
  HtcEndpoint.goTo { s with txLookupQueue := s.txLookupQueue ++ [send] } t
    (some (.draining who callers (.sending send sendQueue)))

/-- The issue loops of `HTCIssuePackets` and `HTCSendDataPkt`, when bundling is done with. -/
def HtcEndpoint.dequeue (ep : EpConfig) (s : HtcEndpoint) (t : Nat) (who : Drainer)
    (callers : List HtcPacket) : List HtcPacket → HtcEndpoint
  | [] => s.goTo t (some (.draining who callers (match who with
    | .trySend => .issued
    | .sendData => .clear)))
  | pPacket :: sendQueue => s.submitSend t who callers (.single (submit ep who pPacket)) sendQueue

/-- The head of the issue loops.  The buffer of a bundle may be out of memory. -/
def HtcEndpoint.issue (ep : EpConfig) (s : HtcEndpoint) (t : Nat) (who : Drainer)
    (callers sendQueue : List HtcPacket) (alloc : Bool) : HtcEndpoint :=
  if bundles ep who sendQueue ∧ alloc then
    let filled := fillBundle ep (bundleSpace ep) sendQueue
    s.submitSend t who callers (.bundle filled.1) filled.2
  else s.dequeue ep t who callers sendQueue

/-- `HIFSend_head` takes what it is given. -/
def HtcEndpoint.accepted (ep : EpConfig) (s : HtcEndpoint) (send : HtcSend) : HtcEndpoint :=
  { s with
    urbCnt := match ep.bus with
      | .usb => s.urbCnt - 1
      | .sdio => s.urbCnt
    atHif := s.atHif ++ [send]
    handed := s.handed ++ send.packets
    given := s.given ++ [send]
    lastSendFailed := false }

/-- `HIFSend_head` fails, and the packet is taken out of the lookup queue again. -/
def HtcEndpoint.refused (s : HtcEndpoint) (send : HtcSend) : HtcEndpoint :=
  { s with
    txLookupQueue := s.txLookupQueue.erase send
    given := s.given ++ [send]
    lastSendFailed := true }

/-- What follows a `HIFSend_head` that took the packet. -/
def HtcEndpoint.sent (ep : EpConfig) (s : HtcEndpoint) (t : Nat) (who : Drainer)
    (callers : List HtcPacket) (send : HtcSend) (sendQueue : List HtcPacket) (alloc : Bool) :
    HtcEndpoint :=
  let s := s.accepted ep send
  match send with
  | .single _ => s.goTo t (some (.draining who callers (.issue sendQueue)))
  | .bundle _ =>
    if sendQueue.length < htcMinMsgPerBundle ∨ ¬ alloc then
      s.goTo t (some (.draining who callers (.dequeue sendQueue)))
    else
      let filled := nextBundle ep sendQueue
      s.submitSend t who callers (.bundle filled.1) filled.2

/-- What follows a `HIFSend_head` that failed. -/
def HtcEndpoint.sendFailed (s : HtcEndpoint) (t : Nat) (who : Drainer)
    (callers : List HtcPacket) (send : HtcSend) (sendQueue : List HtcPacket) : HtcEndpoint :=
  let s := s.refused send
  match send, who with
  | .bundle pQueueSave, _ =>
    s.goTo t (some (.draining who callers (.dequeue (pQueueSave ++ sendQueue))))
  | .single pPacket, .trySend =>
    -- reclaim the credits of the packet that failed
    HtcEndpoint.goTo { s with txCredits := s.txCredits + pPacket.creditsUsed } t
      (some (.draining who callers (.failed (pPacket :: sendQueue))))
  | .single pPacket, .sendData =>
    -- no credits are reclaimed
    HtcEndpoint.goTo { s with txQueue := pPacket :: sendQueue ++ s.txQueue } t
      (some (.draining who callers .clear))

/-! ### Completions, credit reports and flushes -/

/-- `HTCTxCompletionHandler` goes on to `HTCTrySend`, or returns. -/
def HtcEndpoint.retry (s : HtcEndpoint) (t : Nat) (again : Bool) : HtcEndpoint :=
  s.goTo t (if again then some (.entering [] [] none) else none)

/-- `HTCTxCompletionHandler`.  The search of the lookup queue is one step. -/
def htcTxCompletionHandler (ep : EpConfig) (s : HtcEndpoint) (t : Nat) (send : HtcSend) :
    HtcEndpoint :=
  if send ∈ s.txLookupQueue then
    let s := { s with
      txLookupQueue := s.txLookupQueue.erase send
      returned := s.returned ++ send.packets.map restoreTxPacket }
    match send with
    | .single _ => s.retry t (¬ ep.txCreditFlowEnabled)
    | .bundle _ => s.retry t (ep.bus = .usb ∧ ¬ ep.txCreditFlowEnabled)
  else s.retry t (¬ ep.txCreditFlowEnabled)

/-- An entry of `HTCProcessCreditRpt`. -/
def htcProcessCreditRpt (ep : EpConfig) (s : HtcEndpoint) (t : Nat) (credits : Nat) :
    HtcEndpoint :=
  let s := { s with txCredits := s.txCredits + credits, granted := s.granted + credits }
  if s.txCredits ≠ 0 ∧ s.txQueue ≠ [] then
    s.goTo t (some (if ep.serviceId = .httData then .notify else .entering [] [] none))
  else s

def htcFlushEndpointTX (s : HtcEndpoint) : HtcEndpoint :=
  { s with
    txQueue := []
    returned := s.returned ++ s.txQueue.map restoreTxPacket }

/-! ### Runs -/

/-- What happens at an endpoint.  The number names the call. -/
inductive HtcEvent where
  /-- `HTCSendPktsMultiple`, or `HTCSendPkt` with a single packet; `EpSendFull` keeps the packets of `keep` -/
  | sendPktsMultiple (t : Nat) (msgs : List HtcMsg) (keep : List Nat)
  /-- `HTCTrySend` without a queue, from a handler -/
  | trySend (t : Nat)
  | sendDataPkt (t : Nat) (msg : HtcMsg) (moreData : Bool)
  /-- a call reads `HIFGetFreeQueueNumber` outside the lock -/
  | readResources (t : Nat)
  /-- a call takes the lock -/
  | lock (t : Nat)
  /-- a drainer goes on to the next send -/
  | issue (t : Nat) (alloc : Bool)
  /-- `HIFSend_head` returns -/
  | hifSend (t : Nat) (ok alloc : Bool)
  /-- `HTCSendDataPkt` clears the count, outside the lock, and returns -/
  | clear (t : Nat)
  /-- HIF completes a send: its resources are free, and the handler is called -/
  | complete (t : Nat) (send : HtcSend)
  | creditRpt (t : Nat) (credits : Nat)
  | flush
  /-- `HTCSetNodropPkt` -/
  | setNodropPkt (isNodropPkt : Bool)

/-- What `tx_resources` becomes when it is read: nothing is read with credit flow. -/
def readResources (ep : EpConfig) (s : HtcEndpoint) : Nat :=
  if ep.txCreditFlowEnabled then 0 else hifGetFreeQueueNumber ep s

/-- A call that has not taken the lock yet, or does so again, goes on. -/
def lockStep (ep : EpConfig) (s : HtcEndpoint) (t : Nat) : Call → Option HtcEndpoint
  | .entering sendQueue callers (some txResources) =>
    some (s.enter ep t sendQueue callers txResources)
  | .draining .trySend callers (.look txResources) => some (s.drain ep t callers txResources)
  | .draining .trySend callers (.failed sendQueue) =>
    some (HtcEndpoint.finish { s with txQueue := sendQueue ++ s.txQueue } t callers)
  | .notify =>
    -- `HTCSendDataPkt` without a packet serves `EndPoint[1]`
    some (if ep.id = endpoint1 then s.drainData ep t else s.goTo t none)
  | .completion send => some (htcTxCompletionHandler ep s t send)
  | _ => none

def htcStep (ep : EpConfig) (s : HtcEndpoint) : HtcEvent → Option HtcEndpoint
  | .sendPktsMultiple t msgs keep => do
    guard (s.calls t = none ∧ msgs ≠ [])
    return htcSendPktsMultiple ep s t msgs keep
  | .trySend t => do
    guard (s.calls t = none)
    return s.goTo t (some (.entering [] [] none))
  | .sendDataPkt t msg moreData => do
    guard (s.calls t = none)
    return htcSendDataPkt ep s t msg moreData
  | .readResources t =>
    match s.calls t with
    | some (.entering sendQueue callers none) =>
      some (s.goTo t (some (.entering sendQueue callers (some (readResources ep s)))))
    | some (.draining .trySend callers .issued) =>
      some (s.goTo t (some (.draining .trySend callers (.look (readResources ep s)))))
    | _ => none
  | .lock t => (s.calls t).bind (lockStep ep s t)
  | .issue t alloc =>
    match s.calls t with
    | some (.draining who callers (.issue sendQueue)) =>
      some (s.issue ep t who callers sendQueue alloc)
    | some (.draining who callers (.dequeue sendQueue)) =>
      some (s.dequeue ep t who callers sendQueue)
    | _ => none
  | .hifSend t ok alloc =>
    match s.calls t with
    | some (.draining who callers (.sending send sendQueue)) =>
      if ok then do
        guard (ep.bus = .usb → 0 < s.urbCnt)
        return s.sent ep t who callers send sendQueue alloc
      else some (s.sendFailed t who callers send sendQueue)
    | _ => none
  | .clear t =>
    match s.calls t with
    | some (.draining .sendData _ .clear) =>
      some (HtcEndpoint.goTo { s with txProcessCount := 0 } t none)
    | _ => none
  | .complete t send => do
    guard (s.calls t = none ∧ send ∈ s.atHif)
    return HtcEndpoint.goTo { s with
      atHif := s.atHif.erase send
      urbCnt := match ep.bus with
        | .usb => s.urbCnt + 1
        | .sdio => s.urbCnt } t (some (.completion send))
  | .creditRpt t credits => do
    guard (s.calls t = none)
    return htcProcessCreditRpt ep s t credits
  | .flush => some (htcFlushEndpointTX s)
  | .setNodropPkt isNodropPkt => some { s with isNodropPkt := isNodropPkt }

/-- An endpoint as `HTCConnectService` leaves it. -/
def HtcEndpoint.connected (txAlloc urbCnt : Nat) : HtcEndpoint where
  txQueue := []
  txLookupQueue := []
  txCredits := txAlloc
  txProcessCount := 0
  isNodropPkt := false
  urbCnt := urbCnt
  atHif := []
  calls _ := none
  appended := []
  handed := []
  given := []
  returned := []
  granted := txAlloc
  lastSendFailed := false

def htcMachine (ep : EpConfig) : Machine HtcEndpoint HtcEvent where
  init s := ∃ txAlloc urbCnt, s = .connected txAlloc urbCnt
  step := htcStep ep

/-- The HTT endpoint of an SDIO target whose tx frames need completions. -/
def httEndpoint : EpConfig where
  id := endpoint1
  serviceId := .httData
  bus := .sdio
  enableBundle := false
  maxTxQueueDepth := 64
  epSendFull := true
  txCreditFlowEnabled := true
  txCreditSize := 1792
  txCreditsPerMaxMsg := 1
  txCreditSize_pos := by decide

end Qcacld.Htc

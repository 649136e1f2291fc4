import Qcacld.Support.Bytes
import Qcacld.Support.Logged
import Qcacld.Htc.HtcSend

/-!
# Htc — HtcRecv

The receive side of HTC.  `HTCRxCompletionHandler` is given a netbuf by HIF, takes the frame header off, has `HTCProcessTrailer` go over the records at the end of the payload, and hands the rest to the endpoint.  Endpoint 0 is HTC's own.

The functions are programs that log what they read of the netbuf, what they do to the credits, and who gets the netbuf in the end.  `RX_SG_SUPPORT` is not built.
-/

namespace Qcacld.Htc
open Qcacld.Support List Nat
open Qcacld.Support.Logged

/-! ### Netbufs and fields -/

/-- A netbuf: the bytes in memory from its data on, and `adf_nbuf_len`. -/
structure RxNetbuf where
  data : Nat → UInt8
  len : Nat

/-- `n` bytes of it. -/
def RxNetbuf.bytesAt (m : RxNetbuf) (offset n : Nat) : List UInt8 :=
  (List.range n).map fun i => m.data (offset + i)

def endpointMax : Nat := 9
/-- `sizeof(HTC_RECORD_HDR)` and `sizeof(HTC_CREDIT_REPORT)` -/
def htcRecordHdrSize : Nat := 4
def htcCreditReportSize : Nat := 4
def htcRecordCredits : Nat := 1
def htcFlagsRecvTrailer : Nat := 2
def htcMaxControlMessageLength : Nat := 256
/-- `HTC_MSG_SEND_SUSPEND_COMPLETE` and `HTC_MSG_NACK_SUSPEND` -/
def htcMsgSendSuspendComplete : Nat := 6
def htcMsgNackSuspend : Nat := 7

/-- `HTC_GET_FIELD` of a word. -/
def htcGetField (mask lsb word : Nat) : Nat := (word &&& mask) >>> lsb

def htcFrameHdrEndpointId := htcGetField 0x000000ff 0
def htcFrameHdrFlags := htcGetField 0x0000ff00 8
def htcFrameHdrPayloadLen := htcGetField 0xffff0000 16
def htcFrameHdrControlBytes0 := htcGetField 0x000000ff 0
def htcRecordHdrRecordId := htcGetField 0x000000ff 0
def htcRecordHdrLength := htcGetField 0x0000ff00 8
def htcCreditReportEndpointId := htcGetField 0x000000ff 0
def htcCreditReportCredits := htcGetField 0x0000ff00 8
def htcUnknownMsgMessageId := htcGetField 0x0000ffff 0

/-! ### What the functions do -/

/-- `A_STATUS`, as far as it is returned here. -/
inductive AStatus where
  | ok
  | error
  | eproto
  | noResource
deriving DecidableEq

inductive RecvAction where
  /-- bytes of the netbuf are read -/
  | read (offset bytes : Nat)
  /-- credits are added to `TxCredits` of an endpoint -/
  | addCredits (ep credits : Nat)
  | htcTrySend (ep : Nat)
  | htcSendDataPkt
  | htcSendCompleteCheck (ep : Nat)
  | vosBug
  /-- `CtrlResponseBuffer` is filled, and whoever waits for it woken -/
  | ctrlResponse (bytes : List UInt8)
  | targetSendSuspendComplete (wowNack : Bool)
  | htcSuspendWow
  /-- the packet of an endpoint is given to its `EpRecv`, or to `EpRecvPktMultiple` -/
  | epRecv (ep : Nat) (bytes : List UInt8)
  /-- `adf_nbuf_free` -/
  | free
deriving DecidableEq

/-- The send side of the endpoints: `TxCredits`, and the depth of `TxQueue`. -/
structure TxSide where
  txCredits : Nat → Int
  txQueueDepth : Nat → Nat

def TxSide.addCredits (ep credits : Nat) (tx : TxSide) : TxSide :=
  { tx with txCredits := Function.update tx.txCredits ep (tx.txCredits ep + credits) }

/-- Credits that are there for packets that wait. -/
def TxSide.canSend (ep : Nat) (tx : TxSide) : Prop := tx.txCredits ep ≠ 0 ∧ tx.txQueueDepth ep ≠ 0
deriving Decidable

/-- The build, the endpoints, and what the send side leaves when it is called. -/
structure RecvCfg where
  wlanDebug : Bool
  /-- whether `AR_DEBUG_LVL_CHECK(ATH_DEBUG_RECV)` holds -/
  debugRecv : Bool
  /-- whether `VOS_BUG` stops the machine -/
  panicOnBug : Bool
  ath11acTxcompact : Bool
  serviceId : Nat → HtcService
  ulIsPolled : Nat → Bool
  /-- whether the endpoint has an `EpRecv` or an `EpRecvPktMultiple` -/
  epRecv : Nat → Bool
  htcTrySend : Nat → TxSide → TxSide
  htcSendDataPkt : TxSide → TxSide
  htcSendCompleteCheck : Nat → TxSide → TxSide

/-- What the handler changes of `HTC_TARGET`. -/
structure RecvState where
  tx : TxSide
  ctrlResponseProcessing : Bool
  /-- the length of `pHTCPacketStructPool` -/
  packetPool : Nat

abbrev Recv := Logged RecvState RecvAction

namespace Recv

def word (m : RxNetbuf) (offset : Nat) : Recv Nat := do
  emit (.read offset 4)
  return littleEndian (m.bytesAt offset 4)

def modifyTx (f : TxSide → TxSide) : Recv Unit := modify fun s => { s with tx := f s.tx }

/-! ### Trailers -/

def sendNow (cfg : RecvCfg) (ep : Nat) : Recv Unit :=
  if cfg.ath11acTxcompact = false ∧ cfg.serviceId ep = .httData then do
    emit .htcSendDataPkt
    modifyTx cfg.htcSendDataPkt
  else do
    emit (.htcTrySend ep)
    modifyTx (cfg.htcTrySend ep)

/-- An entry of a credit report whose endpoint exists. -/
def creditEntry (cfg : RecvCfg) (ep credits : Nat) : Recv Unit := do
  emit (.addCredits ep credits)
  modifyTx (TxSide.addCredits ep credits)
  let tx ← gets fun s => s.tx
  when (tx.canSend ep) (sendNow cfg ep)

/-- `HTCProcessCreditRpt`, from the entry at `pRpt` on. -/
def htcProcessCreditRpt (cfg : RecvCfg) (m : RxNetbuf) : Nat → Nat → Recv Unit
  | 0, _ => pure ()
  | numEntries + 1, pRpt => do
    let w ← word m pRpt
    if htcCreditReportEndpointId w ≥ endpointMax then pure ()
    else do
      let w' ← word m pRpt
      creditEntry cfg (htcCreditReportEndpointId w) (htcCreditReportCredits w')
      htcProcessCreditRpt cfg m numEntries (pRpt + htcCreditReportSize)

/-- The `switch` of `HTCProcessTrailer`.  Look ahead records are left to HIF, and others are not known. -/
def htcProcessRecord (cfg : RecvCfg) (m : RxNetbuf) (htcRecId htcRecLen pRecordBuf : Nat) :
    Recv Unit :=
  when (htcRecId = htcRecordCredits)
    (htcProcessCreditRpt cfg m (htcRecLen / htcCreditReportSize) pRecordBuf)

/-- The loop of `HTCProcessTrailer`, for at most so many rounds: `none` when they do not do. -/
def trailerLoop (cfg : RecvCfg) (m : RxNetbuf) : Nat → Nat → Nat → Recv (Option AStatus)
  | 0, _, _ => return none
  | rounds + 1, pBuffer, length =>
    if length = 0 then return some .ok
    else if length < htcRecordHdrSize then return some .eproto
    else do
      let w ← word m pBuffer
      let w' ← word m pBuffer
      let htcRecLen := htcRecordHdrLength w
      let htcRecId := htcRecordHdrRecordId w'
      -- no room left in buffer for record
      if htcRecLen > length - htcRecordHdrSize then return some .eproto
      else do
        htcProcessRecord cfg m htcRecId htcRecLen (pBuffer + htcRecordHdrSize)
        trailerLoop cfg m rounds (pBuffer + htcRecordHdrSize + htcRecLen)
          (length - htcRecordHdrSize - htcRecLen)

/-- `HTCProcessTrailer`.  A round takes at least the header of a record, so `length + 1` of them do. -/
def htcProcessTrailer (cfg : RecvCfg) (m : RxNetbuf) (pBuffer length : Nat) :
    Recv (Option AStatus) := do
  when (cfg.debugRecv = true) (emit (.read pBuffer length))
  let status ← trailerLoop cfg m (length + 1) pBuffer length
  when (status ≠ some .ok ∧ cfg.wlanDebug = true) (emit (.read pBuffer length))
  return status

/-! ### Frames -/

/-- How `HTCRxCompletionHandler` leaves its body: stopped by `VOS_BUG`, or with a status, and then with the netbuf in its hands or without. -/
inductive RxExit where
  | stopped
  | held (status : AStatus)
  | taken (status : AStatus)
deriving DecidableEq

/-- `VOS_BUG(0)`, and how the body is left behind it if the machine goes on. -/
def vosBug (cfg : RecvCfg) (exit : RxExit) : Recv RxExit := do
  emit .vosBug
  return if cfg.panicOnBug then .stopped else exit

/-- A frame whose endpoint does not exist, or whose payload is not all there. -/
def badFrame (cfg : RecvCfg) : Recv RxExit := do
  when (cfg.wlanDebug = true) (emit (.read 0 htcHdrLength))
  vosBug cfg (.held .error)

/-- A message for HTC itself, with the header taken off. -/
def controlMessage (cfg : RecvCfg) (m : RxNetbuf) : Recv RxExit := do
  let netlen := m.len - htcHdrLength
  let w ← word m htcHdrLength
  let messageId := htcUnknownMsgMessageId w
  if messageId = htcMsgSendSuspendComplete then do
    emit (.targetSendSuspendComplete false)
    emit .htcSuspendWow
    emit .free
    return .taken .ok
  else if messageId = htcMsgNackSuspend then do
    emit (.targetSendSuspendComplete true)
    emit .free
    return .taken .ok
  else do
    let busy ← gets fun s => s.ctrlResponseProcessing
    if busy then do
      let exit ← vosBug cfg (.taken .error)
      when (exit ≠ .stopped) (emit .free)
      return exit
    else do
      let n := min netlen htcMaxControlMessageLength
      emit (.read htcHdrLength n)
      emit (.ctrlResponse (m.bytesAt htcHdrLength n))
      modify fun s => { s with ctrlResponseProcessing := true }
      emit .free
      return .taken .ok

/-- A packet for an endpoint.  `DoRecvCompletion` passes over one whose endpoint has no callback. -/
def endpointPacket (cfg : RecvCfg) (m : RxNetbuf) (htcEpId trailerlen : Nat) : Recv RxExit := do
  let pool ← gets fun s => s.packetPool
  if pool = 0 then return .held .noResource
  else do
    let actualLength := m.len - htcHdrLength - trailerlen
    when (cfg.epRecv htcEpId = true) (emit (.epRecv htcEpId (m.bytesAt htcHdrLength actualLength)))
    return .taken .ok

/-- What is done with the payload in front of the trailer. -/
def rxPayload (cfg : RecvCfg) (m : RxNetbuf) (htcEpId payloadLen trailerlen : Nat) : Recv RxExit :=
  -- zero length packet with trailer data, just drop these
  if payloadLen ≤ trailerlen then return .held .ok
  else if htcEpId = endpoint0 then controlMessage cfg m
  else endpointPacket cfg m htcEpId trailerlen

/-- What is done with a payload that is all there. -/
def rxFrame (cfg : RecvCfg) (m : RxNetbuf) (htcEpId payloadLen : Nat) : Recv RxExit := do
  let w ← word m 0
  if htcFrameHdrFlags w &&& htcFlagsRecvTrailer = 0 then rxPayload cfg m htcEpId payloadLen 0
  else do
    let w ← word m 4
    let temp := htcFrameHdrControlBytes0 w
    if temp < htcRecordHdrSize ∨ temp > payloadLen then return .held .eproto
    else do
      let status ← htcProcessTrailer cfg m (htcHdrLength + payloadLen - temp) temp
      if status = some .ok then rxPayload cfg m htcEpId payloadLen temp
      else return .held (status.getD .error)

/-- The body of `HTCRxCompletionHandler`. -/
def rxBody (cfg : RecvCfg) (m : RxNetbuf) : Recv RxExit := do
  let w ← word m 0
  let htcEpId := htcFrameHdrEndpointId w
  if htcEpId ≥ endpointMax then badFrame cfg
  else do
    when (cfg.ulIsPolled htcEpId = true) do
      emit (.htcSendCompleteCheck htcEpId)
      modifyTx (cfg.htcSendCompleteCheck htcEpId)
    let w ← word m 0
    let payloadLen := htcFrameHdrPayloadLen w
    if m.len < payloadLen + htcHdrLength then badFrame cfg
    else rxFrame cfg m htcEpId payloadLen

def htcRxCompletionHandler (cfg : RecvCfg) (m : RxNetbuf) : Recv RxExit := do
  let exit ← rxBody cfg m
  when (exit matches .held _) (emit .free)
  return exit

/-! ### The bytes of a netbuf -/

section
variable {m : RxNetbuf} {offset n k : Nat}

@[simp] theorem length_bytesAt : (m.bytesAt offset n).length = n := by
  simp [RxNetbuf.bytesAt]

theorem bytesAt_add : m.bytesAt offset (n + k) = m.bytesAt offset n ++ m.bytesAt (offset + n) k := by
  simp only [RxNetbuf.bytesAt, range_add, map_append, map_map]
  congr 1
  exact map_congr_left fun i _ => congrArg m.data (add_assoc offset n i).symm

theorem bytesAt_four : m.bytesAt offset 4
    = [m.data offset, m.data (offset + 1), m.data (offset + 2), m.data (offset + 3)] := rfl

theorem bytesAt_four_add : m.bytesAt offset (4 + n) =
    m.data offset :: m.data (offset + 1) :: m.data (offset + 2) :: m.data (offset + 3)
      :: m.bytesAt (offset + 4) n := by
  rw [bytesAt_add, bytesAt_four]
  rfl

theorem word_eq : littleEndian (m.bytesAt offset 4) = (m.data offset).toNat
    + 256 * ((m.data (offset + 1)).toNat + 256 * littleEndian (m.bytesAt (offset + 2) 2)) := rfl

theorem low_byte (w : Nat) : htcGetField 0x000000ff 0 w = w % 256 :=
  and_two_pow_sub_one_eq_mod w 8

theorem second_byte (w : Nat) : htcGetField 0x0000ff00 8 w = w / 256 % 256 := by
  have hmask : w >>> 8 &&& (2 ^ 8 - 1) = w / 256 % 256 := by
    rw [and_two_pow_sub_one_eq_mod, shiftRight_eq_div_pow]
  exact shiftRight_and_distrib.trans hmask

theorem word_low_byte :
    htcGetField 0x000000ff 0 (littleEndian (m.bytesAt offset 4)) = (m.data offset).toNat := by
  rw [low_byte, word_eq, add_mul_mod_self_left]
  exact mod_eq_of_lt (m.data offset).toNat_lt

theorem word_second_byte :
    htcGetField 0x0000ff00 8 (littleEndian (m.bytesAt offset 4)) = (m.data (offset + 1)).toNat := by
  rw [second_byte, word_eq, add_mul_div_left _ _ (by decide),
    div_eq_of_lt (m.data offset).toNat_lt, zero_add, add_mul_mod_self_left]
  exact mod_eq_of_lt (m.data (offset + 1)).toNat_lt

theorem high_half (w : Nat) : htcGetField 0xffff0000 16 w = w / 65536 % 65536 := by
  have hmask : w >>> 16 &&& (2 ^ 16 - 1) = w / 65536 % 65536 := by
    rw [and_two_pow_sub_one_eq_mod, shiftRight_eq_div_pow]
  exact shiftRight_and_distrib.trans hmask

theorem word_high_half : htcGetField 0xffff0000 16 (littleEndian (m.bytesAt offset 4))
    = littleEndian (m.bytesAt (offset + 2) 2) := by
  have hlow := (m.data offset).toNat_lt
  have hsecond := (m.data (offset + 1)).toNat_lt
  have hhigh := littleEndian_lt (m.bytesAt (offset + 2) 2)
  rw [length_bytesAt] at hhigh
  rw [high_half, word_eq]
  omega

theorem word_bind {α : Type} (f : Nat → Recv α) :
    (word m offset >>= f) = (emit (.read offset 4) >>= fun _ =>
      f (littleEndian (m.bytesAt offset 4))) := rfl

end

end Recv
end Qcacld.Htc

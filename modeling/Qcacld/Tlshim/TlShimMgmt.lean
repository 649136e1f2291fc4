import Qcacld.Support.Layout
import Qcacld.Txrx.PeerFind
import Qcacld.Vos.VosMmie

/-!
# Tlshim — TlShimMgmt

Management frames on their way from the firmware to the upper layer: `tlshim_mgmt_rx_process` copies a frame into a packet of its own, and on an interface with management frame protection it checks deauthentication, disassociation and action frames.  A unicast one that is encrypted is checked for a packet number that is not new, and loses its CCMP header and MIC; a group-addressed one is checked for its MMIE, and loses it.

`mgmt_rx_iff` says which frames meet a defect.  The tables of the peers are those of `PeerFind`; they stay as they are while frames come in.
-/

namespace Qcacld.Tlshim
open Qcacld.Support Qcacld.Txrx Qcacld.Vos Function List Option Nat

/-! ### Frames -/

/-- What is read of a `struct ieee80211_frame`. -/
structure Ieee80211Frame where
  fc0 : UInt8
  fc1 : UInt8
  addr1 : List UInt8
  addr2 : List UInt8
  addr3 : List UInt8

/-- The `struct ieee80211_frame` at a place in memory. -/
def frameAt (mem : Nat → UInt8) (wh : Nat) : Ieee80211Frame where
  fc0 := mem wh
  fc1 := mem (wh + 1)
  addr1 := span mem (wh + 4) 6
  addr2 := span mem (wh + 10) 6
  addr3 := span mem (wh + 16) 6

/-- `i_fc[0] & IEEE80211_FC0_TYPE_MASK` -/
def Ieee80211Frame.mgtType (wh : Ieee80211Frame) : UInt8 := wh.fc0 &&& 0x0c

/-- `i_fc[0] & IEEE80211_FC0_SUBTYPE_MASK` -/
def Ieee80211Frame.mgtSubtype (wh : Ieee80211Frame) : UInt8 := wh.fc0 &&& 0xf0

def typeMgt : UInt8 := 0x00

def subtypeAssocReq : UInt8 := 0x00

def subtypeProbeResp : UInt8 := 0x50

def subtypeBeacon : UInt8 := 0x80

def subtypeDisassoc : UInt8 := 0xa0

def subtypeDeauth : UInt8 := 0xc0

def subtypeAction : UInt8 := 0xd0

/-- The frames that management frame protection is about. -/
def Ieee80211Frame.Robust (wh : Ieee80211Frame) : Prop :=
  wh.mgtType = typeMgt ∧ (wh.mgtSubtype = subtypeDisassoc ∨ wh.mgtSubtype = subtypeDeauth ∨
    wh.mgtSubtype = subtypeAction)
deriving Decidable

/-- `i_fc[1] & IEEE80211_FC1_WEP` -/
def Ieee80211Frame.Protected (wh : Ieee80211Frame) : Prop := wh.fc1 &&& 0x40 ≠ 0
deriving Decidable

/-- `IEEE80211_IS_BROADCAST(i_addr1) || IEEE80211_IS_MULTICAST(i_addr1)` -/
def Ieee80211Frame.Group (wh : Ieee80211Frame) : Prop :=
  wh.addr1 = List.replicate 6 0xff ∨ wh.addr1.getD 0 0 &&& 0x01 ≠ 0
deriving Decidable

def ccmpHeaderLen : Nat := 8

def ccmpMicLen : Nat := 8

def extractCcmpPn (mem : Nat → UInt8) (ccmp : Nat) : Nat :=
  littleEndian (span mem ccmp 2 ++ span mem (ccmp + 4) 4)

/-! ### Buffers and packets -/

/-- The bytes of an `adf_nbuf_t`, where its data begin and how long they are. -/
structure AdfNbuf where
  mem : Nat → UInt8
  data : Nat
  len : Nat

/-- An `unsigned int` less another one. -/
def sub32 (a b : Nat) : Nat := (2 ^ 32 + a - b) % 2 ^ 32

def AdfNbuf.pullHead (nbuf : AdfNbuf) (size : Nat) : AdfNbuf :=
  if size ≤ nbuf.len then { nbuf with data := nbuf.data + size, len := nbuf.len - size } else nbuf

def AdfNbuf.trimTail (nbuf : AdfNbuf) (size : Nat) : AdfNbuf :=
  if sub32 nbuf.len size < nbuf.len then { nbuf with len := sub32 nbuf.len size } else nbuf

/-- `t_packetmeta`.  The pointers are places in the buffer. -/
structure PacketMeta where
  channel : UInt8
  snr : UInt8
  rssi : UInt32
  rssiRaw : UInt32
  timestamp : UInt32
  scanSrc : UInt8
  tsfDelta : UInt32
  mpduHdrPtr : Nat
  mpduDataPtr : Nat
  mpduLen : Nat
  mpduHdrLen : Nat
  mpduDataLen : Nat
  roamCandidateInd : Bool
  dpuFeedback : UInt8
  sessionId : UInt8

/-- `vos_pkt_t` -/
structure VosPkt where
  pktMeta : PacketMeta
  pktBuf : AdfNbuf

/-- What happens to a packet: it is allocated, freed with `vos_mem_free`, given back with `vos_pkt_return_packet`, or handed to the upper layer. -/
inductive PktOp where
  | malloc
  | free
  | returnPacket
  | mgmtRx (rxPkt : VosPkt)

/-! ### The state -/

structure RmfPeer where
  lastRmfPnValid : Bool
  lastRmfPn : Nat
  rmfPnReplays : Nat
  lastAssocRcvd : BitVec 64
  lastDisassocDeauthRcvd : BitVec 64

/-- What is read of a `struct wma_txrx_node`: `rmfEnabled` and the IGTK, whose IPNs are for the key ids 4 and 5. -/
structure WmaTxrxNode where
  rmfEnabled : Bool
  key : List UInt8
  ipn : Nat → Ipn

structure WmiMgmtRxHdr where
  channel : UInt32
  snr : UInt32
  bufLen : UInt32
  flags : UInt32
  rssi : UInt32
  tsfDelta : UInt32

structure ParamTlvs where
  hdr : Option WmiMgmtRxHdr
  bufp : Nat → UInt8

/-- `struct txrx_tl_shim_ctx`, and what is changed of the peers and of the WMA. -/
structure TlShim where
  mgmtRx : Bool
  lastBeaconData : Option ParamTlvs
  peers : Nat → RmfPeer
  interfaces : Nat → WmaTxrxNode
  ccmpReplaysAttackCnt : Nat

/-- What a call of `tlshim_mgmt_rx_process` finds: the event, how the allocations and the cipher fare, what a fresh buffer holds, and the time. -/
structure MgmtRxEvent where
  data : Option ParamTlvs
  dataLen : Nat
  rxPktAlloc : Bool
  wbufAlloc : Bool
  saveAlloc : Bool
  crypto : CryptoSetup
  fresh : Nat → UInt8
  jiffies : UInt32
  now : BitVec 64
  mgmtRxRet : Int

/-! ### The packet -/

def wmaMaxMgmtMpduLen : Nat := 2000

/-- What is filled in for the upper layer before anything is taken off the frame. -/
def fillMeta (hdr : WmiMgmtRxHdr) (e : MgmtRxEvent) (savedBeacon : Bool) (vdevId : Nat) :
    PacketMeta where
  channel := hdr.channel.toUInt8
  snr := hdr.snr.toUInt8
  rssi := hdr.snr - 96
  rssiRaw := if hdr.rssi ≠ 0 then hdr.rssi else hdr.snr - 96
  timestamp := e.jiffies
  scanSrc := hdr.flags.toUInt8
  tsfDelta := hdr.tsfDelta
  mpduHdrPtr := 0
  mpduDataPtr := frameHdrSize
  mpduLen := hdr.bufLen.toNat
  mpduHdrLen := frameHdrSize
  mpduDataLen := sub32 hdr.bufLen.toNat frameHdrSize
  roamCandidateInd := savedBeacon
  dpuFeedback := 0
  sessionId := .ofNat vdevId

/-- The packet that `tlshim_mgmt_rx_process` makes of an event, or what it does of the way there. -/
def rxPacket (shim : TlShim) (e : MgmtRxEvent) (savedBeacon : Bool) (vdevId : Nat) :
    Except (List PktOp) (ParamTlvs × WmiMgmtRxHdr × VosPkt) :=
  match e.data with
  | none => .error []
  | some tlvs =>
    match tlvs.hdr with
    | none => .error []
    | some hdr =>
      if hdr.bufLen.toNat < frameHdrSize ∨ (savedBeacon = false ∧ hdr.bufLen.toNat > e.dataLen) then .error []
      else if e.rxPktAlloc = false then .error []
      else if sub32 hdr.bufLen.toNat frameHdrSize > wmaMaxMgmtMpduLen then .error [.malloc, .free]
      else if e.wbufAlloc = false then .error [.malloc, .free]
      else if shim.mgmtRx = false then .error [.malloc, .returnPacket]
      else .ok (tlvs, hdr,
        { pktMeta := fillMeta hdr e savedBeacon vdevId
          pktBuf :=
            { mem := blit e.fresh 0 (span tlvs.bufp 0 hdr.bufLen.toNat)
              data := 0
              len := hdr.bufLen.toNat } })

/-- A beacon or probe response is saved for later. -/
def saveBeacon (shim : TlShim) (e : MgmtRxEvent) (savedBeacon : Bool) (tlvs : ParamTlvs)
    (wh : Ieee80211Frame) : TlShim :=
  if savedBeacon = false ∧ wh.mgtType = typeMgt ∧
      (wh.mgtSubtype = subtypeBeacon ∨ wh.mgtSubtype = subtypeProbeResp) then
    { shim with lastBeaconData := if e.saveAlloc then some tlvs else none }
  else shim

/-! ### Protected frames -/

section Process
variable (aes : AesCipher) (idxBits : Nat) (pdev : Option PeerPdev)

/-- Six bytes as the tables of the peers have them. -/
def macAddrOf (addr : List UInt8) : MacAddr where
  bytesAb := .ofNat 16 (littleEndian (addr.take 2))
  bytesCd := .ofNat 16 (littleEndian ((addr.drop 2).take 2))
  bytesEf := .ofNat 16 (littleEndian ((addr.drop 4).take 2))

def findPeerByAddr (addr : List UInt8) : Option Nat :=
  pdev.bind fun pdev => peerHashFind idxBits pdev none (macAddrOf addr) true

def getVdevByAddr (addr : List UInt8) : Option Nat :=
  pdev.bind fun pdev => (findPeerByAddr idxBits (some pdev) addr).map fun peer =>
    (pdev.peers peer).vdev

/-- `ol_txrx_find_peer_by_addr_and_vdev`, of the vdev by the same address. -/
def findRmfPeer (addr : List UInt8) : Option Nat :=
  pdev.bind fun pdev => (getVdevByAddr idxBits (some pdev) addr).bind fun vdev =>
    peerHashFind idxBits pdev (some vdev) (macAddrOf addr) true

/-- `tlshim_mgmt_find_iface`: the vdev id whose interface it is. -/
def findIface (addr : List UInt8) (vdevId : Nat) : Nat :=
  (getVdevByAddr idxBits pdev addr).getD vdevId

def TlShim.setPeer (shim : TlShim) (peer : Nat) (st : RmfPeer) : TlShim :=
  { shim with peers := update shim.peers peer st }

def isCcmpPnReplayAttack (shim : TlShim) (addr2 : List UInt8) (newPn : Nat) : Bool × TlShim :=
  match findRmfPeer idxBits pdev addr2 with
  | none => (true, shim)
  | some peer =>
    let st := shim.peers peer
    if st.lastRmfPnValid then
      if newPn > st.lastRmfPn then (false, shim.setPeer peer { st with lastRmfPn := newPn })
      else (true, shim.setPeer peer { st with rmfPnReplays := st.rmfPnReplays + 1 })
    else (false, shim.setPeer peer { st with lastRmfPnValid := true, lastRmfPn := newPn })

/-- The CCMP header and the MIC are taken off: the frame header is moved up over the CCMP header. -/
def stripCcmp (rxPkt : VosPkt) : VosPkt :=
  let wbuf := rxPkt.pktBuf
  let moved := { wbuf with
    mem := blit wbuf.mem (wbuf.data + ccmpHeaderLen) (span wbuf.mem wbuf.data frameHdrSize) }
  let wbuf := (moved.pullHead ccmpHeaderLen).trimTail ccmpMicLen
  let mpduLen := wbuf.len
  { pktMeta := { rxPkt.pktMeta with
      mpduHdrPtr := wbuf.data
      mpduLen := mpduLen
      mpduDataLen := sub32 mpduLen rxPkt.pktMeta.mpduHdrLen
      mpduDataPtr := wbuf.data + rxPkt.pktMeta.mpduHdrLen }
    pktBuf := wbuf }

/-- The key id of the MMIE that ends a frame, as it is read. -/
def mmieKeyId (wbuf : AdfNbuf) : UInt8 := wbuf.mem (wbuf.data + wbuf.len - mmieSize + 2)

/-- `vos_is_mmie_valid` with the key and the IPN of an interface. -/
def isMmieValid (e : MgmtRxEvent) (iface : WmaTxrxNode) (wbuf : AdfNbuf) : Option (Bool × Ipn) :=
  vosIsMmieValid aes e.crypto iface.key (iface.ipn ((mmieKeyId wbuf).toNat - 4))
    (span wbuf.mem wbuf.data wbuf.len)

def TlShim.setIpn (shim : TlShim) (vdevId slot : Nat) (ipn : Ipn) : TlShim :=
  let iface := shim.interfaces vdevId
  { shim with interfaces := update shim.interfaces vdevId { iface with
      ipn := update iface.ipn slot ipn } }

/-- The check of a robust frame on an interface with management frame protection: the packet as it goes on, or what is done with it. -/
def checkRmf (shim : TlShim) (e : MgmtRxEvent) (vdevId : Nat) (wh : Ieee80211Frame)
    (rxPkt : VosPkt) : Option (TlShim × Except (List PktOp) VosPkt) :=
  let wbuf := rxPkt.pktBuf
  if wh.Protected then
    if wh.Group then some (shim, .error [.returnPacket])
    else
      match isCcmpPnReplayAttack idxBits pdev shim wh.addr2
          (extractCcmpPn wbuf.mem (wbuf.data + frameHdrSize)) with
      | (true, shim) => some ({ shim with ccmpReplaysAttackCnt := shim.ccmpReplaysAttackCnt + 1 },
          .error [.returnPacket])
      | (false, shim) => some (shim, .ok (stripCcmp rxPkt))
  else if wh.Group then
    -- the packet is not given back here
    if wbuf.len < frameHdrSize + mmieSize then some (shim, .error [])
    else if ¬ (mmieKeyId wbuf = 4 ∨ mmieKeyId wbuf = 5) then some (shim, .error [.returnPacket])
    else (isMmieValid aes e (shim.interfaces vdevId) wbuf).map fun
      | (valid, ipn) => (shim.setIpn vdevId ((mmieKeyId wbuf).toNat - 4) ipn,
          if valid then .ok { rxPkt with pktBuf := wbuf.trimTail mmieSize }
          else .error [.returnPacket])
  else some (shim, .ok { rxPkt with pktMeta := { rxPkt.pktMeta with dpuFeedback := 0x0f } })

/-! ### Frames that come too often -/

def vosSystemTimeAfter (a b : BitVec 64) : Bool := (b - a).toInt < 0

def detectDosTimer : BitVec 64 := 1000

/-- A frame has been received less than `TLSHIM_MGMT_FRAME_DETECT_DOS_TIMER` ago. -/
def tooSoon (last now : BitVec 64) : Bool :=
  last ≠ 0 && vosSystemTimeAfter (last + detectDosTimer) now

def isPktDropCandidate (shim : TlShim) (now : BitVec 64) (peerAddr : List UInt8)
    (subtype : UInt8) : Bool × TlShim :=
  if subtype ≠ subtypeDisassoc ∧ subtype ≠ subtypeDeauth ∧ subtype ≠ subtypeAssocReq then
    (false, shim)
  else if pdev.isNone then (true, shim)
  else
    match findPeerByAddr idxBits pdev peerAddr with
    | none => (subtype ≠ subtypeAssocReq, shim)
    | some peer =>
      let st := shim.peers peer
      if subtype = subtypeAssocReq then
        if tooSoon st.lastAssocRcvd now then (true, shim)
        else (false, shim.setPeer peer { st with lastAssocRcvd := now })
      else if tooSoon st.lastDisassocDeauthRcvd now then (true, shim)
      else (false, shim.setPeer peer { st with lastDisassocDeauthRcvd := now })

/-! ### The whole -/

/-- What a call does: the state, what happens to the packet, and what it returns. -/
structure MgmtRxResult where
  shim : TlShim
  ops : List PktOp
  ret : Int

/-- The end of `tlshim_mgmt_rx_process`. -/
def finishRx (e : MgmtRxEvent) (subtype : UInt8) (shim : TlShim) (rxPkt : VosPkt) : MgmtRxResult :=
  let wh := frameAt rxPkt.pktBuf.mem rxPkt.pktBuf.data
  match isPktDropCandidate idxBits pdev shim e.now wh.addr2 subtype with
  | (true, shim) => { shim, ops := [.malloc, .returnPacket], ret := -22 }
  | (false, shim) => { shim, ops := [.malloc, .mgmtRx rxPkt], ret := e.mgmtRxRet }

/-- How a call goes on behind the check of a robust frame. -/
def rmfDone (e : MgmtRxEvent) (subtype : UInt8) : TlShim × Except (List PktOp) VosPkt → MgmtRxResult
  | (shim, .error ops) => { shim, ops := .malloc :: ops, ret := 0 }
  | (shim, .ok rxPkt) => finishRx idxBits pdev e subtype shim rxPkt

def tlshimMgmtRxProcess (shim : TlShim) (e : MgmtRxEvent) (savedBeacon : Bool) (vdevId : Nat) :
    Option MgmtRxResult :=
  match rxPacket shim e savedBeacon vdevId with
  | .error ops => some { shim, ops, ret := 0 }
  | .ok (tlvs, _, rxPkt) =>
    let wh := frameAt rxPkt.pktBuf.mem rxPkt.pktBuf.data
    let shim := saveBeacon shim e savedBeacon tlvs wh
    let vdevId := findIface idxBits pdev wh.addr3 vdevId
    if wh.Robust ∧ (shim.interfaces vdevId).rmfEnabled then
      (checkRmf aes idxBits pdev shim e vdevId wh rxPkt).map (rmfDone idxBits pdev e wh.mgtSubtype)
    else some (finishRx idxBits pdev e wh.mgtSubtype shim rxPkt)

/-! ### What the upper layer should get -/

/-- What is done with a packet: it is never made, or it is freed, given back or handed up, once. -/
def OwnedOnce (ops : List PktOp) : Prop := ops = [] ∨ ∃ op, op ≠ .malloc ∧ ops = [.malloc, op]

/-- The lengths and the pointers of a packet lie in its frame. -/
structure Inside (rxPkt : VosPkt) : Prop where
  hdrPtr : rxPkt.pktBuf.data ≤ rxPkt.pktMeta.mpduHdrPtr
  len : rxPkt.pktMeta.mpduHdrPtr + rxPkt.pktMeta.mpduLen ≤ rxPkt.pktBuf.data + rxPkt.pktBuf.len
  dataPtr : rxPkt.pktBuf.data ≤ rxPkt.pktMeta.mpduDataPtr
  dataLen : rxPkt.pktMeta.mpduDataPtr + rxPkt.pktMeta.mpduDataLen ≤
    rxPkt.pktBuf.data + rxPkt.pktBuf.len

def received (tlvs : ParamTlvs) (hdr : WmiMgmtRxHdr) : List UInt8 :=
  span tlvs.bufp 0 hdr.bufLen.toNat

/-- A robust frame on an interface with management frame protection. -/
def Checked (shim : TlShim) (vdevId : Nat) (wh : Ieee80211Frame) : Prop :=
  wh.Robust ∧ (shim.interfaces (findIface idxBits pdev wh.addr3 vdevId)).rmfEnabled
deriving Decidable

/-- The MMIE of a frame is valid with the IGTK slot that its key id, of two bytes, names. -/
def MmieValid (e : MgmtRxEvent) (iface : WmaTxrxNode) (frame : List UInt8) : Prop :=
  ∃ slot < 2, littleEndian ((frame.drop (frame.length - mmieSize + 2)).take 2) = 4 + slot ∧
    ∃ ipn, vosIsMmieValid aes e.crypto iface.key (iface.ipn slot) frame = some (true, ipn)

/-- What is to be left of a robust frame: neither CCMP header nor MIC, nor an MMIE. -/
def stripped (wh : Ieee80211Frame) (frame : List UInt8) : List UInt8 :=
  if wh.Protected then
    frame.take frameHdrSize ++ (frame.drop (frameHdrSize + ccmpHeaderLen)).take
      (frame.length - frameHdrSize - ccmpHeaderLen - ccmpMicLen)
  else if wh.Group then frame.take (frame.length - mmieSize)
  else frame

/-- What is handed up of an event is as it should be. -/
structure HandedRight (shim : TlShim) (e : MgmtRxEvent) (vdevId : Nat) (tlvs : ParamTlvs)
    (hdr : WmiMgmtRxHdr) (rxPkt : VosPkt) : Prop where
  inside : Inside rxPkt
  bytes : span rxPkt.pktBuf.mem rxPkt.pktBuf.data rxPkt.pktBuf.len =
    if Checked idxBits pdev shim vdevId (frameAt tlvs.bufp 0) then
      stripped (frameAt tlvs.bufp 0) (received tlvs hdr)
    else received tlvs hdr
  group : Checked idxBits pdev shim vdevId (frameAt tlvs.bufp 0) → (frameAt tlvs.bufp 0).Group →
    ¬ (frameAt tlvs.bufp 0).Protected ∧ MmieValid aes e
      (shim.interfaces (findIface idxBits pdev (frameAt tlvs.bufp 0).addr3 vdevId))
      (received tlvs hdr)

/-- A call is right: the packet is owned once, and what is handed up is as it should be. -/
structure RxRight (shim : TlShim) (e : MgmtRxEvent) (vdevId : Nat) (r : MgmtRxResult) : Prop where
  owned : OwnedOnce r.ops
  handed : ∀ tlvs hdr rxPkt, e.data = some tlvs → tlvs.hdr = some hdr → .mgmtRx rxPkt ∈ r.ops →
    HandedRight aes idxBits pdev shim e vdevId tlvs hdr rxPkt

/-- A frame that does not meet a defect, of which a packet is made: if it is encrypted, unicast and handed up there is room for CCMP header and MIC; and if it is group-addressed and not encrypted there is room for the MMIE, and it is not handed up. -/
def PacketOk (shim : TlShim) (e : MgmtRxEvent) (vdevId : Nat) (wh : Ieee80211Frame)
    (wbuf : AdfNbuf) : Prop :=
  let drop := (isPktDropCandidate idxBits pdev shim e.now wh.addr2 wh.mgtSubtype).1
  let replay := (isCcmpPnReplayAttack idxBits pdev shim wh.addr2
    (extractCcmpPn wbuf.mem (wbuf.data + frameHdrSize))).1
  let iface := shim.interfaces (findIface idxBits pdev wh.addr3 vdevId)
  (wh.Protected → ¬ wh.Group → replay = false → drop = false →
      frameHdrSize + ccmpHeaderLen + ccmpMicLen ≤ wbuf.len) ∧
    (¬ wh.Protected → wh.Group → frameHdrSize + mmieSize ≤ wbuf.len ∧
      (mmieKeyId wbuf = 4 ∨ mmieKeyId wbuf = 5 → drop = false → ∀ ipn,
        isMmieValid aes e iface wbuf ≠ some (true, ipn)))

def FrameOk (shim : TlShim) (e : MgmtRxEvent) (savedBeacon : Bool) (vdevId : Nat) : Prop :=
  ∀ tlvs hdr rxPkt, rxPacket shim e savedBeacon vdevId = .ok (tlvs, hdr, rxPkt) →
    Checked idxBits pdev shim vdevId (frameAt tlvs.bufp 0) →
    PacketOk aes idxBits pdev shim e vdevId (frameAt tlvs.bufp 0) rxPkt.pktBuf

end Process

/-! ### The packet that is made -/

section Packet
variable {shim : TlShim} {e : MgmtRxEvent} {savedBeacon : Bool} {vdevId : ℕ} {tlvs : ParamTlvs}
  {hdr : WmiMgmtRxHdr} {rxPkt : VosPkt}

/-- A packet holds a copy of the frame, and says where it is. -/
structure Copied (tlvs : ParamTlvs) (hdr : WmiMgmtRxHdr) (rxPkt : VosPkt) : Prop where
  min : frameHdrSize ≤ hdr.bufLen.toNat
  max : hdr.bufLen.toNat ≤ frameHdrSize + wmaMaxMgmtMpduLen
  data : rxPkt.pktBuf.data = 0
  len : rxPkt.pktBuf.len = hdr.bufLen.toNat
  mem : ∀ i < hdr.bufLen.toNat, rxPkt.pktBuf.mem i = tlvs.bufp i
  hdrPtr : rxPkt.pktMeta.mpduHdrPtr = 0
  dataPtr : rxPkt.pktMeta.mpduDataPtr = frameHdrSize
  mpduLen : rxPkt.pktMeta.mpduLen = hdr.bufLen.toNat
  hdrLen : rxPkt.pktMeta.mpduHdrLen = frameHdrSize
  dataLen : rxPkt.pktMeta.mpduDataLen = hdr.bufLen.toNat - frameHdrSize

theorem sub32_of_le {a b : ℕ} (h : b ≤ a) (ha : a < 2 ^ 32) : sub32 a b = a - b := by
  unfold sub32
  omega

theorem rxPacket_ok (h : rxPacket shim e savedBeacon vdevId = .ok (tlvs, hdr, rxPkt)) :
    e.data = some tlvs ∧ tlvs.hdr = some hdr ∧ Copied tlvs hdr rxPkt := by
  unfold rxPacket at h
  split at h
  · cases h
  · rename_i tlvs' hdata
    split at h
    · cases h
    · rename_i hdr' hhdr
      split_ifs at h with hlen hpkt hmax hbuf hreg
      obtain ⟨rfl, rfl, rfl⟩ : tlvs' = tlvs ∧ hdr' = hdr ∧ _ = rxPkt := by
        simpa using h
      have hlt := hdr'.bufLen.toNat_lt
      have hmin : frameHdrSize ≤ hdr'.bufLen.toNat := not_lt.1 fun hlt => hlen (.inl hlt)
      have hsub := sub32_of_le hmin hlt
      rw [hsub] at hmax
      refine ⟨hdata, hhdr, hmin, by omega, rfl, rfl, fun i hi => ?_, rfl, rfl, rfl, rfl, hsub⟩
      have hcopy : blit e.fresh 0 (span tlvs'.bufp 0 hdr'.bufLen.toNat) (0 + i) =
          tlvs'.bufp (0 + i) := blit_span hi
      rwa [zero_add] at hcopy

theorem ownedOnce_pair {op : PktOp} (h : op ≠ .malloc) : OwnedOnce [.malloc, op] :=
  .inr ⟨op, h, rfl⟩

theorem rxPacket_error {ops : List PktOp} (h : rxPacket shim e savedBeacon vdevId = .error ops) :
    OwnedOnce ops ∧ ∀ rxPkt, .mgmtRx rxPkt ∉ ops := by
  have hops : ops = [] ∨ ops = [.malloc, .free] ∨ ops = [.malloc, .returnPacket] := by
    unfold rxPacket at h
    split at h
    · exact .inl (Except.error.inj h).symm
    · split at h
      · exact .inl (Except.error.inj h).symm
      · split_ifs at h
        · exact .inl (Except.error.inj h).symm
        · exact .inl (Except.error.inj h).symm
        · exact .inr (.inl (Except.error.inj h).symm)
        · exact .inr (.inl (Except.error.inj h).symm)
        · exact .inr (.inr (Except.error.inj h).symm)
  rcases hops with rfl | rfl | rfl
  · exact ⟨.inl rfl, fun _ => not_mem_nil⟩
  · exact ⟨ownedOnce_pair nofun, fun _ => by simp⟩
  · exact ⟨ownedOnce_pair nofun, fun _ => by simp⟩

theorem frameAt_congr {mem mem' : ℕ → UInt8} {p p' : ℕ}
    (h : ∀ i < frameHdrSize, mem (p + i) = mem' (p' + i)) : frameAt mem p = frameAt mem' p' := by
  have hspan : ∀ k, k + 6 ≤ frameHdrSize → span mem (p + k) 6 = span mem' (p' + k) 6 := by
    refine fun k hk => span_congr_shift fun i hi => ?_
    rw [add_assoc, add_assoc]
    exact h (k + i) (by omega)
  unfold frameAt
  rw [hspan 4 (by decide), hspan 10 (by decide), hspan 16 (by decide), h 1 (by decide)]
  rw [show mem p = mem' p' from h 0 (by decide)]

theorem Copied.frameAt (h : Copied tlvs hdr rxPkt) :
    frameAt rxPkt.pktBuf.mem rxPkt.pktBuf.data = frameAt tlvs.bufp 0 := by
  rw [h.data]
  exact frameAt_congr fun i hi => by simpa using h.mem i (lt_of_lt_of_le hi h.min)

theorem Copied.bytes (h : Copied tlvs hdr rxPkt) :
    span rxPkt.pktBuf.mem rxPkt.pktBuf.data rxPkt.pktBuf.len = received tlvs hdr := by
  rw [h.data, h.len]
  exact span_congr fun k _ hk => h.mem k (by omega)

theorem Copied.extractCcmpPn (h : Copied tlvs hdr rxPkt)
    (hroom : frameHdrSize + ccmpHeaderLen ≤ hdr.bufLen.toNat) :
    extractCcmpPn rxPkt.pktBuf.mem (rxPkt.pktBuf.data + frameHdrSize) =
      extractCcmpPn tlvs.bufp frameHdrSize := by
  rw [show ccmpHeaderLen = 8 from rfl] at hroom
  rw [h.data, zero_add, Tlshim.extractCcmpPn, Tlshim.extractCcmpPn,
    span_congr fun k _ hk => h.mem k (by omega), span_congr fun k _ hk => h.mem k (by omega)]

theorem Copied.inside (h : Copied tlvs hdr rxPkt) : Inside rxPkt := by
  have hmin := h.min
  refine ⟨?_, ?_, ?_, ?_⟩
  · rw [h.data, h.hdrPtr]
  · rw [h.data, h.hdrPtr, h.mpduLen, h.len]
  · rw [h.data]
    exact zero_le _
  · rw [h.data, h.dataPtr, h.dataLen, h.len]
    omega

/-! ### Taking the CCMP header off -/

theorem trimTail_of_le {nbuf : AdfNbuf} {size : ℕ} (h : size ≤ nbuf.len) (hpos : 0 < size)
    (hlen : nbuf.len < 2 ^ 32) : nbuf.trimTail size = { nbuf with len := nbuf.len - size } := by
  have hsub := sub32_of_le h hlen
  unfold AdfNbuf.trimTail
  rw [hsub, if_pos (by omega)]

/-- The frame once its header is moved over the CCMP header. -/
def movedMem (mem : ℕ → UInt8) : ℕ → UInt8 := blit mem ccmpHeaderLen (span mem 0 frameHdrSize)

theorem Copied.strip_buf (h : Copied tlvs hdr rxPkt) : (stripCcmp rxPkt).pktBuf =
    { mem := movedMem rxPkt.pktBuf.mem
      data := ccmpHeaderLen
      len := hdr.bufLen.toNat - ccmpHeaderLen - ccmpMicLen } := by
  have hmin := h.min
  have hlt := hdr.bufLen.toNat_lt
  rw [show frameHdrSize = 24 from rfl] at hmin
  unfold stripCcmp AdfNbuf.pullHead
  dsimp only
  rw [h.data, h.len, if_pos (le_trans (by decide) hmin), trimTail_of_le, zero_add]
  · rfl
  · exact le_sub_of_add_le (le_trans (by decide) hmin)
  · decide
  · exact lt_of_le_of_lt (sub_le _ _) hlt

theorem movedMem_hdr (mem : ℕ → UInt8) {i : ℕ} (hi : i < frameHdrSize) :
    movedMem mem (ccmpHeaderLen + i) = mem i := by
  have hcopy : movedMem mem (ccmpHeaderLen + i) = mem (0 + i) := blit_span hi
  rwa [zero_add] at hcopy

theorem movedMem_body (mem : ℕ → UInt8) {i : ℕ} (hi : ccmpHeaderLen + frameHdrSize ≤ i) :
    movedMem mem i = mem i :=
  blit_of_le (by rwa [length_span])

theorem Copied.strip_frameAt (h : Copied tlvs hdr rxPkt) :
    Tlshim.frameAt (stripCcmp rxPkt).pktBuf.mem (stripCcmp rxPkt).pktBuf.data =
      Tlshim.frameAt tlvs.bufp 0 := by
  rw [h.strip_buf]
  refine frameAt_congr fun i hi => ?_
  rw [zero_add, ← h.mem i (lt_of_lt_of_le hi h.min)]
  exact movedMem_hdr _ hi

/-- The lengths lie in the frame when there was room for CCMP header and MIC: else `mpdu_data_len` is below 0. -/
theorem Copied.strip_inside (h : Copied tlvs hdr rxPkt) :
    Inside (stripCcmp rxPkt) ↔ frameHdrSize + ccmpHeaderLen + ccmpMicLen ≤ hdr.bufLen.toNat := by
  have hmax := h.max
  have hbuf := h.strip_buf
  have hmeta : (stripCcmp rxPkt).pktMeta.mpduHdrPtr = (stripCcmp rxPkt).pktBuf.data ∧
      (stripCcmp rxPkt).pktMeta.mpduLen = (stripCcmp rxPkt).pktBuf.len ∧
      (stripCcmp rxPkt).pktMeta.mpduDataPtr = (stripCcmp rxPkt).pktBuf.data + frameHdrSize ∧
      (stripCcmp rxPkt).pktMeta.mpduDataLen = sub32 (stripCcmp rxPkt).pktBuf.len frameHdrSize := by
    refine ⟨rfl, rfl, ?_, ?_⟩ <;> rw [← h.hdrLen] <;> rfl
  obtain ⟨hhdr, hlen, hdata, hdlen⟩ := hmeta
  rw [hbuf] at hhdr hlen hdata hdlen
  rw [show frameHdrSize = 24 from rfl, show ccmpHeaderLen = 8 from rfl,
    show ccmpMicLen = 8 from rfl, show wmaMaxMgmtMpduLen = 2000 from rfl] at *
  unfold sub32 at hdlen
  constructor
  · intro hin
    have hend := hin.dataLen
    rw [hbuf, hdata, hdlen] at hend
    dsimp only at hend
    omega
  · intro hroom
    refine ⟨?_, ?_, ?_, ?_⟩ <;> rw [hbuf]
    · exact hhdr.ge
    · rw [hhdr, hlen]
    · rw [hdata]
      exact le_add_right _ _
    · rw [hdata, hdlen]
      dsimp only
      omega

theorem Copied.strip_bytes (h : Copied tlvs hdr rxPkt)
    (hroom : frameHdrSize + ccmpHeaderLen + ccmpMicLen ≤ hdr.bufLen.toNat) :
    span (stripCcmp rxPkt).pktBuf.mem (stripCcmp rxPkt).pktBuf.data (stripCcmp rxPkt).pktBuf.len =
      (received tlvs hdr).take frameHdrSize ++
        ((received tlvs hdr).drop (frameHdrSize + ccmpHeaderLen)).take
          ((received tlvs hdr).length - frameHdrSize - ccmpHeaderLen - ccmpMicLen) := by
  have hsplit : hdr.bufLen.toNat - ccmpHeaderLen - ccmpMicLen = frameHdrSize +
      (hdr.bufLen.toNat - frameHdrSize - ccmpHeaderLen - ccmpMicLen) := by omega
  have hfits : hdr.bufLen.toNat - frameHdrSize - ccmpHeaderLen - ccmpMicLen ≤
      hdr.bufLen.toNat - (frameHdrSize + ccmpHeaderLen) := by omega
  rw [← h.bytes, h.data, h.len, length_span, span_take, span_drop, span_take, h.strip_buf,
    min_eq_left h.min, min_eq_left hfits]
  dsimp only
  rw [hsplit, span_add]
  refine congrArg₂ (· ++ ·) ?_ ?_
  · exact span_congr_shift fun i hi => by rw [movedMem_hdr _ hi, zero_add]
  · refine span_congr_shift fun i _ => ?_
    rw [movedMem_body _ (by omega), zero_add, add_comm ccmpHeaderLen]

end Packet

/-! ### A call -/

section Call
variable {aes : AesCipher} {idxBits : ℕ} {pdev : Option PeerPdev} {shim shim' : TlShim}
  {e : MgmtRxEvent} {savedBeacon : Bool} {vdevId : ℕ} {tlvs : ParamTlvs} {hdr : WmiMgmtRxHdr}
  {rxPkt : VosPkt} {r : MgmtRxResult} {wh : Ieee80211Frame}

/-- The times of the frames that `tlshim_is_pkt_drop_candidate` compares with are the same. -/
def SameTimes (shim shim' : TlShim) : Prop :=
  ∀ peer, (shim.peers peer).lastAssocRcvd = (shim'.peers peer).lastAssocRcvd ∧
    (shim.peers peer).lastDisassocDeauthRcvd = (shim'.peers peer).lastDisassocDeauthRcvd

theorem isPktDropCandidate_congr (h : SameTimes shim shim') (now : BitVec 64) (addr : List UInt8)
    (subtype : UInt8) : (isPktDropCandidate idxBits pdev shim now addr subtype).1 =
      (isPktDropCandidate idxBits pdev shim' now addr subtype).1 := by
  unfold isPktDropCandidate
  cases findPeerByAddr idxBits pdev addr with
  | none => split_ifs <;> rfl
  | some peer =>
    dsimp only
    rw [(h peer).1, (h peer).2]
    split_ifs <;> rfl

theorem setPeer_sameTimes {peer : ℕ} {st : RmfPeer}
    (h : st.lastAssocRcvd = (shim.peers peer).lastAssocRcvd)
    (h' : st.lastDisassocDeauthRcvd = (shim.peers peer).lastDisassocDeauthRcvd) :
    SameTimes (shim.setPeer peer st) shim := by
  intro p
  by_cases hp : p = peer
  · subst hp
    have hpeer : (shim.setPeer p st).peers p = st := update_self ..
    rw [hpeer]
    exact ⟨h, h'⟩
  · have hpeer : (shim.setPeer peer st).peers p = shim.peers p := update_of_ne hp ..
    rw [hpeer]
    exact ⟨rfl, rfl⟩

theorem setIpn_sameTimes (shim : TlShim) (vdevId slot : ℕ) (ipn : Ipn) :
    SameTimes (shim.setIpn vdevId slot ipn) shim :=
  fun _ => ⟨rfl, rfl⟩

theorem isCcmpPnReplayAttack_sameTimes (idxBits : ℕ) (pdev : Option PeerPdev) (shim : TlShim)
    (addr : List UInt8) (pn : ℕ) :
    SameTimes (isCcmpPnReplayAttack idxBits pdev shim addr pn).2 shim := by
  unfold isCcmpPnReplayAttack
  cases findRmfPeer idxBits pdev addr with
  | none => exact fun _ => ⟨rfl, rfl⟩
  | some peer =>
    dsimp only
    split_ifs <;> exact setPeer_sameTimes rfl rfl

theorem finishRx_ops (idxBits : ℕ) (pdev : Option PeerPdev) (e : MgmtRxEvent) (subtype : UInt8)
    (shim : TlShim) (rxPkt : VosPkt) : (finishRx idxBits pdev e subtype shim rxPkt).ops =
    if (isPktDropCandidate idxBits pdev shim e.now
        (frameAt rxPkt.pktBuf.mem rxPkt.pktBuf.data).addr2 subtype).1 then
      [.malloc, .returnPacket] else [.malloc, .mgmtRx rxPkt] := by
  unfold finishRx
  dsimp only
  split <;> simp [*]

theorem rxRight_returned (h : r.ops = [.malloc, .returnPacket]) :
    RxRight aes idxBits pdev shim e vdevId r where
  owned := h ▸ ownedOnce_pair nofun
  handed := fun _ _ _ _ _ hmem => by simp [h] at hmem

theorem rxRight_handed (h : r.ops = [.malloc, .mgmtRx rxPkt]) (hdata : e.data = some tlvs)
    (hhdr : tlvs.hdr = some hdr) : RxRight aes idxBits pdev shim e vdevId r ↔
      HandedRight aes idxBits pdev shim e vdevId tlvs hdr rxPkt := by
  constructor
  · intro hr
    exact hr.handed tlvs hdr rxPkt hdata hhdr (by simp [h])
  · refine fun hr => ⟨h ▸ ownedOnce_pair nofun, fun tlvs' hdr' rxPkt' hdata' hhdr' hmem => ?_⟩
    obtain rfl := some.inj (hdata.symm.trans hdata')
    obtain rfl := some.inj (hhdr.symm.trans hhdr')
    obtain rfl : rxPkt' = rxPkt := by simpa [h] using hmem
    exact hr

theorem saveBeacon_robust (h : wh.Robust) : saveBeacon shim e savedBeacon tlvs wh = shim := by
  refine if_neg fun hb => ?_
  rcases h.2 with h | h | h <;> rw [h] at hb <;> exact absurd hb.2.2 (by decide)

theorem process_error {ops : List PktOp} (h : rxPacket shim e savedBeacon vdevId = .error ops) :
    tlshimMgmtRxProcess aes idxBits pdev shim e savedBeacon vdevId =
      some { shim, ops, ret := 0 } := by
  rw [tlshimMgmtRxProcess, h]

theorem process_unchecked (aes : AesCipher)
    (h : rxPacket shim e savedBeacon vdevId = .ok (tlvs, hdr, rxPkt))
    (hc : ¬ Checked idxBits pdev shim vdevId (frameAt tlvs.bufp 0)) :
    tlshimMgmtRxProcess aes idxBits pdev shim e savedBeacon vdevId =
      some (finishRx idxBits pdev e (frameAt tlvs.bufp 0).mgtSubtype
        (saveBeacon shim e savedBeacon tlvs (frameAt tlvs.bufp 0)) rxPkt) := by
  obtain ⟨-, -, hcopy⟩ := rxPacket_ok h
  rw [tlshimMgmtRxProcess, h]
  dsimp only
  rw [hcopy.frameAt, if_neg]
  refine fun hb => hc ⟨hb.1, ?_⟩
  rw [saveBeacon_robust hb.1] at hb
  exact hb.2

theorem process_checked (aes : AesCipher)
    (h : rxPacket shim e savedBeacon vdevId = .ok (tlvs, hdr, rxPkt))
    (hc : Checked idxBits pdev shim vdevId (frameAt tlvs.bufp 0)) :
    tlshimMgmtRxProcess aes idxBits pdev shim e savedBeacon vdevId =
      (checkRmf aes idxBits pdev shim e
        (findIface idxBits pdev (frameAt tlvs.bufp 0).addr3 vdevId) (frameAt tlvs.bufp 0)
        rxPkt).map (rmfDone idxBits pdev e (frameAt tlvs.bufp 0).mgtSubtype) := by
  obtain ⟨-, -, hcopy⟩ := rxPacket_ok h
  rw [tlshimMgmtRxProcess, h]
  dsimp only
  rw [hcopy.frameAt, saveBeacon_robust hc.1]
  exact if_pos hc

/-- A call is right exactly when its event does not meet a defect. -/
def RightIff (aes : AesCipher) (idxBits : ℕ) (pdev : Option PeerPdev) (shim : TlShim)
    (e : MgmtRxEvent) (savedBeacon : Bool) (vdevId : ℕ) : Prop :=
  ∃ r, tlshimMgmtRxProcess aes idxBits pdev shim e savedBeacon vdevId = some r ∧
    (RxRight aes idxBits pdev shim e vdevId r ↔ FrameOk aes idxBits pdev shim e savedBeacon vdevId)

theorem frameOk_iff (aes : AesCipher)
    (h : rxPacket shim e savedBeacon vdevId = .ok (tlvs, hdr, rxPkt))
    (hc : Checked idxBits pdev shim vdevId (frameAt tlvs.bufp 0)) :
    FrameOk aes idxBits pdev shim e savedBeacon vdevId ↔
      PacketOk aes idxBits pdev shim e vdevId (frameAt tlvs.bufp 0) rxPkt.pktBuf := by
  constructor
  · exact fun hok => hok tlvs hdr rxPkt h hc
  · intro hok tlvs' hdr' rxPkt' h' _
    obtain ⟨rfl, rfl, rfl⟩ : tlvs = tlvs' ∧ hdr = hdr' ∧ rxPkt = rxPkt' := by
      simpa using h.symm.trans h'
    exact hok

theorem rightIff_returned (hr : tlshimMgmtRxProcess aes idxBits pdev shim e savedBeacon vdevId =
      some r) (hops : r.ops = [.malloc, .returnPacket])
    (hok : FrameOk aes idxBits pdev shim e savedBeacon vdevId) :
    RightIff aes idxBits pdev shim e savedBeacon vdevId :=
  ⟨r, hr, iff_of_true (rxRight_returned hops) hok⟩

theorem rightIff_unchecked (h : rxPacket shim e savedBeacon vdevId = .ok (tlvs, hdr, rxPkt))
    (hc : ¬ Checked idxBits pdev shim vdevId (frameAt tlvs.bufp 0)) :
    RightIff aes idxBits pdev shim e savedBeacon vdevId := by
  obtain ⟨hdata, hhdr, hcopy⟩ := rxPacket_ok h
  have hok : FrameOk aes idxBits pdev shim e savedBeacon vdevId := by
    intro tlvs' hdr' rxPkt' h' hc'
    obtain ⟨rfl, rfl, rfl⟩ : tlvs = tlvs' ∧ hdr = hdr' ∧ rxPkt = rxPkt' := by
      simpa using h.symm.trans h'
    exact absurd hc' hc
  have hops := finishRx_ops idxBits pdev e (frameAt tlvs.bufp 0).mgtSubtype
    (saveBeacon shim e savedBeacon tlvs (frameAt tlvs.bufp 0)) rxPkt
  split_ifs at hops with hdrop
  · exact rightIff_returned (process_unchecked aes h hc) hops hok
  · refine ⟨_, process_unchecked aes h hc, iff_of_true ((rxRight_handed hops hdata hhdr).2 ?_) hok⟩
    refine ⟨hcopy.inside, ?_, fun hc' => absurd hc' hc⟩
    rw [hcopy.bytes, if_neg hc]

/-! ### An encrypted frame -/

theorem rightIff_encryptedGroup (h : rxPacket shim e savedBeacon vdevId = .ok (tlvs, hdr, rxPkt))
    (hc : Checked idxBits pdev shim vdevId (frameAt tlvs.bufp 0))
    (hp : (frameAt tlvs.bufp 0).Protected) (hg : (frameAt tlvs.bufp 0).Group) :
    RightIff aes idxBits pdev shim e savedBeacon vdevId := by
  have hr := process_checked aes h hc
  rw [checkRmf, if_pos hp, if_pos hg, map_some] at hr
  exact rightIff_returned hr rfl ((frameOk_iff aes h hc).2
    ⟨fun _ hng => absurd hg hng, fun hnp => absurd hp hnp⟩)

theorem checkRmf_encrypted {vdevId : ℕ} (hp : wh.Protected) (hng : ¬ wh.Group) :
    checkRmf aes idxBits pdev shim e vdevId wh rxPkt =
      match isCcmpPnReplayAttack idxBits pdev shim wh.addr2
          (extractCcmpPn rxPkt.pktBuf.mem (rxPkt.pktBuf.data + frameHdrSize)) with
      | (true, shim) => some ({ shim with ccmpReplaysAttackCnt := shim.ccmpReplaysAttackCnt + 1 },
          .error [.returnPacket])
      | (false, shim) => some (shim, .ok (stripCcmp rxPkt)) := by
  rw [checkRmf, if_pos hp, if_neg hng]

theorem rightIff_encrypted (h : rxPacket shim e savedBeacon vdevId = .ok (tlvs, hdr, rxPkt))
    (hc : Checked idxBits pdev shim vdevId (frameAt tlvs.bufp 0))
    (hp : (frameAt tlvs.bufp 0).Protected) (hng : ¬ (frameAt tlvs.bufp 0).Group) :
    RightIff aes idxBits pdev shim e savedBeacon vdevId := by
  obtain ⟨hdata, hhdr, hcopy⟩ := rxPacket_ok h
  have hr := process_checked aes h hc
  have htimes := isCcmpPnReplayAttack_sameTimes idxBits pdev shim (frameAt tlvs.bufp 0).addr2
    (extractCcmpPn rxPkt.pktBuf.mem (rxPkt.pktBuf.data + frameHdrSize))
  have hok := frameOk_iff aes h hc
  rw [checkRmf_encrypted hp hng] at hr
  rw [PacketOk] at hok
  generalize isCcmpPnReplayAttack idxBits pdev shim (frameAt tlvs.bufp 0).addr2
    (extractCcmpPn rxPkt.pktBuf.mem (rxPkt.pktBuf.data + frameHdrSize)) = answer at hr htimes hok
  obtain ⟨replay, shim'⟩ := answer
  cases replay with
  | true =>
    exact rightIff_returned hr rfl (hok.2 ⟨fun _ _ h => (nomatch h), fun hnp => absurd hp hnp⟩)
  | false =>
    have hops := finishRx_ops idxBits pdev e (frameAt tlvs.bufp 0).mgtSubtype shim'
      (stripCcmp rxPkt)
    rw [hcopy.strip_frameAt, isPktDropCandidate_congr htimes] at hops
    have hroom : FrameOk aes idxBits pdev shim e savedBeacon vdevId ↔
        ((isPktDropCandidate idxBits pdev shim e.now (frameAt tlvs.bufp 0).addr2
          (frameAt tlvs.bufp 0).mgtSubtype).1 = false →
          frameHdrSize + ccmpHeaderLen + ccmpMicLen ≤ hdr.bufLen.toNat) := by
      rw [hok, hcopy.len]
      exact ⟨fun h => h.1 hp hng rfl, fun h => ⟨fun _ _ _ => h, fun hnp => absurd hp hnp⟩⟩
    split_ifs at hops with hdrop
    · exact rightIff_returned hr hops (hroom.2 fun h => by simp [h] at hdrop)
    · refine ⟨_, hr, (rxRight_handed hops hdata hhdr).trans ?_⟩
      rw [hroom]
      constructor
      · exact fun hright _ => hcopy.strip_inside.1 hright.inside
      · intro hlen
        have hlen := hlen (by simpa using hdrop)
        refine ⟨hcopy.strip_inside.2 hlen, ?_, fun _ hg => absurd hg hng⟩
        rw [hcopy.strip_bytes hlen, if_pos hc, stripped, if_pos hp]

/-! ### A frame that is not encrypted -/

theorem rightIff_unicast (h : rxPacket shim e savedBeacon vdevId = .ok (tlvs, hdr, rxPkt))
    (hc : Checked idxBits pdev shim vdevId (frameAt tlvs.bufp 0))
    (hnp : ¬ (frameAt tlvs.bufp 0).Protected) (hng : ¬ (frameAt tlvs.bufp 0).Group) :
    RightIff aes idxBits pdev shim e savedBeacon vdevId := by
  obtain ⟨hdata, hhdr, hcopy⟩ := rxPacket_ok h
  have hr := process_checked aes h hc
  rw [checkRmf, if_neg hnp, if_neg hng, map_some] at hr
  have hok := (frameOk_iff aes h hc).2 ⟨fun hp => absurd hp hnp, fun _ hg => absurd hg hng⟩
  have hops := finishRx_ops idxBits pdev e (frameAt tlvs.bufp 0).mgtSubtype shim
    { rxPkt with pktMeta := { rxPkt.pktMeta with dpuFeedback := 0x0f } }
  split_ifs at hops with hdrop
  · exact rightIff_returned hr hops hok
  · refine ⟨_, hr, iff_of_true ((rxRight_handed hops hdata hhdr).2 ?_) hok⟩
    have hin := hcopy.inside
    refine ⟨⟨hin.hdrPtr, hin.len, hin.dataPtr, hin.dataLen⟩, ?_, fun _ hg => absurd hg hng⟩
    rw [if_pos hc, stripped, if_neg hnp, if_neg hng]
    exact hcopy.bytes

theorem isMmieValid_isSome (aes : AesCipher) (e : MgmtRxEvent) (iface : WmaTxrxNode)
    {wbuf : AdfNbuf} (hmin : frameHdrSize + mmieSize ≤ wbuf.len)
    (hmax : wbuf.len ≤ frameHdrSize + wmaMaxMgmtMpduLen) :
    (isMmieValid aes e iface wbuf).isSome := by
  have hlen : (span wbuf.mem wbuf.data wbuf.len).length = wbuf.len := length_span
  have hinput : ∃ input, mmieInput (span wbuf.mem wbuf.data wbuf.len) frameHdrSize
      (wbuf.len - frameHdrSize) = some input := by
    rw [show frameHdrSize = 24 from rfl, show mmieSize = 18 from rfl,
      show wmaMaxMgmtMpduLen = 2000 from rfl] at *
    exact ⟨_, guard_bind_eq_some.2 ⟨by omega, rfl⟩⟩
  obtain ⟨input, hinput⟩ := hinput
  unfold isMmieValid vosIsMmieValid
  dsimp only
  rw [hlen, hinput, if_neg (not_lt.2 (le_of_add_right_le hmin))]
  split_ifs
  · rfl
  · rfl
  · cases e.crypto with
    | ok =>
      rw [bind_eq_bind, bind_some]
      split_ifs <;> rfl
    | allocFails | setkeyFails | mallocFails => rfl

theorem Copied.trim_not_inside (h : Copied tlvs hdr rxPkt)
    (hmin : frameHdrSize + mmieSize ≤ hdr.bufLen.toNat) :
    ¬ Inside { rxPkt with pktBuf := rxPkt.pktBuf.trimTail mmieSize } := by
  intro hin
  have hlt := hdr.bufLen.toNat_lt
  have hlen := hin.len
  have htrim : rxPkt.pktBuf.trimTail mmieSize = _ := trimTail_of_le (by rw [h.len]; omega)
    (by decide) (by rw [h.len]; omega)
  rw [htrim] at hlen
  dsimp only at hlen
  rw [h.hdrPtr, h.mpduLen, h.data, h.len] at hlen
  have hsize : mmieSize = 18 := rfl
  omega

theorem rightIff_group (h : rxPacket shim e savedBeacon vdevId = .ok (tlvs, hdr, rxPkt))
    (hc : Checked idxBits pdev shim vdevId (frameAt tlvs.bufp 0))
    (hnp : ¬ (frameAt tlvs.bufp 0).Protected) (hg : (frameAt tlvs.bufp 0).Group) :
    RightIff aes idxBits pdev shim e savedBeacon vdevId := by
  obtain ⟨hdata, hhdr, hcopy⟩ := rxPacket_ok h
  have hr := process_checked aes h hc
  have hok := frameOk_iff aes h hc
  rw [checkRmf, if_neg hnp, if_pos hg] at hr
  by_cases hshort : rxPkt.pktBuf.len < frameHdrSize + mmieSize
  · -- the packet stays with the call
    rw [if_pos hshort, map_some] at hr
    refine ⟨_, hr, iff_of_false (fun hright => ?_) fun h => ?_⟩
    · rcases hright.owned with hops | ⟨op, -, hops⟩ <;> simp [rmfDone] at hops
    · exact absurd ((hok.1 h).2 hnp hg).1 (not_le.2 hshort)
  · have hmin := not_lt.1 hshort
    rw [if_neg hshort] at hr
    by_cases hkey : mmieKeyId rxPkt.pktBuf = 4 ∨ mmieKeyId rxPkt.pktBuf = 5
    · rw [if_neg (not_not.2 hkey)] at hr
      obtain ⟨⟨valid, ipn⟩, hvalid⟩ := isSome_iff_exists.1 (isMmieValid_isSome aes e
          (shim.interfaces (findIface idxBits pdev (frameAt tlvs.bufp 0).addr3 vdevId)) hmin
          (by rw [hcopy.len]; exact hcopy.max))
      rw [hvalid, map_some, map_some] at hr
      have hok' : FrameOk aes idxBits pdev shim e savedBeacon vdevId ↔
          ((isPktDropCandidate idxBits pdev shim e.now (frameAt tlvs.bufp 0).addr2
            (frameAt tlvs.bufp 0).mgtSubtype).1 = false → valid = false) := by
        rw [hok, PacketOk]
        constructor
        · intro h hdrop
          have hne := (h.2 hnp hg).2 hkey hdrop ipn
          rw [hvalid] at hne
          exact Bool.eq_false_iff.2 fun ht => hne (by rw [ht])
        · intro h
          refine ⟨fun hp => absurd hp hnp, fun _ _ => ⟨hmin, fun _ hdrop ipn' heq => ?_⟩⟩
          rw [hvalid, h hdrop] at heq
          cases heq
      cases valid with
      | false => exact rightIff_returned hr rfl (hok'.2 fun _ => rfl)
      | true =>
        have hops := finishRx_ops idxBits pdev e (frameAt tlvs.bufp 0).mgtSubtype
          (shim.setIpn (findIface idxBits pdev (frameAt tlvs.bufp 0).addr3 vdevId)
            ((mmieKeyId rxPkt.pktBuf).toNat - 4) ipn)
          { rxPkt with pktBuf := rxPkt.pktBuf.trimTail mmieSize }
        have hframe : Tlshim.frameAt (rxPkt.pktBuf.trimTail mmieSize).mem
            (rxPkt.pktBuf.trimTail mmieSize).data = Tlshim.frameAt tlvs.bufp 0 := by
          rw [← hcopy.frameAt]
          unfold AdfNbuf.trimTail
          split_ifs <;> rfl
        rw [hframe, isPktDropCandidate_congr (setIpn_sameTimes shim _ _ ipn)] at hops
        split_ifs at hops with hdrop
        · exact rightIff_returned hr hops (hok'.2 fun h => by simp [h] at hdrop)
        · refine ⟨_, hr, iff_of_false (fun hright => ?_) fun h => ?_⟩
          · exact hcopy.trim_not_inside (hcopy.len ▸ hmin)
              ((rxRight_handed hops hdata hhdr).1 hright).inside
          · exact absurd (hok'.1 h (by simpa using hdrop)) (by decide)
    · rw [if_pos hkey, map_some] at hr
      exact rightIff_returned hr rfl
        (hok.2 ⟨fun hp => absurd hp hnp, fun _ _ => ⟨hmin, fun hkey' => absurd hkey' hkey⟩⟩)

/-- **A call is right exactly when its event does not meet a defect.** -/
theorem rightIff (aes : AesCipher) (idxBits : ℕ) (pdev : Option PeerPdev) (shim : TlShim)
    (e : MgmtRxEvent) (savedBeacon : Bool) (vdevId : ℕ) :
    RightIff aes idxBits pdev shim e savedBeacon vdevId := by
  cases h : rxPacket shim e savedBeacon vdevId with
  | error ops =>
    obtain ⟨howned, hnot⟩ := rxPacket_error h
    refine ⟨_, process_error h, iff_of_true ⟨howned, fun _ _ rxPkt _ _ hmem =>
      absurd hmem (hnot rxPkt)⟩ fun tlvs hdr rxPkt h' => ?_⟩
    rw [h] at h'
    cases h'
  | ok out =>
    obtain ⟨tlvs, hdr, rxPkt⟩ := out
    by_cases hc : Checked idxBits pdev shim vdevId (frameAt tlvs.bufp 0)
    · by_cases hp : (frameAt tlvs.bufp 0).Protected
      · by_cases hg : (frameAt tlvs.bufp 0).Group
        · exact rightIff_encryptedGroup h hc hp hg
        · exact rightIff_encrypted h hc hp hg
      · by_cases hg : (frameAt tlvs.bufp 0).Group
        · exact rightIff_group h hc hp hg
        · exact rightIff_unicast h hc hp hg
    · exact rightIff_unchecked h hc

/-! ### Packet numbers -/

def PnRises (shim shim' : TlShim) : Prop :=
  ∀ peer, (shim.peers peer).lastRmfPnValid → (shim'.peers peer).lastRmfPnValid ∧
    (shim.peers peer).lastRmfPn ≤ (shim'.peers peer).lastRmfPn

theorem PnRises.refl (shim : TlShim) : PnRises shim shim := fun _ h => ⟨h, le_rfl⟩

theorem PnRises.of_peers (h : shim'.peers = shim.peers) : PnRises shim shim' := by
  intro peer hv
  rw [h]
  exact ⟨hv, le_rfl⟩

theorem PnRises.trans {shim'' : TlShim} (h : PnRises shim shim') (h' : PnRises shim' shim'') :
    PnRises shim shim'' := fun peer hv =>
  have ⟨hv', hle⟩ := h peer hv
  have ⟨hv'', hle'⟩ := h' peer hv'
  ⟨hv'', hle.trans hle'⟩

theorem setPeer_pnRises {peer : ℕ} {st : RmfPeer}
    (h : (shim.peers peer).lastRmfPnValid → st.lastRmfPnValid ∧
      (shim.peers peer).lastRmfPn ≤ st.lastRmfPn) : PnRises shim (shim.setPeer peer st) := by
  intro p hv
  by_cases hp : p = peer
  · subst hp
    have hpeer : (shim.setPeer p st).peers p = st := update_self ..
    rw [hpeer]
    exact h hv
  · have hpeer : (shim.setPeer peer st).peers p = shim.peers p := update_of_ne hp ..
    rw [hpeer]
    exact ⟨hv, le_rfl⟩

theorem isCcmpPnReplayAttack_pnRises (idxBits : ℕ) (pdev : Option PeerPdev) (shim : TlShim)
    (addr : List UInt8) (pn : ℕ) :
    PnRises shim (isCcmpPnReplayAttack idxBits pdev shim addr pn).2 := by
  unfold isCcmpPnReplayAttack
  cases findRmfPeer idxBits pdev addr with
  | none => exact .refl shim
  | some peer =>
    dsimp only
    split_ifs with hvalid hnew
    · exact setPeer_pnRises fun _ => ⟨hvalid, hnew.le⟩
    · exact setPeer_pnRises fun _ => ⟨hvalid, le_rfl⟩
    · exact setPeer_pnRises fun hv => absurd hv hvalid

theorem isPktDropCandidate_pnRises (idxBits : ℕ) (pdev : Option PeerPdev) (shim : TlShim)
    (now : BitVec 64) (addr : List UInt8) (subtype : UInt8) :
    PnRises shim (isPktDropCandidate idxBits pdev shim now addr subtype).2 := by
  unfold isPktDropCandidate
  cases findPeerByAddr idxBits pdev addr with
  | none => split_ifs <;> exact .refl shim
  | some peer =>
    dsimp only
    split_ifs <;> first | exact .refl shim | exact setPeer_pnRises fun hv => ⟨hv, le_rfl⟩

theorem finishRx_pnRises (idxBits : ℕ) (pdev : Option PeerPdev) (e : MgmtRxEvent)
    (subtype : UInt8) (shim : TlShim) (rxPkt : VosPkt) :
    PnRises shim (finishRx idxBits pdev e subtype shim rxPkt).shim := by
  have h := isPktDropCandidate_pnRises idxBits pdev shim e.now
    (frameAt rxPkt.pktBuf.mem rxPkt.pktBuf.data).addr2 subtype
  unfold finishRx
  dsimp only
  split <;> simp_all

theorem isCcmpPnReplayAttack_passes {addr : List UInt8} {pn : ℕ}
    (h : isCcmpPnReplayAttack idxBits pdev shim addr pn = (false, shim')) :
    ∃ peer, findRmfPeer idxBits pdev addr = some peer ∧
      ((shim.peers peer).lastRmfPnValid → (shim.peers peer).lastRmfPn < pn) ∧
      (shim'.peers peer).lastRmfPnValid ∧ (shim'.peers peer).lastRmfPn = pn := by
  unfold isCcmpPnReplayAttack at h
  cases hfind : findRmfPeer idxBits pdev addr with
  | none =>
    rw [hfind] at h
    cases h
  | some peer =>
    rw [hfind] at h
    dsimp only at h
    refine ⟨peer, rfl, ?_⟩
    split_ifs at h with hvalid hnew
    · obtain rfl := (Prod.mk.inj h).2
      refine ⟨fun _ => hnew, ?_⟩
      simp [TlShim.setPeer, hvalid]
    · cases (Prod.mk.inj h).1
    · obtain rfl := (Prod.mk.inj h).2
      refine ⟨fun hv => absurd hv hvalid, ?_⟩
      simp [TlShim.setPeer]

theorem checkRmf_pnRises {out : Except (List PktOp) VosPkt}
    (h : checkRmf aes idxBits pdev shim e vdevId wh rxPkt = some (shim', out)) :
    PnRises shim shim' := by
  unfold checkRmf at h
  dsimp only at h
  split_ifs at h
  · cases h
    exact .refl shim
  · have hrises := isCcmpPnReplayAttack_pnRises idxBits pdev shim wh.addr2
      (extractCcmpPn rxPkt.pktBuf.mem (rxPkt.pktBuf.data + frameHdrSize))
    split at h
    all_goals
      rename_i heq
      rw [heq] at hrises
      cases h
      exact hrises
  · cases h
    exact .refl shim
  · obtain ⟨⟨valid, ipn⟩, -, h⟩ := map_eq_some_iff.1 h
    obtain rfl := (Prod.mk.inj h).1
    exact .of_peers rfl
  · cases h
    exact .refl shim
  · cases h
    exact .refl shim

theorem saveBeacon_pnRises : PnRises shim (saveBeacon shim e savedBeacon tlvs wh) := by
  unfold saveBeacon
  split_ifs
  · exact .of_peers rfl
  · exact .of_peers rfl
  · exact .refl shim

theorem process_pnRises
    (h : tlshimMgmtRxProcess aes idxBits pdev shim e savedBeacon vdevId = some r) :
    PnRises shim r.shim := by
  cases hpkt : rxPacket shim e savedBeacon vdevId with
  | error ops =>
    rw [process_error hpkt] at h
    cases h
    exact .refl shim
  | ok out =>
    obtain ⟨tlvs, hdr, rxPkt⟩ := out
    by_cases hc : Checked idxBits pdev shim vdevId (frameAt tlvs.bufp 0)
    · rw [process_checked aes hpkt hc] at h
      obtain ⟨⟨shim', out⟩, hout, rfl⟩ := map_eq_some_iff.1 h
      have hrises := checkRmf_pnRises hout
      cases out with
      | error ops => exact hrises
      | ok rxPkt' => exact hrises.trans (finishRx_pnRises _ _ _ _ _ _)
    · rw [process_unchecked aes hpkt hc] at h
      cases h
      exact saveBeacon_pnRises.trans (finishRx_pnRises _ _ _ _ _ _)

def PktOp.isMgmtRx : PktOp → Bool
  | .mgmtRx _ => true
  | _ => false

/-- The transmitter and the packet number of an encrypted robust frame that a call hands up. -/
def acceptedOf (idxBits : ℕ) (pdev : Option PeerPdev) (shim : TlShim) (e : MgmtRxEvent)
    (vdevId : ℕ) (r : MgmtRxResult) : List (List UInt8 × ℕ) :=
  match e.data with
  | none => []
  | some tlvs =>
    let wh := frameAt tlvs.bufp 0
    if r.ops.any PktOp.isMgmtRx ∧ Checked idxBits pdev shim vdevId wh ∧ wh.Protected ∧
        ¬ wh.Group then
      [(wh.addr2, extractCcmpPn tlvs.bufp frameHdrSize)]
    else []

theorem any_isMgmtRx_error {ops : List PktOp} (h : rxPacket shim e savedBeacon vdevId = .error ops) :
    ops.any PktOp.isMgmtRx = false := by
  rw [List.any_eq_false]
  intro op hop
  cases op with
  | mgmtRx rxPkt => exact absurd hop ((rxPacket_error h).2 rxPkt)
  | malloc | free | returnPacket => exact Bool.false_ne_true

theorem process_encrypted (hpkt : rxPacket shim e savedBeacon vdevId = .ok (tlvs, hdr, rxPkt))
    (hc : Checked idxBits pdev shim vdevId (frameAt tlvs.bufp 0))
    (hp : (frameAt tlvs.bufp 0).Protected) (hng : ¬ (frameAt tlvs.bufp 0).Group)
    (h : tlshimMgmtRxProcess aes idxBits pdev shim e savedBeacon vdevId = some r)
    (hany : r.ops.any PktOp.isMgmtRx) :
    ∃ shim', isCcmpPnReplayAttack idxBits pdev shim (frameAt tlvs.bufp 0).addr2
        (extractCcmpPn rxPkt.pktBuf.mem (rxPkt.pktBuf.data + frameHdrSize)) = (false, shim') ∧
      (isPktDropCandidate idxBits pdev shim e.now (frameAt tlvs.bufp 0).addr2
        (frameAt tlvs.bufp 0).mgtSubtype).1 = false ∧ PnRises shim' r.shim := by
  obtain ⟨-, -, hcopy⟩ := rxPacket_ok hpkt
  have htimes := isCcmpPnReplayAttack_sameTimes idxBits pdev shim (frameAt tlvs.bufp 0).addr2
    (extractCcmpPn rxPkt.pktBuf.mem (rxPkt.pktBuf.data + frameHdrSize))
  rw [process_checked aes hpkt hc, checkRmf_encrypted hp hng] at h
  generalize isCcmpPnReplayAttack idxBits pdev shim (frameAt tlvs.bufp 0).addr2
    (extractCcmpPn rxPkt.pktBuf.mem (rxPkt.pktBuf.data + frameHdrSize)) = answer at h htimes ⊢
  obtain ⟨replay, shim'⟩ := answer
  cases replay with
  | true =>
    obtain rfl := some.inj h
    cases hany
  | false =>
    obtain rfl := some.inj h
    have hops := finishRx_ops idxBits pdev e (frameAt tlvs.bufp 0).mgtSubtype shim'
      (stripCcmp rxPkt)
    rw [hcopy.strip_frameAt, isPktDropCandidate_congr htimes] at hops
    rw [rmfDone, hops] at hany
    refine ⟨shim', rfl, Bool.eq_false_iff.2 fun hd => ?_, finishRx_pnRises _ _ _ _ _ _⟩
    rw [if_pos hd] at hany
    cases hany

/-- A number that is accepted is above the last one of its transmitter, and no higher than it is then. -/
theorem process_accepted
    (h : tlshimMgmtRxProcess aes idxBits pdev shim e savedBeacon vdevId = some r)
    (hok : FrameOk aes idxBits pdev shim e savedBeacon vdevId) {a : List UInt8 × ℕ}
    (ha : a ∈ acceptedOf idxBits pdev shim e vdevId r) :
    acceptedOf idxBits pdev shim e vdevId r = [a] ∧
      ∃ peer, findRmfPeer idxBits pdev a.1 = some peer ∧
        ((shim.peers peer).lastRmfPnValid → (shim.peers peer).lastRmfPn < a.2) ∧
        (r.shim.peers peer).lastRmfPnValid ∧ a.2 ≤ (r.shim.peers peer).lastRmfPn := by
  unfold acceptedOf at ha ⊢
  cases hdata : e.data with
  | none =>
    rw [hdata] at ha
    cases ha
  | some tlvs =>
    rw [hdata] at ha
    dsimp only at ha ⊢
    split_ifs at ha ⊢ with hcond
    · obtain ⟨hany, hc, hp, hng⟩ := hcond
      obtain rfl := mem_singleton.1 ha
      refine ⟨rfl, ?_⟩
      cases hpkt : rxPacket shim e savedBeacon vdevId with
      | error ops =>
        rw [process_error hpkt] at h
        obtain rfl := some.inj h
        exact absurd (hany.symm.trans (any_isMgmtRx_error hpkt)) (by decide)
      | ok out =>
        obtain ⟨tlvs', hdr, rxPkt⟩ := out
        obtain ⟨hdata', -, hcopy⟩ := rxPacket_ok hpkt
        obtain rfl := some.inj (hdata.symm.trans hdata')
        obtain ⟨shim', hreplay, hdrop, hrises⟩ := process_encrypted hpkt hc hp hng h hany
        have hroom := ((frameOk_iff aes hpkt hc).1 hok).1 hp hng (congrArg Prod.fst hreplay) hdrop
        rw [hcopy.len] at hroom
        rw [hcopy.extractCcmpPn (le_of_add_right_le hroom)] at hreplay
        obtain ⟨peer, hpeer, habove, hvalid, hlast⟩ := isCcmpPnReplayAttack_passes hreplay
        obtain ⟨hvalid', hle⟩ := hrises peer hvalid
        exact ⟨peer, hpeer, habove, hvalid', hlast ▸ hle⟩
    · cases ha

end Call

/-! ### Runs -/

/-- The state, and the transmitters and packet numbers of the encrypted robust frames that have been handed up. -/
structure TlShimRun where
  shim : TlShim
  accepted : List (List UInt8 × Nat)

/-- A frame from the firmware, or `tlshim_mgmt_roam_event_ind` for a vdev. -/
inductive TlShimEvent where
  | frame (e : MgmtRxEvent)
  | roam (e : MgmtRxEvent) (vdevId : Nat)

section Machine
variable (aes : AesCipher) (idxBits : Nat) (pdev : Option PeerPdev)

def rxStep (s : TlShimRun) (e : MgmtRxEvent) (savedBeacon : Bool) (vdevId : Nat) :
    Option TlShimRun :=
  (tlshimMgmtRxProcess aes idxBits pdev s.shim e savedBeacon vdevId).map fun r =>
    { shim := r.shim, accepted := s.accepted ++ acceptedOf idxBits pdev s.shim e vdevId r }

def tlShimStep (s : TlShimRun) : TlShimEvent → Option TlShimRun
  | .frame e => rxStep aes idxBits pdev s e false 0
  | .roam e vdevId =>
    match s.shim.lastBeaconData with
    | some tlvs => rxStep aes idxBits pdev s { e with data := some tlvs } true vdevId
    | none => some s

def tlShimMachine : Machine TlShimRun TlShimEvent where
  init s := s.accepted = []
  step := tlShimStep aes idxBits pdev

def TlShimEventOk (s : TlShimRun) : TlShimEvent → Prop
  | .frame e => FrameOk aes idxBits pdev s.shim e false 0
  | .roam e vdevId => ∀ tlvs ∈ s.shim.lastBeaconData,
      FrameOk aes idxBits pdev s.shim { e with data := some tlvs } true vdevId

/-- What has been accepted from a transmitter rises, up to its peer's last packet number. -/
structure Accepted (s : TlShimRun) : Prop where
  rising : s.accepted.Pairwise fun f g => f.1 = g.1 → f.2 < g.2
  below : ∀ f ∈ s.accepted, ∃ peer, findRmfPeer idxBits pdev f.1 = some peer ∧
    (s.shim.peers peer).lastRmfPnValid ∧ f.2 ≤ (s.shim.peers peer).lastRmfPn

variable {aes idxBits pdev}

theorem Accepted.rxStep {s s' : TlShimRun} {e : MgmtRxEvent} {savedBeacon : Bool} {vdevId : ℕ}
    (h : Accepted idxBits pdev s)
    (hok : FrameOk aes idxBits pdev s.shim e savedBeacon vdevId)
    (hs : rxStep aes idxBits pdev s e savedBeacon vdevId = some s') :
    Accepted idxBits pdev s' := by
  obtain ⟨r, hr, rfl⟩ := map_eq_some_iff.1 hs
  have hrises := process_pnRises hr
  have hold : ∀ f ∈ s.accepted, ∃ peer, findRmfPeer idxBits pdev f.1 = some peer ∧
      (r.shim.peers peer).lastRmfPnValid ∧ f.2 ≤ (r.shim.peers peer).lastRmfPn := by
    intro f hf
    obtain ⟨peer, hpeer, hvalid, hle⟩ := h.below f hf
    obtain ⟨hvalid', hle'⟩ := hrises peer hvalid
    exact ⟨peer, hpeer, hvalid', hle.trans hle'⟩
  constructor
  · refine pairwise_append.2 ⟨h.rising, ?_, fun f hf g hg heq => ?_⟩
    · cases hacc : acceptedOf idxBits pdev s.shim e vdevId r with
      | nil => exact .nil
      | cons a l =>
        have hmem : a ∈ acceptedOf idxBits pdev s.shim e vdevId r := by simp [hacc]
        rw [← hacc, (process_accepted hr hok hmem).1]
        exact pairwise_singleton _ _
    · obtain ⟨-, peer, hpeer, habove, -, -⟩ := process_accepted hr hok hg
      obtain ⟨peer', hpeer', hvalid, hle⟩ := h.below f hf
      rw [heq, hpeer] at hpeer'
      obtain rfl := some.inj hpeer'
      exact lt_of_le_of_lt hle (habove hvalid)
  · intro f hf
    rcases mem_append.1 hf with hf | hf
    · exact hold f hf
    · obtain ⟨-, peer, hpeer, -, hvalid, hle⟩ := process_accepted hr hok hf
      exact ⟨peer, hpeer, hvalid, hle⟩

theorem Accepted.step {s s' : TlShimRun} {e : TlShimEvent} (h : Accepted idxBits pdev s)
    (hok : TlShimEventOk aes idxBits pdev s e) (hs : tlShimStep aes idxBits pdev s e = some s') :
    Accepted idxBits pdev s' := by
  cases e with
  | frame e => exact h.rxStep hok hs
  | roam e vdevId =>
    unfold tlShimStep at hs
    cases hlast : s.shim.lastBeaconData with
    | none =>
      rw [hlast] at hs
      obtain rfl := some.inj hs
      exact h
    | some tlvs =>
      rw [hlast] at hs
      exact h.rxStep (hok tlvs hlast) hs

end Machine

/-- **Management frames reach the upper layer as they should exactly when they do not meet a defect**: in every state, what is done with the packet, its lengths and pointers, its bytes and the check of its MMIE are right exactly then; and in a run in which no frame meets one, the encrypted robust frames that are handed up from a transmitter have rising packet numbers. -/
theorem mgmt_rx_iff (aes : AesCipher) (idxBits : ℕ) (pdev : Option PeerPdev) :
    (∀ shim e savedBeacon vdevId, ∃ r,
      tlshimMgmtRxProcess aes idxBits pdev shim e savedBeacon vdevId = some r ∧
      (RxRight aes idxBits pdev shim e vdevId r ↔
        FrameOk aes idxBits pdev shim e savedBeacon vdevId)) ∧
    ∀ s, (tlShimMachine aes idxBits pdev).Reach (TlShimEventOk aes idxBits pdev) s →
      s.accepted.Pairwise fun f g => f.1 = g.1 → f.2 < g.2 := by
  refine ⟨rightIff aes idxBits pdev, fun s t => ?_⟩
  have hinv : Accepted idxBits pdev s := by
    refine t.invariant (Accepted idxBits pdev) (fun s h => ?_) fun s e s' h hok => h.step hok
    have h : s.accepted = [] := h
    exact ⟨by simp [h], by simp [h]⟩
  exact hinv.rising

/-! ### A station -/

/-- An access point that the station is connected to. -/
def apAddr : List UInt8 := [2, 0, 0, 0, 0, 1]

def apPdev : PeerPdev where
  peers := fun _ => { vdev := 0, macAddr := macAddrOf apAddr, refCnt := 1, valid := true,
                      deleteInProgress := false, peerIds := [], localId := none }
  created := 1
  freed := []
  bins := fun _ => [0]
  peerIdToObjMap := fun _ => none
  vdevs := fun _ => { peerList := [0], waitOnPeerId := none, waitDeleteComp := 0 }
  localPeerIds := []

/-- Nothing has been received yet; the interface has management frame protection. -/
def connected : TlShim where
  mgmtRx := true
  lastBeaconData := none
  peers := fun _ => { lastRmfPnValid := false, lastRmfPn := 0, rmfPnReplays := 0,
                      lastAssocRcvd := 0, lastDisassocDeauthRcvd := 0 }
  interfaces := fun _ => { rmfEnabled := true, key := [1], ipn := fun _ => ipnOf 0 }
  ccmpReplaysAttackCnt := 0

def arrival (frame : List UInt8) : MgmtRxEvent where
  data := some
    { hdr := some { channel := 6, snr := 30, bufLen := .ofNat frame.length, flags := 0, rssi := 0,
                    tsfDelta := 0 }
      bufp := fun i => frame.getD i 0 }
  dataLen := 4096
  rxPktAlloc := true
  wbufAlloc := true
  saveAlloc := true
  crypto := .ok
  fresh := fun _ => 0
  jiffies := 0
  now := 5000
  mgmtRxRet := 0

/-- A deauthentication frame to everybody, with a reason and no MMIE. -/
def groupDeauth : List UInt8 :=
  [0xc0, 0, 0, 0] ++ List.replicate 6 0xff ++ apAddr ++ apAddr ++ [0, 0] ++ [3, 0]

theorem groupDeauth_leaks : ¬ ∃ aes : AesCipher, ∀ (pdev : Option PeerPdev) shim e, ∃ r,
    tlshimMgmtRxProcess aes 4 pdev shim e false 0 = some r ∧ RxRight aes 4 pdev shim e 0 r := by
  rintro ⟨aes, h⟩
  obtain ⟨r, hr, hright⟩ := h (some apPdev) connected (arrival groupDeauth)
  have hops : (tlshimMgmtRxProcess aes 4 (some apPdev) connected (arrival groupDeauth) false
      0).map (fun r => r.ops.length) = some 1 := by
    rfl
  rw [hr, map_some] at hops
  have hlen := some.inj hops
  rcases hright.owned with h | ⟨op, -, h⟩ <;> rw [h] at hlen <;> cases hlen

/-- An encrypted action frame to the station, with a packet number. -/
def encryptedAction (pn : UInt8) : List UInt8 :=
  [0xd0, 0x40, 0, 0] ++ [2, 0, 0, 0, 0, 9] ++ apAddr ++ apAddr ++ [0, 0] ++
    [pn, 0, 0, 0x20, 0, 0, 0, 0] ++ [1, 2, 3] ++ List.replicate 8 0

theorem encryptedAction_ok (s : TlShimRun) (pn : UInt8) :
    TlShimEventOk xorCipher 4 (some apPdev) s (.frame (arrival (encryptedAction pn))) := by
  intro tlvs hdr rxPkt h _
  obtain ⟨hdata, hhdr, hcopy⟩ := rxPacket_ok h
  obtain rfl := some.inj hdata
  obtain rfl := some.inj hhdr
  refine ⟨fun _ _ _ _ => ?_, fun hnp => absurd ?_ hnp⟩
  · rw [hcopy.len]
    exact le_of_ble_eq_true rfl
  · exact (by decide : (0x40 : UInt8) &&& 0x40 ≠ 0)

/-- Three frames, of which the second repeats the number of the first. -/
def threeFrames : List TlShimEvent :=
  [5, 5, 6].map fun pn => .frame (arrival (encryptedAction pn))

theorem mgmt_rx_iff_threeFrames : ∃ s, (tlShimMachine xorCipher 4 (some apPdev)).run
      ⟨connected, []⟩ threeFrames = some s ∧ s.accepted = [(apAddr, 5), (apAddr, 6)] ∧
      s.accepted.Pairwise fun f g => f.1 = g.1 → f.2 < g.2 := by
  have halong : (tlShimMachine xorCipher 4 (some apPdev)).Along
      (TlShimEventOk xorCipher 4 (some apPdev)) ⟨connected, []⟩ threeFrames :=
    ⟨encryptedAction_ok _ 5, fun _ _ => ⟨encryptedAction_ok _ 5, fun _ _ =>
      ⟨encryptedAction_ok _ 6, fun _ _ => trivial⟩⟩⟩
  have hinit : (tlShimMachine xorCipher 4 (some apPdev)).init ⟨connected, []⟩ := rfl
  exact Machine.exists_reach_of (q := fun s => s.accepted = [(apAddr, 5), (apAddr, 6)]) hinit
    halong (by decide +kernel) fun s hr haccepted =>
      ⟨haccepted, (mgmt_rx_iff xorCipher 4 (some apPdev)).2 s hr⟩

end Qcacld.Tlshim

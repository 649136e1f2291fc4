import Mathlib.Algebra.Group.Nat.Defs
import Mathlib.Logic.Function.Basic

/-!
# Txrx — PeerFind

The tables that lead to a peer and the reference count that keeps it: the hash table by MAC address, `peer_id_to_obj_map`, the vdevs' peer lists, and the functions that attach, map, unmap, detach and delete a peer.

Attach counts two references: its own, and one that stands for the first peer id the target will map.  The map handler finds the peer by MAC address alone.
-/

namespace Qcacld.Txrx

def httInvalidPeer : Nat := 0xffff

def maxNumPeerIdPerPeer : Nat := 8

/-- `union ol_txrx_align_mac_addr_t`, by its member `align2`. -/
structure MacAddr where
  bytesAb : BitVec 16
  bytesCd : BitVec 16
  bytesEf : BitVec 16
deriving DecidableEq

/-- What the lookups and the reference count read of `struct ol_txrx_peer_t`. -/
structure TxrxPeer where
  vdev : Nat
  macAddr : MacAddr
  refCnt : Nat
  valid : Bool
  deleteInProgress : Bool
  /-- the filled entries of `peer_ids` -/
  peerIds : List Nat
  /-- `local_id`; `none` is `OL_TXRX_INVALID_LOCAL_PEER_ID` -/
  localId : Option Nat

/-- What they read of `struct ol_txrx_vdev_t`. -/
structure PeerVdev where
  peerList : List Nat
  waitOnPeerId : Option Nat
  /-- `wait_delete_comp`: how often it has been completed and not waited for -/
  waitDeleteComp : Nat

/-- The peers of a pdev and the tables that lead to them. -/
structure PeerPdev where
  peers : Nat → TxrxPeer
  /-- how many peers have been allocated; each is known by its number -/
  created : Nat
  /-- the peers given back to the allocator -/
  freed : List Nat
  /-- `peer_hash.bins` -/
  bins : Nat → List Nat
  /-- `peer_id_to_obj_map` -/
  peerIdToObjMap : Nat → Option Nat
  vdevs : Nat → PeerVdev
  /-- the freelist of `local_peer_ids` -/
  localPeerIds : List Nat

/-! ### Lookup -/

/-- `ol_txrx_peer_find_hash_index`, for a table of `2 ^ idxBits` bins. -/
def olTxrxPeerFindHashIndex (idxBits : Nat) (macAddr : MacAddr) : Nat :=
  let index := (macAddr.bytesAb ^^^ macAddr.bytesCd ^^^ macAddr.bytesEf).toNat
  (index ^^^ index >>> idxBits) &&& (2 ^ idxBits - 1)

def PeerPdev.setPeer (s : PeerPdev) (peer : Nat) (f : TxrxPeer → TxrxPeer) : PeerPdev :=
  { s with peers := Function.update s.peers peer (f (s.peers peer)) }

def PeerPdev.setVdev (s : PeerPdev) (vdev : Nat) (f : PeerVdev → PeerVdev) : PeerPdev :=
  { s with vdevs := Function.update s.vdevs vdev (f (s.vdevs vdev)) }

/-- The peer `ol_txrx_peer_find_hash_find` finds, or `ol_txrx_peer_vdev_find_hash` when the vdev is given. -/
def peerHashFind (idxBits : Nat) (s : PeerPdev) (vdev : Option Nat) (macAddr : MacAddr)
    (checkValid : Bool) : Option Nat :=
  (s.bins (olTxrxPeerFindHashIndex idxBits macAddr)).find? fun peer =>
    (s.peers peer).macAddr = macAddr ∧ (checkValid = false ∨ (s.peers peer).valid = true) ∧
      ∀ v ∈ vdev, (s.peers peer).vdev = v

def TxrxPeer.incRefCnt (peer : TxrxPeer) : TxrxPeer := { peer with refCnt := peer.refCnt + 1 }

def TxrxPeer.decRefCnt (peer : TxrxPeer) : TxrxPeer := { peer with refCnt := peer.refCnt - 1 }

/-! ### Deletion -/

/-- What `ol_txrx_peer_unref_delete` does when it has dropped the last reference. -/
def peerDelete (idxBits : Nat) (s : PeerPdev) (peer : Nat) : PeerPdev :=
  let index := olTxrxPeerFindHashIndex idxBits (s.peers peer).macAddr
  let s := { s with bins := Function.update s.bins index ((s.bins index).erase peer) }
  let s := s.setPeer peer fun p => { p with deleteInProgress := false }
  let s := s.setVdev (s.peers peer).vdev fun v =>
    let v := { v with peerList := v.peerList.erase peer }
    if (s.peers peer).localId = v.waitOnPeerId then
      { v with waitDeleteComp := v.waitDeleteComp + 1, waitOnPeerId := none }
    else v
  { s with freed := s.freed ++ [peer] }

/-- `ol_txrx_peer_unref_delete`. -/
def olTxrxPeerUnref (idxBits : Nat) (s : PeerPdev) (peer : Nat) : PeerPdev :=
  if (s.peers peer).refCnt = 0 then s
  else
    let s := s.setPeer peer TxrxPeer.decRefCnt
    if (s.peers peer).refCnt = 0 then peerDelete idxBits s peer else s

/-! ### Attach and detach -/

/-- What `ol_txrx_peer_attach` finds on the vdev's peer list. -/
inductive PeerDuplicate where
  | absent | leaving | present
deriving DecidableEq

/-- The loop of `ol_txrx_peer_attach` over the vdev's peer list: a peer of the same address that is being deleted is waited for. -/
def peerAttachScan (peers : Nat → TxrxPeer) (macAddr : MacAddr) :
    PeerVdev → PeerDuplicate → List Nat → PeerVdev × PeerDuplicate
  | vdev, found, [] => (vdev, found)
  | vdev, found, peer :: l =>
    if (peers peer).macAddr = macAddr then
      if (peers peer).deleteInProgress then
        peerAttachScan peers macAddr
          { vdev with waitOnPeerId := (peers peer).localId, waitDeleteComp := 0 } .leaving l
      else (vdev, .present)
    else peerAttachScan peers macAddr vdev found l

/-- The rest of `ol_txrx_peer_attach`: the peer is allocated, unless memory runs out, and entered into the tables. -/
def peerCreate (idxBits : Nat) (s : PeerPdev) (vdev : Nat) (macAddr : MacAddr)
    (allocated : Bool) : PeerPdev :=
  if allocated then
    let peer := s.created
    let index := olTxrxPeerFindHashIndex idxBits macAddr
    let s := s.setVdev vdev fun v => { v with peerList := v.peerList ++ [peer] }
    { s with
      peers := Function.update s.peers peer {
        vdev := vdev, macAddr := macAddr, refCnt := 2, valid := true, deleteInProgress := false
        peerIds := [], localId := s.localPeerIds.head? }
      created := s.created + 1
      bins := Function.update s.bins index (s.bins index ++ [peer])
      localPeerIds := s.localPeerIds.tail }
  else s

/-- What `ol_txrx_peer_detach` does before it drops the reference of attach. -/
def peerMarkDeleted (s : PeerPdev) (peer : Nat) : PeerPdev :=
  { s.setPeer peer fun p => { p with valid := false, deleteInProgress := true } with
    localPeerIds := (s.peers peer).localId.toList ++ s.localPeerIds }

def olTxrxPeerDetach (idxBits : Nat) (s : PeerPdev) (peer : Nat) : PeerPdev :=
  olTxrxPeerUnref idxBits (peerMarkDeleted s peer) peer

/-! ### Peer ids -/

/-- `ol_txrx_peer_find_add_id_to_obj`; when all entries are filled nothing is stored. -/
def olTxrxPeerFindAddIdToObj (peer : TxrxPeer) (peerId : Nat) : TxrxPeer :=
  if peer.peerIds.length < maxNumPeerIdPerPeer then
    { peer with peerIds := peer.peerIds ++ [peerId] }
  else peer

/-- `ol_txrx_peer_find_add_id`, after `ol_txrx_peer_find_hash_find` has found the peer and counted a reference. -/
def peerFindAddId (idxBits : Nat) (s : PeerPdev) (peer peerId : Nat) : PeerPdev :=
  let s := { s with peerIdToObjMap := Function.update s.peerIdToObjMap peerId (some peer) }
  -- the reference for the first peer id was counted by attach
  let s := if (s.peers peer).peerIds = [] then olTxrxPeerUnref idxBits s peer else s
  s.setPeer peer fun p => olTxrxPeerFindAddIdToObj p peerId

/-- `ol_rx_peer_unmap_handler`, for a peer id that is in the map. -/
def olRxPeerUnmapHandler (idxBits : Nat) (s : PeerPdev) (peerId : Nat) : PeerPdev :=
  let peer := s.peerIdToObjMap peerId
  let s := { s with peerIdToObjMap := Function.update s.peerIdToObjMap peerId none }
  match peer with
  | none => s
  | some peer => olTxrxPeerUnref idxBits s peer

end Qcacld.Txrx

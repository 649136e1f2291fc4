import Qcacld.Lim.LimAidMgmt
import Qcacld.Lim.LimIbssProtection

/-!
# Lim — LimIbssPeerMgmt

The peers of an IBSS.  A peer whose beacon is heard is put on a list and given an index and an entry in the DPH table; when it departs these are taken back, and so is its entry in the cache of stations that are protected from, by functions that each do a part of it: `limIbssCoalesce` adds, and `limIbssSearchAndDeletePeer`, `limIbssHeartBeatHandle` and `limIbssDeleteAllPeers` delete.

`IbssRight` is what is to hold of the three together.  `ibss_peers_iff` says which steps keep it: an index is lost when a station cannot be added after it has been assigned, index 0 is used when there is none, and an entry of the cache stays that the deletion does not count as an 11b station's, or that is there when all peers are deleted.
-/

namespace Qcacld.Lim
open Qcacld.Support Qcacld.Dph Function List Option Nat Lim

/-! ### The list -/

/-- What is read and written of `tLimIbssPeerNode`. -/
structure LimIbssPeerNode where
  next : Option Nat
  peerMacAddr : SirMacAddr
  beaconHBCount : Nat
  heartbeatFailure : Nat
  erpIePresent : Bool
  htCapable : Bool

/-- A node that has been freed, with the list as it was then. -/
structure FreedPeer where
  node : Nat
  allocated : Bool
  pList : Option Nat
  next : Nat → Option Nat

/-- The peer list.  `allocated` says which nodes are in use, and `freed` is the history. -/
structure IbssPeers where
  peerNode : Nat → LimIbssPeerNode
  allocated : Nat → Bool
  gLimIbssPeerList : Option Nat
  gLimNumIbssPeers : Nat
  freed : List FreedPeer

open IbssPeers

/-- `++` on a `tANI_U32` -/
def inc32 (n : Nat) : Nat := if n = 2 ^ 32 - 1 then 0 else n + 1

/-- `--` on a `tANI_U32` -/
def dec32 (n : Nat) : Nat := if n = 0 then 2 ^ 32 - 1 else n - 1

namespace IbssPeers

def setNode (p : IbssPeers) (x : Nat) (n : LimIbssPeerNode) : IbssPeers :=
  { p with peerNode := update p.peerNode x n }

def setHead (p : IbssPeers) (h : Option Nat) : IbssPeers :=
  { p with gLimIbssPeerList := h }

def setNum (p : IbssPeers) (n : Nat) : IbssPeers :=
  { p with gLimNumIbssPeers := n }

/-- The `next` pointers. -/
def next (p : IbssPeers) (x : Nat) : Option Nat := (p.peerNode x).next

def addr (p : IbssPeers) (x : Nat) : SirMacAddr := (p.peerNode x).peerMacAddr

def malloc (p : IbssPeers) (x : Nat) : IbssPeers :=
  { p with allocated := update p.allocated x true }

def free (p : IbssPeers) (x : Nat) : IbssPeers :=
  { p with
    allocated := update p.allocated x false
    freed := ⟨x, p.allocated x, p.gLimIbssPeerList, p.next⟩ :: p.freed }

end IbssPeers

def ibssFuel : Nat := 2 ^ 8

/-- `ibss_peer_find`, with the node before the one that is found; `none` when its loop does not end. -/
def seekPeer (p : IbssPeers) (macAddr : SirMacAddr) : Option (Sought Nat) :=
  seek p.next (fun _ x => if macAddr = p.addr x then Look.found else .goOn) ibssFuel none
    p.gLimIbssPeerList

def ibssPeerFind (p : IbssPeers) (macAddr : SirMacAddr) : Option (Option Nat) :=
  (seekPeer p macAddr).map fun
    | .found _ x => some x
    | _ => none

def ibssPeerAdd (p : IbssPeers) (pPeerNode : Nat) : IbssPeers :=
  let p := p.setNum (inc32 p.gLimNumIbssPeers)
  let p := p.setNode pPeerNode { p.peerNode pPeerNode with next := p.gLimIbssPeerList }
  p.setHead (some pPeerNode)

/-- A node is taken off the list, the first one or the one behind another. -/
def unlinkPeer (p : IbssPeers) (pPrevNode : Option Nat) (pTempNode : Nat) : IbssPeers :=
  if p.gLimIbssPeerList = some pTempNode then p.setHead (p.next pTempNode)
  else
    match pPrevNode with
    | none => p
    | some prev => p.setNode prev { p.peerNode prev with next := p.next pTempNode }

def removePeer (p : IbssPeers) (pPrevNode : Option Nat) (pTempNode : Nat) : IbssPeers :=
  let p := (unlinkPeer p pPrevNode pTempNode).free pTempNode
  p.setNum (dec32 p.gLimNumIbssPeers)

def setBeats (p : IbssPeers) (x beaconHBCount heartbeatFailure : Nat) : IbssPeers :=
  p.setNode x
    { p.peerNode x with
      beaconHBCount := beaconHBCount
      heartbeatFailure := heartbeatFailure }

/-! ### The stations -/

structure IbssStas where
  pool : PeerIdxPool
  dphHashTable : DphHashTable
  caps : Nat → StaCaps
  prot : IbssProt

namespace IbssStas

def setPool (t : IbssStas) (p : PeerIdxPool) : IbssStas := { t with pool := p }

def setTable (t : IbssStas) (h : DphHashTable) : IbssStas := { t with dphHashTable := h }

def setCaps (t : IbssStas) (i : Nat) (k : StaCaps) : IbssStas :=
  { t with caps := update t.caps i k }

def setProt (t : IbssStas) (p : IbssProt) : IbssStas := { t with prot := p }

def addr (t : IbssStas) (i : Nat) : SirMacAddr := (t.dphHashTable.pDphNodeArray i).staAddr

def idx (t : IbssStas) (i : Nat) : Nat := (t.dphHashTable.pDphNodeArray i).assocId

end IbssStas

/-- `limDeleteDphHashEntry` in an IBSS -/
def limDeleteDphHashEntry (c : IbssConfig) (t : IbssStas) (staAddr : SirMacAddr) (staId : Nat) :
    Option IbssStas := do
  match ← dphLookupHashEntry t.dphHashTable staAddr with
  | none => return t
  | some pStaDs =>
    let r ← dphDeleteHashEntry t.dphHashTable staAddr staId
    return (t.setProt (limIbssDecideProtectionOnDelete c (t.addr pStaDs)
      (t.caps pStaDs).erpEnabled t.prot)).setTable r.2

/-- A peer that has an entry loses it and its index: whether it has one. -/
def departSta (c : IbssConfig) (t : IbssStas) (macAddr : SirMacAddr) : Option (Bool × IbssStas) := do
  match ← dphLookupHashEntry t.dphHashTable macAddr with
  | none => return (false, t)
  | some pStaDs =>
    let peerIdx := t.idx pStaDs
    let t ← limDeleteDphHashEntry c t (t.addr pStaDs) peerIdx
    return (true, t.setPool (limReleasePeerIdx t.pool peerIdx))

/-- In `limIbssDeleteAllPeers` the protection is left out. -/
def dropSta (t : IbssStas) (macAddr : SirMacAddr) : Option IbssStas := do
  match ← dphLookupHashEntry t.dphHashTable macAddr with
  | none => return t
  | some pStaDs =>
    let peerIdx := t.idx pStaDs
    let t := t.setPool (limReleasePeerIdx t.pool peerIdx)
    let r ← dphDeleteHashEntry t.dphHashTable (t.addr pStaDs) peerIdx
    return t.setTable r.2

/-- The entry that is in the way of a new one is deleted. -/
def evictSta (c : IbssConfig) (t : IbssStas) (peerIdx : Nat) : Option IbssStas :=
  match dphGetHashEntry t.dphHashTable peerIdx with
  | none => some t
  | some pStaDs => limDeleteDphHashEntry c t (t.addr pStaDs) peerIdx

/-- `ibss_dph_entry_add`: the entry, if it succeeds -/
def ibssDphEntryAdd (c : IbssConfig) (others : Nat) (t : IbssStas) (peerAddr : SirMacAddr) :
    Option (Option Nat × IbssStas) := do
  match ← dphLookupHashEntry t.dphHashTable peerAddr with
  | some _ => return (none, t)
  | none =>
    let a := limAssignPeerIdx c.gLimAssocStaLimit others t.pool
    let t ← evictSta c (t.setPool a.2) a.1
    let r ← dphAddHashEntry t.dphHashTable peerAddr a.1
    return (if r.1 then some a.1 else none, t.setTable r.2)

/-! ### The functions -/

/-- `pMac->lim` and the session, as far as they are about peers. -/
structure LimIbss where
  peers : IbssPeers
  stas : IbssStas

namespace LimIbss

def setPeers (s : LimIbss) (p : IbssPeers) : LimIbss := { s with peers := p }

def setStas (s : LimIbss) (t : IbssStas) : LimIbss := { s with stas := t }

end LimIbss

/-- The part of `ibss_sta_caps_update` that is about HT. -/
def ibssStaCapsUpdate (c : IbssConfig) (s : LimIbss) (pPeerNode : Nat) : Option LimIbss := do
  let n := s.peers.peerNode pPeerNode
  let s := s.setPeers
    (setBeats s.peers pPeerNode ((n.beaconHBCount + 1) % 2 ^ 8) n.heartbeatFailure)
  match ← dphLookupHashEntry s.stas.dphHashTable n.peerMacAddr with
  | none => return s
  | some pStaDs =>
    if c.dot11ModeHt then
      return s.setStas (s.stas.setCaps pStaDs ⟨(s.stas.caps pStaDs).erpEnabled, n.htCapable⟩)
    else return s

/-- The station is put into use, and protection is decided; or its entry is deleted, and its index is not released. -/
def finishStaAdd (c : IbssConfig) (addStaOk : Bool) (s : LimIbss) (pStaDs : Nat) :
    Option (Bool × LimIbss) := do
  if addStaOk then
    return (true, if c.protectionControl then
      s.setStas (s.stas.setProt (limIbssDecideProtection c (s.stas.addr pStaDs)
        (s.stas.caps pStaDs) s.stas.prot))
    else s)
  else
    let r ← dphDeleteHashEntry s.stas.dphHashTable (s.stas.addr pStaDs) (s.stas.idx pStaDs)
    return (false, s.setStas (s.stas.setTable r.2))

/-- `limIbssStaAdd`; `addStaOk` is whether `limAddSta` succeeds -/
def limIbssStaAdd (c : IbssConfig) (others : Nat) (addStaOk : Bool) (s : LimIbss)
    (peerAddr : SirMacAddr) : Option (Bool × LimIbss) := do
  match ← ibssPeerFind s.peers peerAddr with
  | none => return (false, s)
  | some pPeerNode =>
    match ← ibssDphEntryAdd c others s.stas peerAddr with
    | (none, t) => return (false, s.setStas t)
    | (some pStaDs, t) =>
      let s := s.setStas (t.setCaps pStaDs
        ⟨(s.peers.peerNode pPeerNode).erpIePresent, (t.caps pStaDs).htCapability⟩)
      let s ← ibssStaCapsUpdate c s pPeerNode
      finishStaAdd c addStaOk s pStaDs

def limIbssSearchAndDeletePeer (c : IbssConfig) (s : LimIbss) (macAddr : SirMacAddr) :
    Option LimIbss := do
  match ← seekPeer s.peers macAddr with
  | .found pPrevNode pTempNode =>
    let d ← departSta c s.stas macAddr
    if d.1 then return ⟨removePeer s.peers pPrevNode pTempNode, d.2⟩ else return s
  | _ => return s

/-- `limIbssAddStaRsp`, of what it changes here -/
def limIbssAddStaRsp (c : IbssConfig) (s : LimIbss) (staMac : SirMacAddr) (success : Bool) :
    Option LimIbss := do
  match ← dphLookupHashEntry s.stas.dphHashTable staMac with
  | none => return s
  | some _ => if success then return s else limIbssSearchAndDeletePeer c s staMac

/-- What is read of a beacon and its header.  `otherBss` says that the BSSID is not the session's. -/
structure IbssBeacon where
  sa : SirMacAddr
  otherBss : Bool
  erpPresent : Bool
  htCapsPresent : Bool

/-- `ibss_peer_collect`, in a node that is all zeros -/
def ibssPeerCollect (c : IbssConfig) (b : IbssBeacon) : LimIbssPeerNode where
  next := none
  peerMacAddr := b.sa
  beaconHBCount := 0
  heartbeatFailure := 0
  erpIePresent := b.erpPresent
  htCapable := c.dot11ModeHt && b.htCapsPresent

def decideAgain (c : IbssConfig) (s : LimIbss) (peerMacAddr : SirMacAddr) : Option LimIbss := do
  match ← dphLookupHashEntry s.stas.dphHashTable peerMacAddr with
  | none => return s
  | some pStaDs =>
    if c.protectionControl then
      return s.setStas (s.stas.setProt (limIbssDecideProtection c (s.stas.addr pStaDs)
        (s.stas.caps pStaDs) s.stas.prot))
    else return s

/-- A peer is put on the list, and is added as a station. -/
def learnPeer (c : IbssConfig) (others : Nat) (addStaOk : Bool) (s : LimIbss) (b : IbssBeacon)
    (pPeerNode : Nat) : Option LimIbss := do
  let s := s.setPeers (ibssPeerAdd
    ((s.peers.malloc pPeerNode).setNode pPeerNode (ibssPeerCollect c b)) pPeerNode)
  match ← dphLookupHashEntry s.stas.dphHashTable b.sa with
  | some _ => ibssStaCapsUpdate c s pPeerNode
  | none =>
    let r ← limIbssStaAdd c others addStaOk s b.sa
    if r.1 then decideAgain c r.2 b.sa else return r.2

/-- `limIbssCoalesce`.  `mem` is the memory that is allocated, and `coalescing` whether `isCoalesingInIBSSAllowed`; the deletion of the BSS that it may start is another call. -/
def limIbssCoalesce (c : IbssConfig) (s : LimIbss) (b : IbssBeacon) (coalescing : Bool)
    (mem : Option Nat) (others : Nat) (addStaOk : Bool) : Option LimIbss :=
  if b.otherBss then
    if coalescing then do
      match ← ibssPeerFind s.peers b.sa with
      | some _ => limIbssSearchAndDeletePeer c s b.sa
      | none => return s
    else some s
  else do
    match ← ibssPeerFind s.peers b.sa with
    | some pPeerNode => ibssStaCapsUpdate c s pPeerNode
    | none =>
      if inc32 s.peers.gLimNumIbssPeers ≥ c.gLimIbssStaLimit then return s
      else
        match mem with
        | none => return s
        | some pPeerNode => learnPeer c others addStaOk s b pPeerNode

/-- The loop of `limIbssHeartBeatHandle`, from a node on; `none` when it does not end. -/
def heartBeatFrom (c : IbssConfig) (threshold : Nat) :
    Nat → LimIbss → Option Nat → Option Nat → Option LimIbss
  | _, s, _, none => some s
  | 0, _, _, some _ => none
  | n + 1, s, pPrevNode, some pTempNode =>
    let pTempNextNode := s.peers.next pTempNode
    let node := s.peers.peerNode pTempNode
    if node.beaconHBCount ≠ 0 then
      heartBeatFrom c threshold n (s.setPeers (setBeats s.peers pTempNode 0 0)) (some pTempNode)
        pTempNextNode
    else
      let p := setBeats s.peers pTempNode 0 ((node.heartbeatFailure + 1) % 2 ^ 8)
      if threshold ≤ (node.heartbeatFailure + 1) % 2 ^ 8 then do
        let d ← departSta c s.stas node.peerMacAddr
        heartBeatFrom c threshold n ⟨removePeer p pPrevNode pTempNode, d.2⟩
          (if p.gLimIbssPeerList = some pTempNode then pTempNextNode else pPrevNode) pTempNextNode
      else heartBeatFrom c threshold n (s.setPeers p) (some pTempNode) pTempNextNode

/-- `limIbssHeartBeatHandle`, when the BSS is started and the link is monitored -/
def limIbssHeartBeatHandle (c : IbssConfig) (s : LimIbss) : Option LimIbss :=
  heartBeatFrom c (s.peers.gLimNumIbssPeers / 4 + 1) ibssFuel s s.peers.gLimIbssPeerList
    s.peers.gLimIbssPeerList

/-- The loop of `limIbssDeleteAllPeers`, from a node on; `none` when it does not end. -/
def deletePeersFrom : Nat → LimIbss → Option Nat → Option LimIbss
  | _, s, none => some (s.setPeers ((s.peers.setNum 0).setHead none))
  | 0, _, some _ => none
  | n + 1, s, some pCurrNode =>
    if s.peers.gLimNumIbssPeers = 0 then some s
    else do
      let t ← dropSta s.stas (s.peers.addr pCurrNode)
      let pTempNode := s.peers.next pCurrNode
      let p := (s.peers.setHead pTempNode).free pCurrNode
      deletePeersFrom n ⟨p.setNum (dec32 p.gLimNumIbssPeers), t⟩ pTempNode

def limIbssDeleteAllPeers (s : LimIbss) : Option LimIbss :=
  deletePeersFrom ibssFuel s s.peers.gLimIbssPeerList

/-! ### What is to hold -/

/-- A node was in use and off the list when it was freed. -/
def FreedPeer.Unlinked (f : FreedPeer) : Prop :=
  f.allocated = true ∧ ∃ l, Threaded f.next f.pList l ∧ f.node ∉ l

/-- The list: it ends, is counted, names no address twice, and its nodes are in use. -/
structure PeersHeld (p : IbssPeers) (l : List Nat) : Prop where
  threaded : Threaded p.next p.gLimIbssPeerList l
  count : p.gLimNumIbssPeers = l.length
  distinct : (l.map p.addr).Nodup
  allocated : ∀ x ∈ l, p.allocated x = true
  freed : ∀ f ∈ p.freed, f.Unlinked

/-- **The law.** -/
structure IbssRight (s : LimIbss) : Prop where
  /-- an entry of the cache is that of a peer on the list -/
  peers : ∃ l, PeersHeld s.peers l ∧ ∀ a ∈ s.stas.prot.entries, a ∈ l.map s.peers.addr
  table : TableRight s.stas.dphHashTable
  /-- the indices that are assigned are those of the entries -/
  indices : ∀ i, s.stas.pool.assigned i = true ↔ s.stas.dphHashTable.Present i
  /-- without peers there are no indices and no entries of the cache -/
  gone : s.peers.gLimIbssPeerList = none → (∀ i, s.stas.pool.assigned i = false) ∧
    activeSlots s.stas.prot.protStaCache = ∅

/-! ### Runs -/

inductive IbssEvent where
  | coalesce (b : IbssBeacon) (coalescing : Bool) (mem : Option Nat) (others : Nat) (addStaOk : Bool)
  | addStaRsp (staMac : SirMacAddr) (success : Bool)
  /-- `active` says that the BSS is started and the link is monitored -/
  | heartBeat (active : Bool)
  /-- `started` says that the BSS is started -/
  | peerInactivity (peerAddr : SirMacAddr) (started : Bool)
  | deleteAllPeers

def ibssCall (c : IbssConfig) (s : LimIbss) : IbssEvent → Option LimIbss
  | .coalesce b coalescing mem others addStaOk =>
    limIbssCoalesce c s b coalescing mem others addStaOk
  | .addStaRsp staMac success => limIbssAddStaRsp c s staMac success
  | .heartBeat active => if active then limIbssHeartBeatHandle c s else some s
  | .peerInactivity peerAddr started =>
    if started then limIbssSearchAndDeletePeer c s peerAddr else some s
  | .deleteAllPeers => limIbssDeleteAllPeers s

def IbssEvent.Allowed (s : LimIbss) : IbssEvent → Prop
  | .coalesce _ _ mem _ _ => ∀ x ∈ mem, s.peers.allocated x = false
  | _ => True

instance (s : LimIbss) : (e : IbssEvent) → Decidable (e.Allowed s)
  | .coalesce _ _ mem _ _ =>
    inferInstanceAs (Decidable (∀ x ∈ mem, s.peers.allocated x = false))
  | .addStaRsp .. | .heartBeat _ | .peerInactivity .. | .deleteAllPeers => .isTrue trivial

/-- The IBSS is started: no peers, no stations, all indices free, and no entries of the cache. -/
def LimIbss.Initial (c : IbssConfig) (s : LimIbss) : Prop :=
  (s.peers.gLimIbssPeerList = none ∧ s.peers.gLimNumIbssPeers = 0 ∧ s.peers.freed = []) ∧
    (s.stas.dphHashTable.Initial ∧ s.stas.dphHashTable.size = c.maxStation + 1) ∧
    (∃ p : PeerIdxPool, (∀ i, p.assigned i = false) ∧
      s.stas.pool = limInitPeerIdxpool c.maxStation p) ∧
    ∀ i, (s.stas.prot.protStaCache i).active = false

def ibssMachine (c : IbssConfig) : Machine LimIbss IbssEvent where
  init := LimIbss.Initial c
  step s e := do
    guard (e.Allowed s)
    ibssCall c s e

/-- `erpEnabled` of the station with an address. -/
def erpOf (t : IbssStas) (a : SirMacAddr) : Bool :=
  match dphLookupHashEntry t.dphHashTable a with
  | some (some i) => (t.caps i).erpEnabled
  | _ => true

def Expires (threshold : Nat) (p : IbssPeers) (x : Nat) : Prop :=
  (p.peerNode x).beaconHBCount = 0 ∧ threshold ≤ ((p.peerNode x).heartbeatFailure + 1) % 2 ^ 8
deriving Decidable

def expired (p : IbssPeers) : List SirMacAddr :=
  (((walk p.next ibssFuel p.gLimIbssPeerList).getD []).filter fun x =>
    Expires (p.gLimNumIbssPeers / 4 + 1) p x).map p.addr

/-- **The condition.**  A new peer is added as a station exactly if it can be given an index; no entry of the cache stays of the peers that go one by one, and there is none when all are deleted. -/
def IbssEventOk (c : IbssConfig) (s : LimIbss) : IbssEvent → Prop
  | .coalesce b coalescing mem others addStaOk =>
    (b.otherBss = true → coalescing = true → Leaves c (erpOf s.stas) [b.sa] s.stas.prot) ∧
      (b.otherBss = false → ibssPeerFind s.peers b.sa = some none →
        inc32 s.peers.gLimNumIbssPeers < c.gLimIbssStaLimit → mem.isSome = true →
          (CanAssign c.gLimAssocStaLimit others s.stas.pool ↔ addStaOk = true))
  | .addStaRsp staMac success =>
    success = false → Leaves c (erpOf s.stas) [staMac] s.stas.prot
  | .heartBeat active => active = true → Leaves c (erpOf s.stas) (expired s.peers) s.stas.prot
  | .peerInactivity peerAddr started =>
    started = true → Leaves c (erpOf s.stas) [peerAddr] s.stas.prot
  | .deleteAllPeers =>
    ∀ i < limProtStaCacheSize, (s.stas.prot.protStaCache i).active = false

instance (c : IbssConfig) (s : LimIbss) : (e : IbssEvent) → Decidable (IbssEventOk c s e)
  | .coalesce .. => inferInstanceAs (Decidable ((_ → _ → _) ∧ (_ → _ → _ → _ → _)))
  | .addStaRsp .. => inferInstanceAs (Decidable (_ → _))
  | .heartBeat _ => inferInstanceAs (Decidable (_ → _))
  | .peerInactivity .. => inferInstanceAs (Decidable (_ → _))
  | .deleteAllPeers => inferInstanceAs (Decidable (∀ i < limProtStaCacheSize, _))

/-! ### The list -/

section
variable {p p' : IbssPeers} {l l₁ l₂ : List Nat} {x y : Nat} {q : Option Nat} {a : SirMacAddr}

namespace IbssPeers

@[simp] theorem peerNode_setNode (n : LimIbssPeerNode) :
    (p.setNode x n).peerNode = update p.peerNode x n := rfl

@[simp] theorem next_setNode (n : LimIbssPeerNode) :
    (p.setNode x n).next = update p.next x n.next := by
  ext1 y
  rcases eq_or_ne y x with rfl | h
  · simp [next]
  · simp [next, update_of_ne h]

@[simp] theorem addr_setNode (n : LimIbssPeerNode) :
    (p.setNode x n).addr = update p.addr x n.peerMacAddr := by
  ext1 y
  rcases eq_or_ne y x with rfl | h
  · simp [addr]
  · simp [addr, update_of_ne h]

end IbssPeers

theorem PeersHeld.seek (h : PeersHeld p l) (hn : l.length < 2 ^ 8) (a : SirMacAddr) :
    (∃ l₁ x l₂, l = l₁ ++ x :: l₂ ∧ p.addr x = a ∧
      seekPeer p a = some (.found (before none l₁) x)) ∨
    (a ∉ l.map p.addr ∧ seekPeer p a = some .ended) := by
  rw [seekPeer]
  rcases seek_spec (u := none) (q := fun x => a = p.addr x)
      (k := fun _ x => if a = p.addr x then Look.found else .goOn)
      h.threaded (le_of_lt hn) (fun _ _ e => by cases e)
      (fun _ x _ _ hx => if_pos hx) (fun _ x _ _ _ hx => if_neg hx) with
    ⟨l₁, x, l₂, rfl, -, hx, hs⟩ | ⟨hne, hs⟩
  · exact Or.inl ⟨l₁, x, l₂, rfl, hx.symm, hs⟩
  · refine Or.inr ⟨fun hm => ?_, hs⟩
    obtain ⟨y, hy, hya⟩ := mem_map.1 hm
    exact hne y hy hya.symm

theorem PeersHeld.find (h : PeersHeld p l) (hn : l.length < 2 ^ 8) (a : SirMacAddr) :
    (∃ x ∈ l, p.addr x = a ∧ ibssPeerFind p a = some (some x)) ∨
    (a ∉ l.map p.addr ∧ ibssPeerFind p a = some none) := by
  rw [ibssPeerFind]
  rcases h.seek hn a with ⟨l₁, x, l₂, rfl, hx, hs⟩ | ⟨hne, hs⟩
  · exact Or.inl ⟨x, by simp, hx, by rw [hs]; rfl⟩
  · exact Or.inr ⟨hne, by rw [hs]; rfl⟩

/-- **A peer is put on the list.** -/
theorem PeersHeld.add (h : PeersHeld p l) (hn : l.length + 1 < 2 ^ 8)
    (hx : p.allocated x = false) {n : LimIbssPeerNode} (ha : n.peerMacAddr ∉ l.map p.addr) :
    PeersHeld (ibssPeerAdd ((p.malloc x).setNode x n) x) (x :: l) ∧
      (ibssPeerAdd ((p.malloc x).setNode x n) x).addr = update p.addr x n.peerMacAddr := by
  have hxl : x ∉ l := fun hm => Bool.false_ne_true (hx.symm.trans (h.allocated x hm))
  have hadd : ibssPeerAdd ((p.malloc x).setNode x n) x
      = (((p.malloc x).setNum (inc32 p.gLimNumIbssPeers)).setNode x
          { n with next := p.gLimIbssPeerList }).setHead (some x) := by
    simp [ibssPeerAdd, setNode, setNum, malloc]
  have haddr : (ibssPeerAdd ((p.malloc x).setNode x n) x).addr = update p.addr x n.peerMacAddr := by
    rw [hadd]
    exact addr_setNode _
  have hrest : l.map (update p.addr x n.peerMacAddr) = l.map p.addr := by
    refine map_congr_left fun y hy => update_of_ne ?_ _ _
    rintro rfl
    exact hxl hy
  refine ⟨⟨?_, ?_, ?_, ?_, ?_⟩, haddr⟩
  · rw [hadd]
    have hnext : ∀ r : IbssPeers, (r.setHead (some x)).next = r.next := fun _ => rfl
    rw [hnext, IbssPeers.next_setNode]
    exact h.threaded.push hxl
  · rw [hadd]
    have hne : p.gLimNumIbssPeers ≠ 2 ^ 32 - 1 := by
      rw [h.count]
      omega
    have hinc : inc32 p.gLimNumIbssPeers = p.gLimNumIbssPeers + 1 := if_neg hne
    exact hinc.trans (congrArg (· + 1) h.count)
  · rw [haddr, map_cons, update_self, hrest]
    exact nodup_cons.2 ⟨ha, h.distinct⟩
  · intro y hy
    rw [hadd]
    rcases eq_or_ne y x with rfl | hne
    · exact update_self y true p.allocated
    · have hal := h.allocated y ((mem_cons.1 hy).resolve_left hne)
      exact (update_of_ne hne true p.allocated).trans hal
  · rw [hadd]
    exact h.freed

theorem PeersHeld.setBeats (h : PeersHeld p l) (x m n : Nat) :
    PeersHeld (setBeats p x m n) l ∧ (Lim.setBeats p x m n).addr = p.addr := by
  have hnext : (Lim.setBeats p x m n).next = p.next := by
    rw [Lim.setBeats, IbssPeers.next_setNode]
    exact update_eq_self x p.next
  have haddr : (Lim.setBeats p x m n).addr = p.addr := by
    rw [Lim.setBeats, IbssPeers.addr_setNode]
    exact update_eq_self x p.addr
  refine ⟨⟨?_, h.count, ?_, h.allocated, h.freed⟩, haddr⟩
  · rw [hnext]
    exact h.threaded
  · rw [haddr]
    exact h.distinct

theorem unlinkPeer_keeps : (unlinkPeer p q x).addr = p.addr ∧
    (unlinkPeer p q x).gLimNumIbssPeers = p.gLimNumIbssPeers ∧
      (unlinkPeer p q x).allocated = p.allocated ∧ (unlinkPeer p q x).freed = p.freed := by
  rw [unlinkPeer.eq_def]
  split
  · exact ⟨rfl, rfl, rfl, rfl⟩
  · cases q with
    | none => exact ⟨rfl, rfl, rfl, rfl⟩
    | some c =>
      refine ⟨?_, rfl, rfl, rfl⟩
      rw [addr_setNode]
      exact update_eq_self c p.addr

theorem head_ne_behind {next : Nat → Option Nat} (h : Threaded next q (l₁ ++ x :: l₂))
    (hne : l₁ ≠ []) : q ≠ some x := by
  intro e
  have hhead := h.head
  cases l₁ with
  | nil => exact hne rfl
  | cons y l₁ =>
    rw [e] at hhead
    obtain rfl : x = y := some.inj hhead
    exact (nodup_middle.1 h.nodup).notMem (mem_append_left l₂ mem_cons_self)

theorem unlinkPeer_threaded (h : Threaded p.next p.gLimIbssPeerList (l₁ ++ x :: l₂))
    (hq : l₁ ≠ [] → q = l₁.getLast?) :
    Threaded (unlinkPeer p q x).next (unlinkPeer p q x).gLimIbssPeerList (l₁ ++ l₂) := by
  rcases eq_nil_or_concat l₁ with rfl | ⟨m, b, rfl⟩
  · have hhead : p.gLimIbssPeerList = some x := h.head
    rw [unlinkPeer.eq_def, if_pos hhead]
    exact h.2
  · have hhead := head_ne_behind h (by simp)
    have hq : q = some b := by rw [hq (by simp)]; simp
    rw [unlinkPeer.eq_def, if_neg hhead, hq, concat_eq_append, append_assoc]
    rw [concat_eq_append, append_assoc] at h
    rw [IbssPeers.next_setNode]
    exact h.unlink_behind

/-- **A peer goes** from the list. -/
theorem PeersHeld.remove (h : PeersHeld p (l₁ ++ x :: l₂)) (hn : (l₁ ++ x :: l₂).length < 2 ^ 8)
    (hq : l₁ ≠ [] → q = l₁.getLast?) :
    PeersHeld (removePeer p q x) (l₁ ++ l₂) ∧ (removePeer p q x).addr = p.addr := by
  obtain ⟨haddr, hnum, hal, hfr⟩ := unlinkPeer_keeps (p := p) (q := q) (x := x)
  have hthread := unlinkPeer_threaded h.threaded hq
  have hnd := nodup_middle.1 h.threaded.nodup
  have hsub : (l₁ ++ l₂).Sublist (l₁ ++ x :: l₂) := by simp
  refine ⟨⟨hthread, ?_, ?_, fun y hy => ?_, ?_⟩, haddr⟩
  · have hpos : (unlinkPeer p q x).gLimNumIbssPeers = (l₁ ++ l₂).length + 1 := by
      rw [hnum, h.count]
      simp only [length_append, length_cons]
      omega
    have hdec : dec32 (unlinkPeer p q x).gLimNumIbssPeers = (l₁ ++ l₂).length := by
      rw [hpos]
      rfl
    exact hdec
  · have haddr' : (removePeer p q x).addr = p.addr := haddr
    rw [haddr']
    exact (hsub.map p.addr).nodup h.distinct
  · have hne : y ≠ x := by
      rintro rfl
      exact hnd.notMem hy
    have hal' : (unlinkPeer p q x).allocated y = true := by
      rw [hal]
      exact h.allocated y (hsub.subset hy)
    exact (update_of_ne hne false (unlinkPeer p q x).allocated).trans hal'
  · have hlog : (removePeer p q x).freed = ⟨x, (unlinkPeer p q x).allocated x,
        (unlinkPeer p q x).gLimIbssPeerList, (unlinkPeer p q x).next⟩ :: p.freed :=
      congrArg _ hfr
    rw [hlog]
    refine forall_mem_cons.2 ⟨⟨?_, l₁ ++ l₂, hthread, hnd.notMem⟩, h.freed⟩
    rw [hal]
    exact h.allocated x (by simp)

end

/-! ### The stations -/

/-- The entries and the indices: the table is right, the free indices are queued, and the others are those of the entries. -/
structure StasHeld (c : IbssConfig) (t : IbssStas) : Prop where
  table : TableRight t.dphHashTable
  size : t.dphHashTable.size = c.maxStation + 1
  queue : ∃ q, FreeQueue c.maxStation t.pool q
  agree : ∀ i, t.pool.assigned i = true ↔ t.dphHashTable.Present i
  cache : t.prot.Distinct

structure Departed (c : IbssConfig) (as : List SirMacAddr) (t t' : IbssStas) : Prop where
  prot : t'.prot = leaveAll c (erpOf t) as t.prot
  station : ∀ i b, t'.dphHashTable.station i = some b ↔ t.dphHashTable.station i = some b ∧ b ∉ as
  caps : t'.caps = t.caps

section
variable {c : IbssConfig} {t t' t'' : IbssStas} {a b : SirMacAddr} {as bs : List SirMacAddr}
  {i : Nat}

theorem lookup_station (h : TableRight t.dphHashTable) (hi : t.dphHashTable.station i = some a) :
    dphLookupHashEntry t.dphHashTable a = some (some i) := by
  obtain ⟨r, hr, hmem⟩ := h.lookup a
  rw [hr, (hmem i).2 hi]

theorem lookup_no_station (h : TableRight t.dphHashTable)
    (hn : ∀ i, t.dphHashTable.station i ≠ some a) :
    dphLookupHashEntry t.dphHashTable a = some none := by
  obtain ⟨r, hr, hmem⟩ := h.lookup a
  cases r with
  | none => exact hr
  | some i => exact absurd ((hmem i).1 rfl) (hn i)

theorem erpOf_station (h : TableRight t.dphHashTable) (hi : t.dphHashTable.station i = some a) :
    erpOf t a = (t.caps i).erpEnabled := by
  rw [erpOf, lookup_station h hi]

theorem present_iff_station {r : DphHashTable} : r.Present i ↔ r.station i ≠ none := by
  rw [ne_eq, station_eq_none, not_not]

theorem station_addr (h : TableRight t.dphHashTable) (hi : t.dphHashTable.station i = some a) :
    t.addr i = a ∧ t.idx i = i := by
  obtain ⟨hp, ha⟩ := station_eq_some.1 hi
  exact ⟨ha, h.ids i hp⟩

theorem limDeleteDphHashEntry_eq (h : TableRight t.dphHashTable)
    (hi : t.dphHashTable.station i = some a) :
    ∃ r, dphDeleteHashEntry t.dphHashTable a i = some (true, r) ∧ TableRight r ∧
      r.size = t.dphHashTable.size ∧ r.station = update t.dphHashTable.station i none ∧
      limDeleteDphHashEntry c t a i = some ((t.setProt
        (limIbssDecideProtectionOnDelete c a (t.caps i).erpEnabled t.prot)).setTable r) := by
  obtain ⟨r, hd, hr, hs, hst⟩ := dphDeleteHashEntry_succeeds h (station_eq_some.1 hi).1 hi
  refine ⟨r, hd, hr, hs, hst, ?_⟩
  simp [limDeleteDphHashEntry, lookup_station h hi, (station_addr h hi).1, hd]

theorem station_without (h : TableRight t.dphHashTable) (hi : t.dphHashTable.station i = some a)
    (j : Nat) : update t.dphHashTable.station i none j = some b ↔
      t.dphHashTable.station j = some b ∧ b ∉ [a] := by
  rw [update_none_eq_some, mem_singleton, and_comm]
  refine and_congr_right fun hb => not_congr ⟨?_, ?_⟩
  · rintro rfl
    exact some.inj (hb.symm.trans hi)
  · rintro rfl
    exact h.inj j i b hb hi

theorem StasHeld.drop (h : StasHeld c t) (hi : t.dphHashTable.station i = some a)
    {r : DphHashTable} (hr : TableRight r) (hs : r.size = t.dphHashTable.size)
    (hst : r.station = update t.dphHashTable.station i none)
    (hpool : t'.pool = limReleasePeerIdx t.pool i) (htable : t'.dphHashTable = r)
    (hcache : t'.prot.Distinct) : StasHeld c t' := by
  have hp := (station_eq_some.1 hi).1
  obtain ⟨q, hq⟩ := h.queue
  obtain ⟨hq', has⟩ := hq.release c.stations.2 ((h.agree i).2 hp)
  refine ⟨htable ▸ hr, by rw [htable, hs, h.size], ⟨_, hpool ▸ hq'⟩, fun j => ?_, hcache⟩
  rw [hpool, has, htable, present_iff_station, hst, ne_eq, update_none_eq_none]
  rcases eq_or_ne j i with rfl | hj
  · simp
  · simp [hj, h.agree j, present_iff_station]

/-- **A peer loses its entry**, its index, and perhaps its entry of the cache. -/
theorem departSta_spec (h : StasHeld c t) (a : SirMacAddr) :
    (∀ i, t.dphHashTable.station i ≠ some a) ∧ departSta c t a = some (false, t) ∨
    (∃ i, t.dphHashTable.station i = some a) ∧ ∃ t', departSta c t a = some (true, t') ∧
      StasHeld c t' ∧ Departed c [a] t t' := by
  by_cases hn : ∀ i, t.dphHashTable.station i ≠ some a
  · refine Or.inl ⟨hn, ?_⟩
    simp [departSta, lookup_no_station h.table hn]
  · obtain ⟨i, hi⟩ := not_forall_not.1 hn
    obtain ⟨haddr, hidx⟩ := station_addr h.table hi
    obtain ⟨r, -, hr, hs, hst, hdel⟩ := limDeleteDphHashEntry_eq (c := c) h.table hi
    refine Or.inr ⟨⟨i, hi⟩, ((t.setProt (limIbssDecideProtectionOnDelete c a
      (t.caps i).erpEnabled t.prot)).setTable r).setPool (limReleasePeerIdx t.pool i), ?_, ?_, ?_⟩
    · simp only [departSta, lookup_station h.table hi, haddr, hidx, hdel, bind_eq_bind,
        Option.bind_some, Option.pure_def]
      rfl
    · exact h.drop hi hr hs hst rfl rfl (onDelete_spec h.cache).1
    · refine ⟨?_, fun j b => ?_, rfl⟩
      · rw [leaveAll, foldl_cons, foldl_nil, erpOf_station h.table hi]
        rfl
      · rw [← station_without h.table hi j, ← hst]
        rfl

theorem departSta_isSome (h : StasHeld c t) (a : SirMacAddr) : ∃ d, departSta c t a = some d := by
  rcases departSta_spec h a with ⟨-, hd⟩ | ⟨-, t', hd, -⟩
  · exact ⟨_, hd⟩
  · exact ⟨_, hd⟩

theorem dropSta_spec (h : StasHeld c t) (a : SirMacAddr) :
    ∃ t', dropSta t a = some t' ∧ StasHeld c t' ∧ t'.prot = t.prot ∧
      ∀ i b, t'.dphHashTable.station i = some b ↔ t.dphHashTable.station i = some b ∧ b ∉ [a] := by
  by_cases hn : ∀ i, t.dphHashTable.station i ≠ some a
  · refine ⟨t, ?_, h, rfl, fun i b => (and_iff_left_of_imp fun hb hm => ?_).symm⟩
    · simp [dropSta, lookup_no_station h.table hn]
    · exact hn i (mem_singleton.1 hm ▸ hb)
  · obtain ⟨i, hi⟩ := not_forall_not.1 hn
    obtain ⟨haddr, hidx⟩ := station_addr h.table hi
    obtain ⟨r, hd, hr, hs, hst⟩ := dphDeleteHashEntry_succeeds h.table (station_eq_some.1 hi).1 hi
    refine ⟨(t.setPool (limReleasePeerIdx t.pool i)).setTable r, ?_,
      h.drop hi hr hs hst rfl rfl h.cache, rfl, fun j b => ?_⟩
    · have hd' : dphDeleteHashEntry (t.setPool (limReleasePeerIdx t.pool i)).dphHashTable
          ((t.setPool (limReleasePeerIdx t.pool i)).addr i) i = some (true, r) := haddr.symm ▸ hd
      simp [dropSta, lookup_station h.table hi, hidx, hd']
    · rw [← station_without h.table hi j, ← hst]
      rfl

/-! ### Departures, one after the other -/

theorem Departed.refl (t : IbssStas) : Departed c [] t t :=
  ⟨rfl, fun i b => by simp, rfl⟩

theorem Departed.erpOf (h : TableRight t.dphHashTable) (h' : TableRight t'.dphHashTable)
    (hd : Departed c as t t') (hb : b ∉ as) : Lim.erpOf t' b = Lim.erpOf t b := by
  have hst : ∀ i, t'.dphHashTable.station i = some b ↔ t.dphHashTable.station i = some b := by
    intro i
    rw [hd.station i b]
    exact and_iff_left hb
  by_cases hn : ∀ i, t.dphHashTable.station i ≠ some b
  · have hn' : ∀ i, t'.dphHashTable.station i ≠ some b := fun i hi => hn i ((hst i).1 hi)
    rw [Lim.erpOf, Lim.erpOf, lookup_no_station h hn, lookup_no_station h' hn']
  · obtain ⟨i, hi⟩ := not_forall_not.1 hn
    rw [erpOf_station h hi, erpOf_station h' ((hst i).2 hi), hd.caps]

theorem leaveAll_append (erp : SirMacAddr → Bool) (p : IbssProt) :
    leaveAll c erp (as ++ bs) p = leaveAll c erp bs (leaveAll c erp as p) :=
  foldl_append

theorem leaveAll_congr {erp erp' : SirMacAddr → Bool} (he : ∀ a ∈ as, erp a = erp' a)
    (p : IbssProt) : leaveAll c erp as p = leaveAll c erp' as p := by
  induction as generalizing p with
  | nil => rfl
  | cons a as ih =>
    have ha : limIbssDecideProtectionOnDelete c a (erp a) p
        = limIbssDecideProtectionOnDelete c a (erp' a) p := by
      rw [he a mem_cons_self]
    rw [leaveAll, foldl_cons, ha]
    exact ih (fun b hb => he b (mem_cons_of_mem a hb)) _

theorem Departed.trans (h : TableRight t.dphHashTable) (h' : TableRight t'.dphHashTable)
    (hd : Departed c as t t') (hd' : Departed c bs t' t'') (hdisj : ∀ b ∈ bs, b ∉ as) :
    Departed c (as ++ bs) t t'' := by
  refine ⟨?_, fun i b => ?_, hd'.caps.trans hd.caps⟩
  · rw [leaveAll_append, hd'.prot, hd.prot]
    exact leaveAll_congr (fun b hb => hd.erpOf h h' (hdisj b hb)) _
  · rw [hd'.station i b, hd.station i b, mem_append, not_or, and_assoc]

/-! ### A station is added -/

/-- What `limAssignPeerIdx` returns is no station's index, and fits the table. -/
theorem StasHeld.assigned_fresh (h : StasHeld c t) (others : Nat) :
    (limAssignPeerIdx c.gLimAssocStaLimit others t.pool).1 < t.dphHashTable.size ∧
      ¬ t.dphHashTable.Present (limAssignPeerIdx c.gLimAssocStaLimit others t.pool).1 := by
  obtain ⟨q, hq⟩ := h.queue
  rw [h.size]
  by_cases hc : CanAssign c.gLimAssocStaLimit others t.pool
  · obtain ⟨i, q', he, rfl, -, -⟩ := hq.assign hc
    obtain ⟨-, hle, hfree⟩ := (hq.mem i).1 mem_cons_self
    rw [he]
    refine ⟨lt_succ_of_le hle, fun hp => ?_⟩
    rw [← h.agree, hfree] at hp
    exact Bool.false_ne_true hp
  · rw [limAssignPeerIdx_none hc]
    refine ⟨succ_pos _, fun hp => ?_⟩
    exact absurd (hq.assigned 0 ((h.agree 0).2 hp)).1 (not_succ_le_zero 0)

/-- **An entry is added**, with the index that was assigned. -/
theorem ibssDphEntryAdd_spec (h : StasHeld c t) (hn : ∀ i, t.dphHashTable.station i ≠ some a)
    (others : Nat) :
    let r := limAssignPeerIdx c.gLimAssocStaLimit others t.pool
    ∃ tbl, ibssDphEntryAdd c others t a = some (some r.1, (t.setPool r.2).setTable tbl) ∧
      TableRight tbl ∧ tbl.size = t.dphHashTable.size ∧
        tbl.station = update t.dphHashTable.station r.1 (some a) := by
  intro r
  obtain ⟨hlt, hp⟩ : r.1 < t.dphHashTable.size ∧ ¬ t.dphHashTable.Present r.1 :=
    h.assigned_fresh others
  have hcan : t.dphHashTable.CanAdd a r.1 := ⟨hlt, station_eq_none.2 hp, hn⟩
  have hbyte : getNode r.1 = r.1 := by
    refine mod_eq_of_lt (lt_of_lt_of_le hlt ?_)
    rw [h.size]
    exact c.stations.2
  have hadd : dphAddHashEntry t.dphHashTable a r.1 = some (true, added t.dphHashTable a r.1) := by
    rw [dphAddHashEntry_succeeds h.table hcan, hbyte]
    rfl
  have hevict : evictSta c (t.setPool r.2) r.1 = some (t.setPool r.2) := by
    have hget : dphGetHashEntry (t.setPool r.2).dphHashTable r.1 = none :=
      (h.table.get r.1).trans (if_neg hp)
    rw [evictSta, hget]
  refine ⟨added t.dphHashTable a r.1, ?_, added_right h.table hcan, rfl, added_station hlt⟩
  have hadd' : dphAddHashEntry (t.setPool r.2).dphHashTable a r.1
      = some (true, added t.dphHashTable a r.1) := hadd
  simp only [ibssDphEntryAdd, lookup_no_station h.table hn, bind_eq_bind, bind_some,
    Option.pure_def]
  rw [hevict, bind_some, hadd', bind_some]
  rfl

theorem ibssStaCapsUpdate_spec {s : LimIbss} (h : TableRight s.stas.dphHashTable) (x : Nat) :
    ∃ m n k, ibssStaCapsUpdate c s x = some ⟨setBeats s.peers x m n, { s.stas with caps := k }⟩ := by
  refine ⟨((s.peers.peerNode x).beaconHBCount + 1) % 2 ^ 8, (s.peers.peerNode x).heartbeatFailure, ?_⟩
  obtain ⟨r, hr, -⟩ := h.lookup (s.peers.peerNode x).peerMacAddr
  have hr' : dphLookupHashEntry (s.setPeers (setBeats s.peers x
      (((s.peers.peerNode x).beaconHBCount + 1) % 2 ^ 8)
        (s.peers.peerNode x).heartbeatFailure)).stas.dphHashTable
          (s.peers.peerNode x).peerMacAddr = some r := hr
  simp only [ibssStaCapsUpdate, hr', Option.bind_eq_bind, Option.bind_some, Option.pure_def]
  cases r with
  | none => exact ⟨s.stas.caps, rfl⟩
  | some i =>
    dsimp only
    split
    · exact ⟨update s.stas.caps i ⟨(s.stas.caps i).erpEnabled, (s.peers.peerNode x).htCapable⟩, rfl⟩
    · exact ⟨s.stas.caps, rfl⟩

theorem finishStaAdd_ok {s : LimIbss} (hd : s.stas.prot.Distinct)
    (ha : s.stas.addr i = a) : ∃ p, finishStaAdd c true s i = some (true, s.setStas (s.stas.setProt p)) ∧
      p.Distinct ∧ p.entries ⊆ insert a s.stas.prot.entries := by
  simp only [finishStaAdd, if_true, Option.pure_def]
  split
  · obtain ⟨hd', he⟩ := limIbssDecideProtection_entries (c := c) (a := a) hd (s.stas.caps i)
    refine ⟨limIbssDecideProtection c a (s.stas.caps i) s.stas.prot, ?_, hd', he⟩
    rw [ha]
  · exact ⟨s.stas.prot, rfl, hd, Set.subset_insert a _⟩

theorem decideAgain_spec {s : LimIbss} (h : TableRight s.stas.dphHashTable)
    (hi : s.stas.dphHashTable.station i = some a) (hd : s.stas.prot.Distinct) :
    ∃ p, decideAgain c s a = some (s.setStas (s.stas.setProt p)) ∧
      p.Distinct ∧ p.entries ⊆ insert a s.stas.prot.entries := by
  simp only [decideAgain, lookup_station h hi, Option.bind_eq_bind, Option.bind_some,
    Option.pure_def]
  split
  · obtain ⟨hd', he⟩ := limIbssDecideProtection_entries (c := c) (a := a) hd (s.stas.caps i)
    refine ⟨limIbssDecideProtection c a (s.stas.caps i) s.stas.prot, ?_, hd', he⟩
    rw [(station_addr h hi).1]
  · exact ⟨s.stas.prot, rfl, hd, Set.subset_insert a _⟩

theorem finishStaAdd_failed {s : LimIbss} (h : TableRight s.stas.dphHashTable)
    (hi : s.stas.dphHashTable.station i = some a) : ∃ tbl,
      finishStaAdd c false s i = some (false, s.setStas (s.stas.setTable tbl)) ∧ TableRight tbl ∧
        tbl.size = s.stas.dphHashTable.size ∧
          tbl.station = update s.stas.dphHashTable.station i none := by
  obtain ⟨haddr, hidx⟩ := station_addr h hi
  obtain ⟨r, hd, hr, hs, hst⟩ := dphDeleteHashEntry_succeeds h (station_eq_some.1 hi).1 hi
  refine ⟨r, ?_, hr, hs, hst⟩
  simp only [finishStaAdd, haddr, hidx, hd, bind_eq_bind, bind_some, Option.pure_def]
  rfl

/-- A station has been added with an index, or it could not be. -/
structure Learned (addStaOk : Bool) (a : SirMacAddr) (r : Nat × PeerIdxPool) (t t' : IbssStas) :
    Prop where
  pool : t'.pool = r.2
  table : TableRight t'.dphHashTable
  size : t'.dphHashTable.size = t.dphHashTable.size
  station : t'.dphHashTable.station = if addStaOk
    then update t.dphHashTable.station r.1 (some a) else t.dphHashTable.station
  cache : t'.prot.Distinct
  entries : t'.prot.entries ⊆ if addStaOk then insert a t.prot.entries else t.prot.entries

theorem limIbssStaAdd_spec {s : LimIbss} {l : List Nat} (h : StasHeld c s.stas)
    (hp : PeersHeld s.peers l) (hl : l.length < 2 ^ 8) (ha : a ∈ l.map s.peers.addr)
    (hn : ∀ i, s.stas.dphHashTable.station i ≠ some a) (others : Nat) (addStaOk : Bool) :
    let r := limAssignPeerIdx c.gLimAssocStaLimit others s.stas.pool
    ∃ s', limIbssStaAdd c others addStaOk s a = some (addStaOk, s') ∧ PeersHeld s'.peers l ∧
      s'.peers.addr = s.peers.addr ∧ Learned addStaOk a r s.stas s'.stas := by
  intro r
  obtain ⟨x, -, -, hfind⟩ := (hp.find hl a).resolve_right fun hr => hr.1 ha
  obtain ⟨tbl, hadd, htbl, hsize, hst⟩ := ibssDphEntryAdd_spec h hn others
  have hi : tbl.station r.1 = some a := by rw [hst, update_self]
  let s₁ : LimIbss := s.setStas (((s.stas.setPool r.2).setTable tbl).setCaps r.1
    ⟨(s.peers.peerNode x).erpIePresent, (s.stas.caps r.1).htCapability⟩)
  obtain ⟨m, n, k, hcaps⟩ := ibssStaCapsUpdate_spec (c := c) (s := s₁) htbl x
  let s₂ : LimIbss := ⟨setBeats s₁.peers x m n, { s₁.stas with caps := k }⟩
  have heq : limIbssStaAdd c others addStaOk s a = finishStaAdd c addStaOk s₂ r.1 := by
    simp only [limIbssStaAdd, hfind, hadd, bind_eq_bind, bind_some]
    have hcaps' : ibssStaCapsUpdate c (s.setStas (((s.stas.setPool r.2).setTable tbl).setCaps r.1
        ⟨(s.peers.peerNode x).erpIePresent, (((s.stas.setPool r.2).setTable tbl).caps
          r.1).htCapability⟩)) x = some s₂ := hcaps
    rw [hcaps', bind_some]
  obtain ⟨hp', haddr⟩ := hp.setBeats x m n
  have haddr₂ : s₂.stas.addr r.1 = a := (station_addr (t := s₂.stas) htbl hi).1
  rw [heq]
  cases addStaOk with
  | true =>
    obtain ⟨p, hf, hd, hent⟩ := finishStaAdd_ok (c := c) (s := s₂) h.cache haddr₂
    exact ⟨_, hf, hp', haddr, rfl, htbl, hsize, hst, hd, hent⟩
  | false =>
    obtain ⟨tbl', hf, htbl', hsize', hst'⟩ := finishStaAdd_failed (c := c) (s := s₂) htbl hi
    have hundo : tbl'.station = s.stas.dphHashTable.station := by
      have hst₂ : s₂.stas.dphHashTable.station = tbl.station := rfl
      rw [hst', hst₂, hst, update_idem, ← station_eq_none.2 (h.assigned_fresh others).2]
      exact update_eq_self r.1 _
    exact ⟨_, hf, hp', haddr, rfl, htbl', hsize'.trans hsize, hundo, h.cache, subset_rfl⟩

/-- **A peer is learned.** -/
theorem learnPeer_spec {s : LimIbss} {l : List Nat} {b : IbssBeacon} {x : Nat}
    (h : StasHeld c s.stas) (hp : PeersHeld s.peers l) (hl : l.length + 1 < 2 ^ 8)
    (hx : s.peers.allocated x = false) (ha : b.sa ∉ l.map s.peers.addr)
    (hn : ∀ i, s.stas.dphHashTable.station i ≠ some b.sa) (others : Nat) (addStaOk : Bool) :
    let r := limAssignPeerIdx c.gLimAssocStaLimit others s.stas.pool
    ∃ s', learnPeer c others addStaOk s b x = some s' ∧ PeersHeld s'.peers (x :: l) ∧
      s'.peers.addr = update s.peers.addr x b.sa ∧ Learned addStaOk b.sa r s.stas s'.stas := by
  intro r
  let s₁ : LimIbss := s.setPeers (ibssPeerAdd
    ((s.peers.malloc x).setNode x (ibssPeerCollect c b)) x)
  obtain ⟨hp₁, haddr₁⟩ := hp.add hl hx (n := ibssPeerCollect c b) ha
  have hm : b.sa ∈ (x :: l).map s₁.peers.addr := by
    refine mem_map.2 ⟨x, mem_cons_self, ?_⟩
    have haddr : s₁.peers.addr = update s.peers.addr x b.sa := haddr₁
    rw [haddr, update_self]
  obtain ⟨s₂, hadd, hp₂, haddr₂, hlearn⟩ := limIbssStaAdd_spec (c := c) (s := s₁) h hp₁ hl hm hn
    others addStaOk
  have hlookup : dphLookupHashEntry s.stas.dphHashTable b.sa = some none :=
    lookup_no_station h.table hn
  have heq : learnPeer c others addStaOk s b x
      = if addStaOk then decideAgain c s₂ b.sa else some s₂ := by
    have hlookup' : dphLookupHashEntry s₁.stas.dphHashTable b.sa = some none := hlookup
    have hstep : learnPeer c others addStaOk s b x
        = (dphLookupHashEntry s₁.stas.dphHashTable b.sa).bind fun
          | some _ => ibssStaCapsUpdate c s₁ x
          | none => (limIbssStaAdd c others addStaOk s₁ b.sa).bind fun r =>
            if r.1 then decideAgain c r.2 b.sa else some r.2 := rfl
    rw [hstep, hlookup', bind_some, hadd, bind_some]
  rw [heq]
  cases addStaOk with
  | false => exact ⟨s₂, rfl, hp₂, haddr₂.trans haddr₁, hlearn⟩
  | true =>
    have hi : s₂.stas.dphHashTable.station r.1 = some b.sa := by
      rw [hlearn.station, if_pos rfl]
      exact update_self ..
    obtain ⟨p, hdec, hd, hent⟩ := decideAgain_spec (c := c) hlearn.table hi hlearn.cache
    refine ⟨_, hdec, hp₂, haddr₂.trans haddr₁,
      ⟨hlearn.pool, hlearn.table, hlearn.size, hlearn.station, hd, ?_⟩⟩
    exact hent.trans (Set.insert_subset (Set.mem_insert _ _) hlearn.entries)

end

/-! ### The invariant -/

/-- What every step keeps whatever the cache is. -/
structure IbssCore (c : IbssConfig) (s : LimIbss) (l : List Nat) : Prop where
  peers : PeersHeld s.peers l
  stas : StasHeld c s.stas
  listed : ∀ i a, s.stas.dphHashTable.station i = some a → a ∈ l.map s.peers.addr
  short : l.length < 2 ^ 8

/-- The entries of the cache are those of stations. -/
def Cached (t : IbssStas) : Prop :=
  ∀ a ∈ t.prot.entries, ∃ i, t.dphHashTable.station i = some a

/-- **The invariant.** -/
def IbssInv (c : IbssConfig) (s : LimIbss) : Prop := (∃ l, IbssCore c s l) ∧ Cached s.stas

section
variable {c : IbssConfig} {s s' s'' : LimIbss} {l l' : List Nat} {a : SirMacAddr}
  {as : List SirMacAddr}

theorem entries_eq_empty {p : IbssProt} :
    p.entries = ∅ ↔ ∀ i < limProtStaCacheSize, (p.protStaCache i).active = false := by
  rw [IbssProt.entries, Set.image_eq_empty, Set.eq_empty_iff_forall_notMem]
  refine forall_congr' fun i => ?_
  simp [activeSlots]

theorem IbssCore.right_iff (h : IbssCore c s l) :
    IbssRight s ↔ ∀ a ∈ s.stas.prot.entries, a ∈ l.map s.peers.addr := by
  constructor
  · intro hr
    obtain ⟨l', hl', hent⟩ := hr.peers
    rwa [h.peers.threaded.unique hl'.threaded]
  · intro hent
    refine ⟨⟨l, h.peers, hent⟩, h.stas.table, h.stas.agree, fun hhead => ?_⟩
    obtain rfl : l = [] := by
      have hh := h.peers.threaded.head
      rw [hhead] at hh
      exact head?_eq_none_iff.1 hh.symm
    refine ⟨fun i => Bool.eq_false_iff.2 fun hi => ?_, ?_⟩
    · rw [h.stas.agree, present_iff_station] at hi
      obtain ⟨a, ha⟩ := ne_none_iff_exists'.1 hi
      exact absurd (h.listed i a ha) not_mem_nil
    · have hempty : s.stas.prot.entries = ∅ :=
        Set.eq_empty_of_forall_notMem fun a ha => not_mem_nil (hent a ha)
      exact Set.image_eq_empty.1 hempty

theorem IbssInv.right (h : IbssInv c s) : IbssRight s := by
  obtain ⟨⟨l, hc⟩, hcached⟩ := h
  refine hc.right_iff.2 fun a ha => ?_
  obtain ⟨i, hi⟩ := hcached a ha
  exact hc.listed i a hi

/-- Peers have departed: their nodes, their entries and their indices are gone. -/
structure PeersGone (c : IbssConfig) (as : List SirMacAddr) (l l' : List Nat) (s s' : LimIbss) :
    Prop where
  core : IbssCore c s' l'
  stas : Departed c as s.stas s'.stas
  listed : ∀ a, a ∈ l'.map s'.peers.addr ↔ a ∈ l.map s.peers.addr ∧ a ∉ as

open PeersGone

/-- **Departures keep the law exactly when no entry of the cache stays.** -/
theorem PeersGone.right_iff (h : PeersGone c as l l' s s') (hc : IbssCore c s l)
    (hcached : Cached s.stas) (hnd : as.Nodup) :
    (IbssRight s' ↔ Leaves c (erpOf s.stas) as s.stas.prot) ∧
      (Leaves c (erpOf s.stas) as s.stas.prot → IbssInv c s') := by
  obtain ⟨-, hsub, -, hiff⟩ := leaveAll_spec (c := c) (erpOf s.stas) hc.stas.cache hnd
  rw [← h.stas.prot] at hsub hiff
  have hinv : Leaves c (erpOf s.stas) as s.stas.prot → IbssInv c s' := by
    intro hl
    refine ⟨⟨l', h.core⟩, fun a ha => ?_⟩
    obtain ⟨i, hi⟩ := hcached a (hsub ha)
    exact ⟨i, (h.stas.station i a).2 ⟨hi, fun hm => hiff.2 hl a hm ha⟩⟩
  refine ⟨⟨fun hr => hiff.1 fun a ha hm => ?_, fun hl => (hinv hl).right⟩, hinv⟩
  exact ((h.listed a).1 (h.core.right_iff.1 hr a hm)).2 ha

theorem PeersGone.refl (h : IbssCore c s l) : PeersGone c [] l l s s :=
  ⟨h, .refl s.stas, fun a => by simp⟩

theorem PeersGone.trans {bs : List SirMacAddr} {l'' : List Nat} (hc : IbssCore c s l)
    (h : PeersGone c as l l' s s') (h' : PeersGone c bs l' l'' s' s'')
    (hdisj : ∀ b ∈ bs, b ∉ as) : PeersGone c (as ++ bs) l l'' s s'' := by
  refine ⟨h'.core, h.stas.trans hc.stas.table h.core.stas.table h'.stas hdisj, fun a => ?_⟩
  rw [h'.listed a, h.listed a, mem_append, not_or, and_assoc]

theorem IbssCore.setBeats (h : IbssCore c s l) (x m n : Nat) :
    IbssCore c (s.setPeers (setBeats s.peers x m n)) l := by
  obtain ⟨hp, haddr⟩ := h.peers.setBeats x m n
  refine ⟨hp, h.stas, fun i a hi => ?_, h.short⟩
  have haddr' : (s.setPeers (Lim.setBeats s.peers x m n)).peers.addr = s.peers.addr := haddr
  rw [haddr']
  exact h.listed i a hi

theorem listed_without {p : IbssPeers} {x : Nat} {l₁ l₂ : List Nat}
    (hd : ((l₁ ++ x :: l₂).map p.addr).Nodup) (b : SirMacAddr) :
    b ∈ (l₁ ++ l₂).map p.addr ↔ b ∈ (l₁ ++ x :: l₂).map p.addr ∧ b ∉ [p.addr x] := by
  have hperm := (perm_middle : (l₁ ++ x :: l₂).Perm _).map p.addr
  rw [hperm.mem_iff, map_cons, mem_cons, mem_singleton, or_and_right, and_not_self_iff, false_or]
  refine (and_iff_left_of_imp fun hb => ?_).symm
  rintro rfl
  exact (nodup_cons.1 (hperm.nodup_iff.1 hd)).1 hb

/-- **One peer goes.**  If it has no entry, only its node goes. -/
theorem PeersGone.one {x : Nat} {q : Option Nat} {l₁ l₂ : List Nat} {t : IbssStas} {d : Bool}
    (h : IbssCore c s (l₁ ++ x :: l₂)) (hq : l₁ ≠ [] → q = l₁.getLast?)
    (hd : departSta c s.stas (s.peers.addr x) = some (d, t)) :
    PeersGone c [s.peers.addr x] (l₁ ++ x :: l₂) (l₁ ++ l₂) s ⟨removePeer s.peers q x, t⟩ := by
  obtain ⟨hp, haddr⟩ := h.peers.remove h.short hq
  have hlisted := fun b => listed_without h.peers.distinct b
  have hgone : StasHeld c t ∧ Departed c [s.peers.addr x] s.stas t := by
    rcases departSta_spec h.stas (s.peers.addr x) with ⟨hn, he⟩ | ⟨-, t', he, ht, hdep⟩
    · obtain ⟨-, rfl⟩ := Prod.mk.inj (some.inj (hd.symm.trans he))
      refine ⟨h.stas, ?_, fun i b => (and_iff_left_of_imp fun hb hm => ?_).symm, rfl⟩
      · have herp : erpOf s.stas (s.peers.addr x) = true := by
          rw [erpOf, lookup_no_station h.stas.table hn]
        rw [leaveAll, foldl_cons, foldl_nil, herp, limIbssDecideProtectionOnDelete]
        simp
      · exact hn i (mem_singleton.1 hm ▸ hb)
    · obtain ⟨-, rfl⟩ := Prod.mk.inj (some.inj (hd.symm.trans he))
      exact ⟨ht, hdep⟩
  refine ⟨⟨hp, hgone.1, fun i b hb => ?_, ?_⟩, hgone.2, fun b => ?_⟩
  · have haddr' : (removePeer s.peers q x).addr = s.peers.addr := haddr
    obtain ⟨hb, hne⟩ := (hgone.2.station i b).1 hb
    rw [haddr', hlisted b]
    exact ⟨h.listed i b hb, hne⟩
  · refine lt_of_le_of_lt ?_ h.short
    simp only [length_append, length_cons]
    exact Nat.add_le_add_left (Nat.le_succ _) _
  · have haddr' : (removePeer s.peers q x).addr = s.peers.addr := haddr
    rw [haddr']
    exact hlisted b

/-! ### The steps -/

/-- The law holds after a step exactly if `P` does, and then so does the invariant. -/
def Settles (c : IbssConfig) (s : LimIbss) (P : Prop) : Prop :=
  (IbssRight s ↔ P) ∧ (P → IbssInv c s)

theorem IbssInv.settles {P : Prop} (h : IbssInv c s) (hP : P) : Settles c s P :=
  ⟨iff_of_true h.right hP, fun _ => h⟩

theorem leaves_absent {erp : SirMacAddr → Bool} {p : IbssProt} (ha : a ∉ p.entries) :
    Leaves c erp [a] p := by
  have hn : (seekCache p.protStaCache a).isSome = false :=
    Bool.eq_false_iff.2 fun hs => ha (seekCache_isSome.1 hs)
  simp [Leaves, hn]

theorem limIbssSearchAndDeletePeer_step (h : IbssInv c s) (a : SirMacAddr) :
    ∃ s', limIbssSearchAndDeletePeer c s a = some s' ∧
      Settles c s' (Leaves c (erpOf s.stas) [a] s.stas.prot) := by
  obtain ⟨⟨l, hc⟩, hcached⟩ := id h
  have hstay : (∀ i, s.stas.dphHashTable.station i ≠ some a) →
      Settles c s (Leaves c (erpOf s.stas) [a] s.stas.prot) := by
    intro hn
    refine h.settles (leaves_absent fun hm => ?_)
    obtain ⟨i, hi⟩ := hcached a hm
    exact hn i hi
  rcases hc.peers.seek hc.short a with ⟨l₁, x, l₂, rfl, rfl, hs⟩ | ⟨hne, hs⟩
  · rcases departSta_spec hc.stas (s.peers.addr x) with ⟨hn, hd⟩ | ⟨-, t, hd, -, -⟩
    · refine ⟨s, ?_, hstay hn⟩
      simp only [limIbssSearchAndDeletePeer, hs, hd, bind_eq_bind, bind_some, Option.pure_def]
      rfl
    · have hq : l₁ ≠ [] → before none l₁ = l₁.getLast? := fun _ => by simp [before]
      refine ⟨⟨removePeer s.peers (before none l₁) x, t⟩, ?_,
        (one hc hq hd).right_iff hc hcached (nodup_singleton _)⟩
      simp only [limIbssSearchAndDeletePeer, hs, hd, bind_eq_bind, bind_some, Option.pure_def]
      rfl
  · refine ⟨s, ?_, hstay fun i hi => hne (hc.listed i a hi)⟩
    simp [limIbssSearchAndDeletePeer, hs]

theorem limIbssAddStaRsp_step (h : IbssInv c s) (a : SirMacAddr) (success : Bool) :
    ∃ s', limIbssAddStaRsp c s a success = some s' ∧
      Settles c s' (success = false → Leaves c (erpOf s.stas) [a] s.stas.prot) := by
  obtain ⟨⟨l, hc⟩, hcached⟩ := id h
  by_cases hn : ∀ i, s.stas.dphHashTable.station i ≠ some a
  · refine ⟨s, ?_, h.settles fun _ => leaves_absent fun hm => ?_⟩
    · simp [limIbssAddStaRsp, lookup_no_station hc.stas.table hn]
    · obtain ⟨i, hi⟩ := hcached a hm
      exact hn i hi
  · obtain ⟨i, hi⟩ := not_forall_not.1 hn
    cases success with
    | true =>
      refine ⟨s, ?_, h.settles fun e => nomatch e⟩
      simp [limIbssAddStaRsp, lookup_station hc.stas.table hi]
    | false =>
      obtain ⟨s', hs', hset⟩ := limIbssSearchAndDeletePeer_step h a
      refine ⟨s', ?_, by simpa using hset⟩
      simpa [limIbssAddStaRsp, lookup_station hc.stas.table hi] using hs'

/-! ### Heart beats -/

theorem expires_congr {p p' : IbssPeers} {x th : Nat}
    (hb : (p'.peerNode x).beaconHBCount = (p.peerNode x).beaconHBCount)
    (hf : (p'.peerNode x).heartbeatFailure = (p.peerNode x).heartbeatFailure) :
    Expires th p' x ↔ Expires th p x := by
  rw [Expires, Expires, hb, hf]

theorem expires_setBeats {p : IbssPeers} {x y m n th : Nat} (hy : y ≠ x) :
    Expires th (Lim.setBeats p x m n) y ↔ Expires th p y := by
  apply expires_congr <;> simp [setBeats, update_of_ne hy]

theorem expires_removePeer {p : IbssPeers} {x y th : Nat} {q : Option Nat} :
    Expires th (removePeer p q x) y ↔ Expires th p y := by
  have hnode : ((unlinkPeer p q x).peerNode y).beaconHBCount = (p.peerNode y).beaconHBCount ∧
      ((unlinkPeer p q x).peerNode y).heartbeatFailure = (p.peerNode y).heartbeatFailure := by
    rw [unlinkPeer.eq_def]
    split
    · exact ⟨rfl, rfl⟩
    · cases q with
      | none => exact ⟨rfl, rfl⟩
      | some b => rcases eq_or_ne y b with rfl | hy <;> simp [*]
  exact expires_congr hnode.1 hnode.2

theorem PeersGone.beats (h : IbssCore c s l) (x m n : Nat) :
    PeersGone c [] l l s (s.setPeers (Lim.setBeats s.peers x m n)) := by
  obtain ⟨-, haddr⟩ := h.peers.setBeats x m n
  refine ⟨h.setBeats x m n, .refl s.stas, fun a => ?_⟩
  have haddr' : (s.setPeers (setBeats s.peers x m n)).peers.addr = s.peers.addr := haddr
  rw [haddr']
  simp

theorem PeersGone.expire {x : Nat} {q : Option Nat} {l₁ l₂ : List Nat} {d : Bool × IbssStas}
    (h : IbssCore c s (l₁ ++ x :: l₂)) (k : Nat) (hq : l₁ ≠ [] → q = l₁.getLast?)
    (hd : departSta c s.stas (s.peers.addr x) = some d) :
    PeersGone c [s.peers.addr x] (l₁ ++ x :: l₂) (l₁ ++ l₂) s
        ⟨removePeer (Lim.setBeats s.peers x 0 k) q x, d.2⟩ ∧
      (removePeer (Lim.setBeats s.peers x 0 k) q x).addr = s.peers.addr := by
  have hbeats := beats h x 0 k
  have haddr : (s.setPeers (setBeats s.peers x 0 k)).peers.addr = s.peers.addr :=
    (h.peers.setBeats x 0 k).2
  have hd' : departSta c (s.setPeers (setBeats s.peers x 0 k)).stas
      ((s.setPeers (setBeats s.peers x 0 k)).peers.addr x) = some (d.1, d.2) := by
    rw [haddr]
    exact hd
  have hone := one hbeats.core hq hd'
  have hgone := hbeats.trans h hone fun b _ => not_mem_nil
  rw [haddr] at hgone
  exact ⟨hgone, (hbeats.core.peers.remove h.short hq).2.trans haddr⟩

theorem PeersGone.sweep {th x : Nat} {l₁ l₂ m : List Nat} (hc : IbssCore c s (l₁ ++ x :: l₂))
    (h : PeersGone c as (l₁ ++ x :: l₂) (m ++ l₂) s s')
    (haddr : s'.peers.addr = s.peers.addr)
    (he : ∀ y ∈ l₂, Expires th s'.peers y ↔ Expires th s.peers y)
    (hdisj : ∀ y ∈ l₂, s.peers.addr y ∉ as)
    (h' : PeersGone c ((l₂.filter fun y => Expires th s'.peers y).map s'.peers.addr) (m ++ l₂)
      (m ++ l₂.filter fun y => ¬ Expires th s'.peers y) s' s'') :
    PeersGone c (as ++ (l₂.filter fun y => Expires th s.peers y).map s.peers.addr)
      (l₁ ++ x :: l₂) (m ++ l₂.filter fun y => ¬ Expires th s.peers y) s s'' := by
  have hgo : (l₂.filter fun y => Expires th s'.peers y) = l₂.filter fun y => Expires th s.peers y :=
    filter_congr fun y hy => by simp [he y hy]
  have hkeep : (l₂.filter fun y => ¬ Expires th s'.peers y)
      = l₂.filter fun y => ¬ Expires th s.peers y :=
    filter_congr fun y hy => by simp [he y hy]
  rw [hgo, hkeep, haddr] at h'
  refine h.trans hc h' fun b hb => ?_
  obtain ⟨y, hy, rfl⟩ := mem_map.1 hb
  exact hdisj y (mem_of_mem_filter hy)

/-- **The loop over the peers**, with those of `l₁` looked at and kept. -/
theorem heartBeatFrom_spec (th : Nat) {n : Nat} {p q : Option Nat} {l₁ l₂ : List Nat}
    (h : IbssCore c s (l₁ ++ l₂)) (hn : l₂.length ≤ n) (hq : q = l₂.head?)
    (hp : l₁ ≠ [] → p = l₁.getLast?) :
    ∃ s', heartBeatFrom c th n s p q = some s' ∧
      PeersGone c ((l₂.filter fun y => Expires th s.peers y).map s.peers.addr) (l₁ ++ l₂)
        (l₁ ++ l₂.filter fun y => ¬ Expires th s.peers y) s s' := by
  induction l₂ generalizing s l₁ n p q with
  | nil =>
    subst hq
    exact ⟨s, by cases n <;> simp [heartBeatFrom], by simpa using refl h⟩
  | cons x l₂ ih =>
    obtain rfl : q = some x := hq
    obtain ⟨n, rfl⟩ := exists_eq_add_one_of_ne_zero (ne_zero_of_lt hn)
    have hn := le_of_succ_le_succ hn
    have hnext : s.peers.next x = l₂.head? := h.peers.threaded.after.head
    have hl : l₁ ++ x :: l₂ = (l₁ ++ [x]) ++ l₂ := by simp
    have hx : ∀ y ∈ l₂, y ≠ x := by
      rintro y hy rfl
      exact (nodup_middle.1 h.peers.threaded.nodup).notMem (mem_append_right l₁ hy)
    -- a peer that stays: its beacons are counted anew
    have hstay : ¬ Expires th s.peers x → ∀ m k,
        ∃ s', heartBeatFrom c th n (s.setPeers (setBeats s.peers x m k)) (some x)
            (s.peers.next x) = some s' ∧
          PeersGone c (((x :: l₂).filter fun y => Expires th s.peers y).map s.peers.addr)
            (l₁ ++ x :: l₂) (l₁ ++ (x :: l₂).filter fun y => ¬ Expires th s.peers y) s s' := by
      intro hne m k
      have hgone : PeersGone c [] (l₁ ++ x :: l₂) ((l₁ ++ [x]) ++ l₂) s
          (s.setPeers (setBeats s.peers x m k)) := hl ▸ beats h x m k
      have hlast : l₁ ++ [x] ≠ [] → some x = (l₁ ++ [x]).getLast? :=
        fun _ => getLast?_concat.symm
      obtain ⟨s', hs', hg⟩ := ih hgone.core hn hnext hlast
      refine ⟨s', hs', ?_⟩
      have hsweep := hgone.sweep h (h.peers.setBeats x m k).2
        (fun y hy => expires_setBeats (hx y hy)) (fun _ _ => not_mem_nil) hg
      simpa [hne] using hsweep
    rw [heartBeatFrom]
    by_cases hb : (s.peers.peerNode x).beaconHBCount ≠ 0
    · rw [if_pos hb]
      exact hstay (fun he => hb he.1) 0 0
    · rw [if_neg hb]
      by_cases hf : th ≤ ((s.peers.peerNode x).heartbeatFailure + 1) % 2 ^ 8
      · have hexp : Expires th s.peers x := ⟨not_not.1 hb, hf⟩
        generalize ((s.peers.peerNode x).heartbeatFailure + 1) % 2 ^ 8 = k at hf ⊢
        obtain ⟨d, hd⟩ := departSta_isSome h.stas (s.peers.addr x)
        obtain ⟨hgone, haddr⟩ := expire h k hp hd
        have hprev : l₁ ≠ [] → (if (setBeats s.peers x 0 k).gLimIbssPeerList = some x
            then s.peers.next x else p) = l₁.getLast? := by
          intro hne
          have hhead : (setBeats s.peers x 0 k).gLimIbssPeerList ≠ some x :=
            head_ne_behind h.peers.threaded hne
          rw [if_neg hhead]
          exact hp hne
        obtain ⟨s', hs', hg⟩ := ih hgone.core hn hnext hprev
        refine ⟨s', ?_, ?_⟩
        · rw [if_pos hf]
          exact (congrArg (bind · _) hd).trans hs'
        · have hdist := h.peers.distinct
          rw [map_append, map_cons, nodup_middle, nodup_cons] at hdist
          have hsweep := hgone.sweep h haddr
            (fun y hy => expires_removePeer.trans (expires_setBeats (hx y hy))) (fun y hy hm => ?_) hg
          · simpa [hexp] using hsweep
          · exact hdist.1 (mem_singleton.1 hm ▸ mem_append_right _ (mem_map_of_mem hy))
      · rw [if_neg hf]
        exact hstay (fun he => hf he.2) 0 _

theorem limIbssHeartBeatHandle_step (h : IbssInv c s) : ∃ s', limIbssHeartBeatHandle c s = some s' ∧
      Settles c s' (Leaves c (erpOf s.stas) (expired s.peers) s.stas.prot) := by
  obtain ⟨⟨l, hc⟩, hcached⟩ := h
  have hfuel : l.length ≤ ibssFuel := le_of_lt hc.short
  have hlist : (walk s.peers.next ibssFuel s.peers.gLimIbssPeerList).getD [] = l := by
    rw [hc.peers.threaded.walk hfuel]
    rfl
  have hc' : IbssCore c s ([] ++ l) := hc
  obtain ⟨s', hs', hg⟩ := heartBeatFrom_spec (s.peers.gLimNumIbssPeers / 4 + 1)
    (p := s.peers.gLimIbssPeerList) hc' hfuel hc.peers.threaded.head fun e => absurd rfl e
  refine ⟨s', hs', ?_⟩
  rw [expired, hlist]
  refine hg.right_iff hc hcached ?_
  exact ((filter_sublist).map s.peers.addr).nodup hc.peers.distinct

/-! ### All go -/

theorem deletePeersFrom_spec {n : Nat} (h : IbssCore c s l) (hn : l.length ≤ n) :
    ∃ s', deletePeersFrom n s s.peers.gLimIbssPeerList = some s' ∧ IbssCore c s' [] ∧
      s'.stas.prot = s.stas.prot := by
  induction l generalizing s n with
  | nil =>
    have hhead : s.peers.gLimIbssPeerList = none := h.peers.threaded
    have hpeers : PeersHeld ((s.peers.setNum 0).setHead none) [] :=
      ⟨rfl, rfl, nodup_nil, fun x hx => absurd hx not_mem_nil, h.peers.freed⟩
    refine ⟨s.setPeers ((s.peers.setNum 0).setHead none), ?_,
      ⟨hpeers, h.stas, fun i a hi => absurd (h.listed i a hi) not_mem_nil, by decide⟩, rfl⟩
    rw [hhead]
    cases n <;> rfl
  | cons x l ih =>
    have hhead : s.peers.gLimIbssPeerList = some x := h.peers.threaded.head
    obtain ⟨n, rfl⟩ := exists_eq_add_one_of_ne_zero (ne_zero_of_lt hn)
    obtain ⟨t, hd, ht, hprot, hst⟩ := dropSta_spec h.stas (s.peers.addr x)
    have hl : x :: l = [] ++ x :: l := rfl
    have hpeers := h.peers
    rw [hl] at hpeers
    obtain ⟨hp, haddr⟩ := hpeers.remove (q := none) h.short fun e => absurd rfl e
    have hunlink : unlinkPeer s.peers none x = s.peers.setHead (s.peers.next x) := by
      rw [unlinkPeer.eq_def, if_pos hhead]
    have hcore : IbssCore c ⟨removePeer s.peers none x, t⟩ l := by
      refine ⟨hp, ht, fun i a hi => ?_, lt_of_succ_lt h.short⟩
      obtain ⟨hi, hne⟩ := (hst i a).1 hi
      have hlisted : a ∈ ([] ++ l).map s.peers.addr :=
        (listed_without h.peers.distinct a).2 ⟨h.listed i a hi, hne⟩
      have haddr' : (removePeer s.peers none x).addr = s.peers.addr := haddr
      rwa [haddr']
    obtain ⟨s', hs', hc', hprot'⟩ := ih hcore (le_of_succ_le_succ hn)
    refine ⟨s', ?_, hc', hprot'.trans hprot⟩
    have hnum : s.peers.gLimNumIbssPeers ≠ 0 := by
      rw [h.peers.count]
      exact succ_ne_zero _
    rw [hhead, deletePeersFrom, if_neg hnum, hd]
    rw [removePeer, hunlink] at hs'
    exact hs'

theorem limIbssDeleteAllPeers_step (h : IbssInv c s) : ∃ s', limIbssDeleteAllPeers s = some s' ∧
      Settles c s' (∀ i < limProtStaCacheSize, (s.stas.prot.protStaCache i).active = false) := by
  obtain ⟨⟨l, hc⟩, -⟩ := h
  obtain ⟨s', hs', hc', hprot⟩ := deletePeersFrom_spec hc (le_of_lt hc.short)
  have hright : IbssRight s' ↔ ∀ i < limProtStaCacheSize, (s.stas.prot.protStaCache i).active = false := by
    rw [hc'.right_iff, hprot, ← entries_eq_empty, Set.eq_empty_iff_forall_notMem]
    exact forall₂_congr fun a _ => iff_of_eq (propext ⟨fun hm => not_mem_nil hm, False.elim⟩)
  refine ⟨s', hs', hright, fun hP => ⟨⟨[], hc'⟩, fun a ha => ?_⟩⟩
  rw [hprot, entries_eq_empty.2 hP] at ha
  exact absurd ha (Set.notMem_empty a)

/-! ### Beacons -/

theorem ibssStaCapsUpdate_step (h : IbssInv c s) (x : Nat) :
    ∃ s', ibssStaCapsUpdate c s x = some s' ∧ IbssInv c s' := by
  obtain ⟨⟨l, hc⟩, hcached⟩ := h
  obtain ⟨m, n, k, hs'⟩ := ibssStaCapsUpdate_spec (c := c) hc.stas.table x
  have hcore := hc.setBeats x m n
  refine ⟨_, hs', ⟨l, ⟨hcore.peers, ?_, hcore.listed, hc.short⟩⟩, hcached⟩
  exact ⟨hc.stas.table, hc.stas.size, hc.stas.queue, hc.stas.agree, hc.stas.cache⟩

theorem Learned.held {t t' : IbssStas} {others : Nat} (h : StasHeld c t)
    (hc : CanAssign c.gLimAssocStaLimit others t.pool)
    (hl : Learned true a (limAssignPeerIdx c.gLimAssocStaLimit others t.pool) t t') :
    StasHeld c t' := by
  obtain ⟨q, hq⟩ := h.queue
  obtain ⟨i, q', he, rfl, hq', has⟩ := hq.assign hc
  have hpool := hl.pool
  have hst := hl.station
  rw [he] at hpool hst
  rw [if_pos rfl] at hst
  refine ⟨hl.table, hl.size.trans h.size, ⟨q', hpool ▸ hq'⟩, fun j => ?_, hl.cache⟩
  rw [hpool, has, present_iff_station, hst]
  rcases eq_or_ne j i with rfl | hj
  · simp
  · rw [update_of_ne hj, update_of_ne hj, h.agree j, present_iff_station]

/-- **A new peer** is learned rightly exactly if an index is assigned and the station is added, or neither. -/
theorem learnPeer_step {b : IbssBeacon} {x : Nat} (hc : IbssCore c s l) (hcached : Cached s.stas)
    (hl : l.length + 1 < 2 ^ 8) (hx : s.peers.allocated x = false)
    (ha : b.sa ∉ l.map s.peers.addr) (others : Nat) (addStaOk : Bool) :
    ∃ s', learnPeer c others addStaOk s b x = some s' ∧
      Settles c s' (CanAssign c.gLimAssocStaLimit others s.stas.pool ↔ addStaOk = true) := by
  have hn : ∀ i, s.stas.dphHashTable.station i ≠ some b.sa := fun i hi => ha (hc.listed i _ hi)
  obtain ⟨s', hs', hp, haddr, hlearn⟩ :=
    learnPeer_spec hc.stas hc.peers hl hx ha hn others addStaOk
  have hlisted : ∀ a, a = b.sa ∨ a ∈ l.map s.peers.addr → a ∈ (x :: l).map s'.peers.addr := by
    rintro a (rfl | hm)
    · rw [haddr, map_cons, update_self]
      exact mem_cons_self
    · obtain ⟨y, hy, rfl⟩ := mem_map.1 hm
      have hyx : y ≠ x := by
        rintro rfl
        exact Bool.false_ne_true (hx.symm.trans (hc.peers.allocated y hy))
      refine mem_map.2 ⟨y, mem_cons_of_mem x hy, ?_⟩
      rw [haddr, update_of_ne hyx]
  have hfresh := hc.stas.assigned_fresh others
  refine ⟨s', hs', ?_⟩
  cases addStaOk with
  | true =>
    have hst := hlearn.station
    have hent := hlearn.entries
    rw [if_pos rfl] at hst hent
    rw [iff_true_right rfl]
    by_cases hcan : CanAssign c.gLimAssocStaLimit others s.stas.pool
    · refine IbssInv.settles ⟨⟨x :: l, hp, hlearn.held hc.stas hcan, fun i a hi => ?_, hl⟩,
        fun a hm => ?_⟩ hcan
      · refine hlisted a ?_
        rw [hst] at hi
        rcases eq_or_ne i (limAssignPeerIdx c.gLimAssocStaLimit others s.stas.pool).1 with rfl | hi'
        · rw [update_self] at hi
          exact Or.inl (some.inj hi).symm
        · rw [update_of_ne hi'] at hi
          exact Or.inr (hc.listed i a hi)
      · rw [hst]
        rcases hent hm with rfl | hm
        · exact ⟨_, update_self ..⟩
        · obtain ⟨i, hi⟩ := hcached a hm
          refine ⟨i, ?_⟩
          rw [update_of_ne]
          · exact hi
          · rintro rfl
            exact hfresh.2 (station_eq_some.1 hi).1
    · -- the entry has index 0, which nobody has assigned
      refine ⟨iff_of_false (fun hr => ?_) hcan, fun h => absurd h hcan⟩
      have hpool := hlearn.pool
      rw [limAssignPeerIdx_none hcan] at hst hpool
      have hzero : s'.stas.pool.assigned 0 = true := by
        rw [hr.indices, present_iff_station, hst, update_self]
        exact some_ne_none _
      rw [hpool] at hzero
      obtain ⟨q, hq⟩ := hc.stas.queue
      exact absurd (hq.assigned 0 hzero).1 (not_succ_le_zero 0)
  | false =>
    have hst : s'.stas.dphHashTable.station = s.stas.dphHashTable.station := hlearn.station
    have hent : s'.stas.prot.entries ⊆ s.stas.prot.entries := hlearn.entries
    have hnot : (CanAssign c.gLimAssocStaLimit others s.stas.pool ↔ false = true) ↔
        ¬ CanAssign c.gLimAssocStaLimit others s.stas.pool := by simp
    rw [hnot]
    by_cases hcan : CanAssign c.gLimAssocStaLimit others s.stas.pool
    · -- the index is lost
      refine ⟨iff_of_false (fun hr => ?_) (not_not.2 hcan), fun h => absurd hcan h⟩
      obtain ⟨q, hq⟩ := hc.stas.queue
      obtain ⟨i, q', he, rfl, -, has⟩ := hq.assign hcan
      have hpool := hlearn.pool
      rw [he] at hpool
      have hi : s'.stas.pool.assigned i = true := by
        rw [hpool, has, update_self]
      rw [hr.indices, present_iff_station, hst, ← present_iff_station] at hi
      rw [he] at hfresh
      exact hfresh.2 hi
    · have hpool := hlearn.pool
      rw [limAssignPeerIdx_none hcan] at hpool
      refine IbssInv.settles ⟨⟨x :: l, hp, ⟨hlearn.table, hlearn.size.trans hc.stas.size,
        hpool ▸ hc.stas.queue, fun i => ?_, hlearn.cache⟩, fun i a hi => ?_, hl⟩, fun a hm => ?_⟩ hcan
      · rw [hpool, present_iff_station, hst, ← present_iff_station]
        exact hc.stas.agree i
      · exact hlisted a (Or.inr (hc.listed i a (hst ▸ hi)))
      · rw [hst]
        exact hcached a (hent hm)

theorem limIbssCoalesce_step (h : IbssInv c s) {b : IbssBeacon} {mem : Option Nat}
    (hmem : ∀ x ∈ mem, s.peers.allocated x = false) (coalescing : Bool) (others : Nat)
    (addStaOk : Bool) : ∃ s', limIbssCoalesce c s b coalescing mem others addStaOk = some s' ∧
      Settles c s' (IbssEventOk c s (.coalesce b coalescing mem others addStaOk)) := by
  obtain ⟨⟨l, hc⟩, hcached⟩ := id h
  rw [limIbssCoalesce.eq_def, IbssEventOk]
  cases hb : b.otherBss with
  | true =>
    rw [if_pos rfl]
    simp only [Bool.true_eq_false, false_implies, and_true, true_implies]
    cases coalescing with
    | false => exact ⟨s, rfl, h.settles fun e => nomatch e⟩
    | true =>
      simp only [if_true, true_implies]
      rcases hc.peers.find hc.short b.sa with ⟨x, -, -, hf⟩ | ⟨hne, hf⟩
      · rw [hf]
        exact limIbssSearchAndDeletePeer_step h b.sa
      · rw [hf]
        refine ⟨s, rfl, h.settles (leaves_absent fun hm => ?_)⟩
        obtain ⟨i, hi⟩ := hcached b.sa hm
        exact hne (hc.listed i _ hi)
  | false =>
    rw [if_neg Bool.false_ne_true]
    simp only [Bool.false_eq_true, false_implies, true_and, true_implies]
    rcases hc.peers.find hc.short b.sa with ⟨x, -, -, hf⟩ | ⟨hne, hf⟩
    · obtain ⟨s', hs', hinv⟩ := ibssStaCapsUpdate_step h x
      rw [hf]
      exact ⟨s', hs', hinv.settles fun e => nomatch e⟩
    · rw [hf]
      simp only [true_implies, bind_eq_bind, bind_some]
      by_cases hlim : c.gLimIbssStaLimit ≤ inc32 s.peers.gLimNumIbssPeers
      · rw [if_pos hlim]
        exact ⟨s, rfl, h.settles fun hlt => absurd hlim (not_le.2 hlt)⟩
      · rw [if_neg hlim]
        have hlim := not_le.1 hlim
        cases mem with
        | none => exact ⟨s, rfl, h.settles fun _ e => nomatch e⟩
        | some x =>
          have hinc : inc32 s.peers.gLimNumIbssPeers = l.length + 1 := by
            rw [hc.peers.count]
            refine if_neg ?_
            have hs := hc.short
            omega
          have hl : l.length + 1 < 2 ^ 8 := hinc ▸ hlim.trans c.limit_byte
          obtain ⟨s', hs', hset⟩ :=
            learnPeer_step hc hcached hl (hmem x rfl) hne others addStaOk
          exact ⟨s', hs', by simpa [Settles, hlim] using hset⟩

/-- **One step**: it returns, and the law holds after it exactly under the condition. -/
theorem ibssCall_step (h : IbssInv c s) {e : IbssEvent} (he : e.Allowed s) :
    ∃ s', ibssCall c s e = some s' ∧ Settles c s' (IbssEventOk c s e) := by
  cases e with
  | coalesce b coalescing mem others addStaOk =>
    exact limIbssCoalesce_step h he coalescing others addStaOk
  | addStaRsp a success => exact limIbssAddStaRsp_step h a success
  | heartBeat active =>
    cases active with
    | true =>
      obtain ⟨s', hs', hset⟩ := limIbssHeartBeatHandle_step h
      exact ⟨s', hs', by simpa [IbssEventOk] using hset⟩
    | false => exact ⟨s, rfl, h.settles fun e => nomatch e⟩
  | peerInactivity a started =>
    cases started with
    | true =>
      obtain ⟨s', hs', hset⟩ := limIbssSearchAndDeletePeer_step h a
      exact ⟨s', hs', by simpa [IbssEventOk] using hset⟩
    | false => exact ⟨s, rfl, h.settles fun e => nomatch e⟩
  | deleteAllPeers => exact limIbssDeleteAllPeers_step h

/-! ### Runs -/

theorem LimIbss.Initial.inv (h : s.Initial c) : IbssInv c s := by
  obtain ⟨⟨hhead, hnum, hfreed⟩, ⟨hdph, hsize⟩, ⟨p, hp, hpool⟩, hcache⟩ := h
  have hnone : ∀ i, s.stas.dphHashTable.station i = none := by
    intro i
    rw [station_eq_none]
    intro hpres
    exact Bool.false_ne_true ((hdph.2 i).2.1.symm.trans hpres.2)
  have hslots : activeSlots s.stas.prot.protStaCache = ∅ :=
    Set.eq_empty_of_forall_notMem fun i hi => Bool.false_ne_true ((hcache i).symm.trans hi.2)
  have hq := limInitPeerIdxpool_free c.stations.1 c.stations.2 hp
  rw [← hpool] at hq
  refine ⟨⟨[], ⟨hhead, hnum, nodup_nil, fun x hx => absurd hx not_mem_nil, ?_⟩,
    ⟨hdph.inv.right, hsize, ⟨_, hq⟩, fun i => ?_, ?_⟩, fun i a hi => ?_, by decide⟩, fun a ha => ?_⟩
  · rw [hfreed]
    exact fun f hf => absurd hf not_mem_nil
  · rw [present_iff_station, hnone i]
    refine iff_of_false (fun hi => ?_) fun hn => hn rfl
    have hrange := hq.assigned i hi
    have hin : i ∈ range' 1 c.maxStation := by
      rw [mem_range'_1]
      omega
    rw [((hq.mem i).1 hin).2.2] at hi
    exact Bool.false_ne_true hi
  · rw [IbssProt.Distinct, hslots]
    exact Set.injOn_empty _
  · rw [hnone i] at hi
    cases hi
  · rw [IbssProt.entries, hslots, Set.image_empty] at ha
    exact absurd ha (Set.notMem_empty a)

theorem reach_ibssInv (h : (ibssMachine c).Reach (IbssEventOk c) s) : IbssInv c s := by
  refine h.invariant (IbssInv c) (fun s h => LimIbss.Initial.inv h) fun s e s' hinv hok hs => ?_
  obtain ⟨he, hs⟩ := guard_bind_eq_some.1 hs
  obtain ⟨s'', hs'', hset⟩ := ibssCall_step hinv he
  obtain rfl := some.inj (hs.symm.trans hs'')
  exact hset.2 hok

theorem reach_ibssCall (h : (ibssMachine c).Reach (IbssEventOk c) s) {e : IbssEvent}
    (he : e.Allowed s) :
    ∃ s', (ibssMachine c).step s e = some s' ∧ (IbssRight s' ↔ IbssEventOk c s e) := by
  obtain ⟨s', hs', hset⟩ := ibssCall_step (reach_ibssInv h) he
  exact ⟨s', guard_bind_eq_some.2 ⟨he, hs'⟩, hset.1⟩

/-- **The peers of an IBSS.**  Where all steps have met the condition, list, table, indices and cache agree; every step returns, and they agree after the next one exactly when it meets the condition too. -/
theorem ibss_peers_iff (c : IbssConfig) (s : LimIbss)
    (hs : (ibssMachine c).Reach (IbssEventOk c) s) :
    IbssRight s ∧ ∀ e : IbssEvent, e.Allowed s →
      ∃ s', (ibssMachine c).step s e = some s' ∧ (IbssRight s' ↔ IbssEventOk c s e) :=
  ⟨(reach_ibssInv hs).right, fun _ => reach_ibssCall hs⟩

end

def smallIbss : IbssConfig where
  gLimIbssStaLimit := 10
  gLimAssocStaLimit := 10
  maxStation := 3
  band24GHz := true
  phyMode11g := true
  htCapability := false
  dot11ModeHt := false
  fromllb := true
  protectionControl := true
  limit_byte := by decide
  stations := by decide

def freshIbss : LimIbss where
  peers := ⟨fun _ => ⟨none, .zero, 0, 0, false, false⟩, fun _ => false, none, 0, []⟩
  stas := {
    pool := limInitPeerIdxpool 3 ⟨fun _ => 0, 0, 0, 0, fun _ => false⟩
    dphHashTable := ⟨4, fun _ => none, fun i => ⟨none, .zero, i, false, false, 0⟩⟩
    caps := fun _ => ⟨false, false⟩
    prot := ⟨fun _ => ⟨false, .zero, .invalid⟩, 0, 0, false, false⟩ }

theorem freshIbss_initial : freshIbss.Initial smallIbss :=
  ⟨⟨rfl, rfl, rfl⟩, ⟨⟨by decide, fun _ => ⟨rfl, rfl, rfl⟩⟩, rfl⟩,
    ⟨_, fun _ => rfl, rfl⟩, fun _ => rfl⟩

def ibssBeacon (n : UInt8) (erpPresent : Bool) : IbssBeacon where
  sa := { SirMacAddr.zero with a5 := n }
  otherBss := false
  erpPresent := erpPresent
  htCapsPresent := false

/-- When the station cannot be added its index stays assigned, without an entry; and when an 11g peer has departed, the last one, its entry of the cache stays. -/
theorem failed_add_keeps_index :
    (∃ s, (ibssMachine smallIbss).run freshIbss
        [.coalesce (ibssBeacon 1 false) true (some 0) 0 false] = some s ∧
      s.stas.pool.assigned 1 = true ∧ ¬ s.stas.dphHashTable.Present 1 ∧ ¬ IbssRight s) ∧
    ∃ s, (ibssMachine smallIbss).run freshIbss
        [.coalesce (ibssBeacon 1 true) true (some 0) 0 true,
          .peerInactivity (ibssBeacon 1 true).sa true] = some s ∧
      s.peers.gLimIbssPeerList = none ∧ 0 ∈ activeSlots s.stas.prot.protStaCache ∧
        ¬ IbssRight s := by
  constructor
  · refine Machine.exists_run_of (q := fun s =>
      s.stas.pool.assigned 1 = true ∧ ¬ s.stas.dphHashTable.Present 1) (by decide +kernel) ?_
    rintro s ⟨hi, hn⟩
    exact ⟨hi, hn, fun hr => hn ((hr.indices 1).1 hi)⟩
  · refine Machine.exists_run_of (q := fun s => s.peers.gLimIbssPeerList = none ∧
      0 < limProtStaCacheSize ∧ (s.stas.prot.protStaCache 0).active = true) (by decide +kernel) ?_
    rintro s ⟨hhead, hi⟩
    have hi : 0 ∈ activeSlots s.stas.prot.protStaCache := hi
    refine ⟨hhead, hi, fun hr => ?_⟩
    have hempty := (hr.gone hhead).2
    rw [hempty] at hi
    exact Set.notMem_empty 0 hi

/-- Three 11b peers: one departs when it is seen in another BSS, one when it is inactive, and one because it is no longer heard. -/
theorem ibss_peers_iff_departed :
    ∃ s, (ibssMachine smallIbss).run freshIbss
        [.coalesce (ibssBeacon 1 false) true (some 0) 0 true,
          .coalesce (ibssBeacon 2 false) true (some 1) 0 true,
          .coalesce (ibssBeacon 3 false) true (some 2) 0 true,
          .addStaRsp (ibssBeacon 2 false).sa true, .heartBeat true,
          .coalesce { ibssBeacon 1 false with otherBss := true } true none 0 true,
          .peerInactivity (ibssBeacon 2 false).sa true, .heartBeat true] = some s ∧
      IbssRight s ∧ s.peers.gLimIbssPeerList = none :=
  Machine.exists_right (fun s hs => (ibss_peers_iff smallIbss s hs).1) freshIbss_initial
    (by decide +kernel) (by decide +kernel)

end Qcacld.Lim

import Qcacld.Support.Holders
import Qcacld.Support.Pointwise
import Qcacld.Support.Runs
import Qcacld.Txrx.PeerFind

/-!
# Txrx — PeerLife

The life of the peers: attach, map, unmap, detach and lookups in any order, with the map handler split where it has found a peer and not yet entered it, and an attach that waits for an older peer to go.

A peer's count is the number of those who hold a reference to it (`HoldsRef`): attach, the first id to come, each id mapped, the map handler, each lookup.  From this `peer_lifetime` reads off who is freed when, as long as a MAC address leads the map handler to the vdev it was told, an attach that has waited finds the older peer gone, and no lookup drops the last reference by a plain decrement.
-/

namespace Qcacld.Txrx
open Qcacld.Support Function List Nat TxrxPeer

/-! ### Runs -/

/-- A map message being handled: the peer has been found and a reference counted. -/
structure PeerMapping where
  peerId : Nat
  peer : Nat
  vdev : Nat
  macAddr : MacAddr

/-- The peers, the calls in progress and what the target has named. -/
structure PeerWorld where
  pdev : PeerPdev
  mapping : Option PeerMapping
  /-- the attach calls that wait -/
  attaching : List (Nat × MacAddr)
  /-- the peers lookups have a reference to, by lookup -/
  held : Nat → Option Nat
  /-- the vdev and address the target mapped each id for, until it unmaps it -/
  named : Nat → Option (Nat × MacAddr)
  /-- the peers the target has mapped an id for -/
  wasNamed : Nat → Bool

open PeerWorld

/-- What can happen to peers.  `plain` is a reference dropped by a decrement alone, as `ol_txrx_find_peer_by_addr` and `ol_txrx_peer_state_update` do. -/
inductive PeerEvent where
  | attach (vdev : Nat) (macAddr : MacAddr) (allocated : Bool)
  | attachResume (vdev : Nat) (macAddr : MacAddr) (allocated : Bool)
  | attachTimeout (vdev : Nat) (macAddr : MacAddr)
  | detach (peer : Nat)
  | mapFind (peerId vdev : Nat) (macAddr : MacAddr)
  | mapAdd
  | unmap (peerId : Nat)
  | lookup (ref : Nat) (vdev : Option Nat) (macAddr : MacAddr) (checkValid : Bool)
  | release (ref : Nat) (plain : Bool)

/-- The peer exists: it has been allocated and not been freed. -/
def PeerPdev.Live (s : PeerPdev) (peer : Nat) : Prop := peer < s.created ∧ peer ∉ s.freed
deriving Decidable

instance : LawfulBEq (Nat × MacAddr) := inferInstance

/-- One event.  The target maps an id that is not mapped, for a vdev and address a peer exists for, and unmaps an id that is; map and unmap messages are handled one after the other.  A peer is detached once. -/
def peerStep (idxBits : Nat) (s : PeerWorld) : PeerEvent → Option PeerWorld
  | .attach vdev macAddr allocated =>
    let (v, found) := peerAttachScan s.pdev.peers macAddr (s.pdev.vdevs vdev) .absent
      (s.pdev.vdevs vdev).peerList
    let pdev := s.pdev.setVdev vdev fun _ => v
    match found with
    | .present => some { s with pdev := pdev }
    | .leaving => some { s with pdev := pdev, attaching := (vdev, macAddr) :: s.attaching }
    | .absent => some { s with pdev := peerCreate idxBits pdev vdev macAddr allocated }
  | .attachResume vdev macAddr allocated => do
    guard ((vdev, macAddr) ∈ s.attaching ∧ 0 < (s.pdev.vdevs vdev).waitDeleteComp)
    let pdev := s.pdev.setVdev vdev fun v => { v with waitDeleteComp := v.waitDeleteComp - 1 }
    return { s with
      pdev := peerCreate idxBits pdev vdev macAddr allocated
      attaching := s.attaching.erase (vdev, macAddr) }
  | .attachTimeout vdev macAddr => do
    guard ((vdev, macAddr) ∈ s.attaching)
    return { s with
      pdev := s.pdev.setVdev vdev fun v => { v with waitOnPeerId := none }
      attaching := s.attaching.erase (vdev, macAddr) }
  | .detach peer => do
    guard (s.pdev.Live peer ∧ (s.pdev.peers peer).valid = true)
    return { s with pdev := olTxrxPeerDetach idxBits s.pdev peer }
  | .mapFind peerId vdev macAddr => do
    guard (s.mapping = none ∧ peerId ≠ httInvalidPeer ∧ s.named peerId = none ∧
      ∃ peer ∈ (s.pdev.vdevs vdev).peerList, (s.pdev.peers peer).macAddr = macAddr)
    match peerHashFind idxBits s.pdev none macAddr false with
    | none => return s
    | some peer => return { s with
        pdev := s.pdev.setPeer peer TxrxPeer.incRefCnt
        mapping := some ⟨peerId, peer, vdev, macAddr⟩ }
  | .mapAdd => do
    let m ← s.mapping
    return { s with
      pdev := peerFindAddId idxBits s.pdev m.peer m.peerId
      mapping := none
      named := update s.named m.peerId (some (m.vdev, m.macAddr))
      wasNamed := fun peer => s.wasNamed peer || decide (s.pdev.Live peer ∧
        (s.pdev.peers peer).vdev = m.vdev ∧ (s.pdev.peers peer).macAddr = m.macAddr) }
  | .unmap peerId => do
    guard (s.mapping = none ∧ s.named peerId ≠ none)
    return { s with
      pdev := olRxPeerUnmapHandler idxBits s.pdev peerId
      named := update s.named peerId none }
  | .lookup ref vdev macAddr checkValid => do
    guard (s.held ref = none)
    match peerHashFind idxBits s.pdev vdev macAddr checkValid with
    | none => return s
    | some peer => return { s with
        pdev := s.pdev.setPeer peer TxrxPeer.incRefCnt
        held := update s.held ref (some peer) }
  | .release ref plain => do
    let peer ← s.held ref
    return { s with
      pdev := if plain then s.pdev.setPeer peer TxrxPeer.decRefCnt
        else olTxrxPeerUnref idxBits s.pdev peer
      held := update s.held ref none }

def PeerWorld.start : PeerWorld where
  pdev := {
    peers := fun _ => ⟨0, ⟨0, 0, 0⟩, 0, false, false, [], none⟩
    created := 0
    freed := []
    bins := fun _ => []
    peerIdToObjMap := fun _ => none
    vdevs := fun _ => ⟨[], none, 0⟩
    localPeerIds := List.range 34 }
  mapping := none
  attaching := []
  held := fun _ => none
  named := fun _ => none
  wasNamed := fun _ => false

def peerMachine (idxBits : Nat) : Machine PeerWorld PeerEvent where
  init s := s = .start
  step := peerStep idxBits

/-! ### What must hold -/

/-- The peers are freed once, when they should be, and what leads to a peer leads to one that exists. -/
structure LifetimeOk (s : PeerWorld) : Prop where
  freed_once : s.pdev.freed.Nodup
  /-- a peer is freed exactly when it has been detached, an id was mapped for it, all its ids are unmapped and nobody holds a reference -/
  freed_iff : ∀ peer, peer ∈ s.pdev.freed ↔ peer < s.pdev.created ∧
    (s.pdev.peers peer).valid = false ∧ s.wasNamed peer = true ∧
    (∀ id, s.pdev.peerIdToObjMap id ≠ some peer) ∧ (∀ ref, s.held ref ≠ some peer) ∧
    ∀ m ∈ s.mapping, m.peer ≠ peer
  map_live : ∀ id peer, s.pdev.peerIdToObjMap id = some peer → s.pdev.Live peer
  hash_live : ∀ index, ∀ peer ∈ s.pdev.bins index, s.pdev.Live peer
  /-- each mapped id leads to the peer of the vdev and the address it was mapped for -/
  leads : ∀ id vdev macAddr, s.named id = some (vdev, macAddr) →
    ∃ peer, s.pdev.peerIdToObjMap id = some peer ∧
      (s.pdev.peers peer).vdev = vdev ∧ (s.pdev.peers peer).macAddr = macAddr
  /-- and there is only one -/
  alone : ∀ peer peer', s.pdev.Live peer → s.pdev.Live peer' →
    (s.pdev.peers peer).vdev = (s.pdev.peers peer').vdev →
    (s.pdev.peers peer).macAddr = (s.pdev.peers peer').macAddr → peer = peer'

/-- The address of a map message leads to a peer of its vdev; an attach that has waited finds no peer of its address on its vdev; and a plain decrement does not drop the last reference. -/
def PeerStepOk (idxBits : Nat) (s : PeerWorld) : PeerEvent → Prop
  | .mapFind _ vdev macAddr => ∀ peer ∈ peerHashFind idxBits s.pdev none macAddr false,
    (s.pdev.peers peer).vdev = vdev
  | .attachResume vdev macAddr _ => ∀ peer ∈ (s.pdev.vdevs vdev).peerList,
    (s.pdev.peers peer).macAddr ≠ macAddr
  | .release ref true => ∀ peer ∈ s.held ref, (s.pdev.peers peer).refCnt ≠ 1
  | _ => True

/-! ### The references -/

inductive PeerRef where
  | attach
  /-- the peer id that is still to come -/
  | firstId
  | peerId (id : Nat)
  | mapping
  | lookup (ref : Nat)
deriving DecidableEq

def HoldsRef (s : PeerWorld) (peer : Nat) : PeerRef → Prop
  | .attach => (s.pdev.peers peer).valid = true
  | .firstId => (s.pdev.peers peer).peerIds = []
  | .peerId id => s.pdev.peerIdToObjMap id = some peer
  | .mapping => ∃ m ∈ s.mapping, m.peer = peer
  | .lookup ref => s.held ref = some peer

/-- The tables hold the peers that exist, each in its place, and no two of one vdev have the same address. -/
structure PeerLinks (idxBits : Nat) (s : PeerPdev) : Prop where
  freed_once : s.freed.Nodup
  bins : ∀ index peer, peer ∈ s.bins index ↔ s.Live peer ∧
    olTxrxPeerFindHashIndex idxBits (s.peers peer).macAddr = index
  bins_nodup : ∀ index, (s.bins index).Nodup
  peerList : ∀ vdev peer, peer ∈ (s.vdevs vdev).peerList ↔ s.Live peer ∧ (s.peers peer).vdev = vdev
  peerList_nodup : ∀ vdev, (s.vdevs vdev).peerList.Nodup
  alone : ∀ peer peer', s.Live peer → s.Live peer' → (s.peers peer).vdev = (s.peers peer').vdev →
    (s.peers peer).macAddr = (s.peers peer').macAddr → peer = peer'

/-- The counts are right, but for one reference to `owed` that nobody holds any more. -/
structure PeerRefs (s : PeerWorld) (owed : Option Nat) : Prop where
  counts : ∀ peer < s.pdev.created, ∃ n, Counts (HoldsRef s peer) n ∧
    (s.pdev.peers peer).refCnt = n + if owed = some peer then 1 else 0
  freed_iff : ∀ peer, peer ∈ s.pdev.freed ↔ peer < s.pdev.created ∧ (s.pdev.peers peer).refCnt = 0
  /-- nobody refers to a peer that has not been allocated -/
  fresh : ∀ peer ref, HoldsRef s peer ref → peer < s.pdev.created ∨ ref = .attach ∨ ref = .firstId
  noId : ∀ peer < s.pdev.created, (s.pdev.peers peer).peerIds = [] →
    ∀ id, s.pdev.peerIdToObjMap id ≠ some peer
  wasNamed : ∀ peer, s.wasNamed peer = true ↔
    peer < s.pdev.created ∧ (s.pdev.peers peer).peerIds ≠ []
  named : ∀ id vdev macAddr, s.named id = some (vdev, macAddr) →
    ∃ peer, s.pdev.peerIdToObjMap id = some peer ∧
      (s.pdev.peers peer).vdev = vdev ∧ (s.pdev.peers peer).macAddr = macAddr
  unnamed : ∀ id, s.named id = none → s.pdev.peerIdToObjMap id = none
  mapping : ∀ m ∈ s.mapping, s.named m.peerId = none ∧
    (s.pdev.peers m.peer).vdev = m.vdev ∧ (s.pdev.peers m.peer).macAddr = m.macAddr

/-! ### One peer changed -/

section SetPeer
variable {idxBits : Nat} {s : PeerPdev} {peer : Nat} {f : TxrxPeer → TxrxPeer}

@[simp] theorem setPeer_freed : (s.setPeer peer f).freed = s.freed := rfl

@[simp] theorem setPeer_self : (s.setPeer peer f).peers peer = f (s.peers peer) :=
  update_self ..

theorem setPeer_of_ne {q : Nat} (h : q ≠ peer) : (s.setPeer peer f).peers q = s.peers q :=
  update_of_ne h ..

theorem setPeer_proj {α : Type} (g : TxrxPeer → α) (h : g (f (s.peers peer)) = g (s.peers peer))
    (q : Nat) : g ((s.setPeer peer f).peers q) = g (s.peers q) := by
  by_cases hq : q = peer
  · rw [hq, setPeer_self, h]
  · rw [setPeer_of_ne hq]

theorem PeerLinks.congr {s' : PeerPdev} (h : PeerLinks idxBits s) (hc : s'.created = s.created)
    (hf : s'.freed = s.freed) (hb : s'.bins = s.bins)
    (hl : ∀ v, (s'.vdevs v).peerList = (s.vdevs v).peerList)
    (hv : ∀ p, (s'.peers p).vdev = (s.peers p).vdev)
    (hm : ∀ p, (s'.peers p).macAddr = (s.peers p).macAddr) : PeerLinks idxBits s' := by
  have hlive : ∀ p, s'.Live p ↔ s.Live p := fun p => by
    rw [PeerPdev.Live, PeerPdev.Live, hc, hf]
  constructor
  · rw [hf]
    exact h.freed_once
  · intro index p
    rw [hb, hlive, hm]
    exact h.bins index p
  · rw [hb]
    exact h.bins_nodup
  · intro v p
    rw [hl, hlive, hv]
    exact h.peerList v p
  · intro v
    rw [hl]
    exact h.peerList_nodup v
  · intro p q
    rw [hlive, hlive, hv, hv, hm, hm]
    exact h.alone p q

theorem PeerLinks.setPeer (h : PeerLinks idxBits s)
    (hv : (f (s.peers peer)).vdev = (s.peers peer).vdev)
    (hm : (f (s.peers peer)).macAddr = (s.peers peer).macAddr) :
    PeerLinks idxBits (s.setPeer peer f) :=
  h.congr rfl rfl rfl (fun _ => rfl) (setPeer_proj vdev hv) (setPeer_proj macAddr hm)

theorem peerDelete_peers : (peerDelete idxBits s peer).peers =
    (s.setPeer peer fun p => { p with deleteInProgress := false }).peers := rfl

theorem peerDelete_bins : (peerDelete idxBits s peer).bins =
    update s.bins (olTxrxPeerFindHashIndex idxBits (s.peers peer).macAddr)
      ((s.bins (olTxrxPeerFindHashIndex idxBits (s.peers peer).macAddr)).erase peer) := rfl

theorem peerDelete_peerList (v : Nat) : ((peerDelete idxBits s peer).vdevs v).peerList =
    if v = (s.peers peer).vdev then (s.vdevs v).peerList.erase peer else (s.vdevs v).peerList := by
  have hv : ((s.setPeer peer fun p => { p with deleteInProgress := false }).peers peer).vdev =
      (s.peers peer).vdev := by
    rw [setPeer_self]
  dsimp only [peerDelete, PeerPdev.setVdev]
  by_cases h : v = (s.peers peer).vdev
  · subst h
    rw [if_pos rfl]
    erw [hv, update_self]
    split_ifs <;> rfl
  · rw [if_neg h]
    erw [hv, update_of_ne h]
    rfl

theorem PeerLinks.delete (h : PeerLinks idxBits s) (hl : s.Live peer) :
    PeerLinks idxBits (peerDelete idxBits s peer) := by
  have hv : ∀ p, ((peerDelete idxBits s peer).peers p).vdev = (s.peers p).vdev := by
    rw [peerDelete_peers]
    exact setPeer_proj vdev rfl
  have hm : ∀ p, ((peerDelete idxBits s peer).peers p).macAddr = (s.peers p).macAddr := by
    rw [peerDelete_peers]
    exact setPeer_proj macAddr rfl
  have hlive : ∀ p, (peerDelete idxBits s peer).Live p ↔ p ≠ peer ∧ s.Live p := by
    intro p
    change p < s.created ∧ p ∉ s.freed ++ [peer] ↔ p ≠ peer ∧ p < s.created ∧ p ∉ s.freed
    rw [mem_append, mem_singleton]
    tauto
  constructor
  · exact nodup_append.2 ⟨h.freed_once, nodup_singleton peer, by
      rintro p hp _ hq rfl
      exact hl.2 (mem_singleton.1 hq ▸ hp)⟩
  · intro index p
    rw [hlive, hm, peerDelete_bins]
    by_cases hi : index = olTxrxPeerFindHashIndex idxBits (s.peers peer).macAddr
    · subst hi
      rw [update_self, (h.bins_nodup _).mem_erase_iff, h.bins, and_assoc]
    · rw [update_of_ne hi, h.bins]
      constructor
      · rintro ⟨hp, rfl⟩
        exact ⟨⟨fun he => hi (he ▸ rfl), hp⟩, rfl⟩
      · rintro ⟨⟨-, hp⟩, he⟩
        exact ⟨hp, he⟩
  · intro index
    rw [peerDelete_bins]
    by_cases hi : index = olTxrxPeerFindHashIndex idxBits (s.peers peer).macAddr
    · subst hi
      rw [update_self]
      exact (h.bins_nodup _).erase peer
    · rw [update_of_ne hi]
      exact h.bins_nodup index
  · intro v p
    rw [hlive, hv, peerDelete_peerList]
    by_cases hi : v = (s.peers peer).vdev
    · rw [if_pos hi, (h.peerList_nodup v).mem_erase_iff, h.peerList, and_assoc]
    · rw [if_neg hi, h.peerList]
      constructor
      · rintro ⟨hp, rfl⟩
        exact ⟨⟨fun he => hi (he ▸ rfl), hp⟩, rfl⟩
      · rintro ⟨⟨-, hp⟩, he⟩
        exact ⟨hp, he⟩
  · intro v
    rw [peerDelete_peerList]
    split_ifs
    · exact (h.peerList_nodup v).erase peer
    · exact h.peerList_nodup v
  · intro p q hp hq
    rw [hv, hv, hm, hm]
    exact h.alone p q ((hlive p).1 hp).2 ((hlive q).1 hq).2

section Create
variable {vdev : Nat} {macAddr : MacAddr}

theorem peerCreate_of_ne {p : Nat} (h : p ≠ s.created) :
    (peerCreate idxBits s vdev macAddr true).peers p = s.peers p :=
  update_of_ne h ..

theorem peerCreate_self : (peerCreate idxBits s vdev macAddr true).peers s.created = {
    vdev := vdev, macAddr := macAddr, refCnt := 2, valid := true, deleteInProgress := false
    peerIds := [], localId := s.localPeerIds.head? } :=
  update_self ..

theorem peerCreate_live (hf : ∀ p ∈ s.freed, p < s.created) (p : Nat) :
    (peerCreate idxBits s vdev macAddr true).Live p ↔ p = s.created ∨ s.Live p := by
  change p < s.created + 1 ∧ p ∉ s.freed ↔ p = s.created ∨ p < s.created ∧ p ∉ s.freed
  constructor
  · rintro ⟨hlt, hp⟩
    rcases Nat.lt_succ_iff_lt_or_eq.1 hlt with hlt | rfl
    · exact .inr ⟨hlt, hp⟩
    · exact .inl rfl
  · rintro (rfl | ⟨hlt, hp⟩)
    · exact ⟨lt_succ_self _, fun hp => lt_irrefl _ (hf _ hp)⟩
    · exact ⟨lt_succ_of_lt hlt, hp⟩

theorem peerCreate_peerList (v : Nat) :
    ((peerCreate idxBits s vdev macAddr true).vdevs v).peerList =
      (s.vdevs v).peerList ++ if v = vdev then [s.created] else [] := by
  change (update s.vdevs vdev _ v).peerList = _
  by_cases h : v = vdev
  · subst h
    rw [update_self, if_pos rfl]
  · rw [update_of_ne h, if_neg h, append_nil]

theorem peerCreate_bins (index : Nat) : (peerCreate idxBits s vdev macAddr true).bins index =
    s.bins index ++
      if index = olTxrxPeerFindHashIndex idxBits macAddr then [s.created] else [] := by
  change update s.bins (olTxrxPeerFindHashIndex idxBits macAddr) _ index = _
  by_cases h : index = olTxrxPeerFindHashIndex idxBits macAddr
  · subst h
    rw [update_self, if_pos rfl]
    rfl
  · rw [update_of_ne h, if_neg h, append_nil]

theorem mem_ite_singleton {α : Type} {c : Prop} [Decidable c] {a b : α} :
    a ∈ (if c then [b] else []) ↔ c ∧ a = b := by
  split_ifs with h <;> simp [h]

theorem nodup_append_ite {α : Type} {c : Prop} [Decidable c] {l : List α} {b : α}
    (hl : l.Nodup) (hb : b ∉ l) : (l ++ if c then [b] else []).Nodup := by
  split_ifs
  · exact nodup_append.2 ⟨hl, nodup_singleton b, fun x hx y hy => by
      rintro rfl
      exact hb (mem_singleton.1 hy ▸ hx)⟩
  · rwa [append_nil]

theorem PeerLinks.create (h : PeerLinks idxBits s) (hf : ∀ p ∈ s.freed, p < s.created)
    (hnone : ∀ p ∈ (s.vdevs vdev).peerList, (s.peers p).macAddr ≠ macAddr) :
    PeerLinks idxBits (peerCreate idxBits s vdev macAddr true) := by
  have hne : ∀ {p}, s.Live p → p ≠ s.created := fun hp => hp.1.ne
  have halone : ∀ q, s.Live q → (s.peers q).vdev = vdev → (s.peers q).macAddr ≠ macAddr :=
    fun q hq hv => hnone q ((h.peerList vdev q).2 ⟨hq, hv⟩)
  constructor
  · exact h.freed_once
  · intro index p
    rw [peerCreate_bins, peerCreate_live hf, mem_append, mem_ite_singleton, h.bins]
    by_cases hp : p = s.created
    · subst hp
      rw [peerCreate_self]
      have hdead : ¬ s.Live s.created := fun h => hne h rfl
      simp only [hdead, false_and, false_or, true_or, true_and, and_true]
      exact eq_comm
    · rw [peerCreate_of_ne hp]
      simp [hp]
  · intro index
    rw [peerCreate_bins]
    exact nodup_append_ite (h.bins_nodup index) fun hm => hne ((h.bins _ _).1 hm).1 rfl
  · intro v p
    rw [peerCreate_peerList, peerCreate_live hf, mem_append, mem_ite_singleton, h.peerList]
    by_cases hp : p = s.created
    · subst hp
      rw [peerCreate_self]
      have hdead : ¬ s.Live s.created := fun h => hne h rfl
      simp only [hdead, false_and, false_or, true_or, true_and, and_true]
      exact eq_comm
    · rw [peerCreate_of_ne hp]
      simp [hp]
  · intro v
    rw [peerCreate_peerList]
    exact nodup_append_ite (h.peerList_nodup v) fun hm => hne ((h.peerList _ _).1 hm).1 rfl
  · intro p q hp hq
    rcases (peerCreate_live hf p).1 hp with rfl | hp <;>
      rcases (peerCreate_live hf q).1 hq with rfl | hq
    · exact fun _ _ => rfl
    · rw [peerCreate_self, peerCreate_of_ne (hne hq)]
      exact fun hv hm => absurd hm.symm (halone q hq hv.symm)
    · rw [peerCreate_self, peerCreate_of_ne (hne hp)]
      exact fun hv hm => absurd hm (halone p hp hv)
    · rw [peerCreate_of_ne (hne hp), peerCreate_of_ne (hne hq)]
      exact h.alone p q hp hq

end Create

/-- What dropping a reference leaves alone in a peer. -/
def TxrxPeer.fixed (peer : TxrxPeer) : Nat × MacAddr × Bool × List Nat :=
  (peer.vdev, peer.macAddr, peer.valid, peer.peerIds)

/-- Dropping a reference: the count goes down by one, and the peer is freed if that was the last. -/
theorem olTxrxPeerUnref_spec (h0 : (s.peers peer).refCnt ≠ 0) :
    let s' := olTxrxPeerUnref idxBits s peer
    s'.created = s.created ∧ s'.peerIdToObjMap = s.peerIdToObjMap ∧
      (∀ q, (s'.peers q).fixed = (s.peers q).fixed) ∧
      (∀ q, (s'.peers q).refCnt + (if q = peer then 1 else 0) = (s.peers q).refCnt) ∧
      s'.freed = s.freed ++ if (s.peers peer).refCnt = 1 then [peer] else [] := by
  have hdec : ∀ q, ((s.setPeer peer decRefCnt).peers q).refCnt +
      (if q = peer then 1 else 0) = (s.peers q).refCnt := by
    intro q
    by_cases hq : q = peer
    · subst hq
      rw [setPeer_self, if_pos rfl]
      exact Nat.sub_add_cancel (Nat.pos_of_ne_zero h0)
    · rw [setPeer_of_ne hq, if_neg hq, add_zero]
  have hfixed : ∀ q, ((s.setPeer peer decRefCnt).peers q).fixed = (s.peers q).fixed :=
    setPeer_proj fixed rfl
  have hzero : ((s.setPeer peer decRefCnt).peers peer).refCnt = 0 ↔ (s.peers peer).refCnt = 1 := by
    have := hdec peer
    rw [if_pos rfl] at this
    omega
  dsimp only
  rw [olTxrxPeerUnref, if_neg h0]
  by_cases h1 : (s.peers peer).refCnt = 1
  · rw [if_pos (hzero.2 h1), if_pos h1]
    refine ⟨rfl, rfl, fun q => ?_, fun q => ?_, rfl⟩
    · rw [peerDelete_peers, setPeer_proj fixed rfl]
      exact hfixed q
    · rw [peerDelete_peers, setPeer_proj refCnt rfl]
      exact hdec q
  · rw [if_neg (mt hzero.1 h1), if_neg h1, append_nil]
    exact ⟨rfl, rfl, hfixed, hdec, rfl⟩

theorem PeerLinks.unref (h : PeerLinks idxBits s) (hl : s.Live peer) :
    PeerLinks idxBits (olTxrxPeerUnref idxBits s peer) := by
  have hs : PeerLinks idxBits (s.setPeer peer decRefCnt) := h.setPeer rfl rfl
  dsimp only [olTxrxPeerUnref]
  split_ifs
  · exact h
  · exact hs.delete hl
  · exact hs

end SetPeer

/-! ### The counts -/

section Refs
variable {s s' : PeerWorld} {owed : Option Nat} {peer : Nat} {t : PeerRef}

theorem PeerRefs.lt_of_freed (h : PeerRefs s owed) : ∀ p ∈ s.pdev.freed, p < s.pdev.created :=
  fun p hp => ((h.freed_iff p).1 hp).1

theorem PeerRefs.live_iff (h : PeerRefs s owed) (p : Nat) :
    s.pdev.Live p ↔ p < s.pdev.created ∧ (s.pdev.peers p).refCnt ≠ 0 := by
  rw [PeerPdev.Live, h.freed_iff]
  tauto

theorem PeerRefs.live_of_holds (h : PeerRefs s owed) (ht : HoldsRef s peer t)
    (hta : t ≠ .attach) (htf : t ≠ .firstId) : s.pdev.Live peer := by
  have hlt : peer < s.pdev.created := by
    rcases h.fresh peer t ht with hlt | he | he
    · exact hlt
    · exact absurd he hta
    · exact absurd he htf
  obtain ⟨n, hn, hc⟩ := h.counts peer hlt
  have := hn.pos ht
  exact (h.live_iff peer).2 ⟨hlt, by omega⟩

theorem HoldsRef.congr {q : Nat} (hf : (s'.pdev.peers q).fixed = (s.pdev.peers q).fixed)
    (hm : s'.pdev.peerIdToObjMap = s.pdev.peerIdToObjMap) (hh : s'.held = s.held)
    (hp : s'.mapping = s.mapping) (u : PeerRef) : HoldsRef s' q u ↔ HoldsRef s q u := by
  obtain ⟨-, hf⟩ := Prod.mk.inj hf
  obtain ⟨-, hf⟩ := Prod.mk.inj hf
  obtain ⟨hv, hi⟩ := Prod.mk.inj hf
  cases u with
  | attach => simp only [HoldsRef, hv]
  | firstId => simp only [HoldsRef, hi]
  | peerId id => simp only [HoldsRef, hm]
  | mapping => simp only [HoldsRef, hp]
  | lookup ref => simp only [HoldsRef, hh]

theorem PeerRefs.recount {pdev : PeerPdev} {owed' : Option Nat} (h : PeerRefs s owed)
    (hc : pdev.created = s.pdev.created) (hm : pdev.peerIdToObjMap = s.pdev.peerIdToObjMap)
    (hf : ∀ q, (pdev.peers q).fixed = (s.pdev.peers q).fixed)
    (hn : ∀ q, (pdev.peers q).refCnt + (if owed = some q then 1 else 0) =
      (s.pdev.peers q).refCnt + if owed' = some q then 1 else 0)
    (hfreed : ∀ q, q ∈ pdev.freed ↔ q < s.pdev.created ∧ (pdev.peers q).refCnt = 0) :
    PeerRefs { s with pdev := pdev } owed' := by
  have hholds : ∀ q u, HoldsRef { s with pdev := pdev } q u ↔ HoldsRef s q u :=
    fun q => HoldsRef.congr (hf q) hm rfl rfl
  have hv : ∀ q, (pdev.peers q).vdev = (s.pdev.peers q).vdev :=
    fun q => (Prod.mk.inj (hf q)).1
  have hmac : ∀ q, (pdev.peers q).macAddr = (s.pdev.peers q).macAddr :=
    fun q => (Prod.mk.inj (Prod.mk.inj (hf q)).2).1
  have hids : ∀ q, (pdev.peers q).peerIds = (s.pdev.peers q).peerIds :=
    fun q => (Prod.mk.inj (Prod.mk.inj (Prod.mk.inj (hf q)).2).2).2
  constructor
  · intro q hq
    obtain ⟨n, hn', he⟩ := h.counts q (hc ▸ hq)
    refine ⟨n, hn'.congr (hholds q), ?_⟩
    have := hn q
    dsimp only
    omega
  · intro q
    dsimp only
    rw [hc]
    exact hfreed q
  · intro q u hu
    dsimp only
    rw [hc]
    exact h.fresh q u ((hholds q u).1 hu)
  · intro q hq
    dsimp only at hq ⊢
    rw [hids, hm]
    exact h.noId q (hc ▸ hq)
  · intro q
    dsimp only
    rw [hc, hids]
    exact h.wasNamed q
  · intro id v m hid
    dsimp only
    rw [hm]
    obtain ⟨q, hq, hqv, hqm⟩ := h.named id v m hid
    exact ⟨q, hq, (hv q).trans hqv, (hmac q).trans hqm⟩
  · intro id hid
    dsimp only
    rw [hm]
    exact h.unnamed id hid
  · intro m hmem
    dsimp only
    rw [hv, hmac]
    exact h.mapping m hmem

theorem PeerRefs.unref {idxBits : Nat} (h : PeerRefs s (some peer)) (hp : peer < s.pdev.created) :
    PeerRefs { s with pdev := olTxrxPeerUnref idxBits s.pdev peer } none := by
  have h0 : (s.pdev.peers peer).refCnt ≠ 0 := by
    obtain ⟨n, -, hn⟩ := h.counts peer hp
    rw [if_pos rfl] at hn
    omega
  obtain ⟨hc, hm, hf, hn, hfreed⟩ := @olTxrxPeerUnref_spec idxBits _ _ h0
  refine h.recount hc hm hf (fun q => ?_) fun q => ?_
  · have := hn q
    by_cases hq : q = peer
    · subst hq
      simpa using this
    · rw [if_neg hq] at this
      rw [if_neg fun he => hq (Option.some.inj he).symm, if_neg (fun h => by cases h)]
      exact this
  · have hnq := hn q
    rw [hfreed, mem_append, h.freed_iff, mem_ite_singleton]
    by_cases hq : q = peer
    · subst hq
      rw [if_pos rfl] at hnq
      simp only [hp, true_and, and_true]
      omega
    · rw [if_neg hq, add_zero] at hnq
      simp [hq, hnq]

/-- The reference nobody holds any more is dropped by a decrement alone, when it is not the last. -/
theorem PeerRefs.decRefCnt (h : PeerRefs s (some peer)) (hp : peer < s.pdev.created)
    (h1 : (s.pdev.peers peer).refCnt ≠ 1) :
    PeerRefs { s with pdev := s.pdev.setPeer peer TxrxPeer.decRefCnt } none := by
  have hpos : (s.pdev.peers peer).refCnt ≠ 0 := by
    obtain ⟨n, -, hn⟩ := h.counts peer hp
    rw [if_pos rfl] at hn
    omega
  refine h.recount rfl rfl (setPeer_proj fixed rfl) (fun q => ?_) fun q => ?_
  · by_cases hq : q = peer
    · subst hq
      rw [setPeer_self, if_pos rfl, if_neg (fun h => by cases h)]
      exact Nat.sub_add_cancel (Nat.pos_of_ne_zero hpos)
    · rw [setPeer_of_ne hq, if_neg fun he => hq (Option.some.inj he).symm, if_neg (fun h => by cases h)]
  · rw [setPeer_freed, h.freed_iff]
    by_cases hq : q = peer
    · subst hq
      rw [setPeer_self]
      change _ ↔ _ ∧ (s.pdev.peers q).refCnt - 1 = 0
      omega
    · rw [setPeer_of_ne hq]

theorem PeerRefs.take (h : PeerRefs s none) {mapping : Option PeerMapping}
    {held : Nat → Option Nat} (hl : s.pdev.Live peer) (ht : ¬ HoldsRef s peer t)
    (hself : ∀ q u, HoldsRef { s with mapping := mapping, held := held } q u ↔
      (q = peer ∧ u = t) ∨ HoldsRef s q u)
    (hmap : ∀ m ∈ mapping, s.named m.peerId = none ∧
      (s.pdev.peers m.peer).vdev = m.vdev ∧ (s.pdev.peers m.peer).macAddr = m.macAddr) :
    PeerRefs { s with
      pdev := s.pdev.setPeer peer TxrxPeer.incRefCnt, mapping := mapping, held := held } none := by
  have hf : ∀ q, ((s.pdev.setPeer peer incRefCnt).peers q).fixed =
      (s.pdev.peers q).fixed := setPeer_proj fixed rfl
  have hholds : ∀ q u, HoldsRef { s with
      pdev := s.pdev.setPeer peer incRefCnt, mapping := mapping, held := held } q u ↔
        (q = peer ∧ u = t) ∨ HoldsRef s q u := by
    intro q u
    rw [← hself q u]
    apply HoldsRef.congr
    · exact hf q
    · rfl
    · rfl
    · rfl
  constructor
  · intro q hq
    obtain ⟨n, hn, hc⟩ := h.counts q hq
    by_cases hqp : q = peer
    · subst hqp
      refine ⟨n + 1, hn.take ht fun u => ?_, ?_⟩
      · rw [hholds]
        simp
      · change ((s.pdev.setPeer q incRefCnt).peers q).refCnt = _
        rw [setPeer_self]
        exact congrArg (· + 1) hc
    · refine ⟨n, hn.congr fun u => ?_, ?_⟩
      · rw [hholds]
        simp [hqp]
      · change ((s.pdev.setPeer peer incRefCnt).peers q).refCnt = _
        rw [setPeer_of_ne hqp]
        exact hc
  · intro q
    change q ∈ s.pdev.freed ↔ q < s.pdev.created ∧
      ((s.pdev.setPeer peer incRefCnt).peers q).refCnt = 0
    by_cases hqp : q = peer
    · subst hqp
      rw [setPeer_self]
      exact iff_of_false hl.2 fun h => succ_ne_zero _ h.2
    · rw [setPeer_of_ne hqp]
      exact h.freed_iff q
  · intro q u hu
    rcases (hholds q u).1 hu with ⟨rfl, rfl⟩ | hu
    · exact .inl hl.1
    · exact h.fresh q u hu
  · intro q hq
    change ((s.pdev.setPeer peer incRefCnt).peers q).peerIds = [] → _
    rw [setPeer_proj peerIds rfl]
    exact h.noId q hq
  · intro q
    change _ ↔ _ ∧ ((s.pdev.setPeer peer incRefCnt).peers q).peerIds ≠ []
    rw [setPeer_proj peerIds rfl]
    exact h.wasNamed q
  · intro id v m hid
    obtain ⟨q, hq, hqv, hqm⟩ := h.named id v m hid
    exact ⟨q, hq, (setPeer_proj vdev rfl q).trans hqv, (setPeer_proj macAddr rfl q).trans hqm⟩
  · exact h.unnamed
  · intro m hm
    obtain ⟨hn, hv, hmac⟩ := hmap m hm
    exact ⟨hn, (setPeer_proj vdev rfl _).trans hv, (setPeer_proj macAddr rfl _).trans hmac⟩

theorem PeerRefs.counts_drop (h : PeerRefs s none) (ht : HoldsRef s peer t)
    (hcr : s'.pdev.created = s.pdev.created) (hc : ∀ q, (s'.pdev.peers q).refCnt = (s.pdev.peers q).refCnt)
    (hself : ∀ q u, HoldsRef s' q u ↔ ¬ (q = peer ∧ u = t) ∧ HoldsRef s q u) :
    ∀ q < s'.pdev.created, ∃ n, Counts (HoldsRef s' q) n ∧
      (s'.pdev.peers q).refCnt = n + if some peer = some q then 1 else 0 := by
  intro q hq
  obtain ⟨n, hn, he⟩ := h.counts q (hcr ▸ hq)
  rw [if_neg (fun h => by cases h)] at he
  rw [hc]
  by_cases hqp : q = peer
  · subst hqp
    obtain ⟨m, rfl, hm⟩ := hn.drop ht (S := HoldsRef s' q) fun u => by rw [hself]; simp
    exact ⟨m, hm, by rw [if_pos rfl]; exact he⟩
  · refine ⟨n, hn.congr fun u => ?_, ?_⟩
    · rw [hself]
      simp [hqp]
    · rw [if_neg fun h => hqp (Option.some.inj h).symm]
      exact he

theorem PeerRefs.dropLookup {ref : Nat} (h : PeerRefs s none) (hr : s.held ref = some peer) :
    PeerRefs { s with held := update s.held ref none } (some peer) := by
  have hholds : ∀ q u, HoldsRef { s with held := update s.held ref none } q u ↔
      ¬ (q = peer ∧ u = .lookup ref) ∧ HoldsRef s q u := by
    intro q u
    cases u with
    | lookup ref' => exact (update_none_eq_some_iff hr).trans (by rw [PeerRef.lookup.injEq]; rfl)
    | attach => simp [HoldsRef]
    | firstId => simp [HoldsRef]
    | peerId id => simp [HoldsRef]
    | mapping => simp [HoldsRef]
  exact ⟨h.counts_drop (t := .lookup ref) hr rfl (fun _ => rfl) hholds, h.freed_iff,
    fun q u hu => h.fresh q u ((hholds q u).1 hu).2, h.noId, h.wasNamed, h.named, h.unnamed,
    h.mapping⟩

theorem PeerRefs.dropId {id : Nat} (h : PeerRefs s none)
    (hr : s.pdev.peerIdToObjMap id = some peer) (hm : s.mapping = none) :
    PeerRefs { s with
      pdev := { s.pdev with peerIdToObjMap := update s.pdev.peerIdToObjMap id none }
      named := update s.named id none } (some peer) := by
  have hholds : ∀ q u, HoldsRef { s with
      pdev := { s.pdev with peerIdToObjMap := update s.pdev.peerIdToObjMap id none }
      named := update s.named id none } q u ↔ ¬ (q = peer ∧ u = .peerId id) ∧ HoldsRef s q u := by
    intro q u
    cases u with
    | peerId id' => exact (update_none_eq_some_iff hr).trans (by rw [PeerRef.peerId.injEq]; rfl)
    | attach => simp [HoldsRef]
    | firstId => simp [HoldsRef]
    | mapping => simp [HoldsRef]
    | lookup ref => simp [HoldsRef]
  constructor
  · exact h.counts_drop (t := .peerId id) hr rfl (fun _ => rfl) hholds
  · exact h.freed_iff
  · exact fun q u hu => h.fresh q u ((hholds q u).1 hu).2
  · exact fun q hq hnil id' hq' => h.noId q hq hnil id' (update_none_eq_some.1 hq').2
  · exact h.wasNamed
  · intro id' v m hid
    obtain ⟨hne, hid⟩ := update_none_eq_some.1 hid
    obtain ⟨q, hq, hq'⟩ := h.named id' v m hid
    exact ⟨q, update_none_eq_some.2 ⟨hne, hq⟩, hq'⟩
  · exact fun id' hid => update_none_eq_none.2 ((update_none_eq_none.1 hid).imp_right (h.unnamed id'))
  · intro m hmem
    rw [hm] at hmem
    cases hmem

theorem peerMarkDeleted_peers (s : PeerPdev) (peer : Nat) : (peerMarkDeleted s peer).peers =
    (s.setPeer peer fun p => { p with valid := false, deleteInProgress := true }).peers := rfl

theorem peerMarkDeleted_proj {α : Type} (g : TxrxPeer → α) (s : PeerPdev) (peer : Nat)
    (hg : ∀ p : TxrxPeer, g { p with valid := false, deleteInProgress := true } = g p) (q : Nat) :
    g ((peerMarkDeleted s peer).peers q) = g (s.peers q) := by
  rw [peerMarkDeleted_peers]
  exact setPeer_proj g (hg _) q

theorem peerMarkDeleted_valid {s : PeerPdev} (q : Nat) :
    ((peerMarkDeleted s peer).peers q).valid = true ↔ q ≠ peer ∧ (s.peers q).valid = true := by
  rw [peerMarkDeleted_peers]
  by_cases hq : q = peer
  · subst hq
    rw [setPeer_self]
    simp
  · rw [setPeer_of_ne hq]
    simp [hq]

theorem PeerRefs.dropAttach (h : PeerRefs s none) (hv : (s.pdev.peers peer).valid = true) :
    PeerRefs { s with pdev := peerMarkDeleted s.pdev peer } (some peer) := by
  have hcnt := peerMarkDeleted_proj refCnt s.pdev peer fun _ => rfl
  have hids := peerMarkDeleted_proj peerIds s.pdev peer fun _ => rfl
  have hvdev := peerMarkDeleted_proj vdev s.pdev peer fun _ => rfl
  have hmac := peerMarkDeleted_proj macAddr s.pdev peer fun _ => rfl
  have hholds : ∀ q u, HoldsRef { s with pdev := peerMarkDeleted s.pdev peer } q u ↔
      ¬ (q = peer ∧ u = .attach) ∧ HoldsRef s q u := by
    intro q u
    cases u with
    | attach =>
      change ((peerMarkDeleted s.pdev peer).peers q).valid = true ↔ _
      rw [peerMarkDeleted_valid]
      simp [HoldsRef]
    | firstId =>
      change ((peerMarkDeleted s.pdev peer).peers q).peerIds = [] ↔ _
      rw [hids]
      simp [HoldsRef]
    | peerId id =>
      change s.pdev.peerIdToObjMap id = some q ↔ _
      simp [HoldsRef]
    | mapping => simp [HoldsRef]
    | lookup ref => simp [HoldsRef]
  constructor
  · exact h.counts_drop (t := .attach) hv rfl hcnt hholds
  · intro q
    exact (h.freed_iff q).trans (and_congr_right' (by rw [hcnt]))
  · exact fun q u hu => h.fresh q u ((hholds q u).1 hu).2
  · exact fun q hq hnil => h.noId q hq ((hids q).symm.trans hnil)
  · intro q
    exact (h.wasNamed q).trans (and_congr_right' (not_congr (by rw [hids])))
  · intro id v m hid
    obtain ⟨q, hq, hqv, hqm⟩ := h.named id v m hid
    exact ⟨q, hq, (hvdev q).trans hqv, (hmac q).trans hqm⟩
  · exact h.unnamed
  · intro m hm
    obtain ⟨hn, hmv, hmm⟩ := h.mapping m hm
    exact ⟨hn, (hvdev _).trans hmv, (hmac _).trans hmm⟩

theorem PeerRefs.create {idxBits vdev : Nat} {macAddr : MacAddr} (h : PeerRefs s none) :
    PeerRefs { s with pdev := peerCreate idxBits s.pdev vdev macAddr true } none := by
  have hholds : ∀ q u, q ≠ s.pdev.created →
      (HoldsRef { s with pdev := peerCreate idxBits s.pdev vdev macAddr true } q u ↔
        HoldsRef s q u) := by
    intro q u hq
    cases u with
    | attach =>
      change ((peerCreate idxBits s.pdev vdev macAddr true).peers q).valid = true ↔ _
      rw [peerCreate_of_ne hq]
      rfl
    | firstId =>
      change ((peerCreate idxBits s.pdev vdev macAddr true).peers q).peerIds = [] ↔ _
      rw [peerCreate_of_ne hq]
      rfl
    | peerId id => rfl
    | mapping => rfl
    | lookup ref => rfl
  have hnew : ∀ u, HoldsRef { s with pdev := peerCreate idxBits s.pdev vdev macAddr true }
      s.pdev.created u ↔ u = .firstId ∨ u = .attach ∨ False := by
    intro u
    have hno : ¬ (s.pdev.created < s.pdev.created) := lt_irrefl _
    cases u with
    | attach =>
      change ((peerCreate idxBits s.pdev vdev macAddr true).peers _).valid = true ↔ _
      rw [peerCreate_self]
      simp
    | firstId =>
      change ((peerCreate idxBits s.pdev vdev macAddr true).peers _).peerIds = [] ↔ _
      rw [peerCreate_self]
      simp
    | peerId id =>
      have : ¬ HoldsRef s s.pdev.created (.peerId id) := fun hu => by
        simpa using h.fresh _ _ hu
      exact iff_of_false this (by simp)
    | mapping =>
      have : ¬ HoldsRef s s.pdev.created .mapping := fun hu => by
        simpa using h.fresh _ _ hu
      exact iff_of_false this (by simp)
    | lookup ref =>
      have : ¬ HoldsRef s s.pdev.created (.lookup ref) := fun hu => by
        simpa using h.fresh _ _ hu
      exact iff_of_false this (by simp)
  have hold : ∀ {q}, q < s.pdev.created + 1 → q = s.pdev.created ∨ q < s.pdev.created :=
    fun hq => (Nat.lt_succ_iff_lt_or_eq.1 hq).symm
  constructor
  · intro q hq
    rcases hold hq with rfl | hq
    · have h2 : Counts (fun u => u = PeerRef.attach ∨ False) 1 :=
        (Counts.zero_iff.2 fun _ => not_false).take not_false fun _ => Iff.rfl
      refine ⟨2, h2.take (t := .firstId) (by simp) hnew, ?_⟩
      change ((peerCreate idxBits s.pdev vdev macAddr true).peers _).refCnt = _
      rw [peerCreate_self]
      rfl
    · obtain ⟨n, hn, hc⟩ := h.counts q hq
      refine ⟨n, hn.congr fun u => hholds q u hq.ne, ?_⟩
      change ((peerCreate idxBits s.pdev vdev macAddr true).peers q).refCnt = _
      rw [peerCreate_of_ne hq.ne]
      exact hc
  · intro q
    change q ∈ s.pdev.freed ↔ q < s.pdev.created + 1 ∧
      ((peerCreate idxBits s.pdev vdev macAddr true).peers q).refCnt = 0
    by_cases hq : q = s.pdev.created
    · subst hq
      rw [peerCreate_self]
      exact iff_of_false (fun hf => lt_irrefl _ (h.lt_of_freed _ hf)) fun h => by simp at h
    · rw [peerCreate_of_ne hq, h.freed_iff]
      omega
  · intro q u hu
    by_cases hq : q = s.pdev.created
    · subst hq
      exact .inl (lt_succ_self _)
    · exact (h.fresh q u ((hholds q u hq).1 hu)).imp_left lt_succ_of_lt
  · intro q hq hnil id hid
    rcases hold hq with rfl | hq
    · have := h.fresh s.pdev.created (.peerId id) hid
      simp at this
    · change ((peerCreate idxBits s.pdev vdev macAddr true).peers q).peerIds = [] at hnil
      rw [peerCreate_of_ne hq.ne] at hnil
      exact h.noId q hq hnil id hid
  · intro q
    change s.wasNamed q = true ↔ q < s.pdev.created + 1 ∧
      ((peerCreate idxBits s.pdev vdev macAddr true).peers q).peerIds ≠ []
    rw [h.wasNamed]
    by_cases hq : q = s.pdev.created
    · subst hq
      rw [peerCreate_self]
      simp
    · rw [peerCreate_of_ne hq]
      exact and_congr_left' (by omega)
  · intro id v m hid
    obtain ⟨q, hq, hqv, hqm⟩ := h.named id v m hid
    have hne : q ≠ s.pdev.created := by
      rintro rfl
      have := h.fresh s.pdev.created (.peerId id) hq
      simp at this
    refine ⟨q, hq, ?_⟩
    change ((peerCreate idxBits s.pdev vdev macAddr true).peers q).vdev = v ∧
      ((peerCreate idxBits s.pdev vdev macAddr true).peers q).macAddr = m
    rw [peerCreate_of_ne hne]
    exact ⟨hqv, hqm⟩
  · exact h.unnamed
  · intro m hm
    have hne : m.peer ≠ s.pdev.created := by
      intro he
      have := h.fresh m.peer .mapping ⟨m, hm, rfl⟩
      simp [he] at this
    change s.named m.peerId = none ∧
      ((peerCreate idxBits s.pdev vdev macAddr true).peers m.peer).vdev = m.vdev ∧
      ((peerCreate idxBits s.pdev vdev macAddr true).peers m.peer).macAddr = m.macAddr
    rw [peerCreate_of_ne hne]
    exact h.mapping m hm

theorem peerIds_addId_ne_nil (p : TxrxPeer) (id : Nat) :
    (olTxrxPeerFindAddIdToObj p id).peerIds ≠ [] := by
  unfold olTxrxPeerFindAddIdToObj
  by_cases hlt : p.peerIds.length < maxNumPeerIdPerPeer
  · rw [if_pos hlt]
    exact append_ne_nil_of_right_ne_nil _ (cons_ne_nil _ _)
  · rw [if_neg hlt]
    intro hnil
    rw [hnil] at hlt
    exact hlt (by decide)

theorem addId_proj {α : Type} (g : TxrxPeer → α)
    (hg : ∀ (p : TxrxPeer) l, g { p with peerIds := l } = g p) (p : TxrxPeer) (id : Nat) :
    g (olTxrxPeerFindAddIdToObj p id) = g p := by
  unfold olTxrxPeerFindAddIdToObj
  split_ifs
  · exact hg p _
  · rfl

/-- The peer id entered, before the reference that is one too many is dropped. -/
def peerEnterId (s : PeerPdev) (peer peerId : Nat) : PeerPdev :=
  ({ s with peerIdToObjMap := update s.peerIdToObjMap peerId (some peer) }).setPeer peer
    fun p => olTxrxPeerFindAddIdToObj p peerId

theorem peerFindAddId_eq {idxBits : Nat} {s : PeerPdev} {id : Nat}
    (h2 : (s.peers peer).peerIds = [] → 2 ≤ (s.peers peer).refCnt) :
    peerFindAddId idxBits s peer id =
      if (s.peers peer).peerIds = [] then olTxrxPeerUnref idxBits (peerEnterId s peer id) peer
      else peerEnterId s peer id := by
  dsimp only [peerFindAddId]
  by_cases hnil : (s.peers peer).peerIds = []
  · have hunref : ∀ x : PeerPdev, 2 ≤ (x.peers peer).refCnt →
        olTxrxPeerUnref idxBits x peer = x.setPeer peer decRefCnt := by
      intro x hx
      have h1 : ¬ (x.peers peer).refCnt = 0 := by omega
      have h0 : ¬ ((x.setPeer peer decRefCnt).peers peer).refCnt = 0 := by
        rw [setPeer_self]
        change ¬ (x.peers peer).refCnt - 1 = 0
        omega
      rw [olTxrxPeerUnref, if_neg h1, if_neg h0]
    have hcnt : ((peerEnterId s peer id).peers peer).refCnt = (s.peers peer).refCnt := by
      rw [peerEnterId, setPeer_self]
      exact addId_proj refCnt (fun _ _ => rfl) _ _
    rw [if_pos hnil, if_pos hnil, hunref (peerEnterId s peer id) (by rw [hcnt]; exact h2 hnil),
      hunref { s with peerIdToObjMap := update s.peerIdToObjMap id (some peer) } (h2 hnil)]
    have hcomm : olTxrxPeerFindAddIdToObj (s.peers peer).decRefCnt id =
        (olTxrxPeerFindAddIdToObj (s.peers peer) id).decRefCnt := by
      unfold olTxrxPeerFindAddIdToObj decRefCnt
      split_ifs <;> rfl
    simp [peerEnterId, PeerPdev.setPeer, hcomm]
  · rw [if_neg hnil, if_neg hnil]
    rfl

/-- The map handler has entered the id; the reference that is one too many is not dropped yet. -/
def PeerWorld.enter (s : PeerWorld) (m : PeerMapping) : PeerWorld := { s with
  pdev := peerEnterId s.pdev m.peer m.peerId
  mapping := none
  named := update s.named m.peerId (some (m.vdev, m.macAddr))
  wasNamed := fun peer => s.wasNamed peer || decide (s.pdev.Live peer ∧
    (s.pdev.peers peer).vdev = m.vdev ∧ (s.pdev.peers peer).macAddr = m.macAddr) }

section Enter
variable {m : PeerMapping}

theorem enter_proj {α : Type} (g : TxrxPeer → α)
    (hg : ∀ (p : TxrxPeer) l, g { p with peerIds := l } = g p) (q : Nat) :
    g ((s.enter m).pdev.peers q) = g (s.pdev.peers q) :=
  setPeer_proj g (addId_proj g hg _ _) q

theorem enter_belongs (q : Nat) : ((s.enter m).pdev.peers q).vdev = (s.pdev.peers q).vdev ∧
    ((s.enter m).pdev.peers q).macAddr = (s.pdev.peers q).macAddr :=
  ⟨enter_proj vdev (fun _ _ => rfl) q, enter_proj macAddr (fun _ _ => rfl) q⟩

theorem enter_refCnt (q : Nat) : ((s.enter m).pdev.peers q).refCnt = (s.pdev.peers q).refCnt :=
  enter_proj refCnt (fun _ _ => rfl) q

theorem enter_peerIds (q : Nat) : ((s.enter m).pdev.peers q).peerIds = [] ↔
    q ≠ m.peer ∧ (s.pdev.peers q).peerIds = [] := by
  by_cases hq : q = m.peer
  · subst hq
    refine iff_of_false ?_ fun h => h.1 rfl
    rw [enter, peerEnterId, setPeer_self]
    exact peerIds_addId_ne_nil _ _
  · rw [enter, peerEnterId, setPeer_of_ne hq, and_iff_right hq]

theorem enter_map (hid : s.pdev.peerIdToObjMap m.peerId = none) {id q : Nat} :
    (s.enter m).pdev.peerIdToObjMap id = some q ↔
      (id = m.peerId ∧ m.peer = q) ∨ s.pdev.peerIdToObjMap id = some q :=
  update_some_eq_some hid

/-- The reference of the map handler is now the id's, and the one that stood for the first id is owed. -/
theorem enter_holds (hid : s.pdev.peerIdToObjMap m.peerId = none)
    (u : PeerRef) : HoldsRef (s.enter m) m.peer u ↔
      u ≠ .firstId ∧ (u = .peerId m.peerId ∨ u ≠ .mapping ∧ HoldsRef s m.peer u) := by
  cases u with
  | attach =>
    rw [HoldsRef, enter_proj valid fun _ _ => rfl]
    simp [HoldsRef]
  | firstId =>
    rw [HoldsRef, enter_peerIds]
    simp
  | peerId id =>
    rw [HoldsRef, enter_map hid]
    simp [HoldsRef]
  | mapping => simp [HoldsRef, enter]
  | lookup ref => simp [HoldsRef, enter]

theorem enter_holds_of_ne (hm : s.mapping = some m) (hid : s.pdev.peerIdToObjMap m.peerId = none)
    {q : Nat} (hq : q ≠ m.peer) (u : PeerRef) : HoldsRef (s.enter m) q u ↔ HoldsRef s q u := by
  cases u with
  | attach => rw [HoldsRef, enter_proj valid fun _ _ => rfl, HoldsRef]
  | firstId => rw [HoldsRef, enter_peerIds, HoldsRef, and_iff_right hq]
  | peerId id =>
    rw [HoldsRef, enter_map hid]
    simp [HoldsRef, hq.symm]
  | mapping => simp [HoldsRef, enter, hm, hq.symm]
  | lookup ref => rfl

theorem PeerRefs.enter (h : PeerRefs s none) {idxBits : Nat} (hl : PeerLinks idxBits s.pdev)
    (hm : s.mapping = some m) : PeerRefs (s.enter m)
      (if (s.pdev.peers m.peer).peerIds = [] then some m.peer else none) := by
  obtain ⟨hnone, hmv, hmm⟩ := h.mapping m hm
  have hid := h.unnamed _ hnone
  have hm' : HoldsRef s m.peer .mapping := ⟨m, hm, rfl⟩
  have hlive : s.pdev.Live m.peer := h.live_of_holds hm' (by decide) (by decide)
  have hid' : ¬ HoldsRef s m.peer (.peerId m.peerId) := fun h => by
    rw [HoldsRef, hid] at h
    cases h
  constructor
  · intro q hq
    obtain ⟨n, hn, hc⟩ := h.counts q hq
    rw [if_neg (fun h => by cases h), add_zero] at hc
    rw [enter_refCnt, hc]
    by_cases hqp : q = m.peer
    · subst hqp
      have hhand : Counts (fun u => u = PeerRef.peerId m.peerId ∨
          u ≠ .mapping ∧ HoldsRef s m.peer u) n := hn.handOver hm' hid' fun _ => Iff.rfl
      by_cases hnil : (s.pdev.peers m.peer).peerIds = []
      · have hfirst : HoldsRef s m.peer .firstId := hnil
        obtain ⟨k, rfl, hk⟩ := hhand.drop (.inr ⟨by decide, hfirst⟩) (enter_holds hid)
        exact ⟨k, hk, by rw [if_pos hnil, if_pos rfl]⟩
      · refine ⟨n, hhand.congr fun u => (enter_holds hid u).trans (and_iff_right_of_imp ?_), ?_⟩
        · rintro hu rfl
          exact hu.elim (fun he => by cases he) fun hu => hnil hu.2
        · rw [if_neg hnil, if_neg (fun h => by cases h), add_zero]
    · refine ⟨n, hn.congr (enter_holds_of_ne hm hid hqp), ?_⟩
      rw [if_neg, add_zero]
      split_ifs
      · exact fun he => hqp (Option.some.inj he).symm
      · exact fun h => by cases h
  · intro q
    rw [enter_refCnt]
    exact h.freed_iff q
  · intro q u hu
    by_cases hqp : q = m.peer
    · exact .inl (hqp ▸ hlive.1)
    · exact h.fresh q u ((enter_holds_of_ne hm hid hqp u).1 hu)
  · intro q hq hnil id hqid
    obtain ⟨hne, hnil⟩ := (enter_peerIds q).1 hnil
    rcases (enter_map hid).1 hqid with ⟨-, he⟩ | hqid
    · exact hne he.symm
    · exact h.noId q hq hnil id hqid
  · intro q
    rw [ne_eq, enter_peerIds]
    change (s.wasNamed q || decide _) = true ↔ _
    rw [Bool.or_eq_true, h.wasNamed, decide_eq_true_iff]
    constructor
    · rintro (⟨hq, hne⟩ | ⟨hq, hqv, hqm⟩)
      · exact ⟨hq, fun he => hne he.2⟩
      · refine ⟨hq.1, fun he => he.1 ?_⟩
        exact hl.alone q m.peer hq hlive (hqv.trans hmv.symm) (hqm.trans hmm.symm)
    · rintro ⟨hq, hne⟩
      by_cases hqp : q = m.peer
      · subst hqp
        exact .inr ⟨hlive, hmv, hmm⟩
      · exact .inl ⟨hq, fun he => hne ⟨hqp, he⟩⟩
  · intro id v mac hname
    rcases (update_some_eq_some hnone).1 hname with ⟨rfl, he⟩ | hname
    · cases he
      exact ⟨m.peer, (enter_map hid).2 (.inl ⟨rfl, rfl⟩), (enter_belongs _).1.trans hmv,
        (enter_belongs _).2.trans hmm⟩
    · obtain ⟨q, hq, hqv, hqm⟩ := h.named id v mac hname
      exact ⟨q, (enter_map hid).2 (.inr hq), (enter_belongs q).1.trans hqv,
        (enter_belongs q).2.trans hqm⟩
  · intro id hname
    obtain ⟨hne, hname⟩ := update_some_eq_none.1 hname
    exact update_some_eq_none.2 ⟨hne, h.unnamed id hname⟩
  · intro m' hmem
    cases hmem

end Enter

end Refs

/-! ### The invariant -/

structure PeerInv (idxBits : Nat) (s : PeerWorld) : Prop where
  links : PeerLinks idxBits s.pdev
  refs : PeerRefs s none

section Steps
variable {idxBits : Nat} {s s' : PeerWorld}

theorem peerList_peerAttachScan (peers : Nat → TxrxPeer) (macAddr : MacAddr) (v : PeerVdev)
    (found : PeerDuplicate) (l : List Nat) :
    (peerAttachScan peers macAddr v found l).1.peerList = v.peerList := by
  induction l generalizing v found with
  | nil => rfl
  | cons p l ih =>
    rw [peerAttachScan]
    by_cases hm : (peers p).macAddr = macAddr
    · rw [if_pos hm]
      by_cases hd : (peers p).deleteInProgress = true
      · rw [if_pos hd]
        exact ih _ _
      · rw [if_neg hd]
    · rw [if_neg hm]
      exact ih _ _

theorem ne_of_peerAttachScan_absent {peers : Nat → TxrxPeer} {macAddr : MacAddr} {v : PeerVdev}
    {found : PeerDuplicate} {l : List Nat}
    (h : (peerAttachScan peers macAddr v found l).2 = .absent) :
    found = .absent ∧ ∀ p ∈ l, (peers p).macAddr ≠ macAddr := by
  induction l generalizing v found with
  | nil => exact ⟨h, fun _ h => absurd h not_mem_nil⟩
  | cons p l ih =>
    rw [peerAttachScan] at h
    by_cases hm : (peers p).macAddr = macAddr
    · rw [if_pos hm] at h
      by_cases hd : (peers p).deleteInProgress = true
      · rw [if_pos hd] at h
        exact absurd (ih h).1 (by decide)
      · rw [if_neg hd] at h
        cases h
    · rw [if_neg hm] at h
      obtain ⟨hf, hl⟩ := ih h
      refine ⟨hf, fun q hq => ?_⟩
      rcases mem_cons.1 hq with rfl | hq
      · exact hm
      · exact hl q hq

theorem peerHashFind_spec {vdev : Option Nat} {macAddr : MacAddr} {checkValid : Bool} {p : Nat}
    (h : PeerLinks idxBits s.pdev)
    (hp : peerHashFind idxBits s.pdev vdev macAddr checkValid = some p) :
    s.pdev.Live p ∧ (s.pdev.peers p).macAddr = macAddr := by
  have hmem := mem_of_find?_eq_some hp
  have hmac := find?_some hp
  rw [decide_eq_true_iff] at hmac
  exact ⟨((h.bins _ _).1 hmem).1, hmac.1⟩

theorem PeerInv.setVdev {vdev : Nat} {f : PeerVdev → PeerVdev} {attaching : List (Nat × MacAddr)}
    (h : PeerInv idxBits s) (hf : (f (s.pdev.vdevs vdev)).peerList = (s.pdev.vdevs vdev).peerList) :
    PeerInv idxBits { s with pdev := s.pdev.setVdev vdev f, attaching := attaching } where
  links := by
    refine h.links.congr rfl rfl rfl (fun v => ?_) (fun _ => rfl) fun _ => rfl
    change (update s.pdev.vdevs vdev (f (s.pdev.vdevs vdev)) v).peerList = _
    by_cases hv : v = vdev
    · subst hv
      rw [update_self, hf]
    · rw [update_of_ne hv]
  refs := ⟨h.refs.counts, h.refs.freed_iff, h.refs.fresh, h.refs.noId, h.refs.wasNamed,
    h.refs.named, h.refs.unnamed, h.refs.mapping⟩

theorem PeerInv.create {vdev : Nat} {macAddr : MacAddr} {allocated : Bool} (h : PeerInv idxBits s)
    (hnone : ∀ p ∈ (s.pdev.vdevs vdev).peerList, (s.pdev.peers p).macAddr ≠ macAddr) :
    PeerInv idxBits { s with pdev := peerCreate idxBits s.pdev vdev macAddr allocated } := by
  cases allocated with
  | false => exact h
  | true => exact ⟨h.links.create h.refs.lt_of_freed hnone, h.refs.create⟩

theorem PeerInv.unref {peer : Nat} (hl : PeerLinks idxBits s.pdev)
    (hr : PeerRefs s (some peer)) (hp : peer < s.pdev.created) :
    PeerInv idxBits { s with pdev := olTxrxPeerUnref idxBits s.pdev peer } := by
  have hlive : s.pdev.Live peer := by
    obtain ⟨n, -, hn⟩ := hr.counts peer hp
    rw [if_pos rfl] at hn
    exact (hr.live_iff peer).2 ⟨hp, by omega⟩
  exact ⟨hl.unref hlive, hr.unref hp⟩

theorem PeerInv.attach {vdev : Nat} {macAddr : MacAddr} {allocated : Bool} (h : PeerInv idxBits s)
    (hs : peerStep idxBits s (.attach vdev macAddr allocated) = some s') : PeerInv idxBits s' := by
  have hlist := peerList_peerAttachScan s.pdev.peers macAddr (s.pdev.vdevs vdev) .absent
    (s.pdev.vdevs vdev).peerList
  have habsent := @ne_of_peerAttachScan_absent s.pdev.peers macAddr (s.pdev.vdevs vdev) .absent
    (s.pdev.vdevs vdev).peerList
  dsimp only [peerStep] at hs
  generalize peerAttachScan s.pdev.peers macAddr (s.pdev.vdevs vdev) .absent
    (s.pdev.vdevs vdev).peerList = r at hs hlist habsent
  obtain ⟨v, found⟩ := r
  have hset : PeerInv idxBits { s with pdev := s.pdev.setVdev vdev fun _ => v } :=
    h.setVdev hlist
  cases found with
  | present =>
    cases hs
    exact hset
  | leaving =>
    cases hs
    exact h.setVdev hlist
  | absent =>
    cases hs
    refine hset.create fun p hp => ?_
    change p ∈ (update s.pdev.vdevs vdev v vdev).peerList at hp
    rw [update_self, hlist] at hp
    exact (habsent rfl).2 p hp

theorem PeerInv.lookup {ref : Nat} {vdev : Option Nat} {macAddr : MacAddr} {checkValid : Bool}
    (h : PeerInv idxBits s)
    (hs : peerStep idxBits s (.lookup ref vdev macAddr checkValid) = some s') :
    PeerInv idxBits s' := by
  obtain ⟨⟨⟩, hg, hs⟩ := Option.bind_eq_some_iff.1 hs
  have hfree : s.held ref = none := by
    by_contra hne
    simp [guard, hne] at hg
  cases hp : peerHashFind idxBits s.pdev vdev macAddr checkValid with
  | none =>
    rw [hp] at hs
    cases hs
    exact h
  | some p =>
    rw [hp] at hs
    cases hs
    obtain ⟨hlive, -⟩ := peerHashFind_spec h.links hp
    refine ⟨h.links.setPeer rfl rfl, h.refs.take (t := .lookup ref) hlive ?_ ?_ h.refs.mapping⟩
    · rw [HoldsRef, hfree]
      exact fun h => by cases h
    · intro q u
      cases u with
      | lookup ref' =>
        refine (update_some_eq_some hfree).trans ?_
        rw [PeerRef.lookup.injEq, and_comm, eq_comm (a := p), HoldsRef]
      | attach => simp [HoldsRef]
      | firstId => simp [HoldsRef]
      | peerId id => simp [HoldsRef]
      | mapping => simp [HoldsRef]

theorem PeerInv.mapFind {id vdev : Nat} {macAddr : MacAddr} (h : PeerInv idxBits s)
    (hok : PeerStepOk idxBits s (.mapFind id vdev macAddr))
    (hs : peerStep idxBits s (.mapFind id vdev macAddr) = some s') : PeerInv idxBits s' := by
  obtain ⟨⟨⟩, hg, hs⟩ := Option.bind_eq_some_iff.1 hs
  have hpre : s.mapping = none ∧ id ≠ httInvalidPeer ∧ s.named id = none ∧
      ∃ peer ∈ (s.pdev.vdevs vdev).peerList, (s.pdev.peers peer).macAddr = macAddr := by
    by_contra hne
    simp only [guard, hne, if_false] at hg
    cases hg
  obtain ⟨hmap, -, hname, -⟩ := hpre
  cases hp : peerHashFind idxBits s.pdev none macAddr false with
  | none =>
    rw [hp] at hs
    cases hs
    exact h
  | some p =>
    rw [hp] at hs
    cases hs
    obtain ⟨hlive, hmac⟩ := peerHashFind_spec h.links hp
    refine ⟨h.links.setPeer rfl rfl, h.refs.take (t := .mapping) hlive ?_ ?_ ?_⟩
    · rintro ⟨m, hm, -⟩
      rw [hmap] at hm
      cases hm
    · intro q u
      cases u with
      | mapping => simp [HoldsRef, hmap, eq_comm]
      | attach => simp [HoldsRef]
      | firstId => simp [HoldsRef]
      | peerId id => simp [HoldsRef]
      | lookup ref => simp [HoldsRef]
    · intro m hm
      cases hm
      exact ⟨hname, hok p hp, hmac⟩

theorem PeerInv.mapAdd (h : PeerInv idxBits s) (hs : peerStep idxBits s .mapAdd = some s') :
    PeerInv idxBits s' := by
  obtain ⟨m, hm, hs⟩ := Option.bind_eq_some_iff.1 hs
  obtain rfl := Option.some.inj hs
  have hlive : s.pdev.Live m.peer :=
    h.refs.live_of_holds (t := .mapping) ⟨m, hm, rfl⟩ (by decide) (by decide)
  have h2 : (s.pdev.peers m.peer).peerIds = [] → 2 ≤ (s.pdev.peers m.peer).refCnt := by
    intro hnil
    obtain ⟨n, hn, hc⟩ := h.refs.counts m.peer hlive.1
    rw [if_neg (nomatch ·), add_zero] at hc
    obtain ⟨k, rfl, hk⟩ := hn.drop (t := .firstId) (S := fun u => u ≠ .firstId ∧
      HoldsRef s m.peer u) hnil fun _ => Iff.rfl
    have hm' : HoldsRef s m.peer .mapping := ⟨m, hm, rfl⟩
    have := hk.pos (t := .mapping) ⟨by decide, hm'⟩
    omega
  have hrefs := h.refs.enter h.links hm
  have hlinks : PeerLinks idxBits (peerEnterId s.pdev m.peer m.peerId) := by
    refine PeerLinks.setPeer ?_ ?_ ?_
    · exact h.links.congr rfl rfl rfl (fun _ => rfl) (fun _ => rfl) fun _ => rfl
    · exact addId_proj vdev (fun _ _ => rfl) _ _
    · exact addId_proj macAddr (fun _ _ => rfl) _ _
  rw [peerFindAddId_eq h2]
  by_cases hnil : (s.pdev.peers m.peer).peerIds = []
  · rw [if_pos hnil] at hrefs ⊢
    exact unref (s := s.enter m) hlinks hrefs hlive.1
  · rw [if_neg hnil] at hrefs ⊢
    exact ⟨hlinks, hrefs⟩

theorem PeerInv.unmap {id : Nat} (h : PeerInv idxBits s)
    (hs : peerStep idxBits s (.unmap id) = some s') : PeerInv idxBits s' := by
  obtain ⟨⟨hmap, hname⟩, rfl⟩ := guarded_eq_some.1 hs
  obtain ⟨⟨v, mac⟩, hname⟩ := Option.ne_none_iff_exists'.1 hname
  obtain ⟨p, hp, -⟩ := h.refs.named id v mac hname
  have hlive : s.pdev.Live p :=
    h.refs.live_of_holds (t := .peerId id) hp (by simp) (by simp)
  rw [olRxPeerUnmapHandler, hp]
  refine unref ?_ (h.refs.dropId hp hmap) hlive.1
  exact h.links.congr rfl rfl rfl (fun _ => rfl) (fun _ => rfl) fun _ => rfl

theorem PeerInv.release {ref : Nat} {plain : Bool} (h : PeerInv idxBits s)
    (hok : PeerStepOk idxBits s (.release ref plain))
    (hs : peerStep idxBits s (.release ref plain) = some s') : PeerInv idxBits s' := by
  obtain ⟨p, hp, hs⟩ := Option.bind_eq_some_iff.1 hs
  obtain rfl := Option.some.inj hs
  have hlive : s.pdev.Live p :=
    h.refs.live_of_holds (t := .lookup ref) hp (by simp) (by simp)
  have hdrop := h.refs.dropLookup hp
  cases plain with
  | false =>
    exact unref (s := { s with held := update s.held ref none }) h.links hdrop hlive.1
  | true => exact ⟨h.links.setPeer rfl rfl, hdrop.decRefCnt hlive.1 (hok p hp)⟩

theorem PeerInv.detach {peer : Nat} (h : PeerInv idxBits s)
    (hs : peerStep idxBits s (.detach peer) = some s') : PeerInv idxBits s' := by
  obtain ⟨⟨hlive, hv⟩, rfl⟩ := guarded_eq_some.1 hs
  refine unref ?_ (h.refs.dropAttach hv) hlive.1
  exact h.links.congr rfl rfl rfl (fun _ => rfl)
    (peerMarkDeleted_proj vdev s.pdev peer fun _ => rfl)
    (peerMarkDeleted_proj macAddr s.pdev peer fun _ => rfl)

theorem PeerInv.step {e : PeerEvent} (h : PeerInv idxBits s) (hok : PeerStepOk idxBits s e)
    (hs : peerStep idxBits s e = some s') : PeerInv idxBits s' := by
  cases e with
  | attach vdev macAddr allocated => exact h.attach hs
  | attachResume vdev macAddr allocated =>
    obtain ⟨-, rfl⟩ := guarded_eq_some.1 hs
    refine create (h.setVdev rfl) fun p hp => ?_
    change p ∈ (update s.pdev.vdevs vdev _ vdev).peerList at hp
    rw [update_self] at hp
    exact hok p hp
  | attachTimeout vdev macAddr =>
    obtain ⟨-, rfl⟩ := guarded_eq_some.1 hs
    exact h.setVdev rfl
  | detach peer => exact h.detach hs
  | mapFind id vdev macAddr => exact h.mapFind hok hs
  | mapAdd => exact h.mapAdd hs
  | unmap id => exact h.unmap hs
  | lookup ref vdev macAddr checkValid => exact h.lookup hs
  | release ref plain => exact h.release hok hs

end Steps

/-! ### The results -/

section Results
variable {idxBits : Nat} {s : PeerWorld}

theorem peerInv_of_reach (h : (peerMachine idxBits).Reach (PeerStepOk idxBits) s) :
    PeerInv idxBits s := by
  refine h.invariant (PeerInv idxBits) ?_ fun _ _ _ hi hok hs => hi.step hok hs
  rintro _ rfl
  refine ⟨⟨.nil, ?_, fun _ => .nil, ?_, fun _ => .nil, ?_⟩, ⟨?_, ?_, ?_, ?_, ?_, ?_, ?_, ?_⟩⟩
  · exact fun _ _ => iff_of_false not_mem_nil fun h => absurd h.1.1 (not_lt_zero _)
  · exact fun _ _ => iff_of_false not_mem_nil fun h => absurd h.1.1 (not_lt_zero _)
  · exact fun _ _ h => absurd h.1 (not_lt_zero _)
  · exact fun _ h => absurd h (not_lt_zero _)
  · exact fun _ => iff_of_false not_mem_nil fun h => absurd h.1 (not_lt_zero _)
  · intro _ u hu
    cases u with
    | attach => exact .inr (.inl rfl)
    | firstId => exact .inr (.inr rfl)
    | peerId id => cases hu
    | mapping =>
      obtain ⟨_, hm, -⟩ := hu
      cases hm
    | lookup ref => cases hu
  · exact fun _ h => absurd h (not_lt_zero _)
  · exact fun _ => iff_of_false (nomatch ·) fun h => absurd h.1 (not_lt_zero _)
  · exact fun _ _ _ h => nomatch h
  · exact fun _ _ => rfl
  · exact fun _ h => nomatch h

theorem PeerRefs.freed_iff_holds (h : PeerRefs s none) (peer : Nat) :
    peer ∈ s.pdev.freed ↔ peer < s.pdev.created ∧ ∀ t, ¬ HoldsRef s peer t := by
  rw [h.freed_iff]
  refine and_congr_right fun hlt => ?_
  obtain ⟨n, hn, hc⟩ := h.counts peer hlt
  rw [if_neg (fun h => by cases h), add_zero] at hc
  rw [hc]
  constructor
  · rintro rfl
    exact Counts.zero_iff.1 hn
  · exact fun hno => hn.unique (Counts.zero_iff.2 hno)

/-- **The life of a peer.**  As long as map messages find a peer of their vdev, an attach that has waited finds the older peer gone and a plain decrement is not of the last reference, every peer is freed once and at its time, and nothing leads to a freed or to another vdev's peer. -/
theorem peer_lifetime (h : (peerMachine idxBits).Reach (PeerStepOk idxBits) s) :
    LifetimeOk s := by
  obtain ⟨hl, hr⟩ := peerInv_of_reach h
  refine ⟨hl.freed_once, fun peer => ?_, ?_, ?_, hr.named, hl.alone⟩
  · rw [hr.freed_iff_holds]
    refine and_congr_right fun hlt => ⟨fun hno => ?_, ?_⟩
    · refine ⟨Bool.not_eq_true _ ▸ hno .attach, (hr.wasNamed peer).2 ⟨hlt, hno .firstId⟩,
        fun id => hno (.peerId id), fun ref => hno (.lookup ref), fun m hm he => ?_⟩
      exact hno .mapping ⟨m, hm, he⟩
    · rintro ⟨hv, hw, hid, hheld, hm⟩ (_ | _ | id | _ | ref) hu
      · exact Bool.false_ne_true (hv.symm.trans hu)
      · exact ((hr.wasNamed peer).1 hw).2 hu
      · exact hid id hu
      · obtain ⟨m, hmem, he⟩ := hu
        exact hm m hmem he
      · exact hheld ref hu
  · exact fun id peer hid => hr.live_of_holds (t := .peerId id) hid (by simp) (by simp)
  · exact fun index peer hp => ((hl.bins index peer).1 hp).1

instance decidablePeerStepOk (idxBits : Nat) (s : PeerWorld) :
    (e : PeerEvent) → Decidable (PeerStepOk idxBits s e)
  | .mapFind _ vdev macAddr =>
    inferInstanceAs (Decidable (∀ peer ∈ peerHashFind idxBits s.pdev none macAddr false, _ = vdev))
  | .attachResume vdev macAddr _ =>
    inferInstanceAs (Decidable (∀ peer ∈ (s.pdev.vdevs vdev).peerList, _ ≠ macAddr))
  | .release ref true => inferInstanceAs (Decidable (∀ peer ∈ s.held ref, _ ≠ 1))
  | .release _ false | .attach .. | .attachTimeout .. | .detach _ | .mapAdd | .unmap _
  | .lookup .. => .isTrue trivial

/-- A peer is looked up, detached and unmapped, freed when the lookup ends, and attached again. -/
theorem peer_lifetime_attachedAgain : ∃ s, (peerMachine 7).run .start
    [.attach 0 ⟨1, 2, 3⟩ true, .mapFind 9 0 ⟨1, 2, 3⟩, .mapAdd, .lookup 4 none ⟨1, 2, 3⟩ true,
      .detach 0, .attach 0 ⟨1, 2, 3⟩ true, .unmap 9, .release 4 false,
      .attachResume 0 ⟨1, 2, 3⟩ true] = some s ∧
    s.pdev.freed = [0] ∧ s.pdev.created = 2 ∧ LifetimeOk s :=
  Machine.exists_reach_of (q := fun s => s.pdev.freed = [0] ∧ s.pdev.created = 2) rfl
    (by decide +kernel) (by decide +kernel) fun s hr hends =>
      ⟨hends.1, hends.2, peer_lifetime hr⟩

/-- Two vdevs have a peer of the same address: the id mapped for the second leads to the peer of the first. -/
theorem same_address_misleads : ∃ s, (peerMachine 7).Reach (fun _ _ => True) s ∧
    s.named 9 = some (1, ⟨1, 2, 3⟩) ∧ s.pdev.peerIdToObjMap 9 = some 0 ∧
    (s.pdev.peers 0).vdev = 0 ∧ ¬ LifetimeOk s := by
  obtain ⟨s, hs, hname, hmap, hvdev⟩ : ∃ s, (peerMachine 7).run .start
      [.attach 0 ⟨1, 2, 3⟩ true, .attach 1 ⟨1, 2, 3⟩ true, .mapFind 9 1 ⟨1, 2, 3⟩, .mapAdd] =
        some s ∧ s.named 9 = some (1, ⟨1, 2, 3⟩) ∧ s.pdev.peerIdToObjMap 9 = some 0 ∧
      (s.pdev.peers 0).vdev = 0 :=
    Machine.exists_run (by decide +kernel)
  refine ⟨s, Machine.reach_of_run rfl hs, hname, hmap, hvdev, fun hok => ?_⟩
  obtain ⟨p, hp, hpv, -⟩ := hok.leads 9 1 _ hname
  obtain rfl := Option.some.inj (hmap.symm.trans hp)
  exact absurd (hvdev.symm.trans hpv) (by decide)

end Results

end Qcacld.Txrx

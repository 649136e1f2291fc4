import Mathlib.Algebra.Group.Nat.Defs
import Qcacld.Support.Pointwise
import Qcacld.Support.SwapRemove

/-!
# Txrx — TxPeerBal

Flow control of bad peers: the limit list of a pdev with its timer, and `ol_txrx_peer_link_status_handler`, which by the rates the target reports limits a peer, pauses it or lets it go.

The list is an array and a count.  A peer that is taken out of it leaves its place to the last one, and the timer's walk over the array does this while it goes.
-/

namespace Qcacld.Txrx
open Qcacld.Support Function List

def maxNoPeersInLimit : Nat := 22

/-- `TXRX_IEEE11_AC`, the last PHY mode. -/
def txrxIeee11Ac : Nat := 3

/-- `enum _ol_tx_peer_bal_timer_state`. -/
inductive PeerBalTimerState where
  | disable | active | inactive
deriving DecidableEq

/-- What flow control reads and writes of `struct ol_txrx_peer_t`. -/
structure BalPeer where
  valid : Bool
  txLimitFlag : Bool
  txLimit : Nat
  txPauseFlag : Bool

/-- `ol_tx_limit_peer_t`. -/
structure TxLimitPeer where
  limitFlag : Bool
  peerId : Nat
  limit : Nat
deriving DecidableEq

structure TxPeerThreshold where
  tputThresh : Nat
  txLimit : Nat

/-- `struct rate_report_t`. -/
structure RateReport where
  id : Nat
  phy : Nat
  rate : Nat
deriving DecidableEq

/-- The peers, and `pdev->tx_peer_bal`. -/
structure PeerBalPdev where
  peers : Nat → BalPeer
  peerIdToObjMap : Nat → Option Nat
  /-- `ol_cfg_max_peer_id` -/
  maxPeerId : Nat
  enabled : Bool
  timerState : PeerBalTimerState
  /-- `peer_bal_timer` is started -/
  timer : Bool
  /-- the first `peer_num` entries of `limit_list` -/
  limitList : List TxLimitPeer
  ctlThresh : Nat → TxPeerThreshold

namespace PeerBalPdev

def setPeer (s : PeerBalPdev) (peer : Nat) (f : BalPeer → BalPeer) : PeerBalPdev :=
  { s with peers := update s.peers peer (f (s.peers peer)) }

def olTxrxPeerFindById (s : PeerBalPdev) (peerId : Nat) : Option Nat :=
  if peerId > s.maxPeerId then none
  else (s.peerIdToObjMap peerId).filter fun peer => (s.peers peer).valid

/-! ### The limit list -/

def limitIds (s : PeerBalPdev) : List Nat := s.limitList.map TxLimitPeer.peerId

/-- In `ol_txrx_peer_bal_add_limit_peer`: the timer is started once. -/
def startTimer (s : PeerBalPdev) : PeerBalPdev :=
  if s.timerState = .inactive then { s with timer := true, timerState := .active } else s

def olTxrxPeerBalAddLimitPeer (s : PeerBalPdev) (peerId peerLimit : Nat) : PeerBalPdev :=
  if s.limitList.any fun e => e.peerId = peerId then s.startTimer
  else if s.limitList.length ≥ maxNoPeersInLimit then s
  else
    let s := { s with limitList := s.limitList ++ [(⟨true, peerId, peerLimit⟩ : TxLimitPeer)] }
    match s.olTxrxPeerFindById peerId with
    | some peer =>
      (s.setPeer peer fun p => { p with txLimitFlag := true, txLimit := peerLimit }).startTimer
    | none => s.startTimer

/-- In `ol_txrx_peer_bal_remove_limit_peer`: the flag of a peer taken off the list. -/
def clearLimitFlag (s : PeerBalPdev) (peerId : Nat) : PeerBalPdev :=
  match s.olTxrxPeerFindById peerId with
  | some peer => s.setPeer peer fun p => { p with txLimitFlag := false }
  | none => s

/-- In `ol_txrx_peer_bal_remove_limit_peer`: the timer is stopped when no peer is left. -/
def stopTimer (s : PeerBalPdev) : PeerBalPdev :=
  if s.limitList.length = 0 then { s with timer := false, timerState := .inactive } else s

def olTxrxPeerBalRemoveLimitPeer (s : PeerBalPdev) (peerId : Nat) : PeerBalPdev :=
  if s.limitList.any fun e => e.peerId = peerId then
    let s := { s with limitList := removeFirst (fun e => e.peerId = peerId) s.limitList }
    (s.clearLimitFlag peerId).stopTimer
  else s.stopTimer

/-- `ol_tx_bad_peer_update_tx_limit`, for a queue of the peer that `ol_tx_bad_peer_dequeue_check` has found limited. -/
def olTxBadPeerUpdateTxLimit (s : PeerBalPdev) (peer frames : Nat) : PeerBalPdev :=
  if (s.peers peer).txLimitFlag then
    s.setPeer peer fun p => { p with txLimit := p.txLimit - frames }
  else s

/-! ### The timer -/

/-- A turn of `ol_tx_pdev_peer_bal_timer`. -/
def balTimerEntry (s : PeerBalPdev) (i : Nat) : PeerBalPdev :=
  match s.limitList[i]? with
  | none => s
  | some e =>
    if e.limitFlag then
      match s.olTxrxPeerFindById e.peerId with
      | some peer => s.setPeer peer fun p => { p with txLimit := e.limit }
      | none => s.olTxrxPeerBalRemoveLimitPeer e.peerId
    else s

/-- The loop of `ol_tx_pdev_peer_bal_timer`.  The list does not grow: the turns after the first index behind it do nothing. -/
def balTimerLoop (s : PeerBalPdev) : PeerBalPdev :=
  (List.range s.limitList.length).foldl balTimerEntry s

/-! ### Link status -/

inductive QueueChange where
  | pause (peer : Nat)
  | unpause (peer : Nat)

/-- In `ol_txrx_peer_link_status_handler`: the limit of a peer, 16 bits. -/
def peerLimit (s : PeerBalPdev) (peer : Nat) (r : RateReport) : Nat :=
  let thresh := s.ctlThresh r.phy
  if ((s.peers peer).txPauseFlag || (s.peers peer).txLimitFlag) && r.rate ≠ 0 &&
      r.rate < thresh.tputThresh then thresh.txLimit % 2 ^ 16
  else 0

/-- In `ol_txrx_peer_link_status_handler`: a peer comes to the limit list, stays, or goes. -/
def limitPeer (s : PeerBalPdev) (peer : Nat) (r : RateReport) : PeerBalPdev :=
  if s.peerLimit peer r ≠ 0 then s.olTxrxPeerBalAddLimitPeer r.id (s.peerLimit peer r)
  else if s.limitList.length ≠ 0 then s.olTxrxPeerBalRemoveLimitPeer r.id
  else s

/-- In `ol_txrx_peer_link_status_handler`: the pause flag, and the queues to pause or unpause. -/
def pausePeer (s : PeerBalPdev) (peer : Nat) (r : RateReport) : PeerBalPdev × Option QueueChange :=
  if r.rate = 0 ∧ (s.peers peer).txPauseFlag = false then
    (s.setPeer peer fun p => { p with txPauseFlag := true }, some (.pause peer))
  else if (s.peers peer).txPauseFlag then
    (s.setPeer peer fun p => { p with txPauseFlag := false }, some (.unpause peer))
  else (s, none)

/-- A turn of `ol_txrx_peer_link_status_handler` under the mutex, for a report with a PHY mode that is one. -/
def linkStatus (s : PeerBalPdev) (r : RateReport) : PeerBalPdev × Option QueueChange :=
  match s.olTxrxPeerFindById r.id with
  | some peer => (s.limitPeer peer r).pausePeer peer r
  | none => (s.olTxrxPeerBalRemoveLimitPeer r.id, none)

/-! ### What stays -/

/-- The peers that are valid, what leads to them, and their pause flags are as before. -/
structure Kept (s s' : PeerBalPdev) : Prop where
  map : s'.peerIdToObjMap = s.peerIdToObjMap
  max : s'.maxPeerId = s.maxPeerId
  enabled : s'.enabled = s.enabled
  valid : ∀ p, (s'.peers p).valid = (s.peers p).valid
  pause : ∀ p, (s'.peers p).txPauseFlag = (s.peers p).txPauseFlag

variable {s s' s₁ s₂ : PeerBalPdev} {peer : Nat} {f : BalPeer → BalPeer}

theorem Kept.refl (s : PeerBalPdev) : Kept s s := ⟨rfl, rfl, rfl, fun _ => rfl, fun _ => rfl⟩

theorem Kept.trans (h : Kept s s₁) (h' : Kept s₁ s₂) : Kept s s₂ :=
  ⟨h'.map.trans h.map, h'.max.trans h.max, h'.enabled.trans h.enabled,
    fun p => (h'.valid p).trans (h.valid p), fun p => (h'.pause p).trans (h.pause p)⟩

theorem find_congr (hmap : s'.peerIdToObjMap = s.peerIdToObjMap) (hmax : s'.maxPeerId = s.maxPeerId)
    (hvalid : ∀ p, (s'.peers p).valid = (s.peers p).valid) :
    s'.olTxrxPeerFindById = s.olTxrxPeerFindById := by
  funext id
  simp [olTxrxPeerFindById, hmap, hmax, hvalid]

theorem Kept.find (h : Kept s s') : s'.olTxrxPeerFindById = s.olTxrxPeerFindById :=
  find_congr h.map h.max h.valid

theorem setPeer_peers (s : PeerBalPdev) (peer : Nat) (f : BalPeer → BalPeer) (p : Nat) :
    (s.setPeer peer f).peers p = if p = peer then f (s.peers p) else s.peers p := by
  by_cases h : p = peer
  · subst h
    simp [setPeer]
  · simp [setPeer, h]

theorem setPeer_field {β : Type} (g : BalPeer → β) (h : g (f (s.peers peer)) = g (s.peers peer))
    (p : Nat) : g ((s.setPeer peer f).peers p) = g (s.peers p) := by
  rw [setPeer_peers]
  split
  · rename_i hp
    rw [hp, h]
  · rfl

theorem find_setPeer (hv : (f (s.peers peer)).valid = (s.peers peer).valid) :
    (s.setPeer peer f).olTxrxPeerFindById = s.olTxrxPeerFindById :=
  find_congr rfl rfl (setPeer_field BalPeer.valid hv)

theorem kept_setPeer (hv : (f (s.peers peer)).valid = (s.peers peer).valid)
    (hp : (f (s.peers peer)).txPauseFlag = (s.peers peer).txPauseFlag) :
    Kept s (s.setPeer peer f) :=
  ⟨rfl, rfl, rfl, setPeer_field BalPeer.valid hv, setPeer_field BalPeer.txPauseFlag hp⟩

theorem kept_startTimer (s : PeerBalPdev) : Kept s s.startTimer := by
  unfold startTimer
  split
  · exact ⟨rfl, rfl, rfl, fun _ => rfl, fun _ => rfl⟩
  · exact .refl s

theorem kept_stopTimer (s : PeerBalPdev) : Kept s s.stopTimer := by
  unfold stopTimer
  split
  · exact ⟨rfl, rfl, rfl, fun _ => rfl, fun _ => rfl⟩
  · exact .refl s

theorem kept_clearLimitFlag (s : PeerBalPdev) (peerId : Nat) : Kept s (s.clearLimitFlag peerId) := by
  unfold clearLimitFlag
  split
  · exact kept_setPeer rfl rfl
  · exact .refl s

theorem kept_limitList (s : PeerBalPdev) (l : List TxLimitPeer) : Kept s { s with limitList := l } :=
  ⟨rfl, rfl, rfl, fun _ => rfl, fun _ => rfl⟩

theorem kept_add (s : PeerBalPdev) (peerId peerLimit : Nat) :
    Kept s (s.olTxrxPeerBalAddLimitPeer peerId peerLimit) := by
  unfold olTxrxPeerBalAddLimitPeer
  split
  · exact kept_startTimer s
  · split
    · exact .refl s
    · dsimp only
      refine (kept_limitList s (s.limitList ++ [⟨true, peerId, peerLimit⟩])).trans ?_
      split
      · exact (kept_setPeer rfl rfl).trans (kept_startTimer _)
      · exact kept_startTimer _

theorem kept_remove (s : PeerBalPdev) (peerId : Nat) :
    Kept s (s.olTxrxPeerBalRemoveLimitPeer peerId) := by
  unfold olTxrxPeerBalRemoveLimitPeer
  split
  · exact (kept_limitList s _).trans ((kept_clearLimitFlag _ _).trans (kept_stopTimer _))
  · exact kept_stopTimer s

theorem kept_limitPeer (s : PeerBalPdev) (peer : Nat) (r : RateReport) :
    Kept s (s.limitPeer peer r) := by
  unfold limitPeer
  split
  · exact kept_add s _ _
  · split
    · exact kept_remove s _
    · exact .refl s

theorem kept_updateTxLimit (s : PeerBalPdev) (peer frames : Nat) :
    Kept s (s.olTxBadPeerUpdateTxLimit peer frames) := by
  unfold olTxBadPeerUpdateTxLimit
  split
  · exact kept_setPeer rfl rfl
  · exact .refl s

theorem kept_balTimerLoop (s : PeerBalPdev) : Kept s s.balTimerLoop := by
  refine foldl_keeps (fun s' i _ hk => hk.trans ?_) (.refl s)
  unfold balTimerEntry
  split
  · exact .refl s'
  · split
    · split
      · exact kept_setPeer rfl rfl
      · exact kept_remove s' _
    · exact .refl s'

/-! ### What the list operations do -/

theorem mem_limitIds {peerId : Nat} :
    peerId ∈ s.limitIds ↔ (s.limitList.any fun e => e.peerId = peerId) = true := by
  simp [limitIds]

/-- **An addition** finds the peer listed, or no place for it, or appends it and limits it. -/
theorem add_cases {peerId : Nat} (peerLimit : Nat)
    (hfind : s.olTxrxPeerFindById peerId = some peer) :
    peerId ∈ s.limitIds ∧ s.olTxrxPeerBalAddLimitPeer peerId peerLimit = s.startTimer ∨
      peerId ∉ s.limitIds ∧ s.olTxrxPeerBalAddLimitPeer peerId peerLimit = s ∨
      peerId ∉ s.limitIds ∧ s.limitList.length < maxNoPeersInLimit ∧
        s.olTxrxPeerBalAddLimitPeer peerId peerLimit =
          (setPeer { s with limitList := s.limitList ++ [⟨true, peerId, peerLimit⟩] } peer
            fun p => { p with txLimitFlag := true, txLimit := peerLimit }).startTimer := by
  by_cases hl : peerId ∈ s.limitIds
  · exact .inl ⟨hl, by rw [olTxrxPeerBalAddLimitPeer, if_pos (mem_limitIds.1 hl)]⟩
  · right
    rw [olTxrxPeerBalAddLimitPeer, if_neg (mt mem_limitIds.2 hl)]
    by_cases hn : s.limitList.length ≥ maxNoPeersInLimit
    · exact .inl ⟨hl, if_pos hn⟩
    · refine .inr ⟨hl, Nat.lt_of_not_le hn, ?_⟩
      rw [if_neg hn]
      have hfind' : PeerBalPdev.olTxrxPeerFindById
          { s with limitList := s.limitList ++ [⟨true, peerId, peerLimit⟩] } peerId = some peer := hfind
      dsimp only
      rw [hfind']

/-- **A removal** finds nothing to take out, or takes out an entry with the id. -/
theorem remove_cases (s : PeerBalPdev) (peerId : Nat) :
    peerId ∉ s.limitIds ∧ s.olTxrxPeerBalRemoveLimitPeer peerId = s.stopTimer ∨
      ∃ e l, e.peerId = peerId ∧ s.limitList.Perm (e :: l) ∧ s.olTxrxPeerBalRemoveLimitPeer peerId =
          (clearLimitFlag { s with limitList := l } peerId).stopTimer := by
  by_cases hl : peerId ∈ s.limitIds
  · right
    rw [olTxrxPeerBalRemoveLimitPeer, if_pos (mem_limitIds.1 hl)]
    rcases removeFirst_spec (fun e => e.peerId = peerId) s.limitList with
      ⟨hnone, -⟩ | ⟨l₁, e, l₂, hsplit, he, hperm⟩
    · obtain ⟨e, he, rfl⟩ := mem_map.1 hl
      simpa using hnone e he
    · refine ⟨e, _, of_decide_eq_true he, ?_, rfl⟩
      rw [hsplit] at hperm ⊢
      exact perm_middle.trans (hperm.symm.cons e)
  · exact .inl ⟨hl, by rw [olTxrxPeerBalRemoveLimitPeer, if_neg (mt mem_limitIds.2 hl)]⟩

theorem pausePeer_fst (s : PeerBalPdev) (peer : Nat) (r : RateReport) :
    ∃ b, (s.pausePeer peer r).1 = s.setPeer peer fun p => { p with txPauseFlag := b } := by
  unfold pausePeer
  split
  · exact ⟨true, rfl⟩
  · split
    · exact ⟨false, rfl⟩
    · refine ⟨(s.peers peer).txPauseFlag, ?_⟩
      rw [setPeer]
      dsimp only
      rw [update_eq_self]

end PeerBalPdev

end Qcacld.Txrx

import Qcacld.Support.Marks
import Qcacld.Support.Runs
import Qcacld.Txrx.TxPeerBal

/-!
# Txrx — TxPeerBalList

The limit list of bad-peer flow control over whole runs: link-status reports, the timer, dequeues, and peers that come, go and change their ids, in any order.

The timer's walk takes an entry out by moving the last one into its place, and goes on to the next index: the entry that was moved is not looked at.  The list is by id and the flag by peer, so that they keep step only as long as a listed id leads to the peer it was listed for, and no other id of that peer is listed.  And the timer's call starts the timer again outside the mutex, after it has seen that the list is not empty.
-/

namespace Qcacld.Txrx
open Qcacld.Support List Option Nat

/-! ### The machine -/

/-- How far a call of `ol_tx_pdev_peer_bal_timer` has come: there is none, it has walked the list, or it has seen that the list is not empty. -/
inductive BalTimerCall where
  | idle | walked | restarting
deriving DecidableEq

structure BalState where
  bal : PeerBalPdev
  call : BalTimerCall

inductive BalEvent where
  | attach (peer : Nat)
  | detach (peer : Nat)
  | map (peerId : Nat) (peer : Option Nat)
  | setSetting (enable : Bool)
  | updateThreshold (level : Nat) (thresh : TxPeerThreshold)
  | report (r : RateReport)
  | dequeue (peer frames : Nat)
  | timerExpire
  | timerCheck
  | timerStart

namespace PeerBalPdev

/-- `ol_txrx_peer_attach`: the peer is valid, and the rest of it is zero. -/
def attachPeer (s : PeerBalPdev) (peer : Nat) : PeerBalPdev :=
  s.setPeer peer fun _ => ⟨true, false, 0, false⟩

/-- `ol_txrx_peer_detach`. -/
def detachPeer (s : PeerBalPdev) (peer : Nat) : PeerBalPdev :=
  s.setPeer peer fun p => { p with valid := false }

/-- `ol_txrx_peer_find_add_id`, or `ol_rx_peer_unmap_handler` for no peer. -/
def mapPeer (s : PeerBalPdev) (peerId : Nat) (peer : Option Nat) : PeerBalPdev :=
  { s with peerIdToObjMap := Function.update s.peerIdToObjMap peerId peer }

/-- A peer object that may be attached: no id leads to it. -/
def Unused (s : PeerBalPdev) (peer : Nat) : Prop :=
  (s.peers peer).valid = false ∧ ∀ peerId ≤ s.maxPeerId, s.peerIdToObjMap peerId ≠ some peer
deriving Decidable

end PeerBalPdev

/-- One event.  The walk of the timer, and the turn of a report for one peer, are under the mutex; what the timer's call does after its walk is not. -/
def balStep (s : BalState) : BalEvent → Option BalState
  | .attach peer => do guard (s.bal.Unused peer); return { s with bal := s.bal.attachPeer peer }
  | .detach peer => some { s with bal := s.bal.detachPeer peer }
  | .map peerId peer => some { s with bal := s.bal.mapPeer peerId peer }
  | .setSetting enable => some { s with bal := { s.bal with enabled := enable } }
  | .updateThreshold level thresh =>
    some { s with
      bal := { s.bal with ctlThresh := Function.update s.bal.ctlThresh level thresh } }
  | .report r => do
    guard (s.bal.enabled = true ∧ r.phy ≤ txrxIeee11Ac)
    return { s with bal := (s.bal.linkStatus r).1 }
  | .dequeue peer frames => some { s with bal := s.bal.olTxBadPeerUpdateTxLimit peer frames }
  | .timerExpire => do
    guard (s.bal.timer = true ∧ s.call = .idle)
    return ⟨PeerBalPdev.balTimerLoop { s.bal with timer := false }, .walked⟩
  | .timerCheck => do
    guard (s.call = .walked)
    return { s with call := if s.bal.limitList.length ≠ 0 then .restarting else .idle }
  | .timerStart => do
    guard (s.call = .restarting)
    return ⟨{ s.bal with timer := true }, .idle⟩

/-- From `ol_tx_badpeer_flow_cl_init` on, before there are peers. -/
def balMachine : Machine BalState BalEvent where
  init s := s.bal.limitList = [] ∧ s.bal.timerState = .inactive ∧ s.bal.timer = false ∧
    s.call = .idle ∧ (∀ p, (s.bal.peers p).valid = false) ∧ ∀ peerId, s.bal.peerIdToObjMap peerId = none
  step := balStep

/-! ### The property -/

structure LimitListRight (s : BalState) : Prop where
  nodup : s.bal.limitIds.Nodup
  length_le : s.bal.limitList.length ≤ maxNoPeersInLimit
  /-- the flag is set exactly for listed peers -/
  flag_iff : ∀ p, (s.bal.peers p).valid = true → ((s.bal.peers p).txLimitFlag = true ↔
    ∃ peerId ∈ s.bal.limitIds, s.bal.olTxrxPeerFindById peerId = some p)
  /-- with a list, the timer is started, or its call is on the way to start it -/
  running : s.bal.limitList ≠ [] → s.bal.timer = true ∨ s.call ≠ .idle
  /-- without, it is not -/
  stopped : s.bal.timer = true → s.bal.limitList ≠ []

/-- A pass of the timer drops the entries that lead to no peer, and gives every peer that is left the quota of its entry. -/
def TimerPassRight (s s' : PeerBalPdev) : Prop :=
  s'.limitList.Perm (s.limitList.filter fun e => (s.olTxrxPeerFindById e.peerId).isSome) ∧
    ∀ e ∈ s'.limitList, ∀ p, s.olTxrxPeerFindById e.peerId = some p → (s'.peers p).txLimit = e.limit

/-! ### The condition -/

/-- Of each event: a listed id goes on to lead where it led; a peer is limited under one id; the last entry is not taken off while the timer's call starts the timer again; and where the timer expires, no entry but the last leads to no peer. -/
def BalEventOk (s : BalState) : BalEvent → Prop
  | .map peerId peer => peerId ∈ s.bal.limitIds →
      (s.bal.mapPeer peerId peer).olTxrxPeerFindById peerId = s.bal.olTxrxPeerFindById peerId
  | .report r =>
    (∀ p ∈ s.bal.olTxrxPeerFindById r.id, s.bal.peerLimit p r ≠ 0 →
      ∀ peerId ∈ s.bal.limitIds, s.bal.olTxrxPeerFindById peerId = some p → peerId = r.id) ∧
    (s.call = .restarting → s.bal.limitIds = [r.id] →
      ∃ p ∈ s.bal.olTxrxPeerFindById r.id, s.bal.peerLimit p r ≠ 0)
  | .timerExpire =>
    ∀ e ∈ s.bal.limitList.dropLast, (s.bal.olTxrxPeerFindById e.peerId).isSome
  | _ => True

instance decidableBalEventOk (s : BalState) : (e : BalEvent) → Decidable (BalEventOk s e)
  | .map .. => inferInstanceAs (Decidable (_ → _))
  | .report _ => inferInstanceAs (Decidable (_ ∧ _))
  | .timerExpire => inferInstanceAs (Decidable (∀ _ ∈ _, _))
  | .attach _ | .detach _ | .setSetting _ | .updateThreshold .. | .dequeue .. | .timerCheck
  | .timerStart => .isTrue trivial

/-! ### The list and the flags -/

namespace PeerBalPdev

structure ListOk (s : PeerBalPdev) : Prop where
  marked : Marked s.limitIds s.olTxrxPeerFindById (fun p => (s.peers p).valid = true)
    fun p => (s.peers p).txLimitFlag = true
  length_le : s.limitList.length ≤ maxNoPeersInLimit
  limited : ∀ e ∈ s.limitList, e.limitFlag = true

variable {s s' : PeerBalPdev} {peer peerId limit : Nat} {e : TxLimitPeer}

theorem find_eq_some : s.olTxrxPeerFindById peerId = some peer ↔
    peerId ≤ s.maxPeerId ∧ s.peerIdToObjMap peerId = some peer ∧ (s.peers peer).valid = true := by
  unfold olTxrxPeerFindById
  by_cases h : peerId > s.maxPeerId
  · rw [if_pos h]
    exact iff_of_false (fun h => by cases h) fun hk => not_le_of_gt h hk.1
  · simp [h, Nat.le_of_not_lt h, filter_eq_some_iff]

/-- The list and the flags after a change that leaves alone which peers are valid and what leads to them. -/
theorem ListOk.of_marked {ids : List Nat} (hp : s'.limitIds.Perm ids)
    (hf : s'.olTxrxPeerFindById = s.olTxrxPeerFindById)
    (hv : ∀ p, (s'.peers p).valid = (s.peers p).valid)
    (hm : Marked ids s.olTxrxPeerFindById (fun p => (s.peers p).valid = true)
      fun p => (s'.peers p).txLimitFlag = true)
    (hn : s'.limitList.length ≤ maxNoPeersInLimit) (hl : ∀ e ∈ s'.limitList, e.limitFlag = true) :
    s'.ListOk where
  marked := by
    simpa [hf, hv] using hm.perm hp
  length_le := hn
  limited := hl

theorem ListOk.same (h : s.ListOk) (hl : s'.limitList = s.limitList)
    (hf : s'.olTxrxPeerFindById = s.olTxrxPeerFindById)
    (hv : ∀ p, (s'.peers p).valid = (s.peers p).valid)
    (hm : ∀ p, (s'.peers p).txLimitFlag = (s.peers p).txLimitFlag) : s'.ListOk := by
  have hids : s'.limitIds = s.limitIds := by rw [limitIds, hl, limitIds]
  refine .of_marked (.of_eq hids) hf hv ?_ (hl ▸ h.length_le) (hl ▸ h.limited)
  simpa [hm] using h.marked

/-- **An entry comes**, and its peer is flagged. -/
theorem ListOk.append (h : s.ListOk) (hid : peerId ∉ s.limitIds)
    (hn : s.limitList.length < maxNoPeersInLimit)
    (hfind : s.olTxrxPeerFindById peerId = some peer)
    (hother : ∀ k ∈ s.limitIds, s.olTxrxPeerFindById k ≠ some peer)
    (hl : s'.limitList = s.limitList ++ [⟨true, peerId, limit⟩])
    (hf : s'.olTxrxPeerFindById = s.olTxrxPeerFindById)
    (hv : ∀ p, (s'.peers p).valid = (s.peers p).valid)
    (hm : ∀ p, (s'.peers p).txLimitFlag = true ↔ p = peer ∨ (s.peers p).txLimitFlag = true) :
    s'.ListOk := by
  have hids : s'.limitIds = s.limitIds ++ [peerId] := by
    simp [limitIds, hl]
  refine .of_marked ?_ hf hv (h.marked.add hid hfind hother fun b _ => hm b) ?_ ?_
  · rw [hids]
    exact perm_append_singleton _ _
  · rw [hl, length_append]
    exact hn
  · intro e he
    rw [hl] at he
    rcases mem_append.1 he with he | he
    · exact h.limited e he
    · rw [mem_singleton.1 he]

/-- **An entry goes**, and its peer, if there is one, loses the flag. -/
theorem ListOk.drop (h : s.ListOk) (hl : s.limitList.Perm (e :: s'.limitList))
    (hf : s'.olTxrxPeerFindById = s.olTxrxPeerFindById)
    (hv : ∀ p, (s'.peers p).valid = (s.peers p).valid)
    (hm : ∀ p, (s'.peers p).txLimitFlag = true ↔
      (s.peers p).txLimitFlag = true ∧ s.olTxrxPeerFindById e.peerId ≠ some p) :
    s'.ListOk := by
  have hids : (e.peerId :: s'.limitIds).Perm s.limitIds := (hl.map TxLimitPeer.peerId).symm
  refine .of_marked (.refl _) hf hv ((h.marked.perm hids).remove fun b _ => hm b) ?_ ?_
  · have hlen := hl.length_eq
    rw [length_cons] at hlen
    have hn := h.length_le
    omega
  · exact fun x hx => h.limited x (hl.mem_iff.2 (mem_cons_of_mem _ hx))

/-! ### What the operations keep of the list -/

theorem startTimer_limitList (s : PeerBalPdev) : s.startTimer.limitList = s.limitList := by
  unfold startTimer
  split <;> rfl

theorem startTimer_peers (s : PeerBalPdev) : s.startTimer.peers = s.peers := by
  unfold startTimer
  split <;> rfl

theorem stopTimer_limitList (s : PeerBalPdev) : s.stopTimer.limitList = s.limitList := by
  unfold stopTimer
  split <;> rfl

theorem stopTimer_peers (s : PeerBalPdev) : s.stopTimer.peers = s.peers := by
  unfold stopTimer
  split <;> rfl

theorem clearLimitFlag_limitList (s : PeerBalPdev) (peerId : Nat) :
    (s.clearLimitFlag peerId).limitList = s.limitList := by
  unfold clearLimitFlag
  split <;> rfl

theorem clearLimitFlag_flag (s : PeerBalPdev) (peerId p : Nat) :
    ((s.clearLimitFlag peerId).peers p).txLimitFlag = true ↔
      (s.peers p).txLimitFlag = true ∧ s.olTxrxPeerFindById peerId ≠ some p := by
  unfold clearLimitFlag
  split
  · rename_i peer hfind
    rw [setPeer_peers, hfind]
    by_cases hp : p = peer
    · simp [hp]
    · simp [hp, Ne.symm hp]
  · rename_i hfind
    simp [hfind]

theorem ListOk.startTimer (h : s.ListOk) : s.startTimer.ListOk :=
  h.same (startTimer_limitList s) (kept_startTimer s).find (kept_startTimer s).valid
    fun p => by rw [startTimer_peers]

theorem ListOk.stopTimer (h : s.ListOk) : s.stopTimer.ListOk :=
  h.same (stopTimer_limitList s) (kept_stopTimer s).find (kept_stopTimer s).valid
    fun p => by rw [stopTimer_peers]

theorem ListOk.setPeer {f : BalPeer → BalPeer} (h : s.ListOk)
    (hv : (f (s.peers peer)).valid = (s.peers peer).valid)
    (hm : (f (s.peers peer)).txLimitFlag = (s.peers peer).txLimitFlag) :
    (s.setPeer peer f).ListOk :=
  h.same rfl (find_setPeer hv) (setPeer_field BalPeer.valid hv)
    (setPeer_field BalPeer.txLimitFlag hm)

theorem ListOk.add (h : s.ListOk) (hfind : s.olTxrxPeerFindById peerId = some peer)
    (hone : ∀ k ∈ s.limitIds, s.olTxrxPeerFindById k = some peer → k = peerId) (limit : Nat) :
    (s.olTxrxPeerBalAddLimitPeer peerId limit).ListOk := by
  rcases add_cases limit hfind with ⟨-, e⟩ | ⟨-, e⟩ | ⟨hid, hn, e⟩
  · rw [e]
    exact h.startTimer
  · rw [e]
    exact h
  · have hother : ∀ k ∈ s.limitIds, s.olTxrxPeerFindById k ≠ some peer :=
      fun k hk hk' => hid (hone k hk hk' ▸ hk)
    have hset : Kept { s with limitList := s.limitList ++ [⟨true, peerId, limit⟩] }
        (PeerBalPdev.setPeer { s with limitList := s.limitList ++ [⟨true, peerId, limit⟩] } peer
          fun p => { p with txLimitFlag := true, txLimit := limit }) := kept_setPeer rfl rfl
    have hk := (kept_limitList s (s.limitList ++ [⟨true, peerId, limit⟩])).trans hset
    rw [e]
    refine startTimer (h.append hid hn hfind hother rfl hk.find hk.valid fun p => ?_)
    rw [setPeer_peers]
    by_cases hp : p = peer
    · simp [hp]
    · simp [hp]

theorem ListOk.remove (h : s.ListOk) (peerId : Nat) :
    (s.olTxrxPeerBalRemoveLimitPeer peerId).ListOk := by
  rcases remove_cases s peerId with ⟨-, e⟩ | ⟨x, l, rfl, hl, e⟩
  · rw [e]
    exact h.stopTimer
  · have hk := (kept_limitList s l).trans (kept_clearLimitFlag { s with limitList := l } x.peerId)
    rw [e]
    refine stopTimer (h.drop (e := x) ?_ hk.find hk.valid fun p => ?_)
    · rw [clearLimitFlag_limitList]
      exact hl
    · exact clearLimitFlag_flag { s with limitList := l } x.peerId p

theorem ListOk.pausePeer (h : s.ListOk) (peer : Nat) (r : RateReport) :
    (s.pausePeer peer r).1.ListOk := by
  obtain ⟨b, e⟩ := pausePeer_fst s peer r
  rw [e]
  exact h.setPeer rfl rfl

theorem ListOk.dequeue (h : s.ListOk) (peer frames : Nat) :
    (s.olTxBadPeerUpdateTxLimit peer frames).ListOk := by
  unfold olTxBadPeerUpdateTxLimit
  split
  · exact h.setPeer rfl rfl
  · exact h

theorem ListOk.linkStatus {r : RateReport} (h : s.ListOk)
    (hone : ∀ p, s.olTxrxPeerFindById r.id = some p → s.peerLimit p r ≠ 0 →
      ∀ k ∈ s.limitIds, s.olTxrxPeerFindById k = some p → k = r.id) :
    (s.linkStatus r).1.ListOk := by
  unfold PeerBalPdev.linkStatus
  split
  · rename_i peer hfind
    refine pausePeer ?_ peer r
    unfold limitPeer
    split
    · rename_i hlimit
      exact h.add hfind (hone peer hfind hlimit) _
    · split
      · exact h.remove r.id
      · exact h
  · exact h.remove r.id

/-! ### Peers that come and go -/

/-- A change of the peers and of what leads to them, by `Marked.change`. -/
theorem ListOk.change (h : s.ListOk) (hl : s'.limitList = s.limitList)
    (hr : ∀ k ∈ s.limitIds, ∀ p, s'.olTxrxPeerFindById k = some p ↔
      s.olTxrxPeerFindById k = some p ∧ (s'.peers p).valid = true)
    (hm : ∀ p, (s'.peers p).valid = true → (s.peers p).valid = true ∧
        ((s'.peers p).txLimitFlag = true ↔ (s.peers p).txLimitFlag = true) ∨
      ¬ (s'.peers p).txLimitFlag = true ∧ ∀ k ∈ s.limitIds, s.olTxrxPeerFindById k ≠ some p) :
    s'.ListOk where
  marked := by
    have hids : s'.limitIds = s.limitIds := by rw [limitIds, hl, limitIds]
    rw [hids]
    exact h.marked.change hr hm
  length_le := hl ▸ h.length_le
  limited := hl ▸ h.limited

theorem ListOk.attachPeer (h : s.ListOk) (hu : s.Unused peer) : (s.attachPeer peer).ListOk := by
  have hpeers := setPeer_peers s peer fun _ => ⟨true, false, 0, false⟩
  have hfree : ∀ k, s.olTxrxPeerFindById k ≠ some peer :=
    fun k hk => hu.2 k (find_eq_some.1 hk).1 (find_eq_some.1 hk).2.1
  refine h.change rfl (fun k _ p => ?_) fun p hp => ?_
  · rw [find_eq_some, find_eq_some, PeerBalPdev.attachPeer, hpeers]
    by_cases hpp : p = peer
    · rw [hpp]
      exact iff_of_false (fun hk => hu.2 k hk.1 hk.2.1) fun hk => hu.2 k hk.1.1 hk.1.2.1
    · rw [if_neg hpp]
      exact ⟨fun hk => ⟨hk, hk.2.2⟩, And.left⟩
  · rw [PeerBalPdev.attachPeer, hpeers] at hp ⊢
    by_cases hpp : p = peer
    · right
      simp [hpp, hfree]
    · left
      simpa [hpp] using hp

theorem ListOk.detachPeer (h : s.ListOk) (peer : Nat) : (s.detachPeer peer).ListOk := by
  have hpeers := setPeer_peers s peer fun p => { p with valid := false }
  refine h.change rfl (fun k _ p => ?_) fun p hp => ?_
  · rw [find_eq_some, find_eq_some, PeerBalPdev.detachPeer, hpeers]
    by_cases hpp : p = peer
    · rw [if_pos hpp]
      exact iff_of_false (fun hk => nomatch hk.2.2) fun hk => nomatch hk.2
    · rw [if_neg hpp]
      exact ⟨fun hk => ⟨hk, hk.2.2⟩, And.left⟩
  · rw [PeerBalPdev.detachPeer, hpeers] at hp ⊢
    left
    by_cases hpp : p = peer
    · simp [hpp] at hp
    · simpa [hpp] using hp

theorem ListOk.mapPeer {o : Option Nat} (h : s.ListOk) (hk : peerId ∈ s.limitIds →
      (s.mapPeer peerId o).olTxrxPeerFindById peerId = s.olTxrxPeerFindById peerId) :
    (s.mapPeer peerId o).ListOk := by
  refine h.change rfl (fun k hk' p => ?_) fun p hp => .inl ⟨hp, .rfl⟩
  have hfind : (s.mapPeer peerId o).olTxrxPeerFindById k = s.olTxrxPeerFindById k := by
    by_cases hkk : k = peerId
    · exact hkk ▸ hk (hkk ▸ hk')
    · simp [olTxrxPeerFindById, PeerBalPdev.mapPeer, hkk]
  rw [hfind]
  exact ⟨fun e => ⟨e, (find_eq_some.1 e).2.2⟩, And.left⟩

/-! ### The pass of the timer -/

/-- After some turns of the timer's walk that have taken nothing out. -/
structure Restored (s s' : PeerBalPdev) (k : ℕ) : Prop where
  list : s'.limitList = s.limitList
  timer : s'.timer = s.timer
  state : s'.timerState = s.timerState
  kept : Kept s s'
  flag : ∀ p, (s'.peers p).txLimitFlag = (s.peers p).txLimitFlag
  limit : ∀ e ∈ s.limitList.take k, ∀ p, s.olTxrxPeerFindById e.peerId = some p →
    (s'.peers p).txLimit = e.limit

theorem ListOk.eq_of_find {x : TxLimitPeer} (h : s.ListOk) (he : e ∈ s.limitList)
    (hx : x ∈ s.limitList) (hpe : s.olTxrxPeerFindById e.peerId = some peer)
    (hpx : s.olTxrxPeerFindById x.peerId = some peer) : e = x := by
  have hid := h.marked.apart _ (mem_map_of_mem he) _ (mem_map_of_mem hx) peer hpe hpx
  exact inj_on_of_nodup_map h.marked.nodup he hx hid

theorem Restored.step {k : ℕ} (h : s.ListOk) (hr : Restored s s' k) (hk : k < s.limitList.length)
    (halive : (s.olTxrxPeerFindById (s.limitList[k]).peerId).isSome) :
    Restored s (s'.balTimerEntry k) (k + 1) := by
  obtain ⟨peer, hfind⟩ := isSome_iff_exists.1 halive
  have hmem : s.limitList[k] ∈ s.limitList := getElem_mem hk
  have hentry : s'.balTimerEntry k =
      s'.setPeer peer fun p => { p with txLimit := (s.limitList[k]).limit } := by
    unfold balTimerEntry
    rw [hr.list, getElem?_eq_getElem hk]
    dsimp only
    rw [if_pos (h.limited _ hmem), hr.kept.find, hfind]
  rw [hentry]
  refine ⟨hr.list, hr.timer, hr.state, hr.kept.trans (kept_setPeer rfl rfl), fun p => ?_,
    fun e he p hp => ?_⟩
  · rw [setPeer_field BalPeer.txLimitFlag rfl, hr.flag]
  · rw [setPeer_peers]
    rw [take_succ_eq_append_getElem hk] at he
    rcases mem_append.1 he with he | he
    · by_cases hpp : p = peer
      · rw [if_pos hpp, h.eq_of_find (mem_of_mem_take he) hmem hp (hpp ▸ hfind)]
      · rw [if_neg hpp]
        exact hr.limit e he p hp
    · rw [mem_singleton.1 he, hfind] at hp
      rw [mem_singleton.1 he, if_pos (some_inj.1 hp).symm]

theorem restored_foldl (h : s.ListOk) {k : ℕ} (hk : k ≤ s.limitList.length)
    (halive : ∀ e ∈ s.limitList.take k, (s.olTxrxPeerFindById e.peerId).isSome) :
    Restored s ((range k).foldl balTimerEntry s) k := by
  induction k with
  | zero => exact ⟨rfl, rfl, rfl, .refl s, fun _ => rfl, fun e he => nomatch he⟩
  | succ k ih =>
    rw [take_succ_eq_append_getElem hk] at halive
    have hr := ih (le_of_succ_le hk) fun e he => halive e (mem_append_left _ he)
    rw [range_succ, foldl_append]
    exact hr.step h hk (halive _ (mem_append_right _ (mem_singleton_self _)))

/-- **The walk**, when only the last entry may lead to no peer: nothing is taken out, or the last entry is, at the end. -/
theorem balTimerLoop_cases (h : s.ListOk)
    (hlast : ∀ e ∈ s.limitList.dropLast, (s.olTxrxPeerFindById e.peerId).isSome) :
    (∀ e ∈ s.limitList, (s.olTxrxPeerFindById e.peerId).isSome) ∧
        Restored s s.balTimerLoop s.limitList.length ∨
      ∃ l e s₁, s.limitList = l ++ [e] ∧ s.olTxrxPeerFindById e.peerId = none ∧
        Restored s s₁ l.length ∧ s.balTimerLoop = s₁.olTxrxPeerBalRemoveLimitPeer e.peerId := by
  rcases s.limitList.eq_nil_or_concat with hnil | ⟨l, e, hl⟩
  · left
    have halive : ∀ e ∈ s.limitList, (s.olTxrxPeerFindById e.peerId).isSome := by
      simp [hnil]
    exact ⟨halive, restored_foldl h (le_refl _) fun e he => halive e (mem_of_mem_take he)⟩
  · rw [concat_eq_append] at hl
    rw [hl, dropLast_concat] at hlast
    cases hfind : s.olTxrxPeerFindById e.peerId with
    | some p =>
      left
      have halive : ∀ x ∈ s.limitList, (s.olTxrxPeerFindById x.peerId).isSome := by
        intro x hx
        rw [hl] at hx
        rcases mem_append.1 hx with hx | hx
        · exact hlast x hx
        · rw [mem_singleton.1 hx, hfind]
          rfl
      exact ⟨halive, restored_foldl h (le_refl _) fun x hx => halive x (mem_of_mem_take hx)⟩
    | none =>
      right
      have hlen : s.limitList.length = l.length + 1 := by rw [hl, length_append]; rfl
      have htake : s.limitList.take l.length = l := by rw [hl, take_left]
      have hr := restored_foldl h (le_of_succ_le (le_of_eq hlen.symm)) (htake.symm ▸ hlast)
      refine ⟨l, e, _, hl, hfind, hr, ?_⟩
      rw [balTimerLoop, hlen, range_succ, foldl_append, foldl_cons, foldl_nil]
      generalize (range l.length).foldl balTimerEntry s = s₁ at hr ⊢
      have hget : s.limitList[l.length]? = some e := by rw [hl, getElem?_concat_length]
      have hmem : e ∈ s.limitList := mem_of_getElem? hget
      unfold balTimerEntry
      rw [hr.list, hget]
      dsimp only
      rw [if_pos (h.limited e hmem), hr.kept.find, hfind]

theorem Restored.listOk {k : ℕ} (h : s.ListOk) (hr : Restored s s' k) : s'.ListOk :=
  h.same hr.list hr.kept.find hr.kept.valid hr.flag

theorem remove_dead {l : List TxLimitPeer} (h : s.ListOk) (hl : s.limitList = l ++ [e])
    (hdead : s.olTxrxPeerFindById e.peerId = none) :
    (s.olTxrxPeerBalRemoveLimitPeer e.peerId).limitList.Perm l ∧
      (s.olTxrxPeerBalRemoveLimitPeer e.peerId).peers = s.peers := by
  have hmem : e ∈ s.limitList := by simp [hl]
  rcases remove_cases s e.peerId with ⟨hid, -⟩ | ⟨x, l', hx, hp, heq⟩
  · exact absurd (mem_map_of_mem hmem) hid
  · have hxe : x = e :=
      inj_on_of_nodup_map h.marked.nodup (hp.mem_iff.2 (mem_cons_self ..)) hmem hx
    have hclear : clearLimitFlag { s with limitList := l' } e.peerId = { s with limitList := l' } := by
      have hnone : olTxrxPeerFindById { s with limitList := l' } e.peerId = none := hdead
      rw [clearLimitFlag, hnone]
    rw [heq, hclear, stopTimer_limitList, stopTimer_peers]
    refine ⟨?_, rfl⟩
    rw [hl, hxe] at hp
    exact ((perm_append_singleton e l).symm.trans hp).cons_inv.symm

/-- **A pass** that finds no dead entry before the last. -/
theorem balTimerLoop_right (h : s.ListOk)
    (hlast : ∀ e ∈ s.limitList.dropLast, (s.olTxrxPeerFindById e.peerId).isSome) :
    TimerPassRight s s.balTimerLoop := by
  rcases balTimerLoop_cases h hlast with ⟨halive, hr⟩ | ⟨l, e, s₁, hl, hdead, hr, heq⟩
  · constructor
    · rw [hr.list, filter_eq_self.2 halive]
    · intro e he p hp
      refine hr.limit e ?_ p hp
      rw [take_length]
      exact hr.list ▸ he
  · have halive : ∀ x ∈ l, (s.olTxrxPeerFindById x.peerId).isSome := by
      simpa [hl] using hlast
    have hdead₁ : s₁.olTxrxPeerFindById e.peerId = none := by rw [hr.kept.find, hdead]
    obtain ⟨hperm, hpeers⟩ := remove_dead (hr.listOk h) (hr.list.trans hl) hdead₁
    rw [heq]
    constructor
    · have hfilter : s.limitList.filter (fun e => (s.olTxrxPeerFindById e.peerId).isSome) = l := by
        simp [hl, hdead, filter_eq_self.2 halive]
      rw [hfilter]
      exact hperm
    · intro x hx p hp
      rw [hpeers]
      refine hr.limit x ?_ p hp
      rw [hl, take_left]
      exact hperm.mem_iff.1 hx

theorem ListOk.balTimerLoop (h : s.ListOk)
    (hlast : ∀ e ∈ s.limitList.dropLast, (s.olTxrxPeerFindById e.peerId).isSome) :
    s.balTimerLoop.ListOk := by
  rcases balTimerLoop_cases h hlast with ⟨-, hr⟩ | ⟨l, e, s₁, -, -, hr, heq⟩
  · exact hr.listOk h
  · rw [heq]
    exact (hr.listOk h).remove e.peerId

/-! ### The timer -/

structure TimerOk (s : PeerBalPdev) (call : BalTimerCall) : Prop where
  inactive_iff : s.timerState = .inactive ↔ s.limitList = []
  running : s.limitList ≠ [] → s.timer = true ∨ call ≠ .idle
  stopped : s.timer = true → s.limitList ≠ []
  restarting : call = .restarting → s.limitList ≠ []

variable {call : BalTimerCall}

theorem TimerOk.same (h : s.TimerOk call) (hl : s'.limitList = s.limitList)
    (hs : s'.timerState = s.timerState) (ht : s'.timer = s.timer) : s'.TimerOk call := by
  refine ⟨?_, ?_, ?_, ?_⟩
  · rw [hs, hl]
    exact h.inactive_iff
  · rw [hl, ht]
    exact h.running
  · rw [hl, ht]
    exact h.stopped
  · rw [hl]
    exact h.restarting

/-- **The timer is started** for a list that has an entry more, or the one it had. -/
theorem TimerOk.startTimer (h : s.TimerOk call) (hl : s'.limitList ≠ [])
    (hs : s'.timerState = s.timerState) (ht : s'.timer = s.timer) : s'.startTimer.TimerOk call := by
  unfold PeerBalPdev.startTimer
  by_cases hi : s'.timerState = .inactive
  · rw [if_pos hi]
    exact ⟨iff_of_false (fun h => nomatch h) hl, fun _ => .inl rfl, fun _ => hl, fun _ => hl⟩
  · rw [if_neg hi]
    refine ⟨iff_of_false hi hl, fun _ => ?_, fun _ => hl, fun _ => hl⟩
    rw [ht]
    exact h.running fun hnil => hi (hs.trans (h.inactive_iff.2 hnil))

/-- **The timer is stopped** for a list that has an entry less, or the one it had. -/
theorem TimerOk.stopTimer (h : s.TimerOk call) (hl : s'.limitList ≠ [] → s.limitList ≠ [])
    (hs : s'.timerState = s.timerState) (ht : s'.timer = s.timer)
    (hc : call = .restarting → s'.limitList ≠ []) : s'.stopTimer.TimerOk call := by
  unfold PeerBalPdev.stopTimer
  by_cases hn : s'.limitList = []
  · rw [if_pos (length_eq_zero_iff.2 hn)]
    exact ⟨iff_of_true rfl hn, fun h => absurd hn h, fun h => (nomatch h), hc⟩
  · rw [if_neg (mt length_eq_zero_iff.1 hn)]
    refine ⟨iff_of_false (fun hi => ?_) hn, fun _ => ?_, fun _ => hn, hc⟩
    · exact hl hn (h.inactive_iff.1 (hs.symm.trans hi))
    · rw [ht]
      exact h.running (hl hn)

theorem clearLimitFlag_timer (s : PeerBalPdev) (peerId : Nat) :
    (s.clearLimitFlag peerId).timer = s.timer ∧
      (s.clearLimitFlag peerId).timerState = s.timerState := by
  unfold clearLimitFlag
  split <;> exact ⟨rfl, rfl⟩

theorem TimerOk.add (h : s.TimerOk call) (hfind : s.olTxrxPeerFindById peerId = some peer)
    (limit : Nat) : (s.olTxrxPeerBalAddLimitPeer peerId limit).TimerOk call := by
  rcases add_cases limit hfind with ⟨hid, e⟩ | ⟨-, e⟩ | ⟨-, -, e⟩
  · rw [e]
    refine h.startTimer (fun hnil => ?_) rfl rfl
    rw [limitIds, hnil] at hid
    cases hid
  · rw [e]
    exact h
  · rw [e]
    refine h.startTimer ?_ rfl rfl
    exact append_ne_nil_of_right_ne_nil _ (cons_ne_nil _ _)

theorem TimerOk.remove (h : s.TimerOk call) (hlast : call = .restarting → s.limitIds ≠ [peerId]) :
    (s.olTxrxPeerBalRemoveLimitPeer peerId).TimerOk call := by
  rcases remove_cases s peerId with ⟨-, e⟩ | ⟨x, l, rfl, hl, e⟩
  · rw [e]
    exact h.stopTimer id rfl rfl h.restarting
  · obtain ⟨ht, hs⟩ := clearLimitFlag_timer { s with limitList := l } x.peerId
    rw [e]
    refine h.stopTimer (fun _ hnil => ?_) hs ht fun hc hnil => hlast hc ?_
    · rw [hnil] at hl
      exact absurd hl.symm.eq_nil (cons_ne_nil _ _)
    · rw [clearLimitFlag_limitList] at hnil
      change l = [] at hnil
      rw [hnil] at hl
      rw [limitIds, hl.eq_singleton, map_singleton]

theorem TimerOk.linkStatus {r : RateReport} (h : s.TimerOk call)
    (hlast : call = .restarting → s.limitIds = [r.id] →
      ∃ p, s.olTxrxPeerFindById r.id = some p ∧ s.peerLimit p r ≠ 0) :
    (s.linkStatus r).1.TimerOk call := by
  unfold PeerBalPdev.linkStatus
  split
  · rename_i peer hfind
    obtain ⟨b, e⟩ := pausePeer_fst (s.limitPeer peer r) peer r
    rw [e]
    refine same (s := s.limitPeer peer r) ?_ rfl rfl rfl
    unfold limitPeer
    split
    · exact h.add hfind _
    · rename_i hlimit
      split
      · refine h.remove fun hc hids => ?_
        obtain ⟨p, hp, hne⟩ := hlast hc hids
        exact hlimit (some_inj.1 (hfind.symm.trans hp) ▸ hne)
      · exact h
  · rename_i hfind
    refine h.remove fun hc hids => ?_
    obtain ⟨p, hp, -⟩ := hlast hc hids
    exact by cases hfind.symm.trans hp

theorem TimerOk.dequeue (h : s.TimerOk call) (peer frames : Nat) :
    (s.olTxBadPeerUpdateTxLimit peer frames).TimerOk call := by
  unfold olTxBadPeerUpdateTxLimit
  split
  · exact h.same rfl rfl rfl
  · exact h

theorem TimerOk.balTimerLoop (hl : s.ListOk) (h : s.TimerOk .walked)
    (hlast : ∀ e ∈ s.limitList.dropLast, (s.olTxrxPeerFindById e.peerId).isSome) :
    s.balTimerLoop.TimerOk .walked := by
  rcases balTimerLoop_cases hl hlast with ⟨-, hr⟩ | ⟨l, e, s₁, -, -, hr, heq⟩
  · exact h.same hr.list hr.state hr.timer
  · rw [heq]
    exact (h.same hr.list hr.state hr.timer).remove fun hc => nomatch hc

theorem TimerOk.check (h : s.TimerOk call) :
    s.TimerOk (if s.limitList.length ≠ 0 then .restarting else .idle) := by
  by_cases hn : s.limitList = []
  · rw [if_neg (not_not.2 (length_eq_zero_iff.2 hn))]
    exact ⟨h.inactive_iff, fun hne => absurd hn hne, h.stopped, nofun⟩
  · rw [if_pos (mt length_eq_zero_iff.1 hn)]
    exact ⟨h.inactive_iff, fun _ => .inr nofun, h.stopped, fun _ => hn⟩

end PeerBalPdev

/-! ### The runs -/

open PeerBalPdev

structure BalInv (s : BalState) : Prop where
  list : s.bal.ListOk
  timer : s.bal.TimerOk s.call

/-- **The step lemma.** -/
theorem balInv_step {s s' : BalState} {e : BalEvent} (h : BalInv s) (hok : BalEventOk s e)
    (hs : balStep s e = some s') : BalInv s' := by
  cases e with
  | attach peer =>
    obtain ⟨hu, rfl⟩ := guarded_eq_some.1 hs
    exact ⟨h.list.attachPeer hu, h.timer.same rfl rfl rfl⟩
  | detach peer =>
    cases hs
    exact ⟨h.list.detachPeer peer, h.timer.same rfl rfl rfl⟩
  | map peerId peer =>
    cases hs
    exact ⟨h.list.mapPeer hok, h.timer.same rfl rfl rfl⟩
  | setSetting enable =>
    cases hs
    exact ⟨h.list.same rfl rfl (fun _ => rfl) fun _ => rfl, h.timer.same rfl rfl rfl⟩
  | updateThreshold level thresh =>
    cases hs
    exact ⟨h.list.same rfl rfl (fun _ => rfl) fun _ => rfl, h.timer.same rfl rfl rfl⟩
  | report r =>
    obtain ⟨-, rfl⟩ := guarded_eq_some.1 hs
    exact ⟨h.list.linkStatus hok.1, h.timer.linkStatus hok.2⟩
  | dequeue peer frames =>
    cases hs
    exact ⟨h.list.dequeue peer frames, h.timer.dequeue peer frames⟩
  | timerExpire =>
    obtain ⟨⟨ht, -⟩, rfl⟩ := guarded_eq_some.1 hs
    have hl : ListOk { s.bal with timer := false } := h.list.same rfl rfl (fun _ => rfl) fun _ => rfl
    have hw : TimerOk { s.bal with timer := false } .walked :=
      ⟨h.timer.inactive_iff, fun _ => .inr nofun, nofun, nofun⟩
    exact ⟨hl.balTimerLoop hok, hw.balTimerLoop hl hok⟩
  | timerCheck =>
    obtain ⟨-, rfl⟩ := guarded_eq_some.1 hs
    exact ⟨h.list, h.timer.check⟩
  | timerStart =>
    obtain ⟨hc, rfl⟩ := guarded_eq_some.1 hs
    have hne := h.timer.restarting hc
    refine ⟨h.list.same rfl rfl (fun _ => rfl) fun _ => rfl, ?_⟩
    exact ⟨h.timer.inactive_iff, fun _ => .inl rfl, fun _ => hne, nofun⟩

theorem balInv_init {s : BalState} (h : balMachine.init s) : BalInv s := by
  obtain ⟨hl, hs, ht, hc, hv, -⟩ := h
  constructor
  · refine ⟨?_, by simp [hl], by simp [hl]⟩
    rw [limitIds, hl]
    exact .empty fun p hp => by simp [hv p] at hp
  · exact ⟨iff_of_true hs hl, fun h => absurd hl h, fun h => (by cases ht.symm.trans h),
      fun h => (by cases hc.symm.trans h)⟩

/-- **The limit list over runs.** In every run that meets the condition the list is as it should be wherever it goes, and each pass of the timer does what it is for. -/
theorem limit_list_right {s : BalState} (h : balMachine.Reach BalEventOk s) :
    LimitListRight s ∧ ∀ s', balStep s .timerExpire = some s' → BalEventOk s .timerExpire →
      TimerPassRight s.bal s'.bal := by
  have hinv : BalInv s := h.invariant BalInv (fun _ h₀ => balInv_init h₀)
    fun _ _ _ hi hok hs => balInv_step hi hok hs
  obtain ⟨hl, ht⟩ := hinv
  refine ⟨⟨hl.marked.nodup, hl.length_le, hl.marked.marked_iff, ht.running, ht.stopped⟩, ?_⟩
  intro s' hs hok
  obtain ⟨-, rfl⟩ := guarded_eq_some.1 hs
  have hl' : ListOk { s.bal with timer := false } := hl.same rfl rfl (fun _ => rfl) fun _ => rfl
  exact balTimerLoop_right hl' hok

/-- No peers yet, 40 ids, and for every PHY mode a quota of 5 below a rate of 100. -/
def balStart : BalState where
  bal :=
    { peers := fun _ => ⟨false, false, 0, false⟩
      peerIdToObjMap := fun _ => none
      maxPeerId := 40
      enabled := true
      timerState := .inactive
      timer := false
      limitList := []
      ctlThresh := fun _ => ⟨100, 5⟩ }
  call := .idle

theorem balStart_init : balMachine.init balStart :=
  ⟨rfl, rfl, rfl, rfl, fun _ => rfl, fun _ => rfl⟩

/-- Two peers are paused and then limited, and the second uses some of its quota. -/
def twoLimited : List BalEvent :=
  [.attach 1, .attach 2, .map 10 (some 1), .map 20 (some 2), .report ⟨10, 0, 0⟩, .report ⟨20, 0, 0⟩,
    .report ⟨10, 0, 50⟩, .report ⟨20, 0, 50⟩, .dequeue 2 3]

/-- The first peer is deleted: its entry is taken out, the second's moves to its place, and its quota is not restored. -/
theorem movedEntry_notRestored : ¬ ∀ s, balMachine.Reach (fun _ _ => True) s →
    LimitListRight s ∧ ∀ s', balStep s .timerExpire = some s' → TimerPassRight s.bal s'.bal := by
  intro h
  obtain ⟨s, hs, hfind, hpass⟩ : ∃ s, balMachine.run balStart (twoLimited ++ [.detach 1]) = some s ∧
      s.bal.olTxrxPeerFindById 20 = some 2 ∧ ((balStep s .timerExpire).map fun s' =>
        (s'.bal.limitList, (s'.bal.peers 2).txLimit)) = some ([⟨true, 20, 5⟩], 2) :=
    Machine.exists_run (by decide +kernel)
  obtain ⟨s', hs', hpass⟩ := map_eq_some_iff.1 hpass
  obtain ⟨hlist, hlimit⟩ := Prod.mk.inj hpass
  have hright := (h s (Machine.reach_of_run balStart_init hs)).2 s' hs'
  have hquota := hright.2 ⟨true, 20, 5⟩ (hlist ▸ mem_singleton_self _) 2 hfind
  exact absurd (hquota.symm.trans hlimit) (by decide)

theorem limit_list_right_lastDeleted : ∃ s s', balMachine.run balStart (twoLimited ++ [.detach 2]) = some s ∧
    balStep s .timerExpire = some s' ∧ s'.bal.limitIds = [10] ∧
    LimitListRight s ∧ TimerPassRight s.bal s'.bal := by
  obtain ⟨s, hs, hr, hok, hpass⟩ : ∃ s, balMachine.run balStart (twoLimited ++ [.detach 2]) = some s ∧
      balMachine.Reach BalEventOk s ∧ BalEventOk s .timerExpire ∧
      ((balStep s .timerExpire).map fun s' => s'.bal.limitIds) = some [10] :=
    Machine.exists_reach balStart_init (by decide +kernel) (by decide +kernel)
  obtain ⟨s', hs', hids⟩ := map_eq_some_iff.1 hpass
  have hright := limit_list_right hr
  exact ⟨s, s', hs, hs', hids, hright.1, hright.2 s' hs' hok⟩

end Qcacld.Txrx

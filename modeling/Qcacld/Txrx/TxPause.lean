import Qcacld.Support.Pointwise
import Qcacld.Txrx.TxCredit

/-!
# Txrx — TxPause

Pausing.  Attach pauses a peer's queues until the target is ready for it, and each reason a vdev is paused for pauses the queues of all its peers once more; one counter a queue counts them all, and a queue is handed back to the scheduler when the counter reaches zero.

`hl_paused_reason` is a word of flags, the counter a number, and they keep step only as long as each call that raises the flags raises the counter too: the invariant (`QueueOk`) is that the counter is no less than what is outstanding.
-/

namespace Qcacld.Txrx
open Qcacld.Support Function List Option Nat TxFrmsQueue

/-! ### The state -/

structure PausePdev where
  hl : HlPdev
  /-- `vdev_list` -/
  vdevs : List Nat
  /-- the `peer_list`s of all vdevs: each peer, with its vdev -/
  peers : List (Nat × Nat)
  hlPausedReason : Nat → BitVec 32
  /-- `tx_throttle.is_paused` -/
  throttled : Bool
  /-- Ghost: of which of its peers' queues the attach pause is still to be removed. -/
  due : Nat → Nat → Bool

/-- `vdev->peer_list`. -/
def PausePdev.peerList (s : PausePdev) (vdev : Nat) : List Nat :=
  (s.peers.filter fun peer => peer.2 = vdev).map Prod.fst

/-! ### The operations -/

def olTxrxPeerPauseBase (p : HlPdev) (peer : Nat) : HlPdev :=
  (List.range olTxNumTids).foldl (fun p tid => olTxrxPeerTidPauseBase p peer tid) p

/-- `ol_txrx_peer_tid_unpause` of some TIDs of a peer, one after the other. -/
def olTxrxPeerTidsUnpause (p : HlPdev) (peer : Nat) (tids : List Nat) : HlPdev :=
  tids.foldl (fun p tid => olTxrxPeerTidUnpauseBase p peer tid) p

def olTxrxVdevPause (s : PausePdev) (vdev : Nat) (reason : BitVec 32) : PausePdev :=
  if s.hlPausedReason vdev &&& reason = 0 then
    { s with
      hlPausedReason := update s.hlPausedReason vdev (s.hlPausedReason vdev ||| reason)
      hl := (s.peerList vdev).foldl olTxrxPeerPauseBase s.hl }
  else s

/-- `ol_txrx_vdev_unpause`.  The scheduling it starts is not part of it. -/
def olTxrxVdevUnpause (s : PausePdev) (vdev : Nat) (reason : BitVec 32) : PausePdev :=
  if s.hlPausedReason vdev &&& reason ≠ 0 then
    { s with
      hlPausedReason :=
        update s.hlPausedReason vdev (s.hlPausedReason vdev &&& ~~~reason)
      hl := (s.peerList vdev).foldl
        (fun p peer => olTxrxPeerTidsUnpause p peer (List.range olTxNumTids)) s.hl }
  else s

def olTxqPauseReasonThrottle : BitVec 32 := 1 <<< 6

def olTxrxThrottlePause (s : PausePdev) : PausePdev :=
  if s.throttled then s
  else s.vdevs.foldl (fun s vdev => olTxrxVdevPause s vdev olTxqPauseReasonThrottle)
    { s with throttled := true }

def olTxrxThrottleUnpause (s : PausePdev) : PausePdev :=
  if s.throttled then
    s.vdevs.foldl (fun s vdev => olTxrxVdevUnpause s vdev olTxqPauseReasonThrottle)
      { s with throttled := false }
  else s

/-- What `ol_txrx_peer_attach` does to the queues and the lists.  It calls `ol_txrx_peer_pause`, which `ol_txrx_ctrl_api.h` defines as a no-op for every build; `attachPauses` is whether it pauses all queues of the peer after all, as the comments of `ol_rx_peer_map_handler` have it. -/
def olTxrxPeerAttach (attachPauses : Bool) (s : PausePdev) (vdev peer : Nat)
    (groupPtr : Nat → Option Nat) : PausePdev :=
  let hl := (List.range olTxNumTids).foldl
    (fun p tid => p.setTxq (.peer peer tid) (.attached (groupPtr tid))) s.hl
  { s with
    hl := if attachPauses then olTxrxPeerPauseBase hl peer else hl
    peers := s.peers ++ [(peer, vdev)]
    due := fun n tid => if n = peer then true else s.due n tid }

/-- The target is ready for some TIDs of a peer. -/
def peerTidsReady (s : PausePdev) (peer : Nat) (tids : List Nat) : PausePdev :=
  { s with
    hl := olTxrxPeerTidsUnpause s.hl peer tids
    due := fun n tid => if n = peer ∧ tid ∈ tids then false else s.due n tid }

/-- `ol_txrx_peer_tx_ready_handler`: all TIDs but that of management frames. -/
def olTxrxPeerTxReadyHandler (s : PausePdev) (peer : Nat) : PausePdev :=
  peerTidsReady s peer ((List.range olTxNumTids).filter (· ≠ extTidMgmt))

/-- `ol_rx_peer_map_handler`, when the target is not ready yet: management frames only. -/
def olRxPeerMapHandler (s : PausePdev) (peer : Nat) : PausePdev :=
  peerTidsReady s peer [extTidMgmt]

/-- What `ol_tx_queue_vdev_flush` does to a queue: those of peers are freed if they have frames. -/
def flushTxq (p : HlPdev) (q : TxqId) : HlPdev :=
  match q with
  | .vdev _ _ => (olTxQueueFree p q (flushTid q)).1
  | .peer _ _ => if (p.txqs q).frms ≠ 0 then (olTxQueueFree p q (flushTid q)).1 else p

/-! ### The machine -/

inductive PauseEvent where
  | attach (vdev peer : Nat) (groupPtr : Nat → Option Nat)
  | vdevPause (vdev : Nat) (reason : BitVec 32)
  | vdevUnpause (vdev : Nat) (reason : BitVec 32)
  | throttlePause
  | throttleUnpause
  | txReady (peer : Nat)
  | peerMap (peer : Nat)
  | enqueue (q : TxqId) (frm : TxFrm)
  | flush (q : TxqId)
  | selectInit
  | select (sctx : SchedCtx) (credit : Nat)
  | discard (frms : Nat) (txDescs : List TxFrm) (force : Bool)

/-- The queues of peers that are attached, and those of vdevs. -/
def PausePdev.Attached (s : PausePdev) : TxqId → Prop
  | .peer peer tid => tid < olTxNumTids ∧ peer ∈ s.peers.map Prod.fst
  | .vdev _ i => i < olTxVdevNumQueues

instance (s : PausePdev) : DecidablePred s.Attached
  | .peer peer tid => inferInstanceAs (Decidable (tid < olTxNumTids ∧ peer ∈ s.peers.map Prod.fst))
  | .vdev _ i => inferInstanceAs (Decidable (i < olTxVdevNumQueues))

def pauseStep (attachPauses : Bool) (s : PausePdev) : PauseEvent → Option PausePdev
  | .attach vdev peer groupPtr => do
    guard (vdev ∈ s.vdevs ∧ peer ∉ s.peers.map Prod.fst)
    return olTxrxPeerAttach attachPauses s vdev peer groupPtr
  | .vdevPause vdev reason => do guard (vdev ∈ s.vdevs); return olTxrxVdevPause s vdev reason
  | .vdevUnpause vdev reason => do guard (vdev ∈ s.vdevs); return olTxrxVdevUnpause s vdev reason
  | .throttlePause => some (olTxrxThrottlePause s)
  | .throttleUnpause => some (olTxrxThrottleUnpause s)
  | .txReady peer => do
    guard (peer ∈ s.peers.map Prod.fst); return olTxrxPeerTxReadyHandler s peer
  | .peerMap peer => do guard (peer ∈ s.peers.map Prod.fst); return olRxPeerMapHandler s peer
  | .enqueue q frm => do guard (s.Attached q); return { s with hl := olTxEnqueue s.hl q frm }
  | .flush q => do guard (s.Attached q); return { s with hl := flushTxq s.hl q }
  | .selectInit => some { s with hl := olTxSchedSelectInit s.hl }
  | .select sctx credit =>
    (olTxSchedSelectBatch s.hl sctx credit).map fun r => { s with hl := r.1 }
  | .discard frms txDescs force =>
    some { s with hl := (olTxSchedDiscardSelect s.hl frms txDescs force).1 }

/-- From the attach of the vdevs on, none of which is paused. -/
def pauseMachine (attachPauses : Bool) : Machine PausePdev PauseEvent where
  init s := schedMachine.init s.hl ∧ s.peers = [] ∧ s.hlPausedReason = fun _ => 0
  step := pauseStep attachPauses

/-! ### The property -/

/-- A peer's queue is on a scheduler list only when every pause of it was removed. -/
def PauseOk (s : PausePdev) : Prop :=
  ∀ x ∈ s.peers, ∀ tid c, .peer x.1 tid ∈ (s.hl.cats c).head →
    s.hlPausedReason x.2 = 0 ∧ s.due x.1 tid = false

/-! ### The condition -/

/-- A pause counts once for the flags it raises: it raises one at most, and no counter is full. -/
def VdevPauseOk (s : PausePdev) (vdev : Nat) (reason : BitVec 32) : Prop :=
  s.hlPausedReason vdev &&& reason = 0 → (bits reason).card ≤ 1 ∧
    ∀ peer ∈ s.peerList vdev, ∀ tid < olTxNumTids, (s.hl.txqs (.peer peer tid)).pausedTotal < 255

/-- An unpause that ends the last pause counted for a queue finds it empty or its attach pause removed. -/
def VdevUnpauseOk (s : PausePdev) (vdev : Nat) (reason : BitVec 32) : Prop :=
  s.hlPausedReason vdev &&& reason ≠ 0 → ∀ peer ∈ s.peerList vdev, ∀ tid < olTxNumTids,
    (s.hl.txqs (.peer peer tid)).pausedTotal = 1 → (s.hl.txqs (.peer peer tid)).frms ≠ 0 →
      s.due peer tid = false

/-- The target's readiness takes a pause back only from queues that have more pauses counted than there are reasons, or none. -/
def TidsReadyOk (s : PausePdev) (peer : Nat) (tids : List Nat) : Prop :=
  ∀ x ∈ s.peers, x.1 = peer → ∀ tid ∈ tids, (s.hl.txqs (.peer peer tid)).pausedTotal = 0 ∨
      (bits (s.hlPausedReason x.2)).card < (s.hl.txqs (.peer peer tid)).pausedTotal
deriving Decidable

def PauseEventOk (s : PausePdev) : PauseEvent → Prop
  | .attach vdev _ _ => s.hlPausedReason vdev = 0
  | .vdevPause vdev reason => VdevPauseOk s vdev reason
  | .vdevUnpause vdev reason => VdevUnpauseOk s vdev reason
  | .throttlePause => s.throttled = false → ∀ vdev ∈ s.vdevs,
      VdevPauseOk s vdev olTxqPauseReasonThrottle
  | .throttleUnpause => s.throttled = true → ∀ vdev ∈ s.vdevs,
      VdevUnpauseOk s vdev olTxqPauseReasonThrottle
  | .txReady peer => TidsReadyOk s peer ((List.range olTxNumTids).filter (· ≠ extTidMgmt))
  | .peerMap peer => TidsReadyOk s peer [extTidMgmt]
  | .enqueue (.peer peer tid) _ =>
    s.due peer tid = true → (s.hl.txqs (.peer peer tid)).flag = .paused
  | .flush (.peer peer tid) => (s.hl.txqs (.peer peer tid)).frms = 0 ∨
      (s.hl.txqs (.peer peer tid)).pausedTotal = 0
  | _ => True

instance (s : PausePdev) (vdev : Nat) (reason : BitVec 32) : Decidable (VdevPauseOk s vdev reason) :=
  inferInstanceAs (Decidable (s.hlPausedReason vdev &&& reason = 0 → (bits reason).card ≤ 1 ∧
    ∀ peer ∈ s.peerList vdev, ∀ tid < olTxNumTids, (s.hl.txqs (.peer peer tid)).pausedTotal < 255))

instance (s : PausePdev) (vdev : Nat) (reason : BitVec 32) :
    Decidable (VdevUnpauseOk s vdev reason) :=
  inferInstanceAs (Decidable (s.hlPausedReason vdev &&& reason ≠ 0 →
    ∀ peer ∈ s.peerList vdev, ∀ tid < olTxNumTids,
      (s.hl.txqs (.peer peer tid)).pausedTotal = 1 → (s.hl.txqs (.peer peer tid)).frms ≠ 0 →
        s.due peer tid = false))

instance (s : PausePdev) : (e : PauseEvent) → Decidable (PauseEventOk s e)
  | .attach vdev _ _ => inferInstanceAs (Decidable (s.hlPausedReason vdev = 0))
  | .vdevPause vdev reason => inferInstanceAs (Decidable (VdevPauseOk s vdev reason))
  | .vdevUnpause vdev reason => inferInstanceAs (Decidable (VdevUnpauseOk s vdev reason))
  | .throttlePause => inferInstanceAs (Decidable (s.throttled = false → ∀ vdev ∈ s.vdevs,
      VdevPauseOk s vdev olTxqPauseReasonThrottle))
  | .throttleUnpause => inferInstanceAs (Decidable (s.throttled = true → ∀ vdev ∈ s.vdevs,
      VdevUnpauseOk s vdev olTxqPauseReasonThrottle))
  | .txReady peer => inferInstanceAs (Decidable (TidsReadyOk s peer
      ((List.range olTxNumTids).filter (· ≠ extTidMgmt))))
  | .peerMap peer => inferInstanceAs (Decidable (TidsReadyOk s peer [extTidMgmt]))
  | .enqueue (.peer peer tid) _ => inferInstanceAs (Decidable (s.due peer tid = true →
      (s.hl.txqs (.peer peer tid)).flag = .paused))
  | .flush (.peer peer tid) => inferInstanceAs (Decidable ((s.hl.txqs (.peer peer tid)).frms = 0 ∨
      (s.hl.txqs (.peer peer tid)).pausedTotal = 0))
  | .enqueue (.vdev _ _) _ | .flush (.vdev _ _) | .selectInit | .select _ _ | .discard _ _ _ =>
    .isTrue trivial

/-! ### One queue -/

def TxFrmsQueue.pausedOnce (txq : TxFrmsQueue) : TxFrmsQueue :=
  { txq with
    pausedTotal := (txq.pausedTotal + 1) % 2 ^ 8
    flag := if txq.pausedTotal = 0 then .paused else txq.flag }

def TxFrmsQueue.unpausedOnce (txq : TxFrmsQueue) : TxFrmsQueue :=
  if txq.pausedTotal = 0 then txq
  else { txq with
    pausedTotal := txq.pausedTotal - 1
    flag :=
      if txq.pausedTotal - 1 = 0 then (if txq.frms = 0 then .empty else .active) else txq.flag }

/-- A queue's pauses are counted: `n` reasons of its vdev, and the attach pause when attach counts it and it is `due`. -/
structure QueueOk (counted due : Bool) (n : ℕ) (txq : TxFrmsQueue) : Prop where
  paused : 0 < txq.pausedTotal → txq.flag = .paused
  covers : (if counted && due then 1 else 0) + n ≤ txq.pausedTotal
  due_idle : due = true → txq.flag ≠ .active

section Queue
variable {counted due : Bool} {m n : ℕ} {txq txq' : TxFrmsQueue} {p : HlPdev} {peer tid : ℕ}

theorem txqs_tidPause : (olTxrxPeerTidPauseBase p peer tid).txqs =
    update p.txqs (.peer peer tid) (p.txqs (.peer peer tid)).pausedOnce := by
  unfold olTxrxPeerTidPauseBase pausedOnce
  dsimp only
  split
  · simp [HlPdev.setTxq, txqs_notifyDeactivate]
  · rfl

theorem txqs_tidUnpause : (olTxrxPeerTidUnpauseBase p peer tid).txqs =
    update p.txqs (.peer peer tid) (p.txqs (.peer peer tid)).unpausedOnce := by
  unfold olTxrxPeerTidUnpauseBase unpausedOnce
  dsimp only
  split
  · exact (update_eq_self _ _).symm
  · split
    · simp [HlPdev.setTxq, txqs_notifyUnpause]
    · rfl

theorem QueueOk.of_active (h : QueueOk counted due n txq) (ha : txq.flag = .active) :
    n = 0 ∧ due = false := by
  have hz : txq.pausedTotal = 0 := by
    by_contra hne
    exact absurd (ha.symm.trans (h.paused (pos_of_ne_zero hne))) nofun
  have hc := h.covers
  refine ⟨by omega, ?_⟩
  cases due with
  | false => rfl
  | true => exact absurd ha (h.due_idle rfl)

theorem QueueOk.attached (groupPtr : Option ℕ) : QueueOk counted due 0
      (if counted then (TxFrmsQueue.attached groupPtr).pausedOnce else .attached groupPtr) := by
  cases counted <;> cases due <;> constructor <;>
    simp [attached, pausedOnce]

theorem QueueOk.pausedOnce (h : QueueOk counted due n txq) (ht : txq.pausedTotal < 255)
    (hm : m ≤ n + 1) : QueueOk counted due m txq.pausedOnce := by
  have hmod : (txq.pausedTotal + 1) % 2 ^ 8 = txq.pausedTotal + 1 := mod_eq_of_lt (by omega)
  have hflag : txq.pausedOnce.flag = .paused := by
    unfold TxFrmsQueue.pausedOnce
    dsimp only
    split
    · rfl
    · next hne => exact h.paused (pos_of_ne_zero hne)
  refine ⟨fun _ => hflag, ?_, fun _ => by rw [hflag]; exact nofun⟩
  have hc := h.covers
  change _ ≤ (txq.pausedTotal + 1) % 2 ^ 8
  rw [hmod]
  omega

theorem unpausedOnce_of_zero (h : txq.pausedTotal = 0) : txq.unpausedOnce = txq := if_pos h

theorem pausedTotal_unpausedOnce : txq.unpausedOnce.pausedTotal = txq.pausedTotal - 1 := by
  unfold unpausedOnce
  split
  · omega
  · rfl

theorem flag_unpausedOnce (h : 0 < txq.pausedTotal) : txq.unpausedOnce.flag =
    if txq.pausedTotal = 1 then (if txq.frms = 0 then .empty else .active) else txq.flag := by
  unfold unpausedOnce
  rw [if_neg (ne_of_gt h)]
  dsimp only
  have hiff : txq.pausedTotal - 1 = 0 ↔ txq.pausedTotal = 1 := by omega
  simp [hiff]

theorem QueueOk.unpause (h : QueueOk counted due n txq) {due' : Bool}
    (hc : (if counted && due' then 1 else 0) + m ≤ txq.pausedTotal - 1)
    (hd : due' = true → due = true ∧ (txq.pausedTotal = 1 → txq.frms = 0)) :
    QueueOk counted due' m txq.unpausedOnce := by
  by_cases hz : txq.pausedTotal = 0
  · rw [unpausedOnce_of_zero hz]
    exact ⟨h.paused, by omega, fun hdue => h.due_idle (hd hdue).1⟩
  · have hpos := pos_of_ne_zero hz
    refine ⟨fun hp => ?_, by rw [pausedTotal_unpausedOnce]; exact hc, fun hdue => ?_⟩
    · rw [pausedTotal_unpausedOnce] at hp
      rw [flag_unpausedOnce hpos, if_neg (by omega)]
      exact h.paused hpos
    · rw [flag_unpausedOnce hpos]
      split
      · next hone =>
        rw [if_pos ((hd hdue).2 hone)]
        exact nofun
      · exact h.due_idle (hd hdue).1

theorem QueueOk.unpausedOnce (h : QueueOk counted due n txq) (hm : m + 1 ≤ n)
    (hd : txq.pausedTotal = 1 → txq.frms ≠ 0 → due = false) :
    QueueOk counted due m txq.unpausedOnce := by
  have hc := h.covers
  refine h.unpause (by omega) fun hdue => ⟨hdue, fun hone => ?_⟩
  by_contra hne
  rw [hd hone hne] at hdue
  cases hdue

theorem QueueOk.ready (h : QueueOk counted due n txq)
    (hr : txq.pausedTotal = 0 ∨ n < txq.pausedTotal) : QueueOk counted false n txq.unpausedOnce := by
  have hc := h.covers
  refine h.unpause ?_ nofun
  rw [Bool.and_false]
  simp only [Bool.false_eq_true, if_false]
  omega

theorem QueueOk.congr (h : QueueOk counted due n txq) (ht : txq'.pausedTotal = txq.pausedTotal)
    (hf : txq'.flag = txq.flag ∨ txq.pausedTotal = 0 ∧ (due = true → txq'.flag ≠ .active)) :
    QueueOk counted due n txq' := by
  refine ⟨fun hp => ?_, ht ▸ h.covers, fun hd => ?_⟩
  · rw [ht] at hp
    rcases hf with hf | ⟨hz, -⟩
    · rw [hf]
      exact h.paused hp
    · omega
  · rcases hf with hf | ⟨-, hne⟩
    · rw [hf]
      exact h.due_idle hd
    · exact hne hd

theorem QueueOk.afterTaking (h : QueueOk counted due n txq) (moved left : List TxFrm) :
    QueueOk counted due n (txq.afterTaking moved left) := by
  refine h.congr rfl ?_
  rw [afterTaking_flag]
  split
  · next ha =>
    refine .inr ⟨?_, fun _ => nofun⟩
    by_contra hne
    exact absurd (ha.2.symm.trans (h.paused (pos_of_ne_zero hne))) nofun
  · exact .inl rfl

end Queue

/-! ### Loops over a peer's TIDs, and over a vdev's peers -/

section Loops
variable {p : HlPdev} {peers tids : List ℕ}

def FlagsOk (p : HlPdev) : Prop :=
  ∀ peer tid, 0 < (p.txqs (.peer peer tid)).pausedTotal → (p.txqs (.peer peer tid)).flag = .paused

def peerTxq (x : ℕ × ℕ) : TxqId := .peer x.1 x.2

theorem nodup_peerTxqs (hp : peers.Nodup) (ht : tids.Nodup) :
    ((peers ×ˢ tids).map peerTxq).Nodup := by
  refine (hp.product ht).map ?_
  rintro ⟨a, b⟩ ⟨c, d⟩ h
  cases h
  rfl

theorem mem_peerTxqs {q : TxqId} :
    q ∈ (peers ×ˢ tids).map peerTxq ↔ ∃ peer ∈ peers, ∃ tid ∈ tids, q = .peer peer tid := by
  constructor
  · intro h
    obtain ⟨⟨peer, tid⟩, hx, rfl⟩ := mem_map.1 h
    obtain ⟨hp, ht⟩ := pair_mem_product.1 hx
    exact ⟨peer, hp, tid, ht, rfl⟩
  · rintro ⟨peer, hp, tid, ht, rfl⟩
    exact mem_map.2 ⟨(peer, tid), pair_mem_product.2 ⟨hp, ht⟩, rfl⟩

theorem foldl_product {σ : Type} (op : σ → ℕ → ℕ → σ) (s : σ) :
    peers.foldl (fun s peer => tids.foldl (fun s tid => op s peer tid) s) s =
      (peers ×ˢ tids).foldl (fun s x => op s x.1 x.2) s := by
  change _ = (peers.flatMap fun peer => tids.map (Prod.mk peer)).foldl _ s
  rw [foldl_flatMap]
  simp [foldl_map]

/-- A loop over queues, each turn of which changes its own by `f`. -/
theorem txqs_loop {op : HlPdev → ℕ → ℕ → HlPdev} {f : TxFrmsQueue → TxFrmsQueue}
    (hop : ∀ p peer tid, (op p peer tid).txqs =
      update p.txqs (.peer peer tid) (f (p.txqs (.peer peer tid))))
    (hp : peers.Nodup) (ht : tids.Nodup) (p : HlPdev) :
    (∀ peer ∈ peers, ∀ tid ∈ tids,
      (peers.foldl (fun p peer => tids.foldl (fun p tid => op p peer tid) p) p).txqs
        (.peer peer tid) = f (p.txqs (.peer peer tid))) ∧
    ∀ q, (∀ peer ∈ peers, ∀ tid ∈ tids, q ≠ .peer peer tid) →
      (peers.foldl (fun p peer => tids.foldl (fun p tid => op p peer tid) p) p).txqs q =
        p.txqs q := by
  have hop' : ∀ (p : HlPdev) (x : ℕ × ℕ), (op p x.1 x.2).txqs =
      update p.txqs (peerTxq x) (f (p.txqs (peerTxq x))) := fun p x => hop p x.1 x.2
  rw [foldl_product]
  refine ⟨fun peer hpeer tid htid => ?_, fun q hq => ?_⟩
  · exact foldl_of_mem (f := fun _ => f) hop' (nodup_peerTxqs hp ht)
      (pair_mem_product.2 ⟨hpeer, htid⟩) p
  · refine foldl_of_notMem (f := fun _ => f) hop' ?_ p
    rw [mem_peerTxqs]
    rintro ⟨peer, hpeer, tid, htid, rfl⟩
    exact hq peer hpeer tid htid rfl

theorem SchedInv.pauseLoop (h : SchedInv p) :
    SchedInv (peers.foldl (fun p peer => tids.foldl (fun p tid =>
      olTxrxPeerTidPauseBase p peer tid) p) p) :=
  foldl_keeps (fun _ peer _ hp => foldl_keeps (fun _ tid _ hp => hp.pause peer tid) hp) h

theorem FlagsOk.unpause (h : FlagsOk p) (peer tid : ℕ) :
    FlagsOk (olTxrxPeerTidUnpauseBase p peer tid) := by
  intro peer' tid' hpos
  rw [txqs_tidUnpause] at hpos ⊢
  by_cases hq : TxqId.peer peer' tid' = .peer peer tid
  · rw [hq, update_self] at hpos ⊢
    rw [pausedTotal_unpausedOnce] at hpos
    rw [flag_unpausedOnce (by omega), if_neg (by omega)]
    exact h peer tid (by omega)
  · rw [update_of_ne hq] at hpos ⊢
    exact h peer' tid' hpos

theorem SchedInv.unpauseLoop (h : SchedInv p) (hf : FlagsOk p) :
    SchedInv (peers.foldl (fun p peer => olTxrxPeerTidsUnpause p peer tids) p) := by
  have hone : ∀ p peer tid, SchedInv p ∧ FlagsOk p →
      SchedInv (olTxrxPeerTidUnpauseBase p peer tid) ∧
        FlagsOk (olTxrxPeerTidUnpauseBase p peer tid) := by
    intro p peer tid ⟨h, hf⟩
    refine ⟨h.unpause fun hlast => ?_, hf.unpause peer tid⟩
    rw [hf peer tid (by omega)]
    exact nofun
  have hloop : SchedInv (peers.foldl (fun p peer => olTxrxPeerTidsUnpause p peer tids) p) ∧
      FlagsOk (peers.foldl (fun p peer => olTxrxPeerTidsUnpause p peer tids) p) :=
    foldl_keeps (P := fun p => SchedInv p ∧ FlagsOk p)
      (fun _ peer _ hp => foldl_keeps (P := fun p => SchedInv p ∧ FlagsOk p)
        (fun p tid _ hp => hone p peer tid hp) hp) ⟨h, hf⟩
  exact hloop.1

end Loops

/-! ### The invariant -/

/-- **The pause invariant.** -/
structure PauseInv (attachPauses : Bool) (s : PausePdev) : Prop where
  sched : SchedInv s.hl
  peers : (s.peers.map Prod.fst).Nodup
  queue : ∀ x ∈ s.peers, ∀ tid < olTxNumTids,
    QueueOk attachPauses (s.due x.1 tid) (bits (s.hlPausedReason x.2)).card
      (s.hl.txqs (.peer x.1 tid))
  other : ∀ peer tid, ¬ s.Attached (.peer peer tid) →
    (s.hl.txqs (.peer peer tid)).flag ≠ .active ∧ (s.hl.txqs (.peer peer tid)).pausedTotal = 0

section Invariant
variable {attachPauses : Bool} {s s' : PausePdev} {vdev : ℕ} {reason : BitVec 32}

theorem PauseInv.pauseOk (h : PauseInv attachPauses s) : PauseOk s := by
  intro x hx tid c hlinked
  have hactive := ((h.sched.mem_head c _).1 hlinked).1
  have hatt : s.Attached (.peer x.1 tid) := by
    by_contra hne
    exact (h.other x.1 tid hne).1 hactive
  obtain ⟨hcard, hdue⟩ := (h.queue x hx tid hatt.1).of_active hactive
  exact ⟨bits_eq_empty.1 (Finset.card_eq_zero.1 hcard), hdue⟩

theorem PauseInv.flagsOk (h : PauseInv attachPauses s) : FlagsOk s.hl := by
  intro peer tid hpos
  by_cases hatt : s.Attached (.peer peer tid)
  · obtain ⟨htid, hpeer⟩ := hatt
    obtain ⟨x, hx, rfl⟩ := mem_map.1 hpeer
    exact (h.queue x hx tid htid).paused hpos
  · have := (h.other peer tid hatt).2
    omega

theorem mem_peerList {peer : ℕ} : peer ∈ s.peerList vdev ↔ (peer, vdev) ∈ s.peers := by
  unfold PausePdev.peerList
  constructor
  · intro h
    obtain ⟨⟨a, b⟩, hx, rfl⟩ := mem_map.1 h
    have hm := mem_filter.1 hx
    have hb : b = vdev := by simpa using hm.2
    exact hb ▸ hm.1
  · intro h
    exact mem_map.2 ⟨(peer, vdev), mem_filter.2 ⟨h, by simp⟩, rfl⟩

theorem PauseInv.vdev_unique (h : PauseInv attachPauses s) {x : ℕ × ℕ} (hx : x ∈ s.peers)
    (hv : x.1 ∈ s.peerList vdev) : x.2 = vdev :=
  congrArg Prod.snd (inj_on_of_nodup_map h.peers hx (mem_peerList.1 hv) rfl)

theorem PauseInv.queue_of_mem (h : PauseInv attachPauses s) {peer tid : ℕ}
    (hp : peer ∈ s.peerList vdev) (ht : tid < olTxNumTids) :
    QueueOk attachPauses (s.due peer tid) (bits (s.hlPausedReason vdev)).card
      (s.hl.txqs (.peer peer tid)) :=
  h.queue (peer, vdev) (mem_peerList.1 hp) tid ht

theorem PauseInv.nodup_peerList (h : PauseInv attachPauses s) : (s.peerList vdev).Nodup :=
  h.peers.sublist (filter_sublist.map Prod.fst)

theorem attached_of_mem {peer tid : ℕ} (hp : peer ∈ s.peerList vdev) (ht : tid < olTxNumTids) :
    s.Attached (.peer peer tid) :=
  ⟨ht, mem_map.2 ⟨(peer, vdev), mem_peerList.1 hp, rfl⟩⟩

theorem PauseInv.vdevLoop (h : PauseInv attachPauses s) (hs : SchedInv s'.hl)
    (hp : s'.peers = s.peers) (hd : s'.due = s.due)
    (hr : ∀ v, v ≠ vdev → s'.hlPausedReason v = s.hlPausedReason v)
    (hsame : ∀ q, (∀ peer ∈ s.peerList vdev, ∀ tid ∈ range olTxNumTids, q ≠ .peer peer tid) →
      s'.hl.txqs q = s.hl.txqs q)
    (hq : ∀ peer ∈ s.peerList vdev, ∀ tid < olTxNumTids,
      QueueOk attachPauses (s.due peer tid) (bits (s'.hlPausedReason vdev)).card
        (s'.hl.txqs (.peer peer tid))) : PauseInv attachPauses s' where
  sched := hs
  peers := hp ▸ h.peers
  queue x hx tid htid := by
    rw [hp] at hx
    rw [hd]
    by_cases hv : x.1 ∈ s.peerList vdev
    · rw [h.vdev_unique hx hv]
      exact hq x.1 hv tid htid
    · have hne : x.2 ≠ vdev := by
        rintro rfl
        exact hv (mem_peerList.2 hx)
      rw [hr _ hne, hsame _ ?_]
      · exact h.queue x hx tid htid
      · intro peer hpeer tid' _ heq
        rw [(TxqId.peer.inj heq).1] at hv
        exact hv hpeer
  other peer tid hatt := by
    have hatt' : ¬ s.Attached (.peer peer tid) := fun ha => hatt (by
      unfold PausePdev.Attached at ha ⊢
      rwa [hp])
    rw [hsame _ fun peer' hpeer tid' htid heq => ?_]
    · exact h.other peer tid hatt'
    · obtain ⟨rfl, rfl⟩ := TxqId.peer.inj heq
      exact hatt' (attached_of_mem hpeer (mem_range.1 htid))

theorem PauseInv.vdevPause (h : PauseInv attachPauses s) (hok : VdevPauseOk s vdev reason) :
    PauseInv attachPauses (olTxrxVdevPause s vdev reason) := by
  unfold olTxrxVdevPause
  split
  · next hclear =>
    obtain ⟨hone, hroom⟩ := hok hclear
    have hnd : (s.peerList vdev).Nodup := h.nodup_peerList
    obtain ⟨hin, hout⟩ := txqs_loop (fun p peer tid => txqs_tidPause) hnd
      (nodup_range (n := olTxNumTids)) s.hl
    refine h.vdevLoop h.sched.pauseLoop rfl rfl (fun v hv => update_of_ne hv ..) hout
      fun peer hpeer tid htid => ?_
    have hqueue := h.queue_of_mem hpeer htid
    have hcard := card_bits_or hclear
    simp only [update_self]
    have htxq := hin peer hpeer tid (mem_range.2 htid)
    unfold olTxrxPeerPauseBase
    rw [htxq]
    exact hqueue.pausedOnce (hroom peer hpeer tid htid) (by omega)
  · exact h

theorem PauseInv.vdevUnpause (h : PauseInv attachPauses s) (hok : VdevUnpauseOk s vdev reason) :
    PauseInv attachPauses (olTxrxVdevUnpause s vdev reason) := by
  unfold olTxrxVdevUnpause
  split
  · next hset =>
    have hend := hok hset
    have hnd : (s.peerList vdev).Nodup := h.nodup_peerList
    obtain ⟨hin, hout⟩ := txqs_loop (fun p peer tid => txqs_tidUnpause) hnd
      (nodup_range (n := olTxNumTids)) s.hl
    refine h.vdevLoop (h.sched.unpauseLoop h.flagsOk) rfl rfl
      (fun v hv => update_of_ne hv ..) hout fun peer hpeer tid htid => ?_
    have hqueue := h.queue_of_mem hpeer htid
    have hcard := card_bits_and_not (x := s.hlPausedReason vdev) (y := reason)
    have hpos : 0 < (bits (s.hlPausedReason vdev &&& reason)).card :=
      Finset.card_pos.2 (Finset.nonempty_iff_ne_empty.2 fun he => hset (bits_eq_empty.1 he))
    have hle : (bits (s.hlPausedReason vdev &&& reason)).card ≤
        (bits (s.hlPausedReason vdev)).card :=
      Finset.card_le_card (bits_and ▸ Finset.inter_subset_left)
    simp only [update_self]
    have htxq := hin peer hpeer tid (mem_range.2 htid)
    unfold olTxrxPeerTidsUnpause
    rw [htxq]
    exact hqueue.unpausedOnce (by omega) (hend peer hpeer tid htid)
  · exact h

theorem PauseInv.ne_of_vdev_ne (h : PauseInv attachPauses s) {vdev' peer tid : ℕ}
    (hv : vdev' ≠ vdev) (hp : peer ∈ s.peerList vdev') :
    ∀ peer' ∈ s.peerList vdev, ∀ tid' ∈ range olTxNumTids,
      TxqId.peer peer tid ≠ .peer peer' tid' := by
  intro peer' hpeer tid' _ heq
  rw [← (TxqId.peer.inj heq).1] at hpeer
  exact hv (h.vdev_unique (mem_peerList.1 hp) hpeer)

theorem PauseInv.txqs_vdevPause (h : PauseInv attachPauses s) {vdev' peer : ℕ} (tid : ℕ)
    (hv : vdev' ≠ vdev) (hp : peer ∈ s.peerList vdev') :
    (olTxrxVdevPause s vdev reason).hl.txqs (.peer peer tid) = s.hl.txqs (.peer peer tid) := by
  unfold olTxrxVdevPause
  split
  · exact (txqs_loop (fun p peer tid => txqs_tidPause) h.nodup_peerList nodup_range s.hl).2 _
      (h.ne_of_vdev_ne hv hp)
  · rfl

theorem PauseInv.txqs_vdevUnpause (h : PauseInv attachPauses s) {vdev' peer : ℕ} (tid : ℕ)
    (hv : vdev' ≠ vdev) (hp : peer ∈ s.peerList vdev') :
    (olTxrxVdevUnpause s vdev reason).hl.txqs (.peer peer tid) = s.hl.txqs (.peer peer tid) := by
  unfold olTxrxVdevUnpause
  split
  · exact (txqs_loop (fun p peer tid => txqs_tidUnpause) h.nodup_peerList nodup_range
      s.hl).2 _ (h.ne_of_vdev_ne hv hp)
  · rfl

theorem peers_vdevPause : (olTxrxVdevPause s vdev reason).peers = s.peers := by
  unfold olTxrxVdevPause
  split <;> rfl

theorem peers_vdevUnpause : (olTxrxVdevUnpause s vdev reason).peers = s.peers := by
  unfold olTxrxVdevUnpause
  split <;> rfl

theorem due_vdevUnpause : (olTxrxVdevUnpause s vdev reason).due = s.due := by
  unfold olTxrxVdevUnpause
  split <;> rfl

theorem hlPausedReason_vdevPause_self : (olTxrxVdevPause s vdev reason).hlPausedReason vdev =
    if s.hlPausedReason vdev &&& reason = 0 then s.hlPausedReason vdev ||| reason
    else s.hlPausedReason vdev := by
  unfold olTxrxVdevPause
  split
  · exact update_self ..
  · rfl

theorem hlPausedReason_vdevPause_of_ne {vdev' : ℕ} (hv : vdev' ≠ vdev) :
    (olTxrxVdevPause s vdev reason).hlPausedReason vdev' = s.hlPausedReason vdev' := by
  unfold olTxrxVdevPause
  split
  · exact update_of_ne hv ..
  · rfl

theorem hlPausedReason_vdevUnpause_self : (olTxrxVdevUnpause s vdev reason).hlPausedReason vdev =
    s.hlPausedReason vdev &&& ~~~reason := by
  unfold olTxrxVdevUnpause
  split
  · exact update_self ..
  · next hclear =>
    rw [not_not] at hclear
    ext i hi
    have := congrArg (fun x : BitVec 32 => x[i]) hclear
    simp only [BitVec.getElem_and, BitVec.getElem_not] at this ⊢
    cases hx : (s.hlPausedReason vdev)[i] <;> simp_all

theorem hlPausedReason_vdevUnpause_of_ne {vdev' : ℕ} (hv : vdev' ≠ vdev) :
    (olTxrxVdevUnpause s vdev reason).hlPausedReason vdev' = s.hlPausedReason vdev' := by
  unfold olTxrxVdevUnpause
  split
  · exact update_of_ne hv ..
  · rfl

theorem peerList_congr (h : s'.peers = s.peers) (v : ℕ) : s'.peerList v = s.peerList v := by
  unfold PausePdev.peerList
  rw [h]

theorem PauseInv.vdevPauseOk_after (h : PauseInv attachPauses s) (hr : reason ≠ 0) {v : ℕ}
    (hok : VdevPauseOk s v reason) : VdevPauseOk (olTxrxVdevPause s vdev reason) v reason := by
  intro hclear
  by_cases hv : v = vdev
  · subst hv
    rw [hlPausedReason_vdevPause_self] at hclear
    split at hclear
    · refine absurd (bits_eq_empty.1 ?_) hr
      have he : bits ((s.hlPausedReason v ||| reason) &&& reason) = ∅ := by
        rw [hclear]
        exact bits_zero
      rwa [bits_and, bits_or, Finset.union_inter_cancel_right] at he
    · next hset => exact absurd hclear hset
  · rw [hlPausedReason_vdevPause_of_ne hv] at hclear
    obtain ⟨hone, hroom⟩ := hok hclear
    refine ⟨hone, fun peer hpeer tid htid => ?_⟩
    rw [peerList_congr peers_vdevPause] at hpeer
    rw [h.txqs_vdevPause tid hv hpeer]
    exact hroom peer hpeer tid htid

theorem PauseInv.vdevUnpauseOk_after (h : PauseInv attachPauses s) {v : ℕ}
    (hok : VdevUnpauseOk s v reason) :
    VdevUnpauseOk (olTxrxVdevUnpause s vdev reason) v reason := by
  intro hset
  by_cases hv : v = vdev
  · subst hv
    refine absurd (bits_eq_empty.1 ?_) hset
    rw [hlPausedReason_vdevUnpause_self, bits_and, bits_and_not, Finset.sdiff_inter_self]
  · rw [hlPausedReason_vdevUnpause_of_ne hv] at hset
    intro peer hpeer tid htid
    rw [peerList_congr peers_vdevUnpause] at hpeer
    rw [h.txqs_vdevUnpause tid hv hpeer, due_vdevUnpause]
    exact hok hset peer hpeer tid htid

theorem PauseInv.setThrottled (h : PauseInv attachPauses s) (b : Bool) :
    PauseInv attachPauses { s with throttled := b } :=
  ⟨h.sched, h.peers, h.queue, h.other⟩

theorem PauseInv.throttlePause (h : PauseInv attachPauses s)
    (hok : s.throttled = false → ∀ vdev ∈ s.vdevs, VdevPauseOk s vdev olTxqPauseReasonThrottle) :
    PauseInv attachPauses (olTxrxThrottlePause s) := by
  unfold olTxrxThrottlePause
  split
  · exact h
  · next hoff =>
    have hok' := hok (Bool.eq_false_iff.2 hoff)
    have hr : olTxqPauseReasonThrottle ≠ 0 := by decide
    refine (foldl_keeps (P := fun s' => PauseInv attachPauses s' ∧
      ∀ v ∈ s.vdevs, VdevPauseOk s' v olTxqPauseReasonThrottle) (fun s' v hv hs => ?_)
      ⟨h.setThrottled true, hok'⟩).1
    exact ⟨hs.1.vdevPause (hs.2 v hv), fun v' hv' => hs.1.vdevPauseOk_after hr (hs.2 v' hv')⟩

theorem PauseInv.throttleUnpause (h : PauseInv attachPauses s)
    (hok : s.throttled = true → ∀ vdev ∈ s.vdevs, VdevUnpauseOk s vdev olTxqPauseReasonThrottle) :
    PauseInv attachPauses (olTxrxThrottleUnpause s) := by
  unfold olTxrxThrottleUnpause
  split
  · next hon =>
    refine (foldl_keeps (P := fun s' => PauseInv attachPauses s' ∧
      ∀ v ∈ s.vdevs, VdevUnpauseOk s' v olTxqPauseReasonThrottle) (fun s' v hv hs => ?_)
      ⟨h.setThrottled false, hok hon⟩).1
    exact ⟨hs.1.vdevUnpause (hs.2 v hv), fun v' hv' => hs.1.vdevUnpauseOk_after (hs.2 v' hv')⟩
  · exact h

theorem PauseInv.tidsReady (h : PauseInv attachPauses s) {peer : ℕ} {tids : List ℕ}
    (hnd : tids.Nodup) (hlt : ∀ tid ∈ tids, tid < olTxNumTids)
    (hpeer : peer ∈ s.peers.map Prod.fst) (hok : TidsReadyOk s peer tids) :
    PauseInv attachPauses (peerTidsReady s peer tids) := by
  obtain ⟨hin, hout⟩ := txqs_loop (fun p peer tid => txqs_tidUnpause)
    (nodup_singleton peer) hnd s.hl
  refine ⟨@SchedInv.unpauseLoop s.hl [peer] tids h.sched h.flagsOk, h.peers,
    fun x hx tid htid => ?_, fun n tid hatt => ?_⟩
  · by_cases hready : x.1 = peer ∧ tid ∈ tids
    · obtain ⟨rfl, ht⟩ := hready
      have hq := hin x.1 mem_cons_self tid ht
      simp only [peerTidsReady, ht, and_self, if_true]
      exact hq ▸ (h.queue x hx tid htid).ready (hok x hx rfl tid ht)
    · have hq := hout (.peer x.1 tid) fun n hn t ht heq => hready (by
        obtain ⟨h₁, h₂⟩ := TxqId.peer.inj heq
        exact ⟨h₁.trans (mem_singleton.1 hn), h₂ ▸ ht⟩)
      simp only [peerTidsReady, hready, if_false]
      exact hq ▸ h.queue x hx tid htid
  · have hq := hout (.peer n tid) fun m hm t ht heq => hatt (by
      obtain ⟨rfl, rfl⟩ := TxqId.peer.inj heq
      rw [mem_singleton.1 hm]
      exact ⟨hlt tid ht, hpeer⟩)
    exact hq ▸ h.other n tid hatt

/-- The queues of a new peer, as attach leaves them. -/
def attachTxqs (p : HlPdev) (peer : ℕ) (groupPtr : ℕ → Option ℕ) : HlPdev :=
  (List.range olTxNumTids).foldl
    (fun p tid => p.setTxq (.peer peer tid) (.attached (groupPtr tid))) p

theorem txqs_attachTxqs (p : HlPdev) (peer : ℕ) (groupPtr : ℕ → Option ℕ) : (∀ tid < olTxNumTids,
      (attachTxqs p peer groupPtr).txqs (.peer peer tid) = .attached (groupPtr tid)) ∧
    ∀ q, (∀ tid < olTxNumTids, q ≠ .peer peer tid) →
      (attachTxqs p peer groupPtr).txqs q = p.txqs q := by
  let f : ℕ → TxFrmsQueue → TxFrmsQueue := fun tid _ => .attached (groupPtr tid)
  have hop : ∀ (p : HlPdev) (tid : ℕ), (p.setTxq (.peer peer tid) (.attached (groupPtr tid))).txqs =
        update p.txqs (.peer peer tid) (f tid (p.txqs (.peer peer tid))) :=
    fun _ _ => rfl
  have hnd : ((range olTxNumTids).map (TxqId.peer peer)).Nodup :=
    nodup_range.map fun a b h => (TxqId.peer.inj h).2
  refine ⟨fun tid ht => foldl_of_mem hop hnd (mem_range.2 ht) p, fun q hq => ?_⟩
  refine foldl_of_notMem hop (fun hm => ?_) p
  obtain ⟨tid, ht, rfl⟩ := mem_map.1 hm
  exact hq tid (mem_range.1 ht) rfl

theorem peerPauseBase_eq (p : HlPdev) (peer : ℕ) : olTxrxPeerPauseBase p peer =
    [peer].foldl (fun p peer => (range olTxNumTids).foldl
      (fun p tid => olTxrxPeerTidPauseBase p peer tid) p) p := by
  rw [foldl_cons, foldl_nil, olTxrxPeerPauseBase]

theorem txqs_peerPauseBase (p : HlPdev) (peer : ℕ) :
    (∀ tid < olTxNumTids, (olTxrxPeerPauseBase p peer).txqs (.peer peer tid) =
      (p.txqs (.peer peer tid)).pausedOnce) ∧
    ∀ q, (∀ tid < olTxNumTids, q ≠ .peer peer tid) →
      (olTxrxPeerPauseBase p peer).txqs q = p.txqs q := by
  obtain ⟨hin, hout⟩ := txqs_loop (fun p peer tid => txqs_tidPause) (nodup_singleton peer)
    (nodup_range (n := olTxNumTids)) p
  rw [peerPauseBase_eq]
  refine ⟨fun tid ht => hin peer mem_cons_self tid (mem_range.2 ht), fun q hq => ?_⟩
  refine hout q fun n hn tid ht heq => hq tid (mem_range.1 ht) ?_
  rw [heq, mem_singleton.1 hn]

theorem SchedInv.attachTxqs {p : HlPdev} (h : SchedInv p) {peer : ℕ}
    (hidle : ∀ tid, (p.txqs (.peer peer tid)).flag ≠ .active) (groupPtr : ℕ → Option ℕ) :
    SchedInv (attachTxqs p peer groupPtr) := by
  have hone : ∀ (p : HlPdev), ∀ tid ∈ range olTxNumTids,
      (SchedInv p ∧ ∀ tid, (p.txqs (.peer peer tid)).flag ≠ .active) →
      SchedInv (p.setTxq (.peer peer tid) (.attached (groupPtr tid))) ∧
        ∀ tid', ((p.setTxq (.peer peer tid) (.attached (groupPtr tid))).txqs
          (.peer peer tid')).flag ≠ .active := by
    intro p tid _ ⟨hs, hi⟩
    refine ⟨hs.setTxq (iff_of_false nofun (hi tid)) nofun ⟨nofun, fun _ => rfl, rfl, rfl⟩,
      fun tid' => ?_⟩
    by_cases ht : TxqId.peer peer tid' = .peer peer tid
    · rw [ht, txqs_setTxq_self]
      exact nofun
    · rw [txqs_setTxq_of_ne ht]
      exact hi tid'
  unfold Txrx.attachTxqs
  exact (foldl_keeps hone ⟨h, hidle⟩).1

theorem hl_peerAttach (attachPauses : Bool) (s : PausePdev) (vdev peer : ℕ)
    (groupPtr : ℕ → Option ℕ) : (olTxrxPeerAttach attachPauses s vdev peer groupPtr).hl =
      if attachPauses then olTxrxPeerPauseBase (attachTxqs s.hl peer groupPtr) peer
      else attachTxqs s.hl peer groupPtr := rfl

theorem PauseInv.attach (h : PauseInv attachPauses s) {peer : ℕ}
    (hnew : peer ∉ s.peers.map Prod.fst) (hr : s.hlPausedReason vdev = 0)
    (groupPtr : ℕ → Option ℕ) :
    PauseInv attachPauses (olTxrxPeerAttach attachPauses s vdev peer groupPtr) := by
  have hidle : ∀ tid, (s.hl.txqs (.peer peer tid)).flag ≠ .active :=
    fun tid => (h.other peer tid fun ha => hnew ha.2).1
  have hsched := h.sched.attachTxqs hidle groupPtr
  obtain ⟨hin, hout⟩ := txqs_attachTxqs s.hl peer groupPtr
  have hhl := hl_peerAttach attachPauses s vdev peer groupPtr
  have hsched' : SchedInv (olTxrxPeerAttach attachPauses s vdev peer groupPtr).hl := by
    rw [hhl]
    by_cases ha : attachPauses = true
    · rw [if_pos ha, peerPauseBase_eq]
      exact hsched.pauseLoop
    · rw [if_neg ha]
      exact hsched
  obtain ⟨hpin, hpout⟩ := txqs_peerPauseBase (attachTxqs s.hl peer groupPtr) peer
  have hself : ∀ tid < olTxNumTids,
      (olTxrxPeerAttach attachPauses s vdev peer groupPtr).hl.txqs (.peer peer tid) =
        if attachPauses then (attached (groupPtr tid)).pausedOnce
        else .attached (groupPtr tid) := by
    intro tid ht
    rw [hhl]
    by_cases ha : attachPauses = true
    · rw [if_pos ha, if_pos ha]
      exact (hpin tid ht).trans (congrArg pausedOnce (hin tid ht))
    · rw [if_neg ha, if_neg ha]
      exact hin tid ht
  have hsame : ∀ q, (∀ tid < olTxNumTids, q ≠ .peer peer tid) →
      (olTxrxPeerAttach attachPauses s vdev peer groupPtr).hl.txqs q = s.hl.txqs q := by
    intro q hq
    rw [hhl]
    by_cases ha : attachPauses = true
    · rw [if_pos ha]
      exact (hpout q hq).trans (hout q hq)
    · rw [if_neg ha]
      exact hout q hq
  refine ⟨hsched', ?_, fun x hx tid htid => ?_, fun n tid hatt => ?_⟩
  · change ((s.peers ++ [(peer, vdev)]).map Prod.fst).Nodup
    rw [map_append]
    exact nodup_append.2 ⟨h.peers, nodup_singleton peer,
      fun a ha b hb hab => hnew (by rwa [hab, mem_singleton.1 hb] at ha)⟩
  · rcases mem_append.1 hx with hx | hx
    · have hne : x.1 ≠ peer := fun he => hnew (he ▸ mem_map_of_mem hx)
      rw [hsame _ fun tid' _ heq => hne (TxqId.peer.inj heq).1]
      have hdue : (olTxrxPeerAttach attachPauses s vdev peer groupPtr).due x.1 tid =
          s.due x.1 tid := if_neg hne
      rw [hdue]
      exact h.queue x hx tid htid
    · obtain rfl := mem_singleton.1 hx
      rw [hself tid htid]
      have hcard : (bits ((olTxrxPeerAttach attachPauses s vdev peer groupPtr).hlPausedReason
          (peer, vdev).2)).card = 0 := by
        change (bits (s.hlPausedReason vdev)).card = 0
        rw [hr]
        exact Finset.card_eq_zero.2 bits_zero
      rw [hcard]
      exact .attached (groupPtr tid)
  · have hne : ∀ tid' < olTxNumTids, TxqId.peer n tid ≠ .peer peer tid' := by
      intro tid' ht heq
      obtain ⟨rfl, rfl⟩ := TxqId.peer.inj heq
      exact hatt ⟨ht, mem_map.2 ⟨(n, vdev), mem_append_right _ mem_cons_self, rfl⟩⟩
    rw [hsame _ hne]
    refine h.other n tid fun ha => hatt ⟨ha.1, ?_⟩
    change n ∈ (s.peers ++ [(peer, vdev)]).map Prod.fst
    rw [map_append]
    exact mem_append_left _ ha.2

theorem PauseInv.setHl (h : PauseInv attachPauses s) {p : HlPdev} (hs : SchedInv p)
    (hq : ∀ peer tid n, QueueOk attachPauses (s.due peer tid) n (s.hl.txqs (.peer peer tid)) →
      s.Attached (.peer peer tid) →
      QueueOk attachPauses (s.due peer tid) n (p.txqs (.peer peer tid)))
    (hother : ∀ peer tid, ¬ s.Attached (.peer peer tid) →
      p.txqs (.peer peer tid) = s.hl.txqs (.peer peer tid)) :
    PauseInv attachPauses { s with hl := p } where
  sched := hs
  peers := h.peers
  queue x hx tid htid :=
    hq x.1 tid _ (h.queue x hx tid htid) ⟨htid, mem_map_of_mem hx⟩
  other peer tid hatt := by
    change (p.txqs _).flag ≠ _ ∧ (p.txqs _).pausedTotal = 0
    rw [hother peer tid hatt]
    exact h.other peer tid hatt

theorem PauseInv.setOne (h : PauseInv attachPauses s) {p : HlPdev} (hs : SchedInv p) {q : TxqId}
    {txq : TxFrmsQueue} (hatt : s.Attached q)
    (ht : p.txqs = update s.hl.txqs q txq)
    (hq : ∀ peer tid n, q = .peer peer tid → QueueOk attachPauses (s.due peer tid) n (s.hl.txqs q) →
      QueueOk attachPauses (s.due peer tid) n txq) : PauseInv attachPauses { s with hl := p } := by
  refine h.setHl hs (fun peer tid n hok _ => ?_) fun peer tid hne => ?_
  · rw [ht]
    by_cases he : TxqId.peer peer tid = q
    · subst he
      rw [update_self]
      exact hq peer tid n rfl hok
    · rw [update_of_ne he]
      exact hok
  · rw [ht, update_of_ne fun he => hne (by rw [he]; exact hatt)]

theorem PauseInv.enqueue (h : PauseInv attachPauses s) {q : TxqId} {frm : TxFrm}
    (hatt : s.Attached q) (hok : PauseEventOk s (.enqueue q frm)) :
    PauseInv attachPauses { s with hl := olTxEnqueue s.hl q frm } := by
  refine h.setOne (h.sched.enqueue q frm) hatt (txqs_enqueue s.hl q frm) fun peer tid n hq hqueue => ?_
  subst hq
  refine hqueue.congr rfl ?_
  unfold TxFrmsQueue.enqueued
  dsimp only
  split
  · next hne =>
    refine .inr ⟨?_, fun hdue => absurd (hok hdue) hne⟩
    by_contra hz
    exact hne (hqueue.paused (pos_of_ne_zero hz))
  · exact .inl rfl

theorem PauseInv.flush (h : PauseInv attachPauses s) {q : TxqId} (hatt : s.Attached q)
    (hok : PauseEventOk s (.flush q)) :
    PauseInv attachPauses { s with hl := flushTxq s.hl q } := by
  have hvalid : q.Valid := by
    cases q with
    | peer peer tid => exact hatt.1
    | vdev vdev i => exact hatt
  have hfree : SchedInv (olTxQueueFree s.hl q (flushTid q)).1 :=
    h.sched.queueFree fun _ => by rw [flushTid_eq hvalid]; rfl
  cases q with
  | vdev vdev i =>
    exact h.setOne hfree hatt (txqs_queueFree s.hl _ _) nofun
  | peer peer tid =>
    unfold flushTxq
    dsimp only
    split
    · next hne =>
      refine h.setOne hfree hatt (txqs_queueFree s.hl _ _) fun peer' tid' n heq hqueue => ?_
      exact hqueue.congr rfl (.inr ⟨hok.resolve_left hne, fun _ => nofun⟩)
    · exact ⟨h.sched, h.peers, h.queue, h.other⟩

theorem PauseInv.taken (h : PauseInv attachPauses s) {p : HlPdev} (hs : SchedInv p) {q : TxqId}
    (hact : (s.hl.txqs q).flag = .active) {moved left : List TxFrm}
    (ht : p.txqs = update s.hl.txqs q ((s.hl.txqs q).afterTaking moved left)) :
    PauseInv attachPauses { s with hl := p } := by
  refine h.setHl hs (fun peer tid n hok _ => ?_) fun peer tid hne => ?_
  · rw [ht]
    by_cases he : TxqId.peer peer tid = q
    · subst he
      rw [update_self]
      exact hok.afterTaking moved left
    · rw [update_of_ne he]
      exact hok
  · rw [ht, update_of_ne fun he => (h.other peer tid hne).1 (by rw [he]; exact hact)]

theorem PauseInv.select (h : PauseInv attachPauses s) {sctx : SchedCtx} {credit : ℕ}
    {r : HlPdev × SchedCtx × ℕ} (hr : olTxSchedSelectBatch s.hl sctx credit = some r) :
    PauseInv attachPauses { s with hl := r.1 } := by
  have hs := h.sched.selectBatch hr
  rcases selectBatch_batch (fun q => (h.sched.txq q).frms) hr with hi | ⟨c, q, moved, left, ht⟩
  · refine h.setHl hs (fun peer tid n hok _ => ?_) fun peer tid _ => ?_
    · rw [hi.txqs]
      exact hok
    · rw [hi.txqs]
  · exact h.taken hs ((h.sched.mem_head c q).1 ht.mem).1 ht.txqs

theorem PauseInv.discard (h : PauseInv attachPauses s) (frms : ℕ) (txDescs : List TxFrm)
    (force : Bool) :
    PauseInv attachPauses { s with hl := (olTxSchedDiscardSelect s.hl frms txDescs force).1 } := by
  have hs := h.sched.discardSelect frms txDescs force
  rcases discardSelect_spec (fun q => (h.sched.txq q).frms) frms txDescs force with
    he | ⟨q, moved, left, hd⟩
  · rw [he]
    exact ⟨h.sched, h.peers, h.queue, h.other⟩
  · obtain ⟨c, hmem⟩ := hd.mem
    exact h.taken hs ((h.sched.mem_head c q).1 hmem).1 hd.txqs

/-- Every call that meets `PauseEventOk` keeps the invariant. -/
theorem PauseInv.step (h : PauseInv attachPauses s) {e : PauseEvent} (hok : PauseEventOk s e)
    (he : pauseStep attachPauses s e = some s') : PauseInv attachPauses s' := by
  cases e with
  | attach vdev peer groupPtr =>
    obtain ⟨⟨-, hnew⟩, rfl⟩ := guarded_eq_some.1 he
    exact h.attach hnew hok groupPtr
  | vdevPause vdev reason =>
    obtain ⟨-, rfl⟩ := guarded_eq_some.1 he
    exact h.vdevPause hok
  | vdevUnpause vdev reason =>
    obtain ⟨-, rfl⟩ := guarded_eq_some.1 he
    exact h.vdevUnpause hok
  | throttlePause => cases he; exact h.throttlePause hok
  | throttleUnpause => cases he; exact h.throttleUnpause hok
  | txReady peer =>
    obtain ⟨hpeer, rfl⟩ := guarded_eq_some.1 he
    exact h.tidsReady (nodup_range.filter _)
      (fun tid ht => mem_range.1 (mem_of_mem_filter ht)) hpeer hok
  | peerMap peer =>
    obtain ⟨hpeer, rfl⟩ := guarded_eq_some.1 he
    exact h.tidsReady (nodup_singleton _) (fun tid ht => mem_singleton.1 ht ▸ by decide) hpeer hok
  | enqueue q frm =>
    obtain ⟨hatt, rfl⟩ := guarded_eq_some.1 he
    exact h.enqueue hatt hok
  | flush q =>
    obtain ⟨hatt, rfl⟩ := guarded_eq_some.1 he
    exact h.flush hatt hok
  | selectInit =>
    cases he
    exact h.setHl (h.sched.congr rfl rfl) (fun _ _ _ hq _ => hq) fun _ _ _ => rfl
  | select sctx credit =>
    obtain ⟨r, hr, rfl⟩ := map_eq_some_iff.1 he
    exact h.select hr
  | discard frms txDescs force => cases he; exact h.discard frms txDescs force

theorem pauseInv_of_reach (t : (pauseMachine attachPauses).Reach PauseEventOk s) :
    PauseInv attachPauses s := by
  refine t.invariant (PauseInv attachPauses) ?_ fun _ _ _ h hok he => h.step hok he
  rintro s ⟨⟨groupPtr, specs, target, groupCredit, hhl⟩, hpeers, -⟩
  have hs : SchedInv s.hl := hhl ▸ schedInv_attached ..
  refine ⟨hs, ?_, fun x hx => ?_, fun peer tid _ => ?_⟩
  · rw [hpeers]
    exact nodup_nil
  · rw [hpeers] at hx
    cases hx
  · rw [hhl]
    exact ⟨nofun, rfl⟩

end Invariant

/-- **A queue is scheduled only when every pause of it was removed**, in every run whose calls meet `PauseEventOk`, whether or not attach itself pauses. -/
theorem pause_nesting (attachPauses : Bool) (s : PausePdev)
    (t : (pauseMachine attachPauses).Reach PauseEventOk s) : PauseOk s :=
  (pauseInv_of_reach t).pauseOk

/-! ### Two runs -/

def oneVdev : PausePdev where
  hl := sdioPdev
  vdevs := [0]
  peers := []
  hlPausedReason _ := 0
  throttled := false
  due _ _ := false

theorem oneVdev_init : (pauseMachine false).init oneVdev := ⟨sdioPdev_init, rfl, rfl⟩

/-- A peer is ready, its vdev is paused twice, and a frame waits until both pauses end. -/
def pausedTwice : List PauseEvent :=
  [.attach 0 5 fun _ => none, .txReady 5, .vdevPause 0 1, .enqueue (.peer 5 0) ⟨0, 100, 1⟩,
    .throttlePause, .vdevUnpause 0 1, .throttleUnpause]

theorem pause_nesting_pausedTwice : ∃ s, (pauseMachine false).run oneVdev pausedTwice = some s ∧
    (s.hl.cats 0).head = [.peer 5 0] ∧ PauseOk s := by
  refine ⟨_, rfl, by decide +kernel, pause_nesting false _ ?_⟩
  have halong : (pauseMachine false).Along PauseEventOk oneVdev pausedTwice := by decide +kernel
  exact Machine.Reach.run (.start oneVdev_init) halong rfl

/-- A vdev is paused when a peer is attached, and again before the first pause ends: ending the first schedules the peer's frame while the second is in force. -/
theorem attach_while_paused : ∃ s, (pauseMachine false).run oneVdev
    [.vdevPause 0 1, .attach 0 5 fun _ => none, .txReady 5, .vdevPause 0 16,
      .enqueue (.peer 5 0) ⟨0, 100, 1⟩, .vdevUnpause 0 1] = some s ∧
    s.hlPausedReason 0 = 16 ∧ (s.hl.cats 0).head = [.peer 5 0] ∧ ¬ PauseOk s := by
  refine ⟨_, rfl, by decide +kernel, by decide +kernel, fun h => ?_⟩
  have := (h (5, 0) (by decide +kernel) 0 0 (by decide +kernel)).1
  contradiction

end Qcacld.Txrx

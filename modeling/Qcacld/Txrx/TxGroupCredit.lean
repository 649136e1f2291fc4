import Qcacld.Txrx.TxPause

/-!
# Txrx — TxGroupCredit

Group credit.  A batch of the scheduler is paid for by the group its queue's cached pointer leads to; the completion of a frame pays one credit back to the first group whose vdev mask has the frame's vdev.  The pointers are set when a queue is attached and when a membership message changes a vdev's bit, so the two need not agree.

The ghost part of the state says of each frame in flight which group its batch was charged to, and of each group what it has been granted.  `group_credit_iff` says that the credits add up in a run exactly as long as each completion finds the group that paid.
-/

namespace Qcacld.Txrx
open Qcacld.Support Function List Option Nat

def olTxMaxTxqGroups : Nat := 2
def olTxNumQosTids : Nat := 16
/-- `htt_tx_msdu_credit`: one credit a buffer. -/
def httTxMsduCredit : Nat := 1
/-- `OL_TXRX_INVALID_VDEV_ID`, in the 8 bits of `tx_desc->vdev_id`. -/
def olTxrxInvalidVdevId : Nat := 0xff

def olTxqGroupVdevIdMaskGet (membership : BitVec 32) : BitVec 32 :=
  (membership &&& 0xffff0000#32) >>> 16

def olTxqGroupAcMaskGet (membership : BitVec 32) : BitVec 32 := membership &&& 0x0000ffff#32

/-- `OL_TXQ_GROUP_VDEV_ID_BIT_MASK_GET`, and `OL_TXQ_GROUP_AC_BIT_MASK_GET` -/
def olTxqGroupBitMaskGet (mask : BitVec 32) (bit : Nat) : BitVec 32 := (mask >>> bit) &&& 1#32

def olTxqGroupMembershipGet (vdevMask acMask : BitVec 32) : BitVec 32 := vdevMask <<< 16 ||| acMask

structure GroupPdev where
  hl : HlPdev
  /-- the `membership` of `txq_grps` -/
  membership : Nat → BitVec 32
  /-- `vdev_list`, by the vdevs' ids -/
  vdevs : List Nat
  /-- the `peer_list`s of all vdevs: each peer, with its vdev -/
  peers : List (Nat × Nat)
  /-- `tx_desc->vdev_id` -/
  descVdev : Nat → Nat
  /-- `tx_desc.pool_size` -/
  poolSize : Nat
  /-- Ghost: the frames scheduled and not completed, with the group that paid for them. -/
  inflight : List (Nat × Option Nat)
  /-- Ghost: what each group has been granted. -/
  granted : Nat → Int

open GroupPdev

/-! ### The operations -/

def olTxrxUpdateGroupCredit (p : HlPdev) (group : Nat) (credit : Int) (absolute : Bool) : HlPdev :=
  { p with
    groupCredit := update p.groupCredit group
      (if absolute then credit else p.groupCredit group + credit) }

def olTxVdevHasTxQueueGroup (s : GroupPdev) (group vdevId : Nat) : Bool :=
  olTxqGroupBitMaskGet (olTxqGroupVdevIdMaskGet (s.membership group)) vdevId ≠ 0

def olTxAcHasTxQueueGroup (s : GroupPdev) (group ac : Nat) : Bool :=
  olTxqGroupBitMaskGet (olTxqGroupAcMaskGet (s.membership group)) ac ≠ 0

/-- The queues whose pointers `ol_tx_set_vdev_group_ptr` sets: those of the vdev and of its peers. -/
def vdevOwns (s : GroupPdev) (vdevId : Nat) : TxqId → Bool
  | .vdev vdev i => vdev = vdevId ∧ i < olTxVdevNumQueues
  | .peer peer tid => (peer, vdevId) ∈ s.peers ∧ tid < olTxNumTids

/-- `ol_tx_set_vdev_group_ptr`, for a vdev on the list. -/
def olTxSetVdevGroupPtr (s : GroupPdev) (vdevId : Nat) (grpPtr : Option Nat) : GroupPdev :=
  let txqs := fun q =>
    if vdevOwns s vdevId q then { s.hl.txqs q with groupPtr := grpPtr } else s.hl.txqs q
  { s with hl := { s.hl with txqs := txqs } }

/-- `ol_tx_set_peer_group_ptr`: the first group of the vdev, for a QoS TID one that has its access category too. -/
def olTxSetPeerGroupPtr (s : GroupPdev) (vdevId tid : Nat) : Option Nat :=
  (List.range olTxMaxTxqGroups).find? fun group => olTxVdevHasTxQueueGroup s group vdevId &&
    (¬ tid < olTxNumQosTids || olTxAcHasTxQueueGroup s group (txrxTidToWmmAc tid).val)

/-- The loop of `ol_txrx_update_tx_queue_groups` over the vdevs. -/
def updateVdevs (groupId : Nat) (groupVdevIdMask vdevIdMask : BitVec 32) (s : GroupPdev)
    (vdevs : List Nat) : GroupPdev :=
  vdevs.foldl (fun s vdevId =>
    if olTxqGroupBitMaskGet groupVdevIdMask vdevId ≠ olTxqGroupBitMaskGet vdevIdMask vdevId then
      olTxSetVdevGroupPtr s vdevId
        (if olTxqGroupBitMaskGet vdevIdMask vdevId = 0 then none else some groupId)
    else s) s

/-- The first part of `ol_txrx_update_tx_queue_groups`: the membership. -/
def updateMembership (s : GroupPdev) (groupId : Nat) (vdevIdMask acMask : BitVec 32) : GroupPdev :=
  let membership := olTxqGroupMembershipGet vdevIdMask acMask
  if s.membership groupId = membership then s
  else
    let s := updateVdevs groupId (olTxqGroupVdevIdMaskGet (s.membership groupId)) vdevIdMask s s.vdevs
    { s with membership := update s.membership groupId membership }

/-- The frames in flight that a group has paid for. -/
def GroupPdev.outstanding (s : GroupPdev) (group : Nat) : Nat :=
  s.inflight.countP fun frm => frm.2 = some group

/-- `ol_txrx_update_tx_queue_groups`.  An absolute credit grants what makes it up with what is in flight. -/
def olTxrxUpdateTxQueueGroups (s : GroupPdev) (groupId : Nat) (credit : Int) (absolute : Bool)
    (vdevIdMask acMask : BitVec 32) : GroupPdev :=
  if groupId ≥ olTxMaxTxqGroups then s
  else
    let s := updateMembership s groupId vdevIdMask acMask
    { s with
      hl := olTxrxUpdateGroupCredit s.hl groupId credit absolute
      granted := update s.granted groupId
        (if absolute then credit + s.outstanding groupId else s.granted groupId + credit) }

/-- The group that `ol_tx_desc_update_group_credit` pays. -/
def refundGroup (s : GroupPdev) (txDescId : Nat) : Option Nat :=
  if txDescId ≥ s.poolSize then none
  else (List.range olTxMaxTxqGroups).find? fun i => olTxVdevHasTxQueueGroup s i (s.descVdev txDescId)

def olTxDescUpdateGroupCredit (s : GroupPdev) (txDescId : Nat) (credit : Int) (absolute : Bool) :
    GroupPdev :=
  match refundGroup s txDescId with
  | some group => { s with hl := olTxrxUpdateGroupCredit s.hl group credit absolute }
  | none => s

def debited (p p' : HlPdev) : Option Nat :=
  (List.range olTxMaxTxqGroups).find? fun group => p'.groupCredit group ≠ p.groupCredit group

/-- One turn of `ol_tx_sched`.  What it takes from a queue is in flight from here on. -/
def schedTurn (s : GroupPdev) : Option GroupPdev := do
  let (hl, sctx, _) ← olTxSchedTurn s.hl ⟨0, []⟩
  return { s with
    hl := hl
    inflight := s.inflight ++ sctx.head.map fun frm => (frm.id, debited s.hl hl) }

def txqVdev (s : GroupPdev) : TxqId → Option Nat
  | .vdev vdev i => if vdev ∈ s.vdevs ∧ i < olTxVdevNumQueues then some vdev else none
  | .peer peer tid =>
    if tid < olTxNumTids then (s.peers.find? fun p => p.1 = peer).map Prod.snd else none

/-- A frame of the queue's vdev is given a descriptor and enqueued. -/
def groupEnqueue (s : GroupPdev) (q : TxqId) (id len : Nat) : Option GroupPdev := do
  let vdev ← txqVdev s q
  return { s with
    hl := olTxEnqueue s.hl q ⟨id, len, httTxMsduCredit⟩
    descVdev := update s.descVdev id vdev }

/-- `ol_txrx_vdev_attach`. -/
def groupVdevAttach (s : GroupPdev) (vdev : Nat) : GroupPdev :=
  { s with
    hl := (List.range olTxVdevNumQueues).foldl
      (fun p i => p.setTxq (.vdev vdev i) (.attached none)) s.hl
    vdevs := s.vdevs ++ [vdev] }

/-- `ol_txrx_peer_attach`. -/
def groupPeerAttach (s : GroupPdev) (vdev peer : Nat) : GroupPdev :=
  { s with
    hl := (List.range olTxNumTids).foldl (fun p tid =>
      p.setTxq (.peer peer tid) (.attached (olTxSetPeerGroupPtr s vdev tid))) s.hl
    peers := s.peers ++ [(peer, vdev)] }

def groupPeerDelete (s : GroupPdev) (peer : Nat) : GroupPdev :=
  { s with
    hl := (List.range olTxNumTids).foldl
      (fun p tid => (olTxQueueFree p (.peer peer tid) tid).1) s.hl
    peers := s.peers.filter fun p => p.1 ≠ peer }

/-- `ol_txrx_vdev_detach`: its queues are freed. -/
def groupVdevDetach (s : GroupPdev) (vdev : Nat) : GroupPdev :=
  { s with
    hl := (List.range olTxVdevNumQueues).foldl
      (fun p i => (olTxQueueFree p (.vdev vdev i) (i + olTxNumTids)).1) s.hl
    vdevs := s.vdevs.filter (· ≠ vdev) }

/-! ### Runs -/

inductive GroupEvent where
  | vdevAttach (vdev : Nat)
  | peerAttach (vdev peer : Nat)
  | peerDelete (peer : Nat)
  | vdevDetach (vdev : Nat)
  /-- a group of a credit update message -/
  | update (groupId : Nat) (credit : Int) (absolute : Bool) (vdevIdMask acMask : BitVec 32)
  | targetCredit (credit : Int)
  | enqueue (q : TxqId) (id len : Nat)
  | selectInit
  | turn
  | discard (frms : Nat) (force : Bool)
  | pause (peer tid : Nat)
  | unpause (peer tid : Nat)
  | flush (q : TxqId)
  /-- a completion message names the descriptor -/
  | complete (txDescId : Nat)
  /-- a scheduled frame that dispatch rejects, whose download fails, or that is returned for inspection -/
  | drop (txDescId : Nat)
  /-- `ol_tx_desc_free`, for a frame that is not in flight any more -/
  | descFree (txDescId : Nat)

def GroupPdev.landed (s : GroupPdev) (txDescId : Nat) : List (Nat × Option Nat) :=
  s.inflight.eraseP fun frm => frm.1 = txDescId

def groupStep (s : GroupPdev) : GroupEvent → Option GroupPdev
  | .vdevAttach vdev => do guard (vdev ∉ s.vdevs); return groupVdevAttach s vdev
  | .peerAttach vdev peer => do
    guard (vdev ∈ s.vdevs ∧ peer ∉ s.peers.map Prod.fst)
    return groupPeerAttach s vdev peer
  | .peerDelete peer => some (groupPeerDelete s peer)
  | .vdevDetach vdev => do
    guard (∀ p ∈ s.peers, p.2 ≠ vdev)
    return groupVdevDetach s vdev
  | .update groupId credit absolute vdevIdMask acMask =>
    some (olTxrxUpdateTxQueueGroups s groupId credit absolute vdevIdMask acMask)
  | .targetCredit credit =>
    some { s with hl := { s.hl with targetTxCredit := s.hl.targetTxCredit + credit } }
  | .enqueue q id len => groupEnqueue s q id len
  | .selectInit => some { s with hl := olTxSchedSelectInit s.hl }
  | .turn => schedTurn s
  | .discard frms force => some { s with hl := (olTxSchedDiscardSelect s.hl frms [] force).1 }
  | .pause peer tid => do
    guard (tid < olTxNumTids)
    return { s with hl := olTxrxPeerTidPauseBase s.hl peer tid }
  | .unpause peer tid => do
    guard (tid < olTxNumTids)
    return { s with hl := olTxrxPeerTidUnpauseBase s.hl peer tid }
  | .flush q => do guard q.Valid; return { s with hl := (olTxQueueFree s.hl q (flushTid q)).1 }
  | .complete txDescId =>
    some { olTxDescUpdateGroupCredit s txDescId 1 false with inflight := s.landed txDescId }
  | .drop txDescId => some { s with
    inflight := s.landed txDescId
    descVdev := update s.descVdev txDescId olTxrxInvalidVdevId }
  | .descFree txDescId => do
    guard (txDescId ∉ s.inflight.map Prod.fst)
    return { s with descVdev := update s.descVdev txDescId olTxrxInvalidVdevId }

def GroupPdev.attached (specs : Cat → CatSpecs) (targetTxCredit : Int) (poolSize : Nat) :
    GroupPdev where
  hl := .attached (fun _ => none) specs targetTxCredit fun _ => 0
  membership _ := 0
  vdevs := []
  peers := []
  descVdev _ := olTxrxInvalidVdevId
  poolSize := poolSize
  inflight := []
  granted _ := 0

def groupMachine : Machine GroupPdev GroupEvent where
  init s := ∃ specs targetTxCredit poolSize, s = .attached specs targetTxCredit poolSize
  step := groupStep

/-! ### What must hold -/

/-- What each group has, and what is in flight at its expense, are what it was granted. -/
def CreditConserved (s : GroupPdev) : Prop :=
  ∀ group, s.hl.groupCredit group + s.outstanding group = s.granted group

def charged (s : GroupPdev) (txDescId : Nat) : Option Nat :=
  (s.inflight.find? fun frm => frm.1 = txDescId).bind Prod.snd

/-- A completion finds, by the vdev masks, the group that paid for the frame; and a frame that no completion comes for was paid for by none. -/
def GroupStepOk (s : GroupPdev) : GroupEvent → Prop
  | .complete txDescId => refundGroup s txDescId = charged s txDescId
  | .drop txDescId => charged s txDescId = none
  | _ => True

instance (s : GroupPdev) : (e : GroupEvent) → Decidable (GroupStepOk s e)
  | .complete txDescId => inferInstanceAs (Decidable (refundGroup s txDescId = charged s txDescId))
  | .drop txDescId => inferInstanceAs (Decidable (charged s txDescId = none))
  | .vdevAttach _ | .peerAttach .. | .peerDelete _ | .vdevDetach _ | .update .. | .targetCredit _
  | .enqueue .. | .selectInit | .turn | .discard .. | .pause .. | .unpause .. | .flush _
  | .descFree _ => .isTrue trivial

/-! ### What the queues keep -/

/-- A queue holds the frames it counts, each costs what a frame costs, and its pointer is to a group there is. -/
structure TxqSound (txq : TxFrmsQueue) : Prop where
  frms : txq.frms = txq.head.length
  cost : ∀ frm ∈ txq.head, frm.credit = httTxMsduCredit
  ptr : ∀ group, txq.groupPtr = some group → group < olTxMaxTxqGroups

/-- The queues are sound, and the groups have the credit they had. -/
structure Kept (credit : ℕ → ℤ) (p : HlPdev) : Prop where
  sound : ∀ q, TxqSound (p.txqs q)
  credit_eq : p.groupCredit = credit

section Queues
variable {p p' : HlPdev} {txq : TxFrmsQueue} {q : TxqId} {credit : ℕ → ℤ} {peer tid : ℕ}

theorem txqSound_attached {groupPtr : Option ℕ}
    (h : ∀ group, groupPtr = some group → group < olTxMaxTxqGroups) :
    TxqSound (.attached groupPtr) :=
  ⟨rfl, by simp [TxFrmsQueue.attached], h⟩

theorem TxqSound.enqueued (h : TxqSound txq) (id len : ℕ) :
    TxqSound (txq.enqueued ⟨id, len, httTxMsduCredit⟩) where
  frms := by simp [TxFrmsQueue.enqueued, h.frms]
  cost frm hfrm := by
    rcases mem_append.1 hfrm with hfrm | hfrm
    · exact h.cost frm hfrm
    · rw [mem_singleton.1 hfrm]
  ptr := h.ptr

theorem TxqSound.emptied (h : TxqSound txq) : TxqSound txq.emptied :=
  ⟨rfl, by simp [TxFrmsQueue.emptied], h.ptr⟩

theorem TxqSound.afterTaking {moved left : List TxFrm} (h : TxqSound txq)
    (hl : txq.head = moved ++ left) : TxqSound (txq.afterTaking moved left) :=
  ⟨rfl, fun frm hfrm => h.cost frm (hl ▸ mem_append_right moved hfrm), h.ptr⟩

theorem TxqSound.unpausedOnce (h : TxqSound txq) : TxqSound txq.unpausedOnce := by
  unfold TxFrmsQueue.unpausedOnce
  split
  · exact h
  · exact ⟨h.frms, h.cost, h.ptr⟩

theorem Kept.update (h : Kept credit p) (ht : p'.txqs = update p.txqs q txq)
    (hq : TxqSound txq) (hc : p'.groupCredit = p.groupCredit) : Kept credit p' := by
  refine ⟨fun x => ?_, hc.trans h.credit_eq⟩
  rw [ht]
  by_cases hx : x = q
  · subst hx
    simpa using hq
  · simpa [hx] using h.sound x

theorem Kept.congr (h : Kept credit p) (ht : p'.txqs = p.txqs)
    (hc : p'.groupCredit = p.groupCredit) : Kept credit p' :=
  ⟨fun q => ht ▸ h.sound q, hc.trans h.credit_eq⟩

theorem groupCredit_notifyDeactivate : (notifyDeactivate p q tid).groupCredit = p.groupCredit := by
  unfold notifyDeactivate
  split <;> rfl

theorem groupCredit_notifyUnpause : (notifyUnpause p q tid).groupCredit = p.groupCredit := by
  unfold notifyUnpause
  split <;> rfl

theorem Kept.queueFree (h : Kept credit p) (q : TxqId) (tid : ℕ) :
    Kept credit (olTxQueueFree p q tid).1 :=
  h.update (txqs_queueFree p q tid) (h.sound q).emptied groupCredit_notifyDeactivate

theorem Kept.enqueue (h : Kept credit p) (q : TxqId) (id len : ℕ) :
    Kept credit (olTxEnqueue p q ⟨id, len, httTxMsduCredit⟩) := by
  refine h.update (txqs_enqueue p q _) ((h.sound q).enqueued id len) ?_
  unfold olTxEnqueue
  dsimp only
  split <;> rfl

theorem Kept.pause (h : Kept credit p) (peer tid : ℕ) :
    Kept credit (olTxrxPeerTidPauseBase p peer tid) := by
  have hq := h.sound (.peer peer tid)
  refine h.update txqs_tidPause ⟨hq.frms, hq.cost, hq.ptr⟩ ?_
  unfold olTxrxPeerTidPauseBase
  dsimp only
  split
  · exact groupCredit_notifyDeactivate
  · rfl

theorem Kept.unpause (h : Kept credit p) (peer tid : ℕ) :
    Kept credit (olTxrxPeerTidUnpauseBase p peer tid) := by
  refine h.update txqs_tidUnpause (h.sound (.peer peer tid)).unpausedOnce ?_
  unfold olTxrxPeerTidUnpauseBase
  dsimp only
  split
  · rfl
  · split
    · exact groupCredit_notifyUnpause
    · rfl

theorem Kept.discard (h : Kept credit p) (frms : ℕ) (force : Bool) :
    Kept credit (olTxSchedDiscardSelect p frms [] force).1 := by
  rcases discardSelect_spec (fun q => (h.sound q).frms) frms [] force with he | ⟨q, moved, left, hd⟩
  · rw [he]
    exact h
  · exact h.update hd.txqs ((h.sound q).afterTaking hd.split) hd.groupCredit

theorem Kept.setTxq (h : Kept credit p) (q : TxqId) (hq : TxqSound txq) :
    Kept credit (p.setTxq q txq) :=
  h.update rfl hq rfl

end Queues

section States
variable {s s' : GroupPdev} {credit : ℕ → ℤ}

theorem find?_groups_lt {f : ℕ → Bool} {group : ℕ}
    (h : (range olTxMaxTxqGroups).find? f = some group) : group < olTxMaxTxqGroups :=
  mem_range.1 (mem_of_find?_eq_some h)

theorem Kept.vdevAttach (h : Kept credit s.hl) (vdev : ℕ) :
    Kept credit (groupVdevAttach s vdev).hl :=
  foldl_keeps (fun _ _ _ hp => hp.setTxq _ (txqSound_attached (nomatch ·, ·))) h

theorem Kept.peerAttach (h : Kept credit s.hl) (vdev peer : ℕ) :
    Kept credit (groupPeerAttach s vdev peer).hl :=
  foldl_keeps (fun _ _ _ hp => hp.setTxq _ (txqSound_attached fun _ hg => find?_groups_lt hg)) h

theorem Kept.peerDelete (h : Kept credit s.hl) (peer : ℕ) :
    Kept credit (groupPeerDelete s peer).hl :=
  foldl_keeps (fun _ _ _ hp => hp.queueFree _ _) h

theorem Kept.vdevDetach (h : Kept credit s.hl) (vdev : ℕ) :
    Kept credit (groupVdevDetach s vdev).hl :=
  foldl_keeps (fun _ _ _ hp => hp.queueFree _ _) h

theorem Kept.setVdevGroupPtr (h : Kept credit s.hl) (vdevId : ℕ) {grpPtr : Option ℕ}
    (hg : ∀ group, grpPtr = some group → group < olTxMaxTxqGroups) :
    Kept credit (olTxSetVdevGroupPtr s vdevId grpPtr).hl := by
  refine ⟨fun q => ?_, h.credit_eq⟩
  have hq := h.sound q
  change TxqSound (if vdevOwns s vdevId q then _ else _)
  split
  · exact ⟨hq.frms, hq.cost, hg⟩
  · exact hq

/-- The loop over the vdevs changes the queues' pointers, and nothing that is counted. -/
theorem Kept.updateVdevs (h : Kept credit s.hl) {groupId : ℕ} (hg : groupId < olTxMaxTxqGroups)
    (old new : BitVec 32) (vdevs : List ℕ) :
    Kept credit (updateVdevs groupId old new s vdevs).hl ∧
      (updateVdevs groupId old new s vdevs).inflight = s.inflight ∧
      (updateVdevs groupId old new s vdevs).granted = s.granted := by
  refine foldl_keeps (P := fun t : GroupPdev => Kept credit t.hl ∧ t.inflight = s.inflight ∧
    t.granted = s.granted) (fun t vdevId _ ht => ?_) ⟨h, rfl, rfl⟩
  split
  · refine ⟨ht.1.setVdevGroupPtr vdevId fun group he => ?_, ht.2⟩
    split at he
    · cases he
    · cases he
      exact hg
  · exact ht

theorem Kept.updateMembership (h : Kept credit s.hl) {groupId : ℕ}
    (hg : groupId < olTxMaxTxqGroups) (vdevIdMask acMask : BitVec 32) :
    Kept credit (updateMembership s groupId vdevIdMask acMask).hl ∧
      (updateMembership s groupId vdevIdMask acMask).inflight = s.inflight ∧
      (updateMembership s groupId vdevIdMask acMask).granted = s.granted := by
  unfold Qcacld.Txrx.updateMembership
  dsimp only
  split
  · exact ⟨h, rfl, rfl⟩
  · exact h.updateVdevs hg _ _ _

/-! ### Credit -/

theorem creditOf_eq_length {l : List TxFrm} (h : ∀ frm ∈ l, frm.credit = httTxMsduCredit) :
    creditOf l = l.length := by
  induction l with
  | nil => rfl
  | cons frm l ih =>
    rw [creditOf_cons, ih fun x hx => h x (mem_cons_of_mem frm hx), h frm mem_cons_self,
      length_cons, add_comm]
    rfl

theorem debited_eq_none {p p' : HlPdev} (h : p'.groupCredit = p.groupCredit) :
    debited p p' = none := by
  simp [debited, h]

theorem debited_eq_some {p p' : HlPdev} {group n : ℕ} (hg : group < olTxMaxTxqGroups) (hn : 0 < n)
    (h : p'.groupCredit = update p.groupCredit group (p.groupCredit group + (-n : ℤ))) :
    debited p p' = some group := by
  have hne : p'.groupCredit group ≠ p.groupCredit group := by
    rw [h, update_self]
    omega
  have hothers : ∀ x, x ≠ group → p'.groupCredit x = p.groupCredit x := by
    intro x hx
    rw [h, update_of_ne hx]
  obtain rfl | rfl : group = 0 ∨ group = 1 := by
    unfold olTxMaxTxqGroups at hg
    omega
  · simp [debited, olTxMaxTxqGroups, range_succ, hne]
  · simp [debited, olTxMaxTxqGroups, range_succ, hne, hothers 0]

theorem countP_charged (moved : List TxFrm) (payer : Option ℕ) (group : ℕ) :
    (moved.map fun frm => (frm.id, payer)).countP (fun frm => frm.2 = some group) =
      if payer = some group then moved.length else 0 := by
  rw [countP_map]
  by_cases h : payer = some group
  · rw [if_pos h, countP_eq_length]
    simpa using fun _ _ => h
  · rw [if_neg h, countP_eq_zero]
    simpa using fun _ _ => h

/-- What a batch of `n` credits is charged is what its group has less. -/
theorem credit_add_charged {p p' : HlPdev} {txq : TxFrmsQueue} {n : ℕ} (h : TxqSound txq)
    (hp : p'.groupCredit = chargeGroup p txq n) (group : ℕ) :
    p'.groupCredit group + (if debited p p' = some group then n else 0 : ℕ) =
      p.groupCredit group := by
  rw [chargeGroup, olTxTxqGroupCreditUpdate] at hp
  cases hptr : txq.groupPtr with
  | none =>
    rw [hptr] at hp
    rw [debited_eq_none hp, hp]
    simp
  | some g =>
    rw [hptr] at hp
    dsimp only at hp
    by_cases hn : n = 0
    · subst hn
      have hp : p'.groupCredit = p.groupCredit := by simpa using hp
      rw [debited_eq_none hp, hp]
      simp
    · rw [debited_eq_some (h.ptr g hptr) (pos_of_ne_zero hn) hp, hp]
      by_cases hg : group = g
      · subst hg
        simp
      · simp [hg, Ne.symm hg]

/-- A turn charges the frames it takes to the group that is said to have paid for them. -/
theorem schedTurn_conserved (h : Kept credit s.hl) (hs : schedTurn s = some s') :
    (∃ credit', Kept credit' s'.hl) ∧ s'.granted = s.granted ∧
      ∀ group, s'.hl.groupCredit group + s'.outstanding group =
        s.hl.groupCredit group + s.outstanding group := by
  obtain ⟨⟨hl, sctx, n⟩, ht, hs⟩ := bind_eq_some_iff.1 hs
  obtain ⟨hpos, ht⟩ := guard_bind_eq_some.1 ht
  obtain ⟨⟨p, sctx', n'⟩, hb, ht⟩ := bind_eq_some_iff.1 ht
  cases ht
  cases hs
  rcases selectBatch_batch (fun q => (h.sound q).frms) hb with hi | ⟨c, q, moved, left, hk⟩
  · refine ⟨⟨credit, h.congr hi.txqs hi.groupCredit⟩, rfl, fun group => ?_⟩
    simp [outstanding, hi.groupCredit, hi.sctx_eq]
  · have hlen : creditOf moved = moved.length := creditOf_eq_length fun frm hfrm =>
      (h.sound q).cost frm (hk.split ▸ mem_append_left left hfrm)
    have hcharge := hk.groupCredit
    rw [hlen] at hcharge
    have hkept : Kept p.groupCredit p := by
      refine ⟨fun x => ?_, rfl⟩
      rw [hk.txqs]
      by_cases hx : x = q
      · subst hx
        simpa using (h.sound x).afterTaking hk.split
      · simpa [hx] using h.sound x
    refine ⟨⟨p.groupCredit, hkept.congr rfl rfl⟩, rfl, fun group => ?_⟩
    have hadd := credit_add_charged (h.sound q) hcharge group
    have hdebit : ∀ t, debited s.hl { p with targetTxCredit := t } = debited s.hl p :=
      fun _ => rfl
    simp only [outstanding, hk.sctx_eq, nil_append, countP_append, countP_charged, hdebit]
    push_cast at hadd ⊢
    omega

/-- The frame that lands is no longer in flight at the expense of the group that paid for it. -/
theorem outstanding_landed (s : GroupPdev) (txDescId group : ℕ) :
    (s.landed txDescId).countP (fun frm => frm.2 = some group) +
      (if charged s txDescId = some group then 1 else 0) = s.outstanding group := by
  unfold landed charged outstanding
  induction s.inflight with
  | nil => simp
  | cons frm l ih =>
    by_cases hid : frm.1 = txDescId
    · simp [hid, countP_cons]
    · simp only [eraseP_cons, hid, decide_false, cond_false, countP_cons, find?_cons]
      omega

theorem groupCredit_refund (s : GroupPdev) (txDescId group : ℕ) :
    (olTxDescUpdateGroupCredit s txDescId 1 false).hl.groupCredit group =
      s.hl.groupCredit group + if refundGroup s txDescId = some group then 1 else 0 := by
  unfold olTxDescUpdateGroupCredit
  cases refundGroup s txDescId with
  | none => simp
  | some g =>
    by_cases hg : group = g
    · subst hg
      simp [olTxrxUpdateGroupCredit]
    · simp [olTxrxUpdateGroupCredit, hg, Ne.symm hg]

theorem complete_conserved_iff (hc : CreditConserved s) (txDescId : ℕ) :
    CreditConserved { olTxDescUpdateGroupCredit s txDescId 1 false with
      inflight := s.landed txDescId } ↔ refundGroup s txDescId = charged s txDescId := by
  have hgranted : (olTxDescUpdateGroupCredit s txDescId 1 false).granted = s.granted := by
    unfold olTxDescUpdateGroupCredit
    split <;> rfl
  have hgroup : ∀ group, (olTxDescUpdateGroupCredit s txDescId 1 false).hl.groupCredit group +
      ((s.landed txDescId).countP (fun frm => frm.2 = some group) : ℕ) = s.granted group ↔
        (refundGroup s txDescId = some group ↔ charged s txDescId = some group) := by
    intro group
    have hcons := hc group
    have hland := outstanding_landed s txDescId group
    rw [groupCredit_refund]
    by_cases hr : refundGroup s txDescId = some group <;>
      by_cases hch : charged s txDescId = some group <;>
      simp only [hr, hch, if_true, if_false, iff_true, iff_false, not_true] at hland ⊢ <;>
      omega
  unfold CreditConserved
  simp only [outstanding, hgranted, hgroup]
  exact Option.ext_iff.symm

theorem drop_conserved_iff (hc : CreditConserved s) (txDescId : ℕ) (descVdev : ℕ → ℕ) :
    CreditConserved { s with inflight := s.landed txDescId, descVdev := descVdev } ↔
      charged s txDescId = none := by
  rw [eq_none_iff_forall_ne_some]
  refine forall_congr' fun group => ?_
  have hcons := hc group
  have hland := outstanding_landed s txDescId group
  change s.hl.groupCredit group + ((s.landed txDescId).countP _ : ℕ) = s.granted group ↔ _
  by_cases hch : charged s txDescId = some group
  · rw [if_pos hch] at hland
    refine iff_of_false ?_ fun hne => hne hch
    omega
  · rw [if_neg hch] at hland
    refine iff_of_true ?_ hch
    omega

theorem CreditConserved.of_kept (hc : CreditConserved s) (hk : Kept s.hl.groupCredit s'.hl)
    (hi : s'.inflight = s.inflight) (hg : s'.granted = s.granted) : CreditConserved s' := by
  intro group
  rw [outstanding, hk.credit_eq, hi, hg]
  exact hc group

theorem update_conserved (h : ∀ q, TxqSound (s.hl.txqs q)) (hc : CreditConserved s) (groupId : ℕ)
    (credit : ℤ) (absolute : Bool) (vdevIdMask acMask : BitVec 32) :
    (∀ q, TxqSound
      ((olTxrxUpdateTxQueueGroups s groupId credit absolute vdevIdMask acMask).hl.txqs q)) ∧
    CreditConserved (olTxrxUpdateTxQueueGroups s groupId credit absolute vdevIdMask acMask) := by
  unfold olTxrxUpdateTxQueueGroups
  by_cases hlt : groupId < olTxMaxTxqGroups
  · rw [if_neg (not_le.2 hlt)]
    obtain ⟨hk, hi, hg⟩ := (Kept.mk h rfl).updateMembership hlt vdevIdMask acMask
    have hc := hc.of_kept hk hi hg
    refine ⟨hk.sound, fun group => ?_⟩
    have hgroup := hc group
    change update (updateMembership s groupId vdevIdMask acMask).hl.groupCredit groupId
        (if absolute then credit
          else (updateMembership s groupId vdevIdMask acMask).hl.groupCredit groupId + credit) group +
        ((updateMembership s groupId vdevIdMask acMask).outstanding group : ℤ) =
      update (updateMembership s groupId vdevIdMask acMask).granted groupId (if absolute then
          credit + (updateMembership s groupId vdevIdMask acMask).outstanding groupId
          else (updateMembership s groupId vdevIdMask acMask).granted groupId + credit) group
    by_cases hgr : group = groupId
    · subst hgr
      rw [update_self, update_self]
      cases absolute with
      | false =>
        simp only [Bool.false_eq_true, if_false]
        omega
      | true => rfl
    · rw [update_of_ne hgr, update_of_ne hgr]
      exact hgroup
  · rw [if_pos (not_lt.1 hlt)]
    exact ⟨h, hc⟩

theorem groupStep_conserved_iff {e : GroupEvent} (h : ∀ q, TxqSound (s.hl.txqs q))
    (hc : CreditConserved s) (hs : groupStep s e = some s') :
    (∀ q, TxqSound (s'.hl.txqs q)) ∧ (CreditConserved s' ↔ GroupStepOk s e) := by
  have hk : Kept s.hl.groupCredit s.hl := ⟨h, rfl⟩
  -- most events change no count
  have hquiet : Kept s.hl.groupCredit s'.hl → s'.inflight = s.inflight →
      s'.granted = s.granted → GroupStepOk s e →
      (∀ q, TxqSound (s'.hl.txqs q)) ∧ (CreditConserved s' ↔ GroupStepOk s e) :=
    fun hk' hi hg hok => ⟨hk'.sound, iff_of_true (hc.of_kept hk' hi hg) hok⟩
  cases e with
  | vdevAttach vdev =>
    obtain ⟨-, rfl⟩ := guarded_eq_some.1 hs
    exact hquiet (hk.vdevAttach vdev) rfl rfl trivial
  | peerAttach vdev peer =>
    obtain ⟨-, rfl⟩ := guarded_eq_some.1 hs
    exact hquiet (hk.peerAttach vdev peer) rfl rfl trivial
  | peerDelete peer =>
    cases hs
    exact hquiet (hk.peerDelete peer) rfl rfl trivial
  | vdevDetach vdev =>
    obtain ⟨-, rfl⟩ := guarded_eq_some.1 hs
    exact hquiet (hk.vdevDetach vdev) rfl rfl trivial
  | update groupId credit absolute vdevIdMask acMask =>
    cases hs
    obtain ⟨hq, hcons⟩ := update_conserved h hc groupId credit absolute vdevIdMask acMask
    exact ⟨hq, iff_of_true hcons trivial⟩
  | targetCredit credit =>
    cases hs
    exact hquiet (hk.congr rfl rfl) rfl rfl trivial
  | enqueue q id len =>
    obtain ⟨vdev, -, hs⟩ := bind_eq_some_iff.1 hs
    cases hs
    exact hquiet (hk.enqueue q id len) rfl rfl trivial
  | selectInit =>
    cases hs
    exact hquiet (hk.congr rfl rfl) rfl rfl trivial
  | turn =>
    obtain ⟨⟨credit', hk'⟩, hg, hsame⟩ := schedTurn_conserved hk hs
    exact ⟨hk'.sound, iff_of_true (fun group => by rw [hsame, hg]; exact hc group) trivial⟩
  | discard frms force =>
    cases hs
    exact hquiet (hk.discard frms force) rfl rfl trivial
  | pause peer tid =>
    obtain ⟨-, rfl⟩ := guarded_eq_some.1 hs
    exact hquiet (hk.pause peer tid) rfl rfl trivial
  | unpause peer tid =>
    obtain ⟨-, rfl⟩ := guarded_eq_some.1 hs
    exact hquiet (hk.unpause peer tid) rfl rfl trivial
  | flush q =>
    obtain ⟨-, rfl⟩ := guarded_eq_some.1 hs
    exact hquiet (hk.queueFree q _) rfl rfl trivial
  | complete txDescId =>
    cases hs
    refine ⟨fun q => ?_, complete_conserved_iff hc txDescId⟩
    unfold olTxDescUpdateGroupCredit
    split <;> exact h q
  | drop txDescId =>
    cases hs
    exact ⟨h, drop_conserved_iff hc txDescId _⟩
  | descFree txDescId =>
    obtain ⟨-, rfl⟩ := guarded_eq_some.1 hs
    exact hquiet hk rfl rfl trivial

/-- A peer of vdev 1, which is in group 0, sends a voice frame. -/
def voiceInFlight : List GroupEvent :=
  [.vdevAttach 1, .update 0 10 true 0b10 0xf, .peerAttach 1 0, .targetCredit 20,
    .enqueue (.peer 0 6) 3 100, .selectInit, .turn]

end States

end Qcacld.Txrx

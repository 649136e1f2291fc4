import Qcacld.Txrx.TxPause
import Qcacld.Txrx.TxPeerBalList

/-!
# Txrx — TxPeerBalPause

Whole calls of `ol_txrx_peer_link_status_handler`, and the queues they pause: the latest report of a peer decides whether it is paused, and its queues count one pause for that.

The flag of a peer is turned over rather than set: a rate of zero for a peer that is paused ends the pause.  An entry with a PHY mode that is none is passed over without going on to the next, so that the turns that are left all read it again.
-/

namespace Qcacld.Txrx
open Qcacld.Support Function List Option Nat PeerBalPdev

/-! ### The handler -/

/-- `OL_TX_MGMT_TID`, the first TID that is not paused. -/
def olTxMgmtTid : Nat := 17

/-- Flow control of bad peers, the queues, and how many pauses of each queue are not from it. -/
structure LinkState where
  bal : BalState
  hl : HlPdev
  /-- Ghost: the pauses of others, by peer and TID. -/
  others : Nat → Nat → Nat

open LinkState

/-- `ol_txrx_peer_pause_but_no_mgmt_q` or `ol_txrx_peer_unpause_but_no_mgmt_q`, when there is something to do. -/
def changeQueues (p : HlPdev) : Option PeerBalPdev.QueueChange → HlPdev
  | none => p
  | some (.pause peer) =>
    (List.range olTxMgmtTid).foldl (fun p tid => olTxrxPeerTidPauseBase p peer tid) p
  | some (.unpause peer) =>
    (List.range olTxMgmtTid).foldl (fun p tid => olTxrxPeerTidUnpauseBase p peer tid) p

namespace LinkState

def linkStatusTurn (s : LinkState) (r : RateReport) : LinkState :=
  let (bal, change) := s.bal.bal.linkStatus r
  { s with bal := { s.bal with bal := bal }, hl := changeQueues s.hl change }

/-- The loop of `ol_txrx_peer_link_status_handler`, over the entries that `peer_link_status` has not come to yet. -/
def linkStatusLoop : Nat → List RateReport → LinkState → LinkState
  | 0, _, s => s
  | _ + 1, [], s => s
  | n + 1, r :: rs, s =>
    if r.phy > txrxIeee11Ac then linkStatusLoop n (r :: rs) s
    else linkStatusLoop n rs (s.linkStatusTurn r)

/-- `ol_txrx_peer_link_status_handler`, with the entries of the report. -/
def olTxrxPeerLinkStatusHandler (s : LinkState) (rs : List RateReport) : LinkState :=
  if s.bal.bal.enabled = false then s
  else if rs.length > maxNoPeersInLimit then s
  else linkStatusLoop rs.length rs s

end LinkState

/-! ### The machine -/

/-- The events of a run: reports, peers that are attached, what else concerns flow control, and the pauses of others. -/
inductive LinkEvent where
  | report (rs : List RateReport)
  | attach (peer : Nat) (groupPtr : Nat → Option Nat)
  | bal (e : BalEvent)
  | otherPause (peer tid : Nat)
  | otherUnpause (peer tid : Nat)

/-- One event.  Others take back the pauses that are theirs. -/
def linkStep (s : LinkState) : LinkEvent → Option LinkState
  | .report rs => some (s.olTxrxPeerLinkStatusHandler rs)
  | .attach peer groupPtr =>
    (balStep s.bal (.attach peer)).map fun bal =>
      ⟨bal, attachTxqs s.hl peer groupPtr, update s.others peer fun _ => 0⟩
  | .bal (.attach _) | .bal (.report _) => none
  | .bal e => (balStep s.bal e).map fun bal => { s with bal := bal }
  | .otherPause peer tid =>
    some { s with
      hl := olTxrxPeerTidPauseBase s.hl peer tid
      others := update s.others peer (update (s.others peer) tid (s.others peer tid + 1)) }
  | .otherUnpause peer tid => do
    guard (0 < s.others peer tid)
    return { s with
      hl := olTxrxPeerTidUnpauseBase s.hl peer tid
      others := update s.others peer (update (s.others peer) tid (s.others peer tid - 1)) }

/-- From `ol_tx_badpeer_flow_cl_init` on, before there are peers. -/
def linkMachine : Machine LinkState LinkEvent where
  init s := balMachine.init s.bal
  step := linkStep

/-! ### The property -/

def LinkState.pauses (s : LinkState) (peer tid : Nat) : Nat :=
  (s.hl.txqs (.peer peer tid)).pausedTotal

/-- A queue counts the pauses of others, and one more or none. -/
def LinkState.CountsPause (s : LinkState) (peer : Nat) (paused : Bool) : Prop :=
  ∀ tid < olTxMgmtTid, s.pauses peer tid = s.others peer tid + paused.toNat

def lastFor (b : PeerBalPdev) (rs : List RateReport) (peer : Nat) : Option RateReport :=
  (rs.filter fun r => b.olTxrxPeerFindById r.id = some peer).getLast?

/-- Of a report and the states before and after it: each peer named in it is paused exactly when its last rate is zero. -/
def LinkStatusRight (s : LinkState) (rs : List RateReport) (s' : LinkState) : Prop :=
  ∀ peer, ∀ r ∈ lastFor s.bal.bal rs peer,
    ((s'.bal.bal.peers peer).txPauseFlag = true ↔ r.rate = 0) ∧ s'.CountsPause peer (decide (r.rate = 0))

/-! ### The condition -/

/-- Whether a peer is paused after some entries of a report. -/
def pausedAfter (s : LinkState) (seen : List RateReport) (peer : Nat) : Bool :=
  match lastFor s.bal.bal seen peer with
  | some r => decide (r.rate = 0)
  | none => (s.bal.bal.peers peer).txPauseFlag

/-- Of an entry, after others: a rate of zero is for a peer that is not paused, whose queues have room for a pause. -/
def ReportEntryOk (s : LinkState) (seen : List RateReport) (r : RateReport) : Prop :=
  r.phy ≤ txrxIeee11Ac ∧ (r.rate = 0 → ∀ peer ∈ s.bal.bal.olTxrxPeerFindById r.id,
    pausedAfter s seen peer = false ∧ ∀ tid < olTxMgmtTid, s.others peer tid < 255)

def ReportEntriesOk (s : LinkState) : List RateReport → List RateReport → Prop
  | _, [] => True
  | seen, r :: rs => ReportEntryOk s seen r ∧ ReportEntriesOk s (seen ++ [r]) rs

/-- Of each event: a report is taken, and its entries are in order; others do not pause a queue that counts 255 pauses. -/
def LinkEventOk (s : LinkState) : LinkEvent → Prop
  | .report rs =>
    s.bal.bal.enabled = true ∧ rs.length ≤ maxNoPeersInLimit ∧ ReportEntriesOk s [] rs
  | .otherPause peer tid => s.pauses peer tid < 255
  | _ => True

/-! ### The queues -/

section Queues
variable {s s' : LinkState} {peer : ℕ} {txq : TxFrmsQueue}

theorem txqs_tidLoop {op : HlPdev → ℕ → ℕ → HlPdev} {f : TxFrmsQueue → TxFrmsQueue}
    (hop : ∀ p peer tid, (op p peer tid).txqs =
      update p.txqs (.peer peer tid) (f (p.txqs (.peer peer tid)))) (p : HlPdev)
    (peer n : ℕ) {tid : ℕ} (ht : tid < olTxMgmtTid) :
    ((range olTxMgmtTid).foldl (fun p tid => op p peer tid) p).txqs (.peer n tid) =
      if n = peer then f (p.txqs (.peer n tid)) else p.txqs (.peer n tid) := by
  obtain ⟨hin, hout⟩ := txqs_loop hop (nodup_singleton peer) (nodup_range (n := olTxMgmtTid)) p
  split
  · rename_i hn
    rw [hn]
    exact hin peer (mem_singleton_self peer) tid (mem_range.2 ht)
  · rename_i hn
    refine hout _ fun peer' hp tid' _ he => hn ?_
    rw [(TxqId.peer.inj he).1, mem_singleton.1 hp]

theorem pausedTotal_pausedOnce (h : txq.pausedTotal < 255) :
    txq.pausedOnce.pausedTotal = txq.pausedTotal + 1 :=
  mod_eq_of_lt (succ_lt_succ h)

/-- What a turn does to the queues of a peer makes them count the pause that its flag then says, and the queues of others go on to count what they counted. -/
theorem countsPause_changeQueues {n : ℕ} {paused zero : Bool} (flag : Bool)
    (h : s.CountsPause n paused)
    (hn : n = peer → paused = flag)
    (hzero : zero = true → flag = false ∧ ∀ tid < olTxMgmtTid, s.others peer tid < 255)
    (ho : s'.others = s.others)
    (hq : s'.hl = changeQueues s.hl (if zero then some (.pause peer)
      else if flag then some (.unpause peer) else none)) :
    s'.CountsPause n (if n = peer then zero else paused) := by
  intro tid ht
  have hold := h tid ht
  rw [ho, pauses, hq]
  rw [pauses] at hold
  cases zero with
  | true =>
    rw [if_pos rfl, changeQueues, txqs_tidLoop (fun _ _ _ => txqs_tidPause) s.hl peer n ht]
    by_cases hp : n = peer
    · obtain ⟨hf, hroom⟩ := hzero rfl
      rw [hn hp, hf] at hold
      have hlt : (s.hl.txqs (.peer n tid)).pausedTotal < 255 := hold ▸ hp ▸ hroom tid ht
      rw [if_pos hp, if_pos hp, pausedTotal_pausedOnce hlt, hold]
      rfl
    · rw [if_neg hp, if_neg hp, hold]
  | false =>
    rw [if_neg nofun]
    cases flag with
    | true =>
      rw [if_pos rfl, changeQueues, txqs_tidLoop (fun _ _ _ => txqs_tidUnpause) s.hl peer n ht]
      by_cases hp : n = peer
      · rw [hn hp] at hold
        rw [if_pos hp, if_pos hp, pausedTotal_unpausedOnce, hold]
        rfl
      · rw [if_neg hp, if_neg hp, hold]
    | false =>
      rw [if_neg nofun, changeQueues, hold]
      by_cases hp : n = peer
      · rw [if_pos hp, hn hp]
      · rw [if_neg hp]

end Queues

/-! ### One turn -/

namespace PeerBalPdev

variable {b : PeerBalPdev} {r : RateReport} {peer : Nat}

theorem linkStatus_none (hfind : b.olTxrxPeerFindById r.id = none) :
    Kept b (b.linkStatus r).1 ∧ (b.linkStatus r).2 = none := by
  unfold linkStatus
  rw [hfind]
  exact ⟨kept_remove b r.id, rfl⟩

/-- The flag is set to what the rate says, when a rate of zero finds the peer not paused. -/
theorem pausePeer_eq (hzero : r.rate = 0 → (b.peers peer).txPauseFlag = false) :
    b.pausePeer peer r = (b.setPeer peer fun p => { p with txPauseFlag := decide (r.rate = 0) },
      if r.rate = 0 then some (.pause peer)
      else if (b.peers peer).txPauseFlag then some (.unpause peer) else none) := by
  unfold pausePeer
  by_cases hr : r.rate = 0
  · simp [hr, hzero hr]
  · cases hflag : (b.peers peer).txPauseFlag with
    | true => simp [hr]
    | false =>
      have hsame : { b.peers peer with txPauseFlag := false } = b.peers peer := by rw [← hflag]
      simp [hr, setPeer, hsame]

/-- What a turn for a peer changes, when a rate of zero finds the peer not paused. -/
structure TurnSpec (b b' : PeerBalPdev) (peer : Nat) (r : RateReport)
    (change : Option QueueChange) : Prop where
  find : b'.olTxrxPeerFindById = b.olTxrxPeerFindById
  valid : ∀ p, (b'.peers p).valid = (b.peers p).valid
  flag : ∀ p, (b'.peers p).txPauseFlag =
    if p = peer then decide (r.rate = 0) else (b.peers p).txPauseFlag
  change_eq : change = if r.rate = 0 then some (.pause peer)
    else if (b.peers peer).txPauseFlag then some (.unpause peer) else none

theorem linkStatus_some (hfind : b.olTxrxPeerFindById r.id = some peer)
    (hzero : r.rate = 0 → (b.peers peer).txPauseFlag = false) :
    TurnSpec b (b.linkStatus r).1 peer r (b.linkStatus r).2 := by
  have hk := kept_limitPeer b peer r
  have hlink : b.linkStatus r = (b.limitPeer peer r).pausePeer peer r := by
    rw [linkStatus, hfind]
  rw [hlink, pausePeer_eq fun hr => (hk.pause peer).trans (hzero hr)]
  dsimp only
  refine ⟨(find_setPeer rfl).trans hk.find,
    fun p => (setPeer_field BalPeer.valid rfl p).trans (hk.valid p), fun p => ?_, ?_⟩
  · rw [setPeer_peers, ← hk.pause p]
    split <;> rfl
  · rw [hk.pause peer]

end PeerBalPdev

variable {s s' t : LinkState} {seen rs : List RateReport} {r : RateReport} {peer : Nat}

theorem lastFor_append {b : PeerBalPdev} : lastFor b (seen ++ [r]) peer =
      if b.olTxrxPeerFindById r.id = some peer then some r else lastFor b seen peer := by
  by_cases h : b.olTxrxPeerFindById r.id = some peer
  · simp [lastFor, h]
  · simp [lastFor, h]

theorem pausedAfter_append : pausedAfter s (seen ++ [r]) peer =
      if s.bal.bal.olTxrxPeerFindById r.id = some peer then decide (r.rate = 0)
      else pausedAfter s seen peer := by
  by_cases h : s.bal.bal.olTxrxPeerFindById r.id = some peer
  · simp [pausedAfter, lastFor_append, h]
  · simp [pausedAfter, lastFor_append, h]

structure TurnInv (s : LinkState) (seen : List RateReport) (t : LinkState) : Prop where
  find : t.bal.bal.olTxrxPeerFindById = s.bal.bal.olTxrxPeerFindById
  valid : ∀ p, (t.bal.bal.peers p).valid = (s.bal.bal.peers p).valid
  others : t.others = s.others
  flag : ∀ p, (t.bal.bal.peers p).txPauseFlag = pausedAfter s seen p
  counts : ∀ p, (s.bal.bal.peers p).valid = true → t.CountsPause p (pausedAfter s seen p)

/-- **The step lemma** of the loop. -/
theorem TurnInv.turn (h : TurnInv s seen t) (hok : ReportEntryOk s seen r) :
    TurnInv s (seen ++ [r]) (t.linkStatusTurn r) := by
  cases hfind : s.bal.bal.olTxrxPeerFindById r.id with
  | none =>
    obtain ⟨hk, hc⟩ := linkStatus_none (b := t.bal.bal) (r := r) (h.find ▸ hfind)
    have hafter : ∀ p, pausedAfter s (seen ++ [r]) p = pausedAfter s seen p := fun p => by
      rw [pausedAfter_append, hfind, if_neg (some_ne_none p).symm]
    have hsame : (t.linkStatusTurn r).hl = t.hl := congrArg (changeQueues t.hl) hc
    refine ⟨hk.find.trans h.find, fun p => (hk.valid p).trans (h.valid p), h.others,
      fun p => ?_, fun p hp tid ht => ?_⟩
    · rw [hafter]
      exact (hk.pause p).trans (h.flag p)
    · rw [hafter, pauses, hsame]
      exact h.counts p hp tid ht
  | some peer =>
    have hzero : r.rate = 0 → (t.bal.bal.peers peer).txPauseFlag = false :=
      fun hr => (h.flag peer).trans (hok.2 hr peer hfind).1
    have hs := linkStatus_some (h.find ▸ hfind) hzero
    have hafter : ∀ p, pausedAfter s (seen ++ [r]) p =
        if p = peer then decide (r.rate = 0) else pausedAfter s seen p := fun p => by
      rw [pausedAfter_append, hfind]
      by_cases hp : p = peer
      · rw [hp, if_pos rfl, if_pos rfl]
      · rw [if_neg fun e => hp (some_inj.1 e).symm, if_neg hp]
    refine ⟨hs.find.trans h.find, fun p => (hs.valid p).trans (h.valid p), h.others,
      fun p => ?_, fun p hp => ?_⟩
    · rw [hafter, ← h.flag]
      exact hs.flag p
    · rw [hafter]
      refine countsPause_changeQueues (t.bal.bal.peers peer).txPauseFlag (h.counts p hp)
        (fun e => ?_) (fun hr => ?_) rfl ?_
      · rw [e, h.flag]
      · obtain ⟨hf, hroom⟩ := hok.2 (of_decide_eq_true hr) peer hfind
        exact ⟨(h.flag peer).trans hf, fun tid ht => h.others ▸ hroom tid ht⟩
      · simp only [decide_eq_true_eq]
        exact congrArg (changeQueues t.hl) hs.change_eq

/-- **The loop**, over entries that are in order. -/
theorem TurnInv.loop (h : TurnInv s seen t) (hok : ReportEntriesOk s seen rs) :
    TurnInv s (seen ++ rs) (LinkState.linkStatusLoop rs.length rs t) := by
  induction rs generalizing seen t with
  | nil => simpa [linkStatusLoop] using h
  | cons r rs ih =>
    obtain ⟨hr, hrs⟩ := hok
    rw [length_cons, linkStatusLoop, if_neg (Nat.not_lt_of_le hr.1)]
    simpa using ih (h.turn hr) hrs

/-! ### The runs -/

/-- What holds in every state that is reached: the queues of a peer count a pause for flow control exactly when its flag says so. -/
def LinkInv (s : LinkState) : Prop :=
  ∀ p, (s.bal.bal.peers p).valid = true → s.CountsPause p (s.bal.bal.peers p).txPauseFlag

theorem LinkInv.report (h : LinkInv s) (hok : LinkEventOk s (.report rs)) :
    TurnInv s rs (s.olTxrxPeerLinkStatusHandler rs) := by
  obtain ⟨hen, hlen, hrs⟩ := hok
  have h₀ : TurnInv s [] s := ⟨rfl, fun _ => rfl, rfl, fun _ => rfl, h⟩
  rw [olTxrxPeerLinkStatusHandler, if_neg (by simp [hen]), if_neg (Nat.not_lt_of_le hlen)]
  exact h₀.loop hrs

theorem TurnInv.linkInv (h : TurnInv s seen t) : LinkInv t := by
  intro p hp
  rw [h.flag]
  exact h.counts p (h.valid p ▸ hp)

theorem LinkInv.attach {bal : BalState} {groupPtr : Nat → Option Nat} (h : LinkInv s)
    (hs : balStep s.bal (.attach peer) = some bal) :
    LinkInv ⟨bal, attachTxqs s.hl peer groupPtr, update s.others peer fun _ => 0⟩ := by
  obtain ⟨-, rfl⟩ := guarded_eq_some.1 hs
  obtain ⟨hin, hout⟩ := txqs_attachTxqs s.hl peer groupPtr
  intro p hp tid ht
  change ((attachTxqs s.hl peer groupPtr).txqs (.peer p tid)).pausedTotal = _
  dsimp only [attachPeer] at hp ⊢
  rw [setPeer_peers] at hp ⊢
  by_cases hpp : p = peer
  · rw [hpp, hin tid (lt_succ_of_lt ht), if_pos rfl, update_self]
    rfl
  · rw [if_neg hpp] at hp ⊢
    rw [hout _ fun tid' _ e => hpp (TxqId.peer.inj e).1, update_of_ne hpp]
    exact h p hp tid ht

theorem LinkInv.bal {bal : BalState} (h : LinkInv s)
    (hv : ∀ p, (bal.bal.peers p).valid = true → (s.bal.bal.peers p).valid = true)
    (hp : ∀ p, (bal.bal.peers p).txPauseFlag = (s.bal.bal.peers p).txPauseFlag) :
    LinkInv { s with bal := bal } := by
  intro p hvalid
  rw [hp p]
  exact h p (hv p hvalid)

theorem LinkInv.kept {bal : BalState} (h : LinkInv s) (hk : s.bal.bal.Kept bal.bal) :
    LinkInv { s with bal := bal } :=
  h.bal (fun p hp => hk.valid p ▸ hp) hk.pause

theorem LinkInv.others {hl : HlPdev} {txq : TxFrmsQueue} {tid n : ℕ} (h : LinkInv s)
    (hhl : hl.txqs = update s.hl.txqs (.peer peer tid) txq)
    (hn : ∀ b : Bool, s.pauses peer tid = s.others peer tid + b.toNat →
      txq.pausedTotal = n + b.toNat) :
    LinkInv { s with
      hl := hl
      others := update s.others peer (update (s.others peer) tid n) } := by
  intro p hp tid' ht
  have hold := h p hp tid' ht
  change (hl.txqs (.peer p tid')).pausedTotal = update s.others peer _ p tid' + _
  rw [hhl]
  by_cases hpp : p = peer
  · rw [hpp, update_self]
    by_cases htt : tid' = tid
    · rw [htt, update_self, update_self]
      exact hn _ (htt ▸ hpp ▸ hold)
    · rw [update_of_ne htt, update_of_ne fun e => htt (TxqId.peer.inj e).2]
      exact hpp ▸ hold
  · rw [update_of_ne hpp, update_of_ne fun e => hpp (TxqId.peer.inj e).1]
    exact hold

/-- **The step lemma** of the runs. -/
theorem linkInv_step {e : LinkEvent} (h : LinkInv s) (hok : LinkEventOk s e)
    (hs : linkStep s e = some s') : LinkInv s' := by
  cases e with
  | report rs =>
    cases hs
    exact (h.report hok).linkInv
  | attach peer groupPtr =>
    obtain ⟨bal, hbal, rfl⟩ := map_eq_some_iff.1 hs
    exact h.attach hbal
  | otherPause peer tid =>
    cases hs
    refine h.others txqs_tidPause fun b hb => ?_
    rw [pausedTotal_pausedOnce hok, ← pauses, hb, add_right_comm]
  | otherUnpause peer tid =>
    obtain ⟨hpos, rfl⟩ := guarded_eq_some.1 hs
    refine h.others txqs_tidUnpause fun b hb => ?_
    rw [pausedTotal_unpausedOnce, ← pauses, hb, Nat.sub_add_comm hpos]
  | bal e =>
    cases e with
    | attach peer => cases hs
    | report r => cases hs
    | detach peer =>
      cases hs
      have hflag : ∀ p, ((s.bal.bal.detachPeer peer).peers p).txPauseFlag =
          (s.bal.bal.peers p).txPauseFlag := setPeer_field BalPeer.txPauseFlag rfl
      refine h.bal (fun p hp => ?_) hflag
      dsimp only [detachPeer] at hp
      rw [setPeer_peers] at hp
      by_cases hpp : p = peer
      · rw [if_pos hpp] at hp
        cases hp
      · rwa [if_neg hpp] at hp
    | map peerId o =>
      cases hs
      exact h.bal (fun _ hp => hp) fun _ => rfl
    | setSetting enable =>
      cases hs
      exact h.bal (fun _ hp => hp) fun _ => rfl
    | updateThreshold level thresh =>
      cases hs
      exact h.bal (fun _ hp => hp) fun _ => rfl
    | dequeue peer frames =>
      cases hs
      exact h.kept (kept_updateTxLimit s.bal.bal peer frames)
    | timerExpire =>
      obtain ⟨bal, hbal, rfl⟩ := map_eq_some_iff.1 hs
      obtain ⟨-, rfl⟩ := guarded_eq_some.1 hbal
      have hk := kept_balTimerLoop { s.bal.bal with timer := false }
      exact h.bal (fun p hp => hk.valid p ▸ hp) hk.pause
    | timerCheck =>
      obtain ⟨bal, hbal, rfl⟩ := map_eq_some_iff.1 hs
      obtain ⟨-, rfl⟩ := guarded_eq_some.1 hbal
      exact h.bal (fun _ hp => hp) fun _ => rfl
    | timerStart =>
      obtain ⟨bal, hbal, rfl⟩ := map_eq_some_iff.1 hs
      obtain ⟨-, rfl⟩ := guarded_eq_some.1 hbal
      exact h.bal (fun _ hp => hp) fun _ => rfl

theorem TurnInv.right (h : TurnInv s rs t) : LinkStatusRight s rs t := by
  intro peer r hr
  have hafter : pausedAfter s rs peer = decide (r.rate = 0) := by
    rw [pausedAfter, hr]
  have hmem := mem_of_getLast? hr
  have hfind := of_decide_eq_true (mem_filter.1 hmem).2
  refine ⟨?_, ?_⟩
  · rw [h.flag, hafter, decide_eq_true_eq]
  · exact hafter ▸ h.counts peer (find_eq_some.1 hfind).2.2

/-- **The pause follows the report.** In every run that meets the condition the queues of every peer count at most the one pause that its flag says, and after each report every peer named in it is paused exactly when its last rate is zero. -/
theorem peer_pause_right (h : linkMachine.Reach LinkEventOk s) :
    LinkInv s ∧ ∀ rs s', linkStep s (.report rs) = some s' → LinkEventOk s (.report rs) →
      LinkStatusRight s rs s' := by
  have hinv : LinkInv s := by
    refine h.invariant LinkInv (fun s₀ h₀ p hp => ?_) fun _ _ _ hi hok hs => linkInv_step hi hok hs
    rw [h₀.2.2.2.2.1 p] at hp
    cases hp
  refine ⟨hinv, fun rs s' hs hok => ?_⟩
  cases hs
  exact (hinv.report hok).right

instance decidableReportEntriesOk (s : LinkState) :
    (seen rs : List RateReport) → Decidable (ReportEntriesOk s seen rs)
  | _, [] => .isTrue trivial
  | seen, r :: rs =>
    have : Decidable (ReportEntryOk s seen r) := inferInstanceAs (Decidable (_ ∧ (_ → _)))
    have := decidableReportEntriesOk s (seen ++ [r]) rs
    inferInstanceAs (Decidable (_ ∧ _))

instance decidableLinkEventOk (s : LinkState) : (e : LinkEvent) → Decidable (LinkEventOk s e)
  | .report _ => inferInstanceAs (Decidable (_ ∧ _ ∧ _))
  | .otherPause .. => inferInstanceAs (Decidable (_ < 255))
  | .attach .. | .bal _ | .otherUnpause .. => .isTrue trivial

def linkStart : LinkState where
  bal := balStart
  hl := .attached (fun _ => none) sdioSpecs 0 fun _ => 0
  others := fun _ _ => 0

/-- A peer comes, and is reported with a rate of zero. -/
def zeroRate : List LinkEvent :=
  [.attach 1 fun _ => none, .bal (.map 10 (some 1)), .report [⟨10, 0, 0⟩]]

theorem zeroRateTwice_unpauses : ¬ ∀ s, linkMachine.Reach (fun _ _ => True) s →
    LinkInv s ∧ ∀ rs s', linkStep s (.report rs) = some s' → LinkStatusRight s rs s' := by
  intro h
  obtain ⟨s, hs, hlast, hflag⟩ : ∃ s, linkMachine.run linkStart zeroRate = some s ∧
      lastFor s.bal.bal [⟨10, 0, 0⟩] 1 = some ⟨10, 0, 0⟩ ∧
      ((linkStep s (.report [⟨10, 0, 0⟩])).map fun s' => (s'.bal.bal.peers 1).txPauseFlag) =
        some false :=
    Machine.exists_run (by decide +kernel)
  obtain ⟨s', hs', hflag⟩ := map_eq_some_iff.1 hflag
  have hinit : linkMachine.init linkStart := balStart_init
  have hright := (h s (Machine.reach_of_run hinit hs)).2 [⟨10, 0, 0⟩] s' hs' 1 _ hlast
  exact absurd (hflag.symm.trans (hright.1.2 rfl)) (by decide)

/-- In between another mechanism pauses a queue of the peer, and the next report has a rate. -/
theorem peer_pause_right_rateReturns : ∃ s s',
    linkMachine.run linkStart (zeroRate ++ [.otherPause 1 0]) = some s ∧
    linkStep s (.report [⟨10, 0, 50⟩]) = some s' ∧ s.pauses 1 0 = 2 ∧ s'.pauses 1 0 = 1 ∧
    LinkInv s ∧ LinkStatusRight s [⟨10, 0, 50⟩] s' := by
  have hinit : linkMachine.init linkStart := balStart_init
  obtain ⟨s, hs, hr, hok, hpauses, hall⟩ : ∃ s,
      linkMachine.run linkStart (zeroRate ++ [.otherPause 1 0]) = some s ∧
      linkMachine.Reach LinkEventOk s ∧ LinkEventOk s (.report [⟨10, 0, 50⟩]) ∧
      s.pauses 1 0 = 2 ∧
      ((linkStep s (.report [⟨10, 0, 50⟩])).map fun s' => s'.pauses 1 0) = some 1 :=
    Machine.exists_reach hinit (by decide +kernel) (by decide +kernel)
  obtain ⟨s', hs', hpauses'⟩ := map_eq_some_iff.1 hall
  have hright := peer_pause_right hr
  exact ⟨s, s', hs, hs', hpauses, hpauses', hright.1, hright.2 _ _ hs' hok⟩

end Qcacld.Txrx

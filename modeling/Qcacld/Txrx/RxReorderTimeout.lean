import Qcacld.Txrx.RxDefrag

/-!
# Txrx — RxReorderTimeout

The host's rx reorder time-out, in a build with `QCA_SUPPORT_OL_RX_REORDER_TIMEOUT`: a list of waiting peer-TIDs for each access category, with one timer for its first element.

A peer-TID gets a time-out when `num_mpdus` says that frames are waiting.  In this build `OL_RX_REORDER_MPDU_CNT_INCR` is defined to nothing, so `num_mpdus` stays 0 and no time-out is ever started (`Unarmed.step`).  `reorder_timeout_iff` says when that does no harm: as long as every rx indication releases all it stores.
-/

namespace Qcacld.Txrx
open Qcacld.Adf Qcacld.Support Function List Nat

def olRxMcastTid : Nat := 18

inductive TxrxWmmAc where
  | be | bk | vi | vo
deriving DecidableEq

/-- `TXRX_TID_TO_WMM_AC`. -/
def TxrxWmmAc.ofTid (tid : Nat) : TxrxWmmAc :=
  if tid >>> 1 = 3 then .vo
  else if tid >>> 1 = 2 then .vi
  else if (tid ^^^ (tid >>> 1)) &&& 1 ≠ 0 then .bk
  else .be

/-- `struct ol_tx_reorder_cat_timeout_t`.  An element stands for its peer and TID; `timer` is the time the timer is due at, while it runs. -/
structure ReorderCatTimeout where
  virtualTimerList : List DefragElem
  timer : Option UInt32
  durationMs : UInt32

/-- A pdev with the time-outs: the `active` and `timestamp_ms` of each element, the lists, and the peers' `tids_mcast_last_seq`. -/
structure TimeoutPdev extends DefragPdev where
  active : DefragElem → Bool
  timestampMs : DefragElem → UInt32
  accessCats : TxrxWmmAc → ReorderCatTimeout
  mcastLastSeq : Nat → Nat → Nat

/-- What does not change: the frames' descriptors say whether they are fragments, the TID they were sent on, and whether they were sent again.  Duplicates are checked for when defragmentation time-outs are. -/
structure TimeoutCfg extends DefragCfg where
  isFrag : AdfNbuf → Bool
  pktTid : AdfNbuf → Nat
  retry : AdfNbuf → Bool

/-- An MPDU of an rx indication, from its first MSDU on. -/
structure IndMpdu where
  /-- the status of its MPDU range is `htt_rx_status_ok` -/
  ok : Bool
  msduChaining : Bool
  reorderIdx : Nat
  headMsdu : AdfNbuf
  moreMsdus : List AdfNbuf

namespace TimeoutPdev

/-- The list and timer of an element's access category. -/
def cat (s : TimeoutPdev) (e : DefragElem) : ReorderCatTimeout :=
  s.accessCats (.ofTid e.2.val)

/-- Change the list and timer of an access category. -/
def setCat (s : TimeoutPdev) (ac : TxrxWmmAc) (cat : ReorderCatTimeout) : TimeoutPdev :=
  { s with accessCats := update s.accessCats ac cat }

def setRx (s : TimeoutPdev) (e : DefragElem) (rx : RxTid) : TimeoutPdev :=
  { s with toDefragPdev := s.toDefragPdev.setTid e { s.tids e with rx := rx } }

end TimeoutPdev

/-! ### The time-outs -/

def olRxReorderTimeoutRemove (s : TimeoutPdev) (e : DefragElem) : TimeoutPdev :=
  if !s.active e then s
  else
    let s := { s with active := update s.active e false }
    s.setCat (.ofTid e.2.val)
      { s.cat e with virtualTimerList := (s.cat e).virtualTimerList.erase e }

/-- `ol_rx_reorder_timeout_start`: the timer runs until the first element's time. -/
def olRxReorderTimeoutStart (s : TimeoutPdev) (ac : TxrxWmmAc) (timeNowMs : UInt32) :
    TimeoutPdev :=
  match (s.accessCats ac).virtualTimerList with
  | [] => s
  | e :: _ =>
    let durationMs := s.timestampMs e - timeNowMs
    s.setCat ac { s.accessCats ac with timer := some (timeNowMs + durationMs) }

def olRxReorderTimeoutAdd (s : TimeoutPdev) (e : DefragElem) (timeNowMs : UInt32) : TimeoutPdev :=
  let ac := TxrxWmmAc.ofTid e.2.val
  let start := (s.cat e).virtualTimerList.isEmpty
  let s := { s with
    active := update s.active e true
    timestampMs := update s.timestampMs e (timeNowMs + (s.cat e).durationMs) }
  let s := s.setCat ac { s.cat e with virtualTimerList := (s.cat e).virtualTimerList ++ [e] }
  if start then olRxReorderTimeoutStart s ac timeNowMs else s

def olRxReorderTimeoutUpdate (s : TimeoutPdev) (e : DefragElem) (timeNowMs : UInt32) :
    TimeoutPdev :=
  if (s.tids e).rx.numMpdus = 0 then s
  else if s.active e then s
  else olRxReorderTimeoutAdd s e timeNowMs

def olRxReorderTimeoutPeerCleanup (s : TimeoutPdev) (peer : Nat) : TimeoutPdev :=
  (List.finRange olTxrxNumExtTids).foldl (fun s tid =>
    if s.active (peer, tid) then olRxReorderTimeoutRemove s (peer, tid) else s) s

/-- A loop of `ol_rx_reorder_first_hole`: go on as long as slots are `present`, but not past `idxStart`. -/
def holeSkip (rx : RxTid) (present : Bool) (idxStart : Nat) : Nat → Nat → Nat
  | 0, tmpIdx => tmpIdx
  | fuel + 1, tmpIdx =>
    if tmpIdx ≠ idxStart ∧ (rx.slots[tmpIdx]?.bind (·.head)).isSome = present then
      holeSkip rx present idxStart fuel ((tmpIdx + 1) &&& rx.winSzMask)
    else tmpIdx

/-- `ol_rx_reorder_first_hole`; `OL_RX_REORDER_IDX_START_SELF_SELECT` leaves `idx_start` at 0. -/
def olRxReorderFirstHole (rx : RxTid) : Nat :=
  let tmpIdx := 1 &&& rx.winSzMask
  let tmpIdx := holeSkip rx false 0 (rx.winSzMask + 1) tmpIdx
  holeSkip rx true 0 (rx.winSzMask + 1) tmpIdx

section Handlers
variable (cfg : TimeoutCfg)

/-- `ol_rx_reorder_flush`, with the time-out. -/
def timeoutFlush (s : TimeoutPdev) (e : DefragElem) (idxStart idxEnd : Nat)
    (action : HttRxFlushAction) : Option TimeoutPdev := do
  let d ← reorderFlush cfg.toDefragCfg s.toDefragPdev e idxStart idxEnd action
  return olRxReorderTimeoutRemove { s with toDefragPdev := d } e

/-- `ol_rx_reorder_release`, with the time-out. -/
def timeoutRelease (s : TimeoutPdev) (e : DefragElem) (idxStart idxEnd : Nat) :
    Option TimeoutPdev := do
  let rx ← olRxReorderRelease cfg.seqNum cfg.fuel (s.tids e).rx idxStart idxEnd
  return olRxReorderTimeoutRemove (s.setRx e rx) e

/-- The loop of `ol_rx_reorder_timeout`; the list is followed as it was, since each turn takes off the element it is at. -/
def reorderTimeoutLoop (ac : TxrxWmmAc) (timeNowMs : UInt32) (s : TimeoutPdev) :
    List DefragElem → Option TimeoutPdev
  | [] => some s
  | e :: rest =>
    if s.timestampMs e > timeNowMs then some s
    else do
      let s := { s with active := update s.active e false }
      let s := s.setCat ac
        { s.accessCats ac with virtualTimerList := (s.accessCats ac).virtualTimerList.erase e }
      let idxEnd := olRxReorderFirstHole (s.tids e).rx
      let s ← timeoutFlush cfg s e 0xffff idxEnd .release
      reorderTimeoutLoop ac timeNowMs s rest

/-- `ol_rx_reorder_timeout`, called when the timer of `ac` is due; the timer has stopped by then. -/
def olRxReorderTimeout (s : TimeoutPdev) (ac : TxrxWmmAc) (timeNowMs : UInt32) :
    Option TimeoutPdev := do
  let s := s.setCat ac { s.accessCats ac with timer := none }
  let s ← reorderTimeoutLoop cfg ac timeNowMs s (s.accessCats ac).virtualTimerList
  return if (s.accessCats ac).virtualTimerList.isEmpty then s
    else olRxReorderTimeoutStart s ac timeNowMs

/-! ### The rx handlers -/

def olRxReorderSeqNumCheck (lastSeq seqNum : Nat) : Bool :=
  if lastSeq = ieee80211SeqMax then true
  else
    let delta := (UInt32.ofNat seqNum - 1 - UInt32.ofNat lastSeq) &&& UInt32.ofNat (ieee80211SeqMax - 1)
    ¬ delta > UInt32.ofNat (ieee80211SeqMax >>> 1)

/-- `OL_RX_SEQ_NUM_CHECK`: whether the MPDU is to be kept, and the peer's `tids_mcast_last_seq` after the check. -/
def olRxSeqNumCheck (tid winSzMask lastSeq : Nat) (mcastLastSeq : Nat → Nat) (msdu : AdfNbuf) :
    Bool × (Nat → Nat) :=
  let seqNum := cfg.seqNum msdu
  let pktTid := cfg.pktTid msdu
  if ¬ (cfg.defragTimeoutCheck ∧ winSzMask = 0) then (true, mcastLastSeq)
  else if tid = olRxMcastTid then
    if pktTid ≥ olTxrxNumExtTids then (true, mcastLastSeq)
    else if cfg.retry msdu && seqNum = mcastLastSeq pktTid then (false, mcastLastSeq)
    else (true, update mcastLastSeq pktTid seqNum)
  else (olRxReorderSeqNumCheck lastSeq seqNum, mcastLastSeq)

/-- What the loop of `ol_rx_indication_handler` over the MPDUs works on. -/
structure IndState where
  rx : RxTid
  mcastLastSeq : Nat → Nat
  rxIndRelease : Bool

def indMpdu (tid : Nat) (q : IndState) (m : IndMpdu) : Option IndState := do
  let msdus := m.headMsdu :: m.moreMsdus
  let discarded := { q with rx := { q.rx with freed := q.rx.freed ++ msdus } }
  if !m.ok || m.msduChaining then return discarded
  else
    let (ok, mcastLastSeq) := olRxSeqNumCheck cfg tid q.rx.winSzMask q.rx.lastSeq q.mcastLastSeq
      m.headMsdu
    if !ok then return { discarded with mcastLastSeq := mcastLastSeq, rxIndRelease := false }
    else
      let rx ← olRxReorderStore { q.rx with heap := linkNbufs q.rx.heap msdus } m.reorderIdx
        m.headMsdu (msdus.getLast (List.cons_ne_nil _ _))
      let rx := if rx.winSzMask = 0 then { rx with lastSeq := cfg.seqNum m.headMsdu } else rx
      return { q with rx := rx, mcastLastSeq := mcastLastSeq }

/-- The release at the end of `ol_rx_indication_handler`. -/
def indRelease (s : TimeoutPdev) (e : DefragElem) (rxIndRelease : Bool) :
    Option (Nat × Nat) → Option TimeoutPdev
  | some (seqNumStart, seqNumEnd) =>
    if rxIndRelease then timeoutRelease cfg s e seqNumStart seqNumEnd else some s
  | none => some s

/-- The flush at the start of `ol_rx_indication_handler`. -/
def indFlush (s : TimeoutPdev) (e : DefragElem) : Option (Nat × Nat) → Option TimeoutPdev
  | some (seqNumStart, seqNumEnd) => timeoutFlush cfg s e seqNumStart seqNumEnd .release
  | none => some s

/-- `ol_rx_indication_handler`, for a peer that exists. -/
def olRxIndicationHandler (s : TimeoutPdev) (e : DefragElem) (flush : Option (Nat × Nat))
    (mpdus : List IndMpdu) (release : Option (Nat × Nat)) (nowMs : UInt32) :
    Option TimeoutPdev := do
  let s ← indFlush cfg s e flush
  let q ← mpdus.foldlM (indMpdu cfg e.2.val) ⟨(s.tids e).rx, s.mcastLastSeq e.1, release.isSome⟩
  let s := { s.setRx e q.rx with
    mcastLastSeq := update s.mcastLastSeq e.1 q.mcastLastSeq }
  let s ← indRelease cfg s e q.rxIndRelease release
  let s := olRxReorderTimeoutUpdate s e nowMs
  if cfg.defragTimeoutCheck then
    let d ← olRxDefragWaitlistFlush cfg.toDefragCfg s.toDefragPdev nowMs
    return { s with toDefragPdev := d }
  else return s

/-- The first frame in the slot a flush starts at is a fragment. -/
def flushFindsFrag (rx : RxTid) (idxStart : Nat) : Bool :=
  match rx.slots[idxStart &&& rx.winSzMask]?.bind (·.head) with
  | some head => cfg.isFrag head
  | none => false

/-- `ol_rx_flush_handler`, for a peer that exists. -/
def olRxFlushHandler (s : TimeoutPdev) (e : DefragElem) (idxStart idxEnd : Nat)
    (action : HttRxFlushAction) (nowMs : UInt32) : Option TimeoutPdev :=
  if flushFindsFrag cfg (s.tids e).rx idxStart then do
    let d ← olRxReorderFlushFrag cfg.toDefragCfg s.toDefragPdev e idxStart
    return { s with toDefragPdev := d }
  else do
    let s ← timeoutFlush cfg s e idxStart idxEnd action
    return olRxReorderTimeoutUpdate s e nowMs

/-- `ol_txrx_peer_attach`: the memory is zeroed and the rx part is set up. -/
def timeoutPeerInit (s : TimeoutPdev) (peer : Nat) : TimeoutPdev :=
  let zeroed := fun e => if e.1 = peer then
    { s.tids e with rx := { (s.tids e).rx with numMpdus := 0 } } else s.tids e
  { s with
    toDefragPdev := peerInit { s.toDefragPdev with tids := zeroed } peer
    active := fun e => if e.1 = peer then false else s.active e
    mcastLastSeq := update s.mcastLastSeq peer fun _ => 0 }

/-- The end of `ol_txrx_peer_unref_delete`: each TID is flushed, its time-out goes, and what is left of it is freed. -/
def timeoutPeerDelete (s : TimeoutPdev) (peer : Nat) : Option TimeoutPdev := do
  let s ← (List.finRange olTxrxNumExtTids).foldlM
    (fun s tid => timeoutFlush cfg s (peer, tid) 0 0 .discard) s
  let s := olRxReorderTimeoutPeerCleanup s peer
  let d := peerArraysFree s.toDefragPdev peer
  return { s with toDefragPdev := { d with live := update d.live peer false } }

end Handlers

/-! ### Runs -/

inductive TimeoutEvent where
  | peerAttach (peer : Nat)
  | rxInd (e : DefragElem) (flush : Option (Nat × Nat)) (mpdus : List IndMpdu)
      (release : Option (Nat × Nat)) (nowMs : UInt32)
  | flush (e : DefragElem) (idxStart idxEnd : Nat) (action : HttRxFlushAction) (nowMs : UInt32)
  | addba (e : DefragElem) (winSz : Nat) (failed : Bool)
  | delba (e : DefragElem)
  | timer (ac : TxrxWmmAc) (nowMs : UInt32)
  | peerDelete (peer : Nat)

/-- One event.  A timer event comes when the timer runs. -/
def timeoutStep (cfg : TimeoutCfg) (s : TimeoutPdev) : TimeoutEvent → Option TimeoutPdev
  | .peerAttach peer => do
    guard (s.live peer = false)
    return timeoutPeerInit s peer
  | .rxInd e flush mpdus release nowMs => do
    guard (s.live e.1 = true)
    olRxIndicationHandler cfg s e flush mpdus release nowMs
  | .flush e idxStart idxEnd action nowMs => do
    guard (s.live e.1 = true)
    olRxFlushHandler cfg s e idxStart idxEnd action nowMs
  | .addba e winSz failed => do
    guard (s.live e.1 = true)
    let d ← Qcacld.Txrx.addba s.toDefragPdev e winSz failed
    return { s with toDefragPdev := d }
  | .delba e => do
    guard (s.live e.1 = true)
    return { s with toDefragPdev := Qcacld.Txrx.delba s.toDefragPdev e }
  | .timer ac nowMs => do
    guard ((s.accessCats ac).timer.isSome = true)
    olRxReorderTimeout cfg s ac nowMs
  | .peerDelete peer => do
    guard (s.live peer = true)
    timeoutPeerDelete cfg s peer

/-- A pdev without peers, its lists as `ol_rx_reorder_timeout_init` leaves them. -/
structure TimeoutPdev.Fresh (s : TimeoutPdev) : Prop where
  toDefragPdev : s.toDefragPdev.Fresh
  accessCats : s.accessCats = fun ac => ⟨[], none, if ac = .vo then 40 else 100⟩

def timeoutMachine (cfg : TimeoutCfg) : Machine TimeoutPdev TimeoutEvent where
  init s := s.Fresh
  step := timeoutStep cfg

/-! ### What must hold -/

/-- Of two times, counted modulo 2^32, the first is not after the second. -/
def NotAfter (t u : UInt32) : Prop := u - t < 0x80000000
deriving Decidable

/-- The time-out of a peer-TID runs: it is active, once on the list of its access category, and the timer is due no later than it. -/
def TimeoutRuns (s : TimeoutPdev) (e : DefragElem) : Prop :=
  s.active e = true ∧ (s.cat e).virtualTimerList.count e = 1 ∧
    ∃ t, (s.cat e).timer = some t ∧ NotAfter t (s.timestampMs e)

/-- No hole is forgotten: a peer-TID with a frame in its reorder array has its time-out running. -/
def HolesTimed (s : TimeoutPdev) : Prop :=
  ∀ e, s.live e.1 = true → ¬ WindowEmpty (s.tids e).rx → TimeoutRuns s e

/-- From `tids_next_rel_idx` on, the slot behind the frames that follow the first hole. -/
def nextHole (rx : RxTid) : Nat :=
  let present i := (rx.slots[i]?.bind (·.head)).isSome
  let ring := ringRange (rx.winSzMask + 1) rx.nextRelIdx rx.nextRelIdx
  ((ring.dropWhile fun i => !present i).dropWhile present).headD
    (rx.nextRelIdx % (rx.winSzMask + 1))

/-- What a timer is for: the peer-TIDs whose time has passed, and no others, leave the list and release their frames from the next index up to the next hole; the timer goes on for the rest. -/
def expire (cfg : TimeoutCfg) (s : TimeoutPdev) (ac : TxrxWmmAc) (nowMs : UInt32) :
    Option TimeoutPdev := do
  let due := (s.accessCats ac).virtualTimerList.filter fun e => NotAfter (s.timestampMs e) nowMs
  let s := s.setCat ac { s.accessCats ac with timer := none }
  let s ← due.foldlM (fun s e => timeoutFlush cfg (olRxReorderTimeoutRemove s e) e
    (s.tids e).rx.nextRelIdx (nextHole (s.tids e).rx) .release) s
  return olRxReorderTimeoutStart s ac nowMs

def TimerLaw (cfg : TimeoutCfg) (s : TimeoutPdev) : TimeoutEvent → TimeoutPdev → Prop
  | .timer ac nowMs, s' => expire cfg s ac nowMs = some s'
  | _, _ => True

/-- The slots that the MPDUs of an rx indication are stored in, and whether all of them pass `OL_RX_SEQ_NUM_CHECK`; a TID without block ack remembers the last sequence number. -/
def indStored (cfg : TimeoutCfg) (tid winSzMask : Nat) :
    Nat → (Nat → Nat) → List IndMpdu → List Nat × Bool
  | _, _, [] => ([], true)
  | lastSeq, mcastLastSeq, m :: mpdus =>
    if !m.ok || m.msduChaining then indStored cfg tid winSzMask lastSeq mcastLastSeq mpdus
    else
      let (ok, mcastLastSeq) := olRxSeqNumCheck cfg tid winSzMask lastSeq mcastLastSeq m.headMsdu
      if !ok then ((indStored cfg tid winSzMask lastSeq mcastLastSeq mpdus).1, false)
      else
        let lastSeq := if winSzMask = 0 then cfg.seqNum m.headMsdu else lastSeq
        let rest := indStored cfg tid winSzMask lastSeq mcastLastSeq mpdus
        ((m.reorderIdx &&& winSzMask) :: rest.1, rest.2)

/-- An rx indication whose release, if it stores any MPDU, takes place and covers all it stores. -/
def IndReleased (release : Option (Nat × Nat)) (n : Nat) (stored : List Nat × Bool) : Prop :=
  stored.1 = [] ∨ stored.2 = true ∧ ∃ r ∈ release, ∀ i ∈ stored.1, i ∈ ringRange n r.1 r.2
deriving Decidable

def TimeoutStepOk (cfg : TimeoutCfg) (s : TimeoutPdev) : TimeoutEvent → Prop
  | .rxInd e _ mpdus release _ =>
    let rx := (s.tids e).rx
    IndReleased release (rx.winSzMask + 1)
      (indStored cfg e.2.val rx.winSzMask rx.lastSeq (s.mcastLastSeq e.1) mpdus)
  | _ => True

instance (cfg : TimeoutCfg) (s : TimeoutPdev) :
    (ev : TimeoutEvent) → Decidable (TimeoutStepOk cfg s ev)
  | .rxInd .. => inferInstanceAs (Decidable (IndReleased ..))
  | .peerAttach _ | .flush .. | .addba .. | .delba _ | .timer .. | .peerDelete _ =>
    inferInstanceAs (Decidable True)

/-! ### Which slots hold frames -/

/-- The window is a ring, nothing is counted in it, and the slots of `l` hold the frames. -/
structure Occupied (rx : RxTid) (l : List ℕ) : Prop where
  numMpdus : rx.numMpdus = 0
  pow : ∃ k, rx.winSzMask + 1 = 2 ^ k
  lt : ∀ i ∈ l, i < rx.slots.length
  head : ∀ i elem, rx.slots[i]? = some elem → (elem.head ≠ none ↔ i ∈ l)

/-- From `s` to `s'` the slots of `range` have been emptied. -/
structure Emptied (s s' : RxTid) (range : List ℕ) : Prop where
  winSzMask : s'.winSzMask = s.winSzMask
  numMpdus : s'.numMpdus = s.numMpdus
  length_eq : s'.slots.length = s.slots.length
  slots : ∀ i elem, s'.slots[i]? = some elem →
    if i ∈ range then elem.head = none else s.slots[i]? = some elem

section Windows
variable {rx rx' rx₁ : RxTid} {l range range' : List ℕ} {seqNum : AdfNbuf → ℕ} {fuel : ℕ}

theorem Occupied.windowEmpty_iff (h : Occupied rx l) : WindowEmpty rx ↔ l = [] := by
  constructor
  · intro he
    refine eq_nil_iff_forall_not_mem.2 fun i hi => ?_
    have hget := getElem?_eq_getElem (h.lt i hi)
    exact (h.head i _ hget).2 hi (he _ (mem_of_getElem? hget))
  · rintro rfl elem he
    obtain ⟨i, hi⟩ := mem_iff_getElem?.1 he
    by_contra hne
    exact not_mem_nil ((h.head i elem hi).1 hne)

theorem Occupied.replicate (hn : rx.numMpdus = 0) (hp : ∃ k, rx.winSzMask + 1 = 2 ^ k) {n : ℕ}
    (hs : rx.slots = replicate n emptyElem) : Occupied rx [] where
  numMpdus := hn
  pow := hp
  lt i hi := by cases hi
  head i elem he := by
    rw [hs] at he
    obtain rfl := eq_of_mem_replicate (mem_of_getElem? he)
    exact iff_of_false (fun h => h rfl) not_mem_nil

theorem occupied_init (hn : rx.numMpdus = 0) : Occupied (olRxReorderInit rx) [] := by
  refine .replicate hn ⟨0, rfl⟩ (n := 1) ?_
  change update rx.elems .base [emptyElem] .base = _
  rw [update_self]
  rfl

theorem Occupied.addba {winSz : ℕ} {failed : Bool} (h : Occupied rx [])
    (hs : olRxAddbaHandler rx winSz failed = some rx') : Occupied rx' [] := by
  rw [olRxAddbaHandler] at hs
  by_cases hf : failed = true
  · rw [if_pos hf] at hs
    cases hs
    exact h
  · rw [if_neg hf] at hs
    obtain ⟨n, hn, hs⟩ := Option.bind_eq_some_iff.1 hs
    have hle : winSz ≤ 64 := le_of_lt_succ (List.getElem?_eq_some_iff.1 hn).1
    obtain ⟨k, hk, -⟩ := gLog2ceil_spec hle
    obtain rfl := Option.some.inj (hk.symm.trans hn)
    cases hs
    refine .replicate rfl ⟨k, Nat.sub_add_cancel Nat.one_le_two_pow⟩ (n := 2 ^ k) ?_
    change update rx.elems _ _ _ = _
    rw [update_self]

theorem Occupied.nextRelIdx (h : Occupied rx l) (n : ℕ) : Occupied { rx with nextRelIdx := n } l :=
  ⟨h.numMpdus, h.pow, h.lt, h.head⟩

theorem Occupied.store {idx : ℕ} {head tail : AdfNbuf} (h : Occupied rx l)
    (hs : olRxReorderStore rx idx head tail = some rx') :
    Occupied rx' ((idx &&& rx.winSzMask) :: l) ∧ rx'.winSzMask = rx.winSzMask ∧
      rx'.lastSeq = rx.lastSeq := by
  obtain ⟨elem, he, hs⟩ := Option.bind_eq_some_iff.1 hs
  have hlt : idx &&& rx.winSzMask < rx.slots.length := (List.getElem?_eq_some_iff.1 he).1
  have hset : ∀ (rx₂ : RxTid) elem', rx₂.numMpdus = rx.numMpdus → rx₂.winSzMask = rx.winSzMask →
      rx₂.slots = (rx.setSlot (idx &&& rx.winSzMask) elem').slots → elem'.head ≠ none →
      Occupied rx₂ ((idx &&& rx.winSzMask) :: l) := by
    intro rx₂ elem' hn hm hslots hne
    rw [slots_setSlot] at hslots
    refine ⟨hn.trans h.numMpdus, hm ▸ h.pow, fun i hi => ?_, fun i e hi => ?_⟩
    · rw [hslots, length_set]
      rcases mem_cons.1 hi with rfl | hi
      · exact hlt
      · exact h.lt i hi
    · rw [hslots, getElem?_set] at hi
      rw [mem_cons]
      by_cases hie : idx &&& rx.winSzMask = i
      · rw [if_pos hie, if_pos (hie ▸ hlt)] at hi
        obtain rfl := Option.some.inj hi
        exact iff_of_true hne (.inl hie.symm)
      · rw [if_neg hie] at hi
        rw [h.head i e hi]
        exact (or_iff_right (Ne.symm hie)).symm
  cases hh : elem.head with
  | none =>
    rw [hh] at hs
    cases hs
    exact ⟨hset _ _ rfl rfl rfl (Option.some_ne_none _), rfl, rfl⟩
  | some x =>
    rw [hh] at hs
    obtain ⟨t, -, hs⟩ := Option.bind_eq_some_iff.1 hs
    cases hs
    exact ⟨hset _ ⟨some x, some tail⟩ rfl rfl rfl (Option.some_ne_none x), rfl, rfl⟩

theorem Emptied.setSlot (rx : RxTid) (i : ℕ) : Emptied rx (rx.setSlot i emptyElem) [i] where
  winSzMask := rfl
  numMpdus := rfl
  length_eq := by rw [slots_setSlot, length_set]
  slots j elem hj := by
    rw [slots_setSlot, getElem?_set] at hj
    by_cases hij : i = j
    · rw [if_pos hij] at hj
      split_ifs at hj with hlt
      rw [if_pos (mem_singleton.2 hij.symm), ← Option.some.inj hj]
      rfl
    · rw [if_neg hij] at hj
      rw [if_neg fun hm => hij (mem_singleton.1 hm).symm]
      exact hj

theorem Emptied.trans (h : Emptied rx rx₁ range) (h' : Emptied rx₁ rx' range') :
    Emptied rx rx' (range ++ range') where
  winSzMask := h'.winSzMask.trans h.winSzMask
  numMpdus := h'.numMpdus.trans h.numMpdus
  length_eq := h'.length_eq.trans h.length_eq
  slots i elem hi := by
    have h₂ := h'.slots i elem hi
    by_cases hr' : i ∈ range'
    · rw [if_pos hr'] at h₂
      rw [if_pos (mem_append_right range hr')]
      exact h₂
    · rw [if_neg hr'] at h₂
      have h₁ := h.slots i elem h₂
      by_cases hr : i ∈ range
      · rw [if_pos hr] at h₁
        rw [if_pos (mem_append_left range' hr)]
        exact h₁
      · rw [if_neg hr] at h₁
        rw [if_neg fun hm => (mem_append.1 hm).elim hr hr']
        exact h₁

theorem emptied_foldlM {headMsdu : Option AdfNbuf} {st st' : RxTid × Option AdfNbuf}
    (hs : range.foldlM (reorderReleaseSlot headMsdu) st = some st') :
    Emptied st.1 st'.1 range := by
  induction range generalizing st with
  | nil =>
    cases hs
    exact ⟨rfl, rfl, rfl, fun i elem hi => by rw [if_neg not_mem_nil]; exact hi⟩
  | cons i range ih =>
    rw [foldlM_cons] at hs
    obtain ⟨st₁, h₁, hs⟩ := Option.bind_eq_some_iff.1 hs
    have hturn : Emptied st.1 st₁.1 [i] := by
      obtain ⟨elem, -, h₁⟩ := Option.bind_eq_some_iff.1 h₁
      dsimp only at h₁
      split_ifs at h₁ with hh
      · cases h₁
        exact ⟨rfl, rfl, (Emptied.setSlot st.1 i).length_eq, (Emptied.setSlot st.1 i).slots⟩
      · cases h₁
        exact .setSlot st.1 i
    exact hturn.trans (ih hs)

theorem emptied_release {idxStart idxEnd : ℕ} (hp : ∃ k, rx.winSzMask + 1 = 2 ^ k)
    (hs : olRxReorderRelease seqNum fuel rx idxStart idxEnd = some rx') :
    Emptied rx rx' (ringRange (rx.winSzMask + 1) idxStart idxEnd) := by
  obtain ⟨k, hk⟩ := hp
  obtain ⟨d, hd, hrange, hstop⟩ :=
    ringRange_eq_cons (rx.winSzMask + 1) idxStart idxEnd (succ_pos _)
  obtain ⟨elem, -, hs⟩ := Option.bind_eq_some_iff.1 hs
  obtain ⟨⟨rx₁, tail⟩, hloop, hs⟩ := Option.bind_eq_some_iff.1 hs
  -- the first slot is emptied before the loop, the others by its turns
  rw [and_mask hk, and_mask hk, and_mask hk, hstop, maskLoop_eq hk (mod_lt _ (succ_pos _))
    hd (le_of_lt hd)] at hloop
  have h₁ : Emptied rx rx₁ (ringRange (rx.winSzMask + 1) idxStart idxEnd) := by
    rw [hrange]
    have hloop := emptied_foldlM hloop
    have hrest : Emptied (rx.setSlot (idxStart % (rx.winSzMask + 1)) emptyElem) rx₁ _ :=
      ⟨hloop.winSzMask, hloop.numMpdus, hloop.length_eq, hloop.slots⟩
    exact (Emptied.setSlot rx (idxStart % (rx.winSzMask + 1))).trans hrest
  cases hh : elem.head with
  | none =>
    rw [hh] at hs
    cases hs
    exact h₁
  | some head =>
    rw [hh] at hs
    obtain ⟨⟨rx₂, msdus⟩, hf, hs⟩ := Option.bind_eq_some_iff.1 hs
    obtain ⟨t, -, hf⟩ := Option.bind_eq_some_iff.1 hf
    obtain ⟨ms, -, hf⟩ := Option.bind_eq_some_iff.1 hf
    cases hf
    cases hs
    exact ⟨h₁.winSzMask, h₁.numMpdus, h₁.length_eq, h₁.slots⟩

theorem Occupied.release {idxStart idxEnd : ℕ} (h : Occupied rx l)
    (hs : olRxReorderRelease seqNum fuel rx idxStart idxEnd = some rx') :
    Occupied rx' (l.filter (· ∉ ringRange (rx.winSzMask + 1) idxStart idxEnd)) := by
  have he := emptied_release h.pow hs
  refine ⟨he.numMpdus.trans h.numMpdus, he.winSzMask ▸ h.pow, fun i hi => ?_, fun i elem hi => ?_⟩
  · rw [he.length_eq]
    exact h.lt i (mem_of_mem_filter hi)
  · rw [mem_filter, decide_eq_true_iff]
    have hslot := he.slots i elem hi
    by_cases hr : i ∈ ringRange (rx.winSzMask + 1) idxStart idxEnd
    · rw [if_pos hr] at hslot
      exact iff_of_false (fun hne => hne hslot) fun hm => hm.2 hr
    · rw [if_neg hr] at hslot
      rw [h.head i elem hslot]
      exact (and_iff_left hr).symm

theorem flush_of_windowEmpty {idxStart idxEnd : ℕ} {action : HttRxFlushAction}
    (he : WindowEmpty rx) (hs : olRxReorderFlush seqNum fuel rx idxStart idxEnd action = some rx') :
    ∃ n, rx' = { rx with nextRelIdx := n } := by
  have hturn : ∀ n i st', reorderFlushSlot ({ rx with nextRelIdx := n }, none, none) i = some st' →
      st' = ({ rx with nextRelIdx := n }, none, none) := by
    intro n i st' hst
    obtain ⟨elem, hi, hst⟩ := Option.bind_eq_some_iff.1 hst
    have hnone : elem.head = none := he elem (mem_of_getElem? hi)
    dsimp only at hst
    rw [hnone] at hst
    exact (Option.some.inj hst).symm
  rw [olRxReorderFlush] at hs
  by_cases hall : idxEnd = 0xffff
  · rw [if_pos hall] at hs
    obtain ⟨st, h₁, hs⟩ := Option.bind_eq_some_iff.1 hs
    obtain ⟨st₂, h₂, hs⟩ := Option.bind_eq_some_iff.1 hs
    rw [hturn 0 _ st h₁] at h₂
    rw [maskLoop_stay (fun i st' => hturn 0 i st') h₂] at hs
    exact ⟨0, (Option.some.inj hs).symm⟩
  · rw [if_neg hall] at hs
    obtain ⟨st, h₁, hs⟩ := Option.bind_eq_some_iff.1 hs
    obtain ⟨st₂, h₂, hs⟩ := Option.bind_eq_some_iff.1 hs
    rw [hturn _ _ st h₁] at h₂
    rw [maskLoop_stay (fun i st' => hturn _ i st') h₂] at hs
    exact ⟨_, (Option.some.inj hs).symm⟩

end Windows

/-! ### No time-out ever runs -/

/-- Nothing is on a list: no peer-TID waits for fragments, none has a time-out, and no timer runs. -/
structure Unarmed (s : TimeoutPdev) : Prop where
  first : s.waitlist.first = none
  prev : ∀ e, s.waitlist.prev e = none
  active : ∀ e, s.live e.1 = true → s.active e = false
  list : ∀ ac, (s.accessCats ac).virtualTimerList = []
  timer : ∀ ac, (s.accessCats ac).timer = none

/-- In addition the slots `l e` are the ones of `e` that hold frames. -/
structure Holding (s : TimeoutPdev) (l : DefragElem → List ℕ) : Prop extends Unarmed s where
  occupied : ∀ e, s.live e.1 = true → Occupied (s.tids e).rx (l e)

section States
variable {cfg : TimeoutCfg} {s s' : TimeoutPdev} {e : DefragElem} {l : DefragElem → List ℕ}
  {rx : RxTid}

theorem Holding.holesTimed_iff (h : Holding s l) :
    HolesTimed s ↔ ∀ e, s.live e.1 = true → l e = [] := by
  refine forall₂_congr fun e he => ?_
  rw [(h.occupied e he).windowEmpty_iff]
  constructor
  · intro hr
    by_contra hne
    exact absurd (hr hne).1 (by rw [h.active e he]; exact Bool.false_ne_true)
  · exact fun hl hne => absurd hl hne

theorem Holding.congr {l' : DefragElem → List ℕ} (h : Holding s l)
    (hl : ∀ e, s.live e.1 = true → l' e = l e) : Holding s l' :=
  ⟨h.toUnarmed, fun e he => hl e he ▸ h.occupied e he⟩

theorem timeoutRemove_of_inactive (h : s.active e = false) : olRxReorderTimeoutRemove s e = s := by
  rw [olRxReorderTimeoutRemove, h]
  rfl

theorem timeoutUpdate_of_uncounted (h : (s.tids e).rx.numMpdus = 0) (nowMs : UInt32) :
    olRxReorderTimeoutUpdate s e nowMs = s := by
  rw [olRxReorderTimeoutUpdate, if_pos h]

theorem Holding.setTid {l₀ : List ℕ} {t : DefragTid} (h : Holding s l) (ho : Occupied t.rx l₀) :
    Holding { s with toDefragPdev := s.toDefragPdev.setTid e t } (update l e l₀) where
  first := h.first
  prev := h.prev
  active := h.active
  list := h.list
  timer := h.timer
  occupied x hx := by
    change Occupied (update s.tids e _ x).rx _
    by_cases hxe : x = e
    · subst hxe
      rw [update_self, update_self]
      exact ho
    · rw [update_of_ne hxe, update_of_ne hxe]
      exact h.occupied x hx

theorem Holding.setRx {l₀ : List ℕ} (h : Holding s l) (ho : Occupied rx l₀) :
    Holding (s.setRx e rx) (update l e l₀) :=
  h.setTid ho

theorem Holding.setMcast (h : Holding s l) (m : Nat → Nat → Nat) :
    Holding { s with mcastLastSeq := m } l :=
  ⟨⟨h.first, h.prev, h.active, h.list, h.timer⟩, h.occupied⟩

theorem Holding.clear (h : Holding s l) (e : DefragElem) :
    Holding { s with toDefragPdev := { s.toDefragPdev with waitlist := s.waitlist.clear e } } l :=
  ⟨⟨h.first, fun x => (Tailq.prev_clear ..).2 (.inr (h.prev x)), h.active, h.list, h.timer⟩,
    h.occupied⟩

theorem Holding.flush {idxStart idxEnd : ℕ} {action : HttRxFlushAction} (h : Holding s l)
    (he : s.live e.1 = true) (hl : l e = [])
    (hs : timeoutFlush cfg s e idxStart idxEnd action = some s') :
    Holding s' l ∧ s'.live = s.live ∧ s'.mcastLastSeq = s.mcastLastSeq ∧
      (s'.tids e).rx.winSzMask = (s.tids e).rx.winSzMask ∧
      (s'.tids e).rx.lastSeq = (s.tids e).rx.lastSeq := by
  obtain ⟨d, hd, hs⟩ := Option.bind_eq_some_iff.1 hs
  obtain ⟨rx, hrx, hd⟩ := Option.bind_eq_some_iff.1 hd
  obtain ⟨q, hq, hd⟩ := Option.bind_eq_some_iff.1 hd
  have ho := hl ▸ h.occupied e he
  obtain ⟨n, rfl⟩ := flush_of_windowEmpty (ho.windowEmpty_iff.2 rfl) hrx
  rw [waitlistRemove_of_prev_none (h.prev e)] at hq
  cases hq
  cases hd
  have hset : update l e [] = l := by rw [← hl, update_eq_self]
  have hh := (h.clear e).setRx (e := e) (ho.nextRelIdx n)
  rw [hset] at hh
  obtain rfl := (Option.some.inj hs).symm.trans (timeoutRemove_of_inactive (hh.active e he))
  refine ⟨hh, rfl, rfl, ?_, ?_⟩
  · change (update s.tids e _ e).rx.winSzMask = _
    rw [update_self]
  · change (update s.tids e _ e).rx.lastSeq = _
    rw [update_self]

theorem waitlistFlush_idle {nowMs : UInt32} {d : DefragPdev} (h : Unarmed s)
    (hs : olRxDefragWaitlistFlush cfg.toDefragCfg s.toDefragPdev nowMs = some d) :
    d = s.toDefragPdev := by
  rw [olRxDefragWaitlistFlush, h.first] at hs
  unfold waitlistFlushLoop at hs
  exact (Option.some.inj hs).symm

/-- The MPDUs of an rx indication: which slots they go to, and whether the release takes place. -/
theorem indMpdus_spec {tid : ℕ} {mpdus : List IndMpdu} {q q' : IndState} {l : List ℕ}
    (h : Occupied q.rx l) (hs : mpdus.foldlM (indMpdu cfg tid) q = some q') :
    ∃ l', Occupied q'.rx l' ∧ q'.rx.winSzMask = q.rx.winSzMask ∧ (∀ i, i ∈ l' ↔ i ∈ l ∨
        i ∈ (indStored cfg tid q.rx.winSzMask q.rx.lastSeq q.mcastLastSeq mpdus).1) ∧
      q'.rxIndRelease = (q.rxIndRelease &&
        (indStored cfg tid q.rx.winSzMask q.rx.lastSeq q.mcastLastSeq mpdus).2) := by
  induction mpdus generalizing q l with
  | nil =>
    cases hs
    refine ⟨l, h, rfl, fun i => ?_, (Bool.and_true _).symm⟩
    exact (or_iff_left not_mem_nil).symm
  | cons m mpdus ih =>
    rw [foldlM_cons] at hs
    obtain ⟨q₁, h₁, hs⟩ := Option.bind_eq_some_iff.1 hs
    rw [indMpdu] at h₁
    rw [indStored]
    dsimp only at h₁ ⊢
    by_cases hd : (!m.ok || m.msduChaining) = true
    · -- not deposited at all
      rw [if_pos hd] at h₁ ⊢
      cases h₁
      obtain ⟨l', hspec⟩ := ih (l := l) (by exact ⟨h.numMpdus, h.pow, h.lt, h.head⟩) hs
      exact ⟨l', hspec⟩
    · rw [if_neg hd] at h₁ ⊢
      generalize olRxSeqNumCheck cfg tid q.rx.winSzMask q.rx.lastSeq q.mcastLastSeq m.headMsdu = c
        at h₁ ⊢
      obtain ⟨ok, mcast⟩ := c
      dsimp only at h₁ ⊢
      by_cases hok : (!ok) = true
      · -- out of bounds: discarded, and nothing is released any more
        rw [if_pos hok] at h₁ ⊢
        cases h₁
        obtain ⟨l', ho, hm, hl, hr⟩ := ih (l := l) (by exact ⟨h.numMpdus, h.pow, h.lt, h.head⟩) hs
        refine ⟨l', ho, hm, hl, ?_⟩
        rw [hr, Bool.false_and, Bool.and_false]
      · rw [if_neg hok] at h₁ ⊢
        obtain ⟨rx, hrx, h₁⟩ := Option.bind_eq_some_iff.1 h₁
        cases h₁
        have ho : Occupied
            { q.rx with heap := linkNbufs q.rx.heap (m.headMsdu :: m.moreMsdus) } l :=
          ⟨h.numMpdus, h.pow, h.lt, h.head⟩
        obtain ⟨ho₁, hm₁, hl₁⟩ := ho.store hrx
        have hmask : rx.winSzMask = q.rx.winSzMask := hm₁
        have hrx₂ : ∀ rx₂, rx₂ = (if rx.winSzMask = 0 then
              { rx with lastSeq := cfg.seqNum m.headMsdu } else rx) →
            Occupied rx₂ ((m.reorderIdx &&& q.rx.winSzMask) :: l) ∧
              rx₂.winSzMask = q.rx.winSzMask ∧ rx₂.lastSeq =
                if q.rx.winSzMask = 0 then cfg.seqNum m.headMsdu else q.rx.lastSeq := by
          rintro rx₂ rfl
          by_cases hz : q.rx.winSzMask = 0
          · rw [if_pos (hmask.trans hz), if_pos hz]
            exact ⟨⟨ho₁.numMpdus, ho₁.pow, ho₁.lt, ho₁.head⟩, hmask, rfl⟩
          · rw [if_neg (hmask ▸ hz), if_neg hz]
            exact ⟨ho₁, hmask, hl₁⟩
        obtain ⟨ho₂, hm₂, hl₂⟩ := hrx₂ _ rfl
        obtain ⟨l', ho, hm, hl, hr⟩ := ih ho₂ hs
        rw [hm₂, hl₂] at hl hr
        refine ⟨l', ho, hm.trans hm₂, fun i => ?_, hr⟩
        rw [hl i, mem_cons, mem_cons, or_comm (a := i = _), or_assoc]

/-- What an rx indication leaves in the window is what it stores and does not release. -/
theorem Holding.rxInd {flush release : Option (ℕ × ℕ)} {mpdus : List IndMpdu} {nowMs : UInt32}
    (h : Holding s fun _ => []) (he : s.live e.1 = true)
    (hs : olRxIndicationHandler cfg s e flush mpdus release nowMs = some s') :
    ∃ l₀, Holding s' (update (fun _ => []) e l₀) ∧ s'.live = s.live ∧
      (l₀ = [] ↔ TimeoutStepOk cfg s (.rxInd e flush mpdus release nowMs)) := by
  obtain ⟨s₁, hf, hs⟩ := Option.bind_eq_some_iff.1 hs
  have h₁ : Holding s₁ (fun _ => []) ∧ s₁.live = s.live ∧ s₁.mcastLastSeq = s.mcastLastSeq ∧
      (s₁.tids e).rx.winSzMask = (s.tids e).rx.winSzMask ∧
      (s₁.tids e).rx.lastSeq = (s.tids e).rx.lastSeq := by
    cases flush with
    | none =>
      cases hf
      exact ⟨h, rfl, rfl, rfl, rfl⟩
    | some r => exact h.flush he rfl hf
  obtain ⟨h₁, hlive, hmc, hmask, hseq⟩ := h₁
  obtain ⟨q, hq, hs⟩ := Option.bind_eq_some_iff.1 hs
  obtain ⟨s₃, hr, hs⟩ := Option.bind_eq_some_iff.1 hs
  have he₁ : s₁.live e.1 = true := by rw [hlive]; exact he
  obtain ⟨l₁, ho, hm, hl, hrel⟩ := indMpdus_spec (h₁.occupied e he₁) hq
  dsimp only at hm hl hrel
  rw [hmask, hseq, hmc] at hl hrel
  rw [hmask] at hm
  have hl : ∀ i, i ∈ l₁ ↔ i ∈ (indStored cfg e.2.val (s.tids e).rx.winSzMask (s.tids e).rx.lastSeq
      (s.mcastLastSeq e.1) mpdus).1 := fun i => (hl i).trans (or_iff_right not_mem_nil)
  have h₂ := (h₁.setRx (e := e) ho).setMcast (update s₁.mcastLastSeq e.1 q.mcastLastSeq)
  -- what the release leaves
  have h₃ : ∃ l₀, Holding s₃ (update (fun _ => []) e l₀) ∧ s₃.live = s₁.live ∧
      (l₀ = [] ↔ TimeoutStepOk cfg s (.rxInd e flush mpdus release nowMs)) := by
    have hnil : l₁ = [] ↔ (indStored cfg e.2.val (s.tids e).rx.winSzMask (s.tids e).rx.lastSeq
        (s.mcastLastSeq e.1) mpdus).1 = [] := by
      rw [eq_nil_iff_forall_not_mem, eq_nil_iff_forall_not_mem]
      exact forall_congr' fun i => not_congr (hl i)
    change ∃ l₀, Holding s₃ (update (fun _ => []) e l₀) ∧ s₃.live = s₁.live ∧
      (l₀ = [] ↔ IndReleased release ((s.tids e).rx.winSzMask + 1) (indStored cfg e.2.val
        (s.tids e).rx.winSzMask (s.tids e).rx.lastSeq (s.mcastLastSeq e.1) mpdus))
    generalize indStored cfg e.2.val (s.tids e).rx.winSzMask (s.tids e).rx.lastSeq
      (s.mcastLastSeq e.1) mpdus = stored at hl hrel hnil ⊢
    cases release with
    | none =>
      cases hr
      refine ⟨l₁, h₂, rfl, hnil.trans (or_iff_left ?_).symm⟩
      rintro ⟨-, r, hr, -⟩
      cases hr
    | some r =>
      rw [Option.isSome_some, Bool.true_and] at hrel
      rw [indRelease, hrel] at hr
      by_cases hok : stored.2 = true
      · rw [if_pos hok] at hr
        obtain ⟨rx, hrx, hr⟩ := Option.bind_eq_some_iff.1 hr
        have hrx : olRxReorderRelease cfg.seqNum cfg.fuel q.rx r.1 r.2 = some rx := by
          rw [← hrx]
          change _ = olRxReorderRelease cfg.seqNum cfg.fuel (update s₁.tids e _ e).rx _ _
          rw [update_self]
        have h₃ := h₂.setRx (e := e) (ho.release hrx)
        rw [update_idem] at h₃
        obtain rfl := (Option.some.inj hr).symm.trans (timeoutRemove_of_inactive (h₃.active e he₁))
        refine ⟨_, h₃, rfl, ?_⟩
        rw [filter_eq_nil_iff, hm]
        constructor
        · intro hall
          refine .inr ⟨hok, r, rfl, fun i hi => ?_⟩
          by_contra hni
          exact hall i ((hl i).2 hi) (decide_eq_true hni)
        · rintro (hnone | ⟨-, r', hr', hall⟩) i hi hni
          · rw [hnil.2 hnone] at hi
            cases hi
          · cases hr'
            exact (of_decide_eq_true hni) (hall i ((hl i).1 hi))
      · rw [if_neg hok] at hr
        cases hr
        refine ⟨l₁, h₂, rfl, hnil.trans (or_iff_left ?_).symm⟩
        exact fun hall => hok hall.1
  obtain ⟨l₀, h₃, hlive₃, hiff⟩ := h₃
  have hcount : (s₃.tids e).rx.numMpdus = 0 :=
    (h₃.occupied e (by rw [hlive₃]; exact he₁)).numMpdus
  rw [timeoutUpdate_of_uncounted hcount] at hs
  refine ⟨l₀, ?_, ?_, hiff⟩
  all_goals
    split_ifs at hs with hc
    · obtain ⟨d, hd, hs⟩ := Option.bind_eq_some_iff.1 hs
      obtain rfl := waitlistFlush_idle h₃.toUnarmed hd
      cases hs
      first | exact h₃ | exact hlive₃.trans hlive
    · cases hs
      first | exact h₃ | exact hlive₃.trans hlive

theorem Holding.flushHandler {idxStart idxEnd : ℕ} {action : HttRxFlushAction} {nowMs : UInt32}
    (h : Holding s fun _ => []) (he : s.live e.1 = true)
    (hs : olRxFlushHandler cfg s e idxStart idxEnd action nowMs = some s') :
    Holding s' (fun _ => []) ∧ s'.live = s.live := by
  have hfrag : flushFindsFrag cfg (s.tids e).rx idxStart = false := by
    rw [flushFindsFrag]
    split
    · next head hh =>
      obtain ⟨elem, hi, hh⟩ := Option.bind_eq_some_iff.1 hh
      have hne : elem.head ≠ none := by
        rw [hh]
        exact Option.some_ne_none head
      exact absurd (((h.occupied e he).head _ elem hi).1 hne) not_mem_nil
    · rfl
  rw [olRxFlushHandler, hfrag] at hs
  obtain ⟨s₁, hf, hs⟩ := Option.bind_eq_some_iff.1 hs
  obtain ⟨h₁, hlive, -⟩ := h.flush he rfl hf
  have hcount := (h₁.occupied e (by rw [hlive]; exact he)).numMpdus
  obtain rfl := (Option.some.inj hs).symm.trans (timeoutUpdate_of_uncounted hcount nowMs)
  exact ⟨h₁, hlive⟩

theorem Holding.addba {winSz : ℕ} {failed : Bool} {d : DefragPdev} (h : Holding s fun _ => [])
    (he : s.live e.1 = true) (hs : addba s.toDefragPdev e winSz failed = some d) :
    Holding { s with toDefragPdev := d } (fun _ => []) ∧ d.live = s.live := by
  obtain ⟨rx, hrx, hs⟩ := Option.bind_eq_some_iff.1 hs
  cases hs
  have h₁ := h.setRx (e := e) ((h.occupied e he).addba hrx)
  rw [update_eq_self_iff.2 rfl] at h₁
  exact ⟨h₁, rfl⟩

theorem numMpdus_reorderArrayFree (rx : RxTid) : (reorderArrayFree rx).numMpdus = rx.numMpdus := by
  rw [reorderArrayFree]
  split <;> rfl

theorem Holding.delba (h : Holding s fun _ => []) (he : s.live e.1 = true) :
    Holding { s with toDefragPdev := delba s.toDefragPdev e } fun _ => [] := by
  have hn : (reorderArrayFree
      { (s.tids e).rx with nextRelIdx := invalidReorderIndex }).numMpdus = 0 := by
    rw [numMpdus_reorderArrayFree]
    exact (h.occupied e he).numMpdus
  have h₁ := (h.setTid (e := e) (t := ⟨_, 0⟩) (occupied_init hn)).clear e
  rw [update_eq_self_iff.2 rfl] at h₁
  exact h₁

theorem foldl_reorderInit_occupied (peer : ℕ) {g : DefragPdev → Fin olTxrxNumExtTids → RxTid}
    (hg : ∀ d tid, (g d tid).numMpdus = (d.tids (peer, tid)).rx.numMpdus) {d : DefragPdev}
    (hn : ∀ tid, (d.tids (peer, tid)).rx.numMpdus = 0) (l : List (Fin olTxrxNumExtTids)) :
    ∀ tid, (tid ∈ l ∨ Occupied (d.tids (peer, tid)).rx []) →
      Occupied ((l.foldl (fun d tid => reorderInit d (peer, tid) (g d tid)) d).tids
        (peer, tid)).rx [] := by
  induction l generalizing d with
  | nil => exact fun tid h => h.resolve_left not_mem_nil
  | cons t l ih =>
    have htid : ∀ tid, (reorderInit d (peer, t) (g d t)).tids (peer, tid) =
        if tid = t then ⟨olRxReorderInit (g d t), 0⟩ else d.tids (peer, tid) := by
      intro tid
      change update d.tids (peer, t) _ (peer, tid) = _
      by_cases ht : tid = t
      · rw [ht, update_self, if_pos rfl]
      · rw [if_neg ht, update_of_ne fun h => ht (Prod.mk.inj h).2]
    have hinit : Occupied (olRxReorderInit (g d t)) [] := occupied_init ((hg d t).trans (hn t))
    intro tid h
    rw [foldl_cons]
    refine ih (fun tid => ?_) tid ?_
    · rw [htid tid]
      split_ifs
      · exact hinit.numMpdus
      · exact hn tid
    · rw [htid tid]
      by_cases ht : tid = t
      · rw [if_pos ht]
        exact .inr hinit
      · rw [if_neg ht]
        exact h.imp_left fun hm => (mem_cons.1 hm).resolve_left ht

/-- What a loop over the TIDs of `peer` may change outside the peer: nothing. -/
def SameElsewhere (peer : ℕ) (d d' : DefragPdev) : Prop :=
  d'.live = d.live ∧ (d.waitlist.first = none → d'.waitlist.first = none) ∧
    ((∀ e, d.waitlist.prev e = none) → ∀ e, d'.waitlist.prev e = none) ∧
    ∀ e, e.1 ≠ peer → d'.tids e = d.tids e

theorem sameElsewhere_foldl (peer : ℕ) {f : DefragPdev → Fin olTxrxNumExtTids → DefragPdev}
    (hf : ∀ d tid, f d tid = d ∨ ∃ rx, f d tid = reorderInit d (peer, tid) rx) (d : DefragPdev)
    (l : List (Fin olTxrxNumExtTids)) : SameElsewhere peer d (l.foldl f d) := by
  refine foldl_keeps (P := SameElsewhere peer d) (fun d₁ tid _ h => ?_)
    ⟨rfl, id, id, fun _ _ => rfl⟩
  obtain ⟨hl, hfirst, hprev, ht⟩ := h
  rcases hf d₁ tid with he | ⟨rx, he⟩
  · rw [he]
    exact ⟨hl, hfirst, hprev, ht⟩
  · rw [he]
    refine ⟨hl, hfirst, fun h e => (Tailq.prev_clear ..).2 (.inr (hprev h e)), fun e hne => ?_⟩
    change update d₁.tids (peer, tid) _ e = _
    rw [update_of_ne fun he => hne (congrArg Prod.fst he)]
    exact ht e hne

theorem Holding.attach {peer : ℕ} (h : Holding s fun _ => []) :
    Holding (timeoutPeerInit s peer) fun _ => [] := by
  let zeroed : DefragPdev := { s.toDefragPdev with tids := fun e => if e.1 = peer then
    { s.tids e with rx := { (s.tids e).rx with numMpdus := 0 } } else s.tids e }
  have hzero : ∀ tid, (zeroed.tids (peer, tid)).rx.numMpdus = 0 := by
    intro tid
    change (ite (peer = peer) _ _ : DefragTid).rx.numMpdus = 0
    rw [if_pos rfl]
  have hocc := foldl_reorderInit_occupied peer (g := fun d tid =>
    { (d.tids (peer, tid)).rx with lastSeq := ieee80211SeqMax, nextRelIdx := invalidReorderIndex })
    (fun _ _ => rfl) hzero (finRange olTxrxNumExtTids)
  obtain ⟨hlive, hfirst, hprev, htids⟩ := sameElsewhere_foldl peer (f := fun d tid =>
    reorderInit d (peer, tid) { (d.tids (peer, tid)).rx with
      lastSeq := ieee80211SeqMax, nextRelIdx := invalidReorderIndex })
    (fun d tid => .inr ⟨_, rfl⟩) zeroed (finRange olTxrxNumExtTids)
  have hother : ∀ e : DefragElem, e.1 ≠ peer →
      (timeoutPeerInit s peer).live e.1 = true → s.live e.1 = true := by
    intro e hne he
    change update (foldl _ zeroed _).live peer true e.1 = true at he
    rw [update_of_ne hne, hlive] at he
    exact he
  refine ⟨⟨hfirst h.first, hprev h.prev, fun e he => ?_, h.list, h.timer⟩, fun e he => ?_⟩
  · change (if e.1 = peer then false else s.active e) = false
    split_ifs with hep
    · rfl
    · exact h.active e (hother e hep he)
  · by_cases hep : e.1 = peer
    · obtain ⟨p, tid⟩ := e
      obtain rfl : p = peer := hep
      exact hocc tid (.inl (mem_finRange tid))
    · have ht : (timeoutPeerInit s peer).tids e = zeroed.tids e := htids e hep
      rw [ht]
      change Occupied (ite (e.1 = peer) _ _ : DefragTid).rx []
      rw [if_neg hep]
      exact h.occupied e (hother e hep he)

theorem timeoutPeerCleanup_of_inactive {peer : ℕ} (h : ∀ tid, s.active (peer, tid) = false) :
    olRxReorderTimeoutPeerCleanup s peer = s := by
  refine foldl_keeps (P := fun t => t = s) ?_ rfl
  rintro t tid - rfl
  rw [h tid]
  rfl

theorem Holding.peerFlushes {peer : ℕ} {tids : List (Fin olTxrxNumExtTids)}
    (h : Holding s fun _ => []) (hp : s.live peer = true)
    (hs : tids.foldlM (fun s tid => timeoutFlush cfg s (peer, tid) 0 0 .discard) s = some s') :
    Holding s' (fun _ => []) ∧ s'.live = s.live := by
  induction tids generalizing s with
  | nil =>
    cases hs
    exact ⟨h, rfl⟩
  | cons tid tids ih =>
    rw [foldlM_cons] at hs
    obtain ⟨s₁, hf, hs⟩ := Option.bind_eq_some_iff.1 hs
    obtain ⟨h₁, hlive, -⟩ := h.flush hp rfl hf
    obtain ⟨h', hlive'⟩ := ih h₁ (by rw [hlive]; exact hp) hs
    exact ⟨h', hlive'.trans hlive⟩

theorem Holding.peerDelete {peer : ℕ} (h : Holding s fun _ => []) (hp : s.live peer = true)
    (hs : timeoutPeerDelete cfg s peer = some s') : Holding s' fun _ => [] := by
  obtain ⟨s₁, hf, hs⟩ := Option.bind_eq_some_iff.1 hs
  obtain ⟨h₁, hlive⟩ := h.peerFlushes hp hf
  have hp₁ : s₁.live peer = true := by rw [hlive]; exact hp
  rw [timeoutPeerCleanup_of_inactive fun tid => h₁.active (peer, tid) hp₁] at hs
  have hfree : SameElsewhere peer s₁.toDefragPdev (peerArraysFree s₁.toDefragPdev peer) := by
    refine sameElsewhere_foldl peer (fun d tid => ?_) _ _
    split_ifs
    · exact .inl rfl
    · exact .inr ⟨_, rfl⟩
  obtain ⟨hl, hfirst, hprev, htids⟩ := hfree
  cases hs
  have hother : ∀ e : DefragElem,
      update (peerArraysFree s₁.toDefragPdev peer).live peer false e.1 = true →
      e.1 ≠ peer ∧ s₁.live e.1 = true := by
    intro e he
    have hne : e.1 ≠ peer := by
      rintro rfl
      rw [update_self] at he
      cases he
    rw [update_of_ne hne, hl] at he
    exact ⟨hne, he⟩
  refine ⟨⟨hfirst h₁.first, hprev h₁.prev, fun e he => h₁.active e (hother e he).2, h₁.list,
    h₁.timer⟩, fun e he => ?_⟩
  change Occupied ((peerArraysFree s₁.toDefragPdev peer).tids e).rx []
  rw [htids e (hother e he).1]
  exact h₁.occupied e (hother e he).2

end States

/-! ### The time-outs over runs -/

section Runs
variable {cfg : TimeoutCfg} {s s' : TimeoutPdev}

theorem holding_of_fresh (h : s.Fresh) : Holding s fun _ => [] where
  first := by rw [h.toDefragPdev.waitlist]; rfl
  prev e := by rw [h.toDefragPdev.waitlist]; rfl
  active e he := by
    rw [h.toDefragPdev.live] at he
    cases he
  list ac := by rw [h.accessCats]
  timer ac := by rw [h.accessCats]
  occupied e he := by
    rw [h.toDefragPdev.live] at he
    cases he

/-- One event of a pdev without frames: no time-out is started, and a frame is left behind exactly by an rx indication that does not release what it stores. -/
theorem Holding.step {ev : TimeoutEvent} (h : Holding s fun _ => [])
    (hs : timeoutStep cfg s ev = some s') :
    ∃ l, Holding s' l ∧ ((∀ e, s'.live e.1 = true → l e = []) ↔ TimeoutStepOk cfg s ev) := by
  cases ev with
  | peerAttach peer =>
    obtain ⟨-, rfl⟩ := guarded_eq_some.1 hs
    exact ⟨_, h.attach, iff_of_true (fun _ _ => rfl) trivial⟩
  | rxInd e flush mpdus release nowMs =>
    obtain ⟨he, hs⟩ := guard_bind_eq_some.1 hs
    obtain ⟨l₀, h', hlive, hiff⟩ := h.rxInd he hs
    refine ⟨_, h', Iff.trans ?_ hiff⟩
    constructor
    · intro hall
      have := hall e (by rw [hlive]; exact he)
      rwa [update_self] at this
    · rintro rfl x -
      rw [update_eq_self_iff.2 rfl]
  | flush e idxStart idxEnd action nowMs =>
    obtain ⟨he, hs⟩ := guard_bind_eq_some.1 hs
    exact ⟨_, (h.flushHandler he hs).1, iff_of_true (fun _ _ => rfl) trivial⟩
  | addba e winSz failed =>
    obtain ⟨he, hs⟩ := guard_bind_eq_some.1 hs
    obtain ⟨d, hd, hs⟩ := Option.bind_eq_some_iff.1 hs
    cases hs
    exact ⟨_, (h.addba he hd).1, iff_of_true (fun _ _ => rfl) trivial⟩
  | delba e =>
    obtain ⟨he, rfl⟩ := guarded_eq_some.1 hs
    exact ⟨_, h.delba he, iff_of_true (fun _ _ => rfl) trivial⟩
  | timer ac nowMs =>
    obtain ⟨ht, -⟩ := guard_bind_eq_some.1 hs
    rw [h.timer ac] at ht
    cases ht
  | peerDelete peer =>
    obtain ⟨hp, hs⟩ := guard_bind_eq_some.1 hs
    exact ⟨_, h.peerDelete hp hs, iff_of_true (fun _ _ => rfl) trivial⟩

theorem holding_of_reach (h : (timeoutMachine cfg).Reach (TimeoutStepOk cfg) s) :
    Holding s fun _ => [] := by
  refine h.invariant (Holding · fun _ => []) (fun s hs => holding_of_fresh hs) ?_
  intro s ev s' hi hok hs
  obtain ⟨l, h', hiff⟩ := hi.step hs
  exact h'.congr fun e he => ((hiff.2 hok) e he).symm

/-- **The reorder time-out.**  As long as every rx indication releases what it stores, no hole is forgotten and every timer event does what it is for; and from such a run on, an event breaks that exactly if it is an rx indication that leaves a frame behind. -/
theorem reorder_timeout_iff (h : (timeoutMachine cfg).Reach (TimeoutStepOk cfg) s) :
    HolesTimed s ∧ ∀ ev s', timeoutStep cfg s ev = some s' →
      (HolesTimed s' ∧ TimerLaw cfg s ev s' ↔ TimeoutStepOk cfg s ev) := by
  have hh := holding_of_reach h
  refine ⟨hh.holesTimed_iff.2 fun _ _ => rfl, fun ev s' hs => ?_⟩
  obtain ⟨l, h', hiff⟩ := hh.step hs
  have htimer : TimerLaw cfg s ev s' := by
    cases ev with
    | timer ac nowMs =>
      -- no timer runs
      obtain ⟨ht, -⟩ := guard_bind_eq_some.1 hs
      rw [hh.timer ac] at ht
      cases ht
    | _ => trivial
  rw [and_iff_left htimer, h'.holesTimed_iff]
  exact hiff

/-- Whole frames, each with its buffer's number as sequence number. -/
def wholeFrames : TimeoutCfg where
  toDefragCfg := { twoFragments with seqNum := id }
  isFrag _ := false
  pktTid _ := 0
  retry _ := false

/-- A pdev as `ol_txrx_pdev_attach` leaves it, over zeroed memory. -/
def TimeoutPdev.attached : TimeoutPdev where
  toDefragPdev := .attached
  active _ := false
  timestampMs _ := 0
  accessCats ac := ⟨[], none, if ac = .vo then 40 else 100⟩
  mcastLastSeq _ _ := 0

theorem reorder_timeout_iff_released : ∃ s, s.live 0 = true ∧ HolesTimed s ∧
    ∀ ev s', timeoutStep wholeFrames s ev = some s' →
      (HolesTimed s' ∧ TimerLaw wholeFrames s ev s' ↔ TimeoutStepOk wholeFrames s ev) := by
  obtain ⟨s, -, hr, hlive⟩ : ∃ s, (timeoutMachine wholeFrames).run .attached [.peerAttach 0,
      .addba (0, 0) 8 false,
      .rxInd (0, 0) none [⟨true, false, 0, 5, []⟩, ⟨true, false, 1, 6, [7]⟩] (some (0, 2)) 3,
      .flush (0, 0) 2 5 .release 4] = some s ∧
      (timeoutMachine wholeFrames).Reach (TimeoutStepOk wholeFrames) s ∧ s.live 0 = true :=
    Machine.exists_reach (by exact ⟨⟨rfl, fun _ => rfl⟩, rfl⟩) (by decide +kernel) (by decide +kernel)
  exact ⟨s, hlive, reorder_timeout_iff hr⟩

theorem hole_without_timeout : ∃ s, (timeoutMachine wholeFrames).Reach (fun _ _ => True) s ∧
    (s.tids (0, 0)).rx.slots[1]? = some ⟨some 5, some 5⟩ ∧ s.active (0, 0) = false ∧
    ¬ HolesTimed s := by
  obtain ⟨s, hs, hslot, hactive, hlive⟩ : ∃ s, (timeoutMachine wholeFrames).run .attached
      [.peerAttach 0, .addba (0, 0) 8 false, .rxInd (0, 0) none [⟨true, false, 1, 5, []⟩] none 3] =
        some s ∧ (s.tids (0, 0)).rx.slots[1]? = some ⟨some 5, some 5⟩ ∧
      s.active (0, 0) = false ∧ s.live 0 = true :=
    Machine.exists_run (by decide +kernel)
  refine ⟨s, Machine.reach_of_run ⟨⟨rfl, fun _ => rfl⟩, rfl⟩ hs, hslot, hactive, fun h => ?_⟩
  have hrun := h (0, 0) hlive fun he => by cases he _ (mem_of_getElem? hslot)
  rw [hrun.1] at hactive
  cases hactive

end Runs

end Qcacld.Txrx

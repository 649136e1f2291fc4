import Qcacld.Support.Tailq
import Qcacld.Txrx.RxBlockAck
import Qcacld.Txrx.RxFraglist
import Qcacld.Txrx.RxPn

/-!
# Txrx — RxDefrag

The defragmentation wait-list: `ol_rx_reorder_store_frag` puts a TID whose MSDU is incomplete on `rx.defrag.waitlist`, and completion, a flush, the time-out and the end of the peer take it off.  Whether a TID is on the list is read off its back pointer.

`ol_rx_reorder_init`, called for a DELBA, sets both links to NULL without a look at them.  `waitlist_ok_iff` says that this is the only thing that spoils the list: it stays as it should in a run exactly as long as no DELBA comes for a TID that is waiting.
-/

namespace Qcacld.Txrx
open Qcacld.Adf Qcacld.Support Function List Option

/-- A peer-TID, as the wait-list knows it: `tids_rx_reorder[tid]` of a peer. -/
abbrev DefragElem := Nat × Fin olTxrxNumExtTids

structure DefragTid where
  rx : RxTid
  defragTimeoutMs : UInt32

structure DefragPdev where
  /-- the peers that exist -/
  live : Nat → Bool
  tids : DefragElem → DefragTid
  /-- `rx.defrag.waitlist`, with the `defrag_waitlist_elem` of all TIDs -/
  waitlist : Tailq DefragElem
  /-- the lists given to `ol_rx_defrag` -/
  defragged : List (List AdfNbuf)

/-- What does not change: the frames' headers and sequence numbers, the configuration, and how many steps a list may be followed. -/
structure DefragCfg where
  macHdr : AdfNbuf → Ieee80211Frame
  /-- `i_addr1` and `i_addr2` -/
  addrs : AdfNbuf → BitVec 48 × BitVec 48
  seqNum : AdfNbuf → Nat
  /-- `rx.flags.defrag_timeout_check` -/
  defragTimeoutCheck : Bool
  /-- `rx.defrag.timeout_ms` -/
  timeoutMs : UInt32
  fuel : Nat

def DefragPdev.setTid (s : DefragPdev) (e : DefragElem) (t : DefragTid) : DefragPdev :=
  { s with tids := update s.tids e t }

/-! ### The wait-list -/

def olRxDefragWaitlistAdd (q : Tailq DefragElem) (e : DefragElem) : Tailq DefragElem :=
  q.insertTail e

def olRxDefragWaitlistRemove (q : Tailq DefragElem) (e : DefragElem) : Option (Tailq DefragElem) :=
  if q.prev e ≠ none then do
    let q ← q.remove e
    return q.clear e
  else if q.next e ≠ none then some { q with next := update q.next e none }
  else some q

section Handlers
variable (cfg : DefragCfg)

def olRxFramesFree (rx : RxTid) (head : AdfNbuf) : Option RxTid := do
  let msdus ← walk rx.heap cfg.fuel (some head)
  return { rx with freed := rx.freed ++ msdus }

def olRxReorderFlushFrag (s : DefragPdev) (e : DefragElem) (seqNum : Nat) : Option DefragPdev := do
  let rx := (s.tids e).rx
  let seq := seqNum &&& rx.winSzMask
  let elem ← rx.slots[seq]?
  match elem.head with
  | none => return s
  | some head =>
    let rx ← olRxFramesFree cfg rx head
    return s.setTid e { s.tids e with rx := rx.setSlot seq emptyElem }

/-- `ol_rx_defrag`, given the list from `head`. -/
def olRxDefrag (s : DefragPdev) (rx : RxTid) (head : Option AdfNbuf) : Option DefragPdev := do
  let msdus ← walk rx.heap cfg.fuel head
  return { s with defragged := s.defragged ++ [msdus] }

/-- The fragments stored so far are of another MSDU than `frag`. -/
def fragMismatch (frag head : AdfNbuf) : Bool :=
  (cfg.macHdr frag).iSeq >>> 4 != (cfg.macHdr head).iSeq >>> 4 || cfg.addrs frag != cfg.addrs head

/-- In `ol_rx_reorder_store_frag`: fragments of another MSDU are freed. -/
def storeFragClear (rx : RxTid) (elem : OlRxReorderArrayElem) (frag : AdfNbuf) :
    Option (RxTid × OlRxReorderArrayElem) :=
  match elem.head with
  | none => some (rx, elem)
  | some head =>
    if fragMismatch cfg frag head then (olRxFramesFree cfg rx head).map fun rx => (rx, emptyElem)
    else some (rx, elem)

/-- In `ol_rx_reorder_store_frag`: the fragment is inserted. -/
def storeFragInsert (rx : RxTid) (elem : OlRxReorderArrayElem) (frag : AdfNbuf) :
    Option (RxTid × Fraglist) := do
  let (rx, elem) ← storeFragClear cfg rx elem frag
  let fl ← olRxFraglistInsert cfg.macHdr cfg.fuel ⟨rx.heap, elem.head, elem.tail, false, rx.freed⟩
    frag
  return ({ rx with heap := fl.heap, freed := fl.freed }, fl)

/-- `ol_rx_reorder_store_frag`, at the time `nowMs`. -/
def olRxReorderStoreFrag (s : DefragPdev) (e : DefragElem) (seqNum : Nat) (frag : AdfNbuf)
    (nowMs : UInt32) : Option DefragPdev := do
  let rx := (s.tids e).rx
  let seq := seqNum &&& rx.winSzMask
  let elem ← rx.slots[seq]?
  if !(cfg.macHdr frag).moreFrag && (cfg.macHdr frag).fragno = 0 && elem.head.isNone then
    let fl ← olRxFraglistInsert cfg.macHdr cfg.fuel ⟨rx.heap, none, elem.tail, false, rx.freed⟩ frag
    let rx := { rx with heap := adfNbufSetNext fl.heap frag none }
    let s ← olRxDefrag cfg s rx fl.head
    return s.setTid e { s.tids e with rx := rx.setSlot seq emptyElem }
  else
    let (rx, fl) ← storeFragInsert cfg rx elem frag
    let waitlist ← if cfg.defragTimeoutCheck then olRxDefragWaitlistRemove s.waitlist e
      else some s.waitlist
    let s := { s with waitlist := waitlist }
    if fl.allFragPresent then
      let s ← olRxDefrag cfg s rx fl.head
      let rx := { rx.setSlot seq emptyElem with lastSeq := seqNum }
      return s.setTid e { rx := rx, defragTimeoutMs := 0 }
    else if cfg.defragTimeoutCheck then
      let rx := rx.setSlot seq ⟨fl.head, fl.tail⟩
      let s := s.setTid e { rx := rx, defragTimeoutMs := nowMs + cfg.timeoutMs }
      return { s with waitlist := olRxDefragWaitlistAdd s.waitlist e }
    else return s.setTid e { s.tids e with rx := rx.setSlot seq ⟨fl.head, fl.tail⟩ }

/-- The loop of `ol_rx_defrag_waitlist_flush`; the next element is read before the current one is removed. -/
def waitlistFlushLoop (nowMs : UInt32) : Nat → DefragPdev → Option DefragElem → Option DefragPdev
  | _, s, none => some s
  | 0, _, some _ => none
  | fuel + 1, s, some e =>
    let tmp := s.waitlist.next e
    if (s.tids e).defragTimeoutMs > nowMs then some s
    else do
      let waitlist ← olRxDefragWaitlistRemove s.waitlist e
      let s ← olRxReorderFlushFrag cfg { s with waitlist := waitlist } e 0
      waitlistFlushLoop nowMs fuel s tmp

def olRxDefragWaitlistFlush (s : DefragPdev) (nowMs : UInt32) : Option DefragPdev :=
  waitlistFlushLoop cfg nowMs cfg.fuel s s.waitlist.first

/-- `ol_rx_reorder_flush`, with what it does to the wait-list. -/
def reorderFlush (s : DefragPdev) (e : DefragElem) (idxStart idxEnd : Nat)
    (action : HttRxFlushAction) : Option DefragPdev := do
  let rx ← olRxReorderFlush cfg.seqNum cfg.fuel (s.tids e).rx idxStart idxEnd action
  let waitlist ← olRxDefragWaitlistRemove s.waitlist e
  return { s.setTid e { s.tids e with rx := rx } with waitlist := waitlist }

/-- `ol_rx_reorder_init`, with what it does to the wait-list, on a TID that `rx` has been done to. -/
def reorderInit (s : DefragPdev) (e : DefragElem) (rx : RxTid) : DefragPdev :=
  { s.setTid e { rx := olRxReorderInit rx, defragTimeoutMs := 0 } with
    waitlist := s.waitlist.clear e }

/-- `ol_rx_delba_handler`, for a peer and a TID that exist. -/
def delba (s : DefragPdev) (e : DefragElem) : DefragPdev :=
  reorderInit s e (reorderArrayFree { (s.tids e).rx with nextRelIdx := invalidReorderIndex })

/-- `ol_rx_addba_handler`, for a peer and a TID that exist. -/
def addba (s : DefragPdev) (e : DefragElem) (winSz : Nat) (failed : Bool) : Option DefragPdev := do
  let rx ← olRxAddbaHandler (s.tids e).rx winSz failed
  return s.setTid e { s.tids e with rx := rx }

/-- `ol_rx_peer_init`, on memory that has just been allocated. -/
def peerInit (s : DefragPdev) (peer : Nat) : DefragPdev :=
  let s := (List.finRange olTxrxNumExtTids).foldl (fun s tid => reorderInit s (peer, tid)
    { (s.tids (peer, tid)).rx with lastSeq := ieee80211SeqMax, nextRelIdx := invalidReorderIndex }) s
  { s with live := update s.live peer true }

def olRxReorderPeerCleanup (s : DefragPdev) (peer : Nat) : Option DefragPdev :=
  (List.finRange olTxrxNumExtTids).foldlM (fun s tid => reorderFlush cfg s (peer, tid) 0 0 .discard)
    s

/-- The loop of `ol_txrx_peer_unref_delete` over the arrays that are still allocated. -/
def peerArraysFree (s : DefragPdev) (peer : Nat) : DefragPdev :=
  (List.finRange olTxrxNumExtTids).foldl (fun s tid =>
    if (s.tids (peer, tid)).rx.array = .base then s
    else reorderInit s (peer, tid) (reorderArrayFree (s.tids (peer, tid)).rx)) s

/-- The end of `ol_txrx_peer_unref_delete`: the TIDs are cleaned up, arrays that are left are freed, and the peer is given back. -/
def peerDeleteRx (s : DefragPdev) (peer : Nat) : Option DefragPdev := do
  let s ← olRxReorderPeerCleanup cfg s peer
  let s := peerArraysFree s peer
  return { s with live := update s.live peer false }

end Handlers

/-! ### Runs -/

inductive DefragEvent where
  | peerAttach (peer : Nat)
  | storeFrag (e : DefragElem) (seqNum : Nat) (frag : AdfNbuf) (nowMs : UInt32)
  | flushFrag (e : DefragElem) (seqNum : Nat)
  | flush (e : DefragElem) (idxStart idxEnd : Nat) (action : HttRxFlushAction)
  | addba (e : DefragElem) (winSz : Nat) (failed : Bool)
  | delba (e : DefragElem)
  | waitlistFlush (nowMs : UInt32)
  | peerDelete (peer : Nat)

/-- One event.  The handlers look their peer up, so it exists; an address that has been freed may be allocated again. -/
def defragStep (cfg : DefragCfg) (s : DefragPdev) : DefragEvent → Option DefragPdev
  | .peerAttach peer => do
    guard (s.live peer = false)
    return peerInit s peer
  | .storeFrag e seqNum frag nowMs => do
    guard (s.live e.1 = true)
    olRxReorderStoreFrag cfg s e seqNum frag nowMs
  | .flushFrag e seqNum => do
    guard (s.live e.1 = true)
    olRxReorderFlushFrag cfg s e seqNum
  | .flush e idxStart idxEnd action => do
    guard (s.live e.1 = true)
    reorderFlush cfg s e idxStart idxEnd action
  | .addba e winSz failed => do
    guard (s.live e.1 = true)
    Qcacld.Txrx.addba s e winSz failed
  | .delba e => do
    guard (s.live e.1 = true)
    return Qcacld.Txrx.delba s e
  | .waitlistFlush nowMs => olRxDefragWaitlistFlush cfg s nowMs
  | .peerDelete peer => do
    guard (s.live peer = true)
    peerDeleteRx cfg s peer

structure DefragPdev.Fresh (s : DefragPdev) : Prop where
  waitlist : s.waitlist = .empty
  live : ∀ peer, s.live peer = false

def defragMachine (cfg : DefragCfg) : Machine DefragPdev DefragEvent where
  init s := s.Fresh
  step := defragStep cfg

/-! ### What must hold -/

/-- The wait-list: its links lead, forward and back, through some TIDs, each once; these are the TIDs whose back pointer is not NULL; and their peers exist. -/
def WaitlistOk (s : DefragPdev) : Prop :=
  s.waitlist.Tracked fun e => s.live e.1 = true

/-- A DELBA comes for a TID that is not waiting. -/
def DefragStepOk (s : DefragPdev) : DefragEvent → Prop
  | .delba e => s.waitlist.prev e = none
  | _ => True

instance (s : DefragPdev) : (e : DefragEvent) → Decidable (DefragStepOk s e)
  | .delba e => inferInstanceAs (Decidable (s.waitlist.prev e = none))
  | .peerAttach _ | .storeFrag .. | .flushFrag .. | .flush .. | .addba .. | .waitlistFlush _
  | .peerDelete _ => inferInstanceAs (Decidable True)

/-! ### What each handler does to the wait-list -/

section Effects
variable {cfg : DefragCfg} {s s' : DefragPdev} {e : DefragElem} {P : DefragElem → Prop}

/-- Of a TID that is not waiting both links are NULL afterwards, whatever `tqe_next` was. -/
theorem waitlistRemove_of_prev_none {q : Tailq DefragElem} (he : q.prev e = none) :
    olRxDefragWaitlistRemove q e = some (q.clear e) := by
  have hprev : update q.prev e none = q.prev := by rw [← he, update_eq_self]
  rw [olRxDefragWaitlistRemove, if_neg (not_not.2 he), Tailq.clear, hprev]
  split_ifs with hn
  · rfl
  · rw [← not_not.1 hn, update_eq_self]

/-- `ol_rx_defrag_waitlist_remove` never fails, and leaves the TID off the list. -/
theorem waitlistRemove_spec {q : Tailq DefragElem} (h : q.Tracked P) (e : DefragElem) :
    ∃ q', olRxDefragWaitlistRemove q e = some q' ∧ q'.Tracked P ∧
      ∀ x, q'.prev x = none ↔ x = e ∨ q.prev x = none := by
  by_cases he : q.prev e = none
  · exact ⟨q.clear e, waitlistRemove_of_prev_none he, h.clear_iff.2 he, q.prev_clear e⟩
  · obtain ⟨q', hq, ht, hp⟩ := h.remove he
    refine ⟨q'.clear e, ?_, ht, hp⟩
    rw [olRxDefragWaitlistRemove, if_pos he, hq]
    rfl

theorem olRxDefrag_frame {rx : RxTid} {head : Option AdfNbuf}
    (hs : olRxDefrag cfg s rx head = some s') :
    s'.live = s.live ∧ s'.waitlist = s.waitlist := by
  obtain ⟨msdus, -, hs⟩ := bind_eq_some_iff.1 hs
  cases hs
  exact ⟨rfl, rfl⟩

theorem olRxReorderFlushFrag_frame {seqNum : Nat}
    (hs : olRxReorderFlushFrag cfg s e seqNum = some s') :
    s'.live = s.live ∧ s'.waitlist = s.waitlist := by
  obtain ⟨elem, -, hs⟩ := bind_eq_some_iff.1 hs
  cases hh : elem.head with
  | none =>
    rw [hh] at hs
    cases hs
    exact ⟨rfl, rfl⟩
  | some head =>
    rw [hh] at hs
    obtain ⟨rx, -, hs⟩ := bind_eq_some_iff.1 hs
    cases hs
    exact ⟨rfl, rfl⟩

/-- A fragment leaves the list alone, or takes its TID off, and perhaps puts it at the end. -/
theorem olRxReorderStoreFrag_waitlist {seqNum : Nat} {frag : AdfNbuf} {nowMs : UInt32}
    (hs : olRxReorderStoreFrag cfg s e seqNum frag nowMs = some s') :
    s'.live = s.live ∧ (s'.waitlist = s.waitlist ∨
      ∃ q, olRxDefragWaitlistRemove s.waitlist e = some q ∧
        (s'.waitlist = q ∨ s'.waitlist = olRxDefragWaitlistAdd q e)) := by
  obtain ⟨elem, -, hs⟩ := bind_eq_some_iff.1 hs
  by_cases hone : (!(cfg.macHdr frag).moreFrag && (cfg.macHdr frag).fragno = 0 &&
      elem.head.isNone) = true
  · -- an MSDU in one frame
    rw [if_pos hone] at hs
    obtain ⟨fl, -, hs⟩ := bind_eq_some_iff.1 hs
    obtain ⟨s₁, hd, hs⟩ := bind_eq_some_iff.1 hs
    cases hs
    obtain ⟨hl, hw⟩ := olRxDefrag_frame hd
    exact ⟨hl, .inl hw⟩
  · rw [if_neg hone] at hs
    obtain ⟨⟨rx, fl⟩, -, hs⟩ := bind_eq_some_iff.1 hs
    dsimp only at hs
    by_cases hc : cfg.defragTimeoutCheck = true
    · rw [if_pos hc] at hs
      obtain ⟨q, hq, hs⟩ := bind_eq_some_iff.1 hs
      by_cases hall : fl.allFragPresent = true
      · rw [if_pos hall] at hs
        obtain ⟨s₁, hd, hs⟩ := bind_eq_some_iff.1 hs
        cases hs
        obtain ⟨hl, hw⟩ := olRxDefrag_frame hd
        exact ⟨hl, .inr ⟨q, hq, .inl hw⟩⟩
      · rw [if_neg hall, if_pos hc] at hs
        cases hs
        exact ⟨rfl, .inr ⟨q, hq, .inr rfl⟩⟩
    · rw [if_neg hc] at hs
      obtain ⟨q, hq, hs⟩ := bind_eq_some_iff.1 hs
      cases hq
      by_cases hall : fl.allFragPresent = true
      · rw [if_pos hall] at hs
        obtain ⟨s₁, hd, hs⟩ := bind_eq_some_iff.1 hs
        cases hs
        obtain ⟨hl, hw⟩ := olRxDefrag_frame hd
        exact ⟨hl, .inl hw⟩
      · rw [if_neg hall, if_neg hc] at hs
        cases hs
        exact ⟨rfl, .inl rfl⟩

theorem reorderFlush_waitlist {idxStart idxEnd : Nat} {action : HttRxFlushAction}
    (hs : reorderFlush cfg s e idxStart idxEnd action = some s') :
    s'.live = s.live ∧ olRxDefragWaitlistRemove s.waitlist e = some s'.waitlist := by
  obtain ⟨rx, -, hs⟩ := bind_eq_some_iff.1 hs
  obtain ⟨q, hq, hs⟩ := bind_eq_some_iff.1 hs
  cases hs
  exact ⟨rfl, hq⟩

theorem waitlistFlushLoop_tracked {nowMs : UInt32} {fuel : Nat} {next : Option DefragElem}
    (h : s.waitlist.Tracked P) (hs : waitlistFlushLoop cfg nowMs fuel s next = some s') :
    s'.live = s.live ∧ s'.waitlist.Tracked P := by
  induction fuel generalizing s next with
  | zero =>
    cases next with
    | none => cases hs; exact ⟨rfl, h⟩
    | some e => cases hs
  | succ fuel ih =>
    cases next with
    | none => cases hs; exact ⟨rfl, h⟩
    | some e =>
      rw [waitlistFlushLoop] at hs
      by_cases ht : (s.tids e).defragTimeoutMs > nowMs
      · rw [if_pos ht] at hs
        cases hs
        exact ⟨rfl, h⟩
      · rw [if_neg ht] at hs
        obtain ⟨q, hq, hs⟩ := bind_eq_some_iff.1 hs
        obtain ⟨s₁, hf, hs⟩ := bind_eq_some_iff.1 hs
        obtain ⟨hl₁, hw₁⟩ := olRxReorderFlushFrag_frame hf
        obtain ⟨q', hq', hq'ok, -⟩ := waitlistRemove_spec h e
        obtain rfl := some.inj (hq.symm.trans hq')
        have h₁ : s₁.waitlist.Tracked P := by
          rw [hw₁]
          exact hq'ok
        obtain ⟨hl, hw⟩ := ih h₁ hs
        exact ⟨hl.trans hl₁, hw⟩

theorem foldl_clear_tracked {f : DefragPdev → Fin olTxrxNumExtTids → DefragPdev} {peer : Nat}
    (hf : ∀ s tid, (f s tid).live = s.live ∧ ((f s tid).waitlist = s.waitlist ∨
      (f s tid).waitlist = s.waitlist.clear (peer, tid)))
    (h : s.waitlist.Tracked P) (hn : ∀ tid, s.waitlist.prev (peer, tid) = none)
    (l : List (Fin olTxrxNumExtTids)) :
    (l.foldl f s).live = s.live ∧ (l.foldl f s).waitlist.Tracked P ∧
      ∀ tid, (l.foldl f s).waitlist.prev (peer, tid) = none := by
  induction l generalizing s with
  | nil => exact ⟨rfl, h, hn⟩
  | cons tid l ih =>
    obtain ⟨hl, hw⟩ := hf s tid
    have h₁ : (f s tid).waitlist.Tracked P ∧ ∀ t, (f s tid).waitlist.prev (peer, t) = none := by
      rcases hw with hw | hw
      · rw [hw]
        exact ⟨h, hn⟩
      · rw [hw]
        exact ⟨h.clear_iff.2 (hn tid), fun t => (Tailq.prev_clear ..).2 (.inr (hn t))⟩
    obtain ⟨hl', hok⟩ := ih h₁.1 h₁.2
    exact ⟨hl'.trans hl, hok⟩

/-- The flushes of `ol_rx_reorder_peer_cleanup` take their TIDs off the list. -/
theorem foldlM_reorderFlush_tracked {peer : Nat} {l : List (Fin olTxrxNumExtTids)}
    (h : s.waitlist.Tracked P)
    (hs : l.foldlM (fun s tid => reorderFlush cfg s (peer, tid) 0 0 .discard) s = some s') :
    s'.live = s.live ∧ s'.waitlist.Tracked P ∧
      ∀ tid, (tid ∈ l ∨ s.waitlist.prev (peer, tid) = none) →
        s'.waitlist.prev (peer, tid) = none := by
  induction l generalizing s with
  | nil =>
    cases hs
    exact ⟨rfl, h, fun tid ht => ht.resolve_left not_mem_nil⟩
  | cons t l ih =>
    rw [foldlM_cons] at hs
    obtain ⟨s₁, hf, hs⟩ := bind_eq_some_iff.1 hs
    obtain ⟨hl₁, hq⟩ := reorderFlush_waitlist hf
    obtain ⟨q', hq', hok, hp⟩ := waitlistRemove_spec h (peer, t)
    obtain rfl := some.inj (hq'.symm.trans hq)
    obtain ⟨hl, hw, hn⟩ := ih hok hs
    refine ⟨hl.trans hl₁, hw, fun tid ht => hn tid ?_⟩
    rw [hp (peer, tid)]
    rcases ht with ht | ht
    · rcases mem_cons.1 ht with rfl | ht
      · exact .inr (.inl rfl)
      · exact .inl ht
    · exact .inr (.inr ht)

theorem peerInit_ok {peer : Nat} (h : WaitlistOk s) (hp : s.live peer = false) :
    WaitlistOk (peerInit s peer) := by
  have hn : ∀ tid, s.waitlist.prev (peer, tid) = none := by
    intro tid
    by_contra hne
    exact absurd (h.holds hne) (by simp [hp])
  obtain ⟨hl, hw, -⟩ := foldl_clear_tracked (f := fun s tid => reorderInit s (peer, tid)
    { (s.tids (peer, tid)).rx with lastSeq := ieee80211SeqMax, nextRelIdx := invalidReorderIndex })
    (fun s tid => ⟨rfl, .inr rfl⟩) h hn (finRange olTxrxNumExtTids)
  refine hw.mono fun e _ he => ?_
  change update (foldl _ s _).live peer true e.1 = true
  rw [hl]
  by_cases hep : e.1 = peer
  · rw [hep, update_self]
  · rw [update_of_ne hep]
    exact he

theorem peerDeleteRx_ok {peer : Nat} (h : WaitlistOk s) (hs : peerDeleteRx cfg s peer = some s') :
    WaitlistOk s' := by
  obtain ⟨s₁, hc, hs⟩ := bind_eq_some_iff.1 hs
  obtain ⟨hl₁, hw₁, hn₁⟩ := foldlM_reorderFlush_tracked h hc
  have hn : ∀ tid, s₁.waitlist.prev (peer, tid) = none :=
    fun tid => hn₁ tid (.inl (mem_finRange tid))
  -- a TID whose array is freed is off the list by now
  have hturn : ∀ (s : DefragPdev) (tid : Fin olTxrxNumExtTids), ∀ s',
      s' = (if (s.tids (peer, tid)).rx.array = .base then s
        else reorderInit s (peer, tid) (reorderArrayFree (s.tids (peer, tid)).rx)) →
      s'.live = s.live ∧
        (s'.waitlist = s.waitlist ∨ s'.waitlist = s.waitlist.clear (peer, tid)) := by
    rintro s tid s' rfl
    split_ifs
    · exact ⟨rfl, .inl rfl⟩
    · exact ⟨rfl, .inr rfl⟩
  obtain ⟨hl, hw, hn'⟩ := foldl_clear_tracked (fun s tid => hturn s tid _ rfl) hw₁ hn
    (finRange olTxrxNumExtTids)
  cases hs
  refine hw.mono fun e hne he => ?_
  have hep : e.1 ≠ peer := by
    rintro rfl
    exact hne (hn' e.2)
  change update (peerArraysFree s₁ peer).live peer false e.1 = true
  rw [update_of_ne hep, peerArraysFree, hl, hl₁]
  exact he

theorem delba_ok_iff (h : WaitlistOk s) : WaitlistOk (delba s e) ↔ s.waitlist.prev e = none :=
  h.clear_iff

end Effects

/-! ### The wait-list over runs -/

section Runs
variable {cfg : DefragCfg} {s s' : DefragPdev}

theorem WaitlistOk.of_eq (h : WaitlistOk s) (hl : s'.live = s.live)
    (hw : s'.waitlist = s.waitlist) : WaitlistOk s' := by
  unfold WaitlistOk
  rw [hl, hw]
  exact h

theorem defragStep_ok_iff {ev : DefragEvent} (h : WaitlistOk s)
    (hs : defragStep cfg s ev = some s') : WaitlistOk s' ↔ DefragStepOk s ev := by
  cases ev with
  | peerAttach peer =>
    obtain ⟨hp, rfl⟩ := guarded_eq_some.1 hs
    exact iff_of_true (peerInit_ok h hp) trivial
  | storeFrag e seqNum frag nowMs =>
    obtain ⟨hlive, hs⟩ := guard_bind_eq_some.1 hs
    obtain ⟨hl, hw⟩ := olRxReorderStoreFrag_waitlist hs
    refine iff_of_true ?_ trivial
    rcases hw with hw | ⟨q, hq, hw⟩
    · exact h.of_eq hl hw
    · obtain ⟨q', hq', hok, hp⟩ := waitlistRemove_spec h e
      obtain rfl := some.inj (hq'.symm.trans hq)
      unfold WaitlistOk
      rw [hl]
      rcases hw with hw | hw
      · rw [hw]
        exact hok
      · rw [hw]
        exact hok.insertTail ((hp e).2 (.inl rfl)) hlive
  | flushFrag e seqNum =>
    obtain ⟨-, hs⟩ := guard_bind_eq_some.1 hs
    obtain ⟨hl, hw⟩ := olRxReorderFlushFrag_frame hs
    exact iff_of_true (h.of_eq hl hw) trivial
  | flush e idxStart idxEnd action =>
    obtain ⟨-, hs⟩ := guard_bind_eq_some.1 hs
    obtain ⟨hl, hq⟩ := reorderFlush_waitlist hs
    obtain ⟨q', hq', hok, -⟩ := waitlistRemove_spec h e
    obtain rfl := some.inj (hq'.symm.trans hq)
    refine iff_of_true ?_ trivial
    unfold WaitlistOk
    rw [hl]
    exact hok
  | addba e winSz failed =>
    obtain ⟨-, hs⟩ := guard_bind_eq_some.1 hs
    obtain ⟨rx, -, hs⟩ := bind_eq_some_iff.1 hs
    cases hs
    exact iff_of_true (h.of_eq rfl rfl) trivial
  | delba e =>
    obtain ⟨-, rfl⟩ := guarded_eq_some.1 hs
    exact delba_ok_iff h
  | waitlistFlush nowMs =>
    obtain ⟨hl, hw⟩ := waitlistFlushLoop_tracked h hs
    refine iff_of_true ?_ trivial
    unfold WaitlistOk
    rw [hl]
    exact hw
  | peerDelete peer =>
    obtain ⟨-, hs⟩ := guard_bind_eq_some.1 hs
    exact iff_of_true (peerDeleteRx_ok h hs) trivial

theorem waitlistOk_of_fresh (h : s.Fresh) : WaitlistOk s := by
  unfold WaitlistOk
  rw [h.waitlist]
  exact Tailq.tracked_empty

/-- **The wait-list.**  It is as it should be in every state of a run whose DELBAs come for TIDs that are not waiting; and in such a state an event spoils it exactly if it is a DELBA for a TID that is. -/
theorem waitlist_ok_iff (h : (defragMachine cfg).Reach DefragStepOk s) :
    WaitlistOk s ∧
      ∀ ev s', defragStep cfg s ev = some s' → (WaitlistOk s' ↔ DefragStepOk s ev) := by
  have hok : WaitlistOk s := by
    refine h.invariant WaitlistOk (fun s hs => waitlistOk_of_fresh hs) fun s ev s' hi ho hs => ?_
    exact (defragStep_ok_iff hi hs).2 ho
  exact ⟨hok, fun ev s' hs => defragStep_ok_iff hok hs⟩

/-- Frames numbered as their buffers; the first fragment of each MSDU says that more follow. -/
def twoFragments : DefragCfg where
  macHdr frag := ⟨if frag % 16 = 0 then 4 else 0, UInt16.ofNat frag⟩
  addrs _ := (0, 0)
  seqNum _ := 0
  defragTimeoutCheck := true
  timeoutMs := 3000
  fuel := 8

/-- A pdev as `ol_txrx_pdev_attach` leaves it, over zeroed memory. -/
def DefragPdev.attached : DefragPdev where
  live _ := false
  tids _ := ⟨⟨0, 0, 0, .base, fun _ => [], 0, 0, fun _ => none, [], [], 0, []⟩, 0⟩
  waitlist := .empty
  defragged := []

theorem waitlist_ok_iff_waiting : ∃ s, s.waitlist.first = some (0, 2) ∧ WaitlistOk s ∧
    ∀ ev s', defragStep twoFragments s ev = some s' → (WaitlistOk s' ↔ DefragStepOk s ev) := by
  obtain ⟨s, -, hr, hfirst⟩ : ∃ s, (defragMachine twoFragments).run .attached [.peerAttach 0,
      .addba (0, 2) 8 false, .storeFrag (0, 2) 64 0 5, .flush (0, 2) 0 0xffff .discard,
      .delba (0, 2), .storeFrag (0, 2) 65 0 9] = some s ∧
      (defragMachine twoFragments).Reach (DefragStepOk) s ∧ s.waitlist.first = some (0, 2) :=
    Machine.exists_reach (by exact ⟨rfl, fun _ => rfl⟩) (by decide +kernel) (by decide +kernel)
  exact ⟨s, hfirst, waitlist_ok_iff hr⟩

/-- A DELBA with a fragment pending: the TID is on the list still, and its back pointer is NULL. -/
theorem delba_unlinks_half : ∃ s, (defragMachine twoFragments).Reach (fun _ _ => True) s ∧
    s.waitlist.first = some (0, 2) ∧ s.waitlist.prev (0, 2) = none ∧ ¬ WaitlistOk s := by
  obtain ⟨s, hs, hfirst, hprev⟩ : ∃ s, (defragMachine twoFragments).run .attached [.peerAttach 0,
      .addba (0, 2) 8 false, .storeFrag (0, 2) 64 0 5, .delba (0, 2)] = some s ∧
      s.waitlist.first = some (0, 2) ∧ s.waitlist.prev (0, 2) = none :=
    Machine.exists_run (by decide +kernel)
  exact ⟨s, Machine.reach_of_run ⟨rfl, fun _ => rfl⟩ hs, hfirst, hprev,
    fun h => h.prev_first hfirst hprev⟩

end Runs

end Qcacld.Txrx

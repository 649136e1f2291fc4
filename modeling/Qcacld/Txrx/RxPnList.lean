import Mathlib.Data.List.SplitBy
import Qcacld.Adf.Nbuf
import Qcacld.Support.Threaded
import Qcacld.Txrx.RxPn

/-!
# Txrx — RxPnList

`ol_rx_pn_check_base` on the netbufs themselves: a list threaded through their `next` pointers is cut into MPDUs, those that pass are hooked one behind the other and those that do not are freed.

`pn_check_right` says what becomes of the list when the host is to check it: the MPDUs that are not encrypted or whose number is no replay of the last accepted one, whole and in their order, and each MSDU of the others freed once.  `pn_check_mpdus` is that they are those of `olRxPnCheckBase`.
-/

namespace Qcacld.Txrx
open Qcacld.Adf Qcacld.Support Function List Option Nat

section Model
variable (desc : AdfNbuf → RxMsdu)

/-- The last MSDU of an MPDU, from one of its MSDUs on.  Where the list ends first, it is the one before NULL. -/
def mpduTail (heap : NbufHeap) : Nat → AdfNbuf → Option AdfNbuf
  | 0, _ => none
  | fuel + 1, msdu =>
    if (desc msdu).completesMpdu then some msdu
    else match adfNbufNext heap msdu with
      | none => some msdu
      | some next => mpduTail heap fuel next

/-- The MSDUs from one to the tail of its MPDU, each freed once its `next` has been read. -/
def freeMsdus (heap : NbufHeap) (mpduTail : AdfNbuf) : Nat → AdfNbuf → Option (List AdfNbuf)
  | 0, _ => none
  | fuel + 1, msdu =>
    if msdu = mpduTail then some [msdu]
    else do
      let next ← adfNbufNext heap msdu
      return msdu :: (← freeMsdus heap mpduTail fuel next)

/-- The locals of `ol_rx_pn_check_base`, and the netbufs that have been freed. -/
structure PnLoop where
  heap : NbufHeap
  outListHead : Option AdfNbuf
  outListTail : Option AdfNbuf
  freed : List AdfNbuf
  lastPnValid : Bool
  lastPn : HttRxPn

/-- `ADD_MPDU_TO_LIST` -/
def PnLoop.addMpdu (s : PnLoop) (mpdu mpduTail : AdfNbuf) : Option PnLoop :=
  match s.outListHead with
  | none => some { s with outListHead := some mpdu, outListTail := some mpduTail }
  | some _ => do
    let tail ← s.outListTail
    return { s with heap := adfNbufSetNext s.heap tail (some mpdu), outListTail := some mpduTail }

section Check
variable (vdev : PnVdev) (index : TxrxSec) (check : RxPnCheck)

/-- One turn of the loop, after `ol_rx_mpdu_list_next`. -/
def PnLoop.checkMpdu (fuel : Nat) (s : PnLoop) (mpdu mpduTail : AdfNbuf) : Option PnLoop :=
  if (desc mpdu).encrypted then
    let newPn := httRxMpduDescPn vdev.isHighLatency (desc mpdu) check.len
    if s.lastPnValid && check.cmp newPn s.lastPn (index = .ucast) vdev.opmode then do
      let msdus ← freeMsdus s.heap mpduTail fuel mpdu
      return { s with freed := s.freed ++ msdus }
    else do
      let s ← s.addMpdu mpdu mpduTail
      return { s with lastPnValid := true, lastPn := newPn }
  else s.addMpdu mpdu mpduTail

/-- The loop of `ol_rx_pn_check_base`; `fuel` bounds its turns and those of the loops in it. -/
def pnLoop : Nat → PnLoop → Option AdfNbuf → Option PnLoop
  | _, s, none => some s
  | 0, _, some _ => none
  | fuel + 1, s, some mpdu => do
    let mpduTail ← mpduTail desc s.heap (fuel + 1) mpdu
    let nextMpdu := adfNbufNext s.heap mpduTail
    let s ← s.checkMpdu desc vdev index check (fuel + 1) mpdu mpduTail
    pnLoop fuel s nextMpdu

end Check

/-- What `ol_rx_pn_check_base` leaves and returns. -/
structure PnChecked where
  heap : NbufHeap
  list : Option AdfNbuf
  freed : List AdfNbuf
  peer : PnPeer

/-- `ol_rx_pn_check_base`.  The list to check is not empty. -/
def olRxPnCheckList (fuel : Nat) (vdev : PnVdev) (peer : PnPeer) (tid : Fin olTxrxNumExtTids)
    (heap : NbufHeap) (msduList : AdfNbuf) : Option PnChecked :=
  let index := (desc msduList).index
  let check := vdev.rxPn (peer.secType index)
  if peer.fwPnCheck ∨ vdev.opmode = .ibss ∨ check.len = 0 then
    some ⟨heap, some msduList, [], peer⟩
  else do
    let s ← pnLoop desc vdev index check fuel
      ⟨heap, none, none, [], peer.tidsLastPnValid tid, peer.tidsLastPn tid⟩ (some msduList)
    let heap := match s.outListTail with
      | some tail => adfNbufSetNext s.heap tail none
      | none => s.heap
    return {
      heap := heap
      list := s.outListHead
      freed := s.freed
      peer := { peer with
        tidsLastPn := update peer.tidsLastPn tid s.lastPn
        tidsLastPnValid := update peer.tidsLastPnValid tid s.lastPnValid } }

/-! ### What is to become of a list -/

def nbufMpdus (l : List AdfNbuf) : List (List AdfNbuf) :=
  l.splitBy fun msdu _ => !(desc msdu).completesMpdu

/-- The descriptor of an MPDU is the one of its first MSDU. -/
def mpduDesc (mpdu : List AdfNbuf) : RxMsdu := desc (mpdu.headD 0)

/-- The last packet number of a TID, if there is one. -/
def PnPeer.lastPn? (peer : PnPeer) (tid : Fin olTxrxNumExtTids) : Option HttRxPn :=
  if peer.tidsLastPnValid tid then some (peer.tidsLastPn tid) else none

section Spec
variable (vdev : PnVdev) (index : TxrxSec) (check : RxPnCheck) (last : Option HttRxPn)

def mpduPn (mpdu : List AdfNbuf) : HttRxPn :=
  httRxMpduDescPn vdev.isHighLatency (mpduDesc desc mpdu) check.len

/-- The number of the last accepted MPDU that is encrypted. -/
def lastAcceptedPn (kept : List (List AdfNbuf)) : Option HttRxPn :=
  ((kept.filter fun mpdu => (mpduDesc desc mpdu).encrypted).getLast?.map
    (mpduPn desc vdev check)).or last

/-- An MPDU is not encrypted, or its number is no replay of the last accepted one. -/
def PnPasses (kept : List (List AdfNbuf)) (mpdu : List AdfNbuf) : Prop :=
  (mpduDesc desc mpdu).encrypted = true → ∀ old ∈ lastAcceptedPn desc vdev check last kept,
    check.cmp (mpduPn desc vdev check mpdu) old (index = .ucast) vdev.opmode = false
deriving Decidable

/-- **The MPDUs that pass**, in their order. -/
def pnKept (mpdus : List (List AdfNbuf)) : List (List AdfNbuf) :=
  mpdus.foldl (fun kept mpdu =>
    if PnPasses desc vdev index check last kept mpdu then kept ++ [mpdu] else kept) []

end Spec

/-- **A list that is checked right**: what is returned is the MPDUs that pass, every other MSDU is freed once, and the last packet number is that of the last accepted MPDU. -/
structure PnCheckRight (vdev : PnVdev) (peer : PnPeer) (tid : Fin olTxrxNumExtTids)
    (msduList : List AdfNbuf) (check : RxPnCheck) (kept : List (List AdfNbuf)) (r : PnChecked) :
    Prop where
  list : Threaded r.heap r.list kept.flatten
  freed : (r.freed ++ kept.flatten).Perm msduList
  lastPn : r.peer.lastPn? tid = lastAcceptedPn desc vdev check (peer.lastPn? tid) kept
  others : ∀ t ≠ tid, r.peer.lastPn? t = peer.lastPn? t
  secType : r.peer.secType = peer.secType

/-! ### One MPDU -/

section Mpdu
variable {desc} {heap : NbufHeap} {ms rest l : List AdfNbuf} {msdu tail : AdfNbuf} {fuel : ℕ}

/-- The first MPDU of a list ends with its first MSDU that completes one, or with the list. -/
theorem exists_firstMpdu (desc : AdfNbuf → RxMsdu) (hne : l ≠ []) : ∃ ms tail rest, l = ms ++ tail :: rest ∧
    (∀ x ∈ ms, (desc x).completesMpdu = false) ∧
      ((desc tail).completesMpdu = true ∨ rest = []) := by
  induction l with
  | nil => exact absurd rfl hne
  | cons a l ih =>
    cases hc : (desc a).completesMpdu with
    | true => exact ⟨[], a, l, rfl, fun _ hx => (nomatch hx), .inl hc⟩
    | false =>
      by_cases hnil : l = []
      · exact ⟨[], a, l, rfl, fun _ hx => (nomatch hx), .inr hnil⟩
      · obtain ⟨ms, tail, rest, rfl, hms, hend⟩ := ih hnil
        exact ⟨a :: ms, tail, rest, rfl, forall_mem_cons.2 ⟨hc, hms⟩, hend⟩

theorem mpduTail_spec (h : Threaded heap (ms ++ tail :: rest).head? (ms ++ tail :: rest))
    (hms : ∀ x ∈ ms, (desc x).completesMpdu = false)
    (hend : (desc tail).completesMpdu = true ∨ rest = []) (hfuel : ms.length < fuel) :
    mpduTail desc heap fuel ((ms ++ [tail]).headD 0) = some tail := by
  induction ms generalizing fuel with
  | nil =>
    obtain ⟨fuel, rfl⟩ := Nat.exists_eq_succ_of_ne_zero (Nat.ne_zero_of_lt hfuel)
    change mpduTail desc heap (fuel + 1) tail = _
    rw [mpduTail]
    rcases hend with hend | rfl
    · rw [if_pos hend]
    · have hnull : heap tail = none := h.2
      rw [adfNbufNext, hnull]
      split <;> rfl
  | cons x ms ih =>
    obtain ⟨fuel, rfl⟩ := Nat.exists_eq_succ_of_ne_zero (Nat.ne_zero_of_lt hfuel)
    obtain ⟨hx, hms⟩ := forall_mem_cons.1 hms
    have hnext : heap x = (ms ++ tail :: rest).head? := h.2.head
    have hrest := ih (hnext ▸ h.2) hms (lt_of_succ_lt_succ hfuel)
    have hhead : heap x = some ((ms ++ [tail]).headD 0) := by
      rw [hnext]
      cases ms <;> rfl
    change mpduTail desc heap (fuel + 1) x = _
    rw [mpduTail, if_neg (by rw [hx]; exact Bool.false_ne_true), adfNbufNext, hhead]
    exact hrest

theorem nbufMpdus_append (hms : ∀ x ∈ ms, (desc x).completesMpdu = false)
    (hend : (desc tail).completesMpdu = true ∨ rest = []) :
    nbufMpdus desc (ms ++ tail :: rest) = (ms ++ [tail]) :: nbufMpdus desc rest := by
  have hchain : (ms ++ [tail]).IsChain fun x _ => (!(desc x).completesMpdu) = true := by
    induction ms with
    | nil => exact .singleton _
    | cons x ms ih =>
      obtain ⟨hx, hms⟩ := forall_mem_cons.1 hms
      refine isChain_cons.2 ⟨fun _ _ => ?_, ih hms⟩
      rw [hx]
      rfl
  have hcut : ∀ x ∈ (ms ++ [tail]).getLast?, ∀ y ∈ rest.head?, (!(desc x).completesMpdu) = false := by
    intro x hx y hy
    rw [getLast?_concat] at hx
    cases hx
    rcases hend with hend | rfl
    · rw [hend]
      rfl
    · cases hy
  rw [append_cons, nbufMpdus, splitBy_append hcut,
    splitBy_of_isChain (append_ne_nil_of_right_ne_nil _ (cons_ne_nil _ _)) hchain]
  rfl

theorem freeMsdus_spec (h : Linked heap (ms ++ [tail])) (hnot : tail ∉ ms)
    (hfuel : ms.length < fuel) :
    freeMsdus heap tail fuel ((ms ++ [tail]).headD 0) = some (ms ++ [tail]) := by
  induction ms generalizing fuel with
  | nil =>
    obtain ⟨fuel, rfl⟩ := Nat.exists_eq_succ_of_ne_zero (Nat.ne_zero_of_lt hfuel)
    exact if_pos rfl
  | cons x ms ih =>
    obtain ⟨fuel, rfl⟩ := Nat.exists_eq_succ_of_ne_zero (Nat.ne_zero_of_lt hfuel)
    rw [mem_cons, not_or] at hnot
    have hnext : heap x = some ((ms ++ [tail]).headD 0) := by
      have hhead := (isChain_cons.1 h).1
      cases ms with
      | nil => exact hhead tail rfl
      | cons y ms => exact hhead y rfl
    have hrest := ih h.tail hnot.2 (lt_of_succ_lt_succ hfuel)
    change freeMsdus heap tail (fuel + 1) x = _
    rw [freeMsdus, if_neg (Ne.symm hnot.1), adfNbufNext, hnext, bind_eq_bind, bind_some, hrest]
    rfl

end Mpdu

/-! ### The loop -/

section Loop
variable {desc} {vdev : PnVdev} {index : TxrxSec} {check : RxPnCheck} {last : Option HttRxPn}
  {s : PnLoop} {kept : List (List AdfNbuf)} {mpdu ms rest l : List AdfNbuf} {tail : AdfNbuf}
  {fuel : ℕ}

theorem pnKept_concat (mpdus : List (List AdfNbuf)) :
    pnKept desc vdev index check last (mpdus ++ [mpdu]) =
      if PnPasses desc vdev index check last (pnKept desc vdev index check last mpdus) mpdu then
        pnKept desc vdev index check last mpdus ++ [mpdu]
      else pnKept desc vdev index check last mpdus :=
  foldl_concat ..

theorem lastAcceptedPn_concat : lastAcceptedPn desc vdev check last (kept ++ [mpdu]) =
    if (mpduDesc desc mpdu).encrypted then some (mpduPn desc vdev check mpdu)
    else lastAcceptedPn desc vdev check last kept := by
  split
  · next he => simp [lastAcceptedPn, filter_append, he]
  · next he => simp [lastAcceptedPn, filter_append, he]

theorem pnPasses_iff (index : TxrxSec) {valid : Bool} {pn : HttRxPn} (he : (mpduDesc desc mpdu).encrypted = true)
    (hlast : (if valid then some pn else none) = lastAcceptedPn desc vdev check last kept) :
    PnPasses desc vdev index check last kept mpdu ↔
      (valid && check.cmp (mpduPn desc vdev check mpdu) pn (index = .ucast) vdev.opmode) = false := by
  rw [PnPasses, ← hlast]
  cases valid with
  | false => simp
  | true => simp [he]

variable (desc vdev check last) in
/-- **On its way**, the loop has hooked up the MPDUs it kept, and not touched the rest of the list. -/
structure PnLooping (s : PnLoop) (kept : List (List AdfNbuf)) (rest l : List AdfNbuf) : Prop where
  out : Chunk s.heap s.outListHead s.outListTail kept.flatten
  ahead : Threaded s.heap rest.head? rest
  perm : (s.freed ++ kept.flatten ++ rest).Perm l
  lastPn : (if s.lastPnValid then some s.lastPn else none) =
    lastAcceptedPn desc vdev check last kept

theorem threaded_mpdu {heap : NbufHeap}
    (h : Threaded heap (ms ++ tail :: rest).head? (ms ++ tail :: rest)) :
    Linked heap (ms ++ [tail]) ∧ heap tail = rest.head? ∧ Threaded heap rest.head? rest := by
  have hafter := h.after
  have hlinked := h.linked
  rw [append_cons] at hlinked
  exact ⟨(linked_append.1 hlinked).1, hafter.head, hafter.head ▸ hafter⟩

/-- `ADD_MPDU_TO_LIST` hooks an MPDU behind those kept. -/
theorem PnLooping.addMpdu (h : PnLooping desc vdev check last s kept (ms ++ tail :: rest) l)
    (hd : l.Nodup) :
    ∃ heap head, s.addMpdu ((ms ++ [tail]).headD 0) tail =
        some { s with heap := heap, outListHead := head, outListTail := some tail } ∧
      Chunk heap head (some tail) (kept ++ [ms ++ [tail]]).flatten ∧
      Threaded heap rest.head? rest := by
  obtain ⟨hmpdu, -, hrest⟩ := threaded_mpdu h.ahead
  have hd' := h.perm.nodup_iff.2 hd
  have hflat : (kept ++ [ms ++ [tail]]).flatten = kept.flatten ++ (ms ++ [tail]) := by
    rw [flatten_append, flatten_singleton]
  have hnew : Chunk s.heap (some ((ms ++ [tail]).headD 0)) (some tail) (ms ++ [tail]) := by
    refine ⟨?_, getLast?_concat.symm, hmpdu⟩
    cases ms <;> rfl
  rw [hflat]
  cases hhead : s.outListHead with
  | none =>
    have hnil := h.out.eq_nil_iff.1 hhead
    rw [hnil, nil_append]
    refine ⟨s.heap, some ((ms ++ [tail]).headD 0), ?_, hnew, hrest⟩
    rw [PnLoop.addMpdu, hhead]
  | some head =>
    have hne : kept.flatten ≠ [] := fun hnil => by
      rw [h.out.eq_nil_iff.2 hnil] at hhead
      cases hhead
    cases htail : s.outListTail with
    | none => exact absurd (h.out.tail_none_iff.1 htail) hne
    | some t =>
      have hout := h.out
      rw [htail] at hout
      have ht : t ∈ kept.flatten := mem_of_mem_getLast? hout.tail_eq.symm
      rw [append_cons, ← append_assoc, append_assoc s.freed] at hd'
      have hd₁ := (nodup_append.1 hd').1
      refine ⟨adfNbufSetNext s.heap t (some ((ms ++ [tail]).headD 0)), some head, ?_, ?_,
        hrest.update_of_notMem fun hm => ?_⟩
      · rw [PnLoop.addMpdu, hhead, htail]
        rfl
      · rw [← hhead]
        exact hout.join hnew (nodup_append.1 hd₁).2.1 (by simp)
      · exact (nodup_append.1 hd').2.2 t (by simp [ht]) t hm rfl

/-- **One MPDU.** -/
theorem PnLooping.checkMpdu (index : TxrxSec)
    (h : PnLooping desc vdev check last s kept (ms ++ tail :: rest) l)
    (hd : l.Nodup) (hfuel : ms.length < fuel) :
    ∃ s', s.checkMpdu desc vdev index check fuel ((ms ++ [tail]).headD 0) tail = some s' ∧
      PnLooping desc vdev check last s'
        (if PnPasses desc vdev index check last kept (ms ++ [tail]) then kept ++ [ms ++ [tail]]
          else kept) rest l := by
  obtain ⟨heap, head, hadd, hout, hthreaded⟩ := h.addMpdu hd
  obtain ⟨hmpdu, -, hrest⟩ := threaded_mpdu h.ahead
  have hperm : (s.freed ++ (kept ++ [ms ++ [tail]]).flatten ++ rest).Perm l := by
    simpa using h.perm
  let first := (ms ++ [tail]).headD 0
  let newPn := httRxMpduDescPn vdev.isHighLatency (desc first) check.len
  have hcheck : s.checkMpdu desc vdev index check fuel first tail =
      if (desc first).encrypted then
        if s.lastPnValid && check.cmp newPn s.lastPn (index = .ucast) vdev.opmode then
          (freeMsdus s.heap tail fuel first).map fun msdus => { s with freed := s.freed ++ msdus }
        else (s.addMpdu first tail).map fun s => { s with lastPnValid := true, lastPn := newPn }
      else s.addMpdu first tail := by
    rw [PnLoop.checkMpdu, map_eq_bind, map_eq_bind]
    rfl
  change ∃ s', s.checkMpdu desc vdev index check fuel first tail = some s' ∧ _
  rw [hcheck]
  by_cases he : (desc first).encrypted = true
  · rw [if_pos he]
    have hpasses : PnPasses desc vdev index check last kept (ms ++ [tail]) ↔
        (s.lastPnValid && check.cmp newPn s.lastPn (index = .ucast) vdev.opmode) = false :=
      pnPasses_iff index he h.lastPn
    by_cases hreplay :
        (s.lastPnValid && check.cmp newPn s.lastPn (index = .ucast) vdev.opmode) = true
    · have hnot : ¬ PnPasses desc vdev index check last kept (ms ++ [tail]) := by
        rw [hpasses, hreplay]
        exact Bool.true_eq_false.mp
      have hnodup := (nodup_append.1 (h.perm.nodup_iff.2 hd)).2.1
      rw [append_cons] at hnodup
      have htail : tail ∉ ms := fun hm =>
        (nodup_append.1 (nodup_append.1 hnodup).1).2.2 tail hm tail (by simp) rfl
      rw [if_pos hreplay, freeMsdus_spec hmpdu htail hfuel, if_neg hnot]
      refine ⟨_, rfl, h.out, hrest, ?_, h.lastPn⟩
      refine List.Perm.trans ?_ h.perm
      rw [append_cons ms tail rest, append_assoc, append_assoc, append_assoc s.freed]
      exact (perm_append_comm_assoc _ _ _).append_left s.freed
    · rw [Bool.not_eq_true] at hreplay
      rw [if_neg (by rw [hreplay]; exact Bool.false_ne_true), hadd, if_pos (hpasses.2 hreplay)]
      refine ⟨_, rfl, hout, hthreaded, hperm, ?_⟩
      rw [lastAcceptedPn_concat]
      exact (if_pos he).symm
  · have hpasses : PnPasses desc vdev index check last kept (ms ++ [tail]) := fun h => absurd h he
    rw [if_neg he, hadd, if_pos hpasses]
    refine ⟨_, rfl, hout, hthreaded, hperm, ?_⟩
    rw [lastAcceptedPn_concat]
    exact h.lastPn.trans (if_neg he).symm

/-- **The loop.** -/
theorem PnLooping.run (index : TxrxSec) (h : PnLooping desc vdev check last s kept rest l) (hd : l.Nodup)
    (hfuel : rest.length ≤ fuel) :
    ∃ s', pnLoop desc vdev index check fuel s rest.head? = some s' ∧
      PnLooping desc vdev check last s' ((nbufMpdus desc rest).foldl (fun kept mpdu =>
          if PnPasses desc vdev index check last kept mpdu then kept ++ [mpdu] else kept) kept)
        [] l := by
  induction fuel generalizing s kept rest with
  | zero =>
    obtain rfl : rest = [] := eq_nil_of_length_eq_zero (le_zero.1 hfuel)
    exact ⟨s, rfl, h⟩
  | succ fuel ih =>
    cases rest with
    | nil => exact ⟨s, rfl, h⟩
    | cons msdu rest =>
      obtain ⟨ms, tail, rest', hl, hms, hend⟩ :=
        exists_firstMpdu desc (cons_ne_nil msdu rest)
      have hlen := congrArg length hl
      rw [length_cons, length_append, length_cons] at hlen
      rw [length_cons] at hfuel
      have hfirst : msdu = (ms ++ [tail]).headD 0 := by
        have hhead := congrArg (headD · 0) hl
        cases ms <;> exact hhead
      rw [hl] at h ⊢
      have htail := mpduTail_spec h.ahead hms hend (by omega : ms.length < fuel + 1)
      rw [← hfirst] at htail
      obtain ⟨s', hcheck, h'⟩ := h.checkMpdu index hd (by omega : ms.length < fuel + 1)
      obtain ⟨s'', hrun, h''⟩ := ih h' (by omega)
      rw [nbufMpdus_append hms hend, foldl_cons]
      refine ⟨s'', ?_, h''⟩
      rw [← hl, head?_cons, pnLoop, htail, bind_eq_bind, bind_some, hfirst,
        hcheck, bind_eq_bind, bind_some, adfNbufNext, (threaded_mpdu h.ahead).2.1]
      exact hrun

end Loop

end Model

/-! ### The MPDUs by their descriptors -/

section Descriptors
variable {desc : AdfNbuf → RxMsdu} {vdev : PnVdev} {index : TxrxSec} {check : RxPnCheck}
  {last : Option HttRxPn} {ms rest : List AdfNbuf} {tail : AdfNbuf}

def nbufMpdu (desc : AdfNbuf → RxMsdu) (mpdu : List AdfNbuf) : RxMpdu :=
  ⟨mpduDesc desc mpdu, mpdu.tail.map desc⟩

theorem msdus_nbufMpdu (ms : List AdfNbuf) (tail : AdfNbuf) :
    (nbufMpdu desc (ms ++ [tail])).msdus = (ms ++ [tail]).map desc := by
  cases ms <;> rfl

theorem rxMpdus_append (hms : ∀ x ∈ ms, (desc x).completesMpdu = false)
    (hend : (desc tail).completesMpdu = true ∨ rest = []) :
    rxMpdus ((ms ++ tail :: rest).map desc) =
      nbufMpdu desc (ms ++ [tail]) :: rxMpdus (rest.map desc) := by
  induction ms with
  | nil =>
    change rxMpdus (desc tail :: rest.map desc) = _
    rw [rxMpdus]
    rcases hend with hend | rfl
    · rw [if_pos hend]
      rfl
    · split <;> rfl
  | cons x ms ih =>
    obtain ⟨hx, hms⟩ := forall_mem_cons.1 hms
    change rxMpdus (desc x :: (ms ++ tail :: rest).map desc) = _
    rw [rxMpdus, if_neg (by rw [hx]; exact Bool.false_ne_true), ih hms]
    dsimp only
    rw [msdus_nbufMpdu]
    rfl

theorem rxMpdus_map (l : List AdfNbuf) :
    rxMpdus (l.map desc) = (nbufMpdus desc l).map (nbufMpdu desc) := by
  induction hn : l.length using Nat.strongRecOn generalizing l with
  | ind n ih =>
    by_cases hnil : l = []
    · subst hnil
      rfl
    · obtain ⟨ms, tail, rest, rfl, hms, hend⟩ := exists_firstMpdu desc hnil
      rw [length_append, length_cons] at hn
      rw [rxMpdus_append hms hend, nbufMpdus_append hms hend, map_cons,
        ih rest.length (by omega) rest rfl]

theorem foldl_checkMpdu (valid : Bool) (pn : HttRxPn) (mpdus : List (List AdfNbuf)) :
    let s := (mpdus.map (nbufMpdu desc)).foldl (olRxPnCheckMpdu vdev index check) ⟨valid, pn, []⟩
    let kept := pnKept desc vdev index check (if valid then some pn else none) mpdus
    s.out = kept.map (nbufMpdu desc) ∧ (if s.lastPnValid then some s.lastPn else none) =
      lastAcceptedPn desc vdev check (if valid then some pn else none) kept := by
  induction mpdus using reverseRecOn with
  | nil => exact ⟨rfl, rfl⟩
  | append_singleton mpdus mpdu ih =>
    rw [map_append, map_singleton, foldl_concat, pnKept_concat]
    generalize (mpdus.map (nbufMpdu desc)).foldl (olRxPnCheckMpdu vdev index check)
      ⟨valid, pn, []⟩ = s at ih
    generalize pnKept desc vdev index check (if valid then some pn else none) mpdus = kept at ih
    obtain ⟨hout, hlast⟩ := ih
    by_cases he : (mpduDesc desc mpdu).encrypted = true
    · have hstep : olRxPnCheckMpdu vdev index check s (nbufMpdu desc mpdu) =
          if s.lastPnValid && check.cmp (mpduPn desc vdev check mpdu) s.lastPn (index = .ucast)
            vdev.opmode then s
          else ⟨true, mpduPn desc vdev check mpdu, s.out ++ [nbufMpdu desc mpdu]⟩ := if_pos he
      have hpasses := pnPasses_iff index he hlast
      rw [hstep]
      by_cases hreplay : (s.lastPnValid && check.cmp (mpduPn desc vdev check mpdu) s.lastPn
          (index = .ucast) vdev.opmode) = true
      · have hnot : ¬ PnPasses desc vdev index check (if valid then some pn else none) kept mpdu := by
          rw [hpasses, hreplay]
          exact Bool.true_eq_false.mp
        rw [if_pos hreplay, if_neg hnot]
        exact ⟨hout, hlast⟩
      · have hpass := hpasses.2 (Bool.not_eq_true _ ▸ hreplay)
        rw [if_neg hreplay, if_pos hpass]
        dsimp only
        rw [lastAcceptedPn_concat, if_pos he, map_append, ← hout]
        exact ⟨rfl, rfl⟩
    · have hstep : olRxPnCheckMpdu vdev index check s (nbufMpdu desc mpdu) =
          { s with out := s.out ++ [nbufMpdu desc mpdu] } := if_neg he
      have hpass : PnPasses desc vdev index check (if valid then some pn else none) kept mpdu :=
        fun h => absurd h he
      rw [hstep, if_pos hpass]
      dsimp only
      rw [lastAcceptedPn_concat, if_neg he, map_append, ← hout]
      exact ⟨rfl, hlast⟩

end Descriptors

/-- **The filter over descriptors** takes the MPDUs that pass. -/
theorem pn_check_mpdus (desc : AdfNbuf → RxMsdu) (vdev : PnVdev) (peer : PnPeer)
    (tid : Fin olTxrxNumExtTids) {msdu : AdfNbuf} {l : List AdfNbuf}
    (hhost : ¬ (peer.fwPnCheck = true ∨ vdev.opmode = .ibss ∨
      (vdev.rxPn (peer.secType (desc msdu).index)).len = 0)) :
    (olRxPnCheckBase vdev peer tid ((msdu :: l).map desc)).map Prod.snd =
      some ((pnKept desc vdev (desc msdu).index (vdev.rxPn (peer.secType (desc msdu).index))
        (peer.lastPn? tid) (nbufMpdus desc (msdu :: l))).map (nbufMpdu desc)) := by
  rw [not_or, not_or] at hhost
  have hfw : ¬ (peer.fwPnCheck = true ∨ vdev.opmode = .ibss) := fun h => h.elim hhost.1 hhost.2.1
  rw [olRxPnCheckBase, if_neg hfw, map_cons, head?_cons, bind_eq_bind,
    bind_some, if_neg hhost.2.2, ← map_cons, rxMpdus_map]
  exact congrArg some (foldl_checkMpdu _ _ _).1

/-- **The filter.**  When the firmware does not check, the vdev is no IBSS and the key of the first MSDU has packet numbers, the list is checked right; else it is returned as it is. -/
theorem pn_check_right (desc : AdfNbuf → RxMsdu) (vdev : PnVdev) (peer : PnPeer)
    (tid : Fin olTxrxNumExtTids) {heap : NbufHeap} {msdu : AdfNbuf} {l : List AdfNbuf} {fuel : ℕ}
    (h : Threaded heap (some msdu) l) (hfuel : l.length ≤ fuel) :
    ∃ r, olRxPnCheckList desc fuel vdev peer tid heap msdu = some r ∧
      if peer.fwPnCheck = true ∨ vdev.opmode = .ibss ∨
          (vdev.rxPn (peer.secType (desc msdu).index)).len = 0 then
        r = ⟨heap, some msdu, [], peer⟩
      else
        PnCheckRight desc vdev peer tid l (vdev.rxPn (peer.secType (desc msdu).index))
          (pnKept desc vdev (desc msdu).index (vdev.rxPn (peer.secType (desc msdu).index))
            (peer.lastPn? tid) (nbufMpdus desc l)) r := by
  rw [olRxPnCheckList]
  dsimp only
  split
  · exact ⟨_, rfl, rfl⟩
  have hhead := h.head
  have hstart : PnLooping desc vdev (vdev.rxPn (peer.secType (desc msdu).index)) (peer.lastPn? tid)
      ⟨heap, none, none, [], peer.tidsLastPnValid tid, peer.tidsLastPn tid⟩ [] l l :=
    ⟨Chunk.nil, hhead ▸ h, .refl _, rfl⟩
  obtain ⟨s, hrun, hs⟩ := hstart.run (desc msdu).index h.nodup hfuel
  change PnLooping _ _ _ _ s (pnKept ..) [] l at hs
  rw [hhead, hrun]
  refine ⟨_, rfl, ?_, ?_, ?_, fun t ht => ?_, rfl⟩
  · cases htail : s.outListTail with
    | none =>
      have hnil := hs.out.tail_none_iff.1 htail
      rw [hnil]
      exact hs.out.eq_nil_iff.2 hnil
    | some tail =>
      have hlast := hs.out.tail_eq
      rw [htail] at hlast
      have hnodup := hs.perm.nodup_iff.2 h.nodup
      rw [append_nil] at hnodup
      rw [hs.out.head_eq]
      refine (hs.out.linked.update_tail (List.nodup_append.1 hnodup).2.1 hlast.symm).threaded ?_
      intro x hx
      cases hlast.trans hx
      exact update_self ..
  · have hperm := hs.perm
    rwa [append_nil] at hperm
  · have hlast := hs.lastPn
    simp only [PnPeer.lastPn?, update_self]
    exact hlast
  · simp [PnPeer.lastPn?, update_of_ne ht]

/-- A descriptor of an encrypted MPDU of one MSDU, by its packet number. -/
def ccmpDesc (pn : BitVec 64) : RxMsdu := encryptedMsdu false pn

def ccmpPeer (fwPnCheck : Bool) : PnPeer where
  fwPnCheck := fwPnCheck
  secType := fun _ => .aesCcmp
  tidsLastPn := fun _ => ⟨0, 0⟩
  tidsLastPnValid := fun _ => false

theorem pn_check_mpdus_replay :
    (olRxPnCheckBase staVdev (ccmpPeer false) 0 ([1, 2].map fun _ => ccmpDesc 5)).map Prod.snd =
      some ([[1]].map (nbufMpdu fun _ => ccmpDesc 5)) :=
  (pn_check_mpdus (fun _ => ccmpDesc 5) staVdev (ccmpPeer false) 0 (by decide)).trans
    (congrArg some (congrArg _ (by decide +kernel)))

/-- **A peer whose numbers the firmware checks**: a replay stays in the list. -/
theorem fwPnCheck_keepsReplay : ¬ ∀ (desc : AdfNbuf → RxMsdu) (vdev : PnVdev) (peer : PnPeer)
    (tid : Fin olTxrxNumExtTids) (heap : NbufHeap) (msdu : AdfNbuf) (l : List AdfNbuf) (fuel : ℕ),
    Threaded heap (some msdu) l → l.length ≤ fuel →
      ∃ r, olRxPnCheckList desc fuel vdev peer tid heap msdu = some r ∧
        PnCheckRight desc vdev peer tid l (vdev.rxPn (peer.secType (desc msdu).index))
          (pnKept desc vdev (desc msdu).index (vdev.rxPn (peer.secType (desc msdu).index))
            (peer.lastPn? tid) (nbufMpdus desc l)) r := by
  intro h
  obtain ⟨r, hr, hright⟩ := h (fun _ => ccmpDesc 5) staVdev (ccmpPeer true) 0
    (threadAll (fun _ => none) [1, 2]) 1 [1, 2] 2 (by decide) (by decide)
  cases hr
  have hall : Threaded (threadAll (fun _ => none) [1, 2]) (some 1) [1, 2] := by decide
  have hlist := hright.list.unique hall
  revert hlist
  decide +kernel

/-- Of four MPDUs the second is a replay, the third is not encrypted, and the fourth is new. -/
theorem pn_check_right_replay : ∃ r, PnCheckRight
    (fun msdu => if msdu = 3 then { ccmpDesc 0 with encrypted := false }
      else ccmpDesc (if msdu = 4 then 6 else 5)) staVdev (ccmpPeer false) 0 [1, 2, 3, 4] .cmp48
    [[1], [3], [4]] r := by
  have h : Threaded (threadAll (fun _ => none) [1, 2, 3, 4]) (some 1) [1, 2, 3, 4] :=
    threaded_threadAll (by decide)
  obtain ⟨r, -, hright⟩ := @pn_check_right
    (fun msdu => if msdu = 3 then { ccmpDesc 0 with encrypted := false }
      else ccmpDesc (if msdu = 4 then 6 else 5)) staVdev (ccmpPeer false) 0 _ _ _ 4 h (by decide)
  rw [if_neg (by decide)] at hright
  exact ⟨r, hright⟩

end Qcacld.Txrx

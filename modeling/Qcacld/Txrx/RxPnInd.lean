import Mathlib.Data.List.TakeWhile
import Qcacld.Txrx.RxPnList
import Qcacld.Txrx.RxReorder

/-!
# Txrx — RxPnInd

`ol_rx_pn_ind_handler`: the firmware has checked the packet numbers of a range of the reorder window and lists the indices that failed.  The MPDUs at those are freed, the others of the range delivered.

The handler goes on to the next listed index only when it has freed the MPDU at the present one.  A listed index whose slot is empty is never left behind, and the MPDUs at the indices listed after it are delivered (`emptySlot_delivers`); `pn_ind_iff` says that nothing else goes wrong.
-/

namespace Qcacld.Txrx
open Qcacld.Adf Qcacld.Support Function List Option

/-- The window and the locals of `ol_rx_pn_ind_handler`.  `pnIe` is `pn_ie` from `i` on, of which `pn_ie_cnt` entries are left. -/
structure PnIndLoop where
  rx : RxTid
  headMsdu : Option AdfNbuf
  tailMsdu : Option AdfNbuf
  pnIe : List Nat

section Model
variable (fuel : Nat)

/-- The body of the loop.  `ol_rx_err` does nothing for `OL_RX_ERR_PN`. -/
def pnIndSlot (st : PnIndLoop) (seqNum : Nat) : Option PnIndLoop := do
  let elem ← st.rx.slots[seqNum]?
  match elem.head with
  | none => return st
  | some head =>
    if st.pnIe.head? = some seqNum then
      let tail ← elem.tail
      let msdus ← freeMsdus st.rx.heap tail fuel head
      let rx := st.rx.setSlot seqNum emptyElem
      return { st with rx := { rx with freed := rx.freed ++ msdus }, pnIe := st.pnIe.tail }
    else match st.headMsdu with
      | none =>
        return { st with
          rx := st.rx.setSlot seqNum emptyElem, headMsdu := some head, tailMsdu := elem.tail }
      | some _ =>
        let tail ← st.tailMsdu
        let heap := adfNbufSetNext st.rx.heap tail (some head)
        return { st with
          rx := { st.rx.setSlot seqNum emptyElem with heap := heap }, tailMsdu := elem.tail }

/-- Give the list to `rx_opt_proc`, if there is one. -/
def pnIndDeliver (st : PnIndLoop) : Option RxTid :=
  match st.headMsdu with
  | none => some st.rx
  | some head => do
    let tail ← st.tailMsdu
    let heap := adfNbufSetNext st.rx.heap tail none
    let msdus ← walk heap fuel (some head)
    return { st.rx with heap := heap, delivered := st.rx.delivered ++ [msdus] }

/-- What `ol_rx_pn_ind_handler` does to the window of a peer-TID. -/
def pnIndWindow (s : RxTid) (seqNumStart seqNumEnd : Nat) (pnIe : List Nat) : Option RxTid := do
  let winSzMask := s.winSzMask
  let seqNumStart := seqNumStart &&& winSzMask
  let seqNumEnd := seqNumEnd &&& winSzMask
  let st ← pnIndSlot fuel ⟨s, none, none, pnIe⟩ seqNumStart
  let st ← maskLoop (pnIndSlot fuel) winSzMask seqNumEnd (winSzMask + 1) st
    ((seqNumStart + 1) &&& winSzMask)
  pnIndDeliver fuel st

/-- A peer, as far as `ol_rx_pn_ind_handler` uses it. -/
structure PnIndPeer where
  fwPnCheck : Bool
  tids : Fin olTxrxNumExtTids → RxTid

/-- The peers of a pdev; `ocbPeer` is the one `ol_txrx_get_ocb_peer` finds. -/
structure PnIndPdev where
  peers : Nat → PnIndPeer
  peerIdToObj : Nat → Option Nat
  ocbPeer : Option Nat

def PnIndPdev.peer? (pdev : PnIndPdev) (peerId : Nat) : Option Nat :=
  (pdev.peerIdToObj peerId).or pdev.ocbPeer

def olRxPnIndHandler (pdev : PnIndPdev) (peerId tid seqNumStart seqNumEnd : Nat)
    (pnIe : List Nat) : Option PnIndPdev :=
  if htid : tid < olTxrxNumExtTids then
    match pdev.peer? peerId with
    | none => some pdev
    | some peer => do
      let tids := (pdev.peers peer).tids
      let rx ← pnIndWindow fuel (tids ⟨tid, htid⟩) seqNumStart seqNumEnd pnIe
      let peer' := { fwPnCheck := true, tids := update tids ⟨tid, htid⟩ rx }
      return { pdev with peers := update pdev.peers peer peer' }
  else some pdev

end Model

/-! ### The listed indices that are reached -/

section Cursor
variable {c : ℕ → List AdfNbuf} {range listed others pnIe : List ℕ}

/-- The slots whose MPDUs the loop frees, by what the slots of its range hold. -/
def pnDropped (c : ℕ → List AdfNbuf) : List ℕ → List ℕ → List ℕ
  | [], _ => []
  | i :: range, pnIe =>
    if c i ≠ [] ∧ pnIe.head? = some i then i :: pnDropped c range pnIe.tail
    else pnDropped c range pnIe

theorem pnDropped_of_head?_notMem (h : ∀ i ∈ pnIe.head?, i ∉ range) :
    pnDropped c range pnIe = [] := by
  induction range with
  | nil => rfl
  | cons i range ih =>
    have hne : ¬ (c i ≠ [] ∧ pnIe.head? = some i) :=
      fun hi => h i hi.2 mem_cons_self
    rw [pnDropped, if_neg hne]
    exact ih fun j hj hm => h j hj (mem_cons_of_mem _ hm)

/-- **The cursor** gets as far as the listed slots are filled. -/
theorem pnDropped_eq (h : listed.Sublist range) (hd : range.Nodup)
    (hothers : ∀ i ∈ others, i ∉ range) :
    pnDropped c range (listed ++ others) = listed.takeWhile (c · ≠ []) := by
  induction h with
  | slnil => rfl
  | @cons listed range a hsub ih =>
    obtain ⟨ha, hd⟩ := nodup_cons.1 hd
    have hne : ¬ (c a ≠ [] ∧ (listed ++ others).head? = some a) := by
      rintro ⟨-, hhead⟩
      rcases mem_append.1 (mem_of_mem_head? hhead) with hm | hm
      · exact ha (hsub.subset hm)
      · exact hothers a hm mem_cons_self
    rw [pnDropped, if_neg hne]
    exact ih hd fun i hi hm => hothers i hi (mem_cons_of_mem _ hm)
  | @cons_cons listed range a hsub ih =>
    obtain ⟨ha, hd⟩ := nodup_cons.1 hd
    rw [pnDropped, takeWhile_cons]
    by_cases hc : c a = []
    · -- the cursor stays at `a`, which does not come again
      have hstay : pnDropped c range (a :: listed ++ others) = [] := by
        refine pnDropped_of_head?_notMem fun i hi => ?_
        obtain rfl := some.inj hi
        exact ha
      rw [if_neg fun h => h.1 hc, hstay, if_neg (by simp [hc])]
    · rw [if_pos ⟨hc, rfl⟩, if_pos (by simp [hc])]
      exact congrArg (a :: ·) (ih hd fun i hi hm => hothers i hi (mem_cons_of_mem _ hm))

theorem filter_mem_listed (h : listed.Sublist range) (hd : range.Nodup) :
    range.filter (· ∈ listed) = listed := by
  induction h with
  | slnil => rfl
  | @cons listed range a hsub ih =>
    obtain ⟨ha, hd⟩ := nodup_cons.1 hd
    rw [filter_cons_of_neg (by simpa using fun hm => ha (hsub.subset hm)), ih hd]
  | @cons_cons listed range a hsub ih =>
    obtain ⟨ha, hd⟩ := nodup_cons.1 hd
    rw [filter_cons_of_pos (by simp)]
    refine congrArg (a :: ·) ((filter_congr fun j hj => ?_).trans (ih hd))
    have hja : j ≠ a := fun e => ha (e ▸ hj)
    simp [hja]

/-- Past the first empty slot the listed slots are empty. -/
def EmptyFromFirst (c : ℕ → List AdfNbuf) (listed : List ℕ) : Prop :=
  listed.Pairwise fun i j => c i = [] → c j = []

/-- The cursor gets to every MPDU listed if and only if no filled slot comes after an empty one. -/
theorem flatMap_takeWhile_iff :
    (listed.takeWhile (c · ≠ [])).flatMap c = listed.flatMap c ↔ EmptyFromFirst c listed := by
  induction listed with
  | nil => simp [EmptyFromFirst]
  | cons a listed ih =>
    rw [EmptyFromFirst, pairwise_cons, takeWhile_cons, flatMap_cons]
    by_cases hc : c a = []
    · rw [if_neg (by simp [hc]), hc, nil_append, flatMap_nil, eq_comm, flatMap_eq_nil_iff]
      constructor
      · intro hall
        refine ⟨fun j hj _ => hall j hj, ?_⟩
        exact pairwise_of_forall_mem_list fun i _ j hj _ => hall j hj
      · exact fun h j hj => h.1 j hj rfl
    · rw [if_pos (by simp [hc]), flatMap_cons, append_cancel_left_eq, ih]
      exact (and_iff_right fun j _ h => absurd h hc).symm

theorem EmptyFromFirst.eq_nil {i : ℕ} (h : EmptyFromFirst c listed) (hi : i ∈ listed)
    (hnot : i ∉ listed.takeWhile (c · ≠ [])) : c i = [] := by
  induction listed with
  | nil => cases hi
  | cons a listed ih =>
    obtain ⟨hfirst, hrest⟩ := pairwise_cons.1 h
    rw [takeWhile_cons] at hnot
    by_cases hc : c a = []
    · rcases mem_cons.1 hi with rfl | hi
      · exact hc
      · exact hfirst i hi hc
    · rw [if_pos (by simp [hc]), mem_cons, not_or] at hnot
      exact ih hrest ((mem_cons.1 hi).resolve_left hnot.1) hnot.2

end Cursor

/-! ### The loop -/

section Loop
variable {s base rx : RxTid} {c : ℕ → List AdfNbuf} {range visited dropped : List ℕ}
  {tailMsdu : Option AdfNbuf} {st : PnIndLoop} {heap : NbufHeap} {head tail : AdfNbuf}
  {l : List AdfNbuf} {i fuel : ℕ}

theorem freeMsdus_chunk (h : Chunk heap (some head) (some tail) l) (hd : l.Nodup)
    (hfuel : l.length ≤ fuel) : freeMsdus heap tail fuel head = some l := by
  obtain ⟨ms, rfl⟩ := getLast?_eq_some_iff.1 h.tail_eq.symm
  have hhead : (ms ++ [tail]).headD 0 = head := by
    rw [headD_eq_head?_getD, ← h.head_eq, getD_some]
  have htail : tail ∉ ms := fun hm => (nodup_append.1 hd).2.2 tail hm tail (by simp) rfl
  rw [length_append, length_singleton] at hfuel
  have hfree := freeMsdus_spec h.linked htail hfuel
  rwa [hhead] at hfree

theorem pnIndSlot_keep (h : ∀ elem, st.rx.slots[i]? = some elem →
      ¬ (elem.head ≠ none ∧ st.pnIe.head? = some i)) :
    pnIndSlot fuel st i = (reorderFlushSlot (st.rx, st.headMsdu, st.tailMsdu) i).map
      fun (rx, headMsdu, tailMsdu) => ⟨rx, headMsdu, tailMsdu, st.pnIe⟩ := by
  cases he : st.rx.slots[i]? with
  | none => simp only [pnIndSlot, reorderFlushSlot, he]; rfl
  | some elem =>
    cases hhead : elem.head with
    | none => simp [pnIndSlot, reorderFlushSlot, he, hhead]
    | some head =>
      have hnot : st.pnIe.head? ≠ some i := by
        intro hi
        exact h elem he ⟨by rw [hhead]; exact some_ne_none head, hi⟩
      obtain ⟨rx, headMsdu, tailMsdu, pnIe⟩ := st
      cases headMsdu <;> cases tailMsdu <;>
        simp [pnIndSlot, reorderFlushSlot, he, hhead, hnot]

theorem flatMap_clearRange :
    visited.flatMap (clearRange c dropped) = (visited.filter (· ∉ dropped)).flatMap c := by
  induction visited with
  | nil => rfl
  | cons i visited ih =>
    rw [flatMap_cons, ih, filter_cons, clearRange]
    by_cases hi : i ∈ dropped
    · rw [if_pos hi, if_neg (by simp [hi]), nil_append]
    · rw [if_neg hi, if_pos (by simp [hi]), flatMap_cons]

theorem flatMap_clearRange_concat (c : ℕ → List AdfNbuf) (dropped : List ℕ) (hi : i ∉ visited) :
    (visited ++ [i]).flatMap (clearRange c (dropped ++ [i])) =
      visited.flatMap (clearRange c dropped) := by
  have hlast : clearRange c (dropped ++ [i]) i = [] := if_pos (by simp)
  rw [flatMap_append, flatMap_singleton, hlast, append_nil]
  refine flatMap_congr fun j hj => ?_
  have hji : j ≠ i := fun e => hi (e ▸ hj)
  simp [clearRange, hji]

/-- **On its way**, the loop has freed the MPDUs of some slots, and gathered the others from what that left, as a flush would. -/
structure PnInding (s : RxTid) (c : ℕ → List AdfNbuf) (visited dropped : List ℕ) (base : RxTid)
    (st : PnIndLoop) : Prop where
  emptied : RangeEmptied s base c dropped
  delivered : base.delivered = s.delivered
  freed : base.freed = s.freed ++ dropped.flatMap c
  subset : dropped ⊆ visited
  gathered : Gathered base st.rx (clearRange c dropped) visited st.tailMsdu
  head : st.headMsdu = (visited.flatMap (clearRange c dropped)).head?

theorem PnInding.refl (s : RxTid) (c : ℕ → List AdfNbuf) (pnIe : List ℕ) :
    PnInding s c [] [] s ⟨s, none, none, pnIe⟩ where
  emptied := .refl s c
  delivered := rfl
  freed := (append_nil _).symm
  subset := nil_subset _
  gathered := .refl s _
  head := rfl

/-- What the slots hold once those of `dropped` have been emptied. -/
theorem PnInding.holds (h : PnInding s c visited dropped base st) (hs : Holds s c)
    (hv : ∀ j ∈ visited, j < s.winSzMask + 1) : Holds base (clearRange c dropped) :=
  h.emptied.holds hs fun j hj => hv j (h.subset hj)

theorem Gathered.clearBoth {c' : ℕ → List AdfNbuf} (h : Gathered base rx c visited tailMsdu)
    (msdus : List AdfNbuf) (hi : i < rx.slots.length)
    (hflat : (visited ++ [i]).flatMap c' = visited.flatMap c) :
    Gathered { base.setSlot i emptyElem with freed := base.freed ++ msdus }
      { rx.setSlot i emptyElem with freed := rx.freed ++ msdus } c' (visited ++ [i]) tailMsdu := by
  have hbase (j : ℕ) : ({ base.setSlot i emptyElem with freed := base.freed ++ msdus } : RxTid).slots[j]? =
      (base.slots.set i emptyElem)[j]? := by
    rw [← slots_setSlot]
    rfl
  have hrx (j : ℕ) : ({ rx.setSlot i emptyElem with freed := rx.freed ++ msdus } : RxTid).slots[j]? =
      (rx.slots.set i emptyElem)[j]? := by
    rw [← slots_setSlot]
    rfl
  refine { h with elsewhere := ?_, length_eq := ?_, emptied := ?_, others := ?_, heap := ?_,
                  chunk := ?_, freed := ?_ }
  · intro a ha
    change a ≠ base.array at ha
    change (rx.setSlot i emptyElem).elems a = (base.setSlot i emptyElem).elems a
    rw [elems_setSlot_of_ne ha, elems_setSlot_of_ne (h.array ▸ ha), h.elsewhere a ha]
  · change (rx.setSlot i emptyElem).slots.length = (base.setSlot i emptyElem).slots.length
    rw [slots_setSlot, slots_setSlot, length_set, length_set, h.length_eq]
  · intro j hj
    rw [hrx]
    by_cases hij : i = j
    · subst hij
      exact getElem?_set_self hi
    · rw [getElem?_set_ne hij]
      refine h.emptied j ((mem_append.1 hj).resolve_right fun hm => hij ?_)
      exact (mem_singleton.1 hm).symm
  · intro j hj
    have hij : i ≠ j := fun e => hj (by simp [e])
    rw [hrx, hbase, getElem?_set_ne hij, getElem?_set_ne hij]
    exact h.others j fun hm => hj (mem_append_left _ hm)
  · intro x hx
    rw [hflat] at hx
    exact h.heap x hx
  · rw [hflat]
    exact h.chunk
  · exact congrArg (· ++ msdus) h.freed

/-- **One slot.** -/
theorem PnInding.step (h : PnInding s c visited dropped base st) (hs : Holds s c)
    (hv : ∀ j ∈ visited, j < s.winSzMask + 1) (hi : i < s.winSzMask + 1)
    (hd : (visited ++ [i]).Nodup) (hfuel : (c i).length ≤ fuel) :
    ∃ st' base', pnIndSlot fuel st i = some st' ∧
      if c i ≠ [] ∧ st.pnIe.head? = some i then
        st'.pnIe = st.pnIe.tail ∧ PnInding s c (visited ++ [i]) (dropped ++ [i]) base' st'
      else st'.pnIe = st.pnIe ∧ PnInding s c (visited ++ [i]) dropped base' st' := by
  have hiv : i ∉ visited := fun hm => (nodup_append.1 hd).2.2 i hm i (by simp) rfl
  have hid : i ∉ dropped := fun hm => hiv (h.subset hm)
  have hbase := h.holds hs hv
  have hmask := h.emptied.winSzMask
  rw [← hmask] at hv hi
  obtain ⟨elem, he, hce⟩ := h.gathered.slot hbase hv hi hiv
  rw [clearRange, if_neg hid] at hce
  split
  · next hdrop =>
    obtain ⟨hci, hhead⟩ := hdrop
    obtain ⟨head, hh⟩ := ne_none_iff_exists'.1 (hce.eq_nil_iff.not.2 hci)
    obtain ⟨tail, ht⟩ := ne_none_iff_exists'.1 (hce.tail_none_iff.not.2 hci)
    have hnodup : (c i).Nodup := hs.apart.nodup i (hmask ▸ hi)
    have hfree : freeMsdus st.rx.heap tail fuel head = some (c i) :=
      freeMsdus_chunk (hh ▸ ht ▸ hce) hnodup hfuel
    have hflat := flatMap_clearRange_concat c dropped hiv
    refine ⟨{ st with rx := { st.rx.setSlot i emptyElem with freed := st.rx.freed ++ c i },
                      pnIe := st.pnIe.tail },
      { base.setSlot i emptyElem with freed := base.freed ++ c i }, ?_, rfl, ?_⟩
    · simp only [pnIndSlot, he, hh, ht, hhead, hfree, bind_eq_bind, bind_some, if_true]
      rfl
    · have hlt : i < base.slots.length := by
        rw [hbase.length_eq]
        exact hi
      have hlt' : i < st.rx.slots.length := (List.getElem?_eq_some_iff.1 he).1
      refine ⟨h.emptied.clearSlot hlt rfl fun _ _ => rfl, h.delivered, ?_, ?_,
        h.gathered.clearBoth (c i) hlt' hflat, ?_⟩
      · change base.freed ++ c i = _
        rw [h.freed, append_assoc, flatMap_append, flatMap_singleton]
      · exact append_subset.2 ⟨fun j hj => mem_append_left _ (h.subset hj), by simp⟩
      · change st.headMsdu = _
        rw [h.head, hflat]
  · next hkeep =>
    obtain ⟨rx, tailMsdu, hg, -, hflush⟩ := gathered_step none hbase h.gathered hv hi hd
    rw [← h.head] at hflush
    refine ⟨⟨rx, ((visited ++ [i]).flatMap (clearRange c dropped)).head?, tailMsdu, st.pnIe⟩, base,
      ?_, rfl, h.emptied, h.delivered, h.freed, ?_, hg, rfl⟩
    · rw [pnIndSlot_keep, hflush, map_some]
      intro elem' he' hdrop
      obtain rfl := some.inj (he.symm.trans he')
      exact hkeep ⟨hce.eq_nil_iff.not.1 hdrop.1, hdrop.2⟩
    · exact fun j hj => mem_append_left _ (h.subset hj)

/-- **The loop.** -/
theorem pnInd_fold (pnIe : List ℕ) (hs : Holds s c) (hd : range.Nodup)
    (hr : ∀ j ∈ range, j < s.winSzMask + 1) (hfuel : ∀ j ∈ range, (c j).length ≤ fuel) :
    ∃ st, range.foldlM (pnIndSlot fuel) ⟨s, none, none, pnIe⟩ = some st ∧
      ∃ base, PnInding s c range (pnDropped c range pnIe) base st := by
  obtain ⟨st, hfold, dropped, base, h, hdropped⟩ : ∃ st : PnIndLoop,
      range.foldlM (pnIndSlot fuel) ⟨s, none, none, pnIe⟩ = some st ∧
        ∃ dropped base, PnInding s c range dropped base st ∧
          dropped ++ pnDropped c (range.drop range.length) st.pnIe = pnDropped c range pnIe := by
    refine foldlM_rule (fun pre (st : PnIndLoop) => ∃ dropped base,
      PnInding s c pre dropped base st ∧
        dropped ++ pnDropped c (range.drop pre.length) st.pnIe = pnDropped c range pnIe) ?_
      ⟨[], s, .refl s c pnIe, rfl⟩
    rintro pre i post st rfl ⟨dropped, base, h, hdropped⟩
    have hsub (j : ℕ) (hj : j ∈ pre ++ [i]) : j ∈ pre ++ i :: post := by
      rw [append_cons]
      exact mem_append_left _ hj
    have hnd : (pre ++ [i]).Nodup := by
      rw [append_cons] at hd
      exact (nodup_append.1 hd).1
    have hi : i ∈ pre ++ i :: post := hsub i (by simp)
    obtain ⟨st', base', hstep, hnext⟩ := h.step hs (fun j hj => hr j (hsub j (by simp [hj])))
      (hr i hi) hnd (hfuel i hi)
    refine ⟨st', hstep, ?_⟩
    have hrest : (pre ++ i :: post).drop (pre ++ [i]).length = post := by
      rw [append_cons pre i post]
      exact drop_left
    rw [drop_left, pnDropped] at hdropped
    rw [hrest]
    split at hnext
    · next hdrop =>
      obtain ⟨hie, hnext⟩ := hnext
      refine ⟨dropped ++ [i], base', hnext, ?_⟩
      rw [if_pos hdrop] at hdropped
      rw [hie, append_assoc]
      exact hdropped
    · next hkeep =>
      obtain ⟨hie, hnext⟩ := hnext
      refine ⟨dropped, base', hnext, ?_⟩
      rw [if_neg hkeep] at hdropped
      rw [hie]
      exact hdropped
  rw [drop_length, pnDropped, append_nil] at hdropped
  exact ⟨st, hfold, base, hdropped ▸ h⟩

end Loop

/-! ### The handler -/

/-- From `s` to `s'` the slots of the range have been emptied, the MSDUs of those of `dropped` freed, and the MSDUs of the others delivered in one list, in circular order. -/
structure PnIndDone (s s' : RxTid) (c : ℕ → List AdfNbuf) (range dropped : List ℕ) : Prop
    extends RangeEmptied s s' c range where
  delivered : s'.delivered = s.delivered ++ callsFor ((range.filter (· ∉ dropped)).flatMap c)
  freed : s'.freed = s.freed ++ dropped.flatMap c

section Handler
variable {s base : RxTid} {c : ℕ → List AdfNbuf} {range dropped pnIe : List ℕ} {st : PnIndLoop}
  {fuel : ℕ}

theorem RangeEmptied.widen {s' : RxTid} (h : RangeEmptied s base c dropped)
    (h' : RangeEmptied base s' (clearRange c dropped) range) (hsub : dropped ⊆ range) :
    RangeEmptied s s' c range where
  winSz := h'.winSz.trans h.winSz
  winSzMask := h'.winSzMask.trans h.winSzMask
  array := h'.array.trans h.array
  arrays := h'.arrays.trans h.arrays
  arraysFreed := h'.arraysFreed.trans h.arraysFreed
  elsewhere a ha := (h'.elsewhere a (h.array ▸ ha)).trans (h.elsewhere a ha)
  length_eq := h'.length_eq.trans h.length_eq
  emptied := h'.emptied
  others i hi := (h'.others i hi).trans (h.others i fun hm => hi (hsub hm))
  heap x hx := by
    have hbase : x ∉ dropped.flatMap c := by
      intro hm
      obtain ⟨i, hi, hxi⟩ := mem_flatMap.1 hm
      exact hx (mem_flatMap.2 ⟨i, hsub hi, hxi⟩)
    refine (h'.heap x fun hm => hx ?_).trans (h.heap x hbase)
    rw [flatMap_clearRange] at hm
    obtain ⟨i, hi, hxi⟩ := mem_flatMap.1 hm
    exact mem_flatMap.2 ⟨i, mem_of_mem_filter hi, hxi⟩

theorem PnInding.deliver (h : PnInding s c range dropped base st) (hs : Holds s c)
    (hd : range.Nodup) (hr : ∀ j ∈ range, j < s.winSzMask + 1)
    (hfuel : (range.flatMap c).length ≤ fuel) :
    ∃ s', pnIndDeliver fuel st = some s' ∧ PnIndDone s s' c range dropped := by
  have hnodup := (h.holds hs hr).apart.flatMap_nodup hd (h.emptied.winSzMask ▸ hr)
  have hfuel' : (range.flatMap (clearRange c dropped)).length ≤ fuel := by
    refine le_trans ?_ hfuel
    rw [flatMap_clearRange]
    exact (filter_sublist.flatMap c).length_le
  have hg := h.gathered
  have hchunk := hg.chunk
  have hhead := h.head
  have hemptied := h.emptied.widen hg.toRangeEmptied h.subset
  generalize hmsdus : range.flatMap (clearRange c dropped) = msdus at hnodup hfuel' hchunk hhead
  rw [flatMap_clearRange] at hmsdus
  cases hh : st.headMsdu with
  | none =>
    obtain rfl : msdus = [] := head?_eq_none_iff.1 (hhead.symm.trans hh)
    refine ⟨st.rx, by rw [pnIndDeliver, hh], hemptied, ?_, ?_⟩
    · rw [hmsdus, callsFor, if_pos rfl, append_nil, hg.delivered, h.delivered]
    · rw [hg.freed, h.freed]
  | some head =>
    rw [hh] at hhead
    have hne : msdus ≠ [] := by
      rintro rfl
      cases hhead
    obtain ⟨tail, ht⟩ := ne_none_iff_exists'.1 (hchunk.tail_none_iff.not.2 hne)
    rw [ht, ← hhead] at hchunk
    have hwalk : walk (adfNbufSetNext st.rx.heap tail none) fuel (some head) = some msdus :=
      hchunk.walk_update_tail hnodup hfuel'
    have htail : tail ∈ msdus := mem_of_mem_getLast? hchunk.tail_eq.symm
    refine ⟨{ st.rx with heap := adfNbufSetNext st.rx.heap tail none,
                         delivered := st.rx.delivered ++ [msdus] }, ?_,
      { hemptied with heap := fun x hx => ?_ }, ?_, hg.freed.trans h.freed⟩
    · simp only [pnIndDeliver, hh, ht, bind_eq_bind, bind_some, hwalk]
      rfl
    · refine (adfNbufSetNext_of_ne ?_).trans (hemptied.heap x hx)
      rintro rfl
      rw [← hmsdus] at htail
      exact hx ((filter_sublist.flatMap c).subset htail)
    · rw [hmsdus, callsFor, if_neg hne, ← h.delivered, ← hg.delivered]

/-- **What the handler does to the window**: it frees the MPDUs the cursor gets to. -/
theorem pnIndWindow_spec (seqNumStart seqNumEnd : ℕ) (pnIe : List ℕ) (hs : Holds s c)
    (hfuel : ((List.range (s.winSzMask + 1)).flatMap c).length ≤ fuel) :
    ∃ s', pnIndWindow fuel s seqNumStart seqNumEnd pnIe = some s' ∧
      PnIndDone s s' c (ringRange (s.winSzMask + 1) seqNumStart seqNumEnd)
        (pnDropped c (ringRange (s.winSzMask + 1) seqNumStart seqNumEnd) pnIe) := by
  obtain ⟨k, hk⟩ := hs.pow
  obtain ⟨hd, hr⟩ := ringRange_window s seqNumStart seqNumEnd
  have hslot : ∀ j ∈ ringRange (s.winSzMask + 1) seqNumStart seqNumEnd, (c j).length ≤ fuel := by
    intro j hj
    refine le_trans ?_ hfuel
    have hsub : [j].Sublist (List.range (s.winSzMask + 1)) :=
      singleton_sublist.2 (mem_range.2 (hr j hj))
    have hle := (hsub.flatMap c).length_le
    rwa [flatMap_singleton] at hle
  obtain ⟨st, hfold, base, h⟩ := pnInd_fold pnIe hs hd hr hslot
  obtain ⟨s', hs', hdone⟩ := h.deliver hs hd hr ((length_flatMap_range_le hs).trans hfuel)
  refine ⟨s', ?_, hdone⟩
  rw [← bind_maskLoop_eq hk] at hfold
  simp only [pnIndWindow, and_mask hk, bind_eq_bind]
  rw [← bind_assoc, hfold, bind_some, hs']

end Handler

/-- **An indication that is honoured**: the MPDUs at the listed indices of the range are freed, the others of the range delivered, and nothing else of any peer changes but that its packet numbers are checked by the firmware. -/
structure PnIndRight (pdev pdev' : PnIndPdev) (peer : ℕ) (tid : Fin olTxrxNumExtTids)
    (c : ℕ → List AdfNbuf) (range pnIe : List ℕ) : Prop where
  window : PnIndDone ((pdev.peers peer).tids tid) ((pdev'.peers peer).tids tid) c range
    (range.filter (· ∈ pnIe))
  otherTids : ∀ t ≠ tid, (pdev'.peers peer).tids t = (pdev.peers peer).tids t
  otherPeers : ∀ p ≠ peer, pdev'.peers p = pdev.peers p
  fwPnCheck : (pdev'.peers peer).fwPnCheck = true

section Right
variable {s s' : RxTid} {c : ℕ → List AdfNbuf} {range listed others : List ℕ}

theorem PnIndDone.dropped_congr {dropped dropped' : List ℕ} (h : PnIndDone s s' c range dropped)
    (hfreed : dropped.flatMap c = dropped'.flatMap c)
    (hmem : ∀ i ∈ range, c i ≠ [] → (i ∈ dropped ↔ i ∈ dropped')) :
    PnIndDone s s' c range dropped' := by
  refine ⟨h.toRangeEmptied, ?_, hfreed ▸ h.freed⟩
  rw [h.delivered, ← flatMap_clearRange, ← flatMap_clearRange]
  refine congrArg (s.delivered ++ callsFor ·) (flatMap_congr fun i hi => ?_)
  by_cases hc : c i = []
  · simp [clearRange, hc]
  · rw [clearRange, clearRange]
    simp [hmem i hi hc]

theorem pnIndDone_iff (h : PnIndDone s s' c range (pnDropped c range (listed ++ others)))
    (hsub : listed.Sublist range) (hd : range.Nodup) (hothers : ∀ i ∈ others, i ∉ range) :
    PnIndDone s s' c range (range.filter (· ∈ listed ++ others)) ↔ EmptyFromFirst c listed := by
  have hlisted : range.filter (· ∈ listed ++ others) = listed := by
    refine (filter_congr fun i hi => ?_).trans (filter_mem_listed hsub hd)
    have hi : i ∉ others := fun hm => hothers i hm hi
    simp [hi]
  rw [pnDropped_eq hsub hd hothers] at h
  rw [hlisted, ← flatMap_takeWhile_iff]
  constructor
  · intro h'
    exact append_cancel_left (h.freed.symm.trans h'.freed)
  · intro hfreed
    refine h.dropped_congr hfreed fun i _ hc => ⟨fun hi => (takeWhile_sublist _).subset hi, ?_⟩
    intro hi
    by_contra hnot
    exact hc ((flatMap_takeWhile_iff.1 hfreed).eq_nil hi hnot)

end Right

/-- **The verdicts of the firmware are honoured** if and only if no filled slot is listed after an empty one. -/
theorem pn_ind_iff (pdev : PnIndPdev) (peerId seqNumStart seqNumEnd : ℕ)
    (tid : Fin olTxrxNumExtTids) {pnIe : List ℕ} {peer fuel n : ℕ} {c : ℕ → List AdfNbuf}
    (hpeer : pdev.peer? peerId = some peer) (hs : Holds ((pdev.peers peer).tids tid) c)
    (hn : n = ((pdev.peers peer).tids tid).winSzMask + 1)
    (hfuel : ((List.range n).flatMap c).length ≤ fuel)
    (hpnIe : pnIe.Sublist (ringRange n seqNumStart seqNumStart)) :
    (∃ pdev', olRxPnIndHandler fuel pdev peerId tid seqNumStart seqNumEnd pnIe = some pdev' ∧
        PnIndRight pdev pdev' peer tid c (ringRange n seqNumStart seqNumEnd) pnIe) ↔
      EmptyFromFirst c (pnIe.filter (· ∈ ringRange n seqNumStart seqNumEnd)) := by
  subst hn
  obtain ⟨hd, -⟩ := ringRange_window ((pdev.peers peer).tids tid) seqNumStart seqNumEnd
  obtain ⟨s', hs', hdone⟩ := pnIndWindow_spec seqNumStart seqNumEnd pnIe hs hfuel
  -- the whole window, read from `seq_num_start` on, has the range first
  obtain ⟨outside, hwindow⟩ := ringRange_prefix
    (Nat.succ_pos ((pdev.peers peer).tids tid).winSzMask) seqNumStart seqNumEnd
  have hwhole := (ringRange_window ((pdev.peers peer).tids tid) seqNumStart seqNumStart).1
  rw [hwindow] at hpnIe hwhole
  obtain ⟨listed, others, rfl, hlisted, hothers⟩ := sublist_append_iff.1 hpnIe
  have hout : ∀ i ∈ others, i ∉ ringRange (((pdev.peers peer).tids tid).winSzMask + 1)
      seqNumStart seqNumEnd :=
    fun i hi hm => (List.nodup_append.1 hwhole).2.2 i hm i (hothers.subset hi) rfl
  have hfilter : (listed ++ others).filter (· ∈ ringRange
      (((pdev.peers peer).tids tid).winSzMask + 1) seqNumStart seqNumEnd) = listed := by
    rw [filter_append, filter_eq_self.2 (by simpa using fun i hi => hlisted.subset hi),
      filter_eq_nil_iff.2 (by simpa using hout), append_nil]
  let peer' : PnIndPeer := ⟨true, Function.update (pdev.peers peer).tids tid s'⟩
  have hrun : olRxPnIndHandler fuel pdev peerId tid seqNumStart seqNumEnd (listed ++ others) =
      some { pdev with peers := Function.update pdev.peers peer peer' } := by
    simp [olRxPnIndHandler, hpeer, hs', peer']
  rw [hfilter, hrun, ← pnIndDone_iff hdone hlisted hd hout]
  constructor
  · rintro ⟨pdev', hpdev', hright⟩
    obtain rfl := some.inj hpdev'
    have hwin := hright.window
    simp only [update_self, peer'] at hwin
    exact hwin
  · intro hwin
    refine ⟨_, rfl, ?_, fun t ht => ?_, fun p hp => update_of_ne hp _ _, ?_⟩
    · simp only [update_self, peer']
      exact hwin
    · simp only [update_self, peer']
      exact update_of_ne ht _ _
    · simp [peer']

/-- One peer, whose TID 0 has the window of four slots with MSDUs 5 and 6 in slot 1 and MSDU 7 in slot 3. -/
def holePdev : PnIndPdev where
  peers _ := ⟨false, fun _ => holeWindow⟩
  peerIdToObj id := if id = 0 then some 0 else none
  ocbPeer := none

/-- **An empty slot that is listed**: listed before slot 1, slot 0 keeps the MSDUs of slot 1 from being freed. -/
theorem emptySlot_delivers : ¬ ∀ (pdev : PnIndPdev) (peerId seqNumStart seqNumEnd : ℕ)
    (tid : Fin olTxrxNumExtTids) (pnIe : List ℕ) (peer fuel : ℕ) (c : ℕ → List AdfNbuf),
    pdev.peer? peerId = some peer → Holds ((pdev.peers peer).tids tid) c →
      let n := ((pdev.peers peer).tids tid).winSzMask + 1
      ((List.range n).flatMap c).length ≤ fuel →
      pnIe.Sublist (ringRange n seqNumStart seqNumStart) →
        ∃ pdev', olRxPnIndHandler fuel pdev peerId tid seqNumStart seqNumEnd pnIe = some pdev' ∧
          PnIndRight pdev pdev' peer tid c (ringRange n seqNumStart seqNumEnd) pnIe := by
  intro h
  obtain ⟨pdev', hpdev', hright⟩ := h holePdev 0 0 0 0 [0, 1] 0 3 holeContents rfl
    holeWindow_holds (by decide) (by decide)
  have hrun : (olRxPnIndHandler 3 holePdev 0 0 0 0 [0, 1]).map
      (fun pdev => ((pdev.peers 0).tids 0).freed) = some [] := by
    decide +kernel
  rw [Fin.val_zero] at hpdev'
  rw [hpdev', map_some, hright.window.freed] at hrun
  exact absurd hrun (by decide)

theorem pn_ind_iff_wraps : ∃ pdev',
    olRxPnIndHandler 3 holePdev 0 0 2 2 [3, 1] = some pdev' ∧
      PnIndRight holePdev pdev' 0 0 holeContents (ringRange 4 2 2) [3, 1] :=
  (pn_ind_iff holePdev 0 2 2 0 rfl holeWindow_holds rfl (by decide) (by decide)).2 (by
    rw [EmptyFromFirst]
    decide)

end Qcacld.Txrx

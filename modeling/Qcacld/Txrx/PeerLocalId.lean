import Qcacld.Txrx.PeerAttach

/-!
# Txrx — PeerLocalId

The local ids of the peers: `local_peer_ids` with its free list linked through an array, and that it is the list of free ids the attach calls work with.

`local_ids_right` says that in every run of attaches and detaches an id is free or belongs to one attached peer, that the array holds the free ids and the map leads from the others to their peers.
-/

namespace Qcacld.Txrx
open Qcacld.Support Function List Option Nat TxrxPeer

/-! ### The pool -/

def olTxrxNumLocalPeerIds : Nat := 34

/-- `local_peer_ids`: its free list, linked through `pool` and ended by an entry that leads to itself, and the peers of the others. -/
structure LocalPeerIds where
  freelist : Nat
  pool : Nat → Nat
  map : Nat → Option Nat

def olTxrxLocalPeerIdPoolInit : LocalPeerIds where
  freelist := 0
  pool i := if i < olTxrxNumLocalPeerIds then i + 1 else i
  map _ := none

/-- `OL_TXRX_LOCAL_PEER_ID_ALLOC`: the id of the peer. -/
def olTxrxLocalPeerIdAlloc (ids : LocalPeerIds) (peer : Nat) : Option Nat × LocalPeerIds :=
  let i := ids.freelist
  if ids.pool i = i then (none, ids)
  else (some i, { ids with freelist := ids.pool i, map := update ids.map i (some peer) })

def olTxrxLocalPeerIdFree (ids : LocalPeerIds) : Option Nat → LocalPeerIds
  | none => ids
  | some i =>
    if i ≥ olTxrxNumLocalPeerIds then ids
    else { freelist := i, pool := update ids.pool i ids.freelist, map := update ids.map i none }

def olTxrxPeerFindByLocalId (ids : LocalPeerIds) (localPeerId : Nat) : Option Nat :=
  if localPeerId ≥ olTxrxNumLocalPeerIds then none else ids.map localPeerId

/-- From an entry on, the free ids are those of a list. -/
def FreeFrom (pool : Nat → Nat) : Nat → List Nat → Prop
  | i, [] => i = olTxrxNumLocalPeerIds ∧ pool i = i
  | i, a :: l => i = a ∧ a < olTxrxNumLocalPeerIds ∧ pool a ≠ a ∧ FreeFrom pool (pool a) l

def LocalPeerIds.Lists (ids : LocalPeerIds) (l : List Nat) : Prop := FreeFrom ids.pool ids.freelist l

section LocalIds
variable {ids : LocalPeerIds} {pool : Nat → Nat} {l : List Nat} {i j : Nat}

theorem FreeFrom.update (h : FreeFrom pool i l) (hj : j < olTxrxNumLocalPeerIds) (hl : j ∉ l)
    (v : Nat) : FreeFrom (update pool j v) i l := by
  induction l generalizing i with
  | nil =>
    obtain ⟨rfl, h⟩ := h
    exact ⟨rfl, (update_of_ne hj.ne' ..).trans h⟩
  | cons a l ih =>
    obtain ⟨rfl, hlt, hne, h⟩ := h
    rw [mem_cons, not_or] at hl
    refine ⟨rfl, hlt, ?_, ?_⟩
    · rw [update_of_ne (Ne.symm hl.1)]
      exact hne
    · rw [update_of_ne (Ne.symm hl.1)]
      exact ih h hl.2

theorem lists_poolInit : olTxrxLocalPeerIdPoolInit.Lists (range olTxrxNumLocalPeerIds) := by
  have hfrom : ∀ n k, k + n = olTxrxNumLocalPeerIds →
      FreeFrom olTxrxLocalPeerIdPoolInit.pool k (range' k n) := by
    intro n
    induction n with
    | zero =>
      intro k hk
      obtain rfl : k = olTxrxNumLocalPeerIds := hk
      exact ⟨rfl, by simp [olTxrxLocalPeerIdPoolInit]⟩
    | succ n ih =>
      intro k hk
      have hlt : k < olTxrxNumLocalPeerIds := hk ▸ Nat.lt_add_of_pos_right (Nat.succ_pos n)
      have hnext : olTxrxLocalPeerIdPoolInit.pool k = k + 1 := if_pos hlt
      refine ⟨rfl, hlt, hnext ▸ succ_ne_self k, ?_⟩
      rw [hnext]
      exact ih (k + 1) (by omega)
  rw [range_eq_range']
  exact hfrom _ 0 (zero_add _)

/-- **An id is allocated**: the first of the list. -/
theorem LocalPeerIds.Lists.alloc (h : ids.Lists l) (peer : Nat) :
    (olTxrxLocalPeerIdAlloc ids peer).1 = l.head? ∧
      (olTxrxLocalPeerIdAlloc ids peer).2.Lists l.tail ∧
      (olTxrxLocalPeerIdAlloc ids peer).2.map =
        l.head?.elim ids.map fun a => update ids.map a (some peer) := by
  cases l with
  | nil =>
    rw [olTxrxLocalPeerIdAlloc, if_pos h.2]
    exact ⟨rfl, h, rfl⟩
  | cons a l =>
    obtain ⟨ha, -, hne, hrest⟩ := h
    rw [olTxrxLocalPeerIdAlloc, ha, if_neg hne]
    exact ⟨rfl, hrest, rfl⟩

/-- **An id is freed**: it is the next one to be allocated. -/
theorem LocalPeerIds.Lists.free (h : ids.Lists l) (hi : i < olTxrxNumLocalPeerIds) (hl : i ∉ l) :
    (olTxrxLocalPeerIdFree ids (some i)).Lists (i :: l) := by
  rw [olTxrxLocalPeerIdFree, if_neg hi.not_ge]
  refine ⟨rfl, hi, ?_, ?_⟩
  · dsimp only
    rw [update_self]
    cases l with
    | nil => exact h.1 ▸ hi.ne'
    | cons a l => exact h.1 ▸ (ne_of_not_mem_cons hl).symm
  · dsimp only
    rw [update_self]
    exact h.update hi hl ids.freelist

/-! ### Runs -/

/-- The peer is attached, and has the id. -/
def HasId (s : PeerPdev) (peer i : Nat) : Prop :=
  peer < s.created ∧ (s.peers peer).valid = true ∧ (s.peers peer).localId = some i

/-- The ids are free or belong to one peer that is attached. -/
structure LocalIdsRight (s : PeerPdev) : Prop where
  free : s.localPeerIds.Nodup
  lt : ∀ i ∈ s.localPeerIds, i < olTxrxNumLocalPeerIds
  used : ∀ p i, HasId s p i → i < olTxrxNumLocalPeerIds ∧ i ∉ s.localPeerIds
  alone : ∀ p q i, HasId s p i → HasId s q i → p = q

/-- What `ol_txrx_peer_attach` and `ol_txrx_peer_detach` do with the ids. -/
def attachIds (s : PeerPdev) (ids : LocalPeerIds) : AttachEvent → LocalPeerIds
  | .attachInsert _ _ true => (olTxrxLocalPeerIdAlloc ids s.created).2
  | .detach peer => olTxrxLocalPeerIdFree ids (s.peers peer).localId
  | _ => ids

/-- The attach calls beside the pool. -/
def localIdMachine (idxBits : Nat) : Machine (AttachWorld × LocalPeerIds) AttachEvent where
  init s := (attachMachine idxBits).init s.1 ∧ s.2 = olTxrxLocalPeerIdPoolInit
  step s e := (attachStep idxBits s.1 e).map fun t => (t, attachIds s.1.pdev s.2 e)

/-- The pool lists the ids that are free, and the others lead to their peers. -/
structure LocalIdPool (s : PeerPdev) (ids : LocalPeerIds) : Prop where
  lists : ids.Lists s.localPeerIds
  map : ∀ i peer, ids.map i = some peer ↔ HasId s peer i

structure SameIds (s s' : PeerPdev) : Prop where
  created : s'.created = s.created
  free : s'.localPeerIds = s.localPeerIds
  valid : ∀ p, (s'.peers p).valid = (s.peers p).valid
  localId : ∀ p, (s'.peers p).localId = (s.peers p).localId

section Steps
variable {idxBits : Nat} {s pdev : PeerPdev} {peer : Nat}

theorem SameIds.hasId_iff (h : SameIds s pdev) {i : Nat} : HasId pdev peer i ↔ HasId s peer i := by
  rw [HasId, HasId, h.created, h.valid, h.localId]

theorem LocalIdsRight.congr (h : LocalIdsRight s) (hs : SameIds s pdev) : LocalIdsRight pdev where
  free := hs.free ▸ h.free
  lt := hs.free ▸ h.lt
  used p i hp := hs.free ▸ h.used p i (hs.hasId_iff.1 hp)
  alone p q i hp hq := h.alone p q i (hs.hasId_iff.1 hp) (hs.hasId_iff.1 hq)

theorem sameIds_unref : SameIds s (olTxrxPeerUnref idxBits s peer) := by
  have hdec : SameIds s (s.setPeer peer decRefCnt) :=
    ⟨rfl, rfl, setPeer_proj valid rfl, setPeer_proj localId rfl⟩
  rw [olTxrxPeerUnref]
  dsimp only
  split
  · exact ⟨rfl, rfl, fun _ => rfl, fun _ => rfl⟩
  · split
    · refine ⟨rfl, rfl, fun p => ?_, fun p => ?_⟩
      · rw [peerDelete_peers]
        exact (setPeer_proj valid rfl p).trans (hdec.valid p)
      · rw [peerDelete_peers]
        exact (setPeer_proj localId rfl p).trans (hdec.localId p)
    · exact hdec

/-- **What a step does with the ids.** -/
theorem attachStep_ids {s s' : AttachWorld} {e : AttachEvent}
    (hs : attachStep idxBits s e = some s') :
    SameIds s.pdev s'.pdev ∧ (∀ ids, attachIds s.pdev ids e = ids) ∨
      (∃ vdev macAddr, e = .attachInsert vdev macAddr true ∧
        s'.pdev = peerCreate idxBits s.pdev vdev macAddr true) ∨
      ∃ peer, e = .detach peer ∧ peer < s.pdev.created ∧ (s.pdev.peers peer).valid = true ∧
        s'.pdev = peerMarkDeleted s.pdev peer := by
  cases e with
  | attachScan vdev macAddr =>
    have hpdev : ∃ f, s'.pdev = s.pdev.setVdev vdev f := by
      rw [attachStep] at hs
      cases hscan : peerAttachScan s.pdev.peers macAddr (s.pdev.vdevs vdev) .absent
          (s.pdev.vdevs vdev).peerList with
      | mk v found =>
        rw [hscan] at hs
        cases found with
        | present | absent =>
          cases hs
          exact ⟨fun _ => v, rfl⟩
        | leaving =>
          obtain ⟨p, -, rfl⟩ := map_eq_some_iff.1 hs
          exact ⟨fun _ => v, rfl⟩
    obtain ⟨f, hf⟩ := hpdev
    rw [hf]
    exact .inl ⟨⟨rfl, rfl, fun _ => rfl, fun _ => rfl⟩, fun _ => rfl⟩
  | attachWake w | attachTimeout w =>
    obtain ⟨-, rfl⟩ := guarded_eq_some.1 hs
    exact .inl ⟨⟨rfl, rfl, fun _ => rfl, fun _ => rfl⟩, fun _ => rfl⟩
  | attachInsert vdev macAddr allocated =>
    obtain ⟨-, rfl⟩ := guarded_eq_some.1 hs
    cases allocated with
    | false => exact .inl ⟨⟨rfl, rfl, fun _ => rfl, fun _ => rfl⟩, fun _ => rfl⟩
    | true => exact .inr (.inl ⟨vdev, macAddr, rfl, rfl⟩)
  | detach peer =>
    obtain ⟨⟨hlive, hv⟩, rfl⟩ := guarded_eq_some.1 hs
    exact .inr (.inr ⟨peer, rfl, hlive.1, hv, rfl⟩)
  | ref peer =>
    obtain ⟨-, rfl⟩ := guarded_eq_some.1 hs
    exact .inl ⟨⟨rfl, rfl, setPeer_proj valid rfl, setPeer_proj localId rfl⟩, fun _ => rfl⟩
  | unref peer =>
    obtain ⟨-, rfl⟩ := guarded_eq_some.1 hs
    exact .inl ⟨sameIds_unref, fun _ => rfl⟩

theorem hasId_create {vdev : Nat} {macAddr : MacAddr} {i : Nat} :
    HasId (peerCreate idxBits s vdev macAddr true) peer i ↔
      peer = s.created ∧ s.localPeerIds.head? = some i ∨ HasId s peer i := by
  by_cases hp : peer = s.created
  · subst hp
    simp only [HasId, peerCreate_self, lt_irrefl, false_and, or_false, true_and]
    exact and_iff_right (lt_succ_self _)
  · simp only [HasId, peerCreate_of_ne hp, hp, false_and, false_or]
    exact and_congr_left' (show _ < s.created + 1 ↔ _ by omega)

theorem hasId_detach {p i : Nat} :
    HasId (peerMarkDeleted s peer) p i ↔ p ≠ peer ∧ HasId s p i := by
  rw [HasId, peerMarkDeleted_proj localId s peer fun _ => rfl, peerMarkDeleted_valid, and_assoc]
  exact and_left_comm

theorem LocalIdsRight.create (h : LocalIdsRight s) (vdev : Nat) (macAddr : MacAddr) :
    LocalIdsRight (peerCreate idxBits s vdev macAddr true) := by
  have hhead {i : Nat} (hi : s.localPeerIds.head? = some i) :
      i ∈ s.localPeerIds ∧ i ∉ s.localPeerIds.tail := by
    obtain ⟨l, hl⟩ := head?_eq_some_iff.1 hi
    have hnodup := h.free
    rw [hl] at hnodup ⊢
    exact ⟨mem_cons_self, (nodup_cons.1 hnodup).1⟩
  refine ⟨h.free.sublist (tail_sublist _), fun i hi => h.lt i (mem_of_mem_tail hi),
    fun p i hp => ?_, fun p q i hp hq => ?_⟩
  · rcases hasId_create.1 hp with ⟨-, hi⟩ | hp
    · exact ⟨h.lt i (hhead hi).1, (hhead hi).2⟩
    · obtain ⟨hlt, hfree⟩ := h.used p i hp
      exact ⟨hlt, fun hm => hfree (mem_of_mem_tail hm)⟩
  · rcases hasId_create.1 hp with ⟨rfl, hi⟩ | hp <;> rcases hasId_create.1 hq with ⟨rfl, hj⟩ | hq
    · rfl
    · exact absurd (hhead hi).1 (h.used q i hq).2
    · exact absurd (hhead hj).1 (h.used p i hp).2
    · exact h.alone p q i hp hq

theorem LocalIdsRight.detach (h : LocalIdsRight s) (hp : peer < s.created)
    (hv : (s.peers peer).valid = true) : LocalIdsRight (peerMarkDeleted s peer) := by
  have hids : (peerMarkDeleted s peer).localPeerIds =
      (s.peers peer).localId.toList ++ s.localPeerIds := rfl
  refine ⟨?_, fun i hi => ?_, fun q i hq => ?_, fun p q i hp hq => ?_⟩
  · rw [hids]
    cases hid : (s.peers peer).localId with
    | none => exact h.free
    | some i => exact nodup_cons.2 ⟨(h.used peer i ⟨hp, hv, hid⟩).2, h.free⟩
  · rw [hids, List.mem_append, mem_toList] at hi
    exact hi.elim (fun hi => (h.used peer i ⟨hp, hv, hi⟩).1) (h.lt i)
  · obtain ⟨hne, hq⟩ := hasId_detach.1 hq
    rw [hids, List.mem_append, mem_toList, not_or]
    obtain ⟨hlt, hfree⟩ := h.used q i hq
    exact ⟨hlt, fun hj => hne (h.alone q peer i hq ⟨hp, hv, hj⟩), hfree⟩
  · exact h.alone p q i (hasId_detach.1 hp).2 (hasId_detach.1 hq).2

theorem LocalIdPool.create (h : LocalIdPool s ids) (hr : LocalIdsRight s) {vdev : Nat}
    {macAddr : MacAddr} :
    LocalIdPool (peerCreate idxBits s vdev macAddr true) (olTxrxLocalPeerIdAlloc ids s.created).2 := by
  obtain ⟨-, hlists, hmap⟩ := h.lists.alloc s.created
  refine ⟨hlists, fun i p => ?_⟩
  rw [hasId_create, hmap, ← h.map]
  cases hhead : s.localPeerIds.head? with
  | none => simp
  | some a =>
    rw [Option.elim_some]
    by_cases hi : i = a
    · subst hi
      have hnone : ids.map i ≠ some p := fun hm =>
        (hr.used p i ((h.map i p).1 hm)).2 (mem_of_mem_head? hhead)
      simp [hnone, eq_comm]
    · simp [update_of_ne hi, Ne.symm hi]

theorem LocalIdPool.detach (h : LocalIdPool s ids) (hr : LocalIdsRight s) (hp : peer < s.created)
    (hv : (s.peers peer).valid = true) :
    LocalIdPool (peerMarkDeleted s peer) (olTxrxLocalPeerIdFree ids (s.peers peer).localId) := by
  have hids : (peerMarkDeleted s peer).localPeerIds =
      (s.peers peer).localId.toList ++ s.localPeerIds := rfl
  cases hid : (s.peers peer).localId with
  | none =>
    refine ⟨by rw [hids, hid]; exact h.lists, fun i p => ?_⟩
    rw [hasId_detach, olTxrxLocalPeerIdFree, h.map, iff_and_self]
    rintro ⟨-, -, hi⟩ rfl
    exact some_ne_none _ (hi.symm.trans hid)
  | some a =>
    obtain ⟨hlt, hfree⟩ := hr.used peer a ⟨hp, hv, hid⟩
    refine ⟨by rw [hids, hid]; exact h.lists.free hlt hfree, fun i p => ?_⟩
    rw [hasId_detach, olTxrxLocalPeerIdFree, if_neg hlt.not_ge]
    dsimp only
    by_cases hi : i = a
    · subst hi
      rw [update_self]
      exact iff_of_false (some_ne_none p).symm fun hp' => hp'.1 (hr.alone p peer i hp'.2 ⟨hp, hv, hid⟩)
    · rw [update_of_ne hi, h.map, iff_and_self]
      rintro ⟨-, -, hj⟩ rfl
      exact hi (some.inj (hj.symm.trans hid))

end Steps

/-- **The local ids**, in every run: each is free or has one attached peer, the pool lists those that are free, and the others lead to their peers. -/
theorem local_ids_right {idxBits : Nat} {ok : AttachWorld × LocalPeerIds → AttachEvent → Prop}
    {s : AttachWorld × LocalPeerIds} (h : (localIdMachine idxBits).Reach ok s) :
    LocalIdsRight s.1.pdev ∧ s.2.Lists s.1.pdev.localPeerIds ∧
      ∀ i peer, olTxrxPeerFindByLocalId s.2 i = some peer ↔ HasId s.1.pdev peer i := by
  have hboth : LocalIdsRight s.1.pdev ∧ LocalIdPool s.1.pdev s.2 := by
    refine h.invariant (fun s => LocalIdsRight s.1.pdev ∧ LocalIdPool s.1.pdev s.2) ?_ ?_
    · rintro ⟨w, ids⟩ ⟨rfl, rfl⟩
      have hnone : ∀ p i, ¬ HasId AttachWorld.start.pdev p i := fun p _ hp => not_lt_zero p hp.1
      exact ⟨⟨nodup_range, fun i => mem_range.1, fun p i hp => absurd hp (hnone p i),
        fun p _ i hp => absurd hp (hnone p i)⟩, lists_poolInit,
        fun i p => iff_of_false (some_ne_none p).symm (hnone p i)⟩
    · rintro s e s' ⟨hr, hp⟩ - hs
      obtain ⟨w, hw, rfl⟩ := map_eq_some_iff.1 hs
      rcases attachStep_ids hw with ⟨hsame, hids⟩ | ⟨vdev, macAddr, rfl, he⟩ | ⟨p, rfl, hlt, hv, he⟩
      · refine ⟨hr.congr hsame, ?_⟩
        dsimp only
        rw [hids]
        exact ⟨hsame.free ▸ hp.lists, fun i p => (hp.map i p).trans hsame.hasId_iff.symm⟩
      · dsimp only
        rw [he]
        exact ⟨hr.create vdev macAddr, hp.create hr⟩
      · dsimp only
        rw [he]
        exact ⟨hr.detach hlt hv, hp.detach hr hlt hv⟩
  obtain ⟨hr, hp⟩ := hboth
  refine ⟨hr, hp.lists, fun i p => ?_⟩
  rw [olTxrxPeerFindByLocalId, ← hp.map]
  split
  · next hge =>
    exact iff_of_false (some_ne_none p).symm fun hm => hge.not_gt (hr.used p i ((hp.map i p).1 hm)).1
  · rfl

theorem local_ids_right_reused :
    ∃ s, (localIdMachine 7).run (.start, olTxrxLocalPeerIdPoolInit) idReused = some s ∧
      (LocalIdsRight s.1.pdev ∧ s.2.Lists s.1.pdev.localPeerIds) ∧ s.2.freelist = 0 :=
  Machine.exists_right (fun _ h => ⟨(local_ids_right h).1, (local_ids_right h).2.1⟩) ⟨rfl, rfl⟩
    (Machine.along_true ..) (by decide +kernel)

end LocalIds

end Qcacld.Txrx

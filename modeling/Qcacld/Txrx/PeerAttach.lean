import Qcacld.Txrx.PeerLife

/-!
# Txrx — PeerAttach

The attach calls of a pdev with their steps interleaved: the scan of the vdev's peer list under the lock, the wait for a peer of the same address that is being deleted, and the insertion under the lock, among the detaches and the references that come and go.

The wait is for a local id.  Detach has returned it to the free list by then, so that another peer may have it; `peer_attach_alone` says that no two peers of a vdev have the same address, and that a wait ends with the peer that is waited for, as long as no such other peer is deleted first and the attach calls for one address follow one another.
-/

namespace Qcacld.Txrx
open Qcacld.Support Function List Option Nat TxrxPeer

/-! ### The steps -/

structure AttachWait where
  vdev : Nat
  macAddr : MacAddr
  /-- the peer that is being deleted -/
  peer : Nat
deriving DecidableEq

def AttachWait.call (w : AttachWait) : Nat × MacAddr := (w.vdev, w.macAddr)

/-- The peers, and the attach calls in progress. -/
structure AttachWorld where
  pdev : PeerPdev
  /-- the calls that have found no peer of their address, or have waited for it -/
  checked : List (Nat × MacAddr)
  waiting : List AttachWait

/-- What can happen.  `ol_txrx_peer_detach` is a `detach` and, after that, an `unref`; the other references are taken and dropped by lookups, map and unmap messages. -/
inductive AttachEvent where
  | attachScan (vdev : Nat) (macAddr : MacAddr)
  | attachWake (w : AttachWait)
  | attachTimeout (w : AttachWait)
  | attachInsert (vdev : Nat) (macAddr : MacAddr) (allocated : Bool)
  | detach (peer : Nat)
  | ref (peer : Nat)
  | unref (peer : Nat)

/-- The peer whose local id the scan of `ol_txrx_peer_attach` has left in `wait_on_peer_id`. -/
def peerScanned (s : PeerPdev) (vdev : Nat) (macAddr : MacAddr) : Option Nat :=
  ((s.vdevs vdev).peerList.filter fun peer => (s.peers peer).macAddr = macAddr).getLast?

/-- One step.  A call that has inserted its peer returns it. -/
def attachStep (idxBits : Nat) (s : AttachWorld) : AttachEvent → Option AttachWorld
  | .attachScan vdev macAddr =>
    let (v, found) := peerAttachScan s.pdev.peers macAddr (s.pdev.vdevs vdev) .absent
      (s.pdev.vdevs vdev).peerList
    let pdev := s.pdev.setVdev vdev fun _ => v
    match found with
    | .present => some { s with pdev := pdev }
    | .absent => some { s with pdev := pdev, checked := (vdev, macAddr) :: s.checked }
    | .leaving => (peerScanned s.pdev vdev macAddr).map fun peer =>
      { s with pdev := pdev, waiting := ⟨vdev, macAddr, peer⟩ :: s.waiting }
  | .attachWake w => do
    guard (w ∈ s.waiting ∧ 0 < (s.pdev.vdevs w.vdev).waitDeleteComp)
    return {
      pdev := s.pdev.setVdev w.vdev fun v => { v with waitDeleteComp := v.waitDeleteComp - 1 }
      checked := w.call :: s.checked
      waiting := s.waiting.erase w }
  | .attachTimeout w => do
    guard (w ∈ s.waiting)
    return { s with
      pdev := s.pdev.setVdev w.vdev fun v => { v with waitOnPeerId := none }
      waiting := s.waiting.erase w }
  | .attachInsert vdev macAddr allocated => do
    guard ((vdev, macAddr) ∈ s.checked)
    return { s with
      pdev := peerCreate idxBits s.pdev vdev macAddr allocated
      checked := s.checked.erase (vdev, macAddr) }
  | .detach peer => do
    guard (s.pdev.Live peer ∧ (s.pdev.peers peer).valid = true)
    return { s with pdev := peerMarkDeleted s.pdev peer }
  | .ref peer => do
    guard (s.pdev.Live peer)
    return { s with pdev := s.pdev.setPeer peer TxrxPeer.incRefCnt }
  | .unref peer => do
    guard (s.pdev.Live peer)
    return { s with pdev := olTxrxPeerUnref idxBits s.pdev peer }

def AttachWorld.start : AttachWorld := ⟨PeerWorld.start.pdev, [], []⟩

def attachMachine (idxBits : Nat) : Machine AttachWorld AttachEvent where
  init s := s = .start
  step := attachStep idxBits

/-! ### What must hold -/

/-- **No two peers of a vdev have the same address**, and a call that waits can go on only when the peer it waits for has been deleted. -/
structure NoDuplicateMac (s : AttachWorld) : Prop where
  alone : ∀ vdev, ((s.pdev.vdevs vdev).peerList.map fun peer => (s.pdev.peers peer).macAddr).Nodup
  ended : ∀ w ∈ s.waiting, 0 < (s.pdev.vdevs w.vdev).waitDeleteComp → w.peer ∈ s.pdev.freed

/-- When an attach call scans for an address, no other call for it is in progress on the vdev, and if it is going to wait, none waits there; and while a call waits for a peer of a vdev, no other peer of the vdev with the same local id is deleted. -/
def AttachStepOk (s : AttachWorld) : AttachEvent → Prop
  | .attachScan vdev macAddr =>
    (vdev, macAddr) ∉ s.checked ++ s.waiting.map AttachWait.call ∧
      ((∃ peer ∈ (s.pdev.vdevs vdev).peerList, (s.pdev.peers peer).macAddr = macAddr ∧
        (s.pdev.peers peer).deleteInProgress = true) → ∀ w ∈ s.waiting, w.vdev ≠ vdev)
  | .unref peer => (s.pdev.peers peer).refCnt = 1 →
    ∀ w ∈ s.waiting, w.vdev = (s.pdev.peers peer).vdev → w.peer ∉ s.pdev.freed → w.peer ≠ peer →
      (s.pdev.peers w.peer).localId ≠ (s.pdev.peers peer).localId
  | _ => True

/-! ### The scan -/

section Scan
variable {peers : Nat → TxrxPeer} {macAddr : MacAddr} {v : PeerVdev} {found : PeerDuplicate}
  {l l' : List Nat}

theorem peerAttachScan_append (h : ∀ p ∈ l, (peers p).macAddr ≠ macAddr) :
    peerAttachScan peers macAddr v found (l ++ l') = peerAttachScan peers macAddr v found l' := by
  induction l with
  | nil => rfl
  | cons p l ih =>
    obtain ⟨hp, hl⟩ := forall_mem_cons.1 h
    rw [cons_append, peerAttachScan, if_neg hp]
    exact ih hl

theorem peerAttachScan_of_ne (h : ∀ p ∈ l, (peers p).macAddr ≠ macAddr) :
    peerAttachScan peers macAddr v found l = (v, found) := by
  rw [← append_nil l]
  exact peerAttachScan_append h

/-- **The scan, where no two peers have the same address.** -/
theorem peerAttachScan_alone (macAddr : MacAddr) (v : PeerVdev)
    (hd : (l.map fun p => (peers p).macAddr).Nodup) :
    (∀ p ∈ l, (peers p).macAddr ≠ macAddr) ∨
      ∃ p ∈ l, (peers p).macAddr = macAddr ∧ (l.filter fun q => (peers q).macAddr = macAddr) = [p] ∧
        peerAttachScan peers macAddr v .absent l =
          if (peers p).deleteInProgress then
            ({ v with waitOnPeerId := (peers p).localId, waitDeleteComp := 0 }, .leaving)
          else (v, .present) := by
  by_cases hex : ∃ p ∈ l, (peers p).macAddr = macAddr
  · obtain ⟨p, hp, rfl⟩ := hex
    obtain ⟨l₁, l₂, rfl⟩ := append_of_mem hp
    rw [map_append, map_cons] at hd
    obtain ⟨-, hd₂, hne₁⟩ := nodup_append.1 hd
    have h₁ : ∀ q ∈ l₁, (peers q).macAddr ≠ (peers p).macAddr := fun q hq =>
      hne₁ _ (mem_map_of_mem hq) _ mem_cons_self
    have h₂ : ∀ q ∈ l₂, (peers q).macAddr ≠ (peers p).macAddr := fun q hq he =>
      (nodup_cons.1 hd₂).1 (he ▸ mem_map_of_mem hq)
    refine .inr ⟨p, hp, rfl, ?_, ?_⟩
    · rw [filter_append, filter_cons_of_pos (by simp),
        filter_eq_nil_iff.2 (by simpa using h₁), filter_eq_nil_iff.2 (by simpa using h₂)]
      rfl
    · rw [peerAttachScan_append h₁, peerAttachScan, if_pos rfl]
      split
      · exact peerAttachScan_of_ne h₂
      · rfl
  · exact .inl fun p hp he => hex ⟨p, hp, he⟩

end Scan

/-! ### The calls in progress -/

/-- A call that waits: the peer it waits for is the only one of its address, and as long as it is there it is its local id that is waited for. -/
structure WaitRight (s : PeerPdev) (w : AttachWait) : Prop where
  alone : ∀ p ∈ (s.vdevs w.vdev).peerList, (s.peers p).macAddr = w.macAddr → p = w.peer
  waits : w.peer ∈ (s.vdevs w.vdev).peerList →
    (s.vdevs w.vdev).waitOnPeerId = (s.peers w.peer).localId ∧ (s.vdevs w.vdev).waitDeleteComp = 0
  gone : w.peer ∈ (s.vdevs w.vdev).peerList ∨ w.peer ∈ s.freed

/-- The tables are right, no two calls are for the same address, those that have scanned find no peer of it, and those that wait are on different vdevs. -/
structure AttachInv (idxBits : Nat) (s : AttachWorld) : Prop where
  links : PeerLinks idxBits s.pdev
  freed : ∀ p ∈ s.pdev.freed, p < s.pdev.created
  once : (s.checked ++ s.waiting.map AttachWait.call).Nodup
  checked : ∀ c ∈ s.checked, ∀ p ∈ (s.pdev.vdevs c.1).peerList, (s.pdev.peers p).macAddr ≠ c.2
  waiting : ∀ w ∈ s.waiting, WaitRight s.pdev w
  apart : s.waiting.Pairwise fun w w' => w.vdev ≠ w'.vdev

section Calls
variable {idxBits : Nat} {s : PeerPdev} {s' : PeerPdev} {w : AttachWait} {peer vdev : Nat}
  {macAddr : MacAddr}

theorem WaitRight.congr (h : WaitRight s w) (hf : s'.freed = s.freed)
    (hv : s'.vdevs w.vdev = s.vdevs w.vdev)
    (hm : ∀ p, (s'.peers p).macAddr = (s.peers p).macAddr)
    (hl : ∀ p, (s'.peers p).localId = (s.peers p).localId) : WaitRight s' w := by
  refine ⟨?_, ?_, ?_⟩
  · rw [hv]
    exact fun p hp he => h.alone p hp ((hm p).symm.trans he)
  · rw [hv, hl]
    exact h.waits
  · rw [hv, hf]
    exact h.gone

theorem peerDelete_wait (idxBits : Nat) {v : Nat}
    (h : v ≠ (s.peers peer).vdev ∨ (s.vdevs v).waitOnPeerId ≠ (s.peers peer).localId) :
    ((peerDelete idxBits s peer).vdevs v).waitOnPeerId = (s.vdevs v).waitOnPeerId ∧
      ((peerDelete idxBits s peer).vdevs v).waitDeleteComp = (s.vdevs v).waitDeleteComp := by
  have hself : (s.setPeer peer fun p => { p with deleteInProgress := false }).peers peer =
      { s.peers peer with deleteInProgress := false } := setPeer_self
  dsimp only [peerDelete, PeerPdev.setVdev]
  by_cases hv : v = (s.peers peer).vdev
  · subst hv
    erw [hself, update_self]
    rw [if_neg fun he => (h.resolve_left (not_not_intro rfl)) he.symm]
    exact ⟨rfl, rfl⟩
  · erw [hself, update_of_ne hv]
    exact ⟨rfl, rfl⟩

theorem WaitRight.delete (h : WaitRight s w) (hd : ((s.vdevs w.vdev).peerList).Nodup)
    (hok : w.vdev = (s.peers peer).vdev → w.peer ∉ s.freed → w.peer ≠ peer →
      (s.peers w.peer).localId ≠ (s.peers peer).localId)
    (hlive : ∀ p ∈ (s.vdevs w.vdev).peerList, p ∉ s.freed) :
    WaitRight (peerDelete idxBits s peer) w := by
  have hmem : ∀ p, p ∈ ((peerDelete idxBits s peer).vdevs w.vdev).peerList ↔
      p ∈ (s.vdevs w.vdev).peerList ∧ (w.vdev = (s.peers peer).vdev → p ≠ peer) := by
    intro p
    rw [peerDelete_peerList]
    by_cases hv : w.vdev = (s.peers peer).vdev
    · rw [if_pos hv, hd.mem_erase_iff]
      simp [hv, and_comm]
    · rw [if_neg hv]
      simp [hv]
  refine ⟨fun p hp he => ?_, fun hp => ?_, ?_⟩
  · rw [peerDelete_peers, setPeer_proj macAddr rfl] at he
    exact h.alone p ((hmem p).1 hp).1 he
  · obtain ⟨hp, hne⟩ := (hmem _).1 hp
    obtain ⟨hon, hcomp⟩ := h.waits hp
    have hnot : w.vdev ≠ (s.peers peer).vdev ∨
        (s.vdevs w.vdev).waitOnPeerId ≠ (s.peers peer).localId := by
      by_cases hv : w.vdev = (s.peers peer).vdev
      · exact .inr (hon ▸ hok hv (hlive _ hp) (hne hv))
      · exact .inl hv
    have hwait := peerDelete_wait idxBits hnot
    rw [hwait.1, hwait.2, peerDelete_peers, setPeer_proj localId rfl]
    exact ⟨hon, hcomp⟩
  · change _ ∨ w.peer ∈ s.freed ++ [peer]
    rw [hmem, mem_append, mem_singleton]
    have hgone := h.gone
    tauto

theorem WaitRight.create (h : WaitRight s w) (hlt : ∀ p ∈ (s.vdevs w.vdev).peerList, p < s.created)
    (hf : ∀ p ∈ s.freed, p < s.created) (hne : w.call ≠ (vdev, macAddr)) :
    WaitRight (peerCreate idxBits s vdev macAddr true) w := by
  have hpeer : w.peer < s.created := h.gone.elim (hlt _) (hf _)
  have hmem : ∀ p, p ∈ ((peerCreate idxBits s vdev macAddr true).vdevs w.vdev).peerList →
      p ∈ (s.vdevs w.vdev).peerList ∨ p = s.created ∧ w.vdev = vdev := by
    intro p hp
    rw [peerCreate_peerList, mem_append, mem_ite_singleton] at hp
    exact hp.imp_right And.symm
  have hwait : ((peerCreate idxBits s vdev macAddr true).vdevs w.vdev).waitOnPeerId =
      (s.vdevs w.vdev).waitOnPeerId ∧
      ((peerCreate idxBits s vdev macAddr true).vdevs w.vdev).waitDeleteComp =
        (s.vdevs w.vdev).waitDeleteComp := by
    change (update s.vdevs vdev _ w.vdev).waitOnPeerId = _ ∧
      (update s.vdevs vdev _ w.vdev).waitDeleteComp = _
    by_cases hv : w.vdev = vdev
    · rw [hv, update_self]
      exact ⟨rfl, rfl⟩
    · rw [update_of_ne hv]
      exact ⟨rfl, rfl⟩
  refine ⟨fun p hp he => ?_, fun hp => ?_, ?_⟩
  · rcases hmem p hp with hp | ⟨rfl, hv⟩
    · rw [peerCreate_of_ne (hlt p hp).ne] at he
      exact h.alone p hp he
    · rw [peerCreate_self] at he
      exact absurd (Prod.ext hv he.symm) hne
  · rcases hmem _ hp with hp | ⟨he, -⟩
    · rw [hwait.1, hwait.2, peerCreate_of_ne hpeer.ne]
      exact h.waits hp
    · exact absurd he hpeer.ne
  · refine h.gone.imp (fun hp => ?_) id
    rw [peerCreate_peerList]
    exact mem_append_left _ hp

end Calls

/-! ### One step -/

section Steps
variable {idxBits : Nat} {s s' : AttachWorld} {pdev : PeerPdev} {w : AttachWait} {peer vdev : Nat}
  {macAddr : MacAddr}

theorem setVdev_self (s : PeerPdev) (vdev : Nat) : (s.setVdev vdev fun _ => s.vdevs vdev) = s := by
  rw [PeerPdev.setVdev, update_eq_self]

theorem setVdev_vdevs_of_ne {f : PeerVdev → PeerVdev} {v : Nat} (h : v ≠ vdev) :
    (pdev.setVdev vdev f).vdevs v = pdev.vdevs v :=
  update_of_ne h ..

theorem setVdev_vdevs_self {f : PeerVdev → PeerVdev} :
    (pdev.setVdev vdev f).vdevs vdev = f (pdev.vdevs vdev) :=
  update_self ..

theorem setVdev_peerList {f : PeerVdev → PeerVdev}
    (hf : (f (pdev.vdevs vdev)).peerList = (pdev.vdevs vdev).peerList) (v : Nat) :
    ((pdev.setVdev vdev f).vdevs v).peerList = (pdev.vdevs v).peerList := by
  by_cases hv : v = vdev
  · rw [hv, setVdev_vdevs_self, hf]
  · rw [setVdev_vdevs_of_ne hv]

theorem PeerLinks.macAddrs_nodup (h : PeerLinks idxBits pdev) (vdev : Nat) :
    ((pdev.vdevs vdev).peerList.map fun peer => (pdev.peers peer).macAddr).Nodup := by
  refine (h.peerList_nodup vdev).map_on fun p hp q hq he => ?_
  obtain ⟨hp, hpv⟩ := (h.peerList vdev p).1 hp
  obtain ⟨hq, hqv⟩ := (h.peerList vdev q).1 hq
  exact h.alone p q hp hq (hpv.trans hqv.symm) he

theorem AttachInv.congr (h : AttachInv idxBits s) (hc : pdev.created = s.pdev.created)
    (hf : pdev.freed = s.pdev.freed) (hb : pdev.bins = s.pdev.bins)
    (hd : pdev.vdevs = s.pdev.vdevs) (hv : ∀ p, (pdev.peers p).vdev = (s.pdev.peers p).vdev)
    (hm : ∀ p, (pdev.peers p).macAddr = (s.pdev.peers p).macAddr)
    (hl : ∀ p, (pdev.peers p).localId = (s.pdev.peers p).localId) :
    AttachInv idxBits { s with pdev := pdev } where
  links := h.links.congr hc hf hb (fun v => by rw [hd]) hv hm
  freed p hp := by
    rw [hc]
    exact h.freed p (hf ▸ hp)
  once := h.once
  checked c hmem p hp := by
    rw [hm]
    exact h.checked c hmem p (hd ▸ hp)
  waiting w hw := (h.waiting w hw).congr hf (congrFun hd _) hm hl
  apart := h.apart

theorem AttachInv.setVdev {f : PeerVdev → PeerVdev} {checked : List (Nat × MacAddr)}
    {waiting : List AttachWait} (h : AttachInv idxBits s)
    (hf : (f (s.pdev.vdevs vdev)).peerList = (s.pdev.vdevs vdev).peerList)
    (honce : (checked ++ waiting.map AttachWait.call).Nodup)
    (hchecked : ∀ c ∈ checked, ∀ p ∈ (s.pdev.vdevs c.1).peerList, (s.pdev.peers p).macAddr ≠ c.2)
    (hwaiting : ∀ w ∈ waiting, w ∉ s.waiting ∨ w.vdev = vdev → WaitRight (s.pdev.setVdev vdev f) w)
    (hapart : waiting.Pairwise fun w w' => w.vdev ≠ w'.vdev) :
    AttachInv idxBits ⟨s.pdev.setVdev vdev f, checked, waiting⟩ where
  links := h.links.congr rfl rfl rfl (setVdev_peerList hf) (fun _ => rfl) fun _ => rfl
  freed := h.freed
  once := honce
  checked c hc p hp := by
    rw [setVdev_peerList hf] at hp
    exact hchecked c hc p hp
  waiting w hw := by
    by_cases hold : w ∉ s.waiting ∨ w.vdev = vdev
    · exact hwaiting w hw hold
    · rw [not_or, not_not] at hold
      exact (h.waiting w hold.1).congr rfl (setVdev_vdevs_of_ne hold.2) (fun _ => rfl) fun _ => rfl
  apart := hapart

theorem AttachInv.take (h : AttachInv idxBits s) (hw : w ∈ s.waiting) :
    (w.call :: (s.checked ++ (s.waiting.erase w).map AttachWait.call)).Nodup ∧
      (∀ w' ∈ s.waiting.erase w, w'.vdev ≠ w.vdev) ∧
      (s.waiting.erase w).Pairwise fun w w' => w.vdev ≠ w'.vdev := by
  have hperm : s.waiting.Perm (w :: s.waiting.erase w) := perm_cons_erase hw
  have hapart := (hperm.pairwise_iff fun {x y} (hxy : x.vdev ≠ y.vdev) => hxy.symm).1 h.apart
  obtain ⟨hne, hrest⟩ := pairwise_cons.1 hapart
  refine ⟨?_, fun w' hw' => (hne w' hw').symm, hrest⟩
  have honce := (((hperm.map AttachWait.call).append_left s.checked).nodup_iff).1 h.once
  exact nodup_middle.1 honce

theorem AttachInv.attachScan (h : AttachInv idxBits s)
    (hok : AttachStepOk s (.attachScan vdev macAddr))
    (hs : attachStep idxBits s (.attachScan vdev macAddr) = some s') : AttachInv idxBits s' := by
  obtain ⟨hnew, hwaits⟩ := hok
  rcases peerAttachScan_alone macAddr (s.pdev.vdevs vdev)
      (h.links.macAddrs_nodup vdev) with hnone | ⟨p, hp, hmac, hfilter, hscan⟩
  · have hscan : peerAttachScan s.pdev.peers macAddr (s.pdev.vdevs vdev) .absent
        (s.pdev.vdevs vdev).peerList = (s.pdev.vdevs vdev, .absent) := peerAttachScan_of_ne hnone
    rw [attachStep, hscan] at hs
    dsimp only at hs
    rw [setVdev_self] at hs
    cases hs
    exact ⟨h.links, h.freed, nodup_cons.2 ⟨hnew, h.once⟩,
      forall_mem_cons.2 ⟨hnone, h.checked⟩, h.waiting, h.apart⟩
  · by_cases hleaving : (s.pdev.peers p).deleteInProgress = true
    · -- the call waits for the local id of `p`
      have hscanned : peerScanned s.pdev vdev macAddr = some p := by
        rw [peerScanned, hfilter]
        rfl
      rw [if_pos hleaving] at hscan
      rw [attachStep, hscan] at hs
      dsimp only at hs
      rw [hscanned, map_some] at hs
      cases hs
      have hother := hwaits ⟨p, hp, hmac, hleaving⟩
      refine h.setVdev rfl ?_ h.checked ?_ (pairwise_cons.2
        ⟨fun w hw => (hother w hw).symm, h.apart⟩)
      · exact nodup_middle.2 (nodup_cons.2 ⟨hnew, h.once⟩)
      · intro w hw hnew
        obtain rfl : w = ⟨vdev, macAddr, p⟩ := by
          refine (mem_cons.1 hw).resolve_right fun hw => ?_
          exact hnew.elim (absurd hw) (hother w hw)
        refine ⟨fun q hq he => ?_, fun _ => ?_, .inl ?_⟩
        · rw [setVdev_peerList rfl] at hq
          have hmem : q ∈ (s.pdev.vdevs vdev).peerList.filter fun q =>
              (s.pdev.peers q).macAddr = macAddr :=
            mem_filter.2 ⟨hq, decide_eq_true he⟩
          rw [hfilter] at hmem
          exact mem_singleton.1 hmem
        · dsimp only
          rw [setVdev_vdevs_self]
          exact ⟨rfl, rfl⟩
        · rw [setVdev_peerList rfl]
          exact hp
    · rw [if_neg hleaving] at hscan
      rw [attachStep, hscan] at hs
      dsimp only at hs
      rw [setVdev_self] at hs
      cases hs
      exact h

theorem AttachInv.attachWake (h : AttachInv idxBits s)
    (hs : attachStep idxBits s (.attachWake w) = some s') : AttachInv idxBits s' := by
  obtain ⟨⟨hw, hcomp⟩, rfl⟩ := guarded_eq_some.1 hs
  obtain ⟨honce, hother, hapart⟩ := h.take hw
  have hright := h.waiting w hw
  -- the wait is over, so the peer has gone
  have hgone : w.peer ∉ (s.pdev.vdevs w.vdev).peerList := fun hp =>
    absurd (hright.waits hp).2 (ne_of_gt hcomp)
  refine h.setVdev rfl honce (forall_mem_cons.2 ⟨fun p hp he => ?_, h.checked⟩)
    (fun w' hw' hnew => ?_) hapart
  · exact hgone (hright.alone p hp he ▸ hp)
  · exact absurd hnew (not_or.2 ⟨not_not_intro (mem_of_mem_erase hw'), hother w' hw'⟩)

theorem AttachInv.attachTimeout (h : AttachInv idxBits s)
    (hs : attachStep idxBits s (.attachTimeout w) = some s') : AttachInv idxBits s' := by
  obtain ⟨hw, rfl⟩ := guarded_eq_some.1 hs
  obtain ⟨honce, hother, hapart⟩ := h.take hw
  refine h.setVdev rfl (nodup_cons.1 honce).2 h.checked (fun w' hw' hnew => ?_) hapart
  exact absurd hnew (not_or.2 ⟨not_not_intro (mem_of_mem_erase hw'), hother w' hw'⟩)

theorem AttachInv.attachInsert {allocated : Bool} (h : AttachInv idxBits s)
    (hs : attachStep idxBits s (.attachInsert vdev macAddr allocated) = some s') :
    AttachInv idxBits s' := by
  obtain ⟨hc, rfl⟩ := guarded_eq_some.1 hs
  have hperm : s.checked.Perm ((vdev, macAddr) :: s.checked.erase (vdev, macAddr)) :=
    perm_cons_erase hc
  obtain ⟨hnew, honce⟩ := nodup_cons.1 ((hperm.append_right _).nodup_iff.1 h.once)
  have hchecked : ∀ c ∈ s.checked.erase (vdev, macAddr), c ∈ s.checked :=
    fun c => mem_of_mem_erase
  cases allocated with
  | false =>
    exact ⟨h.links, h.freed, honce, fun c hc => h.checked c (hchecked c hc), h.waiting, h.apart⟩
  | true =>
    have hlt : ∀ v, ∀ p ∈ (s.pdev.vdevs v).peerList, p < s.pdev.created :=
      fun v p hp => ((h.links.peerList v p).1 hp).1.1
    refine ⟨h.links.create h.freed (h.checked _ hc),
      fun p hp => (h.freed p hp).trans (lt_succ_self _), honce, fun c hc' p hp => ?_,
      fun w hw => ?_, h.apart⟩
    · dsimp only at hp ⊢
      rw [peerCreate_peerList, mem_append, mem_ite_singleton] at hp
      rcases hp with hp | ⟨hv, rfl⟩
      · rw [peerCreate_of_ne (hlt _ p hp).ne]
        exact h.checked c (hchecked c hc') p hp
      · rw [peerCreate_self]
        intro he
        obtain rfl : (vdev, macAddr) = c := Prod.ext hv.symm he
        exact hnew (mem_append_left _ hc')
    · refine (h.waiting w hw).create (hlt _) h.freed fun he => ?_
      exact hnew (mem_append_right _ (he ▸ mem_map_of_mem hw))

theorem AttachInv.unref (h : AttachInv idxBits s) (hok : AttachStepOk s (.unref peer))
    (hs : attachStep idxBits s (.unref peer) = some s') : AttachInv idxBits s' := by
  obtain ⟨hlive, rfl⟩ := guarded_eq_some.1 hs
  rw [olTxrxPeerUnref]
  by_cases h0 : (s.pdev.peers peer).refCnt = 0
  · rw [if_pos h0]
    exact h
  · let t := s.pdev.setPeer peer decRefCnt
    have ht : AttachInv idxBits { s with pdev := t } :=
      h.congr rfl rfl rfl rfl (setPeer_proj vdev rfl) (setPeer_proj macAddr rfl)
        (setPeer_proj localId rfl)
    have hself : t.peers peer = (s.pdev.peers peer).decRefCnt := setPeer_self
    rw [if_neg h0]
    dsimp only
    by_cases hlast : (t.peers peer).refCnt = 0
    · rw [if_pos hlast]
      have hone : (s.pdev.peers peer).refCnt = 1 := by
        rw [hself] at hlast
        have hpos := Nat.pos_of_ne_zero h0
        exact Nat.le_antisymm (Nat.sub_eq_zero_iff_le.1 hlast) hpos
      have hid : ∀ p, (t.peers p).localId = (s.pdev.peers p).localId :=
        setPeer_proj localId rfl
      have hvdev : (t.peers peer).vdev = (s.pdev.peers peer).vdev := by
        rw [hself]
        rfl
      refine ⟨ht.links.delete hlive, fun p hp => ?_, h.once, fun c hc p hp => ?_, fun w hw => ?_,
        h.apart⟩
      · rcases mem_append.1 hp with hp | hp
        · exact h.freed p hp
        · rw [mem_singleton.1 hp]
          exact hlive.1
      · dsimp only at hp ⊢
        rw [peerDelete_peers, setPeer_proj macAddr rfl]
        refine ht.checked c hc p ?_
        rw [peerDelete_peerList] at hp
        split at hp
        · exact mem_of_mem_erase hp
        · exact hp
      · refine (ht.waiting w hw).delete (h.links.peerList_nodup _) (fun hv hf hne => ?_)
          fun p hp => ((h.links.peerList _ p).1 hp).1.2
        rw [hid, hid]
        exact hok hone w hw (hv.trans hvdev) hf hne
    · rw [if_neg hlast]
      exact ht

/-- **One step.** -/
theorem AttachInv.step {e : AttachEvent} (h : AttachInv idxBits s) (hok : AttachStepOk s e)
    (hs : attachStep idxBits s e = some s') : AttachInv idxBits s' := by
  cases e with
  | attachScan vdev macAddr => exact h.attachScan hok hs
  | attachWake w => exact h.attachWake hs
  | attachTimeout w => exact h.attachTimeout hs
  | attachInsert vdev macAddr allocated => exact h.attachInsert hs
  | detach peer =>
    obtain ⟨-, rfl⟩ := guarded_eq_some.1 hs
    exact h.congr rfl rfl rfl rfl (peerMarkDeleted_proj vdev s.pdev peer fun _ => rfl)
      (peerMarkDeleted_proj macAddr s.pdev peer fun _ => rfl)
      (peerMarkDeleted_proj localId s.pdev peer fun _ => rfl)
  | ref peer =>
    obtain ⟨-, rfl⟩ := guarded_eq_some.1 hs
    exact h.congr rfl rfl rfl rfl (setPeer_proj vdev rfl)
      (setPeer_proj macAddr rfl) (setPeer_proj localId rfl)
  | unref peer => exact h.unref hok hs

end Steps

/-! ### Runs -/

section Results
variable {idxBits : Nat} {s : AttachWorld}

theorem attachInv_of_reach (h : (attachMachine idxBits).Reach AttachStepOk s) :
    AttachInv idxBits s := by
  refine Machine.Reach.invariant _ (fun s hs => ?_) (fun s e s' hi hok hs => hi.step hok hs) h
  cases hs
  refine ⟨?_, fun _ hp => (nomatch hp), .nil, fun _ hc => (nomatch hc), fun _ hw => (nomatch hw),
    .nil⟩
  have hno : ∀ p, ¬ PeerWorld.start.pdev.Live p := fun p hp => not_lt_zero p hp.1
  exact ⟨.nil, fun index p => iff_of_false not_mem_nil fun hp => hno p hp.1, fun _ => .nil,
    fun v p => iff_of_false not_mem_nil fun hp => hno p hp.1, fun _ => .nil,
    fun p _ hp => absurd hp (hno p)⟩

/-- **No duplicate MAC.**  In a run whose scans and deletions are in order, the peers of a vdev always have different addresses, and a wait has ended only when the peer that is waited for has been deleted. -/
theorem peer_attach_alone (idxBits : Nat) (s : AttachWorld)
    (h : (attachMachine idxBits).Reach AttachStepOk s) : NoDuplicateMac s := by
  have hinv := attachInv_of_reach h
  refine ⟨hinv.links.macAddrs_nodup, fun w hw hcomp => ?_⟩
  have hright := hinv.waiting w hw
  refine hright.gone.resolve_left fun hp => ?_
  exact absurd (hright.waits hp).2 (ne_of_gt hcomp)

instance decidableAttachStepOk (s : AttachWorld) : (e : AttachEvent) → Decidable (AttachStepOk s e)
  | .attachScan _ _ => inferInstanceAs (Decidable (_ ∧ _))
  | .unref _ => inferInstanceAs (Decidable (_ → _))
  | .attachWake _ | .attachTimeout _ | .attachInsert .. | .detach _ | .ref _ => .isTrue trivial

/-- A peer is detached, and the next one gets its local id and is detached as well; while the first is being attached again, the second is unmapped. -/
def idReused : List AttachEvent :=
  [.attachScan 0 ⟨1, 2, 3⟩, .attachInsert 0 ⟨1, 2, 3⟩ true, .detach 0, .unref 0,
    .attachScan 0 ⟨4, 5, 6⟩, .attachInsert 0 ⟨4, 5, 6⟩ true, .detach 1, .unref 1,
    .attachScan 0 ⟨1, 2, 3⟩, .unref 1]

/-- The second peer ends the wait for the first, which is still on the list when its address is attached again. -/
theorem idReused_duplicates :
    ¬ ∀ s, (attachMachine 7).Reach (fun _ _ => True) s → NoDuplicateMac s := by
  intro h
  obtain ⟨s, hs, hmacs⟩ : ∃ s, (attachMachine 7).run .start (idReused ++
      [.attachWake ⟨0, ⟨1, 2, 3⟩, 0⟩, .attachInsert 0 ⟨1, 2, 3⟩ true]) = some s ∧
      ((s.pdev.vdevs 0).peerList.map fun peer => (s.pdev.peers peer).macAddr) =
        [⟨1, 2, 3⟩, ⟨1, 2, 3⟩] :=
    Machine.exists_run (by decide +kernel)
  have halone := (h s (Machine.reach_of_run rfl hs)).alone 0
  rw [hmacs] at halone
  exact absurd halone (by decide)

theorem peer_attach_alone_attachedAgain : ∃ s, (attachMachine 7).run .start
    (idReused.dropLast ++ [.unref 0, .attachWake ⟨0, ⟨1, 2, 3⟩, 0⟩, .unref 1,
      .attachInsert 0 ⟨1, 2, 3⟩ true]) = some s ∧
    (s.pdev.vdevs 0).peerList = [2] ∧ NoDuplicateMac s :=
  Machine.exists_reach_of (q := fun s => (s.pdev.vdevs 0).peerList = [2]) rfl (by decide +kernel)
    (by decide +kernel) fun s hr hlist => ⟨hlist, peer_attach_alone 7 s hr⟩

end Results

end Qcacld.Txrx

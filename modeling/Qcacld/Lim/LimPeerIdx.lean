import Qcacld.Lim.LimAidMgmt
import Qcacld.Support.Runs

/-!
# Lim — LimPeerIdx

The pool of peer indices in any role and of any persona.  In the role of a station index 1 is that of the AP: the free indices begin behind it, and for `FreeQueue` it is assigned from the start.

`PeerIdxRight` is what is to hold at any time of the indices that are out.  `peer_idx_pool_iff` says for which sizes of the table it holds in every run: the first index is free however few stations there may be.
-/

namespace Qcacld.Lim
open Qcacld.Support Function List Nat

inductive LimSystemRole where
  | unknown
  | ap
  | staInIbss
  | sta
  | btAmpSta
  | btAmpAp
  | p2pDevice
  | p2pDeviceGo
  | p2pDeviceClient
  | ndi
deriving DecidableEq

/-- `pePersona`, as far as it has a limit of its own -/
inductive PePersona where
  | staSap
  | p2pGo
  | other

def dphStaHashIndexPeer : Nat := 1

def limStartPeerIdx : Nat := 1

/-- Where `limInitPeerIdxpool` has the free list begin. -/
def LimSystemRole.firstPeerIdx : LimSystemRole → Nat
  | .sta => dphStaHashIndexPeer + 1
  | _ => limStartPeerIdx

/-- The limits on associations, which may change from call to call.  `others` is the number of stations the other sessions have. -/
structure AssocLimits where
  gLimAssocStaLimit : Nat
  glimAssocStaLimitAp : Nat
  glimAssocStaLimitGo : Nat
  others : Nat

/-- `max_peer`: 0 is no limit. -/
def PePersona.maxPeer (limits : AssocLimits) : PePersona → Nat
  | .staSap => limits.glimAssocStaLimitAp % 2 ^ 8
  | .p2pGo => limits.glimAssocStaLimitGo % 2 ^ 8
  | .other => 0

namespace PeerIdxPool

/-- The loop of `limInitPeerIdxpool` from any index on. -/
def linkFrom (first n : Nat) (p : PeerIdxPool) : PeerIdxPool :=
  n.fold (fun k _ p => p.setNext (first + k) ((first + k + 1) % 2 ^ 8)) p

/-- `limInitPeerIdxpool` of a session in `role` -/
def limInitPeerIdxpool (role : LimSystemRole) (maxStation : Nat) (p : PeerIdxPool) : PeerIdxPool :=
  let maxAssocSta := maxStation % 2 ^ 8
  let last := max maxAssocSta role.firstPeerIdx
  { ((p.setNext 0 0).linkFrom role.firstPeerIdx (maxAssocSta - role.firstPeerIdx)).setNext last 0 with
    freePeerIdxHead := role.firstPeerIdx
    freePeerIdxTail := last }

/-- `limAssignPeerIdx` of a session with any persona -/
def limAssignPeerIdx (pePersona : PePersona) (limits : AssocLimits) (p : PeerIdxPool) :
    Nat × PeerIdxPool :=
  let maxPeer := pePersona.maxPeer limits
  if limits.gLimAssocStaLimit ≤ peGetCurrentSTAsCount limits.others p
      ∨ (maxPeer ≠ 0 ∧ maxPeer ≤ p.gLimNumOfCurrentSTAs) then (0, p)
  else if p.freePeerIdxHead ≠ 0 then (p.freePeerIdxHead, p.takeHead)
  else (0, p)

end PeerIdxPool

/-! ### Runs -/

structure PeerIdxHeld where
  pool : PeerIdxPool
  held : List Nat

inductive PeerIdxEvent where
  | assign (limits : AssocLimits)
  | release (peerIdx : Nat)

/-- A session that has been created: nothing is counted.  In the role of a station the index of the AP is not to be had. -/
def PeerIdxPool.Blank (role : LimSystemRole) (p : PeerIdxPool) : Prop :=
  p.gLimNumOfCurrentSTAs = 0 ∧ p.assigned = fun i => role = .sta ∧ i = dphStaHashIndexPeer

/-- An index that is returned is held from then on. -/
def PeerIdxHeld.assign (s : PeerIdxHeld) (r : Nat × PeerIdxPool) : PeerIdxHeld where
  pool := r.2
  held := if r.1 = 0 then s.held else r.1 :: s.held

/-- Indices are assigned, and released while they are held. -/
def peerIdxMachine (role : LimSystemRole) (pePersona : PePersona) (maxStation : Nat) :
    Machine PeerIdxHeld PeerIdxEvent where
  init s := ∃ p : PeerIdxPool, p.Blank role ∧ s = ⟨p.limInitPeerIdxpool role maxStation, []⟩
  step s
    | .assign limits => some (s.assign (s.pool.limAssignPeerIdx pePersona limits))
    | .release peerIdx => do
      guard (peerIdx ∈ s.held)
      return ⟨limReleasePeerIdx s.pool peerIdx, s.held.erase peerIdx⟩

/-- **What is to hold of the indices.** -/
structure PeerIdxRight (role : LimSystemRole) (maxStation : Nat) (s : PeerIdxHeld) : Prop where
  /-- no index is held twice -/
  nodup : s.held.Nodup
  /-- 0, and in the role of a station the index of the AP, is never held -/
  ne_zero : 0 ∉ s.held
  ne_peer : role = .sta → dphStaHashIndexPeer ∉ s.held
  le_maxStation : ∀ i ∈ s.held, i ≤ maxStation
  /-- the tail is the last of the free chain, and 0 when there is none -/
  tail : ∃ q, Threaded s.pool.next (peerIdx? s.pool.freePeerIdxHead) q ∧
    peerIdx? s.pool.freePeerIdxTail = q.getLast?
  count : s.pool.gLimNumOfCurrentSTAs = s.held.length

/-- The last index `limInitPeerIdxpool` puts into the free list. -/
def LimSystemRole.lastPeerIdx (role : LimSystemRole) (maxStation : Nat) : Nat :=
  max (maxStation % 2 ^ 8) role.firstPeerIdx

/-- The invariant: the free queue, and that what is assigned from the first index on is held. -/
structure PeerIdxInv (role : LimSystemRole) (maxStation : Nat) (s : PeerIdxHeld) : Prop where
  queue : ∃ q, FreeQueue (role.lastPeerIdx maxStation) s.pool q
  nodup : s.held.Nodup
  held : ∀ i, i ∈ s.held ↔ s.pool.assigned i = true ∧ role.firstPeerIdx ≤ i
  below : ∀ i, 1 ≤ i → i < role.firstPeerIdx → s.pool.assigned i = true
  count : s.pool.gLimNumOfCurrentSTAs = s.held.length

section
variable {role : LimSystemRole} {pePersona : PePersona} {maxStation first i n : Nat}
  {limits : AssocLimits} {p : PeerIdxPool} {s : PeerIdxHeld}

theorem one_le_firstPeerIdx (role : LimSystemRole) : 1 ≤ role.firstPeerIdx := by
  cases role <;> decide

theorem lastPeerIdx_lt (role : LimSystemRole) (maxStation : Nat) : role.lastPeerIdx maxStation < 2 ^ 8 := by
  refine Nat.max_lt.2 ⟨Nat.mod_lt _ (by decide), ?_⟩
  cases role <;> decide

/-! ### The free list at the start -/

theorem linkFrom_spec (p : PeerIdxPool) (hn : first + n < 2 ^ 8) :
    ∀ j < n, (p.linkFrom first n).gpLimPeerIdxpool (first + j) = first + j + 1 := by
  refine fold_rule (fun m (r : PeerIdxPool) => ∀ j < m, r.gpLimPeerIdxpool (first + j)
    = first + j + 1) (fun j hj => absurd hj (not_lt_zero j)) ?_
  intro k r hk hinv j hj
  rcases Nat.lt_succ_iff_lt_or_eq.1 hj with hj | rfl
  · rw [gpLimPeerIdxpool_setNext, update_of_ne (by omega)]
    exact hinv j hj
  · rw [gpLimPeerIdxpool_setNext, update_self, mod_eq_of_lt (by omega)]

theorem linkFrom_same (p : PeerIdxPool) (first n : Nat) : (p.linkFrom first n).assigned = p.assigned ∧
    (p.linkFrom first n).gLimNumOfCurrentSTAs = p.gLimNumOfCurrentSTAs :=
  fold_rule (fun _ (r : PeerIdxPool) => r.assigned = p.assigned ∧
    r.gLimNumOfCurrentSTAs = p.gLimNumOfCurrentSTAs) ⟨rfl, rfl⟩ fun _ _ _ hinv => hinv

theorem PeerIdxPool.Blank.assigned_iff (hp : p.Blank role) :
    p.assigned i = true ↔ 1 ≤ i ∧ i < role.firstPeerIdx := by
  rw [hp.2]
  cases role <;> simp [LimSystemRole.firstPeerIdx, dphStaHashIndexPeer, limStartPeerIdx] <;> omega

theorem PeerIdxPool.Blank.init_free (hp : p.Blank role) :
    FreeQueue (role.lastPeerIdx maxStation) (p.limInitPeerIdxpool role maxStation)
      (range' role.firstPeerIdx (role.lastPeerIdx maxStation - role.firstPeerIdx + 1)) := by
  have hpos := one_le_firstPeerIdx role
  have hlt := lastPeerIdx_lt role maxStation
  have hle : role.firstPeerIdx ≤ role.lastPeerIdx maxStation := le_max_right _ _
  have hassigned := fun i => hp.assigned_iff (i := i)
  obtain ⟨n, hn⟩ := Nat.exists_eq_add_of_le hle
  have hsub : maxStation % 2 ^ 8 - role.firstPeerIdx = n := by
    have hmax : max (maxStation % 2 ^ 8) role.firstPeerIdx = role.firstPeerIdx + n := hn
    omega
  have hinit : p.limInitPeerIdxpool role maxStation =
      { ((p.setNext 0 0).linkFrom role.firstPeerIdx n).setNext (role.firstPeerIdx + n) 0 with
        freePeerIdxHead := role.firstPeerIdx
        freePeerIdxTail := role.firstPeerIdx + n } := by
    rw [limInitPeerIdxpool, hsub]
    rw [LimSystemRole.lastPeerIdx] at hn
    rw [hn]
  rw [hinit, hn, Nat.add_sub_cancel_left]
  generalize role.firstPeerIdx = first at *
  have hnext := linkFrom_spec (p.setNext 0 0) (show first + n < 2 ^ 8 by omega)
  have hsame := (linkFrom_same (p.setNext 0 0) first n).1
  generalize (p.setNext 0 0).linkFrom first n = r at hnext hsame
  have hlink : ∀ j, first ≤ j → j + 1 < first + (n + 1) →
      (r.setNext (first + n) 0).next j = some (j + 1) := by
    intro j hj hjn
    obtain ⟨k, rfl⟩ := Nat.exists_eq_add_of_le hj
    rw [next_setNext, update_of_ne (by omega), next, hnext k (by omega), peerIdx?_of_pos (by omega)]
  have hlast : (r.setNext (first + n) 0).next (first + n) = none := by
    rw [next_setNext, update_self]
    rfl
  have hr : ∀ i, r.assigned i = true ↔ 1 ≤ i ∧ i < first := by
    intro i
    rw [hsame]
    exact hassigned i
  refine ⟨?_, ?_, fun i => ?_, fun i hi => ?_⟩
  · dsimp only
    rw [peerIdx?_of_pos hpos]
    exact threaded_range hlink hlast
  · rw [getLast?_range']
    dsimp only
    rw [peerIdx?_of_pos (by omega)]
    simp
  · have hri := hr i
    rw [mem_range'_1]
    have hfree : r.assigned i = false ↔ ¬ (1 ≤ i ∧ i < first) := by
      rw [← hri]
      simp
    dsimp only [setNext]
    rw [hfree]
    omega
  · have hri : 1 ≤ i ∧ i < first := (hr i).1 hi
    omega

/-! ### Calls -/

theorem limAssignPeerIdx_cases (pePersona : PePersona) (limits : AssocLimits) (p : PeerIdxPool) :
    p.limAssignPeerIdx pePersona limits = (0, p) ∨
      CanAssign limits.gLimAssocStaLimit limits.others p ∧ p.limAssignPeerIdx pePersona limits
          = limAssignPeerIdx limits.gLimAssocStaLimit limits.others p := by
  rw [PeerIdxPool.limAssignPeerIdx]
  split
  · exact .inl rfl
  · next hlim =>
    obtain ⟨hlim, -⟩ := not_or.1 hlim
    split
    · next hhead =>
      refine .inr ⟨⟨not_le.1 hlim, hhead⟩, ?_⟩
      rw [limAssignPeerIdx, if_neg hlim, if_pos hhead]
    · exact .inl rfl

theorem PeerIdxInv.length_lt (h : PeerIdxInv role maxStation s) : s.held.length < 2 ^ 8 := by
  obtain ⟨q, hq⟩ := h.queue
  have hsub : s.held ⊆ range (role.lastPeerIdx maxStation + 1) := by
    intro i hi
    have hi := hq.assigned i ((h.held i).1 hi).1
    exact mem_range.2 (lt_succ_of_le hi.2)
  have hle := (h.nodup.subperm hsub).length_le
  have hlt := lastPeerIdx_lt role maxStation
  have hcount : s.held.length ≠ role.lastPeerIdx maxStation + 1 := by
    intro hfull
    have hperm := (h.nodup.subperm hsub).perm_of_length_le (by rw [hfull, length_range])
    have hzero : 0 ∈ s.held := hperm.mem_iff.2 (mem_range.2 (succ_pos _))
    exact absurd (hq.assigned 0 ((h.held 0).1 hzero).1).1 (by decide)
  rw [length_range] at hle
  omega

theorem PeerIdxInv.assign (h : PeerIdxInv role maxStation s) :
    PeerIdxInv role maxStation (s.assign (s.pool.limAssignPeerIdx pePersona limits)) := by
  rcases limAssignPeerIdx_cases pePersona limits s.pool with hnone | ⟨hcan, hsome⟩
  · rw [hnone]
    exact h
  · obtain ⟨q, hq⟩ := h.queue
    obtain ⟨i, q', hret, rfl, hq', hassigned⟩ := hq.assign hcan
    obtain ⟨hpos, -, hfree⟩ := (hq.mem i).1 mem_cons_self
    have hfirst : role.firstPeerIdx ≤ i := by
      by_contra hlt
      rw [h.below i hpos (not_le.1 hlt)] at hfree
      cases hfree
    have hnot : i ∉ s.held := fun hi => by
      rw [((h.held i).1 hi).1] at hfree
      cases hfree
    rw [hsome, hret, PeerIdxHeld.assign, if_neg (ne_of_gt hpos)]
    refine ⟨⟨q', hq'⟩, nodup_cons.2 ⟨hnot, h.nodup⟩, fun j => ?_, fun j hj hjf => ?_, ?_⟩
    · dsimp only
      rw [hassigned, mem_cons, h.held j]
      rcases eq_or_ne j i with rfl | hj
      · simp [hfirst]
      · simp [hj]
    · dsimp only
      rw [hassigned, update_of_ne (by omega)]
      exact h.below j hj hjf
    · have hlt := h.length_lt
      dsimp only [PeerIdxPool.takeHead]
      rw [h.count, length_cons, mod_eq_of_lt (by omega)]

theorem PeerIdxInv.release (h : PeerIdxInv role maxStation s) (hi : i ∈ s.held) :
    PeerIdxInv role maxStation ⟨limReleasePeerIdx s.pool i, s.held.erase i⟩ := by
  obtain ⟨q, hq⟩ := h.queue
  obtain ⟨hassigned, hfirst⟩ := (h.held i).1 hi
  obtain ⟨hq', hupdate⟩ := hq.release (lastPeerIdx_lt role maxStation) hassigned
  refine ⟨⟨_, hq'⟩, h.nodup.erase i, fun j => ?_, fun j hj hjf => ?_, ?_⟩
  · dsimp only
    rw [hupdate, h.nodup.mem_erase_iff, h.held j]
    rcases eq_or_ne j i with rfl | hj
    · simp
    · simp [hj]
  · dsimp only
    rw [hupdate, update_of_ne (by omega)]
    exact h.below j hj hjf
  · have hlt := h.length_lt
    have hpos := length_pos_of_mem hi
    have hcount : (limReleasePeerIdx s.pool i).gLimNumOfCurrentSTAs
        = (s.pool.gLimNumOfCurrentSTAs + (2 ^ 16 - 1)) % 2 ^ 16 := by
      rw [limReleasePeerIdx, PeerIdxPool.insertTail]
      split <;> rfl
    rw [hcount, h.count, length_erase_of_mem hi]
    omega

theorem PeerIdxPool.Blank.inv (hp : p.Blank role) :
    PeerIdxInv role maxStation ⟨p.limInitPeerIdxpool role maxStation, []⟩ := by
  obtain ⟨hassigned, hcount⟩ := linkFrom_same (p.setNext 0 0) role.firstPeerIdx
    (maxStation % 2 ^ 8 - role.firstPeerIdx)
  refine ⟨⟨_, hp.init_free⟩, nodup_nil, fun i => ?_, fun i hi hlt => ?_, hcount.trans hp.1⟩
  · dsimp only [limInitPeerIdxpool, setNext] at hassigned ⊢
    rw [hassigned, hp.assigned_iff]
    simp
  · dsimp only [limInitPeerIdxpool, setNext] at hassigned ⊢
    rw [hassigned]
    exact hp.assigned_iff.2 ⟨hi, hlt⟩

theorem peerIdxMachine_inv (h : (peerIdxMachine role pePersona maxStation).Reach (fun _ _ => True) s) :
    PeerIdxInv role maxStation s := by
  refine h.invariant (PeerIdxInv role maxStation) ?_ ?_
  · rintro s ⟨p, hp, rfl⟩
    exact hp.inv
  · intro s e s' hinv _ hstep
    cases e with
    | assign limits =>
      cases hstep
      exact hinv.assign
    | release i =>
      obtain ⟨hi, rfl⟩ := guarded_eq_some.1 hstep
      exact hinv.release hi

theorem PeerIdxInv.right (h : PeerIdxInv role maxStation s) (hmax : role.firstPeerIdx ≤ maxStation) :
    PeerIdxRight role maxStation s := by
  obtain ⟨q, hq⟩ := h.queue
  have hpos := one_le_firstPeerIdx role
  refine ⟨h.nodup, fun h0 => ?_, ?_, fun i hi => ?_, ⟨q, hq.threaded, hq.tail⟩, h.count⟩
  · have hle := ((h.held 0).1 h0).2
    omega
  · rintro rfl hpeer
    exact absurd ((h.held _).1 hpeer).2 (by decide)
  · have hle := (hq.assigned i ((h.held i).1 hi).1).2
    exact hle.trans (Nat.max_le.2 ⟨Nat.mod_le _ _, hmax⟩)

def blankPool (role : LimSystemRole) : PeerIdxPool :=
  ⟨fun _ => 0, 0, 0, 0, fun i => role = .sta ∧ i = dphStaHashIndexPeer⟩

theorem reach_firstPeerIdx (role : LimSystemRole) (pePersona : PePersona) (maxStation : Nat) :
    ∃ s, (peerIdxMachine role pePersona maxStation).Reach
    (fun _ _ => True) s ∧ s.held = [role.firstPeerIdx] := by
  have hp : (blankPool role).Blank role := ⟨rfl, rfl⟩
  have hne : role.firstPeerIdx ≠ 0 := ne_of_gt (one_le_firstPeerIdx role)
  have hmax : pePersona.maxPeer ⟨1, 0, 0, 0⟩ = 0 := by
    cases pePersona <;> rfl
  have hret : (((blankPool role).limInitPeerIdxpool role maxStation).limAssignPeerIdx pePersona
      ⟨1, 0, 0, 0⟩).1 = role.firstPeerIdx := by
    rw [PeerIdxPool.limAssignPeerIdx, peGetCurrentSTAsCount, hp.inv.count, hmax]
    exact congrArg Prod.fst (if_pos hne)
  refine ⟨_, .step (.start ⟨_, hp, rfl⟩) trivial (e := .assign ⟨1, 0, 0, 0⟩) rfl, ?_⟩
  rw [PeerIdxHeld.assign, hret, if_neg hne]

end

/-- **The pool of peer indices.**  In every run the indices are as they should be just if the table of
stations has the index that is the first to be given out: 2 in the role of a station, 1 otherwise. -/
theorem peer_idx_pool_iff (role : LimSystemRole) (pePersona : PePersona) (maxStation : Nat) :
    (∀ s, (peerIdxMachine role pePersona maxStation).Reach (fun _ _ => True) s →
      PeerIdxRight role maxStation s) ↔ role.firstPeerIdx ≤ maxStation := by
  constructor
  · intro h
    obtain ⟨s, hs, hheld⟩ := reach_firstPeerIdx role pePersona maxStation
    refine (h s hs).le_maxStation _ ?_
    rw [hheld]
    exact mem_singleton_self _
  · intro hmax s hs
    exact (peerIdxMachine_inv hs).right hmax

theorem one_station_index_two : ∃ s, (peerIdxMachine .sta .other 1).Reach (fun _ _ => True) s ∧
    s.held = [2] ∧ ¬ PeerIdxRight .sta 1 s := by
  refine ⟨_, .step (.start ⟨blankPool .sta, ⟨rfl, rfl⟩, rfl⟩) trivial
    (e := .assign ⟨32, 0, 0, 0⟩) rfl, rfl, fun h => ?_⟩
  exact absurd (h.le_maxStation 2 mem_cons_self) (by decide)

end Qcacld.Lim

import Mathlib.Algebra.Group.Nat.Defs
import Qcacld.Support.Logged
import Qcacld.Support.Owned
import Qcacld.Txrx.RxPnList

/-!
# Txrx — RxDefragOwn

`ol_rx_defrag`, as what it does to the netbufs of a fragment list: which it reads or writes, frees, merges into another and passes on, in this order.  What the decapsulations, the room for a merge and the MIC check come to is left open; the packet numbers are those `ol_rx_pn_check_base` checks.

`defrag_owned_iff` says when a list is owned: always, except that when only the MIC check of the recombined MSDU fails, its netbuf is freed first and reported then.
-/

namespace Qcacld.Txrx
open Qcacld.Adf Qcacld.Support Function List Option Nat

/-! ### What is done to a netbuf -/

inductive NbufOp where
  /-- the netbuf, its descriptor or its frame is read or written -/
  | use (nbuf : AdfNbuf)
  /-- `adf_nbuf_free` -/
  | free (nbuf : AdfNbuf)
  /-- `adf_nbuf_cat`: `src` is copied behind `dst` and freed -/
  | cat (dst src : AdfNbuf)
  /-- `ol_rx_err` -/
  | rxErr (rxFrame : AdfNbuf)
  /-- `ol_rx_fwd_check` takes the MSDU over -/
  | forward (msdu : AdfNbuf)
  /-- `ol_rx_in_order_deliver` or `ol_rx_deliver` takes a list over -/
  | deliver (inOrder : Bool) (msduList : List AdfNbuf)

namespace NbufOp

def uses : NbufOp → List AdfNbuf
  | use nbuf | free nbuf | rxErr nbuf | forward nbuf => [nbuf]
  | cat dst src => [dst, src]
  | deliver _ msduList => msduList

/-- The netbufs that are the driver's no longer. -/
def ends : NbufOp → List AdfNbuf
  | use _ | rxErr _ => []
  | free nbuf | forward nbuf => [nbuf]
  | cat _ src => [src]
  | deliver _ msduList => msduList

end NbufOp

/-- What `ol_rx_defrag` works on, and what it has done. -/
structure FragRun where
  heap : NbufHeap
  peer : PnPeer
  ops : List NbufOp

namespace FragRun

def log (s : FragRun) (op : NbufOp) : FragRun := { s with ops := s.ops ++ [op] }

def setNext (s : FragRun) (msdu : AdfNbuf) (next : Option AdfNbuf) : FragRun :=
  { s with heap := adfNbufSetNext s.heap msdu next, ops := s.ops ++ [.use msdu] }

def olRxFramesFree : Nat → FragRun → Option AdfNbuf → Option FragRun
  | _, s, none => some s
  | 0, _, some _ => none
  | fuel + 1, s, some frag =>
    let next := adfNbufNext s.heap frag
    olRxFramesFree fuel ((s.log (.use frag)).log (.free frag)) next

/-- A fragment after `ol_rx_pn_check_base`: a replay has been reported and freed. -/
def pnChecked (s : FragRun) (cur : AdfNbuf) (r : PnChecked) : FragRun where
  heap := r.heap
  peer := r.peer
  ops := s.ops ++ .use cur :: (if r.freed = [] then [] else .rxErr cur :: r.freed.map .free)

end FragRun

/-! ### Defragmentation -/

/-- What does not change while a list is defragmented, and how the steps come out that are left open. -/
structure DefragEnv where
  /-- `vdev->safemode` -/
  safemode : Bool
  /-- `ol_cfg_is_full_reorder_offload` -/
  isFullReorderOffload : Bool
  vdev : PnVdev
  tid : Fin olTxrxNumExtTids
  desc : AdfNbuf → RxMsdu
  /-- `ol_rx_frag_tkip_decap` -/
  tkipDecap : AdfNbuf → Bool
  /-- `ol_rx_frag_ccmp_demic` -/
  ccmpDemic : AdfNbuf → Bool
  /-- `ol_rx_frag_ccmp_decap` -/
  ccmpDecap : AdfNbuf → Bool
  /-- `ol_rx_frag_wep_decap` -/
  wepDecap : AdfNbuf → Bool
  /-- `ol_rx_defrag_concat`, by what is concatenated -/
  concat : AdfNbuf → Bool
  /-- `ol_rx_frag_tkip_demic` -/
  tkipDemic : AdfNbuf → Bool
  /-- `DEFRAG_IEEE80211_QOS_HAS_SEQ` -/
  qosHasSeq : AdfNbuf → Bool
  /-- `ol_cfg_frame_type` is `wlan_frm_fmt_802_3` -/
  frameType8023 : Bool
  /-- how many steps a list may be followed -/
  fuel : Nat

namespace DefragEnv
variable (env : DefragEnv)

section List
variable (fragList : AdfNbuf)

/-- In `ol_rx_defrag`, a fragment that fails the check: those before it are freed, and those behind. -/
def pnDiscard (s : FragRun) (prev tmpNext : Option AdfNbuf) : Option FragRun := do
  let s ← match prev with
    | some prev => (s.setNext prev none).olRxFramesFree env.fuel (some fragList)
    | none => some s
  s.olRxFramesFree env.fuel tmpNext

/-- In `ol_rx_defrag`, the loop that checks the packet numbers. -/
def pnCheckLoop : Nat → FragRun → (prev cur : Option AdfNbuf) → Option (Exit × FragRun)
  | _, s, _, none => some (.brk, s)
  | 0, _, _, some _ => none
  | fuel + 1, s, prev, some cur => do
    let tmpNext := adfNbufNext s.heap cur
    let s := (s.log (.use cur)).setNext cur none
    let r ← olRxPnCheckList env.desc env.fuel env.vdev s.peer env.tid s.heap cur
    let s := s.pnChecked cur r
    match r.list with
    | none => return (.ret, ← env.pnDiscard fragList s prev tmpNext)
    | some _ =>
      -- the FCS is trimmed off
      let s := (s.log (.use cur)).setNext cur tmpNext
      pnCheckLoop fuel s (some cur) tmpNext

/-- In `ol_rx_defrag`, a loop that decapsulates. -/
def decapLoop (decap : AdfNbuf → Bool) : Nat → FragRun → (cur : Option AdfNbuf) →
    Option (Exit × FragRun)
  | _, s, none => some (.brk, s)
  | 0, _, some _ => none
  | fuel + 1, s, some cur => do
    let tmpNext := adfNbufNext s.heap cur
    let s := (s.log (.use cur)).log (.use cur)
    if decap cur then decapLoop decap fuel s tmpNext
    else return (.ret, ← s.olRxFramesFree env.fuel (some fragList))

/-- The `switch` of `ol_rx_defrag`. -/
def decapSwitch (s : FragRun) : Option (Exit × FragRun) :=
  match s.peer.secType (env.desc fragList).index with
  | .tkip | .tkipNomic => env.decapLoop fragList env.tkipDecap env.fuel s (some fragList)
  | .aesCcmp =>
    env.decapLoop fragList (fun cur => env.ccmpDemic cur && env.ccmpDecap cur) env.fuel s
      (some fragList)
  | .wep40 | .wep104 | .wep128 =>
    env.decapLoop fragList env.wepDecap env.fuel s (some fragList)
  | .none | .wapi => some (.brk, s)

/-- The loop of `ol_rx_defrag_decap_recombine`. -/
def recombineLoop (rxNbuf : AdfNbuf) : Nat → FragRun → (msdu : Option AdfNbuf) →
    Option (Option AdfNbuf × FragRun)
  | _, s, none => some (some rxNbuf, s.log (.use rxNbuf))
  | 0, _, some _ => none
  | fuel + 1, s, some msdu => do
    let tmp := adfNbufNext s.heap msdu
    -- the header is pulled
    let s := ((s.log (.use msdu)).setNext msdu none).log (.use msdu)
    if env.concat msdu then recombineLoop rxNbuf fuel (s.log (.cat rxNbuf msdu)) tmp
    else
      let s ← ((s.log (.use rxNbuf)).log (.use msdu)).olRxFramesFree env.fuel tmp
      return (none, (s.log (.free rxNbuf)).log (.free msdu))

def olRxDefragDecapRecombine (s : FragRun) : Option (Option AdfNbuf × FragRun) :=
  let msdu := adfNbufNext s.heap fragList
  let s := (s.log (.use fragList)).setNext fragList none
  env.recombineLoop fragList env.fuel s msdu

/-- `ol_rx_defrag`, on the recombined MSDU: the MIC is checked, and the frame is converted and passed on. -/
def msduDone (tkipDemic : Bool) (s : FragRun) (msdu : AdfNbuf) : FragRun :=
  let s := if tkipDemic then s.log (.use msdu) else s
  if tkipDemic && !env.tkipDemic msdu then (s.log (.free msdu)).log (.rxErr msdu)
  else
    let s := s.log (.use msdu)
    let s := if env.qosHasSeq msdu then s.log (.use msdu) else s
    let s := if env.frameType8023 then s.log (.use msdu) else s
    s.log (.forward msdu)

/-- `ol_rx_defrag`, once the fragments are decapsulated. -/
def recombined (s : FragRun) : Option FragRun := do
  let tkipDemic : Bool := s.peer.secType (env.desc fragList).index = .tkip
  match ← env.olRxDefragDecapRecombine fragList s with
  | (none, s) => return s
  | (some msdu, s) => return env.msduDone tkipDemic s msdu

/-- `ol_rx_defrag`, once the packet numbers are checked. -/
def decapsulated (s : FragRun) : Option FragRun := do
  match ← env.decapSwitch fragList (s.log (.use fragList)) with
  | (.ret, s) => return s
  | (.brk, s) => env.recombined fragList s

def olRxDefrag (heap : NbufHeap) (peer : PnPeer) : Option FragRun := do
  let s : FragRun := ⟨heap, peer, []⟩
  if env.safemode then
    let msduList ← walk heap env.fuel (some fragList)
    return s.log (.deliver env.isFullReorderOffload msduList)
  else
    match ← env.pnCheckLoop fragList env.fuel s none (some fragList) with
    | (.ret, s) => return s
    | (.brk, s) => env.decapsulated fragList s

end List

/-! ### What is to become of a list -/

/-- The peer after the check of a fragment that passes. -/
def pnPassed (peer : PnPeer) (cur : AdfNbuf) : Option PnPeer := do
  let r ← olRxPnCheckList env.desc 1 env.vdev peer env.tid (fun _ => none) cur
  let _ ← r.list
  return r.peer

/-- **A list of which only the MIC is wrong**: it is encrypted by TKIP, its packet numbers pass, its fragments are decapsulated and put together, and then the MIC check fails. -/
structure MicFails (peer : PnPeer) (fragList : AdfNbuf) (l : List AdfNbuf) : Prop where
  safemode : env.safemode = false
  secType : peer.secType (env.desc fragList).index = .tkip
  pn : (l.foldlM env.pnPassed peer).isSome
  decap : ∀ x ∈ l, env.tkipDecap x = true
  concat : ∀ x ∈ l.tail, env.concat x = true
  mic : env.tkipDemic fragList = false

/-- **A list that is owned**: each netbuf is freed once or passed on once; what is passed on is one MSDU that all the others are merged into, or in safe mode the list as it is; and no netbuf is used after its end. -/
structure DefragOwned (l : List AdfNbuf) (ops : List NbufOp) : Prop where
  once : (ops.flatMap NbufOp.ends).Perm l
  merged : ∀ msdu, .forward msdu ∈ ops → ∀ x ∈ l, x ≠ msdu → .cat msdu x ∈ ops
  delivered : ∀ inOrder msduList, .deliver inOrder msduList ∈ ops →
    env.safemode = true ∧ msduList = l
  live : ops.Pairwise fun a b => ∀ x ∈ a.ends, x ∉ b.uses

end DefragEnv

/-! ### One fragment -/

section Alone
variable {desc : AdfNbuf → RxMsdu} {vdev : PnVdev} {index : TxrxSec} {check : RxPnCheck}
  {heap : NbufHeap} {cur : AdfNbuf} {valid : Bool} {pn : HttRxPn}

/-- The loop of `ol_rx_pn_check_base` on one MSDU. -/
theorem pnLoop_alone (hn : heap cur = none) (fuel : ℕ) :
    let newPn := httRxMpduDescPn vdev.isHighLatency (desc cur) check.len
    pnLoop desc vdev index check (fuel + 1) ⟨heap, none, none, [], valid, pn⟩ (some cur) =
      some (if (desc cur).encrypted then
        if valid && check.cmp newPn pn (index = .ucast) vdev.opmode then
          ⟨heap, none, none, [cur], valid, pn⟩
        else ⟨heap, some cur, some cur, [], true, newPn⟩
      else ⟨heap, some cur, some cur, [], valid, pn⟩) := by
  have htail : mpduTail desc heap (fuel + 1) cur = some cur := by
    rw [mpduTail, adfNbufNext, hn]
    split <;> rfl
  have hend : ∀ s, pnLoop desc vdev index check fuel s none = some s := by
    intro s
    cases fuel <;> rfl
  intro newPn
  rw [pnLoop, htail, bind_eq_bind, bind_some, PnLoop.checkMpdu]
  dsimp only
  rw [adfNbufNext, hn]
  split
  · split
    · rw [freeMsdus, if_pos rfl]
      exact hend _
    · exact hend _
  · exact hend _

/-- **`ol_rx_pn_check_base` on one MSDU**: it is returned or freed, whatever else there is. -/
theorem olRxPnCheckList_alone (desc : AdfNbuf → RxMsdu) (vdev : PnVdev) (peer : PnPeer)
    (tid : Fin olTxrxNumExtTids) (cur : AdfNbuf) :
    ∃ list freed peer', (list = some cur ∧ freed = [] ∨ list = none ∧ freed = [cur]) ∧
      peer'.secType = peer.secType ∧ ∀ (heap : NbufHeap) (fuel : ℕ), heap cur = none →
        olRxPnCheckList desc (fuel + 1) vdev peer tid heap cur =
          some ⟨heap, list, freed, peer'⟩ := by
  have hnull : ∀ heap : NbufHeap, heap cur = none → adfNbufSetNext heap cur none = heap := by
    intro heap hn
    rw [adfNbufSetNext, ← hn, update_eq_self]
  let left (valid : Bool) (pn : HttRxPn) : PnPeer := { peer with
    tidsLastPn := update peer.tidsLastPn tid pn
    tidsLastPnValid := update peer.tidsLastPnValid tid valid }
  let check := vdev.rxPn (peer.secType (desc cur).index)
  let newPn := httRxMpduDescPn vdev.isHighLatency (desc cur) check.len
  by_cases hhost : peer.fwPnCheck = true ∨ vdev.opmode = .ibss ∨ check.len = 0
  · refine ⟨some cur, [], peer, .inl ⟨rfl, rfl⟩, rfl, fun heap fuel hn => ?_⟩
    exact if_pos hhost
  · by_cases he : (desc cur).encrypted = true
    · by_cases hreplay : (peer.tidsLastPnValid tid && check.cmp newPn (peer.tidsLastPn tid)
          ((desc cur).index = .ucast) vdev.opmode) = true
      · refine ⟨none, [cur], left (peer.tidsLastPnValid tid) (peer.tidsLastPn tid),
          .inr ⟨rfl, rfl⟩, rfl, fun heap fuel hn => ?_⟩
        rw [olRxPnCheckList, if_neg hhost, pnLoop_alone hn, if_pos he, if_pos hreplay]
        rfl
      · refine ⟨some cur, [], left true newPn, .inl ⟨rfl, rfl⟩, rfl, fun heap fuel hn => ?_⟩
        rw [olRxPnCheckList, if_neg hhost, pnLoop_alone hn, if_pos he, if_neg hreplay,
          bind_eq_bind, bind_some]
        dsimp only
        rw [hnull heap hn]
        rfl
    · refine ⟨some cur, [], left (peer.tidsLastPnValid tid) (peer.tidsLastPn tid),
        .inl ⟨rfl, rfl⟩, rfl, fun heap fuel hn => ?_⟩
      rw [olRxPnCheckList, if_neg hhost, pnLoop_alone hn, if_neg he, bind_eq_bind, bind_some]
      dsimp only
      rw [hnull heap hn]
      rfl

end Alone

/-! ### A run -/

def NbufOp.passesOn : NbufOp → Bool
  | .forward _ | .deliver .. => true
  | .use _ | .free _ | .cat .. | .rxErr _ => false

namespace FragRun

/-- **On its way**, a run has the netbufs `live` of its list `l` left, and has passed none on. -/
structure Holds (l live : List AdfNbuf) (s : FragRun) : Prop where
  owned : Owned NbufOp.uses NbufOp.ends l s.ops live
  kept : ∀ op ∈ s.ops, op.passesOn = false

section Holds
variable {s : FragRun} {l m frags pre rest : List AdfNbuf} {x : AdfNbuf} {p : Option AdfNbuf} {fuel : ℕ}

theorem Holds.log (h : s.Holds l frags) {op : NbufOp} (hu : ∀ x ∈ op.uses, x ∈ frags)
    (he : frags.Perm (op.ends ++ m)) (hp : op.passesOn = false) : (s.log op).Holds l m := by
  refine ⟨h.owned.concat hu he, fun op' hop' => ?_⟩
  rcases mem_append.1 hop' with hop' | hop'
  · exact h.kept op' hop'
  · rw [mem_singleton.1 hop']
    exact hp

theorem Holds.use (h : s.Holds l m) (hx : x ∈ m) : (s.log (.use x)).Holds l m :=
  h.log (fun _ hy => mem_singleton.1 hy ▸ hx) (.refl m) rfl

theorem Holds.setNext (h : s.Holds l m) (hx : x ∈ m) (next : Option AdfNbuf) :
    (s.setNext x next).Holds l m :=
  ⟨(h.use hx).owned, (h.use hx).kept⟩

theorem Holds.free (h : s.Holds l (x :: m)) : (s.log (.free x)).Holds l m :=
  h.log (fun _ hy => mem_singleton.1 hy ▸ mem_cons_self) (.refl _) rfl

theorem Holds.perm (h : s.Holds l frags) (hm : frags.Perm m) : s.Holds l m :=
  ⟨h.owned.congr_right hm, h.kept⟩

/-- **`ol_rx_frames_free`** frees a list, and nothing else. -/
theorem Holds.framesFree (h : s.Holds l (frags ++ m)) (ht : Threaded s.heap p frags)
    (hf : frags.length ≤ fuel) :
    ∃ s', s.olRxFramesFree fuel p = some s' ∧ s'.Holds l m ∧ s'.heap = s.heap := by
  induction frags generalizing s p fuel with
  | nil =>
    obtain rfl : p = none := ht
    refine ⟨s, ?_, h, rfl⟩
    cases fuel <;> rfl
  | cons x frags ih =>
    obtain ⟨rfl, ht⟩ := ht
    obtain ⟨fuel, rfl⟩ := Nat.exists_eq_succ_of_ne_zero (Nat.ne_zero_of_lt hf)
    have hx := (h.use (x := x) mem_cons_self).free
    exact ih (s := (s.log (.use x)).log (.free x)) hx ht (le_of_succ_le_succ hf)

theorem Holds.pnChecked {r : PnChecked} (h : s.Holds l (x :: m)) :
    (r.freed = [] → (s.pnChecked x r).Holds l (x :: m)) ∧
      (r.freed = [x] → (s.pnChecked x r).Holds l m) := by
  have hx : x ∈ x :: m := mem_cons_self
  have huse := h.use hx
  constructor
  · intro hr
    have hops : (s.pnChecked x r).ops = (s.log (.use x)).ops := by
      rw [FragRun.pnChecked, if_pos hr]
      rfl
    exact ⟨hops ▸ huse.owned, hops ▸ huse.kept⟩
  · intro hr
    have herr : ((s.log (.use x)).log (.rxErr x)).Holds l (x :: m) :=
      huse.log (fun _ hy => mem_singleton.1 hy ▸ hx) (.refl _) rfl
    have hops : (s.pnChecked x r).ops = (((s.log (.use x)).log (.rxErr x)).log (.free x)).ops := by
      simp [FragRun.pnChecked, FragRun.log, hr]
    exact ⟨hops ▸ herr.free.owned, hops ▸ herr.free.kept⟩

theorem Holds.defragOwned (h : s.Holds l []) (env : DefragEnv) (hd : l.Nodup) :
    env.DefragOwned l s.ops where
  once := by
    have hperm := h.owned.perm
    rw [append_nil] at hperm
    exact hperm.symm
  merged msdu hm := nomatch h.kept _ hm
  delivered inOrder msduList hm := nomatch h.kept _ hm
  live := h.owned.pairwise hd

end Holds

end FragRun

namespace DefragEnv

section Loops
variable {env : DefragEnv} {s : FragRun} {l pre rest : List AdfNbuf} {fragList cur : AdfNbuf} {fuel : ℕ}

theorem pnPassed_spec (env : DefragEnv) (peer : PnPeer) (cur : AdfNbuf) :
    ∃ r : PnChecked, r.peer.secType = peer.secType ∧
      (env.pnPassed peer cur = some r.peer ∧ r.list = some cur ∧ r.freed = [] ∨
        env.pnPassed peer cur = none ∧ r.list = none ∧ r.freed = [cur]) ∧
      ∀ (heap : NbufHeap) (fuel : ℕ), heap cur = none →
        olRxPnCheckList env.desc (fuel + 1) env.vdev peer env.tid heap cur =
          some { r with heap := heap } := by
  obtain ⟨list, freed, peer', hlist, hsec, hcheck⟩ :=
    olRxPnCheckList_alone env.desc env.vdev peer env.tid cur
  refine ⟨⟨fun _ => none, list, freed, peer'⟩, hsec, ?_, hcheck⟩
  have hone := hcheck (fun _ => none) 0 rfl
  rw [zero_add] at hone
  rcases hlist with ⟨rfl, rfl⟩ | ⟨rfl, rfl⟩
  · refine .inl ⟨?_, rfl, rfl⟩
    rw [pnPassed, hone]
    rfl
  · refine .inr ⟨?_, rfl, rfl⟩
    rw [pnPassed, hone]
    rfl

/-- **A fragment fails the check**: all the others are freed. -/
theorem pnDiscard_spec {heap : NbufHeap} (h : s.Holds l (pre ++ rest))
    (ht : Threaded heap (some fragList) (pre ++ cur :: rest))
    (hheap : s.heap = adfNbufSetNext heap cur none)
    (hfuel : (pre ++ cur :: rest).length ≤ env.fuel) :
    ∃ s', env.pnDiscard fragList s pre.getLast? (adfNbufNext heap cur) = some s' ∧
      s'.Holds l [] := by
  have hd := ht.nodup
  have hcur := (nodup_cons.1 (nodup_append.1 hd).2.1).1
  have hrest : Threaded s.heap (heap cur) rest := hheap ▸ ht.after.update_of_notMem hcur
  rw [length_append, length_cons] at hfuel
  rcases pre.eq_nil_or_concat with rfl | ⟨pre, prev, rfl⟩
  · have hrest' : s.Holds l (rest ++ []) := (append_nil rest).symm ▸ h
    obtain ⟨s', hfree, hs', -⟩ := hrest'.framesFree hrest (by omega : rest.length ≤ env.fuel)
    exact ⟨s', hfree, hs'⟩
  · -- the fragments before are cut off behind the last of them
    rw [concat_eq_append] at *
    have hcut : Threaded (adfNbufSetNext s.heap prev none) (some fragList) (pre ++ [prev]) := by
      have hbefore := ht.cut
      rw [append_assoc] at hbefore
      exact hheap ▸ hbefore.cut
    have hprev : prev ∉ rest := fun hm =>
      (nodup_append.1 hd).2.2 prev (by simp) prev (mem_cons_of_mem _ hm) rfl
    rw [length_append] at hfuel
    obtain ⟨s₁, hfree₁, hs₁, hheap₁⟩ := (h.setNext (x := prev) (by simp) none).framesFree
      hcut (by rw [length_append]; omega : (pre ++ [prev]).length ≤ env.fuel)
    have hrest₁ : Threaded s₁.heap (heap cur) rest :=
      hheap₁ ▸ hrest.update_of_notMem hprev
    have hs₁' : s₁.Holds l (rest ++ []) := (append_nil rest).symm ▸ hs₁
    obtain ⟨s₂, hfree₂, hs₂, -⟩ := hs₁'.framesFree hrest₁ (by omega : rest.length ≤ env.fuel)
    refine ⟨s₂, ?_, hs₂⟩
    have hlast : (pre ++ [prev]).getLast? = some prev := getLast?_concat
    rw [hlast]
    change ((s.setNext prev none).olRxFramesFree env.fuel (some fragList)).bind _ = _
    rw [hfree₁]
    exact hfree₂

/-- **The packet numbers**: all fragments pass and are still there, or all are freed. -/
theorem pnCheckLoop_spec (env : DefragEnv) (hl : l = pre ++ rest) (ht : Threaded s.heap (some fragList) l)
    (h : s.Holds l l) (hfuel : rest.length ≤ fuel) (hlen : l.length ≤ env.fuel) :
    ∃ e s', env.pnCheckLoop fragList fuel s pre.getLast? rest.head? = some (e, s') ∧
      (e = .brk ∧ rest.foldlM env.pnPassed s.peer = some s'.peer ∧ s'.Holds l l ∧
          s'.heap = s.heap ∧ s'.peer.secType = s.peer.secType ∨
        e = .ret ∧ rest.foldlM env.pnPassed s.peer = none ∧ s'.Holds l []) := by
  induction rest generalizing pre s fuel with
  | nil =>
    refine ⟨.brk, s, ?_, .inl ⟨rfl, rfl, h, rfl, rfl⟩⟩
    cases fuel <;> rfl
  | cons cur rest ih =>
    obtain ⟨fuel, rfl⟩ := Nat.exists_eq_succ_of_ne_zero (Nat.ne_zero_of_lt hfuel)
    have hcur : cur ∈ l := hl ▸ mem_append_right pre mem_cons_self
    obtain ⟨n, hn⟩ := exists_eq_succ_of_ne_zero
      (Nat.ne_zero_of_lt ((length_pos_of_mem hcur).trans_le hlen))
    have hperm : l.Perm (cur :: (pre ++ rest)) := hl ▸ perm_middle
    obtain ⟨r, hsec, hr, hcheck⟩ := env.pnPassed_spec s.peer cur
    let s₁ := (s.log (.use cur)).setNext cur none
    have hs₁ : s₁.Holds l (cur :: (pre ++ rest)) := ((h.use hcur).setNext hcur none).perm hperm
    have hturn : olRxPnCheckList env.desc env.fuel env.vdev s₁.peer env.tid s₁.heap cur =
        some { r with heap := s₁.heap } := by
      rw [hn]
      exact hcheck s₁.heap n (adfNbufSetNext_self ..)
    let s₂ := s₁.pnChecked cur { r with heap := s₁.heap }
    have hloop : env.pnCheckLoop fragList (fuel + 1) s pre.getLast? (some cur) =
        match r.list with
        | none => (env.pnDiscard fragList s₂ pre.getLast? (adfNbufNext s.heap cur)).map (.ret, ·)
        | some _ => env.pnCheckLoop fragList fuel
            ((s₂.log (.use cur)).setNext cur (adfNbufNext s.heap cur)) (some cur)
            (adfNbufNext s.heap cur) := by
      rw [pnCheckLoop]
      dsimp only
      change (olRxPnCheckList env.desc env.fuel env.vdev s₁.peer env.tid s₁.heap cur).bind _ = _
      rw [hturn, bind_some]
      dsimp only
      cases r.list with
      | none => exact map_eq_bind.symm
      | some x => rfl
    rw [head?_cons, hloop, foldlM_cons]
    rcases hr with ⟨hpass, hlist, hfreed⟩ | ⟨hpass, hlist, hfreed⟩
    · rw [hlist, hpass, bind_eq_bind, bind_some]
      dsimp only
      have hs₂ : s₂.Holds l l :=
        ((hs₁.pnChecked (r := { r with heap := s₁.heap })).1 hfreed).perm hperm.symm
      let s₃ := (s₂.log (.use cur)).setNext cur (adfNbufNext s.heap cur)
      have hs₃ : s₃.Holds l l := (hs₂.use hcur).setNext hcur _
      -- the fragment is hooked in again where it was
      have hheap₃ : s₃.heap = s.heap := by
        change update (update s.heap cur none) cur (s.heap cur) = s.heap
        rw [update_idem, update_eq_self]
      have hnext : adfNbufNext s.heap cur = rest.head? := (hl ▸ ht).after.head
      have hl₃ : l = (pre ++ [cur]) ++ rest := hl.trans (append_cons ..)
      obtain ⟨e, s', hrun, hs'⟩ := ih hl₃ (hheap₃ ▸ ht) hs₃ (le_of_succ_le_succ hfuel)
      rw [getLast?_concat, ← hnext] at hrun
      refine ⟨e, s', hrun, ?_⟩
      rcases hs' with ⟨he, hfold, hhold, hheap, hsec'⟩ | ⟨he, hfold, hhold⟩
      · exact .inl ⟨he, hfold, hhold, hheap.trans hheap₃, hsec'.trans hsec⟩
      · exact .inr ⟨he, hfold, hhold⟩
    · rw [hlist, hpass]
      have hs₂ : s₂.Holds l (pre ++ rest) := hs₁.pnChecked.2 hfreed
      have hdiscard : ∃ s', env.pnDiscard fragList s₂ pre.getLast? (adfNbufNext s.heap cur) =
          some s' ∧ s'.Holds l [] := pnDiscard_spec hs₂ (hl ▸ ht) rfl (hl ▸ hlen)
      obtain ⟨s', hdis, hs'⟩ := hdiscard
      refine ⟨.ret, s', ?_, .inr ⟨rfl, rfl, hs'⟩⟩
      dsimp only
      rw [hdis]
      rfl

/-- **A loop that decapsulates**: all fragments are decapsulated and still there, or all are freed. -/
theorem decapLoop_spec {decap : AdfNbuf → Bool} (hl : l = pre ++ rest)
    (ht : Threaded s.heap (some fragList) l) (h : s.Holds l l) (hfuel : rest.length ≤ fuel)
    (hlen : l.length ≤ env.fuel) :
    ∃ e s', env.decapLoop fragList decap fuel s rest.head? = some (e, s') ∧
      (e = .brk ∧ (∀ x ∈ rest, decap x = true) ∧ s'.Holds l l ∧ s'.heap = s.heap ∧
          s'.peer = s.peer ∨
        e = .ret ∧ (∃ x ∈ rest, decap x = false) ∧ s'.Holds l []) := by
  induction rest generalizing pre s fuel with
  | nil =>
    refine ⟨.brk, s, ?_, .inl ⟨rfl, fun _ hx => (nomatch hx), h, rfl, rfl⟩⟩
    cases fuel <;> rfl
  | cons cur rest ih =>
    obtain ⟨fuel, rfl⟩ := Nat.exists_eq_succ_of_ne_zero (Nat.ne_zero_of_lt hfuel)
    have hcur : cur ∈ l := hl ▸ mem_append_right pre mem_cons_self
    let s₁ := (s.log (.use cur)).log (.use cur)
    have hs₁ : s₁.Holds l l := (h.use hcur).use hcur
    have hnext : adfNbufNext s.heap cur = rest.head? := (hl ▸ ht).after.head
    rw [head?_cons, decapLoop]
    cases hdecap : decap cur with
    | true =>
      obtain ⟨e, s', hrun, hs'⟩ := ih (s := s₁) (hl.trans (append_cons ..)) ht hs₁
        (le_of_succ_le_succ hfuel)
      rw [if_pos rfl, hnext]
      refine ⟨e, s', hrun, ?_⟩
      rcases hs' with ⟨he, hall, hhold⟩ | ⟨he, ⟨x, hx, hbad⟩, hhold⟩
      · exact .inl ⟨he, forall_mem_cons.2 ⟨hdecap, hall⟩, hhold⟩
      · exact .inr ⟨he, ⟨x, mem_cons_of_mem _ hx, hbad⟩, hhold⟩
    | false =>
      have hs₁' : s₁.Holds l (l ++ []) := (append_nil l).symm ▸ hs₁
      obtain ⟨s', hfree, hs', -⟩ := hs₁'.framesFree (p := some fragList) ht hlen
      rw [if_neg Bool.false_ne_true, hfree]
      exact ⟨.ret, s', rfl, .inr ⟨rfl, ⟨cur, mem_cons_self, hdecap⟩, hs'⟩⟩

/-- **Decapsulation**, by what the key asks for. -/
theorem decapSwitch_spec (ht : Threaded s.heap (some fragList) l) (h : s.Holds l l)
    (hlen : l.length ≤ env.fuel) :
    ∃ decap e s', (s.peer.secType (env.desc fragList).index = .tkip → decap = env.tkipDecap) ∧
      env.decapSwitch fragList s = some (e, s') ∧
      (e = .brk ∧ (∀ x ∈ l, decap x = true) ∧ s'.Holds l l ∧ s'.heap = s.heap ∧ s'.peer = s.peer ∨
        e = .ret ∧ (∃ x ∈ l, decap x = false) ∧ s'.Holds l []) := by
  have hloop : ∀ decap, ∃ e s', env.decapLoop fragList decap env.fuel s (some fragList) =
      some (e, s') ∧ (e = .brk ∧ (∀ x ∈ l, decap x = true) ∧ s'.Holds l l ∧ s'.heap = s.heap ∧
            s'.peer = s.peer ∨
          e = .ret ∧ (∃ x ∈ l, decap x = false) ∧ s'.Holds l []) := by
    intro decap
    rw [ht.head]
    exact decapLoop_spec (nil_append l).symm ht h hlen hlen
  rw [decapSwitch]
  cases s.peer.secType (env.desc fragList).index with
  | tkip | tkipNomic => exact ⟨_, _, _, fun _ => rfl, (hloop _).choose_spec.choose_spec⟩
  | aesCcmp | wep40 | wep104 | wep128 =>
    exact ⟨_, _, _, fun h => (nomatch h), (hloop _).choose_spec.choose_spec⟩
  | none | wapi =>
    exact ⟨fun _ => true, .brk, s, fun h => (nomatch h), rfl,
      .inl ⟨rfl, fun _ _ => rfl, h, rfl, rfl⟩⟩

/-- **Recombination**: the fragments are merged into the first, or all are freed. -/
theorem recombineLoop_spec {rxNbuf : AdfNbuf} {p : Option AdfNbuf} (ht : Threaded s.heap p rest)
    (h : s.Holds l (rxNbuf :: rest)) (hfuel : rest.length ≤ fuel) (hlen : rest.length ≤ env.fuel) :
    ∃ r s', env.recombineLoop rxNbuf fuel s p = some (r, s') ∧
      (r = some rxNbuf ∧ (∀ x ∈ rest, env.concat x = true) ∧ s'.Holds l [rxNbuf] ∧
          s.ops ⊆ s'.ops ∧ (∀ x ∈ rest, .cat rxNbuf x ∈ s'.ops) ∨
        r = none ∧ (∃ x ∈ rest, env.concat x = false) ∧ s'.Holds l []) := by
  induction rest generalizing s p fuel with
  | nil =>
    obtain rfl : p = none := ht
    refine ⟨some rxNbuf, s.log (.use rxNbuf), ?_, .inl ⟨rfl, fun _ hx => (nomatch hx),
      h.use mem_cons_self, subset_append_left .., fun _ hx => (nomatch hx)⟩⟩
    cases fuel <;> rfl
  | cons msdu rest ih =>
    obtain ⟨fuel, rfl⟩ := Nat.exists_eq_succ_of_ne_zero (Nat.ne_zero_of_lt hfuel)
    have hmsdu := (nodup_cons.1 ht.nodup).1
    obtain ⟨rfl, ht⟩ := ht
    have hmem : msdu ∈ rxNbuf :: msdu :: rest := by simp
    let s₁ := ((s.log (.use msdu)).setNext msdu none).log (.use msdu)
    have hs₁ : s₁.Holds l (rxNbuf :: msdu :: rest) := ((h.use hmem).setNext hmem none).use hmem
    have ht₁ : Threaded s₁.heap (adfNbufNext s.heap msdu) rest := ht.update_of_notMem hmsdu
    rw [recombineLoop]
    cases hconcat : env.concat msdu with
    | true =>
      let s₂ := s₁.log (.cat rxNbuf msdu)
      have hs₂ : s₂.Holds l (rxNbuf :: rest) :=
        hs₁.log (by simp [NbufOp.uses]) (.swap ..) rfl
      obtain ⟨r, s', hrun, hs'⟩ := ih (s := s₂) ht₁ hs₂ (le_of_succ_le_succ hfuel)
        (le_of_succ_le hlen)
      refine ⟨r, s', hrun, ?_⟩
      rcases hs' with ⟨hr, hall, hhold, hsub, hcat⟩ | ⟨hr, ⟨x, hx, hbad⟩, hhold⟩
      · refine .inl ⟨hr, forall_mem_cons.2 ⟨hconcat, hall⟩, hhold, ?_,
          forall_mem_cons.2 ⟨hsub (by simp [s₂, FragRun.log]), hcat⟩⟩
        refine List.Subset.trans (fun op hop => ?_) hsub
        simp [s₂, s₁, FragRun.log, FragRun.setNext, hop]
      · exact .inr ⟨hr, ⟨x, mem_cons_of_mem _ hx, hbad⟩, hhold⟩
    | false =>
      let s₂ := (s₁.log (.use rxNbuf)).log (.use msdu)
      have hs₂ : s₂.Holds l (rest ++ [rxNbuf, msdu]) :=
        ((hs₁.use mem_cons_self).use hmem).perm (perm_append_comm : ([rxNbuf, msdu] ++ rest).Perm _)
      obtain ⟨s', hfree, hs', -⟩ := hs₂.framesFree ht₁ (le_of_succ_le hlen : rest.length ≤ env.fuel)
      refine ⟨none, (s'.log (.free rxNbuf)).log (.free msdu), ?_,
        .inr ⟨rfl, ⟨msdu, mem_cons_self, hconcat⟩, hs'.free.free⟩⟩
      change (s₂.olRxFramesFree env.fuel (adfNbufNext s.heap msdu)).bind _ = _
      rw [hfree]
      rfl

/-- The MSDU is all that is left, and the other fragments are merged into it. -/
structure Merged (l : List AdfNbuf) (msdu : AdfNbuf) (s : FragRun) : Prop where
  holds : s.Holds l [msdu]
  cat : ∀ x ∈ l, x ≠ msdu → .cat msdu x ∈ s.ops

theorem Merged.use {msdu : AdfNbuf} (h : Merged l msdu s) (c : Bool) :
    Merged l msdu (if c then s.log (.use msdu) else s) := by
  split
  · exact ⟨h.holds.use mem_cons_self, fun x hx hne => mem_append_left _ (h.cat x hx hne)⟩
  · exact h

theorem Merged.forward {msdu : AdfNbuf} (h : Merged l msdu s) (env : DefragEnv) (hd : l.Nodup) :
    env.DefragOwned l (s.log (.forward msdu)).ops := by
  have howned : Owned NbufOp.uses NbufOp.ends l (s.log (.forward msdu)).ops [] :=
    h.holds.owned.concat (fun _ hy => hy) (.refl _)
  have hnew : ∀ op ∈ (s.log (.forward msdu)).ops, op.passesOn = true → op = .forward msdu := by
    intro op hop hp
    rcases mem_append.1 hop with hop | hop
    · exact absurd hp (by rw [h.holds.kept op hop]; exact Bool.false_ne_true)
    · exact mem_singleton.1 hop
  refine ⟨?_, fun msdu' hm x hx hne => ?_, fun inOrder msduList hm => ?_, howned.pairwise hd⟩
  · have hperm := howned.perm
    rw [append_nil] at hperm
    exact hperm.symm
  · cases hnew _ hm rfl
    exact mem_append_left _ (h.cat x hx hne)
  · cases hnew _ hm rfl

/-- **The recombined MSDU** is passed on, or freed and then reported. -/
theorem msduDone_spec {msdu : AdfNbuf} (tkipDemic : Bool) (h : Merged l msdu s) (hd : l.Nodup) :
    env.DefragOwned l (env.msduDone tkipDemic s msdu).ops ↔
      ¬ (tkipDemic = true ∧ env.tkipDemic msdu = false) := by
  have hmic : (tkipDemic && !env.tkipDemic msdu) = true ↔
      tkipDemic = true ∧ env.tkipDemic msdu = false := by simp
  rw [← hmic, msduDone]
  dsimp only
  split
  · next hbad =>
    refine ⟨fun howned => ?_, fun hnot => absurd hbad hnot⟩
    -- the report follows the free
    have hlive := (pairwise_append.1 howned.live).2.2 (.free msdu)
      (mem_append_right _ (mem_singleton_self _)) (.rxErr msdu) (mem_singleton_self _)
    exact absurd (mem_singleton_self msdu) (hlive msdu (mem_singleton_self msdu))
  · next hgood =>
    refine ⟨fun _ => hgood, fun _ => ?_⟩
    have hread := (h.use tkipDemic).use true
    exact ((hread.use (env.qosHasSeq msdu)).use env.frameType8023).forward env hd

theorem recombined_spec (ht : Threaded s.heap (some fragList) (fragList :: rest))
    (h : s.Holds (fragList :: rest) (fragList :: rest)) (hlen : rest.length < env.fuel) :
    ∃ s', env.recombined fragList s = some s' ∧ (env.DefragOwned (fragList :: rest) s'.ops ↔
      ¬ (s.peer.secType (env.desc fragList).index = .tkip ∧
        (∀ x ∈ rest, env.concat x = true) ∧ env.tkipDemic fragList = false)) := by
  have hd := ht.nodup
  have hfirst : fragList ∈ fragList :: rest := mem_cons_self
  let s₁ := (s.log (.use fragList)).setNext fragList none
  have hs₁ : s₁.Holds (fragList :: rest) (fragList :: rest) :=
    (h.use hfirst).setNext hfirst none
  have ht₁ : Threaded s₁.heap (adfNbufNext s.heap fragList) rest :=
    ht.2.update_of_notMem (nodup_cons.1 hd).1
  obtain ⟨r, s', hrun, hs'⟩ := recombineLoop_spec ht₁ hs₁ hlen.le (hlen.le : rest.length ≤ env.fuel)
  change ∃ s', (env.recombineLoop fragList env.fuel s₁ (adfNbufNext s.heap fragList)).bind _ =
    some s' ∧ _
  rw [hrun]
  rcases hs' with ⟨rfl, hall, hhold, -, hcat⟩ | ⟨rfl, ⟨x, hx, hbad⟩, hhold⟩
  · have hmerged : Merged (fragList :: rest) fragList s' :=
      ⟨hhold, fun x hx hne => hcat x ((mem_cons.1 hx).resolve_left hne)⟩
    refine ⟨_, rfl, (msduDone_spec _ hmerged hd).trans (not_congr ?_)⟩
    rw [decide_eq_true_iff]
    exact and_congr_right fun _ => (and_iff_right hall).symm
  · refine ⟨s', rfl, ⟨fun _ hmic => ?_, fun _ => hhold.defragOwned env hd⟩⟩
    rw [hmic.2.1 x hx] at hbad
    cases hbad

theorem decapsulated_spec (env : DefragEnv) (ht : Threaded s.heap (some fragList) (fragList :: rest))
    (h : s.Holds (fragList :: rest) (fragList :: rest)) (hlen : rest.length < env.fuel) :
    ∃ s', env.decapsulated fragList s = some s' ∧ (env.DefragOwned (fragList :: rest) s'.ops ↔
        ¬ (s.peer.secType (env.desc fragList).index = .tkip ∧
          (∀ x ∈ fragList :: rest, env.tkipDecap x = true) ∧
          (∀ x ∈ rest, env.concat x = true) ∧ env.tkipDemic fragList = false)) := by
  have hread := h.use (x := fragList) mem_cons_self
  obtain ⟨decap, e, s', hdecap, hrun, hs'⟩ :=
    decapSwitch_spec (s := s.log (.use fragList)) ht hread hlen
  change ∃ s', (env.decapSwitch fragList (s.log (.use fragList))).bind _ = some s' ∧ _
  rw [hrun]
  rcases hs' with ⟨rfl, hall, hhold, hheap, hpeer⟩ | ⟨rfl, ⟨x, hx, hbad⟩, hhold⟩
  · obtain ⟨s'', hrec, hs''⟩ := recombined_spec (hheap ▸ ht) hhold hlen
    refine ⟨s'', hrec, hs''.trans (not_congr ?_)⟩
    rw [hpeer]
    refine and_congr_right fun hsec => ?_
    rw [hdecap hsec] at hall
    exact (and_iff_right hall).symm
  · refine ⟨s', rfl, ⟨fun _ hmic => ?_, fun _ => hhold.defragOwned env ht.nodup⟩⟩
    rw [hdecap hmic.1, hmic.2.1 x hx] at hbad
    cases hbad

end Loops

/-- **Ownership.**  A fragment list is owned, unless its MIC is all that is wrong: then the recombined MSDU is freed before it is given to `ol_rx_err`. -/
theorem defrag_owned_iff (env : DefragEnv) (heap : NbufHeap) (peer : PnPeer) (fragList : AdfNbuf)
    (l : List AdfNbuf) (ht : Threaded heap (some fragList) l) (hlen : l.length ≤ env.fuel) :
    ∃ s, env.olRxDefrag fragList heap peer = some s ∧
      (env.DefragOwned l s.ops ↔ ¬ env.MicFails peer fragList l) := by
  have hd := ht.nodup
  obtain ⟨rest, rfl⟩ : ∃ rest, l = fragList :: rest := by
    cases l with
    | nil => exact absurd ht (some_ne_none _)
    | cons x rest => exact ⟨rest, congrArg (· :: rest) (some.inj ht.1).symm⟩
  have hstart : (⟨heap, peer, []⟩ : FragRun).Holds (fragList :: rest) (fragList :: rest) :=
    ⟨.done (.refl _), fun _ hop => (nomatch hop)⟩
  rw [olRxDefrag]
  cases hsafe : env.safemode with
  | true =>
    rw [if_pos rfl, ht.walk hlen]
    refine ⟨_, rfl, ⟨fun _ h => ?_, fun _ => ⟨?_, ?_, ?_, ?_⟩⟩⟩
    · exact absurd (hsafe.symm.trans h.safemode) Bool.true_eq_false.mp
    · exact .of_eq (append_nil _)
    · intro msdu hm
      cases mem_singleton.1 hm
    · intro inOrder msduList hm
      cases mem_singleton.1 hm
      exact ⟨hsafe, rfl⟩
    · exact pairwise_singleton ..
  | false =>
    rw [if_neg Bool.false_ne_true]
    obtain ⟨e, s', hrun, hs'⟩ := pnCheckLoop_spec env (nil_append _).symm ht hstart hlen hlen
    change env.pnCheckLoop fragList env.fuel ⟨heap, peer, []⟩ none (some fragList) = _ at hrun
    rw [hrun]
    rcases hs' with ⟨rfl, hfold, hhold, hheap, hsec⟩ | ⟨rfl, hfold, hhold⟩
    · obtain ⟨s'', hdone, hs''⟩ := decapsulated_spec env (hheap ▸ ht) hhold hlen
      refine ⟨s'', hdone, hs''.trans (not_congr ⟨fun h => ?_, fun h => ?_⟩)⟩
      · exact ⟨hsafe, (congrFun hsec _).symm.trans h.1, isSome_iff_exists.2 ⟨_, hfold⟩,
          h.2.1, h.2.2.1, h.2.2.2⟩
      · exact ⟨(congrFun hsec _).trans h.secType, h.decap, h.concat, h.mic⟩
    · refine ⟨s', rfl, ⟨fun _ h => ?_, fun _ => hhold.defragOwned env hd⟩⟩
      have hpn := h.pn
      rw [hfold] at hpn
      cases hpn

/-- Two fragments encrypted by TKIP with the packet numbers 1 and 2, of which only the MIC may be wrong. -/
def twoFrags (micOk : Bool) : DefragEnv where
  safemode := false
  isFullReorderOffload := false
  vdev := ⟨.sta, false, olTxrxPdevRxPn⟩
  tid := 0
  desc cur := ⟨true, false, true, ⟨BitVec.ofNat 64 (cur + 1), 0⟩, ⟨0, 0⟩⟩
  tkipDecap _ := true
  ccmpDemic _ := true
  ccmpDecap _ := true
  wepDecap _ := true
  concat _ := true
  tkipDemic _ := micOk
  qosHasSeq _ := true
  frameType8023 := true
  fuel := 2

/-- A peer with a TKIP key that has received nothing yet. -/
def tkipPeer : PnPeer := ⟨false, fun _ => .tkip, fun _ => ⟨0, 0⟩, fun _ => false⟩

theorem threaded_twoFrags : Threaded (threadAll (fun _ => none) [0, 1]) (some 0) [0, 1] :=
  threaded_threadAll (by decide)

/-- The second fragment is merged into the first, which is freed, and reported after that. -/
theorem micWrong_reported :
    ¬ ∀ (env : DefragEnv) (heap : NbufHeap) (peer : PnPeer) (fragList : AdfNbuf) (l : List AdfNbuf),
      Threaded heap (some fragList) l → l.length ≤ env.fuel →
        ∃ s, env.olRxDefrag fragList heap peer = some s ∧ env.DefragOwned l s.ops := by
  intro h
  obtain ⟨s, hs, howned⟩ := h (twoFrags false) _ tkipPeer 0 [0, 1] threaded_twoFrags le_rfl
  have hbad : ∀ ops, ((twoFrags false).olRxDefrag 0 (threadAll (fun _ => none) [0, 1])
      tkipPeer).map FragRun.ops = some ops →
        ¬ ops.Pairwise fun a b => ∀ x ∈ a.ends, x ∉ b.uses := by
    intro ops hops
    obtain rfl := some.inj (hops.symm.trans rfl)
    decide
  exact hbad s.ops (by rw [hs]; rfl) howned.live

theorem defrag_owned_iff_twoFrags :
    ∃ s, (twoFrags true).olRxDefrag 0 (threadAll (fun _ => none) [0, 1]) tkipPeer = some s ∧
      ((twoFrags true).DefragOwned [0, 1] s.ops ↔ ¬ (twoFrags true).MicFails tkipPeer 0 [0, 1]) :=
  defrag_owned_iff _ _ _ _ _ threaded_twoFrags le_rfl

end DefragEnv

end Qcacld.Txrx

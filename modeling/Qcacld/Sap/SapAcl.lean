import Qcacld.Support.Bytes
import Qcacld.Support.Runs
import Qcacld.Support.Sorted
import Mathlib.Data.Set.Basic

/-!
# Sap — SapAcl

The access control of the access point: two sorted lists of addresses, searched by halving, and `WLANSAP_ModifyACL`, which adds to one of them and takes out of the other.

Over them stands what the lists are for, two sets of addresses (`AclSets`): those added and not since removed.  `acl_right` says that in every run of calls the lists are sorted, within their arrays, and hold these sets, so that `sapIsPeerMacAllowed` decides by them.
-/

namespace Qcacld.Sap
open Qcacld.Support Function Option Nat

/-! ### Addresses -/

/-- `v_MACADDR_t` -/
structure VMacAddr where
  bytes : Vector UInt8 6
deriving DecidableEq

/-- The number whose order is that of `memcmp`. -/
def VMacAddr.key (a : VMacAddr) : Nat := bigEndian a.bytes.toList

theorem VMacAddr.key_injective : Function.Injective VMacAddr.key := by
  rintro ⟨a⟩ ⟨b⟩ h
  have hl : a.toList = b.toList := bigEndian_inj (by simp) h
  rw [Vector.toList_inj.1 hl]

/-- Addresses are ordered by their bytes, the first highest. -/
instance : LinearOrder VMacAddr := .lift' VMacAddr.key VMacAddr.key_injective

def VMacAddr.zero : VMacAddr := ⟨.replicate 6 0⟩

/-- `vos_mem_compare2` of two addresses. -/
def vosMemCompare2 (a b : VMacAddr) : Int := memcmp a.bytes.toList b.bytes.toList

section
variable {a b : VMacAddr}

theorem vosMemCompare2_eq_zero : vosMemCompare2 a b = 0 ↔ a = b := by
  rw [vosMemCompare2, memcmp_eq_zero_iff (by simp), Vector.toList_inj]
  cases a
  cases b
  simp

theorem vosMemCompare2_neg : vosMemCompare2 a b < 0 ↔ a < b := memcmp_neg_iff (by simp)

theorem vosMemCompare2_pos : 0 < vosMemCompare2 a b ↔ b < a := memcmp_pos_iff (by simp)

end

/-! ### Lists of addresses -/

def maxAclMacAddress : Nat := 32

/-- An array of `MAX_ACL_MAC_ADDRESS` addresses. -/
abbrev MacList := Nat → VMacAddr

/-- Read the array; there is nothing outside of it. -/
def MacList.read (macList : MacList) (i : Int) : Option VMacAddr := do
  guard (0 ≤ i ∧ i < maxAclMacAddress)
  return macList i.toNat

def MacList.write (macList : MacList) (i : Nat) (mac : VMacAddr) : Option MacList := do
  guard (i < maxAclMacAddress)
  return update macList i mac

/-- Store into a `v_S7_t`. -/
def toS7 (n : Int) : Int := n.bmod (2 ^ 8)

/-- The loop of `sapSearchMacList`: the place found, if one is.  `fuel` bounds the turns. -/
def searchMacLoop (macList : MacList) (peerMac : VMacAddr) : Nat → Int → Int → Option (Option Nat)
  | 0, _, _ => none
  | fuel + 1, nStart, nEnd =>
    if nStart ≤ nEnd then
      let nMiddle := toS7 ((nStart + nEnd).tdiv 2)
      (macList.read nMiddle).bind fun mac =>
        let nRes := vosMemCompare2 mac peerMac
        if nRes = 0 then some (some nMiddle.toNat)
        else if nRes < 0 then searchMacLoop macList peerMac fuel (toS7 (nMiddle + 1)) nEnd
        else searchMacLoop macList peerMac fuel nStart (toS7 (nMiddle - 1))
    else some none

def sapSearchMacList (macList : MacList) (numMac : Nat) (peerMac : VMacAddr) :
    Option (Option Nat) :=
  let nEnd := toS7 (numMac - 1)
  if numMac > maxAclMacAddress then some none
  else searchMacLoop macList peerMac (numMac + 1) 0 nEnd

/-- The loop of `sapAddMacToACL` down from place `i - 1`: the list, and the place it leaves free. -/
def addLoop (peerMac : VMacAddr) : Nat → MacList → Option (MacList × Nat)
  | 0, macList => some (macList, 0)
  | i + 1, macList =>
    if vosMemCompare2 (macList i) peerMac > 0 then
      -- alphabetically greater addresses make room
      (macList.write (i + 1) (macList i)).bind (addLoop peerMac i)
    else some (macList, i + 1)

/-- `sapAddMacToACL`: the list and its size. -/
def sapAddMacToAcl (macList : MacList) (size : Nat) (peerMac : VMacAddr) : Option (MacList × Nat) :=
  if size > maxAclMacAddress then some (macList, size)
  else do
    let (macList, i) ← addLoop peerMac size macList
    let macList ← macList.write i peerMac
    return (macList, (size + 1) % 2 ^ 8)

/-- The loop of `sapRemoveMacFromACL`, for `n` more places from `i` on. -/
def removeLoop : Nat → Nat → MacList → Option MacList
  | 0, _, macList => some macList
  | n + 1, i, macList => (macList.write i (macList (i + 1))).bind (removeLoop n (i + 1))

/-- `sapRemoveMacFromACL`: the list and its size. -/
def sapRemoveMacFromAcl (macList : MacList) (size index : Nat) : Option (MacList × Nat) :=
  if size = 0 ∨ size > maxAclMacAddress then some (macList, size)
  else do
    let macList ← removeLoop (size - 1 - index) index macList
    let macList ← macList.write (size - 1) .zero
    return (macList, size - 1)

/-- If the station is found in the list, it is removed from it. -/
def removeIfFound (macList : MacList) (size : Nat) : Option Nat → Option (MacList × Nat)
  | some index => sapRemoveMacFromAcl macList size index
  | none => some (macList, size)

/-! ### The calls -/

/-- `eSapMacAddrACL`; `WLANSAP_SetMode` casts any number to it. -/
inductive SapMacAddrAcl where
  | acceptUnlessDenied
  | denyUnlessAccepted
  | supportAcceptAndDeny
  | allowAll
  | other (mode : Nat)
deriving DecidableEq

/-- `eSapACLType`, as the ioctl passes it. -/
inductive SapAclType where
  | blackList
  | whiteList
  | other (listType : Int)

/-- `eSapACLCmdType`, as the ioctl passes it. -/
inductive SapAclCmdType where
  | addStaToAcl
  | deleteStaFromAcl
  | other (cmd : Int)

inductive VosStatus where
  | success
  | eFailure
  | eFault
  | eResources
deriving DecidableEq

/-- What the access control keeps in the SAP context. -/
structure SapAcl where
  eSapMacAddrAclMode : SapMacAddrAcl
  acceptMacList : MacList
  nAcceptMac : Nat
  denyMacList : MacList
  nDenyMac : Nat

open SapAcl

/-- What a call returns, and the station it sends a deauth to. -/
structure AclReply where
  status : VosStatus
  deauthSta : Option VMacAddr

def wlansapClearAcl : Option SapAcl → AclReply × Option SapAcl
  | none => (⟨.eResources, none⟩, none)
  | some ctx => (⟨.success, none⟩, some { ctx with
      denyMacList := fun _ => .zero, nDenyMac := 0
      acceptMacList := fun _ => .zero, nAcceptMac := 0 })

def wlansapModifyAcl (pSapCtx : Option SapAcl) (pPeerStaMac : VMacAddr) (listType : SapAclType)
    (cmd : SapAclCmdType) : Option (AclReply × Option SapAcl) :=
  match pSapCtx with
  | none => some (⟨.eFault, none⟩, none)
  | some ctx => do
    let staInWhiteList ← sapSearchMacList ctx.acceptMacList ctx.nAcceptMac pPeerStaMac
    let staInBlackList ← sapSearchMacList ctx.denyMacList ctx.nDenyMac pPeerStaMac
    if staInWhiteList.isSome ∧ staInBlackList.isSome then
      -- initial lists passed incorrect
      return (⟨.eFailure, none⟩, some ctx)
    else
      match listType, cmd with
      | .whiteList, .addStaToAcl =>
        if ctx.nAcceptMac = maxAclMacAddress then return (⟨.eFailure, none⟩, some ctx)
        else if staInWhiteList.isSome then return (⟨.success, none⟩, some ctx)
        else
          let (deny, nDeny) ← removeIfFound ctx.denyMacList ctx.nDenyMac staInBlackList
          let (accept, nAccept) ← sapAddMacToAcl ctx.acceptMacList ctx.nAcceptMac pPeerStaMac
          return (⟨.success, none⟩, some { ctx with
            denyMacList := deny, nDenyMac := nDeny
            acceptMacList := accept, nAcceptMac := nAccept })
      | .whiteList, .deleteStaFromAcl =>
        match staInWhiteList with
        | some i =>
          let (accept, nAccept) ← sapRemoveMacFromAcl ctx.acceptMacList ctx.nAcceptMac i
          -- a client that is deleted from the white list is sent a deauth
          return (⟨.success, some pPeerStaMac⟩, some { ctx with
            acceptMacList := accept, nAcceptMac := nAccept })
        | none => return (⟨.eFailure, none⟩, some ctx)
      | .blackList, .addStaToAcl =>
        if ctx.nDenyMac = maxAclMacAddress then return (⟨.eFailure, none⟩, some ctx)
        else if staInBlackList.isSome then return (⟨.success, none⟩, some ctx)
        else
          let (accept, nAccept) ← removeIfFound ctx.acceptMacList ctx.nAcceptMac staInWhiteList
          let (deny, nDeny) ← sapAddMacToAcl ctx.denyMacList ctx.nDenyMac pPeerStaMac
          return (⟨.success, some pPeerStaMac⟩, some { ctx with
            acceptMacList := accept, nAcceptMac := nAccept
            denyMacList := deny, nDenyMac := nDeny })
      | .blackList, .deleteStaFromAcl =>
        match staInBlackList with
        | some i =>
          let (deny, nDeny) ← sapRemoveMacFromAcl ctx.denyMacList ctx.nDenyMac i
          return (⟨.success, none⟩, some { ctx with denyMacList := deny, nDenyMac := nDeny })
        | none => return (⟨.eFailure, none⟩, some ctx)
      | .whiteList, .other _ | .blackList, .other _ | .other _, _ =>
        return (⟨.eFailure, none⟩, some ctx)

/-- `sapIsPeerMacAllowed`: its status, and whether it signals `eSAP_UNKNOWN_STA_JOIN`. -/
def sapIsPeerMacAllowed (ctx : SapAcl) (peerMac : VMacAddr) : Option (VosStatus × Bool) :=
  if ctx.eSapMacAddrAclMode = .allowAll then some (.success, false)
  else do
    if (← sapSearchMacList ctx.acceptMacList ctx.nAcceptMac peerMac).isSome then
      return (.success, false)
    else if (← sapSearchMacList ctx.denyMacList ctx.nDenyMac peerMac).isSome then
      return (.eFailure, false)
    else if ctx.eSapMacAddrAclMode = .acceptUnlessDenied then return (.success, false)
    else if ctx.eSapMacAddrAclMode = .denyUnlessAccepted then return (.eFailure, false)
    else if ctx.eSapMacAddrAclMode = .supportAcceptAndDeny then return (.eFailure, true)
    else return (.success, false)

/-- A call of another module; `found` when `VOS_GET_SAP_CB` has a context. -/
inductive AclCall where
  | modify (found : Bool) (pPeerStaMac : VMacAddr) (listType : SapAclType) (cmd : SapAclCmdType)
  | clear (found : Bool)
  /-- `WLANSAP_SetMode` -/
  | setMode (mode : SapMacAddrAcl)

/-- What a call returns, and the context it leaves. -/
def AclCall.exec (ctx : SapAcl) : AclCall → Option (AclReply × SapAcl)
  | .modify found mac listType cmd =>
    (wlansapModifyAcl (if found then some ctx else none) mac listType cmd).map
      fun r => (r.1, r.2.getD ctx)
  | .clear found =>
    let r := wlansapClearAcl (if found then some ctx else none)
    some (r.1, r.2.getD ctx)
  | .setMode mode => some (⟨.success, none⟩, { ctx with eSapMacAddrAclMode := mode })

/-- The context, and the calls there were with their status. -/
structure AclRun where
  ctx : SapAcl
  calls : List (AclCall × VosStatus)

def aclStep (s : AclRun) (call : AclCall) : Option AclRun := do
  let (reply, ctx) ← call.exec s.ctx
  return ⟨ctx, s.calls ++ [(call, reply.status)]⟩

def aclMachine (ctx : SapAcl) : Machine AclRun AclCall where
  init s := s = ⟨ctx, []⟩
  step := aclStep

/-! ### What is claimed -/

structure AclSets where
  accept : Set VMacAddr
  deny : Set VMacAddr

open AclSets

/-- What a call means for the sets: nothing when it fails. -/
def AclSets.after (a : AclSets) : AclCall × VosStatus → AclSets
  | (.modify _ mac .whiteList .addStaToAcl, .success) => ⟨insert mac a.accept, a.deny \ {mac}⟩
  | (.modify _ mac .whiteList .deleteStaFromAcl, .success) => ⟨a.accept \ {mac}, a.deny⟩
  | (.modify _ mac .blackList .addStaToAcl, .success) => ⟨a.accept \ {mac}, insert mac a.deny⟩
  | (.modify _ mac .blackList .deleteStaFromAcl, .success) => ⟨a.accept, a.deny \ {mac}⟩
  | (.clear _, .success) => ⟨∅, ∅⟩
  | _ => a

def AclSets.Allowed (a : AclSets) (mode : SapMacAddrAcl) (mac : VMacAddr) : Prop :=
  mode = .allowAll ∨ mac ∈ a.accept ∨
    mac ∉ a.deny ∧ mode ≠ .denyUnlessAccepted ∧ mode ≠ .supportAcceptAndDeny

def SapAcl.sets (ctx : SapAcl) : AclSets :=
  ⟨entries ctx.acceptMacList ctx.nAcceptMac, entries ctx.denyMacList ctx.nDenyMac⟩

/-- The list is sorted without duplicates, and within its array. -/
structure ListOk (macList : MacList) (size : Nat) : Prop where
  sorted : Increasing macList size
  fits : size ≤ maxAclMacAddress

structure ListsOk (ctx : SapAcl) : Prop where
  accept : ListOk ctx.acceptMacList ctx.nAcceptMac
  deny : ListOk ctx.denyMacList ctx.nDenyMac

/-- The search returns, and finds an address where it stands if it stands in the list. -/
def SearchRight (macList : MacList) (size : Nat) : Prop :=
  ∀ mac, ∃ r, sapSearchMacList macList size mac = some r ∧
    (∀ i ∈ r, i < size ∧ macList i = mac) ∧ (r.isSome ↔ mac ∈ entries macList size)

/-- **The access control is right**: in the lists, which hold the sets, in the search and in the decision; and a call returns, and changes nothing when it fails. -/
structure AclRight (ctx₀ : SapAcl) (s : AclRun) : Prop where
  lists : ListsOk s.ctx
  /-- both lists hold an address only if they did at the start -/
  disjoint : s.ctx.sets.accept ∩ s.ctx.sets.deny ⊆ ctx₀.sets.accept ∩ ctx₀.sets.deny
  searchAccept : SearchRight s.ctx.acceptMacList s.ctx.nAcceptMac
  searchDeny : SearchRight s.ctx.denyMacList s.ctx.nDenyMac
  returns : ∀ call : AclCall, ∃ reply ctx, call.exec s.ctx = some (reply, ctx) ∧
    (reply.status ≠ .success → ctx = s.ctx)
  decision : ∀ mac, ∃ status event, sapIsPeerMacAllowed s.ctx mac = some (status, event) ∧
    (status = .success ↔
      (s.calls.foldl AclSets.after ctx₀.sets).Allowed s.ctx.eSapMacAddrAclMode mac)

/-! ### The lists -/

section Lists
variable {macList : MacList} {size : ℕ} {mac : VMacAddr}

theorem toS7_eq {n : ℤ} (h : -128 ≤ n) (h' : n < 128) : toS7 n = n := by
  exact Int.bmod_eq_of_le (by simpa using h) (by simpa using h')

theorem searchMacLoop_right (h : ListOk macList size) {fuel : ℕ} {nStart nEnd : ℤ}
    (hs : 0 ≤ nStart) (he : nEnd < size) (hse : nStart ≤ nEnd + 1)
    (hfuel : nEnd + 1 - nStart < fuel)
    (hin : ∀ i < size, macList i = mac → nStart ≤ i ∧ i ≤ nEnd) :
    ∃ r, searchMacLoop macList mac fuel nStart nEnd = some r ∧
      (∀ i ∈ r, i < size ∧ macList i = mac) ∧ (r.isSome ↔ mac ∈ entries macList size) := by
  have hfits : size ≤ 32 := h.fits
  induction fuel generalizing nStart nEnd with
  | zero => omega
  | succ fuel ih =>
    rw [searchMacLoop]
    split
    · next hle =>
      obtain ⟨m, hm⟩ : ∃ m : ℕ, (nStart + nEnd).tdiv 2 = m :=
        ⟨_, (Int.toNat_of_nonneg (Int.tdiv_nonneg (by omega) (by decide))).symm⟩
      have hmid : nStart ≤ m ∧ m ≤ nEnd := by
        rw [Int.tdiv_eq_ediv_of_nonneg (by omega)] at hm
        omega
      have hms : m < size := by omega
      have hread : macList.read m = some (macList m) := by
        unfold MacList.read
        exact guarded_eq_some.2 ⟨⟨by omega, by simp only [maxAclMacAddress]; omega⟩, rfl⟩
      dsimp only
      rw [hm, toS7_eq (by omega) (by omega), hread, bind_some]
      split
      · next heq =>
        have heq := vosMemCompare2_eq_zero.1 heq
        exact ⟨_, rfl, by simpa using ⟨hms, heq⟩, iff_of_true rfl ⟨m, hms, heq⟩⟩
      · next hne =>
        split
        · next hlt =>
          have hlt := vosMemCompare2_neg.1 hlt
          rw [toS7_eq (by omega) (by omega)]
          refine ih (by omega) he (by omega) (by omega) fun i hi heq => ?_
          have := h.sorted.lt_of_lt hms hi (heq ▸ hlt)
          have := hin i hi heq
          omega
        · next hge =>
          have hpos : 0 < vosMemCompare2 (macList m) mac := by omega
          have hgt := vosMemCompare2_pos.1 hpos
          rw [toS7_eq (by omega) (by omega)]
          refine ih hs (by omega) (by omega) (by omega) fun i hi heq => ?_
          have := h.sorted.lt_of_lt hi hms (heq ▸ hgt)
          have := hin i hi heq
          omega
    · next hgt =>
      refine ⟨none, rfl, nofun, iff_of_false (by simp) ?_⟩
      rintro ⟨i, hi, heq⟩
      have := hin i hi heq
      omega

theorem ListOk.search (h : ListOk macList size) : SearchRight macList size := by
  intro mac
  have hfits : size ≤ 32 := h.fits
  rw [sapSearchMacList, if_neg (by simp only [maxAclMacAddress]; omega)]
  rw [toS7_eq (by omega) (by omega)]
  refine searchMacLoop_right h le_rfl (by omega) (by omega) (by push_cast; omega) fun i hi _ => ?_
  omega

theorem write_eq {i : ℕ} (h : i < maxAclMacAddress) :
    macList.write i mac = some (update macList i mac) :=
  guarded_eq_some.2 ⟨h, rfl⟩

/-- The loop of `sapAddMacToACL` has made room at place `k` of `macList`, and `l` is the array then. -/
structure Room (macList : MacList) (size : ℕ) (mac : VMacAddr) (l : MacList) (k : ℕ) : Prop where
  le : k ≤ size
  before : ∀ j < k, l j = macList j
  behind : ∀ j, k < j → j ≤ size → l j = macList (j - 1)
  greater : ∀ j, k ≤ j → j < size → mac < macList j

theorem addLoop_right (h : Increasing macList size) (hroom : size < maxAclMacAddress)
    (hnew : mac ∉ entries macList size) {i : ℕ} {l : MacList} (hr : Room macList size mac l i) :
    ∃ l' k, addLoop mac i l = some (l', k) ∧ Room macList size mac l' k ∧
      ∀ j < k, macList j < mac := by
  induction i generalizing l with
  | zero => exact ⟨l, 0, rfl, hr, fun j hj => absurd hj (not_lt_zero j)⟩
  | succ i ih =>
    have hle := hr.le
    rw [addLoop, hr.before i (lt_succ_self i)]
    split
    · next hgt =>
      have hgt := vosMemCompare2_pos.1 hgt
      rw [write_eq (by omega), bind_some]
      refine ih ⟨by omega, fun j hj => ?_, fun j hj hjs => ?_, fun j hj hjs => ?_⟩
      · rw [update_of_ne (by omega)]
        exact hr.before j (by omega)
      · by_cases he : j = i + 1
        · subst he
          rw [update_self, Nat.add_sub_cancel]
        · rw [update_of_ne he]
          exact hr.behind j (by omega) hjs
      · by_cases he : j = i
        · rwa [he]
        · exact hr.greater j (by omega) hjs
    · next hle' =>
      refine ⟨l, i + 1, rfl, hr, fun j hj => ?_⟩
      have hne : macList i ≠ mac := fun he => hnew ⟨i, by omega, he⟩
      have hlt : macList i < mac :=
        lt_of_le_of_ne (le_of_not_gt fun hgt => hle' (vosMemCompare2_pos.2 hgt)) hne
      rcases Nat.lt_succ_iff_lt_or_eq.1 hj with hj | rfl
      · exact (h j i hj (by omega)).trans hlt
      · exact hlt

/-- **Adding** an address that is not in the list. -/
theorem ListOk.add (h : ListOk macList size) (hroom : size ≠ maxAclMacAddress)
    (hnew : mac ∉ entries macList size) : ∃ macList' size',
      sapAddMacToAcl macList size mac = some (macList', size') ∧ ListOk macList' size' ∧
        entries macList' size' = insert mac (entries macList size) := by
  have hlt : size < maxAclMacAddress := lt_of_le_of_ne h.fits hroom
  have hmax : maxAclMacAddress = 32 := rfl
  have hstart : Room macList size mac macList size :=
    ⟨le_rfl, fun _ _ => rfl, by omega, by omega⟩
  obtain ⟨l, k, hl, hr, hless⟩ := addLoop_right h.sorted hlt hnew hstart
  have hle := hr.le
  have hplaces : ∀ j < size + 1, update l k mac j = insertAt macList k mac j := by
    intro j hj
    rcases lt_trichotomy j k with hjk | rfl | hjk
    · rw [update_of_ne hjk.ne, insertAt_of_lt hjk, hr.before j hjk]
    · rw [update_self, insertAt_self]
    · rw [update_of_ne hjk.ne', insertAt_of_gt hjk, hr.behind j hjk (by omega)]
  refine ⟨update l k mac, size + 1, ?_, ⟨?_, hlt⟩, ?_⟩
  · rw [sapAddMacToAcl, if_neg (by omega), hl]
    simp only [bind_eq_bind, bind_some, write_eq (show k < maxAclMacAddress by omega)]
    rw [mod_eq_of_lt (by omega)]
    rfl
  · exact (h.sorted.insertAt hless (hr.greater) hr.le).congr hplaces
  · rw [entries_congr hplaces, entries_insertAt hr.le]

/-- The loop of `sapRemoveMacFromACL` has come to place `i`. -/
theorem removeLoop_right {k n i : ℕ} {l : MacList} (hfits : n + i < maxAclMacAddress) (hk : k ≤ i)
    (hbefore : ∀ j < i, l j = removeAt macList k j) (hbehind : ∀ j, i ≤ j → l j = macList j) :
    ∃ l', removeLoop n i l = some l' ∧ ∀ j < n + i, l' j = removeAt macList k j := by
  induction n generalizing i l with
  | zero => exact ⟨l, rfl, by simpa using hbefore⟩
  | succ n ih =>
    rw [removeLoop, write_eq (by omega), bind_some]
    rw [show n + 1 + i = n + (i + 1) by omega] at hfits ⊢
    refine ih hfits (by omega) (fun j hj => ?_) (fun j hj => ?_)
    · by_cases he : j = i
      · subst he
        rw [update_self, hbehind _ (by omega), removeAt_of_le hk]
      · rw [update_of_ne he]
        exact hbefore j (by omega)
    · rw [update_of_ne (by omega)]
      exact hbehind j (by omega)

/-- **Removing** what stands at a place of the list. -/
theorem ListOk.remove (h : ListOk macList size) {k : ℕ} (hk : k < size) : ∃ macList' size',
    sapRemoveMacFromAcl macList size k = some (macList', size') ∧ ListOk macList' size' ∧
      entries macList' size' = entries macList size \ {macList k} := by
  have hfits := h.fits
  have hend : size - 1 - k + k = size - 1 := by omega
  obtain ⟨l, hl, hall⟩ : ∃ l, removeLoop (size - 1 - k) k macList = some l ∧
      ∀ j < size - 1 - k + k, l j = removeAt macList k j :=
    removeLoop_right (by omega) le_rfl (fun j hj => (removeAt_of_lt hj).symm) fun _ _ => rfl
  rw [hend] at hall
  have hplaces : ∀ j < size - 1, update l (size - 1) VMacAddr.zero j = removeAt macList k j := by
    intro j hj
    rw [update_of_ne hj.ne]
    exact hall j hj
  refine ⟨update l (size - 1) .zero, size - 1, ?_, ⟨?_, by omega⟩, ?_⟩
  · rw [sapRemoveMacFromAcl, if_neg (by omega), hl]
    simp only [bind_eq_bind, bind_some, write_eq (show size - 1 < maxAclMacAddress by omega)]
    rfl
  · exact (h.sorted.removeAt k).congr hplaces
  · rw [entries_congr hplaces, h.sorted.entries_removeAt hk]

theorem ListOk.removeIfFound (h : ListOk macList size) {r : Option ℕ}
    (hat : ∀ i ∈ r, i < size ∧ macList i = mac) (hin : r.isSome ↔ mac ∈ entries macList size) :
    ∃ macList' size', removeIfFound macList size r = some (macList', size') ∧
      ListOk macList' size' ∧ entries macList' size' = entries macList size \ {mac} := by
  cases r with
  | some k =>
    obtain ⟨hk, rfl⟩ := hat k rfl
    exact h.remove hk
  | none =>
    have hno : mac ∉ entries macList size := fun hm => absurd (hin.2 hm) (by simp)
    exact ⟨_, _, rfl, h, (Set.sdiff_singleton_eq_self hno).symm⟩

end Lists

/-! ### The calls keep the lists -/

section Calls
variable {ctx : SapAcl} {mac : VMacAddr}

/-- What a call makes of the context: sorted lists that hold the sets it means, or the same when it fails. -/
structure Moved (ctx : SapAcl) (call : AclCall) (reply : AclReply) (ctx' : SapAcl) : Prop where
  lists : ListsOk ctx'
  sets : ctx'.sets = ctx.sets.after (call, reply.status)
  failed : reply.status ≠ .success → ctx' = ctx

theorem after_inter_subset (a : AclSets) (c : AclCall × VosStatus) :
    (a.after c).accept ∩ (a.after c).deny ⊆ a.accept ∩ a.deny := by
  unfold after
  split
  · rintro x ⟨hx | hx, hd, hne⟩
    · exact absurd hx hne
    · exact ⟨hx, hd⟩
  · rintro x ⟨⟨hx, -⟩, hd⟩
    exact ⟨hx, hd⟩
  · rintro x ⟨⟨hx, hne⟩, hd | hd⟩
    · exact absurd hd hne
    · exact ⟨hx, hd⟩
  · rintro x ⟨hx, hd, -⟩
    exact ⟨hx, hd⟩
  · exact fun x hx => absurd hx.1 (Set.notMem_empty x)
  · exact subset_rfl

theorem moved_failed (h : ListsOk ctx) (call : AclCall) {status : VosStatus} (hf : status ≠ .success)
    (deauthSta : Option VMacAddr) : Moved ctx call ⟨status, deauthSta⟩ ctx := by
  refine ⟨h, ?_, fun _ => rfl⟩
  unfold after
  split <;> first | rfl | exact absurd (by simp_all) hf

theorem modify_whiteAdd (h : ListsOk ctx) (found : Bool) : ∃ reply ctx',
    wlansapModifyAcl (some ctx) mac .whiteList .addStaToAcl = some (reply, some ctx') ∧
      Moved ctx (.modify found mac .whiteList .addStaToAcl) reply ctx' := by
  obtain ⟨white, hw, -, hwin⟩ := h.accept.search mac
  obtain ⟨black, hb, hbat, hbin⟩ := h.deny.search mac
  simp only [wlansapModifyAcl, hw, hb, bind_eq_bind, bind_some]
  split
  · exact ⟨_, _, rfl, moved_failed h _ (by decide) _⟩
  · next hboth =>
    split
    · exact ⟨_, _, rfl, moved_failed h _ (by decide) _⟩
    · next hroom =>
      split
      · next hwhite =>
        -- already present, and so not in the black list
        have hno : mac ∉ entries ctx.denyMacList ctx.nDenyMac :=
          fun hd => hboth ⟨hwhite, hbin.2 hd⟩
        refine ⟨_, _, rfl, h, ?_, fun _ => rfl⟩
        simp [after, sets, Set.insert_eq_of_mem (hwin.1 hwhite), Set.sdiff_singleton_eq_self hno]
      · next hwhite =>
        obtain ⟨deny, nDeny, hdeny, hok, hent⟩ := h.deny.removeIfFound hbat hbin
        obtain ⟨accept, nAccept, haccept, hok', hent'⟩ :=
          h.accept.add hroom (fun hm => hwhite (hwin.2 hm))
        simp only [hdeny, haccept, bind_some]
        refine ⟨_, _, rfl, ⟨hok', hok⟩, ?_, fun hne => absurd rfl hne⟩
        simp [after, sets, hent, hent']

theorem modify_blackAdd (h : ListsOk ctx) (found : Bool) : ∃ reply ctx',
    wlansapModifyAcl (some ctx) mac .blackList .addStaToAcl = some (reply, some ctx') ∧
      Moved ctx (.modify found mac .blackList .addStaToAcl) reply ctx' := by
  obtain ⟨white, hw, hwat, hwin⟩ := h.accept.search mac
  obtain ⟨black, hb, -, hbin⟩ := h.deny.search mac
  simp only [wlansapModifyAcl, hw, hb, bind_eq_bind, bind_some]
  split
  · exact ⟨_, _, rfl, moved_failed h _ (by decide) _⟩
  · next hboth =>
    split
    · exact ⟨_, _, rfl, moved_failed h _ (by decide) _⟩
    · next hroom =>
      split
      · next hblack =>
        have hno : mac ∉ entries ctx.acceptMacList ctx.nAcceptMac :=
          fun ha => hboth ⟨hwin.2 ha, hblack⟩
        refine ⟨_, _, rfl, h, ?_, fun _ => rfl⟩
        simp [after, sets, Set.insert_eq_of_mem (hbin.1 hblack), Set.sdiff_singleton_eq_self hno]
      · next hblack =>
        obtain ⟨accept, nAccept, haccept, hok, hent⟩ := h.accept.removeIfFound hwat hwin
        obtain ⟨deny, nDeny, hdeny, hok', hent'⟩ :=
          h.deny.add hroom (fun hm => hblack (hbin.2 hm))
        simp only [hdeny, haccept, bind_some]
        refine ⟨_, _, rfl, ⟨hok, hok'⟩, ?_, fun hne => absurd rfl hne⟩
        simp [after, sets, hent, hent']

theorem modify_whiteDelete (h : ListsOk ctx) (found : Bool) : ∃ reply ctx',
    wlansapModifyAcl (some ctx) mac .whiteList .deleteStaFromAcl = some (reply, some ctx') ∧
      Moved ctx (.modify found mac .whiteList .deleteStaFromAcl) reply ctx' := by
  obtain ⟨white, hw, hwat, -⟩ := h.accept.search mac
  obtain ⟨black, hb, -, -⟩ := h.deny.search mac
  simp only [wlansapModifyAcl, hw, hb, bind_eq_bind, bind_some]
  split
  · exact ⟨_, _, rfl, moved_failed h _ (by decide) _⟩
  · cases white with
    | none => exact ⟨_, _, rfl, moved_failed h _ (by decide) _⟩
    | some i =>
      obtain ⟨hi, rfl⟩ := hwat i rfl
      obtain ⟨accept, nAccept, haccept, hok, hent⟩ := h.accept.remove hi
      simp only [haccept, bind_some]
      refine ⟨_, _, rfl, ⟨hok, h.deny⟩, ?_, fun hne => absurd rfl hne⟩
      simp [after, sets, hent]

theorem modify_blackDelete (h : ListsOk ctx) (found : Bool) : ∃ reply ctx',
    wlansapModifyAcl (some ctx) mac .blackList .deleteStaFromAcl = some (reply, some ctx') ∧
      Moved ctx (.modify found mac .blackList .deleteStaFromAcl) reply ctx' := by
  obtain ⟨white, hw, -, -⟩ := h.accept.search mac
  obtain ⟨black, hb, hbat, -⟩ := h.deny.search mac
  simp only [wlansapModifyAcl, hw, hb, bind_eq_bind, bind_some]
  split
  · exact ⟨_, _, rfl, moved_failed h _ (by decide) _⟩
  · cases black with
    | none => exact ⟨_, _, rfl, moved_failed h _ (by decide) _⟩
    | some i =>
      obtain ⟨hi, rfl⟩ := hbat i rfl
      obtain ⟨deny, nDeny, hdeny, hok, hent⟩ := h.deny.remove hi
      simp only [hdeny, bind_some]
      refine ⟨_, _, rfl, ⟨h.accept, hok⟩, ?_, fun hne => absurd rfl hne⟩
      simp [after, sets, hent]

theorem modify_other (h : ListsOk ctx) (found : Bool) {listType : SapAclType}
    {cmd : SapAclCmdType} (ho : (∃ n, listType = .other n) ∨ ∃ n, cmd = .other n) : ∃ reply ctx',
    wlansapModifyAcl (some ctx) mac listType cmd = some (reply, some ctx') ∧
      Moved ctx (.modify found mac listType cmd) reply ctx' := by
  obtain ⟨white, hw, -, -⟩ := h.accept.search mac
  obtain ⟨black, hb, -, -⟩ := h.deny.search mac
  refine ⟨⟨.eFailure, none⟩, ctx, ?_, moved_failed h _ (by decide) _⟩
  simp only [wlansapModifyAcl, hw, hb, bind_eq_bind, bind_some]
  split
  · rfl
  · rcases ho with ⟨n, rfl⟩ | ⟨n, rfl⟩
    · rfl
    · cases listType <;> rfl

theorem modify_moved (h : ListsOk ctx) (found : Bool) (listType : SapAclType)
    (cmd : SapAclCmdType) : ∃ reply ctx',
    wlansapModifyAcl (some ctx) mac listType cmd = some (reply, some ctx') ∧
      Moved ctx (.modify found mac listType cmd) reply ctx' := by
  cases cmd with
  | other n => exact modify_other h found (.inr ⟨n, rfl⟩)
  | addStaToAcl =>
    cases listType with
    | other n => exact modify_other h found (.inl ⟨n, rfl⟩)
    | whiteList => exact modify_whiteAdd h found
    | blackList => exact modify_blackAdd h found
  | deleteStaFromAcl =>
    cases listType with
    | other n => exact modify_other h found (.inl ⟨n, rfl⟩)
    | whiteList => exact modify_whiteDelete h found
    | blackList => exact modify_blackDelete h found

/-- **Every call** returns, and does what it means. -/
theorem exec_moved (h : ListsOk ctx) (call : AclCall) :
    ∃ reply ctx', call.exec ctx = some (reply, ctx') ∧ Moved ctx call reply ctx' := by
  cases call with
  | modify found mac listType cmd =>
    cases found with
    | false => exact ⟨_, _, rfl, moved_failed h _ (by decide) _⟩
    | true =>
      obtain ⟨reply, ctx', he, hm⟩ := modify_moved h true listType cmd
      exact ⟨reply, ctx', by simp [AclCall.exec, he], hm⟩
  | clear found =>
    cases found with
    | false => exact ⟨_, _, rfl, moved_failed h _ (by decide) _⟩
    | true =>
      have hempty : ListOk (fun _ => .zero) 0 := ⟨fun _ _ _ hj => by omega, zero_le _⟩
      refine ⟨_, _, rfl, ⟨hempty, hempty⟩, ?_, fun hne => absurd rfl hne⟩
      simp [sets, after, wlansapClearAcl]
  | setMode mode =>
    exact ⟨_, _, rfl, ⟨h.accept, h.deny⟩, rfl, fun hne => absurd rfl hne⟩

theorem sapIsPeerMacAllowed_right (h : ListsOk ctx) : ∃ status event,
    sapIsPeerMacAllowed ctx mac = some (status, event) ∧
      (status = .success ↔ ctx.sets.Allowed ctx.eSapMacAddrAclMode mac) := by
  obtain ⟨white, hw, -, hwin⟩ := h.accept.search mac
  obtain ⟨black, hb, -, hbin⟩ := h.deny.search mac
  simp only [sapIsPeerMacAllowed, hw, hb, bind_eq_bind, bind_some]
  unfold AclSets.Allowed sets
  rw [← hwin, ← hbin]
  split_ifs <;> exact ⟨_, _, rfl, by simp_all⟩

end Calls

/-! ### The runs -/

structure AclInv (ctx₀ : SapAcl) (s : AclRun) : Prop where
  lists : ListsOk s.ctx
  sets : s.ctx.sets = s.calls.foldl AclSets.after ctx₀.sets
  disjoint : s.ctx.sets.accept ∩ s.ctx.sets.deny ⊆ ctx₀.sets.accept ∩ ctx₀.sets.deny

theorem AclInv.step {ctx₀ : SapAcl} {s s' : AclRun} (h : AclInv ctx₀ s) {call : AclCall}
    (hs : aclStep s call = some s') : AclInv ctx₀ s' := by
  obtain ⟨reply, ctx', he, hm⟩ := exec_moved h.lists call
  simp only [aclStep, he, bind_eq_bind, bind_some] at hs
  cases hs
  refine ⟨hm.lists, ?_, ?_⟩
  · rw [List.foldl_append, ← h.sets]
    exact hm.sets
  · change ctx'.sets.accept ∩ ctx'.sets.deny ⊆ _
    rw [hm.sets]
    exact (after_inter_subset _ _).trans h.disjoint

/-- **The lists hold the sets**: from any context whose lists are sorted without duplicates, in every run of calls. -/
theorem acl_right (ctx₀ : SapAcl) (h₀ : ListsOk ctx₀) (s : AclRun)
    (t : (aclMachine ctx₀).Reach (fun _ _ => True) s) : AclRight ctx₀ s := by
  have hinv : AclInv ctx₀ s := by
    refine t.invariant (AclInv ctx₀) (fun s h => ?_) fun s call s' h _ => h.step
    cases h
    exact ⟨h₀, rfl, subset_rfl⟩
  refine ⟨hinv.lists, hinv.disjoint, hinv.lists.accept.search, hinv.lists.deny.search,
    fun call => ?_, fun mac => ?_⟩
  · obtain ⟨reply, ctx, he, hm⟩ := exec_moved hinv.lists call
    exact ⟨reply, ctx, he, hm.failed⟩
  · rw [← hinv.sets]
    exact sapIsPeerMacAllowed_right hinv.lists

/-! ### A run -/

def lastByte (n : UInt8) : VMacAddr := ⟨#v[0, 0, 0, 0, 0, n]⟩

def emptyAcl : SapAcl where
  eSapMacAddrAclMode := .denyUnlessAccepted
  acceptMacList _ := .zero
  nAcceptMac := 0
  denyMacList _ := .zero
  nDenyMac := 0

theorem emptyAcl_listsOk : ListsOk emptyAcl where
  accept := ⟨fun _ _ _ h => absurd h (not_lt_zero _), zero_le _⟩
  deny := ⟨fun _ _ _ h => absurd h (not_lt_zero _), zero_le _⟩

/-- Three stations are accepted, not in their order, and one of them is denied then. -/
def acceptedThenDenied : List AclCall :=
  [.modify true (lastByte 9) .whiteList .addStaToAcl,
    .modify true (lastByte 2) .whiteList .addStaToAcl,
    .modify true (lastByte 5) .whiteList .addStaToAcl,
    .modify true (lastByte 2) .blackList .addStaToAcl,
    .modify true (lastByte 2) .whiteList .deleteStaFromAcl]

theorem acl_right_acceptedThenDenied : ∃ s,
    (aclMachine emptyAcl).run ⟨emptyAcl, []⟩ acceptedThenDenied = some s ∧
      (s.calls.map Prod.snd = [.success, .success, .success, .success, .eFailure] ∧
        s.ctx.nAcceptMac = 2 ∧ s.ctx.acceptMacList 0 = lastByte 5 ∧
        s.ctx.acceptMacList 1 = lastByte 9) ∧ AclRight emptyAcl s := by
  have hrun : ((aclMachine emptyAcl).run ⟨emptyAcl, []⟩ acceptedThenDenied).any (fun s =>
      s.calls.map Prod.snd = [.success, .success, .success, .success, .eFailure] ∧
        s.ctx.nAcceptMac = 2 ∧ s.ctx.acceptMacList 0 = lastByte 5 ∧
        s.ctx.acceptMacList 1 = lastByte 9) := by
    decide +kernel
  obtain ⟨s, hs, hlists⟩ := (any_eq_true _ _).1 hrun
  exact ⟨s, hs, of_decide_eq_true hlists,
    acl_right emptyAcl emptyAcl_listsOk s (Machine.reach_of_run rfl hs)⟩

end Qcacld.Sap

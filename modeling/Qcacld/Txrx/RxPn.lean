import Mathlib.Data.Nat.Bitwise
import Qcacld.Support.Pointwise
import Qcacld.Support.Runs

/-!
# Txrx — RxPn

Replay detection: `ol_rx_pn_check_base` and `ol_rx_sec_ind_handler` on one peer.

Each TID keeps one last packet number, and the unicast and the multicast key share it.  `unicast_pns_increasing` says when the accepted unicast packet numbers rise all the same: a multicast key is installed only before the unicast key has been used, or sets a number no lower than the ones accepted, and a multicast list is checked with the comparison of the unicast key.
-/

namespace Qcacld.Txrx
open Qcacld.Support Function List Option Nat

/-! ### Packet numbers -/

abbrev olTxrxNumExtTids : Nat := 19

instance : NeZero olTxrxNumExtTids := ⟨by decide⟩

/-- `enum htt_sec_type`. -/
inductive HttSecType where
  | none | wep128 | wep104 | wep40 | tkip | tkipNomic | aesCcmp | wapi
deriving DecidableEq

/-- `enum wlan_op_mode`. -/
inductive WlanOpMode where
  | unknown | ap | ibss | sta | monitor | ocb | ndi
deriving DecidableEq

/-- `union htt_rx_pn_t`, by its two words `pn128[0]` and `pn128[1]`. -/
structure HttRxPn where
  lo : BitVec 64
  hi : BitVec 64

/-- The member `pn24`. -/
def HttRxPn.pn24 (pn : HttRxPn) : BitVec 32 := pn.lo.setWidth 32

/-- The member `pn48`. -/
def HttRxPn.pn48 (pn : HttRxPn) : BitVec 64 := pn.lo

/-- `ol_rx_pn_cmp24`: the new number is a replay. -/
def olRxPnCmp24 (new old : HttRxPn) : Bool :=
  new.pn24 &&& 0xffffff#32 ≤ old.pn24 &&& 0xffffff#32

def olRxPnCmp48 (new old : HttRxPn) : Bool :=
  new.pn48 &&& 0xffffffffffff#64 ≤ old.pn48 &&& 0xffffffffffff#64

def olRxPnWapiCmp (new old : HttRxPn) (isUnicast : Bool) (opmode : WlanOpMode) : Bool :=
  let pnIsReplay : Bool := if new.hi = old.hi then new.lo ≤ old.lo else new.hi < old.hi
  if isUnicast then
    if opmode = .ap then pnIsReplay || new.lo &&& 1#64 != 0#64
    else pnIsReplay || new.lo &&& 1#64 != 1#64
  else pnIsReplay

/-- An entry of `pdev->rx_pn`: a length with the comparison for it. -/
inductive RxPnCheck where
  | unchecked | cmp24 | cmp48 | wapi
deriving DecidableEq

namespace RxPnCheck

/-- The entry's `len`. -/
def len : RxPnCheck → Nat
  | unchecked => 0
  | cmp24 => 24
  | cmp48 => 48
  | wapi => 128

/-- The entry's `cmp`. -/
def cmp (new old : HttRxPn) (isUnicast : Bool) (opmode : WlanOpMode) : RxPnCheck → Bool
  | unchecked => false
  | cmp24 => olRxPnCmp24 new old
  | cmp48 => olRxPnCmp48 new old
  | wapi => olRxPnWapiCmp new old isUnicast opmode

def value (pn : HttRxPn) : RxPnCheck → ℕ
  | unchecked => 0
  | cmp24 => pn.lo.toNat % 2 ^ 24
  | cmp48 => pn.lo.toNat % 2 ^ 48
  | wapi => pn.hi.toNat * 2 ^ 64 + pn.lo.toNat

end RxPnCheck

/-! ### The frames -/

/-- What the check reads of a MSDU: its rx descriptor, and the word the local `new_pn` holds before the packet number is read into it. -/
structure RxMsdu where
  /-- `htt_rx_msdu_desc_completes_mpdu` -/
  completesMpdu : Bool
  /-- `htt_rx_msdu_is_wlan_mcast` -/
  mcast : Bool
  /-- `htt_rx_mpdu_is_encrypted` -/
  encrypted : Bool
  /-- the packet number of the descriptor -/
  pn : HttRxPn
  stack : HttRxPn

/-- `htt_rx_mpdu_desc_pn_hl` and `htt_rx_mpdu_desc_pn_ll`: how much of `new_pn` is written depends on the length. -/
def httRxMpduDescPn (isHighLatency : Bool) (msdu : RxMsdu) (pnLen : Nat) : HttRxPn :=
  if pnLen = 24 then
    { msdu.stack with
      lo := msdu.stack.lo &&& 0xffffffff00000000#64 |||
        msdu.pn.lo &&& (if isHighLatency then 0xffffffff#64 else 0xffffff#64) }
  else if pnLen = 48 then
    { msdu.stack with
      lo := if isHighLatency then msdu.pn.lo else msdu.pn.lo &&& 0xffffffffffff#64 }
  else if pnLen = 128 then msdu.pn
  else msdu.stack

structure RxMpdu where
  first : RxMsdu
  rest : List RxMsdu

def RxMpdu.msdus (mpdu : RxMpdu) : List RxMsdu := mpdu.first :: mpdu.rest

/-- `ol_rx_mpdu_list_next`: the MPDU a list starts with, and what follows it.  If no MSDU completes the MPDU, the last one does. -/
def olRxMpduListNext (msdu : RxMsdu) : List RxMsdu → RxMpdu × List RxMsdu
  | [] => (⟨msdu, []⟩, [])
  | msdu' :: l =>
    if msdu.completesMpdu then (⟨msdu, []⟩, msdu' :: l)
    else (⟨msdu, (olRxMpduListNext msdu' l).1.msdus⟩, (olRxMpduListNext msdu' l).2)

def rxMpdus : List RxMsdu → List RxMpdu
  | [] => []
  | msdu :: l =>
    if msdu.completesMpdu then ⟨msdu, []⟩ :: rxMpdus l
    else match rxMpdus l with
      | [] => [⟨msdu, []⟩]
      | mpdu :: mpdus => ⟨msdu, mpdu.msdus⟩ :: mpdus

/-! ### The peer -/

/-- The index of `peer->security`. -/
inductive TxrxSec where
  | mcast | ucast
deriving DecidableEq

/-- The `index` of a MSDU: unicast or multicast. -/
def RxMsdu.index (msdu : RxMsdu) : TxrxSec := if msdu.mcast then .mcast else .ucast

structure PnPeer where
  fwPnCheck : Bool
  /-- `security[].sec_type` -/
  secType : TxrxSec → HttSecType
  tidsLastPn : Fin olTxrxNumExtTids → HttRxPn
  tidsLastPnValid : Fin olTxrxNumExtTids → Bool

/-- A vdev, with what its pdev knows about the check. -/
structure PnVdev where
  opmode : WlanOpMode
  isHighLatency : Bool
  /-- `pdev->rx_pn` -/
  rxPn : HttSecType → RxPnCheck

/-- `pdev->rx_pn` as `ol_txrx_pdev_attach` fills it in. -/
def olTxrxPdevRxPn : HttSecType → RxPnCheck
  | .tkip | .tkipNomic | .aesCcmp => .cmp48
  | .wapi => .wapi
  | .none | .wep128 | .wep104 | .wep40 => .unchecked

/-- The loop of `ol_rx_pn_check_base`: `last_pn_valid`, `last_pn` and the list of good frames. -/
structure PnScan where
  lastPnValid : Bool
  lastPn : HttRxPn
  out : List RxMpdu

section Check
variable (vdev : PnVdev) (index : TxrxSec) (check : RxPnCheck)

/-- The loop body of `ol_rx_pn_check_base`. -/
def olRxPnCheckMpdu (s : PnScan) (mpdu : RxMpdu) : PnScan :=
  if mpdu.first.encrypted then
    let newPn := httRxMpduDescPn vdev.isHighLatency mpdu.first check.len
    if s.lastPnValid && check.cmp newPn s.lastPn (index = .ucast) vdev.opmode then s
    else { lastPnValid := true, lastPn := newPn, out := s.out ++ [mpdu] }
  else { s with out := s.out ++ [mpdu] }

end Check

/-- `ol_rx_pn_check_base`, with the list it returns cut into MPDUs.  The list to check is not empty. -/
def olRxPnCheckBase (vdev : PnVdev) (peer : PnPeer) (tid : Fin olTxrxNumExtTids)
    (msduList : List RxMsdu) : Option (PnPeer × List RxMpdu) :=
  if peer.fwPnCheck ∨ vdev.opmode = .ibss then some (peer, rxMpdus msduList)
  else do
    let msdu ← msduList.head?
    let check := vdev.rxPn (peer.secType msdu.index)
    if check.len = 0 then return (peer, rxMpdus msduList)
    let s := (rxMpdus msduList).foldl (olRxPnCheckMpdu vdev msdu.index check)
      ⟨peer.tidsLastPnValid tid, peer.tidsLastPn tid, []⟩
    return ({ peer with
      tidsLastPn := update peer.tidsLastPn tid s.lastPn
      tidsLastPnValid := update peer.tidsLastPnValid tid s.lastPnValid }, s.out)

/-- `ol_rx_sec_ind_handler`, for a peer that exists. -/
def olRxSecIndHandler (peer : PnPeer) (secType : HttSecType) (isUnicast : Bool)
    (rxPn : HttRxPn) : PnPeer :=
  let secIndex : TxrxSec := if isUnicast then .ucast else .mcast
  let peer := { peer with secType := update peer.secType secIndex secType }
  if secType ≠ .wapi then { peer with tidsLastPnValid := fun _ => false }
  else if secIndex = .mcast ∨ peer.tidsLastPnValid 0 then
    { peer with tidsLastPnValid := fun _ => true, tidsLastPn := fun _ => rxPn }
  else peer

/-! ### Runs -/

/-- A peer, and for each TID the first MSDUs of the encrypted unicast MPDUs accepted under the unicast key in use. -/
structure PnHistory where
  peer : PnPeer
  accepted : Fin olTxrxNumExtTids → List RxMsdu

open PnHistory

/-- The encrypted unicast MPDUs of a list, each by its first MSDU. -/
def ucastEncrypted (mpdus : List RxMpdu) : List RxMsdu :=
  (mpdus.map RxMpdu.first).filter fun msdu => msdu.encrypted && !msdu.mcast

inductive PnEvent where
  | check (tid : Fin olTxrxNumExtTids) (msduList : List RxMsdu)
  | secInd (secType : HttSecType) (isUnicast : Bool) (rxPn : HttRxPn)

def pnStep (vdev : PnVdev) (s : PnHistory) : PnEvent → Option PnHistory
  | .check tid msduList => do
    let (peer, out) ← olRxPnCheckBase vdev s.peer tid msduList
    return {
      peer := peer
      accepted := update s.accepted tid (s.accepted tid ++ ucastEncrypted out) }
  | .secInd secType isUnicast rxPn => some {
      peer := olRxSecIndHandler s.peer secType isUnicast rxPn
      accepted := if isUnicast then fun _ => [] else s.accepted }

/-- A peer as `ol_txrx_peer_attach` leaves it. -/
def PnHistory.attached : PnHistory where
  peer := {
    fwPnCheck := false
    secType := fun _ => .none
    tidsLastPn := fun _ => ⟨0, 0⟩
    tidsLastPnValid := fun _ => false }
  accepted := fun _ => []

def pnMachine (vdev : PnVdev) : Machine PnHistory PnEvent where
  init s := s = .attached
  step := pnStep vdev

def PnHistory.check (vdev : PnVdev) (s : PnHistory) (index : TxrxSec) : RxPnCheck :=
  vdev.rxPn (s.peer.secType index)

/-- When the unicast key has packet numbers, those accepted on a TID rise. -/
def PnsIncreasing (vdev : PnVdev) (s : PnHistory) (tid : Fin olTxrxNumExtTids) : Prop :=
  (s.check vdev .ucast).len ≠ 0 → (s.accepted tid).Pairwise fun msdu msdu' =>
      (s.check vdev .ucast).value msdu.pn < (s.check vdev .ucast).value msdu'.pn
deriving Decidable

/-- No packet number accepted under the unicast key is above `pn`. -/
def NoneAbove (vdev : PnVdev) (s : PnHistory) (tid : Fin olTxrxNumExtTids) (pn : HttRxPn) :
    Prop :=
  ∀ msdu ∈ s.accepted tid, (s.check vdev .ucast).value msdu.pn ≤ (s.check vdev .ucast).value pn

/-- As far as `tid` goes: a multicast key is installed before the unicast key has been used, or sets a number that is not below those accepted.  A list taken for multicast is checked as the unicast key would, or it has no unicast MPDU to check and leaves no number below those accepted. -/
def PnStepOk (vdev : PnVdev) (tid : Fin olTxrxNumExtTids) (s : PnHistory) : PnEvent → Prop
  | .secInd secType isUnicast rxPn =>
    isUnicast = true ∨ (s.check vdev .ucast).len = 0 ∨ s.accepted tid = [] ∨
      (secType = .wapi ∧ NoneAbove vdev s tid rxPn)
  | .check tid' msduList =>
    tid' ≠ tid ∨ (∀ msdu ∈ msduList.head?, msdu.mcast = false) ∨
      (s.check vdev .ucast).len = 0 ∨ s.check vdev .mcast = s.check vdev .ucast ∨
      ∀ mpdu ∈ rxMpdus msduList, mpdu.first.encrypted = true → mpdu.first.mcast = true ∧
          ((s.check vdev .mcast).len = 0 ∨ NoneAbove vdev s tid
              (httRxMpduDescPn vdev.isHighLatency mpdu.first (s.check vdev .mcast).len))

/-! ### The comparisons -/

namespace RxPnCheck
variable {check : RxPnCheck} {new old : HttRxPn} {isUnicast : Bool} {opmode : WlanOpMode}

theorem toNat_and_mask (x : BitVec 64) {n : ℕ} (hn : n ≤ 64) :
    (x &&& BitVec.ofNat 64 (2 ^ n - 1)).toNat = x.toNat % 2 ^ n := by
  have hlt : 2 ^ n - 1 < 2 ^ 64 :=
    (Nat.sub_lt Nat.one_le_two_pow Nat.one_pos).trans_le (Nat.pow_le_pow_right Nat.two_pos hn)
  rw [BitVec.toNat_and, BitVec.toNat_ofNat, mod_eq_of_lt hlt, and_two_pow_sub_one_eq_mod]

theorem toNat_pn24 (pn : HttRxPn) : (pn.pn24 &&& 0xffffff#32).toNat = cmp24.value pn := by
  change (BitVec.setWidth 32 pn.lo &&& 0xffffff#32).toNat = pn.lo.toNat % 2 ^ 24
  rw [BitVec.toNat_and, BitVec.toNat_setWidth]
  have hmask : (0xffffff#32).toNat = 2 ^ 24 - 1 := rfl
  rw [hmask, and_two_pow_sub_one_eq_mod, mod_mod_of_dvd _ (by decide)]

theorem toNat_pn48 (pn : HttRxPn) : (pn.pn48 &&& 0xffffffffffff#64).toNat = cmp48.value pn :=
  toNat_and_mask pn.lo (by decide : 48 ≤ 64)

theorem lt_of_cmp_eq_false (hl : check.len ≠ 0) (h : check.cmp new old isUnicast opmode = false) :
    check.value old < check.value new := by
  cases check with
  | unchecked => exact absurd rfl hl
  | cmp24 =>
    have h : ¬ new.pn24 &&& 0xffffff#32 ≤ old.pn24 &&& 0xffffff#32 := of_decide_eq_false h
    rw [BitVec.le_def, toNat_pn24, toNat_pn24] at h
    exact not_le.1 h
  | cmp48 =>
    have h : ¬ new.pn48 &&& 0xffffffffffff#64 ≤ old.pn48 &&& 0xffffffffffff#64 :=
      of_decide_eq_false h
    rw [BitVec.le_def, toNat_pn48, toNat_pn48] at h
    exact not_le.1 h
  | wapi =>
    have hnot : (if new.hi = old.hi then decide (new.lo ≤ old.lo) else decide (new.hi < old.hi))
        = false := by
      -- the parity test only ever rejects more
      unfold cmp olRxPnWapiCmp at h
      by_cases hu : isUnicast = true
      · rw [if_pos hu] at h
        by_cases ha : opmode = .ap
        · rw [if_pos ha, Bool.or_eq_false_iff] at h
          exact h.1
        · rw [if_neg ha, Bool.or_eq_false_iff] at h
          exact h.1
      · rw [if_neg hu] at h
        exact h
    have hold := old.lo.isLt
    by_cases he : new.hi = old.hi
    · rw [if_pos he, decide_eq_false_iff_not, BitVec.le_def] at hnot
      simp only [value, he]
      omega
    · rw [if_neg he, decide_eq_false_iff_not, BitVec.lt_def] at hnot
      have hne : new.hi.toNat ≠ old.hi.toNat := fun h => he (BitVec.eq_of_toNat_eq h)
      simp only [value]
      omega

/-- The number read for a check is the one of the descriptor, as far as the check looks at it. -/
theorem value_httRxMpduDescPn (isHighLatency : Bool) (msdu : RxMsdu) :
    check.value (httRxMpduDescPn isHighLatency msdu check.len) = check.value msdu.pn := by
  cases check with
  | unchecked => rfl
  | wapi => rfl
  | cmp48 =>
    change (if isHighLatency then msdu.pn.lo else msdu.pn.lo &&& 0xffffffffffff#64).toNat % 2 ^ 48
      = msdu.pn.lo.toNat % 2 ^ 48
    cases isHighLatency with
    | true => rfl
    | false =>
      have := toNat_and_mask msdu.pn.lo (by decide : 48 ≤ 64)
      simp only [Bool.false_eq_true, if_false]
      exact (congrArg (· % 2 ^ 48) this).trans (mod_mod _ _)
  | cmp24 =>
    change (msdu.stack.lo &&& 0xffffffff00000000#64 |||
      msdu.pn.lo &&& (if isHighLatency then 0xffffffff#64 else 0xffffff#64)).toNat % 2 ^ 24
        = msdu.pn.lo.toNat % 2 ^ 24
    have hmask := fun x : BitVec 64 => toNat_and_mask x (by decide : 24 ≤ 64)
    rw [← hmask, ← hmask, BitVec.and_or_distrib_right, BitVec.and_assoc, BitVec.and_assoc]
    cases isHighLatency with
    | true => simp
    | false => simp

end RxPnCheck

/-! ### Invariant -/

/-- `accepted` rises, and once it has a number the last one checked against is no lower than any of them. -/
structure PnCovered (check : RxPnCheck) (accepted : List RxMsdu) (lastPnValid : Bool)
    (lastPn : HttRxPn) : Prop where
  increasing : accepted.Pairwise fun msdu msdu' => check.value msdu.pn < check.value msdu'.pn
  covered : ∀ msdu ∈ accepted, lastPnValid = true ∧ check.value msdu.pn ≤ check.value lastPn

theorem PnCovered.nil {check : RxPnCheck} {lastPnValid : Bool} {lastPn : HttRxPn} :
    PnCovered check [] lastPnValid lastPn :=
  ⟨.nil, fun _ h => absurd h not_mem_nil⟩

theorem PnCovered.replace {check : RxPnCheck} {accepted : List RxMsdu} {valid : Bool}
    {lastPn lastPn' : HttRxPn} (h : PnCovered check accepted valid lastPn)
    (hle : ∀ msdu ∈ accepted, check.value msdu.pn ≤ check.value lastPn') :
    PnCovered check accepted true lastPn' :=
  ⟨h.increasing, fun msdu hm => ⟨rfl, hle msdu hm⟩⟩

theorem PnCovered.accept {check : RxPnCheck} {accepted : List RxMsdu} {valid : Bool}
    {lastPn lastPn' : HttRxPn} {msdu : RxMsdu} (h : PnCovered check accepted valid lastPn)
    (hlt : valid = true → check.value lastPn < check.value lastPn')
    (he : check.value lastPn' = check.value msdu.pn) :
    PnCovered check (accepted ++ [msdu]) true lastPn' where
  increasing := by
    refine pairwise_append.2 ⟨h.increasing, pairwise_singleton .., ?_⟩
    intro msdu₁ h₁ msdu₂ h₂
    obtain rfl := mem_singleton.1 h₂
    obtain ⟨hv, hle⟩ := h.covered msdu₁ h₁
    exact he ▸ hle.trans_lt (hlt hv)
  covered msdu' hm := by
    refine ⟨rfl, ?_⟩
    rcases mem_append.1 hm with hm | hm
    · obtain ⟨hv, hle⟩ := h.covered msdu' hm
      exact hle.trans (hlt hv).le
    · obtain rfl := mem_singleton.1 hm
      exact he.ge

theorem ucastEncrypted_append (l l' : List RxMpdu) :
    ucastEncrypted (l ++ l') = ucastEncrypted l ++ ucastEncrypted l' := by
  rw [ucastEncrypted, map_append, filter_append]
  rfl

/-- The loop is on its way: what it took goes after `accepted`. -/
def PnScan.Covered (check : RxPnCheck) (accepted : List RxMsdu) (s : PnScan) : Prop :=
  PnCovered check (accepted ++ ucastEncrypted s.out) s.lastPnValid s.lastPn

/-- The loop is on its way and has taken nothing of the unicast key. -/
def PnScan.Untouched (check : RxPnCheck) (accepted : List RxMsdu) (s : PnScan) : Prop :=
  ucastEncrypted s.out = [] ∧ PnCovered check accepted s.lastPnValid s.lastPn

section Scan
variable {vdev : PnVdev} {index : TxrxSec} {check check' : RxPnCheck} {accepted : List RxMsdu}
  {s : PnScan} {mpdu : RxMpdu}

/-- **One MPDU, checked as the unicast key would.** -/
theorem PnScan.Covered.checkMpdu (hl : check.len ≠ 0) (h : s.Covered check accepted) :
    (olRxPnCheckMpdu vdev index check s mpdu).Covered check accepted := by
  unfold olRxPnCheckMpdu
  by_cases he : mpdu.first.encrypted = true
  · rw [if_pos he]
    by_cases hr : (s.lastPnValid && check.cmp
        (httRxMpduDescPn vdev.isHighLatency mpdu.first check.len) s.lastPn (index = .ucast)
        vdev.opmode) = true
    · rw [if_pos hr]
      exact h
    · rw [if_neg hr]
      have hlt : s.lastPnValid = true → check.value s.lastPn <
          check.value (httRxMpduDescPn vdev.isHighLatency mpdu.first check.len) := by
        intro hv
        rw [hv, Bool.true_and, Bool.not_eq_true] at hr
        exact RxPnCheck.lt_of_cmp_eq_false hl hr
      rw [PnScan.Covered, ucastEncrypted_append, ← append_assoc]
      cases hm : mpdu.first.mcast with
      | true =>
        have hnone : ucastEncrypted [mpdu] = [] := by simp [ucastEncrypted, hm]
        rw [hnone, append_nil]
        refine h.replace fun msdu hmem => ?_
        obtain ⟨hv, hle⟩ := h.covered msdu hmem
        exact hle.trans (hlt hv).le
      | false =>
        have hone : ucastEncrypted [mpdu] = [mpdu.first] := by simp [ucastEncrypted, hm, he]
        rw [hone]
        exact h.accept hlt (RxPnCheck.value_httRxMpduDescPn _ _)
  · rw [if_neg he]
    have hnone : ucastEncrypted [mpdu] = [] := by simp [ucastEncrypted, he]
    rw [PnScan.Covered, ucastEncrypted_append, hnone, append_nil]
    exact h

/-- **One MPDU, checked by another comparison.**  It must not be one of the unicast key's. -/
theorem PnScan.Untouched.checkMpdu
    (hm : mpdu.first.encrypted = true → mpdu.first.mcast = true ∧ ∀ msdu ∈ accepted,
      check.value msdu.pn ≤ check.value (httRxMpduDescPn vdev.isHighLatency mpdu.first check'.len))
    (h : s.Untouched check accepted) :
    (olRxPnCheckMpdu vdev index check' s mpdu).Untouched check accepted := by
  obtain ⟨hnone, h⟩ := h
  unfold olRxPnCheckMpdu
  by_cases he : mpdu.first.encrypted = true
  · obtain ⟨hmc, hle⟩ := hm he
    rw [if_pos he]
    by_cases hr : (s.lastPnValid && check'.cmp
        (httRxMpduDescPn vdev.isHighLatency mpdu.first check'.len) s.lastPn (index = .ucast)
        vdev.opmode) = true
    · rw [if_pos hr]
      exact ⟨hnone, h⟩
    · rw [if_neg hr, PnScan.Untouched, ucastEncrypted_append, hnone]
      exact ⟨by simp [ucastEncrypted, hmc], h.replace hle⟩
  · rw [if_neg he, PnScan.Untouched, ucastEncrypted_append, hnone]
    exact ⟨by simp [ucastEncrypted, he], h⟩

end Scan

structure PnInv (vdev : PnVdev) (tid : Fin olTxrxNumExtTids) (s : PnHistory) : Prop where
  fwPnCheck : s.peer.fwPnCheck = false
  covered : (s.check vdev .ucast).len ≠ 0 →
    PnCovered (s.check vdev .ucast) (s.accepted tid) (s.peer.tidsLastPnValid tid)
      (s.peer.tidsLastPn tid)

section Steps
variable {vdev : PnVdev} {tid tid' : Fin olTxrxNumExtTids} {s s' : PnHistory}

@[simp] theorem secType_olRxSecIndHandler (peer : PnPeer) (secType : HttSecType)
    (isUnicast : Bool) (rxPn : HttRxPn) :
    (olRxSecIndHandler peer secType isUnicast rxPn).secType =
      update peer.secType (if isUnicast then .ucast else .mcast) secType := by
  dsimp only [olRxSecIndHandler]
  split_ifs <;> rfl

@[simp] theorem fwPnCheck_olRxSecIndHandler (peer : PnPeer) (secType : HttSecType)
    (isUnicast : Bool) (rxPn : HttRxPn) :
    (olRxSecIndHandler peer secType isUnicast rxPn).fwPnCheck = peer.fwPnCheck := by
  dsimp only [olRxSecIndHandler]
  split_ifs <;> rfl

theorem PnInv.secInd {secType : HttSecType} {isUnicast : Bool} {rxPn : HttRxPn}
    (hi : PnInv vdev tid s) (hok : PnStepOk vdev tid s (.secInd secType isUnicast rxPn))
    (h : pnStep vdev s (.secInd secType isUnicast rxPn) = some s') : PnInv vdev tid s' := by
  obtain rfl := some.inj h
  refine ⟨(fwPnCheck_olRxSecIndHandler ..).trans hi.fwPnCheck, ?_⟩
  cases isUnicast with
  | true => exact fun _ => .nil
  | false =>
    have hcheck : check vdev
        ⟨olRxSecIndHandler s.peer secType false rxPn, s.accepted⟩ .ucast = s.check vdev .ucast := by
      simp [check]
    simp only [Bool.false_eq_true, if_false]
    rw [hcheck]
    intro hl
    rcases hok with hok | hok | hok | ⟨rfl, hok⟩
    · cases hok
    · exact absurd hok hl
    · rw [hok]
      exact .nil
    · exact (hi.covered hl).replace hok

/-- What a check does: nothing when the key has no packet numbers, else it walks the MPDUs. -/
theorem olRxPnCheckBase_spec {peer peer' : PnPeer} {msduList : List RxMsdu} {out : List RxMpdu}
    (hop : vdev.opmode ≠ .ibss) (hf : peer.fwPnCheck = false)
    (h : olRxPnCheckBase vdev peer tid msduList = some (peer', out)) :
    ∃ msdu, msduList.head? = some msdu ∧
      (((vdev.rxPn (peer.secType msdu.index)).len = 0 ∧ peer' = peer ∧ out = rxMpdus msduList) ∨
        ∃ scan, (vdev.rxPn (peer.secType msdu.index)).len ≠ 0 ∧ scan = (rxMpdus msduList).foldl
            (olRxPnCheckMpdu vdev msdu.index (vdev.rxPn (peer.secType msdu.index)))
            ⟨peer.tidsLastPnValid tid, peer.tidsLastPn tid, []⟩ ∧
          peer' = { peer with
            tidsLastPn := update peer.tidsLastPn tid scan.lastPn
            tidsLastPnValid := update peer.tidsLastPnValid tid scan.lastPnValid } ∧
          out = scan.out) := by
  have hneg : ¬ (peer.fwPnCheck = true ∨ vdev.opmode = .ibss) := by
    rw [hf]
    exact fun h => h.elim (fun h => nomatch h) hop
  rw [olRxPnCheckBase, if_neg hneg] at h
  obtain ⟨msdu, hm, h⟩ := bind_eq_some_iff.1 h
  refine ⟨msdu, hm, ?_⟩
  by_cases hl : (vdev.rxPn (peer.secType msdu.index)).len = 0
  · rw [if_pos hl] at h
    cases h
    exact .inl ⟨hl, rfl, rfl⟩
  · rw [if_neg hl] at h
    cases h
    exact .inr ⟨_, hl, rfl, rfl, rfl⟩

theorem olRxPnCheckBase_frame {peer peer' : PnPeer} {msduList : List RxMsdu} {out : List RxMpdu}
    (hop : vdev.opmode ≠ .ibss) (hf : peer.fwPnCheck = false)
    (h : olRxPnCheckBase vdev peer tid msduList = some (peer', out)) :
    peer'.fwPnCheck = false ∧ peer'.secType = peer.secType ∧
      ∀ t ≠ tid, peer'.tidsLastPn t = peer.tidsLastPn t ∧
        peer'.tidsLastPnValid t = peer.tidsLastPnValid t := by
  obtain ⟨msdu, -, ⟨-, rfl, -⟩ | ⟨scan, -, -, rfl, -⟩⟩ := olRxPnCheckBase_spec hop hf h
  · exact ⟨hf, rfl, fun _ _ => ⟨rfl, rfl⟩⟩
  · exact ⟨hf, rfl, fun t ht => ⟨update_of_ne ht .., update_of_ne ht ..⟩⟩

theorem PnInv.check_other {msduList : List RxMsdu} (hop : vdev.opmode ≠ .ibss) (ht : tid ≠ tid')
    (hi : PnInv vdev tid s) (h : pnStep vdev s (.check tid' msduList) = some s') :
    PnInv vdev tid s' := by
  obtain ⟨⟨peer, out⟩, hp, h⟩ := bind_eq_some_iff.1 h
  obtain rfl := some.inj h
  obtain ⟨hf, hsec, hframe⟩ := olRxPnCheckBase_frame hop hi.fwPnCheck hp
  obtain ⟨hlast, hvalid⟩ := hframe tid ht
  refine ⟨hf, ?_⟩
  simp only [check, hsec, hlast, hvalid, update_of_ne ht]
  exact hi.covered

theorem ucastEncrypted_eq_nil {mpdus : List RxMpdu}
    (h : ∀ mpdu ∈ mpdus, mpdu.first.encrypted = true → mpdu.first.mcast = true) :
    ucastEncrypted mpdus = [] := by
  refine filter_eq_nil_iff.2 fun msdu hm => ?_
  obtain ⟨mpdu, hmem, rfl⟩ := mem_map.1 hm
  intro hb
  rw [Bool.and_eq_true, Bool.not_eq_true'] at hb
  exact Bool.false_ne_true (hb.2.symm.trans (h mpdu hmem hb.1))

theorem PnInv.check {msduList : List RxMsdu} (hop : vdev.opmode ≠ .ibss)
    (hi : PnInv vdev tid s) (hok : PnStepOk vdev tid s (.check tid msduList))
    (h : pnStep vdev s (.check tid msduList) = some s') : PnInv vdev tid s' := by
  obtain ⟨⟨peer, out⟩, hp, h⟩ := bind_eq_some_iff.1 h
  obtain rfl := some.inj h
  obtain ⟨hf, hsec, -⟩ := olRxPnCheckBase_frame hop hi.fwPnCheck hp
  obtain ⟨msdu, hhead, hspec⟩ := olRxPnCheckBase_spec hop hi.fwPnCheck hp
  refine ⟨hf, ?_⟩
  simp only [check, hsec, update_self]
  intro hl
  have hcov := hi.covered hl
  -- the list is checked as the unicast key would, or it has nothing for the unicast key
  have hcases : vdev.rxPn (s.peer.secType msdu.index) = s.check vdev .ucast ∨
      ∀ mpdu ∈ rxMpdus msduList, mpdu.first.encrypted = true → mpdu.first.mcast = true ∧
        ((vdev.rxPn (s.peer.secType msdu.index)).len = 0 ∨ NoneAbove vdev s tid
          (httRxMpduDescPn vdev.isHighLatency mpdu.first
            (vdev.rxPn (s.peer.secType msdu.index)).len)) := by
    cases hm : msdu.mcast with
    | false =>
      have hidx : msdu.index = .ucast := by rw [RxMsdu.index, hm]; rfl
      rw [hidx]
      exact .inl rfl
    | true =>
      have hidx : msdu.index = .mcast := by rw [RxMsdu.index, hm]; rfl
      rw [hidx]
      rcases hok with hok | hok | hok | hok | hok
      · exact absurd rfl hok
      · exact absurd (hm.symm.trans (hok msdu hhead)) Bool.true_eq_false.mp
      · exact absurd hok hl
      · exact .inl hok
      · exact .inr hok
  rcases hspec with ⟨hlen, rfl, rfl⟩ | ⟨scan, hlen, hscan, rfl, rfl⟩
  · rcases hcases with hsame | hnone
    · rw [hsame] at hlen
      exact absurd hlen hl
    · rw [ucastEncrypted_eq_nil fun mpdu hmem he => (hnone mpdu hmem he).1, append_nil]
      exact hcov
  · simp only [update_self]
    rcases hcases with hsame | hnone
    · rw [hsame] at hscan
      change scan.Covered (s.check vdev .ucast) (s.accepted tid)
      rw [hscan]
      refine foldl_keeps (fun scan mpdu _ hs => hs.checkMpdu hl) ?_
      change PnCovered _ (s.accepted tid ++ []) _ _
      rwa [append_nil]
    · have hend : scan.Untouched (s.check vdev .ucast) (s.accepted tid) := by
        rw [hscan]
        refine foldl_keeps (fun scan mpdu hmem hs => hs.checkMpdu fun he => ?_) ⟨rfl, hcov⟩
        obtain ⟨hmc, hle⟩ := hnone mpdu hmem he
        exact ⟨hmc, hle.resolve_left hlen⟩
      rw [hend.1, append_nil]
      exact hend.2

theorem PnInv.step {e : PnEvent} (hop : vdev.opmode ≠ .ibss) (hi : PnInv vdev tid s)
    (hok : PnStepOk vdev tid s e) (h : pnStep vdev s e = some s') : PnInv vdev tid s' := by
  cases e with
  | secInd secType isUnicast rxPn => exact hi.secInd hok h
  | check tid' msduList =>
    by_cases ht : tid = tid'
    · subst ht
      exact hi.check hop hok h
    · exact hi.check_other hop ht h

end Steps

/-! ### The result -/

section Results
variable {vdev : PnVdev} {tid : Fin olTxrxNumExtTids} {s : PnHistory}

theorem pnInv_of_reach (hop : vdev.opmode ≠ .ibss)
    (h : (pnMachine vdev).Reach (PnStepOk vdev tid) s) : PnInv vdev tid s := by
  refine h.invariant (PnInv vdev tid) ?_ fun _ _ _ hi hok h => hi.step hop hok h
  rintro _ rfl
  exact ⟨rfl, fun _ => .nil⟩

/-- **Replay protection.**  As long as the steps leave the last packet number no lower than those accepted under the unicast key, these rise. -/
theorem unicast_pns_increasing (hop : vdev.opmode ≠ .ibss)
    (h : (pnMachine vdev).Reach (PnStepOk vdev tid) s) : PnsIncreasing vdev s tid :=
  fun hl => ((pnInv_of_reach hop h).covered hl).increasing

instance decidablePnStepOk (vdev : PnVdev) (tid : Fin olTxrxNumExtTids) (s : PnHistory) :
    (e : PnEvent) → Decidable (PnStepOk vdev tid s e)
  | .secInd secType isUnicast rxPn =>
    have : Decidable (NoneAbove vdev s tid rxPn) :=
      inferInstanceAs (Decidable (∀ msdu ∈ s.accepted tid, _ ≤ _))
    inferInstanceAs (Decidable (isUnicast = true ∨ _ = 0 ∨ s.accepted tid = [] ∨
      (secType = .wapi ∧ NoneAbove vdev s tid rxPn)))
  | .check tid' msduList =>
    have (pn : HttRxPn) : Decidable (NoneAbove vdev s tid pn) :=
      inferInstanceAs (Decidable (∀ msdu ∈ s.accepted tid, _ ≤ _))
    inferInstanceAs (Decidable (tid' ≠ tid ∨ (∀ msdu ∈ msduList.head?, msdu.mcast = false) ∨
      _ = 0 ∨ _ = _ ∨ ∀ mpdu ∈ rxMpdus msduList, _ → _ ∧ (_ ∨ NoneAbove vdev s tid _)))

def staVdev : PnVdev where
  opmode := .sta
  isHighLatency := false
  rxPn := olTxrxPdevRxPn

/-- An encrypted MSDU that is an MPDU by itself. -/
def encryptedMsdu (mcast : Bool) (pn : BitVec 64) : RxMsdu where
  completesMpdu := true
  mcast := mcast
  encrypted := true
  pn := ⟨pn, 0⟩
  stack := ⟨0, 0⟩

/-- Both keys installed before any frame: the replayed 5 and the late 6 are not accepted. -/
theorem unicast_pns_increasing_bothKeys : ∃ s, (pnMachine staVdev).run .attached
    [.secInd .aesCcmp true ⟨0, 0⟩, .secInd .tkip false ⟨0, 0⟩, .check 0 [encryptedMsdu false 5],
      .check 0 [encryptedMsdu true 7], .check 0 [encryptedMsdu false 6, encryptedMsdu false 5],
      .check 0 [encryptedMsdu false 9]] = some s ∧
    (s.accepted 0).map (fun msdu => msdu.pn.lo) = [5, 9] ∧ PnsIncreasing staVdev s 0 :=
  Machine.exists_reach_of (q := fun s => (s.accepted 0).map (fun msdu => msdu.pn.lo) = [5, 9]) rfl
    (by decide) (by decide) fun s hr hacc => ⟨hacc, unicast_pns_increasing (by decide) hr⟩

theorem group_rekey_replays : ∃ s, (pnMachine staVdev).Reach (fun _ _ => True) s ∧
    (s.accepted 0).map (fun msdu => msdu.pn.lo) = [5, 5] ∧ ¬ PnsIncreasing staVdev s 0 := by
  obtain ⟨s, hs, hpns, hinc⟩ : ∃ s, (pnMachine staVdev).run .attached
      [.secInd .aesCcmp true ⟨0, 0⟩, .secInd .aesCcmp false ⟨0, 0⟩,
        .check 0 [encryptedMsdu false 5], .secInd .aesCcmp false ⟨0, 0⟩,
        .check 0 [encryptedMsdu false 5]] = some s ∧
      (s.accepted 0).map (fun msdu => msdu.pn.lo) = [5, 5] ∧ ¬ PnsIncreasing staVdev s 0 :=
    Machine.exists_run (by decide)
  exact ⟨s, Machine.reach_of_run rfl hs, hpns, hinc⟩

end Results

end Qcacld.Txrx

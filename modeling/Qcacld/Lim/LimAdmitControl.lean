import Qcacld.Dph.DphHashTable
import Qcacld.Support.Tally

/-!
# Lim — LimAdmitControl

Admission control of traffic streams.  `limAdmitControlAddTS` validates a request, asks the policy, and has `limTspecAdd` write it to the table: over the entry of the same association id, direction and tsid, or into a free one.  `limAdmitControlDeleteTS` and `limAdmitControlDeleteSta` free entries.

`TspecRight` says that the table carries, under its index, exactly the last request admitted for each key, and that under the bandwidth policy the streams fit.  `tspec_table_iff` says when a call keeps it: `limTspecAdd` writes an update to entry 0, wherever it has found the key; and `limCalculateSvcInt` divides by a rate in whole Mbps.
-/

namespace Qcacld.Lim
open Qcacld.Support Qcacld.Dph Function List Option

/-! ### The table -/

structure SirMacTSInfo where
  reserved : BitVec 7
  burstSizeDefn : BitVec 1
  ackPolicy : BitVec 2
  userPrio : BitVec 3
  psb : BitVec 1
  aggregation : BitVec 1
  accessPolicy : BitVec 2
  direction : BitVec 2
  tsid : BitVec 4
  trafficType : BitVec 1
  rsvd : BitVec 7
  schedule : BitVec 1
deriving DecidableEq

structure SirMacTspecIE where
  type : UInt8
  length : UInt8
  tsinfo : SirMacTSInfo
  nomMsduSz : UInt16
  maxMsduSz : UInt16
  minSvcInterval : UInt32
  maxSvcInterval : UInt32
  inactInterval : UInt32
  suspendInterval : UInt32
  svcStartTime : UInt32
  minDataRate : UInt32
  meanDataRate : UInt32
  peakDataRate : UInt32
  maxBurstSz : UInt32
  delayBound : UInt32
  minPhyRate : UInt32
  surplusBw : UInt16
  mediumTime : UInt16
deriving DecidableEq

/-- What the table reads and writes of `tLimTspecInfo`. -/
structure LimTspecInfo where
  inuse : Bool
  idx : Nat
  staAddr : SirMacAddr
  assocId : UInt16
  tspec : SirMacTspecIE

structure AdmitSta where
  valid : Bool
  wmeEnabled : Bool
  lleEnabled : Bool

structure TsKey where
  assocId : UInt16
  direction : BitVec 2
  tsid : BitVec 4
deriving DecidableEq

def limNumTspecMax : Nat := 15

/-- The part of `pMac->lim` that is about admission, the session's phy mode and its stations. -/
structure LimAdmit where
  maxStation : Nat
  /-- `admitPolicyInfo.type` -/
  policy : UInt8
  /-- `admitPolicyInfo.bw_factor` -/
  bwFactor : UInt8
  phyMode : UInt32
  /-- what `dphGetHashEntry` finds -/
  stations : UInt16 → Option AdmitSta
  tspecInfo : Nat → LimTspecInfo
  /-- the request that was last admitted for a key and not deleted -/
  admitted : TsKey → Option SirMacTspecIE

open LimAdmit

def tsKey (assocId : UInt16) (tsInfo : SirMacTSInfo) : TsKey :=
  ⟨assocId, tsInfo.direction, tsInfo.tsid⟩

namespace LimAdmit

def setEntry (s : LimAdmit) (i : Nat) (n : LimTspecInfo) : LimAdmit :=
  { s with tspecInfo := update s.tspecInfo i n }

def keyOf (s : LimAdmit) (i : Nat) : TsKey :=
  tsKey (s.tspecInfo i).assocId (s.tspecInfo i).tspec.tsinfo

end LimAdmit

/-! ### Validation -/

def sirMacAccesspolicyEdca : BitVec 2 := 1

def wniCfgPhyMode11a : UInt32 := 0
def wniCfgPhyMode11b : UInt32 := 1
def wniCfgPhyMode11g : UInt32 := 2

def wniCfgAdmitPolicyAdmitAll : UInt8 := 0
def wniCfgAdmitPolicyRejectAll : UInt8 := 1
def wniCfgAdmitPolicyBwFactor : UInt8 := 2

/-- `LIM_TOTAL_BW_11A` and its siblings, by phy mode -/
def limTotalBw (phyMode : UInt32) : UInt32 :=
  if phyMode = wniCfgPhyMode11b then 11000000 else 54000000

/-- `LIM_MIN_BW_11A` and its siblings, by phy mode -/
def limMinBw (phyMode : UInt32) : UInt32 :=
  if phyMode = wniCfgPhyMode11b then 1000000
  else if phyMode = wniCfgPhyMode11a then 6000000
  else 1000000

/-- `limGetAvailableBw`: the most and the least. -/
def limGetAvailableBw (phyMode bwFactor : UInt32) : UInt32 × UInt32 :=
  (limTotalBw phyMode * bwFactor, limMinBw phyMode)

/-- `limCalculateSvcInt`: whether it succeeds, and the interval; `none` when it divides by zero. -/
def limCalculateSvcInt (pTspec : SirMacTspecIE) : Option (Bool × UInt32) :=
  if pTspec.minSvcInterval ≠ 0 ∨ pTspec.maxSvcInterval ≠ 0 then
    some (true, if pTspec.maxSvcInterval ≠ 0 then pTspec.maxSvcInterval else pTspec.minSvcInterval)
  else if pTspec.nomMsduSz = 0 ∧ pTspec.maxMsduSz = 0 then some (false, 0)
  else if pTspec.meanDataRate = 0 ∧ pTspec.peakDataRate = 0 ∧ pTspec.minDataRate = 0 then
    some (false, 0)
  else
    let msduSz :=
      if pTspec.nomMsduSz ≠ 0 then (pTspec.nomMsduSz &&& 0x7fff).toUInt32
      else pTspec.maxMsduSz.toUInt32
    let dataRate :=
      if pTspec.meanDataRate ≠ 0 then pTspec.meanDataRate
      else if pTspec.peakDataRate ≠ 0 then pTspec.peakDataRate
      else pTspec.minDataRate
    -- the interval is computed, and then not used: the status is `eSIR_FAILURE` here too
    if dataRate / 1000000 = 0 then none else some (false, msduSz * 8 / (dataRate / 1000000))

def limValidateTspecEdca (s : LimAdmit) (pTspec : SirMacTspecIE) : Bool :=
  let maxPhyRate := (limGetAvailableBw s.phyMode 1).1
  !(pTspec.nomMsduSz == 0 || pTspec.meanDataRate == 0 || pTspec.surplusBw == 0
    || pTspec.minPhyRate == 0 || maxPhyRate < pTspec.minPhyRate)

def limValidateTspec (s : LimAdmit) (pTspec : SirMacTspecIE) : Bool :=
  if pTspec.tsinfo.accessPolicy = sirMacAccesspolicyEdca then limValidateTspecEdca s pTspec
  else false

/-! ### The policy -/

/-- `limComputeMeanBwUsed`, which passes over the entries of stations without a node -/
def limComputeMeanBwUsed (s : LimAdmit) : UInt32 :=
  (List.range limNumTspecMax).foldl (fun bw ctspec =>
    let pTspecInfo := s.tspecInfo ctspec
    if pTspecInfo.inuse && (s.stations pTspecInfo.assocId).isSome then
      bw + pTspecInfo.tspec.meanDataRate
    else bw) 0

def limAdmitPolicyOversubscription (s : LimAdmit) (pTspec : SirMacTspecIE) : Bool :=
  let usedbw := limComputeMeanBwUsed s
  let totalbw := (limGetAvailableBw s.phyMode s.bwFactor.toUInt32).1
  if totalbw < usedbw then false
  else if totalbw - usedbw < pTspec.meanDataRate then false
  else true

def limAdmitPolicy (s : LimAdmit) (pTspec : SirMacTspecIE) : Bool :=
  if s.policy = wniCfgAdmitPolicyAdmitAll then true
  else if s.policy = wniCfgAdmitPolicyBwFactor then limAdmitPolicyOversubscription s pTspec
  else if s.policy = wniCfgAdmitPolicyRejectAll then false
  else true

/-! ### Finding and adding -/

def limTspecFindByStaAddr (s : LimAdmit) (pAddr : SirMacAddr) (pTspecIE : SirMacTspecIE) :
    Option Nat :=
  (List.range limNumTspecMax).find? fun i => (s.tspecInfo i).inuse
    && pAddr == (s.tspecInfo i).staAddr && pTspecIE == (s.tspecInfo i).tspec

def limTspecFindByAssocId (s : LimAdmit) (assocId : UInt16) (pTspecIE : SirMacTspecIE) :
    Option Nat :=
  (List.range limNumTspecMax).find? fun i => (s.tspecInfo i).inuse
    && assocId == (s.tspecInfo i).assocId && pTspecIE == (s.tspecInfo i).tspec

def limFindTspec (s : LimAdmit) (assocId : UInt16) (pTsInfo : SirMacTSInfo) : Option Nat :=
  (List.range limNumTspecMax).find? fun i => (s.tspecInfo i).inuse
    && assocId == (s.tspecInfo i).assocId
    && pTsInfo.direction == (s.tspecInfo i).tspec.tsinfo.direction
    && pTsInfo.tsid == (s.tspecInfo i).tspec.tsinfo.tsid

def writeTspec (s : LimAdmit) (i : Nat) (pAddr : SirMacAddr) (assocId : UInt16)
    (pTspec : SirMacTspecIE) : LimAdmit :=
  s.setEntry i
    { s.tspecInfo i with
      tspec := pTspec
      assocId
      staAddr := pAddr
      inuse := true }

/-- `limTspecAdd`: the entry it has written, and the table. -/
def limTspecAdd (s : LimAdmit) (pAddr : SirMacAddr) (assocId : UInt16)
    (pTspec : SirMacTspecIE) : Option (Nat × LimAdmit) :=
  if assocId.toNat ≥ s.maxStation then none
  else
    match limFindTspec s assocId pTspec.tsinfo with
    -- the entry is found by `*ppInfo`; the one that is written is `pTspecList`, the first
    | some _ => some (0, writeTspec s 0 pAddr assocId pTspec)
    | none =>
      match (List.range limNumTspecMax).find? fun i => !(s.tspecInfo i).inuse with
      | none => none
      | some ctspec =>
        let s := s.setEntry ctspec { s.tspecInfo ctspec with idx := ctspec }
        some (ctspec, writeTspec s ctspec pAddr assocId pTspec)

def limTspecDelete (s : LimAdmit) (pInfo : Nat) : LimAdmit :=
  s.setEntry pInfo { s.tspecInfo pInfo with inuse := false }

def limValidateAccessPolicy (s : LimAdmit) (accessPolicy : BitVec 2) (assocId : UInt16) : Bool :=
  match s.stations assocId with
  | none => false
  | some pSta =>
    if !pSta.valid then false
    else if accessPolicy = sirMacAccesspolicyEdca then pSta.wmeEnabled || pSta.lleEnabled
    else false

/-! ### The calls -/

/-- What a call returns: a failure, a success, or a success and the index of an entry. -/
inductive TsOutcome where
  | failure
  | success
  | entry (tspecIdx : Nat)
deriving DecidableEq

/-- `limAdmitControlAddTS`; `none` when it divides by zero. -/
def limAdmitControlAddTS (s : LimAdmit) (pAddr : SirMacAddr) (tspec : SirMacTspecIE)
    (assocId : UInt16) (alloc : Bool) : Option (TsOutcome × LimAdmit) :=
  let dup := if alloc then limTspecFindByAssocId s assocId tspec
    else limTspecFindByStaAddr s pAddr tspec
  if dup.isSome then some (.failure, s)
  else if !limValidateTspec s tspec then some (.failure, s)
  else
    match limCalculateSvcInt tspec with
    | none => none
    | some (false, _) => some (.failure, s)
    | some (true, _) =>
      if !limAdmitPolicy s tspec then some (.failure, s)
      else if !alloc then some (.success, s)
      else if !limValidateAccessPolicy s tspec.tsinfo.accessPolicy assocId then some (.failure, s)
      else
        match limTspecAdd s pAddr assocId tspec with
        | none => some (.failure, s)
        | some (i, s) => some (.entry (s.tspecInfo i).idx, s)

def limAdmitControlDeleteTS (s : LimAdmit) (assocId : UInt16) (pTsInfo : SirMacTSInfo) :
    TsOutcome × LimAdmit :=
  match limFindTspec s assocId pTsInfo with
  | none => (.failure, s)
  | some i => (.entry (s.tspecInfo i).idx, limTspecDelete s i)

def limAdmitControlDeleteSta (s : LimAdmit) (assocId : UInt16) : LimAdmit :=
  (List.range limNumTspecMax).foldl (fun s ctspec =>
    if assocId = (s.tspecInfo ctspec).assocId then limTspecDelete s ctspec else s) s

/-! ### Runs -/

/-- The calls, and the coming and going of stations. -/
inductive TsCall where
  | addTS (pAddr : SirMacAddr) (tspec : SirMacTspecIE) (assocId : UInt16) (alloc : Bool)
  | deleteTS (assocId : UInt16) (pTsInfo : SirMacTSInfo)
  | deleteSta (assocId : UInt16)
  | stationsChange (stations : UInt16 → Option AdmitSta)

/-- One call: what it returns, the table, and what has been admitted. -/
def tsCall (s : LimAdmit) : TsCall → Option (TsOutcome × LimAdmit)
  | .addTS pAddr tspec assocId alloc =>
    (limAdmitControlAddTS s pAddr tspec assocId alloc).map fun
      | (.entry i, s) => (.entry i, { s with
          admitted := update s.admitted (tsKey assocId tspec.tsinfo) (some tspec) })
      | r => r
  | .deleteTS assocId pTsInfo =>
    some <| match limAdmitControlDeleteTS s assocId pTsInfo with
      | (.entry i, s) => (.entry i, { s with
          admitted := update s.admitted (tsKey assocId pTsInfo) none })
      | r => r
  | .deleteSta assocId =>
    let s := limAdmitControlDeleteSta s assocId
    some (.success, { s with
      admitted := fun k => if k.assocId = assocId then none else s.admitted k })
  | .stationsChange stations => some (.success, { s with stations })

def LimAdmit.InUse (s : LimAdmit) (i : Nat) : Prop :=
  i < limNumTspecMax ∧ (s.tspecInfo i).inuse = true
deriving Decidable

/-- The node of a station stays while a stream of it is in use: `limCleanupRxPath` deletes its streams before the node goes. -/
def TsCall.Allowed (s : LimAdmit) : TsCall → Prop
  | .stationsChange stations => ∀ i < limNumTspecMax, (s.tspecInfo i).inuse = true →
    (stations (s.tspecInfo i).assocId).isSome
  | _ => True

instance (s : LimAdmit) : (c : TsCall) → Decidable (c.Allowed s)
  | .stationsChange _ => inferInstanceAs (Decidable (∀ i < limNumTspecMax, _ → _))
  | .addTS .. | .deleteTS .. | .deleteSta _ => .isTrue trivial

/-- `limAdmitControlInit` has been called, and nothing is admitted. -/
def LimAdmit.Initial (s : LimAdmit) : Prop :=
  (∀ i, (s.tspecInfo i).inuse = false ∧ (s.tspecInfo i).idx = 0) ∧ ∀ k, s.admitted k = none

def tsMachine : Machine LimAdmit TsCall where
  init := LimAdmit.Initial
  step s c := do
    guard (c.Allowed s)
    (·.2) <$> tsCall s c

/-! ### What the table is to be -/

def LimAdmit.entries (s : LimAdmit) : List Nat :=
  (List.range limNumTspecMax).filter fun i => (s.tspecInfo i).inuse

def LimAdmit.rate (s : LimAdmit) (i : Nat) : Nat := (s.tspecInfo i).tspec.meanDataRate.toNat

structure TspecRight (s : LimAdmit) : Prop where
  /-- at most one entry for a key -/
  unique : ∀ i j, s.InUse i → s.InUse j → s.keyOf i = s.keyOf j → i = j
  /-- entries know their index -/
  idx : ∀ i, s.InUse i → (s.tspecInfo i).idx = i
  /-- the entry of a key carries the request that was last admitted for it -/
  carries : ∀ k t, s.admitted k = some t ↔
    ∃ i, s.InUse i ∧ s.keyOf i = k ∧ (s.tspecInfo i).tspec = t
  /-- under the bandwidth policy the streams fit -/
  fits : s.policy = wniCfgAdmitPolicyBwFactor →
    tally s.rate s.entries ≤ (limTotalBw s.phyMode).toNat * s.bwFactor.toNat

/-- What a call is to do: the table stays right, and an index that is returned is that of the key. -/
def TsCallRight (s : LimAdmit) (c : TsCall) : Prop :=
  ∃ r s', tsCall s c = some (r, s') ∧ TspecRight s' ∧
    match c, r with
    | .addTS _ tspec assocId _, .entry i =>
      s'.InUse i ∧ s'.keyOf i = tsKey assocId tspec.tsinfo ∧ (s'.tspecInfo i).tspec = tspec
    | .deleteTS assocId pTsInfo, .entry i => s.InUse i ∧ s.keyOf i = tsKey assocId pTsInfo
    | _, _ => True

def Offered (s : LimAdmit) (pAddr : SirMacAddr) (tspec : SirMacTspecIE) (assocId : UInt16)
    (alloc : Bool) : Prop :=
  (if alloc then limTspecFindByAssocId s assocId tspec else limTspecFindByStaAddr s pAddr tspec)
      = none ∧
    limValidateTspec s tspec = true
deriving Decidable

def GivesInterval (tspec : SirMacTspecIE) : Prop :=
  tspec.minSvcInterval ≠ 0 ∨ tspec.maxSvcInterval ≠ 0
deriving Decidable

/-- The request passes all checks, up to the search for its entry. -/
def Admits (s : LimAdmit) (pAddr : SirMacAddr) (tspec : SirMacTspecIE) (assocId : UInt16) : Prop :=
  Offered s pAddr tspec assocId true ∧ GivesInterval tspec ∧ limAdmitPolicy s tspec = true ∧
    limValidateAccessPolicy s tspec.tsinfo.accessPolicy assocId = true ∧
    assocId.toNat < s.maxStation
deriving Decidable

/-- **The condition.**  A valid request that does not give its service interval has a mean rate of
1 Mbps or more; a request that is admitted has no entry yet, or has entry 0. -/
def TsCallOk (s : LimAdmit) : TsCall → Prop
  | .addTS pAddr tspec assocId alloc =>
    (Offered s pAddr tspec assocId alloc → GivesInterval tspec ∨ 1000000 ≤ tspec.meanDataRate) ∧
      (alloc = true → Admits s pAddr tspec assocId →
        ∀ i, limFindTspec s assocId tspec.tsinfo = some i → i = 0)
  | .deleteTS .. | .deleteSta _ | .stationsChange _ => True

instance (s : LimAdmit) : (c : TsCall) → Decidable (TsCallOk s c)
  | .addTS pAddr tspec assocId alloc =>
    match h : limFindTspec s assocId tspec.tsinfo with
    | none => decidable_of_iff
        (Offered s pAddr tspec assocId alloc → GivesInterval tspec ∨ 1000000 ≤ tspec.meanDataRate)
        (by simp [TsCallOk, h])
    | some i => decidable_of_iff
        ((Offered s pAddr tspec assocId alloc →
            GivesInterval tspec ∨ 1000000 ≤ tspec.meanDataRate) ∧
          (alloc = true → Admits s pAddr tspec assocId → i = 0))
        (by simp [TsCallOk, h])
  | .deleteTS .. | .deleteSta _ | .stationsChange _ => .isTrue trivial

/-! ### The entries -/

section
variable {s s' : LimAdmit} {i j : Nat} {a : SirMacAddr} {t : SirMacTspecIE} {d : UInt16}
  {ts : SirMacTSInfo}

@[simp] theorem setEntry_tspecInfo (n : LimTspecInfo) :
    (s.setEntry i n).tspecInfo = update s.tspecInfo i n := rfl

@[simp] theorem mem_entries : i ∈ s.entries ↔ s.InUse i := by
  simp [LimAdmit.entries, LimAdmit.InUse]

theorem nodup_entries : s.entries.Nodup := nodup_range.filter _

/-- **The search for a key** finds an entry in use that has it. -/
theorem limFindTspec_eq_some (h : limFindTspec s d ts = some i) :
    s.InUse i ∧ s.keyOf i = tsKey d ts := by
  have hp := find?_some h
  have hi := mem_range.1 (mem_of_find?_eq_some h)
  simp only [Bool.and_eq_true, beq_iff_eq] at hp
  obtain ⟨⟨⟨hu, hd⟩, hdir⟩, htsid⟩ := hp
  exact ⟨⟨hi, hu⟩, by simp [keyOf, tsKey, hd, hdir, htsid]⟩

theorem limFindTspec_eq_none (h : limFindTspec s d ts = none) (hi : s.InUse i) :
    s.keyOf i ≠ tsKey d ts := by
  intro hk
  have hn := find?_eq_none.1 h i (mem_range.2 hi.1)
  simp only [keyOf, tsKey, TsKey.mk.injEq] at hk
  simp [hi.2, hk] at hn

/-- What a request writes: an entry that has its key from now on, and no other had it. -/
structure Written (s s' : LimAdmit) (i : Nat) (d : UInt16) (t : SirMacTspecIE) : Prop where
  lt : i < limNumTspecMax
  others : ∀ j, s.InUse j → s.keyOf j = tsKey d t.tsinfo → j = i
  own : s.InUse i → s.keyOf i = tsKey d t.tsinfo
  entry : ∃ a, s'.tspecInfo = update s.tspecInfo i ⟨true, i, a, d, t⟩
  config : s'.policy = s.policy ∧ s'.bwFactor = s.bwFactor ∧ s'.phyMode = s.phyMode ∧
    s'.stations = s.stations
  admitted : s'.admitted = update s.admitted (tsKey d t.tsinfo) (some t)

theorem Written.self (h : Written s s' i d t) :
    s'.InUse i ∧ s'.keyOf i = tsKey d t.tsinfo ∧ (s'.tspecInfo i).tspec = t ∧
      (s'.tspecInfo i).idx = i := by
  obtain ⟨a, he⟩ := h.entry
  simp [LimAdmit.InUse, keyOf, he, h.lt]

theorem Written.other (h : Written s s' i d t) (hj : j ≠ i) : s'.tspecInfo j = s.tspecInfo j := by
  obtain ⟨a, he⟩ := h.entry
  rw [he, update_of_ne hj]

theorem Written.inUse_other (h : Written s s' i d t) (hj : j ≠ i) :
    (s'.InUse j ↔ s.InUse j) ∧ s'.keyOf j = s.keyOf j := by
  simp [LimAdmit.InUse, keyOf, h.other hj]

theorem Written.tally_le (h : Written s s' i d t) :
    tally s'.rate s'.entries ≤ tally s.rate s.entries + t.meanDataRate.toNat := by
  have hself : s'.rate i = t.meanDataRate.toNat := by rw [rate, h.self.2.2.1]
  have hrest : tally s'.rate (s'.entries.filter (· ≠ i)) = tally s.rate (s.entries.filter (· ≠ i)) :=
    tally_others nodup_entries nodup_entries (fun j hj => by rw [rate, h.other hj, rate])
      (fun j hj => by simp [(h.inUse_other hj).1])
  rw [tally_eq_add_filter nodup_entries i, if_pos (mem_entries.2 h.self.1), hself, hrest,
    tally_eq_add_filter (f := s.rate) nodup_entries i]
  omega

/-- **A write keeps the table right**, if the streams fit. -/
theorem Written.right (h : Written s s' i d t) (hr : TspecRight s)
    (hfits : s'.policy = wniCfgAdmitPolicyBwFactor →
      tally s'.rate s'.entries ≤ (limTotalBw s'.phyMode).toNat * s'.bwFactor.toNat) :
    TspecRight s' := by
  -- an entry that has the key is the one that was written
  have hkey : ∀ j, s'.InUse j → s'.keyOf j = tsKey d t.tsinfo → j = i := by
    intro j hj hk
    by_contra hne
    rw [(h.inUse_other hne).2] at hk
    exact hne (h.others j ((h.inUse_other hne).1.1 hj) hk)
  refine ⟨fun j k hj hk he => ?_, fun j hj => ?_, fun k u => ?_, hfits⟩
  · rcases eq_or_ne j i with rfl | hji
    · exact (hkey k hk (he.symm.trans h.self.2.1)).symm
    · rcases eq_or_ne k i with rfl | hki
      · exact hkey j hj (he.trans h.self.2.1)
      · rw [(h.inUse_other hji).2, (h.inUse_other hki).2] at he
        exact hr.unique j k ((h.inUse_other hji).1.1 hj) ((h.inUse_other hki).1.1 hk) he
  · rcases eq_or_ne j i with rfl | hji
    · exact h.self.2.2.2
    · rw [h.other hji]
      exact hr.idx j ((h.inUse_other hji).1.1 hj)
  · rw [h.admitted]
    rcases eq_or_ne k (tsKey d t.tsinfo) with rfl | hk
    · rw [update_self]
      constructor
      · rintro ⟨⟩
        exact ⟨i, h.self.1, h.self.2.1, h.self.2.2.1⟩
      · rintro ⟨j, hj, hjk, rfl⟩
        rw [hkey j hj hjk, h.self.2.2.1]
    · rw [update_of_ne hk, hr.carries]
      constructor
      · rintro ⟨j, hj, rfl, rfl⟩
        have hji : j ≠ i := by
          rintro rfl
          exact hk (h.own hj)
        exact ⟨j, (h.inUse_other hji).1.2 hj, (h.inUse_other hji).2, by rw [h.other hji]⟩
      · rintro ⟨j, hj, rfl, rfl⟩
        have hji : j ≠ i := by
          rintro rfl
          exact hk h.self.2.1
        exact ⟨j, (h.inUse_other hji).1.1 hj, (h.inUse_other hji).2.symm, by rw [h.other hji]⟩

/-- What a deletion does: the entries of some keys are freed. -/
structure Freed (s s' : LimAdmit) (q : TsKey → Prop) : Prop where
  inUse : ∀ i, s'.InUse i ↔ s.InUse i ∧ ¬ q (s.keyOf i)
  same : ∀ i, s'.tspecInfo i = { s.tspecInfo i with inuse := (s'.tspecInfo i).inuse }
  config : s'.policy = s.policy ∧ s'.bwFactor = s.bwFactor ∧ s'.phyMode = s.phyMode ∧
    s'.stations = s.stations
  admitted : ∀ k t, s'.admitted k = some t ↔ ¬ q k ∧ s.admitted k = some t

section
variable {q : TsKey → Prop}

theorem Freed.keyOf (h : Freed s s' q) : s'.keyOf i = s.keyOf i := by
  rw [LimAdmit.keyOf, h.same i, LimAdmit.keyOf]

theorem Freed.tally_le (h : Freed s s' q) : tally s'.rate s'.entries ≤ tally s.rate s.entries := by
  have hrate : s'.rate = s.rate := by
    ext1 i
    rw [rate, h.same i, rate]
  have hsub : s'.entries = s.entries.filter fun i => (s'.tspecInfo i).inuse := by
    rw [LimAdmit.entries, LimAdmit.entries, List.filter_filter]
    refine filter_congr fun i hi => ?_
    cases hu : (s'.tspecInfo i).inuse with
    | false => rfl
    | true => simp [((h.inUse i).1 ⟨mem_range.1 hi, hu⟩).1.2]
  rw [hrate, hsub]
  exact tally_le_of_sublist filter_sublist

/-- **A deletion keeps the table right.** -/
theorem Freed.right (h : Freed s s' q) (hr : TspecRight s) : TspecRight s' := by
  refine ⟨fun j k hj hk he => ?_, fun j hj => ?_, fun k u => ?_, fun hp => ?_⟩
  · rw [h.keyOf, h.keyOf] at he
    exact hr.unique j k ((h.inUse j).1 hj).1 ((h.inUse k).1 hk).1 he
  · rw [h.same j]
    exact hr.idx j ((h.inUse j).1 hj).1
  · rw [h.admitted, hr.carries]
    constructor
    · rintro ⟨hq, j, hj, rfl, rfl⟩
      exact ⟨j, (h.inUse j).2 ⟨hj, hq⟩, h.keyOf, by rw [h.same j]⟩
    · rintro ⟨j, hj, rfl, rfl⟩
      rw [h.keyOf]
      exact ⟨((h.inUse j).1 hj).2, j, ((h.inUse j).1 hj).1, rfl, by rw [h.same j]⟩
  · rw [h.config.2.1, h.config.2.2.1]
    exact h.tally_le.trans (hr.fits (h.config.1 ▸ hp))

end

/-! ### The deletions -/

theorem delete_inUse : (limTspecDelete s i).InUse j ↔ s.InUse j ∧ j ≠ i := by
  rcases eq_or_ne j i with rfl | h
  · simp [limTspecDelete, LimAdmit.InUse]
  · simp [limTspecDelete, LimAdmit.InUse, h]

theorem delete_same : (limTspecDelete s i).tspecInfo j
    = { s.tspecInfo j with inuse := ((limTspecDelete s i).tspecInfo j).inuse } := by
  rcases eq_or_ne j i with rfl | h
  · simp [limTspecDelete]
  · simp [limTspecDelete, h]

theorem deleteTS_freed (h : TspecRight s) (hf : limFindTspec s d ts = some i) :
    Freed s { limTspecDelete s i with
      admitted := update (limTspecDelete s i).admitted (tsKey d ts) none }
      (· = tsKey d ts) := by
  obtain ⟨hi, hk⟩ := limFindTspec_eq_some hf
  refine ⟨fun j => ?_, fun j => delete_same, ⟨rfl, rfl, rfl, rfl⟩, fun k u => ?_⟩
  · refine delete_inUse.trans (and_congr_right fun hj => not_congr ?_)
    exact ⟨fun e => e ▸ hk, fun e => h.unique j i hj hi (e.trans hk.symm)⟩
  · rcases eq_or_ne k (tsKey d ts) with rfl | hne
    · simp
    · simp [limTspecDelete, setEntry, hne]

/-- **`limAdmitControlDeleteTS`** fails when no entry has the key, and else frees the one that has. -/
theorem deleteTS_right (h : TspecRight s) : TsCallRight s (.deleteTS d ts) := by
  cases hf : limFindTspec s d ts with
  | none =>
    exact ⟨.failure, s, by rw [tsCall, limAdmitControlDeleteTS, hf], h, trivial⟩
  | some i =>
    obtain ⟨hi, hk⟩ := limFindTspec_eq_some hf
    refine ⟨.entry (s.tspecInfo i).idx, _, by rw [tsCall, limAdmitControlDeleteTS, hf],
      (deleteTS_freed h hf).right h, ?_⟩
    rw [h.idx i hi]
    exact ⟨hi, hk⟩

/-- The loop of `limAdmitControlDeleteSta`. -/
theorem deleteSta_loop (l : List Nat) :
    let s' := l.foldl (fun s ctspec =>
      if d = (s.tspecInfo ctspec).assocId then limTspecDelete s ctspec else s) s
    (∀ j, s'.InUse j ↔ s.InUse j ∧ ¬ (j ∈ l ∧ (s.tspecInfo j).assocId = d)) ∧
      (∀ j, s'.tspecInfo j = { s.tspecInfo j with inuse := (s'.tspecInfo j).inuse }) ∧
      (s'.policy = s.policy ∧ s'.bwFactor = s.bwFactor ∧ s'.phyMode = s.phyMode ∧
        s'.stations = s.stations) ∧
      s'.admitted = s.admitted := by
  induction l generalizing s with
  | nil => simp
  | cons i l ih =>
    rw [foldl_cons]
    by_cases hd : d = (s.tspecInfo i).assocId
    · rw [if_pos hd]
      obtain ⟨hu, hs, hc, ha⟩ := ih (s := limTspecDelete s i)
      refine ⟨fun j => ?_, fun j => ?_, hc, ha⟩
      · rw [hu, delete_inUse, delete_same]
        rcases eq_or_ne j i with rfl | hj
        · simp [hd]
        · simp [hj]
      · rw [hs j, delete_same]
    · rw [if_neg hd]
      obtain ⟨hu, hs, hc, ha⟩ := ih (s := s)
      refine ⟨fun j => ?_, hs, hc, ha⟩
      rw [hu]
      rcases eq_or_ne j i with rfl | hj
      · simp [Ne.symm hd]
      · simp [hj]

theorem deleteSta_freed {u : LimAdmit} (hu : limAdmitControlDeleteSta s d = u) : Freed s
    { u with admitted := fun k => if k.assocId = d then none else u.admitted k }
    (fun k => k.assocId = d) := by
  have hloop := deleteSta_loop (s := s) (d := d) (range limNumTspecMax)
  rw [limAdmitControlDeleteSta] at hu
  rw [hu] at hloop
  obtain ⟨hin, hs, hc, ha⟩ := hloop
  refine ⟨fun j => (hin j).trans ?_, hs, hc, fun k v => ?_⟩
  · refine and_congr_right fun hj => not_congr ?_
    simp [keyOf, tsKey, hj.1]
  · by_cases hk : k.assocId = d
    · simp [hk]
    · simp [hk, ha]

/-- **`limAdmitControlDeleteSta`** frees the entries of a station. -/
theorem deleteSta_right (h : TspecRight s) : TsCallRight s (.deleteSta d) := by
  generalize hu : limAdmitControlDeleteSta s d = u
  exact ⟨.success, _, by rw [tsCall, hu], (deleteSta_freed hu).right h, trivial⟩

/-! ### The bandwidth -/

theorem foldl_add_toNat (q : Nat → Bool) (r : Nat → UInt32) (l : List Nat) (bw : UInt32) :
    (l.foldl (fun bw i => if q i then bw + r i else bw) bw).toNat
      = (bw.toNat + tally (fun i => (r i).toNat) (l.filter q)) % 2 ^ 32 := by
  induction l generalizing bw with
  | nil => simp [Nat.mod_eq_of_lt bw.toNat_lt]
  | cons i l ih =>
    rw [foldl_cons, ih]
    by_cases hq : q i = true
    · simp [hq, UInt32.toNat_add, Nat.add_assoc]
    · simp [hq]

structure TsInv (s : LimAdmit) : Prop where
  right : TspecRight s
  /-- the stations of streams have nodes -/
  nodes : ∀ i, s.InUse i → (s.stations (s.tspecInfo i).assocId).isSome
  /-- the streams fit in what the policy counts with -/
  within : s.policy = wniCfgAdmitPolicyBwFactor → tally s.rate s.entries
    ≤ (limGetAvailableBw s.phyMode s.bwFactor.toUInt32).1.toNat

theorem available_le (m : UInt32) (f : UInt8) :
    (limGetAvailableBw m f.toUInt32).1.toNat ≤ (limTotalBw m).toNat * f.toNat := by
  rw [limGetAvailableBw, UInt32.toNat_mul, UInt8.toNat_toUInt32]
  exact Nat.mod_le _ _

/-- When all stations have nodes and the streams fit, the used bandwidth is their sum. -/
theorem TsInv.used (h : TsInv s) (hp : s.policy = wniCfgAdmitPolicyBwFactor) :
    (limComputeMeanBwUsed s).toNat = tally s.rate s.entries := by
  have hlt : tally s.rate s.entries < 2 ^ 32 :=
    Nat.lt_of_le_of_lt (h.within hp) (UInt32.toNat_lt _)
  have hall : (range limNumTspecMax).filter (fun i => (s.tspecInfo i).inuse
      && (s.stations (s.tspecInfo i).assocId).isSome) = s.entries := by
    refine filter_congr fun i hi => ?_
    cases hu : (s.tspecInfo i).inuse with
    | false => rfl
    | true => exact h.nodes i ⟨mem_range.1 hi, hu⟩
  rw [limComputeMeanBwUsed, foldl_add_toNat (fun i => (s.tspecInfo i).inuse
    && (s.stations (s.tspecInfo i).assocId).isSome) (fun i => (s.tspecInfo i).tspec.meanDataRate),
    hall, UInt32.toNat_zero, Nat.zero_add]
  exact Nat.mod_eq_of_lt hlt

/-- **What the policy admits** fits beside the streams. -/
theorem TsInv.admits (h : TsInv s) (hp : s.policy = wniCfgAdmitPolicyBwFactor)
    (ha : limAdmitPolicy s t = true) : tally s.rate s.entries + t.meanDataRate.toNat
      ≤ (limGetAvailableBw s.phyMode s.bwFactor.toUInt32).1.toNat := by
  have hover : limAdmitPolicyOversubscription s t = true := by
    rw [limAdmitPolicy, hp] at ha
    exact ha
  rw [limAdmitPolicyOversubscription] at hover
  split at hover
  · nomatch hover
  · next hle =>
    split at hover
    · nomatch hover
    · next hroom =>
      have hle := UInt32.le_iff_toNat_le.1 (UInt32.not_lt.1 hle)
      have hroom := UInt32.le_iff_toNat_le.1 (UInt32.not_lt.1 hroom)
      rw [UInt32.toNat_sub_of_le _ _ (UInt32.le_iff_toNat_le.2 hle)] at hroom
      rw [h.used hp] at hle hroom
      omega

/-! ### An addition -/

theorem limValidateTspec_edca (hv : limValidateTspec s t = true) :
    limValidateTspecEdca s t = true := by
  rw [limValidateTspec] at hv
  split at hv
  · exact hv
  · nomatch hv

/-- `limCalculateSvcInt` of a valid request that does not give its interval. -/
theorem limCalculateSvcInt_computed (hn : ¬ GivesInterval t)
    (hedca : limValidateTspecEdca s t = true) :
    (t.meanDataRate < 1000000 → limCalculateSvcInt t = none) ∧
      (1000000 ≤ t.meanDataRate → ∃ i, limCalculateSvcInt t = some (false, i)) := by
  have hm : t.nomMsduSz ≠ 0 ∧ t.meanDataRate ≠ 0 := by
    simp only [limValidateTspecEdca, Bool.not_eq_true', Bool.or_eq_false_iff, beq_eq_false_iff_ne]
      at hedca
    exact ⟨hedca.1.1.1.1, hedca.1.1.1.2⟩
  have hdiv : t.meanDataRate / 1000000 = 0 ↔ t.meanDataRate < 1000000 := by
    rw [← UInt32.toNat_inj, UInt32.toNat_div, UInt32.lt_iff_toNat_lt]
    simp
  rw [GivesInterval] at hn
  rw [limCalculateSvcInt, if_neg hn, if_neg (fun h => hm.1 h.1), if_neg (fun h => hm.2 h.1)]
  simp only [hm.1, hm.2, ne_eq, not_false_eq_true, if_true]
  constructor
  · intro hlt
    rw [if_pos (hdiv.2 hlt)]
  · intro hle
    rw [if_neg fun e => UInt32.not_lt.2 hle (hdiv.1 e)]
    exact ⟨_, rfl⟩

theorem limCalculateSvcInt_given (hg : GivesInterval t) :
    ∃ i, limCalculateSvcInt t = some (true, i) := by
  rw [GivesInterval] at hg
  rw [limCalculateSvcInt, if_pos hg]
  exact ⟨_, rfl⟩

/-- **How `limAdmitControlAddTS` ends**: it divides by zero; or the table stays; or the request is
admitted and written. -/
theorem addTS_cases (a : SirMacAddr) (alloc : Bool) :
    (limAdmitControlAddTS s a t d alloc = none ∧ Offered s a t d alloc ∧ ¬ GivesInterval t ∧
      ¬ 1000000 ≤ t.meanDataRate) ∨
    (∃ r, (r = .failure ∨ r = .success) ∧ limAdmitControlAddTS s a t d alloc = some (r, s)) ∨
    (alloc = true ∧ Admits s a t d ∧ ∃ i u, limTspecAdd s a d t = some (i, u) ∧
      limAdmitControlAddTS s a t d alloc = some (.entry (u.tspecInfo i).idx, u)) := by
  by_cases ho : Offered s a t d alloc
  · have heq := ho.1
    rw [limAdmitControlAddTS, heq]
    simp only [isSome_none, Bool.false_eq_true, if_false, ho.2, Bool.not_true]
    by_cases hg : GivesInterval t
    · obtain ⟨n, hn⟩ := limCalculateSvcInt_given hg
      simp only [hn]
      split
      · exact Or.inr (Or.inl ⟨.failure, .inl rfl, rfl⟩)
      · next hpol =>
        split
        · exact Or.inr (Or.inl ⟨.success, .inr rfl, rfl⟩)
        · next halloc =>
          split
          · exact Or.inr (Or.inl ⟨.failure, .inl rfl, rfl⟩)
          · next hacc =>
            obtain rfl : alloc = true := by simpa using halloc
            cases hadd : limTspecAdd s a d t with
            | none => exact Or.inr (Or.inl ⟨.failure, .inl rfl, rfl⟩)
            | some r =>
              have hlt : d.toNat < s.maxStation := by
                by_contra hge
                rw [limTspecAdd, if_pos (Nat.not_lt.1 hge)] at hadd
                nomatch hadd
              exact Or.inr (Or.inr ⟨rfl, ⟨ho, hg, by simpa using hpol, by simpa using hacc, hlt⟩,
                r.1, r.2, rfl, rfl⟩)
    · rcases limCalculateSvcInt_computed hg (limValidateTspec_edca ho.2) with ⟨hzero, hfail⟩
      rcases UInt32.lt_or_le t.meanDataRate 1000000 with hlt | hle
      · simp only [hzero hlt]
        exact Or.inl ⟨trivial, ho, hg, UInt32.not_le.2 hlt⟩
      · obtain ⟨n, hn⟩ := hfail hle
        simp only [hn]
        exact Or.inr (Or.inl ⟨.failure, .inl rfl, rfl⟩)
  · refine Or.inr (Or.inl ⟨.failure, .inl rfl, ?_⟩)
    rw [limAdmitControlAddTS]
    cases hdup : if alloc then limTspecFindByAssocId s d t else limTspecFindByStaAddr s a t with
    | some i => rfl
    | none =>
      have hv : limValidateTspec s t = false := by
        rw [Offered, hdup] at ho
        simpa using ho
      simp [hv]

/-- **`limTspecAdd`**, when the entry of the key, if there is one, is the first: it has no room, or
writes the request to its entry. -/
theorem limTspecAdd_written (h : TspecRight s)
    (hok : ∀ i, limFindTspec s d t.tsinfo = some i → i = 0) {u : LimAdmit}
    (hadd : limTspecAdd s a d t = some (i, u)) :
    Written s { u with admitted := update u.admitted (tsKey d t.tsinfo) (some t) } i d t := by
  rw [limTspecAdd] at hadd
  split at hadd
  · nomatch hadd
  · cases hf : limFindTspec s d t.tsinfo with
    | some j =>
      obtain rfl := hok j hf
      obtain ⟨hj, hk⟩ := limFindTspec_eq_some hf
      rw [hf] at hadd
      obtain ⟨rfl, rfl⟩ := Prod.mk.inj (some.inj hadd)
      refine ⟨hj.1, fun k hki hkk => h.unique k 0 hki hj (hkk.trans hk.symm), fun _ => hk,
        ⟨a, ?_⟩, ⟨rfl, rfl, rfl, rfl⟩, rfl⟩
      simp [writeTspec, h.idx 0 hj]
    | none =>
      rw [hf] at hadd
      cases hfree : (range limNumTspecMax).find? fun i => !(s.tspecInfo i).inuse with
      | none =>
        rw [hfree] at hadd
        nomatch hadd
      | some j =>
        rw [hfree] at hadd
        obtain ⟨rfl, rfl⟩ := Prod.mk.inj (some.inj hadd)
        have hj := mem_range.1 (mem_of_find?_eq_some hfree)
        have hnot : ¬ s.InUse j := by
          intro hu
          simpa [hu.2] using find?_some hfree
        refine ⟨hj, fun k hki hkk => absurd hkk (limFindTspec_eq_none hf hki),
          fun hu => absurd hu hnot, ⟨a, ?_⟩, ⟨rfl, rfl, rfl, rfl⟩, rfl⟩
        simp [writeTspec]

/-- **An addition under the condition** keeps the table right. -/
theorem addTS_right (h : TsInv s) (alloc : Bool) (hok : TsCallOk s (.addTS a t d alloc)) :
    TsCallRight s (.addTS a t d alloc) := by
  rcases addTS_cases (s := s) (t := t) (d := d) a alloc with
    ⟨-, ho, hg, hm⟩ | ⟨r, hr, heq⟩ | ⟨rfl, hadm, i, u, hadd, heq⟩
  · exact absurd (hok.1 ho) (by simp [hg, hm])
  · refine ⟨r, s, ?_, h.right, ?_⟩
    · rcases hr with rfl | rfl <;> rw [tsCall, heq] <;> rfl
    · rcases hr with rfl | rfl <;> trivial
  · have hw := limTspecAdd_written h.right (hok.2 rfl hadm) hadd
    refine ⟨_, _, by rw [tsCall, heq]; rfl, hw.right h.right fun hp => ?_, ?_⟩
    · have hp : s.policy = wniCfgAdmitPolicyBwFactor := hw.config.1 ▸ hp
      have hle := hw.tally_le.trans (h.admits hp hadm.2.2.1)
      rw [hw.config.2.1, hw.config.2.2.1]
      exact hle.trans (available_le _ _)
    · have hi : (u.tspecInfo i).idx = i := hw.self.2.2.2
      rw [hi]
      exact ⟨hw.self.1, hw.self.2.1, hw.self.2.2.1⟩

/-- **An update of an entry that is not the first** leaves two entries with the key. -/
theorem addTS_update_wrong (hadm : Admits s a t d) {i : Nat}
    (hf : limFindTspec s d t.tsinfo = some i) (hi : i ≠ 0) :
    ¬ TsCallRight s (.addTS a t d true) := by
  obtain ⟨n, hn⟩ := limCalculateSvcInt_given hadm.2.1
  have hdup := hadm.1.1
  have hlt : ¬ d.toNat ≥ s.maxStation := Nat.not_le.2 hadm.2.2.2.2
  have hadd : limTspecAdd s a d t = some (0, writeTspec s 0 a d t) := by
    rw [limTspecAdd, if_neg hlt, hf]
  have heq : limAdmitControlAddTS s a t d true
      = some (.entry ((writeTspec s 0 a d t).tspecInfo 0).idx, writeTspec s 0 a d t) := by
    rw [limAdmitControlAddTS, hdup]
    simp [hadm.1.2, hn, hadm.2.2.1, hadm.2.2.2.1, hadd]
  rintro ⟨r, s', hc, hr, -⟩
  rw [tsCall, heq] at hc
  obtain ⟨-, rfl⟩ := Prod.mk.inj (some.inj hc)
  obtain ⟨hu, hk⟩ := limFindTspec_eq_some hf
  refine hi (hr.unique i 0 ?_ ?_ ?_)
  · simpa [LimAdmit.InUse, writeTspec, hi] using hu
  · simp [LimAdmit.InUse, writeTspec, limNumTspecMax]
  · rw [keyOf, keyOf] at *
    simpa [writeTspec, hi] using hk

/-- **One call.**  It does what it is to do exactly under the condition. -/
theorem tsCallRight_iff (h : TsInv s) (c : TsCall) : TsCallRight s c ↔ TsCallOk s c := by
  cases c with
  | addTS a t d alloc =>
    refine ⟨fun hr => ⟨fun ho => ?_, ?_⟩, addTS_right h alloc⟩
    · by_contra hn
      obtain ⟨hg, hm⟩ := not_or.1 hn
      obtain ⟨r, s', hc, -⟩ := hr
      have hnone := (limCalculateSvcInt_computed hg (limValidateTspec_edca ho.2)).1 (UInt32.not_le.1 hm)
      have heq : limAdmitControlAddTS s a t d alloc = none := by
        rw [limAdmitControlAddTS, ho.1]
        simp [ho.2, hnone]
      rw [tsCall, heq] at hc
      nomatch hc
    · rintro rfl hadm i hf
      by_contra hi
      exact addTS_update_wrong hadm hf hi hr
  | deleteTS d ts => exact iff_of_true (deleteTS_right h.right) trivial
  | deleteSta d => exact iff_of_true (deleteSta_right h.right) trivial
  | stationsChange f =>
    have hr : TspecRight { s with stations := f } :=
      ⟨h.right.unique, h.right.idx, h.right.carries, h.right.fits⟩
    exact iff_of_true ⟨.success, _, rfl, hr, trivial⟩ trivial

theorem LimAdmit.Initial.inv (h : s.Initial) : TsInv s := by
  have hnot : ∀ i, ¬ s.InUse i := fun i hu => Bool.false_ne_true ((h.1 i).1.symm.trans hu.2)
  have hnil : s.entries = [] := eq_nil_iff_forall_not_mem.2 fun i hi => hnot i (mem_entries.1 hi)
  refine ⟨⟨fun i j hi => absurd hi (hnot i), fun i hi => absurd hi (hnot i), fun k t => ?_,
    fun _ => ?_⟩, fun i hi => absurd hi (hnot i), fun _ => ?_⟩
  · rw [h.2 k]
    exact iff_of_false (fun e => nomatch e) fun ⟨i, hi, _⟩ => hnot i hi
  · simp [hnil]
  · simp [hnil]

theorem Freed.inv {q : TsKey → Prop} (hf : Freed s s' q) (h : TsInv s) : TsInv s' := by
  refine ⟨hf.right h.right, fun i hi => ?_, fun hp => ?_⟩
  · rw [hf.config.2.2.2, hf.same i]
    exact h.nodes i ((hf.inUse i).1 hi).1
  · rw [hf.config.2.1, hf.config.2.2.1]
    exact hf.tally_le.trans (h.within (hf.config.1 ▸ hp))

theorem Admits.node (h : Admits s a t d) : (s.stations d).isSome := by
  have hacc := h.2.2.2.1
  rw [limValidateAccessPolicy] at hacc
  cases hsta : s.stations d with
  | none =>
    rw [hsta] at hacc
    nomatch hacc
  | some _ => rfl

theorem Written.inv (hw : Written s s' i d t) (h : TsInv s) (hadm : Admits s a t d) : TsInv s' := by
  have hle : s'.policy = wniCfgAdmitPolicyBwFactor → tally s'.rate s'.entries
      ≤ (limGetAvailableBw s'.phyMode s'.bwFactor.toUInt32).1.toNat := by
    intro hp
    rw [hw.config.2.1, hw.config.2.2.1]
    exact hw.tally_le.trans (h.admits (hw.config.1 ▸ hp) hadm.2.2.1)
  refine ⟨hw.right h.right fun hp => (hle hp).trans (available_le _ _), fun j hj => ?_, hle⟩
  rw [hw.config.2.2.2]
  rcases eq_or_ne j i with rfl | hji
  · obtain ⟨a', he⟩ := hw.entry
    have hd : (s'.tspecInfo j).assocId = d := by rw [he, update_self]
    exact hd ▸ hadm.node
  · rw [hw.other hji]
    exact h.nodes j ((hw.inUse_other hji).1.1 hj)

/-- **A call under the condition** keeps the invariant. -/
theorem TsInv.call (h : TsInv s) {c : TsCall} (hall : c.Allowed s) (hok : TsCallOk s c)
    {r : TsOutcome} (hc : tsCall s c = some (r, s')) : TsInv s' := by
  cases c with
  | addTS a t d alloc =>
    rcases addTS_cases (s := s) (t := t) (d := d) a alloc with
      ⟨hn, -⟩ | ⟨r', hr', heq⟩ | ⟨rfl, hadm, i, u, hadd, heq⟩
    · rw [tsCall, hn] at hc
      nomatch hc
    · have hs : s = s' := by
        rcases hr' with rfl | rfl <;> rw [tsCall, heq] at hc <;>
          exact (Prod.mk.inj (some.inj hc)).2
      exact hs ▸ h
    · rw [tsCall, heq] at hc
      obtain ⟨-, rfl⟩ := Prod.mk.inj (some.inj hc)
      exact (limTspecAdd_written h.right (hok.2 rfl hadm) hadd).inv h hadm
  | deleteTS d ts =>
    rw [tsCall, limAdmitControlDeleteTS] at hc
    cases hf : limFindTspec s d ts with
    | none =>
      rw [hf] at hc
      obtain ⟨-, rfl⟩ := Prod.mk.inj (some.inj hc)
      exact h
    | some i =>
      rw [hf] at hc
      obtain ⟨-, rfl⟩ := Prod.mk.inj (some.inj hc)
      exact (deleteTS_freed h.right hf).inv h
  | deleteSta d =>
    generalize hu : limAdmitControlDeleteSta s d = u
    rw [tsCall, hu] at hc
    obtain ⟨-, rfl⟩ := Prod.mk.inj (some.inj hc)
    exact (deleteSta_freed hu).inv h
  | stationsChange f =>
    obtain ⟨-, rfl⟩ := Prod.mk.inj (some.inj hc)
    exact ⟨⟨h.right.unique, h.right.idx, h.right.carries, h.right.fits⟩,
      fun i hi => hall i hi.1 hi.2, h.within⟩

theorem reach_inv (h : tsMachine.Reach TsCallOk s) : TsInv s := by
  refine h.invariant TsInv (fun s (h : s.Initial) => h.inv) fun s c s' h hok hc => ?_
  obtain ⟨hall, hstep⟩ := guard_bind_eq_some.1 hc
  obtain ⟨⟨r, s''⟩, hcall, rfl⟩ := map_eq_some_iff.1 hstep
  exact h.call hall hok hcall

/-- **The stream table.**  Where all calls have met the condition the table is right, and the next call
does what it is to do exactly when it meets the condition too. -/
theorem tspec_table_iff (s : LimAdmit) (hs : tsMachine.Reach TsCallOk s) :
    TspecRight s ∧ ∀ c : TsCall, TsCallRight s c ↔ TsCallOk s c :=
  ⟨(reach_inv hs).right, tsCallRight_iff (reach_inv hs)⟩

end

/-- An 11g session under the bandwidth policy, with an empty table and two stations. -/
def emptyTspecs : LimAdmit where
  maxStation := 32
  policy := wniCfgAdmitPolicyBwFactor
  bwFactor := 1
  phyMode := wniCfgPhyMode11g
  stations d := if d = 1 ∨ d = 2 then some ⟨true, true, false⟩ else none
  tspecInfo _ := ⟨false, 0, .zero, 0, ⟨0, 0, ⟨0, 0, 0, 0, 0, 0, 0, 0, 0, 0, 0, 0⟩, 0, 0, 0, 0, 0, 0,
    0, 0, 0, 0, 0, 0, 0, 0, 0⟩⟩
  admitted _ := none

theorem emptyTspecs_initial : emptyTspecs.Initial := ⟨fun _ => ⟨rfl, rfl⟩, fun _ => rfl⟩

def uplink (tsid : BitVec 4) (meanDataRate : UInt32) : SirMacTspecIE where
  type := 0
  length := 55
  tsinfo := { (emptyTspecs.tspecInfo 0).tspec.tsinfo with
    accessPolicy := sirMacAccesspolicyEdca
    tsid }
  nomMsduSz := 1500
  maxMsduSz := 1500
  minSvcInterval := 20
  maxSvcInterval := 20
  inactInterval := 0
  suspendInterval := 0
  svcStartTime := 0
  minDataRate := 0
  meanDataRate
  peakDataRate := 0
  maxBurstSz := 0
  delayBound := 0
  minPhyRate := 6000000
  surplusBw := 0x2000
  mediumTime := 0

/-- The second station's update is written over the stream of the first, and its own stays too. -/
theorem update_overwrites_first :
    ∃ s s', tsMachine.run emptyTspecs [.addTS .zero (uplink 0 1000000) 1 true,
        .addTS .zero (uplink 1 2000000) 2 true] = some s ∧
      tsCall s (.addTS .zero (uplink 1 3000000) 2 true) = some (.entry 0, s') ∧
      s'.keyOf 0 = tsKey 2 (uplink 1 3000000).tsinfo ∧ s'.keyOf 0 = s'.keyOf 1 ∧
      s'.InUse 0 ∧ s'.InUse 1 ∧ ¬ TsCallRight s (.addTS .zero (uplink 1 3000000) 2 true) := by
  obtain ⟨s, hs, hc⟩ : ∃ s, tsMachine.run emptyTspecs [.addTS .zero (uplink 0 1000000) 1 true,
      .addTS .zero (uplink 1 2000000) 2 true] = some s ∧
      (tsCall s (.addTS .zero (uplink 1 3000000) 2 true)).any (fun r => r.1 = .entry 0 ∧
        r.2.keyOf 0 = tsKey 2 (uplink 1 3000000).tsinfo ∧ r.2.keyOf 0 = r.2.keyOf 1 ∧
        r.2.InUse 0 ∧ r.2.InUse 1) = true :=
    Machine.exists_run (by decide +kernel)
  obtain ⟨⟨r, s'⟩, hc, hd⟩ := (any_eq_true _ _).1 hc
  obtain ⟨rfl, h₁, h₂, hu, hv⟩ := of_decide_eq_true hd
  refine ⟨s, s', hs, hc, h₁, h₂, hu, hv, ?_⟩
  rintro ⟨r', s'', hc', hr, -⟩
  rw [hc] at hc'
  obtain ⟨-, rfl⟩ := Prod.mk.inj (some.inj hc')
  exact absurd (hr.unique 0 1 hu hv h₂) (by decide)

theorem tspec_table_iff_updated :
    ∃ s, tsMachine.run emptyTspecs [.addTS .zero (uplink 0 1000000) 1 true,
        .addTS .zero (uplink 1 2000000) 2 true, .addTS .zero (uplink 0 50000000) 1 true,
        .deleteTS 2 (uplink 1 0).tsinfo] = some s ∧
      TspecRight s ∧ s.entries = [0] ∧ s.rate 0 = 50000000 :=
  Machine.exists_right (fun s hs => (tspec_table_iff s hs).1) emptyTspecs_initial
    (by decide +kernel) (by decide +kernel)

end Qcacld.Lim

import Qcacld.Cfg.CfgApi

/-!
# Cfg — CfgTxPower

The regulatory limit of the transmit power.  A string parameter for each band lists triplets: the first channel of a range, how many channels it has, and the power.  `cfgGetDot11dTransmitPower` reads the parameter into a buffer and walks it.

`TxPowerRight` says what is to be returned, and that the walk stays inside the list.  `dot11d_tx_power_iff` says for which lists it is so: the walk leaves the power of the last triplet it has seen, and in a list shorter than a triplet it does not end at the end.
-/

namespace Qcacld.Cfg
open Qcacld.Support List Option Nat

def wdaMaxTxpowerInvalid : UInt8 := 127

/-- `tSirMacChanInfo`, of `sizeof` 3 -/
structure SirMacChanInfo where
  firstChanNum : UInt8
  numChannels : UInt8
  maxTxPower : UInt8

def sizeofSirMacChanInfo : Nat := 3

/-- The channel is in the range.  The sum is that of an `int`. -/
def SirMacChanInfo.Has (c : SirMacChanInfo) (channel : UInt8) : Prop :=
  c.firstChanNum ≤ channel ∧ channel.toNat < c.firstChanNum.toNat + c.numChannels.toNat
deriving Decidable

/-- The variables of the loop, and which bytes of the buffer it has read. -/
structure PowerWalk where
  count : UInt8
  maxTxPwr : UInt8
  reads : List Nat

/-- The triplet at `count`. -/
def chanInfoAt (pCountryInfo : Nat → UInt8) (count : UInt8) : SirMacChanInfo :=
  ⟨pCountryInfo count.toNat, pCountryInfo (count + 1).toNat, pCountryInfo (count + 2).toNat⟩

/-- The triplet at `count` has been read. -/
def PowerWalk.next (w : PowerWalk) (pCountryInfo : Nat → UInt8) : PowerWalk where
  count := w.count + 3
  maxTxPwr := (chanInfoAt pCountryInfo w.count).maxTxPower
  reads := w.reads ++ [w.count.toNat, (w.count + 1).toNat, (w.count + 2).toNat]

/-- The loop of `cfgGetDot11dTransmitPower`; `none` when the fuel does not last. -/
def walkPower (pCountryInfo : Nat → UInt8) (cfgLength : UInt32) (channel : UInt8) :
    Nat → PowerWalk → Option PowerWalk
  | 0, _ => none
  | fuel + 1, w =>
    -- the difference is unsigned: below the size of a triplet there is no bound
    if w.count.toUInt32 ≤ cfgLength - UInt32.ofNat sizeofSirMacChanInfo then
      if (chanInfoAt pCountryInfo w.count).Has channel then some (w.next pCountryInfo)
      else walkPower pCountryInfo cfgLength channel fuel (w.next pCountryInfo)
    else some w

/-- The power that is returned, and what is read of the list. -/
structure TxPower where
  maxTxPwr : UInt8
  reads : List Nat
deriving DecidableEq

/-- `cfgGetDot11dTransmitPower`.  `malloc` is the buffer `vos_mem_malloc` returns, with what is in it. -/
def cfgGetDot11dTransmitPower (t : CfgTable) (s : AniSirCfg) (malloc : Option (Nat → UInt8))
    (cfgId cfgLength : Nat) (channel : UInt8) (fuel : Nat) : Option TxPower :=
  if cfgLength < sizeofSirMacChanInfo then some ⟨wdaMaxTxpowerInvalid, []⟩
  else
    match malloc with
    | none => some ⟨wdaMaxTxpowerInvalid, []⟩
    | some pCountryInfo =>
      match wlanCfgGetStr t s cfgId cfgLength with
      | .error _ => some ⟨wdaMaxTxpowerInvalid, []⟩
      | .ok str =>
        (walkPower (blit pCountryInfo 0 str) (UInt32.ofNat str.length) channel fuel
          ⟨0, wdaMaxTxpowerInvalid, []⟩).map fun w => ⟨w.maxTxPwr, w.reads⟩

def sir11aChannelBegin : UInt8 := 34
def sir11aChannelEnd : UInt8 := 165
def wniCfgMaxTxPower24 : Nat := 73
def wniCfgMaxTxPower5 : Nat := 74
def wniCfgMaxTxPower24Len : Nat := 128
def wniCfgMaxTxPower5Len : Nat := 128

def cfgGetRegulatoryMaxTransmitPower (t : CfgTable) (s : AniSirCfg) (malloc : Option (Nat → UInt8))
    (channel : UInt8) (fuel : Nat) : Option TxPower :=
  if sir11aChannelBegin ≤ channel ∧ channel ≤ sir11aChannelEnd then
    cfgGetDot11dTransmitPower t s malloc wniCfgMaxTxPower5 wniCfgMaxTxPower5Len channel fuel
  else
    cfgGetDot11dTransmitPower t s malloc wniCfgMaxTxPower24 wniCfgMaxTxPower24Len channel fuel

/-! ### What is to be returned -/

def chanInfos : List UInt8 → List SirMacChanInfo
  | firstChanNum :: numChannels :: maxTxPower :: rest =>
    ⟨firstChanNum, numChannels, maxTxPower⟩ :: chanInfos rest
  | _ => []

/-- The first triplet whose range has the channel. -/
def findChan (stored : List UInt8) (channel : UInt8) : Option SirMacChanInfo :=
  (chanInfos stored).find? (·.Has channel)

structure TxPowerRight (stored : List UInt8) (channel : UInt8) (r : TxPower) : Prop where
  power : r.maxTxPwr = ((findChan stored channel).map (·.maxTxPower)).getD wdaMaxTxpowerInvalid
  inside : ∀ i ∈ r.reads, i < stored.length

/-- **The condition.**  The list has a triplet; and if none has the channel, the power of the last is that for no power.  Without a buffer, the one that has it is to give no power. -/
def TxPowerOk (stored : List UInt8) (channel : UInt8) (malloc : Option (Nat → UInt8)) : Prop :=
  match malloc with
  | none => ∀ c ∈ findChan stored channel, c.maxTxPower = wdaMaxTxpowerInvalid
  | some _ => sizeofSirMacChanInfo ≤ stored.length ∧ (findChan stored channel = none →
      ∀ c ∈ (chanInfos stored).getLast?, c.maxTxPower = wdaMaxTxpowerInvalid)

def leftPower (infos : List SirMacChanInfo) (channel maxTxPwr : UInt8) : UInt8 :=
  match infos with
  | [] => maxTxPwr
  | c :: infos => if c.Has channel then c.maxTxPower else leftPower infos channel c.maxTxPower

section
variable {t : CfgTable} {s : AniSirCfg} {malloc : Option (Nat → UInt8)} {cfgId cfgLength fuel n : Nat}
  {channel maxTxPwr : UInt8} {mem : Nat → UInt8} {stored : List UInt8} {w r : PowerWalk}
  {infos : List SirMacChanInfo}

theorem chanInfos_of_length_lt (h : stored.length < sizeofSirMacChanInfo) : chanInfos stored = [] := by
  rw [sizeofSirMacChanInfo] at h
  match stored, h with
  | [], _ | [_], _ | [_, _], _ => rfl
  | _ :: _ :: _ :: _, h => simp at h; omega

/-- The loop leaves the power of the first triplet that has the channel, or else that of the last. -/
theorem leftPower_eq : leftPower infos channel maxTxPwr =
    ((infos.find? (·.Has channel)).or infos.getLast?).elim maxTxPwr (·.maxTxPower) := by
  induction infos generalizing maxTxPwr with
  | nil => rfl
  | cons c infos ih =>
    rw [leftPower, find?_cons]
    by_cases hc : c.Has channel
    · simp [hc]
    · rw [if_neg hc, ih]
      simp only [hc, decide_false]
      cases infos with
      | nil => rfl
      | cons d infos =>
        rw [getLast?_cons_cons]
        cases hl : (d :: infos).find? (·.Has channel) with
        | some e => rfl
        | none =>
          rw [none_or]
          obtain ⟨e, he⟩ := isSome_iff_exists.1 (getLast?_isSome.2 (cons_ne_nil d infos))
          rw [he]
          rfl

theorem walkPower_mono {k : Nat} {l : UInt32} (h : walkPower mem l channel fuel w = some r) :
    walkPower mem l channel (fuel + k) w = some r := by
  induction fuel generalizing w with
  | zero => cases h
  | succ fuel ih =>
    rw [add_right_comm]
    rw [walkPower] at h ⊢
    split
    · next hle =>
      rw [if_pos hle] at h
      split
      · next hc => rwa [if_pos hc] at h
      · next hc =>
        rw [if_neg hc] at h
        exact ih h
    · next hle => rwa [if_neg hle] at h

/-- The bound on `count`, for a list that has a triplet. -/
theorem walk_bound {count : UInt8} (hmin : sizeofSirMacChanInfo ≤ n) (hmax : n < 2 ^ 8) :
    count.toUInt32 ≤ UInt32.ofNat n - UInt32.ofNat sizeofSirMacChanInfo ↔ count.toNat + 3 ≤ n := by
  rw [sizeofSirMacChanInfo] at hmin ⊢
  have hle : UInt32.ofNat 3 ≤ UInt32.ofNat n := by
    rw [UInt32.le_iff_toNat_le, UInt32.toNat_ofNat_of_lt' (by decide),
      UInt32.toNat_ofNat_of_lt' (by rw [UInt32.size]; omega)]
    exact hmin
  rw [UInt32.le_iff_toNat_le, UInt32.toNat_sub_of_le _ _ hle, UInt8.toNat_toUInt32,
    UInt32.toNat_ofNat_of_lt' (by rw [UInt32.size]; omega), UInt32.toNat_ofNat_of_lt' (by decide)]
  omega

theorem count_add {count k : UInt8} (h : count.toNat + k.toNat < 2 ^ 8) :
    (count + k).toNat = count.toNat + k.toNat := by
  rw [UInt8.toNat_add, mod_eq_of_lt h]

/-- **The walk** of a list that has a triplet ends, and stays inside.  By induction on the fuel, a triplet a turn. -/
theorem walkPower_spec (mem : Nat → UInt8) (channel : UInt8)
    (hmin : sizeofSirMacChanInfo ≤ stored.length) (hmax : stored.length < 2 ^ 8)
    (hn : w.count.toNat + n = stored.length) (hfuel : n < 3 * fuel)
    (hr : ∀ i ∈ w.reads, i < stored.length) :
    ∃ r, walkPower mem (UInt32.ofNat stored.length) channel fuel w = some r ∧
      r.maxTxPwr = leftPower (chanInfos (span mem w.count.toNat n)) channel w.maxTxPwr ∧
      ∀ i ∈ r.reads, i < stored.length := by
  induction fuel generalizing w n with
  | zero => omega
  | succ fuel ih =>
    rw [walkPower]
    by_cases hle : w.count.toNat + 3 ≤ stored.length
    · obtain ⟨m, rfl⟩ : ∃ m, n = m + 3 := ⟨n - 3, by omega⟩
      have h₁ : (w.count + 1).toNat = w.count.toNat + 1 :=
        count_add (show w.count.toNat + 1 < 2 ^ 8 by omega)
      have h₂ : (w.count + 2).toNat = w.count.toNat + 2 :=
        count_add (show w.count.toNat + 2 < 2 ^ 8 by omega)
      have h₃ : (w.next mem).count.toNat = w.count.toNat + 3 :=
        count_add (show w.count.toNat + 3 < 2 ^ 8 by omega)
      have hreads : ∀ i ∈ (w.next mem).reads, i < stored.length := by
        intro i hi
        rw [PowerWalk.next, mem_append] at hi
        rcases hi with hi | hi
        · exact hr i hi
        · simp only [mem_cons, not_mem_nil, or_false, h₁, h₂] at hi
          omega
      have hspan : chanInfos (span mem w.count.toNat (m + 3)) = chanInfoAt mem w.count ::
          chanInfos (span mem (w.count.toNat + 3) m) := by
        rw [chanInfoAt, h₁, h₂]
        rfl
      rw [if_pos ((walk_bound hmin hmax).2 hle), hspan, leftPower]
      split
      · exact ⟨_, rfl, rfl, hreads⟩
      · obtain ⟨r, hwalk, hpow, hin⟩ := ih (w := w.next mem) (n := m) (by omega) (by omega) hreads
        rw [h₃] at hpow
        exact ⟨r, hwalk, hpow, hin⟩
    · rw [if_neg fun h => hle ((walk_bound hmin hmax).1 h)]
      refine ⟨w, rfl, ?_, hr⟩
      rw [chanInfos_of_length_lt (by rw [length_span, sizeofSirMacChanInfo]; omega)]
      rfl

theorem walkPower_reads {i : Nat} {l : UInt32} (h : walkPower mem l channel fuel w = some r)
    (hi : i ∈ w.reads) : i ∈ r.reads := by
  induction fuel generalizing w with
  | zero => cases h
  | succ fuel ih =>
    have hnext : i ∈ (w.next mem).reads := mem_append_left _ hi
    rw [walkPower] at h
    split at h
    · split at h
      · cases h
        exact hnext
      · exact ih h hnext
    · cases h
      exact hi

theorem walkPower_unique {fuel' : Nat} {r' : PowerWalk} {l : UInt32}
    (h : walkPower mem l channel fuel w = some r) (h' : walkPower mem l channel fuel' w = some r') :
    r = r' := by
  have hr := walkPower_mono (k := fuel') h
  rw [add_comm, walkPower_mono h'] at hr
  exact (some.inj hr).symm

theorem walkPower_start (hmin : sizeofSirMacChanInfo ≤ stored.length)
    (hmax : stored.length < 2 ^ 8) (channel : UInt8) (mem : Nat → UInt8) :
    ∃ r, walkPower (blit mem 0 stored) (UInt32.ofNat stored.length) channel 86
        ⟨0, wdaMaxTxpowerInvalid, []⟩ = some r ∧
      r.maxTxPwr = leftPower (chanInfos stored) channel wdaMaxTxpowerInvalid ∧
      ∀ i ∈ r.reads, i < stored.length := by
  have hfuel : stored.length < 3 * 86 := by omega
  have hnone : ∀ i ∈ (PowerWalk.mk 0 wdaMaxTxpowerInvalid []).reads, i < stored.length :=
    fun i hi => absurd hi not_mem_nil
  obtain ⟨r, hr, hpow, hin⟩ := walkPower_spec (blit mem 0 stored) channel hmin hmax
    (zero_add _) hfuel hnone
  have hspan : span (blit mem 0 stored) (0 : UInt8).toNat stored.length = stored := span_blit
  rw [hspan] at hpow
  exact ⟨r, hr, hpow, hin⟩

theorem walkPower_short (h : walkPower mem (UInt32.ofNat stored.length) channel fuel
    ⟨0, maxTxPwr, []⟩ = some r) : 2 ∈ r.reads := by
  cases fuel with
  | zero => cases h
  | succ fuel =>
    have hbound : (0 : UInt8).toUInt32 ≤ UInt32.ofNat stored.length
        - UInt32.ofNat sizeofSirMacChanInfo := UInt32.zero_le
    have hnext : 2 ∈ (PowerWalk.next ⟨0, maxTxPwr, []⟩ mem).reads :=
      (by decide : 2 ∈ [0, 1, 2])
    rw [walkPower, if_pos hbound] at h
    split at h
    · cases h
      exact hnext
    · exact walkPower_reads h hnext

theorem wlanCfgGetStr_length (h : wlanCfgGetStr t s cfgId cfgLength = .ok stored) :
    stored.length < 2 ^ 8 ∧ stored.length ≤ cfgLength := by
  rw [wlanCfgGetStr] at h
  split at h
  · cases h
  · dsimp only at h
    split at h
    · cases h
    · split at h
      · cases h
      · split at h
        · cases h
        · next hroom =>
          cases h
          rw [length_span]
          exact ⟨UInt8.toNat_lt _, not_lt.1 hroom⟩

theorem leftPower_right_iff : leftPower (chanInfos stored) channel wdaMaxTxpowerInvalid
        = ((findChan stored channel).map (·.maxTxPower)).getD wdaMaxTxpowerInvalid ↔
      (findChan stored channel = none →
        ∀ c ∈ (chanInfos stored).getLast?, c.maxTxPower = wdaMaxTxpowerInvalid) := by
  rw [leftPower_eq, ← findChan]
  cases findChan stored channel with
  | some c => simp
  | none =>
    cases (chanInfos stored).getLast? with
    | none => simp
    | some c => simp

theorem invalid_right_iff : TxPowerRight stored channel ⟨wdaMaxTxpowerInvalid, []⟩ ↔
      ∀ c ∈ findChan stored channel, c.maxTxPower = wdaMaxTxpowerInvalid := by
  constructor
  · intro h c hc
    have hpow := h.power
    rw [mem_def.1 hc] at hpow
    exact hpow.symm
  · intro h
    refine ⟨?_, fun i hi => absurd hi not_mem_nil⟩
    cases hf : findChan stored channel with
    | none => rfl
    | some c => exact (h c hf).symm

/-- **A lookup**, of a list as it is read into the caller's room. -/
theorem txPower_right_iff (h : wlanCfgGetStr t s cfgId cfgLength = .ok stored) :
    (∃ fuel r, cfgGetDot11dTransmitPower t s malloc cfgId cfgLength channel fuel = some r ∧
      TxPowerRight stored channel r) ↔
      (sizeofSirMacChanInfo ≤ cfgLength → TxPowerOk stored channel malloc) := by
  obtain ⟨hmax, hroom⟩ := wlanCfgGetStr_length h
  by_cases hsize : sizeofSirMacChanInfo ≤ cfgLength
  · simp only [hsize, true_imp_iff]
    cases malloc with
    | none =>
      have hcall : ∀ fuel, cfgGetDot11dTransmitPower t s none cfgId cfgLength channel fuel
          = some ⟨wdaMaxTxpowerInvalid, []⟩ := fun fuel => if_neg (not_lt.2 hsize)
      simp only [hcall, some.injEq, exists_eq_left', exists_const]
      exact invalid_right_iff
    | some mem =>
      have hcall : ∀ fuel, cfgGetDot11dTransmitPower t s (some mem) cfgId cfgLength channel fuel
          = (walkPower (blit mem 0 stored) (UInt32.ofNat stored.length) channel fuel
            ⟨0, wdaMaxTxpowerInvalid, []⟩).map fun w => ⟨w.maxTxPwr, w.reads⟩ := by
        intro fuel
        rw [cfgGetDot11dTransmitPower, if_neg (not_lt.2 hsize), h]
      constructor
      · rintro ⟨fuel, r, hr, hright⟩
        rw [hcall, map_eq_some_iff] at hr
        obtain ⟨w, hw, rfl⟩ := hr
        have hmin : sizeofSirMacChanInfo ≤ stored.length := hright.inside 2 (walkPower_short hw)
        obtain ⟨w', hw', hpow, -⟩ := walkPower_start hmin hmax channel mem
        obtain rfl : w = w' := walkPower_unique hw hw'
        exact ⟨hmin, leftPower_right_iff.1 (hpow.symm.trans hright.power)⟩
      · rintro ⟨hmin, hlast⟩
        obtain ⟨w, hw, hpow, hin⟩ := walkPower_start hmin hmax channel mem
        refine ⟨86, ⟨w.maxTxPwr, w.reads⟩, ?_, hpow.trans (leftPower_right_iff.2 hlast), hin⟩
        rw [hcall, hw]
        rfl
  · refine iff_of_true ⟨0, ⟨wdaMaxTxpowerInvalid, []⟩, if_pos (not_le.1 hsize), ?_⟩
      fun hle => absurd hle hsize
    have hshort : findChan stored channel = none := by
      rw [findChan, chanInfos_of_length_lt (by omega)]
      rfl
    exact invalid_right_iff.2 (by rw [hshort]; exact fun c hc => absurd hc (not_mem_none c))

end

/-- **The power that is looked up.**  It is right, and the walk stays inside the list, just if the list meets
the condition; a caller's room below a triplet's is never walked. -/
theorem dot11d_tx_power_iff (t : CfgTable) (s : AniSirCfg) (malloc : Option (Nat → UInt8))
    (cfgId cfgLength : Nat) (channel : UInt8) (stored : List UInt8)
    (h : wlanCfgGetStr t s cfgId cfgLength = .ok stored) :
    (∃ fuel r, cfgGetDot11dTransmitPower t s malloc cfgId cfgLength channel fuel = some r ∧
      TxPowerRight stored channel r) ↔
      (sizeofSirMacChanInfo ≤ cfgLength → TxPowerOk stored channel malloc) :=
  txPower_right_iff h

def bandList (t : CfgTable) (s : AniSirCfg) (channel : UInt8) : Except SirRetStatus (List UInt8) :=
  if sir11aChannelBegin ≤ channel ∧ channel ≤ sir11aChannelEnd then
    wlanCfgGetStr t s wniCfgMaxTxPower5 wniCfgMaxTxPower5Len
  else wlanCfgGetStr t s wniCfgMaxTxPower24 wniCfgMaxTxPower24Len

theorem regulatory_tx_power_iff {t : CfgTable} {s : AniSirCfg} {malloc : Option (Nat → UInt8)}
    {channel : UInt8} {stored : List UInt8} (h : bandList t s channel = .ok stored) :
    (∃ fuel r, cfgGetRegulatoryMaxTransmitPower t s malloc channel fuel = some r ∧
      TxPowerRight stored channel r) ↔ TxPowerOk stored channel malloc := by
  rw [bandList] at h
  simp only [cfgGetRegulatoryMaxTransmitPower]
  split at h
  · next hband =>
    simp only [if_pos hband]
    exact (txPower_right_iff h).trans (forall_prop_of_true (by decide))
  · next hband =>
    simp only [if_neg hband]
    exact (txPower_right_iff h).trans (forall_prop_of_true (by decide))

def stringStore (bytes : List UInt8) : AniSirCfg :=
  { zeroCfg.blitSBuf 0 (6 :: UInt8.ofNat bytes.length :: bytes) with
    gCfgEntry := fun _ => cfgCtlValid }

theorem dot11d_tx_power_in_range : ∃ fuel r, cfgGetDot11dTransmitPower (smallTable 1)
    (stringStore [36, 4, 20]) (some fun _ => 0) 0 6 37 fuel = some r ∧
      TxPowerRight [36, 4, 20] 37 r :=
  (dot11d_tx_power_iff (smallTable 1) (stringStore [36, 4, 20]) (some fun _ => 0) 0 6 37 [36, 4, 20]
    (by decide)).2 fun _ => ⟨by decide, by decide⟩

/-- Channel 100 is given the power of 36 to 39.  A list of two bytes is read past its end, and further. -/
theorem no_range_last_power :
    (wlanCfgGetStr (smallTable 1) (stringStore [36, 4, 20]) 0 6 = .ok [36, 4, 20] ∧
      cfgGetDot11dTransmitPower (smallTable 1) (stringStore [36, 4, 20]) (some fun _ => 0) 0 6 100 2
        = some ⟨20, [0, 1, 2]⟩ ∧
      findChan [36, 4, 20] 100 = none ∧ ¬ TxPowerRight [36, 4, 20] 100 ⟨20, [0, 1, 2]⟩) ∧
    wlanCfgGetStr (smallTable 1) (stringStore [36, 4]) 0 6 = .ok [36, 4] ∧
      cfgGetDot11dTransmitPower (smallTable 1) (stringStore [36, 4]) (some fun _ => 11) 0 6 12 3
        = some ⟨11, [0, 1, 2, 3, 4, 5]⟩ ∧
      ¬ TxPowerRight [36, 4] 12 ⟨11, [0, 1, 2, 3, 4, 5]⟩ := by
  refine ⟨⟨by decide, by decide, by decide, fun h => ?_⟩, by decide, by decide, fun h => ?_⟩
  · exact absurd h.power (by decide)
  · exact absurd (h.inside 5 (by decide)) (by decide)

end Qcacld.Cfg

import Qcacld.Support.Swaps
import Mathlib.Data.List.Basic

/-!
# Sap — SapChSelect

The choice of a channel for an access point.  `sapChanSelInit` makes a table of the channels that may be used, each is given a weight, `sapSortChlWeightAll` weighs channels that are used together and sorts the table, and `sapSelectChannel` goes through it: the first channel in the range wins, the list of the configuration is looked for in the whole table, and in the 2.4 GHz band one that does not overlap is preferred.

`select_channel_iff` says when what is returned is what was asked for.  That it is in the list and may be used always holds; that it is in the range, that the weight recorded is its own and that the secondary channel is there do not.
-/

namespace Qcacld.Sap
open Qcacld.Support List Option

/-! ### Channels -/

/-- `eNVChannelEnabledType` -/
inductive NvChannelState where
  | disable
  | enable
  | dfs
  | invalid
deriving DecidableEq

def vosChanToFreq (chan : Nat) : Nat :=
  if chan < 14 then 2407 + chan * 5
  else if chan = 14 then 2484
  else if chan < 27 then 2512 + (chan - 15) * 20
  else if chan = 170 then 5852
  else 5000 + chan * 5

def vosIsDsrcChannel (centerFreq : Nat) : Bool :=
  centerFreq ∈ [5852, 5860, 5870, 5880, 5890, 5900, 5910, 5920, 5875, 5905]

/-- `sapSafeChannelType` -/
structure SafeChannel where
  channelNumber : Nat
  isSafe : Bool

/-- The numbers in `safeChannels`; the entries from RF_CHAN_169 on have none. -/
def safeChannelNumbers : List Nat :=
  [1, 2, 3, 4, 5, 6, 7, 8, 9, 10, 11, 12, 13, 14, 36, 40, 44, 48, 52, 56, 60, 64, 100, 104, 108, 112,
    116, 120, 124, 128, 132, 136, 140, 144, 149, 153, 157, 161, 165] ++ List.replicate 16 0

/-- What selection reads of `tSapSpectChInfo`. -/
structure SpectCh where
  chNum : Nat
  weight : UInt32
  weightCopy : UInt32

inductive CsrBand where
  | all
  | band24
  | band5G
deriving DecidableEq

/-- `enum sap_acs_dfs_mode` -/
inductive AcsDfsMode where
  | none
  | enable
  | disable
  | deprioritize
deriving DecidableEq

/-- `eHT_CHANNEL_WIDTH_20MHZ` and the others; 160 MHz is sorted as 20 MHz is. -/
inductive ChannelWidth where
  | w20MHz
  | w40MHz
  | w80MHz
  | w160MHz
deriving DecidableEq

/-- `acs_cfg` of the context, with the secondary channel as it was. -/
structure AcsCfg where
  startCh : UInt8
  endCh : UInt8
  chList : Option (List UInt8)
  chWidth : ChannelWidth
  htSecCh : Nat

/-- What selection reads of `tSapContext`. -/
structure SapContext where
  acsCfg : AcsCfg
  dfsMode : AcsDfsMode
  dfsChDisable : Bool
  phyMode11b : Bool
  enableOverLapCh : Bool
  scanBandPreference : CsrBand
  currentPreferredBand : CsrBand
  allBandScanned : Bool
  acsBandSwitchThreshold : UInt16
  autoChannelSelectWeight : UInt32

/-- What a call finds: the context, the channels and their states, the scan results and the channels to avoid.  `weigh i` is what `sapComputeSpectWeight` and `sap_process_avoid_ie` make of the entry `i`: both weights of an entry are set to one number, and nothing else that selection reads is changed. -/
structure AcsInput where
  ctx : SapContext
  base20MHzChannels : List UInt8
  /-- `VOS_NV` state of a channel. -/
  channelState : Nat → NvChannelState
  /-- What `sapDfsIsChannelInNolList` answers. -/
  inNolList : Nat → Bool
  /-- `unsafe_channel_list`, when the HDD context is there. -/
  unsafeChannelList : Option (List UInt16)
  /-- `safeChannels` as the last call left it. -/
  safeChannels : List SafeChannel
  dfsMasterEnabled : Bool
  fccRegdomain : Bool
  inAvoidChList : Nat → Bool
  noScanResult : Bool
  mallocOk : Bool
  weigh : Nat → UInt32
  /-- The channel number that is read outside the table. -/
  outside : Int → Nat

open AcsInput

/-- `VOS_IS_DFS_CH` -/
def AcsInput.isDfs (inp : AcsInput) (ch : Nat) : Bool := inp.channelState ch = .dfs

/-! ### The table -/

/-- The first entry with this number is not safe. -/
def markUnsafe (t : List SafeChannel) (ch : Nat) : List SafeChannel :=
  match t.findIdx? fun c => c.channelNumber = ch with
  | some i => t.modify i fun c => { c with isSafe := false }
  | none => t

def sapUpdateUnsafeChannelList (inp : AcsInput) : List SafeChannel :=
  match inp.unsafeChannelList with
  | none => inp.safeChannels
  | some unsafeChannels =>
    (unsafeChannels.map UInt16.toNat).foldl markUnsafe <|
      safeChannelNumbers.map fun ch => ⟨ch, !(inp.ctx.dfsChDisable && inp.isDfs ch)⟩

def AcsInput.includeDfsCh (inp : AcsInput) : Bool :=
  !inp.ctx.dfsChDisable && inp.dfsMasterEnabled && inp.ctx.dfsMode ≠ .disable

def AcsInput.admits (inp : AcsInput) (ch : Nat) : Bool :=
  !inp.inNolList ch && (inp.includeDfsCh || !inp.isDfs ch)
    && !(sapUpdateUnsafeChannelList inp).any (fun c => c.channelNumber = ch && !c.isSafe)
    && !(ch = 14 && !inp.ctx.phyMode11b)
    && !vosIsDsrcChannel (vosChanToFreq ch)

/-- The channel numbers of the table; an entry that was passed over has 0. -/
def sapChanSelInit (inp : AcsInput) : List Nat :=
  inp.base20MHzChannels.map fun ch => if inp.admits ch.toNat then ch.toNat else 0

def sapComputeSpectWeight (inp : AcsInput) : List SpectCh :=
  (sapChanSelInit inp).mapIdx fun i ch => ⟨ch, inp.weigh i, inp.weigh i⟩

/-! ### Sorting -/

def acsWeightMax : UInt32 := 26664

/-- `HT40PLUS_2G_FCC_CH_END` and `HT40PLUS_2G_EURJAP_CH_END` -/
def ht40plus2gEndCh (fcc : Bool) : Nat := if fcc then 7 else 9

abbrev SpectTable := List SpectCh

namespace SpectTable

def setWeight (t : SpectTable) (j : Nat) (w : UInt32) : SpectTable :=
  t.modify j fun c => { c with weight := w }

def weightAt (t : SpectTable) (j : Nat) : UInt32 := (t[j]?.map SpectCh.weight).getD 0

/-- The entry `j` is in the table and has this number. -/
def isAt (t : SpectTable) (j ch : Nat) : Bool := t[j]?.map SpectCh.chNum = some ch

def findCh (t : SpectTable) (ch : Nat) : Option Nat := t.findIdx? fun c => c.chNum = ch

/-- The number that is read at a place in the table or outside it. -/
def chNumAt (t : SpectTable) (outside : Int → Nat) (j : Int) : Nat :=
  if j < 0 then outside j else (t[j.toNat]?.map SpectCh.chNum).getD (outside j)

/-- The entries that meet `p` get this weight. -/
def reweigh (t : SpectTable) (p : Nat → Nat → Bool) (w : UInt32) : SpectTable :=
  t.mapIdx fun j c => if p j c.chNum then { c with weight := w } else c

def bar165 (t : SpectTable) (w : UInt32) : SpectTable :=
  match t.findCh 165 with
  | some j => t.setWeight j w
  | none => t

end SpectTable

def sapSortChlWeight (t : SpectTable) : SpectTable :=
  selectionSort (fun a b => a.weight < b.weight) t

/-- The channels at `j` and `j + 4`, of the pair and of the one above. -/
def pair24G (t : SpectTable) (j : Nat) (two : Bool) : SpectTable :=
  let tmpWeight1 := t.weightAt j + t.weightAt (j + 4)
  let tmpWeight2 := t.weightAt (j + 4) + t.weightAt (j + 8)
  if two then
    if tmpWeight1 ≤ tmpWeight2 then
      if t.weightAt j ≤ t.weightAt (j + 4) then
        ((t.setWeight j tmpWeight1).setWeight (j + 4) (acsWeightMax * 2)).setWeight (j + 8)
          (acsWeightMax * 2)
      else
        ((t.setWeight (j + 4) tmpWeight1).setWeight j (acsWeightMax * 2 - 1)).setWeight (j + 8)
          (acsWeightMax * 2)
    else if t.weightAt (j + 4) ≤ t.weightAt (j + 8) then
      ((t.setWeight (j + 4) tmpWeight2).setWeight j (acsWeightMax * 2)).setWeight (j + 8)
        (acsWeightMax * 2 - 1)
    else
      ((t.setWeight (j + 8) tmpWeight2).setWeight j (acsWeightMax * 2)).setWeight (j + 4)
        (acsWeightMax * 2)
  else if t.weightAt j ≤ t.weightAt (j + 4) then
    (t.setWeight j tmpWeight1).setWeight (j + 4) (acsWeightMax * 2)
  else (t.setWeight (j + 4) tmpWeight1).setWeight j (acsWeightMax * 2)

/-- One turn for `acsHT40Channels24G`. -/
def weighHT40_24G (t : SpectTable) (chStartNum : Nat) : SpectTable :=
  match t.findCh chStartNum with
  | none => t
  | some j =>
    if t.isAt (j + 4) (chStartNum + 4) then pair24G t j (t.isAt (j + 8) (chStartNum + 8))
    else t.setWeight j (acsWeightMax * 2)

/-- The channels that have no other one to be used with.  The entries four places away are read without a bound. -/
def sapSortChlWeightHT40_24G (fcc : Bool) (outside : Int → Nat) (t : SpectTable) : SpectTable :=
  let t := [1, 2, 3, 4, 9].foldl weighHT40_24G t
  let t := t.reweigh (fun j ch =>
    5 ≤ ch && ch ≤ ht40plus2gEndCh fcc
      && ch + 4 ≠ t.chNumAt outside (j + 4 : Int) && (ch : Int) - 4 ≠ t.chNumAt outside (j - 4 : Int))
    (acsWeightMax * 2)
  let t := t.reweigh (fun j ch =>
    ht40plus2gEndCh fcc + 1 ≤ ch && ch ≤ 13 && (ch : Int) - 4 ≠ t.chNumAt outside (j - 4 : Int))
    (acsWeightMax * 2)
  sapSortChlWeight t

/-- The first channels of `acsHT40Channels5G`. -/
def acsHT40Channels5G : List Nat := [36, 44, 52, 60, 100, 108, 116, 124, 132, 140, 149, 157]

/-- One turn for `acsHT40Channels5G`. -/
def weighHT40_5G (t : SpectTable) (chStartNum : Nat) : SpectTable :=
  match t.findCh chStartNum with
  | none => t
  | some j =>
    if t.isAt (j + 1) (chStartNum + 4) then
      let weight := t.weightAt j + t.weightAt (j + 1)
      if t.weightAt j ≤ t.weightAt (j + 1) then
        (t.setWeight j weight).setWeight (j + 1) (acsWeightMax * 2)
      else (t.setWeight (j + 1) weight).setWeight j (acsWeightMax * 2)
    else t.setWeight j (acsWeightMax * 2)

def sapSortChlWeightHT40_5G (t : SpectTable) : SpectTable :=
  let t := acsHT40Channels5G.foldl weighHT40_5G t
  let t := t.reweigh (fun j ch => 1 ≤ j && acsHT40Channels5G.any fun chStartNum =>
    ch = chStartNum + 4 && !t.isAt (j - 1) chStartNum) (acsWeightMax * 2)
  sapSortChlWeight (t.bar165 (acsWeightMax * 2))

/-- The first channels of `acsHT80Channels`, and of `chanBondingSet`. -/
def acsHT80Channels : List Nat := [36, 52, 100, 116, 132, 149]

def minIdx80 (t : SpectTable) (j : Nat) : Nat :=
  if t.weightAt j + t.weightAt (j + 1) < t.weightAt (j + 2) + t.weightAt (j + 3) then
    if t.weightAt j < t.weightAt (j + 1) then 0 else 1
  else if t.weightAt (j + 2) ≤ t.weightAt (j + 3) then 2 else 3

/-- One turn for `acsHT80Channels`. -/
def weighHT80 (t : SpectTable) (chStartNum : Nat) : SpectTable :=
  match t.findCh chStartNum with
  | none => t
  | some j =>
    if t.isAt (j + 1) (chStartNum + 4) && t.isAt (j + 2) (chStartNum + 8)
        && t.isAt (j + 3) (chStartNum + 12) then
      let weight := t.weightAt j + t.weightAt (j + 1) + t.weightAt (j + 2) + t.weightAt (j + 3)
      let minIdx := minIdx80 t j
      ([0, 1, 2, 3].foldl (fun t n => t.setWeight (j + n) (acsWeightMax * 4)) t).setWeight
        (j + minIdx) weight
    else
      [0, 1, 2, 3].foldl (fun t n =>
        if n = 0 ∨ t.isAt (j + n) (chStartNum + 4 * n) then t.setWeight (j + n) (acsWeightMax * 4)
        else t) t

/-- The table has channels in all four places of the band. -/
def fullBand (t : SpectTable) (startChannel : Nat) : Bool :=
  [0, 1, 2, 3].all fun k => t.any fun c =>
    startChannel ≤ c.chNum && c.chNum ≤ startChannel + 12 && (c.chNum - startChannel) / 4 = k

def sapSortChlWeightHT80 (t : SpectTable) : SpectTable :=
  let t := acsHT80Channels.foldl weighHT80 t
  let t := t.reweigh (fun _ ch => acsHT80Channels.any fun startChannel =>
    startChannel ≤ ch && ch ≤ startChannel + 12 && !fullBand t startChannel) (acsWeightMax * 4)
  sapSortChlWeight (t.bar165 (acsWeightMax * 4))

/-- `operatingBand` is `eCSR_DOT11_MODE_11g`. -/
def AcsInput.operates11g (inp : AcsInput) : Bool :=
  if inp.ctx.scanBandPreference = .all then inp.ctx.acsCfg.startCh ≤ 14 && inp.ctx.acsCfg.endCh ≤ 14
  else inp.ctx.currentPreferredBand = .band24

def sapSortChlWeightAll (inp : AcsInput) (t : SpectTable) : SpectTable :=
  match inp.ctx.acsCfg.chWidth with
  | .w40MHz =>
    if inp.operates11g then sapSortChlWeightHT40_24G inp.fccRegdomain inp.outside t
    else sapSortChlWeightHT40_5G t
  | .w80MHz => sapSortChlWeightHT80 t
  | _ => sapSortChlWeight t

/-! ### Selection -/

def AcsInput.startChannelNum (inp : AcsInput) : Nat :=
  match inp.ctx.scanBandPreference, inp.ctx.currentPreferredBand with
  | .all, _ => inp.ctx.acsCfg.startCh.toNat
  | _, .band24 => 1
  | _, _ => 36

def AcsInput.endChannelNum (inp : AcsInput) : Nat :=
  match inp.ctx.scanBandPreference, inp.ctx.currentPreferredBand with
  | .all, _ => inp.ctx.acsCfg.endCh.toNat
  | _, .band24 => 14
  | _, _ => 165

/-- The channel is in the range that is searched. -/
def AcsInput.inRange (inp : AcsInput) (ch : Nat) : Bool :=
  inp.startChannelNum ≤ ch && ch ≤ inp.endChannelNum

/-- The list of the configuration has the channel. -/
def listHas (chList : List UInt8) (ch : Nat) : Bool := chList.any fun c => c.toNat = ch

/-- `sapSelectPreferredChannelFromChannelList`: with a list, the first channel of the whole table that is in it. -/
def sapSelectPreferredChannelFromChannelList (bestChNum : Nat) (chList : Option (List UInt8))
    (t : SpectTable) : Nat :=
  match chList with
  | none => bestChNum
  | some l =>
    if 0 < bestChNum ∧ bestChNum ≤ 252 then
      ((t.find? fun c => c.chNum ≠ 0 && listHas l c.chNum).map SpectCh.chNum).getD 0
    else 0

def sapChannelInAcsChannelList (channelNum : Nat) (chList : Option (List UInt8)) : Nat :=
  match chList with
  | none => channelNum
  | some l =>
    if 0 < channelNum ∧ channelNum ≤ 252 then if listHas l channelNum then channelNum else 0
    else 0

def sapFilterOverLapCh (ctx : SapContext) (chNum : Nat) : Bool :=
  ctx.enableOverLapCh || chNum = 1 || chNum = 6 || chNum = 11

structure AcsChannelInfo where
  channelNum : Nat
  weight : UInt32
deriving DecidableEq

/-- `CFG_ACS_BAND_SWITCH_THRESHOLD_MAX`, as `acsBestChannelInfo` begins. -/
def AcsChannelInfo.start : AcsChannelInfo := ⟨0, 26664⟩

/-- An entry that does not overlap and is not heavier than the best one. -/
def AcsInput.prefers (inp : AcsInput) (best : AcsChannelInfo) (c : SpectCh) : Bool :=
  inp.operates11g && sapFilterOverLapCh inp.ctx c.chNum && c.weightCopy ≤ best.weight
    && sapChannelInAcsChannelList c.chNum inp.ctx.acsCfg.chList ≠ 0

/-- The loop over the table `t`, from the entries `cs` on: the channel, and what is recorded. -/
def searchLoop (inp : AcsInput) (t : SpectTable) :
    List SpectCh → Nat → AcsChannelInfo → Nat × AcsChannelInfo
  | [], bestChNum, best => (bestChNum, best)
  | c :: cs, bestChNum, best =>
    if !inp.inRange c.chNum then searchLoop inp t cs bestChNum best
    else if bestChNum = 0 then
      let ch := sapSelectPreferredChannelFromChannelList c.chNum inp.ctx.acsCfg.chList t
      if ch = 0 then searchLoop inp t cs 0 best
      else if inp.ctx.acsBandSwitchThreshold.toUInt32 < c.weightCopy then
        if inp.ctx.scanBandPreference ≠ .all ∧ !inp.ctx.allBandScanned then (0, ⟨ch, c.weight⟩)
        else if best.weight < c.weightCopy ∧ !inp.inAvoidChList ch then (best.channelNum, best)
        else if inp.prefers ⟨ch, c.weightCopy⟩ c then (c.chNum, ⟨ch, c.weightCopy⟩)
        else searchLoop inp t cs ch ⟨ch, c.weightCopy⟩
      else if inp.prefers ⟨ch, c.weightCopy⟩ c then (c.chNum, ⟨ch, c.weightCopy⟩)
      else searchLoop inp t cs ch ⟨ch, c.weightCopy⟩
    else if inp.prefers best c then (c.chNum, best)
    else searchLoop inp t cs bestChNum best

/-- The weight of the last entry with this number, or the largest. -/
def lastWeight (t : SpectTable) (ch : Nat) : UInt32 :=
  t.foldl (fun w c => if c.chNum = ch then c.weight else w) acsWeightMax

/-- `ht_sec_ch` for the primary channel, which may keep the number it had. -/
def secondaryCh (inp : AcsInput) (t : SpectTable) (bestChNum : Nat) : Nat :=
  if 5 ≤ bestChNum ∧ bestChNum ≤ ht40plus2gEndCh inp.fccRegdomain then
    if lastWeight t (bestChNum - 4) < lastWeight t (bestChNum + 4) then bestChNum - 4
    else bestChNum + 4
  else if 1 ≤ bestChNum ∧ bestChNum ≤ 4 then bestChNum + 4
  else if ht40plus2gEndCh inp.fccRegdomain < bestChNum ∧ bestChNum ≤ 13 then bestChNum - 4
  else if bestChNum = 14 then 0
  else inp.ctx.acsCfg.htSecCh

/-- The 2.4 GHz band is searched for a channel of 40 MHz. -/
def AcsInput.ht40in24G (inp : AcsInput) : Bool :=
  inp.operates11g && inp.ctx.acsCfg.chWidth = .w40MHz

/-- What the call returns, and what it leaves in the context. -/
structure AcsOutput where
  channel : Nat
  acsBestChannelInfo : AcsChannelInfo
  htSecCh : Nat
deriving DecidableEq

/-- Scan results are weighed; otherwise the first safe channel in the range is taken. -/
def AcsInput.weighs (inp : AcsInput) : Bool :=
  !(inp.noScanResult && (inp.ctx.autoChannelSelectWeight &&& 0xffff00) = 0)

/-- The first safe channel of the configured range. -/
def firstSafeChannelInRange (inp : AcsInput) : Nat :=
  (((sapUpdateUnsafeChannelList inp).find? fun c =>
    inp.ctx.acsCfg.startCh.toNat ≤ c.channelNumber && c.channelNumber ≤ inp.ctx.acsCfg.endCh.toNat
      && inp.channelState c.channelNumber ≠ .disable && inp.channelState c.channelNumber ≠ .invalid
      && !(inp.ctx.dfsMode = .disable && inp.isDfs c.channelNumber)
      && !(!inp.dfsMasterEnabled && inp.isDfs c.channelNumber)
      && c.isSafe).map SafeChannel.channelNumber).getD 0

def AcsInput.sorted (inp : AcsInput) : SpectTable :=
  sapSortChlWeightAll inp (sapComputeSpectWeight inp)

def sapSelectChannel (inp : AcsInput) (acsBestChannelInfo : AcsChannelInfo) : AcsOutput :=
  if !inp.weighs then ⟨firstSafeChannelInRange inp, acsBestChannelInfo, inp.ctx.acsCfg.htSecCh⟩
  else if !inp.mallocOk then ⟨0, acsBestChannelInfo, inp.ctx.acsCfg.htSecCh⟩
  else
    let r := searchLoop inp inp.sorted inp.sorted 0 .start
    { channel := if 0 < r.1 ∧ r.1 ≤ 252 then r.1 else 0
      acsBestChannelInfo := r.2
      htSecCh := if inp.ht40in24G then secondaryCh inp inp.sorted r.1 else inp.ctx.acsCfg.htSecCh }

/-! ### The law -/

/-- The channels that may be chosen: those with an entry of their own. -/
def AcsInput.candidates (inp : AcsInput) : List Nat := (sapChanSelInit inp).filter (· ≠ 0)

/-- One of the entries of this channel has this weight. -/
def AcsInput.Weighs (inp : AcsInput) (ch : Nat) (w : UInt32) : Prop :=
  ∃ c ∈ sapComputeSpectWeight inp, c.chNum = ch ∧ c.weightCopy = w

/-- The HDD has told that the channel is not safe. -/
def AcsInput.toldUnsafe (inp : AcsInput) (ch : Nat) : Bool :=
  match inp.unsafeChannelList with
  | none => false
  | some l => l.any fun c => c.toNat = ch

/-- **The law.**  A channel that is returned after weighing is in the range and in the list, may be used, has the weight that is recorded, and has a secondary channel that may be used too. -/
structure ChannelRight (inp : AcsInput) (out : AcsOutput) : Prop where
  range : inp.inRange out.channel = true
  listed : ∀ l, inp.ctx.acsCfg.chList = some l → listHas l out.channel = true
  nol : inp.inNolList out.channel = false
  safe : inp.toldUnsafe out.channel = false
  dsrc : vosIsDsrcChannel (vosChanToFreq out.channel) = false
  dfs : inp.includeDfsCh = false → inp.isDfs out.channel = false
  weight : inp.Weighs out.channel out.acsBestChannelInfo.weight
  secondary : inp.ht40in24G = true → out.htSecCh = 0 ∨ out.htSecCh ∈ inp.candidates ∧
    (out.htSecCh = out.channel + 4 ∨ out.channel = out.htSecCh + 4)

namespace AcsInput

/-- The number that the list of the configuration makes of a channel. -/
def preferred (inp : AcsInput) (ch : Nat) : Nat :=
  sapSelectPreferredChannelFromChannelList ch inp.ctx.acsCfg.chList inp.sorted

/-- The entry is in the range, and leads to a channel. -/
def wins (inp : AcsInput) (c : SpectCh) : Bool := inp.inRange c.chNum && inp.preferred c.chNum ≠ 0

/-- The first entry of the sorted table that does. -/
def winner (inp : AcsInput) : Option SpectCh := inp.sorted.find? inp.wins

/-- The winner is too heavy: another band is to be scanned, or it is worse than what no channel weighs. -/
def passesOver (inp : AcsInput) (w : SpectCh) : Bool :=
  inp.ctx.acsBandSwitchThreshold.toUInt32 < w.weightCopy &&
    (inp.ctx.scanBandPreference ≠ .all && !inp.ctx.allBandScanned ||
      AcsChannelInfo.start.weight < w.weightCopy && !inp.inAvoidChList (inp.preferred w.chNum))

def record (inp : AcsInput) (w : SpectCh) : AcsChannelInfo := ⟨inp.preferred w.chNum, w.weightCopy⟩

/-- The entry is in the range, and preferred to what is recorded of the winner. -/
def replaces (inp : AcsInput) (w c : SpectCh) : Bool :=
  inp.inRange c.chNum && inp.prefers (inp.record w) c

/-- The first entry that is preferred to the winner. -/
def apart (inp : AcsInput) (w : SpectCh) : Option SpectCh := inp.sorted.find? (inp.replaces w)

def picked (inp : AcsInput) (w : SpectCh) : Nat :=
  ((inp.apart w).map SpectCh.chNum).getD (inp.preferred w.chNum)

end AcsInput

/-- What is asked of the winner.  An entry that is preferred to it weighs as much; where there is none, the first channel of the table that is in the list is in the range and weighs as much.  The channel has an entry in the table of safe channels if it is not safe, and a secondary channel. -/
structure PickOk (inp : AcsInput) (w : SpectCh) : Prop where
  apart : ∀ c, inp.apart w = some c → inp.Weighs c.chNum w.weightCopy
  first : inp.apart w = none → inp.ctx.acsCfg.chList ≠ none →
    inp.inRange (inp.preferred w.chNum) = true ∧ inp.Weighs (inp.preferred w.chNum) w.weightCopy
  safe : inp.toldUnsafe (inp.picked w) = true → inp.picked w ∈ safeChannelNumbers
  secondary : inp.ht40in24G = true → inp.picked w = 14 ∨
    secondaryCh inp inp.sorted (inp.picked w) ∈ inp.candidates

/-- **The condition**, on the winner of the sorted table, where there is one that is not passed over. -/
def SelectOk (inp : AcsInput) : Prop :=
  inp.weighs = true → inp.mallocOk = true → ∀ w, inp.winner = some w → inp.passesOver w = false →
    inp.picked w ≤ 252 → PickOk inp w

/-! ### What sorting keeps -/

namespace SpectTable

/-- The channels with the weights they were given. -/
def keys (t : SpectTable) : List (Nat × UInt32) := t.map fun c => (c.chNum, c.weightCopy)

section
variable {t : SpectTable} {j : Nat} {w : UInt32}

@[simp]
theorem keys_setWeight : (t.setWeight j w).keys = t.keys := by
  refine map_modify (fun c => ?_) t j
  rfl

@[simp]
theorem keys_reweigh (p : Nat → Nat → Bool) : (t.reweigh p w).keys = t.keys := by
  refine map_mapIdx (fun j c => ?_) t
  split <;> rfl

@[simp]
theorem keys_bar165 : (t.bar165 w).keys = t.keys := by
  rw [bar165]
  split <;> simp

theorem keys_foldl {ι : Type*} {f : SpectTable → ι → SpectTable} (hf : ∀ t i, (f t i).keys = t.keys)
    (is : List ι) (t : SpectTable) : (is.foldl f t).keys = t.keys := by
  induction is generalizing t with
  | nil => rfl
  | cons i is ih => exact (ih (f t i)).trans (hf t i)

@[simp]
theorem keys_pair24G (two : Bool) : (pair24G t j two).keys = t.keys := by
  simp [pair24G, apply_ite keys, keys_setWeight]

@[simp]
theorem keys_weighHT40_24G (ch : Nat) : (weighHT40_24G t ch).keys = t.keys := by
  rw [weighHT40_24G]
  split
  · rfl
  · simp [apply_ite keys, keys_pair24G, keys_setWeight]

@[simp]
theorem keys_weighHT40_5G (ch : Nat) : (weighHT40_5G t ch).keys = t.keys := by
  rw [weighHT40_5G]
  split
  · rfl
  · simp [apply_ite keys, keys_setWeight]

@[simp]
theorem keys_weighHT80 (ch : Nat) : (weighHT80 t ch).keys = t.keys := by
  rw [weighHT80]
  split
  · rfl
  · next j _ =>
    simp only [apply_ite keys, keys_setWeight]
    rw [keys_foldl fun t n => keys_setWeight, keys_foldl fun t n => ?_, ite_self]
    simp [apply_ite keys, keys_setWeight]

theorem keys_perm {t t' : SpectTable} (h : t.Perm t') : t.keys.Perm t'.keys := h.map _

theorem mem_keys {ch : Nat} : (ch, w) ∈ t.keys ↔ ∃ c ∈ t, c.chNum = ch ∧ c.weightCopy = w := by
  simp [keys]

end

end SpectTable

open SpectTable

theorem sapSortChlWeight_keys (t : SpectTable) : (sapSortChlWeight t).keys.Perm t.keys :=
  keys_perm (selectionSort_perm _ t)

/-- **Sorting** keeps the channels and the weights they were given, whatever the width. -/
theorem sapSortChlWeightAll_keys (inp : AcsInput) (t : SpectTable) :
    (sapSortChlWeightAll inp t).keys.Perm t.keys := by
  have h24 : (sapSortChlWeightHT40_24G inp.fccRegdomain inp.outside t).keys.Perm t.keys := by
    refine (sapSortChlWeight_keys _).trans (.of_eq ?_)
    simp only [keys_reweigh]
    exact keys_foldl (fun t ch => keys_weighHT40_24G ch) _ t
  have h5 : (sapSortChlWeightHT40_5G t).keys.Perm t.keys := by
    refine (sapSortChlWeight_keys _).trans (.of_eq ?_)
    simp only [keys_reweigh, keys_bar165]
    exact keys_foldl (fun t ch => keys_weighHT40_5G ch) _ t
  have h80 : (sapSortChlWeightHT80 t).keys.Perm t.keys := by
    refine (sapSortChlWeight_keys _).trans (.of_eq ?_)
    simp only [keys_reweigh, keys_bar165]
    exact keys_foldl (fun t ch => keys_weighHT80 ch) _ t
  cases hw : inp.ctx.acsCfg.chWidth with
  | w40MHz =>
    by_cases hg : inp.operates11g = true
    · simpa [sapSortChlWeightAll, hw, hg] using h24
    · simpa [sapSortChlWeightAll, hw, hg] using h5
  | w80MHz => simpa [sapSortChlWeightAll, hw] using h80
  | w20MHz => simpa [sapSortChlWeightAll, hw] using sapSortChlWeight_keys t
  | w160MHz => simpa [sapSortChlWeightAll, hw] using sapSortChlWeight_keys t

section
variable {inp : AcsInput} {ch : Nat} {w : UInt32} {c : SpectCh}

theorem weighs_iff_sorted :
    inp.Weighs ch w ↔ ∃ c ∈ inp.sorted, c.chNum = ch ∧ c.weightCopy = w := by
  rw [AcsInput.Weighs, ← SpectTable.mem_keys, ← SpectTable.mem_keys]
  exact (sapSortChlWeightAll_keys inp _).mem_iff.symm

theorem weighs_of_mem (hc : c ∈ inp.sorted) : inp.Weighs c.chNum c.weightCopy :=
  weighs_iff_sorted.2 ⟨c, hc, rfl, rfl⟩

theorem AcsInput.Weighs.mem (h : inp.Weighs ch w) : ch ∈ sapChanSelInit inp := by
  obtain ⟨c, hc, rfl, -⟩ := h
  obtain ⟨i, hi, rfl⟩ := mem_iff_getElem.1 hc
  simp [sapComputeSpectWeight]

theorem admits_of_mem (h : ch ∈ sapChanSelInit inp) (h0 : ch ≠ 0) : inp.admits ch = true := by
  obtain ⟨b, -, rfl⟩ := mem_map.1 h
  by_cases hb : inp.admits b.toNat = true
  · rwa [if_pos hb]
  · rw [if_neg hb] at h0
    exact absurd rfl h0

end

/-! ### Unsafe channels -/

section
variable {t : List SafeChannel} {ch ch' : Nat}

def barred (t : List SafeChannel) (ch : Nat) : Bool := t.any fun c => c.channelNumber = ch && !c.isSafe

theorem markUnsafe_numbers (t : List SafeChannel) (ch : Nat) :
    (markUnsafe t ch).map SafeChannel.channelNumber = t.map SafeChannel.channelNumber := by
  rw [markUnsafe]
  split
  · refine map_modify (fun c => ?_) t _
    rfl
  · rfl

theorem barred_markUnsafe (h : barred t ch = true) : barred (markUnsafe t ch') ch = true := by
  rw [markUnsafe]
  split
  · next i hi =>
    simp only [barred, List.any_eq_true, Bool.and_eq_true, decide_eq_true_eq, Bool.not_eq_true'] at h ⊢
    obtain ⟨c, hc, hn, hs⟩ := h
    obtain ⟨j, hj⟩ := List.mem_iff_getElem?.1 hc
    refine ⟨if i = j then { c with isSafe := false } else c, ?_, ?_, ?_⟩
    · refine List.mem_iff_getElem?.2 ⟨j, ?_⟩
      rw [getElem?_modify, hj]
      rfl
    · split <;> exact hn
    · split
      · rfl
      · exact hs
  · exact h

theorem barred_markUnsafe_self (h : ch ∈ t.map SafeChannel.channelNumber) :
    barred (markUnsafe t ch) ch = true := by
  obtain ⟨c, hc, hn⟩ := mem_map.1 h
  rw [markUnsafe]
  split
  · next i hi =>
    obtain ⟨hlt, hp, -⟩ := List.findIdx?_eq_some_iff_getElem.1 hi
    simp only [barred, List.any_eq_true]
    refine ⟨{ t[i] with isSafe := false }, List.mem_iff_getElem?.2 ⟨i, ?_⟩, ?_⟩
    · simp [hlt]
    · simpa using hp
  · next hi =>
    have hno := List.findIdx?_eq_none_iff.1 hi c hc
    simp [hn] at hno

theorem barred_foldl {l : List Nat} (hl : ch ∈ l)
    (h : ch ∈ t.map SafeChannel.channelNumber) : barred (l.foldl markUnsafe t) ch = true := by
  induction l generalizing t with
  | nil => exact absurd hl not_mem_nil
  | cons a l ih =>
    have hkeep : ∀ (is : List Nat) (t : List SafeChannel), barred t ch = true →
        barred (is.foldl markUnsafe t) ch = true := by
      intro is
      induction is with
      | nil => exact fun t ht => ht
      | cons i is ih => exact fun t ht => ih _ (barred_markUnsafe ht)
    rcases mem_cons.1 hl with rfl | hl
    · exact hkeep l _ (barred_markUnsafe_self h)
    · exact ih hl (by rwa [markUnsafe_numbers])

end

/-- **Unsafe channels** are passed over when the table of safe channels has their numbers. -/
theorem not_toldUnsafe {inp : AcsInput} {ch : Nat} (ha : inp.admits ch = true)
    (hn : ch ∈ safeChannelNumbers) : inp.toldUnsafe ch = false := by
  by_contra ht
  have ht : inp.toldUnsafe ch = true := by simpa using ht
  have hb : barred (sapUpdateUnsafeChannelList inp) ch = true := by
    rw [toldUnsafe] at ht
    rw [sapUpdateUnsafeChannelList]
    cases hl : inp.unsafeChannelList with
    | none => simp [hl] at ht
    | some l =>
      have hmem : ch ∈ l.map UInt16.toNat := by simpa [hl] using ht
      exact barred_foldl hmem (by simpa using hn)
  rw [barred] at hb
  simp [admits, hb] at ha

/-! ### The search -/

section
variable {inp : AcsInput} {t : SpectTable} {cs : List SpectCh} {b : Nat} {best : AcsChannelInfo}
  {c w : SpectCh} {ch : Nat}

theorem searchLoop_of_ne (hb : b ≠ 0) : searchLoop inp t cs b best =
    (((cs.find? fun c => inp.inRange c.chNum && inp.prefers best c).map SpectCh.chNum).getD b,
      best) := by
  induction cs with
  | nil => rfl
  | cons c cs ih =>
    by_cases hr : inp.inRange c.chNum = true
    · by_cases hp : inp.prefers best c = true
      · simp [searchLoop, hr, hb, hp]
      · simp [searchLoop, hr, hb, hp, ih]
    · simp [searchLoop, hr, ih]

theorem not_replaces (hc : c ∈ inp.sorted) (h : inp.preferred c.chNum = 0) :
    inp.replaces w c = false := by
  have hz : sapChannelInAcsChannelList c.chNum inp.ctx.acsCfg.chList = 0 := by
    rw [preferred] at h
    cases hlist : inp.ctx.acsCfg.chList with
    | none => simpa [sapSelectPreferredChannelFromChannelList, sapChannelInAcsChannelList, hlist] using h
    | some l =>
      simp only [sapSelectPreferredChannelFromChannelList, hlist] at h
      simp only [sapChannelInAcsChannelList]
      split at h
      · next hpos =>
        by_cases hin : listHas l c.chNum = true
        · obtain ⟨d, hd⟩ : ∃ d, inp.sorted.find? (fun c => c.chNum ≠ 0 && listHas l c.chNum)
              = some d := by
            rw [← isSome_iff_exists, find?_isSome]
            exact ⟨c, hc, by simp [hin, Nat.pos_iff_ne_zero.1 hpos.1]⟩
          have hd0 := find?_some hd
          rw [hd] at h
          simp only [map_some, getD_some] at h
          simp [h] at hd0
        · simp [hpos, hin]
      · next hpos => simp [hpos]
  simp [replaces, prefers, hz]

theorem searchLoop_wins (hw : inp.wins c = true) :
    (inp.passesOver c = true → (searchLoop inp inp.sorted (c :: cs) 0 .start).1 = 0) ∧
      (inp.passesOver c = false → searchLoop inp inp.sorted (c :: cs) 0 .start =
        if inp.prefers (inp.record c) c then (c.chNum, inp.record c)
        else searchLoop inp inp.sorted cs (inp.preferred c.chNum) (inp.record c)) := by
  obtain ⟨hr, hp⟩ : inp.inRange c.chNum = true ∧ inp.preferred c.chNum ≠ 0 := by
    simpa [wins] using hw
  have hp' : sapSelectPreferredChannelFromChannelList c.chNum inp.ctx.acsCfg.chList inp.sorted
      = inp.preferred c.chNum := rfl
  by_cases ht : inp.ctx.acsBandSwitchThreshold.toUInt32 < c.weightCopy
  · by_cases hb : inp.ctx.scanBandPreference ≠ .all ∧ inp.ctx.allBandScanned = false
    · simp [searchLoop, passesOver, hr, hp', hp, ht, hb.1, hb.2]
    · by_cases hm : AcsChannelInfo.start.weight < c.weightCopy ∧
          inp.inAvoidChList (inp.preferred c.chNum) = false
      · simp [searchLoop, passesOver, hr, hp', hp, ht, hb, hm.1, hm.2]
        rfl
      · simp [searchLoop, passesOver, hr, hp', hp, ht, hb, hm, record]
        exact fun _ _ => rfl
  · simp [searchLoop, passesOver, hr, hp', hp, ht, record]
    rfl

theorem searchLoop_zero (hcs : ∀ c ∈ cs, c ∈ inp.sorted) :
    (cs.find? inp.wins = none → (searchLoop inp inp.sorted cs 0 .start).1 = 0) ∧
      ∀ w, cs.find? inp.wins = some w →
        (inp.passesOver w = true → (searchLoop inp inp.sorted cs 0 .start).1 = 0) ∧
        (inp.passesOver w = false → searchLoop inp inp.sorted cs 0 .start =
          (((cs.find? (inp.replaces w)).map SpectCh.chNum).getD (inp.preferred w.chNum),
            inp.record w)) := by
  induction cs with
  | nil => exact ⟨fun _ => rfl, nofun⟩
  | cons c cs ih =>
    obtain ⟨hc, hcs⟩ := forall_mem_cons.1 hcs
    by_cases hr : inp.inRange c.chNum = true
    · by_cases hp : inp.preferred c.chNum = 0
      · -- the entry leads to no channel
        have hw : inp.wins c = false := by simp [wins, hp]
        have hstep : searchLoop inp inp.sorted (c :: cs) 0 .start
            = searchLoop inp inp.sorted cs 0 .start := by
          rw [preferred] at hp
          simp [searchLoop, hr, hp]
        have hrep : ∀ w, (c :: cs).find? (inp.replaces w) = cs.find? (inp.replaces w) := fun w =>
          find?_cons_of_neg (by simp [not_replaces hc hp])
        rw [find?_cons_of_neg (by simp [hw]), hstep]
        simpa [hrep] using ih hcs
      · have hw : inp.wins c = true := by simp [wins, hr, hp]
        have hwins := @searchLoop_wins inp cs c hw
        rw [find?_cons_of_pos hw]
        refine ⟨nofun, ?_⟩
        rintro w ⟨⟩
        refine ⟨hwins.1, fun hpass => (hwins.2 hpass).trans ?_⟩
        by_cases hpref : inp.prefers (inp.record c) c = true
        · rw [if_pos hpref, find?_cons_of_pos (by simp [replaces, hr, hpref])]
          rfl
        · rw [if_neg hpref, find?_cons_of_neg (by simp [replaces, hpref])]
          exact searchLoop_of_ne hp
    · have hw : inp.wins c = false := by simp [wins, hr]
      have hstep : searchLoop inp inp.sorted (c :: cs) 0 .start
          = searchLoop inp inp.sorted cs 0 .start := by
        simp [searchLoop, hr]
      have hrep : ∀ w, (c :: cs).find? (inp.replaces w) = cs.find? (inp.replaces w) := fun w =>
        find?_cons_of_neg (by simp [replaces, hr])
      rw [find?_cons_of_neg (by simp [hw]), hstep]
      simpa [hrep] using ih hcs

end

/-! ### What is picked -/

section
variable {inp : AcsInput} {w c : SpectCh} {ch : Nat}

theorem admits_of_sorted (hc : c ∈ inp.sorted) (h0 : c.chNum ≠ 0) : inp.admits c.chNum = true :=
  admits_of_mem (weighs_of_mem hc).mem h0

theorem sapChannelInAcsChannelList_ne {chList : Option (List UInt8)}
    (h : sapChannelInAcsChannelList ch chList ≠ 0) :
    ch ≠ 0 ∧ ∀ l, chList = some l → listHas l ch = true := by
  cases chList with
  | none => exact ⟨h, nofun⟩
  | some l =>
    simp only [sapChannelInAcsChannelList] at h
    split at h
    · next hpos =>
      refine ⟨Nat.pos_iff_ne_zero.1 hpos.1, ?_⟩
      rintro _ ⟨⟩
      by_contra hin
      exact h (if_neg hin)
    · exact absurd rfl h

theorem apart_spec (h : inp.apart w = some c) : c ∈ inp.sorted ∧ inp.inRange c.chNum = true ∧
    c.chNum ≠ 0 ∧ ∀ l, inp.ctx.acsCfg.chList = some l → listHas l c.chNum = true := by
  have hr := find?_some h
  simp only [replaces, prefers, Bool.and_eq_true, decide_eq_true_eq] at hr
  exact ⟨mem_of_find?_eq_some h, hr.1, sapChannelInAcsChannelList_ne hr.2.2⟩

theorem winner_spec (h : inp.winner = some w) :
    w ∈ inp.sorted ∧ inp.inRange w.chNum = true ∧ inp.preferred w.chNum ≠ 0 := by
  have hw := find?_some h
  simp only [wins, Bool.and_eq_true, decide_eq_true_eq] at hw
  exact ⟨mem_of_find?_eq_some h, hw.1, hw.2⟩

theorem preferred_listed {l : List UInt8} (hl : inp.ctx.acsCfg.chList = some l)
    (h : inp.preferred ch ≠ 0) : ∃ c ∈ inp.sorted, c.chNum = inp.preferred ch ∧
      listHas l (inp.preferred ch) = true := by
  simp only [preferred, sapSelectPreferredChannelFromChannelList, hl] at h ⊢
  split at h
  · next hpos =>
    rw [if_pos hpos]
    cases hf : inp.sorted.find? fun c => c.chNum ≠ 0 && listHas l c.chNum with
    | none => exact absurd (by rw [hf]; rfl) h
    | some c =>
      have hc := find?_some hf
      simp only [Bool.and_eq_true] at hc
      exact ⟨c, mem_of_find?_eq_some hf, rfl, hc.2⟩
  · exact absurd rfl h

theorem preferred_of_none (hl : inp.ctx.acsCfg.chList = none) : inp.preferred ch = ch := by
  simp [preferred, sapSelectPreferredChannelFromChannelList, hl]

/-- **What is picked** is in the table and in the list. -/
theorem picked_spec (h : inp.winner = some w) : inp.picked w ≠ 0 ∧
    (∃ c ∈ inp.sorted, c.chNum = inp.picked w) ∧
    ∀ l, inp.ctx.acsCfg.chList = some l → listHas l (inp.picked w) = true := by
  obtain ⟨hw, -, hp⟩ := winner_spec h
  rw [picked]
  cases ha : inp.apart w with
  | some c =>
    obtain ⟨hc, -, h0, hl⟩ := apart_spec ha
    exact ⟨h0, ⟨c, hc, rfl⟩, hl⟩
  | none =>
    refine ⟨hp, ?_, fun l hl => ?_⟩
    · cases hl : inp.ctx.acsCfg.chList with
      | none => exact ⟨w, hw, (preferred_of_none hl).symm⟩
      | some l =>
        obtain ⟨c, hc, hcn, -⟩ := preferred_listed hl hp
        exact ⟨c, hc, hcn⟩
    · obtain ⟨-, -, -, hin⟩ := preferred_listed hl hp
      exact hin

/-- In the range and as heavy as what is recorded: exactly under the first two parts of the condition. -/
theorem picked_range_weight (h : inp.winner = some w) :
    inp.inRange (inp.picked w) = true ∧ inp.Weighs (inp.picked w) w.weightCopy ↔
      (∀ c, inp.apart w = some c → inp.Weighs c.chNum w.weightCopy) ∧
      (inp.apart w = none → inp.ctx.acsCfg.chList ≠ none →
        inp.inRange (inp.preferred w.chNum) = true ∧
          inp.Weighs (inp.preferred w.chNum) w.weightCopy) := by
  obtain ⟨hw, hr, -⟩ := winner_spec h
  rw [picked]
  cases ha : inp.apart w with
  | some c =>
    obtain ⟨-, hcr, -⟩ := apart_spec ha
    simp [hcr]
  | none =>
    cases hl : inp.ctx.acsCfg.chList with
    | none => simpa [preferred_of_none hl, hr] using weighs_of_mem hw
    | some l => simp

theorem le_14_of_operates11g (hg : inp.operates11g = true) (hr : inp.inRange ch = true) : ch ≤ 14 := by
  have hend : inp.endChannelNum ≤ 14 := by
    rw [operates11g] at hg
    split at hg
    · next hb =>
      simp only [Bool.and_eq_true, decide_eq_true_eq] at hg
      simpa [endChannelNum, hb] using UInt8.le_iff_toNat_le.1 hg.2
    · next hb =>
      have hp : inp.ctx.currentPreferredBand = .band24 := by simpa using hg
      cases hs : inp.ctx.scanBandPreference with
      | all => exact absurd hs hb
      | _ => simp [endChannelNum, hs, hp]
  simp only [inRange, Bool.and_eq_true, decide_eq_true_eq] at hr
  exact Nat.le_trans hr.2 hend

/-- The secondary channel of a channel of the 2.4 GHz band is four away, but for channel 14. -/
theorem secondaryCh_spec {t : SpectTable} (h0 : ch ≠ 0) (h14 : ch < 14) : secondaryCh inp t ch ≠ 0 ∧
    (secondaryCh inp t ch = ch + 4 ∨ ch = secondaryCh inp t ch + 4) := by
  have hend : 5 ≤ ht40plus2gEndCh inp.fccRegdomain := by
    rw [ht40plus2gEndCh]
    split <;> decide
  rw [secondaryCh]
  split_ifs <;> omega

theorem secondaryCh_14 {t : SpectTable} : secondaryCh inp t 14 = 0 := by
  have hend : ht40plus2gEndCh inp.fccRegdomain < 14 := by
    rw [ht40plus2gEndCh]
    split <;> decide
  rw [secondaryCh]
  split_ifs <;> omega

/-- **A channel that is picked is what was asked for exactly under the condition.** -/
theorem channelRight_iff (h : inp.winner = some w) {s : Nat}
    (hs : inp.ht40in24G = true → s = secondaryCh inp inp.sorted (inp.picked w)) :
    ChannelRight inp ⟨inp.picked w, inp.record w, s⟩ ↔ PickOk inp w := by
  obtain ⟨h0, ⟨c, hc, hcn⟩, hlist⟩ := picked_spec h
  have hadm : inp.admits (inp.picked w) = true := hcn ▸ admits_of_sorted hc (hcn ▸ h0)
  constructor
  · rintro ⟨hr, -, -, hsafe, -, -, hw, hsec⟩
    obtain ⟨ha, hf⟩ := (picked_range_weight h).1 ⟨hr, hw⟩
    refine ⟨ha, hf, fun ht => absurd (ht.symm.trans hsafe) (by simp), fun hg => ?_⟩
    have hg' : inp.operates11g = true := by
      simp only [ht40in24G, Bool.and_eq_true] at hg
      exact hg.1
    obtain h14 | h14 := Nat.eq_or_lt_of_le (le_14_of_operates11g hg' hr)
    · exact .inl h14
    · obtain ⟨hs0, -⟩ := @secondaryCh_spec inp _ inp.sorted h0 h14
      rw [← hs hg] at hs0 ⊢
      exact .inr ((hsec hg).resolve_left hs0).1
  · rintro ⟨ha, hf, hsafe, hsec⟩
    obtain ⟨hr, hw⟩ := (picked_range_weight h).2 ⟨ha, hf⟩
    have hadm' := hadm
    simp only [admits, Bool.and_eq_true, Bool.not_eq_true', Bool.or_eq_true] at hadm'
    obtain ⟨⟨⟨⟨hnol, hdfs⟩, -⟩, -⟩, hdsrc⟩ := hadm'
    refine ⟨hr, hlist, hnol, ?_, hdsrc, fun hi => hdfs.resolve_left (by simp [hi]), hw, fun hg => ?_⟩
    · by_contra ht
      have ht : inp.toldUnsafe (inp.picked w) = true := by simpa using ht
      exact absurd (not_toldUnsafe hadm (hsafe ht)) (by simp [ht])
    · have hg' : inp.operates11g = true := by
        simp only [ht40in24G, Bool.and_eq_true] at hg
        exact hg.1
      obtain h14 | h14 := Nat.eq_or_lt_of_le (le_14_of_operates11g hg' hr)
      · exact .inl (by rw [hs hg, h14, secondaryCh_14])
      · refine .inr ⟨?_, ?_⟩
        · rw [hs hg]
          exact (hsec hg).resolve_left (Nat.ne_of_lt h14)
        · rw [hs hg]
          exact (secondaryCh_spec h0 h14).2

end

/-- The 5 GHz band is searched, with a list of a channel of each band; there is a BSS on channel 36. -/
def bothBands : AcsInput where
  ctx :=
    { acsCfg := ⟨6, 36, some [6, 36], .w20MHz, 0⟩
      dfsMode := .enable
      dfsChDisable := false
      phyMode11b := false
      enableOverLapCh := true
      scanBandPreference := .band5G
      currentPreferredBand := .band5G
      allBandScanned := false
      acsBandSwitchThreshold := 26664
      autoChannelSelectWeight := 0xff }
  base20MHzChannels := [6, 36]
  channelState _ := .enable
  inNolList _ := false
  unsafeChannelList := some []
  safeChannels := []
  dfsMasterEnabled := true
  fccRegdomain := true
  inAvoidChList _ := false
  noScanResult := false
  mallocOk := true
  weigh i := if i = 0 then 0 else 1554
  outside _ := 0

end Qcacld.Sap

import Mathlib.Algebra.Group.Nat.Defs
import Mathlib.Order.Basic
import Qcacld.Support.Pointwise
import Qcacld.Support.Runs

/-!
# Sap — SapDfsNol

The non-occupancy list of the soft access point.  A radar marks the channels it was found on; a query goes through a bonded set, makes the channels available again whose period is over and, when it comes to one in its period, marks the whole set with the time of that one.

Both mark through the same loop.  It takes times that differ by less than nothing for far apart, so that a query may put the time of a channel back; and it goes one entry too far.  `sap_nol_iff` keeps the two apart: runs in which no time is put back keep all the periods, whatever is marked.
-/

namespace Qcacld.Sap
open Qcacld.Support Function List Option Nat

/-- `SAP_DFS_NON_OCCUPANCY_PERIOD`, in microseconds. -/
def sapDfsNonOccupancyPeriod : UInt64 := 30 * 60 * 1000 * 1000

def num5ghzChannels : Nat := 41

/-- `eSapDfsChanStatus_t` -/
inductive DfsChanStatus where
  | usable
  | available
  | unavailable
deriving DecidableEq

inductive PhyChanBondState where
  | singleChannelCentered
  | doubleChannelLowPrimary
  | doubleChannelHighPrimary
  | quadLowCentered
  | quadCenteredCentered
  | quadHighCentered
  | quadLowLow
  | quadHighLow
  | quadLowHigh
  | quadHighHigh

/-- `tSapDfsNolInfo`.  `radars` is history: the times of radar that have been recorded. -/
structure SapDfsNolInfo where
  dfsChannelNumber : UInt8
  radarStatusFlag : DfsChanStatus
  radarFoundTimestamp : UInt64
  radars : List UInt64

open SapDfsNolInfo

/-- `tSapDfsInfo`, with the clock and whether the last call has come to an entry outside of the list. -/
structure SapDfsInfo where
  numCurrentRegDomainDfsChannels : Nat
  sapDfsChannelNolList : Nat → SapDfsNolInfo
  now : UInt64
  outside : Bool

open SapDfsInfo

namespace SapDfsNolInfo
variable (e : SapDfsNolInfo)

/-- The entry is already in the list, for one that is marked with this time. -/
def Listed (time : UInt64) : Prop :=
  e.radarStatusFlag = .unavailable ∧ time - e.radarFoundTimestamp < sapDfsNonOccupancyPeriod
deriving Decidable

/-- The entry as `sapMarkDfsChannels` leaves it. -/
def mark (time : UInt64) : SapDfsNolInfo :=
  if e.Listed time then e
  else { e with
    radarStatusFlag := .unavailable
    radarFoundTimestamp := time
    radars := e.radars ++ [time] }

/-- `timeElapsedSinceLastRadar`, with the turn of the clock that the code has in mind. -/
def timeElapsed (now : UInt64) : UInt64 :=
  if now < e.radarFoundTimestamp then 4294967295 * 1000 - e.radarFoundTimestamp + now
  else now - e.radarFoundTimestamp

def InNol (now : UInt64) : Prop :=
  e.radarStatusFlag = .unavailable ∧ e.timeElapsed now < sapDfsNonOccupancyPeriod
deriving Decidable

def free : SapDfsNolInfo :=
  { e with
    radarStatusFlag := .available
    radarFoundTimestamp := 0 }

end SapDfsNolInfo

namespace SapDfsInfo
variable (s : SapDfsInfo)

def set (i : Nat) (e : SapDfsNolInfo) : SapDfsInfo :=
  { s with sapDfsChannelNolList := update s.sapDfsChannelNolList i e }

def touch (i : Nat) : SapDfsInfo :=
  { s with outside := s.outside || s.numCurrentRegDomainDfsChannels ≤ i }

/-- One turn of the inner loop of `sapMarkDfsChannels`. -/
def markTurn (time : UInt64) (ch : UInt8) (j : Nat) : SapDfsInfo :=
  let s := s.touch j
  if (s.sapDfsChannelNolList j).dfsChannelNumber = ch then
    s.set j ((s.sapDfsChannelNolList j).mark time)
  else s

/-- The inner loop.  It runs up to the number of entries. -/
def markChannel (time : UInt64) (ch : UInt8) : SapDfsInfo :=
  (List.range (s.numCurrentRegDomainDfsChannels + 1)).foldl (fun s j => s.markTurn time ch j) s

def sapMarkDfsChannels (channels : List UInt8) (time : UInt64) : SapDfsInfo :=
  channels.foldl (fun s ch => s.markChannel time ch) s

end SapDfsInfo

def sapGetBondingChannels (channel : UInt8) : PhyChanBondState → List UInt8
  | .doubleChannelHighPrimary => [channel - 4, channel]
  | .doubleChannelLowPrimary => [channel, channel + 4]
  | .quadLowLow => [channel, channel + 4, channel + 8, channel + 12]
  | .quadHighLow => [channel - 4, channel, channel + 4, channel + 8]
  | .quadLowHigh => [channel - 8, channel - 4, channel, channel + 4]
  | .quadHighHigh => [channel - 12, channel - 8, channel - 4, channel]
  | _ => [channel]

namespace SapDfsInfo

/-- The inner loop of `sapDfsIsChannelInNolList`; the entry at which it breaks. -/
def checkNol (s : SapDfsInfo) (ch : UInt8) : List Nat → SapDfsInfo × Option Nat
  | [] => (s, none)
  | i :: is =>
    let s := s.touch i
    let e := s.sapDfsChannelNolList i
    if e.dfsChannelNumber = ch ∧ e.radarStatusFlag = .unavailable then
      if sapDfsNonOccupancyPeriod ≤ e.timeElapsed s.now then checkNol (s.set i e.free) ch is
      else (s, some i)
    else checkNol s ch is

def checkBonded (s : SapDfsInfo) : List UInt8 → SapDfsInfo × Option Nat
  | [] => (s, none)
  | ch :: chs =>
    match s.checkNol ch (List.range s.numCurrentRegDomainDfsChannels) with
    | (s, some i) => (s, some i)
    | (s, none) => checkBonded s chs

def sapDfsIsChannelInNolList (s : SapDfsInfo) (channelNumber : UInt8)
    (chanBondState : PhyChanBondState) : SapDfsInfo × Bool :=
  if s.numCurrentRegDomainDfsChannels = 0 ∨ num5ghzChannels < s.numCurrentRegDomainDfsChannels then
    (s, false)
  else
    let channels := sapGetBondingChannels channelNumber chanBondState
    match s.checkBonded channels with
    | (s, some i) =>
      (s.sapMarkDfsChannels channels (s.sapDfsChannelNolList i).radarFoundTimestamp, true)
    | (s, none) => (s, false)

/-- `sapInitDfsChannelNolList`, with whether the list has been found at the platform driver.  The channels come with whether they are `NV_CHANNEL_DFS`. -/
def sapInitDfsChannelNolList (s : SapDfsInfo) (bFound : Bool) (regChannels : List (UInt8 × Bool)) :
    SapDfsInfo :=
  let r := regChannels.foldl (fun r c =>
    if c.2 then
      (if bFound then r.1 else r.1.set r.2
        { dfsChannelNumber := c.1
          radarStatusFlag := .usable
          radarFoundTimestamp := 0
          radars := [] }, r.2 + 1)
    else r) (s, 0)
  { r.1 with numCurrentRegDomainDfsChannels := r.2 }

end SapDfsInfo

/-! ### Runs -/

inductive NolOp where
  | radar (channels : List UInt8)
  | query (channel : UInt8) (chanBondState : PhyChanBondState)
  | wait (us : Nat)

/-- One call, or some time in which the clock does not wrap. -/
def sapNolStep (s : SapDfsInfo) : NolOp → Option SapDfsInfo
  | .radar channels => some ({ s with outside := false }.sapMarkDfsChannels channels s.now)
  | .query channel chanBondState =>
    some ({ s with outside := false }.sapDfsIsChannelInNolList channel chanBondState).1
  | .wait us => do
    guard (s.now.toNat + us < 2 ^ 64)
    return { s with
      now := s.now + .ofNat us
      outside := false }

/-- A list as the platform driver gives it: the times are past, and count as recorded. -/
def GivenNol (s : SapDfsInfo) : Prop :=
  ∀ i, (s.sapDfsChannelNolList i).radarStatusFlag = .unavailable ∧
      (s.sapDfsChannelNolList i).radarFoundTimestamp ≤ s.now ∧
      (s.sapDfsChannelNolList i).radars = [(s.sapDfsChannelNolList i).radarFoundTimestamp] ∨
    (s.sapDfsChannelNolList i).radarStatusFlag ≠ .unavailable ∧
      (s.sapDfsChannelNolList i).radars = []

def sapNolMachine : Machine SapDfsInfo NolOp where
  init s := ∃ s₀ bFound regChannels, (bFound = true → GivenNol s₀) ∧
    regChannels.length ≤ num5ghzChannels ∧ s = s₀.sapInitDfsChannelNolList bFound regChannels
  step := sapNolStep

/-- The entries of the list for one of these channels. -/
def SapDfsInfo.On (s : SapDfsInfo) (channels : List UInt8) (i : Nat) : Prop :=
  i < s.numCurrentRegDomainDfsChannels ∧ (s.sapDfsChannelNolList i).dfsChannelNumber ∈ channels

/-- **The periods.**  An entry is in its period until that of each radar recorded for it is over. -/
def PeriodsKept (s : SapDfsInfo) : Prop :=
  ∀ i < s.numCurrentRegDomainDfsChannels, ∀ t ∈ (s.sapDfsChannelNolList i).radars,
    s.now.toNat < t.toNat + sapDfsNonOccupancyPeriod.toNat → (s.sapDfsChannelNolList i).InNol s.now

/-- The time of an entry in its period is not put back. -/
def TimesForward (s s' : SapDfsInfo) : Prop :=
  ∀ i < s.numCurrentRegDomainDfsChannels, (s.sapDfsChannelNolList i).InNol s.now →
    (s'.sapDfsChannelNolList i).radarStatusFlag = .unavailable ∧
      (s.sapDfsChannelNolList i).radarFoundTimestamp
        ≤ (s'.sapDfsChannelNolList i).radarFoundTimestamp

/-- **A right step.**  The periods are kept, the time of an entry in its period is not put back, and a set is reported usable only when every period of its channels is over and each channel is reported usable. -/
structure NolStepRight (s : SapDfsInfo) (op : NolOp) (s' : SapDfsInfo) : Prop where
  periods : PeriodsKept s'
  forward : TimesForward s s'
  usable : ∀ channel chanBondState, op = .query channel chanBondState →
    (s.sapDfsIsChannelInNolList channel chanBondState).2 = false →
      (∀ i, s.On (sapGetBondingChannels channel chanBondState) i →
        ∀ t ∈ (s.sapDfsChannelNolList i).radars,
          t.toNat + sapDfsNonOccupancyPeriod.toNat ≤ s.now.toNat) ∧
      ∀ ch ∈ sapGetBondingChannels channel chanBondState,
        (s.sapDfsIsChannelInNolList ch .singleChannelCentered).2 = false

/-- The entry keeps the channel from being used. -/
def SapDfsInfo.Bars (s : SapDfsInfo) (ch : UInt8) (i : Nat) : Prop :=
  (s.sapDfsChannelNolList i).dfsChannelNumber = ch ∧ (s.sapDfsChannelNolList i).InNol s.now
deriving Decidable

/-- The first entry in its period, in the order of the channels. -/
def SapDfsInfo.firstInNol (s : SapDfsInfo) (channels : List UInt8) : Option Nat :=
  channels.findSome? fun ch =>
    (List.range s.numCurrentRegDomainDfsChannels).find? fun i => s.Bars ch i

/-- **The condition** for the times: of the channels of a query the first in its period is the one with the latest radar. -/
def StampOk (s : SapDfsInfo) : NolOp → Prop
  | .query channel chanBondState =>
    ∀ f ∈ s.firstInNol (sapGetBondingChannels channel chanBondState),
      ∀ i < s.numCurrentRegDomainDfsChannels, (s.sapDfsChannelNolList i).dfsChannelNumber
            ∈ sapGetBondingChannels channel chanBondState →
        (s.sapDfsChannelNolList i).radarStatusFlag = .unavailable →
        (s.sapDfsChannelNolList i).radarFoundTimestamp
          ≤ (s.sapDfsChannelNolList f).radarFoundTimestamp
  | _ => True

instance (s : SapDfsInfo) : DecidablePred (StampOk s)
  | .radar _ | .wait _ => inferInstanceAs (Decidable True)
  | .query _ _ => inferInstanceAs (Decidable (∀ f ∈ _, _))

/-- **The condition** for the entries that are come to: nothing is marked. -/
def NothingMarked (s : SapDfsInfo) : NolOp → Prop
  | .radar channels => channels = []
  | .query channel chanBondState =>
    s.firstInNol (sapGetBondingChannels channel chanBondState) = none
  | .wait _ => True

/-! ### One entry -/

/-- What holds of an entry: its time is past, and a radar recorded for it is no later than its time, or its period is over. -/
structure SapDfsNolInfo.Ok (e : SapDfsNolInfo) (now : UInt64) : Prop where
  past : e.radarStatusFlag = .unavailable → e.radarFoundTimestamp ≤ now
  covered : ∀ t ∈ e.radars, e.radarStatusFlag = .unavailable ∧ t ≤ e.radarFoundTimestamp ∨
    t.toNat + sapDfsNonOccupancyPeriod.toNat ≤ now.toNat

section
variable {e : SapDfsNolInfo} {now time t : UInt64}

theorem period_toNat : sapDfsNonOccupancyPeriod.toNat = 1800000000 := rfl

theorem inNol_iff (h : e.radarFoundTimestamp ≤ now) : e.InNol now ↔
    e.radarStatusFlag = .unavailable ∧
      now.toNat < e.radarFoundTimestamp.toNat + sapDfsNonOccupancyPeriod.toNat := by
  have hle := UInt64.le_iff_toNat_le.1 h
  rw [SapDfsNolInfo.InNol, timeElapsed, if_neg (UInt64.not_lt.2 h),
    UInt64.lt_iff_toNat_lt, UInt64.toNat_sub_of_le _ _ h]
  exact and_congr_right fun _ => ⟨fun hlt => by omega, fun hlt => by omega⟩

theorem not_listed_of_lt (h : time < e.radarFoundTimestamp)
    (hp : e.radarFoundTimestamp.toNat < time.toNat + sapDfsNonOccupancyPeriod.toNat) :
    ¬ e.Listed time := by
  rintro ⟨-, hlt⟩
  have hlt' := UInt64.lt_iff_toNat_lt.1 h
  have hsize := e.radarFoundTimestamp.toNat_lt
  rw [UInt64.lt_iff_toNat_lt, UInt64.toNat_sub, period_toNat] at hlt
  rw [period_toNat] at hp
  omega

@[simp]
theorem mark_dfsChannelNumber (e : SapDfsNolInfo) (time : UInt64) :
    (e.mark time).dfsChannelNumber = e.dfsChannelNumber := by
  rw [mark]
  split <;> rfl

@[simp]
theorem mark_radarStatusFlag (e : SapDfsNolInfo) (time : UInt64) :
    (e.mark time).radarStatusFlag = .unavailable := by
  rw [mark]
  split
  · next hl => exact hl.1
  · rfl

theorem listed_mark (e : SapDfsNolInfo) (time : UInt64) : (e.mark time).Listed time := by
  rw [mark]
  split
  · next hl => exact hl
  · refine ⟨rfl, ?_⟩
    simp only [UInt64.sub_self]
    decide

theorem mark_mark (e : SapDfsNolInfo) (time : UInt64) : (e.mark time).mark time = e.mark time :=
  if_pos (listed_mark e time)

theorem SapDfsNolInfo.Ok.inNol (h : e.Ok now) (ht : t ∈ e.radars)
    (hp : now.toNat < t.toNat + sapDfsNonOccupancyPeriod.toNat) : e.InNol now := by
  rcases h.covered t ht with ⟨hu, hle⟩ | hover
  · have hle := UInt64.le_iff_toNat_le.1 hle
    exact (inNol_iff (h.past hu)).2 ⟨hu, Nat.lt_of_lt_of_le hp (Nat.add_le_add_right hle _)⟩
  · exact absurd hp (not_lt.2 hover)

theorem SapDfsNolInfo.Ok.free (h : e.Ok now) (hn : ¬ e.InNol now) : e.free.Ok now where
  past := nofun
  covered t ht := by
    refine .inr (not_lt.1 fun hp => ?_)
    exact hn (h.inNol ht hp)

theorem SapDfsNolInfo.Ok.mark (h : e.Ok now) (hp : time ≤ now)
    (hu : e.radarStatusFlag = .unavailable → e.radarFoundTimestamp ≤ time) :
    (e.mark time).Ok now := by
  rw [SapDfsNolInfo.mark]
  split
  · exact h
  · next hl =>
    refine ⟨fun _ => hp, fun t ht => ?_⟩
    rcases mem_append.1 ht with ht | ht
    · refine (h.covered t ht).imp (fun ⟨hu', hle⟩ => ⟨rfl, ?_⟩) id
      exact UInt64.le_trans hle (hu hu')
    · rw [mem_singleton.1 ht]
      exact .inl ⟨rfl, UInt64.le_refl _⟩

theorem le_mark (h : e.radarFoundTimestamp ≤ time) :
    e.radarFoundTimestamp ≤ (e.mark time).radarFoundTimestamp := by
  rw [mark]
  split
  · exact UInt64.le_refl _
  · exact h

theorem SapDfsNolInfo.Ok.wait (h : e.Ok now) (hle : now ≤ time) : e.Ok time where
  past hu := UInt64.le_trans (h.past hu) hle
  covered t ht := (h.covered t ht).imp_right fun hover =>
    le_trans hover (UInt64.le_iff_toNat_le.1 hle)

end

/-! ### Marking -/

/-- The entry is marked if it is for the channel. -/
def SapDfsNolInfo.markFor (e : SapDfsNolInfo) (ch : UInt8) (time : UInt64) : SapDfsNolInfo :=
  if e.dfsChannelNumber = ch then e.mark time else e

section
variable (s : SapDfsInfo) (time : UInt64) (ch : UInt8) (channels : List UInt8)

theorem markTurn_list (j : Nat) : (s.markTurn time ch j).sapDfsChannelNolList =
    update s.sapDfsChannelNolList j ((s.sapDfsChannelNolList j).markFor ch time) := by
  by_cases hch : (s.sapDfsChannelNolList j).dfsChannelNumber = ch
  · simp [markTurn, touch, SapDfsInfo.set, markFor, hch]
  · simp [markTurn, touch, markFor, hch]

@[simp]
theorem markTurn_num (j : Nat) : (s.markTurn time ch j).numCurrentRegDomainDfsChannels =
    s.numCurrentRegDomainDfsChannels := by
  simp only [markTurn]
  split <;> rfl

@[simp]
theorem markTurn_now (j : Nat) : (s.markTurn time ch j).now = s.now := by
  simp only [markTurn]
  split <;> rfl

theorem markTurn_outside (j : Nat) : (s.markTurn time ch j).outside =
    (s.outside || decide (s.numCurrentRegDomainDfsChannels ≤ j)) := by
  simp only [markTurn]
  split <;> rfl

@[simp]
theorem markChannel_num : (s.markChannel time ch).numCurrentRegDomainDfsChannels =
    s.numCurrentRegDomainDfsChannels :=
  foldl_keeps (P := fun t : SapDfsInfo =>
    t.numCurrentRegDomainDfsChannels = s.numCurrentRegDomainDfsChannels)
    (fun t j _ ht => (markTurn_num t time ch j).trans ht) rfl

@[simp]
theorem markChannel_now : (s.markChannel time ch).now = s.now :=
  foldl_keeps (P := fun t : SapDfsInfo => t.now = s.now)
    (fun t j _ ht => (markTurn_now t time ch j).trans ht) rfl

theorem markChannel_list (i : Nat) : (s.markChannel time ch).sapDfsChannelNolList i =
    if i ≤ s.numCurrentRegDomainDfsChannels then (s.sapDfsChannelNolList i).markFor ch time
    else s.sapDfsChannelNolList i := by
  have hop := fun (s : SapDfsInfo) j => markTurn_list s time ch j
  by_cases hi : i ≤ s.numCurrentRegDomainDfsChannels
  · rw [if_pos hi]
    exact @foldl_of_mem _ _ _ _ _ sapDfsChannelNolList _ id (fun _ e => e.markFor ch time) hop
      _ (by simpa using nodup_range) i (mem_range.2 (lt_succ_of_le hi)) s
  · rw [if_neg hi]
    exact @foldl_of_notMem _ _ _ _ _ sapDfsChannelNolList _ id (fun _ e => e.markFor ch time) hop
      _ i (by simpa using succ_le_of_lt (not_le.1 hi)) s

theorem markChannel_outside : (s.markChannel time ch).outside = true := by
  have hnum : ((range s.numCurrentRegDomainDfsChannels).foldl
      (fun s j => s.markTurn time ch j) s).numCurrentRegDomainDfsChannels
        = s.numCurrentRegDomainDfsChannels :=
    foldl_keeps (P := fun t : SapDfsInfo =>
      t.numCurrentRegDomainDfsChannels = s.numCurrentRegDomainDfsChannels)
      (fun t j _ ht => (markTurn_num t time ch j).trans ht) rfl
  rw [markChannel, range_succ, foldl_append, foldl_cons, foldl_nil, markTurn_outside, hnum]
  simp

@[simp]
theorem sapMarkDfsChannels_num :
    (s.sapMarkDfsChannels channels time).numCurrentRegDomainDfsChannels =
      s.numCurrentRegDomainDfsChannels :=
  foldl_keeps (P := fun t : SapDfsInfo =>
    t.numCurrentRegDomainDfsChannels = s.numCurrentRegDomainDfsChannels)
    (fun t ch _ ht => (markChannel_num t time ch).trans ht) rfl

@[simp]
theorem sapMarkDfsChannels_now : (s.sapMarkDfsChannels channels time).now = s.now :=
  foldl_keeps (P := fun t : SapDfsInfo => t.now = s.now)
    (fun t ch _ ht => (markChannel_now t time ch).trans ht) rfl

/-- **Marking.**  The entries of all the channels are marked, up to the one behind the list. -/
theorem sapMarkDfsChannels_list (i : Nat) :
    (s.sapMarkDfsChannels channels time).sapDfsChannelNolList i =
      if i ≤ s.numCurrentRegDomainDfsChannels ∧
        (s.sapDfsChannelNolList i).dfsChannelNumber ∈ channels
      then (s.sapDfsChannelNolList i).mark time else s.sapDfsChannelNolList i := by
  induction channels generalizing s with
  | nil => simp [sapMarkDfsChannels]
  | cons ch chs ih =>
    have hcons : s.sapMarkDfsChannels (ch :: chs) time =
      (s.markChannel time ch).sapMarkDfsChannels chs time := rfl
    rw [hcons, ih, markChannel_list, markChannel_num]
    by_cases hi : i ≤ s.numCurrentRegDomainDfsChannels
    · by_cases hch : (s.sapDfsChannelNolList i).dfsChannelNumber = ch
      · simp [hi, hch, markFor, mark_mark]
      · simp [hi, hch, markFor]
    · simp [hi]

theorem sapMarkDfsChannels_outside (h : channels ≠ []) :
    (s.sapMarkDfsChannels channels time).outside = true := by
  obtain ⟨chs, ch, rfl⟩ := (eq_nil_or_concat channels).resolve_left h
  rw [sapMarkDfsChannels, concat_eq_append, foldl_append]
  exact markChannel_outside _ time ch

end

/-! ### Asking -/

/-- The loops of a query only make entries available whose period is over. -/
structure Aged (s s' : SapDfsInfo) : Prop where
  num : s'.numCurrentRegDomainDfsChannels = s.numCurrentRegDomainDfsChannels
  now : s'.now = s.now
  outside : s'.outside = s.outside
  entry : ∀ i, s'.sapDfsChannelNolList i = s.sapDfsChannelNolList i ∨
    ¬ (s.sapDfsChannelNolList i).InNol s.now ∧
      s'.sapDfsChannelNolList i = (s.sapDfsChannelNolList i).free

section
variable {s s' s'' : SapDfsInfo} {ch : UInt8} {chs : List UInt8} {i f : Nat} {is : List Nat}

theorem free_not_inNol (e : SapDfsNolInfo) (now : UInt64) : ¬ e.free.InNol now :=
  fun h => DfsChanStatus.noConfusion h.1

theorem Aged.refl (s : SapDfsInfo) : Aged s s := ⟨rfl, rfl, rfl, fun _ => .inl rfl⟩

theorem Aged.of_inNol (h : Aged s s') (hi : (s.sapDfsChannelNolList i).InNol s.now) :
    s'.sapDfsChannelNolList i = s.sapDfsChannelNolList i :=
  (h.entry i).resolve_right fun hn => hn.1 hi

theorem Aged.bars (h : Aged s s') (ch : UInt8) (i : Nat) : s'.Bars ch i ↔ s.Bars ch i := by
  rw [SapDfsInfo.Bars, SapDfsInfo.Bars, h.now]
  rcases h.entry i with he | ⟨hn, he⟩
  · rw [he]
  · rw [he]
    exact ⟨fun hb => absurd hb.2 (free_not_inNol _ _), fun hb => absurd hb.2 hn⟩

theorem Aged.channel (h : Aged s s') (i : Nat) : (s'.sapDfsChannelNolList i).dfsChannelNumber =
    (s.sapDfsChannelNolList i).dfsChannelNumber := by
  rcases h.entry i with he | ⟨-, he⟩
  · rw [he]
  · rw [he]
    rfl

theorem Aged.trans (h : Aged s s') (h' : Aged s' s'') : Aged s s'' where
  num := h'.num.trans h.num
  now := h'.now.trans h.now
  outside := h'.outside.trans h.outside
  entry i := by
    rcases h'.entry i with he' | ⟨hn', he'⟩
    · rw [he']
      exact h.entry i
    · rcases h.entry i with he | ⟨hn, he⟩
      · rw [he, h.now] at hn'
        exact .inr ⟨hn', by rw [he', he]⟩
      · exact .inr ⟨hn, by rw [he', he]; rfl⟩

theorem Aged.set (h : ¬ (s.sapDfsChannelNolList i).InNol s.now) :
    Aged s (s.set i (s.sapDfsChannelNolList i).free) where
  num := rfl
  now := rfl
  outside := rfl
  entry j := by
    by_cases hj : j = i
    · subst hj
      exact .inr ⟨h, update_self ..⟩
    · exact .inl (update_of_ne hj ..)

theorem touch_of_lt (hi : i < s.numCurrentRegDomainDfsChannels) : s.touch i = s := by
  have hn : decide (s.numCurrentRegDomainDfsChannels ≤ i) = false :=
    decide_eq_false (not_le.2 hi)
  simp [touch, hn]

theorem find_aged (h : Aged s s') (ch : UInt8) (is : List Nat) :
    is.find? (fun i => decide (s'.Bars ch i)) = is.find? fun i => decide (s.Bars ch i) := by
  congr 1
  funext i
  exact decide_eq_decide.2 (h.bars ch i)

/-- **The inner loop** breaks at the first entry that bars the channel. -/
theorem checkNol_spec (hs : ∀ i ∈ is, i < s.numCurrentRegDomainDfsChannels) :
    Aged s (s.checkNol ch is).1 ∧
      (s.checkNol ch is).2 = is.find? fun i => decide (s.Bars ch i) := by
  induction is generalizing s with
  | nil => exact ⟨.refl s, rfl⟩
  | cons i is ih =>
    obtain ⟨hi, his⟩ := forall_mem_cons.1 hs
    rw [checkNol, touch_of_lt hi]
    split
    · next hch =>
      split
      · next hover =>
        -- the period is over: the entry is made available and the loop goes on
        have hn : ¬ (s.sapDfsChannelNolList i).InNol s.now :=
          fun hin => UInt64.not_lt.2 hover hin.2
        have ha : Aged s (s.set i (s.sapDfsChannelNolList i).free) := .set hn
        obtain ⟨ha', hf⟩ := @ih (s.set i (s.sapDfsChannelNolList i).free) his
        refine ⟨ha.trans ha', hf.trans ?_⟩
        have hb : ¬ s.Bars ch i := fun hb => hn hb.2
        rw [find_aged ha, find?_cons_of_neg (by simpa using hb)]
      · next hin =>
        have hb : s.Bars ch i := ⟨hch.1, hch.2, UInt64.not_le.1 hin⟩
        exact ⟨.refl s, by rw [find?_cons_of_pos (by simpa using hb)]⟩
    · next hch =>
      have hb : ¬ s.Bars ch i := fun hb => hch ⟨hb.1, hb.2.1⟩
      rw [find?_cons_of_neg (by simpa using hb)]
      exact ih his

/-- **The outer loop** breaks at the first entry in its period. -/
theorem checkBonded_spec :
    Aged s (s.checkBonded chs).1 ∧ (s.checkBonded chs).2 = s.firstInNol chs := by
  induction chs generalizing s with
  | nil => exact ⟨.refl s, rfl⟩
  | cons ch chs ih =>
    obtain ⟨ha, hf⟩ := @checkNol_spec s ch (range s.numCurrentRegDomainDfsChannels)
      fun i hi => mem_range.1 hi
    rw [checkBonded, firstInNol, findSome?_cons, ← hf]
    rcases hc : s.checkNol ch (range s.numCurrentRegDomainDfsChannels) with ⟨s₁, _ | i⟩
    · rw [hc] at ha
      obtain ⟨ha', hf'⟩ := @ih s₁
      refine ⟨ha.trans ha', hf'.trans ?_⟩
      have hnum : s₁.numCurrentRegDomainDfsChannels = s.numCurrentRegDomainDfsChannels := ha.num
      simp [firstInNol, hnum, find_aged ha]
    · rw [hc] at ha
      exact ⟨ha, rfl⟩

theorem firstInNol_eq_none : s.firstInNol chs = none ↔
    ∀ i, s.On chs i → ¬ (s.sapDfsChannelNolList i).InNol s.now := by
  rw [firstInNol, findSome?_eq_none_iff]
  constructor
  · intro h i hi hin
    have hf := find?_eq_none.1 (h _ hi.2) i (mem_range.2 hi.1)
    have hb : s.Bars (s.sapDfsChannelNolList i).dfsChannelNumber i := ⟨rfl, hin⟩
    exact hf (decide_eq_true hb)
  · intro h ch hch
    refine find?_eq_none.2 fun i hi hf => ?_
    have hb : s.Bars ch i := of_decide_eq_true hf
    exact h i ⟨mem_range.1 hi, hb.1 ▸ hch⟩ hb.2

theorem firstInNol_spec (h : s.firstInNol chs = some f) :
    s.On chs f ∧ (s.sapDfsChannelNolList f).InNol s.now := by
  obtain ⟨ch, hch, hf⟩ := exists_of_findSome?_eq_some h
  have hb : s.Bars ch f := by
    have hp := find?_some hf
    exact of_decide_eq_true hp
  exact ⟨⟨mem_range.1 (mem_of_find?_eq_some hf), hb.1 ▸ hch⟩, hb.2⟩

/-- A query that is refused ages the entries and marks those of the set with the time of the first one in its period. -/
theorem query_some {channel : UInt8} {cb : PhyChanBondState}
    (hnum : s.numCurrentRegDomainDfsChannels ≤ num5ghzChannels)
    (hf : s.firstInNol (sapGetBondingChannels channel cb) = some f) :
    ∃ s₁, Aged s s₁ ∧ s.sapDfsIsChannelInNolList channel cb =
      (s₁.sapMarkDfsChannels (sapGetBondingChannels channel cb)
        (s.sapDfsChannelNolList f).radarFoundTimestamp, true) := by
  obtain ⟨hon, hin⟩ := firstInNol_spec hf
  obtain ⟨ha, hc⟩ := @checkBonded_spec s (sapGetBondingChannels channel cb)
  rw [hf] at hc
  refine ⟨_, ha, ?_⟩
  have hn : ¬ (s.numCurrentRegDomainDfsChannels = 0 ∨
      num5ghzChannels < s.numCurrentRegDomainDfsChannels) := by
    have := hon.1
    omega
  rw [← congrArg radarFoundTimestamp (ha.of_inNol hin), sapDfsIsChannelInNolList, if_neg hn]
  rcases hr : s.checkBonded (sapGetBondingChannels channel cb) with ⟨s₁, r⟩
  rw [hr] at hc
  subst hc
  simp [hr]

theorem query_none {channel : UInt8} {cb : PhyChanBondState}
    (hf : s.firstInNol (sapGetBondingChannels channel cb) = none) :
    ∃ s₁, Aged s s₁ ∧ s.sapDfsIsChannelInNolList channel cb = (s₁, false) := by
  rw [sapDfsIsChannelInNolList]
  split
  · exact ⟨s, .refl s, rfl⟩
  · obtain ⟨ha, hc⟩ := @checkBonded_spec s (sapGetBondingChannels channel cb)
    rw [hf] at hc
    refine ⟨_, ha, ?_⟩
    rcases hr : s.checkBonded (sapGetBondingChannels channel cb) with ⟨s₁, r⟩
    rw [hr] at hc
    subst hc
    simp [hr]

end

/-! ### Steps -/

structure NolInv (s : SapDfsInfo) : Prop where
  num : s.numCurrentRegDomainDfsChannels ≤ num5ghzChannels
  entry : ∀ i < s.numCurrentRegDomainDfsChannels, (s.sapDfsChannelNolList i).Ok s.now

section
variable {s s' : SapDfsInfo} {op : NolOp} {f i : Nat}

theorem NolInv.periods (h : NolInv s) : PeriodsKept s :=
  fun i hi _ ht hp => (h.entry i hi).inNol ht hp

theorem Aged.inv (ha : Aged s s') (h : NolInv s) : NolInv s' := by
  refine ⟨ha.num.symm ▸ h.num, fun i hi => ?_⟩
  rw [ha.num] at hi
  rw [ha.now]
  rcases ha.entry i with he | ⟨hn, he⟩
  · rw [he]
    exact h.entry i hi
  · rw [he]
    exact (h.entry i hi).free hn

theorem NolInv.sapMarkDfsChannels (h : NolInv s) {channels : List UInt8} {time : UInt64}
    (hp : time ≤ s.now)
    (hu : ∀ i, s.On channels i → (s.sapDfsChannelNolList i).radarStatusFlag = .unavailable →
      (s.sapDfsChannelNolList i).radarFoundTimestamp ≤ time) :
    NolInv (s.sapMarkDfsChannels channels time) := by
  refine ⟨(sapMarkDfsChannels_num ..).symm ▸ h.num, fun i hi => ?_⟩
  rw [sapMarkDfsChannels_num] at hi
  rw [sapMarkDfsChannels_list, sapMarkDfsChannels_now]
  split
  · next hon => exact (h.entry i hi).mark hp (hu i ⟨hi, hon.2⟩)
  · exact h.entry i hi

theorem radar_right (h : NolInv s) (channels : List UInt8) :
    NolInv (s.sapMarkDfsChannels channels s.now) ∧
      TimesForward s (s.sapMarkDfsChannels channels s.now) := by
  refine ⟨h.sapMarkDfsChannels (UInt64.le_refl _) fun i hon hu => (h.entry i hon.1).past hu,
    fun i hi hin => ?_⟩
  rw [sapMarkDfsChannels_list]
  split
  · exact ⟨mark_radarStatusFlag .., le_mark ((h.entry i hi).past hin.1)⟩
  · exact ⟨hin.1, UInt64.le_refl _⟩

/-- **A refused query** is right exactly if the time it marks with is the latest one of the set. -/
theorem refused_right (h : NolInv s) (ha : Aged s s') {channels : List UInt8}
    (hf : s.firstInNol channels = some f) :
    let time := (s.sapDfsChannelNolList f).radarFoundTimestamp
    let Latest := ∀ i < s.numCurrentRegDomainDfsChannels,
      (s.sapDfsChannelNolList i).dfsChannelNumber ∈ channels →
        (s.sapDfsChannelNolList i).radarStatusFlag = .unavailable →
          (s.sapDfsChannelNolList i).radarFoundTimestamp ≤ time
    (Latest → NolInv (s'.sapMarkDfsChannels channels time) ∧
        TimesForward s (s'.sapMarkDfsChannels channels time)) ∧
      (TimesForward s (s'.sapMarkDfsChannels channels time) → Latest) := by
  intro time Latest
  obtain ⟨hon, hin⟩ := firstInNol_spec hf
  have hnow : time ≤ s.now := (h.entry f hon.1).past hin.1
  refine ⟨fun hl => ⟨?_, fun i hi hin => ?_⟩, fun hfwd i hi hch hu => ?_⟩
  · refine (ha.inv h).sapMarkDfsChannels (ha.now.symm ▸ hnow) fun i hi hu => ?_
    rw [SapDfsInfo.On, ha.num, ha.channel] at hi
    rcases ha.entry i with he | ⟨-, he⟩
    · rw [he] at hu ⊢
      exact hl i hi.1 hi.2 hu
    · rw [he] at hu
      cases hu
  · rw [sapMarkDfsChannels_list, ha.of_inNol hin]
    split
    · next hon' => exact ⟨mark_radarStatusFlag .., le_mark (hl i hi hon'.2 hin.1)⟩
    · exact ⟨hin.1, UInt64.le_refl _⟩
  · -- an entry of a later time is in its period too, and is marked again
    refine UInt64.not_lt.1 fun hlt => ?_
    have hpast := (h.entry i hi).past hu
    have hper : s.now.toNat < time.toNat + _ := ((inNol_iff hnow).1 hin).2
    have hlt' := UInt64.lt_iff_toNat_lt.1 hlt
    have hpast' := UInt64.le_iff_toNat_le.1 hpast
    have hin' : (s.sapDfsChannelNolList i).InNol s.now := (inNol_iff hpast).2 ⟨hu, by omega⟩
    have hnl : ¬ (s.sapDfsChannelNolList i).Listed time :=
      not_listed_of_lt hlt (lt_of_le_of_lt hpast' hper)
    have hle := (hfwd i hi hin').2
    rw [sapMarkDfsChannels_list, ha.of_inNol hin', if_pos ⟨ha.num.symm ▸ le_of_lt hi, hch⟩,
      mark, if_neg hnl] at hle
    exact UInt64.not_lt.2 hle hlt

/-- **A granted query** is right. -/
theorem granted_right (h : NolInv s) {channel : UInt8} {cb : PhyChanBondState}
    (hf : (s.sapDfsIsChannelInNolList channel cb).2 = false) :
    (∀ i, s.On (sapGetBondingChannels channel cb) i → ∀ t ∈ (s.sapDfsChannelNolList i).radars,
        t.toNat + sapDfsNonOccupancyPeriod.toNat ≤ s.now.toNat) ∧
      ∀ ch ∈ sapGetBondingChannels channel cb,
        (s.sapDfsIsChannelInNolList ch .singleChannelCentered).2 = false := by
  have hnone : s.firstInNol (sapGetBondingChannels channel cb) = none := by
    refine eq_none_iff_forall_ne_some.2 fun f hsome => ?_
    obtain ⟨s₁, -, hr⟩ := query_some h.num hsome
    rw [hr] at hf
    cases hf
  rw [firstInNol_eq_none] at hnone
  refine ⟨fun i hi t ht => not_lt.1 fun hp => hnone i hi ((h.entry i hi.1).inNol ht hp),
    fun ch hch => ?_⟩
  have hone : s.firstInNol (sapGetBondingChannels ch .singleChannelCentered) = none := by
    refine firstInNol_eq_none.2 fun i hi => hnone i ⟨hi.1, ?_⟩
    rw [mem_singleton.1 hi.2]
    exact hch
  obtain ⟨s₁, -, hr⟩ := query_none hone
  rw [hr]

end

/-! ### The list -/

section
variable {s s' : SapDfsInfo} {op : NolOp}

theorem SapDfsNolInfo.Ok.of_given {e : SapDfsNolInfo} {now : UInt64}
    (h : e.radarStatusFlag = .unavailable ∧ e.radarFoundTimestamp ≤ now ∧
        e.radars = [e.radarFoundTimestamp] ∨
      e.radarStatusFlag ≠ .unavailable ∧ e.radars = []) : e.Ok now := by
  rcases h with ⟨hu, hle, hr⟩ | ⟨hu, hr⟩
  · refine ⟨fun _ => hle, fun t ht => .inl ⟨hu, ?_⟩⟩
    rw [hr, mem_singleton] at ht
    exact ht ▸ UInt64.le_refl _
  · exact ⟨fun h => absurd h hu, fun t ht => by rw [hr] at ht; cases ht⟩

theorem NolInv.init (hs : sapNolMachine.init s) : NolInv s := by
  obtain ⟨s₀, bFound, regChannels, hg, hlen, rfl⟩ := hs
  -- the entries counted so far are in order, and there are no more than channels
  have hloop : ∀ (l : List (UInt8 × Bool)) (r : SapDfsInfo × Nat),
      (bFound = true → r.1 = s₀) → (∀ i < r.2, (r.1.sapDfsChannelNolList i).Ok r.1.now) →
      let r' := l.foldl (fun r c =>
        if c.2 then
          (if bFound then r.1 else r.1.set r.2
            { dfsChannelNumber := c.1
              radarStatusFlag := .usable
              radarFoundTimestamp := 0
              radars := [] }, r.2 + 1)
        else r) r
      r'.2 ≤ r.2 + l.length ∧ ∀ i < r'.2, (r'.1.sapDfsChannelNolList i).Ok r'.1.now := by
    intro l
    induction l with
    | nil => exact fun r _ hok => ⟨le_refl _, hok⟩
    | cons c l ih =>
      intro r hfound hok
      rw [length_cons]
      cases hc : c.2 with
      | false =>
        simp only [foldl_cons, hc, Bool.false_eq_true, if_false]
        obtain ⟨hle, hok'⟩ := ih r hfound hok
        exact ⟨by omega, hok'⟩
      | true =>
        simp only [foldl_cons, hc, if_true]
        cases bFound with
        | true =>
          simp only [if_true] at ih ⊢
          have hr := hfound rfl
          obtain ⟨hle, hok'⟩ := ih (r.1, r.2 + 1) (fun _ => hr) fun i _ =>
            hr ▸ .of_given (hg rfl i)
          exact ⟨by omega, hok'⟩
        | false =>
          simp only [Bool.false_eq_true, if_false] at ih ⊢
          obtain ⟨hle, hok'⟩ := ih (r.1.set r.2 ⟨c.1, .usable, 0, []⟩, r.2 + 1) nofun fun i hi => by
            by_cases hir : i = r.2
            · subst hir
              simp only [SapDfsInfo.set, update_self]
              exact .of_given (.inr ⟨DfsChanStatus.noConfusion, rfl⟩)
            · simp only [SapDfsInfo.set, update_of_ne hir]
              exact hok i (by omega)
          exact ⟨by omega, hok'⟩
  obtain ⟨hle, hok⟩ := hloop regChannels (s₀, 0) (fun _ => rfl) nofun
  exact ⟨by rw [zero_add] at hle; exact le_trans hle hlen, hok⟩

/-- **A step** is right exactly if it meets the condition for the times. -/
theorem sapNolStep_right_iff (h : NolInv s) (hs : sapNolStep s op = some s') :
    (NolStepRight s op s' ↔ StampOk s op) ∧ (StampOk s op → NolInv s') := by
  have hright : NolInv s' → TimesForward s s' → NolStepRight s op s' :=
    fun hinv hfwd => ⟨hinv.periods, hfwd, fun _ _ _ hf => granted_right h hf⟩
  have hkeeps : NolInv s' → TimesForward s s' → StampOk s op →
      (NolStepRight s op s' ↔ StampOk s op) ∧ (StampOk s op → NolInv s') :=
    fun hinv hfwd hok => ⟨iff_of_true (hright hinv hfwd) hok, fun _ => hinv⟩
  cases op with
  | radar channels =>
    cases hs
    obtain ⟨hinv, hfwd⟩ := @radar_right { s with outside := false } ⟨h.num, h.entry⟩ channels
    exact hkeeps hinv hfwd trivial
  | wait us =>
    obtain ⟨hle, rfl⟩ := guarded_eq_some.1 hs
    have hnow : s.now ≤ s.now + .ofNat us := by
      rw [UInt64.le_iff_toNat_le, UInt64.toNat_add, UInt64.toNat_ofNat']
      omega
    exact hkeeps ⟨h.num, fun i hi => (h.entry i hi).wait hnow⟩
      (fun i _ hin => ⟨hin.1, UInt64.le_refl _⟩) trivial
  | query channel cb =>
    cases hs
    have h₀ : NolInv { s with outside := false } := ⟨h.num, h.entry⟩
    cases hf : s.firstInNol (sapGetBondingChannels channel cb) with
    | none =>
      have hok : StampOk s (.query channel cb) := fun f hsome => by rw [hf] at hsome; cases hsome
      obtain ⟨s₁, ha, hr⟩ := @query_none { s with outside := false } channel cb hf
      rw [hr] at hright hkeeps ⊢
      exact hkeeps (ha.inv h₀) (fun i _ hin => by
        rw [ha.of_inNol hin]
        exact ⟨hin.1, UInt64.le_refl _⟩) hok
    | some f =>
      obtain ⟨s₁, ha, hr⟩ := @query_some { s with outside := false } f channel cb h.num hf
      obtain ⟨hl, hfwd⟩ := @refused_right { s with outside := false } s₁ f h₀ ha _ hf
      have hok : StampOk s (.query channel cb) ↔ _ :=
        ⟨fun hok => hok f hf, fun hl g hg => by
          rw [hf] at hg
          cases hg
          exact hl⟩
      rw [hr] at hright ⊢
      refine ⟨⟨fun hr => hok.2 (hfwd hr.forward), fun hs => ?_⟩, fun hs => (hl (hok.1 hs)).1⟩
      exact hright (hl (hok.1 hs)).1 (hl (hok.1 hs)).2

theorem bondingChannels_ne_nil (channel : UInt8) (cb : PhyChanBondState) :
    sapGetBondingChannels channel cb ≠ [] := by
  cases cb <;> simp [sapGetBondingChannels]

theorem sapNolStep_inside_iff (h : NolInv s) (hs : sapNolStep s op = some s') :
    s'.outside = false ↔ NothingMarked s op := by
  cases op with
  | radar channels =>
    cases hs
    by_cases hch : channels = []
    · subst hch
      exact iff_of_true rfl rfl
    · rw [sapMarkDfsChannels_outside _ _ _ hch]
      exact iff_of_false nofun hch
  | wait us =>
    obtain ⟨-, rfl⟩ := guarded_eq_some.1 hs
    exact iff_of_true rfl trivial
  | query channel cb =>
    cases hs
    cases hf : s.firstInNol (sapGetBondingChannels channel cb) with
    | none =>
      obtain ⟨s₁, ha, hr⟩ := @query_none { s with outside := false } channel cb hf
      rw [hr]
      exact iff_of_true ha.outside hf
    | some f =>
      obtain ⟨s₁, ha, hr⟩ := @query_some { s with outside := false } f channel cb h.num hf
      rw [hr, sapMarkDfsChannels_outside _ _ _ (bondingChannels_ne_nil _ _), NothingMarked, hf]
      exact iff_of_false nofun nofun

theorem reach_nolInv (hs : sapNolMachine.Reach StampOk s) : NolInv s :=
  hs.invariant NolInv (fun _ => NolInv.init)
    fun _ _ _ h hok hstep => (sapNolStep_right_iff h hstep).2 hok

/-- **The non-occupancy list.**  As long as no query puts a time back, whatever is marked, the periods are kept; a step is right exactly if it puts no time back, and comes to no entry outside of the list exactly if nothing is marked. -/
theorem sap_nol_iff (s : SapDfsInfo) (hs : sapNolMachine.Reach StampOk s) :
    PeriodsKept s ∧ ∀ op s', sapNolMachine.step s op = some s' →
      (NolStepRight s op s' ↔ StampOk s op) ∧ (s'.outside = false ↔ NothingMarked s op) := by
  have h := reach_nolInv hs
  exact ⟨h.periods, fun op s' hstep =>
    ⟨(sapNolStep_right_iff h hstep).1, sapNolStep_inside_iff h hstep⟩⟩

end

-- the lists of times are gone through, and not all times there are
instance (s : SapDfsInfo) : Decidable (PeriodsKept s) :=
  @Nat.decidableBallLT s.numCurrentRegDomainDfsChannels
    (fun i _ => ∀ t ∈ (s.sapDfsChannelNolList i).radars,
      s.now.toNat < t.toNat + sapDfsNonOccupancyPeriod.toNat →
        (s.sapDfsChannelNolList i).InNol s.now) fun _ _ => List.decidableBAll _ _

/-- The channels 52 and 56, with no radar so far; the clock shows 1 s. -/
def twoChannels : SapDfsInfo :=
  { numCurrentRegDomainDfsChannels := 0
    sapDfsChannelNolList := fun _ => ⟨0, .usable, 0, []⟩
    now := 1000000
    outside := false : SapDfsInfo }.sapInitDfsChannelNolList false [(52, true), (56, true)]

theorem twoChannels_init : sapNolMachine.init twoChannels :=
  ⟨_, false, _, nofun, by decide, rfl⟩

/-- **A query puts a time back**: radar on 52, ten minutes later on 56, then a query for the two; after twenty more minutes 56 is reported usable.  And marking comes to the entry behind the list. -/
theorem query_puts_time_back :
    (∃ s, sapNolMachine.run twoChannels [.radar [52], .wait 600000000, .radar [56],
        .query 52 .doubleChannelLowPrimary, .wait 1200000000] = some s ∧
      (s.sapDfsIsChannelInNolList 56 .singleChannelCentered).2 = false ∧ ¬ PeriodsKept s) ∧
    ∃ s, sapNolMachine.run twoChannels [.radar [52]] = some s ∧ s.outside = true :=
  ⟨Machine.exists_run (by decide +kernel), _, rfl, sapMarkDfsChannels_outside _ _ _ (by decide)⟩

/-- Radar on both channels; ten minutes later both are refused, after the period both are granted. -/
theorem sap_nol_iff_overlapping :
    ∃ s, sapNolMachine.run twoChannels [.radar [52, 56], .wait 600000000,
        .query 52 .doubleChannelLowPrimary] = some s ∧ PeriodsKept s ∧
      ∀ s', sapNolMachine.step s (.query 56 .singleChannelCentered) = some s' →
        (NolStepRight s (.query 56 .singleChannelCentered) s' ↔
            StampOk s (.query 56 .singleChannelCentered)) ∧
          (s'.outside = false ↔ NothingMarked s (.query 56 .singleChannelCentered)) :=
  Machine.exists_reach_of (q := fun _ => True) twoChannels_init (by decide +kernel)
    (by decide +kernel) fun s hr _ => ⟨(sap_nol_iff s hr).1, (sap_nol_iff s hr).2 _⟩

end Qcacld.Sap

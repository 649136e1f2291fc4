import Mathlib.Order.Monotone.Basic
import Mathlib.Data.List.Basic
import Mathlib.Tactic.IntervalCases

/-!
# Dfs — DfsTimestamp

The 64-bit times that `dfs_process_radarevent` gives to radar pulses.  An event carries the 32-bit counter at the pulse, `re_ts`, and the 64-bit time of its interrupt, `re_full_ts`; the driver keeps a prefix, and advances it by the wraps of the counter that it counts.

It sees that the counter has wrapped by comparing `re_ts` with the last one, of which it keeps 16 bits, and counts the wraps by the interrupts.  `timestamps_unwrap` says when the count is right (`Unwraps`); where the interrupts are as far apart as the pulses, that is when the counter has not wrapped, or once and to a value not above the 16 bits kept, or when it has come back to the value it had, which the 16 bits hold (`unwraps_steady`).
-/

namespace Qcacld.Dfs
open List Nat

/-! ### The time stamps -/

/-- What `dfs_info` keeps of the last event. -/
structure DfsInfo where
  rnLastfullTs : UInt64
  rnLastTs : UInt16
  rnTsPrefix : UInt64

/-- The stamps of a `dfs_event`. -/
structure DfsEvent where
  reFullTs : UInt64
  reTs : UInt32

def dfsTsmask : UInt32 := 0xFFFFFFFF

def dfsTsshift : UInt64 := 32

/-- `deltafull_ts` when the counter is seen to wrap: less the way to the first wrap, when it is longer. -/
def deltafullTs (r : DfsInfo) (re : DfsEvent) : UInt64 :=
  let deltafullTs := re.reFullTs - r.rnLastfullTs
  if deltafullTs > (dfsTsmask - r.rnLastTs.toUInt32).toUInt64 + 1 + re.reTs.toUInt64 then
    -- the sum is one of 32 bits
    deltafullTs - ((dfsTsmask - r.rnLastTs.toUInt32) + 1 + re.reTs).toUInt64
  else deltafullTs

/-- The prefix `dfs_process_radarevent` computes. -/
def tsPrefix (r : DfsInfo) (re : DfsEvent) : UInt64 :=
  if r.rnLastfullTs = 0 then 0
  else if re.reTs ≤ r.rnLastTs.toUInt32 then
    let rnTsPrefix := r.rnTsPrefix + (1 <<< dfsTsshift)
    let deltafullTs := deltafullTs r re >>> dfsTsshift
    if deltafullTs > 1 then rnTsPrefix + ((deltafullTs - 1) <<< dfsTsshift) else rnTsPrefix
  else
    let deltafullTs := re.reFullTs - r.rnLastfullTs
    if deltafullTs > dfsTsmask.toUInt64 then
      let deltafullTs := deltafullTs >>> dfsTsshift
      r.rnTsPrefix + ((deltafullTs - 1) <<< dfsTsshift)
    else r.rnTsPrefix

def DfsInfo.next (r : DfsInfo) (re : DfsEvent) : DfsInfo where
  rnLastfullTs := re.reFullTs
  rnLastTs := re.reTs.toUInt16
  rnTsPrefix := tsPrefix r re

/-- `this_ts` of a chip with TLV reports. -/
def thisTs (r : DfsInfo) (re : DfsEvent) : UInt64 :=
  tsPrefix r re ||| re.reTs.toUInt64

/-! ### The pulse line and the filters -/

def dfsMaxPulseBufferSize : Nat := 1024

def dfsInvalidPriLimit : UInt32 := 100

/-- What an event changes: the stamps, the times in the pulse line, and the low half of the last time. -/
structure DfsPulses where
  rinfo : DfsInfo
  pulses : List UInt64
  testTs : UInt32

/-- Add to the pulse line: when it is full the first goes. -/
def addPulse (pl : List UInt64) (ts : UInt64) : List UInt64 :=
  (if pl.length = dfsMaxPulseBufferSize then pl.tail else pl) ++ [ts]

/-- What `dfs_process_radarevent` does with the time of an event: pulses that are too close clear the line. -/
def dfsProcessEvent (d : DfsPulses) (re : DfsEvent) : DfsPulses :=
  let ts := thisTs d.rinfo re
  let diffTs := ts.toUInt32 - d.testTs
  { rinfo := d.rinfo.next re
    pulses := if diffTs < dfsInvalidPriLimit then addPulse [] ts else addPulse d.pulses ts
    testTs := ts.toUInt32 }

def dfsTsfWrap : UInt64 := 0xFFFFFFFFFFFFFFFF

/-- The PRI a filter is given, whose delay line was last updated at `dlLastTs`. -/
def filterDeltaT (thisTs dlLastTs : UInt64) : UInt64 :=
  if thisTs < dlLastTs then (dfsTsfWrap - dlLastTs) + thisTs + 1 else thisTs - dlLastTs

/-- `dfs_attach`: all zeros. -/
def DfsPulses.attached : DfsPulses where
  rinfo := ⟨0, 0, 0⟩
  pulses := []
  testTs := 0

/-! ### Pulses and their events -/

/-- A radar pulse: its true time, and how much later the interrupt is. -/
structure RadarPulse where
  time : Nat
  latency : Nat
  inRange : time + latency < 2 ^ 64

open RadarPulse

namespace RadarPulse

def fullTs (p : RadarPulse) : Nat := p.time + p.latency

def lowTs (p : RadarPulse) : Nat := p.time % 2 ^ 32

/-- What `rn_last_ts` keeps of it. -/
def lastTs (p : RadarPulse) : Nat := p.time % 2 ^ 16

def event (p : RadarPulse) : DfsEvent where
  reFullTs := .ofNat p.fullTs
  reTs := .ofNat p.time

/-- The wraps of the counter between two pulses. -/
def wraps (p q : RadarPulse) : Nat := q.time / 2 ^ 32 - p.time / 2 ^ 32

def gap (p q : RadarPulse) : Nat := (q.fullTs + (2 ^ 64 - p.fullTs)) % 2 ^ 64

/-- The periods of the counter between the interrupts, from the first wrap on, when the counter wraps to a value below the 16 bits kept. -/
def periods (p q : RadarPulse) : Nat :=
  if q.lowTs < p.lastTs then (p.gap q + (p.lastTs - q.lowTs)) / 2 ^ 32 - 1
  else p.gap q / 2 ^ 32

end RadarPulse

/-- **The condition.**  When the wraps between two pulses are counted right. -/
inductive Unwraps (p q : RadarPulse) : Prop where
  /-- there is none, and the interrupts are less than two periods apart -/
  | noWrap (h : p.wraps q = 0) (hg : p.fullTs = 0 ∨ p.gap q < 2 ^ 33)
  /-- there is one, and the counter is not above the 16 bits kept -/
  | oneWrap (h : p.wraps q = 1) (hf : p.fullTs ≠ 0) (hs : q.lowTs ≤ p.lastTs)
      (hg : p.periods q ≤ 1)
  /-- there are more, as many as periods from the first on -/
  | moreWraps (h : 1 < p.wraps q) (hf : p.fullTs ≠ 0) (hs : q.lowTs ≤ p.lastTs)
      (hg : p.periods q = p.wraps q)
  /-- the counter is above the 16 bits kept, and the interrupts are a period too far apart -/
  | hidden (h : 0 < p.wraps q) (hf : p.fullTs ≠ 0) (hs : p.lastTs < q.lowTs)
      (hg : p.gap q / 2 ^ 32 = p.wraps q + 1)

/-- The pulses come in the order of their times, up to pulse `n`. -/
def InOrder (p : Nat → RadarPulse) (n : Nat) : Prop :=
  ∀ i j, i < j → j ≤ n → (p i).time < (p j).time

/-- The driver after the first `n` pulses of a sequence. -/
def pulsesAfter (p : Nat → RadarPulse) : Nat → DfsPulses
  | 0 => .attached
  | n + 1 => dfsProcessEvent (pulsesAfter p n) (p n).event

/-- The time it gives to pulse `n`. -/
def pulseTs (p : Nat → RadarPulse) (n : Nat) : UInt64 :=
  thisTs (pulsesAfter p n).rinfo (p n).event

/-! ### The wraps counted -/

section
variable {r : DfsInfo} {p q : RadarPulse}

/-- `r` is what pulse `p` has left. -/
structure DfsInfo.Follows (r : DfsInfo) (p : RadarPulse) : Prop where
  lastfull : r.rnLastfullTs.toNat = p.fullTs
  last : r.rnLastTs.toNat = p.lastTs
  whole : r.rnTsPrefix.toNat % 2 ^ 32 = 0

/-- The wraps `tsPrefix` counts. -/
def RadarPulse.counted (p q : RadarPulse) : Nat :=
  if q.lowTs ≤ p.lastTs then max 1 (p.periods q) else p.gap q / 2 ^ 32 - 1

@[simp] theorem RadarPulse.event_fullTs (p : RadarPulse) : p.event.reFullTs.toNat = p.fullTs := by
  have := p.inRange
  simp only [event, fullTs, UInt64.toNat_ofNat', mod_eq_of_lt this]

@[simp] theorem RadarPulse.event_ts (p : RadarPulse) : p.event.reTs.toNat = p.lowTs := by
  simp [event, lowTs]

theorem RadarPulse.lowTs_lt (p : RadarPulse) : p.lowTs < 2 ^ 32 := mod_lt _ (by decide)

theorem RadarPulse.lastTs_lt (p : RadarPulse) : p.lastTs < 2 ^ 16 := mod_lt _ (by decide)

theorem RadarPulse.gap_lt (p q : RadarPulse) : p.gap q < 2 ^ 64 := mod_lt _ (by decide)

theorem deltafull_toNat (h : r.Follows p) :
    (q.event.reFullTs - r.rnLastfullTs).toNat = p.gap q := by
  rw [UInt64.toNat_sub, h.lastfull, q.event_fullTs, gap, add_comm]

theorem wrapSeen_iff (h : r.Follows p) :
    q.event.reTs ≤ r.rnLastTs.toUInt32 ↔ q.lowTs ≤ p.lastTs := by
  rw [UInt32.le_iff_toNat_le, q.event_ts, UInt16.toNat_toUInt32, h.last]

theorem firstWrap_toNat (h : r.Follows p) :
    ((dfsTsmask - r.rnLastTs.toUInt32).toUInt64 + 1 + q.event.reTs.toUInt64).toNat
      = 2 ^ 32 - p.lastTs + q.lowTs := by
  have hp := p.lastTs_lt
  have hq := q.lowTs_lt
  simp only [UInt64.toNat_add, UInt32.toNat_toUInt64, UInt32.toNat_sub, UInt16.toNat_toUInt32,
    h.last, q.event_ts, dfsTsmask, UInt32.reduceToNat, UInt64.reduceToNat]
  omega

theorem firstWrap32_toNat (h : r.Follows p) (hs : q.lowTs ≤ p.lastTs) :
    ((dfsTsmask - r.rnLastTs.toUInt32) + 1 + q.event.reTs).toUInt64.toNat
      = if q.lowTs < p.lastTs then 2 ^ 32 - p.lastTs + q.lowTs else 0 := by
  have hq := q.lowTs_lt
  simp only [UInt32.toNat_add, UInt32.toNat_toUInt64, UInt32.toNat_sub, UInt16.toNat_toUInt32,
    h.last, q.event_ts, dfsTsmask, UInt32.reduceToNat]
  split <;> omega

@[simp] theorem shift_toNat (d : UInt64) : (d >>> dfsTsshift).toNat = d.toNat / 2 ^ 32 := by
  rw [UInt64.toNat_shiftRight, dfsTsshift, shiftRight_eq_div_pow]
  rfl

/-- A prefix advanced by `n` periods. -/
theorem advance_toNat (x n : UInt64) :
    (x + (n <<< dfsTsshift)).toNat = (x.toNat + 2 ^ 32 * n.toNat) % 2 ^ 64 := by
  rw [UInt64.toNat_add, UInt64.toNat_shiftLeft, dfsTsshift, shiftLeft_eq]
  simp only [UInt64.reduceToNat, reduceMod, reducePow]
  omega

theorem deltafullTs_periods (h : r.Follows p) (hs : q.lowTs ≤ p.lastTs) :
    (deltafullTs r q.event >>> dfsTsshift).toNat = p.periods q := by
  have hp := p.lastTs_lt
  have hg := p.gap_lt q
  rw [shift_toNat, deltafullTs]
  split
  · next hd =>
    rw [gt_iff_lt, UInt64.lt_iff_toNat_lt, firstWrap_toNat h, deltafull_toNat h] at hd
    rw [UInt64.toNat_sub, firstWrap32_toNat h hs, deltafull_toNat h, periods]
    split <;> omega
  · next hd =>
    rw [gt_iff_lt, UInt64.lt_iff_toNat_lt, firstWrap_toNat h, deltafull_toNat h] at hd
    rw [deltafull_toNat h, periods]
    split <;> omega

theorem tsPrefix_toNat (h : r.Follows p) (hf : p.fullTs ≠ 0) :
    (tsPrefix r q.event).toNat = (r.rnTsPrefix.toNat + 2 ^ 32 * p.counted q) % 2 ^ 64 := by
  have hf' : r.rnLastfullTs ≠ 0 := by
    intro h0
    exact hf (by rw [← h.lastfull, h0]; rfl)
  have hr := r.rnTsPrefix.toNat_lt
  rw [tsPrefix, if_neg hf', counted]
  by_cases hs : q.lowTs ≤ p.lastTs
  · rw [if_pos ((wrapSeen_iff h).2 hs), if_pos hs]
    dsimp only
    have hc := deltafullTs_periods h hs
    split
    · next hc1 =>
      rw [gt_iff_lt, UInt64.lt_iff_toNat_lt, hc, UInt64.toNat_one] at hc1
      rw [advance_toNat, advance_toNat, UInt64.toNat_sub_of_le _ _ (by
        rw [UInt64.le_iff_toNat_le, hc]; exact hc1.le), hc, UInt64.toNat_one, max_eq_right hc1.le]
      omega
    · next hc1 =>
      rw [gt_iff_lt, UInt64.lt_iff_toNat_lt, hc, UInt64.toNat_one] at hc1
      rw [advance_toNat, UInt64.toNat_one, max_eq_left (not_lt.1 hc1)]
  · rw [if_neg (mt (wrapSeen_iff h).1 hs), if_neg hs]
    dsimp only
    split
    · next hd =>
      rw [gt_iff_lt, UInt64.lt_iff_toNat_lt, deltafull_toNat h] at hd
      rw [advance_toNat, UInt64.toNat_sub_of_le, shift_toNat, deltafull_toNat h]
      · rfl
      · rw [UInt64.le_iff_toNat_le, shift_toNat, deltafull_toNat h]
        simp [dfsTsmask] at hd ⊢
        omega
    · next hd =>
      rw [gt_iff_lt, UInt64.lt_iff_toNat_lt, deltafull_toNat h] at hd
      simp [dfsTsmask] at hd
      omega

theorem tsPrefix_blank (h : r.Follows p) (hf : p.fullTs = 0) : tsPrefix r q.event = 0 := by
  rw [tsPrefix, if_pos]
  exact UInt64.toNat.inj (h.lastfull.trans hf)

theorem tsPrefix_whole (h : r.Follows p) : (tsPrefix r q.event).toNat % 2 ^ 32 = 0 := by
  by_cases hf : p.fullTs = 0
  · rw [tsPrefix_blank h hf]; rfl
  · have hw := h.whole
    rw [tsPrefix_toNat h hf]
    omega

theorem thisTs_toNat (hw : (tsPrefix r q.event).toNat % 2 ^ 32 = 0) :
    (thisTs r q.event).toNat = (tsPrefix r q.event).toNat + q.lowTs := by
  obtain ⟨k, hk⟩ := dvd_of_mod_eq_zero hw
  rw [thisTs, UInt64.toNat_or, UInt32.toNat_toUInt64, q.event_ts, hk,
    ← two_pow_add_eq_or_of_lt q.lowTs_lt]

theorem DfsInfo.next_follows (hw : (tsPrefix r p.event).toNat % 2 ^ 32 = 0) :
    (r.next p.event).Follows p where
  lastfull := p.event_fullTs
  last := by
    show p.event.reTs.toUInt16.toNat = _
    rw [UInt32.toNat_toUInt16, p.event_ts, lowTs, lastTs]
    omega
  whole := hw

theorem RadarPulse.time_sub (p q : RadarPulse) (hlt : p.time < q.time) :
    q.time - p.time + p.lowTs = 2 ^ 32 * p.wraps q + q.lowTs := by
  rw [lowTs, lowTs, wraps]
  omega

theorem unwraps_iff_counted (hlt : p.time < q.time) (hf : p.fullTs ≠ 0) :
    Unwraps p q ↔ p.counted q = p.wraps q := by
  have hp : p.lastTs ≤ p.time % 2 ^ 32 := by rw [lastTs]; omega
  constructor
  · rintro (⟨h, hg⟩ | ⟨h, -, hs, hg⟩ | ⟨h, -, hs, hg⟩ | ⟨h, -, hs, hg⟩)
    · have hs : ¬ q.lowTs ≤ p.lastTs := by rw [wraps] at h; rw [lowTs]; omega
      rw [counted, if_neg hs, h]
      have := hg.resolve_left hf
      omega
    · rw [counted, if_pos hs, h, max_eq_left hg]
    · rw [counted, if_pos hs, hg, max_eq_right h.le]
    · rw [counted, if_neg (not_le.2 hs), hg, Nat.add_sub_cancel]
  · intro hc
    rw [counted] at hc
    split at hc
    · next hs =>
      rcases (le_max_left 1 (p.periods q)).eq_or_lt with h1 | h1
      · exact .oneWrap (hc ▸ h1.symm) hf hs (h1 ▸ le_max_right _ _)
      · have hm : max 1 (p.periods q) = p.periods q := by
          rcases max_choice 1 (p.periods q) with hm | hm
          · exact absurd hm h1.ne'
          · exact hm
        exact .moreWraps (hc ▸ h1) hf hs (hm ▸ hc)
    · next hs =>
      rcases Nat.eq_zero_or_pos (p.wraps q) with h0 | h0
      · exact .noWrap h0 (Or.inr (by omega))
      · exact .hidden h0 hf (not_le.1 hs) (by omega)

theorem unwraps_iff_noWrap (hf : p.fullTs = 0) : Unwraps p q ↔ p.wraps q = 0 := by
  constructor
  · rintro (⟨h, -⟩ | ⟨-, hf', -⟩ | ⟨-, hf', -⟩ | ⟨-, hf', -⟩)
    · exact h
    all_goals exact absurd hf hf'
  · exact fun h => .noWrap h (Or.inl hf)

theorem RadarPulse.counted_lt (p q : RadarPulse) : p.counted q < 2 ^ 32 := by
  have hg := p.gap_lt q
  have hp := p.lastTs_lt
  rw [counted, periods]
  split
  · split <;> omega
  · omega

/-- Times that differ by whole periods and the counters differ by as much as these say. -/
theorem diff_iff {ts ts' : UInt64} {x c : Nat} (hx : x < 2 ^ 64) (hw : x % 2 ^ 32 = 0)
    (hc : c < 2 ^ 32) (hlt : p.time < q.time) (h : ts.toNat = x + p.lowTs)
    (h' : ts'.toNat = (x + 2 ^ 32 * c) % 2 ^ 64 + q.lowTs) :
    ts' - ts = .ofNat (q.time - p.time) ↔ c = p.wraps q := by
  have hd := p.time_sub q hlt
  have hp := p.lowTs_lt
  have hr := q.inRange
  have hwr : p.wraps q < 2 ^ 32 := by rw [wraps]; omega
  rw [← UInt64.toNat_inj, UInt64.toNat_sub, h, h', UInt64.toNat_ofNat']
  omega

/-- **One event.**  The difference of two times given is right under the condition. -/
theorem thisTs_sub_iff (hw : (tsPrefix r p.event).toNat % 2 ^ 32 = 0)
    (h0 : p.fullTs = 0 → tsPrefix r p.event = 0) (hlt : p.time < q.time) :
    thisTs (r.next p.event) q.event - thisTs r p.event = .ofNat (q.time - p.time)
      ↔ Unwraps p q := by
  have hF := DfsInfo.next_follows hw
  have hq := thisTs_toNat (tsPrefix_whole (q := q) hF)
  by_cases hf : p.fullTs = 0
  · rw [unwraps_iff_noWrap hf, diff_iff (x := 0) (c := 0) (by decide) rfl (by decide) hlt, eq_comm]
    · rw [thisTs_toNat hw, h0 hf]; rfl
    · rw [hq, tsPrefix_blank hF hf]; rfl
  · rw [unwraps_iff_counted hlt hf]
    refine diff_iff (tsPrefix r p.event).toNat_lt hw (p.counted_lt q) hlt (thisTs_toNat hw) ?_
    rw [hq, tsPrefix_toNat hF hf]
    rfl

end

/-! ### A sequence of pulses -/

section
variable {p : Nat → RadarPulse} {n : Nat}

theorem InOrder.first_le (ht : InOrder p n) {i : Nat} (hi : i ≤ n) : (p 0).time ≤ (p i).time := by
  rcases Nat.eq_zero_or_pos i with rfl | h0
  · exact le_rfl
  · exact (ht 0 i h0 hi).le

theorem pulsesAfter_whole (p : Nat → RadarPulse) (n : Nat) :
    (tsPrefix (pulsesAfter p n).rinfo (p n).event).toNat % 2 ^ 32 = 0 := by
  induction n with
  | zero => rfl
  | succ n ih => exact tsPrefix_whole (DfsInfo.next_follows ih)

theorem pulsesAfter_blank (ht : InOrder p n)
    (hf : (p n).fullTs = 0) : tsPrefix (pulsesAfter p n).rinfo (p n).event = 0 := by
  cases n with
  | zero => rfl
  | succ n =>
    have := ht n (n + 1) n.lt_succ_self le_rfl
    rw [fullTs] at hf
    omega

theorem pulseTs_sub_iff {k : Nat} (ht : InOrder p n) (hk : k < n) :
    pulseTs p (k + 1) - pulseTs p k = .ofNat ((p (k + 1)).time - (p k).time)
      ↔ Unwraps (p k) (p (k + 1)) :=
  thisTs_sub_iff (pulsesAfter_whole p k)
    (pulsesAfter_blank fun i j hij hj => ht i j hij (hj.trans hk.le)) (ht k _ k.lt_succ_self hk)

/-- Where all is counted right the times given are the true ones, less the periods before the first. -/
theorem pulseTs_toNat {k : Nat} (ht : InOrder p n) (h : ∀ k < n, Unwraps (p k) (p (k + 1)))
    (hk : k ≤ n) : (pulseTs p k).toNat = (p k).time - 2 ^ 32 * ((p 0).time / 2 ^ 32) := by
  induction k with
  | zero =>
    have h0 : (pulseTs p 0).toNat = (p 0).lowTs := by
      rw [pulseTs, thisTs_toNat (pulsesAfter_whole p 0)]
      exact zero_add _
    rw [h0, lowTs]
    omega
  | succ k ih =>
    have hd := congrArg UInt64.toNat ((pulseTs_sub_iff ht hk).2 (h k hk))
    have hlt := ht k (k + 1) k.lt_succ_self hk
    have hr := (p (k + 1)).inRange
    have h0 := ht.first_le (le_of_lt hk)
    have hts := (pulseTs p (k + 1)).toNat_lt
    rw [UInt64.toNat_sub, ih (le_of_lt hk), UInt64.toNat_ofNat'] at hd
    omega

theorem pulseTs_lt {i j : Nat} (ht : InOrder p n) (h : ∀ k < n, Unwraps (p k) (p (k + 1)))
    (hij : i < j) (hj : j ≤ n) : pulseTs p i < pulseTs p j := by
  have hlt := ht i j hij hj
  have h0 := ht.first_le (hij.le.trans hj)
  rw [UInt64.lt_iff_toNat_lt, pulseTs_toNat ht h (hij.le.trans hj), pulseTs_toNat ht h hj]
  omega

theorem filterDeltaT_of_lt {x y : UInt64} (h : x < y) : filterDeltaT y x = y - x :=
  if_neg (UInt64.not_lt.2 (UInt64.le_of_lt h))

theorem mem_addPulse {pl : List UInt64} {x ts : UInt64} (h : x ∈ addPulse pl ts) :
    x ∈ pl ∨ x = ts := by
  rw [addPulse, mem_append, mem_singleton] at h
  refine h.imp_left fun h => ?_
  split at h
  · exact mem_of_mem_tail h
  · exact h

theorem addPulse_increasing {pl : List UInt64} {ts : UInt64} (h : pl.Pairwise (· < ·))
    (hts : ∀ x ∈ pl, x < ts) : (addPulse pl ts).Pairwise (· < ·) := by
  rw [addPulse, pairwise_append]
  split
  · refine ⟨h.tail, pairwise_singleton _ _, fun x hx y hy => ?_⟩
    exact mem_singleton.1 hy ▸ hts x (mem_of_mem_tail hx)
  · exact ⟨h, pairwise_singleton _ _, fun x hx y hy => mem_singleton.1 hy ▸ hts x hx⟩

theorem mem_pulses {x : UInt64} {n : Nat} (h : x ∈ (pulsesAfter p n).pulses) :
    ∃ k < n, x = pulseTs p k := by
  induction n with
  | zero => nomatch h
  | succ n ih =>
    rw [pulsesAfter, dfsProcessEvent] at h
    split at h
    · rcases mem_addPulse h with h | h
      · nomatch h
      · exact ⟨n, n.lt_succ_self, h⟩
    · rcases mem_addPulse h with h | h
      · obtain ⟨k, hk, hx⟩ := ih h
        exact ⟨k, hk.trans n.lt_succ_self, hx⟩
      · exact ⟨n, n.lt_succ_self, h⟩

theorem pulses_increasing {m : Nat} (ht : InOrder p n) (h : ∀ k < n, Unwraps (p k) (p (k + 1)))
    (hm : m ≤ n + 1) : (pulsesAfter p m).pulses.Pairwise (· < ·) := by
  induction m with
  | zero => exact .nil
  | succ m ih =>
    rw [pulsesAfter, dfsProcessEvent]
    split
    · exact addPulse_increasing .nil fun x hx => nomatch hx
    · refine addPulse_increasing (ih (le_of_lt hm)) fun x hx => ?_
      obtain ⟨k, hk, rfl⟩ := mem_pulses hx
      exact pulseTs_lt ht h hk (le_of_lt_succ hm)

/-- What the detection relies on, for the first `n + 1` pulses. -/
structure TimesTrue (p : Nat → RadarPulse) (n : Nat) : Prop where
  /-- successive times differ as the pulses do -/
  steps : ∀ k < n, pulseTs p (k + 1) - pulseTs p k = .ofNat ((p (k + 1)).time - (p k).time)
  /-- the pulse line is increasing -/
  line : (pulsesAfter p (n + 1)).pulses.Pairwise (· < ·)
  /-- a filter that last saw pulse `i` is given the true PRI at pulse `j` -/
  pri : ∀ i j, i < j → j ≤ n →
    filterDeltaT (pulseTs p j) (pulseTs p i) = .ofNat ((p j).time - (p i).time)

/-- **The times are unwrapped right** exactly when the wraps between any two successive pulses
are counted right. -/
theorem timestamps_unwrap (p : Nat → RadarPulse) (n : Nat) (ht : InOrder p n) :
    TimesTrue p n ↔ ∀ k < n, Unwraps (p k) (p (k + 1)) := by
  refine ⟨fun h k hk => (pulseTs_sub_iff ht hk).1 (h.steps k hk), fun h => ?_⟩
  refine ⟨fun k hk => (pulseTs_sub_iff ht hk).2 (h k hk), pulses_increasing ht h le_rfl, ?_⟩
  intro i j hij hj
  have h0 := ht.first_le (hij.le.trans hj)
  have hlt := ht i j hij hj
  have hr := (p j).inRange
  rw [filterDeltaT_of_lt (pulseTs_lt ht h hij hj), ← UInt64.toNat_inj, UInt64.toNat_sub,
    pulseTs_toNat ht h hj, pulseTs_toNat ht h (hij.le.trans hj), UInt64.toNat_ofNat']
  omega

/-- Three pulses, the last after the counter has wrapped. -/
def lateWrap : Nat → RadarPulse
  | 0 => ⟨2 ^ 31, 0, by decide⟩
  | 1 => ⟨2 ^ 32 - 2 ^ 16, 0, by decide⟩
  | k + 2 => ⟨if k = 0 then 2 ^ 32 + 1 else 0, 0, by split <;> decide⟩

theorem lateWrap_inOrder : InOrder lateWrap 2 := by
  intro i j hij hj
  interval_cases j <;> interval_cases i <;> decide

/-- The 16 bits kept are zero: the wrap is not seen, and the third pulse comes before the second. -/
theorem late_wrap_goes_back : InOrder lateWrap 2 ∧ ¬ TimesTrue lateWrap 2
    ∧ pulseTs lateWrap 2 < pulseTs lateWrap 1 :=
  ⟨lateWrap_inOrder, fun h => absurd (h.steps 1 (by decide)) (by decide), by decide⟩

/-- Three pulses, the last after a wrap that is seen. -/
def seenWrap : Nat → RadarPulse
  | 0 => ⟨2 ^ 31, 0, by decide⟩
  | 1 => ⟨2 ^ 32 - 1, 50, by decide⟩
  | k + 2 => ⟨if k = 0 then 2 ^ 32 + 1000 else 0, 10, by split <;> decide⟩

theorem timestamps_unwrap_seenWrap : TimesTrue seenWrap 2 := by
  refine (timestamps_unwrap seenWrap 2 fun i j hij hj => ?_).2 fun k hk => ?_
  · interval_cases j <;> interval_cases i <;> decide
  · interval_cases k
    · exact .noWrap (by decide) (Or.inr (by decide))
    · exact .oneWrap (by decide) (by decide) (by decide) (by decide)

end

end Qcacld.Dfs

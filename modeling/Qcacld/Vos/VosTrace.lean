import Qcacld.Support.Ring
import Qcacld.Support.Runs

/-!
# Vos — VosTrace

The trace of the driver: `vos_trace` records into a ring of `MAX_VOS_TRACE_RECORDS` slots, `vosTraceDumpAll` gives what it holds to the callbacks of the modules.  `Window` says what the cursors mean, and `vosTrace_dumps` that they always do and what a dump visits.
-/

namespace Qcacld.Vos.Trace
open Qcacld.Support List

def maxVosTraceRecords : ℕ := 4000

def invalidVosTraceAddr : ℕ := 0xffffffff

def vosModuleIdMax : ℕ := 21

structure TraceRecord where
  time : String
  moduleId : ℕ
  code : ℕ
  session : ℕ
  data : ℕ
  pid : ℕ

/-- `gvosTraceData`, the ring, and which callbacks of the modules are not `NULL`. -/
structure TraceData where
  head : ℕ
  tail : ℕ
  num : ℕ
  numSinceLastDump : ℕ
  enable : Bool
  vosTraceTbl : ℕ → TraceRecord
  cbTable : ℕ → Bool
  restoreCbTable : ℕ → Bool

namespace TraceData

/-- The ring keeps what it held. -/
def vosTraceInit (t : TraceData) : TraceData :=
  { t with
    head := invalidVosTraceAddr
    tail := invalidVosTraceAddr
    num := 0
    enable := true
    numSinceLastDump := 0
    cbTable := fun _ => false
    restoreCbTable := fun _ => false }

def vosTraceRegister (t : TraceData) (moduleId : ℕ) (cb : Bool) : TraceData :=
  { t with cbTable := Function.update t.cbTable moduleId cb }

def vosTraceEnable (t : TraceData) (bitmask : ℕ) (enable : Bool) : TraceData :=
  let chosen i := decide (i < vosModuleIdMax) && (bitmask == 0 || bitmask.testBit i)
  if enable then
    { t with cbTable := fun i => t.cbTable i || chosen i && t.restoreCbTable i }
  else
    { t with
      restoreCbTable := fun i => if chosen i then t.cbTable i else t.restoreCbTable i
      cbTable := fun i => !chosen i && t.cbTable i }

/-- The next slot: both cursors wrap by comparison. -/
def nextSlot (i : ℕ) : ℕ := if maxVosTraceRecords = i + 1 then 0 else i + 1

/-- The cursors of the record that is about to be written. -/
def advance (t : TraceData) : TraceData :=
  let t := { t with
    num := if t.num + 1 > maxVosTraceRecords then maxVosTraceRecords else t.num + 1 }
  if t.head = invalidVosTraceAddr then { t with head := 0, tail := 0 }
  else
    let tail := nextSlot t.tail
    { t with head := if t.head = tail then nextSlot t.head else t.head, tail := tail }

/-- Whether `vos_trace` records for the module at all. -/
def records (t : TraceData) (rec : TraceRecord) : Bool := t.enable && t.cbTable rec.moduleId

def vosTrace (t : TraceData) (rec : TraceRecord) : TraceData :=
  if t.records rec then
    let t := t.advance
    { t with
      vosTraceTbl := Function.update t.vosTraceTbl t.tail rec
      numSinceLastDump := (t.numSinceLastDump + 1) % 2 ^ 16 }
  else t

/-- Where a dump starts; `tail + 1 - count` is not negative where it is taken. -/
def dumpStart (t : TraceData) (count : ℕ) : ℕ :=
  if count = 0 then t.head
  else
    let count := if count > t.num then t.num else count
    if t.tail ≥ count - 1 then t.tail + 1 - count
    else if count ≠ maxVosTraceRecords then maxVosTraceRecords - (count - 1 - t.tail)
    else t.head

/-- `for (;;)` up to the slot `tail`: the slots it visits. -/
def dumpLoop (tail : ℕ) : ℕ → ℕ → Option (List ℕ)
  | 0, _ => none
  | fuel + 1, i =>
    if i = tail then some [i] else (dumpLoop tail fuel (nextSlot i)).map fun l => i :: l

/-- Whether the record is given to the callback of its module. -/
def shown (t : TraceData) (code bitmask : ℕ) (rec : TraceRecord) : Bool :=
  (code == 0 || code == rec.code) && t.cbTable rec.moduleId &&
    (bitmask == 0 || bitmask.testBit rec.moduleId)

/-- The slots visited, and the records given to callbacks with their slots.  `none` is a loop that has not ended after as many slots as there are. -/
def vosTraceDumpAll (t : TraceData) (code _session count bitmask : ℕ) :
    Option (TraceData × List ℕ × List (TraceRecord × ℕ)) :=
  if t.enable && t.head != invalidVosTraceAddr then
    (dumpLoop t.tail maxVosTraceRecords (t.dumpStart count)).map fun slots =>
      ({ t with numSinceLastDump := 0 }, slots,
        (slots.map fun i => (t.vosTraceTbl i, i)).filter fun r => t.shown code bitmask r.1)
  else some (t, [], [])

/-! ### What the cursors mean -/

/-- What the cursors are to mean when `written` has been recorded, oldest first. -/
structure Window (t : TraceData) (written : List TraceRecord) : Prop where
  num_eq : t.num = min written.length maxVosTraceRecords
  held : (ringIdxs maxVosTraceRecords t.head t.num).map t.vosTraceTbl =
    written.drop (written.length - t.num)
  empty : t.head = invalidVosTraceAddr ↔ written = []
  cursors : written ≠ [] → t.head < maxVosTraceRecords ∧ t.tail < maxVosTraceRecords ∧
    (t.head + t.num) % maxVosTraceRecords = nextSlot t.tail

end TraceData

/-- What can happen to the trace. -/
inductive TraceEvent where
  | trace (rec : TraceRecord)
  | register (moduleId : ℕ) (cb : Bool)
  | enable (bitmask : ℕ) (on : Bool)
  | dump (code session count bitmask : ℕ)

/-- The trace from its initialisation on, with what has been recorded since. -/
def traceMachine : Machine (TraceData × List TraceRecord) TraceEvent where
  init s := s.2 = [] ∧ ∃ t : TraceData, s.1 = t.vosTraceInit
  step s e :=
    match e with
    | .trace rec => some (s.1.vosTrace rec, if s.1.records rec then s.2 ++ [rec] else s.2)
    | .register moduleId cb => some (s.1.vosTraceRegister moduleId cb, s.2)
    | .enable bitmask on => some (s.1.vosTraceEnable bitmask on, s.2)
    | .dump code session count bitmask =>
      (s.1.vosTraceDumpAll code session count bitmask).map fun d => (d.1, s.2)

namespace TraceData

variable {t t' : TraceData} {written : List TraceRecord} {i d fuel : ℕ}

theorem nextSlot_eq (hi : i < maxVosTraceRecords) : nextSlot i = (i + 1) % maxVosTraceRecords := by
  unfold nextSlot maxVosTraceRecords at *
  split <;> omega

/-- **The loop of a dump.**  From a slot that `tail` is `d` ahead of it visits these slots and ends. -/
theorem dumpLoop_eq (hi : i < maxVosTraceRecords) (hd : d < maxVosTraceRecords) (hf : d < fuel) :
    dumpLoop ((i + d) % maxVosTraceRecords) fuel i =
      some (ringIdxs maxVosTraceRecords i (d + 1)) := by
  induction d generalizing i fuel with
  | zero =>
    obtain ⟨fuel, rfl⟩ : ∃ m, fuel = m + 1 := ⟨fuel - 1, by omega⟩
    rw [Nat.add_zero, Nat.mod_eq_of_lt hi, dumpLoop, if_pos rfl, ringIdxs_succ hi, ringIdxs_zero]
  | succ d ih =>
    obtain ⟨fuel, rfl⟩ : ∃ m, fuel = m + 1 := ⟨fuel - 1, by omega⟩
    have hne : i ≠ (i + (d + 1)) % maxVosTraceRecords := by
      unfold maxVosTraceRecords at *
      omega
    have hstop : (i + (d + 1)) % maxVosTraceRecords =
        ((i + 1) % maxVosTraceRecords + d) % maxVosTraceRecords := by
      rw [Nat.mod_add_mod, Nat.add_assoc, Nat.add_comm 1]
    have hlt : (i + 1) % maxVosTraceRecords < maxVosTraceRecords := Nat.mod_lt _ (by decide)
    rw [dumpLoop, if_neg hne, nextSlot_eq hi, hstop, ih hlt (by omega) (by omega),
      Option.map_some, ringIdxs_succ hi]

theorem Window.num_le (h : t.Window written) : t.num ≤ maxVosTraceRecords := by
  rw [h.num_eq]
  exact Nat.min_le_right _ _

theorem Window.num_pos (h : t.Window written) (hw : written ≠ []) : 0 < t.num := by
  have := length_pos_iff.2 hw
  rw [h.num_eq]
  exact Nat.lt_min.2 ⟨this, by decide⟩

theorem advance_num : t.advance.num =
    if t.num + 1 > maxVosTraceRecords then maxVosTraceRecords else t.num + 1 := by
  simp only [advance]
  split <;> rfl

theorem advance_head (h : t.Window written) (hw : written ≠ []) : t.advance.head =
      if t.num = maxVosTraceRecords then (t.head + 1) % maxVosTraceRecords else t.head := by
  obtain ⟨hhead, htail, hnext⟩ := h.cursors hw
  have hne : t.head ≠ invalidVosTraceAddr := fun e => hw (h.empty.1 e)
  have hle := h.num_le
  have hpos := h.num_pos hw
  have hfull : t.head = nextSlot t.tail ↔ t.num = maxVosTraceRecords := by
    rw [← hnext]
    unfold maxVosTraceRecords at *
    omega
  simp [advance, hne, hfull, nextSlot_eq hhead]

/-- **What the cursors are moved to.**  The record goes to the slot after those that are kept. -/
theorem Window.advance (h : t.Window written) :
    t.advance.num = min (written.length + 1) maxVosTraceRecords ∧
      Spans maxVosTraceRecords t.advance.head t.advance.tail (t.advance.num - 1) ∧
      (ringIdxs maxVosTraceRecords t.advance.head (t.advance.num - 1)).map t.vosTraceTbl =
        written.drop (written.length + 1 - t.advance.num) := by
  have hnum : t.advance.num = min (t.num + 1) maxVosTraceRecords := by
    rw [advance_num]
    split <;> omega
  have hlen : t.advance.num = min (written.length + 1) maxVosTraceRecords := by
    have := h.num_eq
    omega
  refine ⟨hlen, ?_⟩
  rcases eq_or_ne written [] with rfl | hw
  · have hhead := h.empty.2 rfl
    have hadv : t.advance.head = 0 ∧ t.advance.tail = 0 := by simp [TraceData.advance, hhead]
    have hone : t.advance.num = 1 := hlen
    rw [hadv.1, hadv.2, hone]
    exact ⟨spans_zero (by decide), rfl⟩
  obtain ⟨hhead, htail, hnext⟩ := h.cursors hw
  have hne : t.head ≠ invalidVosTraceAddr := fun e => hw (h.empty.1 e)
  have hlast : t.advance.tail = (t.head + t.num) % maxVosTraceRecords := by
    simp [TraceData.advance, hne, hnext]
  have hheld := h.held
  have hle := h.num_le
  rw [advance_head h hw, hlast]
  by_cases hfull : t.num = maxVosTraceRecords
  · -- the ring is full: the oldest record makes room
    obtain ⟨m, hm⟩ : ∃ m, maxVosTraceRecords = m + 1 := ⟨3999, rfl⟩
    have hkept : t.advance.num - 1 = m := by omega
    rw [if_pos hfull, hkept, hfull, Nat.add_mod_right, Nat.mod_eq_of_lt hhead]
    rw [hfull, hm, ringIdxs_succ (by omega), map_cons, ← hm] at hheld
    refine ⟨⟨Nat.mod_lt _ (by decide), ?_, by omega⟩, ?_⟩
    · have hsum : t.head + (1 + m) = t.head + maxVosTraceRecords := by omega
      rw [Nat.mod_add_mod, Nat.add_assoc, hsum, Nat.add_mod_right, Nat.mod_eq_of_lt hhead]
    · have hdrop : written.length + 1 - t.advance.num =
          written.length - maxVosTraceRecords + 1 := by
        have := h.num_eq
        omega
      rw [hdrop, ← tail_drop, ← hheld, tail_cons]
  · have hkept : t.advance.num - 1 = t.num := by omega
    have hdrop : written.length + 1 - t.advance.num = written.length - t.num := by omega
    rw [if_neg hfull, hkept, hdrop]
    exact ⟨⟨hhead, rfl, by omega⟩, hheld⟩

theorem Window.vosTrace (h : t.Window written) (rec : TraceRecord) :
    (t.vosTrace rec).Window (if t.records rec then written ++ [rec] else written) := by
  by_cases hr : t.records rec
  · obtain ⟨hnum, hspans, hkept⟩ := h.advance
    have hpos : t.advance.num = t.advance.num - 1 + 1 := by
      have : 0 < t.advance.num := hnum ▸ Nat.lt_min.2 ⟨Nat.succ_pos _, by decide⟩
      omega
    have hhead := hspans.consumer_lt
    simp only [TraceData.vosTrace, hr, if_true]
    refine ⟨by simpa using hnum, ?_, ?_, fun _ => ⟨hhead, hspans.producer_lt, ?_⟩⟩
    · show (ringIdxs _ t.advance.head t.advance.num).map
        (Function.update t.advance.vosTraceTbl t.advance.tail rec) = _
      have htbl : t.advance.vosTraceTbl = t.vosTraceTbl := by
        simp only [TraceData.advance]
        split <;> rfl
      rw [hpos, hspans.map_push, htbl, hkept, ← hpos, length_append, length_singleton,
        drop_append_of_le_length (by omega)]
    · refine iff_of_false ?_ (by simp)
      have : maxVosTraceRecords ≤ invalidVosTraceAddr := by decide
      show t.advance.head ≠ _
      omega
    · show (t.advance.head + t.advance.num) % _ = nextSlot t.advance.tail
      rw [nextSlot_eq hspans.producer_lt, hspans.producer_eq, Nat.mod_add_mod, Nat.add_assoc,
        ← hpos]
  · simpa [TraceData.vosTrace, hr] using h

/-- **Where a dump starts.**  At the slot of the oldest of the records it is to visit. -/
theorem Window.dumpStart (h : t.Window written) (hw : written ≠ []) (count : ℕ) :
    t.dumpStart count =
      (t.head + (t.num - if count = 0 then t.num else min count t.num)) % maxVosTraceRecords := by
  obtain ⟨hhead, htail, hnext⟩ := h.cursors hw
  have hle := h.num_le
  have hpos := h.num_pos hw
  rw [nextSlot_eq htail] at hnext
  by_cases h₀ : count = 0
  · rw [TraceData.dumpStart, if_pos h₀, if_pos h₀, Nat.sub_self, Nat.add_zero,
      Nat.mod_eq_of_lt hhead]
  · have hmin : (if count > t.num then t.num else count) = min count t.num := by
      split <;> omega
    have hk : 0 < min count t.num := by omega
    have hkle : min count t.num ≤ t.num := Nat.min_le_right _ _
    simp only [TraceData.dumpStart, h₀, if_false, hmin]
    generalize min count t.num = k at hk hkle ⊢
    unfold maxVosTraceRecords at *
    split_ifs <;> omega

/-- What a dump visits. -/
theorem Window.dump (h : t.Window written) (hw : written ≠ []) (count : ℕ) :
    dumpLoop t.tail maxVosTraceRecords (t.dumpStart count) =
        some (ringIdxs maxVosTraceRecords (t.dumpStart count)
          (if count = 0 then t.num else min count t.num)) ∧
      (ringIdxs maxVosTraceRecords (t.dumpStart count)
          (if count = 0 then t.num else min count t.num)).map t.vosTraceTbl =
        written.drop (written.length - if count = 0 then t.num else min count t.num) := by
  obtain ⟨hhead, htail, hnext⟩ := h.cursors hw
  have hle := h.num_le
  have hpos := h.num_pos hw
  have hlen := h.num_eq
  have hheld := h.held
  rw [h.dumpStart hw]
  have hk : 0 < (if count = 0 then t.num else min count t.num) := by split <;> omega
  have hkle : (if count = 0 then t.num else min count t.num) ≤ t.num := by split <;> omega
  generalize (if count = 0 then t.num else min count t.num) = k at hk hkle ⊢
  have hsplit : t.num = (t.num - k) + k := by omega
  have hlt : (t.head + (t.num - k)) % maxVosTraceRecords < maxVosTraceRecords :=
    Nat.mod_lt _ (by decide)
  constructor
  · obtain ⟨d, rfl⟩ : ∃ d, k = d + 1 := ⟨k - 1, by omega⟩
    have hlast : t.tail =
        ((t.head + (t.num - (d + 1))) % maxVosTraceRecords + d) % maxVosTraceRecords := by
      rw [nextSlot_eq htail] at hnext
      unfold maxVosTraceRecords at *
      omega
    rw [hlast]
    exact dumpLoop_eq hlt (by omega) (by omega)
  · rw [hsplit, ringIdxs_add, map_append] at hheld
    have hlast := congrArg (drop (t.num - k)) hheld
    have hfirst : ((ringIdxs maxVosTraceRecords t.head (t.num - k)).map t.vosTraceTbl).length =
        t.num - k := by simp [ringIdxs]
    have hdrop : written.length - (t.num - k + k) + (t.num - k) = written.length - k := by omega
    rw [drop_left' hfirst, drop_drop, hdrop] at hlast
    exact hlast

end TraceData

variable {t : TraceData} {written : List TraceRecord}

/-- The window is kept by everything that can happen, and tracing is on. -/
theorem traceMachine_keeps {s s' : TraceData × List TraceRecord} {e : TraceEvent}
    (h : s.1.Window s.2 ∧ s.1.enable = true) (hs : traceMachine.step s e = some s') :
    s'.1.Window s'.2 ∧ s'.1.enable = true := by
  obtain ⟨t, written⟩ := s
  obtain ⟨hw, hon⟩ := h
  cases e with
  | trace rec =>
    cases hs
    refine ⟨hw.vosTrace rec, ?_⟩
    simp only [TraceData.vosTrace, TraceData.advance]
    split_ifs <;> exact hon
  | register moduleId cb =>
    cases hs
    exact ⟨⟨hw.num_eq, hw.held, hw.empty, hw.cursors⟩, hon⟩
  | enable bitmask on =>
    cases hs
    cases on <;> exact ⟨⟨hw.num_eq, hw.held, hw.empty, hw.cursors⟩, hon⟩
  | dump code session count bitmask =>
    obtain ⟨d, hd, rfl⟩ := Option.map_eq_some_iff.1 hs
    rw [TraceData.vosTraceDumpAll] at hd
    split_ifs at hd
    · obtain ⟨slots, -, rfl⟩ := Option.map_eq_some_iff.1 hd
      exact ⟨⟨hw.num_eq, hw.held, hw.empty, hw.cursors⟩, hon⟩
    · cases hd
      exact ⟨hw, hon⟩

theorem traceMachine_window (h : traceMachine.Reach (fun _ _ => True) (t, written)) :
    t.Window written ∧ t.enable = true := by
  refine h.invariant (fun s => s.1.Window s.2 ∧ s.1.enable = true) ?_
    fun s e s' hi _ hs => traceMachine_keeps hi hs
  rintro ⟨t, written⟩ ⟨h₀, t₀, h₁⟩
  obtain rfl : written = [] := h₀
  obtain rfl : t = t₀.vosTraceInit := h₁
  exact ⟨⟨rfl, rfl, iff_of_true rfl rfl, fun h => absurd rfl h⟩, rfl⟩

/-- **The trace.**  After any calls the cursors describe the window of the most recent records, and a dump ends after it has visited the slots of the last of them, each once. -/
theorem vosTrace_dumps (h : traceMachine.Reach (fun _ _ => True) (t, written))
    (code session count bitmask : ℕ) :
    t.Window written ∧ ∃ t' slots,
      t.vosTraceDumpAll code session count bitmask = some (t', slots,
        (slots.map fun i => (t.vosTraceTbl i, i)).filter fun r => t.shown code bitmask r.1) ∧
      slots.Nodup ∧
      slots.map t.vosTraceTbl =
        written.drop (written.length - if count = 0 then t.num else min count t.num) := by
  obtain ⟨hw, hon⟩ := traceMachine_window h
  refine ⟨hw, ?_⟩
  rcases eq_or_ne written [] with rfl | hne
  · have hhead := hw.empty.2 rfl
    exact ⟨t, [], by simp [TraceData.vosTraceDumpAll, hhead], nodup_nil, by simp⟩
  · have hhead : t.head ≠ invalidVosTraceAddr := fun e => hne (hw.empty.1 e)
    obtain ⟨hloop, hlast⟩ := hw.dump hne count
    refine ⟨{ t with numSinceLastDump := 0 }, _, ?_, ?_, hlast⟩
    · simp [TraceData.vosTraceDumpAll, hon, hloop, bne_iff_ne.2 hhead]
    · have hle := hw.num_le
      refine ringIdxs_nodup ?_
      split <;> omega

def blankTrace : TraceData :=
  ⟨0, 0, 0, 0, false, fun _ => ⟨"", 0, 0, 0, 0, 0⟩, fun _ => false, fun _ => false⟩

/-- A trace into which one module has recorded once. -/
def oneTraced : TraceData :=
  (blankTrace.vosTraceInit.vosTraceRegister 6 true).vosTrace ⟨"10:00:00", 6, 1, 0, 9, 1⟩

theorem vosTrace_dumps_oneTraced :
    oneTraced.Window [⟨"10:00:00", 6, 1, 0, 9, 1⟩] ∧ ∃ t' slots,
      oneTraced.vosTraceDumpAll 0 0 500 0 = some (t', slots,
        (slots.map fun i => (oneTraced.vosTraceTbl i, i)).filter
          fun r => oneTraced.shown 0 0 r.1) ∧
      slots.Nodup ∧ slots.map oneTraced.vosTraceTbl = [⟨"10:00:00", 6, 1, 0, 9, 1⟩] := by
  have h₀ : traceMachine.Reach (fun _ _ => True) (blankTrace.vosTraceInit, []) :=
    .start ⟨rfl, blankTrace, rfl⟩
  have h₁ : traceMachine.Reach (fun _ _ => True)
      (blankTrace.vosTraceInit.vosTraceRegister 6 true, []) :=
    .step h₀ (e := .register 6 true) trivial rfl
  have h₂ : traceMachine.Reach (fun _ _ => True)
      (oneTraced, [⟨"10:00:00", 6, 1, 0, 9, 1⟩]) :=
    .step h₁ (e := .trace ⟨"10:00:00", 6, 1, 0, 9, 1⟩) trivial rfl
  exact vosTrace_dumps h₂ 0 0 500 0

end Qcacld.Vos.Trace

import Qcacld.Support.Ring
import Qcacld.Support.Runs
import Qcacld.Support.Window

/-!
# Dfs — DfsDelayline

The delay lines of the radar filters: a ring of the pulses a filter has taken, in which it looks for a pattern.  `dfs_add_pulse` puts a pulse in and shortens the line to what lies within the filter's length; three routines clear a line, all lines of a filter type, and all lines.

`LinesRight` says what every line is to hold, and `delay_lines_iff` which calls keep it: `dfs_reset_delayline` zeroes the pulses of a line and leaves their count, so that the line is empty afterwards only if it was before; and a pulse so long ago that its distance does not fit 32 bits is not always seen to be out of the window.
-/

namespace Qcacld.Dfs
open Qcacld.Support List Option Nat

def dfsMaxDlSize : Nat := 64

def dfsMaxDlMask : Nat := 0x3F

def dfsMaxNumRadarFilters : Nat := 10

def dfsMaxRadarTypes : Nat := 32

/-- `struct dfs_delayelem` -/
structure DfsDelayelem where
  deTime : Nat
  deDur : Nat
  deRssi : Nat
  deTs : Nat
  deSegId : Nat
  deSidx : Int
  deDeltaPeak : Int
  deSeqNum : Nat

def DfsDelayelem.zero : DfsDelayelem := ⟨0, 0, 0, 0, 0, 0, 0, 0⟩

/-- `struct dfs_delayline`, of what a pulse and the resets write. -/
structure DfsDelayline where
  dlElems : Nat → DfsDelayelem
  dlFirstelem : Nat
  dlLastelem : Nat
  dlNumelems : Nat

/-- What is read of a `dfs_event`. -/
structure DfsPulseEvent where
  reDur : Nat
  reRssi : Nat
  reSegId : Nat
  sidx : Int
  reDeltaPeak : Int

/-- The slot before one: `(index-1) & DFS_MAX_DL_MASK`. -/
def dlPrev (index : Nat) : Nat := (index + (2 ^ 32 - 1)) % 2 ^ 32 &&& dfsMaxDlMask

/-- The loop of `dfs_add_pulse`, whose bound is the count it changes; `none` when it does not end. -/
def shrinkLine (rfFilterlen thisTs : Nat) : Nat → Nat → Nat → DfsDelayline → Option DfsDelayline
  | 0, n, _, dl => if n < dl.dlNumelems - 1 then none else some dl
  | fuel + 1, n, index, dl =>
    if n < dl.dlNumelems - 1 then
      let index := dlPrev index
      let window := (thisTs + 2 ^ 64 - (dl.dlElems index).deTs) % 2 ^ 32
      shrinkLine rfFilterlen thisTs fuel (n + 1) index (if window > rfFilterlen then
          { dl with
            dlFirstelem := (index + 1) &&& dfsMaxDlMask
            dlNumelems := n + 1 }
        else dl)
    else some dl

def delayelem (dfsSeqNum : Nat) (re : DfsPulseEvent) (deltaT thisTs : Nat) : DfsDelayelem where
  deTime := deltaT
  deDur := re.reDur
  deRssi := re.reRssi
  deTs := thisTs
  deSegId := re.reSegId
  deSidx := re.sidx
  deDeltaPeak := re.reDeltaPeak
  deSeqNum := dfsSeqNum

/-- A pulse is put into the ring; when it is full the first one goes. -/
def pushElem (dl : DfsDelayline) (e : DfsDelayelem) : DfsDelayline :=
  let index := (dl.dlLastelem + 1) &&& dfsMaxDlMask
  { dlElems := Function.update dl.dlElems index e
    dlFirstelem := if dl.dlNumelems = dfsMaxDlSize then (dl.dlFirstelem + 1) &&& dfsMaxDlMask
      else dl.dlFirstelem
    dlLastelem := index
    dlNumelems := if dl.dlNumelems = dfsMaxDlSize then dl.dlNumelems else dl.dlNumelems + 1 }

def dfsAddPulse (dfsSeqNum rfFilterlen : Nat) (dl : DfsDelayline) (re : DfsPulseEvent)
    (deltaT thisTs : Nat) : Option DfsDelayline :=
  let dl := pushElem dl (delayelem dfsSeqNum re deltaT thisTs)
  shrinkLine rfFilterlen thisTs dfsMaxDlSize 0 dl.dlLastelem dl

def dfsResetDelayline (dl : DfsDelayline) : DfsDelayline :=
  { dl with
    dlElems := fun _ => .zero
    dlLastelem := 0xFFFFFFFF &&& dfsMaxDlMask }

/-- What `dfs_reset_alldelaylines` makes of a line. -/
def clearedLine : DfsDelayline where
  dlElems _ := .zero
  dlFirstelem := 0
  dlLastelem := 0xFFFFFFFF &&& dfsMaxDlMask
  dlNumelems := 0

/-! ### The filters -/

/-- A filter type: one of `dfs_dc_radarf`, or of `dfs_radarf`. -/
structure FtId where
  dc : Bool
  index : Nat
deriving DecidableEq

structure RfId where
  ft : FtId
  filter : Nat
deriving DecidableEq

/-- The filter types in use: how many filters they have, if they are there, and the filters' lengths. -/
structure DfsFilters where
  ftNumfilters : FtId → Option Nat
  rfFilterlen : RfId → Nat
  types : ∀ ft n, ftNumfilters ft = some n → ft.index < dfsMaxRadarTypes ∧ n ≤ dfsMaxNumRadarFilters

def DfsFilters.InUse (d : DfsFilters) (rf : RfId) : Prop :=
  ∃ n ∈ d.ftNumfilters rf.ft, rf.filter < n
deriving Decidable

/-- The lines, and the history: the pulses each has been given since it was last reset, the newest first. -/
structure DelayLines where
  rfDl : RfId → DfsDelayline
  since : RfId → List DfsDelayelem

namespace DelayLines

def setLine (s : DelayLines) (rf : RfId) (dl : DfsDelayline) (l : List DfsDelayelem) :
    DelayLines where
  rfDl := Function.update s.rfDl rf dl
  since := Function.update s.since rf l

end DelayLines

inductive LineCall where
  | addPulse (rf : RfId) (dfsSeqNum : Nat) (re : DfsPulseEvent) (deltaT thisTs : Nat)
  | resetDelayline (rf : RfId)
  | resetFilterDelaylines (dft : FtId)
  /-- whether `dfs->pulses` is there, and the bin 5 radars if there are to be any -/
  | resetAlldelaylines (pl b5radars : Bool)

/-- `dfs_reset_filter_delaylines` -/
def resetFilterLines (s : DelayLines) (dft : FtId) : DelayLines where
  rfDl rf := if rf.ft = dft ∧ rf.filter < dfsMaxNumRadarFilters then dfsResetDelayline (s.rfDl rf)
    else s.rfDl rf
  since rf := if rf.ft = dft ∧ rf.filter < dfsMaxNumRadarFilters then [] else s.since rf

/-- `dfs_reset_alldelaylines` -/
def resetAllLines (d : DfsFilters) (s : DelayLines) (pl b5radars : Bool) : DelayLines where
  rfDl rf := if !pl then s.rfDl rf
    else if !b5radars then s.rfDl rf
    else if d.InUse rf then clearedLine
    else s.rfDl rf
  since rf := if d.InUse rf then [] else s.since rf

/-- One call.  A pulse is given to a filter in use, and is not before the last one it was given. -/
def lineCall (d : DfsFilters) (s : DelayLines) : LineCall → Option DelayLines
  | .addPulse rf dfsSeqNum re deltaT thisTs => do
    guard (d.InUse rf ∧ thisTs < 2 ^ 64 ∧ ∀ e ∈ s.since rf, e.deTs ≤ thisTs)
    let dl ← dfsAddPulse dfsSeqNum (d.rfFilterlen rf) (s.rfDl rf) re deltaT thisTs
    return s.setLine rf dl (delayelem dfsSeqNum re deltaT thisTs :: s.since rf)
  | .resetDelayline rf => some (s.setLine rf (dfsResetDelayline (s.rfDl rf)) [])
  | .resetFilterDelaylines dft => some (resetFilterLines s dft)
  | .resetAlldelaylines pl b5radars => some (resetAllLines d s pl b5radars)

/-- The filters have been initialised, which ends with all lines being reset. -/
def DelayLines.Initial (d : DfsFilters) (s : DelayLines) : Prop :=
  ∀ rf, d.InUse rf → s.rfDl rf = clearedLine ∧ s.since rf = []

def lineMachine (d : DfsFilters) : Machine DelayLines LineCall where
  init := DelayLines.Initial d
  step := lineCall d

/-! ### What the lines are to hold -/

/-- The line is a ring whose elements, from the first to the last, are those of `l`, the newest first. -/
structure LineHolds (dl : DfsDelayline) (l : List DfsDelayelem) : Prop where
  count_le : dl.dlNumelems ≤ dfsMaxDlSize
  first_lt : dl.dlFirstelem < dfsMaxDlSize
  last_lt : dl.dlLastelem < dfsMaxDlSize
  ring : (dl.dlFirstelem + dl.dlNumelems) % dfsMaxDlSize = (dl.dlLastelem + 1) % dfsMaxDlSize
  elems : (ringIdxs dfsMaxDlSize dl.dlFirstelem dl.dlNumelems).map dl.dlElems = l.reverse

/-- The pulses among the last ones that are within the filter's length of the newest. -/
def inWindow (rfFilterlen : Nat) (l : List DfsDelayelem) : List DfsDelayelem :=
  recent DfsDelayelem.deTs dfsMaxDlSize rfFilterlen l

/-- **The law.** -/
def LinesRight (d : DfsFilters) (s : DelayLines) : Prop :=
  ∀ rf, d.InUse rf → LineHolds (s.rfDl rf) (inWindow (d.rfFilterlen rf) (s.since rf))

/-- The newest pulse that has left the window is seen to have left it, where its distance is cut to 32 bits. -/
def LeavesSeen (rfFilterlen : Nat) (l : List DfsDelayelem) (thisTs : Nat) : Prop :=
  ∀ e ∈ ((inWindow rfFilterlen l).take (dfsMaxDlSize - 1)).find? fun e => rfFilterlen < thisTs - e.deTs,
    rfFilterlen < (thisTs - e.deTs) % 2 ^ 32
deriving Decidable

/-- The filters of a type that are in use have been given no pulse since they were last reset. -/
def DfsFilters.Unused (d : DfsFilters) (s : DelayLines) (ft : FtId) : Prop :=
  ∀ n ∈ d.ftNumfilters ft, ∀ j < n, s.since ⟨ft, j⟩ = []

instance (d : DfsFilters) (s : DelayLines) (ft : FtId) : Decidable (d.Unused s ft) :=
  inferInstanceAs (Decidable (∀ n ∈ d.ftNumfilters ft, _))

/-- **The condition.**  A pulse that leaves the window is seen to leave it; and a line that is reset is empty, unless all lines are and the radars are configured. -/
def LineCallOk (d : DfsFilters) (s : DelayLines) : LineCall → Prop
  | .addPulse rf _ _ _ thisTs => LeavesSeen (d.rfFilterlen rf) (s.since rf) thisTs
  | .resetDelayline rf => d.InUse rf → s.since rf = []
  | .resetFilterDelaylines dft => d.Unused s dft
  | .resetAlldelaylines pl b5radars => pl = true ∧ b5radars = true ∨
      ∀ dc, ∀ i < dfsMaxRadarTypes, d.Unused s ⟨dc, i⟩

instance (d : DfsFilters) (s : DelayLines) : (c : LineCall) → Decidable (LineCallOk d s c)
  | .addPulse .. => inferInstanceAs (Decidable (LeavesSeen _ _ _))
  | .resetDelayline _ => inferInstanceAs (Decidable (_ → _))
  | .resetFilterDelaylines dft => inferInstanceAs (Decidable (d.Unused s dft))
  | .resetAlldelaylines .. => inferInstanceAs (Decidable
    (_ ∨ ∀ dc, ∀ i < dfsMaxRadarTypes, d.Unused s ⟨dc, i⟩))

/-! ### One line -/

structure LineBack (dl : DfsDelayline) (l : List DfsDelayelem) : Prop where
  count : dl.dlNumelems = l.length
  room : l.length ≤ dfsMaxDlSize
  first_lt : dl.dlFirstelem < dfsMaxDlSize
  last_lt : dl.dlLastelem < dfsMaxDlSize
  ring : (dl.dlFirstelem + l.length) % dfsMaxDlSize = (dl.dlLastelem + 1) % dfsMaxDlSize
  elems : ∀ m (h : m < l.length), dl.dlElems ((dl.dlLastelem + dfsMaxDlSize - m) % dfsMaxDlSize) = l[m]

section
variable {dl dl' : DfsDelayline} {l l' : List DfsDelayelem} {e : DfsDelayelem}
  {filterlen ts n fuel : Nat}

theorem lineHolds_iff_keeps : LineHolds dl l ↔
    Keeps dfsMaxDlSize dl.dlElems dl.dlFirstelem dl.dlLastelem dl.dlNumelems l :=
  ⟨fun ⟨h₁, h₂, h₃, h₄, h₅⟩ => ⟨h₁, h₂, h₃, h₄, h₅⟩,
    fun ⟨h₁, h₂, h₃, h₄, h₅⟩ => ⟨h₁, h₂, h₃, h₄, h₅⟩⟩

theorem lineHolds_iff : LineHolds dl l ↔ LineBack dl l := by
  constructor
  · intro h
    have hc := (lineHolds_iff_keeps.1 h).count
    have hring := h.ring
    have helems := h.elems
    rw [hc] at hring helems
    have hroom : l.length ≤ dfsMaxDlSize := hc ▸ h.count_le
    exact ⟨hc, hroom, h.first_lt, h.last_lt, hring, (map_ringIdxs_eq_reverse hroom hring).1 helems⟩
  · intro h
    refine ⟨h.count ▸ h.room, h.first_lt, h.last_lt, ?_, ?_⟩
    · rw [h.count, h.ring]
    · rw [h.count]
      exact (map_ringIdxs_eq_reverse h.room h.ring).2 h.elems

theorem LineHolds.unique (h : LineHolds dl l) (h' : LineHolds dl l') : l = l' :=
  reverse_injective (h.elems.symm.trans h'.elems)

theorem and_dlMask (x : Nat) : x &&& dfsMaxDlMask = x % dfsMaxDlSize :=
  and_mask (k := 6) rfl x

theorem dlPrev_eq (x : Nat) : dlPrev x = (x + 63) % dfsMaxDlSize := by
  rw [dlPrev, and_dlMask, dfsMaxDlSize]
  omega

theorem lastOfAll : 0xFFFFFFFF &&& dfsMaxDlMask = 63 := by decide

theorem dlPrev_back {last : Nat} (hl : last < dfsMaxDlSize) (hn : n + 1 < dfsMaxDlSize) :
    dlPrev ((last + dfsMaxDlSize - n) % dfsMaxDlSize)
      = (last + dfsMaxDlSize - (n + 1)) % dfsMaxDlSize ∧
    (last + dfsMaxDlSize - (n + 1)) % dfsMaxDlSize + 1 &&& dfsMaxDlMask
      = (last + dfsMaxDlSize - n) % dfsMaxDlSize := by
  rw [dlPrev_eq, and_dlMask]
  simp only [dfsMaxDlSize] at hl hn ⊢
  omega

/-- **A pulse goes in**; the oldest one goes when there is no room. -/
theorem LineBack.push (h : LineBack dl l) (e : DfsDelayelem) :
    LineBack (pushElem dl e) ((e :: l).take dfsMaxDlSize) := by
  have hp := (lineHolds_iff_keeps.1 (lineHolds_iff.2 h)).push e
  simp only [← and_dlMask] at hp
  exact lineHolds_iff.1 (lineHolds_iff_keeps.2 hp)

def readsWithin (filterlen ts : Nat) (e : DfsDelayelem) : Bool :=
  (ts + 2 ^ 64 - e.deTs) % 2 ^ 32 ≤ filterlen

theorem LineBack.cut (h : LineBack dl l) (hn : n < l.length) : LineBack { dl with
      dlFirstelem := (dl.dlLastelem + dfsMaxDlSize - n) % dfsMaxDlSize
      dlNumelems := n + 1 } (l.take (n + 1)) := by
  have hlen : (l.take (n + 1)).length = n + 1 := length_take_of_le hn
  have hroom := h.room
  have hlast := h.last_lt
  refine ⟨hlen.symm, by rw [hlen]; omega, mod_lt _ (by decide), hlast, ?_, ?_⟩
  · rw [hlen]
    simp only [dfsMaxDlSize] at *
    omega
  · intro m hm
    rw [hlen] at hm
    rw [getElem_take]
    exact h.elems m (by omega)

theorem shrinkLine_stop {index : Nat} (h : dl.dlNumelems ≤ n + 1) :
    shrinkLine filterlen ts fuel n index dl = some dl := by
  have hstop : ¬ n < dl.dlNumelems - 1 := by omega
  cases fuel with
  | zero => rw [shrinkLine, if_neg hstop]
  | succ fuel => rw [shrinkLine, if_neg hstop]

/-- **The loop** cuts the line at the first pulse, going back, that is read to be out of the window. -/
theorem shrinkLine_spec (h : LineBack dl l) (hn : n < l.length) (hf : l.length ≤ fuel + n + 1) :
    ∃ dl', shrinkLine filterlen ts fuel n ((dl.dlLastelem + dfsMaxDlSize - n) % dfsMaxDlSize) dl
        = some dl' ∧
      LineBack dl' (l.take (n + 1) ++ (l.drop (n + 1)).takeWhile (readsWithin filterlen ts)) := by
  have hend : l.length = n + 1 → l.take (n + 1)
      ++ (l.drop (n + 1)).takeWhile (readsWithin filterlen ts) = l := by
    intro he
    rw [← he, take_length, drop_length, takeWhile_nil, append_nil]
  induction fuel generalizing n dl with
  | zero =>
    have he : l.length = n + 1 := by omega
    refine ⟨dl, ?_, by rw [hend he]; exact h⟩
    rw [shrinkLine, if_neg (by rw [h.count]; omega)]
  | succ fuel ih =>
    rw [shrinkLine, h.count]
    by_cases hm : n < l.length - 1
    · have hlt : n + 1 < l.length := by omega
      have hroom := h.room
      obtain ⟨hprev, hsucc⟩ := dlPrev_back (n := n) h.last_lt (by omega)
      rw [if_pos hm]
      dsimp only
      rw [hprev, h.elems (n + 1) hlt]
      have hdrop : l.drop (n + 1) = l[n + 1] :: l.drop (n + 1 + 1) :=
        drop_eq_getElem_cons hlt
      by_cases hw : (ts + 2 ^ 64 - l[n + 1].deTs) % 2 ^ 32 > filterlen
      · -- the line ends here, and with it the loop
        have hcut : (l.drop (n + 1)).takeWhile (readsWithin filterlen ts) = [] := by
          rw [hdrop, takeWhile_cons_of_neg]
          simpa [readsWithin] using hw
        rw [if_pos hw, hcut, append_nil, hsucc]
        exact ⟨_, shrinkLine_stop (le_succ _), h.cut hn⟩
      · rw [if_neg hw]
        obtain ⟨dl', hs, hb⟩ := ih h hlt (by omega) (fun he => by
          rw [← he, take_length, drop_length, takeWhile_nil, append_nil])
        refine ⟨dl', hs, ?_⟩
        have hin : readsWithin filterlen ts l[n + 1] = true := by
          simpa [readsWithin] using hw
        rw [hdrop, takeWhile_cons_of_pos hin]
        rw [take_succ_eq_append_getElem hlt, append_assoc] at hb
        exact hb
    · have he : l.length = n + 1 := by omega
      rw [if_neg hm]
      exact ⟨dl, rfl, by rw [hend he]; exact h⟩

/-- **A pulse is added**: of it and those before it the line holds what is read to be in the window. -/
theorem dfsAddPulse_spec (h : LineBack dl l) (seqNum deltaT : Nat) (re : DfsPulseEvent) :
    ∃ dl', dfsAddPulse seqNum filterlen dl re deltaT ts = some dl' ∧
      LineBack dl' (((delayelem seqNum re deltaT ts :: l).take dfsMaxDlSize).takeWhile
        (readsWithin filterlen ts)) := by
  have hp := h.push (delayelem seqNum re deltaT ts)
  have hpos : 0 < ((delayelem seqNum re deltaT ts :: l).take dfsMaxDlSize).length := by
    rw [length_take, length_cons]
    exact Nat.lt_min.2 ⟨by decide, Nat.succ_pos _⟩
  have hroom := hp.room
  obtain ⟨dl', hs, hb⟩ := @shrinkLine_spec _ _ filterlen ts 0 dfsMaxDlSize hp hpos (by omega)
  have hslot : ((pushElem dl (delayelem seqNum re deltaT ts)).dlLastelem + dfsMaxDlSize - 0)
      % dfsMaxDlSize = (pushElem dl (delayelem seqNum re deltaT ts)).dlLastelem := by
    rw [Nat.sub_zero, Nat.add_mod_right, Nat.mod_eq_of_lt hp.last_lt]
  rw [hslot] at hs
  refine ⟨dl', hs, ?_⟩
  -- the new pulse is in the window
  have hnew : readsWithin filterlen ts (delayelem seqNum re deltaT ts) = true := by
    simp [readsWithin, delayelem]
  have htake : (delayelem seqNum re deltaT ts :: l).take dfsMaxDlSize
      = delayelem seqNum re deltaT ts :: l.take 63 := rfl
  rw [htake] at hb ⊢
  rw [takeWhile_cons_of_pos hnew]
  exact hb

end

/-! ### The window of a filter -/

section
variable {dl : DfsDelayline} {l : List DfsDelayelem} {e : DfsDelayelem} {filterlen ts : Nat}

theorem readsWithin_iff (hle : e.deTs ≤ ts) :
    readsWithin filterlen ts e = true ↔ (ts - e.deTs) % 2 ^ 32 ≤ filterlen := by
  have hdist : ts + 2 ^ 64 - e.deTs = ts - e.deTs + 2 ^ 32 * 2 ^ 32 := by omega
  rw [readsWithin, hdist, add_mul_mod_self_right, decide_eq_true_iff]

@[simp] theorem inWindow_nil : inWindow filterlen [] = [] := rfl

/-- **A pulse comes in.**  The window is cut where it is to be exactly if the newest pulse that leaves it is seen to. -/
theorem inWindow_push_iff (ho : Ordered DfsDelayelem.deTs (e :: l)) :
    ((e :: inWindow filterlen l).take dfsMaxDlSize).takeWhile (readsWithin filterlen e.deTs)
        = inWindow filterlen (e :: l) ↔ LeavesSeen filterlen l e.deTs := by
  have hle : ∀ x ∈ (e :: inWindow filterlen l).take dfsMaxDlSize, x.deTs ≤ e.deTs := by
    intro x hx
    rcases mem_cons.1 (mem_of_mem_take hx) with rfl | hx
    · exact le_refl _
    · exact (pairwise_cons.1 ho).1 x (recent_sublist.subset hx)
  have hfine : ∀ x ∈ (e :: inWindow filterlen l).take dfsMaxDlSize,
      decide (e.deTs - x.deTs ≤ filterlen) = true → readsWithin filterlen e.deTs x = true := by
    intro x hx hw
    have hw : e.deTs - x.deTs ≤ filterlen := of_decide_eq_true hw
    exact (readsWithin_iff (hle x hx)).2 (le_trans (mod_le _ _) hw)
  have hpush : inWindow filterlen (e :: l)
      = ((e :: inWindow filterlen l).take dfsMaxDlSize).takeWhile
        fun x => e.deTs - x.deTs ≤ filterlen :=
    recent_cons ho (by decide)
  have htake : (e :: inWindow filterlen l).take dfsMaxDlSize
      = e :: (inWindow filterlen l).take (dfsMaxDlSize - 1) := rfl
  have hnot : (fun x : DfsDelayelem => !decide (e.deTs - x.deTs ≤ filterlen))
      = fun x => decide (filterlen < e.deTs - x.deTs) := by
    funext x
    rw [← decide_not, decide_eq_decide, not_le]
  rw [hpush, takeWhile_eq_iff hfine, hnot, htake, find?_cons_of_neg (by simp), LeavesSeen]
  refine forall₂_congr fun x hx => ?_
  have hx : x ∈ (inWindow filterlen l).take (dfsMaxDlSize - 1) := mem_of_find?_eq_some hx
  have hxe : x.deTs ≤ e.deTs := hle x (htake ▸ mem_cons_of_mem e hx)
  rw [← Bool.not_eq_true, readsWithin_iff hxe, not_le]

/-- What is kept of a line: it holds the window of its history, whose pulses are in order, and one without a history is as it was cleared. -/
structure LineInv (filterlen : Nat) (dl : DfsDelayline) (l : List DfsDelayelem) : Prop where
  back : LineBack dl (inWindow filterlen l)
  ordered : Ordered DfsDelayelem.deTs l
  cleared : l = [] → dl.dlFirstelem = 0

theorem LineInv.right (h : LineInv filterlen dl l) : LineHolds dl (inWindow filterlen l) :=
  lineHolds_iff.2 h.back

theorem lineInv_cleared : LineInv filterlen clearedLine [] := by
  refine ⟨⟨rfl, zero_le _, by decide, by decide, ?_, ?_⟩, List.Pairwise.nil, fun _ => rfl⟩
  · simp only [inWindow_nil, length_nil]
    decide
  · exact fun m h => absurd h (not_lt_zero m)

theorem LineInv.addPulse (h : LineInv filterlen dl l) (hle : ∀ x ∈ l, x.deTs ≤ ts) (seqNum deltaT : Nat) (re : DfsPulseEvent) :
    ∃ dl', dfsAddPulse seqNum filterlen dl re deltaT ts = some dl' ∧
      (LineHolds dl' (inWindow filterlen (delayelem seqNum re deltaT ts :: l)) ↔
        LeavesSeen filterlen l ts) ∧
      (LeavesSeen filterlen l ts → LineInv filterlen dl' (delayelem seqNum re deltaT ts :: l)) := by
  obtain ⟨dl', hs, hb⟩ := @dfsAddPulse_spec dl _ filterlen ts h.back seqNum deltaT re
  have ho : Ordered DfsDelayelem.deTs (delayelem seqNum re deltaT ts :: l) :=
    pairwise_cons.2 ⟨hle, h.ordered⟩
  have hpush := @inWindow_push_iff l _ filterlen ho
  have hb : LineBack dl' (((delayelem seqNum re deltaT ts :: inWindow filterlen l).take
      dfsMaxDlSize).takeWhile (readsWithin filterlen (delayelem seqNum re deltaT ts).deTs)) := hb
  refine ⟨dl', hs, ?_, ?_⟩
  · constructor
    · exact fun hr => hpush.1 ((lineHolds_iff.2 hb).unique hr)
    · exact fun hl => lineHolds_iff.2 (hpush.2 hl ▸ hb)
  · exact fun hl => ⟨hpush.2 hl ▸ hb, ho, fun hnil => nomatch hnil⟩

/-- **`dfs_reset_delayline` leaves the count**, so that the line is empty if it was. -/
theorem LineInv.reset (h : LineInv filterlen dl l) :
    (LineHolds (dfsResetDelayline dl) [] ↔ l = []) ∧
      (l = [] → LineInv filterlen (dfsResetDelayline dl) []) := by
  have hcount : (dfsResetDelayline dl).dlNumelems = (inWindow filterlen l).length := h.back.count
  have hinv : l = [] → LineInv filterlen (dfsResetDelayline dl) [] := by
    rintro rfl
    have hfirst : (dfsResetDelayline dl).dlFirstelem = 0 := h.cleared rfl
    have hlast : (dfsResetDelayline dl).dlLastelem = 63 := lastOfAll
    refine ⟨⟨hcount, zero_le _, h.back.first_lt, ?_, ?_, ?_⟩, List.Pairwise.nil, fun _ => hfirst⟩
    · rw [hlast]
      decide
    · simp only [hfirst, hlast, inWindow_nil, length_nil]
      decide
    · exact fun m hm => absurd hm (not_lt_zero m)
  refine ⟨⟨fun hr => ?_, fun hl => (hinv hl).right⟩, hinv⟩
  have hnil : (inWindow filterlen l).length = 0 := by
    rw [← hcount, (lineHolds_iff.1 hr).count, length_nil]
  exact (recent_eq_nil (by decide)).1 (eq_nil_of_length_eq_zero hnil)

end

/-! ### All lines -/

section
variable {d : DfsFilters} {s s' : DelayLines} {c : LineCall} {ft : FtId} {rf : RfId}

/-- **The invariant.** -/
def LinesInv (d : DfsFilters) (s : DelayLines) : Prop :=
  ∀ rf, d.InUse rf → LineInv (d.rfFilterlen rf) (s.rfDl rf) (s.since rf)

theorem LinesInv.right (h : LinesInv d s) : LinesRight d s := fun rf hu => (h rf hu).right

theorem linesInv_initial (h : s.Initial d) : LinesInv d s := by
  intro rf hu
  obtain ⟨hdl, hl⟩ := h rf hu
  rw [hdl, hl]
  exact lineInv_cleared

theorem unused_iff : d.Unused s ft ↔ ∀ rf, d.InUse rf → rf.ft = ft → s.since rf = [] := by
  constructor
  · rintro h ⟨ft', j⟩ ⟨n, hn, hj⟩ rfl
    exact h n hn j hj
  · intro h n hn j hj
    exact h ⟨ft, j⟩ ⟨n, hn, hj⟩ rfl

theorem DfsFilters.InUse.filter_lt (hu : d.InUse rf) : rf.filter < dfsMaxNumRadarFilters := by
  obtain ⟨n, hn, hj⟩ := hu
  exact lt_of_lt_of_le hj (d.types _ n hn).2

theorem DfsFilters.InUse.index_lt (hu : d.InUse rf) : rf.ft.index < dfsMaxRadarTypes := by
  obtain ⟨n, hn, -⟩ := hu
  exact (d.types _ n hn).1

theorem setLine_right {dl : DfsDelayline} {l : List DfsDelayelem} {p : Prop} (h : LinesInv d s)
    (hl : d.InUse rf → (LineHolds dl (inWindow (d.rfFilterlen rf) l) ↔ p) ∧
      (p → LineInv (d.rfFilterlen rf) dl l)) :
    (LinesRight d (s.setLine rf dl l) ↔ (d.InUse rf → p)) ∧
      ((d.InUse rf → p) → LinesInv d (s.setLine rf dl l)) := by
  have hinv : (d.InUse rf → p) → LinesInv d (s.setLine rf dl l) := by
    intro hp x hu
    by_cases hx : x = rf
    · subst hx
      simpa [DelayLines.setLine] using (hl hu).2 (hp hu)
    · simpa [DelayLines.setLine, hx] using h x hu
  refine ⟨⟨fun hr hu => ?_, fun hp => (hinv hp).right⟩, hinv⟩
  refine (hl hu).1.1 ?_
  simpa [DelayLines.setLine] using hr rf hu

/-- A call that resets some lines, all of which are empty afterwards if they were before. -/
theorem reset_right {s' : DelayLines} {q : RfId → Prop} (h : LinesInv d s)
    (hq : ∀ rf, d.InUse rf → q rf →
      (LineHolds (s'.rfDl rf) (inWindow (d.rfFilterlen rf) (s'.since rf)) ↔ s.since rf = []) ∧
      (s.since rf = [] → LineInv (d.rfFilterlen rf) (s'.rfDl rf) (s'.since rf)))
    (hn : ∀ rf, d.InUse rf → ¬ q rf → s'.rfDl rf = s.rfDl rf ∧ s'.since rf = s.since rf) :
    (LinesRight d s' ↔ ∀ rf, d.InUse rf → q rf → s.since rf = []) ∧
      ((∀ rf, d.InUse rf → q rf → s.since rf = []) → LinesInv d s') := by
  have hinv : (∀ rf, d.InUse rf → q rf → s.since rf = []) → LinesInv d s' := by
    intro hp rf hu
    by_cases hr : q rf
    · exact (hq rf hu hr).2 (hp rf hu hr)
    · obtain ⟨hdl, hl⟩ := hn rf hu hr
      rw [hdl, hl]
      exact h rf hu
  exact ⟨⟨fun hr rf hu hrf => (hq rf hu hrf).1.1 (hr rf hu), fun hp => (hinv hp).right⟩, hinv⟩

theorem resetFilterLines_right (h : LinesInv d s) :
    (LinesRight d (resetFilterLines s ft) ↔ d.Unused s ft) ∧
      (d.Unused s ft → LinesInv d (resetFilterLines s ft)) := by
  rw [unused_iff]
  refine reset_right h (fun rf hu hft => ?_) (fun rf hu hft => ?_)
  · have hpos : rf.ft = ft ∧ rf.filter < dfsMaxNumRadarFilters := ⟨hft, hu.filter_lt⟩
    simp only [resetFilterLines, if_pos hpos]
    exact (h rf hu).reset
  · have hneg : ¬ (rf.ft = ft ∧ rf.filter < dfsMaxNumRadarFilters) := fun hp => hft hp.1
    simp [resetFilterLines, if_neg hneg]

theorem resetAllLines_right {pl b5radars : Bool} (h : LinesInv d s) :
    (LinesRight d (resetAllLines d s pl b5radars) ↔
        LineCallOk d s (.resetAlldelaylines pl b5radars)) ∧
      (LineCallOk d s (.resetAlldelaylines pl b5radars) →
        LinesInv d (resetAllLines d s pl b5radars)) := by
  by_cases hc : pl = true ∧ b5radars = true
  · obtain ⟨rfl, rfl⟩ := hc
    have hinv : LinesInv d (resetAllLines d s true true) := by
      intro rf hu
      simp only [resetAllLines, if_pos hu]
      exact lineInv_cleared
    exact ⟨iff_of_true hinv.right (.inl ⟨rfl, rfl⟩), fun _ => hinv⟩
  · have hall : LineCallOk d s (.resetAlldelaylines pl b5radars) ↔
        ∀ rf, d.InUse rf → True → s.since rf = [] := by
      constructor
      · rintro (hp | hp) rf hu -
        · exact absurd hp hc
        · exact unused_iff.1 (hp rf.ft.dc rf.ft.index hu.index_lt) rf hu rfl
      · exact fun hp => .inr fun dc i _ => unused_iff.2 fun rf hu _ => hp rf hu trivial
    rw [hall]
    refine reset_right h (fun rf hu _ => ?_) (fun rf hu hn => absurd trivial hn)
    have hkept : (resetAllLines d s pl b5radars).rfDl rf = s.rfDl rf := by
      rw [resetAllLines]
      split
      · rfl
      · split
        · rfl
        · simp_all
    have hgone : (resetAllLines d s pl b5radars).since rf = [] := if_pos hu
    rw [hkept, hgone]
    have hline := h rf hu
    refine ⟨⟨fun hr => ?_, fun hl => ?_⟩, fun hl => hl ▸ hline⟩
    · have hnil : inWindow (d.rfFilterlen rf) (s.since rf) = [] := hline.right.unique hr
      exact (recent_eq_nil (by decide)).1 hnil
    · exact hl ▸ hline.right

/-- **A call.**  It keeps the law exactly if it meets the condition. -/
theorem lineCall_right_iff (h : LinesInv d s) (hc : lineCall d s c = some s') :
    (LinesRight d s' ↔ LineCallOk d s c) ∧ (LineCallOk d s c → LinesInv d s') := by
  cases c with
  | addPulse rf seqNum re deltaT thisTs =>
    obtain ⟨⟨hu, -, hle⟩, hc⟩ := guard_bind_eq_some.1 hc
    obtain ⟨dl, hdl, hright⟩ := (h rf hu).addPulse hle seqNum deltaT re
    simp only [hdl, Option.bind_eq_bind, Option.bind_some, Option.pure_def, Option.some.injEq] at hc
    subst hc
    have hset := setLine_right h fun _ => hright
    simpa [LineCallOk, hu] using hset
  | resetDelayline rf =>
    cases hc
    exact setLine_right h fun hu => (h rf hu).reset
  | resetFilterDelaylines dft =>
    cases hc
    exact resetFilterLines_right h
  | resetAlldelaylines pl b5radars =>
    cases hc
    exact resetAllLines_right h

/-- What a call may come with: a pulse is given to a filter in use, and not before the last one it was given. -/
def LineCall.Allowed (d : DfsFilters) (s : DelayLines) : LineCall → Prop
  | .addPulse rf _ _ _ thisTs => d.InUse rf ∧ thisTs < 2 ^ 64 ∧ ∀ e ∈ s.since rf, e.deTs ≤ thisTs
  | _ => True

theorem lineCall_total (h : LinesInv d s) (ha : c.Allowed d s) : ∃ s', lineCall d s c = some s' := by
  cases c with
  | addPulse rf seqNum re deltaT thisTs =>
    obtain ⟨hu, ht, hle⟩ := ha
    obtain ⟨dl, hdl, -⟩ := (h rf hu).addPulse hle seqNum deltaT re
    refine ⟨s.setLine rf dl (delayelem seqNum re deltaT thisTs :: s.since rf),
      guard_bind_eq_some.2 ⟨⟨hu, ht, hle⟩, ?_⟩⟩
    simp [hdl]
  | resetDelayline rf => exact ⟨_, rfl⟩
  | resetFilterDelaylines dft => exact ⟨_, rfl⟩
  | resetAlldelaylines pl b5radars => exact ⟨_, rfl⟩

theorem reach_linesInv (hs : (lineMachine d).Reach (LineCallOk d) s) : LinesInv d s :=
  hs.invariant (LinesInv d) (fun _ => linesInv_initial)
    fun _ _ _ h hok hc => (lineCall_right_iff h hc).2 hok

/-- **The delay lines.**  As long as every call meets the condition, every line holds what it is to hold; and every call ends, and keeps the law exactly if it meets the condition. -/
theorem delay_lines_iff (d : DfsFilters) (s : DelayLines)
    (hs : (lineMachine d).Reach (LineCallOk d) s) :
    LinesRight d s ∧ ∀ c : LineCall, c.Allowed d s →
      ∃ s', (lineMachine d).step s c = some s' ∧ (LinesRight d s' ↔ LineCallOk d s c) := by
  have h := reach_linesInv hs
  refine ⟨h.right, fun c ha => ?_⟩
  obtain ⟨s', hc⟩ := lineCall_total h ha
  exact ⟨s', hc, (lineCall_right_iff h hc).1⟩

end

/-- One filter type with one filter, of length 100. -/
def oneFilter : DfsFilters where
  ftNumfilters ft := if ft = ⟨true, 0⟩ then some 1 else none
  rfFilterlen _ := 100
  types ft n h := by
    split at h
    · next hft =>
      cases h
      subst hft
      decide
    · cases h

def clearedLines : DelayLines where
  rfDl _ := clearedLine
  since _ := []

theorem clearedLines_initial : clearedLines.Initial oneFilter := fun _ _ => ⟨rfl, rfl⟩

def pulseAt (ts : Nat) : LineCall := .addPulse ⟨⟨true, 0⟩, 0⟩ 0 ⟨5, 30, 0, 0, 0⟩ 0 ts

/-- **A line that is reset alone keeps its count**: after a pulse it has one element then, of zeros, and no pulse has been added since. -/
theorem reset_line_keeps_count :
    ∃ s, (lineMachine oneFilter).run clearedLines [pulseAt 10, .resetDelayline ⟨⟨true, 0⟩, 0⟩]
        = some s ∧
      (s.rfDl ⟨⟨true, 0⟩, 0⟩).dlNumelems = 1 ∧ s.since ⟨⟨true, 0⟩, 0⟩ = [] ∧
      ¬ LinesRight oneFilter s := by
  refine Machine.exists_run_of (q := fun s =>
    (s.rfDl ⟨⟨true, 0⟩, 0⟩).dlNumelems = 1 ∧ s.since ⟨⟨true, 0⟩, 0⟩ = []) (by decide +kernel) ?_
  rintro s ⟨hnum, hnil⟩
  refine ⟨hnum, hnil, fun hr => ?_⟩
  have hcount := (lineHolds_iff.1 (hr ⟨⟨true, 0⟩, 0⟩ (by decide))).count
  rw [hnum, hnil] at hcount
  cases hcount

/-- Three pulses, the first of which leaves the window with the third; then all lines are reset, and there is another. -/
theorem delay_lines_iff_shortened :
    ∃ s, (lineMachine oneFilter).run clearedLines [pulseAt 10, pulseAt 60, pulseAt 150] = some s ∧
      LinesRight oneFilter s ∧ (s.rfDl ⟨⟨true, 0⟩, 0⟩).dlNumelems = 2 ∧
      ∃ s', (lineMachine oneFilter).run s [.resetAlldelaylines true true, pulseAt 160] = some s' ∧
        LinesRight oneFilter s' ∧ (s'.rfDl ⟨⟨true, 0⟩, 0⟩).dlNumelems = 1 := by
  obtain ⟨s, hs, hreach, hnum, ha, hrun⟩ : ∃ s, (lineMachine oneFilter).run clearedLines
      [pulseAt 10, pulseAt 60, pulseAt 150] = some s ∧
      (lineMachine oneFilter).Reach (LineCallOk oneFilter) s ∧
      (s.rfDl ⟨⟨true, 0⟩, 0⟩).dlNumelems = 2 ∧
      (lineMachine oneFilter).Along (LineCallOk oneFilter) s
        [.resetAlldelaylines true true, pulseAt 160] ∧
      ((lineMachine oneFilter).run s [.resetAlldelaylines true true, pulseAt 160]).any
        (fun s' => (s'.rfDl ⟨⟨true, 0⟩, 0⟩).dlNumelems = 1) = true :=
    Machine.exists_reach clearedLines_initial (by decide +kernel) (by decide +kernel)
  obtain ⟨s', hs', hnum'⟩ := Machine.exists_run hrun
  exact ⟨s, hs, (delay_lines_iff oneFilter s hreach).1, hnum, s', hs',
    (delay_lines_iff oneFilter s' (hreach.run ha hs')).1, hnum'⟩

end Qcacld.Dfs

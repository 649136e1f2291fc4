import Mathlib.Data.List.Induction
import Qcacld.Support.Ring
import Qcacld.Support.Runs
import Qcacld.Support.Window

/-!
# Dfs — DfsBin5

Bin-5 radars: long chirps that come in bursts.  Each configured radar has a ring of 128 pulses, to which `dfs_bin5_addpulse` adds and from which it drops what is out of the radar's window; `dfs_bin5_check` goes over the radars, counts the pairs of pulses that fit, and looks at the span from the first pulse to the last.

The counts and the array of indices are declared outside the loop over the radars, and the first radar with enough pairs ends the check whatever its span.  `bin5_right` is what holds for all that: every ring holds the window of its radar, and when all radars but one are quiet the check stays in its array and says what that one's pulses say.
-/

namespace Qcacld.Dfs
open Qcacld.Support List Option Nat

def dfsMaxB5Size : Nat := 128

def dfsMaxB5Mask : Nat := 0x7F

/-- `struct dfs_bin5elem` -/
structure Bin5elem where
  beTs : Nat
  beRssi : Nat
  beDur : Nat

open Bin5elem

/-- `struct dfs_bin5pulse`, of what the adding and the check read. -/
structure Bin5pulse where
  b5Threshold : Nat
  b5Timewindow : Nat

/-- `struct dfs_bin5radars` -/
structure Bin5radars where
  brElems : Nat → Bin5elem
  brFirstelem : Nat
  brLastelem : Nat
  brNumelems : Nat
  brPulse : Bin5pulse

open Bin5radars

/-! ### A pulse is added -/

/-- A difference of two stamps, in 64 bits. -/
def tsDelta (ts ts' : Nat) : Nat := (ts + 2 ^ 64 - ts') % 2 ^ 64

/-- Neither the repetition of a pulse nor that of a burst. -/
def OutOfStep (delta : Nat) : Prop := delta < 990 ∨ 2010 < delta ∧ delta < 300000
deriving Decidable

def pushPulse (br : Bin5radars) (e : Bin5elem) : Bin5radars :=
  let index := (br.brLastelem + 1) &&& dfsMaxB5Mask
  { br with
    brElems := Function.update br.brElems index e
    brFirstelem := if br.brNumelems = dfsMaxB5Size then (br.brFirstelem + 1) &&& dfsMaxB5Mask
      else br.brFirstelem
    brLastelem := index
    brNumelems := if br.brNumelems = dfsMaxB5Size then br.brNumelems else br.brNumelems + 1 }

/-- The loop that drops the oldest pulse while it is out of the window and not the only one. -/
def dropOld (thists : Nat) (br : Bin5radars) : Nat → Nat → Bin5radars
  | first, num + 2 =>
    if tsDelta thists (br.brElems first).beTs > br.brPulse.b5Timewindow then
      dropOld thists br ((first + 1) &&& dfsMaxB5Mask) (num + 1)
    else { br with brFirstelem := first, brNumelems := num + 2 }
  | first, num => { br with brFirstelem := first, brNumelems := num }

/-- `none` is the return of 0: the pulse is not taken. -/
def dfsBin5Addpulse (br : Bin5radars) (reRssi reDur thists : Nat) : Option Bin5radars :=
  if br.brNumelems ≠ 0 ∧ OutOfStep (tsDelta thists (br.brElems br.brLastelem).beTs) then none
  else
    let br := pushPulse br ⟨thists, reRssi, reDur⟩
    some (dropOld thists br br.brFirstelem br.brNumelems)

/-! ### The check -/

def IsChirp (e : Bin5elem) : Prop := 50 ≤ e.beDur ∧ e.beDur ≤ 105
deriving Decidable

/-- The interval between two pulses; when the later stamp is smaller it is taken to have rolled over. -/
def pri (prev this : Bin5elem) : Nat :=
  if prev.beTs ≤ this.beTs then this.beTs - prev.beTs else this.beTs

def diff (a b : Nat) : Nat := if b ≤ a then a - b else b - a

/-- Two pulses of one burst: the interval, the width and the strength are right. -/
def InBurst (prev this : Bin5elem) : Prop :=
  (990 ≤ pri prev this ∧ pri prev this ≤ 2010) ∧ diff this.beDur prev.beDur ≤ 4 ∧
    diff this.beRssi prev.beRssi ≤ 5
deriving Decidable

/-- The last pulse of a burst and the first of the next. -/
def BetweenBursts (prev this : Bin5elem) : Prop :=
  300000 ≤ pri prev this ∧ pri prev this ≤ 12000000
deriving Decidable

/-- What the check counts over the radars: `index` is what has been written of the array, the last entry first, and `numevents` its length. -/
structure Bin5Count where
  bursts : Nat
  index : List Nat

def Bin5Count.none : Bin5Count := ⟨0, []⟩

def countPair (br : Bin5radars) (c : Bin5Count) (prev this : Nat) : Bin5Count :=
  if InBurst (br.brElems prev) (br.brElems this) then
    { bursts := c.bursts + 1
      -- the earlier one is not written twice
      index := if 2 ≤ c.index.length ∧ c.index.head? = some prev then this :: c.index
        else this :: prev :: c.index }
  else if BetweenBursts (br.brElems prev) (br.brElems this) then
    { c with bursts := c.bursts + 1 }
  else c

/-- The second loop, over the slots behind the reference. -/
def pairLoop (br : Bin5radars) : List Nat → Nat → Bin5Count → Bin5Count
  | [], _, c => c
  | this :: slots, prev, c =>
    if IsChirp (br.brElems this) then pairLoop br slots this (countPair br c prev this)
    else pairLoop br slots prev c

def Bin5radars.slots (br : Bin5radars) : List Nat :=
  ringIdxs dfsMaxB5Size br.brFirstelem br.brNumelems

/-- One radar: the first chirp is the reference for the next; without one there is nothing to loop over. -/
def countRadar (br : Bin5radars) (c : Bin5Count) : Bin5Count :=
  match br.slots.dropWhile fun i => ¬ IsChirp (br.brElems i) with
  | [] => c
  | prev :: slots => pairLoop br slots prev c

/-- From the first pulse to the last. -/
def Bin5radars.span (br : Bin5radars) : Nat :=
  tsDelta (br.brElems br.brLastelem).beTs (br.brElems br.brFirstelem).beTs

def checkLoop (radars : Nat → Bin5radars) : List Nat → Bin5Count → Bool × Bin5Count
  | [], c => (false, c)
  | n :: ns, c =>
    let c := countRadar (radars n) c
    if c.bursts ≥ (radars n).brPulse.b5Threshold then
      if (radars n).span < 3000000 then (false, c) else (true, c)
    else checkLoop radars ns c

/-- `dfs_bin5_check`: what it returns, and the counts it ends with. -/
def dfsBin5Check (rnNumbin5radars : Nat) (radars : Nat → Bin5radars) : Bool × Bin5Count :=
  checkLoop radars (List.range rnNumbin5radars) .none

/-! ### What the rings are to hold, and the check to say -/

/-- The neighbours among the pulses, the oldest first, that are a valid pair. -/
def validPairs : List Bin5elem → Nat
  | prev :: this :: l =>
    (if InBurst prev this ∨ BetweenBursts prev this then 1 else 0) + validPairs (this :: l)
  | _ => 0

/-- From the oldest to the newest; the newest is first in the list. -/
def spanOf (l : List Bin5elem) : Nat :=
  (l.head?.elim 0 Bin5elem.beTs) - (l.getLast?.elim 0 Bin5elem.beTs)

/-- The pulses of a radar are of one: there are enough pairs of chirps, and they span three seconds. -/
def Detected (b5Threshold : Nat) (l : List Bin5elem) : Prop :=
  b5Threshold ≤ validPairs (l.reverse.filter fun e => IsChirp e) ∧ 3000000 ≤ spanOf l
deriving Decidable

/-- The radars, and the history: the pulses each has taken, the newest first. -/
structure Bin5State where
  dfsB5radars : Nat → Bin5radars
  taken : Nat → List Bin5elem

namespace Bin5State

/-- The pulses of the last `b5_timewindow`, and of them the last that there is room for. -/
def window (s : Bin5State) (n : Nat) : List Bin5elem :=
  recent Bin5elem.beTs dfsMaxB5Size (s.dfsB5radars n).brPulse.b5Timewindow (s.taken n)

def Detects (s : Bin5State) (n : Nat) : Prop :=
  Detected (s.dfsB5radars n).brPulse.b5Threshold (s.window n)
deriving Decidable

end Bin5State

/-- A call of `dfs_bin5_addpulse`. -/
structure Bin5Add where
  n : Nat
  reRssi : Nat
  reDur : Nat
  thists : Nat

def bin5Add (num : Nat) (s : Bin5State) (a : Bin5Add) : Option Bin5State := do
  guard (a.n < num ∧ a.thists < 2 ^ 64)
  return match dfsBin5Addpulse (s.dfsB5radars a.n) a.reRssi a.reDur a.thists with
    | none => s
    | some br =>
      { dfsB5radars := Function.update s.dfsB5radars a.n br
        taken := Function.update s.taken a.n (⟨a.thists, a.reRssi, a.reDur⟩ :: s.taken a.n) }

/-- A radar as `dfs_reset_alldelaylines` leaves it. -/
def clearedRadar (brPulse : Bin5pulse) : Bin5radars where
  brElems _ := ⟨0, 0, 0⟩
  brFirstelem := 0
  brLastelem := 0xFFFFFFFF &&& dfsMaxB5Mask
  brNumelems := 0
  brPulse := brPulse

def bin5Machine (num : Nat) : Machine Bin5State Bin5Add where
  init s := ∀ n < num, s.taken n = [] ∧ ∃ brPulse, s.dfsB5radars n = clearedRadar brPulse
  step := bin5Add num

def Bin5radars.Holds (br : Bin5radars) (l : List Bin5elem) : Prop :=
  Keeps dfsMaxB5Size br.brElems br.brFirstelem br.brLastelem br.brNumelems l

/-- A pulse is not before one the radar has taken. -/
def PulseInOrder (s : Bin5State) (a : Bin5Add) : Prop := ∀ e ∈ s.taken a.n, e.beTs ≤ a.thists
deriving Decidable

/-- A radar that neither adds to the counts nor is looked at for another's. -/
def Quiet (s : Bin5State) (n : Nat) : Prop :=
  0 < (s.dfsB5radars n).brPulse.b5Threshold ∧ (∀ e ∈ s.window n, ¬ IsChirp e) ∧
    spanOf (s.window n) < 3000000
deriving Decidable

/-- **The condition.**  All radars but one are quiet. -/
def OneSpeaks (num : Nat) (s : Bin5State) : Prop := ∃ n, ∀ m < num, m ≠ n → Quiet s m

/-- Every ring holds the window of its radar, in order. -/
def RingsRight (num : Nat) (s : Bin5State) : Prop :=
  ∀ n < num, (s.dfsB5radars n).Holds (s.window n)

/-- The check writes no more than the array has, and finds a radar if one is detected by its own pulses. -/
def CheckRight (num : Nat) (s : Bin5State) : Prop :=
  (dfsBin5Check num s.dfsB5radars).2.index.length ≤ dfsMaxB5Size ∧
    ((dfsBin5Check num s.dfsB5radars).1 = true ↔ ∃ n < num, s.Detects n)

/-! ### The ring -/

section
variable {br : Bin5radars} {e : Bin5elem} {l : List Bin5elem} {ts ts' first num : Nat}

theorem and_b5Mask (x : Nat) : x &&& dfsMaxB5Mask = x % dfsMaxB5Size := and_mask (k := 7) rfl x

theorem tsDelta_of_le (h : ts' ≤ ts) (ht : ts < 2 ^ 64) : tsDelta ts ts' = ts - ts' := by
  unfold tsDelta
  omega

theorem Bin5radars.Holds.push (h : br.Holds l) (e : Bin5elem) :
    (pushPulse br e).Holds ((e :: l).take dfsMaxB5Size) := by
  have hp := Keeps.push h e
  simpa only [Bin5radars.Holds, pushPulse, and_b5Mask] using hp

@[simp] theorem dropOld_brPulse : (dropOld ts br first num).brPulse = br.brPulse := by
  fun_induction dropOld ts br first num with
  | case1 _ _ _ ih => exact ih
  | case2 => rfl
  | case3 => rfl

/-- **The loop** leaves what is in the window. -/
theorem dropOld_spec (ht : e.beTs < 2 ^ 64) (ho : Ordered Bin5elem.beTs (e :: l))
    (h : Keeps dfsMaxB5Size br.brElems first br.brLastelem num (e :: l)) :
    (dropOld e.beTs br first num).Holds
      ((e :: l).filter fun x => e.beTs - x.beTs ≤ br.brPulse.b5Timewindow) := by
  induction l using reverseRecOn generalizing first num with
  | nil =>
    obtain rfl : num = 1 := h.count
    rw [filter_singleton, Nat.sub_self, decide_eq_true (Nat.zero_le _)]
    exact h
  | append_singleton l x ih =>
    obtain ⟨num, rfl⟩ : ∃ k, num = k + 2 := ⟨l.length, by simpa using h.count⟩
    have hsplit : e :: (l ++ [x]) = (e :: l) ++ [x] := rfl
    rw [hsplit] at h ho ⊢
    obtain ⟨hx, hpop⟩ := h.pop
    obtain ⟨hl, -, hold⟩ := pairwise_append.1 ho
    have hle : ∀ y ∈ e :: l, x.beTs ≤ y.beTs := fun y hy => hold y hy x mem_cons_self
    have hage : tsDelta e.beTs x.beTs = e.beTs - x.beTs :=
      tsDelta_of_le (hle e mem_cons_self) ht
    rw [dropOld, hx, hage]
    split
    · next hout =>
      have hgone : ¬ e.beTs - x.beTs ≤ br.brPulse.b5Timewindow := not_le.2 hout
      rw [and_b5Mask, filter_append, filter_singleton, decide_eq_false hgone]
      simpa using ih hl hpop
    · next hin =>
      have hall : ∀ y ∈ (e :: l) ++ [x], e.beTs - y.beTs ≤ br.brPulse.b5Timewindow := by
        intro y hy
        refine le_trans (Nat.sub_le_sub_left ?_ _) (Nat.not_lt.1 hin)
        rcases mem_append.1 hy with hy | hy
        · exact hle y hy
        · rw [mem_singleton.1 hy]
      rw [filter_eq_self.2 fun y hy => decide_eq_true (hall y hy)]
      exact h

/-- What is kept of a radar: its ring holds the window of what it has taken, which is in order, and an empty one is as it was cleared. -/
structure Bin5Inv (br : Bin5radars) (l : List Bin5elem) : Prop where
  holds : br.Holds (recent Bin5elem.beTs dfsMaxB5Size br.brPulse.b5Timewindow l)
  ordered : Ordered Bin5elem.beTs l
  stamps : ∀ e ∈ l, e.beTs < 2 ^ 64
  cleared : l = [] → br.span = 0

theorem bin5Inv_cleared (brPulse : Bin5pulse) : Bin5Inv (clearedRadar brPulse) [] := by
  have hlast : (clearedRadar brPulse).brLastelem = 127 := by
    show 0xFFFFFFFF &&& dfsMaxB5Mask = 127
    decide
  refine ⟨⟨zero_le _, zero_lt_succ _, ?_, ?_, rfl⟩, List.Pairwise.nil,
    fun _ h => absurd h not_mem_nil, fun _ => ?_⟩
  · rw [hlast]
    decide
  · show 0 = (_ + 1) % dfsMaxB5Size
    rw [hlast]
    decide
  · simp [Bin5radars.span, tsDelta, clearedRadar]

/-- **A pulse.** -/
theorem Bin5Inv.addpulse {br' : Bin5radars} {reRssi reDur : Nat} (h : Bin5Inv br l)
    (ht : ts < 2 ^ 64) (ho : ∀ e ∈ l, e.beTs ≤ ts)
    (hadd : dfsBin5Addpulse br reRssi reDur ts = some br') :
    br'.brPulse = br.brPulse ∧ Bin5Inv br' (⟨ts, reRssi, reDur⟩ :: l) := by
  have ho : Ordered beTs (⟨ts, reRssi, reDur⟩ :: l) :=
    pairwise_cons.2 ⟨ho, h.ordered⟩
  unfold dfsBin5Addpulse at hadd
  split at hadd
  · cases hadd
  · obtain rfl := some.inj hadd
    have hpulse : (dropOld ts (pushPulse br ⟨ts, reRssi, reDur⟩)
        (pushPulse br ⟨ts, reRssi, reDur⟩).brFirstelem
        (pushPulse br ⟨ts, reRssi, reDur⟩).brNumelems).brPulse = br.brPulse := dropOld_brPulse
    refine ⟨hpulse, ?_, ho, ?_, fun hnil => nomatch hnil⟩
    · have htake : ∀ w : List Bin5elem, (⟨ts, reRssi, reDur⟩ :: w).take dfsMaxB5Size
          = ⟨ts, reRssi, reDur⟩ :: w.take 127 := fun _ => rfl
      have hpush := h.holds.push ⟨ts, reRssi, reDur⟩
      have hordered := @Ordered.push _ _ dfsMaxB5Size br.brPulse.b5Timewindow _ _ ho
      rw [hpulse, recent_cons_filter ho (by decide)]
      rw [htake] at hpush hordered ⊢
      exact dropOld_spec ht hordered hpush
    · exact forall_mem_cons.2 ⟨ht, h.stamps⟩

theorem Bin5Inv.span_eq (h : Bin5Inv br l) :
    br.span = spanOf (recent Bin5elem.beTs dfsMaxB5Size br.brPulse.b5Timewindow l) := by
  have hholds := h.holds
  have hsub : (recent beTs dfsMaxB5Size br.brPulse.b5Timewindow l).Sublist l :=
    recent_sublist
  have ho := h.ordered.sublist hsub
  have hempty : recent beTs dfsMaxB5Size br.brPulse.b5Timewindow l = [] → br.span = 0 :=
    fun hnil => h.cleared ((recent_eq_nil (by decide)).1 hnil)
  generalize recent beTs dfsMaxB5Size br.brPulse.b5Timewindow l = w at *
  rcases eq_nil_or_concat' w with rfl | ⟨m, x, rfl⟩
  · exact hempty rfl
  · clear hempty
    have hx := (Keeps.pop hholds).1
    cases m with
    | nil =>
      have hn := Keeps.newest hholds
      rw [Bin5radars.span, hx, hn]
      simp [spanOf, tsDelta]
    | cons y m =>
      have hn := Keeps.newest hholds
      have hlast : (y :: m ++ [x]).getLast? = some x := getLast?_concat
      rw [Bin5radars.span, hx, hn, tsDelta_of_le]
      · rw [spanOf, hlast]
        rfl
      · exact (pairwise_cons.1 ho).1 x (by simp)
      · exact h.stamps y (hsub.subset (by simp))

end

/-! ### The counts -/

section
variable {br : Bin5radars} {c : Bin5Count} {prev this k : Nat} {slots : List Nat}
  {l : List Bin5elem}

/-- The chirps of some slots. -/
def Bin5radars.chirps (br : Bin5radars) (slots : List Nat) : List Bin5elem :=
  (slots.map br.brElems).filter fun e => IsChirp e

theorem chirps_cons_of_pos (h : IsChirp (br.brElems this)) :
    br.chirps (this :: slots) = br.brElems this :: br.chirps slots := by
  simp [chirps, h]

theorem chirps_cons_of_neg (h : ¬ IsChirp (br.brElems this)) :
    br.chirps (this :: slots) = br.chirps slots := by
  simp [chirps, h]

theorem countPair_bursts : (countPair br c prev this).bursts =
    c.bursts + if InBurst (br.brElems prev) (br.brElems this) ∨
      BetweenBursts (br.brElems prev) (br.brElems this) then 1 else 0 := by
  unfold countPair
  split_ifs <;> simp_all

theorem pairLoop_bursts : (pairLoop br slots prev c).bursts
    = c.bursts + validPairs (br.brElems prev :: br.chirps slots) := by
  induction slots generalizing prev c with
  | nil => rfl
  | cons this slots ih =>
    rw [pairLoop]
    split
    · next hchirp =>
      rw [ih, countPair_bursts, chirps_cons_of_pos hchirp, validPairs, add_assoc]
    · next hchirp => rw [ih, chirps_cons_of_neg hchirp]

/-- Of `k` chirps, the last of which is in the slot `prev`, no more have been written, and fewer if that one has not. -/
structure Written (c : Bin5Count) (prev k : Nat) : Prop where
  length_le : c.index.length ≤ k
  length_ne : c.index.length ≠ 1
  last : c.index.head? ≠ some prev → c.index.length < k

theorem Written.countPair (h : Written c prev k) (br : Bin5radars) (this : Nat) :
    Written (countPair br c prev this) this (k + 1) := by
  obtain ⟨hle, hne, hlast⟩ := h
  have hkeep : ∀ bursts, Written ⟨bursts, c.index⟩ this (k + 1) :=
    fun _ => ⟨le_succ_of_le hle, hne, fun _ => lt_succ_of_le hle⟩
  unfold Dfs.countPair
  split
  · split
    · next hold =>
      exact ⟨succ_le_succ hle, by simp only [length_cons]; omega, fun h => absurd head?_cons h⟩
    · next hnew =>
      have hlt : c.index.length < k := by
        by_cases hprev : c.index.head? = some prev
        · have hpos : c.index ≠ [] := fun hnil => by simp [hnil] at hprev
          have hlen := length_pos_iff.2 hpos
          exact absurd ⟨by omega, hprev⟩ hnew
        · exact hlast hprev
      refine ⟨succ_le_succ hlt, by simp only [length_cons]; omega, fun h => absurd head?_cons h⟩
  · split
    · exact hkeep _
    · exact hkeep _

theorem pairLoop_written (h : Written c prev k) :
    (pairLoop br slots prev c).index.length ≤ k + (br.chirps slots).length := by
  induction slots generalizing prev c k with
  | nil => exact h.length_le
  | cons this slots ih =>
    rw [pairLoop]
    split
    · next hchirp =>
      have hle := ih (h.countPair br this)
      rw [chirps_cons_of_pos hchirp, length_cons]
      omega
    · next hchirp =>
      rw [chirps_cons_of_neg hchirp]
      exact ih h

/-- The first loop finds the first chirp. -/
theorem chirps_eq (slots : List Nat) : br.chirps slots =
    match slots.dropWhile fun i => ¬ IsChirp (br.brElems i) with
    | [] => []
    | prev :: slots => br.brElems prev :: br.chirps slots := by
  induction slots with
  | nil => rfl
  | cons this slots ih =>
    by_cases hchirp : IsChirp (br.brElems this)
    · rw [chirps_cons_of_pos hchirp, dropWhile_cons_of_neg (by simpa using hchirp)]
    · rw [chirps_cons_of_neg hchirp, dropWhile_cons_of_pos (by simpa using hchirp), ih]

/-- **One radar**: its pairs are counted, and of its pulses none is written twice. -/
theorem countRadar_spec (h : br.Holds l) (c : Bin5Count) :
    (countRadar br c).bursts = c.bursts + validPairs (l.reverse.filter fun e => IsChirp e) ∧
      (c.index = [] → (countRadar br c).index.length ≤ l.length) ∧
      ((∀ e ∈ l, ¬ IsChirp e) → countRadar br c = c) := by
  have hchirps : l.reverse.filter (fun e => IsChirp e) = br.chirps br.slots := by
    rw [chirps, slots, h.elems]
  have hle : (br.chirps br.slots).length ≤ l.length := by
    rw [← hchirps, ← l.length_reverse]
    exact length_filter_le _ _
  have hquiet : (∀ e ∈ l, ¬ IsChirp e) → br.chirps br.slots = [] := by
    intro hnone
    rw [← hchirps]
    exact filter_eq_nil_iff.2 fun e he => by simpa using hnone e (mem_reverse.1 he)
  have heq : br.chirps br.slots = _ := chirps_eq br.slots
  rw [hchirps, countRadar]
  split at heq
  · rw [heq]
    exact ⟨rfl, fun hnil => by simp [hnil], fun _ => rfl⟩
  · next prev slots _ =>
    rw [heq] at hle hquiet ⊢
    refine ⟨pairLoop_bursts, fun hnil => ?_, fun hnone => absurd (hquiet hnone) (cons_ne_nil _ _)⟩
    have hw : Written c prev 1 := by
      constructor <;> simp [hnil]
    have hwritten : (pairLoop br slots prev c).index.length ≤ 1 + (br.chirps slots).length :=
      pairLoop_written hw
    rw [length_cons] at hle
    omega

end

/-! ### The check -/

section
variable {num n : Nat} {s s' : Bin5State} {c : Bin5Count} {ns : List Nat}

/-- **The invariant.** -/
def RadarsInv (num : Nat) (s : Bin5State) : Prop :=
  ∀ n < num, Bin5Inv (s.dfsB5radars n) (s.taken n)

theorem Quiet.not_detects (h : Quiet s n) : ¬ s.Detects n := by
  intro hd
  exact absurd hd.2 (not_le.2 h.2.2)

theorem checkLoop_quiet (h : RadarsInv num s) (hns : ∀ m ∈ ns, m < num ∧ Quiet s m) :
    checkLoop s.dfsB5radars ns c = (false, c) := by
  induction ns with
  | nil => rfl
  | cons m ns ih =>
    obtain ⟨⟨hm, hq⟩, hns⟩ := forall_mem_cons.1 hns
    have hinv := h m hm
    have hspan : (s.dfsB5radars m).span < 3000000 := hinv.span_eq ▸ hq.2.2
    rw [checkLoop, (countRadar_spec hinv.holds c).2.2 hq.2.1]
    rw [if_pos hspan, ih hns, ite_self]

/-- The radars from one on, of which all but one are quiet. -/
theorem checkLoop_spec (h : RadarsInv num s) (hnd : ns.Nodup) (hns : ∀ m ∈ ns, m < num)
    (hq : ∀ m ∈ ns, m ≠ n → Quiet s m) :
    ((checkLoop s.dfsB5radars ns .none).1 = true ↔ n ∈ ns ∧ s.Detects n) ∧
      (checkLoop s.dfsB5radars ns .none).2.index.length ≤ dfsMaxB5Size := by
  induction ns with
  | nil => simp [checkLoop, Bin5Count.none]
  | cons m ns ih =>
    obtain ⟨hm, hns⟩ := forall_mem_cons.1 hns
    obtain ⟨hqm, hq⟩ := forall_mem_cons.1 hq
    obtain ⟨hnot, hnd⟩ := nodup_cons.1 hnd
    have hinv := h m hm
    have hcount := countRadar_spec hinv.holds .none
    by_cases hmn : m = n
    · subst hmn
      have hrest := fun c => checkLoop_quiet (c := c) h fun i hi =>
        ⟨hns i hi, hq i hi fun he => hnot (he ▸ hi)⟩
      have hindex := hcount.2.1 rfl
      have hroom : (s.window m).length ≤ dfsMaxB5Size := hinv.holds.count ▸ hinv.holds.count_le
      have hdet : s.Detects m ↔ (countRadar (s.dfsB5radars m) .none).bursts
          ≥ (s.dfsB5radars m).brPulse.b5Threshold ∧ ¬ (s.dfsB5radars m).span < 3000000 := by
        rw [hcount.1, hinv.span_eq, not_lt]
        exact Iff.of_eq (congrArg (· ∧ _) (congrArg _ (zero_add _).symm))
      have hle := le_trans hindex hroom
      rw [checkLoop, hrest, hdet]
      split_ifs with hb hspan
      · simp [hb, hspan, hle]
      · simp [hb, hspan, hle]
      · simp [hb, hle]
    · have hqm := hqm hmn
      rw [checkLoop, hcount.2.2 hqm.2.1]
      have hpos : ¬ Bin5Count.none.bursts ≥ (s.dfsB5radars m).brPulse.b5Threshold :=
        not_le.2 hqm.1
      rw [if_neg hpos]
      simpa [Ne.symm hmn] using ih hnd hns hq

/-- **A pulse is added.** -/
theorem RadarsInv.add {a : Bin5Add} (h : RadarsInv num s) (ho : PulseInOrder s a)
    (ha : bin5Add num s a = some s') : RadarsInv num s' := by
  obtain ⟨⟨hn, ht⟩, ha⟩ := guarded_eq_some.1 ha
  subst ha
  intro m hm
  split
  · exact h m hm
  · next br hadd =>
    obtain ⟨-, hinv⟩ := (h a.n hn).addpulse ht ho hadd
    by_cases hma : m = a.n
    · subst hma
      simpa using hinv
    · simpa [hma] using h m hm

/-- **The detection.**  While the pulses come in order every ring holds the window of its radar; and when all radars but one are quiet, the check stays in its array and finds a radar exactly if one is detected. -/
theorem bin5_right (num : Nat) (s : Bin5State) (hs : (bin5Machine num).Reach PulseInOrder s) :
    RingsRight num s ∧ (OneSpeaks num s → CheckRight num s) := by
  have h : RadarsInv num s := by
    refine hs.invariant (RadarsInv num) (fun s h₀ n hn => ?_) fun _ _ _ h ho ha => h.add ho ha
    obtain ⟨htaken, brPulse, hbr⟩ := h₀ n hn
    rw [htaken, hbr]
    exact bin5Inv_cleared brPulse
  refine ⟨fun n hn => (h n hn).holds, ?_⟩
  rintro ⟨n, hq⟩
  obtain ⟨hret, hindex⟩ := checkLoop_spec (n := n) h nodup_range
    (fun m hm => mem_range.1 hm) fun m hm => hq m (mem_range.1 hm)
  refine ⟨hindex, hret.trans ⟨fun hd => ⟨n, mem_range.1 hd.1, hd.2⟩, ?_⟩⟩
  rintro ⟨m, hm, hd⟩
  by_cases hmn : m = n
  · subst hmn
    exact ⟨mem_range.2 hm, hd⟩
  · exact absurd hd (hq m hm hmn).not_detects

end

/-- Radars for which one pair is enough, in a window of 17 seconds. -/
def clearedRadars : Bin5State where
  dfsB5radars _ := clearedRadar ⟨1, 17000000⟩
  taken _ := []

theorem clearedRadars_init (num : Nat) : (bin5Machine num).init clearedRadars :=
  fun _ _ => ⟨rfl, _, rfl⟩

/-- **One radar hides another**: the first has two pulses of one burst, and with it the check ends; the second is detected. -/
theorem bin5_check_ends :
    ∃ s, (bin5Machine 2).run clearedRadars
        [⟨0, 30, 60, 0⟩, ⟨0, 30, 60, 1000⟩, ⟨1, 30, 60, 0⟩, ⟨1, 30, 60, 3000000⟩] = some s ∧
      s.Detects 1 ∧ (dfsBin5Check 2 s.dfsB5radars).1 = false :=
  Machine.exists_run (by decide +kernel)

/-- A burst and a pulse three seconds on, all of one radar. -/
theorem bin5_right_bursts :
    ∃ s, (bin5Machine 2).run clearedRadars
        [⟨0, 30, 60, 0⟩, ⟨0, 30, 60, 1000⟩, ⟨0, 30, 60, 3001000⟩] = some s ∧
      RingsRight 2 s ∧ CheckRight 2 s ∧ (dfsBin5Check 2 s.dfsB5radars).1 = true := by
  refine Machine.exists_reach_of
    (q := fun s => Quiet s 1 ∧ (dfsBin5Check 2 s.dfsB5radars).1 = true) (clearedRadars_init 2)
    (show (bin5Machine 2).Along PulseInOrder clearedRadars _ from by decide +kernel)
    (by decide +kernel) ?_
  rintro s hs ⟨hq, hret⟩
  obtain ⟨hrings, hcheck⟩ := bin5_right 2 s hs
  refine ⟨hrings, hcheck ⟨0, fun m hm hne => ?_⟩, hret⟩
  obtain rfl : m = 1 := by omega
  exact hq

end Qcacld.Dfs

import Qcacld.Support.Layout
import Qcacld.Support.Runs

/-!
# Cfg — CfgApi

The store of the configuration parameters.  All integers lie in one buffer and all strings in another; the control word of a parameter tells what it is and, in its low bits, where it lies.  `processCfgDownloadReq` gives out the places and fills the buffers from the table `cfg_static`; `cfgSetInt`, `cfgSetStr` and the functions that read go by the control word alone.

`Law` is what is to hold of the store: what a parameter reads is what was last set, or its default, and stays within its limits.  `cfg_store_iff` says for which tables it holds after the download, and which calls keep it.
-/

namespace Qcacld.Cfg
open Qcacld.Support Function List Option Nat

/-! ### The table -/

def cfgCtlValid : BitVec 32 := 0x00010000#32
def cfgCtlInt : BitVec 32 := 0x00080000#32
def cfgBufIndxMask : BitVec 32 := 0x00000fff#32
def cfgStaIbufMaxSize : Nat := 250
def cfgStaSbufMaxSize : Nat := 3465

/-- `control & CFG_CTL_VALID` -/
def isValid (control : BitVec 32) : Bool := control &&& cfgCtlValid != 0#32

/-- `control & CFG_CTL_INT` -/
def isInt (control : BitVec 32) : Bool := control &&& cfgCtlInt != 0#32

/-- `control & CFG_BUF_INDX_MASK` -/
def bufIndx (control : BitVec 32) : Nat := (control &&& cfgBufIndxMask).toNat

structure CfgstaticString where
  cfgId : Nat
  maxLen : UInt8
  length : UInt8
  data : List UInt8
  data_length : data.length = 255

/-- `cgstatic`.  A control word of the table has flags only: the place is filled in by the download. -/
structure Cgstatic where
  control : BitVec 32
  cfgImin : UInt32
  cfgImax : UInt32
  cfgIval : UInt32
  flags_only : control &&& cfgBufIndxMask = 0#32

/-- `cfg_static`, of `WNI_CFG_MAX` rows, and `cfg_static_string`. -/
structure CfgTable where
  wniCfgMax : Nat
  cfgStatic : Nat → Cgstatic
  cfgStaticString : List CfgstaticString

open CfgTable

/-- `p_str_data` of a row, as `cfgInit` and `cfg_get_str_index` leave it. -/
def CfgTable.pStrData (t : CfgTable) (i : Nat) : Option CfgstaticString :=
  if isInt (t.cfgStatic i).control then none else t.cfgStaticString.find? (·.cfgId = i)

/-! ### The store -/

structure AniSirCfg where
  gCfgEntry : Nat → BitVec 32
  gCfgIBufMin : Nat → UInt32
  gCfgIBufMax : Nat → UInt32
  gCfgIBuf : Nat → UInt32
  gCfgSBuf : Nat → UInt8

open AniSirCfg

inductive SirRetStatus where
  | success
  | cfgInvalidId
  | cfgInvalidLen
deriving DecidableEq

/-! ### The download -/

/-- Where the first loop of `processCfgDownloadReq` is. -/
structure Placing where
  cfg : AniSirCfg
  icount : BitVec 32
  scount : BitVec 32

namespace AniSirCfg
variable (s : AniSirCfg)

def setEntry (i : Nat) (control : BitVec 32) : AniSirCfg :=
  { s with gCfgEntry := update s.gCfgEntry i control }

def setIBuf (index : Nat) (value : UInt32) : AniSirCfg :=
  { s with gCfgIBuf := update s.gCfgIBuf index value }

/-- Write bytes into the string buffer from `index` on. -/
def blitSBuf (index : Nat) (bytes : List UInt8) : AniSirCfg :=
  { s with gCfgSBuf := blit s.gCfgSBuf index bytes }

end AniSirCfg

/-- The first loop of `processCfgDownloadReq`, at row `i`: give out a place. -/
def placeEntry (t : CfgTable) (i : Nat) (p : Placing) : Placing :=
  let control := (t.cfgStatic i).control
  if isValid control then
    if !isInt control then
      match t.pStrData i with
      | none => p
      | some strCfg =>
        { p with
          cfg := p.cfg.setEntry i (control ||| (p.scount &&& cfgBufIndxMask))
          scount := p.scount + (BitVec.ofNat 32 strCfg.maxLen.toNat + 1 + 1) }
    else
      { p with
        cfg := p.cfg.setEntry i (control ||| (p.icount &&& cfgBufIndxMask))
        icount := p.icount + 1 }
  else { p with cfg := p.cfg.setEntry i (control ||| 0#32) }

/-- The second loop, at row `i`: the room a string has is what is left up to the next one. -/
def markEntry (i : Nat) (m : AniSirCfg × BitVec 32) : AniSirCfg × BitVec 32 :=
  let (s, bufEnd) := m
  if isInt (s.gCfgEntry i) then m
  else if !isValid (s.gCfgEntry i) then m
  else
    let bufStart := s.gCfgEntry i &&& cfgBufIndxMask
    let maxLen := UInt8.ofNat (bufEnd - bufStart - 2#32).toNat
    ({ s with gCfgSBuf := update s.gCfgSBuf bufStart.toNat maxLen }, bufStart)

/-- The third loop, at row `i`: write the defaults. -/
def fillEntry (t : CfgTable) (i : Nat) (s : AniSirCfg) : AniSirCfg :=
  let index := bufIndx (s.gCfgEntry i)
  let row := t.cfgStatic i
  if isInt (s.gCfgEntry i) then
    { s with
      gCfgIBufMin := update s.gCfgIBufMin index row.cfgImin
      gCfgIBufMax := update s.gCfgIBufMax index row.cfgImax
      gCfgIBuf := update s.gCfgIBuf index row.cfgIval }
  else if !isValid (s.gCfgEntry i) then s
  else if cfgStaSbufMaxSize ≤ index then s
  else
    match t.pStrData i with
    | none => s
    | some strCfg =>
      let maxSavedLen := s.gCfgSBuf index
      let len := strCfg.length
      if maxSavedLen < len then s
      else s.blitSBuf index (strCfg.maxLen :: len :: strCfg.data.take len.toNat)

def Placing.start (s : AniSirCfg) : Placing := ⟨s, 0#32, 0#32⟩

def place (t : CfgTable) (s : AniSirCfg) : Placing :=
  t.wniCfgMax.fold (fun i _ => placeEntry t i) (.start s)

def mark (t : CfgTable) (s : AniSirCfg) : AniSirCfg × BitVec 32 :=
  t.wniCfgMax.foldRev (fun i _ => markEntry i) (s, BitVec.ofNat 32 cfgStaSbufMaxSize)

def fill (t : CfgTable) (s : AniSirCfg) : AniSirCfg :=
  t.wniCfgMax.fold (fun i _ => fillEntry t i) s

def processCfgDownloadReq (t : CfgTable) (s : AniSirCfg) : AniSirCfg :=
  fill t (mark t (place t s).cfg).1

/-! ### Setting and reading -/

def cfgSetInt (t : CfgTable) (s : AniSirCfg) (cfgId : Nat) (value : UInt32) :
    SirRetStatus × AniSirCfg :=
  if t.wniCfgMax ≤ cfgId then (.cfgInvalidId, s)
  else
    let control := s.gCfgEntry cfgId
    let index := bufIndx control
    if cfgStaIbufMaxSize ≤ index then (.cfgInvalidId, s)
    else if !isValid control then (.cfgInvalidId, s)
    else if value < s.gCfgIBufMin index ∨ s.gCfgIBufMax index < value then (.cfgInvalidId, s)
    else (.success, s.setIBuf index value)

def wlanCfgGetInt (t : CfgTable) (s : AniSirCfg) (cfgId : Nat) : Except SirRetStatus UInt32 :=
  if t.wniCfgMax ≤ cfgId then .error .cfgInvalidId
  else
    let control := s.gCfgEntry cfgId
    let index := bufIndx control
    if cfgStaIbufMaxSize ≤ index then .error .cfgInvalidId
    else if !isValid control then .error .cfgInvalidId
    else .ok (s.gCfgIBuf index)

/-- `cfgSetStr`: `cfgSetStrNotify` with the string `pStr`, whose notifications leave the store alone. -/
def cfgSetStr (t : CfgTable) (s : AniSirCfg) (cfgId : Nat) (pStr : List UInt8) :
    SirRetStatus × AniSirCfg :=
  if t.wniCfgMax ≤ cfgId then (.cfgInvalidId, s)
  else
    let control := s.gCfgEntry cfgId
    let index := bufIndx control
    if !isValid control then (.cfgInvalidId, s)
    else if cfgStaSbufMaxSize ≤ index then (.cfgInvalidId, s)
    else if (s.gCfgSBuf index).toNat < pStr.length then (.cfgInvalidLen, s)
    else (.success, s.blitSBuf (index + 1) (UInt8.ofNat pStr.length :: pStr))

/-- `wlan_cfgGetStr` into a buffer of `room` bytes -/
def wlanCfgGetStr (t : CfgTable) (s : AniSirCfg) (cfgId room : Nat) :
    Except SirRetStatus (List UInt8) :=
  if t.wniCfgMax ≤ cfgId then .error .cfgInvalidId
  else
    let control := s.gCfgEntry cfgId
    let index := bufIndx control
    if cfgStaSbufMaxSize ≤ index then .error .cfgInvalidId
    else if !isValid control then .error .cfgInvalidId
    else if room < (s.gCfgSBuf (index + 1)).toNat then .error .cfgInvalidLen
    else .ok (span s.gCfgSBuf (index + 2) (s.gCfgSBuf (index + 1)).toNat)

/-- `wlan_cfgGetStrMaxLen`.  An id past the table is not turned away: the words behind `gCfgEntry` are taken for its control word. -/
def wlanCfgGetStrMaxLen (s : AniSirCfg) (cfgId : Nat) : Except SirRetStatus UInt8 :=
  let control := s.gCfgEntry cfgId
  let index := bufIndx control
  if cfgStaSbufMaxSize ≤ index then .error .cfgInvalidId
  else if !isValid control then .error .cfgInvalidId
  else .ok (s.gCfgSBuf index)

/-- `wlan_cfgGetStrLen`, which does not turn away an id past the table either. -/
def wlanCfgGetStrLen (s : AniSirCfg) (cfgId : Nat) : Except SirRetStatus UInt8 :=
  let control := s.gCfgEntry cfgId
  let index := bufIndx control
  if cfgStaSbufMaxSize - 1 ≤ index then .error .cfgInvalidId
  else if !isValid control then .error .cfgInvalidId
  else .ok (s.gCfgSBuf (index + 1))

/-! ### What the table declares -/

/-- A parameter as it is to read: an integer between its limits, or a string of limited length. -/
inductive Param where
  | int (min max val : UInt32)
  | str (maxLen : UInt8) (val : List UInt8)
deriving DecidableEq

open Param

inductive Value where
  | int (val : UInt32)
  | str (val : List UInt8)
deriving DecidableEq

/-- The parameter with another value of its own kind. -/
def Param.holding : Param → Value → Option Param
  | .int min max _, .int v => some (.int min max v)
  | .str maxLen _, .str v => some (.str maxLen v)
  | _, _ => none

def Param.InLimits : Param → Prop
  | .int min max val => min ≤ val ∧ val ≤ max
  | .str maxLen val => val.length ≤ maxLen.toNat

instance : ∀ p, Decidable (Param.InLimits p)
  | .int _ _ _ => inferInstanceAs (Decidable (_ ∧ _))
  | .str _ _ => inferInstanceAs (Decidable (_ ≤ _))

namespace CfgTable
variable (t : CfgTable)

/-- Row `i` is a valid integer parameter. -/
def intAt (i : Nat) : Bool :=
  i < t.wniCfgMax && isValid (t.cfgStatic i).control && isInt (t.cfgStatic i).control

/-- The string that row `i` declares, if it is a valid string parameter. -/
def strAt (i : Nat) : Option CfgstaticString :=
  if i < t.wniCfgMax ∧ isValid (t.cfgStatic i).control then t.pStrData i else none

/-- Row `i` is an integer parameter that is not valid. -/
def invalidIntAt (i : Nat) : Bool :=
  i < t.wniCfgMax && !isValid (t.cfgStatic i).control && isInt (t.cfgStatic i).control

def intParam (i : Nat) : Param :=
  .int (t.cfgStatic i).cfgImin (t.cfgStatic i).cfgImax (t.cfgStatic i).cfgIval

def declared (i : Nat) : Option Param :=
  if t.intAt i then some (t.intParam i)
  else (t.strAt i).map fun d => .str d.maxLen (d.data.take d.length.toNat)

/-- The cells of the integer buffer a row needs. -/
def intSize (i : Nat) : Nat := if t.intAt i then 1 else 0

def strSize (i : Nat) : Nat := ((t.strAt i).map fun d => d.maxLen.toNat + 2).getD 0

/-- The declared sizes fit the buffers, and the default strings their parameters. -/
structure Fits : Prop where
  ints : offset t.intSize t.wniCfgMax ≤ cfgStaIbufMaxSize
  strs : offset t.strSize t.wniCfgMax ≤ cfgStaSbufMaxSize
  defaults : ∀ i, ∀ d ∈ t.strAt i, d.length ≤ d.maxLen

/-- Before the download: the entry of a string parameter for which there is no data, which the download passes over, is blank. -/
def Blank (s : AniSirCfg) : Prop :=
  ∀ i < t.wniCfgMax, isInt (t.cfgStatic i).control = false → t.pStrData i = none →
    s.gCfgEntry i = 0#32

/-- **The condition on the table.**  The default of a valid integer parameter is between its limits; the last invalid one behind the first valid one declares the same as this; and the default of the last string parameter fits in as many bytes as the length of the rest of the buffer has in its low byte. -/
structure Keeps : Prop where
  inRange : ∀ i, t.intAt i → (t.intParam i).InLimits
  lastInvalid : ∀ i j, t.intAt i → (∀ k < i, t.intAt k = false) → i < j → t.invalidIntAt j →
    (∀ k, j < k → t.invalidIntAt k = false) → t.intParam j = t.intParam i
  lastString : ∀ i, ∀ d ∈ t.strAt i, (∀ k, i < k → t.strAt k = none) →
    d.length ≤ UInt8.ofNat (cfgStaSbufMaxSize - offset t.strSize i - 2)

end CfgTable

/-! ### The law -/

/-- The store and what each parameter was last set to. -/
structure Store where
  cfg : AniSirCfg
  lastSet : Nat → Option Value

open Store

def view (t : CfgTable) (s : AniSirCfg) (cfgId : Nat) : Option Param :=
  let control := s.gCfgEntry cfgId
  let index := bufIndx control
  if t.wniCfgMax ≤ cfgId then none
  else if !isValid control then none
  else if isInt control then
    some (.int (s.gCfgIBufMin index) (s.gCfgIBufMax index) (s.gCfgIBuf index))
  else
    some (.str (s.gCfgSBuf index) (span s.gCfgSBuf (index + 2) (s.gCfgSBuf (index + 1)).toNat))

/-- What it is to read: what it was last set to, or its default. -/
def Store.held (t : CfgTable) (s : Store) (cfgId : Nat) : Option Param :=
  (t.declared cfgId).bind fun p => (s.lastSet cfgId).elim (some p) p.holding

structure Law (t : CfgTable) (s : Store) : Prop where
  reads : ∀ i, view t s.cfg i = s.held t i
  inLimits : ∀ i, ∀ p ∈ view t s.cfg i, p.InLimits

inductive Call where
  | setInt (cfgId : Nat) (value : UInt32)
  | setStr (cfgId : Nat) (pStr : List UInt8)
  | getInt (cfgId : Nat)
  | getStr (cfgId room : Nat)
  | getStrMaxLen (cfgId : Nat)
  | getStrLen (cfgId : Nat)

/-- A call that succeeds in setting is recorded. -/
def Store.record (s : Store) (cfgId : Nat) (v : Value) (r : SirRetStatus × AniSirCfg) : Store where
  cfg := r.2
  lastSet := if r.1 = .success then update s.lastSet cfgId (some v) else s.lastSet

def Store.after (t : CfgTable) (s : Store) : Call → Store
  | .setInt cfgId value => s.record cfgId (.int value) (cfgSetInt t s.cfg cfgId value)
  | .setStr cfgId pStr => s.record cfgId (.str pStr) (cfgSetStr t s.cfg cfgId pStr)
  | _ => s

def cfgMachine (t : CfgTable) (s₀ : AniSirCfg) : Machine Store Call where
  init s := s = ⟨processCfgDownloadReq t s₀, fun _ => none⟩
  step s c := some (s.after t c)

/-- Setting `cfgId` right: after it the law holds and no other id reads anything else, and nothing is changed if it is refused. -/
structure SetRight (t : CfgTable) (s s' : Store) (cfgId : Nat) (ret : SirRetStatus) : Prop where
  law : Law t s'
  others : ∀ j, j ≠ cfgId → view t s'.cfg j = view t s.cfg j
  refused : ret ≠ .success → s'.cfg = s.cfg

/-- A read returns what it is to return; if that is nothing, it is refused. -/
def Returns {α : Type} (r : Except SirRetStatus α) : Option α → Prop
  | some v => r = .ok v
  | none => ∃ e, r = .error e

namespace Param

def intRead : Param → Option UInt32
  | .int _ _ v => some v
  | .str _ _ => none

/-- A string that is read into `room` bytes. -/
def strRead (room : Nat) : Param → Option (List UInt8)
  | .int _ _ _ => none
  | .str _ v => if room < v.length then none else some v

def maxLenRead : Param → Option UInt8
  | .int _ _ _ => none
  | .str maxLen _ => some maxLen

def lenRead : Param → Option UInt8
  | .int _ _ _ => none
  | .str _ v => some (UInt8.ofNat v.length)

end Param

/-- **What is to hold of a call.** -/
def CallRight (t : CfgTable) (s : Store) : Call → Prop
  | .setInt i v => SetRight t s (s.after t (.setInt i v)) i (cfgSetInt t s.cfg i v).1
  | .setStr i v => SetRight t s (s.after t (.setStr i v)) i (cfgSetStr t s.cfg i v).1
  | .getInt i => Returns (wlanCfgGetInt t s.cfg i) ((s.held t i).bind Param.intRead)
  | .getStr i room => Returns (wlanCfgGetStr t s.cfg i room) ((s.held t i).bind (Param.strRead room))
  | .getStrMaxLen i => Returns (wlanCfgGetStrMaxLen s.cfg i) ((s.held t i).bind Param.maxLenRead)
  | .getStrLen i => Returns (wlanCfgGetStrLen s.cfg i) ((s.held t i).bind Param.lenRead)

/-- A word is no control word of a string that begins below `size`. -/
def NoString (size : Nat) (control : BitVec 32) : Prop :=
  isValid control = false ∨ size ≤ bufIndx control

/-- **The condition on a call.**  An integer function is not called with a string, nor the other way round, unless it is refused for the index, the range or the lengths that happen to be found; and the length of an id past the table is not asked for, unless the word found there looks like no valid parameter. -/
def CallOk (t : CfgTable) (s : Store) : Call → Prop
  | .setInt i v => t.strAt i ≠ none →
      let index := bufIndx (s.cfg.gCfgEntry i)
      cfgStaIbufMaxSize ≤ index ∨ v < s.cfg.gCfgIBufMin index ∨ s.cfg.gCfgIBufMax index < v
  | .setStr i v => t.intAt i →
      (s.cfg.gCfgSBuf (bufIndx (s.cfg.gCfgEntry i))).toNat < v.length
  | .getInt i => t.strAt i ≠ none → cfgStaIbufMaxSize ≤ bufIndx (s.cfg.gCfgEntry i)
  | .getStr i room => t.intAt i →
      room < (s.cfg.gCfgSBuf (bufIndx (s.cfg.gCfgEntry i) + 1)).toNat
  | .getStrMaxLen i => ¬t.intAt i ∧
      (t.wniCfgMax ≤ i → NoString cfgStaSbufMaxSize (s.cfg.gCfgEntry i))
  | .getStrLen i => ¬t.intAt i ∧
      (t.wniCfgMax ≤ i → NoString (cfgStaSbufMaxSize - 1) (s.cfg.gCfgEntry i))

/-! ### Control words -/

section
variable {c n : BitVec 32}

theorem or_place_indx (h : c &&& cfgBufIndxMask = 0#32) :
    (c ||| (n &&& cfgBufIndxMask)) &&& cfgBufIndxMask = n &&& cfgBufIndxMask := by
  rw [BitVec.and_or_distrib_right, h, BitVec.and_assoc, BitVec.and_self, BitVec.zero_or]

theorem or_place_flag {f : BitVec 32} (hf : cfgBufIndxMask &&& f = 0#32) :
    (c ||| (n &&& cfgBufIndxMask)) &&& f = c &&& f := by
  rw [BitVec.and_or_distrib_right, BitVec.and_assoc, hf, BitVec.and_zero, BitVec.or_zero]

@[simp] theorem isValid_or_place : isValid (c ||| (n &&& cfgBufIndxMask)) = isValid c := by
  rw [isValid, isValid, or_place_flag (by decide)]

@[simp] theorem isInt_or_place : isInt (c ||| (n &&& cfgBufIndxMask)) = isInt c := by
  rw [isInt, isInt, or_place_flag (by decide)]

theorem bufIndx_or_place {k : Nat} (h : c &&& cfgBufIndxMask = 0#32) (hk : k < 4096) :
    bufIndx (c ||| (BitVec.ofNat 32 k &&& cfgBufIndxMask)) = k := by
  rw [bufIndx, or_place_indx h, BitVec.toNat_and, BitVec.toNat_ofNat,
    mod_eq_of_lt (lt_trans hk (by decide))]
  exact (and_two_pow_sub_one_eq_mod k 12).trans (mod_eq_of_lt hk)

@[simp] theorem isValid_zero : isValid 0#32 = false := by decide
@[simp] theorem isInt_zero : isInt 0#32 = false := by decide

end

/-! ### Places -/

section
variable {t : CfgTable} {s s' : AniSirCfg} {e e' : Nat → BitVec 32} {i j k n : Nat}
  {d d' : CfgstaticString}

theorem intAt_iff : t.intAt i = true ↔ i < t.wniCfgMax ∧
    isValid (t.cfgStatic i).control = true ∧ isInt (t.cfgStatic i).control = true := by
  simp [intAt, and_assoc]

theorem invalidIntAt_iff : t.invalidIntAt i = true ↔ i < t.wniCfgMax ∧
    isValid (t.cfgStatic i).control = false ∧ isInt (t.cfgStatic i).control = true := by
  simp [invalidIntAt, and_assoc]

theorem strAt_eq_some : t.strAt i = some d ↔ i < t.wniCfgMax ∧
    isValid (t.cfgStatic i).control = true ∧ isInt (t.cfgStatic i).control = false ∧
      t.pStrData i = some d := by
  rw [strAt, ite_none_right_eq_some, and_assoc]
  refine and_congr_right' (and_congr_right' ⟨fun h => ⟨?_, h⟩, And.right⟩)
  by_contra hi
  rw [pStrData, if_pos (by simpa using hi)] at h
  cases h

theorem intSize_of_intAt (h : t.intAt i = true) : t.intSize i = 1 := if_pos h

theorem intSize_of_not (h : t.intAt i = false) : t.intSize i = 0 := by
  rw [intSize, h]
  rfl

theorem strSize_of_strAt (h : t.strAt i = some d) : t.strSize i = d.maxLen.toNat + 2 := by
  rw [strSize, h]
  rfl

theorem strSize_of_none (h : t.strAt i = none) : t.strSize i = 0 := by
  rw [strSize, h]
  rfl

theorem CfgTable.Fits.int_lt (hf : t.Fits) (h : t.intAt i = true) :
    offset t.intSize i < cfgStaIbufMaxSize := by
  have hle := offset_block_le t.intSize (intAt_iff.1 h).1
  rw [intSize_of_intAt h] at hle
  exact le_trans hle hf.ints

theorem CfgTable.Fits.str_le (hf : t.Fits) (h : t.strAt i = some d) :
    offset t.strSize i + (d.maxLen.toNat + 2) ≤ cfgStaSbufMaxSize := by
  have hle := offset_block_le t.strSize (strAt_eq_some.1 h).1
  rw [strSize_of_strAt h] at hle
  exact le_trans hle hf.strs

theorem intPlace_ne (hi : t.intAt i = true) (hj : t.intAt j = true) (h : i ≠ j) :
    offset t.intSize i ≠ offset t.intSize j := by
  rcases offset_disjoint t.intSize h with hle | hle
  · rw [intSize_of_intAt hi] at hle
    exact Nat.ne_of_lt hle
  · rw [intSize_of_intAt hj] at hle
    exact ne_of_gt hle

theorem strPlace_disjoint (hi : t.strAt i = some d) (hj : t.strAt j = some d') (h : i ≠ j) :
    offset t.strSize i + (d.maxLen.toNat + 2) ≤ offset t.strSize j ∨
      offset t.strSize j + (d'.maxLen.toNat + 2) ≤ offset t.strSize i := by
  rw [← strSize_of_strAt hi, ← strSize_of_strAt hj]
  exact offset_disjoint t.strSize h

@[simp]
theorem gCfgEntry_setEntry {c : BitVec 32} :
    (s.setEntry i c).gCfgEntry = update s.gCfgEntry i c := rfl

/-- The control words of the rows below `n` have been given out. -/
structure Placed (t : CfgTable) (e : Nat → BitVec 32) (n : Nat) : Prop where
  int : ∀ i < n, t.intAt i = true →
    isValid (e i) = true ∧ isInt (e i) = true ∧ bufIndx (e i) = offset t.intSize i
  str : ∀ i < n, ∀ d, t.strAt i = some d →
    isValid (e i) = true ∧ isInt (e i) = false ∧ bufIndx (e i) = offset t.strSize i
  invalidInt : ∀ i < n, t.invalidIntAt i = true →
    isValid (e i) = false ∧ isInt (e i) = true ∧ bufIndx (e i) = 0
  other : ∀ i < n, t.intAt i = false → t.strAt i = none → t.invalidIntAt i = false →
    isValid (e i) = false ∧ isInt (e i) = false

theorem Placed.next (h : Placed t e n) (hkeep : ∀ i < n, e' i = e i) (hint : t.intAt n = true →
      isValid (e' n) = true ∧ isInt (e' n) = true ∧ bufIndx (e' n) = offset t.intSize n)
    (hstr : ∀ d, t.strAt n = some d →
      isValid (e' n) = true ∧ isInt (e' n) = false ∧ bufIndx (e' n) = offset t.strSize n)
    (hinv : t.invalidIntAt n = true →
      isValid (e' n) = false ∧ isInt (e' n) = true ∧ bufIndx (e' n) = 0)
    (hother : t.intAt n = false → t.strAt n = none → t.invalidIntAt n = false →
      isValid (e' n) = false ∧ isInt (e' n) = false) : Placed t e' (n + 1) := by
  constructor
  · intro i hi hat
    rcases Nat.lt_succ_iff_lt_or_eq.1 hi with hi | rfl
    · rw [hkeep i hi]
      exact h.int i hi hat
    · exact hint hat
  · intro i hi d hat
    rcases Nat.lt_succ_iff_lt_or_eq.1 hi with hi | rfl
    · rw [hkeep i hi]
      exact h.str i hi d hat
    · exact hstr d hat
  · intro i hi hat
    rcases Nat.lt_succ_iff_lt_or_eq.1 hi with hi | rfl
    · rw [hkeep i hi]
      exact h.invalidInt i hi hat
    · exact hinv hat
  · intro i hi h₁ h₂ h₃
    rcases Nat.lt_succ_iff_lt_or_eq.1 hi with hi | rfl
    · rw [hkeep i hi]
      exact h.other i hi h₁ h₂ h₃
    · exact hother h₁ h₂ h₃

/-- Where the first loop is before row `n`. -/
structure Placing.Inv (t : CfgTable) (s₀ : AniSirCfg) (n : Nat) (p : Placing) : Prop where
  placed : Placed t p.cfg.gCfgEntry n
  untouched : ∀ i, n ≤ i → p.cfg.gCfgEntry i = s₀.gCfgEntry i
  icount : p.icount = BitVec.ofNat 32 (offset t.intSize n)
  scount : p.scount = BitVec.ofNat 32 (offset t.strSize n)

theorem Placing.Inv.set {s₀ : AniSirCfg} {p : Placing} {c m l : BitVec 32}
    (h : p.Inv t s₀ n) (hplaced : Placed t (update p.cfg.gCfgEntry n c) (n + 1))
    (hi : m = BitVec.ofNat 32 (offset t.intSize (n + 1)))
    (hs : l = BitVec.ofNat 32 (offset t.strSize (n + 1))) :
    (Placing.mk (p.cfg.setEntry n c) m l).Inv t s₀ (n + 1) where
  placed := hplaced
  untouched i hni := by
    have hkeep : (p.cfg.setEntry n c).gCfgEntry i = p.cfg.gCfgEntry i := by
      rw [gCfgEntry_setEntry, update_of_ne (ne_of_gt hni)]
    exact hkeep.trans (h.untouched i (le_of_succ_le hni))
  icount := hi
  scount := hs

theorem placeEntry_inv {s₀ : AniSirCfg} (hf : t.Fits) (hb : t.Blank s₀) (hn : n < t.wniCfgMax)
    {p : Placing} (h : p.Inv t s₀ n) : (placeEntry t n p).Inv t s₀ (n + 1) := by
  have hkeep : ∀ c, ∀ i < n, update p.cfg.gCfgEntry n c i = p.cfg.gCfgEntry i :=
    fun c i hi => by rw [update_of_ne (Nat.ne_of_lt hi)]
  have hflags := (t.cfgStatic n).flags_only
  by_cases hv : isValid (t.cfgStatic n).control = true
  · by_cases hint : isInt (t.cfgStatic n).control = true
    · have hat : t.intAt n = true := intAt_iff.2 ⟨hn, hv, hint⟩
      have hstr : t.strAt n = none := by
        rw [strAt, pStrData, if_pos hint, ite_self]
      have hlt := hf.int_lt hat
      simp only [placeEntry, hv, hint, Bool.not_true, if_true, Bool.false_eq_true, if_false]
      refine h.set (h.placed.next (hkeep _) (fun _ => ?_) (fun d hd => ?_) (fun hi => ?_)
        fun hi => ?_) ?_ ?_
      · rw [update_self, isValid_or_place, isInt_or_place, h.icount]
        exact ⟨hv, hint, bufIndx_or_place hflags (lt_trans hlt (by decide))⟩
      · rw [hstr] at hd
        cases hd
      · rw [(invalidIntAt_iff.1 hi).2.1] at hv
        cases hv
      · rw [hat] at hi
        cases hi
      · rw [h.icount, offset_succ, intSize_of_intAt hat, BitVec.ofNat_add]
        rfl
      · rw [h.scount, offset_succ, strSize_of_none hstr, add_zero]
    · have hint' : isInt (t.cfgStatic n).control = false := by simpa using hint
      have hat : t.intAt n = false := by simp [intAt, hint']
      have hinv : t.invalidIntAt n = false := by simp [invalidIntAt, hint']
      cases hd : t.pStrData n with
      | none =>
        have hstr : t.strAt n = none := by rw [strAt, hd, ite_self]
        simp only [placeEntry, hv, hint', Bool.not_false, if_true, hd]
        have hblank : p.cfg.gCfgEntry n = 0#32 := by
          rw [h.untouched n (le_refl n)]
          exact hb n hn hint' hd
        refine ⟨h.placed.next (fun _ _ => rfl) (fun hi => ?_) (fun d hd => ?_) (fun hi => ?_)
          fun _ _ _ => ?_, fun i hi => h.untouched i (le_of_succ_le hi), ?_, ?_⟩
        · rw [hat] at hi
          cases hi
        · rw [hstr] at hd
          cases hd
        · rw [hinv] at hi
          cases hi
        · rw [hblank]
          exact ⟨isValid_zero, isInt_zero⟩
        · rw [h.icount, offset_succ, intSize_of_not hat, add_zero]
        · rw [h.scount, offset_succ, strSize_of_none hstr, add_zero]
      | some d =>
        have hstr : t.strAt n = some d := strAt_eq_some.2 ⟨hn, hv, hint', hd⟩
        have hle := hf.str_le hstr
        simp only [placeEntry, hv, hint', Bool.not_false, if_true, hd]
        refine h.set (h.placed.next (hkeep _) (fun hi => ?_) (fun d' hd' => ?_) (fun hi => ?_)
          fun _ hs => ?_) ?_ ?_
        · rw [hat] at hi
          cases hi
        · rw [update_self, isValid_or_place, isInt_or_place, h.scount]
          refine ⟨hv, hint', bufIndx_or_place hflags (lt_of_lt_of_le ?_ (le_trans hle (by decide)))⟩
          omega
        · rw [hinv] at hi
          cases hi
        · rw [hstr] at hs
          cases hs
        · rw [h.icount, offset_succ, intSize_of_not hat, add_zero]
        · rw [h.scount, offset_succ, strSize_of_strAt hstr, BitVec.ofNat_add, BitVec.ofNat_add,
            BitVec.add_assoc]
          rfl
  · have hv' : isValid (t.cfgStatic n).control = false := by simpa using hv
    have hat : t.intAt n = false := by simp [intAt, hv']
    have hstr : t.strAt n = none := by rw [strAt, hv', if_neg (by simp)]
    simp only [placeEntry, hv', Bool.false_eq_true, if_false, BitVec.or_zero]
    refine h.set (h.placed.next (hkeep _) (fun hi => ?_) (fun d hd => ?_) (fun hi => ?_)
      fun _ _ hi => ?_) ?_ ?_
    · rw [hat] at hi
      cases hi
    · rw [hstr] at hd
      cases hd
    · rw [update_self]
      exact ⟨hv', (invalidIntAt_iff.1 hi).2.2, by rw [bufIndx, hflags]; rfl⟩
    · rw [update_self]
      refine ⟨hv', ?_⟩
      by_contra hint
      rw [invalidIntAt_iff.2 ⟨hn, hv', by simpa using hint⟩] at hi
      cases hi
    · rw [h.icount, offset_succ, intSize_of_not hat, add_zero]
    · rw [h.scount, offset_succ, strSize_of_none hstr, add_zero]

theorem place_placed (hf : t.Fits) (hb : t.Blank s) :
    Placed t (place t s).cfg.gCfgEntry t.wniCfgMax := by
  refine Placing.Inv.placed (fold_rule (Placing.Inv t s) ?_ fun n p hn h => placeEntry_inv hf hb hn h)
  exact ⟨⟨fun i hi => absurd hi (not_lt_zero i), fun i hi => absurd hi (not_lt_zero i),
    fun i hi => absurd hi (not_lt_zero i), fun i hi => absurd hi (not_lt_zero i)⟩,
    fun _ _ => rfl, rfl, rfl⟩

/-! ### The room of the strings -/

theorem Placed.strAt_of (h : Placed t e t.wniCfgMax) (hi : i < t.wniCfgMax)
    (hint : isInt (e i) = false) (hv : isValid (e i) = true) : ∃ d, t.strAt i = some d := by
  cases hat : t.intAt i with
  | true =>
    rw [(h.int i hi hat).2.1] at hint
    cases hint
  | false =>
    cases hd : t.strAt i with
    | some d => exact ⟨d, rfl⟩
    | none =>
      cases hinv : t.invalidIntAt i with
      | true =>
        rw [(h.invalidInt i hi hinv).2.1] at hint
        cases hint
      | false =>
        rw [(h.other i hi hat hd hinv).1] at hv
        cases hv

/-- The length byte of a string after the second loop: the declared length, but for the last string. -/
def markedLen (t : CfgTable) (i : Nat) (d : CfgstaticString) (b : UInt8) : Prop :=
  ((∃ k, i < k ∧ t.strAt k ≠ none) → b = d.maxLen) ∧ ((∀ k, i < k → t.strAt k = none) →
      b = UInt8.ofNat (cfgStaSbufMaxSize - offset t.strSize i - 2))

/-- Where the second loop is after row `n`. -/
structure MarkInv (t : CfgTable) (s₀ : AniSirCfg) (n : Nat) (m : AniSirCfg × BitVec 32) : Prop where
  entry : m.1.gCfgEntry = s₀.gCfgEntry
  marked : ∀ i, n ≤ i → ∀ d, t.strAt i = some d →
    markedLen t i d (m.1.gCfgSBuf (offset t.strSize i))
  bufEnd : (∃ k, n ≤ k ∧ t.strAt k ≠ none) → m.2 = BitVec.ofNat 32 (offset t.strSize n)
  bufEnd_last : (∀ k, n ≤ k → t.strAt k = none) → m.2 = BitVec.ofNat 32 cfgStaSbufMaxSize

theorem room_toNat (h : i + 2 ≤ j) (hj : j < 4096) :
    (BitVec.ofNat 32 j - BitVec.ofNat 32 i - 2#32).toNat = j - i - 2 := by
  rw [BitVec.toNat_sub, BitVec.toNat_sub, BitVec.toNat_ofNat, BitVec.toNat_ofNat,
    BitVec.toNat_ofNat]
  omega

theorem markEntry_skip {m : AniSirCfg × BitVec 32} {s₀ : AniSirCfg} (h : MarkInv t s₀ (n + 1) m)
    (hd : t.strAt n = none) : MarkInv t s₀ n m where
  entry := h.entry
  marked i hi d hat := by
    refine h.marked i (lt_of_le_of_ne hi fun heq => ?_) d hat
    rw [← heq, hd] at hat
    cases hat
  bufEnd := by
    rintro ⟨k, hk, hne⟩
    have hnk : n ≠ k := fun heq => hne (heq ▸ hd)
    rw [h.bufEnd ⟨k, lt_of_le_of_ne hk hnk, hne⟩, offset_succ, strSize_of_none hd, add_zero]
  bufEnd_last hnone := h.bufEnd_last fun k hk => hnone k (le_of_succ_le hk)

theorem markEntry_inv {s₀ : AniSirCfg} (hf : t.Fits) (hp : Placed t s₀.gCfgEntry t.wniCfgMax)
    (hn : n < t.wniCfgMax) {m : AniSirCfg × BitVec 32} (h : MarkInv t s₀ (n + 1) m) :
    MarkInv t s₀ n (markEntry n m) := by
  obtain ⟨u, bufEnd⟩ := m
  have hentry : u.gCfgEntry = s₀.gCfgEntry := h.entry
  cases hd : t.strAt n with
  | none =>
    have hskip : markEntry n (u, bufEnd) = (u, bufEnd) := by
      dsimp only [markEntry]
      rw [hentry]
      by_cases hint : isInt (s₀.gCfgEntry n) = true
      · rw [if_pos hint]
      · rw [if_neg hint]
        by_cases hv : isValid (s₀.gCfgEntry n) = true
        · obtain ⟨d, hd'⟩ := hp.strAt_of hn (by simpa using hint) hv
          rw [hd] at hd'
          cases hd'
        · rw [if_pos (by simpa using hv)]
    rw [hskip]
    exact markEntry_skip h hd
  | some d =>
    obtain ⟨hv, hint, hidx⟩ := hp.str n hn d hd
    have hplace : s₀.gCfgEntry n &&& cfgBufIndxMask = BitVec.ofNat 32 (offset t.strSize n) := by
      rw [← hidx, bufIndx, BitVec.ofNat_toNat, BitVec.setWidth_eq]
    have hle := hf.str_le hd
    have hlt : offset t.strSize n < 4096 := by
      rw [cfgStaSbufMaxSize] at hle
      omega
    have hmark : markEntry n (u, bufEnd) = ({ u with
        gCfgSBuf := update u.gCfgSBuf (offset t.strSize n)
          (UInt8.ofNat (bufEnd - BitVec.ofNat 32 (offset t.strSize n) - 2#32).toNat) },
        BitVec.ofNat 32 (offset t.strSize n)) := by
      dsimp only [markEntry]
      rw [hentry, if_neg (by simp [hint]), if_neg (by simp [hv]), hplace, BitVec.toNat_ofNat,
        mod_eq_of_lt (lt_trans hlt (by decide))]
    rw [hmark]
    refine ⟨hentry, fun i hi d' hat => ?_, fun _ => rfl, fun hnone => ?_⟩
    · rcases lt_or_eq_of_le hi with hi | rfl
      · -- a later string begins behind the one that is marked now
        have hne : offset t.strSize i ≠ offset t.strSize n := by
          have hle := offset_block_le t.strSize hi
          rw [strSize_of_strAt hd] at hle
          omega
        dsimp only
        rw [update_of_ne hne]
        exact h.marked i hi d' hat
      · rw [hd] at hat
        cases hat
        dsimp only
        rw [update_self]
        refine ⟨fun ⟨k, hk, hne⟩ => ?_, fun hnone => ?_⟩
        · have hend : bufEnd = _ := h.bufEnd ⟨k, hk, hne⟩
          have hnext : offset t.strSize (n + 1) ≤ cfgStaSbufMaxSize := by
            rw [offset_succ, strSize_of_strAt hd]
            exact hle
          rw [cfgStaSbufMaxSize] at hnext
          rw [hend, room_toNat ?_ (lt_of_le_of_lt hnext (by decide)), offset_succ,
            strSize_of_strAt hd]
          · rw [Nat.add_sub_cancel_left, Nat.add_sub_cancel, UInt8.ofNat_toNat]
          · rw [offset_succ, strSize_of_strAt hd]
            omega
        · have hend : bufEnd = _ := h.bufEnd_last hnone
          rw [hend, room_toNat (by omega) (by decide)]
    · rw [hnone n (le_refl n)] at hd
      cases hd

theorem mark_inv {s₀ : AniSirCfg} (hf : t.Fits) (hp : Placed t s₀.gCfgEntry t.wniCfgMax) :
    MarkInv t s₀ 0 (mark t s₀) := by
  have hnone : ∀ k, t.wniCfgMax ≤ k → t.strAt k = none := fun k hk => by
    rw [strAt, if_neg fun h => not_lt.2 hk h.1]
  refine foldRev_rule (MarkInv t s₀) ⟨rfl, fun i hi d hd => ?_, fun ⟨k, hk, hne⟩ => ?_, fun _ => rfl⟩
    fun n m hn h => markEntry_inv hf hp hn h
  · rw [hnone i hi] at hd
    cases hd
  · exact absurd (hnone k hk) hne

/-! ### The defaults -/

def AniSirCfg.intPlace (s : AniSirCfg) (x : Nat) : Param :=
  .int (s.gCfgIBufMin x) (s.gCfgIBufMax x) (s.gCfgIBuf x)

/-- The string at a place, with its maximum length. -/
def AniSirCfg.strPlace (s : AniSirCfg) (x : Nat) : Param :=
  .str (s.gCfgSBuf x) (span s.gCfgSBuf (x + 2) (s.gCfgSBuf (x + 1)).toNat)

def CfgstaticString.param (d : CfgstaticString) : Param :=
  .str d.maxLen (d.data.take d.length.toNat)

theorem CfgstaticString.length_take (d : CfgstaticString) :
    (d.data.take d.length.toNat).length = d.length.toNat := by
  rw [List.length_take, d.data_length]
  exact min_eq_left (le_of_lt_succ d.length.toNat_lt)

theorem strPlace_blit {x : Nat} {m l : UInt8} {v : List UInt8} (hl : v.length = l.toNat) :
    (s.blitSBuf x (m :: l :: v)).strPlace x = .str m v := by
  have hlen : blit s.gCfgSBuf x (m :: l :: v) (x + 1) = l := blit_cons_self
  have hval : span (blit (update (update s.gCfgSBuf x m) (x + 1) l) (x + 2) v)
      (x + 2) v.length = v := span_blit
  rw [strPlace, blitSBuf]
  dsimp only
  rw [hlen, blit_cons_self, ← hl]
  exact congrArg (str m) hval

theorem strPlace_congr {s' : AniSirCfg} {x m : Nat} (hl : (s.gCfgSBuf (x + 1)).toNat ≤ m)
    (h : ∀ k, x ≤ k → k < x + (m + 2) → s'.gCfgSBuf k = s.gCfgSBuf k) :
    s'.strPlace x = s.strPlace x := by
  rw [strPlace, strPlace, h x (le_refl x) (by omega),
    h (x + 1) (by omega) (by omega), span_congr fun k hk hkm => h k (by omega) (by omega)]

/-- Where the third loop is before row `n`. -/
structure FillInv (t : CfgTable) (s₀ : AniSirCfg) (n : Nat) (s : AniSirCfg) : Prop where
  entry : s.gCfgEntry = s₀.gCfgEntry
  ints : ∀ i < n, isInt (s₀.gCfgEntry i) = true →
    (∀ k, i < k → k < n → isInt (s₀.gCfgEntry k) = true →
      bufIndx (s₀.gCfgEntry k) ≠ bufIndx (s₀.gCfgEntry i)) →
    s.intPlace (bufIndx (s₀.gCfgEntry i)) = t.intParam i
  strs : ∀ i < n, ∀ d, t.strAt i = some d → d.length ≤ s₀.gCfgSBuf (offset t.strSize i) →
    s.strPlace (offset t.strSize i) = d.param
  kept : ∀ i d, t.strAt i = some d → n ≤ i ∨ s₀.gCfgSBuf (offset t.strSize i) < d.length →
    s.gCfgSBuf (offset t.strSize i) = s₀.gCfgSBuf (offset t.strSize i)

theorem FillInv.skip {s₀ : AniSirCfg} (h : FillInv t s₀ n s) (hd : t.strAt n = none)
    (hentry : s'.gCfgEntry = s.gCfgEntry) (hs : s'.gCfgSBuf = s.gCfgSBuf)
    (hold : ∀ x, (isInt (s₀.gCfgEntry n) = true → bufIndx (s₀.gCfgEntry n) ≠ x) →
      s'.intPlace x = s.intPlace x)
    (hnew : isInt (s₀.gCfgEntry n) = true →
      s'.intPlace (bufIndx (s₀.gCfgEntry n)) = t.intParam n) : FillInv t s₀ (n + 1) s' where
  entry := hentry.trans h.entry
  ints i hi hint hlast := by
    rcases Nat.lt_succ_iff_lt_or_eq.1 hi with hi | rfl
    · rw [hold _ fun hn => hlast n hi (lt_succ_self n) hn]
      exact h.ints i hi hint fun k hk hkn => hlast k hk (lt_succ_of_lt hkn)
    · exact hnew hint
  strs i hi d hat hle := by
    have hsame : s'.strPlace (offset t.strSize i) = s.strPlace (offset t.strSize i) := by
      rw [strPlace, strPlace, hs]
    rw [hsame]
    rcases Nat.lt_succ_iff_lt_or_eq.1 hi with hi | rfl
    · exact h.strs i hi d hat hle
    · rw [hd] at hat
      cases hat
  kept i d hat hi := by
    rw [hs]
    exact h.kept i d hat (hi.imp le_of_succ_le id)

theorem FillInv.skipString {s₀ : AniSirCfg} {d : CfgstaticString} (h : FillInv t s₀ n s)
    (hd : t.strAt n = some d) (hint : isInt (s₀.gCfgEntry n) = false)
    (hlt : s₀.gCfgSBuf (offset t.strSize n) < d.length) : FillInv t s₀ (n + 1) s where
  entry := h.entry
  ints i hi hi' hlast := by
    rcases Nat.lt_succ_iff_lt_or_eq.1 hi with hi | rfl
    · exact h.ints i hi hi' fun k hk hkn => hlast k hk (lt_succ_of_lt hkn)
    · rw [hint] at hi'
      cases hi'
  strs i hi d' hat hle := by
    rcases Nat.lt_succ_iff_lt_or_eq.1 hi with hi | rfl
    · exact h.strs i hi d' hat hle
    · rw [hd] at hat
      cases hat
      exact absurd hlt (UInt8.not_lt.2 hle)
  kept i d' hat hi := h.kept i d' hat (hi.imp le_of_succ_le id)

theorem FillInv.writeString {s₀ : AniSirCfg} {d : CfgstaticString} (hf : t.Fits)
    (h : FillInv t s₀ n s) (hd : t.strAt n = some d) (hint : isInt (s₀.gCfgEntry n) = false)
    (hle : d.length ≤ s₀.gCfgSBuf (offset t.strSize n)) :
    FillInv t s₀ (n + 1) (s.blitSBuf (offset t.strSize n)
      (d.maxLen :: d.length :: d.data.take d.length.toNat)) := by
  have hmax : d.length.toNat ≤ d.maxLen.toNat := UInt8.le_iff_toNat_le.1 (hf.defaults n d hd)
  have hapart : ∀ i d', t.strAt i = some d' → n ≠ i → ∀ k, offset t.strSize i ≤ k →
      k < offset t.strSize i + (d'.maxLen.toNat + 2) →
      blit s.gCfgSBuf (offset t.strSize n) (d.maxLen :: d.length :: d.data.take d.length.toNat) k
        = s.gCfgSBuf k := by
    intro i d' hat hne k hk hki
    refine blit_of_disjoint ?_
    rw [length_cons, length_cons, d.length_take]
    rcases strPlace_disjoint hd hat hne with hle | hle <;> omega
  refine ⟨h.entry, fun i hi hi' hlast => ?_, fun i hi d' hat hle' => ?_, fun i d' hat hi => ?_⟩
  · rcases Nat.lt_succ_iff_lt_or_eq.1 hi with hi | rfl
    · exact h.ints i hi hi' fun k hk hkn => hlast k hk (lt_succ_of_lt hkn)
    · rw [hint] at hi'
      cases hi'
  · rcases Nat.lt_succ_iff_lt_or_eq.1 hi with hi | rfl
    · have hold := h.strs i hi d' hat hle'
      have hlen : (s.gCfgSBuf (offset t.strSize i + 1)).toNat = d'.length.toNat := by
        have hval : span s.gCfgSBuf (offset t.strSize i + 2)
            (s.gCfgSBuf (offset t.strSize i + 1)).toNat = d'.data.take d'.length.toNat :=
          (str.inj hold).2
        rw [← d'.length_take, ← hval, length_span]
      rw [← hold]
      refine strPlace_congr (m := d'.maxLen.toNat) ?_ (hapart i d' hat (ne_of_gt hi))
      rw [hlen]
      exact UInt8.le_iff_toNat_le.1 (hf.defaults i d' hat)
    · rw [hd] at hat
      cases hat
      exact strPlace_blit d.length_take
  · have hne : n ≠ i := by
      rintro rfl
      rw [hd] at hat
      cases hat
      exact hi.elim (not_succ_le_self n) fun hlt => absurd hlt (UInt8.not_lt.2 hle)
    exact (hapart i d' hat hne _ (le_refl _) (by omega)).trans
      (h.kept i d' hat (hi.imp le_of_succ_le id))

theorem fillEntry_inv {s₀ : AniSirCfg} (hf : t.Fits) (hp : Placed t s₀.gCfgEntry t.wniCfgMax)
    (hn : n < t.wniCfgMax) (h : FillInv t s₀ n s) : FillInv t s₀ (n + 1) (fillEntry t n s) := by
  have hentry : s.gCfgEntry n = s₀.gCfgEntry n := congrFun h.entry n
  cases hd : t.strAt n with
  | none =>
    by_cases hint : isInt (s₀.gCfgEntry n) = true
    · simp only [fillEntry, hentry, if_pos hint]
      refine h.skip hd rfl rfl (fun x hx => ?_) fun _ => ?_
      · have hne := (hx hint).symm
        simp [intPlace, update_of_ne hne]
      · simp only [intPlace, update_self]
        rfl
    · have hstay : fillEntry t n s = s := by
        simp only [fillEntry, hentry, if_neg hint]
        by_cases hv : isValid (s₀.gCfgEntry n) = true
        · obtain ⟨d, hd'⟩ := hp.strAt_of hn (by simpa using hint) hv
          rw [hd] at hd'
          cases hd'
        · rw [if_pos (by simpa using hv)]
      rw [hstay]
      exact h.skip hd rfl rfl (fun _ _ => rfl) fun hi => absurd hi hint
  | some d =>
    obtain ⟨hv, hint, hidx⟩ := hp.str n hn d hd
    have hle := hf.str_le hd
    have hpstr := (strAt_eq_some.1 hd).2.2.2
    have hkept := h.kept n d hd (.inl (le_refl n))
    simp only [fillEntry, hentry, hint, hv, hidx, hpstr, hkept, Bool.not_true, Bool.false_eq_true,
      if_false]
    rw [if_neg (by omega)]
    by_cases hlt : s₀.gCfgSBuf (offset t.strSize n) < d.length
    · rw [if_pos hlt]
      exact h.skipString hd hint hlt
    · rw [if_neg hlt]
      exact h.writeString hf hd hint (UInt8.not_lt.1 hlt)

theorem fill_inv {s₀ : AniSirCfg} (hf : t.Fits) (hp : Placed t s₀.gCfgEntry t.wniCfgMax) :
    FillInv t s₀ t.wniCfgMax (fill t s₀) :=
  fold_rule (FillInv t s₀) ⟨rfl, fun i hi => absurd hi (not_lt_zero i),
    fun i hi => absurd hi (not_lt_zero i), fun _ _ _ _ => rfl⟩
    fun _ _ hn h => fillEntry_inv hf hp hn h

/-! ### After the download -/

theorem Placed.invalid (h : Placed t e t.wniCfgMax) (hi : i < t.wniCfgMax)
    (hint : t.intAt i = false) (hstr : t.strAt i = none) : isValid (e i) = false := by
  cases hinv : t.invalidIntAt i with
  | true => exact (h.invalidInt i hi hinv).1
  | false => exact (h.other i hi hint hstr hinv).1

theorem Placed.isInt_cases (h : Placed t e t.wniCfgMax) (hi : i < t.wniCfgMax)
    (hint : isInt (e i) = true) : t.intAt i = true ∨ t.invalidIntAt i = true := by
  cases hat : t.intAt i with
  | true => exact .inl rfl
  | false =>
    cases hinv : t.invalidIntAt i with
    | true => exact .inr rfl
    | false =>
      cases hd : t.strAt i with
      | none => rw [(h.other i hi hat hd hinv).2] at hint; cases hint
      | some d => rw [(h.str i hi d hd).2.1] at hint; cases hint

theorem strAt_of_intAt (h : t.intAt i = true) : t.strAt i = none := by
  cases hd : t.strAt i with
  | none => rfl
  | some d =>
    have hint := (strAt_eq_some.1 hd).2.2.1
    rw [(intAt_iff.1 h).2.2] at hint
    cases hint

theorem intAt_of_strAt (h : t.strAt i = some d) : t.intAt i = false := by
  cases hat : t.intAt i with
  | false => rfl
  | true =>
    rw [strAt_of_intAt hat] at h
    cases h

theorem declared_int (h : t.intAt i = true) : t.declared i = some (t.intParam i) := if_pos h

theorem declared_str (h : t.strAt i = some d) : t.declared i = some d.param := by
  rw [declared, if_neg (by simp [intAt_of_strAt h]), h]
  rfl

theorem declared_none (hint : t.intAt i = false) (hstr : t.strAt i = none) :
    t.declared i = none := by
  rw [declared, if_neg (by simp [hint]), hstr]
  rfl

theorem view_int (h : Placed t s.gCfgEntry t.wniCfgMax) (hat : t.intAt i = true) :
    view t s i = some (s.intPlace (offset t.intSize i)) := by
  have hi := (intAt_iff.1 hat).1
  obtain ⟨hv, hint, hidx⟩ := h.int i hi hat
  rw [view, if_neg (not_le.2 hi), if_neg (by simp [hv]), if_pos hint, hidx]
  rfl

theorem view_str (h : Placed t s.gCfgEntry t.wniCfgMax) (hat : t.strAt i = some d) :
    view t s i = some (s.strPlace (offset t.strSize i)) := by
  have hi := (strAt_eq_some.1 hat).1
  obtain ⟨hv, hint, hidx⟩ := h.str i hi d hat
  rw [view, if_neg (not_le.2 hi), if_neg (by simp [hv]), if_neg (by simp [hint]), hidx]
  rfl

theorem view_none (h : Placed t s.gCfgEntry t.wniCfgMax) (hint : t.intAt i = false)
    (hstr : t.strAt i = none) : view t s i = none := by
  rw [view]
  by_cases hi : t.wniCfgMax ≤ i
  · rw [if_pos hi]
  · rw [if_neg hi, if_pos (by simp [h.invalid (not_le.1 hi) hint hstr])]

structure Downloaded (t : CfgTable) (s : AniSirCfg) : Prop where
  placed : Placed t s.gCfgEntry t.wniCfgMax
  ints : ∀ i, t.intAt i = true → (∀ k, i < k → t.invalidIntAt k = true → offset t.intSize i ≠ 0) →
    s.intPlace (offset t.intSize i) = t.intParam i
  invalidInt : ∀ i j, t.intAt i = true → i < j → t.invalidIntAt j = true →
    (∀ k, j < k → t.invalidIntAt k = false) → s.intPlace 0 = t.intParam j
  strs : ∀ i d, t.strAt i = some d → ∃ b, markedLen t i d b ∧
    (d.length ≤ b → s.strPlace (offset t.strSize i) = d.param) ∧
    (b < d.length → s.gCfgSBuf (offset t.strSize i) = b)

theorem processCfgDownloadReq_downloaded (hf : t.Fits) (hb : t.Blank s) :
    Downloaded t (processCfgDownloadReq t s) := by
  have hplaced := place_placed hf hb
  have hmark := mark_inv hf hplaced
  have hplaced' : Placed t (mark t (place t s).cfg).1.gCfgEntry t.wniCfgMax := by
    rw [hmark.entry]
    exact hplaced
  have hfill := fill_inv hf hplaced'
  have hlt : ∀ k, t.intAt k = true ∨ t.invalidIntAt k = true → k < t.wniCfgMax := fun k hk =>
    hk.elim (fun h => (intAt_iff.1 h).1) fun h => (invalidIntAt_iff.1 h).1
  refine ⟨?_, fun i hat hne => ?_, fun i j hat hij hinv hlast => ?_, fun i d hat => ?_⟩
  · rw [processCfgDownloadReq, hfill.entry]
    exact hplaced'
  · have hi := (intAt_iff.1 hat).1
    obtain ⟨-, hint, hidx⟩ := hplaced'.int i hi hat
    have hfilled := hfill.ints i hi hint fun k hik hk hintk => by
      rw [hidx]
      rcases hplaced'.isInt_cases hk hintk with hatk | hinvk
      · rw [(hplaced'.int k hk hatk).2.2]
        exact intPlace_ne hatk hat (ne_of_gt hik)
      · rw [(hplaced'.invalidInt k hk hinvk).2.2]
        exact (hne k hik hinvk).symm
    rwa [hidx] at hfilled
  · have hj := hlt j (.inr hinv)
    obtain ⟨-, hint, hidx⟩ := hplaced'.invalidInt j hj hinv
    have hfilled := hfill.ints j hj hint fun k hjk hk hintk => by
      rw [hidx]
      rcases hplaced'.isInt_cases hk hintk with hatk | hinvk
      · -- an integer behind the first one has a place of its own
        rw [(hplaced'.int k hk hatk).2.2]
        have hle := offset_block_le t.intSize (lt_trans hij hjk)
        rw [intSize_of_intAt hat] at hle
        exact ne_of_gt (lt_of_lt_of_le (succ_pos _) hle)
      · rw [hlast k hjk] at hinvk
        cases hinvk
    rwa [hidx] at hfilled
  · have hi := (strAt_eq_some.1 hat).1
    exact ⟨_, hmark.marked i (zero_le i) d hat, hfill.strs i hi d hat,
      fun hlt => hfill.kept i d hat (.inr hlt)⟩

theorem exists_last {p : Nat → Bool} (hp : ∀ k, p k = true → k < n) (hj : p j = true) :
    ∃ m, j ≤ m ∧ p m = true ∧ ∀ k, m < k → p k = false := by
  refine ⟨findGreatest (fun k => p k = true) n, le_findGreatest (hp j hj).le hj,
    findGreatest_spec (P := fun k => p k = true) (hp j hj).le hj, fun k hk => ?_⟩
  by_contra hpk
  have hpk' : p k = true := by simpa using hpk
  exact findGreatest_is_greatest hk (hp k hpk').le hpk'

theorem Downloaded.int_of_keeps (h : Downloaded t s) (hk : t.Keeps) (hat : t.intAt i = true) :
    s.intPlace (offset t.intSize i) = t.intParam i := by
  by_cases hzero : offset t.intSize i = 0
  · have hfirst : ∀ k < i, t.intAt k = false := fun k hki => by
      cases hatk : t.intAt k with
      | false => rfl
      | true =>
        have hle := offset_block_le t.intSize hki
        rw [intSize_of_intAt hatk, hzero] at hle
        exact absurd hle (not_succ_le_zero _)
    by_cases hinv : ∃ j, i < j ∧ t.invalidIntAt j = true
    · obtain ⟨j, hij, hj⟩ := hinv
      obtain ⟨m, hjm, hm, hlast⟩ := exists_last (fun k hk => (invalidIntAt_iff.1 hk).1) hj
      have him := lt_of_lt_of_le hij hjm
      rw [hzero, h.invalidInt i m hat him hm hlast]
      exact hk.lastInvalid i m hat hfirst him hm hlast
    · exact h.ints i hat fun k hik hk => absurd ⟨k, hik, hk⟩ hinv
  · exact h.ints i hat fun _ _ _ => hzero

/-- The default of a string other than the last fits its room, and that of the last if the table keeps it. -/
theorem Downloaded.str_of_keeps (hf : t.Fits) (h : Downloaded t s) (hk : t.Keeps)
    (hat : t.strAt i = some d) : s.strPlace (offset t.strSize i) = d.param := by
  obtain ⟨b, ⟨hnext, hlast⟩, hfits, -⟩ := h.strs i d hat
  refine hfits ?_
  by_cases hnone : ∀ k, i < k → t.strAt k = none
  · rw [hlast hnone]
    exact hk.lastString i d hat hnone
  · rw [hnext (by simpa using hnone)]
    exact hf.defaults i d hat

theorem held_start : Store.held t ⟨s, fun _ => none⟩ i = t.declared i := by
  rw [held]
  cases t.declared i <;> rfl

/-- **The download, exactly.** -/
theorem Downloaded.law_iff (hf : t.Fits) (h : Downloaded t s) :
    Law t ⟨s, fun _ => none⟩ ↔ t.Keeps := by
  constructor
  · intro hl
    have hint : ∀ i, t.intAt i = true → s.intPlace (offset t.intSize i) = t.intParam i := by
      intro i hat
      have hreads := hl.reads i
      rw [held_start, declared_int hat] at hreads
      exact some.inj ((view_int h.placed hat).symm.trans hreads)
    refine ⟨fun i hat => ?_, fun i j hat hfirst hij hinv hlast => ?_, fun i d hat hnone => ?_⟩
    · refine hl.inLimits i _ ?_
      rw [← hint i hat]
      exact view_int h.placed hat
    · have hzero : offset t.intSize i = 0 := by
        refine Finset.sum_eq_zero fun k hk => intSize_of_not (hfirst k ?_)
        exact Finset.mem_range.1 hk
      rw [← hint i hat, hzero, h.invalidInt i j hat hij hinv hlast]
    · obtain ⟨b, ⟨-, hlast⟩, -, hkept⟩ := h.strs i d hat
      rw [← hlast hnone]
      by_contra hlt
      have hreads := hl.reads i
      rw [held_start, declared_str hat] at hreads
      have hplace := some.inj ((view_str h.placed hat).symm.trans hreads)
      have hmax : s.gCfgSBuf (offset t.strSize i) = d.maxLen := (str.inj hplace).1
      rw [hkept (UInt8.not_le.1 hlt)] at hmax
      exact hlt (hmax ▸ hf.defaults i d hat)
  · intro hk
    have hview : ∀ i, view t s i = t.declared i := by
      intro i
      cases hat : t.intAt i with
      | true => rw [view_int h.placed hat, h.int_of_keeps hk hat, declared_int hat]
      | false =>
        cases hd : t.strAt i with
        | none => rw [view_none h.placed hat hd, declared_none hat hd]
        | some d => rw [view_str h.placed hd, h.str_of_keeps hf hk hd, declared_str hd]
    refine ⟨fun i => ?_, fun i p hp => ?_⟩
    · rw [held_start]
      exact hview i
    · rw [hview i] at hp
      cases hat : t.intAt i with
      | true =>
        rw [declared_int hat] at hp
        cases hp
        exact hk.inRange i hat
      | false =>
        cases hd : t.strAt i with
        | none =>
          rw [declared_none hat hd] at hp
          cases hp
        | some d =>
          rw [declared_str hd] at hp
          cases hp
          exact (d.length_take).trans_le (UInt8.le_iff_toNat_le.1 (hf.defaults i d hd))

end

/-! ### Calls -/

section
variable {t : CfgTable} {s : Store} {u : AniSirCfg} {c : Call} {i : Nat} {v : UInt32}
  {w : List UInt8} {d : CfgstaticString} {p q : Param} {x : Value}

theorem holding_of_held (h : s.held t i = some p) :
    ((t.declared i).bind fun q => q.holding x) = p.holding x := by
  rw [held] at h
  cases hd : t.declared i with
  | none =>
    rw [hd] at h
    cases h
  | some q =>
    rw [hd] at h
    cases hl : s.lastSet i with
    | none =>
      rw [hl] at h
      cases h
      rfl
    | some y =>
      rw [hl] at h
      have hqy : q.holding y = some p := h
      rw [bind_some]
      cases q <;> cases y <;> cases hqy <;> cases x <;> rfl

theorem held_record_self : Store.held t ⟨u, update s.lastSet i (some x)⟩ i
    = (t.declared i).bind fun q => q.holding x := by
  rw [held]
  dsimp only
  rw [update_self]
  rfl

theorem held_record_of_ne {j : Nat} (h : j ≠ i) :
    Store.held t ⟨u, update s.lastSet i (some x)⟩ j = s.held t j := by
  rw [held]
  dsimp only
  rw [update_of_ne h]
  rfl

/-- Setting a parameter of its own kind, within its limits, and nothing else keeps the law. -/
theorem Law.set (h : Law t s) (hi : view t s.cfg i = some p) (hx : p.holding x = some q)
    (hview : view t u i = some q) (hothers : ∀ j, j ≠ i → view t u j = view t s.cfg j)
    (hlim : q.InLimits) : Law t ⟨u, update s.lastSet i (some x)⟩ where
  reads j := by
    by_cases hj : j = i
    · subst hj
      rw [held_record_self, holding_of_held ((h.reads j).symm.trans hi), hx]
      exact hview
    · rw [held_record_of_ne hj, ← h.reads j]
      exact hothers j hj
  inLimits j r hr := by
    by_cases hj : j = i
    · subst hj
      rw [hview] at hr
      cases hr
      exact hlim
    · rw [hothers j hj] at hr
      exact h.inLimits j r hr

theorem not_law_of_mismatch (h : Law t s) (hi : view t s.cfg i = some p)
    (hx : p.holding x = none) (hview : view t u i ≠ none) :
    ¬Law t ⟨u, update s.lastSet i (some x)⟩ := fun hl =>
  hview (by rw [hl.reads i, held_record_self, holding_of_held ((h.reads i).symm.trans hi), hx])

theorem setRight_refused (h : Law t s) {ret : SirRetStatus} : SetRight t s s i ret :=
  ⟨h, fun _ _ => rfl, fun _ => rfl⟩

theorem record_refused {ret : SirRetStatus} (h : ret ≠ .success) :
    s.record i x (ret, s.cfg) = s := by
  rw [record, if_neg h]

theorem record_success : s.record i x (.success, u) = ⟨u, update s.lastSet i (some x)⟩ := by
  rw [record, if_pos rfl]

theorem Placed.unknown (h : Placed t u.gCfgEntry t.wniCfgMax) (hint : t.intAt i = false)
    (hstr : t.strAt i = none) : t.wniCfgMax ≤ i ∨ isValid (u.gCfgEntry i) = false :=
  (lt_or_ge i t.wniCfgMax).symm.imp_right fun hi => h.invalid hi hint hstr

def IntAccepted (t : CfgTable) (u : AniSirCfg) (i : Nat) (v : UInt32) : Prop :=
  i < t.wniCfgMax ∧ isValid (u.gCfgEntry i) = true ∧ bufIndx (u.gCfgEntry i) < cfgStaIbufMaxSize ∧
    u.gCfgIBufMin (bufIndx (u.gCfgEntry i)) ≤ v ∧ v ≤ u.gCfgIBufMax (bufIndx (u.gCfgEntry i))

theorem cfgSetInt_accepted (h : IntAccepted t u i v) :
    cfgSetInt t u i v = (.success, u.setIBuf (bufIndx (u.gCfgEntry i)) v) := by
  obtain ⟨hi, hv, hidx, hmin, hmax⟩ := h
  rw [cfgSetInt, if_neg (not_le.2 hi)]
  rw [if_neg (not_le.2 hidx), if_neg (by simp [hv]),
    if_neg (not_or.2 ⟨UInt32.not_lt.2 hmin, UInt32.not_lt.2 hmax⟩)]

theorem cfgSetInt_refused (h : ¬IntAccepted t u i v) : cfgSetInt t u i v = (.cfgInvalidId, u) := by
  rw [cfgSetInt]
  split
  · rfl
  · next hi =>
    dsimp only
    split
    · rfl
    · next hidx =>
      split
      · rfl
      · next hv =>
        split
        · rfl
        · next hr =>
          obtain ⟨hmin, hmax⟩ := not_or.1 hr
          exact absurd ⟨not_le.1 hi, by simpa using hv, not_le.1 hidx,
            UInt32.not_lt.1 hmin, UInt32.not_lt.1 hmax⟩ h

def StrAccepted (t : CfgTable) (u : AniSirCfg) (i : Nat) (w : List UInt8) : Prop :=
  i < t.wniCfgMax ∧ isValid (u.gCfgEntry i) = true ∧ bufIndx (u.gCfgEntry i) < cfgStaSbufMaxSize ∧
    w.length ≤ (u.gCfgSBuf (bufIndx (u.gCfgEntry i))).toNat

theorem cfgSetStr_accepted (h : StrAccepted t u i w) : cfgSetStr t u i w = (.success,
    u.blitSBuf (bufIndx (u.gCfgEntry i) + 1) (UInt8.ofNat w.length :: w)) := by
  obtain ⟨hi, hv, hidx, hlen⟩ := h
  rw [cfgSetStr, if_neg (not_le.2 hi)]
  rw [if_neg (by simp [hv]), if_neg (not_le.2 hidx), if_neg (not_lt.2 hlen)]

theorem cfgSetStr_refused (h : ¬StrAccepted t u i w) :
    ∃ ret, ret ≠ .success ∧ cfgSetStr t u i w = (ret, u) := by
  rw [cfgSetStr]
  split
  · exact ⟨_, by decide, rfl⟩
  · next hi =>
    dsimp only
    split
    · exact ⟨_, by decide, rfl⟩
    · next hv =>
      split
      · exact ⟨_, by decide, rfl⟩
      · next hidx =>
        split
        · exact ⟨_, by decide, rfl⟩
        · next hlen =>
          exact absurd ⟨not_le.1 hi, by simpa using hv, not_le.1 hidx, not_lt.1 hlen⟩ h

theorem intPlace_setIBuf_of_ne {k j : Nat} (h : j ≠ k) :
    (u.setIBuf k v).intPlace j = u.intPlace j := by
  simp [intPlace, setIBuf, update_of_ne h]

theorem intPlace_setIBuf_self {k : Nat} :
    (u.setIBuf k v).intPlace k = .int (u.gCfgIBufMin k) (u.gCfgIBufMax k) v := by
  simp [intPlace, setIBuf]

theorem view_setIBuf (hp : Placed t u.gCfgEntry t.wniCfgMax) (hat : t.intAt i = true) {j : Nat}
    (hj : j ≠ i) : view t (u.setIBuf (offset t.intSize i) v) j = view t u j := by
  have hp' : Placed t (u.setIBuf (offset t.intSize i) v).gCfgEntry t.wniCfgMax := hp
  cases hatj : t.intAt j with
  | true =>
    rw [view_int hp hatj, view_int hp' hatj, intPlace_setIBuf_of_ne (intPlace_ne hatj hat hj)]
  | false =>
    cases hd : t.strAt j with
    | none => rw [view_none hp hatj hd, view_none hp' hatj hd]
    | some d =>
      rw [view_str hp hd, view_str hp' hd]
      rfl

theorem view_setIBuf_self (hp : Placed t u.gCfgEntry t.wniCfgMax) (hat : t.intAt i = true) :
    view t (u.setIBuf (offset t.intSize i) v) i = some (.int
      (u.gCfgIBufMin (offset t.intSize i)) (u.gCfgIBufMax (offset t.intSize i)) v) := by
  have hp' : Placed t (u.setIBuf (offset t.intSize i) v).gCfgEntry t.wniCfgMax := hp
  rw [view_int hp' hat, intPlace_setIBuf_self]

theorem setInt_right (hp : Placed t s.cfg.gCfgEntry t.wniCfgMax) (h : Law t s)
    (hat : t.intAt i = true) (hacc : IntAccepted t s.cfg i v) :
    CallRight t s (.setInt i v) := by
  obtain ⟨-, -, hidx⟩ := hp.int i (intAt_iff.1 hat).1 hat
  rw [CallRight, Store.after, cfgSetInt_accepted hacc, record_success, hidx]
  obtain ⟨-, -, -, hlim⟩ := hacc
  rw [hidx] at hlim
  have hothers := fun j (hj : j ≠ i) => view_setIBuf (v := v) hp hat hj
  exact ⟨h.set (view_int hp hat) rfl (view_setIBuf_self hp hat) hothers hlim, hothers,
    fun hne => absurd rfl hne⟩

theorem setInt_right_iff (hp : Placed t s.cfg.gCfgEntry t.wniCfgMax) (h : Law t s) :
    CallRight t s (.setInt i v) ↔ CallOk t s (.setInt i v) := by
  by_cases hacc : IntAccepted t s.cfg i v
  · cases hat : t.intAt i with
    | true =>
      refine iff_of_true (setInt_right hp h hat hacc) ?_
      intro hne
      exact absurd (strAt_of_intAt hat) hne
    | false =>
      cases hd : t.strAt i with
      | none =>
        rcases hp.unknown hat hd with hi | hv
        · exact absurd hacc.1 (not_lt.2 hi)
        · have hv' := hacc.2.1
          rw [hv] at hv'
          cases hv'
      | some d =>
        refine iff_of_false (fun hr => ?_) fun hok => ?_
        · have hlaw : Law t (s.after t (.setInt i v)) := hr.law
          rw [Store.after, cfgSetInt_accepted hacc, record_success] at hlaw
          have hp' : Placed t (s.cfg.setIBuf (bufIndx (s.cfg.gCfgEntry i)) v).gCfgEntry
            t.wniCfgMax := hp
          refine not_law_of_mismatch h (view_str hp hd) rfl ?_ hlaw
          rw [view_str hp' hd]
          exact some_ne_none _
        · obtain ⟨-, -, hidx, hmin, hmax⟩ := hacc
          have hsome : t.strAt i ≠ none := by
            rw [hd]
            exact some_ne_none d
          rcases hok hsome with hle | hlt | hlt
          · exact not_lt.2 hle hidx
          · exact UInt32.not_lt.2 hmin hlt
          · exact UInt32.not_lt.2 hmax hlt
  · refine iff_of_true ?_ fun hne => ?_
    · rw [CallRight, Store.after, cfgSetInt_refused hacc, record_refused (by decide)]
      exact setRight_refused h
    · obtain ⟨d, hd⟩ := ne_none_iff_exists'.1 hne
      have hi := (strAt_eq_some.1 hd).1
      obtain ⟨hv, -, -⟩ := hp.str i hi d hd
      by_contra hcon
      simp only [not_or] at hcon
      exact hacc ⟨hi, hv, not_le.1 hcon.1, UInt32.not_lt.1 hcon.2.1, UInt32.not_lt.1 hcon.2.2⟩

theorem view_blitSBuf (hp : Placed t u.gCfgEntry t.wniCfgMax) (hd : t.strAt i = some d)
    (hw : w.length ≤ d.maxLen.toNat) {j : Nat} (hj : j ≠ i)
    (hlen : ∀ d', t.strAt j = some d' →
      (u.gCfgSBuf (offset t.strSize j + 1)).toNat ≤ d'.maxLen.toNat) {l : UInt8} :
    view t (u.blitSBuf (offset t.strSize i + 1) (l :: w)) j = view t u j := by
  have hp' : Placed t (u.blitSBuf (offset t.strSize i + 1) (l :: w)).gCfgEntry t.wniCfgMax := hp
  cases hatj : t.intAt j with
  | true =>
    rw [view_int hp hatj, view_int hp' hatj]
    rfl
  | false =>
    cases hd' : t.strAt j with
    | none => rw [view_none hp hatj hd', view_none hp' hatj hd']
    | some d' =>
      rw [view_str hp hd', view_str hp' hd', strPlace_congr (hlen d' hd') fun k hk hkj => ?_]
      refine blit_of_disjoint ?_
      rw [length_cons]
      rcases strPlace_disjoint hd hd' hj.symm with hle | hle <;> omega

theorem view_blitSBuf_self (hp : Placed t u.gCfgEntry t.wniCfgMax) (hd : t.strAt i = some d)
    (hw : w.length < 256) :
    view t (u.blitSBuf (offset t.strSize i + 1) (UInt8.ofNat w.length :: w)) i =
      some (.str (u.gCfgSBuf (offset t.strSize i)) w) := by
  have hp' : Placed t (u.blitSBuf (offset t.strSize i + 1) (UInt8.ofNat w.length :: w)).gCfgEntry
    t.wniCfgMax := hp
  have hmax : blit u.gCfgSBuf (offset t.strSize i + 1) (UInt8.ofNat w.length :: w)
      (offset t.strSize i) = u.gCfgSBuf (offset t.strSize i) := blit_of_lt (lt_succ_self _)
  have hval : span (blit (update u.gCfgSBuf (offset t.strSize i + 1)
      (UInt8.ofNat w.length)) (offset t.strSize i + 2) w) (offset t.strSize i + 2) w.length = w :=
    span_blit
  rw [view_str hp' hd, strPlace, blitSBuf]
  dsimp only
  rw [hmax, blit_cons_self, UInt8.toNat_ofNat_of_lt' hw]
  exact congrArg (fun w => some (str _ w)) hval

/-- A string is never longer than it may be, and its maximum length is the declared one. -/
theorem Law.str_lengths (hp : Placed t s.cfg.gCfgEntry t.wniCfgMax) (h : Law t s)
    (hd : t.strAt i = some d) : s.cfg.gCfgSBuf (offset t.strSize i) = d.maxLen ∧
      (s.cfg.gCfgSBuf (offset t.strSize i + 1)).toNat ≤ d.maxLen.toNat := by
  have hview := view_str hp hd
  have hmax : s.cfg.gCfgSBuf (offset t.strSize i) = d.maxLen := by
    have hheld : s.held t i = some (s.cfg.strPlace (offset t.strSize i)) :=
      (h.reads i).symm.trans hview
    have hself := holding_of_held (x := .str []) hheld
    rw [declared_str hd] at hself
    exact (str.inj (some.inj hself)).1.symm
  have hlim := h.inLimits i _ hview
  have hlen : (span s.cfg.gCfgSBuf (offset t.strSize i + 2)
      (s.cfg.gCfgSBuf (offset t.strSize i + 1)).toNat).length
        ≤ (s.cfg.gCfgSBuf (offset t.strSize i)).toNat := hlim
  rw [length_span, hmax] at hlen
  exact ⟨hmax, hlen⟩

theorem setStr_right (hp : Placed t s.cfg.gCfgEntry t.wniCfgMax) (h : Law t s)
    (hd : t.strAt i = some d) (hacc : StrAccepted t s.cfg i w) :
    CallRight t s (.setStr i w) := by
  obtain ⟨-, -, hidx⟩ := hp.str i (strAt_eq_some.1 hd).1 d hd
  rw [CallRight, Store.after, cfgSetStr_accepted hacc, record_success, hidx]
  have hw := hacc.2.2.2
  rw [hidx, (h.str_lengths hp hd).1] at hw
  have hlt : w.length < 256 := lt_of_le_of_lt hw d.maxLen.toNat_lt
  have hothers : ∀ j, j ≠ i → view t (s.cfg.blitSBuf (offset t.strSize i + 1)
      (UInt8.ofNat w.length :: w)) j = view t s.cfg j := fun j hj =>
    view_blitSBuf hp hd hw hj fun d' hd' => (h.str_lengths hp hd').2
  refine ⟨h.set (view_str hp hd) rfl (view_blitSBuf_self hp hd hlt) hothers ?_, hothers,
    fun hne => absurd rfl hne⟩
  rw [← (h.str_lengths hp hd).1] at hw
  exact hw

theorem setStr_right_iff (hp : Placed t s.cfg.gCfgEntry t.wniCfgMax) (hf : t.Fits)
    (h : Law t s) : CallRight t s (.setStr i w) ↔ CallOk t s (.setStr i w) := by
  by_cases hacc : StrAccepted t s.cfg i w
  · cases hd : t.strAt i with
    | some d =>
      refine iff_of_true (setStr_right hp h hd hacc) ?_
      intro hat
      rw [strAt_of_intAt hat] at hd
      cases hd
    | none =>
      cases hat : t.intAt i with
      | false =>
        rcases hp.unknown hat hd with hi | hv
        · exact absurd hacc.1 (not_lt.2 hi)
        · have hv' := hacc.2.1
          rw [hv] at hv'
          cases hv'
      | true =>
        refine iff_of_false (fun hr => ?_) fun hok => not_lt.2 hacc.2.2.2 (hok hat)
        have hlaw : Law t (s.after t (.setStr i w)) := hr.law
        rw [Store.after, cfgSetStr_accepted hacc, record_success] at hlaw
        have hp' : Placed t (s.cfg.blitSBuf (bufIndx (s.cfg.gCfgEntry i) + 1)
          (UInt8.ofNat w.length :: w)).gCfgEntry t.wniCfgMax := hp
        refine not_law_of_mismatch h (view_int hp hat) rfl ?_ hlaw
        rw [view_int hp' hat]
        exact some_ne_none _
  · refine iff_of_true ?_ fun hat => ?_
    · obtain ⟨ret, hne, href⟩ := cfgSetStr_refused hacc
      rw [CallRight, Store.after, href, record_refused hne]
      exact setRight_refused h
    · have hi := (intAt_iff.1 hat).1
      obtain ⟨hv, -, hidx⟩ := hp.int i hi hat
      have hlt := hf.int_lt hat
      by_contra hcon
      refine hacc ⟨hi, hv, ?_, not_lt.1 hcon⟩
      rw [hidx]
      exact lt_trans hlt (by decide)

/-! ### Reads -/

theorem kinds (t : CfgTable) (i : Nat) : t.intAt i = true ∨ (∃ d, t.strAt i = some d) ∨
    t.intAt i = false ∧ t.strAt i = none := by
  cases hat : t.intAt i with
  | true => exact .inl rfl
  | false =>
    cases hd : t.strAt i with
    | none => exact .inr (.inr ⟨rfl, rfl⟩)
    | some d => exact .inr (.inl ⟨d, rfl⟩)

theorem held_int (hp : Placed t s.cfg.gCfgEntry t.wniCfgMax) (h : Law t s)
    (hat : t.intAt i = true) : s.held t i = some (s.cfg.intPlace (offset t.intSize i)) :=
  (h.reads i).symm.trans (view_int hp hat)

theorem held_str (hp : Placed t s.cfg.gCfgEntry t.wniCfgMax) (h : Law t s)
    (hd : t.strAt i = some d) : s.held t i = some (s.cfg.strPlace (offset t.strSize i)) :=
  (h.reads i).symm.trans (view_str hp hd)

theorem held_none (hat : t.intAt i = false) (hd : t.strAt i = none) : s.held t i = none := by
  rw [held, declared_none hat hd]
  rfl

theorem not_ok_of_error {α : Type} {r : Except SirRetStatus α} {a : α} (h : r = .ok a) :
    ¬∃ e, r = .error e := by
  rintro ⟨e, he⟩
  rw [h] at he
  cases he

theorem wlanCfgGetInt_ok (hi : i < t.wniCfgMax) (hv : isValid (u.gCfgEntry i) = true)
    (hidx : bufIndx (u.gCfgEntry i) < cfgStaIbufMaxSize) :
    wlanCfgGetInt t u i = .ok (u.gCfgIBuf (bufIndx (u.gCfgEntry i))) := by
  rw [wlanCfgGetInt, if_neg (not_le.2 hi)]
  rw [if_neg (not_le.2 hidx), if_neg (by simp [hv])]

theorem wlanCfgGetInt_error (h : t.wniCfgMax ≤ i ∨ isValid (u.gCfgEntry i) = false ∨
    cfgStaIbufMaxSize ≤ bufIndx (u.gCfgEntry i)) : ∃ e, wlanCfgGetInt t u i = .error e := by
  rw [wlanCfgGetInt]
  split
  · exact ⟨_, rfl⟩
  · dsimp only
    split
    · exact ⟨_, rfl⟩
    · rw [if_pos]
      · exact ⟨_, rfl⟩
      · rcases h with h | h | h
        · contradiction
        · simp [h]
        · contradiction

theorem getInt_right_iff (hp : Placed t s.cfg.gCfgEntry t.wniCfgMax) (hf : t.Fits)
    (h : Law t s) : CallRight t s (.getInt i) ↔ CallOk t s (.getInt i) := by
  rcases kinds t i with hat | ⟨d, hd⟩ | ⟨hat, hd⟩
  · have hi := (intAt_iff.1 hat).1
    obtain ⟨hv, -, hidx⟩ := hp.int i hi hat
    refine iff_of_true ?_ fun hne => absurd (strAt_of_intAt hat) hne
    rw [CallRight, held_int hp h hat, wlanCfgGetInt_ok hi hv (by rw [hidx]; exact hf.int_lt hat), hidx]
    rfl
  · have hi := (strAt_eq_some.1 hd).1
    obtain ⟨hv, -, -⟩ := hp.str i hi d hd
    rw [CallRight, held_str hp h hd]
    constructor
    · intro hr hne
      by_contra hlt
      exact not_ok_of_error (wlanCfgGetInt_ok hi hv (not_le.1 hlt)) hr
    · intro hok
      exact wlanCfgGetInt_error (.inr (.inr (hok (by rw [hd]; exact some_ne_none d))))
  · refine iff_of_true ?_ fun hne => absurd hd hne
    rw [CallRight, held_none hat hd]
    exact wlanCfgGetInt_error ((hp.unknown hat hd).imp_right .inl)

theorem wlanCfgGetStr_ok {room : Nat} (hi : i < t.wniCfgMax) (hv : isValid (u.gCfgEntry i) = true)
    (hidx : bufIndx (u.gCfgEntry i) < cfgStaSbufMaxSize) : wlanCfgGetStr t u i room =
      if room < (u.gCfgSBuf (bufIndx (u.gCfgEntry i) + 1)).toNat then .error .cfgInvalidLen
      else .ok (span u.gCfgSBuf (bufIndx (u.gCfgEntry i) + 2)
        (u.gCfgSBuf (bufIndx (u.gCfgEntry i) + 1)).toNat) := by
  rw [wlanCfgGetStr, if_neg (not_le.2 hi)]
  rw [if_neg (not_le.2 hidx), if_neg (by simp [hv])]

theorem wlanCfgGetStr_error {room : Nat} (h : t.wniCfgMax ≤ i ∨ isValid (u.gCfgEntry i) = false) :
    ∃ e, wlanCfgGetStr t u i room = .error e := by
  rw [wlanCfgGetStr]
  split
  · exact ⟨_, rfl⟩
  · dsimp only
    split
    · exact ⟨_, rfl⟩
    · rw [if_pos]
      · exact ⟨_, rfl⟩
      · rcases h with h | h
        · contradiction
        · simp [h]

theorem getStr_right_iff {room : Nat} (hp : Placed t s.cfg.gCfgEntry t.wniCfgMax) (hf : t.Fits)
    (h : Law t s) : CallRight t s (.getStr i room) ↔ CallOk t s (.getStr i room) := by
  rcases kinds t i with hat | ⟨d, hd⟩ | ⟨hat, hd⟩
  · have hi := (intAt_iff.1 hat).1
    obtain ⟨hv, -, hidx⟩ := hp.int i hi hat
    have hlt : bufIndx (s.cfg.gCfgEntry i) < cfgStaSbufMaxSize := by
      rw [hidx]
      exact lt_trans (hf.int_lt hat) (by decide)
    rw [CallRight, held_int hp h hat, wlanCfgGetStr_ok hi hv hlt]
    constructor
    · intro hr _
      by_contra hroom
      rw [if_neg hroom] at hr
      exact not_ok_of_error rfl hr
    · intro hok
      rw [if_pos (hok hat)]
      exact ⟨_, rfl⟩
  · have hi := (strAt_eq_some.1 hd).1
    obtain ⟨hv, -, hidx⟩ := hp.str i hi d hd
    have hlt : bufIndx (s.cfg.gCfgEntry i) < cfgStaSbufMaxSize := by
      rw [hidx]
      exact lt_of_lt_of_le (by omega) (hf.str_le hd)
    refine iff_of_true ?_ fun hat => ?_
    · rw [CallRight, held_str hp h hd, wlanCfgGetStr_ok hi hv hlt, hidx, bind_some,
        strPlace, strRead, length_span]
      by_cases hroom : room < (s.cfg.gCfgSBuf (offset t.strSize i + 1)).toNat
      · rw [if_pos hroom, if_pos hroom]
        exact ⟨_, rfl⟩
      · rw [if_neg hroom, if_neg hroom]
        rfl
    · rw [strAt_of_intAt hat] at hd
      cases hd
  · refine iff_of_true ?_ fun hat' => ?_
    · rw [CallRight, held_none hat hd]
      exact wlanCfgGetStr_error (hp.unknown hat hd)
    · rw [hat] at hat'
      cases hat'

/-- A read of a length through the control word alone: the byte `k` cells behind its place, if the word is one of a string that begins below `size`. -/
def lengthRead (size k : Nat) (u : AniSirCfg) (i : Nat) : Except SirRetStatus UInt8 :=
  if size ≤ bufIndx (u.gCfgEntry i) then .error .cfgInvalidId
  else if !isValid (u.gCfgEntry i) then .error .cfgInvalidId
  else .ok (u.gCfgSBuf (bufIndx (u.gCfgEntry i) + k))

theorem lengthRead_error_iff {size k : Nat} :
    (∃ e, lengthRead size k u i = .error e) ↔ NoString size (u.gCfgEntry i) := by
  rw [lengthRead, NoString]
  by_cases hidx : size ≤ bufIndx (u.gCfgEntry i)
  · rw [if_pos hidx]
    exact iff_of_true ⟨_, rfl⟩ (.inr hidx)
  · cases hv : isValid (u.gCfgEntry i) with
    | false =>
      rw [if_neg hidx]
      exact iff_of_true ⟨_, rfl⟩ (.inl rfl)
    | true =>
      rw [if_neg hidx]
      refine iff_of_false (not_ok_of_error rfl) ?_
      rintro (h | h)
      · cases h
      · exact hidx h

/-- Such a read is right for the strings of the table, refused for what is not in it if the word there looks like no string, and never right for an integer. -/
theorem lengthRead_right_iff {size k : Nat} {f : Param → Option UInt8}
    (hp : Placed t s.cfg.gCfgEntry t.wniCfgMax) (h : Law t s) (hsize : cfgStaIbufMaxSize ≤ size)
    (hf : t.Fits) (hint : ∀ x, f (s.cfg.intPlace x) = none)
    (hstr : ∀ d, t.strAt i = some d → offset t.strSize i < size ∧
      f (s.cfg.strPlace (offset t.strSize i)) = some (s.cfg.gCfgSBuf (offset t.strSize i + k))) :
    Returns (lengthRead size k s.cfg i) ((s.held t i).bind f) ↔
      ¬t.intAt i = true ∧ (t.wniCfgMax ≤ i → NoString size (s.cfg.gCfgEntry i)) := by
  rcases kinds t i with hat | ⟨d, hd⟩ | ⟨hat, hd⟩
  · have hi := (intAt_iff.1 hat).1
    obtain ⟨hv, -, hidx⟩ := hp.int i hi hat
    rw [held_int hp h hat, bind_some, hint]
    refine iff_of_false (fun hr => ?_) fun hok => hok.1 hat
    rcases lengthRead_error_iff.1 hr with hv' | hle
    · rw [hv] at hv'
      cases hv'
    · rw [hidx] at hle
      exact not_le.2 (hf.int_lt hat) (le_trans hsize hle)
  · have hi := (strAt_eq_some.1 hd).1
    obtain ⟨hv, -, hidx⟩ := hp.str i hi d hd
    obtain ⟨hlt, hread⟩ := hstr d hd
    refine iff_of_true ?_ ⟨fun hat => ?_, fun hle => absurd hi (not_lt.2 hle)⟩
    · rw [held_str hp h hd, bind_some, hread, lengthRead, hidx, if_neg (not_le.2 hlt),
        if_neg (by simp [hv])]
      rfl
    · rw [strAt_of_intAt hat] at hd
      cases hd
  · rw [held_none hat hd, bind_none]
    refine lengthRead_error_iff.trans ⟨fun hn => ⟨by simp [hat], fun _ => hn⟩, fun hok => ?_⟩
    rcases hp.unknown hat hd with hi | hv
    · exact hok.2 hi
    · exact .inl hv

theorem getStrMaxLen_right_iff (hp : Placed t s.cfg.gCfgEntry t.wniCfgMax) (hf : t.Fits)
    (h : Law t s) : CallRight t s (.getStrMaxLen i) ↔ CallOk t s (.getStrMaxLen i) :=
  lengthRead_right_iff (k := 0) (f := maxLenRead) hp h (by decide) hf (fun _ => rfl)
    fun _ hd => ⟨lt_of_lt_of_le (by omega) (hf.str_le hd), rfl⟩

theorem getStrLen_right_iff (hp : Placed t s.cfg.gCfgEntry t.wniCfgMax) (hf : t.Fits)
    (h : Law t s) : CallRight t s (.getStrLen i) ↔ CallOk t s (.getStrLen i) := by
  refine lengthRead_right_iff (f := lenRead) hp h (by decide) hf (fun _ => rfl) fun d hd => ⟨?_, ?_⟩
  · have hle := hf.str_le hd
    rw [cfgStaSbufMaxSize] at hle ⊢
    omega
  · rw [strPlace, lenRead, length_span, UInt8.ofNat_toNat]

/-! ### Runs -/

theorem callRight_iff (hp : Placed t s.cfg.gCfgEntry t.wniCfgMax) (hf : t.Fits) (h : Law t s) :
    CallRight t s c ↔ CallOk t s c := by
  cases c with
  | setInt i v => exact setInt_right_iff hp h
  | setStr i w => exact setStr_right_iff hp hf h
  | getInt i => exact getInt_right_iff hp hf h
  | getStr i room => exact getStr_right_iff hp hf h
  | getStrMaxLen i => exact getStrMaxLen_right_iff hp hf h
  | getStrLen i => exact getStrLen_right_iff hp hf h

theorem entry_after : (s.after t c).cfg.gCfgEntry = s.cfg.gCfgEntry := by
  cases c with
  | setInt i v =>
    by_cases hacc : IntAccepted t s.cfg i v
    · rw [Store.after, cfgSetInt_accepted hacc]
      rfl
    · rw [Store.after, cfgSetInt_refused hacc]
      rfl
  | setStr i w =>
    by_cases hacc : StrAccepted t s.cfg i w
    · rw [Store.after, cfgSetStr_accepted hacc]
      rfl
    · obtain ⟨ret, -, href⟩ := cfgSetStr_refused hacc
      rw [Store.after, href]
      rfl
  | _ => rfl

theorem CallRight.law (h : Law t s) (hr : CallRight t s c) : Law t (s.after t c) := by
  cases c with
  | setInt i v =>
    have hset : SetRight t s (s.after t (.setInt i v)) i (cfgSetInt t s.cfg i v).1 := hr
    exact hset.law
  | setStr i w =>
    have hset : SetRight t s (s.after t (.setStr i w)) i (cfgSetStr t s.cfg i w).1 := hr
    exact hset.law
  | _ => exact h

theorem reach_law {s₀ : AniSirCfg} (hf : t.Fits) (hb : t.Blank s₀) (hk : t.Keeps)
    (h : (cfgMachine t s₀).Reach (CallOk t) s) :
    Placed t s.cfg.gCfgEntry t.wniCfgMax ∧ Law t s := by
  have hdown := processCfgDownloadReq_downloaded hf hb
  refine h.invariant (fun s => Placed t s.cfg.gCfgEntry t.wniCfgMax ∧ Law t s) ?_ ?_
  · rintro s rfl
    exact ⟨hdown.placed, (hdown.law_iff hf).2 hk⟩
  · intro s c s' hinv hok hstep
    cases hstep
    refine ⟨?_, ((callRight_iff hinv.1 hf hinv.2).2 hok).law hinv.2⟩
    rw [entry_after]
    exact hinv.1

end

/-- **The configuration store, exactly.**  After the download of a table that fits the buffers the store is as declared just if the table meets the condition; and then, in every run whose calls meet theirs, a parameter reads what it was last set to or its default, within its limits, and the next call is right just if it meets its own. -/
theorem cfg_store_iff (t : CfgTable) (s₀ : AniSirCfg) (hf : t.Fits) (hb : t.Blank s₀) :
    (Law t ⟨processCfgDownloadReq t s₀, fun _ => none⟩ ↔ t.Keeps) ∧
      (t.Keeps → ∀ s, (cfgMachine t s₀).Reach (CallOk t) s →
        Law t s ∧ ∀ c, CallRight t s c ↔ CallOk t s c) := by
  refine ⟨(processCfgDownloadReq_downloaded hf hb).law_iff hf, fun hk s hs => ?_⟩
  obtain ⟨hp, hl⟩ := reach_law hf hb hk hs
  exact ⟨hl, fun c => callRight_iff hp hf hl⟩

/-! ### Two tables -/

def zeroCfg : AniSirCfg := ⟨fun _ => 0#32, fun _ => 0, fun _ => 0, fun _ => 0, fun _ => 0⟩

def smallString : CfgstaticString := ⟨0, 6, 1, List.replicate 255 1, List.length_replicate⟩

/-- A string, an integer between 0 and 255 and, if there are three rows, an integer that is not valid. -/
def smallTable (n : Nat) : CfgTable where
  wniCfgMax := n
  cfgStatic
    | 0 => ⟨cfgCtlValid, 0, 255, 1, by decide⟩
    | 1 => ⟨cfgCtlValid ||| cfgCtlInt, 0, 255, 100, by decide⟩
    | _ => ⟨cfgCtlInt, 0, 0, 0, by decide⟩
  cfgStaticString := [smallString]

theorem smallTable_strAt {n i : Nat} {d : CfgstaticString} (h : (smallTable n).strAt i = some d) :
    i = 0 ∧ d = smallString := by
  obtain ⟨-, -, -, hd⟩ := strAt_eq_some.1 h
  match i with
  | 0 =>
    have hstr : isInt ((smallTable n).cfgStatic 0).control = false :=
      (by decide : isInt cfgCtlValid = false)
    rw [pStrData, hstr] at hd
    cases hd
    exact ⟨rfl, rfl⟩
  | 1 =>
    have hint : isInt ((smallTable n).cfgStatic 1).control = true :=
      (by decide : isInt (cfgCtlValid ||| cfgCtlInt) = true)
    rw [pStrData, hint] at hd
    cases hd
  | i + 2 =>
    have hint : isInt ((smallTable n).cfgStatic (i + 2)).control = true :=
      (by decide : isInt cfgCtlInt = true)
    rw [pStrData, hint] at hd
    cases hd

theorem smallTable_fits {n : Nat} (hi : offset (smallTable n).intSize n ≤ cfgStaIbufMaxSize)
    (hs : offset (smallTable n).strSize n ≤ cfgStaSbufMaxSize) : (smallTable n).Fits where
  ints := hi
  strs := hs
  defaults i d hd := by
    obtain ⟨-, rfl⟩ := smallTable_strAt hd
    decide

theorem smallTable_blank (n : Nat) : (smallTable n).Blank zeroCfg := fun _ _ _ _ => rfl

theorem smallTable_keeps : (smallTable 2).Keeps where
  inRange i hi := by
    have hlt : i < 2 := (intAt_iff.1 hi).1
    match i with
    | 0 => cases hi
    | 1 => decide
    | i + 2 => omega
  lastInvalid i j _ _ _ hj := by
    have hlt : j < 2 := (invalidIntAt_iff.1 hj).1
    match j with
    | 0 => cases hj
    | 1 => cases hj
    | j + 2 => omega
  lastString i d hd _ := by
    obtain ⟨rfl, rfl⟩ := smallTable_strAt hd
    decide

theorem cfg_store_iff_set : ∃ s, (cfgMachine (smallTable 2) zeroCfg).Reach (CallOk (smallTable 2)) s ∧
    view (smallTable 2) s.cfg 1 = some (.int 0 255 7) ∧ Law (smallTable 2) s ∧
    CallRight (smallTable 2) s (.getInt 1) := by
  let M := cfgMachine (smallTable 2) zeroCfg
  let s₀ : Store := ⟨processCfgDownloadReq (smallTable 2) zeroCfg, fun _ => none⟩
  let s := (s₀.after (smallTable 2) (.setInt 1 7)).after (smallTable 2) (.setInt 1 300)
  have hok : ∀ u : Store, ∀ v, CallOk (smallTable 2) u (.setInt 1 v) := fun u v hne => absurd rfl hne
  have hs : M.Reach (CallOk (smallTable 2)) s :=
    .step (.step (.start rfl) (hok _ 7) rfl) (hok _ 300) rfl
  obtain ⟨hl, hr⟩ := (cfg_store_iff (smallTable 2) zeroCfg (smallTable_fits (by decide) (by decide))
    (smallTable_blank 2)).2 smallTable_keeps s hs
  exact ⟨s, hs, by decide +kernel, hl, (hr (.getInt 1)).2 fun hne => absurd rfl hne⟩

/-- The row that is not valid overwrites the integer; and where there is none, setting the string as an integer does. -/
theorem invalid_row_overwrites :
    ((smallTable 3).Fits ∧ (smallTable 3).Blank zeroCfg ∧
      ¬Law (smallTable 3) ⟨processCfgDownloadReq (smallTable 3) zeroCfg, fun _ => none⟩) ∧
    ∃ s, (cfgMachine (smallTable 2) zeroCfg).Reach (fun _ _ => True) s ∧
      view (smallTable 2) s.cfg 1 = some (.int 0 255 100) ∧
      view (smallTable 2) (s.after (smallTable 2) (.setInt 0 5)).cfg 1 = some (.int 0 255 5) := by
  refine ⟨⟨smallTable_fits (by decide) (by decide), smallTable_blank 3, fun hl => ?_⟩,
    ⟨processCfgDownloadReq (smallTable 2) zeroCfg, fun _ => none⟩, .start rfl,
    by decide +kernel, by decide +kernel⟩
  have hreads := hl.reads 1
  rw [held_start] at hreads
  exact absurd hreads (by decide +kernel)

end Qcacld.Cfg

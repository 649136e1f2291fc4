import Mathlib.Data.Nat.Bitwise
import Qcacld.Support.Cells

/-!
# Wmi — WmiTlvHelper

The TLVs of the commands and events that driver and firmware exchange.  A table of attributes says for each command or event which TLVs it has, in which order, and what each is: a structure, or an array of bytes, words or structures, of a fixed number of elements or of a variable one.

`wmitlv_check_and_pad_tlvs` goes through a message and reports where the elements of each TLV are, copying those that are not of the size the host expects.
-/

namespace Qcacld.Wmi

open Support Function List Option Nat

/-! ### Attributes -/

def wmiTlvHdrSize : Nat := 4

def wmitlvTagFirstArrayEnum : Nat := 16

def wmitlvTagArrayUint32 : Nat := 16

def wmitlvTagArrayByte : Nat := 17

def wmitlvTagArrayStruc : Nat := 18

def wmitlvTagArrayFixedStruc : Nat := 19

def wmitlvTagLastArrayEnum : Nat := 31

def wmitlvSizeFix : Nat := 0

def wmitlvArrSizeInvalid : Nat := 0x1FE

def wmitlvGetCmdid (val : UInt32) : UInt32 := val &&& 0x00FFFFFF

def wmitlvGetNumTlvs (val : UInt32) : Nat := ((val >>> 24) &&& 0xFF).toNat

/-- `wmitlv_attributes_struc` -/
structure WmitlvAttributes where
  tagId : Nat
  tagStructSize : Nat
  tagVariedSize : Nat
  tagArraySize : Nat

/-- `WMITLV_GET_TAGID` and the like -/
def attributesOf (val : UInt32) : WmitlvAttributes where
  tagId := (val &&& 0x00000FFF).toNat
  tagStructSize := ((val >>> 12) &&& 0x000001FF).toNat
  tagArraySize := ((val >>> 21) &&& 0x000001FF).toNat
  tagVariedSize := ((val >>> 30) &&& 0x00000001).toNat

/-- The loop of `wmitlv_get_attributes`: the entries of a command or event, with how many they are. -/
def attrEntries (isIt : UInt32 → Bool) : Nat → List UInt32 → Option (Nat × List UInt32)
  | 0, _ => none
  | _ + 1, [] => none
  | fuel + 1, val :: rest =>
    if isIt (wmitlvGetCmdid val) then some (wmitlvGetNumTlvs val, rest)
    else attrEntries isIt fuel (rest.drop (wmitlvGetNumTlvs val))

/-- `wmitlv_get_attributes`, for the number of TLVs. -/
def wmitlvGetNumAttributes (attrList : List UInt32) (cmdEventId : UInt32) : Option Nat :=
  (attrEntries (· = wmitlvGetCmdid cmdEventId) attrList.length attrList).map Prod.fst

/-- `wmitlv_get_attributes`, for the attributes of a TLV. -/
def wmitlvGetAttributes (attrList : List UInt32) (cmdEventId : UInt32) (currTlvOrder : Nat) :
    Option WmitlvAttributes := do
  let (numTlvs, entries) ← attrEntries (· = wmitlvGetCmdid cmdEventId) attrList.length attrList
  if currTlvOrder ≥ numTlvs then none
  else (entries[currTlvOrder]?).map attributesOf

/-! ### The message -/

def byteAt (msg : List UInt8) (i : Nat) : Nat := (msg[i]?.getD 0).toNat

/-- `WMITLV_GET_TLVLEN` of the header at a place -/
def tlvLenAt (msg : List UInt8) (i : Nat) : Nat := byteAt msg i + 2 ^ 8 * byteAt msg (i + 1)

/-- `WMITLV_GET_TLVTAG` of the header at a place -/
def tlvTagAt (msg : List UInt8) (i : Nat) : Nat := byteAt msg (i + 2) + 2 ^ 8 * byteAt msg (i + 3)

def bytesAt (msg : List UInt8) (start len : Nat) : List UInt8 := (msg.drop start).take len

/-! ### The parameters -/

/-- Where a TLV is said to be: nowhere, from some byte of the message on, or in a buffer of its own. -/
inductive TlvPtr where
  | null
  | msg (start : Nat)
  | buf (id : Nat)

/-- `wmitlv_cmd_param_info`.  `builtFrom` is for the history: the bytes of the message that an element is built from, by where they start and how many they are. -/
structure WmitlvCmdParamInfo where
  tlvPtr : TlvPtr
  numElements : Nat
  bufIsAllocated : Bool
  builtFrom : Nat → Nat × Nat

def WmitlvCmdParamInfo.zero : WmitlvCmdParamInfo := ⟨.null, 0, false, fun _ => (0, 0)⟩

/-- How the loop ends for a TLV: it reads outside the message, or divides by zero; it refuses the TLV; or it goes on. -/
inductive TlvEnd (α : Type) where
  | outside
  | refused
  | taken (a : α)

structure TlvSizes where
  tlvSizeDiff : Int
  numOfElems : Nat
  inTlvLen : Nat

def isArrayTag (tag : Nat) : Bool := wmitlvTagFirstArrayEnum ≤ tag ∧ tag ≤ wmitlvTagLastArrayEnum

/-- The sizes, for what starts at `bufIdx` and has `currTlvLen` bytes. -/
def tlvSizes (a : WmitlvAttributes) (msg : List UInt8) (bufIdx currTlvLen : Nat) :
    TlvEnd TlvSizes :=
  if a.tagVariedSize = wmitlvSizeFix then
    if a.tagArraySize = wmitlvArrSizeInvalid then
      .taken ⟨currTlvLen - a.tagStructSize, if currTlvLen > wmiTlvHdrSize then 1 else 0, 0⟩
    else
      .taken ⟨currTlvLen - (a.tagStructSize * a.tagArraySize : Nat), a.tagArraySize, 0⟩
  else if a.tagId = wmitlvTagArrayStruc then
    if currTlvLen ≠ 0 then
      if bufIdx + 4 > msg.length then .outside
      else if tlvLenAt msg bufIdx + wmiTlvHdrSize > currTlvLen then .refused
      else .taken ⟨(tlvLenAt msg bufIdx + wmiTlvHdrSize : Nat) - (a.tagStructSize : Int),
        currTlvLen / (tlvLenAt msg bufIdx + wmiTlvHdrSize), tlvLenAt msg bufIdx + wmiTlvHdrSize⟩
    else .taken ⟨0, 0, 0⟩
  else if a.tagId = wmitlvTagArrayUint32 ∨ a.tagId = wmitlvTagArrayByte ∨
      a.tagId = wmitlvTagArrayFixedStruc then
    if a.tagStructSize = 0 then .outside
    else .taken ⟨0, currTlvLen / a.tagStructSize, 0⟩
  else .refused

/-- Where a TLV goes: where it is, nowhere, or to a buffer with these bytes. -/
inductive TlvPlace where
  | null
  | msg (start : Nat)
  | pad (bytes : List UInt8)

structure TakenTlv where
  next : Nat
  place : TlvPlace
  numElements : Nat
  builtFrom : Nat → Nat × Nat

/-- The bytes of an element, in a TLV other than an array of structures of variable number. -/
def plainRange (a : WmitlvAttributes) (start currTlvLen i : Nat) : Nat × Nat :=
  if a.tagVariedSize = wmitlvSizeFix ∧ a.tagArraySize = wmitlvArrSizeInvalid then (start, currTlvLen)
  else (start + min (i * a.tagStructSize) currTlvLen,
    min a.tagStructSize (currTlvLen - i * a.tagStructSize))

/-- An array of structures is copied, one structure after the other. -/
def padStrucs (a : WmitlvAttributes) (msg : List UInt8) (start : Nat) (z : TlvSizes) : List UInt8 :=
  (List.range z.numOfElems).flatMap fun i =>
    if z.tlvSizeDiff > 0 then bytesAt msg (start + i * z.inTlvLen) a.tagStructSize
    else fitted 0 a.tagStructSize (bytesAt msg (start + i * z.inTlvLen) z.inTlvLen)

def placeTlv (a : WmitlvAttributes) (msg : List UInt8) (start currTlvLen : Nat) (z : TlvSizes) :
    TlvEnd TakenTlv :=
  if a.tagId = wmitlvTagArrayStruc ∧ z.tlvSizeDiff ≠ 0 then
    if a.tagVariedSize = wmitlvSizeFix then .refused
    else .taken {
      next := start + currTlvLen
      place := .pad (padStrucs a msg start z)
      numElements := z.numOfElems
      builtFrom := fun i => (start + i * z.inTlvLen, z.inTlvLen) }
  else if z.tlvSizeDiff ≥ 0 then .taken {
    next := start + currTlvLen
    place := if a.tagVariedSize ≠ 0 ∧ currTlvLen = 0 then .null else .msg start
    numElements := z.numOfElems
    builtFrom := plainRange a start currTlvLen }
  else .taken {
    next := start + currTlvLen
    place := .pad (bytesAt msg start currTlvLen ++ List.replicate z.tlvSizeDiff.natAbs 0)
    numElements := z.numOfElems
    builtFrom := plainRange a start currTlvLen }

/-- Where what is looked at of a TLV starts: an array's header is left out. -/
def tlvStart (msg : List UInt8) (bufIdx : Nat) : Nat :=
  if isArrayTag (tlvTagAt msg bufIdx) then bufIdx + wmiTlvHdrSize else bufIdx

def currLen (msg : List UInt8) (bufIdx : Nat) : Nat :=
  if isArrayTag (tlvTagAt msg bufIdx) then tlvLenAt msg bufIdx
  else tlvLenAt msg bufIdx + wmiTlvHdrSize

def padTlv (a : WmitlvAttributes) (msg : List UInt8) (bufIdx : Nat) : TlvEnd TakenTlv :=
  if tlvLenAt msg bufIdx > msg.length - (bufIdx + wmiTlvHdrSize) then .refused
  else if tlvTagAt msg bufIdx ≠ a.tagId then .refused
  else match tlvSizes a msg (tlvStart msg bufIdx) (currLen msg bufIdx) with
    | .outside => .outside
    | .refused => .refused
    | .taken z => placeTlv a msg (tlvStart msg bufIdx) (currLen msg bufIdx) z

structure PadState where
  bufIdx : Nat
  params : List WmitlvCmdParamInfo
  bufs : List (List UInt8)

inductive PadEnd where
  | outside
  | failed (s : PadState)
  | done (s : PadState)

/-- A TLV is reported; `mem` says which allocations succeed, the first one being that of the structure for the parameters. -/
def reportTlv (mem : Nat → Bool) (s : PadState) (t : TakenTlv) : Option PadState :=
  match t.place with
  | .null => some
    { s with
      bufIdx := t.next
      params := s.params ++ [⟨.null, t.numElements, false, t.builtFrom⟩] }
  | .msg start => some
    { s with
      bufIdx := t.next
      params := s.params ++ [⟨.msg start, t.numElements, false, t.builtFrom⟩] }
  | .pad bytes =>
    if mem (s.bufs.length + 1) then some {
      bufIdx := t.next
      params := s.params ++ [⟨.buf s.bufs.length, t.numElements, true, t.builtFrom⟩]
      bufs := s.bufs ++ [bytes] }
    else none

/-- `while ((buf_idx + WMI_TLV_HDR_SIZE <= param_buf_len) && remaining_expected_tlvs)` -/
def padLoop (attrs : Nat → Option WmitlvAttributes) (msg : List UInt8) (mem : Nat → Bool) :
    Nat → PadState → PadEnd
  | 0, s => .done s
  | remaining + 1, s =>
    if s.bufIdx + wmiTlvHdrSize ≤ msg.length then
      match attrs s.params.length with
      | none => .failed s
      | some a =>
        match padTlv a msg s.bufIdx with
        | .outside => .outside
        | .refused => .failed s
        | .taken t =>
          match reportTlv mem s t with
          | none => .failed s
          | some s' => padLoop attrs msg mem remaining s'
    else .done s

/-- `wmitlv_free_allocated_tlvs`: the buffers that are freed.  The `switch` knows the ids as they are, without the eight bits that the table is searched without. -/
def wmitlvFreeAllocatedTlvs (attrList : List UInt32) (cmdEventId : UInt32)
    (params : List WmitlvCmdParamInfo) : List Nat :=
  match attrEntries (· = cmdEventId) attrList.length attrList with
  | none => []
  | some _ => params.filterMap fun p =>
    match p.bufIsAllocated, p.tlvPtr with
    | true, .buf id => some id
    | _, _ => none

/-- What a call leaves: its value, what the caller's pointer leads to, the buffers that have been allocated, and those that have been freed. -/
structure PadResult where
  ret : Int
  wmiCmdStruct : Option (List WmitlvCmdParamInfo)
  bufs : List (List UInt8)
  freed : List Nat

/-- `wmitlv_check_and_pad_tlvs`; `none` when it reads outside the message, or divides by zero. -/
def wmitlvCheckAndPadTlvs (attrList : List UInt32) (msg : List UInt8) (wmiCmdEventId : UInt32)
    (mem : Nat → Bool) : Option PadResult :=
  match wmitlvGetNumAttributes attrList wmiCmdEventId with
  | none => some ⟨-1, none, [], []⟩
  | some cmdNumTlv =>
    if msg.length < wmiTlvHdrSize then some ⟨-1, none, [], []⟩
    else if !mem 0 then some ⟨-1, none, [], []⟩
    else match padLoop (wmitlvGetAttributes attrList wmiCmdEventId) msg mem cmdNumTlv ⟨0, [], []⟩ with
      | .outside => none
      | .failed s => some ⟨-1, none, s.bufs, wmitlvFreeAllocatedTlvs attrList wmiCmdEventId s.params⟩
      | .done s => some ⟨0,
        some (s.params ++ List.replicate (cmdNumTlv - s.params.length) .zero), s.bufs, []⟩

/-! ### The table -/

/-- A command or event of the table, with the attributes of its TLVs. -/
structure AttrGroup where
  id : UInt32
  tlvs : List UInt32
  id_fits : wmitlvGetCmdid id = id
  tlvs_fit : tlvs.length < 256

def AttrGroup.attrb0 (g : AttrGroup) : UInt32 :=
  (UInt32.ofNat g.tlvs.length <<< 24) ||| (g.id &&& 0x00FFFFFF)

/-- `cmdAttrList`, or `evtAttrList` -/
def attrList (table : List AttrGroup) : List UInt32 :=
  table.flatMap fun g => g.attrb0 :: g.tlvs

theorem getCmdid_toNat (val : UInt32) : (wmitlvGetCmdid val).toNat = val.toNat % 2 ^ 24 := by
  rw [wmitlvGetCmdid, UInt32.toNat_and]
  exact and_two_pow_sub_one_eq_mod val.toNat 24

theorem getNumTlvs_eq (val : UInt32) : wmitlvGetNumTlvs val = val.toNat / 2 ^ 24 := by
  have hlt := val.toNat_lt
  have hand := and_two_pow_sub_one_eq_mod (val.toNat / 2 ^ 24) 8
  rw [wmitlvGetNumTlvs, UInt32.toNat_and, UInt32.toNat_shiftRight, shiftRight_eq_div_pow]
  refine hand.trans (mod_eq_of_lt ?_)
  omega

theorem AttrGroup.id_lt (g : AttrGroup) : g.id.toNat < 2 ^ 24 := by
  rw [← g.id_fits, getCmdid_toNat]
  exact Nat.mod_lt _ (Nat.two_pow_pos 24)

theorem AttrGroup.attrb0_toNat (g : AttrGroup) :
    g.attrb0.toNat = g.tlvs.length * 2 ^ 24 + g.id.toNat := by
  have hid := g.id_lt
  have hn := g.tlvs_fit
  have hand : g.id &&& 0x00FFFFFF = g.id := g.id_fits
  rw [attrb0, hand, UInt32.toNat_or, UInt32.toNat_shiftLeft, UInt32.toNat_ofNat',
    mod_eq_of_lt (show g.tlvs.length < 2 ^ 32 by omega)]
  change g.tlvs.length <<< 24 % 2 ^ 32 ||| g.id.toNat = _
  rw [mod_eq_of_lt (show g.tlvs.length <<< 24 < 2 ^ 32 by rw [shiftLeft_eq]; omega),
    ← shiftLeft_add_eq_or_of_lt hid, shiftLeft_eq]

@[simp] theorem AttrGroup.getCmdid_attrb0 (g : AttrGroup) : wmitlvGetCmdid g.attrb0 = g.id := by
  rw [← UInt32.toNat_inj, getCmdid_toNat, g.attrb0_toNat, mul_add_mod_self_right,
    mod_eq_of_lt g.id_lt]

@[simp] theorem AttrGroup.getNumTlvs_attrb0 (g : AttrGroup) :
    wmitlvGetNumTlvs g.attrb0 = g.tlvs.length := by
  have hid := g.id_lt
  rw [getNumTlvs_eq, g.attrb0_toNat]
  omega

theorem attrEntries_attrList (isIt : UInt32 → Bool) (table : List AttrGroup) {fuel : Nat}
    (hf : (attrList table).length ≤ fuel) :
    (attrEntries isIt fuel (attrList table)).map (fun r => (r.1, r.2.take r.1)) =
      (table.find? fun g => isIt g.id).map fun g => (g.tlvs.length, g.tlvs) := by
  induction table generalizing fuel with
  | nil => cases fuel <;> rfl
  | cons g table ih =>
    have hlist : attrList (g :: table) = g.attrb0 :: (g.tlvs ++ attrList table) := rfl
    rw [hlist, length_cons, length_append] at hf
    obtain ⟨fuel, rfl⟩ : ∃ n, fuel = n + 1 := ⟨fuel - 1, by omega⟩
    rw [hlist, attrEntries, g.getCmdid_attrb0, g.getNumTlvs_attrb0, find?_cons]
    cases hit : isIt g.id with
    | true => simp
    | false =>
      rw [drop_left]
      exact ih (by omega)

def tlvsOf (table : List AttrGroup) (id : UInt32) : Option (List WmitlvAttributes) :=
  (table.find? fun g => g.id = id).map fun g => g.tlvs.map attributesOf

variable {table : List AttrGroup} {id : UInt32}

theorem getNumAttributes_eq (hid : wmitlvGetCmdid id = id) :
    wmitlvGetNumAttributes (attrList table) id = (tlvsOf table id).map List.length := by
  have h := attrEntries_attrList (fun w => decide (w = id)) table (le_refl _)
  have hfst := congrArg (Option.map Prod.fst) h
  rw [wmitlvGetNumAttributes, hid, tlvsOf, Option.map_map]
  simpa [Option.map_map, Function.comp_def] using hfst

theorem getAttributes_eq (hid : wmitlvGetCmdid id = id) (k : Nat) :
    wmitlvGetAttributes (attrList table) id k = (tlvsOf table id).bind (·[k]?) := by
  have h := attrEntries_attrList (fun w => decide (w = id)) table (le_refl _)
  rw [wmitlvGetAttributes, hid, tlvsOf]
  cases hf : table.find? (fun g => g.id = id) with
  | none =>
    rw [hf, map_none, map_eq_none_iff] at h
    rw [h]
    rfl
  | some g =>
    rw [hf, map_some, map_eq_some_iff] at h
    obtain ⟨⟨n, entries⟩, he, hg⟩ := h
    obtain ⟨rfl, hg⟩ := Prod.mk.inj hg
    rw [he]
    simp only [bind_eq_bind, bind_some, map_some, getElem?_map]
    split_ifs with hk
    · rw [getElem?_eq_none hk, map_none]
    · rw [← hg, getElem?_take_of_lt (not_le.1 hk)]

def WmitlvCmdParamInfo.buffer (p : WmitlvCmdParamInfo) : Option Nat :=
  match p.bufIsAllocated, p.tlvPtr with
  | true, .buf id => some id
  | _, _ => none

/-- The `switch` of the release finds what the search finds. -/
theorem freeAllocatedTlvs_eq (h : (tlvsOf table id).isSome) (params : List WmitlvCmdParamInfo) :
    wmitlvFreeAllocatedTlvs (attrList table) id params = params.filterMap (·.buffer) := by
  have hfind := attrEntries_attrList (fun w => decide (w = id)) table (le_refl _)
  rw [tlvsOf, isSome_map, isSome_iff_exists] at h
  obtain ⟨g, hg⟩ := h
  rw [hg, map_some, map_eq_some_iff] at hfind
  obtain ⟨r, hr, -⟩ := hfind
  rw [wmitlvFreeAllocatedTlvs, hr]
  rfl

end Qcacld.Wmi

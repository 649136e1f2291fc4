import Qcacld.Wmi.WmiTlvPad

/-!
# Wmi — WmiTlvCheck

`wmitlv_check_tlv_params` looks a message over that the host has made.  What it accepts `wmitlv_check_and_pad_tlvs` goes through as it is: nothing is copied, cut or filled up, and every parameter points to the bytes of its TLV (`accepted_in_place`).  An empty message is accepted here and refused there (`empty_message_is_accepted`).
-/

namespace Qcacld.Wmi
open List Option Nat TlvEnd WmitlvAttributes

/-! ### The check -/

/-- How the check ends: it reads outside the message, or divides by zero; it refuses the message; or it accepts it. -/
inductive CheckEnd where
  | outside
  | refused
  | accepted

def checkStrucs (msg : List UInt8) (tagStructSize : Nat) : Nat → Nat → CheckEnd
  | 0, _ => .accepted
  | numOfElems + 1, start =>
    if start + wmiTlvHdrSize > msg.length then .outside
    else if tlvLenAt msg start + wmiTlvHdrSize ≠ tagStructSize then .refused
    else checkStrucs msg tagStructSize numOfElems (start + (tlvLenAt msg start + wmiTlvHdrSize))

/-- The length of an array with a fixed number of elements. -/
def checkFixArray (a : WmitlvAttributes) (currTlvLen : Nat) : CheckEnd :=
  if a.tagArraySize = wmitlvArrSizeInvalid then .refused
  else if currTlvLen ≠
      if a.tagId = wmitlvTagArrayByte then (a.tagArraySize * a.tagStructSize + 3) / 4 * 4
      else a.tagArraySize * a.tagStructSize then .refused
  else .accepted

/-- The length of an array with a variable number of elements. -/
def checkVarArray (a : WmitlvAttributes) (msg : List UInt8) (pos currTlvLen : Nat) : CheckEnd :=
  if a.tagArraySize ≠ wmitlvArrSizeInvalid then .refused
  else if currTlvLen = 0 then .accepted
  else if a.tagStructSize = 0 then .outside
  else if currTlvLen % a.tagStructSize ≠ 0 then .refused
  else if a.tagId = wmitlvTagArrayStruc then
    checkStrucs msg a.tagStructSize (currTlvLen / a.tagStructSize) (pos + wmiTlvHdrSize)
  else if a.tagId = wmitlvTagArrayUint32 ∨ a.tagId = wmitlvTagArrayByte ∨
      a.tagId = wmitlvTagArrayFixedStruc then .accepted
  else .refused

def checkLen (a : WmitlvAttributes) (msg : List UInt8) (pos : Nat) : CheckEnd :=
  if isArrayTag (tlvTagAt msg pos) then
    if a.tagVariedSize = wmitlvSizeFix then checkFixArray a (tlvLenAt msg pos)
    else checkVarArray a msg pos (tlvLenAt msg pos)
  else if tlvLenAt msg pos + wmiTlvHdrSize ≠ a.tagStructSize then .refused
  else .accepted

def checkTlv (a : WmitlvAttributes) (msg : List UInt8) (pos : Nat) : CheckEnd :=
  if tlvTagAt msg pos ≠ a.tagId then .refused
  else match checkLen a msg pos with
    | .outside => .outside
    | .refused => .refused
    | .accepted => if tlvLenAt msg pos % 4 ≠ 0 then .refused else .accepted

/-- `while ((buf_idx + WMI_TLV_HDR_SIZE) <= param_buf_len)`; every turn goes on by a header at least, so that as many turns as there are bytes are enough. -/
def checkLoop (attrs : Nat → Option WmitlvAttributes) (msg : List UInt8) :
    Nat → Nat → Nat → CheckEnd
  | 0, _, _ => .outside
  | turns + 1, tlvIndex, bufIdx =>
    if bufIdx + wmiTlvHdrSize ≤ msg.length then
      if bufIdx + wmiTlvHdrSize + tlvLenAt msg bufIdx > msg.length then .refused
      else match attrs tlvIndex with
        | none => .refused
        | some a =>
          match checkTlv a msg bufIdx with
          | .outside => .outside
          | .refused => .refused
          | .accepted => checkLoop attrs msg turns (tlvIndex + 1)
              (bufIdx + (tlvLenAt msg bufIdx + wmiTlvHdrSize))
    else .accepted

/-- `wmitlv_check_tlv_params`; `none` when it reads outside the message, or divides by zero. -/
def wmitlvCheckTlvParams (attrList : List UInt32) (msg : List UInt8) (wmiCmdEventId : UInt32) :
    Option Int :=
  match wmitlvGetNumAttributes attrList wmiCmdEventId with
  | none => some (-1)
  | some _ =>
    match checkLoop (wmitlvGetAttributes attrList wmiCmdEventId) msg (msg.length + 1) 0 0 with
    | .outside => none
    | .refused => some (-1)
    | .accepted => some 0

/-! ### The tables of the source -/

/-- What `WMITLV_ELEM` and `WMITLV_FXAR` make of the tables: a structure is on its own; what has a variable number of elements is an array of a kind that is handled, of elements that are not empty, and a structure among them has a header. -/
structure WmitlvAttributes.Declared (a : WmitlvAttributes) : Prop where
  single : isArrayTag a.tagId = false → a.IsSingle
  array : isArrayTag a.tagId = true → a.tagVariedSize ≠ wmitlvSizeFix →
    a.IsStrucArray ∧ wmiTlvHdrSize ≤ a.tagStructSize ∨ a.IsPlainArray ∧ a.tagStructSize ≠ 0

/-! ### One TLV -/

section OneTlv

variable {a : WmitlvAttributes} {msg : List UInt8} {pos : Nat}

/-- What the check has seen of a TLV that it accepts. -/
inductive Seen (a : WmitlvAttributes) (msg : List UInt8) (pos : Nat) : Prop where
  | single (h : a.IsSingle) (tag : a.tagId ≠ wmitlvTagArrayStruc)
      (len : currLen msg pos = a.tagStructSize)
  | fixed (fix : a.tagVariedSize = wmitlvSizeFix) (arr : a.tagArraySize ≠ wmitlvArrSizeInvalid)
      (enough : a.fixedSize ≤ currLen msg pos) (few : currLen msg pos ≤ a.fixedSize + 3)
      (strucs : a.tagId = wmitlvTagArrayStruc → currLen msg pos = a.fixedSize)
  | empty (h : a.IsStrucArray) (len : currLen msg pos = 0)
  | strucs (h : a.IsStrucArray) (room : wmiTlvHdrSize ≤ a.tagStructSize)
      (len : a.tagStructSize ∣ currLen msg pos) (some : currLen msg pos ≠ 0)
      (same : ∀ i < currLen msg pos / a.tagStructSize,
        tlvLenAt msg (tlvStart msg pos + i * a.tagStructSize) + wmiTlvHdrSize = a.tagStructSize)
  | plain (h : a.IsPlainArray) (size : a.tagStructSize ≠ 0)
      (len : a.tagStructSize ∣ currLen msg pos)

theorem checkStrucs_spec {size : Nat} (hs : wmiTlvHdrSize ≤ size) {n start : Nat}
    (hin : start + n * size ≤ msg.length) :
    checkStrucs msg size n start ≠ .outside ∧ (checkStrucs msg size n start = .accepted →
        ∀ i < n, tlvLenAt msg (start + i * size) + wmiTlvHdrSize = size) := by
  induction n generalizing start with
  | zero => exact ⟨nofun, fun _ => nofun⟩
  | succ n ih =>
    rw [succ_mul] at hin
    rw [checkStrucs, if_neg (by omega)]
    split_ifs with hlen
    · exact ⟨nofun, nofun⟩
    · rw [not_not] at hlen
      rw [hlen]
      obtain ⟨hout, hacc⟩ := @ih (start + size) (by omega)
      refine ⟨hout, fun h i hi => ?_⟩
      cases i with
      | zero => rwa [zero_mul, add_zero]
      | succ i =>
        have := hacc h i (lt_of_succ_lt_succ hi)
        rwa [add_assoc, add_comm size, ← succ_mul] at this

theorem tlvStart_array (h : isArrayTag (tlvTagAt msg pos) = true) :
    tlvStart msg pos = pos + wmiTlvHdrSize := if_pos h

theorem currLen_array (h : isArrayTag (tlvTagAt msg pos) = true) :
    currLen msg pos = tlvLenAt msg pos := if_pos h

theorem checkFixArray_spec (hfix : a.tagVariedSize = wmitlvSizeFix) :
    checkFixArray a (currLen msg pos) ≠ .outside ∧
      (checkFixArray a (currLen msg pos) = .accepted → Seen a msg pos) := by
  by_cases harr : a.tagArraySize = wmitlvArrSizeInvalid
  · rw [checkFixArray, if_pos harr]
    exact ⟨(fun h => by cases h), fun h => by cases h⟩
  · have hsize : a.fixedSize = a.tagArraySize * a.tagStructSize := by
      rw [fixedSize, if_neg harr, mul_comm]
    rw [checkFixArray, if_neg harr]
    by_cases hbyte : a.tagId = wmitlvTagArrayByte
    · rw [if_pos hbyte]
      split_ifs with hlen
      · exact ⟨(fun h => by cases h), fun h => by cases h⟩
      · refine ⟨(fun h => by cases h), fun _ => .fixed hfix harr (by omega) (by omega) fun h => ?_⟩
        rw [h] at hbyte
        exact absurd hbyte (by decide)
    · rw [if_neg hbyte]
      split_ifs with hlen
      · exact ⟨(fun h => by cases h), fun h => by cases h⟩
      · exact ⟨(fun h => by cases h), fun _ => .fixed hfix harr (by omega) (by omega) fun _ => by omega⟩

theorem checkVarArray_spec (htag : isArrayTag (tlvTagAt msg pos) = true)
    (hd : a.IsStrucArray ∧ wmiTlvHdrSize ≤ a.tagStructSize ∨ a.IsPlainArray ∧ a.tagStructSize ≠ 0)
    (hin : tlvStart msg pos + currLen msg pos ≤ msg.length) :
    checkVarArray a msg pos (currLen msg pos) ≠ .outside ∧
      (checkVarArray a msg pos (currLen msg pos) = .accepted → Seen a msg pos) := by
  have hsize : a.tagStructSize ≠ 0 := by
    rcases hd with ⟨-, hd⟩ | ⟨-, hd⟩
    · exact ne_of_gt (lt_of_lt_of_le (by decide) hd)
    · exact hd
  rw [checkVarArray]
  by_cases harr : a.tagArraySize = wmitlvArrSizeInvalid
  · rw [if_neg (not_not.2 harr)]
    by_cases h0 : currLen msg pos = 0
    · rw [if_pos h0]
      refine ⟨nofun, fun _ => ?_⟩
      rcases hd with ⟨hs, -⟩ | ⟨hp, -⟩
      · exact .empty hs h0
      · exact .plain hp hsize (h0 ▸ Nat.dvd_zero _)
    · rw [if_neg h0, if_neg hsize]
      by_cases hmod : currLen msg pos % a.tagStructSize = 0
      · rw [if_neg (not_not.2 hmod)]
        rcases hd with ⟨hs, hroom⟩ | ⟨hp, -⟩
        · rw [if_pos hs.2, ← tlvStart_array htag]
          have hn := div_mul_le_self (currLen msg pos) a.tagStructSize
          obtain ⟨hout, hacc⟩ := @checkStrucs_spec msg a.tagStructSize hroom
            (currLen msg pos / a.tagStructSize) (tlvStart msg pos) (by omega)
          exact ⟨hout, fun h =>
            .strucs hs hroom (dvd_of_mod_eq_zero hmod) h0 (hacc h)⟩
        · have hne : a.tagId ≠ wmitlvTagArrayStruc := by
            rintro h
            have := hp.2
            rw [h] at this
            exact absurd this (by decide)
          rw [if_neg hne, if_pos hp.2]
          exact ⟨nofun, fun _ => .plain hp hsize (dvd_of_mod_eq_zero hmod)⟩
      · rw [if_pos hmod]
        exact ⟨nofun, nofun⟩
  · rw [if_pos harr]
    exact ⟨nofun, nofun⟩

/-- **One TLV.** -/
theorem checkTlv_spec (hd : a.Declared)
    (hin : pos + wmiTlvHdrSize + tlvLenAt msg pos ≤ msg.length) :
    checkTlv a msg pos ≠ .outside ∧
      (checkTlv a msg pos = .accepted → HeaderFits a msg pos ∧ Seen a msg pos) := by
  rw [checkTlv]
  by_cases htag : tlvTagAt msg pos = a.tagId
  · have hfits : HeaderFits a msg pos := ⟨by omega, htag⟩
    have hin' := hfits.inside (by omega)
    have hlen : checkLen a msg pos ≠ .outside ∧
        (checkLen a msg pos = .accepted → Seen a msg pos) := by
      rw [checkLen]
      cases harr : isArrayTag (tlvTagAt msg pos) with
      | false =>
        have hone : a.IsSingle := hd.single (htag ▸ harr)
        rw [if_neg Bool.false_ne_true]
        split_ifs with hsize
        · exact ⟨(fun h => by cases h), fun h => by cases h⟩
        · refine ⟨(fun h => by cases h), fun _ => .single hone (fun h => ?_) ?_⟩
          · rw [htag, h] at harr
            exact absurd harr (by decide)
          · rw [currLen, harr, if_neg Bool.false_ne_true]
            exact not_not.1 hsize
      | true =>
        rw [if_pos rfl, ← currLen_array harr]
        split_ifs with hfix
        · exact checkFixArray_spec hfix
        · exact checkVarArray_spec harr (hd.array (htag ▸ harr) hfix) hin'
    rw [if_neg (not_not.2 htag)]
    cases hc : checkLen a msg pos with
    | outside => exact absurd hc hlen.1
    | refused => exact ⟨(fun h => by cases h), fun h => by cases h⟩
    | accepted =>
      dsimp only
      split_ifs
      · exact ⟨(fun h => by cases h), fun h => by cases h⟩
      · exact ⟨(fun h => by cases h), fun _ => ⟨hfits, hlen.2 hc⟩⟩
  · rw [if_pos htag]
    exact ⟨(fun h => by cases h), fun h => by cases h⟩

theorem not_plain_of_strucs (h : a.IsStrucArray) : ¬a.IsPlainArray := by
  rintro ⟨-, hp⟩
  rw [h.2] at hp
  exact absurd hp (by decide)

theorem not_strucs_of_plain (h : a.IsPlainArray) : ¬a.IsStrucArray :=
  fun hs => not_plain_of_strucs hs h

theorem innerLen_eq {size : Nat} (h0 : currLen msg pos ≠ 0) (hd : size ∣ currLen msg pos)
    (hs : ∀ i < currLen msg pos / size,
      tlvLenAt msg (tlvStart msg pos + i * size) + wmiTlvHdrSize = size) :
    innerLen msg pos = size := by
  have hpos : 0 < currLen msg pos / size :=
    Nat.div_pos (Nat.le_of_dvd (Nat.pos_of_ne_zero h0) hd)
      (Nat.pos_of_dvd_of_pos hd (Nat.pos_of_ne_zero h0))
  have := hs 0 hpos
  rwa [zero_mul, add_zero] at this

theorem Seen.readable (h : Seen a msg pos) (hin : tlvStart msg pos + currLen msg pos ≤ msg.length) :
    Readable a msg pos := by
  cases h with
  | single h _ _ => exact ⟨fun hs => absurd h.1 hs.1, fun hp => absurd h.1 hp.1⟩
  | fixed hfix _ _ _ _ => exact ⟨fun hs => absurd hfix hs.1, fun hp => absurd hfix hp.1⟩
  | empty h h0 => exact ⟨fun _ hne => absurd h0 hne, fun hp => absurd hp (not_plain_of_strucs h)⟩
  | strucs h room hd h0 _ =>
    refine ⟨fun _ _ => ?_, fun hp => absurd hp (not_plain_of_strucs h)⟩
    have := Nat.le_of_dvd (Nat.pos_of_ne_zero h0) hd
    omega
  | plain h hsize _ => exact ⟨fun hs => absurd hs (not_strucs_of_plain h), fun _ => hsize⟩

theorem Seen.handled (h : Seen a msg pos) : Handled a msg pos := by
  rw [Handled]
  cases h with
  | single h htag _ =>
    rw [if_pos h.1]
    exact fun hs => absurd hs htag
  | fixed hfix _ _ _ hs =>
    rw [if_pos hfix]
    exact hs
  | empty h h0 =>
    rw [if_neg h.1]
    exact .inl ⟨h, fun hne => absurd h0 hne⟩
  | strucs h _ hd h0 hs =>
    rw [if_neg h.1, innerLen_eq h0 hd hs]
    exact .inl ⟨h, fun _ => Nat.le_of_dvd (Nat.pos_of_ne_zero h0) hd⟩
  | plain h _ _ =>
    rw [if_neg h.1]
    exact .inr h

theorem Seen.not_pads (h : Seen a msg pos) : ¬Pads a msg pos := by
  rw [Pads]
  cases h with
  | single h _ hlen =>
    rw [if_pos h.1, fixedSize, if_pos h.2, hlen]
    exact lt_irrefl _
  | fixed hfix _ hle _ _ =>
    rw [if_pos hfix]
    exact not_lt.2 hle
  | empty h h0 =>
    rw [if_neg h.1]
    exact fun hp => hp.2.1 h0
  | strucs h _ hd h0 hs =>
    rw [if_neg h.1]
    exact fun hp => hp.2.2 (innerLen_eq h0 hd hs)
  | plain h _ _ =>
    rw [if_neg h.1]
    exact fun hp => not_strucs_of_plain h hp.1

theorem Seen.same_lengths (h : Seen a msg pos) : SameLengths a msg pos := by
  intro hs i hi
  cases h with
  | single h _ _ => exact absurd h.1 hs.1
  | fixed hfix _ _ _ _ => exact absurd hfix hs.1
  | empty _ h0 =>
    rw [h0, Nat.zero_div] at hi
    exact absurd hi (not_lt_zero i)
  | strucs _ _ hd h0 hall =>
    have hsize := innerLen_eq h0 hd hall
    rw [hsize] at hi ⊢
    have := hall i hi
    rw [innerLen] at hsize
    omega
  | plain h _ _ => exact absurd hs (not_strucs_of_plain h)

/-- What is reported of a TLV that is taken as it is: it points to the TLV's own bytes, and every element is an element of the message of just the size that is expected. -/
structure InPlace (a : WmitlvAttributes) (msg : List UInt8) (pos : Nat)
    (p : WmitlvCmdParamInfo) : Prop where
  ptr : p.tlvPtr = ownPtr a msg pos
  not_allocated : p.bufIsAllocated = false
  from_elem : ∀ i < p.numElements, p.builtFrom i = elemRange a msg pos i
  whole : ∀ i < p.numElements, (elemRange a msg pos i).2 = a.tagStructSize
  all : currLen msg pos ≤ p.numElements * a.tagStructSize + 3 ∨ currLen msg pos = wmiTlvHdrSize

theorem plainRange_snd {i n : Nat} (h : ¬a.IsSingle) (hn : n * a.tagStructSize ≤ currLen msg pos)
    (hi : i < n) : (plainRange a (tlvStart msg pos) (currLen msg pos) i).2 = a.tagStructSize := by
  have := elem_le hi a.tagStructSize
  rw [plainRange_array h]
  exact min_eq_left (by omega)

theorem Seen.sizes (h : Seen a msg pos) {z : TlvSizes} (hz : tlvSizes a msg (tlvStart msg pos) (currLen msg pos) = .taken z) :
    (∀ i < z.numOfElems, (takenRange a msg pos i).2 = a.tagStructSize) ∧
      (currLen msg pos ≤ z.numOfElems * a.tagStructSize + 3 ∨ currLen msg pos = wmiTlvHdrSize) := by
  cases h with
  | single h _ hlen =>
    rw [tlvSizes_fixed h.1] at hz
    obtain rfl := taken.inj hz
    refine ⟨fun i _ => ?_, ?_⟩
    · rw [takenRange, if_neg (fun hs => hs.1 h.1), plainRange_single h]
      exact hlen
    · dsimp only
      have h4 : wmiTlvHdrSize = 4 := rfl
      rw [fixedElems, if_pos h.2]
      split_ifs with hmore
      · exact .inl (by omega)
      · omega
  | fixed hfix harr hle hfew _ =>
    have hmul : a.tagArraySize * a.tagStructSize = a.fixedSize := by
      rw [fixedSize, if_neg harr, mul_comm]
    rw [tlvSizes_fixed hfix, fixedElems, if_neg harr] at hz
    obtain rfl := taken.inj hz
    refine ⟨fun i hi => ?_, .inl (by dsimp only; omega)⟩
    rw [takenRange, if_neg (fun hs => hs.1 hfix)]
    exact plainRange_snd (fun hs => harr hs.2) (by rw [hmul]; exact hle) hi
  | empty h h0 =>
    rw [tlvSizes, if_neg h.1, if_pos h.2, if_neg (not_not.2 h0)] at hz
    obtain rfl := taken.inj hz
    exact ⟨(fun i hi => absurd hi (not_lt_zero i)), .inl (by omega)⟩
  | strucs h _ hd h0 hs =>
    have hsize := innerLen_eq h0 hd hs
    have hmul := Nat.div_mul_cancel hd
    rw [tlvSizes, if_neg h.1, if_pos h.2, if_pos h0] at hz
    split_ifs at hz with hout hlong
    obtain rfl := taken.inj hz
    rw [innerLen] at hsize
    refine ⟨fun i _ => ?_, .inl ?_⟩
    · rw [takenRange, if_pos h]
      exact hsize
    · dsimp only
      rw [hsize, hmul]
      exact le_add_right _ _
  | plain h hsize hd =>
    have hs := not_strucs_of_plain h
    rw [tlvSizes, if_neg h.1, if_neg (fun ht => hs ⟨h.1, ht⟩), if_pos h.2, if_neg hsize] at hz
    obtain rfl := taken.inj hz
    refine ⟨fun i hi => ?_, .inl ?_⟩
    · rw [takenRange, if_neg hs]
      exact plainRange_snd (fun h1 => h.1 h1.1) (div_mul_le_self _ _) hi
    · dsimp only
      rw [Nat.div_mul_cancel hd]
      exact le_add_right _ _

theorem ownPtr_ne_buf (id : Nat) : ownPtr a msg pos ≠ .buf id := by
  rw [ownPtr]
  split_ifs <;> exact nofun

theorem Seen.in_place (h : Seen a msg pos) {bufs : List (List UInt8)} {p : WmitlvCmdParamInfo}
    (hr : Reported a msg pos bufs p) : InPlace a msg pos p := by
  have hptr := hr.own h.not_pads
  have hfrom := (hr.right_iff.2 h.same_lengths).from_elem
  obtain ⟨z, hz, hn⟩ := hr.sizes
  obtain ⟨hwhole, hall⟩ := h.sizes hz
  refine {
    ptr := hptr
    not_allocated := ?_
    from_elem := hfrom
    whole := ?_
    all := hn ▸ hall }
  · cases hb : p.bufIsAllocated with
    | false => rfl
    | true =>
      obtain ⟨id, hid⟩ := hr.allocated.1 hb
      exact absurd (hptr.symm.trans hid) (ownPtr_ne_buf id)
  · intro i hi
    rw [← hfrom i hi, hr.from_elem i hi]
    exact hwhole i (hn ▸ hi)

end OneTlv

/-! ### The message -/

variable {attrs : List WmitlvAttributes} {msg : List UInt8}

/-- **The loop of the check.** -/
theorem checkLoop_spec (hd : ∀ a ∈ attrs, a.Declared) {turns k : Nat}
    (hk : tlvPos msg k ≤ msg.length) (ht : msg.length < turns + tlvPos msg k) :
    checkLoop (fun k => attrs[k]?) msg turns k (tlvPos msg k) ≠ .outside ∧
      (checkLoop (fun k => attrs[k]?) msg turns k (tlvPos msg k) = .accepted →
        ∀ j ≥ k, Present msg j → ∃ a, attrs[j]? = some a ∧
          HeaderFits a msg (tlvPos msg j) ∧ Seen a msg (tlvPos msg j)) := by
  induction turns generalizing k with
  | zero => omega
  | succ turns ih =>
    rw [checkLoop]
    by_cases hp : tlvPos msg k + wmiTlvHdrSize ≤ msg.length
    · rw [if_pos hp]
      split_ifs with hlong
      · exact ⟨(fun h => by cases h), fun h => by cases h⟩
      rw [not_lt] at hlong
      cases ha : attrs[k]? with
      | none => exact ⟨(fun h => by cases h), fun h => by cases h⟩
      | some a =>
        have hone := checkTlv_spec (hd a (mem_of_getElem? ha)) hlong
        dsimp only
        cases hc : checkTlv a msg (tlvPos msg k) with
        | outside => exact absurd hc hone.1
        | refused => exact ⟨(fun h => by cases h), fun h => by cases h⟩
        | accepted =>
          have hnext : tlvPos msg k + (tlvLenAt msg (tlvPos msg k) + wmiTlvHdrSize) =
              tlvPos msg (k + 1) := by
            rw [tlvPos]
            omega
          have h4 : wmiTlvHdrSize = 4 := rfl
          dsimp only
          rw [hnext]
          obtain ⟨hout, hacc⟩ := @ih (k + 1) (by rw [tlvPos]; exact hlong) (by rw [← hnext]; omega)
          refine ⟨hout, fun h j hj hpj => ?_⟩
          rcases eq_or_lt_of_le hj with rfl | hj
          · exact ⟨a, ha, hone.2 hc⟩
          · exact hacc h j hj hpj
    · rw [if_neg hp]
      exact ⟨(fun h => by cases h), fun _ j hj hpj => absurd (hpj.of_le hj) hp⟩

/-- What the check accepts, the other loop goes through to its end, and copies nothing. -/
theorem padLoop_of_seen {mem : Nat → Bool}
    (h : ∀ j, Present msg j → ∃ a, attrs[j]? = some a ∧ HeaderFits a msg (tlvPos msg j) ∧
      Seen a msg (tlvPos msg j)) :
    ∃ s, padLoop (fun k => attrs[k]?) msg mem attrs.length ⟨0, [], []⟩ = .done s ∧
      s.bufs = [] ∧ LoopInv attrs msg mem s ∧
      (s.params.length = attrs.length ∨ ¬Present msg s.params.length) := by
  have hseen : ∀ j a, attrs[j]? = some a → Present msg j →
      HeaderFits a msg (tlvPos msg j) ∧ Seen a msg (tlvPos msg j) := by
    intro j a ha hp
    obtain ⟨b, hb, hs⟩ := h j hp
    obtain rfl := some.inj (ha.symm.trans hb)
    exact hs
  have hread : ∀ j a, attrs[j]? = some a → Present msg j → Readable a msg (tlvPos msg j) :=
    fun j a ha hp => (hseen j a ha hp).2.readable ((hseen j a ha hp).1.inside hp)
  have hgo : ∀ j, Present msg j → GoesOn attrs msg mem j := by
    intro j hp a ha
    obtain ⟨hf, hs⟩ := hseen j a ha hp
    exact ⟨hf, hread j a ha hp, hs.handled, fun hpads => absurd hpads hs.not_pads⟩
  have hl := padLoop_means (@LoopInv.start attrs msg mem) (zero_add attrs.length)
  cases hend : padLoop (fun k => attrs[k]?) msg mem attrs.length ⟨0, [], []⟩ with
  | outside =>
    rw [hend] at hl
    obtain ⟨k, a, ha, hp, -, -, hout⟩ := hl
    exact absurd (hread k a ha hp) hout
  | failed s =>
    rw [hend] at hl
    obtain ⟨-, a, -, hp, hno, -⟩ := hl
    exact absurd (hgo _ hp) hno
  | done s =>
    rw [hend] at hl
    refine ⟨s, rfl, eq_nil_of_length_eq_zero ?_, hl⟩
    rw [hl.1.made, padsBefore, countP_eq_zero]
    intro j hj
    have hj := mem_range.1 hj
    have ha := getElem?_eq_getElem (lt_of_lt_of_le hj hl.1.few)
    have hp := (hl.1.reported j _ _ ha (getElem?_eq_getElem hj)).1
    rw [ha, any_some, decide_eq_true_eq]
    exact (hseen j _ ha hp).2.not_pads

variable {table : List AttrGroup} {id : UInt32}

structure TakenInPlace (attrs : List WmitlvAttributes) (msg : List UInt8)
    (params : List WmitlvCmdParamInfo) : Prop where
  length : params.length = attrs.length
  present : ∀ k a p, attrs[k]? = some a → params[k]? = some p → Present msg k →
    InPlace a msg (tlvPos msg k) p
  absent : ∀ k p, params[k]? = some p → ¬Present msg k → p = .zero

/-- **The check and the walk agree.**  For the tables of the source, every id and every message: the check ends without reading outside the message; and when it accepts a message with room for a header, `wmitlv_check_and_pad_tlvs` succeeds, given memory for the parameters, and takes every TLV as it is. -/
theorem accepted_in_place (hid : wmitlvGetCmdid id = id)
    (htable : ∀ g ∈ table, ∀ w ∈ g.tlvs, (attributesOf w).Declared) (msg : List UInt8) :
    ∃ ret, wmitlvCheckTlvParams (attrList table) msg id = some ret ∧
      (ret = 0 → wmiTlvHdrSize ≤ msg.length → ∀ mem : Nat → Bool, mem 0 = true →
        ∃ attrs params, tlvsOf table id = some attrs ∧
          wmitlvCheckAndPadTlvs (attrList table) msg id mem = some ⟨0, some params, [], []⟩ ∧
          TakenInPlace attrs msg params) := by
  rw [wmitlvCheckTlvParams, getNumAttributes_eq hid]
  cases ht : tlvsOf table id with
  | none => exact ⟨-1, rfl, nofun⟩
  | some attrs =>
    have hattrs : wmitlvGetAttributes (attrList table) id = fun k => attrs[k]? := by
      funext k
      rw [getAttributes_eq hid, ht, bind_some]
    have hd : ∀ a ∈ attrs, a.Declared := by
      obtain ⟨g, hg, rfl⟩ := map_eq_some_iff.1 ht
      intro a ha
      obtain ⟨w, hw, rfl⟩ := mem_map.1 ha
      exact htable g (mem_of_find?_eq_some hg) w hw
    obtain ⟨hout, hacc⟩ := @checkLoop_spec attrs msg hd (msg.length + 1) 0 (zero_le _)
      (lt_succ_self _)
    rw [hattrs, map_some]
    dsimp only
    cases hc : checkLoop (fun k => attrs[k]?) msg (msg.length + 1) 0 0 with
    | outside => exact absurd hc hout
    | refused => exact ⟨-1, rfl, nofun⟩
    | accepted =>
      have hseen := fun j hp => hacc hc j (zero_le j) hp
      refine ⟨0, rfl, fun _ hlen mem hm => ?_⟩
      obtain ⟨s, hs, hbufs, hinv, hlast⟩ := @padLoop_of_seen attrs msg mem hseen
      have hright := (hinv.params_right_iff hlast).2 fun k a ha hp => by
        obtain ⟨b, hb, -, hseen⟩ := hseen k hp
        obtain rfl := some.inj (ha.symm.trans hb)
        exact hseen.same_lengths
      refine ⟨attrs, _, rfl, ?_, hright.length, ?_, hright.absent⟩
      · rw [checkAndPad_eq hid ht hlen hm, hs, ← hbufs]
      · intro k a p ha hq hp
        obtain ⟨b, hb, -, hseen⟩ := hseen k hp
        obtain rfl := some.inj (ha.symm.trans hb)
        have hk := lt_of_present hlast k (List.getElem?_eq_some_iff.1 ha).1 hp
        rw [getElem?_append_left hk] at hq
        exact hseen.in_place (hinv.reported k a p ha hq).2

theorem strucTable_declared : ∀ g ∈ strucTable, ∀ w ∈ g.tlvs, (attributesOf w).Declared := by
  intro g hg w hw
  obtain rfl := mem_singleton.1 hg
  obtain rfl := mem_singleton.1 hw
  exact ⟨fun h => absurd h (by decide), fun _ _ => .inl (by decide)⟩

theorem accepted_in_place_oneStruc : ∃ params,
    wmitlvCheckAndPadTlvs (attrList strucTable)
      [12, 0, 18, 0, 8, 0, 5, 0, 1, 2, 3, 4, 5, 6, 7, 8] 0x3001 (fun _ => true) =
        some ⟨0, some params, [], []⟩ := by
  obtain ⟨ret, hret, h⟩ := @accepted_in_place strucTable 0x3001 (by decide) strucTable_declared
    [12, 0, 18, 0, 8, 0, 5, 0, 1, 2, 3, 4, 5, 6, 7, 8]
  have hzero : wmitlvCheckTlvParams (attrList strucTable)
      [12, 0, 18, 0, 8, 0, 5, 0, 1, 2, 3, 4, 5, 6, 7, 8] 0x3001 = some 0 := by decide +kernel
  obtain rfl := some.inj (hret.symm.trans hzero)
  obtain ⟨attrs, params, -, hpad, -⟩ := h rfl (by decide) (fun _ => true) rfl
  exact ⟨params, hpad⟩

theorem empty_message_is_accepted :
    wmitlvCheckTlvParams (attrList strucTable) [] 0x3001 = some 0 ∧
      ¬∃ r, wmitlvCheckAndPadTlvs (attrList strucTable) [] 0x3001 (fun _ => true) = some r ∧
        r.ret = 0 := by
  refine ⟨by decide +kernel, ?_⟩
  rintro ⟨r, hr, h0⟩
  have h : ((wmitlvCheckAndPadTlvs (attrList strucTable) [] 0x3001 fun _ => true).map
      PadResult.ret) = some (-1) := by decide +kernel
  rw [hr, map_some, h0] at h
  exact absurd h (by decide)

end Qcacld.Wmi

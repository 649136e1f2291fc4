import Mathlib.Order.Monotone.Basic
import Qcacld.Wmi.WmiTlvHelper

/-!
# Wmi — WmiTlvPad

What `wmitlv_check_and_pad_tlvs` makes of a message.  `PadRight` says what is to hold of it, and `check_and_pad_iff` for which messages it does: the header of the first structure of an array is read before it is known to be in the message, and its length is taken to be that of all others.
-/

namespace Qcacld.Wmi

open Support List Option Nat

/-! ### What is to hold -/

def tlvPos (msg : List UInt8) : Nat → Nat
  | 0 => 0
  | k + 1 => tlvPos msg k + wmiTlvHdrSize + tlvLenAt msg (tlvPos msg k)

def Present (msg : List UInt8) (k : Nat) : Prop := tlvPos msg k + wmiTlvHdrSize ≤ msg.length
deriving Decidable

/-- Where the structures of an array are: each one says how long it is. -/
def strucPos (msg : List UInt8) (start : Nat) : Nat → Nat
  | 0 => start
  | i + 1 => strucPos msg start i + wmiTlvHdrSize + tlvLenAt msg (strucPos msg start i)

/-- An array of structures, as many as there are. -/
def WmitlvAttributes.IsStrucArray (a : WmitlvAttributes) : Prop :=
  a.tagVariedSize ≠ wmitlvSizeFix ∧ a.tagId = wmitlvTagArrayStruc
deriving Decidable

/-- Where an element of a TLV is in the message, and how long it is. -/
def elemRange (a : WmitlvAttributes) (msg : List UInt8) (pos i : Nat) : Nat × Nat :=
  if a.IsStrucArray then
    (strucPos msg (tlvStart msg pos) i,
      tlvLenAt msg (strucPos msg (tlvStart msg pos) i) + wmiTlvHdrSize)
  else plainRange a (tlvStart msg pos) (currLen msg pos) i

def bytesFrom (msg : List UInt8) (bufs : List (List UInt8)) : TlvPtr → List UInt8
  | .null => []
  | .msg start => msg.drop start
  | .buf id => bufs[id]?.getD []

/-- What is reported of a TLV that is in the message: complete elements of the size that is expected, each made of the element of the message it stands for. -/
structure TlvRight (a : WmitlvAttributes) (msg : List UInt8) (pos : Nat)
    (bufs : List (List UInt8)) (p : WmitlvCmdParamInfo) : Prop where
  none : p.tlvPtr = .null → p.numElements = 0
  complete : p.numElements * a.tagStructSize ≤ (bytesFrom msg bufs p.tlvPtr).length
  allocated : p.bufIsAllocated = true ↔ ∃ id, p.tlvPtr = .buf id
  from_elem : ∀ i < p.numElements, p.builtFrom i = elemRange a msg pos i
  inside : ∀ i < p.numElements, (p.builtFrom i).1 + (p.builtFrom i).2 ≤ msg.length
  bytes : ∀ i < p.numElements,
    ((bytesFrom msg bufs p.tlvPtr).drop (i * a.tagStructSize)).take a.tagStructSize =
      fitted 0 a.tagStructSize (bytesAt msg (p.builtFrom i).1 (p.builtFrom i).2)

structure ParamsRight (attrs : List WmitlvAttributes) (msg : List UInt8) (bufs : List (List UInt8))
    (params : List WmitlvCmdParamInfo) : Prop where
  length : params.length = attrs.length
  present : ∀ k a p, attrs[k]? = some a → params[k]? = some p →
    Present msg k → TlvRight a msg (tlvPos msg k) bufs p
  absent : ∀ k p, params[k]? = some p → ¬Present msg k → p = .zero
  owned : params.filterMap (·.buffer) = List.range bufs.length

/-- **What is to hold of a call.**  It reads inside the message; what it reports when it succeeds is right, and every buffer belongs to one parameter; when it fails every buffer has been freed once, and the caller has no pointer. -/
def PadRight (attrs : List WmitlvAttributes) (msg : List UInt8) : Option PadResult → Prop
  | none => False
  | some r =>
    (r.ret = 0 → r.freed = [] ∧
      ∃ params, r.wmiCmdStruct = some params ∧ ParamsRight attrs msg r.bufs params) ∧
    (r.ret ≠ 0 → r.freed = List.range r.bufs.length ∧ r.wmiCmdStruct = none)

/-! ### For which messages it holds -/

/-- How long the first structure of an array says it is. -/
def innerLen (msg : List UInt8) (pos : Nat) : Nat :=
  tlvLenAt msg (tlvStart msg pos) + wmiTlvHdrSize

/-- How long a TLV of fixed size is expected to be. -/
def WmitlvAttributes.fixedSize (a : WmitlvAttributes) : Nat :=
  if a.tagArraySize = wmitlvArrSizeInvalid then a.tagStructSize
  else a.tagStructSize * a.tagArraySize

/-- An array of words, bytes or structures without headers. -/
def WmitlvAttributes.IsPlainArray (a : WmitlvAttributes) : Prop :=
  a.tagVariedSize ≠ wmitlvSizeFix ∧ (a.tagId = wmitlvTagArrayUint32 ∨ a.tagId = wmitlvTagArrayByte ∨
      a.tagId = wmitlvTagArrayFixedStruc)
deriving Decidable

/-- The header is the one that is expected, and the TLV is in the message. -/
def HeaderFits (a : WmitlvAttributes) (msg : List UInt8) (pos : Nat) : Prop :=
  tlvLenAt msg pos ≤ msg.length - (pos + wmiTlvHdrSize) ∧ tlvTagAt msg pos = a.tagId
deriving Decidable

/-- What its sizes are found out from can be read: the header of the first structure of an array is in the message, and the size that an array's length is divided by is not zero. -/
def Readable (a : WmitlvAttributes) (msg : List UInt8) (pos : Nat) : Prop :=
  (a.IsStrucArray → currLen msg pos ≠ 0 → tlvStart msg pos + wmiTlvHdrSize ≤ msg.length) ∧
    (a.IsPlainArray → a.tagStructSize ≠ 0)
deriving Decidable

def Handled (a : WmitlvAttributes) (msg : List UInt8) (pos : Nat) : Prop :=
  if a.tagVariedSize = wmitlvSizeFix then
    a.tagId = wmitlvTagArrayStruc → currLen msg pos = a.fixedSize
  else
    (a.IsStrucArray ∧ (currLen msg pos ≠ 0 → innerLen msg pos ≤ currLen msg pos)) ∨ a.IsPlainArray
deriving Decidable

def Pads (a : WmitlvAttributes) (msg : List UInt8) (pos : Nat) : Prop :=
  if a.tagVariedSize = wmitlvSizeFix then currLen msg pos < a.fixedSize
  else a.IsStrucArray ∧ currLen msg pos ≠ 0 ∧ innerLen msg pos ≠ a.tagStructSize
deriving Decidable

/-- All structures of an array say that they are as long as the first. -/
def SameLengths (a : WmitlvAttributes) (msg : List UInt8) (pos : Nat) : Prop :=
  a.IsStrucArray → ∀ i < currLen msg pos / innerLen msg pos,
    tlvLenAt msg (tlvStart msg pos + i * innerLen msg pos) = tlvLenAt msg (tlvStart msg pos)

variable (a : WmitlvAttributes) (msg : List UInt8) (pos : Nat)

instance : Decidable (SameLengths a msg pos) := inferInstanceAs (Decidable (_ → _))

/-- How many TLVs before this one have been copied. -/
def padsBefore (attrs : List WmitlvAttributes) (msg : List UInt8) (k : Nat) : Nat :=
  (List.range k).countP fun j => attrs[j]?.any fun a => Pads a msg (tlvPos msg j)

def GoesOn (attrs : List WmitlvAttributes) (msg : List UInt8) (mem : Nat → Bool) (k : Nat) : Prop :=
  ∀ a ∈ attrs[k]?, HeaderFits a msg (tlvPos msg k) ∧ Readable a msg (tlvPos msg k) ∧
    Handled a msg (tlvPos msg k) ∧
    (Pads a msg (tlvPos msg k) → mem (padsBefore attrs msg k + 1) = true)
deriving Decidable

/-- **The condition.**  What the loop comes to can be read, and if it comes to the end, the structures of every array say that they are of one length. -/
structure PadSound (attrs : List WmitlvAttributes) (msg : List UInt8) (mem : Nat → Bool) :
    Prop where
  readable : ∀ k, ∀ a ∈ attrs[k]?, Present msg k → (∀ j < k, GoesOn attrs msg mem j) →
    HeaderFits a msg (tlvPos msg k) → Readable a msg (tlvPos msg k)
  same_lengths : (∀ k < attrs.length, Present msg k → GoesOn attrs msg mem k) →
    ∀ k, ∀ a ∈ attrs[k]?, Present msg k → SameLengths a msg (tlvPos msg k)

/-! ### One TLV -/

section OneTlv

/-- Where the code takes an element from: all structures of an array are taken to be as long as the first. -/
def takenRange (a : WmitlvAttributes) (msg : List UInt8) (pos i : Nat) : Nat × Nat :=
  if a.IsStrucArray then (tlvStart msg pos + i * innerLen msg pos, innerLen msg pos)
  else plainRange a (tlvStart msg pos) (currLen msg pos) i

def TlvPlace.bytesFrom (msg : List UInt8) : TlvPlace → List UInt8
  | .null => []
  | .msg start => msg.drop start
  | .pad bytes => bytes

structure Placed (a : WmitlvAttributes) (msg : List UInt8) (pos : Nat) (t : TakenTlv) : Prop where
  next : t.next = pos + wmiTlvHdrSize + tlvLenAt msg pos
  pads : (∃ bytes, t.place = .pad bytes) ↔ Pads a msg pos
  none : t.place = .null → t.numElements = 0
  complete : t.numElements * a.tagStructSize ≤ (t.place.bytesFrom msg).length
  from_elem : ∀ i < t.numElements, t.builtFrom i = takenRange a msg pos i
  inside : ∀ i < t.numElements, (t.builtFrom i).1 + (t.builtFrom i).2 ≤ msg.length
  bytes : ∀ i < t.numElements,
    ((t.place.bytesFrom msg).drop (i * a.tagStructSize)).take a.tagStructSize =
      fitted 0 a.tagStructSize (bytesAt msg (t.builtFrom i).1 (t.builtFrom i).2)
  count : a.IsStrucArray → t.numElements = currLen msg pos / innerLen msg pos

variable {a : WmitlvAttributes} {msg : List UInt8} {pos : Nat}

theorem bytesAt_length {start len : Nat} (h : start + len ≤ msg.length) :
    (bytesAt msg start len).length = len := by
  simp only [bytesAt, length_take, length_drop]
  omega

theorem fitted_bytesAt {size start len : Nat} (hs : size ≤ len) (h : start + len ≤ msg.length) :
    fitted 0 size (bytesAt msg start len) = (msg.drop start).take size := by
  rw [fitted_of_le (by rw [bytesAt_length h]; exact hs), bytesAt, take_take, min_eq_left hs]

theorem tlvStart_add_currLen (msg : List UInt8) (pos : Nat) :
    tlvStart msg pos + currLen msg pos = pos + wmiTlvHdrSize + tlvLenAt msg pos := by
  simp only [tlvStart, currLen]
  split_ifs <;> omega

theorem HeaderFits.inside (h : HeaderFits a msg pos) (hpos : pos + wmiTlvHdrSize ≤ msg.length) :
    tlvStart msg pos + currLen msg pos ≤ msg.length := by
  have := h.1
  rw [tlvStart_add_currLen]
  omega

def WmitlvAttributes.IsSingle (a : WmitlvAttributes) : Prop :=
  a.tagVariedSize = wmitlvSizeFix ∧ a.tagArraySize = wmitlvArrSizeInvalid

theorem plainRange_single (h : a.IsSingle) (start curr i : Nat) :
    plainRange a start curr i = (start, curr) := if_pos h

theorem plainRange_array (h : ¬a.IsSingle) (start curr i : Nat) : plainRange a start curr i =
      (start + min (i * a.tagStructSize) curr, min a.tagStructSize (curr - i * a.tagStructSize)) :=
  if_neg h

variable {n start curr : Nat}

theorem elem_le {i : Nat} (hi : i < n) (size : Nat) : i * size + size ≤ n * size := by
  rw [← succ_mul]
  exact mul_le_mul_right size hi

theorem plain_in_place (h1 : a.IsSingle → n ≤ 1) (hn : n * a.tagStructSize ≤ curr)
    (hin : start + curr ≤ msg.length) {i : Nat} (hi : i < n) :
    (plainRange a start curr i).1 + (plainRange a start curr i).2 ≤ msg.length ∧
      ((msg.drop start).drop (i * a.tagStructSize)).take a.tagStructSize = fitted 0 a.tagStructSize
          (bytesAt msg (plainRange a start curr i).1 (plainRange a start curr i).2) := by
  have hle := (elem_le hi a.tagStructSize).trans hn
  by_cases hone : a.IsSingle
  · obtain rfl : i = 0 := by
      have := h1 hone
      omega
    rw [plainRange_single hone]
    dsimp only
    rw [fitted_bytesAt (by omega) hin, zero_mul, drop_zero]
    exact ⟨hin, rfl⟩
  · have hmin : min a.tagStructSize (curr - i * a.tagStructSize) = a.tagStructSize :=
      min_eq_left (by omega)
    rw [plainRange_array hone, hmin, min_eq_left (by omega)]
    dsimp only
    rw [fitted_bytesAt (le_refl _) (by omega), drop_drop]
    exact ⟨by omega, rfl⟩

theorem plain_padded {k : Nat} (h1 : a.IsSingle → n ≤ 1) (hn : n * a.tagStructSize ≤ curr + k)
    (hfew : curr ≤ n * a.tagStructSize) (hin : start + curr ≤ msg.length) {i : Nat} (hi : i < n) :
    (plainRange a start curr i).1 + (plainRange a start curr i).2 ≤ msg.length ∧
      ((bytesAt msg start curr ++ List.replicate k 0).drop (i * a.tagStructSize)).take
          a.tagStructSize =
        fitted 0 a.tagStructSize
          (bytesAt msg (plainRange a start curr i).1 (plainRange a start curr i).2) := by
  have hle := (elem_le hi a.tagStructSize).trans hn
  rw [take_drop_filled (by rw [bytesAt_length hin]; exact hle)]
  by_cases hone : a.IsSingle
  · obtain ⟨rfl, rfl⟩ : i = 0 ∧ n = 1 := by
      have := h1 hone
      omega
    rw [plainRange_single hone]
    dsimp only
    rw [zero_mul, drop_zero, take_of_length_le]
    · exact ⟨hin, rfl⟩
    · rw [bytesAt_length hin]
      omega
  · rw [plainRange_array hone]
    dsimp only
    refine ⟨by omega, ?_⟩
    rcases le_total (i * a.tagStructSize) curr with hle | hle
    · rw [Nat.min_eq_left hle]
      simp [bytesAt, drop_take, take_take]
    · rw [Nat.sub_eq_zero_of_le hle, Nat.min_zero]
      simp [bytesAt, drop_take, Nat.sub_eq_zero_of_le hle]

theorem placed_plain {t : TakenTlv} (hs : ¬a.IsStrucArray)
    (hnext : t.next = tlvStart msg pos + currLen msg pos)
    (hfrom : t.builtFrom = plainRange a (tlvStart msg pos) (currLen msg pos))
    (hpads : (∃ bytes, t.place = .pad bytes) ↔ Pads a msg pos)
    (hnone : t.place = .null → t.numElements = 0)
    (hlen : t.numElements * a.tagStructSize ≤ (t.place.bytesFrom msg).length)
    (helem : ∀ i < t.numElements, (t.builtFrom i).1 + (t.builtFrom i).2 ≤ msg.length ∧
        ((t.place.bytesFrom msg).drop (i * a.tagStructSize)).take a.tagStructSize =
          fitted 0 a.tagStructSize (bytesAt msg (t.builtFrom i).1 (t.builtFrom i).2)) :
    Placed a msg pos t where
  next := hnext.trans (tlvStart_add_currLen msg pos)
  pads := hpads
  none := hnone
  complete := hlen
  from_elem := by
    intro i _
    rw [hfrom, takenRange, if_neg hs]
  inside := fun i hi => (helem i hi).1
  bytes := fun i hi => (helem i hi).2
  count := fun h => absurd h hs

def fixedElems (a : WmitlvAttributes) (curr : Nat) : Nat :=
  if a.tagArraySize = wmitlvArrSizeInvalid then if curr > wmiTlvHdrSize then 1 else 0
  else a.tagArraySize

theorem tlvSizes_fixed (hfix : a.tagVariedSize = wmitlvSizeFix) (start curr : Nat) :
    tlvSizes a msg start curr = .taken ⟨curr - a.fixedSize, fixedElems a curr, 0⟩ := by
  rw [tlvSizes, if_pos hfix, WmitlvAttributes.fixedSize, fixedElems]
  split_ifs <;> rfl

theorem fixedElems_single (h : a.IsSingle) (curr : Nat) : fixedElems a curr ≤ 1 := by
  rw [fixedElems, if_pos h.2]
  split_ifs <;> simp

theorem fixedElems_mul (curr : Nat) :
    fixedElems a curr = 0 ∨ fixedElems a curr * a.tagStructSize = a.fixedSize := by
  rw [fixedElems, WmitlvAttributes.fixedSize]
  split_ifs
  · exact .inr (one_mul _)
  · exact .inl rfl
  · exact .inr (mul_comm _ _)

theorem placeTlv_fixed (hfix : a.tagVariedSize = wmitlvSizeFix)
    (hin : tlvStart msg pos + currLen msg pos ≤ msg.length)
    (hh : Handled a msg pos) :
    ∃ t, placeTlv a msg (tlvStart msg pos) (currLen msg pos)
        ⟨currLen msg pos - a.fixedSize, fixedElems a (currLen msg pos), 0⟩ = .taken t ∧
      Placed a msg pos t := by
  have hs : ¬a.IsStrucArray := fun h => h.1 hfix
  have hone : a.IsSingle → fixedElems a (currLen msg pos) ≤ 1 := fun h => fixedElems_single h _
  have hmul := fixedElems_mul (a := a) (currLen msg pos)
  have hle : fixedElems a (currLen msg pos) * a.tagStructSize ≤ a.fixedSize := by
    rcases hmul with h0 | h0
    · rw [h0, zero_mul]
      exact zero_le _
    · exact h0.le
  have hdiff : ¬(a.tagId = wmitlvTagArrayStruc ∧
      ((currLen msg pos : Int) - (a.fixedSize : Nat)) ≠ 0) := by
    rintro ⟨htag, hne⟩
    rw [Handled, if_pos hfix] at hh
    rw [hh htag] at hne
    exact hne (Int.sub_self _)
  have hpads : Pads a msg pos ↔ currLen msg pos < a.fixedSize := by rw [Pads, if_pos hfix]
  rw [placeTlv]
  dsimp only
  rw [if_neg hdiff]
  split_ifs with hge hnull
  · exact absurd hfix hnull.1
  · refine ⟨_, rfl, placed_plain hs rfl rfl ?_ nofun ?_ ?_⟩
    · rw [hpads]
      exact ⟨by simp, fun h => by omega⟩
    · dsimp only [TlvPlace.bytesFrom]
      rw [length_drop]
      omega
    · intro i hi
      exact plain_in_place hone (by omega) hin hi
  · have hlen := bytesAt_length hin
    refine ⟨_, rfl, placed_plain hs rfl rfl ?_ nofun ?_ ?_⟩
    · rw [hpads]
      exact ⟨fun _ => by omega, fun _ => ⟨_, rfl⟩⟩
    · dsimp only [TlvPlace.bytesFrom]
      rw [length_append, length_replicate, hlen]
      omega
    · intro i hi
      refine plain_padded hone (by omega) ?_ hin hi
      have := hmul.resolve_left (ne_of_gt (zero_lt_of_lt hi))
      dsimp only at *
      omega

theorem placeTlv_plain (ha : a.IsPlainArray)
    (hin : tlvStart msg pos + currLen msg pos ≤ msg.length) :
    ∃ t, placeTlv a msg (tlvStart msg pos) (currLen msg pos)
        ⟨0, currLen msg pos / a.tagStructSize, 0⟩ = .taken t ∧
      Placed a msg pos t := by
  have htag : a.tagId ≠ wmitlvTagArrayStruc := by
    rcases ha.2 with h | h | h <;> simp [h, wmitlvTagArrayStruc, wmitlvTagArrayUint32,
      wmitlvTagArrayByte, wmitlvTagArrayFixedStruc]
  have hs : ¬a.IsStrucArray := fun h => htag h.2
  have hone : a.IsSingle → currLen msg pos / a.tagStructSize ≤ 1 := fun h => absurd h.1 ha.1
  have hle := div_mul_le_self (currLen msg pos) a.tagStructSize
  have hpads : ¬Pads a msg pos := by
    rw [Pads, if_neg ha.1]
    exact fun h => hs h.1
  rw [placeTlv, if_neg (fun h => htag h.1), if_pos (Int.le_refl 0)]
  refine ⟨_, rfl, placed_plain hs rfl rfl ?_ ?_ ?_ ?_⟩
  · refine ⟨fun ⟨bytes, h⟩ => ?_, fun h => absurd h hpads⟩
    dsimp only at h
    split_ifs at h
  · dsimp only
    split_ifs with h
    · intro _
      rw [h.2, Nat.zero_div]
    · exact nofun
  · dsimp only
    split_ifs with h
    · rw [h.2, Nat.zero_div, Nat.zero_mul]
      exact zero_le _
    · dsimp only [TlvPlace.bytesFrom]
      rw [length_drop]
      omega
  · intro i hi
    dsimp only at hi ⊢
    split_ifs with h
    · rw [h.2, Nat.zero_div] at hi
      exact absurd hi (not_lt_zero i)
    · exact plain_in_place hone hle hin hi

theorem placeTlv_empty (ha : a.IsStrucArray) (h0 : currLen msg pos = 0) :
    ∃ t, placeTlv a msg (tlvStart msg pos) (currLen msg pos) ⟨0, 0, 0⟩ = .taken t ∧
      Placed a msg pos t := by
  rw [placeTlv, if_neg (fun h => h.2 rfl), if_pos (Int.le_refl 0)]
  refine ⟨_, rfl, ?_⟩
  rw [if_pos ⟨ha.1, h0⟩]
  refine {
    next := tlvStart_add_currLen msg pos
    pads := ⟨nofun, fun h => ?_⟩
    none := fun _ => rfl
    complete := by simp
    from_elem := nofun
    inside := nofun
    bytes := nofun
    count := fun _ => by rw [h0, Nat.zero_div] }
  rw [Pads, if_neg ha.1] at h
  exact absurd h0 h.2.1

theorem inner_inside (hin : tlvStart msg pos + currLen msg pos ≤ msg.length) {i : Nat}
    (hi : i < currLen msg pos / innerLen msg pos) :
    tlvStart msg pos + i * innerLen msg pos + innerLen msg pos ≤ msg.length := by
  have hle := (elem_le hi (innerLen msg pos)).trans (div_mul_le_self _ _)
  omega

theorem placeTlv_struc (ha : a.IsStrucArray) (h0 : currLen msg pos ≠ 0)
    (hin : tlvStart msg pos + currLen msg pos ≤ msg.length) :
    ∃ t, placeTlv a msg (tlvStart msg pos) (currLen msg pos)
        ⟨innerLen msg pos - (a.tagStructSize : Int), currLen msg pos / innerLen msg pos,
          innerLen msg pos⟩ = .taken t ∧
      Placed a msg pos t := by
  have hle := div_mul_le_self (currLen msg pos) (innerLen msg pos)
  have hpads : Pads a msg pos ↔ innerLen msg pos ≠ a.tagStructSize := by
    rw [Pads, if_neg ha.1]
    exact ⟨fun h => h.2.2, fun h => ⟨ha, h0, h⟩⟩
  by_cases hsame : innerLen msg pos = a.tagStructSize
  · have hdiff : (innerLen msg pos : Int) - (a.tagStructSize : Int) = 0 := by omega
    have hfrom : ∀ i < currLen msg pos / innerLen msg pos,
        plainRange a (tlvStart msg pos) (currLen msg pos) i = takenRange a msg pos i := by
      intro i hi
      have := (elem_le hi (innerLen msg pos)).trans hle
      rw [takenRange, if_pos ha, plainRange_array (fun h => ha.1 h.1), ← hsame,
        min_eq_left (by omega), min_eq_left (by omega)]
    rw [placeTlv]
    dsimp only
    rw [if_neg (fun h => h.2 hdiff), if_pos (Int.le_of_eq hdiff.symm), if_neg (fun h => h0 h.2)]
    refine ⟨_, rfl, {
      next := tlvStart_add_currLen msg pos
      pads := ⟨nofun, fun h => absurd hsame (hpads.1 h)⟩
      none := nofun
      complete := ?_
      from_elem := hfrom
      inside := ?_
      bytes := ?_
      count := fun _ => rfl }⟩
    · dsimp only [TlvPlace.bytesFrom]
      rw [length_drop, ← hsame]
      omega
    · intro i hi
      dsimp only
      rw [hfrom i hi, takenRange, if_pos ha]
      exact inner_inside hin hi
    · intro i hi
      have := inner_inside hin hi
      dsimp only
      rw [hfrom i hi, takenRange, if_pos ha, ← hsame]
      dsimp only [TlvPlace.bytesFrom]
      rw [fitted_bytesAt (le_refl _) this, drop_drop]
  · have hdiff : (innerLen msg pos : Int) - (a.tagStructSize : Int) ≠ 0 := by omega
    have hcell : padStrucs a msg (tlvStart msg pos)
        ⟨innerLen msg pos - (a.tagStructSize : Int), currLen msg pos / innerLen msg pos,
          innerLen msg pos⟩ =
        (range (currLen msg pos / innerLen msg pos)).flatMap fun i =>
          fitted 0 a.tagStructSize
            (bytesAt msg (tlvStart msg pos + i * innerLen msg pos) (innerLen msg pos)) := by
      refine flatMap_congr ?_
      intro i hi
      have := inner_inside hin (mem_range.1 hi)
      dsimp only
      split_ifs with hlong
      · rw [fitted_bytesAt (by omega) this, bytesAt]
      · rfl
    rw [placeTlv, if_pos ⟨ha.2, hdiff⟩, if_neg ha.1, hcell]
    refine ⟨_, rfl, {
      next := tlvStart_add_currLen msg pos
      pads := ⟨fun _ => hpads.2 hsame, fun _ => ⟨_, rfl⟩⟩
      none := nofun
      complete := ?_
      from_elem := ?_
      inside := fun i hi => inner_inside hin hi
      bytes := fun i hi => take_drop_cells (fun j => fitted_length _ _ _) hi
      count := fun _ => rfl }⟩
    · dsimp only [TlvPlace.bytesFrom]
      rw [length_cells (fun j => fitted_length _ _ _)]
    · intro i _
      rw [takenRange, if_pos ha]

theorem padTlv_of_fits (h : HeaderFits a msg pos) : padTlv a msg pos =
      match tlvSizes a msg (tlvStart msg pos) (currLen msg pos) with
      | .outside => .outside
      | .refused => .refused
      | .taken z => placeTlv a msg (tlvStart msg pos) (currLen msg pos) z :=
  (if_neg (not_lt.2 h.1)).trans (if_neg (not_not.2 h.2))

theorem padTlv_of_not_fits (h : ¬HeaderFits a msg pos) : padTlv a msg pos = .refused := by
  rw [padTlv]
  split_ifs with h1 h2
  · rfl
  · rfl
  · exact absurd ⟨not_lt.1 h1, not_not.1 h2⟩ h

/-- Where the code points to when it copies nothing. -/
def ownPtr (a : WmitlvAttributes) (msg : List UInt8) (pos : Nat) : TlvPtr :=
  if a.tagVariedSize ≠ 0 ∧ currLen msg pos = 0 then .null else .msg (tlvStart msg pos)

/-- What is taken has as many elements as its sizes say, and stays in the message if it is not copied. -/
theorem padTlv_taken {t : TakenTlv} (h : padTlv a msg pos = .taken t) :
    (∃ z, tlvSizes a msg (tlvStart msg pos) (currLen msg pos) = .taken z ∧
      t.numElements = z.numOfElems) ∧
    (t.place = .null → ownPtr a msg pos = .null) ∧
    ∀ start, t.place = .msg start → ownPtr a msg pos = .msg start := by
  rw [padTlv] at h
  split_ifs at h with h1 h2
  cases hz : tlvSizes a msg (tlvStart msg pos) (currLen msg pos) with
  | outside => simp [hz] at h
  | refused => simp [hz] at h
  | taken z =>
    rw [hz] at h
    dsimp only at h
    rw [placeTlv] at h
    split_ifs at h with hs hfix hge hown
    all_goals
      obtain rfl := TlvEnd.taken.inj h
      refine ⟨⟨z, rfl, rfl⟩, ?_⟩
    · exact ⟨nofun, nofun⟩
    · exact ⟨fun _ => if_pos hown, nofun⟩
    · exact ⟨nofun, fun start hm => (if_neg hown).trans (congrArg _ (TlvPlace.msg.inj hm))⟩
    · exact ⟨nofun, nofun⟩

/-- What is said of a TLV by how the loop ends for it. -/
def TlvEnd.Means (a : WmitlvAttributes) (msg : List UInt8) (pos : Nat) : TlvEnd TakenTlv → Prop
  | .outside => HeaderFits a msg pos ∧ ¬Readable a msg pos
  | .refused => HeaderFits a msg pos → Readable a msg pos ∧ ¬Handled a msg pos
  | .taken t => HeaderFits a msg pos ∧ Readable a msg pos ∧ Handled a msg pos ∧ Placed a msg pos t

theorem padTlv_fixed (hfix : a.tagVariedSize = wmitlvSizeFix) (hf : HeaderFits a msg pos)
    (hin : tlvStart msg pos + currLen msg pos ≤ msg.length) :
    (padTlv a msg pos).Means a msg pos := by
  have hread : Readable a msg pos := ⟨fun h => absurd hfix h.1, fun h => absurd hfix h.1⟩
  rw [padTlv_of_fits hf, tlvSizes_fixed hfix]
  dsimp only
  by_cases hh : Handled a msg pos
  · obtain ⟨t, ht, hp⟩ := placeTlv_fixed hfix hin hh
    rw [ht]
    exact ⟨hf, hread, hh, hp⟩
  · have hh' := hh
    rw [Handled, if_pos hfix, Classical.not_imp] at hh'
    rw [placeTlv]
    dsimp only
    rw [if_pos ⟨hh'.1, by omega⟩, if_pos hfix]
    exact fun _ => ⟨hread, hh⟩

theorem padTlv_strucs (ha : a.IsStrucArray) (hf : HeaderFits a msg pos)
    (hin : tlvStart msg pos + currLen msg pos ≤ msg.length) :
    (padTlv a msg pos).Means a msg pos := by
  have hplain : ¬a.IsPlainArray := by
    rintro ⟨-, h⟩
    rw [ha.2] at h
    exact absurd h (by decide)
  rw [padTlv_of_fits hf, tlvSizes, if_neg ha.1, if_pos ha.2]
  by_cases h0 : currLen msg pos = 0
  · obtain ⟨t, ht, hp⟩ := placeTlv_empty ha h0
    rw [if_neg (not_not.2 h0)]
    dsimp only
    rw [ht]
    refine ⟨hf, ⟨fun _ h => absurd h0 h, fun h => absurd h hplain⟩, ?_, hp⟩
    rw [Handled, if_neg ha.1]
    exact .inl ⟨ha, fun h => absurd h0 h⟩
  · rw [if_pos h0]
    split_ifs with hout hlong
    · exact ⟨hf, fun h => absurd (h.1 ha h0) (not_le.2 hout)⟩
    · refine fun _ => ⟨⟨fun _ _ => not_lt.1 hout, fun h => absurd h hplain⟩, ?_⟩
      rw [Handled, if_neg ha.1]
      rintro (h | h)
      · exact absurd (h.2 h0) (not_le.2 hlong)
      · exact hplain h
    · obtain ⟨t, ht, hp⟩ := placeTlv_struc ha h0 hin
      dsimp only
      rw [innerLen] at ht
      rw [ht]
      refine ⟨hf, ⟨fun _ _ => not_lt.1 hout, fun h => absurd h hplain⟩, ?_, hp⟩
      rw [Handled, if_neg ha.1]
      exact .inl ⟨ha, fun _ => not_lt.1 hlong⟩

theorem padTlv_plain (ha : a.IsPlainArray) (hf : HeaderFits a msg pos)
    (hin : tlvStart msg pos + currLen msg pos ≤ msg.length) :
    (padTlv a msg pos).Means a msg pos := by
  have hs : ¬a.IsStrucArray := by
    rintro ⟨-, h⟩
    have hp := ha.2
    rw [h] at hp
    exact absurd hp (by decide)
  have hh : Handled a msg pos := by
    rw [Handled, if_neg ha.1]
    exact .inr ha
  rw [padTlv_of_fits hf, tlvSizes, if_neg ha.1, if_neg (fun h => hs ⟨ha.1, h⟩), if_pos ha.2]
  split_ifs with h0
  · exact ⟨hf, fun h => h.2 ha h0⟩
  · obtain ⟨t, ht, hp⟩ := placeTlv_plain ha hin
    dsimp only
    rw [ht]
    exact ⟨hf, ⟨fun h => absurd h hs, fun _ => h0⟩, hh, hp⟩

/-- **One TLV.**  What makes the loop read outside, what it refuses, and what is found of a TLV that it takes. -/
theorem padTlv_means (a : WmitlvAttributes) {msg : List UInt8} {pos : Nat}
    (hpos : pos + wmiTlvHdrSize ≤ msg.length) : (padTlv a msg pos).Means a msg pos := by
  by_cases hf : HeaderFits a msg pos
  · have hin := hf.inside hpos
    by_cases hfix : a.tagVariedSize = wmitlvSizeFix
    · exact padTlv_fixed hfix hf hin
    by_cases hs : a.IsStrucArray
    · exact padTlv_strucs hs hf hin
    by_cases hp : a.IsPlainArray
    · exact padTlv_plain hp hf hin
    · rw [padTlv_of_fits hf, tlvSizes, if_neg hfix, if_neg (fun h => hs ⟨hfix, h⟩),
        if_neg (fun h => hp ⟨hfix, h⟩)]
      refine fun _ => ⟨⟨fun h => absurd h hs, fun h => absurd h hp⟩, ?_⟩
      rw [Handled, if_neg hfix]
      rintro (h | h)
      · exact hs h.1
      · exact hp h
  · rw [padTlv_of_not_fits hf]
    exact fun h => absurd h hf

end OneTlv

/-! ### The loop -/

section Loop

variable {attrs : List WmitlvAttributes} {msg : List UInt8} {mem : Nat → Bool}

/-- What is reported of a TLV, as far as it goes without knowing how long the structures of an array say they are. -/
structure Reported (a : WmitlvAttributes) (msg : List UInt8) (pos : Nat)
    (bufs : List (List UInt8)) (p : WmitlvCmdParamInfo) : Prop where
  none : p.tlvPtr = .null → p.numElements = 0
  complete : p.numElements * a.tagStructSize ≤ (bytesFrom msg bufs p.tlvPtr).length
  allocated : p.bufIsAllocated = true ↔ ∃ id, p.tlvPtr = .buf id
  known : ∀ id, p.tlvPtr = .buf id → id < bufs.length
  from_elem : ∀ i < p.numElements, p.builtFrom i = takenRange a msg pos i
  inside : ∀ i < p.numElements, (p.builtFrom i).1 + (p.builtFrom i).2 ≤ msg.length
  bytes : ∀ i < p.numElements,
    ((bytesFrom msg bufs p.tlvPtr).drop (i * a.tagStructSize)).take a.tagStructSize =
      fitted 0 a.tagStructSize (bytesAt msg (p.builtFrom i).1 (p.builtFrom i).2)
  count : a.IsStrucArray → p.numElements = currLen msg pos / innerLen msg pos
  sizes : ∃ z, tlvSizes a msg (tlvStart msg pos) (currLen msg pos) = .taken z ∧
    p.numElements = z.numOfElems
  own : ¬Pads a msg pos → p.tlvPtr = ownPtr a msg pos

structure LoopInv (attrs : List WmitlvAttributes) (msg : List UInt8) (mem : Nat → Bool)
    (s : PadState) : Prop where
  here : s.bufIdx = tlvPos msg s.params.length
  few : s.params.length ≤ attrs.length
  made : s.bufs.length = padsBefore attrs msg s.params.length
  owned : s.params.filterMap (·.buffer) = List.range s.bufs.length
  gone_on : ∀ j < s.params.length, GoesOn attrs msg mem j
  reported : ∀ k a p, attrs[k]? = some a → s.params[k]? = some p →
    Present msg k ∧ Reported a msg (tlvPos msg k) s.bufs p

variable {a : WmitlvAttributes} {pos : Nat} {bufs : List (List UInt8)} {p : WmitlvCmdParamInfo}

theorem strucPos_eq {start n len : Nat}
    (h : ∀ i < n, tlvLenAt msg (start + i * (len + wmiTlvHdrSize)) = len) :
    ∀ i ≤ n, strucPos msg start i = start + i * (len + wmiTlvHdrSize) := by
  intro i
  induction i with
  | zero =>
    intro _
    rw [zero_mul]
    rfl
  | succ i ih =>
    intro hi
    rw [strucPos, ih (le_of_succ_le hi), h i hi, succ_mul]
    omega

/-- **What depends on the lengths.**  The elements are the message's own just when the structures say that they are as long as the first. -/
theorem Reported.right_iff (h : Reported a msg pos bufs p) :
    TlvRight a msg pos bufs p ↔ SameLengths a msg pos := by
  constructor
  · intro hr hs i hi
    have hi' : i < p.numElements := (h.count hs).symm ▸ hi
    have heq := (h.from_elem i hi').symm.trans (hr.from_elem i hi')
    rw [takenRange, if_pos hs, elemRange, if_pos hs] at heq
    obtain ⟨hp, hl⟩ := Prod.mk.inj heq
    rw [hp]
    rw [innerLen] at hl
    omega
  · intro hl
    refine { h with from_elem := ?_ }
    intro i hi
    rw [h.from_elem i hi, takenRange, elemRange]
    split_ifs with hs
    · rw [h.count hs] at hi
      have hpos := strucPos_eq (hl hs) i (le_of_lt hi)
      rw [hpos]
      exact Prod.ext rfl (congrArg (· + wmiTlvHdrSize) (hl hs i hi).symm)
    · rfl

theorem Reported.append (h : Reported a msg pos bufs p) (more : List (List UInt8)) :
    Reported a msg pos (bufs ++ more) p := by
  have hb : bytesFrom msg (bufs ++ more) p.tlvPtr = bytesFrom msg bufs p.tlvPtr := by
    cases hp : p.tlvPtr with
    | null => rfl
    | msg start => rfl
    | buf id => rw [bytesFrom, bytesFrom, getElem?_append_left (h.known id hp)]
  refine { h with
    complete := by rw [hb]; exact h.complete
    known := ?_
    bytes := by rw [hb]; exact h.bytes }
  intro id hid
  rw [length_append]
  exact Nat.lt_add_right _ (h.known id hid)

theorem LoopInv.report {s : PadState} (h : LoopInv attrs msg mem s)
    (ha : attrs[s.params.length]? = some a) (hpres : Present msg s.params.length)
    (hgo : GoesOn attrs msg mem s.params.length) {next : Nat} {more : List (List UInt8)}
    (hnext : next = tlvPos msg (s.params.length + 1))
    (hmore : more.length = if Pads a msg (tlvPos msg s.params.length) then 1 else 0)
    (hbuf : p.buffer.toList = (List.range more.length).map (s.bufs.length + ·))
    (hp : Reported a msg (tlvPos msg s.params.length) (s.bufs ++ more) p) :
    LoopInv attrs msg mem ⟨next, s.params ++ [p], s.bufs ++ more⟩ where
  here := by
    rw [length_append]
    exact hnext
  few := by
    rw [length_append]
    exact (List.getElem?_eq_some_iff.1 ha).1
  made := by
    rw [length_append, length_append, length_singleton, padsBefore,
      range_succ, countP_append, countP_singleton, ha, any_some, h.made,
      hmore]
    simp only [decide_eq_true_eq]
    rfl
  owned := by
    rw [filterMap_append, h.owned, length_append, range_add, ← hbuf]
    cases hb : p.buffer <;> simp [hb]
  gone_on := by
    intro j hj
    rw [length_append] at hj
    rcases Nat.lt_succ_iff_lt_or_eq.1 hj with hj | rfl
    · exact h.gone_on j hj
    · exact hgo
  reported := by
    intro k b q hb hq
    dsimp only at hq
    by_cases hk : k < s.params.length
    · rw [List.getElem?_append_left hk] at hq
      obtain ⟨hpk, hr⟩ := h.reported k b q hb hq
      exact ⟨hpk, hr.append more⟩
    · obtain ⟨rfl, rfl⟩ : k = s.params.length ∧ q = p := by
        have hlen := (List.getElem?_eq_some_iff.1 hq).1
        rw [List.length_append, List.length_singleton] at hlen
        obtain rfl : k = s.params.length := by omega
        rw [getElem?_concat_length] at hq
        exact ⟨rfl, (some.inj hq).symm⟩
      obtain rfl : a = b := some.inj (ha.symm.trans hb)
      exact ⟨hpres, hp⟩

theorem Placed.reported {t : TakenTlv} (h : Placed a msg pos t) (ht : padTlv a msg pos = .taken t)
    (hp : p.numElements = t.numElements)
    (hf : p.builtFrom = t.builtFrom) (hnull : p.tlvPtr = .null → t.place = .null)
    (hall : p.bufIsAllocated = true ↔ ∃ id, p.tlvPtr = .buf id)
    (hknown : ∀ id, p.tlvPtr = .buf id → id < bufs.length)
    (hb : bytesFrom msg bufs p.tlvPtr = t.place.bytesFrom msg)
    (hown : ¬Pads a msg pos → p.tlvPtr = ownPtr a msg pos) : Reported a msg pos bufs p where
  none := fun h0 => hp.trans (h.none (hnull h0))
  complete := by
    rw [hp, hb]
    exact h.complete
  allocated := hall
  known := hknown
  from_elem := by
    rw [hp, hf]
    exact h.from_elem
  inside := by
    rw [hp, hf]
    exact h.inside
  bytes := by
    rw [hp, hf, hb]
    exact h.bytes
  count := by
    rw [hp]
    exact h.count
  sizes := by
    rw [hp]
    exact (padTlv_taken ht).1
  own := hown

/-- One turn of the loop, for a TLV that is taken: it is reported, unless there is no memory for it. -/
theorem LoopInv.reportTlv {s : PadState} (h : LoopInv attrs msg mem s)
    (ha : attrs[s.params.length]? = some a) (hpres : Present msg s.params.length) {t : TakenTlv}
    (hok : HeaderFits a msg (tlvPos msg s.params.length) ∧
      Readable a msg (tlvPos msg s.params.length) ∧ Handled a msg (tlvPos msg s.params.length))
    (hpad : padTlv a msg (tlvPos msg s.params.length) = .taken t)
    (ht : Placed a msg (tlvPos msg s.params.length) t) :
    match reportTlv mem s t with
    | none => ¬GoesOn attrs msg mem s.params.length
    | some s' => LoopInv attrs msg mem s' ∧ s'.params.length = s.params.length + 1 := by
  have hgo : (Pads a msg (tlvPos msg s.params.length) → mem (s.bufs.length + 1) = true) ↔
      GoesOn attrs msg mem s.params.length := by
    rw [h.made]
    refine ⟨fun hm => ?_, fun hg => (hg a ha).2.2.2⟩
    intro b hb
    obtain rfl : a = b := some.inj (ha.symm.trans hb)
    exact ⟨hok.1, hok.2.1, hok.2.2, hm⟩
  -- a TLV that is not copied adds no buffer
  have hstays : ∀ q : WmitlvCmdParamInfo, q.buffer = none →
      ¬Pads a msg (tlvPos msg s.params.length) →
      Reported a msg (tlvPos msg s.params.length) s.bufs q →
      LoopInv attrs msg mem ⟨t.next, s.params ++ [q], s.bufs⟩ := by
    intro q hq hpads hrep
    have hnil : s.bufs ++ [] = s.bufs := append_nil _
    rw [← hnil] at hrep ⊢
    exact h.report ha hpres (hgo.1 fun hp => absurd hp hpads) ht.next
      (by rw [if_neg hpads]; rfl) (by rw [hq]; rfl) hrep
  rw [Wmi.reportTlv]
  cases hplace : t.place with
  | null =>
    have hpads : ¬Pads a msg (tlvPos msg s.params.length) := by
      intro hp
      obtain ⟨bytes, hb⟩ := ht.pads.2 hp
      rw [hplace] at hb
      cases hb
    refine ⟨hstays _ rfl hpads (ht.reported hpad rfl rfl (fun _ => hplace) (by simp) nofun
      ?_ fun _ => ?_), ?_⟩
    · rw [hplace]
      rfl
    · exact ((padTlv_taken hpad).2.1 hplace).symm
    · simp
  | msg start =>
    have hpads : ¬Pads a msg (tlvPos msg s.params.length) := by
      intro hp
      obtain ⟨bytes, hb⟩ := ht.pads.2 hp
      rw [hplace] at hb
      cases hb
    refine ⟨hstays _ rfl hpads (ht.reported hpad rfl rfl nofun (by simp) nofun ?_ fun _ => ?_), ?_⟩
    · rw [hplace]
      rfl
    · exact ((padTlv_taken hpad).2.2 start hplace).symm
    · simp
  | pad bytes =>
    have hpads := ht.pads.1 ⟨bytes, hplace⟩
    dsimp only
    split_ifs with hm
    · refine ⟨h.report ha hpres (hgo.1 fun _ => hm) ht.next (by rw [if_pos hpads]; rfl) rfl
        (ht.reported hpad rfl rfl nofun (by simp) ?_ ?_ fun h => absurd hpads h), by simp⟩
      · rintro id hid
        obtain rfl := TlvPtr.buf.inj hid
        simp
      · rw [hplace, bytesFrom, getElem?_concat_length]
        rfl
    · exact fun hg => hm (hgo.2 hg hpads)

/-- What is said of a message by how the loop ends. -/
def PadEnd.Means (attrs : List WmitlvAttributes) (msg : List UInt8) (mem : Nat → Bool) :
    PadEnd → Prop
  | .outside => ∃ k, ∃ a ∈ attrs[k]?, Present msg k ∧ (∀ j < k, GoesOn attrs msg mem j) ∧
      HeaderFits a msg (tlvPos msg k) ∧ ¬Readable a msg (tlvPos msg k)
  | .failed s => LoopInv attrs msg mem s ∧ ∃ a ∈ attrs[s.params.length]?,
      Present msg s.params.length ∧ ¬GoesOn attrs msg mem s.params.length ∧
      (HeaderFits a msg (tlvPos msg s.params.length) → Readable a msg (tlvPos msg s.params.length))
  | .done s => LoopInv attrs msg mem s ∧
      (s.params.length = attrs.length ∨ ¬Present msg s.params.length)

/-- **The loop.** -/
theorem padLoop_means {s : PadState} (h : LoopInv attrs msg mem s) {remaining : Nat}
    (hr : s.params.length + remaining = attrs.length) :
    (padLoop (fun k => attrs[k]?) msg mem remaining s).Means attrs msg mem := by
  induction remaining generalizing s with
  | zero => exact ⟨h, .inl hr⟩
  | succ remaining ih =>
    rw [padLoop]
    split_ifs with hp
    · have hpres : Present msg s.params.length := by
        rw [Present, ← h.here]
        exact hp
      obtain ⟨a, ha⟩ : ∃ a, attrs[s.params.length]? = some a :=
        ⟨_, getElem?_eq_getElem (by omega)⟩
      have hm := padTlv_means a hp
      rw [ha]
      dsimp only
      cases hend : padTlv a msg s.bufIdx with
      | outside =>
        rw [hend, h.here] at hm
        exact ⟨_, a, ha, hpres, h.gone_on, hm⟩
      | refused =>
        rw [hend, h.here] at hm
        refine ⟨h, a, ha, hpres, fun hg => ?_, fun hf => (hm hf).1⟩
        obtain ⟨hf, -, hh, -⟩ := hg a ha
        exact (hm hf).2 hh
      | taken t =>
        rw [hend, h.here] at hm
        obtain ⟨hf, hread, hh, ht⟩ := hm
        have hrep := h.reportTlv ha hpres ⟨hf, hread, hh⟩ (h.here ▸ hend) ht
        dsimp only
        cases hs : Wmi.reportTlv mem s t with
        | none =>
          rw [hs] at hrep
          exact ⟨h, a, ha, hpres, hrep, fun _ => hread⟩
        | some s' =>
          rw [hs] at hrep
          exact ih hrep.1 (by have := hrep.2; omega)
    · refine ⟨h, .inr fun hpres => hp ?_⟩
      rw [h.here]
      exact hpres

theorem tlvPos_mono (msg : List UInt8) : Monotone (tlvPos msg) := by
  refine monotone_nat_of_le_succ fun k => ?_
  rw [tlvPos, add_assoc]
  exact le_add_right _ _

theorem Present.of_le {j k : Nat} (h : Present msg k) (hjk : j ≤ k) : Present msg j :=
  (Nat.add_le_add_right (tlvPos_mono msg hjk) _).trans h

theorem LoopInv.start : LoopInv attrs msg mem ⟨0, [], []⟩ where
  here := rfl
  few := zero_le _
  made := rfl
  owned := rfl
  gone_on := nofun
  reported := nofun

theorem lt_of_present {n : Nat} (hend : n = attrs.length ∨ ¬Present msg n) :
    ∀ k < attrs.length, Present msg k → k < n := by
  intro k hk hp
  rcases hend with hend | hend
  · exact hend ▸ hk
  · by_contra hle
    exact hend (hp.of_le (not_lt.1 hle))

/-- What is reported is right, just when the structures of the arrays say that they are of one length. -/
theorem LoopInv.params_right_iff {s : PadState} (h : LoopInv attrs msg mem s)
    (hend : s.params.length = attrs.length ∨ ¬Present msg s.params.length) :
    ParamsRight attrs msg s.bufs (s.params ++ replicate (attrs.length - s.params.length) .zero) ↔
      ∀ k, ∀ a ∈ attrs[k]?, Present msg k → SameLengths a msg (tlvPos msg k) := by
  have hfew := h.few
  have hcome := lt_of_present hend
  constructor
  · intro hr k a ha hp
    have hk := hcome k (List.getElem?_eq_some_iff.1 ha).1 hp
    have hq := getElem?_eq_getElem hk
    refine ((h.reported k a _ ha hq).2.right_iff).1 (hr.present k a _ ha ?_ hp)
    rw [getElem?_append_left hk, hq]
  · intro hs
    refine { length := ?_, present := ?_, absent := ?_, owned := ?_ }
    · rw [length_append, length_replicate]
      exact Nat.add_sub_cancel' hfew
    · intro k a p ha hq hp
      rw [List.getElem?_append_left (hcome k (List.getElem?_eq_some_iff.1 ha).1 hp)] at hq
      exact ((h.reported k a p ha hq).2.right_iff).2 (hs k a ha hp)
    · intro k p hq hp
      by_cases hk : k < s.params.length
      · rw [getElem?_append_left hk] at hq
        have ha := getElem?_eq_getElem (lt_of_lt_of_le hk hfew)
        exact absurd (h.reported k _ p ha hq).1 hp
      · rw [getElem?_append_right (not_lt.1 hk)] at hq
        exact eq_of_mem_replicate (mem_of_getElem? hq)
    · rw [filterMap_append, h.owned, filterMap_replicate_of_none rfl, append_nil]

end Loop

/-! ### The call -/

variable {table : List AttrGroup} {id : UInt32}

/-- What a call comes to, for a command or event of the table and a message with room for a header. -/
theorem checkAndPad_eq (hid : wmitlvGetCmdid id = id) {attrs : List WmitlvAttributes}
    (ht : tlvsOf table id = some attrs) {msg : List UInt8} (hlen : wmiTlvHdrSize ≤ msg.length)
    {mem : Nat → Bool} (hm : mem 0 = true) :
    wmitlvCheckAndPadTlvs (attrList table) msg id mem =
      match padLoop (fun k => attrs[k]?) msg mem attrs.length ⟨0, [], []⟩ with
      | .outside => none
      | .failed s => some ⟨-1, none, s.bufs, s.params.filterMap (·.buffer)⟩
      | .done s => some ⟨0,
          some (s.params ++ replicate (attrs.length - s.params.length) .zero), s.bufs, []⟩ := by
  have hattrs : wmitlvGetAttributes (attrList table) id = fun k => attrs[k]? := by
    funext k
    rw [getAttributes_eq hid, ht, bind_some]
  have hfree := @freeAllocatedTlvs_eq table id (by rw [ht]; rfl)
  rw [wmitlvCheckAndPadTlvs, getNumAttributes_eq hid, ht, hattrs]
  simp only [map_some, if_neg (not_lt.2 hlen), hm, Bool.not_true, Bool.false_eq_true, if_false]
  cases padLoop (fun k => attrs[k]?) msg mem attrs.length ⟨0, [], []⟩ with
  | outside => rfl
  | failed s => simp only [hfree]
  | done s => rfl

theorem check_and_pad_loop_iff (hid : wmitlvGetCmdid id = id) {attrs : List WmitlvAttributes}
    (ht : tlvsOf table id = some attrs) {msg : List UInt8} (hlen : wmiTlvHdrSize ≤ msg.length)
    {mem : Nat → Bool} (hm : mem 0 = true) :
    PadRight attrs msg (wmitlvCheckAndPadTlvs (attrList table) msg id mem) ↔
      PadSound attrs msg mem := by
  have hl := padLoop_means (@LoopInv.start attrs msg mem) (zero_add attrs.length)
  rw [checkAndPad_eq hid ht hlen hm]
  cases hend : padLoop (fun k => attrs[k]?) msg mem attrs.length ⟨0, [], []⟩ with
  | outside =>
    rw [hend] at hl
    obtain ⟨k, a, ha, hp, hgo, hf, hread⟩ := hl
    exact ⟨False.elim, fun hs => hread (hs.readable k a ha hp hgo hf)⟩
  | failed s =>
    rw [hend] at hl
    obtain ⟨hinv, a, ha, hp, hgo, hread⟩ := hl
    have hlt := (List.getElem?_eq_some_iff.1 ha).1
    refine ⟨fun _ => ⟨?_, fun hall => absurd (hall _ hlt hp) hgo⟩, fun _ => ⟨nofun, ?_⟩⟩
    · intro k b hb hpk hbefore hf
      rcases lt_trichotomy k s.params.length with hk | rfl | hk
      · exact (hinv.gone_on k hk b hb).2.1
      · obtain rfl : a = b := some.inj (ha.symm.trans hb)
        exact hread hf
      · exact absurd (hbefore _ hk) hgo
    · exact fun _ => ⟨hinv.owned, rfl⟩
  | done s =>
    rw [hend] at hl
    obtain ⟨hinv, hlast⟩ := hl
    have hcome := lt_of_present hlast
    have hgo : ∀ k < attrs.length, Present msg k → GoesOn attrs msg mem k :=
      fun k hk hp => hinv.gone_on k (hcome k hk hp)
    constructor
    · rintro ⟨hok, -⟩
      obtain ⟨-, params, hparams, hr⟩ := hok rfl
      obtain rfl := some.inj hparams
      refine ⟨?_, fun _ => (hinv.params_right_iff hlast).1 hr⟩
      intro k a ha hp _ _
      exact (hgo k (List.getElem?_eq_some_iff.1 ha).1 hp a ha).2.1
    · intro hs
      exact ⟨fun _ => ⟨rfl, _, rfl, (hinv.params_right_iff hlast).2 (hs.same_lengths hgo)⟩,
        fun h => absurd rfl h⟩

/-- **The check of a message.**  For every table and every message, `wmitlv_check_and_pad_tlvs` reads inside the message, reports complete elements made of the message's own, and leaves no buffer behind, if and only if the headers that it comes to are in the message and the structures of each array are of one length.  The callers take the id from 24 bits. -/
theorem check_and_pad_iff (table : List AttrGroup) (hid : wmitlvGetCmdid id = id)
    (msg : List UInt8) (mem : Nat → Bool) :
    PadRight ((tlvsOf table id).getD []) msg
        (wmitlvCheckAndPadTlvs (attrList table) msg id mem) ↔
      ∀ attrs ∈ tlvsOf table id, wmiTlvHdrSize ≤ msg.length → mem 0 = true →
        PadSound attrs msg mem := by
  have hearly : ∀ attrs, PadRight attrs msg (some ⟨-1, none, [], []⟩) :=
    fun _ => ⟨nofun, fun _ => ⟨rfl, rfl⟩⟩
  cases ht : tlvsOf table id with
  | none =>
    rw [wmitlvCheckAndPadTlvs, getNumAttributes_eq hid, ht]
    exact ⟨fun _ => nofun, fun _ => hearly _⟩
  | some attrs =>
    simp only [mem_def, some.injEq, forall_eq', getD_some]
    by_cases hlen : wmiTlvHdrSize ≤ msg.length
    · cases hm : mem 0 with
      | false =>
        rw [wmitlvCheckAndPadTlvs, getNumAttributes_eq hid, ht]
        simp [not_lt.2 hlen, hm, hearly]
      | true =>
        rw [check_and_pad_loop_iff hid ht hlen hm]
        exact ⟨fun hs _ _ => hs, fun hs => hs hlen rfl⟩
    · rw [wmitlvCheckAndPadTlvs, getNumAttributes_eq hid, ht]
      simp [not_le.1 hlen, hlen, hearly]

theorem PadSound.of_lt {attrs : List WmitlvAttributes} {msg : List UInt8} {mem : Nat → Bool}
    (hr : ∀ k < attrs.length, ∀ a ∈ attrs[k]?, Present msg k →
      HeaderFits a msg (tlvPos msg k) → Readable a msg (tlvPos msg k))
    (hs : ∀ k < attrs.length, ∀ a ∈ attrs[k]?, Present msg k →
      SameLengths a msg (tlvPos msg k)) : PadSound attrs msg mem where
  readable := fun k a ha hp _ hf => hr k (List.getElem?_eq_some_iff.1 ha).1 a ha hp hf
  same_lengths := fun _ k a ha hp => hs k (List.getElem?_eq_some_iff.1 ha).1 a ha hp

/-- A command with one TLV, an array of structures of twelve bytes. -/
def strucTable : List AttrGroup := [⟨0x3001, [0x7FC0C012], by decide, by decide⟩]

theorem check_and_pad_iff_twoStrucs :
    PadRight ((tlvsOf strucTable 0x3001).getD [])
      [16, 0, 18, 0, 4, 0, 5, 0, 1, 2, 3, 4, 4, 0, 5, 0, 5, 6, 7, 8]
      (wmitlvCheckAndPadTlvs (attrList strucTable)
        [16, 0, 18, 0, 4, 0, 5, 0, 1, 2, 3, 4, 4, 0, 5, 0, 5, 6, 7, 8] 0x3001 fun _ => true) := by
  refine (check_and_pad_iff strucTable (by decide) _ _).2 ?_
  intro attrs hattrs _ _
  obtain rfl : [attributesOf 0x7FC0C012] = attrs := some.inj hattrs
  exact PadSound.of_lt (by decide) (by decide)

/-- An array of one byte at the end of the message: the header of its first structure is read beyond it. -/
theorem short_array_reads_outside :
    ¬PadRight ((tlvsOf strucTable 0x3001).getD []) [1, 0, 18, 0, 0]
      (wmitlvCheckAndPadTlvs (attrList strucTable) [1, 0, 18, 0, 0] 0x3001 fun _ => true) := by
  have h : (wmitlvCheckAndPadTlvs (attrList strucTable) [1, 0, 18, 0, 0] 0x3001
      fun _ => true).isNone = true := by decide
  rw [isNone_iff_eq_none] at h
  rw [h]
  exact not_false

end Qcacld.Wmi

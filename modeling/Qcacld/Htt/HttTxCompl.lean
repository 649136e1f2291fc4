import Qcacld.Htt.HttT2h
import Mathlib.Data.List.Basic
import Mathlib.Data.Nat.Bitwise

/-!
# Htt — HttTxCompl

The ids of a `TX_COMPL_IND` and of a `TX_INSPECT_IND`.  The target packs them two per word, and the words come to the host whole, so a host of the other byte order finds the two ids of a word exchanged.  It reads the ids as an array all the same, and an odd one that is exchanged with the padding is copied to where it is read.

`tx_compl_ids_right` says that the handlers stay inside the message and hand on the ids that the target listed, for both byte orders, but for the one message that is dropped by design.
-/

namespace Qcacld.Htt
open Function List Nat
namespace T2h
open Qcacld.Support
open Qcacld.Support.Logged

/-! ### The ids as the host finds them -/

/-- The id of the target that is found as `payload[i]`: a host of the other byte order finds the other id of the word. -/
def slot (bigEndian : Bool) (i : Nat) : Nat :=
  if bigEndian then if i % 2 = 0 then i + 1 else i - 1 else i

/-- `payload[i]`, for a host of either byte order. -/
def payloadIn (bigEndian : Bool) (m : T2hMsg) (i : Nat) : Nat := m.payload (slot bigEndian i)

/-- Write `payload[i]`. -/
def setPayloadIn (bigEndian : Bool) (m : T2hMsg) (i v : Nat) : T2hMsg :=
  m.setPayload (slot bigEndian i) v

def httTxComplDescId (bigEndian : Bool) (m : T2hMsg) (num : Nat) : Nat := payloadIn bigEndian m num

def httTxComplInvMsduId : Nat := 0xffff

/-- `fixOddId`, for a host of either byte order. -/
def fixOddIdIn (bigEndian : Bool) (numMsdus : Nat) : T2h Unit :=
  when (numMsdus % 2 = 1) do
    emit (.readPayload numMsdus)
    let id ← gets fun s => payloadIn bigEndian s.msg numMsdus
    when (id ≠ httTxComplInvMsduId) do
      emit (.readPayload numMsdus)
      emit (.writePayload (numMsdus - 1))
      modify fun s => { s with msg := setPayloadIn bigEndian s.msg (numMsdus - 1) id }

/-- What `txComplInd` does with frames that were not freed before: their credit, and the completion. -/
def txComplete (cfg : T2hCfg) (numMsdus status : Nat) : T2h Exit := do
  let credit ← gets fun s => s.credit
  when (cfg.isHighLatency ∧ ¬ InvalidUpdate credit numMsdus) (
    if cfg.defaultTxCompReq then targetCreditUpdate numMsdus else completedCredit numMsdus)
  emit (.olTxCompletionHandler numMsdus status)
  httTxSched cfg
  return .brk

/-- What `txComplInd` does with ids that are in the message. -/
def txComplListed (bigEndian : Bool) (cfg : T2hCfg) (numMsdus status : Nat) : T2h Exit := do
  fixOddIdIn bigEndian numMsdus
  let w ← word 0
  emit (.olTxFailureIndication (httTxComplIndTidGet w) numMsdus status)
  -- for regular frames these have already been freed
  if cfg.isHighLatency ∧ cfg.txFreeAtDownload ∧ httFailNotifyBreakCheck cfg status then
    return .brk
  else txComplete cfg numMsdus status

/-- `txComplInd`, for a host of either byte order. -/
def txComplIndIn (bigEndian : Bool) (cfg : T2hCfg) : T2h Exit := do
  let msgLen ← nbufLen
  let w ← word 0
  let status := httTxComplIndStatusGet w
  let numMsdus := httTxComplIndNumGet w
  if numMsdus * httTxComplBytesPerMsduId + httTxComplHeadSz > msgLen then return .brk
  else txComplListed bigEndian cfg numMsdus status

/-- What `txInspectInd` does with ids that are in the message. -/
def txInspectListed (bigEndian : Bool) (cfg : T2hCfg) (numMsdus : Nat) : T2h Exit := do
  fixOddIdIn bigEndian numMsdus
  emit (.olTxInspectHandler numMsdus)
  httTxSched cfg
  return .brk

/-- `txInspectInd`, for a host of either byte order. -/
def txInspectIndIn (bigEndian : Bool) (cfg : T2hCfg) : T2h Exit := do
  let msgLen ← nbufLen
  let w ← word 0
  let numMsdus := httTxComplIndNumGet w
  if numMsdus * httTxComplBytesPerMsduId + httTxComplHeadSz > msgLen then return .brk
  else txInspectListed bigEndian cfg numMsdus

/-! ### The two ids of a word -/

theorem low_toNat (w : UInt32) : httWordGet 0xffff 0 w = w.toNat % 2 ^ 16 := by
  rw [httWordGet, UInt32.toNat_shiftRight, UInt32.toNat_and]
  exact and_two_pow_sub_one_eq_mod w.toNat 16

theorem high_toNat (w : UInt32) : httWordGet 0xffff0000 16 w = w.toNat / 2 ^ 16 := by
  rw [httWordGet, UInt32.toNat_shiftRight, UInt32.toNat_and]
  have hw : w.toNat / 2 ^ 16 < 2 ^ 16 := by
    have := w.toNat_lt
    omega
  calc (w.toNat &&& 0xffff0000) >>> 16
      = (w.toNat >>> 16) &&& (2 ^ 16 - 1) := shiftRight_and_distrib
    _ = w.toNat / 2 ^ 16 := by
      rw [and_two_pow_sub_one_eq_mod, shiftRight_eq_div_pow, mod_eq_of_lt hw]

theorem keepHigh_toNat (w : UInt32) : (w &&& 0xffff0000).toNat = 2 ^ 16 * (w.toNat / 2 ^ 16) := by
  have hlow : (w.toNat &&& 0xffff0000) % 2 ^ 16 = 0 := by
    rw [← Nat.and_two_pow_sub_one_eq_mod, Nat.and_assoc]
    exact and_zero _
  have hhigh : (w.toNat &&& 0xffff0000) / 2 ^ 16 = w.toNat / 2 ^ 16 := by
    rw [← high_toNat, httWordGet, UInt32.toNat_shiftRight, UInt32.toNat_and]
    exact (shiftRight_eq_div_pow _ 16).symm
  have hadd := div_add_mod (w.toNat &&& 0xffff0000) (2 ^ 16)
  rw [hlow, hhigh] at hadd
  rw [UInt32.toNat_and]
  exact hadd.symm

theorem keepLow_toNat (w : UInt32) : (w &&& 0x0000ffff).toNat = w.toNat % 2 ^ 16 := by
  rw [UInt32.toNat_and]
  exact and_two_pow_sub_one_eq_mod w.toNat 16

theorem ofNat_toNat_of_half {v : Nat} (hv : v < 2 ^ 16) : (UInt32.ofNat v).toNat = v :=
  UInt32.toNat_ofNat_of_lt' (hv.trans (by decide))

theorem setLow_toNat (w : UInt32) {v : Nat} (hv : v < 2 ^ 16) :
    ((w &&& 0xffff0000) ||| UInt32.ofNat v).toNat = 2 ^ 16 * (w.toNat / 2 ^ 16) + v := by
  rw [UInt32.toNat_or, keepHigh_toNat, ofNat_toNat_of_half hv]
  exact (two_pow_add_eq_or_of_lt hv _).symm

theorem setHigh_toNat (w : UInt32) {v : Nat} (hv : v < 2 ^ 16) :
    ((w &&& 0x0000ffff) ||| (UInt32.ofNat v <<< (16 : UInt32))).toNat
      = 2 ^ 16 * v + w.toNat % 2 ^ 16 := by
  have hshift : (UInt32.ofNat v <<< (16 : UInt32)).toNat = 2 ^ 16 * v := by
    rw [UInt32.toNat_shiftLeft, ofNat_toNat_of_half hv, shiftLeft_eq, mul_comm]
    exact mod_eq_of_lt (by change 2 ^ 16 * v < 2 ^ 32; omega)
  rw [UInt32.toNat_or, keepLow_toNat, hshift, Nat.or_comm]
  exact (two_pow_add_eq_or_of_lt (mod_lt _ (by decide)) _).symm

/-! ### Reading an id that is written -/

theorem payload_even (m : T2hMsg) {i : Nat} (h : i % 2 = 0) :
    m.payload i = (m.word (1 + i / 2)).toNat % 2 ^ 16 := by
  rw [T2hMsg.payload, if_pos h, if_pos h, low_toNat]

theorem payload_odd (m : T2hMsg) {i : Nat} (h : ¬ i % 2 = 0) :
    m.payload i = (m.word (1 + i / 2)).toNat / 2 ^ 16 := by
  rw [T2hMsg.payload, if_neg h, if_neg h, high_toNat]

theorem payload_lt (m : T2hMsg) (i : Nat) : m.payload i < 2 ^ 16 := by
  have hw := (m.word (1 + i / 2)).toNat_lt
  by_cases h : i % 2 = 0
  · rw [payload_even m h]
    exact mod_lt _ (by decide)
  · rw [payload_odd m h]
    omega

theorem setPayload_word (m : T2hMsg) {i v : Nat} (hv : v < 2 ^ 16) :
    ((m.setPayload i v).word (1 + i / 2)).toNat
      = if i % 2 = 0 then 2 ^ 16 * ((m.word (1 + i / 2)).toNat / 2 ^ 16) + v
        else 2 ^ 16 * v + (m.word (1 + i / 2)).toNat % 2 ^ 16 := by
  simp only [T2hMsg.setPayload, update_self]
  split
  · exact setLow_toNat _ hv
  · exact setHigh_toNat _ hv

theorem setPayload_word_ne (m : T2hMsg) {i j v : Nat} (h : 1 + j / 2 ≠ 1 + i / 2) :
    (m.setPayload i v).word (1 + j / 2) = m.word (1 + j / 2) :=
  update_of_ne h _ _

theorem payload_setPayload_self (m : T2hMsg) {i v : Nat} (hv : v < 2 ^ 16) :
    (m.setPayload i v).payload i = v := by
  have hw := setPayload_word m (i := i) hv
  by_cases h : i % 2 = 0
  · rw [if_pos h] at hw
    rw [payload_even _ h, hw, mul_add_mod, mod_eq_of_lt hv]
  · rw [if_neg h] at hw
    rw [payload_odd _ h, hw]
    omega

/-- The other ids are as they were: in another word, or in the other half of this one. -/
theorem payload_setPayload_ne (m : T2hMsg) {i j v : Nat} (hv : v < 2 ^ 16) (hij : j ≠ i) :
    (m.setPayload i v).payload j = m.payload j := by
  have hw := setPayload_word m (i := i) hv
  by_cases hword : j / 2 = i / 2
  · rw [← hword] at hw
    by_cases h : j % 2 = 0
    · rw [if_neg (by omega)] at hw
      rw [payload_even _ h, payload_even _ h, hw, mul_add_mod, mod_mod]
    · rw [if_pos (by omega)] at hw
      rw [payload_odd _ h, payload_odd _ h, hw]
      omega
  · have hne : 1 + j / 2 ≠ 1 + i / 2 := fun h => hword (add_left_cancel h)
    simp [T2hMsg.payload, setPayload_word_ne m hne]

/-! ### The fix-up -/

/-- The message after the fix-up of an odd number of ids. -/
def fixedMsg (bigEndian : Bool) (numMsdus : Nat) (m : T2hMsg) : T2hMsg :=
  if numMsdus % 2 = 1 ∧ payloadIn bigEndian m numMsdus ≠ httTxComplInvMsduId then
    setPayloadIn bigEndian m (numMsdus - 1) (payloadIn bigEndian m numMsdus)
  else m

section
variable {bigEndian : Bool} {numMsdus : Nat} {s : T2hState}

theorem fixOddIdIn_msg :
    ((fixOddIdIn bigEndian numMsdus) s).2.1.msg = fixedMsg bigEndian numMsdus s.msg := by
  by_cases hodd : numMsdus % 2 = 1
  · by_cases hid : payloadIn bigEndian s.msg numMsdus ≠ httTxComplInvMsduId
    · rw [fixedMsg, if_pos ⟨hodd, hid⟩, fixOddIdIn, when, if_pos hodd]
      change ((when (payloadIn bigEndian s.msg numMsdus ≠ httTxComplInvMsduId) _) s).2.1.msg = _
      rw [when, if_pos hid]
      rfl
    · rw [fixedMsg, if_neg fun h => hid h.2, fixOddIdIn, when, if_pos hodd]
      change ((when (payloadIn bigEndian s.msg numMsdus ≠ httTxComplInvMsduId) _) s).2.1.msg = _
      rw [when, if_neg hid]
      rfl
  · rw [fixedMsg, if_neg fun h => hodd h.1, fixOddIdIn, when, if_neg hodd]
    rfl

theorem keeps_fixOddIdIn {D : T2hAction → Prop}
    (hr : numMsdus % 2 = 1 → ¬ D (.readPayload numMsdus))
    (hw : numMsdus % 2 = 1 → ¬ D (.writePayload (numMsdus - 1))) :
    Keeps D (fixOddIdIn bigEndian numMsdus) := by
  rw [fixOddIdIn, when]
  split
  · next hodd =>
    refine keeps_bind (keeps_emit (hr hodd)) fun _ => keeps_bind (keeps_gets _) fun id' => ?_
    refine keeps_when (keeps_bind (keeps_emit (hr hodd)) fun _ => ?_)
    exact keeps_bind (keeps_emit (hw hodd)) fun _ => keeps_modify _
  · exact keeps_pure ()

end

/-! ### The order the host reads the ids in -/

/-- The id of the target that the host reads as `payload[i]` of `n`, after the fix-up. -/
def readSlot (bigEndian : Bool) (n i : Nat) : Nat :=
  if i + 1 = n ∧ n % 2 = 1 then i else slot bigEndian i

theorem slots_perm (k : Nat) : ((range (2 * k)).map (slot true)).Perm (range (2 * k)) := by
  induction k with
  | zero => exact .nil
  | succ k ih =>
    have heven : slot true (2 * k) = 2 * k + 1 := (if_pos rfl).trans (if_pos (by omega))
    have hodd : slot true (2 * k + 1) = 2 * k := (if_pos rfl).trans (if_neg (by omega))
    have hrange : range (2 * (k + 1)) = range (2 * k) ++ [2 * k, 2 * k + 1] := by
      rw [mul_succ, range_succ, range_succ, append_assoc]
      rfl
    rw [hrange, map_append, map_cons, map_cons, heven, hodd]
    exact ih.append (List.Perm.swap _ _ _)

/-- The host reads each of the `n` ids once. -/
theorem readSlots_perm (bigEndian : Bool) (n : Nat) :
    ((range n).map (readSlot bigEndian n)).Perm (range n) := by
  cases bigEndian with
  | false =>
    have hid : ∀ i ∈ range n, readSlot false n i = i := by
      intro i _
      rw [readSlot]
      split <;> rfl
    rw [map_congr_left hid, map_id']
  | true =>
    rcases mod_two_eq_zero_or_one n with h | h
    · obtain ⟨k, rfl⟩ : ∃ k, n = 2 * k := ⟨n / 2, by omega⟩
      have hslot : ∀ i ∈ range (2 * k), readSlot true (2 * k) i = slot true i := by
        intro i _
        exact if_neg fun hi => absurd hi.2 (by omega)
      rw [map_congr_left hslot]
      exact slots_perm k
    · obtain ⟨k, rfl⟩ : ∃ k, n = 2 * k + 1 := ⟨n / 2, by omega⟩
      -- all but the last id are in whole words
      have hslot : ∀ i ∈ range (2 * k), readSlot true (2 * k + 1) i = slot true i := by
        intro i hi
        exact if_neg fun h' => by have := mem_range.1 hi; omega
      have hlast : readSlot true (2 * k + 1) (2 * k) = 2 * k := if_pos ⟨rfl, h⟩
      rw [range_succ, map_append, map_congr_left hslot, map_singleton, hlast]
      exact (slots_perm k).append_right _

/-! ### The ids the target lists -/

/-- A message as the target sends it: the ids it lists, and an odd number of them padded to a whole word. -/
structure TargetSent (ids : List Nat) (m : T2hMsg) : Prop where
  num : httTxComplIndNumGet (m.word 0) = ids.length
  listed : (List.range ids.length).map m.payload = ids
  padded : ids.length % 2 = 1 → m.payload ids.length = httTxComplInvMsduId
  whole : httTxComplHeadSz + 4 * ((ids.length + 1) / 2) ≤ m.len

section
variable {bigEndian : Bool} {n i : Nat} {m : T2hMsg}

theorem payloadIn_lt : payloadIn bigEndian m i < 2 ^ 16 := payload_lt m _

theorem slot_injective : Function.Injective (slot bigEndian) := by
  intro i j h
  cases bigEndian with
  | false => exact h
  | true =>
    simp only [slot, if_true] at h
    split at h <;> split at h <;> omega

theorem payloadIn_set_self {v : Nat} (hv : v < 2 ^ 16) :
    payloadIn bigEndian (setPayloadIn bigEndian m i v) i = v :=
  payload_setPayload_self m hv

theorem payloadIn_set_ne {v j : Nat} (hv : v < 2 ^ 16) (h : j ≠ i) :
    payloadIn bigEndian (setPayloadIn bigEndian m i v) j = payloadIn bigEndian m j :=
  payload_setPayload_ne m hv fun hs => h (slot_injective hs)

theorem payloadIn_fixedMsg (hpad : n % 2 = 1 → m.payload n = httTxComplInvMsduId) (hi : i < n) :
    payloadIn bigEndian (fixedMsg bigEndian n m) i = m.payload (readSlot bigEndian n i) := by
  by_cases hlast : i + 1 = n ∧ n % 2 = 1
  · obtain ⟨rfl, hodd⟩ := hlast
    rw [readSlot, if_pos ⟨rfl, hodd⟩]
    cases bigEndian with
    | false => rw [fixedMsg, if_neg fun h => h.2 (hpad hodd)]; rfl
    | true =>
      -- the last id and the padding are exchanged
      have hid : payloadIn true m (i + 1) = m.payload i :=
        congrArg m.payload ((if_pos rfl).trans (if_neg (by omega)))
      have hpos : payloadIn true m i = m.payload (i + 1) :=
        congrArg m.payload ((if_pos rfl).trans (if_pos (by omega)))
      rw [fixedMsg, hid]
      split
      · exact payloadIn_set_self (payload_lt m i)
      · next h => rw [hpos, hpad hodd, not_not.1 fun hne => h ⟨hodd, hne⟩]
  · rw [readSlot, if_neg hlast, fixedMsg]
    split
    · next h => exact payloadIn_set_ne payloadIn_lt fun hn => hlast ⟨by omega, h.1⟩
    · rfl

theorem ids_perm {ids : List Nat} (h : TargetSent ids m) : ((range ids.length).map
      (httTxComplDescId bigEndian (fixedMsg bigEndian ids.length m))).Perm ids := by
  have hread : ∀ i ∈ range ids.length,
      httTxComplDescId bigEndian (fixedMsg bigEndian ids.length m) i
        = (m.payload ∘ readSlot bigEndian ids.length) i := by
    intro i hi
    exact payloadIn_fixedMsg h.padded (mem_range.1 hi)
  rw [map_congr_left hread, ← map_map]
  exact ((readSlots_perm bigEndian ids.length).map m.payload).trans (.of_eq h.listed)

end

/-! ### What the handlers log -/

/-- A read or a write of the message, or a call that is given its ids, stays inside the `len` bytes of it. -/
def Inside (len : Nat) : T2hAction → Prop
  | .read i => 4 * i + 4 ≤ len
  | .readPayload i | .writePayload i => httTxComplHeadSz + 2 * i + 2 ≤ len
  | .olTxCompletionHandler n _ | .olTxInspectHandler n => httTxComplHeadSz + 2 * n ≤ len
  | _ => True

def takesIds : T2hAction → Bool
  | .olTxCompletionHandler .. | .olTxInspectHandler _ => true
  | _ => false

/-- An entry that gives no ids, and stays inside. -/
def Plain (len : Nat) (e : T2hAction) : Prop := takesIds e = false ∧ Inside len e

/-- A failed frame whose host frame is freed already: on a high latency device that frees them at download, its completion is dropped. -/
def Dropped (cfg : T2hCfg) (status : Nat) : Prop :=
  cfg.isHighLatency ∧ cfg.txFreeAtDownload ∧ httFailNotifyBreakCheck cfg status
deriving Decidable

/-- A handler stays inside the message, makes the given calls, and the ids that the call finds in the message are those listed. -/
structure IdsHanded (bigEndian : Bool) (ids : List Nat) (s : T2hState) (x : T2h Exit)
    (calls : List T2hAction) : Prop where
  inside : ∀ e ∈ x.log s, Inside s.msg.len e
  called : (x.log s).filter takesIds = calls
  handed : ((List.range ids.length).map (httTxComplDescId bigEndian (x s).2.1.msg)).Perm ids

def CallsOnce (len : Nat) (call : T2hAction) (l : List T2hAction) : Prop :=
  ∃ pre post, l = pre ++ call :: post ∧ (∀ e ∈ pre, Plain len e) ∧ ∀ e ∈ post, Plain len e

section
variable {len : Nat} {call : T2hAction} {l l' : List T2hAction}

theorem filter_plain (h : ∀ e ∈ l, Plain len e) : l.filter takesIds = [] := by
  refine filter_eq_nil_iff.2 fun e he hids => ?_
  rw [(h e he).1] at hids
  exact Bool.noConfusion hids

theorem CallsOnce.prepend (h : CallsOnce len call l) (hl : ∀ e ∈ l', Plain len e) :
    CallsOnce len call (l' ++ l) := by
  obtain ⟨pre, post, rfl, hpre, hpost⟩ := h
  refine ⟨l' ++ pre, post, (append_assoc _ _ _).symm, fun e he => ?_, hpost⟩
  rcases mem_append.1 he with he | he
  · exact hl e he
  · exact hpre e he

theorem CallsOnce.called (h : CallsOnce len call l) (hcall : takesIds call = true) :
    l.filter takesIds = [call] := by
  obtain ⟨pre, post, rfl, hpre, hpost⟩ := h
  rw [filter_append, filter_cons_of_pos hcall, filter_plain hpre, filter_plain hpost]
  rfl

theorem CallsOnce.inside (h : CallsOnce len call l) (hcall : Inside len call) :
    ∀ e ∈ l, Inside len e := by
  obtain ⟨pre, post, rfl, hpre, hpost⟩ := h
  intro e he
  rcases mem_append.1 he with he | he
  · exact (hpre e he).2
  · rcases mem_cons.1 he with rfl | he
    · exact hcall
    · exact (hpost e he).2

end

section
variable {bigEndian : Bool} {cfg : T2hCfg} {len n status : Nat} {s : T2hState}

abbrev Plainly (len : Nat) {α : Type} (x : T2h α) : Prop := Keeps (fun e => ¬ Plain len e) x

theorem Plainly.log {α : Type} {x : T2h α} (h : Plainly len x) (s : T2hState) :
    ∀ e ∈ x.log s, Plain len e :=
  fun e he => not_not.1 (h s e he)

theorem plainly_frameCredit {c : Prop} [Decidable c] (b : Bool) :
    Plainly len (when c (if b then targetCreditUpdate n else completedCredit n)) :=
  keeps_when (keeps_frameCredit (fun _ => not_not.2 ⟨rfl, trivial⟩) b n)

theorem plainly_httTxSched : Plainly len (httTxSched cfg) :=
  keeps_httTxSched (not_not.2 ⟨rfl, trivial⟩)

theorem plainly_fixOddIdIn (h : httTxComplHeadSz + 4 * ((n + 1) / 2) ≤ len) :
    Plainly len (fixOddIdIn bigEndian n) := by
  refine keeps_fixOddIdIn (fun hodd => not_not.2 ⟨rfl, ?_⟩) fun hodd => not_not.2 ⟨rfl, ?_⟩
  · change httTxComplHeadSz + 2 * n + 2 ≤ len
    omega
  · change httTxComplHeadSz + 2 * (n - 1) + 2 ≤ len
    omega

theorem leaves_frameCredit (b : Bool) :
    Leaves T2hState.msg (if b then targetCreditUpdate n else completedCredit n) := by
  have hmod : ∀ f, Leaves T2hState.msg (modifyCredit f) := fun f => leaves_modify fun _ => rfl
  have htarget : ∀ c, Leaves T2hState.msg (targetCreditUpdate c) := fun c =>
    leaves_bind (leaves_emit _) fun _ => hmod _
  cases b
  · refine leaves_bind (hmod _) fun _ => leaves_bind ?_ fun _ => leaves_when (htarget _)
    exact leaves_bind (leaves_gets _) fun _ => leaves_bind (hmod _) fun _ => leaves_pure _
  · exact htarget n

theorem leaves_httTxSched : Leaves T2hState.msg (httTxSched cfg) := leaves_when (leaves_emit _)

theorem leaves_txComplete : Leaves T2hState.msg (txComplete cfg n status) := by
  refine leaves_bind (leaves_gets _) fun _ => ?_
  refine leaves_bind (leaves_when (leaves_frameCredit _)) fun _ => ?_
  exact leaves_bind (leaves_emit _) fun _ => leaves_bind leaves_httTxSched fun _ => leaves_pure _

theorem once_bind {α : Type} {call : T2hAction} {x : T2h α} {f : α → T2h Exit}
    (hx : Plainly len x) (hf : ∀ a s, CallsOnce len call ((f a).log s)) (s : T2hState) :
    CallsOnce len call ((x >>= f).log s) := by
  rw [log_bind]
  exact (hf _ _).prepend (hx.log s)

theorem once_emit {call : T2hAction} (s : T2hState) : CallsOnce len call
    ((emit call >>= fun _ => httTxSched cfg >>= fun _ => pure .brk : T2h Exit).log s) := by
  refine ⟨[], (httTxSched cfg).log s ++ [], rfl, fun _ he => (nomatch he), fun e he => ?_⟩
  rw [append_nil] at he
  exact plainly_httTxSched.log _ e he

theorem txComplete_callsOnce (s : T2hState) :
    CallsOnce len (.olTxCompletionHandler n status) ((txComplete cfg n status).log s) :=
  once_bind (keeps_gets _) (fun _ => once_bind (plainly_frameCredit _) fun _ => once_emit) s

theorem plainly_word (hhead : 4 ≤ len) : Plainly len (word 0) :=
  keeps_bind (keeps_emit (not_not.2 ⟨rfl, hhead⟩)) fun _ => keeps_gets _

theorem plainly_failureIndication {tid : Nat} :
    Plainly len (emit (.olTxFailureIndication tid n status)) :=
  keeps_emit (not_not.2 ⟨rfl, trivial⟩)

theorem txComplListed_dropped (h : Dropped cfg status) : txComplListed bigEndian cfg n status = (do
    fixOddIdIn bigEndian n
    let w ← word 0
    emit (.olTxFailureIndication (httTxComplIndTidGet w) n status)
    return .brk) := by
  simp [txComplListed, if_pos (show _ ∧ _ ∧ _ from h)]

theorem txComplListed_completed (h : ¬ Dropped cfg status) :
    txComplListed bigEndian cfg n status = (do
      fixOddIdIn bigEndian n
      let w ← word 0
      emit (.olTxFailureIndication (httTxComplIndTidGet w) n status)
      txComplete cfg n status) := by
  simp [txComplListed, if_neg (show ¬ (_ ∧ _ ∧ _) from h)]

theorem fixed_bind {f : Unit → T2h Exit} (hf : ∀ a, Leaves T2hState.msg (f a)) :
    ((fixOddIdIn bigEndian n >>= f) s).2.1.msg = fixedMsg bigEndian n s.msg :=
  (hf _ _).trans fixOddIdIn_msg

theorem leaves_word (i : Nat) : Leaves T2hState.msg (word i) :=
  leaves_bind (leaves_emit _) fun _ => leaves_gets _

theorem txComplListed_msg : ((txComplListed bigEndian cfg n status) s).2.1.msg
    = fixedMsg bigEndian n s.msg := by
  by_cases h : Dropped cfg status
  · rw [txComplListed_dropped h]
    refine fixed_bind fun _ => leaves_bind (leaves_word 0) fun _ => ?_
    exact leaves_bind (leaves_emit _) fun _ => leaves_pure _
  · rw [txComplListed_completed h]
    refine fixed_bind fun _ => leaves_bind (leaves_word 0) fun _ => ?_
    exact leaves_bind (leaves_emit _) fun _ => leaves_txComplete

theorem txInspectListed_msg : ((txInspectListed bigEndian cfg n) s).2.1.msg
    = fixedMsg bigEndian n s.msg :=
  fixed_bind fun _ => leaves_bind (leaves_emit _) fun _ =>
    leaves_bind leaves_httTxSched fun _ => leaves_pure _

end

/-! ### Main results -/

section
variable {bigEndian : Bool} {cfg : T2hCfg} {s : T2hState} {ids : List Nat}

theorem TargetSent.fits (h : TargetSent ids s.msg) :
    ¬ ids.length * httTxComplBytesPerMsduId + httTxComplHeadSz > s.msg.len := by
  have hwhole := h.whole
  rw [httTxComplBytesPerMsduId]
  omega

theorem txComplIndIn_sent (h : TargetSent ids s.msg) :
    txComplIndIn bigEndian cfg s = (emit (.read 0) >>= fun _ =>
      txComplListed bigEndian cfg ids.length (httTxComplIndStatusGet (s.msg.word 0))) s := by
  have hcheck : txComplIndIn bigEndian cfg s = (emit (.read 0) >>= fun _ =>
      let numMsdus := httTxComplIndNumGet (s.msg.word 0)
      if numMsdus * httTxComplBytesPerMsduId + httTxComplHeadSz > s.msg.len then pure .brk
      else txComplListed bigEndian cfg numMsdus (httTxComplIndStatusGet (s.msg.word 0))) s := rfl
  rw [hcheck, h.num, if_neg h.fits]

theorem txInspectIndIn_sent (h : TargetSent ids s.msg) :
    txInspectIndIn bigEndian cfg s = (emit (.read 0) >>= fun _ =>
      txInspectListed bigEndian cfg ids.length) s := by
  have hcheck : txInspectIndIn bigEndian cfg s = (emit (.read 0) >>= fun _ =>
      let numMsdus := httTxComplIndNumGet (s.msg.word 0)
      if numMsdus * httTxComplBytesPerMsduId + httTxComplHeadSz > s.msg.len then pure .brk
      else txInspectListed bigEndian cfg numMsdus) s := rfl
  rw [hcheck, h.num, if_neg h.fits]

theorem TargetSent.head (h : TargetSent ids s.msg) : 4 ≤ s.msg.len :=
  (le_add_right _ _).trans h.whole

theorem TargetSent.plain_read (h : TargetSent ids s.msg) :
    ∀ e ∈ [T2hAction.read 0], Plain s.msg.len e := by
  intro e he
  rw [mem_singleton.1 he]
  exact ⟨rfl, h.head⟩

theorem TargetSent.inside_ids (h : TargetSent ids s.msg) :
    httTxComplHeadSz + 2 * ids.length ≤ s.msg.len := by
  have hwhole := h.whole
  omega

section
variable {x y : T2h Exit} (hrun : x s = (emit (.read 0) >>= fun _ => y) s)
include hrun

theorem log_of_run : x.log s = [.read 0] ++ y.log s := congrArg (fun r => r.2.2) hrun

theorem msg_of_run (hy : (y s).2.1.msg = fixedMsg bigEndian ids.length s.msg) :
    (x s).2.1.msg = fixedMsg bigEndian ids.length s.msg :=
  (congrArg (fun r => r.2.1.msg) hrun).trans hy

theorem handed_once {call : T2hAction} (h : TargetSent ids s.msg)
    (hy : CallsOnce s.msg.len call (y.log s))
    (hmsg : (y s).2.1.msg = fixedMsg bigEndian ids.length s.msg) (hids : takesIds call = true)
    (hin : Inside s.msg.len call) : IdsHanded bigEndian ids s x [call] := by
  have hlog := hy.prepend h.plain_read
  rw [← log_of_run hrun] at hlog
  exact ⟨hlog.inside hin, hlog.called hids, (msg_of_run hrun hmsg).symm ▸ ids_perm h⟩

theorem handed_none (h : TargetSent ids s.msg) (hy : ∀ e ∈ y.log s, Plain s.msg.len e)
    (hmsg : (y s).2.1.msg = fixedMsg bigEndian ids.length s.msg) :
    IdsHanded bigEndian ids s x [] := by
  have hlog : ∀ e ∈ x.log s, Plain s.msg.len e := by
    intro e he
    rw [log_of_run hrun] at he
    rcases mem_append.1 he with he | he
    · exact h.plain_read e he
    · exact hy e he
  exact ⟨fun e he => (hlog e he).2, filter_plain hlog, (msg_of_run hrun hmsg).symm ▸ ids_perm h⟩

end

/-- A `TX_COMPL_IND` is handed on, unless it is dropped. -/
theorem txCompl_handed (h : TargetSent ids s.msg) :
    IdsHanded bigEndian ids s (txComplIndIn bigEndian cfg)
      (if Dropped cfg (httTxComplIndStatusGet (s.msg.word 0)) then []
        else [.olTxCompletionHandler ids.length (httTxComplIndStatusGet (s.msg.word 0))]) := by
  have hfix : Plainly s.msg.len (fixOddIdIn bigEndian ids.length) := plainly_fixOddIdIn h.whole
  split
  · next hd =>
    refine handed_none (txComplIndIn_sent h) h ?_ txComplListed_msg
    rw [txComplListed_dropped hd]
    refine Plainly.log (keeps_bind hfix fun _ => keeps_bind (plainly_word h.head) fun _ => ?_) s
    exact keeps_bind plainly_failureIndication fun _ => keeps_pure _
  · next hd =>
    refine handed_once (txComplIndIn_sent h) h ?_ txComplListed_msg rfl h.inside_ids
    rw [txComplListed_completed hd]
    refine once_bind hfix (fun _ => once_bind (plainly_word h.head) fun _ => ?_) s
    exact once_bind plainly_failureIndication fun _ => txComplete_callsOnce

/-- A `TX_INSPECT_IND` is handed on. -/
theorem txInspect_handed (h : TargetSent ids s.msg) :
    IdsHanded bigEndian ids s (txInspectIndIn bigEndian cfg) [.olTxInspectHandler ids.length] := by
  refine handed_once (txInspectIndIn_sent h) h ?_ txInspectListed_msg rfl h.inside_ids
  exact once_bind (plainly_fixOddIdIn h.whole) (fun _ => once_emit) s

/-- **The listed ids are handed on.**  For every message as the target sends it and both byte
orders of the host, the handlers stay inside the message and hand on the ids it lists, a
`TX_COMPL_IND` to the completion handler and a `TX_INSPECT_IND` to the inspection handler, unless
it is the failure of a frame that a high latency device freed at download. -/
theorem tx_compl_ids_right (bigEndian : Bool) (cfg : T2hCfg) (s : T2hState) (ids : List Nat)
    (h : TargetSent ids s.msg) :
    IdsHanded bigEndian ids s (txComplIndIn bigEndian cfg)
        (if Dropped cfg (httTxComplIndStatusGet (s.msg.word 0)) then []
          else [.olTxCompletionHandler ids.length (httTxComplIndStatusGet (s.msg.word 0))])
      ∧ IdsHanded bigEndian ids s (txInspectIndIn bigEndian cfg)
        [.olTxInspectHandler ids.length] :=
  ⟨txCompl_handed h, txInspect_handed h⟩

end

/-- A high latency device that frees frames at download. -/
def downloadCfg : T2hCfg :=
  { lowLatencyCfg with configHlSupport := true, isHighLatency := true, txFreeAtDownload := true }

/-- A `TX_COMPL_IND` that lists the id 9, with the given status. -/
def oneIdInd (status : UInt32) : T2hState :=
  { oneWordMsg 0 with
    msg := ⟨fun i => if i = 0 then 0x10007 ||| (status <<< (8 : UInt32)) else 0xffff0009, 8⟩ }

theorem oneIdInd_sent (status : UInt32) (hs : status = 0 ∨ status = 5) :
    TargetSent [9] (oneIdInd status).msg := by
  rcases hs with rfl | rfl <;> exact ⟨by decide, by decide, fun _ => by decide, by decide⟩

/-- The failure of one frame on a high latency device that frees them at download is not handed on. -/
theorem failNotify_dropped : ¬ ∀ (bigEndian : Bool) (cfg : T2hCfg) (s : T2hState) (ids : List Nat),
    TargetSent ids s.msg → IdsHanded bigEndian ids s (txComplIndIn bigEndian cfg)
      [.olTxCompletionHandler ids.length (httTxComplIndStatusGet (s.msg.word 0))] := by
  intro h
  have hcalled := (h false downloadCfg (oneIdInd 5) [9] (oneIdInd_sent 5 (Or.inr rfl))).called
  exact absurd hcalled (by decide)

theorem tx_compl_ids_right_oneId :
    IdsHanded true [9] (oneIdInd 0) (txComplIndIn true lowLatencyCfg) [.olTxCompletionHandler 1 0]
      ∧ IdsHanded true [9] (oneIdInd 0) (txInspectIndIn true lowLatencyCfg)
        [.olTxInspectHandler 1] :=
  tx_compl_ids_right true lowLatencyCfg (oneIdInd 0) [9] (oneIdInd_sent 0 (Or.inl rfl))

end T2h
end Qcacld.Htt

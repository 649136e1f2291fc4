import Mathlib.Logic.Function.Basic
import Qcacld.Support.Bytes

/-!
# Support — Michael

The Michael message integrity code: a state of two words into which the words of the padded message are mixed one after the other.

A message whose length is a multiple of four can be mixed in beforehand (`michaelFrom_append`).  Every step is injective, in the state and in the word (`michaelAbsorb_injective`, `michaelAbsorb_word_injective`), so two messages that differ in one word only have different codes.  Nothing here is about this driver.
-/

namespace Qcacld.Support

def rotl (val bits : UInt32) : UInt32 := (val <<< bits) ||| (val >>> (32 - bits))

def rotr (val bits : UInt32) : UInt32 := (val >>> bits) ||| (val <<< (32 - bits))

def xswap (val : UInt32) : UInt32 := ((val &&& 0x00ff00ff) <<< 8) ||| ((val &&& 0xff00ff00) >>> 8)

def getLe32Split (b0 b1 b2 b3 : UInt8) : UInt32 :=
  b0.toUInt32 ||| (b1.toUInt32 <<< 8) ||| (b2.toUInt32 <<< 16) ||| (b3.toUInt32 <<< 24)

def putLe32 (v : UInt32) : List UInt8 :=
  [(v &&& 0xff).toUInt8, ((v >>> 8) &&& 0xff).toUInt8, ((v >>> 16) &&& 0xff).toUInt8,
    ((v >>> 24) &&& 0xff).toUInt8]

structure MichaelState where
  l : UInt32
  r : UInt32

def michaelBlock (s : MichaelState) : MichaelState :=
  let r := s.r ^^^ rotl s.l 17
  let l := s.l + r
  let r := r ^^^ xswap l
  let l := l + r
  let r := r ^^^ rotl l 3
  let l := l + r
  let r := r ^^^ rotr l 2
  let l := l + r
  ⟨l, r⟩

def michaelAbsorb (s : MichaelState) (w : UInt32) : MichaelState :=
  michaelBlock { s with l := s.l ^^^ w }

/-- The words of a message, the lowest byte first. -/
def leWords : List UInt8 → List UInt32
  | b0 :: b1 :: b2 :: b3 :: l => getLe32Split b0 b1 b2 b3 :: leWords l
  | _ => []

/-- The padding: 0x5a, and then as many zeros, four to seven, as fill the last word. -/
def michaelPad (msg : List UInt8) : List UInt8 :=
  msg ++ 0x5a :: List.replicate (7 - msg.length % 4) 0

def michaelWords (s : MichaelState) (words : List UInt32) : MichaelState :=
  words.foldl michaelAbsorb s

def michaelFrom (s : MichaelState) (msg : List UInt8) : MichaelState :=
  michaelWords s (leWords (michaelPad msg))

def michaelKey (key : Vector UInt8 8) : MichaelState :=
  ⟨getLe32Split key[0] key[1] key[2] key[3], getLe32Split key[4] key[5] key[6] key[7]⟩

def MichaelState.mic (s : MichaelState) : List UInt8 := putLe32 s.l ++ putLe32 s.r

/-- **The Michael code** of a message. -/
def michael (key : Vector UInt8 8) (msg : List UInt8) : List UInt8 :=
  (michaelFrom (michaelKey key) msg).mic

/-! ### Mixing in part of a message -/

section Append
variable {s : MichaelState} {a b msg : List UInt8}

theorem leWords_append {k : ℕ} (h : a.length = 4 * k) : leWords (a ++ b) = leWords a ++ leWords b := by
  induction k generalizing a with
  | zero =>
    obtain rfl : a = [] := List.eq_nil_of_length_eq_zero h
    rfl
  | succ k ih =>
    match a, h with
    | b0 :: b1 :: b2 :: b3 :: a, h =>
      have ha : a.length = 4 * k := by simpa [Nat.mul_succ] using h
      exact congrArg (getLe32Split b0 b1 b2 b3 :: ·) (ih ha)

theorem michaelPad_append {k : ℕ} (h : a.length = 4 * k) :
    michaelPad (a ++ b) = a ++ michaelPad b := by
  have hmod : (a ++ b).length % 4 = b.length % 4 := by
    rw [List.length_append, h, Nat.add_comm, Nat.add_mul_mod_self_left]
  rw [michaelPad, michaelPad, hmod, List.append_assoc]

/-- **Whole words may be mixed in beforehand.** -/
theorem michaelFrom_append {k : ℕ} (h : a.length = 4 * k) :
    michaelFrom s (a ++ b) = michaelFrom (michaelWords s (leWords a)) b := by
  rw [michaelFrom, michaelPad_append h, leWords_append h, michaelWords, List.foldl_append]
  rfl

end Append

/-! ### Different words give different codes -/

section Injective

def michaelRound (f : UInt32 → UInt32) (s : MichaelState) : MichaelState :=
  ⟨s.l + (s.r ^^^ f s.l), s.r ^^^ f s.l⟩

theorem michaelBlock_eq (s : MichaelState) : michaelBlock s =
    michaelRound (rotr · 2) (michaelRound (rotl · 3) (michaelRound xswap
      (michaelRound (rotl · 17) s))) := rfl

theorem michaelRound_injective (f : UInt32 → UInt32) : Function.Injective (michaelRound f) := by
  rintro ⟨l, r⟩ ⟨l', r'⟩ h
  simp only [michaelRound, MichaelState.mk.injEq] at h
  obtain ⟨hl, hr⟩ := h
  rw [hr] at hl
  obtain rfl := (UInt32.add_left_inj _).1 hl
  obtain rfl := (UInt32.xor_left_inj _).1 hr
  rfl

theorem michaelBlock_injective : Function.Injective michaelBlock := by
  intro s s' h
  rw [michaelBlock_eq, michaelBlock_eq] at h
  have h₁ := michaelRound_injective _ (michaelRound_injective _ h)
  exact michaelRound_injective _ (michaelRound_injective _ h₁)

theorem michaelAbsorb_injective (w : UInt32) : Function.Injective (michaelAbsorb · w) := by
  rintro ⟨l, r⟩ ⟨l', r'⟩ h
  have h := michaelBlock_injective h
  simp only [MichaelState.mk.injEq] at h
  obtain ⟨hl, rfl⟩ := h
  obtain rfl := (UInt32.xor_left_inj _).1 hl
  rfl

theorem michaelAbsorb_word_injective (s : MichaelState) : Function.Injective (michaelAbsorb s) := by
  intro w w' h
  have h := michaelBlock_injective h
  simp only [MichaelState.mk.injEq, and_true] at h
  exact (UInt32.xor_right_inj _).1 h

theorem michaelWords_injective (words : List UInt32) :
    Function.Injective (michaelWords · words) := by
  induction words with
  | nil => exact fun _ _ h => h
  | cons w words ih => exact ih.comp (michaelAbsorb_injective w)

theorem toUInt8_and_ff (v : UInt32) : (v &&& 0xff).toUInt8 = UInt8.ofNat v.toNat := by
  refine UInt8.toNat_inj.1 ?_
  have hand : v.toNat &&& 255 = v.toNat % 2 ^ 8 := Nat.and_two_pow_sub_one_eq_mod v.toNat 8
  rw [UInt32.toNat_toUInt8, UInt32.toNat_and, UInt8.toNat_ofNat']
  change (v.toNat &&& 255) % 2 ^ 8 = v.toNat % 2 ^ 8
  rw [hand, Nat.mod_mod]

theorem putLe32_eq (v : UInt32) : putLe32 v = toLittleEndian 4 v.toNat := by
  simp only [putLe32, toUInt8_and_ff, toLittleEndian, UInt32.toNat_shiftRight,
    Nat.shiftRight_eq_div_pow, Nat.div_div_eq_div_mul]
  rfl

theorem putLe32_injective : Function.Injective putLe32 := by
  intro v v' h
  rw [putLe32_eq, putLe32_eq] at h
  have hnum := congrArg littleEndian h
  rw [littleEndian_toLittleEndian, littleEndian_toLittleEndian] at hnum
  have hlt (v : UInt32) : v.toNat % 256 ^ 4 = v.toNat := Nat.mod_eq_of_lt v.toNat_lt
  rw [hlt, hlt] at hnum
  exact UInt32.toNat_inj.1 hnum

theorem mic_injective : Function.Injective MichaelState.mic := by
  rintro ⟨l, r⟩ ⟨l', r'⟩ h
  obtain ⟨hl, hr⟩ := List.append_inj h rfl
  obtain rfl := putLe32_injective hl
  obtain rfl := putLe32_injective hr
  rfl

end Injective

end Qcacld.Support

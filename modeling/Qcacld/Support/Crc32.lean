import Mathlib.Algebra.Group.Nat.Defs
import Mathlib.Logic.Function.Iterate
import Qcacld.Support.Bytes

/-!
# Support — Crc32

Cyclic redundancy codes, as the register that takes a message bit by bit, the lowest bit of a byte first: `crcBits` is a run of bits, and `crc32` the code with the polynomial `0xedb88320`, of which `icv` is the four bytes.  A byte can be put into the register at once and shifted out (`iterate_crcShift`).
-/

namespace Qcacld.Support
open Function List Nat

variable {w : ℕ} {poly c : BitVec w} {n x : ℕ}

/-- The register moves on; a bit that falls out brings in the polynomial. -/
def crcShift (poly z : BitVec w) : BitVec w := if z.getLsbD 0 then z >>> 1 ^^^ poly else z >>> 1

def crcBit (poly c : BitVec w) (b : Bool) : BitVec w :=
  crcShift poly (c ^^^ BitVec.ofNat w b.toNat)

def crcBits (poly c : BitVec w) (bits : List Bool) : BitVec w := bits.foldl (crcBit poly) c

/-- The lowest `n` bits of a number, lowest first. -/
def lowBits : ℕ → ℕ → List Bool
  | 0, _ => []
  | n + 1, x => (x % 2 == 1) :: lowBits n (x / 2)

def messageBits (msg : List UInt8) : List Bool := msg.flatMap fun x => lowBits 8 x.toNat

def crc32 (msg : List UInt8) : BitVec 32 :=
  ~~~ crcBits 0xedb88320#32 (~~~ 0#32) (messageBits msg)

def icv (msg : List UInt8) : List UInt8 := toLittleEndian 4 (crc32 msg).toNat

theorem toLittleEndian_eq_map (k n : ℕ) :
    toLittleEndian k n = (range k).map fun i => UInt8.ofNat (n >>> (8 * i)) := by
  induction k generalizing n with
  | zero => rfl
  | succ k ih =>
    rw [toLittleEndian, ih, range_succ_eq_map, map_cons, map_map]
    refine congrArg _ (map_congr_left fun i _ => ?_)
    rw [comp_apply, shiftRight_eq_div_pow, shiftRight_eq_div_pow, mul_succ,
      Nat.add_comm, Nat.pow_add, Nat.div_div_eq_div_mul]

@[simp] theorem length_icv (msg : List UInt8) : (icv msg).length = 4 := length_toLittleEndian 4 _

theorem ofNat_ushiftRight (hx : x < 2 ^ w) : (BitVec.ofNat w x) >>> 1 = BitVec.ofNat w (x / 2) := by
  refine BitVec.eq_of_toNat_eq ?_
  rw [BitVec.toNat_ushiftRight, BitVec.toNat_ofNat, BitVec.toNat_ofNat, mod_eq_of_lt hx,
    mod_eq_of_lt (lt_of_le_of_lt (div_le_self x 2) hx), shiftRight_eq_div_pow,
    pow_one]

theorem crcShift_xor_ofNat (hw : 1 ≤ w) (hx : x < 2 ^ w) : crcShift poly (c ^^^ BitVec.ofNat w x) =
      crcBit poly c (x % 2 == 1) ^^^ BitVec.ofNat w (x / 2) := by
  have hle : (x % 2 == 1).toNat ≤ 1 := Bool.toNat_le _
  have htwo : 2 ^ 1 ≤ 2 ^ w := Nat.pow_le_pow_right Nat.two_pos hw
  have hlow : (c ^^^ BitVec.ofNat w x).getLsbD 0
      = (c ^^^ BitVec.ofNat w (x % 2 == 1).toNat).getLsbD 0 := by
    rw [BitVec.getLsbD_xor, BitVec.getLsbD_xor, BitVec.getLsbD_ofNat, BitVec.getLsbD_ofNat,
      testBit_zero, testBit_zero]
    rcases mod_two_eq_zero_or_one x with h | h <;> simp [h]
  have hone : (BitVec.ofNat w (x % 2 == 1).toNat) >>> 1 = 0#w := by
    rw [ofNat_ushiftRight (by omega), div_eq_of_lt (by omega)]
  have hshift : (c ^^^ BitVec.ofNat w x) >>> 1
      = (c ^^^ BitVec.ofNat w (x % 2 == 1).toNat) >>> 1 ^^^ BitVec.ofNat w (x / 2) := by
    rw [BitVec.ushiftRight_xor_distrib, BitVec.ushiftRight_xor_distrib, hone,
      ofNat_ushiftRight hx, BitVec.xor_zero]
  rw [crcBit, crcShift, crcShift, hlow, hshift]
  split
  · rw [BitVec.xor_assoc, BitVec.xor_comm (BitVec.ofNat w (x / 2)), BitVec.xor_assoc]
  · rfl

/-- **A run of shifts** takes in the bits that have been put into the register. -/
theorem iterate_crcShift (hn : n ≤ w) (hx : x < 2 ^ n) :
    (crcShift poly)^[n] (c ^^^ BitVec.ofNat w x) = crcBits poly c (lowBits n x) := by
  induction n generalizing c x with
  | zero =>
    obtain rfl : x = 0 := by simpa using hx
    simp [crcBits, lowBits]
  | succ n ih =>
    have hxw : x < 2 ^ w := Nat.lt_of_lt_of_le hx (Nat.pow_le_pow_right Nat.two_pos hn)
    have hhalf : x / 2 < 2 ^ n := by
      rw [pow_succ] at hx
      omega
    rw [iterate_succ_apply, crcShift_xor_ofNat (by omega) hxw, ih (by omega) hhalf]
    rfl

end Qcacld.Support

import Mathlib.Data.Nat.Digits.Defs
import Mathlib.Tactic.Ring
import Mathlib.Data.List.Basic
import Mathlib.Order.Basic

/-!
# Support — Bytes

Strings of bytes as numbers, and `memcmp`.  Of two strings of one length the order that `memcmp` gives is that of the numbers with the first byte highest.  Nothing here is about this driver.
-/

namespace Qcacld.Support
open List Nat

/-- The sign of `memcmp`: the first bytes that differ decide. -/
def memcmp : List UInt8 → List UInt8 → Int
  | x :: xs, y :: ys => if x = y then memcmp xs ys else if x.toNat < y.toNat then -1 else 1
  | _, _ => 0

/-- The number of a string whose first byte is the lowest. -/
def littleEndian (l : List UInt8) : Nat := Nat.ofDigits 256 (l.map UInt8.toNat)

/-- The number of a string whose first byte is the highest. -/
def bigEndian (l : List UInt8) : Nat := littleEndian l.reverse

/-- The low `k` bytes of a number, the lowest first. -/
def toLittleEndian : Nat → Nat → List UInt8
  | 0, _ => []
  | k + 1, n => UInt8.ofNat n :: toLittleEndian k (n / 256)

variable {xs ys : List UInt8}

@[simp]
theorem littleEndian_nil : littleEndian [] = 0 := rfl

theorem littleEndian_cons (x : UInt8) (xs : List UInt8) :
    littleEndian (x :: xs) = x.toNat + 256 * littleEndian xs := rfl

theorem littleEndian_lt (xs : List UInt8) : littleEndian xs < 256 ^ xs.length := by
  have h := ofDigits_lt_base_pow_length (b := 256) (l := xs.map UInt8.toNat) (by decide) (by
    intro n hn
    obtain ⟨x, -, rfl⟩ := mem_map.1 hn
    exact x.toNat_lt)
  rwa [length_map] at h

theorem littleEndian_inj (hl : xs.length = ys.length) (h : littleEndian xs = littleEndian ys) :
    xs = ys := by
  have hb : ∀ zs : List UInt8, ∀ n ∈ zs.map UInt8.toNat, n < 256 := by
    intro zs n hn
    obtain ⟨x, -, rfl⟩ := mem_map.1 hn
    exact x.toNat_lt
  have hm := ofDigits_inj_of_len_eq (b := 256) (by decide) (by simpa using hl) (hb xs) (hb ys) h
  exact map_injective_iff.2 (fun _ _ => UInt8.toNat_inj.1) hm

@[simp]
theorem length_toLittleEndian (k n : ℕ) : (toLittleEndian k n).length = k := by
  induction k generalizing n with
  | zero => rfl
  | succ k ih => rw [toLittleEndian, length_cons, ih]

theorem littleEndian_toLittleEndian (k n : ℕ) :
    littleEndian (toLittleEndian k n) = n % 256 ^ k := by
  induction k generalizing n with
  | zero => simp [toLittleEndian, mod_one]
  | succ k ih =>
    have hpow : 256 ^ (k + 1) = 256 * 256 ^ k := pow_succ'
    rw [toLittleEndian, littleEndian_cons, ih, UInt8.toNat_ofNat', hpow, mod_mul]

@[simp]
theorem bigEndian_nil : bigEndian [] = 0 := rfl

theorem bigEndian_cons (x : UInt8) (xs : List UInt8) :
    bigEndian (x :: xs) = bigEndian xs + 256 ^ xs.length * x.toNat := by
  rw [bigEndian, bigEndian, littleEndian, littleEndian, map_reverse, map_reverse,
    map_cons, ofDigits_reverse_cons, length_map]

theorem bigEndian_lt (xs : List UInt8) : bigEndian xs < 256 ^ xs.length := by
  simpa [bigEndian] using littleEndian_lt xs.reverse

theorem bigEndian_inj (hl : xs.length = ys.length) (h : bigEndian xs = bigEndian ys) : xs = ys :=
  reverse_injective (littleEndian_inj (by simpa using hl) h)

theorem bigEndian_lt_of_head {x y : UInt8} (hl : xs.length = ys.length) (h : x.toNat < y.toNat) :
    bigEndian (x :: xs) < bigEndian (y :: ys) := by
  rw [bigEndian_cons, bigEndian_cons, hl]
  have hx : bigEndian xs < 256 ^ ys.length := hl ▸ bigEndian_lt xs
  calc bigEndian xs + 256 ^ ys.length * x.toNat
      < 256 ^ ys.length + 256 ^ ys.length * x.toNat := Nat.add_lt_add_right hx _
    _ = 256 ^ ys.length * (x.toNat + 1) := by ring
    _ ≤ 256 ^ ys.length * y.toNat := mul_le_mul_left _ h
    _ ≤ bigEndian ys + 256 ^ ys.length * y.toNat := le_add_left _ _

/-- What `memcmp` returns, in terms of the numbers. -/
theorem memcmp_eq (hl : xs.length = ys.length) :
    memcmp xs ys = if bigEndian xs = bigEndian ys then 0
      else if bigEndian xs < bigEndian ys then -1 else 1 := by
  induction xs generalizing ys with
  | nil =>
    obtain rfl : ys = [] := length_eq_zero_iff.1 hl.symm
    rfl
  | cons x xs ih =>
    cases ys with
    | nil => cases hl
    | cons y ys =>
      have hl' : xs.length = ys.length := succ_inj.1 hl
      rw [memcmp]
      by_cases hxy : x = y
      · subst hxy
        rw [if_pos rfl, ih hl', bigEndian_cons, bigEndian_cons, hl']
        simp
      · have hne : x.toNat ≠ y.toNat := fun h => hxy (UInt8.toNat_inj.1 h)
        rw [if_neg hxy]
        rcases lt_or_gt_of_ne hne with h | h
        · have hlt := bigEndian_lt_of_head hl' h
          rw [if_pos h, if_neg hlt.ne, if_pos hlt]
        · have hlt := bigEndian_lt_of_head hl'.symm h
          rw [if_neg (lt_asymm h), if_neg hlt.ne', if_neg (lt_asymm hlt)]

theorem memcmp_eq_zero_iff (hl : xs.length = ys.length) : memcmp xs ys = 0 ↔ xs = ys := by
  rw [memcmp_eq hl]
  constructor
  · intro h
    split at h
    · next he => exact bigEndian_inj hl he
    · split at h <;> cases h
  · rintro rfl
    rw [if_pos rfl]

theorem memcmp_neg_iff (hl : xs.length = ys.length) :
    memcmp xs ys < 0 ↔ bigEndian xs < bigEndian ys := by
  rw [memcmp_eq hl]
  split_ifs <;> omega

theorem memcmp_pos_iff (hl : xs.length = ys.length) :
    0 < memcmp xs ys ↔ bigEndian ys < bigEndian xs := by
  rw [memcmp_eq hl]
  split_ifs <;> omega

end Qcacld.Support

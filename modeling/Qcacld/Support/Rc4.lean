import Mathlib.Algebra.Group.Nat.Defs
import Mathlib.Data.UInt
import Mathlib.GroupTheory.Perm.Basic
import Mathlib.Logic.Equiv.Basic

/-!
# Support — Rc4

The stream cipher RC4, over any alphabet with an addition: a permutation of the letters is mixed with a key, and goes on being mixed while it gives the letters of the stream.  The permutation is one by its type.  `crypt_crypt` is decryption: the same stream takes back what it did, where combining twice with a letter does.

`rc4` is the cipher on bytes.
-/

namespace Qcacld.Support

open Equiv (Perm swap)

structure Keystream (α : Type*) where
  i : α
  j : α
  perm : Perm α

namespace Keystream

variable {α : Type*} [DecidableEq α] [Add α] [One α]

/-- The key schedule: at each letter `j` moves on by what is there and the next letter of the key, and the two are exchanged.  `n` counts the letters of the key. -/
def mix (key : ℕ → α) : List α → ℕ → α × Perm α → α × Perm α
  | [], _, s => s
  | i :: is, n, (j, p) =>
    let j := j + p i + key n
    mix key is (n + 1) (j, p * swap i j)

def next (c : Keystream α) : α × Keystream α :=
  let i := c.i + 1
  let j := c.j + c.perm i
  let p := c.perm * swap i j
  (p (p i + p j), ⟨i, j, p⟩)

/-- `n` letters. -/
def stream : ℕ → Keystream α → List α
  | 0, _ => []
  | n + 1, c => c.next.1 :: stream n c.next.2

@[simp] theorem length_stream (n : ℕ) (c : Keystream α) : (stream n c).length = n := by
  induction n generalizing c with
  | zero => rfl
  | succ n ih => rw [stream, List.length_cons, ih]

def crypt (op : α → α → α) (c : Keystream α) (xs : List α) : List α :=
  List.zipWith op (stream xs.length c) xs

@[simp] theorem length_crypt (op : α → α → α) (c : Keystream α) (xs : List α) :
    (crypt op c xs).length = xs.length := by
  rw [crypt, List.length_zipWith, length_stream, Nat.min_self]

theorem crypt_cons (op : α → α → α) (c : Keystream α) (x : α) (xs : List α) :
    crypt op c (x :: xs) = op c.next.1 x :: crypt op c.next.2 xs := rfl

/-- **Decryption.** -/
theorem crypt_crypt {op : α → α → α} (h : ∀ k x, op k (op k x) = x) (c : Keystream α) (xs : List α) :
    crypt op c (crypt op c xs) = xs := by
  induction xs generalizing c with
  | nil => rfl
  | cons x xs ih => rw [crypt_cons, crypt_cons, h, ih]

end Keystream

def allBytes : List UInt8 := (List.range 256).map UInt8.ofNat

/-- RC4 with a key of bytes, before the first letter. -/
def rc4 (key : List UInt8) : Keystream UInt8 where
  i := 0
  j := 0
  perm := (Keystream.mix (fun n => key.getD (n % key.length) 0) allBytes 0 (0, 1)).2

theorem xor_xor_cancel (k x : UInt8) : k ^^^ (k ^^^ x) = x := by
  rw [← UInt8.xor_assoc, UInt8.xor_self, UInt8.zero_xor]

end Qcacld.Support

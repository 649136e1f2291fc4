import Qcacld.Support.Buffer
import Qcacld.Support.Crc32
import Qcacld.Support.Rc4

/-!
# Lim — LimSharedKey

The third frame of shared key authentication.  `limEncryptAuthFrame` puts the CRC-32 of the body behind it and encrypts both with RC4, keyed with an IV and the WEP key; `limDecryptAuthFrame` undoes this and compares the CRC.  `limProcessAuthFrame` decrypts a frame that has a length it may have.

All accesses to the buffers are checked: an access outside of one has no result.  `shared_key_right` says that `limRC4` is RC4, that a body comes back with its CRC, that decryption of a frame of a permitted length stays inside, and that no body with another CRC is accepted.
-/

namespace Qcacld.Lim
open Qcacld.Support Function List Option Nat

def limSeedLength : Nat := 16
def sirMacWepIvLength : Nat := 4
def sirMacWepIcvLength : Nat := 4
def sirMacAuthFrameInfoLen : Nat := 6
def sirMacChallengeIdLen : Nat := 2
def sirMacSapAuthChallengeLength : Nat := 128

/-- `sizeof(tSirMacAuthFrameBody)`: three words, type and length of the challenge, and 253 bytes of it. -/
def sizeofSirMacAuthFrameBody : Nat := 261

def limEncrAuthBodyLen : Nat :=
  sizeofSirMacAuthFrameBody + sirMacWepIvLength + sirMacWepIcvLength

def limEncrAuthBodyLenSap : Nat :=
  sirMacSapAuthChallengeLength + sirMacChallengeIdLen + sirMacAuthFrameInfoLen
    + sirMacWepIvLength + sirMacWepIcvLength

/-! ### CRC-32 -/

def ptaps : BitVec 32 := 0xedb88320#32

/-- A turn of the loop of `limCrcUpdate`. -/
def crcTurn (z : BitVec 32) : BitVec 32 :=
  let fb := z &&& 1#32
  let z := z >>> 1
  if fb ≠ 0#32 then z ^^^ ptaps else z

def limCrcUpdate (crc : BitVec 32) (x : UInt8) : BitVec 32 :=
  crcTurn^[8] (crc ^^^ BitVec.ofNat 32 x.toNat)

/-- The loop of `limComputeCrc32` over `len` bytes from `pSrc` on. -/
def crcOver (src : List UInt8) : Nat → Nat → BitVec 32 → Option (BitVec 32)
  | 0, _, crc => some crc
  | len + 1, pSrc, crc => do
    let x ← src[pSrc]?
    crcOver src len (pSrc + 1) (limCrcUpdate crc x)

/-- `limComputeCrc32`: the four bytes it writes -/
def limComputeCrc32 (src : List UInt8) (len : Nat) : Option (List UInt8) := do
  let crc ← crcOver src len 0 (~~~ 0#32)
  let crc := ~~~ crc
  return (List.range sirMacWepIvLength).map fun i => UInt8.ofNat (crc >>> (8 * i)).toNat

/-! ### RC4 -/

/-- `seed`, an array of `LIM_SEED_LENGTH` bytes. -/
structure Seed where
  bytes : List UInt8
  length_eq : bytes.length = limSeedLength

def Seed.copy (seed : Seed) (pos : Nat) (xs : List UInt8) : Option Seed :=
  if h : pos + xs.length ≤ limSeedLength then
    some ⟨patch seed.bytes pos xs, by
      rw [length_patch (by rw [seed.length_eq]; exact h), seed.length_eq]⟩
  else none

def exchange (sbox : UInt8 → UInt8) (i j : UInt8) : UInt8 → UInt8 :=
  update (update sbox i (sbox j)) j (sbox i)

/-- Where the key schedule of `limRC4` is.  `j` is a 16-bit variable that is only given bytes. -/
structure Rc4Setup where
  sbox : UInt8 → UInt8
  j : UInt8
  k : Nat

def Rc4Setup.turn (seed : Seed) (keyLength : Nat) (s : Rc4Setup) (i : UInt8) : Rc4Setup :=
  let j := if h : s.k < limSeedLength then
      s.j + s.sbox i + seed.bytes.get ⟨s.k, by rw [seed.length_eq]; exact h⟩
    else s.j
  { sbox := exchange s.sbox i j
    j
    k := if keyLength ≤ s.k + 1 then 0 else s.k + 1 }

def rc4Setup (seed : Seed) (keyLength : Nat) : Rc4Setup :=
  allBytes.foldl (Rc4Setup.turn seed keyLength) ⟨id, 0, 0⟩

structure RC4Context where
  i : UInt8
  j : UInt8
  sbox : UInt8 → UInt8

/-- A turn of the loop over the frame, up to the byte of the stream. -/
def RC4Context.turn (ctx : RC4Context) : UInt8 × RC4Context :=
  let i := ctx.i + 1
  let temp1 := ctx.sbox i
  let j := ctx.j + temp1
  let temp2 := ctx.sbox j
  let sbox := exchange ctx.sbox i j
  (sbox (temp1 + temp2), ⟨i, j, sbox⟩)

def rc4Over (src : List UInt8) : Nat → Nat → Nat → RC4Context → List UInt8 → Option (List UInt8)
  | 0, _, _, _, dest => some dest
  | len + 1, pSrc, pDest, ctx, dest => do
    let (temp1, ctx) := ctx.turn
    let temp2 ← src[pSrc]?
    let dest ← store dest pDest [temp1 ^^^ temp2]
    rc4Over src len (pSrc + 1) (pDest + 1) ctx dest

/-- `limRC4` from `pSrc` on in the one buffer to `pDest` on in the other.  A source is always given. -/
def limRC4 (dest : List UInt8) (pDest : Nat) (src : List UInt8) (pSrc : Nat) (seed : Seed)
    (keyLength frameLen : Nat) : Option (List UInt8) :=
  rc4Over src frameLen pSrc pDest ⟨0, 0, (rc4Setup seed keyLength).sbox⟩ dest

/-! ### The frame -/

/-- The buffers after `limEncryptAuthFrame`. -/
structure Encrypted where
  pPlainText : List UInt8
  pEncrBody : List UInt8

/-- `limEncryptAuthFrame`.  The first three bytes of `seed` are the IV: `halGetTxTSFtimer` leaves them as they are. -/
def limEncryptAuthFrame (seed : Seed) (keyId : UInt8) (pKey pPlainText pEncrBody : List UInt8)
    (keyLength : Nat) : Option Encrypted := do
  let length ← pPlainText[7]?
  let framelen := length.toNat + sirMacAuthFrameInfoLen + sirMacChallengeIdLen
  let keyLength := keyLength + 3
  let key ← load pKey 0 (keyLength - 3)
  let seed ← seed.copy 3 key
  let icv ← limComputeCrc32 pPlainText framelen
  let pPlainText ← store pPlainText framelen icv
  let pEncrBody ← limRC4 pEncrBody sirMacWepIvLength pPlainText 0 seed keyLength
    (framelen + sirMacWepIvLength)
  let pEncrBody ← store pEncrBody 0 (slice seed.bytes 0 3 ++ [keyId <<< 6])
  return ⟨pPlainText, pEncrBody⟩

/-- The loop that compares the CRC that was received, from byte `i` on. -/
def sameIcv (pPlainBody icv : List UInt8) (frameLen : Nat) : Nat → Nat → Option Bool
  | 0, _ => some true
  | n + 1, i => do
    let rx ← if frameLen + i < sirMacWepIcvLength then none
      else pPlainBody[frameLen + i - sirMacWepIcvLength]?
    if icv[i]? ≠ some rx then some false else sameIcv pPlainBody icv frameLen n (i + 1)

/-- `limDecryptAuthFrame`: whether it succeeds, and the plain body -/
def limDecryptAuthFrame (seed : Seed) (pKey pEncrBody pPlainBody : List UInt8)
    (keyLength frameLen : Nat) : Option (Bool × List UInt8) := do
  let keyLength := keyLength + 3
  let iv ← load pEncrBody 0 (sirMacWepIvLength - 1)
  let seed ← seed.copy 0 iv
  let key ← load pKey 0 (keyLength - 3)
  let seed ← seed.copy 3 key
  let pPlainBody ← limRC4 pPlainBody 0 pEncrBody sirMacWepIvLength seed keyLength frameLen
  let icv ← limComputeCrc32 pPlainBody ((frameLen + 2 ^ 16 - sirMacWepIcvLength) % 2 ^ 16)
  let same ← sameIcv pPlainBody icv frameLen sirMacWepIcvLength 0
  return (same, pPlainBody)

/-- What the branch of `limProcessAuthFrame` for frames with the WEP bit looks at: the role and the state of the session, and of the station that sent the frame. -/
structure WepContext where
  /-- `bTkipCntrMeasActive`, in the role of an AP -/
  tkipCntrMeas : Bool
  staRole : Bool
  /-- the privacy option -/
  privacy : Bool
  /-- a pre-authentication node is found that waits for frame 3 -/
  waitsFrame3 : Bool
  /-- the keys, by key id -/
  wepKey : UInt8 → List UInt8

/-- How the branch ends: with the frame refused, with the CRC found wrong, or with the plain body, which is then taken for an authentication frame. -/
inductive WepOutcome where
  | refused
  | icvFail
  | plain (pPlainBody : List UInt8)

/-- The branch of `limProcessAuthFrame`.  `pBody` is the payload of the frame, of `frameLen` bytes. -/
def limProcessAuthFrameWep (ctx : WepContext) (seed : Seed) (pBody : List UInt8) :
    Option WepOutcome :=
  if ctx.tkipCntrMeas then some .refused
  else do
    let iv3 ← pBody[3]?
    let keyId := iv3 >>> 6
    let frameLen := pBody.length
    if ctx.staRole then return .refused
    if frameLen < limEncrAuthBodyLenSap ∨ limEncrAuthBodyLen < frameLen then return .refused
    if !ctx.privacy then return .refused
    if !ctx.waitsFrame3 then return .refused
    let defaultKey := ctx.wepKey keyId
    let plainBody := List.replicate limEncrAuthBodyLen 0
    let (same, plainBody) ← limDecryptAuthFrame seed defaultKey pBody plainBody defaultKey.length
      ((frameLen + 2 ^ 16 - sirMacWepIvLength) % 2 ^ 16)
    return if same then .plain plainBody else .icvFail

/-! ### CRC-32 and RC4 -/

section
variable {src dest : List UInt8} {crc : BitVec 32} {seed : Seed} {len pSrc pDest keyLength : Nat}
  {x : UInt8}

theorem crcTurn_eq (z : BitVec 32) : crcTurn z = crcShift ptaps z := by
  have hlow : (z &&& 1#32 ≠ 0#32) ↔ z.getLsbD 0 = true := by
    rw [BitVec.and_one_eq_setWidth_ofBool_getLsbD]
    cases z.getLsbD 0 <;> decide
  rw [crcTurn, crcShift]
  simp [hlow]

theorem limCrcUpdate_eq : limCrcUpdate crc x = crcBits ptaps crc (lowBits 8 x.toNat) := by
  rw [limCrcUpdate, funext crcTurn_eq]
  exact iterate_crcShift (by decide) (UInt8.toNat_lt x)

theorem crcOver_eq (h : pSrc + len ≤ src.length) :
    crcOver src len pSrc crc = some (crcBits ptaps crc (messageBits (slice src pSrc len))) := by
  induction len generalizing pSrc crc with
  | zero => rw [slice_zero]; rfl
  | succ len ih =>
    obtain ⟨x, hx⟩ : ∃ x, src[pSrc]? = some x := ⟨_, getElem?_eq_getElem (by omega)⟩
    rw [crcOver, hx, slice_succ hx, messageBits, flatMap_cons, crcBits, foldl_append]
    refine (ih (by omega)).trans ?_
    rw [limCrcUpdate_eq]
    rfl

/-- **The CRC** that is computed is CRC-32. -/
theorem limComputeCrc32_eq (h : len ≤ src.length) :
    limComputeCrc32 src len = some (icv (slice src 0 len)) := by
  have hcrc : crcOver src len 0 (~~~ 0#32) = some (~~~ crc32 (slice src 0 len)) := by
    rw [crcOver_eq (by omega), crc32, BitVec.not_not]
    rfl
  rw [limComputeCrc32, hcrc, icv, toLittleEndian_eq_map]
  change some ((range 4).map fun i =>
    UInt8.ofNat ((~~~ (~~~ crc32 (slice src 0 len))) >>> (8 * i)).toNat) = _
  simp

theorem le_of_crcOver {c : BitVec 32} (h : crcOver src len pSrc crc = some c)
    (hsrc : pSrc ≤ src.length) : pSrc + len ≤ src.length := by
  induction len generalizing pSrc crc with
  | zero => exact hsrc
  | succ len ih =>
    obtain ⟨x, hx, h⟩ := bind_eq_some_iff.1 h
    have hlt : pSrc < src.length := (List.getElem?_eq_some_iff.1 hx).1
    have := ih h hlt
    omega

theorem eq_icv_of_limComputeCrc32 {ic : List UInt8} (h : limComputeCrc32 src len = some ic) :
    ic = icv (slice src 0 len) := by
  obtain ⟨crc, hcrc, -⟩ := bind_eq_some_iff.1 h
  have hle : 0 + len ≤ src.length := le_of_crcOver hcrc (zero_le _)
  rw [limComputeCrc32_eq (by omega)] at h
  exact (some.inj h).symm

theorem exchange_perm (p : Equiv.Perm UInt8) (i j : UInt8) :
    exchange p i j = ⇑(p * Equiv.swap i j) := by
  funext k
  rw [exchange, Equiv.Perm.mul_apply]
  rcases eq_or_ne k j with rfl | hj
  · rw [update_self, Equiv.swap_apply_right]
  · rw [update_of_ne hj]
    rcases eq_or_ne k i with rfl | hi
    · rw [update_self, Equiv.swap_apply_left]
    · rw [update_of_ne hi, Equiv.swap_apply_of_ne_of_ne hi hj]

/-- The key schedule, with a key no longer than the seed: `k` counts the bytes of the key round. -/
theorem foldl_turn (seed : Seed) (hpos : 1 ≤ keyLength) (hle : keyLength ≤ limSeedLength)
    (is : List UInt8) (n : Nat) (j : UInt8) (p : Equiv.Perm UInt8) :
    ∃ k, is.foldl (Rc4Setup.turn seed keyLength) ⟨p, j, n % keyLength⟩ =
      let m := Keystream.mix (fun n => (slice seed.bytes 0 keyLength).getD
        (n % (slice seed.bytes 0 keyLength).length) 0) is n (j, p)
      ⟨m.2, m.1, k⟩ := by
  have hlen : (slice seed.bytes 0 keyLength).length = keyLength :=
    length_slice (by rw [seed.length_eq]; omega)
  rw [hlen]
  induction is generalizing n j p with
  | nil => exact ⟨_, rfl⟩
  | cons i is ih =>
    have hk : n % keyLength < keyLength := mod_lt _ hpos
    have hkey : seed.bytes.get ⟨n % keyLength, by rw [seed.length_eq]; omega⟩
        = (slice seed.bytes 0 keyLength).getD (n % keyLength) 0 := by
      rw [getD_eq_getElem?_getD, getElem?_slice hk, zero_add,
        getElem?_eq_getElem (by rw [seed.length_eq]; omega)]
      rfl
    have hnext : (if keyLength ≤ n % keyLength + 1 then 0 else n % keyLength + 1)
        = (n + 1) % keyLength := by
      rw [← mod_add_mod]
      split
      · next hround =>
        have hround : n % keyLength + 1 = keyLength := le_antisymm hk hround
        rw [hround, mod_self]
      · next hmore => rw [mod_eq_of_lt (not_le.1 hmore)]
    have hturn : Rc4Setup.turn seed keyLength ⟨p, j, n % keyLength⟩ i =
        let j' := j + p i + (slice seed.bytes 0 keyLength).getD (n % keyLength) 0
        ⟨⇑(p * Equiv.swap i j'), j', (n + 1) % keyLength⟩ := by
      rw [Rc4Setup.turn, dif_pos (lt_of_lt_of_le hk hle)]
      rw [hkey, hnext, exchange_perm]
    rw [foldl_cons, hturn]
    exact ih (n + 1) _ _

/-- **The sbox** after the schedule is the permutation of RC4 with the key in the seed. -/
theorem rc4Setup_sbox (hpos : 1 ≤ keyLength) (hle : keyLength ≤ limSeedLength) :
    (rc4Setup seed keyLength).sbox = ⇑(rc4 (slice seed.bytes 0 keyLength)).perm := by
  obtain ⟨k, hk⟩ := foldl_turn seed hpos hle allBytes 0 0 1
  rw [zero_mod, Equiv.Perm.coe_one] at hk
  rw [rc4Setup, hk, rc4]

def contextOf (c : Keystream UInt8) : RC4Context := ⟨c.i, c.j, c.perm⟩

theorem turn_contextOf (c : Keystream UInt8) :
    (contextOf c).turn = (c.next.1, contextOf c.next.2) := by
  rw [RC4Context.turn, contextOf, Keystream.next, contextOf]
  rw [exchange_perm]
  have hi : (c.perm * Equiv.swap (c.i + 1) (c.j + c.perm (c.i + 1))) (c.i + 1)
      = c.perm (c.j + c.perm (c.i + 1)) := by
    rw [Equiv.Perm.mul_apply, Equiv.swap_apply_left]
  have hj : (c.perm * Equiv.swap (c.i + 1) (c.j + c.perm (c.i + 1))) (c.j + c.perm (c.i + 1))
      = c.perm (c.i + 1) := by
    rw [Equiv.Perm.mul_apply, Equiv.swap_apply_right]
  rw [hi, hj, UInt8.add_comm (c.perm (c.i + 1))]

theorem rc4Over_eq (hsrc : pSrc + len ≤ src.length) (hdest : pDest + len ≤ dest.length)
    (c : Keystream UInt8) : rc4Over src len pSrc pDest (contextOf c) dest =
      some (patch dest pDest (c.crypt (· ^^^ ·) (slice src pSrc len))) := by
  induction len generalizing pSrc pDest c dest with
  | zero =>
    rw [slice_zero]
    exact congrArg some patch_nil.symm
  | succ len ih =>
    obtain ⟨x, hx⟩ : ∃ x, src[pSrc]? = some x := ⟨_, getElem?_eq_getElem (by omega)⟩
    have hone : pDest + [c.next.1 ^^^ x].length ≤ dest.length := by
      rw [length_singleton]
      omega
    rw [rc4Over, turn_contextOf, hx, slice_succ hx, Keystream.crypt_cons]
    dsimp only [bind_eq_bind, bind_some]
    rw [store_of_le hone]
    dsimp only [bind_some]
    rw [ih (by omega) (by rw [length_patch hone]; omega), patch_cons (by omega)]

/-- **`limRC4` is RC4** with the key in the seed. -/
theorem limRC4_eq (seed : Seed) (hpos : 1 ≤ keyLength) (hle : keyLength ≤ limSeedLength)
    (hsrc : pSrc + len ≤ src.length) (hdest : pDest + len ≤ dest.length) :
    limRC4 dest pDest src pSrc seed keyLength len =
      some (patch dest pDest ((rc4 (slice seed.bytes 0 keyLength)).crypt (· ^^^ ·)
        (slice src pSrc len))) := by
  rw [limRC4, rc4Setup_sbox hpos hle]
  exact rc4Over_eq hsrc hdest (rc4 (slice seed.bytes 0 keyLength))

end

/-! ### A frame and back -/

section
variable {seed seed' : Seed} {keyId : UInt8} {pKey pPlainText pEncrBody pPlainBody out ic : List UInt8}
  {length : UInt8} {keyLength frameLen len i n pos : Nat} {xs : List UInt8}

theorem Seed.copy_of_le (seed : Seed) (h : pos + xs.length ≤ limSeedLength) :
    ∃ s, seed.copy pos xs = some s ∧ s.bytes = patch seed.bytes pos xs := by
  rw [copy, dif_pos h]
  exact ⟨_, rfl, rfl⟩

theorem copy_key (seed : Seed) (hkey : keyLength ≤ pKey.length) (h13 : keyLength + 3 ≤ limSeedLength) :
    ∃ s, seed.copy 3 (slice pKey 0 keyLength) = some s ∧ slice s.bytes 0 3 = slice seed.bytes 0 3 ∧
      slice s.bytes 0 (keyLength + 3) = slice seed.bytes 0 3 ++ slice pKey 0 keyLength := by
  have hlen : (slice pKey 0 keyLength).length = keyLength := length_slice (by omega)
  have hthree : 3 ≤ seed.bytes.length := by rw [seed.length_eq]; decide
  obtain ⟨s, hs, hbytes⟩ := seed.copy_of_le
    (show 3 + (slice pKey 0 keyLength).length ≤ limSeedLength by omega)
  refine ⟨s, hs, ?_, ?_⟩
  · rw [hbytes, slice_patch_before hthree (by omega)]
  · have hread : slice s.bytes 3 keyLength = slice pKey 0 keyLength := by
      have := slice_patch (slice pKey 0 keyLength) hthree
      rwa [hlen, ← hbytes] at this
    rw [add_comm, slice_add, hread, hbytes, slice_patch_before hthree (by omega)]

theorem copy_iv (seed : Seed) (h : 3 ≤ pEncrBody.length) :
    ∃ s, seed.copy 0 (slice pEncrBody 0 3) = some s ∧ slice s.bytes 0 3 = slice pEncrBody 0 3 := by
  have hlen : (slice pEncrBody 0 3).length = 3 := length_slice (by omega)
  obtain ⟨s, hs, hbytes⟩ := seed.copy_of_le
    (show 0 + (slice pEncrBody 0 3).length ≤ limSeedLength by rw [hlen]; decide)
  refine ⟨s, hs, ?_⟩
  have := slice_patch (slice pEncrBody 0 3) (zero_le seed.bytes.length)
  rwa [hlen, ← hbytes] at this

/-- What the third frame has in it: its body and the CRC. -/
def sealed (body : List UInt8) : List UInt8 := body ++ icv body

def wep (iv key : List UInt8) (text : List UInt8) : List UInt8 :=
  (rc4 (iv ++ key)).crypt (· ^^^ ·) text

/-- **Encryption**, inside the buffers. -/
theorem limEncryptAuthFrame_eq (seed : Seed) (keyId : UInt8)
    (hlength : pPlainText[7]? = some length)
    (hlen : len = length.toNat + sirMacAuthFrameInfoLen + sirMacChallengeIdLen)
    (hkey : keyLength ≤ pKey.length) (h13 : keyLength + 3 ≤ limSeedLength)
    (hplain : len + 4 ≤ pPlainText.length) (hencr : len + 8 ≤ pEncrBody.length) :
    ∃ e, limEncryptAuthFrame seed keyId pKey pPlainText pEncrBody keyLength = some e ∧
      slice e.pEncrBody 0 3 = slice seed.bytes 0 3 ∧
      slice e.pEncrBody 4 (len + 4) = wep (slice seed.bytes 0 3) (slice pKey 0 keyLength)
        (sealed (slice pPlainText 0 len)) ∧
      e.pEncrBody.length = pEncrBody.length := by
  obtain ⟨s, hs, hiv, hseed⟩ := copy_key seed hkey h13
  have hbody : (slice pPlainText 0 len).length = len := length_slice (by omega)
  have hicv : (icv (slice pPlainText 0 len)).length = 4 := length_icv _
  -- the plain text with its CRC
  have hsealed : slice (patch pPlainText len (icv (slice pPlainText 0 len))) 0 (len + 4)
      = sealed (slice pPlainText 0 len) := by
    have hread := slice_patch (icv (slice pPlainText 0 len)) (show len ≤ pPlainText.length by omega)
    rw [hicv] at hread
    rw [slice_add, slice_patch_before (by omega) (by omega), zero_add, hread, sealed]
  have hrc4 := limRC4_eq s (show 1 ≤ keyLength + 3 by omega) h13
    (show 0 + (len + 4) ≤ (patch pPlainText len (icv (slice pPlainText 0 len))).length by
      rw [length_patch (by omega)]; omega)
    (show sirMacWepIvLength + (len + 4) ≤ pEncrBody.length by rw [sirMacWepIvLength]; omega)
  rw [hsealed, hseed] at hrc4
  change _ = some (patch pEncrBody 4 (wep (slice seed.bytes 0 3) (slice pKey 0 keyLength)
    (sealed (slice pPlainText 0 len)))) at hrc4
  set text := wep (slice seed.bytes 0 3) (slice pKey 0 keyLength)
    (sealed (slice pPlainText 0 len)) with htext
  have htextLen : text.length = len + 4 := by
    rw [htext, wep, Keystream.length_crypt, sealed, length_append, hbody, hicv]
  have hhead : (slice s.bytes 0 3 ++ [keyId <<< 6]).length = 4 := by
    rw [length_append, length_slice (by rw [s.length_eq]; decide)]
    rfl
  have hencr1 : (patch pEncrBody 4 text).length = pEncrBody.length := length_patch (by omega)
  have hencr2 : (patch (patch pEncrBody 4 text) 0 (slice s.bytes 0 3 ++ [keyId <<< 6])).length
      = pEncrBody.length := (length_patch (by omega)).trans hencr1
  refine ⟨⟨patch pPlainText len (icv (slice pPlainText 0 len)),
    patch (patch pEncrBody 4 text) 0 (slice s.bytes 0 3 ++ [keyId <<< 6])⟩, ?_, ?_, ?_, ?_⟩
  · rw [limEncryptAuthFrame, hlength]
    dsimp only [bind_eq_bind, bind_some]
    rw [← hlen, Nat.add_sub_cancel, load_of_le (by omega)]
    dsimp only [bind_some]
    rw [hs]
    rw [limComputeCrc32_eq (by omega)]
    dsimp only [Option.bind_some]
    rw [store_of_le (by omega)]
    refine (congrArg (Option.bind · _) hrc4).trans ?_
    dsimp only [Option.bind_some]
    rw [store_of_le (by omega)]
    rfl
  · have hread := slice_patch (slice s.bytes 0 3 ++ [keyId <<< 6])
      (zero_le (patch pEncrBody 4 text).length)
    rw [hhead] at hread
    change slice _ 0 (3 + 1) = _ at hread
    rw [slice_add] at hread
    refine (append_inj hread ?_).1.trans hiv
    rw [length_slice (by omega), length_slice (by rw [s.length_eq]; decide)]
  · have hread := slice_patch text (show 4 ≤ pEncrBody.length by omega)
    rw [htextLen] at hread
    rw [slice_patch_behind (zero_le _) (by rw [hhead]), hread]
  · exact hencr2

theorem sameIcv_of_le (hfour : sirMacWepIcvLength ≤ frameLen)
    (hplain : frameLen + i + n ≤ sirMacWepIcvLength + pPlainBody.length) (hic : i + n ≤ ic.length) :
    sameIcv pPlainBody ic frameLen n i =
      some (decide (slice pPlainBody (frameLen - sirMacWepIcvLength + i) n = slice ic i n)) := by
  induction n generalizing i with
  | zero => simp [sameIcv]
  | succ n ih =>
    have hpos : frameLen + i - sirMacWepIcvLength = frameLen - sirMacWepIcvLength + i := by omega
    obtain ⟨x, hx⟩ : ∃ x, pPlainBody[frameLen - sirMacWepIcvLength + i]? = some x :=
      ⟨_, getElem?_eq_getElem (by omega)⟩
    obtain ⟨y, hy⟩ : ∃ y, ic[i]? = some y := ⟨_, getElem?_eq_getElem (by omega)⟩
    rw [sameIcv, if_neg (by omega), hpos, hx, hy, slice_succ hx, slice_succ hy,
      ih (by omega) (by omega)]
    rcases eq_or_ne x y with rfl | hne
    · simp [add_assoc]
    · simp [hne, hne.symm]

/-- **Decryption**, inside the buffers. -/
theorem limDecryptAuthFrame_eq (seed : Seed) (hfour : sirMacWepIcvLength ≤ frameLen)
    (hmax : frameLen < 2 ^ 16)
    (hkey : keyLength ≤ pKey.length) (h13 : keyLength + 3 ≤ limSeedLength)
    (hencr : frameLen + 4 ≤ pEncrBody.length) (hplain : frameLen ≤ pPlainBody.length) :
    ∃ p, limDecryptAuthFrame seed pKey pEncrBody pPlainBody keyLength frameLen =
        some (decide (slice p (frameLen - 4) 4 = icv (slice p 0 (frameLen - 4))), p) ∧
      slice p 0 frameLen = wep (slice pEncrBody 0 3) (slice pKey 0 keyLength)
        (slice pEncrBody 4 frameLen) := by
  obtain ⟨s₁, hs₁, hiv₁⟩ := copy_iv seed (show 3 ≤ pEncrBody.length by omega)
  obtain ⟨s₂, hs₂, -, hseed⟩ := copy_key s₁ hkey h13
  have hrc4 := limRC4_eq s₂ (show 1 ≤ keyLength + 3 by omega) h13
    (show 4 + frameLen ≤ pEncrBody.length by omega)
    (show 0 + frameLen ≤ pPlainBody.length by omega)
  rw [hseed, hiv₁] at hrc4
  change _ = some (patch pPlainBody 0 (wep (slice pEncrBody 0 3) (slice pKey 0 keyLength)
    (slice pEncrBody 4 frameLen))) at hrc4
  set text := wep (slice pEncrBody 0 3) (slice pKey 0 keyLength) (slice pEncrBody 4 frameLen)
    with htext
  have htextLen : text.length = frameLen := by
    rw [htext, wep, Keystream.length_crypt, length_slice (by omega)]
  have hlen : (patch pPlainBody 0 text).length = pPlainBody.length := length_patch (by omega)
  refine ⟨patch pPlainBody 0 text, ?_, ?_⟩
  · have hcount : (frameLen + 2 ^ 16 - sirMacWepIcvLength) % 2 ^ 16 = frameLen - 4 := by
      rw [sirMacWepIcvLength] at hfour ⊢
      omega
    rw [limDecryptAuthFrame, Nat.add_sub_cancel, load_of_le (by rw [sirMacWepIvLength]; omega)]
    dsimp only [bind_eq_bind, bind_some]
    refine (congrArg (Option.bind · _) hs₁).trans ?_
    rw [load_of_le (by omega)]
    dsimp only [Option.bind_some]
    rw [hs₂]
    refine (congrArg (Option.bind · _) hrc4).trans ?_
    dsimp only [Option.bind_some]
    rw [hcount, limComputeCrc32_eq (by omega)]
    dsimp only [bind_some]
    have hfits : frameLen + 0 + sirMacWepIcvLength ≤
        sirMacWepIcvLength + (patch pPlainBody 0 text).length := by omega
    rw [sameIcv_of_le hfour hfits (by rw [length_icv]; decide)]
    have hall : slice (icv (slice (patch pPlainBody 0 text) 0 (frameLen - 4))) 0
        sirMacWepIcvLength = icv (slice (patch pPlainBody 0 text) 0 (frameLen - 4)) := by
      have := slice_all (b := icv (slice (patch pPlainBody 0 text) 0 (frameLen - 4)))
      rwa [length_icv] at this
    rw [hall]
    rfl
  · have hread := slice_patch text (zero_le pPlainBody.length)
    rwa [htextLen] at hread

theorem slice_of_sameIcv (hfour : sirMacWepIcvLength ≤ frameLen)
    (h : sameIcv pPlainBody ic frameLen n i = some true) :
    slice pPlainBody (frameLen - sirMacWepIcvLength + i) n = slice ic i n := by
  induction n generalizing i with
  | zero => simp
  | succ n ih =>
    have hpos : frameLen + i - sirMacWepIcvLength = frameLen - sirMacWepIcvLength + i := by omega
    rw [sameIcv, if_neg (by omega), hpos] at h
    obtain ⟨x, hx, h⟩ := bind_eq_some_iff.1 h
    dsimp only at h
    split at h
    · cases h
    · next heq =>
      have hy : ic[i]? = some x := not_not.1 heq
      rw [slice_succ hx, slice_succ hy, add_assoc, ih h]

theorem le_of_sameIcv (h : sameIcv pPlainBody ic frameLen sirMacWepIcvLength 0 = some true) :
    sirMacWepIcvLength ≤ frameLen := by
  by_contra hlt
  rw [show sirMacWepIcvLength = 3 + 1 from rfl, sameIcv, if_pos (by omega)] at h
  cases h

/-- **Nothing is accepted** but with its CRC behind it. -/
theorem limDecryptAuthFrame_sound (hmax : frameLen < 2 ^ 16)
    (h : limDecryptAuthFrame seed pKey pEncrBody pPlainBody keyLength frameLen = some (true, out)) :
    sirMacWepIcvLength ≤ frameLen ∧ slice out (frameLen - sirMacWepIcvLength) sirMacWepIcvLength =
        icv (slice out 0 (frameLen - sirMacWepIcvLength)) := by
  simp only [limDecryptAuthFrame, Option.bind_eq_bind, Option.bind_eq_some_iff,
    Option.pure_def, Option.some.injEq, Prod.mk.injEq] at h
  obtain ⟨-, -, -, -, -, -, -, -, p, -, ic, hic, same, hsame, rfl, rfl⟩ := h
  have hfour : sirMacWepIcvLength ≤ frameLen := le_of_sameIcv hsame
  have hslice := slice_of_sameIcv hfour hsame
  have hcount : (frameLen + 2 ^ 16 - sirMacWepIcvLength) % 2 ^ 16
      = frameLen - sirMacWepIcvLength := by
    rw [sirMacWepIcvLength] at hfour ⊢
    omega
  rw [hcount] at hic
  obtain rfl : ic = _ := eq_icv_of_limComputeCrc32 hic
  refine ⟨hfour, hslice.trans ?_⟩
  have hall := slice_all (b := icv (slice p 0 (frameLen - sirMacWepIcvLength)))
  rwa [length_icv] at hall

theorem wep_wep (iv key text : List UInt8) : wep iv key (wep iv key text) = text :=
  Keystream.crypt_crypt xor_xor_cancel _ _

/-- **A body comes back** with its CRC. -/
theorem decrypt_encrypt (hlength : pPlainText[7]? = some length)
    (hlen : len = length.toNat + sirMacAuthFrameInfoLen + sirMacChallengeIdLen)
    (hkey : keyLength ≤ pKey.length) (h13 : keyLength + 3 ≤ limSeedLength)
    (hplain : len + 4 ≤ pPlainText.length) (hencr : len + 8 ≤ pEncrBody.length)
    (hbody : len + 4 ≤ pPlainBody.length) :
    ∃ e p, limEncryptAuthFrame seed keyId pKey pPlainText pEncrBody keyLength = some e ∧
      limDecryptAuthFrame seed' pKey e.pEncrBody pPlainBody keyLength (len + 4) = some (true, p) ∧
      slice p 0 (len + 4) = sealed (slice pPlainText 0 len) := by
  obtain ⟨e, he, hiv, htext, helen⟩ := limEncryptAuthFrame_eq seed keyId hlength hlen hkey h13 hplain hencr
  have hmax : len + 4 < 2 ^ 16 := by
    have hbyte : length.toNat < 256 := UInt8.toNat_lt length
    rw [sirMacAuthFrameInfoLen, sirMacChallengeIdLen] at hlen
    omega
  obtain ⟨p, hp, hread⟩ := limDecryptAuthFrame_eq seed' (le_add_left 4 len) hmax hkey h13
    (show len + 4 + 4 ≤ e.pEncrBody.length by omega) hbody
  rw [hiv, htext, wep_wep] at hread
  refine ⟨e, p, he, ?_, hread⟩
  have hlen' : (slice pPlainText 0 len).length = len := length_slice (by omega)
  have hsplit : slice p 0 len ++ slice p (0 + len) 4
      = slice pPlainText 0 len ++ icv (slice pPlainText 0 len) := by
    rw [← slice_add]
    exact hread
  have hicv : (slice p (0 + len) 4).length = (icv (slice pPlainText 0 len)).length := by
    have hfour : (slice p (0 + len) 4).length ≤ 4 := length_take_le 4 _
    have htotal := congrArg List.length hsplit
    have hle : (slice p 0 len).length ≤ len := length_take_le len _
    simp only [length_append, length_icv, hlen'] at htotal ⊢
    omega
  obtain ⟨hfront, hback⟩ := append_inj' hsplit hicv
  rw [hp, Nat.add_sub_cancel, hfront]
  rw [zero_add] at hback
  rw [hback, decide_eq_true rfl]

end

/-! ### The branch for frames with the WEP bit -/

/-- The keys a WEP context has: they go into a seed behind the IV. -/
def WepContext.KeysFit (ctx : WepContext) : Prop :=
  ∀ keyId, (ctx.wepKey keyId).length + 3 ≤ limSeedLength

section
variable {ctx : WepContext} {seed : Seed} {pBody p : List UInt8}

theorem frameLen_sub (hmin : limEncrAuthBodyLenSap ≤ pBody.length)
    (hmax : pBody.length ≤ limEncrAuthBodyLen) :
    (pBody.length + 2 ^ 16 - sirMacWepIvLength) % 2 ^ 16 = pBody.length - 4 ∧
      8 ≤ pBody.length ∧ pBody.length ≤ 269 := by
  have hle : (144 : Nat) ≤ pBody.length := hmin
  have hge : pBody.length ≤ (269 : Nat) := hmax
  rw [sirMacWepIvLength]
  omega

/-- **Inside**: every access while a frame of a permitted length is decrypted. -/
theorem limProcessAuthFrameWep_isSome (hkeys : ctx.KeysFit)
    (hmin : limEncrAuthBodyLenSap ≤ pBody.length) (hmax : pBody.length ≤ limEncrAuthBodyLen) :
    ∃ outcome, limProcessAuthFrameWep ctx seed pBody = some outcome := by
  obtain ⟨hcount, hmin', hmax'⟩ := frameLen_sub hmin hmax
  obtain ⟨iv3, hiv3⟩ : ∃ x, pBody[3]? = some x := ⟨_, getElem?_eq_getElem (by omega)⟩
  rw [limProcessAuthFrameWep]
  split
  · exact ⟨_, rfl⟩
  rw [hiv3]
  dsimp only [bind_eq_bind, bind_some]
  split
  · exact ⟨_, rfl⟩
  rw [if_neg (by omega)]
  split
  · exact ⟨_, rfl⟩
  split
  · exact ⟨_, rfl⟩
  obtain ⟨p, hp, -⟩ := limDecryptAuthFrame_eq seed
    (show sirMacWepIcvLength ≤ pBody.length - 4 by rw [sirMacWepIcvLength]; omega) (by omega)
    le_rfl (hkeys (iv3 >>> 6)) (show pBody.length - 4 + 4 ≤ pBody.length by omega)
    (show pBody.length - 4 ≤ (replicate limEncrAuthBodyLen (0 : UInt8)).length by
      rw [length_replicate]; omega)
  rw [hcount, hp]
  exact ⟨_, rfl⟩

/-- What is taken for an authentication frame has been decrypted, and its CRC found right. -/
theorem icv_of_limProcessAuthFrameWep (h : limProcessAuthFrameWep ctx seed pBody = some (.plain p)) :
    slice p (pBody.length - 8) 4 = icv (slice p 0 (pBody.length - 8)) := by
  rw [limProcessAuthFrameWep] at h
  split at h
  · cases h
  obtain ⟨iv3, -, h⟩ := bind_eq_some_iff.1 h
  dsimp only at h
  split at h
  · cases h
  split at h
  · cases h
  next hlen =>
    obtain ⟨hmin, hmax⟩ := not_or.1 hlen
    obtain ⟨hcount, hmin', hmax'⟩ := frameLen_sub (not_lt.1 hmin) (not_lt.1 hmax)
    split at h
    · cases h
    split at h
    · cases h
    obtain ⟨⟨same, out⟩, hdecrypt, h⟩ := bind_eq_some_iff.1 h
    cases same with
    | false => cases h
    | true =>
      obtain rfl : out = p := by simpa using h
      rw [hcount] at hdecrypt
      obtain ⟨-, hicv⟩ := limDecryptAuthFrame_sound (by omega) hdecrypt
      rwa [sirMacWepIcvLength, Nat.sub_sub] at hicv

end

/-- **The third frame of shared key authentication.**  A body that was encrypted with a WEP key comes back with its CRC behind it, whatever the IV, the key id and the length of the challenge; `limRC4` is RC4; a frame of a permitted length is decrypted inside the frame and the plain buffer; and what is accepted has its CRC behind it. -/
theorem shared_key_right :
    (∀ (seed seed' : Seed) (keyId length : UInt8) (pKey pPlainText pEncrBody pPlainBody : List UInt8)
        (keyLength len : Nat),
      keyLength = 5 ∨ keyLength = 13 → keyLength ≤ pKey.length → pPlainText[7]? = some length →
      len = length.toNat + sirMacAuthFrameInfoLen + sirMacChallengeIdLen →
      len + 4 ≤ pPlainText.length → len + 8 ≤ pEncrBody.length → len + 4 ≤ pPlainBody.length →
      ∃ e p, limEncryptAuthFrame seed keyId pKey pPlainText pEncrBody keyLength = some e ∧
        limDecryptAuthFrame seed' pKey e.pEncrBody pPlainBody keyLength (len + 4) = some (true, p) ∧
        slice p 0 (len + 4) = slice pPlainText 0 len ++ icv (slice pPlainText 0 len)) ∧
    (∀ (seed : Seed) (dest src : List UInt8) (pDest pSrc keyLength len : Nat),
      1 ≤ keyLength → keyLength ≤ limSeedLength → pSrc + len ≤ src.length →
      pDest + len ≤ dest.length →
      limRC4 dest pDest src pSrc seed keyLength len =
        some (patch dest pDest ((rc4 (slice seed.bytes 0 keyLength)).crypt (· ^^^ ·)
          (slice src pSrc len)))) ∧
    (∀ (ctx : WepContext) (seed : Seed) (pBody : List UInt8), ctx.KeysFit →
      limEncrAuthBodyLenSap ≤ pBody.length → pBody.length ≤ limEncrAuthBodyLen →
      ∃ outcome, limProcessAuthFrameWep ctx seed pBody = some outcome) ∧
    (∀ (seed : Seed) (pKey pEncrBody pPlainBody out : List UInt8) (keyLength frameLen : Nat),
      frameLen < 2 ^ 16 →
      limDecryptAuthFrame seed pKey pEncrBody pPlainBody keyLength frameLen = some (true, out) →
      sirMacWepIcvLength ≤ frameLen ∧
        slice out (frameLen - sirMacWepIcvLength) sirMacWepIcvLength =
          icv (slice out 0 (frameLen - sirMacWepIcvLength))) ∧
    ∀ (ctx : WepContext) (seed : Seed) (pBody p : List UInt8),
      limProcessAuthFrameWep ctx seed pBody = some (.plain p) →
      slice p (pBody.length - 8) 4 = icv (slice p 0 (pBody.length - 8)) := by
  refine ⟨?_, ?_, ?_, ?_, ?_⟩
  · intro seed seed' keyId length pKey pPlainText pEncrBody pPlainBody keyLength len hlength hkey
      hchallenge hlen hplain hencr hbody
    have h13 : keyLength + 3 ≤ limSeedLength := by
      rw [limSeedLength]
      omega
    exact decrypt_encrypt hchallenge hlen hkey h13 hplain hencr hbody
  · intro seed dest src pDest pSrc keyLength len hpos hle hsrc hdest
    exact limRC4_eq seed hpos hle hsrc hdest
  · intro ctx seed pBody hkeys hmin hmax
    exact limProcessAuthFrameWep_isSome hkeys hmin hmax
  · intro seed pKey pEncrBody pPlainBody out keyLength frameLen hmax h
    exact limDecryptAuthFrame_sound hmax h
  · intro ctx seed pBody p h
    exact icv_of_limProcessAuthFrameWep h

/-- The seed of the IV `0 0 0`. -/
def zeroSeed : Seed := ⟨List.replicate 16 0, List.length_replicate⟩

/-- A body with an empty challenge, with the key `1 2 3 4 5`. -/
theorem shared_key_right_empty :
    ∃ e p, limEncryptAuthFrame zeroSeed 2 [1, 2, 3, 4, 5] [1, 0, 3, 0, 0, 0, 16, 0, 0, 0, 0, 0]
        (List.replicate 16 0) 5 = some e ∧
      limDecryptAuthFrame zeroSeed [1, 2, 3, 4, 5] e.pEncrBody (List.replicate 12 0) 5 12
        = some (true, p) ∧
      slice p 0 12 = [1, 0, 3, 0, 0, 0, 16, 0] ++ icv [1, 0, 3, 0, 0, 0, 16, 0] :=
  shared_key_right.1 zeroSeed zeroSeed 2 0 [1, 2, 3, 4, 5] [1, 0, 3, 0, 0, 0, 16, 0, 0, 0, 0, 0]
    (List.replicate 16 0) (List.replicate 12 0) 5 8 (Or.inl rfl) le_rfl rfl rfl (by decide)
    (by decide) (by decide)

end Qcacld.Lim

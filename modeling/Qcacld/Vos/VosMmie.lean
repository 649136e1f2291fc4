import Mathlib.Algebra.Group.Nat.Defs
import Qcacld.Support.Bytes
import Qcacld.Support.Runs

/-!
# Vos — VosMmie

The integrity of broadcast management frames: `vos_attach_mmie` numbers and signs a frame, `vos_is_mmie_valid` checks both.

The sender counts its IPN as a number whose first byte is the lowest, the receiver compares two IPNs as `memcmp` does, from the first byte on.  `mmie_iff` says that a signed frame is received right exactly when the two orders agree on its IPN and the receiver's, and that while they do no frame is accepted twice.  The AES block cipher is a parameter.
-/

namespace Qcacld.Vos
open Qcacld.Support Option Nat
open List (length_append length_drop)

/-! ### The CMAC -/

/-- A block of `AES_BLOCK_SIZE` bytes. -/
abbrev AesBlock := Vector UInt8 16

/-- `crypto_cipher_encrypt_one` under a key. -/
abbrev AesCipher := List UInt8 → AesBlock → AesBlock

def xor128 (a b : AesBlock) : AesBlock := a.zipWith (· ^^^ ·) b

/-- `leftshift_onebit`: each byte takes the top bit of the next. -/
def leftshiftOnebit (input : AesBlock) : AesBlock :=
  .ofFn fun i =>
    let overflow : UInt8 := if input.toList.getD (i + 1) 0 &&& 0x80 ≠ 0 then 1 else 0
    (input[i] <<< 1) ||| overflow

def constRb : AesBlock := .ofFn fun i => if i = 15 then 0x87 else 0

/-- A step of `generate_subkey`. -/
def doubled (l : AesBlock) : AesBlock :=
  if l[0] &&& 0x80 = 0 then leftshiftOnebit l else xor128 (leftshiftOnebit l) constRb

def generateSubkey (encrypt : AesBlock → AesBlock) : AesBlock × AesBlock :=
  let k1 := doubled (encrypt (.replicate 16 0))
  (k1, doubled k1)

def padding (lastb : List UInt8) (length : Nat) : AesBlock :=
  .ofFn fun j => if j < length then lastb.getD j 0 else if j = length then 0x80 else 0

/-- Block `i` of a message. -/
def blockAt (m : List UInt8) (i : Nat) : AesBlock := .ofFn fun j => m.getD (16 * i + j) 0

/-- `cmac_calc_mic` of a whole message. -/
def cmacCalcMic (encrypt : AesBlock → AesBlock) (m : List UInt8) : List UInt8 :=
  let (k1, k2) := generateSubkey encrypt
  let nBlocks := max 1 ((m.length + 15) / 16)
  let mLast :=
    if m ≠ [] ∧ m.length % 16 = 0 then xor128 (blockAt m (nBlocks - 1)) k1
    else xor128 (padding (m.drop (16 * (nBlocks - 1))) (m.length % 16)) k2
  let x := (List.range (nBlocks - 1)).foldl (fun x i => encrypt (xor128 x (blockAt m i)))
    (.replicate 16 0)
  (encrypt (xor128 x mLast)).toList.take 8

/-! ### The frame -/

/-- An IPN of `IEEE80211_MMIE_IPNLEN` bytes. -/
abbrev Ipn := Vector UInt8 6

def Ipn.num (ipn : Ipn) : Nat := littleEndian ipn.toList

def vosIncreaseSeq (ipn : Ipn) : Ipn :=
  ⟨(toLittleEndian 6 (littleEndian ipn.toList + 1)).toArray, by simp⟩

/-- `sizeof(struct ieee80211_frame)` -/
def frameHdrSize : Nat := 24

/-- `sizeof(struct ieee80211_mmie)` -/
def mmieSize : Nat := 18

def writeAt (frm : List UInt8) (place : Nat) (bytes : List UInt8) : List UInt8 :=
  frm.take place ++ bytes ++ frm.drop (place + bytes.length)

/-- `mmie->sequence_number` of the MMIE at the end of a frame. -/
def mmieIpn (frm : List UInt8) : Ipn :=
  .ofFn fun i => frm.getD (frm.length - mmieSize + 4 + i) 0

/-- The AAD: the frame control with its retry, power and more-data bits masked, and the addresses. -/
def mmieAad (frm : List UInt8) : List UInt8 :=
  [frm.getD 0 0, frm.getD 1 0 &&& ~~~(0x08 ||| 0x10 ||| 0x20)] ++ (frm.drop 4).take 18

/-- The message that is signed, of `nBytes` bytes: the AAD, then what stands from `body` on, for `bodyLen` bytes, with the MIC at its end zeroed.  The copy has a length only when the MIC is within it. -/
def mmieInput (frm : List UInt8) (body bodyLen : Nat) : Option (List UInt8) := do
  let nBytes := (20 + bodyLen) % 2 ^ 16
  guard (28 ≤ nBytes)
  return mmieAad frm ++ (frm.drop body).take (nBytes - 28) ++ List.replicate 8 0

/-- Which of the calls before the MIC is calculated fails: `crypto_alloc_cipher`, `crypto_cipher_setkey` or `vos_mem_malloc`. -/
inductive CryptoSetup where
  | ok
  | allocFails
  | setkeyFails
  | mallocFails
deriving DecidableEq

/-- `vos_attach_mmie`: whether it succeeds, the IPN and the frame. -/
def vosAttachMmie (aes : AesCipher) (setup : CryptoSetup) (igtk : List UInt8) (ipn : Ipn)
    (keyId : Nat) (frm : List UInt8) (frmLen : Nat) : Option (Bool × Ipn × List UInt8) :=
  if frm.length ≠ frmLen ∨ frmLen < frameHdrSize then some (false, ipn, frm)
  else
    let mmie := frmLen - mmieSize
    let frm := writeAt frm mmie ([76, 16] ++ toLittleEndian 2 keyId)
    let previousIpn := ipn
    let ipn := vosIncreaseSeq ipn
    let frm := writeAt frm (mmie + 4) ipn.toList
    match setup with
    | .ok => do
      let input ← mmieInput frm (frmLen - (frmLen - frameHdrSize)) (frmLen - frameHdrSize)
      return (true, ipn, writeAt frm (mmie + 10) (cmacCalcMic (aes igtk) input))
    -- in case of error, revert back to the original IPN
    | .allocFails | .setkeyFails | .mallocFails => some (false, previousIpn, frm)

/-- `vos_is_mmie_valid`: whether it is, and the receiver's IPN. -/
def vosIsMmieValid (aes : AesCipher) (setup : CryptoSetup) (igtk : List UInt8) (ipn : Ipn)
    (frm : List UInt8) : Option (Bool × Ipn) :=
  if frm.length < frameHdrSize then some (false, ipn)
  else
    let mmie := frm.length - mmieSize
    if frm.getD mmie 0 ≠ 76 ∨ frm.getD (mmie + 1) 0 ≠ 16 then some (false, ipn)
    else
      let rxIpn := mmieIpn frm
      if memcmp rxIpn.toList ipn.toList ≤ 0 then some (false, ipn) -- replay error
      else
        match setup with
        | .ok => do
          let input ← mmieInput frm frameHdrSize (frm.length - frameHdrSize)
          if memcmp (cmacCalcMic (aes igtk) input) ((frm.drop (mmie + 10)).take 8) ≠ 0 then
            return (false, ipn)
          else return (true, rxIpn)
        | .allocFails | .setkeyFails | .mallocFails => some (false, ipn)

/-! ### The sender and the receiver -/

/-- The two IPNs, and the frames that were accepted. -/
structure MmieLink where
  sent : Ipn
  received : Ipn
  accepted : List (List UInt8)

inductive MmieEvent where
  | attach (setup : CryptoSetup) (keyId : Nat) (frm : List UInt8)
  /-- any frame arrives, signed by the sender or not, lost, repeated or out of order -/
  | deliver (setup : CryptoSetup) (frm : List UInt8)

def mmieStep (aes : AesCipher) (igtk : List UInt8) (s : MmieLink) : MmieEvent → Option MmieLink
  | .attach setup keyId frm => do
    let (_, sent, _) ← vosAttachMmie aes setup igtk s.sent keyId frm frm.length
    return { s with sent := sent }
  | .deliver setup frm => do
    let (valid, received) ← vosIsMmieValid aes setup igtk s.received frm
    return { s with
      received := received
      accepted := if valid then s.accepted ++ [frm] else s.accepted }

def mmieMachine (aes : AesCipher) (igtk : List UInt8) : Machine MmieLink MmieEvent where
  init s := s.accepted = []
  step := mmieStep aes igtk

/-! ### What is claimed -/

/-- A frame that can hold a header and an MMIE, and whose length a `u_int16_t` holds. -/
def LongEnough (frm : List UInt8) : Prop :=
  frameHdrSize + mmieSize ≤ frm.length ∧ frm.length < 2 ^ 16

/-- **Attaching is right**: it returns; a success counts the IPN up by one and puts it into the frame, a failure leaves it as it was. -/
def AttachRight (aes : AesCipher) (igtk : List UInt8) (setup : CryptoSetup) (ipn : Ipn)
    (keyId : Nat) (frm : List UInt8) : Prop :=
  ∃ success ipn' frm', vosAttachMmie aes setup igtk ipn keyId frm frm.length =
      some (success, ipn', frm') ∧
    (success = true → ipn'.num = ipn.num + 1 ∧ mmieIpn frm' = ipn' ∧ LongEnough frm') ∧
    (success = false → ipn' = ipn)

/-- **Receiving is right**: a frame of a higher IPN is accepted, and its IPN is the receiver's then; one of an IPN that is not higher is rejected and changes nothing. -/
structure ReceiveRight (aes : AesCipher) (igtk : List UInt8) (ipn : Ipn) (frm : List UInt8) :
    Prop where
  accepts : ipn.num < (mmieIpn frm).num →
    vosIsMmieValid aes .ok igtk ipn frm = some (true, mmieIpn frm)
  rejects : (mmieIpn frm).num ≤ ipn.num →
    ∀ setup, vosIsMmieValid aes setup igtk ipn frm = some (false, ipn)

/-- The IPN is above another in both orders or in none: read from the first byte on, and from the last. -/
def IpnAgree (a b : Ipn) : Prop :=
  0 < memcmp a.toList b.toList ↔ 0 < memcmp a.toList.reverse b.toList.reverse
deriving Decidable

/-- The orders agree on the frame that arrives and the receiver. -/
def MmieEventOk (s : MmieLink) : MmieEvent → Prop
  | .deliver _ frm => IpnAgree (mmieIpn frm) s.received
  | .attach .. => True

instance (s : MmieLink) : (e : MmieEvent) → Decidable (MmieEventOk s e)
  | .deliver _ frm => inferInstanceAs (Decidable (IpnAgree (mmieIpn frm) s.received))
  | .attach .. => .isTrue trivial

/-! ### IPNs -/

section Ipn
variable {a b ipn : Ipn}

@[simp]
theorem toList_vosIncreaseSeq (ipn : Ipn) :
    (vosIncreaseSeq ipn).toList = toLittleEndian 6 (littleEndian ipn.toList + 1) := rfl

theorem num_vosIncreaseSeq (h : ipn.num < 2 ^ 48 - 1) : (vosIncreaseSeq ipn).num = ipn.num + 1 := by
  rw [Ipn.num, toList_vosIncreaseSeq, littleEndian_toLittleEndian]
  exact mod_eq_of_lt (show ipn.num + 1 < 256 ^ 6 by omega)

theorem reverse_memcmp_pos : 0 < memcmp a.toList.reverse b.toList.reverse ↔ b.num < a.num := by
  rw [memcmp_pos_iff (by simp), bigEndian, bigEndian, List.reverse_reverse, List.reverse_reverse]
  rfl

/-- Where the orders agree `memcmp` compares the numbers. -/
theorem ipnAgree_iff : IpnAgree a b ↔ (0 < memcmp a.toList b.toList ↔ b.num < a.num) := by
  rw [IpnAgree, reverse_memcmp_pos]

end Ipn

/-! ### Frames -/

section Frames
variable {body tail head mic frm igtk : List UInt8} {aes : AesCipher} {ipn r : Ipn} {keyId : ℕ}

theorem writeAt_append (a b bytes : List UInt8) :
    writeAt (a ++ b) a.length bytes = a ++ bytes ++ b.drop bytes.length := by
  rw [writeAt, List.take_left, List.drop_append]
  simp

/-- A frame without the MIC of its MMIE, of the element id and the length, the key id and the IPN. -/
def unsigned (body : List UInt8) (keyId : Nat) (ipn : Ipn) : List UInt8 :=
  body ++ ([76, 16] ++ toLittleEndian 2 keyId) ++ ipn.toList

@[simp]
theorem length_unsigned : (unsigned body keyId ipn).length = body.length + 10 := by
  simp [unsigned]

def signedInput (p : List UInt8) : List UInt8 :=
  mmieAad p ++ p.drop frameHdrSize ++ List.replicate 8 0

def signed (aes : AesCipher) (igtk p : List UInt8) : List UInt8 :=
  p ++ cmacCalcMic (aes igtk) (signedInput p)

@[simp]
theorem length_cmacCalcMic (encrypt : AesBlock → AesBlock) (m : List UInt8) :
    (cmacCalcMic encrypt m).length = 8 := by
  simp [cmacCalcMic]

theorem mmieAad_append {p : List UInt8} (hp : frameHdrSize ≤ p.length) (t : List UInt8) :
    mmieAad (p ++ t) = mmieAad p := by
  have hp : 24 ≤ p.length := hp
  have h4 : (p ++ t).drop 4 = p.drop 4 ++ t := List.drop_append_of_le_length (by omega)
  have h18 : (p.drop 4 ++ t).take 18 = (p.drop 4).take 18 :=
    List.take_append_of_le_length (by rw [length_drop]; omega)
  rw [mmieAad, mmieAad, h4, h18]
  simp only [List.getD_eq_getElem?_getD]
  rw [List.getElem?_append_left (by omega), List.getElem?_append_left (by omega)]

theorem mmieInput_eq {p t : List UInt8} (hp : frameHdrSize + 10 ≤ p.length) (ht : t.length = 8)
    (hlen : (p ++ t).length < 2 ^ 16) :
    mmieInput (p ++ t) frameHdrSize ((p ++ t).length - frameHdrSize) = some (signedInput p) := by
  have hp' : 34 ≤ p.length := hp
  rw [length_append, ht] at hlen ⊢
  have hbytes : (20 + (p.length + 8 - frameHdrSize)) % 2 ^ 16 = p.length + 4 := by
    rw [show 20 + (p.length + 8 - frameHdrSize) = p.length + 4 by simp only [frameHdrSize]; omega]
    exact mod_eq_of_lt (by omega)
  have hbody : ((p ++ t).drop frameHdrSize).take (p.length + 4 - 28) = p.drop frameHdrSize := by
    rw [List.drop_append_of_le_length (by omega), List.take_append_of_le_length] <;>
      simp only [length_drop, frameHdrSize]
    · exact List.take_of_length_le (by simp only [length_drop]; omega)
    · omega
  unfold mmieInput
  rw [hbytes]
  refine guarded_eq_some.2 ⟨by omega, ?_⟩
  rw [hbody, mmieAad_append (by omega), signedInput]

/-- **A success** of `vos_attach_mmie`: the frame signed, with the next IPN. -/
theorem vosAttachMmie_ok (hb : frameHdrSize ≤ body.length) (ht : tail.length = mmieSize)
    (hlen : (body ++ tail).length < 2 ^ 16) :
    vosAttachMmie aes .ok igtk ipn keyId (body ++ tail) (body ++ tail).length =
      some (true, vosIncreaseSeq ipn, signed aes igtk (unsigned body keyId (vosIncreaseSeq ipn))) := by
  have ht' : tail.length = 18 := ht
  have hat : (body ++ tail).length - mmieSize = body.length := by
    rw [length_append, ht, Nat.add_sub_cancel]
  have hhdr : (body ++ tail).length - ((body ++ tail).length - frameHdrSize) = frameHdrSize := by
    rw [length_append]
    omega
  have h4 : (body ++ ([76, 16] ++ toLittleEndian 2 keyId)).length = body.length + 4 := by simp
  rw [vosAttachMmie, if_neg (by simp only [length_append]; omega)]
  dsimp only
  rw [hat, hhdr, writeAt_append, ← h4, writeAt_append, List.drop_drop]
  set p := unsigned body keyId (vosIncreaseSeq ipn) with hpdef
  set t := tail.drop (([76, 16] ++ toLittleEndian 2 keyId).length +
    (vosIncreaseSeq ipn).toList.length) with htdef
  have htl : t.length = 8 := by simp [htdef, ht']
  have hpl : p.length = body.length + 10 := length_unsigned
  have hpt : (p ++ t).length = (body ++ tail).length := by
    simp [hpl, htl, ht']
  have hmic : writeAt (p ++ t) (body.length + 10) (cmacCalcMic (aes igtk) (signedInput p)) =
      signed aes igtk p := by
    rw [← hpl, writeAt_append, length_cmacCalcMic, List.drop_of_length_le htl.le, List.append_nil,
      signed]
  change ((mmieInput (p ++ t) frameHdrSize _).bind _) = _
  rw [← hpt, mmieInput_eq (by omega) htl (by rw [hpt]; exact hlen), bind_some]
  exact congrArg (fun frm => some (true, vosIncreaseSeq ipn, frm)) hmic

/-- **A failure** gives back the IPN it was called with. -/
theorem vosAttachMmie_fails (aes : AesCipher) (igtk : List UInt8) (ipn : Ipn) (keyId : ℕ)
    (frm : List UInt8) {setup : CryptoSetup} (hs : setup ≠ .ok) :
    ∃ frm', vosAttachMmie aes setup igtk ipn keyId frm frm.length = some (false, ipn, frm') := by
  unfold vosAttachMmie
  split
  · exact ⟨frm, rfl⟩
  · cases setup with
    | ok => exact absurd rfl hs
    | allocFails | setkeyFails | mallocFails => exact ⟨_, rfl⟩

theorem mmieIpn_append (hm : mic.length = 8) : mmieIpn (unsigned body keyId ipn ++ mic) = ipn := by
  apply Vector.ext
  intro i hi
  simp only [mmieIpn, Vector.getElem_ofFn, List.getD_eq_getElem?_getD]
  have hat : (unsigned body keyId ipn ++ mic).length - mmieSize + 4 + i = body.length + 4 + i := by
    rw [length_append, length_unsigned, hm, mmieSize]
    omega
  have h4 : (body ++ ([76, 16] ++ toLittleEndian 2 keyId)).length = body.length + 4 := by simp
  rw [hat, List.getElem?_append_left (by rw [length_unsigned]; omega), unsigned,
    List.getElem?_append_right (by omega), h4, Nat.add_sub_cancel_left]
  simp [hi]

theorem vosIsMmieValid_replay (setup : CryptoSetup) (h : memcmp (mmieIpn frm).toList r.toList ≤ 0) :
    vosIsMmieValid aes setup igtk r frm = some (false, r) := by
  unfold vosIsMmieValid
  dsimp only
  rw [if_pos h]
  split
  · rfl
  · split <;> rfl

theorem vosIsMmieValid_cases {setup : CryptoSetup} {valid : Bool} {r' : Ipn}
    (h : vosIsMmieValid aes setup igtk r frm = some (valid, r')) :
    valid = false ∧ r' = r ∨
      valid = true ∧ r' = mmieIpn frm ∧ 0 < memcmp (mmieIpn frm).toList r.toList := by
  by_cases hcmp : memcmp (mmieIpn frm).toList r.toList ≤ 0
  · rw [vosIsMmieValid_replay setup hcmp] at h
    cases h
    exact .inl ⟨rfl, rfl⟩
  · unfold vosIsMmieValid at h
    dsimp only at h
    rw [if_neg hcmp] at h
    split at h
    · cases h
      exact .inl ⟨rfl, rfl⟩
    · split at h
      · cases h
        exact .inl ⟨rfl, rfl⟩
      · cases setup with
        | ok =>
          simp only [bind_eq_bind, bind_eq_some_iff] at h
          obtain ⟨input, -, h⟩ := h
          split at h
          · cases h
            exact .inl ⟨rfl, rfl⟩
          · cases h
            exact .inr ⟨rfl, rfl, Int.not_le.1 hcmp⟩
        | allocFails | setkeyFails | mallocFails =>
          cases h
          exact .inl ⟨rfl, rfl⟩

/-- **A signed frame** is valid exactly when its IPN compares higher. -/
theorem vosIsMmieValid_signed (hb : frameHdrSize ≤ body.length)
    (hlen : body.length + mmieSize < 2 ^ 16)
    (hcmp : 0 < memcmp ipn.toList r.toList) :
    vosIsMmieValid aes .ok igtk r (signed aes igtk (unsigned body keyId ipn)) =
      some (true, ipn) := by
  have hb' : 24 ≤ body.length := hb
  have hlen' : body.length + 18 < 2 ^ 16 := hlen
  have hpl : (unsigned body keyId ipn).length = body.length + 10 := length_unsigned
  have hmicl := length_cmacCalcMic (aes igtk) (signedInput (unsigned body keyId ipn))
  have hat : (signed aes igtk (unsigned body keyId ipn)).length - mmieSize = body.length := by
    rw [signed, length_append, hpl, hmicl, mmieSize]
    omega
  have hipn : mmieIpn (signed aes igtk (unsigned body keyId ipn)) = ipn := mmieIpn_append hmicl
  have hsplit : signed aes igtk (unsigned body keyId ipn) = body ++ (76 :: 16 ::
      (toLittleEndian 2 keyId ++ ipn.toList ++
        cmacCalcMic (aes igtk) (signedInput (unsigned body keyId ipn)))) := by
    simp [signed, unsigned]
  have hid : (signed aes igtk (unsigned body keyId ipn)).getD body.length 0 = 76 := by
    simp [hsplit]
  have hlength : (signed aes igtk (unsigned body keyId ipn)).getD (body.length + 1) 0 = 16 := by
    simp [hsplit]
  unfold vosIsMmieValid
  dsimp only
  rw [hat, hipn, if_neg (by rw [signed, length_append, hpl]; simp only [frameHdrSize]; omega),
    if_neg (not_or.2 ⟨not_not.2 hid, not_not.2 hlength⟩),
    if_neg (Int.not_le.2 hcmp)]
  have hin : mmieInput (signed aes igtk (unsigned body keyId ipn)) frameHdrSize
      ((signed aes igtk (unsigned body keyId ipn)).length - frameHdrSize) =
        some (signedInput (unsigned body keyId ipn)) :=
    mmieInput_eq (by rw [hpl]; omega) hmicl (by rw [length_append, hpl, hmicl]; omega)
  have hmic : ((signed aes igtk (unsigned body keyId ipn)).drop (body.length + 10)).take 8 =
      cmacCalcMic (aes igtk) (signedInput (unsigned body keyId ipn)) := by
    rw [← hpl, signed, List.drop_left]
    exact List.take_of_length_le hmicl.le
  simp only [hin, hmic, bind_eq_bind, bind_some]
  rw [if_neg (not_not.2 ((memcmp_eq_zero_iff rfl).2 rfl))]
  rfl

end Frames

/-! ### The calls and the runs -/

section Runs
variable {aes : AesCipher} {igtk frm : List UInt8} {ipn r : Ipn} {keyId : ℕ}

theorem LongEnough.split (h : LongEnough frm) : ∃ body tail, frm = body ++ tail ∧
    frameHdrSize ≤ body.length ∧ tail.length = mmieSize ∧ body.length + mmieSize < 2 ^ 16 := by
  obtain ⟨hlo, hhi⟩ := h
  refine ⟨frm.take (frm.length - mmieSize), frm.drop (frm.length - mmieSize),
    (List.take_append_drop _ _).symm, ?_, ?_, ?_⟩ <;>
    simp only [List.length_take, length_drop] <;> omega

theorem attachRight (setup : CryptoSetup) (hipn : ipn.num < 2 ^ 48 - 1) (hfrm : LongEnough frm) :
    AttachRight aes igtk setup ipn keyId frm := by
  obtain ⟨body, tail, rfl, hb, ht, hlen⟩ := hfrm.split
  have hb' : 24 ≤ body.length := hb
  have ht' : tail.length = 18 := ht
  by_cases hs : setup = .ok
  · subst hs
    refine ⟨_, _, _, vosAttachMmie_ok hb ht (by simpa [ht] using hlen), fun _ => ?_, nofun⟩
    refine ⟨num_vosIncreaseSeq hipn, mmieIpn_append (length_cmacCalcMic _ _), ?_⟩
    simp only [LongEnough, signed, length_append, length_unsigned, length_cmacCalcMic]
    simp only [frameHdrSize, mmieSize] at hlen ⊢
    omega
  · obtain ⟨frm', hfail⟩ := vosAttachMmie_fails aes igtk ipn keyId (body ++ tail) hs
    exact ⟨false, ipn, frm', hfail, nofun, fun _ => rfl⟩

/-- **Receiving a signed frame** is right exactly when the orders agree. -/
theorem receiveRight_iff {frm' : List UInt8} {ipn' : Ipn} (hfrm : LongEnough frm)
    (ha : vosAttachMmie aes .ok igtk ipn keyId frm frm.length = some (true, ipn', frm')) :
    ReceiveRight aes igtk r frm' ↔ IpnAgree (mmieIpn frm') r := by
  obtain ⟨body, tail, rfl, hb, ht, hlen⟩ := hfrm.split
  rw [vosAttachMmie_ok hb ht (by simpa [ht] using hlen)] at ha
  cases ha
  have hmic := length_cmacCalcMic (aes igtk) (signedInput (unsigned body keyId (vosIncreaseSeq ipn)))
  have hipn : mmieIpn (signed aes igtk (unsigned body keyId (vosIncreaseSeq ipn))) =
      vosIncreaseSeq ipn := mmieIpn_append hmic
  rw [ipnAgree_iff]
  constructor
  · intro h
    constructor
    · intro hcmp
      -- it is accepted, and so its number is higher
      by_contra hle
      have hrej := h.rejects (Nat.le_of_not_lt hle) .ok
      rw [hipn] at hcmp
      rw [vosIsMmieValid_signed hb hlen hcmp] at hrej
      cases hrej
    · intro hlt
      rcases vosIsMmieValid_cases (h.accepts hlt) with ⟨h, -⟩ | ⟨-, -, hcmp⟩
      · cases h
      · exact hcmp
  · intro h
    refine ⟨fun hlt => ?_, fun hle setup => ?_⟩
    · have hcmp := h.2 hlt
      rw [hipn] at hcmp ⊢
      exact vosIsMmieValid_signed hb hlen hcmp
    · exact vosIsMmieValid_replay setup (Int.not_lt.1 fun hcmp => absurd (h.1 hcmp) (not_lt.2 hle))

/-- The accepted frames have rising numbers, up to the receiver's. -/
structure AcceptedOnce (s : MmieLink) : Prop where
  rising : s.accepted.Pairwise fun f g => (mmieIpn f).num < (mmieIpn g).num
  below : ∀ f ∈ s.accepted, (mmieIpn f).num ≤ s.received.num

theorem AcceptedOnce.step {s s' : MmieLink} (h : AcceptedOnce s) {e : MmieEvent}
    (hok : MmieEventOk s e) (hs : mmieStep aes igtk s e = some s') : AcceptedOnce s' := by
  cases e with
  | attach setup keyId frm =>
    simp only [mmieStep, bind_eq_bind, bind_eq_some_iff] at hs
    obtain ⟨⟨success, sent, frm'⟩, -, hs⟩ := hs
    cases hs
    exact ⟨h.rising, h.below⟩
  | deliver setup frm =>
    simp only [mmieStep, bind_eq_bind, bind_eq_some_iff] at hs
    obtain ⟨⟨valid, received⟩, hv, hs⟩ := hs
    cases hs
    rcases vosIsMmieValid_cases hv with ⟨rfl, rfl⟩ | ⟨rfl, rfl, hcmp⟩
    · exact ⟨h.rising, h.below⟩
    · have hlt : s.received.num < (mmieIpn frm).num := (ipnAgree_iff.1 hok).1 hcmp
      refine ⟨?_, fun f hf => ?_⟩
      · refine List.pairwise_append.2 ⟨h.rising, List.pairwise_singleton _ _, fun f hf g hg => ?_⟩
        rw [List.mem_singleton.1 hg]
        exact (h.below f hf).trans_lt hlt
      · rcases List.mem_append.1 hf with hf | hf
        · exact (h.below f hf).trans hlt.le
        · rw [List.mem_singleton.1 hf]

end Runs

/-- **A frame is accepted once** where the two orders of its IPN and the receiver's agree: attaching is right always; receiving a signed frame is right exactly then, and any other frame whose IPN is not higher is rejected then; and in a run in which every frame that arrives meets it, no frame is accepted twice, nor any after one of a higher IPN. -/
theorem mmie_iff (aes : AesCipher) (igtk : List UInt8) :
    (∀ setup ipn keyId frm, ipn.num < 2 ^ 48 - 1 → LongEnough frm →
      AttachRight aes igtk setup ipn keyId frm ∧
        ∀ ipn' frm', vosAttachMmie aes setup igtk ipn keyId frm frm.length =
            some (true, ipn', frm') →
          ∀ r, ReceiveRight aes igtk r frm' ↔ IpnAgree (mmieIpn frm') r) ∧
    (∀ setup r frm, IpnAgree (mmieIpn frm) r → (mmieIpn frm).num ≤ r.num →
      vosIsMmieValid aes setup igtk r frm = some (false, r)) ∧
    ∀ s, (mmieMachine aes igtk).Reach MmieEventOk s →
      s.accepted.Nodup ∧ s.accepted.Pairwise fun f g => (mmieIpn f).num < (mmieIpn g).num := by
  refine ⟨fun setup ipn keyId frm hipn hfrm => ⟨attachRight setup hipn hfrm, ?_⟩,
    fun setup r frm hagree hle => vosIsMmieValid_replay setup ?_, fun s t => ?_⟩
  · intro ipn' frm' ha r
    by_cases hs : setup = .ok
    · subst hs
      exact receiveRight_iff hfrm ha
    · obtain ⟨frm'', hfail⟩ := vosAttachMmie_fails aes igtk ipn keyId frm hs
      rw [hfail] at ha
      cases ha
  · exact Int.not_lt.1 fun hcmp => absurd ((ipnAgree_iff.1 hagree).1 hcmp) (not_lt.2 hle)
  · have hinv : AcceptedOnce s := by
      refine t.invariant AcceptedOnce (fun s h => ?_) fun s e s' h hok => h.step hok
      have h : s.accepted = [] := h
      exact ⟨by simp [h], by simp [h]⟩
    exact ⟨hinv.rising.imp fun h => ne_of_apply_ne (fun f => (mmieIpn f).num) h.ne, hinv.rising⟩

/-! ### Two links -/

def ipnOf (n : Nat) : Ipn := ⟨(toLittleEndian 6 n).toArray, by simp⟩

/-- A frame of a header, no body and room for the MMIE. -/
def blankFrame : List UInt8 := List.replicate 42 0

theorem blankFrame_longEnough : LongEnough blankFrame := by
  simp [LongEnough, blankFrame, frameHdrSize, mmieSize]

/-- The number 256 is above 255, but its first byte is 0: whatever the cipher is, the frame is rejected. -/
theorem carry_rejects_frame : ¬ ∃ (aes : AesCipher) (igtk : List UInt8), ∀ ipn' frm',
    vosAttachMmie aes .ok igtk (ipnOf 255) 4 blankFrame 42 = some (true, ipn', frm') →
      ReceiveRight aes igtk (ipnOf 255) frm' := by
  rintro ⟨aes, igtk, h⟩
  obtain ⟨body, tail, heq, hb, ht, hlen⟩ := blankFrame_longEnough.split
  have hlen' : (body ++ tail).length < 2 ^ 16 := by simpa [ht] using hlen
  have hcarry : vosIncreaseSeq (ipnOf 255) = ipnOf 256 := by decide
  have ha : vosAttachMmie aes .ok igtk (ipnOf 255) 4 blankFrame 42 = some (true, ipnOf 256,
      signed aes igtk (unsigned body 4 (ipnOf 256))) := by
    rw [← hcarry, ← vosAttachMmie_ok hb ht hlen', ← heq]
    rfl
  have hipn : mmieIpn (signed aes igtk (unsigned body 4 (ipnOf 256))) = ipnOf 256 :=
    mmieIpn_append (length_cmacCalcMic _ _)
  have hagree := (receiveRight_iff blankFrame_longEnough ha).1 (h _ _ ha)
  rw [hipn] at hagree
  exact absurd hagree (by decide)

def xorCipher : AesCipher := fun key block => xor128 block (blockAt key 0)

/-- What the sender of the IPN 5 makes of the blank frame. -/
def sixthFrame : List UInt8 :=
  match vosAttachMmie xorCipher .ok [1, 2, 3] (ipnOf 5) 4 blankFrame 42 with
  | some (_, _, frm) => frm
  | none => []

def arrivesTwice : List MmieEvent :=
  [.attach .ok 4 blankFrame, .deliver .ok sixthFrame, .deliver .ok sixthFrame]

theorem mmie_iff_arrivesTwice : ∃ s,
    (mmieMachine xorCipher [1, 2, 3]).run ⟨ipnOf 5, ipnOf 5, []⟩ arrivesTwice = some s ∧
      s.accepted = [sixthFrame] ∧ s.received = ipnOf 6 ∧ s.accepted.Nodup := by
  have hinit : (mmieMachine xorCipher [1, 2, 3]).init ⟨ipnOf 5, ipnOf 5, []⟩ := rfl
  exact Machine.exists_reach_of (q := fun s => s.accepted = [sixthFrame] ∧ s.received = ipnOf 6)
    hinit (by decide +kernel) (by decide +kernel) fun s hr ha =>
      ⟨ha.1, ha.2, ((mmie_iff xorCipher [1, 2, 3]).2.2 s hr).1⟩

end Qcacld.Vos

import Mathlib.Algebra.Group.Nat.Defs
import Qcacld.Support.Bytes
import Qcacld.Support.Elements

/-!
# Sch — SchBeaconGen

The beacon of a session.  `schSetFixedBeaconFields` packs what is before the TIM into one buffer and what is behind it into another, and puts the additional IEs behind the latter; when the beacon is due, `schProcessPreBeaconInd` puts the TIM and the second buffer behind the first.  A NoA stream goes behind the additional IEs, and is counted in the length of the first P2P IE there.

All accesses to the buffers are checked: an access outside of one has no result.  `beacon_iff` says for which inputs the beacon stays in bounds, its IEs remain whole, and its P2P IE is found.
-/

namespace Qcacld.Sch
open Qcacld.Support Function List Option Nat

def schMaxBeaconSize : Nat := 512
def wniCfgProbeRspBcnAddnieDataLen : Nat := 255
def sirMacEidVendor : UInt8 := 0xDD
def sirMacTimEid : UInt8 := 5
def timIeSize : Nat := 7

/-- `sizeof(tAniBeaconStruct)`: the length and the header. -/
def sizeofAniBeaconStruct : Nat := 28

/-- `P2pOui`, `SIR_MAC_P2P_OUI` -/
def p2pOui : List UInt8 := [0x50, 0x6F, 0x9A, 0x09]

/-! ### The P2P IE -/

/-- `cfg_get_vendor_ie_ptr_from_oui` in the bytes `ie`, which begin at `ptr`: where the IE is. -/
def cfgGetVendorIePtrFromOui (oui : List UInt8) (ie : List UInt8) (ptr : Nat) : Option Nat :=
  match ie with
  | elemId :: elemLen :: rest =>
    if rest.length < elemLen.toNat then none
    else if elemId = sirMacEidVendor ∧ oui.length ≤ elemLen.toNat ∧ rest.take oui.length = oui then
      some ptr
    else cfgGetVendorIePtrFromOui oui (rest.drop elemLen.toNat) (ptr + (elemLen.toNat + 2))
  | _ => none
termination_by ie.length
decreasing_by
  simp only [List.length_drop, List.length_cons]
  omega

def limGetP2pIEPtr (ie : List UInt8) : Option Nat := cfgGetVendorIePtrFromOui p2pOui ie 0

/-- Whether there is a P2P IE at `i`, to `schGetP2pIeOffset`. -/
def p2pAt (pExtraIe : List UInt8) (i : Nat) : Option Bool := do
  let x ← pExtraIe[i]?
  if x = sirMacEidVendor then
    let oui ← load pExtraIe (i + 2) 4
    return oui = p2pOui
  else return false

/-- The loop of `schGetP2pIeOffset`: whether it succeeds, and the offset it leaves. -/
def schGetP2pIeOffset (pExtraIe : List UInt8) : Nat → Nat → Option (Bool × Nat)
  | 0, p2pIeOffset => some (false, p2pIeOffset)
  | extraIeLen + 1, p2pIeOffset => do
    if ← p2pAt pExtraIe p2pIeOffset then return (true, p2pIeOffset)
    else schGetP2pIeOffset pExtraIe extraIeLen (p2pIeOffset + 1)

/-! ### The buffers -/

/-- The state of a session, and of `schObject`, that is about the beacon. -/
structure PESession where
  pSchBeaconFrameBegin : List UInt8
  pSchBeaconFrameEnd : List UInt8
  schBeaconOffsetBegin : Nat
  schBeaconOffsetEnd : Nat
  p2pIeOffset : Nat
  fBeaconChanged : Bool

/-- What goes into a beacon: the addresses, what `dot11fPackBeacon1` and `dot11fPackBeacon2` write into the room they are given, the additional IEs, and what `limGetNoaAttrStream` writes. -/
structure BeaconFields where
  selfMacAddr : List UInt8
  bssId : List UInt8
  beacon1 : List UInt8
  beacon2 : List UInt8
  addnIe : List UInt8
  noaStream : List UInt8
  beaconOffload : Bool
  selfMacAddr_length : selfMacAddr.length = 6
  bssId_length : bssId.length = 6
  beacon1_le : beacon1.length ≤ schMaxBeaconSize - sizeofAniBeaconStruct
  beacon2_le : beacon2.length ≤ schMaxBeaconSize
  whole : Element.Whole addnIe

/-- `macHdr`: a beacon, to all -/
def macHdr (f : BeaconFields) : List UInt8 :=
  [0x80, 0, 0, 0] ++ List.replicate 6 0xff ++ f.selfMacAddr ++ f.bssId ++ [0, 0]

/-- Whether `schAppendAddnIE` puts the NoA stream in, for the P2P IE at `pP2pIe`. -/
def noaFits (f : BeaconFields) : Bool :=
  !f.beaconOffload && f.noaStream.length != 0 &&
    decide (f.noaStream.length + f.addnIe.length ≤ wniCfgProbeRspBcnAddnieDataLen)

/-- The bytes of `addIE` that are in use when `schAppendAddnIE` copies them into the frame. -/
def addIE (f : BeaconFields) : List UInt8 :=
  match limGetP2pIEPtr f.addnIe with
  | some pP2pIe =>
    if noaFits f then
      patch f.addnIe (pP2pIe + 1)
        [f.addnIe.getD (pP2pIe + 1) 0 + UInt8.ofNat f.noaStream.length] ++ f.noaStream
    else f.addnIe
  | none => f.addnIe

/-- `schAppendAddnIE`: the frame, and `nBytes` -/
def schAppendAddnIE (f : BeaconFields) (pFrame : List UInt8) (maxBeaconSize nBytes : Nat) :
    Option (List UInt8 × Nat) :=
  if f.addnIe.length ≤ wniCfgProbeRspBcnAddnieDataLen ∧ f.addnIe.length ≠ 0 ∧
      f.addnIe.length + nBytes ≤ maxBeaconSize then
    if (addIE f).length ≤ wniCfgProbeRspBcnAddnieDataLen then do
      let pFrame ← store pFrame nBytes (addIE f)
      return (pFrame, nBytes + (addIE f).length)
    else some (pFrame, nBytes)
  else some (pFrame, nBytes)

/-- The additional IEs, if there are any, behind the second half. -/
def appendIfAny (f : BeaconFields) (pFrame : List UInt8) (nBytes : Nat) :
    Option (List UInt8 × Nat) :=
  if 0 < f.addnIe.length then schAppendAddnIE f pFrame schMaxBeaconSize nBytes
  else some (pFrame, nBytes)

def schSetFixedBeaconFields (s : PESession) (f : BeaconFields) : Option PESession := do
  let offset := sizeofAniBeaconStruct
  let frameBegin ← store s.pSchBeaconFrameBegin 4 (macHdr f)
  let frameBegin ← store frameBegin offset f.beacon1
  let frameEnd ← store s.pSchBeaconFrameEnd 0 f.beacon2
  let extraIeOffset := f.beacon2.length
  let (frameEnd, nBytes) ← appendIfAny f frameEnd extraIeOffset
  let (found, p2pIeOffset) ← schGetP2pIeOffset (frameEnd.drop extraIeOffset)
    (nBytes - extraIeOffset) 0
  return {
    pSchBeaconFrameBegin := frameBegin
    pSchBeaconFrameEnd := frameEnd
    schBeaconOffsetBegin := offset + f.beacon1.length
    schBeaconOffsetEnd := nBytes
    p2pIeOffset := if found then offset + f.beacon1.length + timIeSize + extraIeOffset + p2pIeOffset
      else 0
    fBeaconChanged := true }

/-! ### When the beacon is due -/

inductive LimSystemRole where
  | ap
  | ibss
  | other
deriving DecidableEq

/-- What `schProcessPreBeaconInd` finds: the role, that of an IBSS standing for those of BT-AMP too, whether the session is in the normal state and its own, and how many stations there may be. -/
structure PreBeaconInd where
  role : LimSystemRole
  smeNormal : Bool
  staEntrySelf : Bool
  halNumSta : Nat
  dtimPeriod : UInt8

/-- `timLength`: the bitmap begins at its first byte. -/
def timLength (halNumSta : Nat) : Nat := halNumSta / 8 % 256 + 4

/-- `pmmGenerateTIM`, which leaves room for the bitmap -/
def pmmGenerateTIM (frame : List UInt8) (ptr halNumSta : Nat) (dtimPeriod : UInt8) :
    Option (List UInt8) :=
  store frame ptr [sirMacTimEid, UInt8.ofNat (timLength halNumSta), 0xFF, dtimPeriod, 0xFF]

/-- The loop of `writeBeaconToMemory`: the 16-bit variable `size`, and the frame. -/
def joinLoop (src : List UInt8) : Nat → Nat → Nat → List UInt8 → Option (Nat × List UInt8)
  | 0, _, size, dest => some (size, dest)
  | n + 1, i, size, dest => do
    let x ← src[i]?
    let dest ← store dest size [x]
    joinLoop src n (i + 1) ((size + 1) % 2 ^ 16) dest

/-- `schSendBeaconReq`: the copy that is kept of the beacon, if the offset of the P2P IE is not refused -/
def schSendBeaconReq (s : PESession) (size : Nat) : Option (Option (List UInt8)) :=
  if s.p2pIeOffset ≠ 0 ∧ s.p2pIeOffset < s.schBeaconOffsetBegin then some none
  else (load s.pSchBeaconFrameBegin 0 size).map some

/-- The copy of the second buffer behind the first, only made if `length` is not 0. -/
def joinEnd (s : PESession) (size length : Nat) : Option (Nat × List UInt8) :=
  if 0 < length then joinLoop s.pSchBeaconFrameEnd s.schBeaconOffsetEnd 0 size s.pSchBeaconFrameBegin
  else some (size, s.pSchBeaconFrameBegin)

/-- `writeBeaconToMemory`, and what is sent -/
def writeBeaconToMemory (s : PESession) (size length : Nat) :
    Option (PESession × Option (List UInt8)) := do
  let (size, frame) ← joinEnd s size length
  let beaconLength := if length = 0 then 0 else size - 4
  let size := if length = 0 then 4 else size
  let frame ← store frame 0 (toLittleEndian 4 beaconLength)
  let s := { s with pSchBeaconFrameBegin := frame }
  if s.fBeaconChanged then
    let sent ← schSendBeaconReq s ((size + 3) / 4 * 4)
    return ({ s with fBeaconChanged := false }, sent)
  else return (s, none)

def schProcessPreBeaconInd (s : PESession) (ind : PreBeaconInd) :
    Option (PESession × Option (List UInt8)) :=
  if !ind.smeNormal || !ind.staEntrySelf then some (s, none)
  else
    match ind.role with
    | .ibss => writeBeaconToMemory s s.schBeaconOffsetBegin s.schBeaconOffsetBegin
    | .ap => do
      let frame ← pmmGenerateTIM s.pSchBeaconFrameBegin s.schBeaconOffsetBegin ind.halNumSta
        ind.dtimPeriod
      let beaconSize := (s.schBeaconOffsetBegin + (2 + timLength ind.halNumSta)) % 2 ^ 16
      writeBeaconToMemory { s with pSchBeaconFrameBegin := frame } beaconSize beaconSize
    | .other => some (s, none)

/-! ### What is to hold -/

def IsVendor (oui : List UInt8) (e : Element) : Bool :=
  e.id == sirMacEidVendor && decide (oui.length ≤ e.data.length) && e.data.take oui.length == oui

def IsP2p (e : Element) : Bool := IsVendor p2pOui e

/-- Whether `schAppendAddnIE` appends anything. -/
def Appends (f : BeaconFields) : Prop :=
  f.addnIe.length ≤ wniCfgProbeRspBcnAddnieDataLen ∧ f.addnIe.length ≠ 0 ∧
    f.addnIe.length + f.beacon2.length ≤ schMaxBeaconSize
deriving Decidable

def appended (f : BeaconFields) : List UInt8 := if Appends f then addIE f else []

/-- The NoA stream is put in, and counted in the P2P IE at `k`. -/
def NoaAt (f : BeaconFields) (k : Nat) : Prop :=
  Appends f ∧ noaFits f = true ∧ limGetP2pIEPtr f.addnIe = some k

/-- The NoA stream lies inside the IE that starts at `k`. -/
def StreamInside (f : BeaconFields) (k : Nat) : Prop :=
  ∃ pre e post, appended f = Element.encode (pre ++ e :: post) ∧ k = (Element.encode pre).length ∧
    k + 2 ≤ f.addnIe.length ∧ (appended f).length ≤ k + e.bytes.length

/-- **What is to hold of a beacon.**  No buffer is left while it is built and sent; the appended IEs are whole, with the NoA stream inside the P2P IE it is counted in; and the P2P IE is looked for inside them, and is the first if there is one. -/
structure BeaconRight (s : PESession) (f : BeaconFields) (ind : PreBeaconInd) : Prop where
  inBounds : ∃ s', schSetFixedBeaconFields s f = some s' ∧
    slice s'.pSchBeaconFrameEnd f.beacon2.length (s'.schBeaconOffsetEnd - f.beacon2.length)
      = appended f ∧
    ∃ r, schProcessPreBeaconInd s' ind = some r ∧ ∀ sent ∈ r.2, sent.length ≤ schMaxBeaconSize
  whole : Element.Whole (appended f)
  stream : ∀ k, NoaAt f k → StreamInside f k
  offset : ∃ r, schGetP2pIeOffset (appended f) (appended f).length 0 = some r ∧
    (r.1 = true → Element.FirstAt IsP2p (appended f) r.2)

/-! ### The condition -/

def PreBeaconInd.timSize (ind : PreBeaconInd) : Nat :=
  if ind.role = .ap then 2 + timLength ind.halNumSta else 0

def PreBeaconInd.Joins (ind : PreBeaconInd) : Prop :=
  ind.smeNormal = true ∧ ind.staEntrySelf = true ∧ ind.role ≠ .other

/-- A byte at which the search for the P2P IE ends, or reads past the IEs. -/
def Hit (b : List UInt8) (k : Nat) : Prop :=
  b[k]? = some sirMacEidVendor ∧ (b.length < k + 6 ∨ slice b (k + 2) 4 = p2pOui)

/-- An IE of at least four bytes starts at `k`. -/
def StartsAt (b : List UInt8) (k : Nat) : Prop :=
  ∃ pre e post, b = Element.encode (pre ++ e :: post) ∧ k = (Element.encode pre).length ∧
    4 ≤ e.data.length

/-- **The condition on a beacon.**  The additional IEs fit behind the second half, with the NoA stream too; all of it fits one buffer with the TIM; the P2P IE in which the stream is counted is the last one; and the first byte `0xDD` that has the P2P OUI one byte behind it, or less than five bytes, is the start of an IE of at least four. -/
structure BeaconOk (f : BeaconFields) (ind : PreBeaconInd) : Prop where
  endFits : f.beacon2.length + (appended f).length ≤ schMaxBeaconSize
  beginFits : ind.Joins → sizeofAniBeaconStruct + f.beacon1.length + ind.timSize
    + f.beacon2.length + (appended f).length ≤ schMaxBeaconSize
  lastP2p : ∀ k, NoaAt f k → k + 2 + (f.addnIe.getD (k + 1) 0).toNat = f.addnIe.length
  scan : ∀ k, Hit (appended f) k → (∀ j < k, ¬Hit (appended f) j) → StartsAt (appended f) k

/-! ### The P2P IE of a sequence -/

section
variable {f : BeaconFields} {b c oui : List UInt8} {e : Element} {es pre post : List Element}
  {i j k n ptr : Nat}

theorem isVendor_iff : IsVendor oui e = true ↔
    e.id = sirMacEidVendor ∧ oui.length ≤ e.data.length ∧ e.data.take oui.length = oui := by
  simp [IsVendor, and_assoc]

/-- **The search by elements** finds the first IE of a vendor. -/
theorem cfgGetVendorIePtrFromOui_encode : cfgGetVendorIePtrFromOui oui (Element.encode es) ptr =
      (Element.startOf (IsVendor oui) es).map (· + ptr) := by
  induction es generalizing ptr with
  | nil =>
    rw [Element.encode_nil, cfgGetVendorIePtrFromOui]
    · rfl
    · exact fun _ _ _ h => cons_ne_nil _ _ h.symm
  | cons e es ih =>
    have hdrop : (e.data ++ Element.encode es).drop e.data.length = Element.encode es :=
      drop_left
    have hroom : ¬(e.data ++ Element.encode es).length < e.data.length := by
      rw [length_append]
      omega
    have hvendor : (e.id = sirMacEidVendor ∧ oui.length ≤ e.data.length ∧
        (e.data ++ Element.encode es).take oui.length = oui) ↔ IsVendor oui e = true := by
      rw [isVendor_iff]
      refine and_congr_right' (and_congr_right fun hle => ?_)
      rw [take_append_of_le_length hle]
    change cfgGetVendorIePtrFromOui oui
      (e.id :: UInt8.ofNat e.data.length :: (e.data ++ Element.encode es)) ptr = _
    rw [cfgGetVendorIePtrFromOui, e.toNat_length, if_neg hroom, hdrop, Element.startOf]
    by_cases h : IsVendor oui e = true
    · rw [if_pos (hvendor.2 h), if_pos h, map_some, zero_add]
    · rw [if_neg (mt hvendor.1 h), if_neg h, ih, Option.map_map]
      congr 1
      funext j
      rw [comp_apply, Element.length_bytes]
      omega

theorem limGetP2pIEPtr_eq_some (h : limGetP2pIEPtr f.addnIe = some k) :
    ∃ pre e post, f.addnIe = Element.encode (pre ++ e :: post) ∧ k = (Element.encode pre).length ∧
      IsP2p e = true := by
  obtain ⟨es, hes⟩ := f.whole
  rw [← hes, limGetP2pIEPtr, cfgGetVendorIePtrFromOui_encode] at h
  obtain ⟨j, hj, rfl⟩ := map_eq_some_iff.1 h
  obtain ⟨pre, e, post, rfl, rfl, hp, -⟩ := Element.startOf_eq_some hj
  exact ⟨pre, e, post, hes.symm, rfl, hp⟩

/-! ### The NoA stream -/

theorem addIE_of_noa (hfits : noaFits f = true) (h : limGetP2pIEPtr f.addnIe = some k) :
    addIE f = patch f.addnIe (k + 1) [f.addnIe.getD (k + 1) 0 + UInt8.ofNat f.noaStream.length]
      ++ f.noaStream := by
  rw [addIE, h]
  exact if_pos hfits

theorem noaFits_iff : noaFits f = true ↔ f.beaconOffload = false ∧ f.noaStream.length ≠ 0 ∧
    f.noaStream.length + f.addnIe.length ≤ wniCfgProbeRspBcnAddnieDataLen := by
  simp [noaFits, and_assoc]

theorem addIE_cases (f : BeaconFields) : addIE f = f.addnIe ∨
    ∃ k, noaFits f = true ∧ limGetP2pIEPtr f.addnIe = some k := by
  rw [addIE]
  cases h : limGetP2pIEPtr f.addnIe with
  | none => exact .inl rfl
  | some k =>
    by_cases hfits : noaFits f = true
    · exact .inr ⟨k, hfits, rfl⟩
    · exact .inl (if_neg hfits)

theorem encode_split : Element.encode (pre ++ e :: post) =
    Element.encode pre ++ e.id :: UInt8.ofNat e.data.length :: (e.data ++ Element.encode post) := by
  rw [Element.encode_append, Element.encode_cons]
  rfl

theorem getD_length : (Element.encode (pre ++ e :: post)).getD ((Element.encode pre).length + 1) 0
    = UInt8.ofNat e.data.length := by
  rw [encode_split, getD_eq_getElem?_getD, getElem?_append_right (le_add_right _ 1),
    Nat.add_sub_cancel_left]
  rfl

theorem patch_length {x : UInt8} : patch (Element.encode (pre ++ e :: post))
    ((Element.encode pre).length + 1) [x] =
      Element.encode pre ++ e.id :: x :: (e.data ++ Element.encode post) := by
  have htake : (Element.encode pre ++ [e.id]).length = (Element.encode pre).length + 1 := by
    rw [length_append]
    rfl
  have hsplit : Element.encode (pre ++ e :: post) = (Element.encode pre ++ [e.id]) ++
      UInt8.ofNat e.data.length :: (e.data ++ Element.encode post) := by
    rw [encode_split, append_assoc]
    rfl
  rw [hsplit, patch, take_left' htake, ← drop_drop, drop_left' htake]
  simp

theorem length_encode_split : (Element.encode (pre ++ e :: post)).length =
    (Element.encode pre).length + 2 + e.data.length + (Element.encode post).length := by
  rw [encode_split]
  simp only [length_append, length_cons]
  omega

theorem noaAt_split (h : NoaAt f k) : ∃ pre e post, f.addnIe = Element.encode (pre ++ e :: post) ∧
    k = (Element.encode pre).length ∧
    appended f = Element.encode pre ++ e.id ::
      (UInt8.ofNat e.data.length + UInt8.ofNat f.noaStream.length) ::
        (e.data ++ Element.encode post) ++ f.noaStream := by
  obtain ⟨happ, hfits, hptr⟩ := h
  obtain ⟨pre, e, post, hie, rfl, -⟩ := limGetP2pIEPtr_eq_some hptr
  refine ⟨pre, e, post, hie, rfl, ?_⟩
  rw [appended, if_pos happ, addIE_of_noa hfits hptr, hie, getD_length, patch_length]

/-- **The stream is inside** the P2P IE just if this is the last one. -/
theorem stream_iff (h : NoaAt f k) : StreamInside f k ↔
    k + 2 + (f.addnIe.getD (k + 1) 0).toNat = f.addnIe.length := by
  obtain ⟨-, -, hmax⟩ := noaFits_iff.1 h.2.1
  obtain ⟨pre, e, post, hie, rfl, happ⟩ := noaAt_split h
  have hlen : f.addnIe.length = (Element.encode pre).length + 2 + e.data.length
      + (Element.encode post).length := by rw [hie, length_encode_split]
  have hbyte : (f.addnIe.getD ((Element.encode pre).length + 1) 0).toNat = e.data.length := by
    rw [hie, getD_length, e.toNat_length]
  have hsum : e.data.length + f.noaStream.length < 256 := by
    rw [wniCfgProbeRspBcnAddnieDataLen] at hmax
    omega
  rw [hbyte]
  constructor
  · rintro ⟨pre', e', post', happ', hk, -, hlast⟩
    have hcell : e'.data.length = e.data.length + f.noaStream.length := by
      have h' := congrArg (fun b : List UInt8 => b.getD ((Element.encode pre).length + 1) 0)
        (happ.symm.trans happ')
      rw [hk, getD_length, ← hk, append_assoc, getD_eq_getElem?_getD,
        getElem?_append_right (Nat.le_add_right _ 1), Nat.add_sub_cancel_left] at h'
      have h'' := congrArg UInt8.toNat h'
      rw [e'.toNat_length] at h''
      refine h''.symm.trans ?_
      change (UInt8.ofNat e.data.length + UInt8.ofNat f.noaStream.length).toNat = _
      rw [← UInt8.ofNat_add, UInt8.toNat_ofNat_of_lt' hsum]
    have htotal : (appended f).length = f.addnIe.length + f.noaStream.length := by
      rw [happ, hlen]
      simp only [length_append, length_cons]
      omega
    rw [Element.length_bytes] at hlast
    omega
  · intro hlast
    have hpost : Element.encode post = [] := length_eq_zero_iff.1 (by omega)
    refine ⟨pre, ⟨e.id, e.data ++ f.noaStream, by rw [length_append]; exact hsum⟩, [], ?_, rfl,
      by omega, ?_⟩
    · rw [happ, encode_split, hpost]
      simp
    · rw [happ, hpost]
      simp only [Element.length_bytes, length_append, length_cons, length_nil]
      omega

theorem whole_appended (h : ∀ k, NoaAt f k → StreamInside f k) : Element.Whole (appended f) := by
  by_cases happ : Appends f
  · rcases addIE_cases f with hsame | ⟨k, hfits, hptr⟩
    · rw [appended, if_pos happ, hsame]
      exact f.whole
    · obtain ⟨pre, e, post, heq, -⟩ := h k ⟨happ, hfits, hptr⟩
      exact ⟨pre ++ e :: post, heq.symm⟩
  · rw [appended, if_neg happ]
    exact ⟨[], rfl⟩

/-! ### The search by bytes -/

theorem p2pAt_of_not_hit (hi : i < b.length) (h : ¬Hit b i) : p2pAt b i = some false := by
  rw [p2pAt, getElem?_eq_getElem hi]
  dsimp only [bind_eq_bind, bind_some]
  split
  · next heq =>
    have hmiss := not_and.1 h (by rw [getElem?_eq_getElem hi, heq])
    obtain ⟨hroom, hne⟩ := not_or.1 hmiss
    rw [load_of_le (by omega), bind_some, decide_eq_false hne]
    rfl
  · rfl

theorem p2pAt_of_hit (h : Hit b i) : p2pAt b i = if i + 6 ≤ b.length then some true else none := by
  obtain ⟨hx, hend⟩ := h
  rw [p2pAt, hx]
  dsimp only [bind_eq_bind, bind_some]
  rw [if_pos rfl]
  split
  · next hroom =>
    rw [load_of_le (by omega), bind_some, decide_eq_true (hend.resolve_left (not_lt.2 hroom))]
    rfl
  · next hroom =>
    rw [load, if_neg (by omega)]
    rfl

theorem search_miss (hn : i + n = b.length) (h : ∀ j, i ≤ j → ¬Hit b j) :
    schGetP2pIeOffset b n i = some (false, b.length) := by
  induction n generalizing i with
  | zero => rw [schGetP2pIeOffset, ← hn, add_zero]
  | succ n ih =>
    rw [schGetP2pIeOffset, p2pAt_of_not_hit (by omega) (h i (le_refl i))]
    exact ih (by omega) fun j hj => h j (by omega)

theorem search_hit (hn : i + n = b.length) (hk : Hit b k) (hik : i ≤ k) (h : ∀ j < k, ¬Hit b j) :
    schGetP2pIeOffset b n i = if k + 6 ≤ b.length then some (true, k) else none := by
  have hlt : k < b.length := (List.getElem?_eq_some_iff.1 hk.1).1
  induction n generalizing i with
  | zero => omega
  | succ n ih =>
    rw [schGetP2pIeOffset]
    rcases eq_or_lt_of_le hik with rfl | hlt'
    · rw [p2pAt_of_hit hk]
      split <;> rfl
    · rw [p2pAt_of_not_hit (by omega) (h i hlt')]
      exact ih (by omega) (by omega)

theorem p2pAt_append {r : Bool} (h : p2pAt b i = some r) : p2pAt (b ++ c) i = some r := by
  obtain ⟨x, hx, h⟩ := bind_eq_some_iff.1 h
  have hi : i < b.length := (List.getElem?_eq_some_iff.1 hx).1
  rw [p2pAt, getElem?_append_left hi, hx]
  refine Eq.trans ?_ h
  dsimp only [bind_eq_bind, bind_some]
  split
  · next heq =>
    rw [if_pos heq] at h
    obtain ⟨oui, hload, -⟩ := bind_eq_some_iff.1 h
    obtain ⟨hroom, hslice⟩ := load_eq_some.1 hload
    have hlen : i + 2 + 4 ≤ (b ++ c).length := by
      rw [length_append]
      omega
    have hsame : slice (b ++ c) (i + 2) 4 = slice b (i + 2) 4 := by
      rw [slice, slice, drop_append_of_le_length (by omega),
        take_append_of_le_length (by rw [length_drop]; omega)]
    rw [load_of_le hroom, load_of_le hlen, hsame]
  · rfl

theorem search_append {r : Bool × Nat} (h : schGetP2pIeOffset b n i = some r) :
    schGetP2pIeOffset (b ++ c) n i = some r := by
  induction n generalizing i with
  | zero => exact h
  | succ n ih =>
    obtain ⟨found, hat, h⟩ := bind_eq_some_iff.1 h
    rw [schGetP2pIeOffset, p2pAt_append hat]
    refine Eq.trans ?_ h
    cases found with
    | true => rfl
    | false => exact (ih h).trans h.symm

theorem hit_of_isP2p (pre post : List Element) (h : IsP2p e = true) :
    Hit (Element.encode (pre ++ e :: post)) (Element.encode pre).length := by
  obtain ⟨hid, hlen, htake⟩ := isVendor_iff.1 h
  have hlen : 4 ≤ e.data.length := hlen
  refine ⟨?_, .inr ?_⟩
  · rw [encode_split, getElem?_append_right (Nat.le_refl _), Nat.sub_self, hid]
    rfl
  · rw [encode_split, slice, ← drop_drop, drop_left]
    change (e.data ++ Element.encode post).take 4 = p2pOui
    rw [take_append_of_le_length hlen]
    exact htake

theorem isP2p_of_hit (hlen : 4 ≤ e.data.length)
    (h : Hit (Element.encode (pre ++ e :: post)) (Element.encode pre).length) : IsP2p e = true := by
  obtain ⟨hx, hend⟩ := h
  have hoffs : (Element.encode (pre ++ e :: post)).length = (Element.encode pre).length + 2
      + e.data.length + (Element.encode post).length := length_encode_split
  have hslice := hend.resolve_left (by omega)
  rw [encode_split] at hx hslice
  rw [getElem?_append_right (Nat.le_refl _), Nat.sub_self] at hx
  rw [slice, ← drop_drop, drop_left] at hslice
  change (e.data ++ Element.encode post).take 4 = p2pOui at hslice
  rw [take_append_of_le_length hlen] at hslice
  exact isVendor_iff.2 ⟨some.inj hx, hlen, hslice⟩

/-- **The search finds** the P2P IE, and reads nothing behind the IEs, just if the first hit is where an IE starts. -/
theorem search_iff : (∃ r, schGetP2pIeOffset b b.length 0 = some r ∧
      (r.1 = true → Element.FirstAt IsP2p b r.2)) ↔
    ∀ k, Hit b k → (∀ j < k, ¬Hit b j) → StartsAt b k := by
  classical
  constructor
  · rintro ⟨r, hrun, hfirst⟩ k hk hmin
    rw [search_hit (zero_add _) hk (zero_le k) hmin] at hrun
    split at hrun
    · obtain rfl : (true, k) = r := some.inj hrun
      obtain ⟨pre, e, post, hb, hpos, hp, -⟩ := hfirst rfl
      exact ⟨pre, e, post, hb, hpos, (isVendor_iff.1 hp).2.1⟩
    · cases hrun
  · intro h
    by_cases hex : ∃ k, Hit b k
    · obtain ⟨k, hk, hmin⟩ : ∃ k, Hit b k ∧ ∀ j < k, ¬Hit b j :=
        ⟨Nat.find hex, Nat.find_spec hex, fun j hj => Nat.find_min hex hj⟩
      obtain ⟨pre, e, post, rfl, rfl, hlen⟩ := h k hk hmin
      have hroom : (Element.encode pre).length + 6 ≤ (Element.encode (pre ++ e :: post)).length := by
        rw [length_encode_split]
        omega
      refine ⟨(true, (Element.encode pre).length), ?_, fun _ => ⟨pre, e, post, rfl, rfl,
        isP2p_of_hit hlen hk, fun e' he' => ?_⟩⟩
      · rw [search_hit (zero_add _) hk (zero_le _) hmin, if_pos hroom]
      · by_contra hp
        obtain ⟨pre₁, pre₂, rfl⟩ := append_of_mem he'
        have hhit := hit_of_isP2p pre₁ (pre₂ ++ e :: post) (by simpa using hp)
        refine hmin _ ?_ (by simpa using hhit)
        rw [length_encode_split]
        omega
    · exact ⟨_, search_miss (zero_add _) fun j _ hj => hex ⟨j, hj⟩, fun hf => by cases hf⟩

/-! ### The buffers -/

variable {s s' : PESession} {ind : PreBeaconInd} {src dest d : List UInt8} {size maxBeaconSize : Nat}

theorem length_store {xs : List UInt8} (h : store b i xs = some c) : c.length = b.length := by
  obtain ⟨hle, rfl⟩ := store_eq_some.1 h
  exact length_patch hle

theorem length_addIE (hle : f.addnIe.length ≤ wniCfgProbeRspBcnAddnieDataLen) :
    (addIE f).length ≤ wniCfgProbeRspBcnAddnieDataLen := by
  rcases addIE_cases f with h | ⟨k, hfits, hptr⟩
  · rwa [h]
  · obtain ⟨-, -, hmax⟩ := noaFits_iff.1 hfits
    obtain ⟨pre, e, post, hie, rfl, -⟩ := limGetP2pIEPtr_eq_some hptr
    rw [addIE_of_noa hfits hptr, length_append, length_patch, add_comm]
    · exact hmax
    · rw [hie, length_encode_split, length_singleton]
      omega

/-- `schAppendAddnIE` writes the sequence behind the second half, if it fits. -/
theorem appendIfAny_eq (hn : f.beacon2.length ≤ b.length) :
    appendIfAny f b f.beacon2.length = (store b f.beacon2.length (appended f)).map fun b' =>
        (b', f.beacon2.length + (appended f).length) := by
  have hnone : store b f.beacon2.length [] = some b := by
    rw [store_of_le (by simpa using hn), patch_nil]
  rw [appendIfAny]
  by_cases happ : Appends f
  · obtain ⟨hle, hne, hmax⟩ := happ
    rw [if_pos (pos_of_ne_zero hne), schAppendAddnIE, if_pos ⟨hle, hne, hmax⟩,
      if_pos (length_addIE hle), appended, if_pos ⟨hle, hne, hmax⟩, map_eq_bind]
    rfl
  · rw [appended, if_neg happ, hnone]
    split
    · exact if_neg happ
    · rfl

theorem length_macHdr : (macHdr f).length = 24 := by
  simp [macHdr, f.selfMacAddr_length, f.bssId_length]

theorem drop_patch_self {xs : List UInt8} (h : i ≤ b.length) :
    (patch b i xs).drop i = xs ++ b.drop (i + xs.length) := by
  rw [patch, append_assoc, drop_left' (length_take_of_le h)]

/-- **Building the beacon**, where the additional IEs fit and are searched inside. -/
theorem schSetFixedBeaconFields_isSome (hb : s.pSchBeaconFrameBegin.length = schMaxBeaconSize)
    (he : s.pSchBeaconFrameEnd.length = schMaxBeaconSize)
    (hfits : f.beacon2.length + (appended f).length ≤ schMaxBeaconSize) {r : Bool × Nat}
    (hsearch : schGetP2pIeOffset (appended f) (appended f).length 0 = some r) :
    ∃ s', schSetFixedBeaconFields s f = some s' := by
  have hhdr : 4 + (macHdr f).length ≤ s.pSchBeaconFrameBegin.length := by
    rw [length_macHdr, hb]
    decide
  have hone : sizeofAniBeaconStruct + f.beacon1.length
      ≤ (patch s.pSchBeaconFrameBegin 4 (macHdr f)).length := by
    have hle := f.beacon1_le
    rw [length_patch hhdr, hb]
    rw [schMaxBeaconSize, sizeofAniBeaconStruct] at hle ⊢
    omega
  have htwo : 0 + f.beacon2.length ≤ s.pSchBeaconFrameEnd.length := by
    rw [he, zero_add]
    exact f.beacon2_le
  have hlen : (patch s.pSchBeaconFrameEnd 0 f.beacon2).length = schMaxBeaconSize := by
    rw [length_patch htwo, he]
  have hmem : (patch (patch s.pSchBeaconFrameEnd 0 f.beacon2) f.beacon2.length (appended f)).drop
      f.beacon2.length = appended f ++ (patch s.pSchBeaconFrameEnd 0 f.beacon2).drop
        (f.beacon2.length + (appended f).length) := drop_patch_self (by omega)
  rw [schSetFixedBeaconFields, store_of_le hhdr]
  dsimp only [bind_eq_bind, bind_some]
  rw [store_of_le hone]
  rw [store_of_le htwo]
  dsimp only [bind_some]
  rw [appendIfAny_eq (by omega), store_of_le (by omega)]
  dsimp only [map_some, bind_some]
  rw [Nat.add_sub_cancel_left, hmem, search_append hsearch]
  exact ⟨_, rfl⟩

structure Built (f : BeaconFields) (s' : PESession) : Prop where
  lengthBegin : s'.pSchBeaconFrameBegin.length = schMaxBeaconSize
  lengthEnd : s'.pSchBeaconFrameEnd.length = schMaxBeaconSize
  offsetBegin : s'.schBeaconOffsetBegin = sizeofAniBeaconStruct + f.beacon1.length
  offsetEnd : s'.schBeaconOffsetEnd = f.beacon2.length + (appended f).length
  endFits : f.beacon2.length + (appended f).length ≤ schMaxBeaconSize
  appended_eq : slice s'.pSchBeaconFrameEnd f.beacon2.length (appended f).length = appended f
  p2pIeOffset : s'.p2pIeOffset = 0 ∨ s'.schBeaconOffsetBegin ≤ s'.p2pIeOffset
  fBeaconChanged : s'.fBeaconChanged = true

theorem built_of_set (hb : s.pSchBeaconFrameBegin.length = schMaxBeaconSize)
    (he : s.pSchBeaconFrameEnd.length = schMaxBeaconSize)
    (h : schSetFixedBeaconFields s f = some s') : Built f s' := by
  obtain ⟨fb₁, h₁, h⟩ := bind_eq_some_iff.1 h
  obtain ⟨fb₂, h₂, h⟩ := bind_eq_some_iff.1 h
  obtain ⟨fe, h₃, h⟩ := bind_eq_some_iff.1 h
  obtain ⟨⟨fe', nBytes⟩, h₄, h⟩ := bind_eq_some_iff.1 h
  obtain ⟨⟨found, off⟩, h₅, h⟩ := bind_eq_some_iff.1 h
  obtain rfl := some.inj h
  have hfe : fe.length = schMaxBeaconSize := (length_store h₃).trans he
  rw [appendIfAny_eq (by rw [hfe]; exact f.beacon2_le)] at h₄
  obtain ⟨fe'', hstore, heq⟩ := map_eq_some_iff.1 h₄
  obtain ⟨rfl, rfl⟩ := Prod.mk.inj heq
  obtain ⟨hfits, hpatch⟩ := store_eq_some.1 hstore
  exact {
    lengthBegin := (length_store h₂).trans ((length_store h₁).trans hb)
    lengthEnd := (length_store hstore).trans hfe
    offsetBegin := rfl
    offsetEnd := rfl
    endFits := by rwa [hfe] at hfits
    appended_eq := by
      rw [← hpatch]
      exact slice_patch _ (by omega)
    p2pIeOffset := by
      dsimp only
      split
      · right
        omega
      · exact .inl rfl
    fBeaconChanged := rfl }

theorem joinLoop_of_le (hsrc : i + n ≤ src.length) (hdest : size + n ≤ dest.length)
    (hmax : dest.length < 2 ^ 16) :
    joinLoop src n i size dest = some (size + n, patch dest size (slice src i n)) := by
  induction n generalizing i size dest with
  | zero => rw [joinLoop, slice_zero, patch_nil, add_zero]
  | succ n ih =>
    obtain ⟨x, hx⟩ : ∃ x, src[i]? = some x := ⟨_, getElem?_eq_getElem (by omega)⟩
    have hone : size + [x].length ≤ dest.length := by
      rw [length_singleton]
      omega
    have hlen := length_patch hone
    rw [joinLoop, hx, slice_succ hx]
    dsimp only [bind_eq_bind, bind_some]
    rw [store_of_le hone]
    dsimp only [bind_some]
    rw [mod_eq_of_lt (by omega), ih (by omega) (by omega) (by omega), patch_cons (by omega),
      add_assoc, add_comm 1]

theorem joinLoop_some (hmax : size + n < 2 ^ 16) {r : Nat × List UInt8}
    (h : joinLoop src n i size dest = some r) : r.1 = size + n ∧ r.2.length = dest.length := by
  induction n generalizing i size dest with
  | zero =>
    obtain rfl := some.inj h
    exact ⟨rfl, rfl⟩
  | succ n ih =>
    obtain ⟨x, -, h⟩ := bind_eq_some_iff.1 h
    obtain ⟨dest', hstore, h⟩ := bind_eq_some_iff.1 h
    obtain ⟨hsize, hlen⟩ := ih (by rw [mod_eq_of_lt (by omega)]; omega) h
    rw [mod_eq_of_lt (by omega)] at hsize
    exact ⟨by rw [hsize]; omega, hlen.trans (length_store hstore)⟩

theorem schSendBeaconReq_eq (h : s.p2pIeOffset = 0 ∨ s.schBeaconOffsetBegin ≤ s.p2pIeOffset) :
    schSendBeaconReq s size = (load s.pSchBeaconFrameBegin 0 size).map some :=
  if_neg (by omega)

/-- **The beacon is put together** and sent just if it fits. -/
theorem writeBeaconToMemory_iff (hb : s.pSchBeaconFrameBegin.length = schMaxBeaconSize)
    (he : s.pSchBeaconFrameEnd.length = schMaxBeaconSize)
    (hend : s.schBeaconOffsetEnd ≤ schMaxBeaconSize) (hsize : 4 ≤ size) (hmax : size < 2 ^ 15)
    (hp2p : s.p2pIeOffset = 0 ∨ s.schBeaconOffsetBegin ≤ s.p2pIeOffset)
    (hchanged : s.fBeaconChanged = true) :
    (∃ r, writeBeaconToMemory s size size = some r ∧ ∀ sent ∈ r.2, sent.length ≤ schMaxBeaconSize) ↔
      size + s.schBeaconOffsetEnd ≤ schMaxBeaconSize := by
  have hround : ∀ l, (l + 3) / 4 * 4 ≤ schMaxBeaconSize ↔ l ≤ schMaxBeaconSize := by
    intro l
    rw [schMaxBeaconSize]
    omega
  have hjoin : joinEnd s size size =
      joinLoop s.pSchBeaconFrameEnd s.schBeaconOffsetEnd 0 size s.pSchBeaconFrameBegin :=
    if_pos (by omega)
  constructor
  · rintro ⟨r, h, -⟩
    obtain ⟨⟨size', d⟩, hloop, h⟩ := bind_eq_some_iff.1 h
    rw [hjoin] at hloop
    obtain ⟨rfl, hlen⟩ := joinLoop_some (by rw [schMaxBeaconSize] at hend; omega) hloop
    obtain ⟨frame, hstore, h⟩ := bind_eq_some_iff.1 h
    rw [if_pos hchanged] at h
    obtain ⟨sent, hsend, -⟩ := bind_eq_some_iff.1 h
    rw [schSendBeaconReq_eq (s := { s with pSchBeaconFrameBegin := frame }) hp2p] at hsend
    obtain ⟨copy, hload, -⟩ := map_eq_some_iff.1 hsend
    have hroom := (load_eq_some.1 hload).1
    have hframe : frame.length = schMaxBeaconSize :=
      (length_store hstore).trans (hlen.trans hb)
    rw [hframe, zero_add, if_neg (by omega), hround] at hroom
    exact hroom
  · intro hfits
    have hjoined : joinEnd s size size = some (size + s.schBeaconOffsetEnd,
        patch s.pSchBeaconFrameBegin size (slice s.pSchBeaconFrameEnd 0 s.schBeaconOffsetEnd)) := by
      rw [hjoin, joinLoop_of_le (by omega) (by omega) (by rw [hb]; decide)]
    have hslice : (slice s.pSchBeaconFrameEnd 0 s.schBeaconOffsetEnd).length
        = s.schBeaconOffsetEnd := length_slice (by omega)
    have hlen : (patch s.pSchBeaconFrameBegin size
        (slice s.pSchBeaconFrameEnd 0 s.schBeaconOffsetEnd)).length = schMaxBeaconSize := by
      rw [length_patch (by omega), hb]
    have hfour : 0 + (toLittleEndian 4 (size + s.schBeaconOffsetEnd - 4)).length
        ≤ schMaxBeaconSize := by
      rw [length_toLittleEndian]
      decide
    have hframe : (patch (patch s.pSchBeaconFrameBegin size
        (slice s.pSchBeaconFrameEnd 0 s.schBeaconOffsetEnd)) 0
          (toLittleEndian 4 (size + s.schBeaconOffsetEnd - 4))).length = schMaxBeaconSize := by
      rw [length_patch (by omega), hlen]
    have hroom : 0 + (size + s.schBeaconOffsetEnd + 3) / 4 * 4 ≤ (patch (patch
        s.pSchBeaconFrameBegin size (slice s.pSchBeaconFrameEnd 0 s.schBeaconOffsetEnd)) 0
          (toLittleEndian 4 (size + s.schBeaconOffsetEnd - 4))).length := by
      rw [hframe, zero_add, hround]
      exact hfits
    rw [writeBeaconToMemory, hjoined]
    dsimp only [bind_eq_bind, bind_some]
    rw [if_neg (by omega), if_neg (by omega), store_of_le (by omega)]
    dsimp only [bind_some]
    rw [if_pos hchanged, schSendBeaconReq_eq]
    · dsimp only
      rw [load_of_le hroom]
      refine ⟨_, rfl, ?_⟩
      rintro sent ⟨⟩
      rw [length_slice hroom, hround]
      exact hfits
    · exact hp2p

theorem timLength_le (halNumSta : Nat) : timLength halNumSta ≤ 259 := by
  rw [timLength]
  omega

/-- **When the beacon is due** it is put together and sent just if it fits. -/
theorem schProcessPreBeaconInd_iff (h : Built f s') :
    (∃ r, schProcessPreBeaconInd s' ind = some r ∧ ∀ sent ∈ r.2, sent.length ≤ schMaxBeaconSize) ↔
      (ind.Joins → sizeofAniBeaconStruct + f.beacon1.length + ind.timSize + f.beacon2.length
        + (appended f).length ≤ schMaxBeaconSize) := by
  have hend : s'.schBeaconOffsetEnd ≤ schMaxBeaconSize := by
    rw [h.offsetEnd]
    exact h.endFits
  have hone := f.beacon1_le
  have htim := timLength_le ind.halNumSta
  have hbegin : 28 ≤ s'.schBeaconOffsetBegin ∧ s'.schBeaconOffsetBegin ≤ 512 := by
    rw [h.offsetBegin]
    rw [schMaxBeaconSize, sizeofAniBeaconStruct] at hone
    rw [sizeofAniBeaconStruct]
    omega
  rw [schProcessPreBeaconInd]
  split
  · next hflags =>
    refine iff_of_true ⟨_, rfl, fun _ h => by cases h⟩ fun hj => ?_
    rw [hj.1, hj.2.1] at hflags
    cases hflags
  · next hflags =>
    have hself : ind.smeNormal = true ∧ ind.staEntrySelf = true := by simpa using hflags
    cases hrole : ind.role with
    | other =>
      exact iff_of_true ⟨_, rfl, fun _ h => by cases h⟩ fun hj => absurd hrole hj.2.2
    | ibss =>
      have hjoins : ind.Joins := ⟨hself.1, hself.2, by rw [hrole]; decide⟩
      have hsize : ind.timSize = 0 := by
        rw [PreBeaconInd.timSize, hrole]
        rfl
      refine (writeBeaconToMemory_iff h.lengthBegin h.lengthEnd hend (by omega) (by omega)
        h.p2pIeOffset h.fBeaconChanged).trans ?_
      rw [imp_iff_right hjoins, h.offsetBegin, h.offsetEnd, hsize]
      omega
    | ap =>
      have hjoins : ind.Joins := ⟨hself.1, hself.2, by rw [hrole]; decide⟩
      have hsize : ind.timSize = 2 + timLength ind.halNumSta := by
        rw [PreBeaconInd.timSize, hrole]
        rfl
      have htotal : (s'.schBeaconOffsetBegin + (2 + timLength ind.halNumSta)) % 2 ^ 16
          = s'.schBeaconOffsetBegin + (2 + timLength ind.halNumSta) :=
        mod_eq_of_lt (by omega)
      rw [imp_iff_right hjoins, htotal, pmmGenerateTIM]
      by_cases hroom : s'.schBeaconOffsetBegin + 5 ≤ s'.pSchBeaconFrameBegin.length
      · have hlen : (patch s'.pSchBeaconFrameBegin s'.schBeaconOffsetBegin [sirMacTimEid,
            UInt8.ofNat (timLength ind.halNumSta), 0xFF, ind.dtimPeriod, 0xFF]).length
            = schMaxBeaconSize := (length_patch hroom).trans h.lengthBegin
        rw [store_of_le hroom]
        refine (writeBeaconToMemory_iff (s := { s' with pSchBeaconFrameBegin := _ }) hlen
          h.lengthEnd hend (by omega) (by omega) h.p2pIeOffset h.fBeaconChanged).trans ?_
        rw [h.offsetBegin, h.offsetEnd, hsize]
        omega
      · rw [store_of_not_le hroom]
        refine iff_of_false (fun hnone => ?_) fun hfits => hroom ?_
        · obtain ⟨r, hr, -⟩ := hnone
          cases hr
        · rw [h.lengthBegin, h.offsetBegin]
          rw [hsize, timLength] at hfits
          omega

end

/-- **The beacon, exactly.**  It stays in bounds, with its IEs whole and its P2P IE found, just if the condition on it is met. -/
theorem beacon_iff (s : PESession) (f : BeaconFields) (ind : PreBeaconInd)
    (hb : s.pSchBeaconFrameBegin.length = schMaxBeaconSize)
    (he : s.pSchBeaconFrameEnd.length = schMaxBeaconSize) :
    BeaconRight s f ind ↔ BeaconOk f ind := by
  constructor
  · intro h
    obtain ⟨s', hset, -, hprocess⟩ := h.inBounds
    have hbuilt := built_of_set hb he hset
    exact {
      endFits := hbuilt.endFits
      beginFits := (schProcessPreBeaconInd_iff hbuilt).1 hprocess
      lastP2p := fun k hk => (stream_iff hk).1 (h.stream k hk)
      scan := search_iff.1 h.offset }
  · intro h
    have hstream : ∀ k, NoaAt f k → StreamInside f k := fun k hk => (stream_iff hk).2 (h.lastP2p k hk)
    obtain ⟨r, hr, hfirst⟩ := search_iff.2 h.scan
    obtain ⟨s', hset⟩ := schSetFixedBeaconFields_isSome hb he h.endFits hr
    have hbuilt := built_of_set hb he hset
    refine ⟨⟨s', hset, ?_, (schProcessPreBeaconInd_iff hbuilt).2 h.beginFits⟩,
      whole_appended hstream, hstream, r, hr, hfirst⟩
    rw [hbuilt.offsetEnd, Nat.add_sub_cancel_left]
    exact hbuilt.appended_eq

/-- A beacon with halves of `n` and `m` bytes. -/
def beaconOf (n : Fin 485) (m : Fin 513) (es : List Element) (noaStream : List UInt8) :
    BeaconFields where
  selfMacAddr := List.replicate 6 0
  bssId := List.replicate 6 0
  beacon1 := List.replicate n 0
  beacon2 := List.replicate m 0
  addnIe := Element.encode es
  noaStream := noaStream
  beaconOffload := false
  selfMacAddr_length := rfl
  bssId_length := rfl
  beacon1_le := by
    rw [List.length_replicate]
    exact Nat.le_of_lt_succ n.isLt
  beacon2_le := by
    rw [List.length_replicate]
    exact Nat.le_of_lt_succ m.isLt
  whole := ⟨es, rfl⟩

def clearSession : PESession :=
  ⟨List.replicate 512 0, List.replicate 512 0, 0, 0, 0, false⟩

theorem clear_begin : clearSession.pSchBeaconFrameBegin.length = schMaxBeaconSize :=
  length_replicate

theorem clear_end : clearSession.pSchBeaconFrameEnd.length = schMaxBeaconSize :=
  length_replicate

def apDue : PreBeaconInd := ⟨.ap, true, true, 32, 1⟩

def p2pIe : Element := ⟨sirMacEidVendor, p2pOui, by decide⟩

def p2pInside : Element := ⟨1, sirMacEidVendor :: 4 :: p2pOui, by decide⟩

theorem noaAt_p2pIe {n : Fin 485} {m : Fin 513} {es : List Element} {noaStream : List UInt8}
    (ha : Appends (beaconOf n m (p2pIe :: es) noaStream))
    (hn : noaFits (beaconOf n m (p2pIe :: es) noaStream) = true) :
    NoaAt (beaconOf n m (p2pIe :: es) noaStream) 0 := by
  refine ⟨ha, hn, ?_⟩
  change cfgGetVendorIePtrFromOui p2pOui (Element.encode (p2pIe :: es)) 0 = some 0
  rw [cfgGetVendorIePtrFromOui_encode, Element.startOf, if_pos (by decide)]
  rfl

theorem beacon_iff_p2p : BeaconRight clearSession (beaconOf 40 100 [p2pIe] [0, 0]) apDue := by
  have hk : NoaAt (beaconOf 40 100 [p2pIe] [0, 0]) 0 := noaAt_p2pIe (by decide) (by decide)
  have happ : appended (beaconOf 40 100 [p2pIe] [0, 0])
      = [0xDD, 6, 0x50, 0x6F, 0x9A, 0x09, 0, 0] := by
    rw [appended, if_pos hk.1, addIE_of_noa hk.2.1 hk.2.2]
    decide
  refine (beacon_iff _ _ _ clear_begin clear_end).2
    ⟨?_, fun _ => ?_, fun k h => ?_, fun k h _ => ?_⟩
  · rw [happ]
    decide +kernel
  · rw [happ]
    decide +kernel
  · obtain rfl := some.inj (hk.2.2.symm.trans h.2.2)
    decide
  · rw [happ] at h ⊢
    have hzero : ∀ k < 8, [0xDD, 6, 0x50, 0x6F, 0x9A, 0x09, 0, 0][k]? = some sirMacEidVendor →
        k = 0 := by decide
    obtain rfl := hzero k (List.getElem?_eq_some_iff.1 h.1).1 h.1
    exact ⟨[], ⟨0xDD, [0x50, 0x6F, 0x9A, 0x09, 0, 0], by decide⟩, [], rfl, rfl, by decide⟩

/-- Another IE behind that of P2P, and the NoA stream is in none; the stream goes past the second buffer; the halves and the TIM are more than a buffer; and the P2P IE is found in another one. -/
theorem beacons_go_wrong :
    ¬BeaconRight clearSession (beaconOf 0 0 [p2pIe, ⟨1, [], by decide⟩] [0, 0]) apDue ∧
    ¬BeaconRight clearSession (beaconOf 0 505 [p2pIe] [0, 0]) apDue ∧
    ¬BeaconRight clearSession (beaconOf 400 100 [] []) apDue ∧
    ¬BeaconRight clearSession (beaconOf 0 0 [p2pInside] []) apDue := by
  refine ⟨fun h => ?_, fun h => ?_, fun h => ?_, fun h => ?_⟩
  · have hk : NoaAt (beaconOf 0 0 [p2pIe, ⟨1, [], by decide⟩] [0, 0]) 0 :=
      noaAt_p2pIe (by decide) (by decide)
    exact absurd ((stream_iff hk).1 (h.stream 0 hk)) (by decide)
  · obtain ⟨s', hset, -⟩ := h.inBounds
    have hk : NoaAt (beaconOf 0 505 [p2pIe] [0, 0]) 0 :=
      noaAt_p2pIe (by decide +kernel) (by decide)
    have hfits := (built_of_set clear_begin clear_end hset).endFits
    rw [appended, if_pos hk.1, addIE_of_noa hk.2.1 hk.2.2] at hfits
    exact absurd hfits (by decide +kernel)
  · obtain ⟨s', hset, -, hprocess⟩ := h.inBounds
    have hfits := (schProcessPreBeaconInd_iff (built_of_set clear_begin clear_end hset)).1 hprocess
      ⟨rfl, rfl, by decide⟩
    exact absurd hfits (by decide +kernel)
  · have happ : appended (beaconOf 0 0 [p2pInside] []) = Element.encode [p2pInside] := by
      rw [appended, if_pos (by decide), addIE]
      split
      · rfl
      · rfl
    have hstart := search_iff.1 h.offset 2
    rw [happ] at hstart
    have hbefore : ∀ j < 2, (Element.encode [p2pInside])[j]? ≠ some sirMacEidVendor := by decide
    obtain ⟨pre, e, post, hsplit, hpre, -⟩ :=
      hstart ⟨rfl, .inr rfl⟩ fun j hj hhit => hbefore j hj hhit.1
    obtain ⟨rfl, -⟩ | ⟨-, hnil⟩ := singleton_eq_append_iff.1 (Element.encode_inj.1 hsplit)
    · exact absurd hpre (by decide)
    · exact cons_ne_nil _ _ hnil

end Qcacld.Sch

import Qcacld.Dph.DphHashTable
import Mathlib.Tactic.MkIffOfInductiveProp

/-!
# Lim — LimProtection

Protection of an access point's BSS from older stations.  Each kind of station has a flag for the stations of the BSS and one for those of overlapping ones; the beacon's coexistence bits and the HT operating mode are to follow from the flags.  `limEnable11gProtection`, `limEnableHtProtectionFrom11g` and `limEnableHT20Protection` set or clear one flag, and each computes the mode from the others in its own way.

`Follows` is the law.  `protection_follows_iff` says which calls keep it: all that enable, and those that disable but for four cases, each of which forgets a flag.  The functions are those of the access-point role.
-/

namespace Qcacld.Lim
open Qcacld.Support Qcacld.Dph

/-! ### The session -/

/-- `tSirMacHTOperatingMode` -/
inductive HtOpMode where
  | pure
  | overlapLegacy
  | noLegacy20MHzHt
  | mixed
deriving DecidableEq

inductive HtChannelWidth where
  | w20MHz
  | w40MHz
  | w80MHz
  | w160MHz
deriving DecidableEq

inductive RfBand where
  | unknown
  | band24GHz
  | band5GHz
deriving DecidableEq

structure LimProtStaParams where
  numSta : Nat
  protectionEnabled : Bool

/-- What protection reads of `tCfgProtection`. -/
structure CfgProtection where
  overlapFromllg : Bool
  fromlla : Bool
  fromllb : Bool
  fromllg : Bool
  ht20 : Bool
  nonGf : Bool
  lsigTxop : Bool
  rifs : Bool
  obss : Bool

/-- What protection reads and writes of `beaconParams`. -/
structure BeaconParams where
  llaCoexist : Bool
  llbCoexist : Bool
  llgCoexist : Bool
  ht20Coexist : Bool
  llnNonGFCoexist : Bool
  fRIFSMode : Bool
  fLsigTXOPProtectionFullSupport : Bool
  gHTObssMode : Bool

inductive ProtStaCacheType where
  | invalid
  | llB
  | llG
  | ht20
deriving DecidableEq

structure CacheParams where
  active : Bool
  addr : SirMacAddr
  protStaCacheType : ProtStaCacheType

/-- The part of `pMac->lim` that 11a protection uses. -/
structure LimGlobals where
  gHTOperMode : HtOpMode
  gLimOverlap11aParams : LimProtStaParams
  gLimOverlapHt20Params : LimProtStaParams
  gLimOverlapNonGfParams : LimProtStaParams

/-- The part of an access point's session that is about protection. -/
structure Session where
  rfBand : RfBand
  gLimPhyMode : UInt32
  htCapability : Bool
  htSupportedChannelWidthSet : HtChannelWidth
  cfgProtection : CfgProtection
  beaconParams : BeaconParams
  htOperMode : HtOpMode
  gLim11bParams : LimProtStaParams
  gLim11aParams : LimProtStaParams
  gLim11gParams : LimProtStaParams
  gLimNonGfParams : LimProtStaParams
  gLimHt20Params : LimProtStaParams
  gLimLsigTxopParams : LimProtStaParams
  gLimOlbcParams : LimProtStaParams
  gLimOverlap11gParams : LimProtStaParams
  gLimOverlapHt20Params : LimProtStaParams
  gLimOverlapNonGfParams : LimProtStaParams
  protStaCache : Nat → CacheParams
  lim : LimGlobals

open Session

namespace Session

def setLlb (s : Session) (b : Bool) : Session := { s with beaconParams.llbCoexist := b }

def setLlg (s : Session) (b : Bool) : Session := { s with beaconParams.llgCoexist := b }

def setHt20 (s : Session) (b : Bool) : Session := { s with beaconParams.ht20Coexist := b }

def protect11b (s : Session) (b : Bool) : Session := { s with gLim11bParams.protectionEnabled := b }

def protect11g (s : Session) (b : Bool) : Session := { s with gLim11gParams.protectionEnabled := b }

def protectHt20 (s : Session) (b : Bool) : Session := { s with gLimHt20Params.protectionEnabled := b }

def protectOlbc (s : Session) (b : Bool) : Session := { s with gLimOlbcParams.protectionEnabled := b }

def protectOverlap11g (s : Session) (b : Bool) : Session :=
  { s with gLimOverlap11gParams.protectionEnabled := b }

def protectOverlapHt20 (s : Session) (b : Bool) : Session :=
  { s with gLimOverlapHt20Params.protectionEnabled := b }

end Session

/-! ### The functions -/

/-- `limEnableHtRifsProtection`, which disables the RIFS mode to enable the protection -/
def limEnableHtRifsProtection (s : Session) (enable overlap : Bool) : Session :=
  { s with beaconParams.fRIFSMode :=
      if !s.htCapability || (!overlap && !s.cfgProtection.rifs) then s.beaconParams.fRIFSMode
      else !enable }

def limEnableHtOBSSProtection (s : Session) (enable overlap : Bool) : Session :=
  if !s.htCapability || (!overlap && !s.cfgProtection.obss) then s
  else
    { s with
      beaconParams.gHTObssMode := enable
      gLimOverlap11gParams.protectionEnabled :=
        if !enable && !overlap then false else s.gLimOverlap11gParams.protectionEnabled }

/-- The mode when there is nothing but HT stations in the air. -/
def ht20Mode (s : Session) : HtOpMode :=
  if s.gLimHt20Params.protectionEnabled then
    if s.htSupportedChannelWidthSet = .w20MHz then .pure else .noLegacy20MHzHt
  else .pure

def overlapEnabled (s : Session) : Bool :=
  s.gLimOlbcParams.protectionEnabled || s.gLimOverlap11gParams.protectionEnabled
    || s.gLimOverlapHt20Params.protectionEnabled || s.gLimOverlapNonGfParams.protectionEnabled

/-- The mode when an overlapping BSS needs protection: mixed stays mixed. -/
def overlapMode (s : Session) : HtOpMode :=
  if s.htOperMode ≠ .overlapLegacy ∧ s.htOperMode ≠ .mixed then .overlapLegacy else s.htOperMode

/-- The last 11b or 11g station has left: the mode is no longer mixed. -/
def leaveMixed (s : Session) (overlap : Bool) : Session :=
  let s := limEnableHtOBSSProtection s false overlap
  if overlapEnabled s then
    limEnableHtRifsProtection { s with htOperMode := .overlapLegacy } true overlap
  else limEnableHtRifsProtection { s with htOperMode := ht20Mode s } false overlap

/-- No overlapping BSS needs protection any more. -/
def leaveOverlap (s : Session) (overlap : Bool) : Session :=
  if s.htOperMode = .overlapLegacy then
    let s := limEnableHtRifsProtection s false overlap
    let s := limEnableHtOBSSProtection s false overlap
    { s with htOperMode := ht20Mode s }
  else s

def enterMixed (s : Session) (overlap : Bool) : Session :=
  if s.htOperMode ≠ .mixed then
    let s := { s with htOperMode := .mixed }
    let s := limEnableHtRifsProtection s true overlap
    limEnableHtOBSSProtection s true overlap
  else s

/-- An overlapping BSS with 11b or 11g stations is there. -/
def enterOverlap (s : Session) (overlap : Bool) : Session :=
  let s := { s with htOperMode := overlapMode s }
  let s := limEnableHtRifsProtection s true overlap
  limEnableHtOBSSProtection s true overlap

/-! #### 11b -/

/-- Protection from overlapping 11b stations is enabled. -/
def enableOlbc (s : Session) (overlap : Bool) : Session :=
  let s := s.protectOlbc true
  if s.htCapability then enterOverlap s overlap else s

def enable11b (s : Session) (overlap : Bool) : Session :=
  let s := s.protect11b true
  if s.htCapability then enterMixed s overlap else s

/-- Protection from overlapping 11b stations is disabled. -/
def disableOlbc (s : Session) (overlap : Bool) : Session :=
  let s := s.protectOlbc false
  if s.htCapability && !(s.gLimOverlap11gParams.protectionEnabled
      || s.gLimOverlapHt20Params.protectionEnabled
      || s.gLimOverlapNonGfParams.protectionEnabled) then leaveOverlap s overlap
  else s

def disable11b (s : Session) (overlap : Bool) : Session :=
  let s := s.protect11b false
  if !s.gLim11gParams.protectionEnabled then leaveMixed s overlap else s

/-- The bit is cleared when neither flag is set. -/
def settleLlb (s : Session) : Session :=
  if !s.gLimOlbcParams.protectionEnabled && !s.gLim11bParams.protectionEnabled then s.setLlb false
  else s

def limEnable11gProtection (s : Session) (enable overlap : Bool) : Session :=
  if !overlap && !s.cfgProtection.fromllb then s
  else if enable then (if overlap then enableOlbc s overlap else enable11b s overlap).setLlb true
  else if s.beaconParams.llbCoexist then
    settleLlb (if overlap then disableOlbc s overlap else disable11b s overlap)
  else s

/-! #### 11g -/

/-- Protection from overlapping 11g stations is disabled.  The flag stays while 11g stations are associated, and is not asked before the mode is changed. -/
def disableOverlap11g (s : Session) (overlap : Bool) : Session :=
  let s := s.protectOverlap11g
    (s.gLim11gParams.numSta ≠ 0 && s.gLimOverlap11gParams.protectionEnabled)
  if !(s.gLimOlbcParams.protectionEnabled || s.gLimOverlapHt20Params.protectionEnabled
      || s.gLimOverlapNonGfParams.protectionEnabled) then leaveOverlap s overlap
  else s

def disable11g (s : Session) (overlap : Bool) : Session :=
  let s := s.protect11g false
  if !s.gLim11bParams.protectionEnabled then leaveMixed s overlap else s

/-- The bit is cleared when neither flag is set. -/
def settleLlg (s : Session) : Session :=
  if !s.gLimOverlap11gParams.protectionEnabled && !s.gLim11gParams.protectionEnabled then
    s.setLlg false
  else s

def limEnableHtProtectionFrom11g (s : Session) (enable overlap : Bool) : Session :=
  if !s.htCapability then s
  else if overlap && !s.cfgProtection.overlapFromllg then s
  else if !overlap && !s.cfgProtection.fromllg then s
  else if enable then
    (if overlap then enterOverlap (s.protectOverlap11g true) overlap
      else enterMixed (s.protect11g true) overlap).setLlg true
  else if s.beaconParams.llgCoexist then
    settleLlg (if overlap then disableOverlap11g s overlap else disable11g s overlap)
  else s

/-! #### HT20 -/

/-- Protection from overlapping HT20 stations is enabled. -/
def enableOverlapHt20 (s : Session) (overlap : Bool) : Session :=
  let s := s.protectOverlapHt20 true
  if s.htOperMode ≠ .overlapLegacy ∧ s.htOperMode ≠ .mixed then
    limEnableHtRifsProtection { s with htOperMode := .overlapLegacy } true overlap
  else s

def enableHt20 (s : Session) (overlap : Bool) : Session :=
  let s := s.protectHt20 true
  if s.htOperMode = .pure then
    let s := { s with htOperMode :=
      if s.htSupportedChannelWidthSet ≠ .w20MHz then .noLegacy20MHzHt else s.htOperMode }
    let s := limEnableHtRifsProtection s false overlap
    limEnableHtOBSSProtection s false overlap
  else s

/-- Protection from overlapping HT20 stations is disabled. -/
def disableOverlapHt20 (s : Session) (overlap : Bool) : Session :=
  let s := s.protectOverlapHt20 false
  if !overlapEnabled s && s.htOperMode = .overlapLegacy then
    if s.gLimHt20Params.protectionEnabled then
      let s := { s with htOperMode := ht20Mode s }
      let s := limEnableHtRifsProtection s false overlap
      limEnableHtOBSSProtection s false overlap
    else { s with htOperMode := .pure }
  else s

def disableHt20 (s : Session) (overlap : Bool) : Session :=
  let s := s.protectHt20 false
  if s.htOperMode = .noLegacy20MHzHt then
    let s := { s with htOperMode := .pure }
    let s := limEnableHtRifsProtection s false overlap
    limEnableHtOBSSProtection s false overlap
  else s

/-- `limEnableHT20Protection`, which clears the bit whatever the other flag is -/
def limEnableHT20Protection (s : Session) (enable overlap : Bool) : Session :=
  if !s.htCapability then s
  else if !overlap && !s.cfgProtection.ht20 then s
  else if enable then
    (if overlap then enableOverlapHt20 s overlap else enableHt20 s overlap).setHt20 true
  else if s.beaconParams.ht20Coexist then
    (if overlap then disableOverlapHt20 s overlap else disableHt20 s overlap).setHt20 false
  else s

/-! ### What the calls leave -/

structure ApConfig where
  rfBand : RfBand
  gLimPhyMode : UInt32
  htCapability : Bool
  htSupportedChannelWidthSet : HtChannelWidth
  cfgProtection : CfgProtection

inductive ProtKind where
  | llB
  | llA
  | llG
  | nonGf
  | ht20
  | lsigTxop
deriving DecidableEq

def Session.numSta (s : Session) : ProtKind → Nat
  | .llB => s.gLim11bParams.numSta
  | .llA => s.gLim11aParams.numSta
  | .llG => s.gLim11gParams.numSta
  | .nonGf => s.gLimNonGfParams.numSta
  | .ht20 => s.gLimHt20Params.numSta
  | .lsigTxop => s.gLimLsigTxopParams.numSta

/-- What an access point is and whom it knows: of this the calls change the HT20 bit only. -/
structure Standing where
  ap : ApConfig
  num : ProtKind → Nat
  protStaCache : Nat → CacheParams
  ht20Coexist : Bool

def Session.standing (s : Session) : Standing where
  ap := ⟨s.rfBand, s.gLimPhyMode, s.htCapability, s.htSupportedChannelWidthSet, s.cfgProtection⟩
  num := s.numSta
  protStaCache := s.protStaCache
  ht20Coexist := s.beaconParams.ht20Coexist

def Standing.setHt20 (t : Standing) (b : Bool) : Standing := { t with ht20Coexist := b }

section
variable {s : Session} {m : HtOpMode} {b o : Bool}

@[simp]
theorem standing_mode : ({ s with htOperMode := m } : Session).standing = s.standing := rfl

@[simp]
theorem standing_setLlb : (s.setLlb b).standing = s.standing := rfl

@[simp]
theorem standing_setLlg : (s.setLlg b).standing = s.standing := rfl

@[simp]
theorem standing_setHt20 : (s.setHt20 b).standing = s.standing.setHt20 b := rfl

@[simp]
theorem standing_protect11b : (s.protect11b b).standing = s.standing := rfl

@[simp]
theorem standing_protect11g : (s.protect11g b).standing = s.standing := rfl

@[simp]
theorem standing_protectHt20 : (s.protectHt20 b).standing = s.standing := rfl

@[simp]
theorem standing_protectOlbc : (s.protectOlbc b).standing = s.standing := rfl

@[simp]
theorem standing_protectOverlap11g : (s.protectOverlap11g b).standing = s.standing := rfl

@[simp]
theorem standing_protectOverlapHt20 : (s.protectOverlapHt20 b).standing = s.standing := rfl

@[simp]
theorem standing_rifs : (limEnableHtRifsProtection s b o).standing = s.standing := rfl

@[simp]
theorem standing_obss : (limEnableHtOBSSProtection s b o).standing = s.standing := by
  rw [limEnableHtOBSSProtection]
  split <;> rfl

@[simp]
theorem standing_leaveMixed : (leaveMixed s o).standing = s.standing := by
  simp [leaveMixed, apply_ite standing]

@[simp]
theorem standing_leaveOverlap : (leaveOverlap s o).standing = s.standing := by
  simp [leaveOverlap, apply_ite standing]

@[simp]
theorem standing_enterMixed : (enterMixed s o).standing = s.standing := by
  simp [enterMixed, apply_ite standing]

@[simp]
theorem standing_enterOverlap : (enterOverlap s o).standing = s.standing := by
  simp [enterOverlap]

@[simp]
theorem standing_settleLlb : (settleLlb s).standing = s.standing := by
  simp [settleLlb, apply_ite standing]

@[simp]
theorem standing_settleLlg : (settleLlg s).standing = s.standing := by
  simp [settleLlg, apply_ite standing]

@[simp]
theorem standing_enable11g (e : Bool) : (limEnable11gProtection s e o).standing = s.standing := by
  simp [limEnable11gProtection, enableOlbc, enable11b, disableOlbc, disable11b, apply_ite standing]

@[simp]
theorem standing_enableFrom11g (e : Bool) :
    (limEnableHtProtectionFrom11g s e o).standing = s.standing := by
  simp [limEnableHtProtectionFrom11g, disableOverlap11g, disable11g, apply_ite standing]

theorem standing_enableHT20 (e : Bool) : ∃ b, (limEnableHT20Protection s e o).standing
    = s.standing.setHt20 b := by
  have hself : s.standing = s.standing.setHt20 s.standing.ht20Coexist := rfl
  rw [limEnableHT20Protection]
  split
  · exact ⟨_, hself⟩
  split
  · exact ⟨_, hself⟩
  split
  · refine ⟨true, ?_⟩
    cases o <;> simp [enableOverlapHt20, enableHt20, apply_ite standing]
  split
  · refine ⟨false, ?_⟩
    cases o <;> simp [disableOverlapHt20, disableHt20, apply_ite standing]
  · exact ⟨_, hself⟩

end

/-! ### The law -/

def ruledMode (s : Session) : HtOpMode :=
  if s.gLim11bParams.protectionEnabled || s.gLim11gParams.protectionEnabled then .mixed
  else if overlapEnabled s then .overlapLegacy
  else ht20Mode s

/-- **The law.**  The mode and the coexistence bits follow from the flags. -/
@[mk_iff follows_iff]
structure Follows (s : Session) : Prop where
  mode : s.htOperMode = ruledMode s
  llb : s.beaconParams.llbCoexist
    = (s.gLim11bParams.protectionEnabled || s.gLimOlbcParams.protectionEnabled)
  llg : s.beaconParams.llgCoexist
    = (s.gLim11gParams.protectionEnabled || s.gLimOverlap11gParams.protectionEnabled)
  ht20 : s.beaconParams.ht20Coexist
    = (s.gLimHt20Params.protectionEnabled || s.gLimOverlapHt20Params.protectionEnabled)

instance : DecidablePred Follows := fun s => decidable_of_iff _ (follows_iff s).symm

def allProtection : CfgProtection := ⟨true, true, true, true, true, true, true, true, true⟩

/-- An HT access point in the 2.4 GHz band, with all protection configured. -/
structure HtAp (s : Session) : Prop where
  ht : s.htCapability = true
  cfg : s.cfgProtection = allProtection
  band : s.rfBand = .band24GHz

/-- The calls, and the coming and going of 11g stations. -/
inductive ProtCall where
  | enable11g (enable overlap : Bool)
  | enableFrom11g (enable overlap : Bool)
  | enableHT20 (enable overlap : Bool)
  | count11g (numSta : Nat)

def protCall (s : Session) : ProtCall → Session
  | .enable11g enable overlap => limEnable11gProtection s enable overlap
  | .enableFrom11g enable overlap => limEnableHtProtectionFrom11g s enable overlap
  | .enableHT20 enable overlap => limEnableHT20Protection s enable overlap
  | .count11g numSta => { s with gLim11gParams.numSta := numSta }

/-- The session has begun: the law holds, as it does when no flag is set. -/
def Session.Begun (s : Session) : Prop := HtAp s ∧ Follows s

def protMachine : Machine Session ProtCall where
  init := Session.Begun
  step s c := some (protCall s c)

/-- **The condition.**  Disabling 11b protection when no 11g station is protected from needs the flag of
overlapping 11g stations to be clear; disabling overlapping 11g protection while there are 11g stations
needs another flag than that to ask for the mode; disabling HT20 protection needs the other flag of this
kind to be clear. -/
def ProtCallOk (s : Session) : ProtCall → Prop
  | .enable11g false false =>
    s.gLim11bParams.protectionEnabled = false ∧ s.gLimOlbcParams.protectionEnabled = false ∨
      s.gLim11gParams.protectionEnabled = true ∨ s.gLimOverlap11gParams.protectionEnabled = false
  | .enableFrom11g false true =>
    s.gLim11gParams.numSta = 0 ∨ s.gLimOverlap11gParams.protectionEnabled = false ∨
      s.gLim11bParams.protectionEnabled = true ∨ s.gLim11gParams.protectionEnabled = true ∨
      s.gLimOlbcParams.protectionEnabled = true ∨
      s.gLimOverlapHt20Params.protectionEnabled = true ∨
      s.gLimOverlapNonGfParams.protectionEnabled = true
  | .enableHT20 false true => s.gLimHt20Params.protectionEnabled = false
  | .enableHT20 false false => s.gLimOverlapHt20Params.protectionEnabled = false
  | _ => True

instance : ∀ s c, Decidable (ProtCallOk s c)
  | _, .enable11g false false => inferInstanceAs (Decidable (_ ∨ _))
  | _, .enableFrom11g false true => inferInstanceAs (Decidable (_ ∨ _))
  | _, .enableHT20 false true => inferInstanceAs (Decidable (_ = _))
  | _, .enableHT20 false false => inferInstanceAs (Decidable (_ = _))
  | _, .enable11g true _ => .isTrue trivial
  | _, .enable11g false true => .isTrue trivial
  | _, .enableFrom11g true _ => .isTrue trivial
  | _, .enableFrom11g false false => .isTrue trivial
  | _, .enableHT20 true _ => .isTrue trivial
  | _, .count11g _ => .isTrue trivial

/-! ### The modes -/

/-- What the mode changes do: they set the mode and the flag of overlapping 11g stations, and leave the other flags and the coexistence bits. -/
structure Moved (s s' : Session) (m : HtOpMode) (f : Bool) : Prop where
  mode : s'.htOperMode = m
  overlap11g : s'.gLimOverlap11gParams.protectionEnabled = f
  b : s'.gLim11bParams = s.gLim11bParams
  g : s'.gLim11gParams = s.gLim11gParams
  ht20 : s'.gLimHt20Params = s.gLimHt20Params
  olbc : s'.gLimOlbcParams = s.gLimOlbcParams
  overlapHt20 : s'.gLimOverlapHt20Params = s.gLimOverlapHt20Params
  overlapNonGf : s'.gLimOverlapNonGfParams = s.gLimOverlapNonGfParams
  llb : s'.beaconParams.llbCoexist = s.beaconParams.llbCoexist
  llg : s'.beaconParams.llgCoexist = s.beaconParams.llgCoexist
  ht20Coexist : s'.beaconParams.ht20Coexist = s.beaconParams.ht20Coexist
  width : s'.htSupportedChannelWidthSet = s.htSupportedChannelWidthSet
  cfg : s'.cfgProtection = s.cfgProtection
  ht : s'.htCapability = s.htCapability
  band : s'.rfBand = s.rfBand

open Moved

section
variable {s s' s'' : Session} {m m' : HtOpMode} {f f' o : Bool}

theorem Moved.trans (h : Moved s s' m f) (h' : Moved s' s'' m' f') : Moved s s'' m' f' where
  mode := h'.mode
  overlap11g := h'.overlap11g
  b := h'.b.trans h.b
  g := h'.g.trans h.g
  ht20 := h'.ht20.trans h.ht20
  olbc := h'.olbc.trans h.olbc
  overlapHt20 := h'.overlapHt20.trans h.overlapHt20
  overlapNonGf := h'.overlapNonGf.trans h.overlapNonGf
  llb := h'.llb.trans h.llb
  llg := h'.llg.trans h.llg
  ht20Coexist := h'.ht20Coexist.trans h.ht20Coexist
  width := h'.width.trans h.width
  cfg := h'.cfg.trans h.cfg
  ht := h'.ht.trans h.ht
  band := h'.band.trans h.band

theorem mode_moved (hf : s.gLimOverlap11gParams.protectionEnabled = f) :
    Moved s { s with htOperMode := m } m f := by
  constructor <;> first | exact hf | rfl

theorem rifs_moved (hm : s.htOperMode = m) (hf : s.gLimOverlap11gParams.protectionEnabled = f)
    (b : Bool) : Moved s (limEnableHtRifsProtection s b o) m f := by
  constructor <;> first | exact hm | exact hf | rfl

theorem mode_rifs_moved (hf : s.gLimOverlap11gParams.protectionEnabled = f) (b : Bool) :
    Moved s (limEnableHtRifsProtection { s with htOperMode := m } b o) m f := by
  constructor <;> first | exact hf | rfl

/-- The flag of overlapping 11g stations is lost when the OBSS protection is disabled for the own BSS. -/
theorem obss_moved (ht : s.htCapability = true) (hc : s.cfgProtection = allProtection) (b : Bool) :
    Moved s (limEnableHtOBSSProtection s b o) s.htOperMode
      ((b || o) && s.gLimOverlap11gParams.protectionEnabled) := by
  rw [limEnableHtOBSSProtection, if_neg (by simp [ht, hc, allProtection])]
  constructor <;> cases b <;> cases o <;> simp

theorem mode_rifs_obss_moved (ht : s.htCapability = true) (hc : s.cfgProtection = allProtection)
    (b : Bool) : Moved s (limEnableHtOBSSProtection
        (limEnableHtRifsProtection { s with htOperMode := m } b o) b o) m
      ((b || o) && s.gLimOverlap11gParams.protectionEnabled) := by
  have h₁ := mode_rifs_moved (s := s) (m := m) (o := o) rfl b
  have h₂ := obss_moved (s := limEnableHtRifsProtection { s with htOperMode := m } b o) (o := o)
    ht hc b
  exact h₁.trans h₂

theorem enterMixed_moved (ht : s.htCapability = true) (hc : s.cfgProtection = allProtection) :
    Moved s (enterMixed s o) .mixed s.gLimOverlap11gParams.protectionEnabled := by
  rw [enterMixed]
  split
  · exact mode_rifs_obss_moved ht hc true
  · next h =>
    have hm : s.htOperMode = .mixed := by simpa using h
    constructor <;> first | exact hm | rfl

theorem enterOverlap_moved (ht : s.htCapability = true) (hc : s.cfgProtection = allProtection) :
    Moved s (enterOverlap s o) (overlapMode s) s.gLimOverlap11gParams.protectionEnabled :=
  mode_rifs_obss_moved ht hc true

theorem leaveMixed_moved (ht : s.htCapability = true) (hc : s.cfgProtection = allProtection) :
    Moved s (leaveMixed s false)
      (if s.gLimOlbcParams.protectionEnabled || s.gLimOverlapHt20Params.protectionEnabled
        || s.gLimOverlapNonGfParams.protectionEnabled then .overlapLegacy else ht20Mode s) false := by
  have h := obss_moved (o := false) ht hc false
  have hov : overlapEnabled (limEnableHtOBSSProtection s false false)
      = (s.gLimOlbcParams.protectionEnabled || s.gLimOverlapHt20Params.protectionEnabled
        || s.gLimOverlapNonGfParams.protectionEnabled) := by
    simp [overlapEnabled, h.olbc, h.overlap11g, h.overlapHt20, h.overlapNonGf]
  have hmode : ht20Mode (limEnableHtOBSSProtection s false false) = ht20Mode s := by
    rw [ht20Mode, h.ht20, h.width, ht20Mode]
  rw [leaveMixed, hov, hmode]
  split
  · exact h.trans (mode_rifs_moved h.overlap11g true)
  · exact h.trans (mode_rifs_moved h.overlap11g false)

theorem leaveOverlap_moved (ht : s.htCapability = true) (hc : s.cfgProtection = allProtection) :
    Moved s (leaveOverlap s true)
      (if s.htOperMode = .overlapLegacy then ht20Mode s else s.htOperMode)
      s.gLimOverlap11gParams.protectionEnabled := by
  rw [leaveOverlap]
  split
  · have h₁ := rifs_moved (s := s) (o := true) rfl rfl false
    have h₂ := obss_moved (s := limEnableHtRifsProtection s false true) (o := true) ht hc false
    have h := h₁.trans h₂
    have hmode : ht20Mode (limEnableHtOBSSProtection (limEnableHtRifsProtection s false true) false
        true) = ht20Mode s := by
      rw [ht20Mode, h.ht20, h.width, ht20Mode]
    dsimp only
    rw [hmode]
    exact h.trans (mode_moved h.overlap11g)
  · constructor <;> rfl

/-! ### The law after a change -/

/-- The law, for the flags of `s` but that of overlapping 11g stations, and given the mode and the bits. -/
def Fits (s : Session) (m : HtOpMode) (f llb llg ht20 : Bool) : Prop :=
  m = (if s.gLim11bParams.protectionEnabled || s.gLim11gParams.protectionEnabled then .mixed
    else if s.gLimOlbcParams.protectionEnabled || f || s.gLimOverlapHt20Params.protectionEnabled
      || s.gLimOverlapNonGfParams.protectionEnabled then .overlapLegacy
    else ht20Mode s) ∧
  llb = (s.gLim11bParams.protectionEnabled || s.gLimOlbcParams.protectionEnabled) ∧
  llg = (s.gLim11gParams.protectionEnabled || f) ∧
  ht20 = (s.gLimHt20Params.protectionEnabled || s.gLimOverlapHt20Params.protectionEnabled)

theorem follows_iff_fits : Follows s ↔ Fits s s.htOperMode
    s.gLimOverlap11gParams.protectionEnabled s.beaconParams.llbCoexist s.beaconParams.llgCoexist
    s.beaconParams.ht20Coexist :=
  follows_iff s

theorem Moved.fits (h : Moved s s' m f) {b g c : Bool} : Fits s' m f b g c ↔ Fits s m f b g c := by
  simp [Fits, ht20Mode, h.b, h.g, h.ht20, h.olbc, h.overlapHt20, h.overlapNonGf, h.width]

theorem Moved.setLlb_iff (h : Moved s s' m f) (v : Bool) : Follows (s'.setLlb v) ↔ Fits s m f v
    s.beaconParams.llgCoexist s.beaconParams.ht20Coexist := by
  rw [← h.fits, ← h.llg, ← h.ht20Coexist, ← h.mode, ← h.overlap11g]
  exact follows_iff_fits

theorem Moved.setLlg_iff (h : Moved s s' m f) (v : Bool) : Follows (s'.setLlg v) ↔ Fits s m f
    s.beaconParams.llbCoexist v s.beaconParams.ht20Coexist := by
  rw [← h.fits, ← h.llb, ← h.ht20Coexist, ← h.mode, ← h.overlap11g]
  exact follows_iff_fits

theorem Moved.setHt20_iff (h : Moved s s' m f) (v : Bool) : Follows (s'.setHt20 v) ↔ Fits s m f
    s.beaconParams.llbCoexist s.beaconParams.llgCoexist v := by
  rw [← h.fits, ← h.llb, ← h.llg, ← h.mode, ← h.overlap11g]
  exact follows_iff_fits

@[simp]
theorem ht20Mode_protect11b {v : Bool} : ht20Mode (s.protect11b v) = ht20Mode s := rfl

@[simp]
theorem ht20Mode_protect11g {v : Bool} : ht20Mode (s.protect11g v) = ht20Mode s := rfl

@[simp]
theorem ht20Mode_protectOlbc {v : Bool} : ht20Mode (s.protectOlbc v) = ht20Mode s := rfl

@[simp]
theorem ht20Mode_protectOverlap11g {v : Bool} : ht20Mode (s.protectOverlap11g v) = ht20Mode s := rfl

@[simp]
theorem ht20Mode_protectOverlapHt20 {v : Bool} :
    ht20Mode (s.protectOverlapHt20 v) = ht20Mode s := rfl

theorem ht20Mode_ne : ht20Mode s ≠ .mixed ∧ ht20Mode s ≠ .overlapLegacy := by
  rw [ht20Mode]
  split
  · split <;> simp
  · simp

theorem overlapMode_eq (h : Follows s) : overlapMode s
    = if s.gLim11bParams.protectionEnabled || s.gLim11gParams.protectionEnabled then .mixed
      else .overlapLegacy := by
  rw [overlapMode, h.mode, ruledMode]
  split
  · simp
  · split
    · simp
    · simp [ht20Mode_ne]

theorem leaveOverlap_mode (h : Follows s) :
    (if s.htOperMode = .overlapLegacy then ht20Mode s else s.htOperMode)
      = if s.gLim11bParams.protectionEnabled || s.gLim11gParams.protectionEnabled then .mixed
        else ht20Mode s := by
  rw [h.mode, ruledMode]
  split
  · simp
  · split
    · simp
    · simp

theorem stayOverlap_mode (h : Follows s) (ho : overlapEnabled s = true) : s.htOperMode
    = if s.gLim11bParams.protectionEnabled || s.gLim11gParams.protectionEnabled then .mixed
      else .overlapLegacy := by
  rw [h.mode, ruledMode, if_pos ho]

theorem Moved.refl (s : Session) :
    Moved s s s.htOperMode s.gLimOverlap11gParams.protectionEnabled := by
  constructor <;> rfl

theorem setLlb_self {v : Bool} (h : s.beaconParams.llbCoexist = v) : s.setLlb v = s := by
  subst h
  rfl

theorem setLlg_self {v : Bool} (h : s.beaconParams.llgCoexist = v) : s.setLlg v = s := by
  subst h
  rfl

theorem protectHt20_self {v : Bool} (h : s.gLimHt20Params.protectionEnabled = v) :
    s.protectHt20 v = s := by
  subst h
  rfl

theorem settleLlb_eq (h : s.beaconParams.llbCoexist = true) : settleLlb s
    = s.setLlb (s.gLim11bParams.protectionEnabled || s.gLimOlbcParams.protectionEnabled) := by
  rw [settleLlb]
  by_cases hv : s.gLim11bParams.protectionEnabled || s.gLimOlbcParams.protectionEnabled
  · rw [hv, setLlb_self h, if_neg]
    simpa [or_comm, imp_iff_not_or] using hv
  · rw [if_pos (by simpa [and_comm] using hv), Bool.eq_false_iff.2 hv]

theorem settleLlg_eq (h : s.beaconParams.llgCoexist = true) : settleLlg s
    = s.setLlg (s.gLim11gParams.protectionEnabled || s.gLimOverlap11gParams.protectionEnabled) := by
  rw [settleLlg]
  by_cases hv : s.gLim11gParams.protectionEnabled || s.gLimOverlap11gParams.protectionEnabled
  · rw [hv, setLlg_self h, if_neg]
    simpa [or_comm, imp_iff_not_or] using hv
  · rw [if_pos (by simpa [and_comm] using hv), Bool.eq_false_iff.2 hv]

theorem Moved.settleLlb_iff (h : Moved s s' m f) (hb : s.beaconParams.llbCoexist = true) :
    Follows (settleLlb s') ↔ Fits s m f
      (s.gLim11bParams.protectionEnabled || s.gLimOlbcParams.protectionEnabled)
      s.beaconParams.llgCoexist s.beaconParams.ht20Coexist := by
  rw [settleLlb_eq (h.llb.trans hb), h.setLlb_iff, h.b, h.olbc]

theorem Moved.settleLlg_iff (h : Moved s s' m f) (hb : s.beaconParams.llgCoexist = true) :
    Follows (settleLlg s') ↔ Fits s m f s.beaconParams.llbCoexist
      (s.gLim11gParams.protectionEnabled || f) s.beaconParams.ht20Coexist := by
  rw [settleLlg_eq (h.llg.trans hb), h.setLlg_iff, h.g, h.overlap11g]

/-! ### The calls, one by one -/

theorem enable11g_on (h : Follows s) (ha : HtAp s) : Follows (limEnable11gProtection s true o) := by
  rw [limEnable11gProtection, if_neg (by simp [ha.cfg, allProtection]), if_pos rfl]
  cases o with
  | true =>
    have hmv := enterOverlap_moved (s := s.protectOlbc true) (o := true) ha.ht ha.cfg
    have hmode : overlapMode (s.protectOlbc true) = overlapMode s := rfl
    rw [if_pos rfl, enableOlbc, if_pos (show (s.protectOlbc true).htCapability = true from ha.ht)]
    refine (hmv.setLlb_iff true).2 ⟨?_, ?_, h.llg, h.ht20⟩
    · rw [hmode, overlapMode_eq h]
      simp [protectOlbc]
    · simp [protectOlbc]
  | false =>
    have hmv := enterMixed_moved (s := s.protect11b true) (o := false) ha.ht ha.cfg
    rw [if_neg Bool.false_ne_true, enable11b,
      if_pos (show (s.protect11b true).htCapability = true from ha.ht)]
    exact (hmv.setLlb_iff true).2 ⟨by simp [protect11b], by simp [protect11b], h.llg, h.ht20⟩

theorem disable11b_iff (h : Follows s) (ha : HtAp s) (hb : s.beaconParams.llbCoexist = true) :
    Follows (settleLlb (disable11b s false)) ↔ s.gLim11gParams.protectionEnabled = true ∨
      s.gLimOverlap11gParams.protectionEnabled = false := by
  obtain ⟨hm, -, hl, h2⟩ := follows_iff_fits.1 h
  rw [disable11b]
  cases hg : s.gLim11gParams.protectionEnabled with
  | true =>
    rw [if_neg (by simpa [protect11b] using hg), (refl (s.protect11b false)).settleLlb_iff hb]
    refine iff_of_true ⟨?_, rfl, hl, h2⟩ (Or.inl rfl)
    simpa [protect11b, hg] using hm
  | false =>
    have hmv := leaveMixed_moved (s := s.protect11b false) ha.ht ha.cfg
    rw [if_pos (by simpa [protect11b] using hg), hmv.settleLlb_iff hb]
    -- the mode is right for the flags that are left; the 11g bit is not, if a flag has been lost
    have hbit : s.beaconParams.llgCoexist = s.gLimOverlap11gParams.protectionEnabled := by
      rw [hl, hg, Bool.false_or]
    constructor
    · intro hf
      refine Or.inr (hbit.symm.trans ?_)
      simpa [protect11b, hg] using hf.2.2.1
    · intro hf
      have hf := hbit.trans (hf.resolve_left Bool.false_ne_true)
      refine ⟨?_, rfl, by simpa [protect11b, hg] using hf, h2⟩
      rw [ht20Mode_protect11b]
      simp [protect11b, hg]

theorem enable11g_off_iff (h : Follows s) (ha : HtAp s) :
    Follows (limEnable11gProtection s false false) ↔ ProtCallOk s (.enable11g false false) := by
  rw [limEnable11gProtection, if_neg (by simp [ha.cfg, allProtection]), if_neg Bool.false_ne_true]
  have hl := h.llb
  cases hb : s.beaconParams.llbCoexist with
  | true =>
    rw [if_pos rfl, if_neg Bool.false_ne_true, disable11b_iff h ha hb]
    refine ⟨Or.inr, fun hok => hok.resolve_left fun hn => ?_⟩
    rw [hb, hn.1, hn.2] at hl
    nomatch hl
  | false =>
    rw [if_neg Bool.false_ne_true]
    exact iff_of_true h (Or.inl (by simpa [hb] using hl))

theorem enable11g_off_overlap (h : Follows s) (ha : HtAp s) :
    Follows (limEnable11gProtection s false true) := by
  obtain ⟨hm, -, hl, h2⟩ := follows_iff_fits.1 h
  rw [limEnable11gProtection, if_neg (by simp [ha.cfg, allProtection]), if_neg Bool.false_ne_true]
  cases hb : s.beaconParams.llbCoexist with
  | false => exact h
  | true =>
    rw [if_pos rfl, if_pos rfl, disableOlbc]
    split
    · next hov =>
      have hmv := leaveOverlap_moved (s := s.protectOlbc false) ha.ht ha.cfg
      have hov : s.gLimOverlap11gParams.protectionEnabled = false ∧
          s.gLimOverlapHt20Params.protectionEnabled = false ∧
          s.gLimOverlapNonGfParams.protectionEnabled = false := by
        simpa [protectOlbc, ha.ht, and_assoc] using hov
      refine (hmv.settleLlb_iff hb).2 ⟨(leaveOverlap_mode h).trans ?_, rfl, hl, h2⟩
      rw [ht20Mode_protectOlbc]
      simp [protectOlbc, hov]
    · next hov =>
      have hov : (s.gLimOverlap11gParams.protectionEnabled
          || s.gLimOverlapHt20Params.protectionEnabled
          || s.gLimOverlapNonGfParams.protectionEnabled) = true := by
        simpa [protectOlbc, ha.ht, or_assoc, imp_iff_not_or] using hov
      refine ((refl (s.protectOlbc false)).settleLlb_iff hb).2
        ⟨(stayOverlap_mode h ?_).trans ?_, rfl, hl, h2⟩
      · simp only [overlapEnabled, Bool.or_eq_true] at hov ⊢
        tauto
      · simp [protectOlbc, hov]

/-! #### 11g -/

theorem enableFrom11g_on (h : Follows s) (ha : HtAp s) :
    Follows (limEnableHtProtectionFrom11g s true o) := by
  rw [limEnableHtProtectionFrom11g, if_neg (by simp [ha.ht]),
    if_neg (by simp [ha.cfg, allProtection]), if_neg (by simp [ha.cfg, allProtection]), if_pos rfl]
  cases o with
  | true =>
    have hmv := enterOverlap_moved (s := s.protectOverlap11g true) (o := true) ha.ht ha.cfg
    have hmode : overlapMode (s.protectOverlap11g true) = overlapMode s := rfl
    rw [if_pos rfl]
    refine (hmv.setLlg_iff true).2 ⟨?_, h.llb, ?_, h.ht20⟩
    · rw [hmode, overlapMode_eq h]
      simp [protectOverlap11g]
    · simp [protectOverlap11g]
  | false =>
    have hmv := enterMixed_moved (s := s.protect11g true) (o := false) ha.ht ha.cfg
    rw [if_neg Bool.false_ne_true]
    exact (hmv.setLlg_iff true).2 ⟨by simp [protect11g], h.llb, by simp [protect11g], h.ht20⟩

/-- Disabling protection from 11g stations keeps the law: the flag that is lost is of its own kind. -/
theorem enableFrom11g_off (h : Follows s) (ha : HtAp s) :
    Follows (limEnableHtProtectionFrom11g s false false) := by
  obtain ⟨hm, hl, -, h2⟩ := follows_iff_fits.1 h
  rw [limEnableHtProtectionFrom11g, if_neg (by simp [ha.ht]),
    if_neg (by simp [ha.cfg, allProtection]), if_neg (by simp [ha.cfg, allProtection]),
    if_neg Bool.false_ne_true]
  cases hb : s.beaconParams.llgCoexist with
  | false => exact h
  | true =>
    rw [if_pos rfl, if_neg Bool.false_ne_true, disable11g]
    cases hbf : s.gLim11bParams.protectionEnabled with
    | true =>
      rw [if_neg (by simpa [protect11g] using hbf), (refl (s.protect11g false)).settleLlg_iff hb]
      refine ⟨?_, hl, rfl, h2⟩
      simpa [protect11g, hbf] using hm
    | false =>
      have hmv := leaveMixed_moved (s := s.protect11g false) ha.ht ha.cfg
      rw [if_pos (by simpa [protect11g] using hbf), hmv.settleLlg_iff hb]
      refine ⟨?_, hl, rfl, h2⟩
      rw [ht20Mode_protect11g]
      simp [protect11g, hbf]

/-- The flag of overlapping 11g stations stays and does not count any more: unless there is a further reason for the mode. -/
theorem leaveOverlap_fits (h : Follows s) {f : Bool}
    (hov : s.gLimOlbcParams.protectionEnabled = false ∧
      s.gLimOverlapHt20Params.protectionEnabled = false ∧
      s.gLimOverlapNonGfParams.protectionEnabled = false) :
    Fits (s.protectOverlap11g f)
        (if s.htOperMode = .overlapLegacy then ht20Mode s else s.htOperMode) f
        s.beaconParams.llbCoexist (s.gLim11gParams.protectionEnabled || f)
        s.beaconParams.ht20Coexist ↔
      f = false ∨ s.gLim11bParams.protectionEnabled = true ∨
        s.gLim11gParams.protectionEnabled = true := by
  have hrest : Fits (s.protectOverlap11g f)
        (if s.htOperMode = .overlapLegacy then ht20Mode s else s.htOperMode) f
        s.beaconParams.llbCoexist (s.gLim11gParams.protectionEnabled || f)
        s.beaconParams.ht20Coexist ↔
      (if s.htOperMode = .overlapLegacy then ht20Mode s else s.htOperMode)
        = (if s.gLim11bParams.protectionEnabled || s.gLim11gParams.protectionEnabled then .mixed
          else if s.gLimOlbcParams.protectionEnabled || f
            || s.gLimOverlapHt20Params.protectionEnabled
            || s.gLimOverlapNonGfParams.protectionEnabled then .overlapLegacy
          else ht20Mode s) :=
    ⟨And.left, fun hm => ⟨hm, h.llb, rfl, h.ht20⟩⟩
  rw [hrest, leaveOverlap_mode h, hov.1, hov.2.1, hov.2.2]
  cases s.gLim11bParams.protectionEnabled <;> cases s.gLim11gParams.protectionEnabled <;>
    cases f <;> simp [ht20Mode_ne]

theorem disableOverlap11g_iff (h : Follows s) (ha : HtAp s)
    (hb : s.beaconParams.llgCoexist = true) :
    Follows (settleLlg (disableOverlap11g s true)) ↔ ProtCallOk s (.enableFrom11g false true) := by
  rw [disableOverlap11g]
  generalize hf : (decide (s.gLim11gParams.numSta ≠ 0)
    && s.gLimOverlap11gParams.protectionEnabled) = f
  split
  · next hov =>
    have hmv := leaveOverlap_moved (s := s.protectOverlap11g f) ha.ht ha.cfg
    have hov : s.gLimOlbcParams.protectionEnabled = false ∧
        s.gLimOverlapHt20Params.protectionEnabled = false ∧
        s.gLimOverlapNonGfParams.protectionEnabled = false := by
      simpa [protectOverlap11g, and_assoc] using hov
    have hff : f = false ↔ s.gLim11gParams.numSta = 0 ∨
        s.gLimOverlap11gParams.protectionEnabled = false := by
      rw [← hf]
      simp [or_iff_not_imp_left]
    refine (hmv.settleLlg_iff hb).trans ((leaveOverlap_fits h hov).trans ?_)
    simp [ProtCallOk, hff, hov, or_assoc]
  · next hov =>
    have hov : s.gLimOlbcParams.protectionEnabled = true ∨
        s.gLimOverlapHt20Params.protectionEnabled = true ∨
        s.gLimOverlapNonGfParams.protectionEnabled = true := by
      simpa [protectOverlap11g, or_assoc, imp_iff_not_or] using hov
    refine iff_of_true (((refl (s.protectOverlap11g f)).settleLlg_iff hb).2
      ⟨(stayOverlap_mode h ?_).trans ?_, h.llb, rfl, h.ht20⟩) ?_
    · obtain ho | ho | ho := hov <;> simp [overlapEnabled, ho]
    · obtain ho | ho | ho := hov <;> simp [protectOverlap11g, ho]
    · exact Or.inr (Or.inr (Or.inr (Or.inr hov)))

theorem enableFrom11g_off_overlap_iff (h : Follows s) (ha : HtAp s) :
    Follows (limEnableHtProtectionFrom11g s false true) ↔
      ProtCallOk s (.enableFrom11g false true) := by
  have hl := h.llg
  rw [limEnableHtProtectionFrom11g, if_neg (by simp [ha.ht]),
    if_neg (by simp [ha.cfg, allProtection]), if_neg (by simp), if_neg Bool.false_ne_true]
  cases hb : s.beaconParams.llgCoexist with
  | true =>
    rw [if_pos rfl, if_pos rfl]
    exact disableOverlap11g_iff h ha hb
  | false =>
    rw [if_neg Bool.false_ne_true]
    rw [hb] at hl
    exact iff_of_true h (Or.inr (Or.inl (Bool.or_eq_false_iff.1 hl.symm).2))

/-! #### HT20 -/

theorem enableHT20_on_overlap (h : Follows s) (ha : HtAp s) :
    Follows (limEnableHT20Protection s true true) := by
  rw [limEnableHT20Protection, if_neg (by simp [ha.ht]), if_neg (by simp), if_pos rfl, if_pos rfl,
    enableOverlapHt20]
  have hmode : overlapMode (s.protectOverlapHt20 true) = overlapMode s := rfl
  have hlaw : overlapMode s = if s.gLim11bParams.protectionEnabled
      || s.gLim11gParams.protectionEnabled then .mixed else .overlapLegacy := overlapMode_eq h
  split
  · next hm =>
    have hmv := mode_rifs_moved (s := s.protectOverlapHt20 true) (m := .overlapLegacy) (o := true)
      rfl true
    rw [overlapMode, if_pos hm] at hmode
    refine (hmv.setHt20_iff true).2 ⟨(hmode.trans hlaw).trans ?_, h.llb, h.llg, ?_⟩ <;>
      simp [protectOverlapHt20]
  · next hm =>
    rw [overlapMode, if_neg hm] at hmode
    refine ((refl (s.protectOverlapHt20 true)).setHt20_iff true).2
      ⟨(hmode.trans hlaw).trans ?_, h.llb, h.llg, ?_⟩ <;>
      simp [protectOverlapHt20]

/-- Under the law no other flag asks for a mode, when it is neither mixed nor that of an overlapping BSS. -/
theorem alone_flags (h : Follows s) (hm : s.htOperMode ≠ .mixed)
    (ho : s.htOperMode ≠ .overlapLegacy) :
    s.gLim11bParams.protectionEnabled = false ∧ s.gLim11gParams.protectionEnabled = false ∧
      overlapEnabled s = false ∧ s.htOperMode = ht20Mode s := by
  have hr := h.mode
  rw [ruledMode] at hr
  split at hr
  · exact absurd hr hm
  · next hbg =>
    split at hr
    · exact absurd hr ho
    · next hov =>
      obtain ⟨hb, hg⟩ := Bool.or_eq_false_iff.1 (Bool.eq_false_iff.2 hbg)
      exact ⟨hb, hg, Bool.eq_false_iff.2 hov, hr⟩

theorem overlapEnabled_eq_false : overlapEnabled s = false ↔
    s.gLimOlbcParams.protectionEnabled = false ∧ s.gLimOverlap11gParams.protectionEnabled = false ∧
      s.gLimOverlapHt20Params.protectionEnabled = false ∧
      s.gLimOverlapNonGfParams.protectionEnabled = false := by
  simp [overlapEnabled, and_assoc]

theorem ht20Mode_protectHt20 {v : Bool} (h : Follows s)
    (hm : s.htOperMode = ht20Mode s → ht20Mode (s.protectHt20 v) = ht20Mode s) :
    s.htOperMode = if s.gLim11bParams.protectionEnabled || s.gLim11gParams.protectionEnabled
      then .mixed else if overlapEnabled s then .overlapLegacy else ht20Mode (s.protectHt20 v) := by
  have hr := h.mode
  rw [ruledMode] at hr
  split
  · next hbg => rw [hr, if_pos hbg]
  · next hbg =>
    rw [if_neg hbg] at hr
    split
    · next hov => rw [hr, if_pos hov]
    · next hov =>
      rw [if_neg hov] at hr
      rw [hm hr, hr]

theorem enableHT20_on (h : Follows s) (ha : HtAp s) :
    Follows (limEnableHT20Protection s true false) := by
  rw [limEnableHT20Protection, if_neg (by simp [ha.ht]),
    if_neg (by simp [ha.cfg, allProtection]), if_pos rfl, if_neg Bool.false_ne_true, enableHt20]
  split
  · next hp =>
    have hp : s.htOperMode = .pure := hp
    have hmv := mode_rifs_obss_moved (s := s.protectHt20 true)
      (m := if (s.protectHt20 true).htSupportedChannelWidthSet ≠ .w20MHz then .noLegacy20MHzHt
        else (s.protectHt20 true).htOperMode) (o := false) ha.ht ha.cfg false
    -- the mode is pure, so the flag that is lost was clear
    obtain ⟨hb, hg, ho, -⟩ := alone_flags h (by simp [hp]) (by simp [hp])
    obtain ⟨h₁, h₂, h₃, h₄⟩ := overlapEnabled_eq_false.1 ho
    refine (hmv.setHt20_iff true).2 ⟨?_, h.llb, ?_, ?_⟩
    · simp [protectHt20, hb, hg, h₁, h₃, h₄, ht20Mode, hp]
    · simpa [protectHt20, h₂] using h.llg
    · simp [protectHt20]
  · next hp =>
    have hp : s.htOperMode ≠ .pure := hp
    -- a mode that is not pure has been computed from the flag
    have hsame : s.htOperMode = ht20Mode s → ht20Mode (s.protectHt20 true) = ht20Mode s := by
      intro hr
      rw [hr] at hp
      by_cases hf : s.gLimHt20Params.protectionEnabled
      · rw [protectHt20_self hf]
      · exact absurd (by simp [ht20Mode, hf]) hp
    exact ((refl (s.protectHt20 true)).setHt20_iff true).2
      ⟨ht20Mode_protectHt20 (s := s) h hsame, h.llb, h.llg, by simp [protectHt20]⟩

theorem disableHt20_iff (h : Follows s) (ha : HtAp s) :
    Follows ((disableHt20 s false).setHt20 false) ↔
      s.gLimOverlapHt20Params.protectionEnabled = false := by
  rw [disableHt20]
  split
  · next hp =>
    have hp : s.htOperMode = .noLegacy20MHzHt := hp
    have hmv := mode_rifs_obss_moved (s := s.protectHt20 false) (m := .pure) (o := false)
      ha.ht ha.cfg false
    obtain ⟨hb, hg, ho, -⟩ := alone_flags h (by simp [hp]) (by simp [hp])
    obtain ⟨h₁, h₂, h₃, h₄⟩ := overlapEnabled_eq_false.1 ho
    refine (hmv.setHt20_iff false).trans (iff_of_true ⟨?_, h.llb, ?_, ?_⟩ h₃)
    · simp [protectHt20, hb, hg, h₁, h₃, h₄, ht20Mode]
    · simpa [protectHt20, h₂] using h.llg
    · simp [protectHt20, h₃]
  · next hp =>
    have hp : s.htOperMode ≠ .noLegacy20MHzHt := hp
    -- a mode that is not this one is pure, whatever the flag was
    have hsame : s.htOperMode = ht20Mode s → ht20Mode (s.protectHt20 false) = ht20Mode s := by
      intro hr
      rw [hr] at hp
      have hpure : ht20Mode s = .pure := by
        by_cases hf : s.gLimHt20Params.protectionEnabled
        · by_cases hw : s.htSupportedChannelWidthSet = .w20MHz
          · simp [ht20Mode, hw]
          · exact absurd (by simp [ht20Mode, hf, hw]) hp
        · simp [ht20Mode, hf]
      rw [hpure]
      simp [ht20Mode, protectHt20]
    refine ((refl (s.protectHt20 false)).setHt20_iff false).trans ⟨fun hf => ?_, fun hf => ?_⟩
    · simpa [protectHt20] using hf.2.2.2
    · exact ⟨ht20Mode_protectHt20 (s := s) h hsame, h.llb, h.llg,
        by simp [protectHt20, hf]⟩

theorem disableOverlapHt20_moved (h : Follows s) (ha : HtAp s) :
    Moved (s.protectOverlapHt20 false) (disableOverlapHt20 s true)
      (ruledMode (s.protectOverlapHt20 false)) s.gLimOverlap11gParams.protectionEnabled := by
  rw [disableOverlapHt20]
  split
  · next hov =>
    obtain ⟨ho, hm⟩ : overlapEnabled (s.protectOverlapHt20 false) = false ∧
        s.htOperMode = .overlapLegacy := by
      obtain ⟨ho, hm⟩ := Bool.and_eq_true_iff.1 hov
      exact ⟨by simpa using ho, of_decide_eq_true hm⟩
    -- under the law the mode of an overlapping BSS is that of a BSS without 11b and 11g stations
    have hbg : (s.gLim11bParams.protectionEnabled || s.gLim11gParams.protectionEnabled) = false := by
      have hr := h.mode
      rw [ruledMode] at hr
      cases hbg : s.gLim11bParams.protectionEnabled || s.gLim11gParams.protectionEnabled
      · rfl
      · rw [if_pos hbg, hm] at hr
        nomatch hr
    have hrule : ruledMode (s.protectOverlapHt20 false) = ht20Mode (s.protectOverlapHt20 false) := by
      rw [ruledMode, if_neg (by simpa [protectOverlapHt20] using hbg), if_neg (by simp [ho])]
    rw [hrule]
    split
    · exact mode_rifs_obss_moved (s := s.protectOverlapHt20 false) (o := true) ha.ht ha.cfg false
    · next hf =>
      have hpure : ht20Mode (s.protectOverlapHt20 false) = .pure := by
        rw [ht20Mode, if_neg hf]
      rw [hpure]
      exact mode_moved rfl
  · next hov =>
    have hrule : s.htOperMode = ruledMode (s.protectOverlapHt20 false) := by
      have hb : (s.protectOverlapHt20 false).gLim11bParams = s.gLim11bParams := rfl
      have hg : (s.protectOverlapHt20 false).gLim11gParams = s.gLim11gParams := rfl
      rw [ruledMode, hb, hg, ht20Mode_protectOverlapHt20]
      split
      · next hbg => rw [h.mode, ruledMode, if_pos hbg]
      · next hbg =>
        have hr := h.mode
        rw [ruledMode, if_neg hbg] at hr
        split
        · next ho =>
          -- an overlapping BSS that is left was there before
          have ho : overlapEnabled s = true := by
            simp only [overlapEnabled, protectOverlapHt20, Bool.or_eq_true] at ho ⊢
            tauto
          rw [hr, if_pos ho]
        · next ho =>
          split at hr
          · refine absurd (Bool.and_eq_true_iff.2 ⟨?_, decide_eq_true hr⟩) hov
            simpa using ho
          · exact hr
    exact hrule ▸ refl (s.protectOverlapHt20 false)

/-- Disabling protection from overlapping HT20 stations, where the bit is cleared at the end. -/
theorem disableOverlapHt20_iff (h : Follows s) (ha : HtAp s) :
    Follows ((disableOverlapHt20 s true).setHt20 false) ↔
      s.gLimHt20Params.protectionEnabled = false := by
  refine ((disableOverlapHt20_moved h ha).setHt20_iff false).trans ⟨fun hf => ?_, fun hf => ?_⟩
  · simpa [protectOverlapHt20] using hf.2.2.2
  · exact ⟨rfl, h.llb, h.llg, by simp [protectOverlapHt20, hf]⟩

theorem enableHT20_off_iff (h : Follows s) (ha : HtAp s) :
    Follows (limEnableHT20Protection s false o) ↔ ProtCallOk s (.enableHT20 false o) := by
  have h2 := h.ht20
  rw [limEnableHT20Protection, if_neg (by simp [ha.ht]),
    if_neg (by simp [ha.cfg, allProtection]), if_neg Bool.false_ne_true]
  cases hb : s.beaconParams.ht20Coexist with
  | true =>
    rw [if_pos rfl]
    cases o with
    | true => rw [if_pos rfl, disableOverlapHt20_iff h ha, ProtCallOk]
    | false => rw [if_neg Bool.false_ne_true, disableHt20_iff h ha, ProtCallOk]
  | false =>
    -- the bit is clear, and so are both flags
    rw [if_neg Bool.false_ne_true]
    rw [hb] at h2
    obtain ⟨h₁, h₂⟩ := Bool.or_eq_false_iff.1 h2.symm
    cases o
    · exact iff_of_true h h₂
    · exact iff_of_true h h₁

/-! ### One call, and all of them -/

/-- **One call.**  It keeps the law if and only if the condition holds. -/
theorem protCall_follows_iff (h : Follows s) (ha : HtAp s) (c : ProtCall) :
    Follows (protCall s c) ↔ ProtCallOk s c := by
  match c with
  | .enable11g true o => exact iff_of_true (enable11g_on h ha) trivial
  | .enable11g false true => exact iff_of_true (enable11g_off_overlap h ha) trivial
  | .enable11g false false => exact enable11g_off_iff h ha
  | .enableFrom11g true o => exact iff_of_true (enableFrom11g_on h ha) trivial
  | .enableFrom11g false true => exact enableFrom11g_off_overlap_iff h ha
  | .enableFrom11g false false => exact iff_of_true (enableFrom11g_off h ha) trivial
  | .enableHT20 true true => exact iff_of_true (enableHT20_on_overlap h ha) trivial
  | .enableHT20 true false => exact iff_of_true (enableHT20_on h ha) trivial
  | .enableHT20 false o => exact enableHT20_off_iff h ha
  | .count11g n => exact iff_of_true ⟨h.mode, h.llb, h.llg, h.ht20⟩ trivial

theorem HtAp.of_ap (ha : HtAp s) (h : s'.standing.ap = s.standing.ap) : HtAp s' where
  ht := (congrArg ApConfig.htCapability h).trans ha.ht
  cfg := (congrArg ApConfig.cfgProtection h).trans ha.cfg
  band := (congrArg ApConfig.rfBand h).trans ha.band

theorem HtAp.call (ha : HtAp s) (c : ProtCall) : HtAp (protCall s c) := by
  cases c with
  | enable11g e o => exact ha.of_ap (congrArg Standing.ap (standing_enable11g e))
  | enableFrom11g e o => exact ha.of_ap (congrArg Standing.ap (standing_enableFrom11g e))
  | enableHT20 e o =>
    obtain ⟨b, hb⟩ := standing_enableHT20 (s := s) (o := o) e
    have hap := congrArg Standing.ap hb
    exact ha.of_ap hap
  | count11g n => exact ⟨ha.ht, ha.cfg, ha.band⟩

theorem reach_begun (h : protMachine.Reach ProtCallOk s) : s.Begun := by
  refine h.invariant Session.Begun (fun _ h => h) ?_
  rintro t c _ ⟨ha, hf⟩ hok ⟨⟩
  exact ⟨ha.call c, (protCall_follows_iff hf ha c).2 hok⟩

/-- **The operating mode.**  Where all calls have met the condition, the mode and the coexistence bits follow
from the flags, and they do so after the next call exactly when it meets the condition too. -/
theorem protection_follows_iff (s : Session) (hs : protMachine.Reach ProtCallOk s) :
    Follows s ∧ ∀ c, Follows (protCall s c) ↔ ProtCallOk s c :=
  have hb := reach_begun hs
  ⟨hb.2, protCall_follows_iff hb.2 hb.1⟩

end

def freshSession : Session where
  rfBand := .band24GHz
  gLimPhyMode := 2
  htCapability := true
  htSupportedChannelWidthSet := .w40MHz
  cfgProtection := allProtection
  beaconParams := ⟨false, false, false, false, false, false, false, false⟩
  htOperMode := .pure
  gLim11bParams := ⟨0, false⟩
  gLim11aParams := ⟨0, false⟩
  gLim11gParams := ⟨0, false⟩
  gLimNonGfParams := ⟨0, false⟩
  gLimHt20Params := ⟨0, false⟩
  gLimLsigTxopParams := ⟨0, false⟩
  gLimOlbcParams := ⟨0, false⟩
  gLimOverlap11gParams := ⟨0, false⟩
  gLimOverlapHt20Params := ⟨0, false⟩
  gLimOverlapNonGfParams := ⟨0, false⟩
  protStaCache _ := ⟨false, .zero, .invalid⟩
  lim := ⟨.pure, ⟨0, false⟩, ⟨0, false⟩, ⟨0, false⟩⟩

theorem freshSession_begun : freshSession.Begun := ⟨⟨rfl, rfl, rfl⟩, ⟨rfl, rfl, rfl, rfl⟩⟩

theorem protection_follows_iff_gone :
    ∃ s, protMachine.run freshSession [.enableHT20 true false, .enable11g true false,
        .count11g 1, .enableFrom11g true false, .enable11g false false, .count11g 0,
        .enableFrom11g false false] = some s ∧ Follows s ∧ s.htOperMode = .noLegacy20MHzHt :=
  Machine.exists_right (fun s hs => (protection_follows_iff s hs).1) freshSession_begun
    (by decide +kernel) (by decide +kernel)

/-- The overlapping 20 MHz stations leave: the bit is cleared, though there is one in the BSS.  And the last 11b
station leaves: that there are overlapping 11g stations is forgotten, but the bit stays and the mode is pure. -/
theorem leaving_forgets_other_flag :
    (∃ s, protMachine.run freshSession [.enableHT20 true false, .enableHT20 true true,
        .enableHT20 false true] = some s ∧ ¬ Follows s ∧
      s.beaconParams.ht20Coexist = false ∧ s.gLimHt20Params.protectionEnabled = true) ∧
    ∃ s, protMachine.run freshSession [.enableFrom11g true true, .enable11g true false,
        .enable11g false false] = some s ∧ ¬ Follows s ∧
      s.htOperMode = .pure ∧ s.beaconParams.llgCoexist = true :=
  ⟨Machine.exists_run (by decide +kernel), Machine.exists_run (by decide +kernel)⟩

end Qcacld.Lim

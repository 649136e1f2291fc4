import Qcacld.Lim.LimAdmitControl
import Qcacld.Lim.LimProtection
import Mathlib.Data.Finset.Card
import Mathlib.Data.Set.Function

/-!
# Lim — LimProtStaCache

The stations an access point protects from.  `limDecideApProtection` enters a joining station once in a cache of addresses and counts it under each kind it is of; `limDecideApProtectionOnDelete` works out the kinds again when it leaves, looks for its entry for each of them, and frees the entry in some of the branches only.

`Right` is what the cache and the counters are to be, and `prot_counters_iff` says which joins and leaves keep it: all joins but those of 11a stations, and the leaves of 11b and 11g stations; of HT stations only those of some that are counted as 20 MHz ones.
-/

namespace Qcacld.Lim
open Qcacld.Support Qcacld.Dph Function List ApConfig Standing

/-! ### 11a -/

namespace Session

def setLla (s : Session) (b : Bool) : Session := { s with beaconParams.llaCoexist := b }

def protect11a (s : Session) (b : Bool) : Session := { s with gLim11aParams.protectionEnabled := b }

def protectOverlap11a (s : Session) (b : Bool) : Session :=
  { s with lim.gLimOverlap11aParams.protectionEnabled := b }

def setGHTOperMode (s : Session) (m : HtOpMode) : Session := { s with lim.gHTOperMode := m }

end Session

/-- An overlapping BSS has been seen that needs protection, by any session. -/
def limOverlapEnabled (s : Session) : Bool :=
  s.lim.gLimOverlap11aParams.protectionEnabled || s.lim.gLimOverlapHt20Params.protectionEnabled
    || s.lim.gLimOverlapNonGfParams.protectionEnabled

/-- Protection from overlapping 11a stations is enabled. -/
def enableOverlap11a (s : Session) (overlap : Bool) : Session :=
  let s := s.protectOverlap11a true
  if s.lim.gHTOperMode ≠ .overlapLegacy ∧ s.lim.gHTOperMode ≠ .mixed then
    let s := { s.setGHTOperMode .overlapLegacy with htOperMode := .overlapLegacy }
    let s := limEnableHtRifsProtection s true overlap
    limEnableHtOBSSProtection s true overlap
  else s

def enable11a (s : Session) (overlap : Bool) : Session :=
  let s := s.protect11a true
  if s.htOperMode ≠ .mixed then
    let s := { s.setGHTOperMode .mixed with htOperMode := .mixed }
    let s := limEnableHtRifsProtection s true overlap
    limEnableHtOBSSProtection s true overlap
  else s

/-- Protection from overlapping 11a stations is disabled. -/
def disableOverlap11a (s : Session) (overlap : Bool) : Session :=
  let s := s.protectOverlap11a false
  if s.htCapability && !limOverlapEnabled s && s.lim.gHTOperMode = .overlapLegacy then
    let s := limEnableHtRifsProtection s false overlap
    let s := limEnableHtOBSSProtection s false overlap
    s.setGHTOperMode (if s.gLimHt20Params.protectionEnabled then .noLegacy20MHzHt else .pure)
  else s

def disable11a (s : Session) (overlap : Bool) : Session :=
  let s := limEnableHtOBSSProtection (s.protect11a false) false overlap
  if limOverlapEnabled s then
    limEnableHtRifsProtection { s.setGHTOperMode .overlapLegacy with htOperMode := .overlapLegacy }
      true overlap
  else if s.gLimHt20Params.protectionEnabled then
    limEnableHtRifsProtection
      { s.setGHTOperMode .noLegacy20MHzHt with htOperMode := .noLegacy20MHzHt } false overlap
  else
    limEnableHtRifsProtection { s.setGHTOperMode .pure with htOperMode := .pure } false overlap

/-- The bit is cleared when neither flag is set. -/
def settleLla (s : Session) : Session :=
  if !s.lim.gLimOverlap11aParams.protectionEnabled && !s.gLim11aParams.protectionEnabled then
    s.setLla false
  else s

def limEnable11aProtection (s : Session) (enable overlap : Bool) : Session :=
  if !overlap && !s.cfgProtection.fromlla then s
  else if enable then
    (if s.htCapability then
      if overlap then enableOverlap11a s overlap else enable11a s overlap
    else s).setLla true
  else if s.beaconParams.llaCoexist then
    settleLla (if overlap then disableOverlap11a s overlap else disable11a s overlap)
  else s

/-! ### Non-greenfield and L-SIG TXOP -/

def limEnableHTNonGfProtection (s : Session) (enable overlap : Bool) : Session :=
  { s with beaconParams.llnNonGFCoexist :=
      if !s.htCapability || (!overlap && !s.cfgProtection.nonGf) then s.beaconParams.llnNonGFCoexist
      else enable }

def limEnableHTLsigTxopProtection (s : Session) (enable overlap : Bool) : Session :=
  { s with beaconParams.fLsigTXOPProtectionFullSupport :=
      if !s.htCapability || (!overlap && !s.cfgProtection.lsigTxop) then
        s.beaconParams.fLsigTXOPProtectionFullSupport
      else enable }

/-! ### The stations -/

def limProtStaCacheSize : Nat := 32

/-- What protection reads of `tDphHashNode`. -/
structure StaDs where
  staAddr : SirMacAddr
  erpEnabled : Bool
  htCapability : Bool
  htGreenfield : Bool
  htSupportedChannelWidthSet : HtChannelWidth
  htLsigTXOPProtection : Bool
deriving DecidableEq

namespace Session

def setNumSta (s : Session) (k : ProtKind) (n : Nat) : Session :=
  match k with
  | .llB => { s with gLim11bParams.numSta := n }
  | .llA => { s with gLim11aParams.numSta := n }
  | .llG => { s with gLim11gParams.numSta := n }
  | .nonGf => { s with gLimNonGfParams.numSta := n }
  | .ht20 => { s with gLimHt20Params.numSta := n }
  | .lsigTxop => { s with gLimLsigTxopParams.numSta := n }

def countUp (s : Session) (k : ProtKind) : Session := s.setNumSta k (s.numSta k + 1)

def setCache (s : Session) (i : Nat) (c : CacheParams) : Session :=
  { s with protStaCache := update s.protStaCache i c }

def freeCache (s : Session) (i : Nat) : Session :=
  s.setCache i { s.protStaCache i with active := false }

end Session

def seekCache (cache : Nat → CacheParams) (addr : SirMacAddr) : Option Nat :=
  (List.range limProtStaCacheSize).find? fun i => (cache i).active && (cache i).addr = addr

def freeSlot (cache : Nat → CacheParams) : Option Nat :=
  (List.range limProtStaCacheSize).find? fun i => !(cache i).active

/-! ### Joining -/

def countType (s : Session) : ProtStaCacheType → Session
  | .invalid => s
  | .llB => s.countUp .llB
  | .llG => s.countUp .llG
  | .ht20 => s.countUp .ht20

/-- The counters of the features a station lacks. -/
def countLacking (s : Session) (gfSupported lsigTxopSupported : Bool) : Session :=
  let s := if !gfSupported then s.countUp .nonGf else s
  if !lsigTxopSupported then s.countUp .lsigTxop else s

def limUpdateProtStaParams (s : Session) (peerMacAddr : SirMacAddr) (type : ProtStaCacheType)
    (gfSupported lsigTxopSupported : Bool) : Session :=
  match seekCache s.protStaCache peerMacAddr with
  | some _ => s
  | none =>
    match freeSlot s.protStaCache with
    | none => s
    | some i =>
      countLacking (countType (s.setCache i ⟨true, peerMacAddr, type⟩) type)
        gfSupported lsigTxopSupported

/-- A station joins in the 2.4 GHz band: is it an 11b or an 11g one? -/
def joinLegacy (s : Session) (pStaDs : StaDs) : Session × ProtStaCacheType :=
  if s.htCapability then
    if !pStaDs.erpEnabled && !pStaDs.htCapability then (limEnable11gProtection s true false, .llB)
    else if !pStaDs.htCapability then (limEnableHtProtectionFrom11g s true false, .llG)
    else (s, .invalid)
  else if s.gLimPhyMode = wniCfgPhyMode11g ∧ !pStaDs.erpEnabled then
    (limEnable11gProtection s true false, .llB)
  else (s, .invalid)

/-- An HT station joins an HT access point: does it support 40 MHz? -/
def joinHt20 (s : Session) (pStaDs : StaDs) (type : ProtStaCacheType) :
    Session × ProtStaCacheType :=
  if pStaDs.htSupportedChannelWidthSet = .w20MHz ∧ s.htSupportedChannelWidthSet ≠ .w20MHz then
    (limEnableHT20Protection s true false, .ht20)
  else (s, type)

/-- The part of joining that is common to both bands. -/
def joinHt (s : Session) (pStaDs : StaDs) (type : ProtStaCacheType) : Session :=
  if s.htCapability && pStaDs.htCapability then
    let s := if !pStaDs.htGreenfield then limEnableHTNonGfProtection s true false else s
    let r := joinHt20 s pStaDs type
    let s := if !pStaDs.htLsigTXOPProtection then limEnableHTLsigTxopProtection r.1 false false
      else r.1
    limUpdateProtStaParams s pStaDs.staAddr r.2 pStaDs.htGreenfield pStaDs.htLsigTXOPProtection
  else limUpdateProtStaParams s pStaDs.staAddr type true true

/-- `limDecideApProtection`, when the table has the node `pStaDs` under the station's address.  An 11a station is not entered. -/
def limDecideApProtection (s : Session) (pStaDs : StaDs) : Session :=
  if s.rfBand = .band5GHz ∧ s.htCapability ∧ !pStaDs.htCapability then
    limEnable11aProtection s true false
  else if s.rfBand = .band24GHz then
    joinHt (joinLegacy s pStaDs).1 pStaDs (joinLegacy s pStaDs).2
  else joinHt s pStaDs .invalid

/-! ### Leaving -/

/-- A counter that is not zero goes down if the address is found, and its entry may be freed with it. -/
def countDown (s : Session) (k : ProtKind) (addr : SirMacAddr) (free : Bool) : Session :=
  if 0 < s.numSta k then
    match seekCache s.protStaCache addr with
    | none => s
    | some i =>
      let s := s.setNumSta k (s.numSta k - 1)
      if free then s.freeCache i else s
  else s

/-- A station of a kind leaves; after the last one protection is disabled. -/
def leaveKind (k : ProtKind) (free : Bool) (disable : Session → Session) (s : Session)
    (addr : SirMacAddr) : Session :=
  let s := countDown s k addr free
  if s.numSta k = 0 then disable s else s

def leave11a : Session → SirMacAddr → Session :=
  leaveKind .llA false fun s => limEnable11aProtection s false false

def leave11b : Session → SirMacAddr → Session :=
  leaveKind .llB true fun s => limEnable11gProtection s false false

def leave11g : Session → SirMacAddr → Session :=
  leaveKind .llG true fun s => limEnableHtProtectionFrom11g s false false

/-- A station without greenfield support leaves. -/
def leaveNonGf : Session → SirMacAddr → Session :=
  leaveKind .nonGf false fun s => limEnableHTNonGfProtection s false false

def limDecideApProtectionOnHt20Delete : Session → SirMacAddr → Session :=
  leaveKind .ht20 true fun s => limEnableHT20Protection s false false

/-- A station without L-SIG TXOP protection leaves. -/
def leaveLsigTxop : Session → SirMacAddr → Session :=
  leaveKind .lsigTxop false fun s => limEnableHTLsigTxopProtection s true false

/-- The part of leaving that depends on the band. -/
def leaveLegacy (s : Session) (pStaDs : StaDs) : Session :=
  if s.rfBand = .band5GHz then
    if s.htCapability && s.beaconParams.llaCoexist && !pStaDs.htCapability then
      leave11a s pStaDs.staAddr
    else s
  else if s.rfBand = .band24GHz then
    if (s.gLimPhyMode = wniCfgPhyMode11g || s.htCapability) && !pStaDs.erpEnabled then
      leave11b s pStaDs.staAddr
    else if s.htCapability && !pStaDs.htCapability then leave11g s pStaDs.staAddr
    else s
  else s

/-- Does the HT station lack greenfield support? -/
def leaveHtNonGf (s : Session) (pStaDs : StaDs) : Session :=
  if !pStaDs.htGreenfield then leaveNonGf s pStaDs.staAddr else s

def leaveHt20 (s : Session) (pStaDs : StaDs) : Session :=
  if s.beaconParams.ht20Coexist && pStaDs.htSupportedChannelWidthSet = .w20MHz then
    limDecideApProtectionOnHt20Delete s pStaDs.staAddr
  else s

/-- Does the HT station lack L-SIG TXOP protection? -/
def leaveHtLsigTxop (s : Session) (pStaDs : StaDs) : Session :=
  if !s.beaconParams.fLsigTXOPProtectionFullSupport && !pStaDs.htLsigTXOPProtection then
    leaveLsigTxop s pStaDs.staAddr
  else s

/-- The part of leaving that is common to both bands. -/
def leaveHt (s : Session) (pStaDs : StaDs) : Session :=
  if s.htCapability && pStaDs.htCapability then
    leaveHtLsigTxop (leaveHt20 (leaveHtNonGf s pStaDs) pStaDs) pStaDs
  else s

def limDecideApProtectionOnDelete (s : Session) (pStaDs : StaDs) : Session :=
  leaveHt (leaveLegacy s pStaDs) pStaDs

/-! ### The law -/

/-- An access point enters all stations but, in the 5 GHz band, the 11a ones. -/
def ApConfig.enters (ap : ApConfig) (sta : StaDs) : Bool :=
  !(ap.rfBand = .band5GHz && ap.htCapability && !sta.htCapability)

/-- The stations of a kind, as the access point tells them when they join. -/
def ApConfig.isKind (ap : ApConfig) (sta : StaDs) : ProtKind → Bool
  | .llB => ap.rfBand = .band24GHz && !sta.erpEnabled
      && (if ap.htCapability then !sta.htCapability else ap.gLimPhyMode = wniCfgPhyMode11g)
  | .llA => ap.rfBand = .band5GHz && ap.htCapability && !sta.htCapability
  | .llG => ap.rfBand = .band24GHz && ap.htCapability && sta.erpEnabled && !sta.htCapability
  | .nonGf => ap.htCapability && sta.htCapability && !sta.htGreenfield
  | .ht20 => ap.htCapability && sta.htCapability && sta.htSupportedChannelWidthSet = .w20MHz
      && ap.htSupportedChannelWidthSet ≠ .w20MHz
  | .lsigTxop => ap.htCapability && sta.htCapability && !sta.htLsigTXOPProtection

def activeSlots (cache : Nat → CacheParams) : Set Nat :=
  {i | i < limProtStaCacheSize ∧ (cache i).active = true}

/-- **The law.**  The active entries are the stations that have joined and are entered, each once, and each counter is the number of the joined stations of its kind. -/
structure CacheRight (t : Standing) (joined : List StaDs) : Prop where
  entries : Set.BijOn (fun i => (t.protStaCache i).addr) (activeSlots t.protStaCache)
    {a | ∃ sta ∈ joined, t.ap.enters sta = true ∧ sta.staAddr = a}
  count : ∀ k, t.num k = joined.countP fun sta => t.ap.isKind sta k

/-- An access point and the stations that have joined it. -/
structure ApStations where
  session : Session
  joined : List StaDs

inductive ApEvent where
  | join (pStaDs : StaDs)
  | leave (pStaDs : StaDs)

/-- A station joins, again or, when there is room and no other one has its address, for the first time; or it leaves. -/
def apStep (a : ApStations) : ApEvent → Option ApStations
  | .join sta => do
    guard (sta ∈ a.joined ∨
      (∀ x ∈ a.joined, x.staAddr ≠ sta.staAddr) ∧ a.joined.length < limProtStaCacheSize)
    return ⟨limDecideApProtection a.session sta,
      if sta ∈ a.joined then a.joined else sta :: a.joined⟩
  | .leave sta => do
    guard (sta ∈ a.joined)
    return ⟨limDecideApProtectionOnDelete a.session sta, a.joined.erase sta⟩

def apMachine : Machine ApStations ApEvent where
  init a := a.joined = [] ∧ (∀ k, a.session.numSta k = 0) ∧
    ∀ i < limProtStaCacheSize, (a.session.protStaCache i).active = false
  step := apStep

/-- **The condition.**  A station that joins is entered; one that leaves is an 11b or an 11g station, or a
20 MHz one that supports L-SIG TXOP, while the coexistence bit is set and no 11b station can be mistaken
for it. -/
def ApEventOk (a : ApStations) : ApEvent → Prop
  | .join sta => sta ∈ a.joined ∨ a.session.standing.ap.enters sta = true
  | .leave sta =>
    a.session.standing.ap.isKind sta .llB = true ∨ a.session.standing.ap.isKind sta .llG = true ∨
      a.session.standing.ap.isKind sta .ht20 = true ∧
        a.session.standing.ht20Coexist = true ∧ sta.htLsigTXOPProtection = true ∧
        ¬(a.session.rfBand = .band24GHz ∧ sta.erpEnabled = false ∧ 0 < a.session.numSta .llB)

instance : ∀ a e, Decidable (ApEventOk a e)
  | _, .join _ => inferInstanceAs (Decidable (_ ∨ _))
  | _, .leave _ => inferInstanceAs (Decidable (_ ∨ _))

/-! ### What the calls leave -/

namespace Standing

def setNum (t : Standing) (k : ProtKind) (n : Nat) : Standing :=
  { t with num := update t.num k n }

def setCache (t : Standing) (i : Nat) (c : CacheParams) : Standing :=
  { t with protStaCache := update t.protStaCache i c }

end Standing

section
variable {s : Session} {t : Standing} {k : ProtKind} {i n : Nat} {b o : Bool}

@[simp]
theorem standing_setNumSta : (s.setNumSta k n).standing = s.standing.setNum k n := by
  have hnum : (s.setNumSta k n).numSta = update s.numSta k n := by
    funext k'
    by_cases hk : k' = k
    · subst hk
      rw [update_self]
      cases k' <;> rfl
    · rw [update_of_ne hk]
      cases k <;> cases k' <;> first | rfl | exact absurd rfl hk
  have hrest : (s.setNumSta k n).standing = { s.standing with num := (s.setNumSta k n).numSta } := by
    cases k <;> rfl
  rw [hrest, hnum]
  rfl

@[simp]
theorem standing_setCache (c : CacheParams) :
    (s.setCache i c).standing = s.standing.setCache i c := rfl

@[simp]
theorem standing_setLla : (s.setLla b).standing = s.standing := rfl

@[simp]
theorem standing_protect11a : (s.protect11a b).standing = s.standing := rfl

@[simp]
theorem standing_protectOverlap11a : (s.protectOverlap11a b).standing = s.standing := rfl

@[simp]
theorem standing_setGHTOperMode {m : HtOpMode} : (s.setGHTOperMode m).standing = s.standing := rfl

@[simp]
theorem standing_enable11a (e : Bool) : (limEnable11aProtection s e o).standing = s.standing := by
  simp [limEnable11aProtection, enableOverlap11a, enable11a, disableOverlap11a, disable11a,
    settleLla, apply_ite Session.standing]

@[simp]
theorem standing_enableNonGf (e : Bool) :
    (limEnableHTNonGfProtection s e o).standing = s.standing := rfl

@[simp]
theorem standing_enableLsigTxop (e : Bool) :
    (limEnableHTLsigTxopProtection s e o).standing = s.standing := rfl

end

/-! ### Joining -/

def counted (type : ProtStaCacheType) (gfSupported lsigTxopSupported : Bool) : ProtKind → Bool
  | .llB => type = .llB
  | .llA => false
  | .llG => type = .llG
  | .nonGf => !gfSupported
  | .ht20 => type = .ht20
  | .lsigTxop => !lsigTxopSupported

section
variable {s : Session} {sta : StaDs} {addr : SirMacAddr} {type : ProtStaCacheType}
  {gf lsig : Bool} {i : Nat} {k k' : ProtKind}

theorem numSta_countUp : (s.countUp k').numSta k = s.numSta k + if k = k' then 1 else 0 := by
  have h : (s.countUp k').numSta = update s.numSta k' (s.numSta k' + 1) :=
    congrArg num standing_setNumSta
  rw [h]
  by_cases hk : k = k'
  · subst hk
    simp
  · simp [hk]

theorem numSta_countLacking : (countLacking (countType s type) gf lsig).numSta k
    = s.numSta k + if counted type gf lsig k then 1 else 0 := by
  cases type <;> cases gf <;> cases lsig <;> cases k <;>
    simp [countLacking, countType, counted, numSta_countUp]

theorem standing_countLacking : (countLacking (countType s type) gf lsig).standing
    = { s.standing with num := (countLacking (countType s type) gf lsig).numSta } := by
  cases type <;> cases gf <;> cases lsig <;> rfl

theorem limUpdateProtStaParams_known (h : seekCache s.protStaCache addr = some i) :
    limUpdateProtStaParams s addr type gf lsig = s := by
  rw [limUpdateProtStaParams, h]

theorem standing_limUpdateProtStaParams (h : seekCache s.protStaCache addr = none)
    (hf : freeSlot s.protStaCache = some i) :
    (limUpdateProtStaParams s addr type gf lsig).standing =
      { s.standing.setCache i ⟨true, addr, type⟩ with
        num := fun k => s.standing.num k + if counted type gf lsig k then 1 else 0 } := by
  have hnum : (countLacking (countType (s.setCache i ⟨true, addr, type⟩) type) gf lsig).numSta
      = fun k => s.numSta k + if counted type gf lsig k then 1 else 0 := by
    funext k
    rw [numSta_countLacking]
    rfl
  rw [limUpdateProtStaParams, h, hf]
  rw [standing_countLacking, hnum, standing_setCache]
  rfl

@[simp]
theorem standing_joinLegacy : (joinLegacy s sta).1.standing = s.standing := by
  simp [joinLegacy, apply_ite Prod.fst, apply_ite Session.standing]

theorem joinHt_ht (h : (s.htCapability && sta.htCapability) = true) : ∃ s',
    (∃ b, s'.standing = s.standing.setHt20 b) ∧ joinHt s sta .invalid
      = limUpdateProtStaParams s' sta.staAddr
        (if sta.htSupportedChannelWidthSet = .w20MHz ∧ s.htSupportedChannelWidthSet ≠ .w20MHz
          then .ht20 else .invalid) sta.htGreenfield sta.htLsigTXOPProtection := by
  rw [joinHt, if_pos h]
  dsimp only
  have hgf : (if !sta.htGreenfield then limEnableHTNonGfProtection s true false else s).standing
      = s.standing := by
    split <;> rfl
  generalize (if !sta.htGreenfield then limEnableHTNonGfProtection s true false else s) = u at hgf ⊢
  have hw : u.htSupportedChannelWidthSet = s.htSupportedChannelWidthSet :=
    congrArg (fun t => t.ap.htSupportedChannelWidthSet) hgf
  have hj : (∃ b, (joinHt20 u sta .invalid).1.standing = s.standing.setHt20 b) ∧
      (joinHt20 u sta .invalid).2 = if sta.htSupportedChannelWidthSet = .w20MHz ∧
        s.htSupportedChannelWidthSet ≠ .w20MHz then .ht20 else .invalid := by
    rw [joinHt20, hw, ← hgf]
    split
    · exact ⟨standing_enableHT20 true, rfl⟩
    · exact ⟨⟨u.beaconParams.ht20Coexist, rfl⟩, rfl⟩
  obtain ⟨⟨b, hb⟩, htype⟩ := hj
  rw [htype]
  refine ⟨_, ⟨b, ?_⟩, rfl⟩
  split
  · rw [standing_enableLsigTxop, hb]
  · exact hb

theorem enters_iff {ap : ApConfig} : ap.enters sta = true ↔
    ¬(ap.rfBand = .band5GHz ∧ ap.htCapability ∧ !sta.htCapability) := by
  simp [enters, imp_iff_not_or, or_assoc]

theorem counted_ht (ap : ApConfig) (h : (ap.htCapability && sta.htCapability) = true) :
    counted (if sta.htSupportedChannelWidthSet = .w20MHz ∧ ap.htSupportedChannelWidthSet ≠ .w20MHz
      then .ht20 else .invalid) sta.htGreenfield sta.htLsigTXOPProtection k = ap.isKind sta k := by
  obtain ⟨h₁, h₂⟩ := Bool.and_eq_true_iff.1 h
  cases k with
  | ht20 => by_cases hw : sta.htSupportedChannelWidthSet = .w20MHz <;>
      by_cases ha : ap.htSupportedChannelWidthSet = .w20MHz <;>
      simp [counted, isKind, h₁, h₂, hw, ha]
  | _ => split <;> simp [counted, isKind, h₁, h₂]

theorem counted_legacy {ap : ApConfig} (h : (ap.htCapability && sta.htCapability) = false)
    (hl : type = .llB ↔ ap.isKind sta .llB = true) (hg : type = .llG ↔ ap.isKind sta .llG = true)
    (ha : ap.isKind sta .llA = false) (hn : type ≠ .ht20) :
    counted type true true k = ap.isKind sta k := by
  cases k with
  | llB => simp [counted, hl]
  | llG => simp [counted, hg]
  | llA => simp [counted, ha]
  | nonGf => simp [counted, isKind, h]
  | ht20 => simp [counted, isKind, h, hn]
  | lsigTxop => simp [counted, isKind, h]

theorem joinLegacy_type (sta : StaDs) (hb : s.rfBand = .band24GHz) :
    ((joinLegacy s sta).2 = .llB ↔ s.standing.ap.isKind sta .llB = true) ∧
    ((joinLegacy s sta).2 = .llG ↔ s.standing.ap.isKind sta .llG = true) ∧
    (joinLegacy s sta).2 ≠ .ht20 := by
  have hband : s.standing.ap.rfBand = .band24GHz := hb
  have hmode : s.standing.ap.gLimPhyMode = s.gLimPhyMode := rfl
  cases hh : s.htCapability <;> cases he : sta.erpEnabled <;> cases hs : sta.htCapability <;>
    (have hht : s.standing.ap.htCapability = _ := hh
     simp [joinLegacy, isKind, hband, hht, hmode, hh, he, hs])
  all_goals split <;> simp [*]

/-- **Joining.**  A station that is entered is entered under its kinds. -/
theorem limDecideApProtection_eq (he : s.standing.ap.enters sta = true) : ∃ s' type gf lsig,
    (∃ b, s'.standing = s.standing.setHt20 b) ∧
      limDecideApProtection s sta = limUpdateProtStaParams s' sta.staAddr type gf lsig ∧
      ∀ k, counted type gf lsig k = s.standing.ap.isKind sta k := by
  have hn : ¬(s.rfBand = .band5GHz ∧ s.htCapability ∧ !sta.htCapability) := enters_iff.1 he
  have ha : s.standing.ap.isKind sta .llA = false := by
    have h : (!s.standing.ap.isKind sta .llA) = true := he
    simpa using h
  rw [limDecideApProtection, if_neg hn]
  split
  · next hb =>
    by_cases hh : s.htCapability && sta.htCapability
    · have hl : joinLegacy s sta = (s, .invalid) := by
        obtain ⟨h₁, h₂⟩ := Bool.and_eq_true_iff.1 hh
        simp [joinLegacy, h₁, h₂]
      obtain ⟨s', hs', hj⟩ := joinHt_ht hh
      rw [hl]
      exact ⟨s', _, _, _, hs', hj, fun k => counted_ht s.standing.ap hh⟩
    · have hst : (joinLegacy s sta).1.standing = s.standing := standing_joinLegacy
      have hht : (joinLegacy s sta).1.htCapability = s.htCapability :=
        congrArg (fun t => t.ap.htCapability) hst
      obtain ⟨hB, hG, hn⟩ := joinLegacy_type sta hb
      rw [joinHt, hht, if_neg hh]
      exact ⟨_, _, _, _, ⟨s.beaconParams.ht20Coexist, hst⟩, rfl,
        fun k => counted_legacy (Bool.eq_false_iff.2 hh) hB hG ha hn⟩
  · next hb =>
    by_cases hh : s.htCapability && sta.htCapability
    · obtain ⟨s', hs', hj⟩ := joinHt_ht hh
      exact ⟨s', _, _, _, hs', hj, fun k => counted_ht s.standing.ap hh⟩
    · rw [joinHt, if_neg hh]
      have hband : s.standing.ap.rfBand ≠ .band24GHz := hb
      refine ⟨s, _, _, _, ⟨s.beaconParams.ht20Coexist, rfl⟩, rfl, fun k => ?_⟩
      refine counted_legacy (Bool.eq_false_iff.2 hh) ?_ ?_ ha (by simp) <;>
        simp [isKind, hband]

end

/-! ### The cache -/

section
variable {cache : Nat → CacheParams} {addr : SirMacAddr} {c : CacheParams} {i : Nat}

theorem seekCache_some (h : seekCache cache addr = some i) :
    i ∈ activeSlots cache ∧ (cache i).addr = addr := by
  have hi := mem_range.1 (mem_of_find?_eq_some h)
  have hp := find?_some h
  simp only [Bool.and_eq_true, decide_eq_true_eq] at hp
  exact ⟨⟨hi, hp.1⟩, hp.2⟩

theorem seekCache_none :
    seekCache cache addr = none ↔ ∀ i ∈ activeSlots cache, (cache i).addr ≠ addr := by
  simp [seekCache, activeSlots, and_imp]

theorem seekCache_eq (hinj : Set.InjOn (fun i => (cache i).addr) (activeSlots cache))
    (hi : i ∈ activeSlots cache) (ha : (cache i).addr = addr) : seekCache cache addr = some i := by
  cases h : seekCache cache addr with
  | none => exact absurd ha (seekCache_none.1 h i hi)
  | some j =>
    obtain ⟨hj, hja⟩ := seekCache_some h
    exact congrArg some (hinj hj hi (hja.trans ha.symm))

theorem freeSlot_some (h : freeSlot cache = some i) :
    i < limProtStaCacheSize ∧ (cache i).active = false :=
  ⟨mem_range.1 (mem_of_find?_eq_some h), by simpa using find?_some h⟩

theorem freeSlot_none : freeSlot cache = none ↔ ∀ i < limProtStaCacheSize, i ∈ activeSlots cache := by
  simp +contextual [freeSlot, activeSlots]

theorem activeSlots_take (hi : i < limProtStaCacheSize) (hc : c.active = true) :
    activeSlots (update cache i c) = insert i (activeSlots cache) := by
  ext j
  by_cases hj : j = i
  · subst hj
    simp [activeSlots, hi, hc]
  · simp [activeSlots, hj]

theorem activeSlots_free (hc : c.active = false) :
    activeSlots (update cache i c) = activeSlots cache \ {i} := by
  ext j
  by_cases hj : j = i
  · subst hj
    simp [activeSlots, hc]
  · simp [activeSlots, hj]

end

section
variable {t t' : Standing} {joined : List StaDs} {sta : StaDs} {i : Nat} {type : ProtStaCacheType}

theorem mem_erase_iff (hd : (joined.map StaDs.staAddr).Nodup) (hm : sta ∈ joined) {x : StaDs} :
    x ∈ joined.erase sta ↔ x ∈ joined ∧ x.staAddr ≠ sta.staAddr := by
  rw [hd.of_map.mem_erase_iff]
  refine ⟨fun h => ⟨h.2, fun ha => h.1 (inj_on_of_nodup_map hd h.2 hm ha)⟩, fun h => ?_⟩
  exact ⟨fun hx => h.2 (congrArg StaDs.staAddr hx), h.1⟩

theorem CacheRight.seek (h : CacheRight t joined) (hm : sta ∈ joined)
    (he : t.ap.enters sta = true) : ∃ i ∈ activeSlots t.protStaCache,
      (t.protStaCache i).addr = sta.staAddr ∧ seekCache t.protStaCache sta.staAddr = some i := by
  obtain ⟨i, hi, ha⟩ := h.entries.surjOn ⟨sta, hm, he, rfl⟩
  exact ⟨i, hi, ha, seekCache_eq h.entries.injOn hi ha⟩

theorem CacheRight.seek_new (h : CacheRight t joined) (hn : ∀ x ∈ joined, x.staAddr ≠ sta.staAddr) :
    seekCache t.protStaCache sta.staAddr = none := by
  refine seekCache_none.2 fun i hi ha => ?_
  obtain ⟨x, hx, -, hxa⟩ := h.entries.mapsTo hi
  exact hn x hx (hxa.trans ha)

theorem CacheRight.freeSlot (h : CacheRight t joined) (hl : joined.length < limProtStaCacheSize) :
    ∃ i, freeSlot t.protStaCache = some i := by
  cases hf : Lim.freeSlot t.protStaCache with
  | some i => exact ⟨i, rfl⟩
  | none =>
    -- all entries would be active, for as many joined stations
    have hall := freeSlot_none.1 hf
    have hle : (Finset.range limProtStaCacheSize).card ≤ (joined.map StaDs.staAddr).toFinset.card := by
      refine Finset.card_le_card_of_injOn (fun i => (t.protStaCache i).addr) ?_ ?_
      · intro i hi
        obtain ⟨x, hx, -, ha⟩ := h.entries.mapsTo (hall i (Finset.mem_range.1 hi))
        simpa using ⟨x, hx, ha⟩
      · exact h.entries.injOn.mono fun i hi => hall i (Finset.mem_range.1 hi)
    have hlen := (toFinset_card_le (joined.map StaDs.staAddr))
    rw [Finset.card_range] at hle
    rw [length_map] at hlen
    exact absurd (hle.trans hlen) (Nat.not_le.2 hl)

theorem CacheRight.join (h : CacheRight t joined) (hn : ∀ x ∈ joined, x.staAddr ≠ sta.staAddr)
    (he : t.ap.enters sta = true) (hf : Lim.freeSlot t.protStaCache = some i) (hap : t'.ap = t.ap)
    (hcache : t'.protStaCache = update t.protStaCache i ⟨true, sta.staAddr, type⟩)
    (hnum : ∀ k, t'.num k = t.num k + if t.ap.isKind sta k then 1 else 0) :
    CacheRight t' (sta :: joined) where
  entries := by
    obtain ⟨hi, hfree⟩ := freeSlot_some hf
    have hni : i ∉ activeSlots t.protStaCache := fun h => by simp [h.2] at hfree
    have hslots : activeSlots t'.protStaCache = insert i (activeSlots t.protStaCache) := by
      rw [hcache, activeSlots_take hi rfl]
    have hset : {a | ∃ x ∈ sta :: joined, t'.ap.enters x = true ∧ x.staAddr = a}
        = insert sta.staAddr {a | ∃ x ∈ joined, t.ap.enters x = true ∧ x.staAddr = a} := by
      ext a
      rw [hap]
      constructor
      · rintro ⟨x, hx, hxe, rfl⟩
        obtain rfl | hx := mem_cons.1 hx
        · exact Or.inl rfl
        · exact Or.inr ⟨x, hx, hxe, rfl⟩
      · rintro (rfl | ⟨x, hx, hxe, rfl⟩)
        · exact ⟨sta, mem_cons_self, he, rfl⟩
        · exact ⟨x, mem_cons_of_mem _ hx, hxe, rfl⟩
    have hold : Set.BijOn (fun i => (t'.protStaCache i).addr) (activeSlots t.protStaCache)
        {a | ∃ x ∈ joined, t.ap.enters x = true ∧ x.staAddr = a} := by
      refine h.entries.congr fun j hj => ?_
      have hji : j ≠ i := fun hji => hni (hji ▸ hj)
      simp [hcache, hji]
    have hnew : (t'.protStaCache i).addr = sta.staAddr := by simp [hcache]
    rw [hslots, hset, ← hnew]
    refine hold.insert ?_
    rintro ⟨x, hx, -, hxa⟩
    exact hn x hx (hxa.trans hnew)
  count k := by
    rw [hnum, h.count, countP_cons, hap]

theorem CacheRight.leave (h : CacheRight t joined) (hd : (joined.map StaDs.staAddr).Nodup)
    (hm : sta ∈ joined) (hi : i ∈ activeSlots t.protStaCache)
    (ha : (t.protStaCache i).addr = sta.staAddr) (hap : t'.ap = t.ap)
    (hcache : t'.protStaCache = update t.protStaCache i { t.protStaCache i with active := false })
    (hnum : ∀ k, t'.num k = t.num k - if t.ap.isKind sta k then 1 else 0) :
    CacheRight t' (joined.erase sta) where
  entries := by
    have hslots : activeSlots t'.protStaCache = activeSlots t.protStaCache \ {i} := by
      rw [hcache, activeSlots_free rfl]
    have hset : {a | ∃ x ∈ joined.erase sta, t'.ap.enters x = true ∧ x.staAddr = a}
        = {a | ∃ x ∈ joined, t.ap.enters x = true ∧ x.staAddr = a} \ {(t.protStaCache i).addr} := by
      ext a
      simp only [mem_erase_iff hd hm, hap, ha, Set.mem_ofPred_eq, Set.mem_sdiff,
        Set.mem_singleton_iff]
      constructor
      · rintro ⟨x, ⟨hx, hne⟩, he, rfl⟩
        exact ⟨⟨x, hx, he, rfl⟩, hne⟩
      · rintro ⟨⟨x, hx, he, rfl⟩, hne⟩
        exact ⟨x, ⟨hx, hne⟩, he, rfl⟩
    have hsame : (fun j => (t'.protStaCache j).addr) = fun j => (t.protStaCache j).addr := by
      funext j
      rw [hcache]
      by_cases hj : j = i
      · subst hj
        simp
      · simp [hj]
    rw [hslots, hset, hsame]
    exact h.entries.sdiff_singleton hi
  count k := by
    rw [hnum, h.count, hap, (perm_cons_erase hm).countP_eq, countP_cons, Nat.add_sub_cancel]

theorem not_right_of_active (hd : (joined.map StaDs.staAddr).Nodup) (hm : sta ∈ joined)
    (hi : i ∈ activeSlots t'.protStaCache) (ha : (t'.protStaCache i).addr = sta.staAddr) :
    ¬ CacheRight t' (joined.erase sta) := by
  intro h
  obtain ⟨x, hx, -, hxa⟩ := h.entries.mapsTo hi
  exact ((mem_erase_iff hd hm).1 hx).2 (hxa.trans ha)

theorem not_right_of_count (h : CacheRight t joined) (hm : sta ∈ joined) (hap : t'.ap = t.ap)
    {k : ProtKind} (hk : t'.num k + (if t.ap.isKind sta k then 1 else 0) ≠ t.num k) :
    ¬ CacheRight t' (joined.erase sta) := by
  intro hr
  rw [hr.count, h.count, hap, (perm_cons_erase hm).countP_eq, countP_cons] at hk
  exact hk rfl

end

/-! ### Leaving -/

namespace Standing

def down (t : Standing) (k : ProtKind) : Standing := t.setNum k (t.num k - 1)

def freeCache (t : Standing) (i : Nat) : Standing :=
  t.setCache i { t.protStaCache i with active := false }

end Standing

section
variable {s : Session} {sta : StaDs} {addr : SirMacAddr} {i : Nat} {k k' : ProtKind}
  {free : Bool} {disable : Session → Session}

theorem countDown_zero (h : s.numSta k = 0) : countDown s k addr free = s := by
  rw [countDown, if_neg (by simp [h])]

theorem countDown_none (h : seekCache s.protStaCache addr = none) :
    countDown s k addr free = s := by
  rw [countDown, h]
  simp

theorem standing_countDown (hs : seekCache s.protStaCache addr = some i) (hp : 0 < s.numSta k) :
    (countDown s k addr free).standing =
      if free then (s.standing.down k).freeCache i else s.standing.down k := by
  rw [countDown, if_pos hp, hs]
  dsimp only
  split
  · rw [Session.freeCache, standing_setCache, standing_setNumSta]
    have hc : (s.setNumSta k (s.numSta k - 1)).protStaCache = s.protStaCache := by cases k <;> rfl
    rw [hc]
    rfl
  · rw [standing_setNumSta]
    rfl

theorem countDown_num_ne (h : k' ≠ k) :
    (countDown s k addr free).standing.num k' = s.standing.num k' := by
  cases hs : seekCache s.protStaCache addr with
  | none => rw [countDown_none hs]
  | some i =>
    obtain hz | hp := Nat.eq_zero_or_pos (s.numSta k)
    · rw [countDown_zero hz]
    · rw [standing_countDown hs hp]
      split <;> simp [down, freeCache, setNum, setCache, h]

theorem countDown_ap : (countDown s k addr free).standing.ap = s.standing.ap := by
  rw [countDown]
  split
  · split
    · rfl
    · cases k <;> cases free <;> rfl
  · rfl

theorem countDown_cache : (countDown s k addr false).protStaCache = s.protStaCache := by
  rw [countDown]
  split
  · split
    · rfl
    · cases k <;> rfl
  · rfl

theorem standing_leaveKind (hd : ∀ s, ∃ b, (disable s).standing = s.standing.setHt20 b) :
    ∃ b, (leaveKind k free disable s addr).standing
      = (countDown s k addr free).standing.setHt20 b := by
  rw [leaveKind]
  split
  · exact hd _
  · exact ⟨_, rfl⟩

theorem standing_leaveKind_same (hd : ∀ s, (disable s).standing = s.standing) :
    (leaveKind k free disable s addr).standing = (countDown s k addr free).standing := by
  rw [leaveKind]
  split
  · exact hd _
  · rfl

@[simp]
theorem standing_leave11a : (leave11a s addr).standing = (countDown s .llA addr false).standing :=
  standing_leaveKind_same fun _ => standing_enable11a false

@[simp]
theorem standing_leave11b : (leave11b s addr).standing = (countDown s .llB addr true).standing :=
  standing_leaveKind_same fun _ => standing_enable11g false

@[simp]
theorem standing_leave11g : (leave11g s addr).standing = (countDown s .llG addr true).standing :=
  standing_leaveKind_same fun _ => standing_enableFrom11g false

@[simp]
theorem standing_leaveNonGf :
    (leaveNonGf s addr).standing = (countDown s .nonGf addr false).standing :=
  standing_leaveKind_same fun _ => rfl

@[simp]
theorem standing_leaveLsigTxop :
    (leaveLsigTxop s addr).standing = (countDown s .lsigTxop addr false).standing :=
  standing_leaveKind_same fun _ => rfl

theorem standing_ht20Delete (s : Session) (addr : SirMacAddr) : ∃ b, (limDecideApProtectionOnHt20Delete s addr).standing
    = (countDown s .ht20 addr true).standing.setHt20 b :=
  standing_leaveKind fun _ => standing_enableHT20 false

/-! #### The common part -/

theorem leaveHtNonGf_num_ne (h : k ≠ .nonGf) :
    (leaveHtNonGf s sta).standing.num k = s.standing.num k := by
  rw [leaveHtNonGf]
  split
  · rw [standing_leaveNonGf, countDown_num_ne h]
  · rfl

theorem leaveHt20_num_ne (h : k ≠ .ht20) : (leaveHt20 s sta).standing.num k = s.standing.num k := by
  rw [leaveHt20]
  split
  · obtain ⟨b, hb⟩ := standing_ht20Delete s sta.staAddr
    rw [hb]
    exact countDown_num_ne h
  · rfl

theorem leaveHtLsigTxop_num_ne (h : k ≠ .lsigTxop) :
    (leaveHtLsigTxop s sta).standing.num k = s.standing.num k := by
  rw [leaveHtLsigTxop]
  split
  · rw [standing_leaveLsigTxop, countDown_num_ne h]
  · rfl

theorem leaveHt_num_llB : (leaveHt s sta).standing.num .llB = s.standing.num .llB := by
  rw [leaveHt]
  split
  · rw [leaveHtLsigTxop_num_ne (by simp), leaveHt20_num_ne (by simp), leaveHtNonGf_num_ne (by simp)]
  · rfl

theorem leaveHt_ap : (leaveHt s sta).standing.ap = s.standing.ap := by
  have h₁ : (leaveHtNonGf s sta).standing.ap = s.standing.ap := by
    rw [leaveHtNonGf]
    split
    · rw [standing_leaveNonGf, countDown_ap]
    · rfl
  have h₂ : (leaveHt20 (leaveHtNonGf s sta) sta).standing.ap = s.standing.ap := by
    rw [leaveHt20]
    split
    · obtain ⟨b, hb⟩ := standing_ht20Delete (leaveHtNonGf s sta) sta.staAddr
      rw [hb]
      exact countDown_ap.trans h₁
    · exact h₁
  rw [leaveHt]
  split
  · rw [leaveHtLsigTxop]
    split
    · rw [standing_leaveLsigTxop, countDown_ap, h₂]
    · exact h₂
  · rfl

theorem standing_leaveHtNonGf (hs : seekCache s.protStaCache sta.staAddr = some i)
    (hp : sta.htGreenfield = false → 0 < s.numSta .nonGf) : (leaveHtNonGf s sta).standing
      = if sta.htGreenfield then s.standing else s.standing.down .nonGf := by
  rw [leaveHtNonGf]
  cases hg : sta.htGreenfield with
  | true => rfl
  | false =>
    rw [if_pos Bool.not_false, if_neg Bool.false_ne_true, standing_leaveNonGf,
      standing_countDown hs (hp hg), if_neg Bool.false_ne_true]

theorem leaveHtLsigTxop_cache : (leaveHtLsigTxop s sta).protStaCache = s.protStaCache := by
  rw [leaveHtLsigTxop]
  split
  · have h : (leaveLsigTxop s sta.staAddr).protStaCache
        = (countDown s .lsigTxop sta.staAddr false).protStaCache :=
      congrArg protStaCache standing_leaveLsigTxop
    exact h.trans countDown_cache
  · rfl

theorem leaveHtLsigTxop_none (h : seekCache s.protStaCache sta.staAddr = none) :
    (leaveHtLsigTxop s sta).standing = s.standing := by
  rw [leaveHtLsigTxop]
  split
  · rw [standing_leaveLsigTxop, countDown_none h]
  · rfl

theorem leaveHtLsigTxop_supported (h : sta.htLsigTXOPProtection = true) :
    leaveHtLsigTxop s sta = s := by
  rw [leaveHtLsigTxop, if_neg (by simp [h])]

theorem leaveHt20_stay (h : s.beaconParams.ht20Coexist = false ∨
    sta.htSupportedChannelWidthSet ≠ .w20MHz) : leaveHt20 s sta = s := by
  obtain h | h := h <;> simp [leaveHt20, h]

theorem leaveHt20_zero (h : s.numSta .ht20 = 0) :
    (leaveHt20 s sta).protStaCache = s.protStaCache := by
  rw [leaveHt20]
  split
  · obtain ⟨b, hb⟩ := standing_ht20Delete s sta.staAddr
    rw [countDown_zero h] at hb
    exact congrArg protStaCache hb
  · rfl

theorem leaveHt20_freed (hc : s.beaconParams.ht20Coexist = true)
    (hw : sta.htSupportedChannelWidthSet = .w20MHz)
    (hs : seekCache s.protStaCache sta.staAddr = some i) (hp : 0 < s.numSta .ht20) :
    ∃ b, (leaveHt20 s sta).standing = ((s.standing.down .ht20).freeCache i).setHt20 b := by
  obtain ⟨b, hb⟩ := standing_ht20Delete s sta.staAddr
  rw [leaveHt20, if_pos (by simp [hc, hw])]
  exact ⟨b, by rw [hb, standing_countDown hs hp, if_pos rfl]⟩

end

section
variable {s : Session} {joined : List StaDs} {sta : StaDs}

theorem CacheRight.pos (h : CacheRight s.standing joined) (hm : sta ∈ joined) {k : ProtKind}
    (hk : s.standing.ap.isKind sta k = true) : 0 < s.numSta k := by
  have hc : s.numSta k = joined.countP fun sta => s.standing.ap.isKind sta k := h.count k
  rw [hc]
  exact countP_pos_iff.2 ⟨sta, hm, hk⟩

theorem CacheRight.seek_freed {t : Standing} (h : CacheRight t joined) {i : Nat}
    (hi : i ∈ activeSlots t.protStaCache) (ha : (t.protStaCache i).addr = sta.staAddr) :
    seekCache (t.freeCache i).protStaCache sta.staAddr = none := by
  have hslots : activeSlots (t.freeCache i).protStaCache = activeSlots t.protStaCache \ {i} :=
    activeSlots_free rfl
  rw [seekCache_none, hslots]
  rintro j ⟨hj, hji⟩ hja
  have hji : j ≠ i := hji
  refine hji (h.entries.injOn hj hi (Eq.trans ?_ ha.symm))
  simpa [freeCache, setCache, hji] using hja

/-- The entry of an HT station stays when it is not counted as a 20 MHz one, or while the bit is clear. -/
theorem leaveHt20_cache (h : CacheRight s.standing joined) (hh : s.htCapability = true)
    (hs : sta.htCapability = true) (hn : ¬(s.standing.ap.isKind sta .ht20 = true ∧
      s.standing.ht20Coexist = true)) {u : Session} (hcache : u.protStaCache = s.protStaCache)
    (hcoex : u.beaconParams.ht20Coexist = s.beaconParams.ht20Coexist)
    (hnum : u.numSta .ht20 = s.numSta .ht20) :
    (leaveHt20 u sta).protStaCache = s.protStaCache := by
  by_cases hc : s.beaconParams.ht20Coexist = true
  · have hk : ¬ s.standing.ap.isKind sta .ht20 = true := fun hk => hn ⟨hk, hc⟩
    by_cases hw : sta.htSupportedChannelWidthSet = .w20MHz
    · -- the access point is a 20 MHz one itself, and counts none
      have hap : s.standing.ap.htSupportedChannelWidthSet = .w20MHz := by
        have hht : s.standing.ap.htCapability = true := hh
        simpa [isKind, hht, hs, hw] using hk
      have hz : s.numSta .ht20 = 0 := by
        refine (h.count .ht20).trans (countP_eq_zero.2 fun x _ => ?_)
        simp [isKind, hap]
      rw [leaveHt20_zero (hnum.trans hz), hcache]
    · rw [leaveHt20_stay (Or.inr hw), hcache]
  · rw [leaveHt20_stay (Or.inl (hcoex.trans (Bool.eq_false_iff.2 hc))), hcache]

theorem num_ht20_left {t : Standing} {gf b : Bool} {i : Nat} {k : ProtKind} :
    ((((if gf then t else t.down .nonGf).down .ht20).freeCache i).setHt20 b).num k
      = t.num k - if k = .ht20 ∨ k = .nonGf ∧ gf = false then 1 else 0 := by
  cases gf <;> cases k <;>
    simp [down, freeCache, setHt20, setNum, setCache]

theorem leaveHt_right_iff (h : CacheRight s.standing joined)
    (hd : (joined.map StaDs.staAddr).Nodup) (hm : sta ∈ joined)
    (hh : (s.htCapability && sta.htCapability) = true) :
    CacheRight (leaveHt s sta).standing (joined.erase sta) ↔
      s.standing.ap.isKind sta .ht20 = true ∧ s.standing.ht20Coexist = true ∧
        sta.htLsigTXOPProtection = true := by
  obtain ⟨h₁, h₂⟩ := Bool.and_eq_true_iff.1 hh
  have hht : s.standing.ap.htCapability = true := h₁
  have he : s.standing.ap.enters sta = true := enters_iff.2 (by simp [h₂])
  obtain ⟨i, hi, ha, hseek⟩ := h.seek hm he
  have hseek : seekCache s.protStaCache sta.staAddr = some i := hseek
  have hgf := standing_leaveHtNonGf hseek
    fun hg => h.pos hm (k := .nonGf) (by simp [isKind, hht, h₂, hg])
  have hnum : (leaveHtNonGf s sta).standing.num .ht20 = s.standing.num .ht20 :=
    leaveHtNonGf_num_ne (by simp)
  have hcache : (leaveHtNonGf s sta).standing.protStaCache = s.standing.protStaCache := by
    rw [hgf]
    split <;> rfl
  have hcoex : (leaveHtNonGf s sta).standing.ht20Coexist = s.standing.ht20Coexist := by
    rw [hgf]
    split <;> rfl
  rw [leaveHt, if_pos hh]
  by_cases hk : s.standing.ap.isKind sta .ht20 = true ∧ s.standing.ht20Coexist = true
  · obtain ⟨hk, hc⟩ := hk
    have hw : sta.htSupportedChannelWidthSet = .w20MHz := by
      simp only [isKind, Bool.and_eq_true, decide_eq_true_eq] at hk
      exact hk.1.2
    have hseek' : seekCache (leaveHtNonGf s sta).protStaCache sta.staAddr = some i := by
      rw [show (leaveHtNonGf s sta).protStaCache = s.protStaCache from hcache, hseek]
    have hpos : 0 < (leaveHtNonGf s sta).numSta .ht20 := Nat.lt_of_lt_of_eq (h.pos hm hk) hnum.symm
    obtain ⟨b, hb⟩ := leaveHt20_freed (hcoex.trans hc) hw hseek' hpos
    rw [hgf] at hb
    have hfreed : (leaveHt20 (leaveHtNonGf s sta) sta).standing.protStaCache
        = (s.standing.freeCache i).protStaCache := by
      rw [hb]
      split <;> rfl
    cases hl : sta.htLsigTXOPProtection with
    | true =>
      rw [leaveHtLsigTxop_supported hl]
      refine iff_of_true (h.leave hd hm hi ha ?_ hfreed fun k => ?_) ⟨hk, hc, rfl⟩
      · rw [hb]
        split <;> rfl
      · rw [hb, num_ht20_left]
        cases k with
        | ht20 => simp [hk]
        | _ => simp [isKind, hht, h₂, hl]
    | false =>
      -- the entry is gone before the last counter looks for it
      have hnone : seekCache (leaveHt20 (leaveHtNonGf s sta) sta).protStaCache sta.staAddr = none :=
        (congrArg (fun c => seekCache c sta.staAddr) hfreed).trans (h.seek_freed hi ha)
      have hkl : s.standing.ap.isKind sta .lsigTxop = true := by
        simp [isKind, hht, h₂, hl]
      refine iff_of_false ?_ (by simp)
      rw [leaveHtLsigTxop_none hnone]
      refine not_right_of_count (k := .lsigTxop) h hm ?_ ?_
      · rw [hb]
        split <;> rfl
      · rw [hb, num_ht20_left, if_pos hkl]
        simp
  · refine iff_of_false ?_ fun hn => hk ⟨hn.1, hn.2.1⟩
    have hstay : (leaveHtLsigTxop (leaveHt20 (leaveHtNonGf s sta) sta) sta).standing.protStaCache
        = s.standing.protStaCache :=
      leaveHtLsigTxop_cache.trans (leaveHt20_cache h h₁ h₂ hk hcache hcoex hnum)
    refine not_right_of_active (i := i) hd hm ?_ ?_
    · rw [hstay]
      exact hi
    · rw [hstay, ha]

/-! #### The part that depends on the band -/

theorem leaveLegacy_ap : (leaveLegacy s sta).standing.ap = s.standing.ap := by
  rw [leaveLegacy]
  split
  · split
    · rw [standing_leave11a, countDown_ap]
    · rfl
  split
  · split
    · rw [standing_leave11b, countDown_ap]
    split
    · rw [standing_leave11g, countDown_ap]
    · rfl
  · rfl

theorem leaveLegacy_eq (he : s.standing.ap.enters sta = true)
    (hh : ¬ (s.htCapability && sta.htCapability) = true) : leaveLegacy s sta
      = if s.standing.ap.isKind sta .llB then leave11b s sta.staAddr
        else if s.standing.ap.isKind sta .llG then leave11g s sta.staAddr else s := by
  have hn := enters_iff.1 he
  have hband : s.standing.ap.rfBand = s.rfBand := rfl
  have hht : s.standing.ap.htCapability = s.htCapability := rfl
  have hphy : s.standing.ap.gLimPhyMode = s.gLimPhyMode := rfl
  simp only [isKind, hband, hht, hphy] at hn ⊢
  rw [leaveLegacy]
  cases hb : s.rfBand <;> cases hs : sta.htCapability <;> cases ht : s.htCapability <;>
    cases hr : sta.erpEnabled <;> simp_all

theorem leaveLegacy_ht (hh : (s.htCapability && sta.htCapability) = true)
    (hn : ¬ (s.rfBand = .band24GHz ∧ sta.erpEnabled = false ∧ 0 < s.numSta .llB)) :
    (leaveLegacy s sta).standing = s.standing := by
  obtain ⟨h₁, h₂⟩ := Bool.and_eq_true_iff.1 hh
  rw [leaveLegacy]
  split
  · simp [h₂]
  split
  · next hb =>
    split
    · next hr =>
      have hz : s.numSta .llB = 0 := by
        have hr : sta.erpEnabled = false := by simpa [h₁] using hr
        simpa [hb, hr] using hn
      rw [standing_leave11b, countDown_zero hz]
    · simp [h₂]
  · rfl

theorem leaveLegacy_mistaken (hh : (s.htCapability && sta.htCapability) = true)
    (hb : s.rfBand = .band24GHz) (hr : sta.erpEnabled = false) :
    leaveLegacy s sta = leave11b s sta.staAddr := by
  obtain ⟨h₁, h₂⟩ := Bool.and_eq_true_iff.1 hh
  simp [leaveLegacy, hb, hr, h₁]

theorem isKind_iff_llB {ap : ApConfig} (hh : ¬ (ap.htCapability && sta.htCapability) = true)
    (hk : ap.isKind sta .llB = true) {k : ProtKind} : ap.isKind sta k = true ↔ k = .llB := by
  have hb : ap.rfBand = .band24GHz ∧ sta.erpEnabled = false := by
    simp only [isKind, Bool.and_eq_true, decide_eq_true_eq, Bool.not_eq_true'] at hk
    exact hk.1
  cases k with
  | llB => simp [hk]
  | llA => simp [isKind, hb.1]
  | llG => simp [isKind, hb.2]
  | _ => simp [isKind, Bool.eq_false_iff.2 hh]

theorem isKind_iff_llG {ap : ApConfig} (hk : ap.isKind sta .llG = true) {k : ProtKind} :
    ap.isKind sta k = true ↔ k = .llG := by
  have hb : ((ap.rfBand = .band24GHz ∧ ap.htCapability = true) ∧ sta.erpEnabled = true) ∧
      sta.htCapability = false := by
    simpa [isKind] using hk
  obtain ⟨⟨⟨hband, hht⟩, hr⟩, hs⟩ := hb
  cases k with
  | llG => simp [hk]
  | _ => simp [isKind, hband, hr, hs]

theorem CacheRight.countDown (h : CacheRight s.standing joined)
    (hd : (joined.map StaDs.staAddr).Nodup) (hm : sta ∈ joined)
    (he : s.standing.ap.enters sta = true) {k : ProtKind}
    (hk : ∀ k', s.standing.ap.isKind sta k' = true ↔ k' = k) :
    CacheRight (Lim.countDown s k sta.staAddr true).standing (joined.erase sta) := by
  obtain ⟨i, hi, ha, hseek⟩ := h.seek hm he
  rw [standing_countDown hseek (h.pos hm ((hk k).2 rfl)), if_pos rfl]
  refine h.leave hd hm hi ha rfl rfl fun k' => ?_
  simp only [hk]
  by_cases hkk : k' = k
  · subst hkk
    simp [down, freeCache, setNum, setCache]
  · simp [down, freeCache, setNum, setCache, hkk]

theorem leaveLegacy_right_iff (h : CacheRight s.standing joined)
    (hd : (joined.map StaDs.staAddr).Nodup) (hm : sta ∈ joined)
    (he : s.standing.ap.enters sta = true) (hh : ¬ (s.htCapability && sta.htCapability) = true) :
    CacheRight (leaveLegacy s sta).standing (joined.erase sta) ↔
      s.standing.ap.isKind sta .llB = true ∨ s.standing.ap.isKind sta .llG = true := by
  rw [leaveLegacy_eq he hh]
  split
  · next hk =>
    rw [standing_leave11b]
    exact iff_of_true (h.countDown hd hm he fun _ => isKind_iff_llB hh hk) (Or.inl hk)
  · next hb =>
    split
    · next hk =>
      rw [standing_leave11g]
      exact iff_of_true (h.countDown hd hm he fun _ => isKind_iff_llG hk) (Or.inr hk)
    · next hg =>
      obtain ⟨i, hi, ha, -⟩ := h.seek hm he
      exact iff_of_false (not_right_of_active hd hm hi ha) (not_or.2 ⟨hb, hg⟩)

/-- **Leaving.**  The cache and the counters are right afterwards exactly under the condition. -/
theorem leave_right_iff (h : CacheRight s.standing joined)
    (hd : (joined.map StaDs.staAddr).Nodup) (hm : sta ∈ joined)
    (he : s.standing.ap.enters sta = true) :
    CacheRight (limDecideApProtectionOnDelete s sta).standing (joined.erase sta) ↔
      ApEventOk ⟨s, joined⟩ (.leave sta) := by
  rw [limDecideApProtectionOnDelete]
  by_cases hh : s.htCapability && sta.htCapability
  · obtain ⟨h₁, h₂⟩ := Bool.and_eq_true_iff.1 hh
    have hht : s.standing.ap.htCapability = true := h₁
    have hB : s.standing.ap.isKind sta .llB = false := by simp [isKind, hht, h₂]
    have hG : s.standing.ap.isKind sta .llG = false := by simp [isKind, h₂]
    by_cases hn : s.rfBand = .band24GHz ∧ sta.erpEnabled = false ∧ 0 < s.numSta .llB
    · obtain ⟨hb, hr, hp⟩ := hn
      obtain ⟨i, hi, ha, hseek⟩ := h.seek hm he
      refine iff_of_false (not_right_of_count (k := .llB) h hm ?_ ?_) ?_
      · rw [leaveHt_ap, leaveLegacy_mistaken hh hb hr, standing_leave11b, countDown_ap]
      · rw [leaveHt_num_llB, leaveLegacy_mistaken hh hb hr, standing_leave11b,
          standing_countDown hseek hp, hB]
        have hp : 0 < s.standing.num .llB := hp
        simpa [down, freeCache, setNum, setCache] using (Nat.sub_lt hp Nat.one_pos).ne
      · simp [ApEventOk, hB, hG, hb, hr, hp]
    · have hst := leaveLegacy_ht hh hn
      have hu : CacheRight (leaveLegacy s sta).standing joined := hst.symm ▸ h
      have hhu : ((leaveLegacy s sta).htCapability && sta.htCapability) = true := by
        have hap : (leaveLegacy s sta).htCapability = s.htCapability :=
          congrArg (fun t => t.ap.htCapability) hst
        rw [hap, hh]
      rw [leaveHt_right_iff hu hd hm hhu, hst]
      simp [ApEventOk, hB, hG, hn]
  · have hht : (s.standing.ap.htCapability && sta.htCapability) = false := Bool.eq_false_iff.2 hh
    have hap : (leaveLegacy s sta).htCapability = s.htCapability :=
      congrArg htCapability leaveLegacy_ap
    rw [leaveHt, hap, if_neg hh, leaveLegacy_right_iff h hd hm he hh]
    simp [ApEventOk, isKind, hht]

end

/-! ### Runs -/

/-- **The invariant**: the law, for stations with addresses of their own that have all been entered. -/
structure ApInv (a : ApStations) : Prop where
  right : CacheRight a.session.standing a.joined
  distinct : (a.joined.map StaDs.staAddr).Nodup
  entered : ∀ sta ∈ a.joined, a.session.standing.ap.enters sta = true

section
variable {a a' : ApStations} {sta : StaDs} {e : ApEvent}

theorem apInv_start (h : apMachine.init a) : ApInv a := by
  obtain ⟨hj, hz, hc⟩ := h
  have hslots : activeSlots a.session.standing.protStaCache = ∅ := by
    refine Set.eq_empty_of_forall_notMem fun i hi => ?_
    exact Bool.false_ne_true ((hc i hi.1).symm.trans hi.2)
  refine ⟨⟨?_, fun k => ?_⟩, by simp [hj], by simp [hj]⟩
  · rw [hslots, hj]
    simp
  · rw [hj]
    exact hz k

theorem join_again (h : ApInv a) (hm : sta ∈ a.joined) :
    ∃ b, (limDecideApProtection a.session sta).standing = a.session.standing.setHt20 b := by
  obtain ⟨s', type, gf, lsig, ⟨b, hb⟩, heq, -⟩ := limDecideApProtection_eq (h.entered sta hm)
  obtain ⟨i, -, -, hseek⟩ := h.right.seek hm (h.entered sta hm)
  have hcache : s'.protStaCache = a.session.standing.protStaCache :=
    congrArg protStaCache hb
  rw [heq, limUpdateProtStaParams_known (hcache ▸ hseek)]
  exact ⟨b, hb⟩

theorem join_new (h : ApInv a) (hn : ∀ x ∈ a.joined, x.staAddr ≠ sta.staAddr)
    (hl : a.joined.length < limProtStaCacheSize) (he : a.session.standing.ap.enters sta = true) :
    ApInv ⟨limDecideApProtection a.session sta, sta :: a.joined⟩ := by
  obtain ⟨s', type, gf, lsig, ⟨b, hb⟩, heq, hk⟩ := limDecideApProtection_eq he
  obtain ⟨i, hi⟩ := h.right.freeSlot hl
  have hcache : s'.protStaCache = a.session.standing.protStaCache :=
    congrArg protStaCache hb
  have hst : (limUpdateProtStaParams s' sta.staAddr type gf lsig).standing = _ :=
    standing_limUpdateProtStaParams (hcache.symm ▸ h.right.seek_new hn) (hcache.symm ▸ hi)
  rw [← heq] at hst
  have hap : (limDecideApProtection a.session sta).standing.ap = a.session.standing.ap := by
    have hap := congrArg ap hb
    rw [hst]
    exact hap
  have hcache' : (limDecideApProtection a.session sta).standing.protStaCache
      = update a.session.standing.protStaCache i ⟨true, sta.staAddr, type⟩ := by
    rw [hst, ← hcache]
    rfl
  refine ⟨h.right.join hn he hi hap hcache' fun k => ?_, ?_, ?_⟩
  · rw [hst, ← hk k, hb]
    rfl
  · exact nodup_cons.2 ⟨by simpa [eq_comm] using hn, h.distinct⟩
  · intro x hx
    rw [hap]
    obtain rfl | hx := mem_cons.1 hx
    · exact he
    · exact h.entered x hx

theorem join_not_entered (h : ApInv a) (he : ¬ a.session.standing.ap.enters sta = true) :
    ¬ CacheRight (limDecideApProtection a.session sta).standing (sta :: a.joined) := by
  have hnn : ¬¬(a.session.standing.ap.rfBand = .band5GHz ∧
      a.session.standing.ap.htCapability ∧ !sta.htCapability) := mt enters_iff.2 he
  have hn : a.session.rfBand = .band5GHz ∧ a.session.htCapability ∧ !sta.htCapability :=
    not_not.1 hnn
  have hk : a.session.standing.ap.isKind sta .llA = true := by
    have hA : (!a.session.standing.ap.isKind sta .llA) ≠ true := he
    simpa using hA
  intro hr
  have hc := hr.count .llA
  rw [limDecideApProtection, if_pos hn, standing_enable11a, countP_cons, if_pos hk,
    ← h.right.count] at hc
  exact absurd hc (Nat.succ_ne_self _).symm

/-- **One event.** -/
theorem step_right_iff (h : ApInv a) (hs : apMachine.step a e = some a') :
    CacheRight a'.session.standing a'.joined ↔ ApEventOk a e := by
  cases e with
  | join sta =>
    obtain ⟨hg, rfl⟩ := guarded_eq_some.1 hs
    by_cases hm : sta ∈ a.joined
    · obtain ⟨b, hb⟩ := join_again h hm
      rw [if_pos hm, hb]
      exact iff_of_true ⟨h.right.entries, h.right.count⟩ (Or.inl hm)
    · obtain ⟨hn, hl⟩ := hg.resolve_left hm
      rw [if_neg hm]
      by_cases he : a.session.standing.ap.enters sta = true
      · exact iff_of_true (join_new h hn hl he).right (Or.inr he)
      · exact iff_of_false (join_not_entered h he) (not_or.2 ⟨hm, he⟩)
  | leave sta =>
    obtain ⟨hm, rfl⟩ := guarded_eq_some.1 hs
    exact leave_right_iff h.right h.distinct hm (h.entered sta hm)

theorem apInv_step (h : ApInv a) (hok : ApEventOk a e) (hs : apMachine.step a e = some a') :
    ApInv a' := by
  have hr := (step_right_iff h hs).2 hok
  cases e with
  | join sta =>
    obtain ⟨hg, rfl⟩ := guarded_eq_some.1 hs
    by_cases hm : sta ∈ a.joined
    · obtain ⟨b, hb⟩ := join_again h hm
      rw [if_pos hm] at hr ⊢
      refine ⟨hr, h.distinct, fun x hx => ?_⟩
      rw [hb]
      exact h.entered x hx
    · obtain ⟨hn, hl⟩ := hg.resolve_left hm
      rw [if_neg hm]
      exact join_new h hn hl (hok.resolve_left hm)
  | leave sta =>
    obtain ⟨hm, rfl⟩ := guarded_eq_some.1 hs
    refine ⟨hr, h.distinct.sublist (erase_sublist.map _), fun x hx => ?_⟩
    have hap : (limDecideApProtectionOnDelete a.session sta).standing.ap
        = a.session.standing.ap := leaveHt_ap.trans leaveLegacy_ap
    rw [hap]
    exact h.entered x (mem_of_mem_erase hx)

theorem reach_apInv (h : apMachine.Reach ApEventOk a) : ApInv a :=
  h.invariant ApInv (fun _ => apInv_start) fun _ _ _ => apInv_step

theorem CacheRight.all_left {t : Standing} (h : CacheRight t []) :
    (∀ k, t.num k = 0) ∧ activeSlots t.protStaCache = ∅ := by
  refine ⟨fun k => by rw [h.count, countP_nil], ?_⟩
  refine Set.eq_empty_of_forall_notMem fun i hi => ?_
  obtain ⟨x, hx, -⟩ := h.entries.mapsTo hi
  exact not_mem_nil hx

/-- **The stations protected from.**  Where all joins and leaves have met the condition, the active entries are the stations that have joined and the counters count them, so that nothing is left when all have gone; and this is so after the next event exactly when it meets the condition too. -/
theorem prot_counters_iff (a : ApStations) (ha : apMachine.Reach ApEventOk a) :
    CacheRight a.session.standing a.joined ∧
      (a.joined = [] → (∀ k, a.session.numSta k = 0) ∧ activeSlots a.session.protStaCache = ∅) ∧
      ∀ e a', apMachine.step a e = some a' →
        (CacheRight a'.session.standing a'.joined ↔ ApEventOk a e) :=
  have h := reach_apInv ha
  ⟨h.right, fun hj => CacheRight.all_left (hj ▸ h.right), fun _ _ => step_right_iff h⟩

end

/-- The session that has just begun, with no station. -/
def freshAp : ApStations := ⟨freshSession, []⟩

theorem freshAp_init : apMachine.init freshAp :=
  ⟨rfl, fun k => by cases k <;> rfl, fun _ _ => rfl⟩

def htSta (n : UInt8) : StaDs where
  staAddr := { SirMacAddr.zero with a5 := n }
  erpEnabled := true
  htCapability := true
  htGreenfield := true
  htSupportedChannelWidthSet := .w40MHz
  htLsigTXOPProtection := true

theorem prot_counters_iff_gone :
    ∃ a, apMachine.run freshAp [.join { htSta 1 with erpEnabled := false, htCapability := false },
        .join { htSta 2 with htCapability := false },
        .join { htSta 3 with htSupportedChannelWidthSet := .w20MHz, htGreenfield := false },
        .join { htSta 2 with htCapability := false },
        .leave { htSta 1 with erpEnabled := false, htCapability := false },
        .leave { htSta 3 with htSupportedChannelWidthSet := .w20MHz, htGreenfield := false },
        .leave { htSta 2 with htCapability := false }] = some a ∧ a.joined = [] ∧
      (∀ k, a.session.numSta k = 0) ∧ activeSlots a.session.protStaCache = ∅ :=
  Machine.exists_reach_of (q := fun a => a.joined = []) freshAp_init (by decide +kernel)
    (by decide +kernel) fun a hr hj => ⟨hj, (prot_counters_iff a hr).2.1 hj⟩

theorem left_station_stays :
    ∃ a, apMachine.run freshAp [.join (htSta 1), .leave (htSta 1)] = some a ∧ a.joined = [] ∧
      0 ∈ activeSlots a.session.protStaCache ∧ ¬ CacheRight a.session.standing a.joined := by
  refine Machine.exists_run_of (q := fun a => a.joined = [] ∧ 0 < limProtStaCacheSize ∧
    (a.session.protStaCache 0).active = true) (by decide +kernel) ?_
  rintro a ⟨hj, hi⟩
  have hi : 0 ∈ activeSlots a.session.protStaCache := hi
  refine ⟨hj, hi, fun hr => ?_⟩
  rw [hj] at hr
  have he : activeSlots a.session.protStaCache = ∅ := hr.all_left.2
  exact Set.notMem_empty 0 (he ▸ hi)

end Qcacld.Lim

import Qcacld.Lim.LimProtection

/-!
# Lim — LimStaProtection

Protection as a station sees it.  A station takes its coexistence flags from its access point's beacons: `limDecideStaProtectionOnAssoc` from the one it joins by, `limDecideStaProtection` from each one after, which also notes for the firmware what has changed.  The two are decision trees over the band, the HT operating mode and the configuration, written apart from each other.

`sta_protection_agrees_iff` says when the second finds nothing to change in the beacon the first has read: always at 2.4 GHz; at 5 GHz, not where an older flag stands that joining never clears, and not where the configuration wants no protection from 11a, which only joining asks.
-/

namespace Qcacld.Lim

/-! ### The session and the beacon -/

/-- The flags of `tBeaconParams` that `tUpdateBeaconParams` has too. -/
inductive ProtFlag where
  | llaCoexist
  | llbCoexist
  | llgCoexist
  | ht20Coexist
  | llnNonGFCoexist
  | fRIFSMode
  | fLsigTXOPProtectionFullSupport
deriving DecidableEq

open ProtFlag

/-- `PARAM_llACOEXIST_CHANGED`, and so on. -/
def ProtFlag.changed : ProtFlag → UInt16
  | .llaCoexist => 0x8
  | .llbCoexist => 0x10
  | .llgCoexist => 0x20
  | .ht20Coexist => 0x40
  | .llnNonGFCoexist => 0x80
  | .fRIFSMode => 0x100
  | .fLsigTXOPProtectionFullSupport => 0x200

/-- The flags that do not follow the HT operating mode. -/
def ProtFlag.isFactor : ProtFlag → Bool
  | .llnNonGFCoexist | .fRIFSMode | .fLsigTXOPProtectionFullSupport => true
  | _ => false

/-- What a station's protection only reads of `tPESession` and of `pMac->lim`. -/
structure StaSession where
  limRFBand : RfBand
  gLimPhyMode : UInt32
  htCapability : UInt8
  cfgProtection : CfgProtection

structure StaBeaconParams where
  flags : ProtFlag → UInt8
  gHTObssMode : UInt8

def StaBeaconParams.set (p : StaBeaconParams) (f : ProtFlag) (v : UInt8) : StaBeaconParams :=
  { p with flags := Function.update p.flags f v }

structure HtInfo where
  present : Bool
  rifsMode : Bool
  opMode : HtOpMode
  nonGFDevicesPresent : Bool
  obssNonHTStaPresent : Bool
  lsigTXOPProtectionFullSupport : Bool

/-- What protection reads of `tSchBeaconStruct`. -/
structure SchBeacon where
  erpPresent : Bool
  useProtection : Bool
  nonErpPresent : Bool
  htInfo : HtInfo

/-- The access point asks for protection from 11b stations. -/
def SchBeacon.nonErp (b : SchBeacon) : Bool :=
  b.erpPresent && (b.useProtection || b.nonErpPresent)

structure UpdateBeaconParams where
  flags : ProtFlag → UInt8
  paramChangeBitmap : UInt16

def wniCfgPhyMode11B : UInt32 := 1

namespace StaSession

variable (s : StaSession)

/-- The HT parts are read by HT stations only. -/
def hears (ht : HtInfo) : Bool := s.htCapability ≠ 0 && ht.present

/-! ### On joining -/

def demandHt20 (p : StaBeaconParams) : StaBeaconParams :=
  if s.cfgProtection.ht20 then p.set .ht20Coexist 1 else p

def onAssoc5GHz (p : StaBeaconParams) : HtOpMode → StaBeaconParams
  | .mixed | .overlapLegacy => if s.cfgProtection.fromlla then p.set .llaCoexist 1 else p
  | .noLegacy20MHzHt => s.demandHt20 p
  | .pure => p

def onAssocErp (p : StaBeaconParams) (b : SchBeacon) : StaBeaconParams :=
  if s.gLimPhyMode ≠ wniCfgPhyMode11B then
    p.set .llbCoexist (s.cfgProtection.fromllb && b.nonErp).toUInt8
  else p

def onAssocHt (p : StaBeaconParams) : HtOpMode → StaBeaconParams
  | .mixed | .overlapLegacy =>
    if s.cfgProtection.fromllg ∧ p.flags .llbCoexist = 0 then p.set .llgCoexist 1 else p
  | .noLegacy20MHzHt => s.demandHt20 (p.set .llgCoexist 0)
  | .pure => (p.set .llgCoexist 0).set .ht20Coexist 0

def onAssoc24GHz (p : StaBeaconParams) (b : SchBeacon) : StaBeaconParams :=
  let p := s.onAssocErp p b
  if s.hears b.htInfo then
    s.onAssocHt { p with gHTObssMode := b.htInfo.obssNonHTStaPresent.toUInt8 } b.htInfo.opMode
  else p

def onAssocBand (p : StaBeaconParams) (b : SchBeacon) : StaBeaconParams :=
  match s.limRFBand with
  | .band5GHz => s.onAssoc5GHz p b.htInfo.opMode
  | .band24GHz => s.onAssoc24GHz p b
  | .unknown => p

/-- The factors other than the HT operating mode come last. -/
def limDecideStaProtectionOnAssoc (p : StaBeaconParams) (b : SchBeacon) : StaBeaconParams :=
  let p := s.onAssocBand p b
  if s.hears b.htInfo then
    ((p.set .fRIFSMode b.htInfo.rifsMode.toUInt8).set .llnNonGFCoexist
      b.htInfo.nonGFDevicesPresent.toUInt8).set .fLsigTXOPProtectionFullSupport
      b.htInfo.lsigTXOPProtectionFullSupport.toUInt8
  else p

end StaSession

/-! ### On each beacon -/

structure BeaconRead where
  beaconParams : StaBeaconParams
  gHTOperMode : HtOpMode
  pBeaconParams : UpdateBeaconParams

open BeaconRead

namespace BeaconRead

def flag (r : BeaconRead) (f : ProtFlag) : UInt8 := r.beaconParams.flags f

/-- A flag takes a value, in the session and for the firmware. -/
def change (r : BeaconRead) (f : ProtFlag) (v : UInt8) : BeaconRead :=
  { r with
    beaconParams := r.beaconParams.set f v
    pBeaconParams.flags := Function.update r.pBeaconParams.flags f v
    pBeaconParams.paramChangeBitmap := r.pBeaconParams.paramChangeBitmap ||| f.changed }

/-- What the four functions that enable and disable protection do for a station. -/
def settle (r : BeaconRead) (f : ProtFlag) (enable : Bool) : BeaconRead :=
  if enable then if r.flag f = 0 then r.change f 1 else r
  else if r.flag f = 1 then r.change f 0 else r

/-- No flag differs, and nothing more is noted for the firmware. -/
structure Same (r r' : BeaconRead) : Prop where
  flags : r'.beaconParams.flags = r.beaconParams.flags
  bitmap : r'.pBeaconParams.paramChangeBitmap = r.pBeaconParams.paramChangeBitmap

def follow (r : BeaconRead) (f : ProtFlag) (v : UInt8) : BeaconRead :=
  if r.flag f ≠ v then r.change f v else r

end BeaconRead

namespace StaSession

variable (s : StaSession) (r : BeaconRead)

/-- The configuration is asked of access points only. -/
def limEnable11aProtection (enable : Bool) : BeaconRead := r.settle .llaCoexist enable

def limEnable11gProtection (enable : Bool) : BeaconRead :=
  if s.cfgProtection.fromllb then r.settle .llbCoexist enable else r

def limEnableHtProtectionFrom11g (enable : Bool) : BeaconRead :=
  if s.htCapability ≠ 0 ∧ s.cfgProtection.fromllg then r.settle .llgCoexist enable else r

def limEnableHT20Protection (enable : Bool) : BeaconRead :=
  if s.htCapability ≠ 0 ∧ s.cfgProtection.ht20 then r.settle .ht20Coexist enable else r

def decide5GHz : HtOpMode → BeaconRead
  | .mixed | .overlapLegacy => limEnable11aProtection r true
  | .noLegacy20MHzHt => s.limEnableHT20Protection (limEnable11aProtection r false) true
  | .pure => s.limEnableHT20Protection (limEnable11aProtection r false) false

def decideErp (b : SchBeacon) : BeaconRead :=
  if s.gLimPhyMode ≠ wniCfgPhyMode11B then s.limEnable11gProtection r b.nonErp else r

/-- Looked at whether or not the operating mode is new. -/
def decide11g (m : HtOpMode) : BeaconRead :=
  if (m = .mixed ∨ m = .overlapLegacy) ∧ r.flag .llbCoexist = 0 then
    s.limEnableHtProtectionFrom11g r true
  else r

def decideHt : HtOpMode → BeaconRead
  | .mixed | .overlapLegacy => r
  | .noLegacy20MHzHt => s.limEnableHT20Protection (s.limEnableHtProtectionFrom11g r false) true
  | .pure => s.limEnableHT20Protection (s.limEnableHtProtectionFrom11g r false) false

def decide24GHz (b : SchBeacon) : BeaconRead :=
  let r := s.decideErp r b
  if s.hears b.htInfo then
    let r := s.decide11g r b.htInfo.opMode
    if r.gHTOperMode ≠ b.htInfo.opMode then
      s.decideHt { r with gHTOperMode := b.htInfo.opMode } b.htInfo.opMode
    else r
  else r

def decideBand (b : SchBeacon) : BeaconRead :=
  match s.limRFBand with
  | .band5GHz =>
    if s.htCapability = 1 ∧ b.htInfo.present then s.decide5GHz r b.htInfo.opMode else r
  | .band24GHz => s.decide24GHz r b
  | .unknown => r

def limDecideStaProtection (b : SchBeacon) : BeaconRead :=
  let r := s.decideBand r b
  if s.hears b.htInfo then
    let r := ((r.follow .fRIFSMode b.htInfo.rifsMode.toUInt8).follow .llnNonGFCoexist
      b.htInfo.nonGFDevicesPresent.toUInt8).follow .fLsigTXOPProtectionFullSupport
      b.htInfo.lsigTXOPProtectionFullSupport.toUInt8
    { r with beaconParams.gHTObssMode := b.htInfo.obssNonHTStaPresent.toUInt8 }
  else r

/-- The session as joining by the beacon `b` leaves it. -/
def joinedBy (p : StaBeaconParams) (b : SchBeacon) (g : HtOpMode) (u : UpdateBeaconParams) :
    BeaconRead :=
  ⟨s.limDecideStaProtectionOnAssoc p b, g, u⟩

/-- At 5 GHz joining clears no flag and asks `fromlla`; the beacons after do the reverse. -/
def Agrees (s : StaSession) (p : StaBeaconParams) : HtOpMode → Prop
  | .mixed | .overlapLegacy => s.cfgProtection.fromlla ∨ p.flags .llaCoexist ≠ 0
  | .noLegacy20MHzHt => p.flags .llaCoexist ≠ 1
  | .pure => p.flags .llaCoexist ≠ 1 ∧ (s.cfgProtection.ht20 → p.flags .ht20Coexist ≠ 1)

end StaSession

/-! ### A flag that stands as asked -/

theorem ProtFlag.ne_factor {f : ProtFlag} (hf : f.isFactor = false) (g : ProtFlag)
    (hg : g.isFactor) : f ≠ g := fun h => by simp [← h, hf] at hg

@[simp] theorem StaBeaconParams.set_flags (p : StaBeaconParams) (f : ProtFlag) (v : UInt8) :
    (p.set f v).flags = Function.update p.flags f v := rfl

namespace BeaconRead

variable (r : BeaconRead)

variable {r} in
theorem settle_of_ne {f : ProtFlag} {e : Bool} (h : r.flag f ≠ if e then 0 else 1) :
    r.settle f e = r := by
  cases e <;> simp_all [settle]

/-- Only a flag that does not stand as asked is changed. -/
theorem settle_flag_iff (f : ProtFlag) (e : Bool) :
    (r.settle f e).flag f = r.flag f ↔ r.flag f ≠ if e then 0 else 1 := by
  refine ⟨fun h hf => ?_, fun h => by rw [settle_of_ne h]⟩
  cases e <;> simp [settle, change, flag] at h hf <;> simp_all

theorem change_other {f g : ProtFlag} (h : g ≠ f) (v : UInt8) :
    (r.change f v).flag g = r.flag g := by
  simp [change, flag, h]

theorem settle_other {f g : ProtFlag} (h : g ≠ f) (e : Bool) :
    (r.settle f e).flag g = r.flag g := by
  unfold settle
  split_ifs <;> simp only [change_other r h]

theorem follow_other {f g : ProtFlag} (h : g ≠ f) (v : UInt8) :
    (r.follow f v).flag g = r.flag g := by
  unfold follow
  split_ifs <;> simp only [change_other r h]

end BeaconRead

namespace StaSession

section Settled

variable {s : StaSession} {r : BeaconRead} {b : SchBeacon} {m : HtOpMode} {e : Bool}

/-- What the operating mode asks of the HT20 flag. -/
def Ht20Settled (s : StaSession) (r : BeaconRead) (enable : Bool) : Prop :=
  s.cfgProtection.ht20 → r.flag .ht20Coexist ≠ if enable then 0 else 1

theorem Ht20Settled.stays (h : s.Ht20Settled r e) : s.limEnableHT20Protection r e = r :=
  ite_eq_right_iff.2 fun hc => settle_of_ne (h hc.2)

/-- What `decide5GHz` finds as it would have it. -/
def Settled (s : StaSession) (r : BeaconRead) : HtOpMode → Prop
  | .mixed | .overlapLegacy => r.flag .llaCoexist ≠ 0
  | .noLegacy20MHzHt => r.flag .llaCoexist ≠ 1 ∧ s.Ht20Settled r true
  | .pure => r.flag .llaCoexist ≠ 1 ∧ s.Ht20Settled r false

theorem decide5GHz_of_settled (h : s.Settled r m) : s.decide5GHz r m = r := by
  cases m with
  | mixed | overlapLegacy => exact settle_of_ne (e := true) h
  | noLegacy20MHzHt | pure =>
    have h11a : limEnable11aProtection r false = r := settle_of_ne h.1
    rw [decide5GHz, h11a]
    exact h.2.stays

/-- The flag of the first call is untouched by the second. -/
theorem settled_pair (hcap : s.htCapability = 1) (h : ∀ f, f.isFactor = false →
      (s.limEnableHT20Protection (limEnable11aProtection r false) e).flag f = r.flag f) :
    r.flag .llaCoexist ≠ 1 ∧ s.Ht20Settled r e := by
  have h11a : r.flag .llaCoexist ≠ 1 := by
    refine (r.settle_flag_iff .llaCoexist false).1 (Eq.trans ?_ (h _ rfl))
    unfold limEnableHT20Protection
    split_ifs
    · exact (settle_other _ (by decide) e).symm
    · rfl
  refine ⟨h11a, fun hcfg => (r.settle_flag_iff .ht20Coexist e).1 ?_⟩
  have hht := h .ht20Coexist rfl
  rwa [limEnable11aProtection, settle_of_ne h11a, limEnableHT20Protection,
    if_pos ⟨by rw [hcap]; decide, hcfg⟩] at hht

theorem settled_of_flags (hcap : s.htCapability = 1)
    (h : ∀ f, f.isFactor = false → (s.decide5GHz r m).flag f = r.flag f) : s.Settled r m := by
  cases m with
  | mixed | overlapLegacy => exact (r.settle_flag_iff .llaCoexist true).1 (h _ rfl)
  | noLegacy20MHzHt | pure => exact settled_pair hcap h

/-- What `decide24GHz` finds as it would have it. -/
def HtSettled (s : StaSession) (r : BeaconRead) : HtOpMode → Prop
  | .mixed | .overlapLegacy => s.cfgProtection.fromllg → r.flag .llbCoexist = 0 →
      r.flag .llgCoexist ≠ 0
  | .noLegacy20MHzHt => r.flag .llgCoexist ≠ 1 ∧ s.Ht20Settled r true
  | .pure => r.flag .llgCoexist ≠ 1 ∧ s.Ht20Settled r false

theorem decideErp_of_settled (h : s.gLimPhyMode ≠ wniCfgPhyMode11B →
    s.cfgProtection.fromllb → r.flag .llbCoexist = b.nonErp.toUInt8) : s.decideErp r b = r := by
  unfold decideErp limEnable11gProtection
  split_ifs with hphy hcfg
  · refine settle_of_ne ?_
    rw [h hphy hcfg]
    cases b.nonErp <;> decide
  · rfl
  · rfl

theorem decide11g_of_settled (h : s.HtSettled r m) : s.decide11g r m = r := by
  refine ite_eq_right_iff.2 fun ⟨hm, hllb⟩ => ite_eq_right_iff.2 fun hc => ?_
  obtain rfl | rfl := hm <;> exact settle_of_ne (e := true) (h hc.2 hllb)

theorem decideHt_of_settled (h : s.HtSettled r m) : s.decideHt r m = r := by
  cases m with
  | mixed | overlapLegacy => rfl
  | noLegacy20MHzHt | pure =>
    have h11g : s.limEnableHtProtectionFrom11g r false = r :=
      ite_eq_right_iff.2 fun _ => settle_of_ne h.1
    rw [decideHt, h11g]
    exact h.2.stays

theorem decide24GHz_of_settled (hllb : s.gLimPhyMode ≠ wniCfgPhyMode11B → s.cfgProtection.fromllb →
      r.flag .llbCoexist = b.nonErp.toUInt8)
    (h : s.hears b.htInfo → s.HtSettled r b.htInfo.opMode) :
    ∃ g, s.decide24GHz r b = { r with gHTOperMode := g } := by
  simp only [decide24GHz, decideErp_of_settled hllb]
  split_ifs with hc hg
  · rw [decide11g_of_settled (h hc)]
    exact ⟨_, decideHt_of_settled (r := { r with gHTOperMode := _ }) (h hc)⟩
  · exact ⟨r.gHTOperMode, decide11g_of_settled (h hc)⟩
  · exact ⟨r.gHTOperMode, rfl⟩

end Settled

/-! ### Where the two agree -/

section Joined

variable (s : StaSession) (p : StaBeaconParams) (b : SchBeacon) (g : HtOpMode)
  (u : UpdateBeaconParams)

theorem joined_flag (f : ProtFlag) (hf : f.isFactor = false) :
    (s.joinedBy p b g u).flag f = (s.onAssocBand p b).flags f := by
  unfold joinedBy limDecideStaProtectionOnAssoc flag
  split_ifs
  · simp [ne_factor hf .fRIFSMode rfl, ne_factor hf .llnNonGFCoexist rfl,
      ne_factor hf .fLsigTXOPProtectionFullSupport rfl]
  · rfl

variable {r : BeaconRead} {m : HtOpMode} in
/-- Each mode leaves the HT flags as `decideHt` asks for them. -/
theorem htSettled_of_joined
    (h : ∀ f, f.isFactor = false → r.flag f = (s.onAssocHt p m).flags f) : s.HtSettled r m := by
  have hllb := h .llbCoexist rfl
  have hllg := h .llgCoexist rfl
  have hht := h .ht20Coexist rfl
  cases m with
  | mixed | overlapLegacy =>
    intro hcfg h0
    by_cases hp : p.flags .llbCoexist = 0
    · simp [hllg, onAssocHt, hcfg, hp]
    · simp [hllb, onAssocHt, hp] at h0
  | noLegacy20MHzHt =>
    refine ⟨?_, fun hcfg => ?_⟩
    · rw [hllg, onAssocHt, demandHt20]
      split_ifs <;> simp
    · simp [hht, onAssocHt, demandHt20, hcfg]
  | pure => exact ⟨by simp [hllg, onAssocHt], fun _ => by simp [hht, onAssocHt]⟩

theorem onAssoc24GHz_llb (hphy : s.gLimPhyMode ≠ wniCfgPhyMode11B)
    (hcfg : s.cfgProtection.fromllb) :
    (s.onAssoc24GHz p b).flags .llbCoexist = b.nonErp.toUInt8 := by
  have hllb : (s.onAssocErp p b).flags .llbCoexist = b.nonErp.toUInt8 := by
    simp [onAssocErp, hphy, hcfg]
  unfold onAssoc24GHz
  split_ifs
  · cases b.htInfo.opMode <;> simp only [onAssocHt, demandHt20] <;> (try split_ifs) <;>
      simp [hllb]
  · exact hllb

theorem settled_joined_iff {m : HtOpMode} {r : BeaconRead}
    (h : ∀ f, f.isFactor = false → r.flag f = (s.onAssoc5GHz p m).flags f) :
    s.Settled r m ↔ s.Agrees p m := by
  have hlla := h .llaCoexist rfl
  have hht := h .ht20Coexist rfl
  cases m with
  | mixed | overlapLegacy =>
    by_cases hcfg : s.cfgProtection.fromlla <;> simp [Settled, Agrees, hlla, onAssoc5GHz, hcfg]
  | noLegacy20MHzHt =>
    by_cases hcfg : s.cfgProtection.ht20 <;>
      simp [Settled, Ht20Settled, Agrees, hlla, hht, onAssoc5GHz, demandHt20, hcfg]
  | pure => simp [Settled, Ht20Settled, Agrees, hlla, hht, onAssoc5GHz]

theorem decide_flag (r : BeaconRead) (f : ProtFlag) (hf : f.isFactor = false) :
    (s.limDecideStaProtection r b).flag f = (s.decideBand r b).flag f := by
  unfold limDecideStaProtection
  split_ifs
  · have hother (r : BeaconRead) (g : ProtFlag) (hg : g.isFactor) (v : UInt8) :
        (r.follow g v).flag f = r.flag f := r.follow_other (ne_factor hf g hg) v
    exact (hother _ _ rfl _).trans ((hother _ _ rfl _).trans (hother _ _ rfl _))
  · rfl

/-- The other factors stand since joining. -/
theorem decide_of_band {g' : HtOpMode} (h : s.decideBand (s.joinedBy p b g u) b =
    s.joinedBy p b g' u) :
    (s.joinedBy p b g u).Same (s.limDecideStaProtection (s.joinedBy p b g u) b) := by
  rw [limDecideStaProtection, h]
  by_cases hc : s.hears b.htInfo
  · constructor <;>
      simp [hc, joinedBy, limDecideStaProtectionOnAssoc, follow, flag]
  · constructor <;> simp [hc, joinedBy]

/-- The beacon that a station joined by has nothing new for it, but for what joining at 5 GHz leaves undone. -/
theorem sta_protection_agrees_iff :
    (s.joinedBy p b g u).Same (s.limDecideStaProtection (s.joinedBy p b g u) b) ↔
      (s.limRFBand = .band5GHz → s.htCapability = 1 → b.htInfo.present →
        s.Agrees p b.htInfo.opMode) := by
  set joined := s.joinedBy p b g u
  have hjoined : ∀ f, f.isFactor = false → joined.flag f = (s.onAssocBand p b).flags f :=
    joined_flag s p b g u
  have h5 (hb : s.limRFBand = .band5GHz) :
      s.Settled joined b.htInfo.opMode ↔ s.Agrees p b.htInfo.opMode := by
    simp only [onAssocBand, hb] at hjoined
    exact settled_joined_iff s p hjoined
  constructor
  · intro hsame hb hcap hp
    refine (h5 hb).1 (settled_of_flags hcap fun f hf => ?_)
    rw [← show s.decideBand joined b = s.decide5GHz joined b.htInfo.opMode by
      simp [decideBand, hb, hcap, hp], ← decide_flag s b joined f hf]
    exact congrFun hsame.flags f
  · intro h
    have hband : ∃ g', s.decideBand joined b = s.joinedBy p b g' u := by
      unfold decideBand
      split
      next hb =>
        split_ifs with hc
        · exact ⟨g, decide5GHz_of_settled ((h5 hb).2 (h hb hc.1 hc.2))⟩
        · exact ⟨g, rfl⟩
      next hb =>
        simp only [onAssocBand, hb] at hjoined
        refine decide24GHz_of_settled (fun hphy hcfg => ?_) fun hc => ?_
        · rw [hjoined _ rfl, onAssoc24GHz_llb s p b hphy hcfg]
        · simp only [onAssoc24GHz, if_pos hc] at hjoined
          exact htSettled_of_joined s _ hjoined
      next => exact ⟨g, rfl⟩
    obtain ⟨g', hg⟩ := hband
    exact decide_of_band s p b g u hg

end Joined

/-- An HT session at 5 GHz with no protection configured. -/
def unprotected : StaSession :=
  ⟨.band5GHz, 0, 1, ⟨false, false, false, false, false, false, false, false, false⟩⟩

def mixedBeacon : SchBeacon := ⟨false, false, false, ⟨true, false, .mixed, false, false, false⟩⟩

/-- A mixed BSS: `llaCoexist` is 0 after joining, and the first beacon sets it. -/
theorem sta_protection_mixed : ¬ ∀ (s : StaSession) (p : StaBeaconParams) (b : SchBeacon)
    (g : HtOpMode) (u : UpdateBeaconParams),
    (s.joinedBy p b g u).Same (s.limDecideStaProtection (s.joinedBy p b g u) b) := by
  intro h
  have := (h unprotected ⟨fun _ => 0, 0⟩ mixedBeacon .pure ⟨fun _ => 0, 0⟩).bitmap
  exact absurd this (by decide)

end StaSession

end Qcacld.Lim

import Qcacld.Lim.LimProtStaCache
import Mathlib.Data.Set.Card

/-!
# Lim — LimNoShort

The stations without short preamble or short slot time.  When such a station joins an 11g access point, `limUpdateShortPreamble` and `limUpdateShortSlotTime` enter it in a table of the session, count it and turn the short form off; `limDecideShortPreamble` and `limDecideShortSlot` take it out when it leaves, and turn the short form on again with the last one.  The free entry is looked for in the session's table and, where that one is taken, in the adapter's, which access points never fill: the first entry always serves.

`no_short_iff` says which joins keep the tables right: those of at most one station without the capability, in 11g mode, that does not come back with it.
-/

namespace Qcacld.Lim
open Qcacld.Support Qcacld.Dph Function List

/-! ### The tables -/

/-- `tLimNoShortParams`, and `tLimNoShortSlotParams`. -/
structure NoShortParams where
  numSta : UInt8
  cache : Nat → CacheParams

namespace NoShortParams

/-- What `vos_mem_set` leaves. -/
def zero : NoShortParams := ⟨0, fun _ => ⟨false, .zero, .invalid⟩⟩

/-- A station is entered at `i` and counted. -/
def enter (t : NoShortParams) (i : Nat) (addr : SirMacAddr) : NoShortParams where
  numSta := t.numSta + 1
  cache := update t.cache i ⟨true, addr, (t.cache i).protStaCacheType⟩

/-- The entry `i` is freed and counted no more. -/
def free (t : NoShortParams) (i : Nat) : NoShortParams where
  numSta := t.numSta - 1
  cache := update t.cache i { t.cache i with active := false }

end NoShortParams

/-- What the tables need of `tDphHashNode`. -/
structure ShortSta where
  staAddr : SirMacAddr
  shortPreambleEnabled : Bool
  shortSlotTimeEnabled : Bool
deriving DecidableEq

/-- What the tables need of `tPESession`. -/
structure ShortSession where
  isApRole : Bool
  gLimPhyMode : UInt32
  gLimNoShortParams : NoShortParams
  gLimNoShortSlotParams : NoShortParams
  fShortPreamble : Bool
  shortSlotTimeSupported : Bool

/-- The adapter's own tables, and what the configuration says of the short forms. -/
structure ShortMac where
  gLimNoShortParams : NoShortParams
  gLimNoShortSlotParams : NoShortParams
  cfgShortPreamble : Bool
  cfg11gShortPreambleEnabled : Bool
  cfg11gShortSlotTimeEnabled : Bool

/-- The part of `tUpdateBeaconParams` about the short forms, with their bits of `paramChangeBitmap`. -/
structure ShortBeacon where
  fShortPreamble : Bool
  fShortSlotTime : Bool
  shortPreambleChanged : Bool
  shortSlotTimeChanged : Bool

/-- What the calls are given: the adapter, the session and the beacon parameters to be sent. -/
structure ShortEnv where
  mac : ShortMac
  session : ShortSession
  beacon : ShortBeacon

namespace ShortEnv

def setPreamble (e : ShortEnv) (own global : NoShortParams) : ShortEnv :=
  { e with
    session.gLimNoShortParams := own
    mac.gLimNoShortParams := global }

def setSlot (e : ShortEnv) (own global : NoShortParams) : ShortEnv :=
  { e with
    session.gLimNoShortSlotParams := own
    mac.gLimNoShortSlotParams := global }

/-- The short preamble is turned on or off, and the beacon is told. -/
def turnPreamble (e : ShortEnv) (enable : Bool) : ShortEnv :=
  { e with
    session.fShortPreamble := enable
    beacon.fShortPreamble := enable
    beacon.shortPreambleChanged := true }

/-- The short slot time is turned on or off, and the beacon is told. -/
def turnSlot (e : ShortEnv) (enable : Bool) : ShortEnv :=
  { e with
    session.shortSlotTimeSupported := enable
    beacon.fShortSlotTime := enable
    beacon.shortSlotTimeChanged := true }

end ShortEnv

/-! ### Joining -/

/-- The free entry that is looked for: an access point also takes one that is free in the adapter's table. -/
def freeNoShort (isApRole : Bool) (own global : NoShortParams) : Option Nat :=
  (List.range limProtStaCacheSize).find? fun i =>
    if isApRole && !(own.cache i).active then true else !(global.cache i).active

/-- The session's table and the adapter's after a station has been entered; `none` when it is listed or there is no room. -/
def enterNoShort (isApRole : Bool) (own global : NoShortParams) (peerMacAddr : SirMacAddr) :
    Option (NoShortParams × NoShortParams) :=
  match seekCache (if isApRole then own else global).cache peerMacAddr with
  | some _ => none
  | none => (freeNoShort isApRole own global).map fun i =>
    if isApRole then (own.enter i peerMacAddr, global) else (own, global.enter i peerMacAddr)

def limEnableShortPreamble (e : ShortEnv) (enable : Bool) : ShortEnv :=
  if !e.mac.cfgShortPreamble then e
  else if !e.mac.cfg11gShortPreambleEnabled then e
  else if e.session.isApRole then
    if enable && !e.session.fShortPreamble then e.turnPreamble true
    else if !enable && e.session.fShortPreamble then e.turnPreamble false
    else e
  else e

/-- `limUpdateShortPreamble`, when the table has the node `pStaDs` under the station's address. -/
def limUpdateShortPreamble (e : ShortEnv) (pStaDs : ShortSta) : ShortEnv :=
  if e.session.gLimPhyMode = wniCfgPhyMode11g ∧ !pStaDs.shortPreambleEnabled then
    match enterNoShort e.session.isApRole e.session.gLimNoShortParams e.mac.gLimNoShortParams
      pStaDs.staAddr with
    | none => e
    | some (own, global) => limEnableShortPreamble (e.setPreamble own global) false
  else e

/-- The short slot time is turned off once a station without it is counted. -/
def disableShortSlot (e : ShortEnv) : ShortEnv :=
  if e.session.isApRole && (e.mac.cfg11gShortSlotTimeEnabled &&
      (e.session.gLimNoShortSlotParams.numSta != 0) && e.session.shortSlotTimeSupported) then
    e.turnSlot false
  else if !e.session.isApRole then
    if e.mac.cfg11gShortSlotTimeEnabled && (e.mac.gLimNoShortSlotParams.numSta != 0)
      && e.session.shortSlotTimeSupported then e.turnSlot false else e
  else e

/-- `limUpdateShortSlotTime`, when the table has the node `pStaDs` under the station's address. -/
def limUpdateShortSlotTime (e : ShortEnv) (pStaDs : ShortSta) : ShortEnv :=
  if e.session.gLimPhyMode = wniCfgPhyMode11g ∧ !pStaDs.shortSlotTimeEnabled then
    match enterNoShort e.session.isApRole e.session.gLimNoShortSlotParams
      e.mac.gLimNoShortSlotParams pStaDs.staAddr with
    | none => e
    | some (own, global) => disableShortSlot (e.setSlot own global)
  else e

/-! ### Leaving -/

/-- A table that counts stations loses the one with this address. -/
def dropNoShort (t : NoShortParams) (staAddr : SirMacAddr) : NoShortParams :=
  if 0 < t.numSta then
    match seekCache t.cache staAddr with
    | some i => t.free i
    | none => t
  else t

def limDecideShortPreamble (e : ShortEnv) (pStaDs : ShortSta) : ShortEnv :=
  if !pStaDs.shortPreambleEnabled then
    let own := dropNoShort e.session.gLimNoShortParams pStaDs.staAddr
    if own.numSta = 0 then
      limEnableShortPreamble (e.setPreamble .zero e.mac.gLimNoShortParams) true
    else e.setPreamble own e.mac.gLimNoShortParams
  else e

/-- The slot time's tables after a station has been taken out: of the session's when that counts any, of the adapter's otherwise. -/
def dropShortSlot (e : ShortEnv) (staAddr : SirMacAddr) : ShortEnv :=
  if e.session.isApRole && (0 < e.session.gLimNoShortSlotParams.numSta) then
    e.setSlot (dropNoShort e.session.gLimNoShortSlotParams staAddr) e.mac.gLimNoShortSlotParams
  else
    e.setSlot e.session.gLimNoShortSlotParams (dropNoShort e.mac.gLimNoShortSlotParams staAddr)

/-- The short slot time is turned on again when no station without it is counted. -/
def enableShortSlot (e : ShortEnv) : ShortEnv :=
  if e.session.isApRole &&
      (e.mac.cfg11gShortSlotTimeEnabled && (e.session.gLimNoShortSlotParams.numSta == 0)) then
    (e.setSlot .zero e.mac.gLimNoShortSlotParams).turnSlot true
  else if e.mac.cfg11gShortSlotTimeEnabled && (e.mac.gLimNoShortSlotParams.numSta == 0) then
    let e := e.setSlot e.session.gLimNoShortSlotParams .zero
    if e.session.isApRole then e.turnSlot true else e
  else e

def limDecideShortSlot (e : ShortEnv) (pStaDs : ShortSta) : ShortEnv :=
  if !pStaDs.shortSlotTimeEnabled then enableShortSlot (dropShortSlot e pStaDs.staAddr) else e

/-! ### The access points of an adapter -/

inductive ShortCap where
  | preamble
  | slotTime

def ShortSta.lacks (sta : ShortSta) : ShortCap → Bool
  | .preamble => !sta.shortPreambleEnabled
  | .slotTime => !sta.shortSlotTimeEnabled

def ShortSession.table (s : ShortSession) : ShortCap → NoShortParams
  | .preamble => s.gLimNoShortParams
  | .slotTime => s.gLimNoShortSlotParams

def ShortMac.table (m : ShortMac) : ShortCap → NoShortParams
  | .preamble => m.gLimNoShortParams
  | .slotTime => m.gLimNoShortSlotParams

def ShortSession.short (s : ShortSession) : ShortCap → Bool
  | .preamble => s.fShortPreamble
  | .slotTime => s.shortSlotTimeSupported

def ShortBeacon.changed (b : ShortBeacon) : ShortCap → Bool
  | .preamble => b.shortPreambleChanged
  | .slotTime => b.shortSlotTimeChanged

/-- What `vos_mem_set` makes of the parameters before each call. -/
def ShortBeacon.zero : ShortBeacon := ⟨false, false, false, false⟩

section
variable (ι : Type)

/-- The sessions of an adapter, the stations associated with each, and the beacon parameters that the last event sent. -/
structure ShortAdapter where
  mac : ShortMac
  sessions : ι → ShortSession
  joined : ι → List ShortSta
  beacon : ShortBeacon

/-- A station associates, or again; or it is deleted. -/
inductive ShortEvent where
  | join (k : ι) (pStaDs : ShortSta)
  | delete (k : ι) (pStaDs : ShortSta)

end

section
variable {ι : Type} [DecidableEq ι]

def others (joined : List ShortSta) (staAddr : SirMacAddr) : List ShortSta :=
  joined.filter fun y => y.staAddr ≠ staAddr

namespace ShortAdapter

/-- What the calls for session `k` are given. -/
def env (s : ShortAdapter ι) (k : ι) : ShortEnv := ⟨s.mac, s.sessions k, .zero⟩

omit [DecidableEq ι] in
@[simp] theorem env_session (s : ShortAdapter ι) (k : ι) : (s.env k).session = s.sessions k := rfl

/-- The calls for session `k` have left `e`, and its nodes are now `joined`. -/
def put (s : ShortAdapter ι) (k : ι) (e : ShortEnv) (joined : List ShortSta) : ShortAdapter ι where
  mac := e.mac
  sessions := update s.sessions k e.session
  joined := update s.joined k joined
  beacon := e.beacon

end ShortAdapter

/-- The answer to an association request of the node `sta`. -/
def joinShort (e : ShortEnv) (sta : ShortSta) : ShortEnv :=
  limUpdateShortSlotTime (limUpdateShortPreamble e sta) sta

/-- `limDeleteDphHashEntry` of the node `sta`. -/
def deleteShort (e : ShortEnv) (sta : ShortSta) : ShortEnv :=
  limDecideShortSlot (limDecideShortPreamble e sta) sta

def shortStep (s : ShortAdapter ι) : ShortEvent ι → Option (ShortAdapter ι)
  | .join k sta => some (s.put k (joinShort (s.env k) sta) (sta :: others (s.joined k) sta.staAddr))
  | .delete k sta => do
    guard (sta ∈ s.joined k)
    return s.put k (deleteShort (s.env k) sta) (others (s.joined k) sta.staAddr)

structure NoShortParams.Empty (t : NoShortParams) : Prop where
  num : t.numSta = 0
  free : ∀ i < limProtStaCacheSize, (t.cache i).active = false

/-- The sessions are those of access points, in any mode; no table lists anybody, and no station has joined. -/
structure ShortInit (s : ShortAdapter ι) : Prop where
  ap : ∀ k, (s.sessions k).isApRole = true
  tables : ∀ k c, ((s.sessions k).table c).Empty
  global : ∀ c, (s.mac.table c).Empty
  joined : ∀ k, s.joined k = []

def shortMachine (ι : Type) [DecidableEq ι] : Machine (ShortAdapter ι) (ShortEvent ι) where
  init := ShortInit
  step := shortStep

/-! ### The law -/

/-- The addresses of the stations without the capability. -/
def lacking (joined : List ShortSta) (c : ShortCap) : List SirMacAddr :=
  (joined.filter fun sta => sta.lacks c).map ShortSta.staAddr

/-- A table lists these addresses: each has one active entry, and the counter is the number of active entries. -/
structure NoShortRight (t : NoShortParams) (l : List SirMacAddr) : Prop where
  entries : Set.BijOn (fun i => (t.cache i).addr) (activeSlots t.cache) {a | a ∈ l}
  count : t.numSta.toNat = (activeSlots t.cache).ncard

/-- **The law of the tables**, in every session and for both capabilities. -/
def ShortRight (s : ShortAdapter ι) : Prop :=
  ∀ k c, NoShortRight ((s.sessions k).table c) (lacking (s.joined k) c)

def Crosses (t t' : NoShortParams) : Prop := ¬ (t.numSta = 0 ↔ t'.numSta = 0)

/-- No active entry is overwritten while one of the stations has its address. -/
def Spares (t t' : NoShortParams) (joined : List ShortSta) : Prop :=
  ∀ i ∈ activeSlots t.cache, (∃ y ∈ joined, y.staAddr = (t.cache i).addr) →
    (t'.cache i).addr = (t.cache i).addr

def ShortEvent.session : ShortEvent ι → ι
  | .join k _ | .delete k _ => k

/-- **The law of a step.**  Entries of associated stations are spared; what a session's beacons say, and what is sent for the session of the event, is changed only when the counter goes between zero and non-zero. -/
structure ShortStepRight (s : ShortAdapter ι) (e : ShortEvent ι) (s' : ShortAdapter ι) : Prop where
  spares : ∀ k c, Spares ((s.sessions k).table c) ((s'.sessions k).table c) (s'.joined k)
  short : ∀ k c, (s'.sessions k).short c ≠ (s.sessions k).short c →
    Crosses ((s.sessions k).table c) ((s'.sessions k).table c)
  changed : ∀ c, s'.beacon.changed c = true →
    Crosses ((s.sessions e.session).table c) ((s'.sessions e.session).table c)

/-- A station that joins and lacks the capability is the only one, in 11g mode; one that comes back has not gained it. -/
structure JoinsAlone (gLimPhyMode : UInt32) (joined : List ShortSta) (sta : ShortSta) (c : ShortCap) :
    Prop where
  alone : sta.lacks c = true → gLimPhyMode = wniCfgPhyMode11g ∧
    ∀ y ∈ joined, y.lacks c = true → y.staAddr = sta.staAddr
  kept : ∀ y ∈ joined, y.lacks c = true → y.staAddr = sta.staAddr → sta.lacks c = true

/-- **The condition.** -/
def ShortEventOk (s : ShortAdapter ι) : ShortEvent ι → Prop
  | .join k sta => ∀ c, JoinsAlone (s.sessions k).gLimPhyMode (s.joined k) sta c
  | .delete _ _ => True

instance (p : ShortCap → Prop) [DecidablePred p] : Decidable (∀ c, p c) :=
  decidable_of_iff (p .preamble ∧ p .slotTime)
    ⟨fun h c => match c with | .preamble => h.1 | .slotTime => h.2, fun h => ⟨h _, h _⟩⟩

instance (gLimPhyMode : UInt32) (joined : List ShortSta) (sta : ShortSta) :
    DecidablePred (JoinsAlone gLimPhyMode joined sta) := fun _ =>
  decidable_of_iff (_ ∧ _) ⟨fun h => ⟨h.1, h.2⟩, fun h => ⟨h.alone, h.kept⟩⟩

instance (s : ShortAdapter ι) : DecidablePred (ShortEventOk s)
  | .join k sta =>
    inferInstanceAs (Decidable (∀ c, JoinsAlone (s.sessions k).gLimPhyMode (s.joined k) sta c))
  | .delete _ _ => .isTrue trivial

end

/-! ### Tables of at most one station -/

/-- A table whose first entry is the only active one. -/
structure NoShortParams.Single (t : NoShortParams) (addr : SirMacAddr) : Prop where
  num : t.numSta = 1
  active : (t.cache 0).active = true
  addr : (t.cache 0).addr = addr
  free : ∀ i < limProtStaCacheSize, i ≠ 0 → (t.cache i).active = false

/-- The table lists these addresses, and there is one at most. -/
def NoShortParams.Lists (t : NoShortParams) (l : List SirMacAddr) : Prop :=
  l = [] ∧ t.Empty ∨ ∃ a, l = [a] ∧ t.Single a

section
variable {t t' : NoShortParams} {a addr : SirMacAddr} {l : List SirMacAddr}

theorem NoShortParams.Empty.zero : NoShortParams.zero.Empty := ⟨rfl, fun _ _ => rfl⟩

theorem NoShortParams.Empty.activeSlots (h : t.Empty) : activeSlots t.cache = ∅ := by
  ext i
  simp only [Lim.activeSlots, Set.mem_ofPred_eq, Set.mem_empty_iff_false, iff_false, not_and]
  intro hi
  simp [h.free i hi]

theorem NoShortParams.Single.activeSlots (h : t.Single a) : activeSlots t.cache = {0} := by
  ext i
  simp only [Lim.activeSlots, Set.mem_ofPred_eq, Set.mem_singleton_iff]
  constructor
  · rintro ⟨hi, hact⟩
    by_contra hne
    exact Bool.false_ne_true ((h.free i hi hne).symm.trans hact)
  · rintro rfl
    exact ⟨by decide, h.active⟩

theorem NoShortParams.Empty.seek (h : t.Empty) : seekCache t.cache addr = none := by
  rw [seekCache_none, h.activeSlots]
  exact fun i hi => absurd hi (Set.notMem_empty i)

theorem NoShortParams.Single.seek (h : t.Single a) : seekCache t.cache a = some 0 := by
  refine seekCache_eq ?_ ?_ h.addr
  · rw [h.activeSlots]
    exact Set.injOn_singleton _ _
  · rw [h.activeSlots]
    exact Set.mem_singleton 0

theorem NoShortParams.Single.seek_ne (h : t.Single a) (hne : a ≠ addr) :
    seekCache t.cache addr = none := by
  rw [seekCache_none, h.activeSlots]
  rintro i rfl
  rwa [h.addr]

theorem NoShortParams.Empty.enter (h : t.Empty) (addr : SirMacAddr) : (t.enter 0 addr).Single addr where
  num := by simp [NoShortParams.enter, h.num]
  active := by simp [NoShortParams.enter]
  addr := by simp [NoShortParams.enter]
  free := by
    intro i hi hne
    simp [NoShortParams.enter, hne, h.free i hi]

theorem NoShortParams.Single.leave (h : t.Single a) : (t.free 0).Empty where
  num := by simp [NoShortParams.free, h.num]
  free := by
    intro i hi
    by_cases hne : i = 0
    · simp [NoShortParams.free, hne]
    · simp [NoShortParams.free, hne, h.free i hi hne]

theorem NoShortParams.Single.drop (h : t.Single a) : (dropNoShort t a).Empty := by
  have hpos : 0 < t.numSta := by simp [h.num]
  simp only [dropNoShort, hpos, if_true, h.seek]
  exact h.leave

theorem NoShortParams.Lists.right (h : t.Lists l) : NoShortRight t l := by
  rcases h with ⟨rfl, h⟩ | ⟨a, rfl, h⟩
  · refine ⟨?_, ?_⟩
    · simp [h.activeSlots]
    · simp [h.activeSlots, h.num]
  · refine ⟨?_, ?_⟩
    · simp [h.activeSlots, h.addr]
    · simp [h.activeSlots, h.num]

theorem NoShortParams.Empty.not_right (h : t.Empty) (ha : a ∈ l) : ¬ NoShortRight t l := by
  intro hr
  obtain ⟨i, hi, -⟩ := hr.entries.surjOn ha
  rw [h.activeSlots] at hi
  exact Set.notMem_empty i hi

theorem NoShortParams.Single.not_right (h : t.Single a) (ha : a ∉ l) : ¬ NoShortRight t l := by
  intro hr
  have h0 : 0 ∈ Lim.activeSlots t.cache := by simp [h.activeSlots]
  exact ha (h.addr ▸ hr.entries.mapsTo h0)

theorem NoShortParams.Single.enter_not_right (h : t.Single a) (hne : a ≠ addr) (ha : a ∈ l) :
    ¬ NoShortRight (t.enter 0 addr) l := by
  intro hr
  obtain ⟨i, hi, hia⟩ := hr.entries.surjOn ha
  have hi0 : i = 0 := by
    by_contra hi0
    have hact : ((t.enter 0 addr).cache i).active = (t.cache i).active := by
      simp [enter, hi0]
    exact Bool.false_ne_true ((h.free i hi.1 hi0).symm.trans (hact.symm.trans hi.2))
  subst hi0
  simp only [enter, update_self] at hia
  exact hne hia.symm

end

/-! ### The stations without a capability -/

section
variable {joined : List ShortSta} {sta y : ShortSta} {c : ShortCap} {a : SirMacAddr}

@[simp]
theorem mem_lacking : a ∈ lacking joined c ↔ ∃ y ∈ joined, y.lacks c = true ∧ y.staAddr = a := by
  simp [lacking, and_assoc]

theorem lacking_others (joined : List ShortSta) (c : ShortCap) (a : SirMacAddr) :
    lacking (others joined a) c = (lacking joined c).filter (· ≠ a) := by
  simp only [lacking, others, filter_map, filter_filter]
  congr 2
  funext y
  simp [Bool.and_comm]

theorem lacking_cons :
    lacking (sta :: joined) c = if sta.lacks c then sta.staAddr :: lacking joined c
      else lacking joined c := by
  by_cases h : sta.lacks c = true <;> simp [lacking, h]

end

/-! ### What the calls do -/

/-- What a session has of one capability, and what is sent about it. -/
structure CapView where
  table : NoShortParams
  short : Bool
  changed : Bool

namespace ShortEnv

def view (e : ShortEnv) (c : ShortCap) : CapView :=
  ⟨e.session.table c, e.session.short c, e.beacon.changed c⟩

@[simp] theorem view_table (e : ShortEnv) (c : ShortCap) : (e.view c).table = e.session.table c := rfl
@[simp] theorem view_short (e : ShortEnv) (c : ShortCap) : (e.view c).short = e.session.short c := rfl
@[simp] theorem view_changed (e : ShortEnv) (c : ShortCap) : (e.view c).changed = e.beacon.changed c := rfl

/-- The session of an access point, on an adapter whose own tables list nobody. -/
structure Quiet (e : ShortEnv) : Prop where
  ap : e.session.isApRole = true
  global : ∀ c, (e.mac.table c).Empty

end ShortEnv

/-- A call that is about the capability `c` only. -/
structure OnlyCap (c : ShortCap) (e e' : ShortEnv) : Prop where
  mac : e'.mac = e.mac
  isApRole : e'.session.isApRole = e.session.isApRole
  gLimPhyMode : e'.session.gLimPhyMode = e.session.gLimPhyMode
  view : ∀ c', c' ≠ c → e'.view c' = e.view c'

def Enters (gLimPhyMode : UInt32) (sta : ShortSta) (c : ShortCap) (t : NoShortParams) : Prop :=
  gLimPhyMode = wniCfgPhyMode11g ∧ sta.lacks c = true ∧ seekCache t.cache sta.staAddr = none

/-- What joining makes of a capability: nothing, unless the station is entered, and then at the first entry. -/
structure JoinsCap (gLimPhyMode : UInt32) (sta : ShortSta) (c : ShortCap) (v v' : CapView) : Prop where
  same : ¬ Enters gLimPhyMode sta c v.table → v' = v
  entered : Enters gLimPhyMode sta c v.table → v'.table = v.table.enter 0 sta.staAddr

/-- What deletion makes of a capability: nothing, unless the station lacks it, and then its entry is gone. -/
structure LeavesCap (sta : ShortSta) (c : ShortCap) (v v' : CapView) : Prop where
  same : ¬ sta.lacks c = true → v' = v
  left : sta.lacks c = true → v.table.Single sta.staAddr → v'.table.Empty

section
variable {e e' e'' : ShortEnv} {sta : ShortSta} {c : ShortCap} {own global : NoShortParams}

theorem OnlyCap.refl (c : ShortCap) (e : ShortEnv) : OnlyCap c e e := ⟨rfl, rfl, rfl, fun _ _ => rfl⟩

theorem OnlyCap.trans (h : OnlyCap c e e') (h' : OnlyCap c e' e'') : OnlyCap c e e'' where
  mac := h'.mac.trans h.mac
  isApRole := h'.isApRole.trans h.isApRole
  gLimPhyMode := h'.gLimPhyMode.trans h.gLimPhyMode
  view c' hc := (h'.view c' hc).trans (h.view c' hc)

theorem OnlyCap.quiet (h : OnlyCap c e e') (hq : e.Quiet) : e'.Quiet where
  ap := h.isApRole.trans hq.ap
  global c := h.mac ▸ hq.global c

theorem freeNoShort_ap (hg : global.Empty) (own : NoShortParams) :
    freeNoShort true own global = some 0 := by
  have h0 : (global.cache 0).active = false := hg.free 0 (by decide)
  have hr : range limProtStaCacheSize = 0 :: range' 1 31 := rfl
  rw [freeNoShort, hr, find?_cons_of_pos]
  simp [h0]

theorem enterNoShort_ap (hg : global.Empty) (own : NoShortParams) (addr : SirMacAddr) :
    enterNoShort true own global addr
      = if seekCache own.cache addr = none then some (own.enter 0 addr, global) else none := by
  simp only [enterNoShort, if_true, freeNoShort_ap hg own]
  cases seekCache own.cache addr <;> rfl

theorem onlyCap_setPreamble : OnlyCap .preamble e (e.setPreamble own e.mac.gLimNoShortParams) :=
  ⟨rfl, rfl, rfl, fun c' hc => by cases c' with | preamble => exact absurd rfl hc | slotTime => rfl⟩

theorem onlyCap_setSlot : OnlyCap .slotTime e (e.setSlot own e.mac.gLimNoShortSlotParams) :=
  ⟨rfl, rfl, rfl, fun c' hc => by cases c' with | preamble => rfl | slotTime => exact absurd rfl hc⟩

theorem onlyCap_turnPreamble (b : Bool) : OnlyCap .preamble e (e.turnPreamble b) :=
  ⟨rfl, rfl, rfl, fun c' hc => by cases c' with | preamble => exact absurd rfl hc | slotTime => rfl⟩

theorem onlyCap_turnSlot (b : Bool) : OnlyCap .slotTime e (e.turnSlot b) :=
  ⟨rfl, rfl, rfl, fun c' hc => by cases c' with | preamble => rfl | slotTime => exact absurd rfl hc⟩

theorem limEnableShortPreamble_spec (e : ShortEnv) (b : Bool) :
    OnlyCap .preamble e (limEnableShortPreamble e b) ∧
      (limEnableShortPreamble e b).session.table = e.session.table := by
  rw [limEnableShortPreamble]
  split
  · exact ⟨.refl _ _, rfl⟩
  split
  · exact ⟨.refl _ _, rfl⟩
  split
  · split
    · exact ⟨onlyCap_turnPreamble true, funext fun c => by cases c <;> rfl⟩
    split
    · exact ⟨onlyCap_turnPreamble false, funext fun c => by cases c <;> rfl⟩
    · exact ⟨.refl _ _, rfl⟩
  · exact ⟨.refl _ _, rfl⟩

theorem disableShortSlot_spec (e : ShortEnv) :
    OnlyCap .slotTime e (disableShortSlot e) ∧ (disableShortSlot e).session.table = e.session.table := by
  rw [disableShortSlot]
  split
  · exact ⟨onlyCap_turnSlot false, funext fun c => by cases c <;> rfl⟩
  split
  · split
    · exact ⟨onlyCap_turnSlot false, funext fun c => by cases c <;> rfl⟩
    · exact ⟨.refl _ _, rfl⟩
  · exact ⟨.refl _ _, rfl⟩

/-! #### Joining -/

theorem limUpdateShortPreamble_enters (hq : e.Quiet)
    (h : Enters e.session.gLimPhyMode sta .preamble e.session.gLimNoShortParams) :
    limUpdateShortPreamble e sta = limEnableShortPreamble (e.setPreamble
      (e.session.gLimNoShortParams.enter 0 sta.staAddr) e.mac.gLimNoShortParams) false := by
  obtain ⟨hp, hl, hs⟩ := h
  have hl : sta.shortPreambleEnabled = false := by simpa [ShortSta.lacks] using hl
  have hg : e.mac.gLimNoShortParams.Empty := hq.global .preamble
  simp [limUpdateShortPreamble, hp, hl, hq.ap, enterNoShort_ap hg, hs]

theorem limUpdateShortPreamble_same (hq : e.Quiet)
    (h : ¬ Enters e.session.gLimPhyMode sta .preamble e.session.gLimNoShortParams) :
    limUpdateShortPreamble e sta = e := by
  have hg : e.mac.gLimNoShortParams.Empty := hq.global .preamble
  rw [limUpdateShortPreamble]
  split
  · next hc =>
    have hs : seekCache e.session.gLimNoShortParams.cache sta.staAddr ≠ none :=
      fun hs => h ⟨hc.1, hc.2, hs⟩
    simp [hq.ap, enterNoShort_ap hg, hs]
  · rfl

theorem limUpdateShortPreamble_spec (hq : e.Quiet) (sta : ShortSta) :
    OnlyCap .preamble e (limUpdateShortPreamble e sta) ∧
      JoinsCap e.session.gLimPhyMode sta .preamble (e.view .preamble)
        ((limUpdateShortPreamble e sta).view .preamble) := by
  by_cases hc : Enters e.session.gLimPhyMode sta .preamble e.session.gLimNoShortParams
  · obtain ⟨ho, ht⟩ := limEnableShortPreamble_spec (e.setPreamble
      (e.session.gLimNoShortParams.enter 0 sta.staAddr) e.mac.gLimNoShortParams) false
    rw [limUpdateShortPreamble_enters hq hc]
    exact ⟨onlyCap_setPreamble.trans ho, fun hn => absurd hc hn, fun _ => congrFun ht .preamble⟩
  · rw [limUpdateShortPreamble_same hq hc]
    exact ⟨.refl _ _, fun _ => rfl, fun h => absurd h hc⟩

theorem limUpdateShortSlotTime_enters (hq : e.Quiet)
    (h : Enters e.session.gLimPhyMode sta .slotTime e.session.gLimNoShortSlotParams) :
    limUpdateShortSlotTime e sta = disableShortSlot (e.setSlot
      (e.session.gLimNoShortSlotParams.enter 0 sta.staAddr) e.mac.gLimNoShortSlotParams) := by
  obtain ⟨hp, hl, hs⟩ := h
  have hl : sta.shortSlotTimeEnabled = false := by simpa [ShortSta.lacks] using hl
  have hg : e.mac.gLimNoShortSlotParams.Empty := hq.global .slotTime
  simp [limUpdateShortSlotTime, hp, hl, hq.ap, enterNoShort_ap hg, hs]

theorem limUpdateShortSlotTime_same (hq : e.Quiet)
    (h : ¬ Enters e.session.gLimPhyMode sta .slotTime e.session.gLimNoShortSlotParams) :
    limUpdateShortSlotTime e sta = e := by
  have hg : e.mac.gLimNoShortSlotParams.Empty := hq.global .slotTime
  rw [limUpdateShortSlotTime]
  split
  · next hc =>
    have hs : seekCache e.session.gLimNoShortSlotParams.cache sta.staAddr ≠ none :=
      fun hs => h ⟨hc.1, hc.2, hs⟩
    simp [hq.ap, enterNoShort_ap hg, hs]
  · rfl

theorem limUpdateShortSlotTime_spec (hq : e.Quiet) (sta : ShortSta) :
    OnlyCap .slotTime e (limUpdateShortSlotTime e sta) ∧
      JoinsCap e.session.gLimPhyMode sta .slotTime (e.view .slotTime)
        ((limUpdateShortSlotTime e sta).view .slotTime) := by
  by_cases hc : Enters e.session.gLimPhyMode sta .slotTime e.session.gLimNoShortSlotParams
  · obtain ⟨ho, ht⟩ := disableShortSlot_spec (e.setSlot
      (e.session.gLimNoShortSlotParams.enter 0 sta.staAddr) e.mac.gLimNoShortSlotParams)
    rw [limUpdateShortSlotTime_enters hq hc]
    exact ⟨onlyCap_setSlot.trans ho, fun hn => absurd hc hn, fun _ => congrFun ht .slotTime⟩
  · rw [limUpdateShortSlotTime_same hq hc]
    exact ⟨.refl _ _, fun _ => rfl, fun h => absurd h hc⟩

/-- **Joining**, one capability after the other. -/
theorem joinShort_spec (hq : e.Quiet) (sta : ShortSta) : (joinShort e sta).mac = e.mac ∧
      (joinShort e sta).session.isApRole = e.session.isApRole ∧
      (joinShort e sta).session.gLimPhyMode = e.session.gLimPhyMode ∧
      ∀ c, JoinsCap e.session.gLimPhyMode sta c (e.view c) ((joinShort e sta).view c) := by
  obtain ⟨hp, hpv⟩ := limUpdateShortPreamble_spec hq sta
  obtain ⟨hs, hsv⟩ := limUpdateShortSlotTime_spec (hp.quiet hq) sta
  refine ⟨hs.mac.trans hp.mac, hs.isApRole.trans hp.isApRole,
    hs.gLimPhyMode.trans hp.gLimPhyMode, fun c => ?_⟩
  cases c with
  | preamble => rwa [joinShort, hs.view .preamble nofun]
  | slotTime => rwa [hp.gLimPhyMode, hp.view .slotTime nofun] at hsv

/-! #### Leaving -/

theorem limDecideShortPreamble_spec (e : ShortEnv) (sta : ShortSta) :
    OnlyCap .preamble e (limDecideShortPreamble e sta) ∧
      LeavesCap sta .preamble (e.view .preamble) ((limDecideShortPreamble e sta).view .preamble) := by
  rw [limDecideShortPreamble]
  split
  · next hl =>
    obtain ⟨ho, ht⟩ := limEnableShortPreamble_spec
      (e.setPreamble .zero e.mac.gLimNoShortParams) true
    dsimp only
    split
    · refine ⟨onlyCap_setPreamble.trans ho, fun hn => absurd hl hn, fun _ _ => ?_⟩
      have hz : ((limEnableShortPreamble (e.setPreamble .zero e.mac.gLimNoShortParams)
          true).session.table .preamble).Empty := by
        rw [ht]
        exact .zero
      exact hz
    · next hn =>
      exact ⟨onlyCap_setPreamble, fun h => absurd hl h, fun _ h => absurd h.drop.num hn⟩
  · next hl => exact ⟨.refl _ _, fun _ => rfl, fun h => absurd h hl⟩

/-- The last station without short slot time is deleted: its entry has gone, whatever the configuration. -/
theorem enableShortSlot_spec (hq : e.Quiet) (hn : e.session.gLimNoShortSlotParams.Empty) :
    OnlyCap .slotTime e (enableShortSlot e) ∧
      ((enableShortSlot e).session.table .slotTime).Empty := by
  by_cases hv : e.mac.cfg11gShortSlotTimeEnabled = true
  · have heq : enableShortSlot e = (e.setSlot .zero e.mac.gLimNoShortSlotParams).turnSlot true := by
      simp [enableShortSlot, hq.ap, hv, hn.num]
    rw [heq]
    exact ⟨onlyCap_setSlot.trans (onlyCap_turnSlot true), .zero⟩
  · have heq : enableShortSlot e = e := by simp [enableShortSlot, hv]
    rw [heq]
    exact ⟨.refl _ _, hn⟩

theorem limDecideShortSlot_spec (hq : e.Quiet)
    (h : sta.lacks .slotTime = true → e.session.gLimNoShortSlotParams.Single sta.staAddr) :
    OnlyCap .slotTime e (limDecideShortSlot e sta) ∧
      LeavesCap sta .slotTime (e.view .slotTime) ((limDecideShortSlot e sta).view .slotTime) := by
  rw [limDecideShortSlot]
  split
  · next hl =>
    have hsingle := h hl
    have hdrop : dropShortSlot e sta.staAddr = e.setSlot
        (dropNoShort e.session.gLimNoShortSlotParams sta.staAddr) e.mac.gLimNoShortSlotParams := by
      simp [dropShortSlot, hq.ap, hsingle.num]
    rw [hdrop]
    have hq' : (e.setSlot (dropNoShort e.session.gLimNoShortSlotParams sta.staAddr)
        e.mac.gLimNoShortSlotParams).Quiet := onlyCap_setSlot.quiet hq
    obtain ⟨ho, ht⟩ := enableShortSlot_spec hq' hsingle.drop
    exact ⟨onlyCap_setSlot.trans ho, fun hn => absurd hl hn, fun _ _ => ht⟩
  · next hl => exact ⟨.refl _ _, fun _ => rfl, fun h => absurd h hl⟩

/-- **Leaving**, one capability after the other. -/
theorem deleteShort_spec (hq : e.Quiet)
    (h : ∀ c, sta.lacks c = true → (e.session.table c).Single sta.staAddr) :
    (deleteShort e sta).mac = e.mac ∧ (deleteShort e sta).session.isApRole = e.session.isApRole ∧
      (deleteShort e sta).session.gLimPhyMode = e.session.gLimPhyMode ∧
      ∀ c, LeavesCap sta c (e.view c) ((deleteShort e sta).view c) := by
  obtain ⟨hp, hpv⟩ := limDecideShortPreamble_spec e sta
  have hview := hp.view .slotTime nofun
  have htab : (limDecideShortPreamble e sta).session.gLimNoShortSlotParams
      = e.session.gLimNoShortSlotParams := congrArg CapView.table hview
  obtain ⟨hs, hsv⟩ := limDecideShortSlot_spec (hp.quiet hq) (by rw [htab]; exact h .slotTime)
  refine ⟨hs.mac.trans hp.mac, hs.isApRole.trans hp.isApRole,
    hs.gLimPhyMode.trans hp.gLimPhyMode, fun c => ?_⟩
  cases c with
  | preamble => rwa [deleteShort, hs.view .preamble nofun]
  | slotTime => rwa [hview] at hsv

end

/-! ### One event and one capability -/

section
variable {joined : List ShortSta} {sta : ShortSta} {c : ShortCap} {v v' : CapView}
  {phyMode : UInt32}

/-- What a step does to a capability of a session: its entries are spared, and the beacon is changed only when the counter goes between zero and non-zero. -/
structure CapStep (v v' : CapView) (joined : List ShortSta) : Prop where
  spares : Spares v.table v'.table joined
  short : v'.short ≠ v.short → Crosses v.table v'.table
  changed : v.changed = false → v'.changed = true → Crosses v.table v'.table

theorem CapStep.refl (v : CapView) (joined : List ShortSta) : CapStep v v joined where
  spares _ _ _ := rfl
  short h := absurd rfl h
  changed h h' := absurd h' (h ▸ Bool.false_ne_true)

theorem CapStep.enter (h : v.table.Empty) {a : SirMacAddr} (h' : v'.table.Single a) :
    CapStep v v' joined := by
  have hx : Crosses v.table v'.table := by simp [Crosses, h.num, h'.num]
  refine ⟨fun i hi => ?_, fun _ => hx, fun _ _ => hx⟩
  rw [h.activeSlots] at hi
  exact absurd hi (Set.notMem_empty i)

theorem CapStep.leave {a : SirMacAddr} (h : v.table.Single a) (h' : v'.table.Empty)
    (ha : ∀ y ∈ joined, y.staAddr ≠ a) : CapStep v v' joined := by
  have hx : Crosses v.table v'.table := by simp [Crosses, h.num, h'.num]
  refine ⟨fun i hi hy => ?_, fun _ => hx, fun _ _ => hx⟩
  rw [h.activeSlots] at hi
  obtain rfl : i = 0 := hi
  obtain ⟨y, hy, hya⟩ := hy
  exact absurd (hya.trans h.addr) (ha y hy)

theorem JoinsCap.of_empty (h : JoinsCap phyMode sta c v v') (ht : v.table.Empty) :
    sta.lacks c = true ∧ phyMode = wniCfgPhyMode11g ∧ v'.table.Single sta.staAddr ∨
      ¬(sta.lacks c = true ∧ phyMode = wniCfgPhyMode11g) ∧ v' = v := by
  by_cases hc : sta.lacks c = true ∧ phyMode = wniCfgPhyMode11g
  · have he : Enters phyMode sta c v.table := ⟨hc.2, hc.1, ht.seek⟩
    exact .inl ⟨hc.1, hc.2, h.entered he ▸ ht.enter _⟩
  · exact .inr ⟨hc, h.same fun he => hc ⟨he.2.1, he.1⟩⟩

/-- **A join keeps the table right exactly when the station joins alone.** -/
theorem JoinsCap.lists (h : JoinsCap phyMode sta c v v') (hl : v.table.Lists (lacking joined c))
    (hok : JoinsAlone phyMode joined sta c) :
    v'.table.Lists (lacking (sta :: others joined sta.staAddr) c) ∧
      CapStep v v' (sta :: others joined sta.staAddr) := by
  rw [lacking_cons, lacking_others]
  rcases hl with ⟨hnil, ht⟩ | ⟨a, ha, ht⟩
  · rw [hnil]
    rcases h.of_empty ht with ⟨hs, -, ht'⟩ | ⟨hn, rfl⟩
    · exact ⟨.inr ⟨_, by simp [hs], ht'⟩, .enter ht ht'⟩
    · have hs : ¬ sta.lacks c = true := fun hs => hn ⟨hs, (hok.alone hs).1⟩
      exact ⟨.inl ⟨by simp [hs], ht⟩, .refl _ _⟩
  · obtain ⟨y, hy, hyl, rfl⟩ := mem_lacking.1 (ha ▸ mem_singleton_self a)
    rw [ha]
    by_cases hya : y.staAddr = sta.staAddr
    · have hv : v' = v := h.same fun he => nomatch (hya ▸ ht.seek).symm.trans he.2.2
      rw [hv, if_pos (hok.kept y hy hyl hya)]
      exact ⟨.inr ⟨_, by simp [hya], ht⟩, .refl _ _⟩
    · have hs : ¬ sta.lacks c = true := fun hs => hya ((hok.alone hs).2 y hy hyl)
      have hv : v' = v := h.same fun he => hs he.2.1
      rw [hv, if_neg hs]
      exact ⟨.inr ⟨_, by simp [hya], ht⟩, .refl _ _⟩

theorem JoinsCap.not_right (h : JoinsCap phyMode sta c v v') (hl : v.table.Lists (lacking joined c))
    (hphy : phyMode ≠ wniCfgPhyMode11g → lacking joined c = [])
    (hok : ¬ JoinsAlone phyMode joined sta c) :
    ¬ NoShortRight v'.table (lacking (sta :: others joined sta.staAddr) c) := by
  rw [lacking_cons, lacking_others]
  rcases hl with ⟨hnil, ht⟩ | ⟨a, ha, ht⟩
  · have hnone : ∀ y ∈ joined, ¬ y.lacks c = true := by
      intro y hy hyl
      have hmem : y.staAddr ∈ lacking joined c := mem_lacking.2 ⟨y, hy, hyl, rfl⟩
      rw [hnil] at hmem
      exact not_mem_nil hmem
    rcases h.of_empty ht with ⟨-, hp, -⟩ | ⟨hn, rfl⟩
    · exact absurd ⟨fun _ => ⟨hp, fun y hy hyl => absurd hyl (hnone y hy)⟩,
        fun y hy hyl => absurd hyl (hnone y hy)⟩ hok
    · by_cases hs : sta.lacks c = true
      · rw [if_pos hs]
        exact ht.not_right mem_cons_self
      · exact absurd ⟨fun h => absurd h hs, fun y hy hyl => absurd hyl (hnone y hy)⟩ hok
  · have hp : phyMode = wniCfgPhyMode11g := by
      by_contra hp
      exact cons_ne_nil a [] (ha.symm.trans (hphy hp))
    have hall : ∀ y ∈ joined, y.lacks c = true → y.staAddr = a := by
      intro y hy hyl
      have hmem : y.staAddr ∈ lacking joined c := mem_lacking.2 ⟨y, hy, hyl, rfl⟩
      rw [ha] at hmem
      exact mem_singleton.1 hmem
    rw [ha]
    by_cases hya : a = sta.staAddr
    · have hs : ¬ sta.lacks c = true := fun hs =>
        hok ⟨fun _ => ⟨hp, fun y hy hyl => (hall y hy hyl).trans hya⟩, fun _ _ _ _ => hs⟩
      have hv : v' = v := h.same fun he => hs he.2.1
      rw [hv, if_neg hs]
      exact ht.not_right (by simp [hya])
    · have hs : sta.lacks c = true := by
        by_contra hs
        exact hok ⟨fun h => absurd h hs,
          fun y hy hyl hy' => absurd ((hall y hy hyl).symm.trans hy') hya⟩
      rw [h.entered ⟨hp, hs, ht.seek_ne hya⟩, if_pos hs]
      exact ht.enter_not_right hya (by simp [hya])

theorem NoShortParams.Lists.single {t : NoShortParams} (hl : t.Lists (lacking joined c))
    (hm : sta ∈ joined) (hs : sta.lacks c = true) :
    lacking joined c = [sta.staAddr] ∧ t.Single sta.staAddr := by
  have hmem : sta.staAddr ∈ lacking joined c := mem_lacking.2 ⟨sta, hm, hs, rfl⟩
  rcases hl with ⟨hnil, -⟩ | ⟨a, ha, ht⟩
  · rw [hnil] at hmem
    exact absurd hmem not_mem_nil
  · rw [ha] at hmem ⊢
    obtain rfl := mem_singleton.1 hmem
    exact ⟨rfl, ht⟩

/-- **A deletion keeps the table right.** -/
theorem LeavesCap.lists (h : LeavesCap sta c v v') (hl : v.table.Lists (lacking joined c))
    (hd : (joined.map ShortSta.staAddr).Nodup) (hm : sta ∈ joined) :
    v'.table.Lists (lacking (others joined sta.staAddr) c) ∧
      CapStep v v' (others joined sta.staAddr) := by
  rw [lacking_others]
  by_cases hs : sta.lacks c = true
  · obtain ⟨ha, ht⟩ := hl.single hm hs
    have ht' := h.left hs ht
    refine ⟨.inl ⟨by simp [ha], ht'⟩, .leave ht ht' fun y hy => ?_⟩
    simpa using (mem_filter.1 hy).2
  · have hkeep : (lacking joined c).filter (· ≠ sta.staAddr) = lacking joined c := by
      rw [filter_eq_self]
      intro a ha
      obtain ⟨y, hy, hyl, rfl⟩ := mem_lacking.1 ha
      have hne : y.staAddr ≠ sta.staAddr := by
        intro hya
        exact hs (inj_on_of_nodup_map hd hy hm hya ▸ hyl)
      simpa using hne
    rw [hkeep, h.same hs]
    exact ⟨hl, .refl _ _⟩

end

/-! ### Runs -/

section
variable {ι : Type} [DecidableEq ι] {s s' : ShortAdapter ι} {k : ι} {sta : ShortSta}
  {e : ShortEvent ι} {env : ShortEnv} {l : List ShortSta}

/-- **The invariant**: every table lists one station at most, and none outside 11g mode. -/
structure ShortInv (s : ShortAdapter ι) : Prop where
  ap : ∀ k, (s.sessions k).isApRole = true
  global : ∀ c, (s.mac.table c).Empty
  lists : ∀ k c, ((s.sessions k).table c).Lists (lacking (s.joined k) c)
  only11g : ∀ k, (s.sessions k).gLimPhyMode ≠ wniCfgPhyMode11g → ∀ c, lacking (s.joined k) c = []
  distinct : ∀ k, ((s.joined k).map ShortSta.staAddr).Nodup

/-- What the calls for one session leave, where they are about this session. -/
structure PutsRight (s : ShortAdapter ι) (k : ι) (env : ShortEnv) (l : List ShortSta) : Prop where
  mac : env.mac = s.mac
  isApRole : env.session.isApRole = (s.sessions k).isApRole
  gLimPhyMode : env.session.gLimPhyMode = (s.sessions k).gLimPhyMode
  caps : ∀ c, (env.session.table c).Lists (lacking l c) ∧ CapStep ((s.env k).view c) (env.view c) l
  only11g : (s.sessions k).gLimPhyMode ≠ wniCfgPhyMode11g → ∀ c, lacking l c = []
  distinct : (l.map ShortSta.staAddr).Nodup

omit [DecidableEq ι] in
theorem ShortInv.quiet (h : ShortInv s) (k : ι) : (s.env k).Quiet := ⟨h.ap k, h.global⟩

omit [DecidableEq ι] in
theorem ShortInv.right (h : ShortInv s) : ShortRight s := fun k c => (h.lists k c).right

omit [DecidableEq ι] in
theorem shortInv_start (h : ShortInit s) : ShortInv s where
  ap := h.ap
  global := h.global
  lists k c := .inl ⟨by simp [h.joined, lacking], h.tables k c⟩
  only11g k _ c := by simp [h.joined, lacking]
  distinct k := by simp [h.joined]

theorem ShortInv.put (h : ShortInv s) (hp : PutsRight s k env l) : ShortInv (s.put k env l) where
  ap j := by
    by_cases hj : j = k
    · subst hj
      simpa [ShortAdapter.put] using hp.isApRole.trans (h.ap j)
    · simpa [ShortAdapter.put, hj] using h.ap j
  global c := by
    have hm : (s.put k env l).mac = s.mac := hp.mac
    exact hm ▸ h.global c
  lists j c := by
    by_cases hj : j = k
    · subst hj
      simpa [ShortAdapter.put] using (hp.caps c).1
    · simpa [ShortAdapter.put, hj] using h.lists j c
  only11g j := by
    by_cases hj : j = k
    · subst hj
      simpa [ShortAdapter.put, hp.gLimPhyMode] using hp.only11g
    · simpa [ShortAdapter.put, hj] using h.only11g j
  distinct j := by
    by_cases hj : j = k
    · subst hj
      simpa [ShortAdapter.put] using hp.distinct
    · simpa [ShortAdapter.put, hj] using h.distinct j

/-- Only the session of the event is stepped, and its beacon parameters start at zero. -/
theorem PutsRight.step (hp : PutsRight s k env l) (he : e.session = k) :
    ShortStepRight s e (s.put k env l) where
  spares j c := by
    by_cases hj : j = k
    · subst hj
      simpa [ShortAdapter.put] using (hp.caps c).2.spares
    · simp [ShortAdapter.put, hj, Spares]
  short j c := by
    by_cases hj : j = k
    · subst hj
      simpa [ShortAdapter.put] using (hp.caps c).2.short
    · simp [ShortAdapter.put, hj]
  changed c := by
    subst he
    have hz : ((s.env e.session).view c).changed = false := by cases c <;> rfl
    simpa [ShortAdapter.put] using (hp.caps c).2.changed hz

omit [DecidableEq ι] in
theorem ShortInv.join (h : ShortInv s)
    (hok : ∀ c, JoinsAlone (s.sessions k).gLimPhyMode (s.joined k) sta c) :
    PutsRight s k (joinShort (s.env k) sta) (sta :: others (s.joined k) sta.staAddr) := by
  obtain ⟨hm, ha, hg, hv⟩ := joinShort_spec (h.quiet k) sta
  have hlists := fun c => (hv c).lists (h.lists k c) (hok c)
  refine ⟨hm, ha, hg, hlists, fun hne c => ?_, ?_⟩
  · have hs : ¬ sta.lacks c = true := fun hs => hne ((hok c).alone hs).1
    rw [lacking_cons, if_neg hs, lacking_others, h.only11g k hne c]
    rfl
  · refine nodup_cons.2 ⟨?_, (h.distinct k).sublist (filter_sublist.map _)⟩
    simp [others]

omit [DecidableEq ι] in
theorem ShortInv.delete (h : ShortInv s) (hm : sta ∈ s.joined k) :
    PutsRight s k (deleteShort (s.env k) sta) (others (s.joined k) sta.staAddr) := by
  obtain ⟨hmac, ha, hg, hv⟩ := deleteShort_spec (h.quiet k)
    fun c hs => ((h.lists k c).single hm hs).2
  refine ⟨hmac, ha, hg, fun c => (hv c).lists (h.lists k c) (h.distinct k) hm, fun hne c => ?_, ?_⟩
  · rw [lacking_others, h.only11g k hne c]
    rfl
  · exact (h.distinct k).sublist (filter_sublist.map _)

/-- **A step under the condition.** -/
theorem ShortInv.step (h : ShortInv s) (hok : ShortEventOk s e)
    (hs : (shortMachine ι).step s e = some s') : ShortInv s' ∧ ShortStepRight s e s' := by
  cases e with
  | join k sta =>
    cases hs
    have hp := h.join hok
    exact ⟨h.put hp, hp.step rfl⟩
  | delete k sta =>
    obtain ⟨hm, rfl⟩ := guarded_eq_some.1 hs
    have hp := h.delete hm
    exact ⟨h.put hp, hp.step rfl⟩

/-- **A step that does not meet it** leaves a table that is not right. -/
theorem ShortInv.not_right (h : ShortInv s) (hok : ¬ ShortEventOk s e)
    (hs : (shortMachine ι).step s e = some s') : ¬ ShortRight s' := by
  cases e with
  | join k sta =>
    cases hs
    obtain ⟨c, hc⟩ := not_forall.1 hok
    obtain ⟨-, -, -, hv⟩ := joinShort_spec (h.quiet k) sta
    intro hr
    refine (hv c).not_right (h.lists k c) (fun hne => h.only11g k hne c) hc ?_
    simpa [ShortAdapter.put] using hr k c
  | delete k sta => exact absurd trivial hok

theorem reach_shortInv (h : (shortMachine ι).Reach ShortEventOk s) : ShortInv s :=
  h.invariant ShortInv (fun _ => shortInv_start) fun _ _ _ h hok hs => (h.step hok hs).1

/-- **The stations without short preamble or slot time.**  Where all events have met the condition the tables are right, in every session; and they are right after the next event, which has spared the entries of associated stations and has changed the beacon only with the counter, exactly when it meets the condition too. -/
theorem no_short_iff (s : ShortAdapter ι) (h : (shortMachine ι).Reach ShortEventOk s) :
    ShortRight s ∧ ∀ e s', (shortMachine ι).step s e = some s' →
      (ShortRight s' ∧ ShortStepRight s e s' ↔ ShortEventOk s e) := by
  have hinv := reach_shortInv h
  refine ⟨hinv.right, fun e s' hs => ⟨fun hr => ?_, fun hok => ?_⟩⟩
  · by_contra hok
    exact hinv.not_right hok hs hr.1
  · obtain ⟨hinv', hstep⟩ := hinv.step hok hs
    exact ⟨hinv'.right, hstep⟩

end

/-- An 11g access point that has just begun, with both short forms on. -/
def freshShortSession : ShortSession where
  isApRole := true
  gLimPhyMode := wniCfgPhyMode11g
  gLimNoShortParams := .zero
  gLimNoShortSlotParams := .zero
  fShortPreamble := true
  shortSlotTimeSupported := true

def freshShort : ShortAdapter Bool where
  mac := ⟨.zero, .zero, true, true, true⟩
  sessions _ := freshShortSession
  joined _ := []
  beacon := .zero

theorem freshShort_init : (shortMachine Bool).init freshShort where
  ap _ := rfl
  tables _ c := by cases c <;> exact .zero
  global c := by cases c <;> exact .zero
  joined _ := rfl

def longSta (n : UInt8) : ShortSta := ⟨{ SirMacAddr.zero with a5 := n }, false, false⟩

/-- A station without the capabilities joins each of the two, one of them after another one that has them, and one leaves. -/
theorem no_short_iff_left :
    ∃ s, (shortMachine Bool).run freshShort [.join true ⟨{ SirMacAddr.zero with a5 := 1 }, true, true⟩,
        .join true (longSta 2), .join false (longSta 3), .join true (longSta 2),
        .delete true (longSta 2)] = some s ∧ ShortRight s :=
  Machine.exists_reach_of (q := fun _ => True) freshShort_init (by decide +kernel)
    (by decide +kernel) fun s hr _ => (no_short_iff s hr).1

/-- Two stations without short preamble join one access point: the second is entered over the first, and both are counted. -/
theorem second_station_overwrites :
    ∃ s, (shortMachine Bool).run freshShort [.join true (longSta 1), .join true (longSta 2)] = some s ∧
      (s.sessions true).gLimNoShortParams.numSta = 2 ∧
      activeSlots (s.sessions true).gLimNoShortParams.cache = {0} ∧ ¬ ShortRight s := by
  refine Machine.exists_run_of (q := fun s =>
    (s.sessions true).gLimNoShortParams.numSta = 2 ∧
      (longSta 1).staAddr ∈ lacking (s.joined true) .preamble ∧
      ((s.sessions true).gLimNoShortParams.cache 0).active = true ∧
      ((s.sessions true).gLimNoShortParams.cache 0).addr ≠ (longSta 1).staAddr ∧
      ∀ i < limProtStaCacheSize,
        ((s.sessions true).gLimNoShortParams.cache i).active = true → i = 0)
    (by decide +kernel) ?_
  rintro s ⟨hn, hm, h0, hne, hall⟩
  have hslots : activeSlots (s.sessions true).gLimNoShortParams.cache = {0} := by
    ext i
    constructor
    · rintro ⟨hi, hact⟩
      exact hall i hi hact
    · rintro rfl
      exact ⟨by decide, h0⟩
  refine ⟨hn, hslots, fun hr => ?_⟩
  obtain ⟨i, hi, hia⟩ := (hr true .preamble).entries.surjOn hm
  obtain rfl : i = 0 := hall i hi.1 hi.2
  exact hne hia

end Qcacld.Lim

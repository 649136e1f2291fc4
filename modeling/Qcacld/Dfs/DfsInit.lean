import Mathlib.Data.List.Dedup
import Qcacld.Dfs.DfsDelayline
import Qcacld.Support.Fallible

/-!
# Dfs — DfsInit

The filter tables, which `dfs_init_radar_filters` fills from the radar pulses of a regulatory domain: for every pulse duration the filter types that are to look at it, and for every type its filters.  There are two sets of both, one for pulses at DC; they are filled one after the other, and share the count of the types.

`TablesRight` says what the tables are to hold, and `filter_tables_iff` which calls keep it.  The second set looks for the type of a radar in as many of its slots as the first has filled, where it has put nothing in this call: a type from an earlier domain that is found there gets the filter, and no duration lists it.
-/

namespace Qcacld.Dfs
open Qcacld.Support Function List Option Nat

def dfsMaxRadarOverlap : Nat := 16

def maxDfsRadarTableType : Nat := 256

def dfsFilterDefaultPri : UInt32 := 1000000

/-- `struct dfs_pulse` -/
structure DfsPulse where
  rpNumpulses : UInt32
  rpPulsedur : UInt32
  rpPulsefreq : UInt32
  rpMaxPulsefreq : UInt32
  rpPatterntype : UInt32
  rpPulsevar : UInt32
  rpThreshold : UInt32
  rpMindur : UInt32
  rpMaxdur : UInt32
  rpRssithresh : UInt32
  rpMeanoffset : UInt32
  rpRssimargin : Int32
  rpIgnorePriWindow : UInt32
  rpSidxSpread : UInt16
  rpCheckDeltaPeak : Int8
  rpPulseid : UInt16
deriving DecidableEq

/-- `struct dfs_filter`, less its delay line. -/
structure DfsFilter where
  rfNumpulses : UInt32
  rfMinpri : UInt32
  rfMaxpri : UInt32
  rfThreshold : UInt32
  rfFilterlen : UInt32
  rfPatterntype : UInt32
  rfFixedPriRadarPulse : UInt32
  rfMindur : UInt32
  rfMaxdur : UInt32
  rfIgnorePriWindow : UInt32
  rfPulseid : UInt32
  rfSidxSpread : UInt16
  rfCheckDeltaPeak : Int8
deriving DecidableEq

/-- `struct dfs_filtertype`.  The code does not ask whether `ftFilters`, an array of ten, has room for another filter. -/
structure DfsFiltertype where
  ftFilters : Nat → DfsFilter
  ftNumfilters : Nat
  ftFilterdur : UInt32
  ftNumpulses : UInt32
  ftMindur : UInt32
  ftMaxdur : UInt32
  ftPatterntype : UInt32
  ftRssithresh : UInt32
  ftRssimargin : Int32
  ftMinpri : UInt32

/-- How a call fails: it gives up, or it leaves a table or divides by zero. -/
inductive InitFailure where
  | bad4
  | fault

def dfsRound (val : Int32) : UInt32 :=
  if val < 0 then 0
  else
    let ival := (val / 100).toUInt32
    let rem := val.toUInt32 - ival * 100
    if rem < 50 then ival else ival + 1

def filterOf (dc : Bool) (p : DfsPulse) : DfsFilter :=
  let t := 100000000 / p.rpMaxPulsefreq - 100 * p.rpMeanoffset
  let tmax := 100000000 / p.rpPulsefreq - 100 * p.rpMeanoffset
  let maxpri := dfsRound (tmax + 100 * p.rpPulsevar).toInt32
  { rfNumpulses := p.rpNumpulses
    rfMinpri := dfsRound (t - 100 * p.rpPulsevar).toInt32
    rfMaxpri := maxpri
    rfThreshold := if dc && p.rpPulseid == 5 then p.rpThreshold + 1 else p.rpThreshold
    rfFilterlen := maxpri * p.rpNumpulses
    rfPatterntype := p.rpPatterntype
    rfFixedPriRadarPulse := if p.rpMaxPulsefreq = p.rpPulsefreq then 1 else 0
    rfMindur := p.rpMindur
    rfMaxdur := p.rpMaxdur
    rfIgnorePriWindow := p.rpIgnorePriWindow
    rfPulseid := p.rpPulseid.toUInt32
    rfSidxSpread := p.rpSidxSpread
    rfCheckDeltaPeak := p.rpCheckDeltaPeak }

namespace DfsFiltertype

def Suits (ft : DfsFiltertype) (p : DfsPulse) : Prop :=
  p.rpPulsedur = ft.ftFilterdur ∧ p.rpNumpulses = ft.ftNumpulses ∧
    p.rpMindur = ft.ftMindur ∧ p.rpMaxdur = ft.ftMaxdur
deriving Decidable

/-- It is made the type of the radar, with no filters yet. -/
def setUp (ft : DfsFiltertype) (p : DfsPulse) : DfsFiltertype where
  ftFilters := ft.ftFilters
  ftNumfilters := 0
  ftFilterdur := p.rpPulsedur
  ftNumpulses := p.rpNumpulses
  ftMindur := p.rpMindur
  ftMaxdur := p.rpMaxdur
  ftPatterntype := p.rpPatterntype
  ftRssithresh := p.rpRssithresh
  ftRssimargin := p.rpRssimargin
  ftMinpri := dfsFilterDefaultPri

def addFilter (ft : DfsFiltertype) (rf : DfsFilter) : DfsFiltertype :=
  { ft with
    ftFilters := update ft.ftFilters ft.ftNumfilters rf
    ftNumfilters := ft.ftNumfilters + 1
    ftMinpri := if rf.rfMinpri < ft.ftMinpri then rf.rfMinpri else ft.ftMinpri }

def filters (ft : DfsFiltertype) : List DfsFilter := (List.range ft.ftNumfilters).map ft.ftFilters

end DfsFiltertype

/-- A set of types with its table, and the count of the types. -/
structure Filling where
  types : Nat → DfsFiltertype
  table : Nat → Nat → Int
  rnNumradars : Nat

def listType (t : Nat) (table : Nat → Nat → Int) (i : Nat) : Except InitFailure (Nat → Nat → Int) :=
  if i < maxDfsRadarTableType then
    match (List.range dfsMaxRadarOverlap).find? fun tableindex => table i tableindex = -1 with
    | some tableindex => .ok (update table i (update (table i) tableindex t))
    | none => .error .bad4
  else .error .fault

/-- A slot is made the type of the radar, and entered for the durations from `rp_mindur` to `rp_maxdur`. -/
def newType (s : Filling) (p : DfsPulse) : Except InitFailure Filling :=
  if s.rnNumradars + 1 > dfsMaxRadarTypes then .error .bad4
  else
    ((List.range' p.rpMindur.toNat (p.rpMaxdur.toNat + 1 - p.rpMindur.toNat)).foldlM
      (listType s.rnNumradars) s.table).bind fun table =>
    .ok {
      types := update s.types s.rnNumradars ((s.types s.rnNumradars).setUp p)
      table := table
      rnNumradars := s.rnNumradars + 1 }

def fillType (dc : Bool) (s : Filling) (n : Nat) (p : DfsPulse) : Except InitFailure Filling :=
  if p.rpMaxPulsefreq = 0 ∨ p.rpPulsefreq = 0 then .error .fault
  else .ok { s with types := update s.types n ((s.types n).addFilter (filterOf dc p)) }

/-- One radar: the first type that suits it, or a new one, gets its filter. -/
def initRadar (dc : Bool) (s : Filling) (p : DfsPulse) : Except InitFailure Filling :=
  match (List.range s.rnNumradars).find? fun n => (s.types n).Suits p with
  | some n => fillType dc s n p
  | none => (newType s p).bind fun s' => fillType dc s' s.rnNumradars p

/-- What is read of `struct ath_dfs_radar_tab_info`. -/
structure RadarTabInfo where
  dfsdomain : UInt32
  dfsRadars : List DfsPulse
  numb5radars : Nat

/-- The tables.  `latest` is history: the radars of the last call that has filled them. -/
structure DfsTables where
  dfsRadarf : Nat → DfsFiltertype
  dfsDcRadarf : Nat → DfsFiltertype
  dfsRadartable : Nat → Nat → Int
  dfsDcRadartable : Nat → Nat → Int
  latest : Option (List DfsPulse)

/-- `dfs_init_radar_filters`; `b5alloc` says whether the bin 5 radars can be allocated. -/
def dfsInitRadarFilters (s : DfsTables) (radarInfo : Option RadarTabInfo) (b5alloc : Bool) :
    Except InitFailure DfsTables :=
  match radarInfo with
  | none => .ok s
  | some info =>
    if info.dfsdomain = 0 then .ok s
    else
      (info.dfsRadars.foldlM (initRadar false) ⟨s.dfsRadarf, fun _ _ => -1, 0⟩).bind fun f =>
      (info.dfsRadars.foldlM (initRadar true) ⟨s.dfsDcRadarf, fun _ _ => -1, f.rnNumradars⟩).bind
        fun g =>
      if info.numb5radars ≠ 0 ∧ b5alloc = false then .error .bad4
      else .ok {
        dfsRadarf := f.types
        dfsDcRadarf := g.types
        dfsRadartable := f.table
        dfsDcRadartable := g.table
        latest := some info.dfsRadars }

structure InitCall where
  radarInfo : Option RadarTabInfo
  b5alloc : Bool

def zeroedType (ftFilters : Nat → DfsFilter) : DfsFiltertype :=
  ⟨ftFilters, 0, 0, 0, 0, 0, 0, 0, 0, 0⟩

/-- The types have been allocated, and the tables hold anything. -/
def DfsTables.Initial (s : DfsTables) : Prop :=
  (∀ n, ∃ f g, s.dfsRadarf n = zeroedType f ∧ s.dfsDcRadarf n = zeroedType g) ∧ s.latest = none

def tableMachine : Machine DfsTables InitCall where
  init := DfsTables.Initial
  step s c := (dfsInitRadarFilters s c.radarInfo c.b5alloc).toOption

/-! ### What the tables are to hold -/

/-- The types entered for a duration: those before the first slot that is -1. -/
def listed (table : Nat → Nat → Int) (dur : Nat) : List Int :=
  ((List.range dfsMaxRadarOverlap).map (table dur)).takeWhile (· ≠ -1)

def SameType (p q : DfsPulse) : Prop :=
  p.rpPulsedur = q.rpPulsedur ∧ p.rpNumpulses = q.rpNumpulses ∧
    p.rpMindur = q.rpMindur ∧ p.rpMaxdur = q.rpMaxdur
deriving Decidable

structure SetRight (dc : Bool) (types : Nat → DfsFiltertype) (table : Nat → Nat → Int)
    (radars : List DfsPulse) : Prop where
  complete : ∀ p ∈ radars, ∀ dur, p.rpMindur.toNat ≤ dur → dur ≤ p.rpMaxdur.toNat →
    ∃ t : Nat, (t : Int) ∈ listed table dur ∧ (types t).Suits p ∧
      (types t).filters.count (filterOf dc p) = 1
  latest : ∀ dur < maxDfsRadarTableType, ∀ t ∈ listed table dur, ∃ n : Nat, t = n ∧
    n < dfsMaxRadarTypes ∧
    (types n).filters = (radars.filter fun p => (types n).Suits p).map (filterOf dc)
  count_le : ∀ t < dfsMaxRadarTypes, (types t).ftNumfilters ≤ dfsMaxNumRadarFilters

def typesNeeded : List DfsPulse → List DfsPulse
  | [] => []
  | p :: l => p :: (typesNeeded l).filter fun q => ¬ SameType p q

/-- **The law.** -/
def TablesRight (s : DfsTables) : Prop :=
  ∀ radars ∈ s.latest, SetRight false s.dfsRadarf s.dfsRadartable radars ∧
    SetRight true s.dfsDcRadarf s.dfsDcRadartable radars ∧
    (typesNeeded radars).length ≤ dfsMaxRadarTypes

/-- The type for pulses at DC that is found for a radar among the slots the first set has counted. -/
def staleType (s : DfsTables) (radars : List DfsPulse) (p : DfsPulse) : Option Nat :=
  (List.range (typesNeeded radars).length).find? fun n => (s.dfsDcRadarf n).Suits p

def ofType (radars : List DfsPulse) (p : DfsPulse) : List DfsPulse := radars.filter (SameType p)

/-- **The condition.**  Of the radars that have a duration no two of one type come to the same filter, and none finds a type from an earlier call; and no type gets more than ten filters, those included that it has from earlier calls. -/
def RadarsOk (s : DfsTables) (radars : List DfsPulse) : Prop :=
  ∀ p ∈ radars, (p.rpMindur ≤ p.rpMaxdur → staleType s radars p = none ∧
      ((ofType radars p).filter fun q => filterOf false q = filterOf false p).length = 1) ∧
    (ofType radars p).length ≤ dfsMaxNumRadarFilters ∧
    ∀ n ∈ staleType s radars p,
      (s.dfsDcRadarf n).ftNumfilters + (ofType radars p).length ≤ dfsMaxNumRadarFilters
deriving Decidable

def InitCallOk (s : DfsTables) (c : InitCall) : Prop :=
  ∀ info ∈ c.radarInfo, info.dfsdomain ≠ 0 → RadarsOk s info.dfsRadars
deriving Decidable

/-! ### Types and their radars -/

abbrev TypeKey := UInt32 × UInt32 × UInt32 × UInt32

def typeKey (p : DfsPulse) : TypeKey := (p.rpPulsedur, p.rpNumpulses, p.rpMindur, p.rpMaxdur)

def DfsFiltertype.key (ft : DfsFiltertype) : TypeKey :=
  (ft.ftFilterdur, ft.ftNumpulses, ft.ftMindur, ft.ftMaxdur)

def Covers (k : TypeKey) (dur : Nat) : Prop := k.2.2.1.toNat ≤ dur ∧ dur ≤ k.2.2.2.toNat
deriving Decidable

section
variable {ft : DfsFiltertype} {p q : DfsPulse} {rf : DfsFilter} {dc : Bool} {radars l : List DfsPulse}
  {k : TypeKey}

theorem suits_iff : ft.Suits p ↔ ft.key = typeKey p := by
  simp [DfsFiltertype.Suits, DfsFiltertype.key, typeKey, eq_comm]

theorem sameType_iff : SameType p q ↔ typeKey p = typeKey q := by
  simp [SameType, typeKey]

theorem ofType_eq : ofType radars p = radars.filter fun q => typeKey q = typeKey p := by
  rw [ofType]
  congr 1
  funext q
  rw [decide_eq_decide, sameType_iff, eq_comm]

@[simp] theorem key_setUp : (ft.setUp p).key = typeKey p := rfl

@[simp] theorem filters_setUp : (ft.setUp p).filters = [] := rfl

@[simp] theorem key_addFilter : (ft.addFilter rf).key = ft.key := rfl

@[simp] theorem length_filters : ft.filters.length = ft.ftNumfilters := by
  simp [DfsFiltertype.filters]

@[simp] theorem filters_addFilter : (ft.addFilter rf).filters = ft.filters ++ [rf] := by
  have hfilters : (ft.addFilter rf).filters = (range (ft.ftNumfilters + 1)).map
      (update ft.ftFilters ft.ftNumfilters rf) := rfl
  rw [hfilters, range_succ, map_append, map_singleton, update_self]
  congr 1
  refine map_congr_left fun j hj => update_of_ne ?_ _ _
  exact (mem_range.1 hj).ne

theorem filterOf_eq_iff : filterOf dc q = filterOf dc p ↔ filterOf false q = filterOf false p := by
  cases dc with
  | false => exact Iff.rfl
  | true =>
    have hid : q.rpPulseid.toUInt32 = p.rpPulseid.toUInt32 ↔ q.rpPulseid = p.rpPulseid := by
      constructor
      · intro h
        have h := congrArg UInt32.toNat h
        exact UInt16.toNat_inj.1 (by simpa using h)
      · exact congrArg _
    by_cases h : q.rpPulseid = p.rpPulseid
    · by_cases h5 : p.rpPulseid = 5
      · simp [filterOf, h, h5]
      · simp [filterOf, h, h5]
    · have hne : q.rpPulseid.toUInt32 ≠ p.rpPulseid.toUInt32 := fun e => h (hid.1 e)
      simp [filterOf, hne]

theorem count_filterOf : (l.map (filterOf dc)).count (filterOf dc p)
    = (l.filter fun q => filterOf false q = filterOf false p).length := by
  rw [count_eq_countP, countP_map, countP_eq_length_filter]
  congr 2
  funext q
  rw [comp_apply, Bool.beq_eq_decide_eq, decide_eq_decide]
  exact filterOf_eq_iff

theorem nodup_typesNeeded : ((typesNeeded l).map typeKey).Nodup := by
  induction l with
  | nil => exact nodup_nil
  | cons p l ih =>
    rw [typesNeeded, map_cons, nodup_cons]
    refine ⟨fun hp => ?_, ih.sublist (filter_sublist.map _)⟩
    obtain ⟨q, hq, hqp⟩ := mem_map.1 hp
    have hne : ¬ SameType p q := of_decide_eq_true (mem_filter.1 hq).2
    exact hne (sameType_iff.2 hqp.symm)

theorem mem_typesNeeded : k ∈ (typesNeeded l).map typeKey ↔ k ∈ l.map typeKey := by
  induction l with
  | nil => exact Iff.rfl
  | cons p l ih =>
    rw [typesNeeded, map_cons, map_cons, mem_cons, mem_cons, ← ih]
    refine or_congr_right' fun hk => ?_
    constructor
    · exact fun h => (filter_sublist.map typeKey).subset h
    · intro h
      obtain ⟨q, hq, rfl⟩ := mem_map.1 h
      refine mem_map_of_mem (mem_filter.2 ⟨hq, decide_eq_true fun hs => hk ?_⟩)
      exact (sameType_iff.1 hs).symm

end

/-! ### The rows of a table -/

def Row (row : Nat → Int) (l : List Nat) : Prop :=
  l.length ≤ dfsMaxRadarOverlap ∧
    ∀ i < dfsMaxRadarOverlap, row i = if h : i < l.length then (l[i] : Int) else -1

section
variable {row : Nat → Int} {l : List Nat} {t : Nat} {table table' : Nat → Nat → Int}

theorem row_empty : Row (fun _ => -1) [] :=
  ⟨zero_le _, fun _ _ => rfl⟩

theorem Row.listed_eq {dur : Nat} (h : Row (table dur) l) : listed table dur = l.map Int.ofNat := by
  have hrow : (range dfsMaxRadarOverlap).map (table dur)
      = l.map Int.ofNat ++ replicate (dfsMaxRadarOverlap - l.length) (-1) := by
    refine ext_getElem ?_ fun i hi _ => ?_
    · have hlen := h.1
      simp only [length_map, length_range, length_append, length_replicate]
      omega
    · rw [length_map, length_range] at hi
      rw [getElem_map, getElem_range, h.2 i hi, getElem_append]
      by_cases hl : i < l.length
      · simp [hl]
      · simp [hl]
  have hmap : ∀ x ∈ l.map Int.ofNat, decide (x ≠ -1) = true := by
    intro x hx
    obtain ⟨n, -, rfl⟩ := mem_map.1 hx
    simp
  rw [listed, hrow, takeWhile_append_of_pos hmap, takeWhile_replicate]
  simp

theorem listType_ok {i : Nat} (h : Row (table i) l) (ht : listType t table i = .ok table') :
    i < maxDfsRadarTableType ∧ Row (table' i) (l ++ [t]) ∧ ∀ j, j ≠ i → table' j = table j := by
  rw [listType] at ht
  split at ht
  · next hi =>
    refine ⟨hi, ?_⟩
    split at ht
    · next k hk =>
      obtain ⟨hk, hmem, hbefore⟩ := find?_range_eq_some.1 hk
      cases ht
      rw [mem_range] at hmem
      have hend : k = l.length := by
        rcases lt_trichotomy k l.length with hlt | heq | hgt
        · have hrow := h.2 k hmem
          rw [dif_pos hlt, of_decide_eq_true hk] at hrow
          omega
        · exact heq
        · have hrow := h.2 l.length (by omega)
          rw [dif_neg (lt_irrefl _)] at hrow
          simpa [hrow] using hbefore l.length hgt
      subst hend
      refine ⟨⟨?_, fun j hj => ?_⟩, fun j hj => update_of_ne hj _ _⟩
      · rw [length_append, length_singleton]
        exact hmem
      · rw [update_self]
        rcases lt_trichotomy j l.length with hlt | rfl | hgt
        · rw [update_of_ne hlt.ne, h.2 j hj, dif_pos hlt,
            dif_pos (by rw [length_append]; omega), getElem_append_left hlt]
        · simp
        · rw [update_of_ne hgt.ne', h.2 j hj, dif_neg (by omega),
            dif_neg (by rw [length_append, length_singleton]; omega)]
    · cases ht
  · cases ht

theorem listTypes_ok {durs : List Nat} (hd : durs.Nodup) {rows : Nat → List Nat}
    (h : ∀ dur, Row (table dur) (rows dur)) (ht : durs.foldlM (listType t) table = .ok table') :
    ∀ dur, Row (table' dur) (if dur ∈ durs then rows dur ++ [t] else rows dur) := by
  refine foldlM_ok_rule (fun pre table' => ∀ dur, Row (table' dur)
    (if dur ∈ pre then rows dur ++ [t] else rows dur)) ?_ ?_ ht
  · intro pre i post s s' hl hi hs dur
    have hnot : i ∉ pre := by
      rw [hl] at hd
      exact fun hmem => (nodup_append.1 hd).2.2 i hmem i mem_cons_self rfl
    have hrow := hi i
    rw [if_neg hnot] at hrow
    obtain ⟨-, hrow', hother⟩ := listType_ok hrow hs
    by_cases hdur : dur = i
    · subst hdur
      rw [if_pos (mem_append_right _ (mem_singleton_self _))]
      exact hrow'
    · rw [hother dur hdur]
      simpa [hdur] using hi dur
  · exact fun dur => by simpa using h dur

end

/-! ### One set of types -/

/-- The type found for a radar among the slots that are counted at the start. -/
def home (types₀ : Nat → DfsFiltertype) (r₀ : Nat) (p : DfsPulse) : Option Nat :=
  (List.range r₀).find? fun n => (types₀ n).Suits p

/-- A set that some radars have been put in, when it had the types `types₀`, of which `r₀` were counted.  `keys` are the types set up since. -/
structure Filled (dc : Bool) (types₀ : Nat → DfsFiltertype) (r₀ : Nat) (pre : List DfsPulse)
    (keys : List TypeKey) (s : Filling) : Prop where
  count : s.rnNumradars = r₀ + keys.length
  limit : s.rnNumradars ≤ dfsMaxRadarTypes
  nodup : keys.Nodup
  new : ∀ k t, (k, t) ∈ keys.zipIdx r₀ → (s.types t).key = k ∧
    (s.types t).filters = (pre.filter fun p => typeKey p = k).map (filterOf dc)
  old : ∀ n < r₀, (s.types n).key = (types₀ n).key ∧ (s.types n).filters
    = (types₀ n).filters ++ (pre.filter fun p => home types₀ r₀ p = some n).map (filterOf dc)
  rest : ∀ n, s.rnNumradars ≤ n → s.types n = types₀ n
  rows : ∀ dur, Row (s.table dur) (((keys.zipIdx r₀).filter fun kt => Covers kt.1 dur).map Prod.snd)

section
variable {dc : Bool} {types₀ : Nat → DfsFiltertype} {r₀ n t : Nat} {pre radars : List DfsPulse}
  {keys : List TypeKey} {k : TypeKey} {s s' : Filling} {p q : DfsPulse}

theorem home_eq_none : home types₀ r₀ p = none ↔ ∀ n < r₀, (types₀ n).key ≠ typeKey p := by
  simp [home, suits_iff]

theorem home_eq_some : home types₀ r₀ p = some n ↔ n < r₀ ∧ (types₀ n).key = typeKey p ∧
    ∀ m < n, (types₀ m).key ≠ typeKey p := by
  simp only [home, find?_range_eq_some, mem_range, suits_iff, decide_eq_true_eq,
    Bool.not_eq_true', decide_eq_false_iff_not]
  constructor
  · exact fun ⟨hk, hn, hm⟩ => ⟨hn, hk, hm⟩
  · exact fun ⟨hn, hk, hm⟩ => ⟨hk, hn, hm⟩

theorem home_iff_of_home (h : home types₀ r₀ p = some n) :
    home types₀ r₀ q = some n ↔ typeKey q = typeKey p := by
  obtain ⟨hn, hk, hm⟩ := home_eq_some.1 h
  constructor
  · intro hq
    rw [← hk, (home_eq_some.1 hq).2.1]
  · intro hq
    rw [home_eq_some, hq]
    exact ⟨hn, hk, hm⟩

theorem mem_slots : (k, t) ∈ keys.zipIdx r₀ ↔ ∃ i, ∃ h : i < keys.length, k = keys[i] ∧ t = r₀ + i := by
  rw [mk_mem_zipIdx_iff_le_and_getElem?_sub]
  constructor
  · rintro ⟨hle, hget⟩
    obtain ⟨hi, hk⟩ := List.getElem?_eq_some_iff.1 hget
    refine ⟨t - r₀, hi, hk.symm, ?_⟩
    exact (Nat.add_sub_cancel' hle).symm
  · rintro ⟨i, hi, rfl, rfl⟩
    exact ⟨le_add_right _ _, by simp [hi]⟩

theorem slot_bounds (h : (k, t) ∈ keys.zipIdx r₀) : k ∈ keys ∧ r₀ ≤ t ∧ t < r₀ + keys.length := by
  obtain ⟨i, hi, rfl, rfl⟩ := mem_slots.1 h
  exact ⟨getElem_mem hi, Nat.le_add_right _ _, Nat.add_lt_add_left hi _⟩

theorem slot_of_mem (h : k ∈ keys) : ∃ t, (k, t) ∈ keys.zipIdx r₀ := by
  obtain ⟨i, hi, rfl⟩ := getElem_of_mem h
  exact ⟨r₀ + i, mem_slots.2 ⟨i, hi, rfl, rfl⟩⟩

theorem slot_of_lt (h₁ : r₀ ≤ t) (h₂ : t < r₀ + keys.length) : ∃ k, (k, t) ∈ keys.zipIdx r₀ :=
  ⟨keys[t - r₀], mem_slots.2 ⟨t - r₀, by omega, rfl, (Nat.add_sub_cancel' h₁).symm⟩⟩

theorem filled_start (h : r₀ ≤ dfsMaxRadarTypes) :
    Filled dc types₀ r₀ [] [] ⟨types₀, fun _ _ => -1, r₀⟩ :=
  ⟨rfl, h, nodup_nil, fun _ _ h => (nomatch h), fun _ _ => ⟨rfl, by simp⟩, fun _ _ => rfl,
    fun _ => row_empty⟩

/-- **The search.**  It finds the home of a radar, or else the type set up for it. -/
theorem Filled.search (h : Filled dc types₀ r₀ pre keys s) :
    (∀ n, (range s.rnNumradars).find? (fun n => (s.types n).Suits p) = some n →
      home types₀ r₀ p = some n ∨ home types₀ r₀ p = none ∧ (typeKey p, n) ∈ keys.zipIdx r₀) ∧
    ((range s.rnNumradars).find? (fun n => (s.types n).Suits p) = none →
      home types₀ r₀ p = none ∧ typeKey p ∉ keys) := by
  constructor
  · intro n hn
    simp only [find?_range_eq_some, mem_range, suits_iff, decide_eq_true_eq,
      Bool.not_eq_true', decide_eq_false_iff_not] at hn
    obtain ⟨hk, hlt, hm⟩ := hn
    rw [h.count] at hlt
    by_cases hr : n < r₀
    · refine .inl (home_eq_some.2 ⟨hr, ?_, fun m hmn => ?_⟩)
      · rw [← hk, (h.old n hr).1]
      · rw [← (h.old m (hmn.trans hr)).1]
        exact hm m hmn
    · have hr : r₀ ≤ n := not_lt.1 hr
      refine .inr ⟨home_eq_none.2 fun m hm' => ?_, ?_⟩
      · rw [← (h.old m hm').1]
        exact hm m (lt_of_lt_of_le hm' hr)
      · obtain ⟨k, hkn⟩ := slot_of_lt hr hlt
        rw [← hk, (h.new k n hkn).1]
        exact hkn
  · intro hnone
    simp only [find?_eq_none, mem_range, suits_iff, decide_eq_true_eq] at hnone
    refine ⟨home_eq_none.2 fun n hn => ?_, fun hk => ?_⟩
    · rw [← (h.old n hn).1]
      exact hnone n (by rw [h.count]; exact Nat.lt_add_right _ hn)
    · obtain ⟨t, ht⟩ := @slot_of_mem r₀ keys _ hk
      refine hnone t ?_ (h.new _ t ht).1
      rw [h.count]
      exact (slot_bounds ht).2.2

theorem Filled.newType (h : Filled dc types₀ r₀ pre keys s) (hk : typeKey p ∉ keys)
    (hpre : ∀ q ∈ pre, typeKey q ≠ typeKey p) (hs : newType s p = .ok s') :
    Filled dc types₀ r₀ pre (keys ++ [typeKey p]) s' ∧
      (typeKey p, s.rnNumradars) ∈ (keys ++ [typeKey p]).zipIdx r₀ := by
  have hslots : (keys ++ [typeKey p]).zipIdx r₀ = keys.zipIdx r₀ ++ [(typeKey p, s.rnNumradars)] := by
    rw [zipIdx_append, h.count, add_comm]
    rfl
  rw [Dfs.newType] at hs
  split at hs
  · cases hs
  · next hroom =>
    obtain ⟨table, htable, hs⟩ := bind_eq_ok.1 hs
    cases hs
    refine ⟨⟨?_, not_lt.1 hroom, ?_, ?_, ?_, ?_, ?_⟩, ?_⟩
    · simp [h.count, add_assoc]
    · refine nodup_append.2 ⟨h.nodup, nodup_singleton _, ?_⟩
      intro k hk' k' hk''
      rw [mem_singleton.1 hk'']
      exact ne_of_mem_of_not_mem hk' hk
    · intro k t ht
      rw [hslots, mem_append, mem_singleton] at ht
      rcases ht with ht | ht
      · have hne : t ≠ s.rnNumradars := by
          rw [h.count]
          exact (slot_bounds ht).2.2.ne
        simpa [update_of_ne hne] using h.new k t ht
      · obtain ⟨rfl, rfl⟩ := Prod.mk.inj ht
        have hnil : (pre.filter fun q => typeKey q = typeKey p) = [] :=
          filter_eq_nil_iff.2 fun q hq hqp => hpre q hq (of_decide_eq_true hqp)
        simp only [update_self, hnil]
        exact ⟨rfl, rfl⟩
    · intro n hn
      have hne : n ≠ s.rnNumradars := by
        rw [h.count]
        exact (Nat.lt_add_right _ hn).ne
      simpa [update_of_ne hne] using h.old n hn
    · intro n hn
      have hlt : s.rnNumradars < n := hn
      simpa [update_of_ne hlt.ne'] using h.rest n hlt.le
    · intro dur
      have hdurs : dur ∈ range' p.rpMindur.toNat (p.rpMaxdur.toNat + 1 - p.rpMindur.toNat) ↔
          Covers (typeKey p) dur := by
        rw [mem_range'_1]
        show _ ↔ p.rpMindur.toNat ≤ dur ∧ dur ≤ p.rpMaxdur.toNat
        omega
      have hrow := listTypes_ok nodup_range' h.rows htable dur
      rw [if_congr hdurs rfl rfl] at hrow
      rw [hslots, filter_append, map_append]
      by_cases hc : Covers (typeKey p) dur
      · rw [if_pos hc] at hrow
        rw [filter_cons_of_pos (by simpa using hc)]
        exact hrow
      · rw [if_neg hc] at hrow
        rw [filter_cons_of_neg (by simpa using hc), filter_nil, map_nil, append_nil]
        exact hrow
    · rw [hslots]
      exact mem_append_right _ (mem_singleton_self _)

theorem slot_key_unique {k' : TypeKey} (h : (k, t) ∈ keys.zipIdx r₀) (h' : (k', t) ∈ keys.zipIdx r₀) :
    k = k' := by
  obtain ⟨i, hi, rfl, rfl⟩ := mem_slots.1 h
  obtain ⟨j, hj, rfl, hij⟩ := mem_slots.1 h'
  obtain rfl : i = j := add_left_cancel hij
  rfl

theorem slot_unique {t' : Nat} (hd : keys.Nodup) (h : (k, t) ∈ keys.zipIdx r₀)
    (h' : (k, t') ∈ keys.zipIdx r₀) : t = t' := by
  obtain ⟨i, hi, rfl, rfl⟩ := mem_slots.1 h
  obtain ⟨j, hj, hij, rfl⟩ := mem_slots.1 h'
  rw [(hd.getElem_inj_iff).1 hij]

theorem fillType_ok (hs : fillType dc s n p = .ok s') :
    s' = { s with types := update s.types n ((s.types n).addFilter (filterOf dc p)) } := by
  rw [fillType] at hs
  split at hs
  · cases hs
  · exact (Except.ok.inj hs).symm

theorem Filled.fill_home (h : Filled dc types₀ r₀ pre keys s) (hp : home types₀ r₀ p = some n)
    (hk : typeKey p ∉ keys) (hs : fillType dc s n p = .ok s') :
    Filled dc types₀ r₀ (pre ++ [p]) keys s' := by
  have hn : n < r₀ := (home_eq_some.1 hp).1
  rw [fillType_ok hs]
  refine ⟨h.count, h.limit, h.nodup, ?_, ?_, ?_, h.rows⟩
  · intro k t ht
    obtain ⟨hmem, hle, -⟩ := slot_bounds ht
    have htn : t ≠ n := (lt_of_lt_of_le hn hle).ne'
    have hpk : typeKey p ≠ k := fun e => hk (e ▸ hmem)
    simpa [htn, hpk] using h.new k t ht
  · intro m hm
    obtain ⟨hkey, hfilters⟩ := h.old m hm
    by_cases hmn : m = n
    · subst hmn
      simp [hkey, hfilters, hp]
    · have hpm : home types₀ r₀ p ≠ some m := fun e => hmn (some.inj (e.symm.trans hp))
      simpa [hmn, hpm] using h.old m hm
  · intro m hm
    have hmn : m ≠ n := by
      have hcount := h.count
      have hm : s.rnNumradars ≤ m := hm
      omega
    simpa [hmn] using h.rest m hm

theorem Filled.fill_new (h : Filled dc types₀ r₀ pre keys s) (hp : home types₀ r₀ p = none)
    (hk : (typeKey p, n) ∈ keys.zipIdx r₀) (hs : fillType dc s n p = .ok s') :
    Filled dc types₀ r₀ (pre ++ [p]) keys s' := by
  obtain ⟨-, hle, hlt⟩ := slot_bounds hk
  rw [fillType_ok hs]
  refine ⟨h.count, h.limit, h.nodup, ?_, ?_, ?_, h.rows⟩
  · intro k t ht
    obtain ⟨hkey, hfilters⟩ := h.new k t ht
    by_cases htn : t = n
    · subst htn
      obtain rfl := slot_key_unique hk ht
      simp [hkey, hfilters]
    · have hpk : typeKey p ≠ k := by
        rintro rfl
        exact htn (slot_unique h.nodup ht hk)
      simpa [htn, hpk] using h.new k t ht
  · intro m hm
    have hmn : m ≠ n := (lt_of_lt_of_le hm hle).ne
    have hpm : home types₀ r₀ p ≠ some m := by
      rw [hp]
      exact fun e => by cases e
    simpa [hmn, hpm] using h.old m hm
  · intro m hm
    have hmn : m ≠ n := by
      have hcount := h.count
      have hm : s.rnNumradars ≤ m := hm
      omega
    simpa [hmn] using h.rest m hm

/-- The radars have been put in, and types have been set up for those that had no home. -/
def Held (dc : Bool) (types₀ : Nat → DfsFiltertype) (r₀ : Nat) (pre : List DfsPulse)
    (s : Filling) : Prop :=
  ∃ keys, Filled dc types₀ r₀ pre keys s ∧
    ∀ k, k ∈ keys ↔ k ∈ pre.map typeKey ∧ ∀ n < r₀, (types₀ n).key ≠ k

/-- **One radar.** -/
theorem Held.initRadar (h : Held dc types₀ r₀ pre s) (hs : initRadar dc s p = .ok s') :
    Held dc types₀ r₀ (pre ++ [p]) s' := by
  obtain ⟨keys, hf, hkeys⟩ := h
  obtain ⟨hfound, hnone⟩ := hf.search (p := p)
  have hpre : ∀ k, k ∈ (pre ++ [p]).map typeKey ↔ k ∈ pre.map typeKey ∨ k = typeKey p := by
    intro k
    simp
  rw [Dfs.initRadar] at hs
  split at hs
  · next n hn =>
    rcases hfound n hn with hp | ⟨hp, hk⟩
    · -- a type that was counted at the start
      have hnk : (types₀ n).key = typeKey p := (home_eq_some.1 hp).2.1
      have hnot : typeKey p ∉ keys := fun hk => ((hkeys _).1 hk).2 n (home_eq_some.1 hp).1 hnk
      refine ⟨keys, hf.fill_home hp hnot hs, fun k => ?_⟩
      rw [hkeys k, hpre k]
      constructor
      · exact fun ⟨hk, hfree⟩ => ⟨.inl hk, hfree⟩
      · rintro ⟨hk | rfl, hfree⟩
        · exact ⟨hk, hfree⟩
        · exact absurd hnk (hfree n (home_eq_some.1 hp).1)
    · -- one set up since
      refine ⟨keys, hf.fill_new hp hk hs, fun k => ?_⟩
      rw [hkeys k, hpre k]
      constructor
      · exact fun ⟨hk, hfree⟩ => ⟨.inl hk, hfree⟩
      · rintro ⟨hk' | rfl, hfree⟩
        · exact ⟨hk', hfree⟩
        · exact (hkeys _).1 (slot_bounds hk).1
  · next hn =>
    obtain ⟨hp, hk⟩ := hnone hn
    have hfree := home_eq_none.1 hp
    have hne : ∀ q ∈ pre, typeKey q ≠ typeKey p := fun q hq e =>
      hk ((hkeys _).2 ⟨e ▸ mem_map_of_mem hq, hfree⟩)
    obtain ⟨s₁, hs₁, hs⟩ := bind_eq_ok.1 hs
    obtain ⟨hf₁, hslot⟩ := hf.newType hk hne hs₁
    refine ⟨keys ++ [typeKey p], hf₁.fill_new hp hslot hs, fun k => ?_⟩
    rw [mem_append, mem_singleton, hkeys k, hpre k]
    constructor
    · rintro (⟨hk, hfree'⟩ | rfl)
      · exact ⟨.inl hk, hfree'⟩
      · exact ⟨.inr rfl, hfree⟩
    · rintro ⟨hk | rfl, hfree'⟩
      · exact .inl ⟨hk, hfree'⟩
      · exact .inr rfl

/-- **All radars.** -/
theorem held_of_foldlM {table : Nat → Nat → Int} (hr : r₀ ≤ dfsMaxRadarTypes)
    (ht : table = fun _ _ => -1)
    (hs : radars.foldlM (initRadar dc) ⟨types₀, table, r₀⟩ = .ok s) :
    Held dc types₀ r₀ radars s := by
  subst ht
  refine foldlM_ok_rule (Held dc types₀ r₀) ?_ ⟨[], filled_start hr, ?_⟩ hs
  · exact fun pre p post s s' _ h hs => h.initRadar hs
  · simp

/-- The law of a set comes to this: what a radar has for a home, and how many filters its type gets. -/
def SetOk (types₀ : Nat → DfsFiltertype) (r₀ : Nat) (radars : List DfsPulse) : Prop :=
  ∀ p ∈ radars, (p.rpMindur ≤ p.rpMaxdur → home types₀ r₀ p = none ∧
      ((ofType radars p).filter fun q => filterOf false q = filterOf false p).length = 1) ∧
    (ofType radars p).length ≤ dfsMaxNumRadarFilters ∧
    ∀ n ∈ home types₀ r₀ p,
      (types₀ n).ftNumfilters + (ofType radars p).length ≤ dfsMaxNumRadarFilters

theorem Filled.length_new (h : Filled dc types₀ r₀ radars keys s)
    (hk : (typeKey p, t) ∈ keys.zipIdx r₀) :
    (s.types t).ftNumfilters = (ofType radars p).length := by
  rw [← length_filters, (h.new _ t hk).2, length_map, ofType_eq]

theorem Filled.length_home (h : Filled dc types₀ r₀ radars keys s)
    (hp : home types₀ r₀ p = some n) :
    (s.types n).ftNumfilters = (types₀ n).ftNumfilters + (ofType radars p).length := by
  rw [← length_filters, (h.old n (home_eq_some.1 hp).1).2, length_append, length_filters,
    length_map, ofType_eq]
  congr 3
  funext q
  rw [decide_eq_decide]
  exact home_iff_of_home hp

theorem Filled.mem_listed {dur : Nat} {t : Int} (h : Filled dc types₀ r₀ pre keys s) :
    t ∈ listed s.table dur ↔ ∃ k, ∃ n : Nat, t = n ∧ (k, n) ∈ keys.zipIdx r₀ ∧ Covers k dur := by
  rw [(h.rows dur).listed_eq, List.mem_map]
  constructor
  · rintro ⟨n, hn, rfl⟩
    obtain ⟨⟨k, m⟩, hkm, rfl⟩ := mem_map.1 hn
    obtain ⟨hkm, hc⟩ := mem_filter.1 hkm
    exact ⟨k, m, rfl, hkm, of_decide_eq_true hc⟩
  · rintro ⟨k, n, rfl, hkn, hc⟩
    exact ⟨n, mem_map.2 ⟨(k, n), mem_filter.2 ⟨hkn, decide_eq_true hc⟩, rfl⟩, rfl⟩

theorem Filled.count_new (h : Filled dc types₀ r₀ radars keys s)
    (hk : (typeKey p, t) ∈ keys.zipIdx r₀) : (s.types t).filters.count (filterOf dc p)
      = ((ofType radars p).filter fun q => filterOf false q = filterOf false p).length := by
  rw [(h.new _ t hk).2, count_filterOf, ofType_eq]

/-- **One set.** -/
theorem Held.right_iff (h : Held dc types₀ r₀ radars s) (hr : r₀ ≤ dfsMaxRadarTypes)
    (hc : ∀ n < dfsMaxRadarTypes, (types₀ n).ftNumfilters ≤ dfsMaxNumRadarFilters) :
    SetRight dc s.types s.table radars ↔ SetOk types₀ r₀ radars := by
  obtain ⟨keys, hf, hkeys⟩ := h
  have hslot : ∀ p ∈ radars, home types₀ r₀ p = none → ∃ t, (typeKey p, t) ∈ keys.zipIdx r₀ :=
    fun p hp hh => slot_of_mem ((hkeys _).2 ⟨mem_map_of_mem hp, home_eq_none.1 hh⟩)
  have hlimit : r₀ + keys.length ≤ dfsMaxRadarTypes := hf.count ▸ hf.limit
  constructor
  · intro hright p hp
    refine ⟨fun hdur => ?_, ?_, fun n hn => ?_⟩
    · obtain ⟨t, ht, hsuits, hcount⟩ := hright.complete p hp p.rpMindur.toNat (le_refl _)
        (UInt32.le_iff_toNat_le.1 hdur)
      obtain ⟨k, n, htn, hkn, -⟩ := hf.mem_listed.1 ht
      obtain rfl : t = n := by exact_mod_cast htn
      obtain rfl : k = typeKey p := (hf.new k t hkn).1.symm.trans (suits_iff.1 hsuits)
      refine ⟨home_eq_none.2 ((hkeys _).1 (slot_bounds hkn).1).2, ?_⟩
      rw [← hf.count_new hkn, hcount]
    · cases hh : home types₀ r₀ p with
      | none =>
        obtain ⟨t, ht⟩ := hslot p hp hh
        rw [← hf.length_new ht]
        exact hright.count_le t (lt_of_lt_of_le (slot_bounds ht).2.2 hlimit)
      | some n =>
        have hcount := hright.count_le n (lt_of_lt_of_le (home_eq_some.1 hh).1 hr)
        rw [hf.length_home hh] at hcount
        exact le_trans (le_add_left _ _) hcount
    · have hcount := hright.count_le n (lt_of_lt_of_le (home_eq_some.1 hn).1 hr)
      rwa [hf.length_home hn] at hcount
  · intro hok
    refine ⟨fun p hp dur hlo hhi => ?_, fun dur _ t ht => ?_, fun t ht => ?_⟩
    · obtain ⟨hh, hcount⟩ := (hok p hp).1 (UInt32.le_iff_toNat_le.2 (le_trans hlo hhi))
      obtain ⟨t, ht⟩ := hslot p hp hh
      refine ⟨t, hf.mem_listed.2 ⟨_, t, rfl, ht, hlo, hhi⟩, suits_iff.2 (hf.new _ t ht).1, ?_⟩
      rw [hf.count_new ht, hcount]
    · obtain ⟨k, n, rfl, hkn, -⟩ := hf.mem_listed.1 ht
      obtain ⟨hkey, hfilters⟩ := hf.new k n hkn
      refine ⟨n, rfl, lt_of_lt_of_le (slot_bounds hkn).2.2 hlimit, hfilters.trans ?_⟩
      congr 2
      funext p
      rw [decide_eq_decide, suits_iff, hkey, eq_comm]
    · rcases lt_or_ge t r₀ with hlt | hge
      · by_cases hhome : ∃ p ∈ radars, home types₀ r₀ p = some t
        · obtain ⟨p, hp, hh⟩ := hhome
          rw [hf.length_home hh]
          exact (hok p hp).2.2 t hh
        · have hnil : (radars.filter fun p => home types₀ r₀ p = some t) = [] :=
            filter_eq_nil_iff.2 fun p hp hh => hhome ⟨p, hp, of_decide_eq_true hh⟩
          rw [← length_filters, (hf.old t hlt).2, hnil, map_nil, append_nil, length_filters]
          exact hc t ht
      · rcases lt_or_ge t s.rnNumradars with hin | hout
        · obtain ⟨k, hk⟩ := @slot_of_lt r₀ t keys hge (hf.count ▸ hin)
          obtain ⟨p, hp, rfl⟩ := mem_map.1 ((hkeys k).1 (slot_bounds hk).1).1
          rw [hf.length_new hk]
          exact (hok p hp).2.1
        · rw [hf.rest t hout]
          exact hc t ht

end

/-! ### Both sets -/

section
variable {s s' : DfsTables} {radars : List DfsPulse} {c : InitCall}

theorem Held.rnNumradars_eq {dc : Bool} {types₀ : Nat → DfsFiltertype} {f : Filling}
    (h : Held dc types₀ 0 radars f) : f.rnNumradars = (typesNeeded radars).length := by
  obtain ⟨keys, hf, hkeys⟩ := h
  have hperm : keys.Perm ((typesNeeded radars).map typeKey) := by
    refine (perm_ext_iff_of_nodup hf.nodup nodup_typesNeeded).2 fun k => ?_
    rw [hkeys k, mem_typesNeeded]
    simp
  rw [hf.count, zero_add, hperm.length_eq, length_map]

theorem radarsOk_iff : RadarsOk s radars ↔
    SetOk s.dfsRadarf 0 radars ∧ SetOk s.dfsDcRadarf (typesNeeded radars).length radars := by
  refine ⟨fun h => ⟨fun p hp => ?_, h⟩, And.right⟩
  obtain ⟨hdur, hlen, -⟩ := h p hp
  exact ⟨fun hd => ⟨rfl, (hdur hd).2⟩, hlen, fun n hn => nomatch hn⟩

/-- No type has more filters than there is room for. -/
def CountsOk (s : DfsTables) : Prop :=
  ∀ n < dfsMaxRadarTypes, (s.dfsRadarf n).ftNumfilters ≤ dfsMaxNumRadarFilters ∧
    (s.dfsDcRadarf n).ftNumfilters ≤ dfsMaxNumRadarFilters

theorem DfsTables.Initial.countsOk (h : s.Initial) : CountsOk s := by
  intro n _
  obtain ⟨f, g, hf, hg⟩ := h.1 n
  rw [hf, hg]
  exact ⟨zero_le _, zero_le _⟩

theorem DfsTables.Initial.right (h : s.Initial) : TablesRight s := by
  intro radars hr
  rw [h.2] at hr
  cases hr

theorem tables_filled {f g : Filling} (hc : CountsOk s)
    (hf : radars.foldlM (initRadar false) ⟨s.dfsRadarf, fun _ _ => -1, 0⟩ = .ok f)
    (hg : radars.foldlM (initRadar true) ⟨s.dfsDcRadarf, fun _ _ => -1, f.rnNumradars⟩ = .ok g) :
    (SetRight false f.types f.table radars ∧ SetRight true g.types g.table radars ∧
      (typesNeeded radars).length ≤ dfsMaxRadarTypes) ↔ RadarsOk s radars := by
  have hfirst := held_of_foldlM (zero_le _) rfl hf
  have hneeded := hfirst.rnNumradars_eq
  have hlimit : f.rnNumradars ≤ dfsMaxRadarTypes := by
    obtain ⟨keys, hfilled, -⟩ := hfirst
    exact hfilled.limit
  have hsecond := held_of_foldlM hlimit rfl hg
  rw [hfirst.right_iff (zero_le _) fun n hn => (hc n hn).1,
    hsecond.right_iff hlimit fun n hn => (hc n hn).2, radarsOk_iff, hneeded]
  exact ⟨fun ⟨h₁, h₂, _⟩ => ⟨h₁, h₂⟩, fun ⟨h₁, h₂⟩ => ⟨h₁, h₂, hneeded ▸ hlimit⟩⟩

/-- **A call that returns success** keeps the law exactly if it meets the condition. -/
theorem initCall_right_iff (hr : TablesRight s) (hc : CountsOk s)
    (hs : tableMachine.step s c = some s') :
    (TablesRight s' ↔ InitCallOk s c) ∧ (InitCallOk s c → CountsOk s') := by
  have hs : (dfsInitRadarFilters s c.radarInfo c.b5alloc).toOption = some s' := hs
  have hok : dfsInitRadarFilters s c.radarInfo c.b5alloc = .ok s' := by
    cases hres : dfsInitRadarFilters s c.radarInfo c.b5alloc with
    | error e =>
      rw [hres] at hs
      cases hs
    | ok t =>
      rw [hres] at hs
      cases hs
      rfl
  rw [dfsInitRadarFilters.eq_def] at hok
  rw [InitCallOk]
  split at hok
  · next hnone =>
    -- there is no domain, and nothing is done
    cases hok
    have hyes : ∀ info ∈ c.radarInfo, info.dfsdomain ≠ 0 → RadarsOk s info.dfsRadars := by
      intro info hi
      rw [hnone] at hi
      cases hi
    exact ⟨iff_of_true hr hyes, fun _ => hc⟩
  · next info hinfo =>
    have hcond : (∀ i ∈ c.radarInfo, i.dfsdomain ≠ 0 → RadarsOk s i.dfsRadars) ↔
        (info.dfsdomain ≠ 0 → RadarsOk s info.dfsRadars) := by
      simp [hinfo]
    rw [hcond]
    split at hok
    · next hzero =>
      cases hok
      exact ⟨iff_of_true hr fun hd => absurd hzero hd, fun _ => hc⟩
    · next hdomain =>
      obtain ⟨f, hf, hok⟩ := bind_eq_ok.1 hok
      obtain ⟨g, hg, hok⟩ := bind_eq_ok.1 hok
      split at hok
      · cases hok
      · cases hok
        have hfilled := tables_filled hc hf hg
        have hlaw : TablesRight ⟨f.types, g.types, f.table, g.table, some info.dfsRadars⟩ ↔
            RadarsOk s info.dfsRadars := by
          rw [← hfilled]
          simp [TablesRight]
        refine ⟨hlaw.trans ⟨fun h _ => h, fun h => h hdomain⟩, fun h n hn => ?_⟩
        obtain ⟨h₁, h₂, -⟩ := hfilled.2 (h hdomain)
        exact ⟨h₁.count_le n hn, h₂.count_le n hn⟩

theorem reach_tables (hs : tableMachine.Reach InitCallOk s) : TablesRight s ∧ CountsOk s := by
  refine hs.invariant (fun s => TablesRight s ∧ CountsOk s) ?_ ?_
  · exact fun s h => ⟨DfsTables.Initial.right h, DfsTables.Initial.countsOk h⟩
  intro s c s' ⟨hr, hc⟩ hok hstep
  have h := initCall_right_iff hr hc hstep
  exact ⟨h.1.2 hok, h.2 hok⟩

/-- **The filter tables.**  As long as every call meets the condition they hold what they are to hold; and a call that returns success keeps the law exactly if it meets the condition. -/
theorem filter_tables_iff (s : DfsTables) (hs : tableMachine.Reach InitCallOk s) :
    TablesRight s ∧ ∀ (c : InitCall) (s' : DfsTables), tableMachine.step s c = some s' →
      (TablesRight s' ↔ InitCallOk s c) := by
  obtain ⟨hr, hc⟩ := reach_tables hs
  exact ⟨hr, fun c s' hstep => (initCall_right_iff hr hc hstep).1⟩

end

def allocatedTables : DfsTables where
  dfsRadarf _ := zeroedType fun _ => ⟨0, 0, 0, 0, 0, 0, 0, 0, 0, 0, 0, 0, 0⟩
  dfsDcRadarf _ := zeroedType fun _ => ⟨0, 0, 0, 0, 0, 0, 0, 0, 0, 0, 0, 0, 0⟩
  dfsRadartable _ _ := 0
  dfsDcRadartable _ _ := 0
  latest := none

theorem allocatedTables_initial : allocatedTables.Initial :=
  ⟨fun _ => ⟨_, _, rfl, rfl⟩, rfl⟩

/-- A radar with this many pulses of this duration. -/
def radarOf (rpNumpulses rpPulsedur : UInt32) : DfsPulse where
  rpNumpulses := rpNumpulses
  rpPulsedur := rpPulsedur
  rpPulsefreq := 700
  rpMaxPulsefreq := 700
  rpPatterntype := 0
  rpPulsevar := 4
  rpThreshold := 5
  rpMindur := 0
  rpMaxdur := 1
  rpRssithresh := 18
  rpMeanoffset := 0
  rpRssimargin := 3
  rpIgnorePriWindow := 1
  rpSidxSpread := 5
  rpCheckDeltaPeak := 0
  rpPulseid := 0

def domainCall (radars : List DfsPulse) : InitCall := ⟨some ⟨1, radars, 0⟩, true⟩

/-- **A type from an earlier domain gets the filter.**  The first domain's types for pulses at DC are in the slots 2 and 3; of the second one's three radars one is found in slot 2, which no duration lists then. -/
theorem stale_type_gets_filter :
    ∃ s, tableMachine.run allocatedTables [domainCall [radarOf 18 1, radarOf 9 1],
        domainCall [radarOf 23 5, radarOf 16 15, radarOf 18 1]] = some s ∧
      s.latest = some [radarOf 23 5, radarOf 16 15, radarOf 18 1] ∧
      listed s.dfsDcRadartable 1 = [3, 4] ∧
      ¬ (s.dfsDcRadarf 3).Suits (radarOf 18 1) ∧ ¬ (s.dfsDcRadarf 4).Suits (radarOf 18 1) ∧
      ¬ TablesRight s := by
  refine Machine.exists_run_of (q := fun s =>
    s.latest = some [radarOf 23 5, radarOf 16 15, radarOf 18 1] ∧
      listed s.dfsDcRadartable 1 = [3, 4] ∧
      ¬ (s.dfsDcRadarf 3).Suits (radarOf 18 1) ∧ ¬ (s.dfsDcRadarf 4).Suits (radarOf 18 1))
    (by decide +kernel) ?_
  rintro s ⟨hlatest, hlisted, h₃, h₄⟩
  refine ⟨hlatest, hlisted, h₃, h₄, fun hr => ?_⟩
  obtain ⟨-, hright, -⟩ := hr _ hlatest
  obtain ⟨t, ht, hsuits, -⟩ := hright.complete (radarOf 18 1) (by decide) 1 (by decide) (by decide)
  rw [hlisted] at ht
  rcases mem_pair.1 ht with ht | ht
  · obtain rfl : t = 3 := by exact_mod_cast ht
    exact h₃ hsuits
  · obtain rfl : t = 4 := by exact_mod_cast ht
    exact h₄ hsuits

theorem filter_tables_iff_twoDomains :
    ∃ s, tableMachine.run allocatedTables [domainCall [radarOf 18 1, radarOf 9 1],
        domainCall [radarOf 18 1, radarOf 23 5]] = some s ∧
      TablesRight s ∧ listed s.dfsDcRadartable 1 = [2, 3] :=
  Machine.exists_right (fun s hs => (filter_tables_iff s hs).1) allocatedTables_initial
    (by decide +kernel) (by decide +kernel)

end Qcacld.Dfs

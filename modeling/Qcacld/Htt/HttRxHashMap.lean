import Mathlib.Data.List.Count
import Mathlib.Data.List.Induction
import Qcacld.Htt.HttRxHashLife

/-!
# Htt — HttRxHashMap

What the hash table is for: a finite map from physical addresses to buffers.

`rx_hash_is_map` says that it is one, over every run in which no address is inserted twice without a lookup in between: each lookup returns the buffer and takes it out, every other stays findable, no entry a bucket was allocated with is lost or in both of its lists, and `htt_rx_hash_deinit` frees each buffer that is left once.
-/

namespace Qcacld.Htt.Hash
open Qcacld.Support Function List Option RxHash

/-! ### The lists as a map -/

def mapOf (table : Nat → List (Nat × Option Nat)) (paddr : Nat) : Option (Option Nat) :=
  ((table (rxHashFunction paddr)).find? fun x => x.1 = paddr).map (·.2)

/-- An address is in the list of its bucket, and there once. -/
structure Keyed (table : Nat → List (Nat × Option Nat)) : Prop where
  nodup : ∀ i, ((table i).map Prod.fst).Nodup
  hashed : ∀ i, ∀ x ∈ table i, rxHashFunction x.1 = i

section Keyed
variable {table : Nat → List (Nat × Option Nat)} {l : List (Nat × Option Nat)} {paddr a : Nat}
  {netbuf : Option Nat}

theorem find_eraseP (h : (l.map Prod.fst).Nodup) :
    ((l.eraseP fun x => x.1 = paddr).find? fun x => x.1 = a) =
      if a = paddr then none else l.find? fun x => x.1 = a := by
  induction l with
  | nil => simp
  | cons x l ih =>
    obtain ⟨hx, hl⟩ := nodup_cons.1 h
    by_cases hp : x.1 = paddr
    · rw [eraseP_cons_of_pos (by simp [hp])]
      split
      next ha =>
        refine find?_eq_none.2 fun y hy hya => hx ?_
        rw [hp, ← ha, ← of_decide_eq_true hya]
        exact mem_map_of_mem hy
      next ha =>
        have hxa : ¬ x.1 = a := fun heq => ha (heq.symm.trans hp)
        rw [find?_cons_of_neg (by simpa using hxa)]
    · rw [eraseP_cons_of_neg (by simpa using hp), find?_cons, find?_cons, ih hl]
      by_cases hxa : x.1 = a
      · have ha : ¬ a = paddr := fun heq => hp (hxa.trans heq)
        simp [hxa, ha]
      · simp [hxa]

theorem mapOf_ne_none : mapOf table paddr ≠ none ↔
    paddr ∈ (table (rxHashFunction paddr)).map Prod.fst := by
  rw [mapOf, Ne, map_eq_none_iff, find?_eq_none]
  simp

theorem Keyed.mapOf_eq (h : Keyed table) {i : Nat} {x : Nat × Option Nat} (hx : x ∈ table i) :
    mapOf table x.1 = some x.2 := by
  have hi := h.hashed i x hx
  subst hi
  rw [mapOf]
  cases hfind : (table (rxHashFunction x.1)).find? fun y => y.1 = x.1 with
  | none => exact absurd (find?_eq_none.1 hfind x hx) (by simp)
  | some y =>
    have hy := mem_of_find?_eq_some hfind
    have hkey : y.1 = x.1 := by simpa using find?_some hfind
    rw [inj_on_of_nodup_map (h.nodup _) hy hx hkey]
    rfl

theorem Keyed.update {i : Nat} (h : Keyed table) (hnodup : (l.map Prod.fst).Nodup)
    (hhashed : ∀ x ∈ l, rxHashFunction x.1 = i) : Keyed (update table i l) where
  nodup := fun k => by
    by_cases hk : k = i
    · subst hk
      rwa [update_self]
    · rw [update_of_ne hk]
      exact h.nodup k
  hashed := fun k x hx => by
    by_cases hk : k = i
    · subst hk
      rw [update_self] at hx
      exact hhashed x hx
    · rw [update_of_ne hk] at hx
      exact h.hashed k x hx

theorem Keyed.insert (h : Keyed table) (hnew : mapOf table paddr = none) (netbuf : Option Nat) :
    Keyed (Function.update table (rxHashFunction paddr)
        (table (rxHashFunction paddr) ++ [(paddr, netbuf)])) ∧
      mapOf (Function.update table (rxHashFunction paddr)
        (table (rxHashFunction paddr) ++ [(paddr, netbuf)])) =
        Function.update (mapOf table) paddr (some netbuf) := by
  have hkey : paddr ∉ (table (rxHashFunction paddr)).map Prod.fst :=
    fun hmem => mapOf_ne_none.2 hmem hnew
  refine ⟨h.update ?_ ?_, ?_⟩
  · rw [map_append]
    exact List.Nodup.append (h.nodup _) (nodup_singleton paddr) (disjoint_singleton.2 hkey)
  · intro x hx
    rcases List.mem_append.1 hx with hx | hx
    · exact h.hashed _ x hx
    · rw [mem_singleton.1 hx]
  · funext a
    unfold mapOf at hnew ⊢
    by_cases ha : a = paddr
    · subst ha
      rw [update_self, update_self, find?_append, map_eq_none_iff.1 hnew]
      simp
    · rw [update_of_ne ha]
      by_cases hi : rxHashFunction a = rxHashFunction paddr
      · have hpa : ¬ paddr = a := fun heq => ha heq.symm
        rw [hi, update_self, find?_append]
        simp [hpa]
      · rw [update_of_ne hi]

theorem Keyed.erase (h : Keyed table) (paddr : Nat) :
    Keyed (Function.update table (rxHashFunction paddr)
        ((table (rxHashFunction paddr)).eraseP fun x => x.1 = paddr)) ∧
      mapOf (Function.update table (rxHashFunction paddr)
        ((table (rxHashFunction paddr)).eraseP fun x => x.1 = paddr)) =
        Function.update (mapOf table) paddr none := by
  refine ⟨h.update ?_ ?_, ?_⟩
  · exact (h.nodup _).sublist (eraseP_sublist.map _)
  · exact fun x hx => h.hashed _ x (eraseP_sublist.subset hx)
  · funext a
    unfold mapOf
    by_cases hi : rxHashFunction a = rxHashFunction paddr
    · rw [hi, update_self, find_eraseP (h.nodup _), update_apply]
      split
      · rfl
      · rw [hi]
    · have ha : a ≠ paddr := fun heq => hi (congrArg _ heq)
      rw [update_of_ne hi, update_of_ne ha]

def addresses (table : Nat → List (Nat × Option Nat)) : List Nat :=
  ((List.range rxNumHashBuckets).flatMap table).map Prod.fst

theorem Keyed.mem_addresses (h : Keyed table) : paddr ∈ addresses table ↔
    mapOf table paddr ≠ none := by
  rw [mapOf_ne_none, addresses, map_flatMap, mem_flatMap]
  constructor
  · rintro ⟨i, -, hmem⟩
    obtain ⟨x, hx, rfl⟩ := mem_map.1 hmem
    have hi := h.hashed i x hx
    subst hi
    exact hmem
  · exact fun hmem => ⟨_, mem_range.2 (rxHashFunction_lt paddr), hmem⟩

theorem Keyed.addresses_nodup (h : Keyed table) : (addresses table).Nodup := by
  rw [addresses, map_flatMap, nodup_flatMap]
  refine ⟨fun i _ => h.nodup i, ?_⟩
  refine nodup_range.imp fun hij a hai haj => hij ?_
  obtain ⟨x, hx, rfl⟩ := mem_map.1 hai
  obtain ⟨y, hy, hxy⟩ := mem_map.1 haj
  rw [← h.hashed _ x hx, ← h.hashed _ y hy, hxy]

theorem Keyed.netbufs_eq (h : Keyed table) :
    ((range rxNumHashBuckets).flatMap table).flatMap (fun x => x.2.toList) =
      (addresses table).filterMap fun paddr => (mapOf table paddr).join := by
  rw [addresses, filterMap_map, ← filterMap_eq_flatMap_toList]
  refine filterMap_congr fun x hx => ?_
  obtain ⟨i, -, hx⟩ := mem_flatMap.1 hx
  simp [h.mapOf_eq hx]

end Keyed

/-! ### Calls -/

/-- A call on the table, with what the memory has for it. -/
inductive HashCall where
  | insert (paddr : Nat) (netbuf : Option Nat) (mem : MemAlloc)
  | lookup (paddr : Nat)

inductive HashReturn where
  | status (ret : Nat)
  | netbuf (netbuf : Option Nat)

def RxHash.call (s : RxHash) : HashCall → Option (RxHash × HashReturn)
  | .insert paddr netbuf mem =>
    (httRxHashListInsert s paddr netbuf mem).map fun x => (x.1, .status x.2)
  | .lookup paddr => (httRxHashListLookup s paddr).map fun x => (x.1, .netbuf x.2)

def RxHash.run (s : RxHash) : List HashCall → Option (RxHash × List HashReturn)
  | [] => some (s, [])
  | call :: calls => do
    let (s, ret) ← s.call call
    let (s, rets) ← s.run calls
    return (s, ret :: rets)

/-- No address is inserted twice without a lookup in between. -/
def NeverTwice (calls : List HashCall) : Prop :=
  ∀ before between after paddr netbuf mem netbuf' mem',
    calls = before ++ .insert paddr netbuf mem :: between ++ .insert paddr netbuf' mem' :: after →
      .lookup paddr ∈ between

/-- What a call does to a map, and what it returns. -/
inductive MapStep (m : Nat → Option (Option Nat)) : HashCall → HashReturn →
    (Nat → Option (Option Nat)) → Prop where
  | inserted {paddr : Nat} {netbuf : Option Nat} {mem : MemAlloc} :
      MapStep m (.insert paddr netbuf mem) (.status 0) (update m paddr (some netbuf))
  /-- There is no memory for one more entry. -/
  | noMemory {paddr : Nat} {netbuf : Option Nat} {mem : MemAlloc} {inUse : List Nat}
      (h : mem.get inUse = none) : MapStep m (.insert paddr netbuf mem) (.status 1) m
  | lookup {paddr : Nat} :
      MapStep m (.lookup paddr) (.netbuf (m paddr).join) (update m paddr none)

/-- What calls do to an empty map, and what they return. -/
inductive MapRun : List HashCall → List HashReturn → (Nat → Option (Option Nat)) → Prop where
  | nil : MapRun [] [] fun _ => none
  | concat {calls : List HashCall} {rets : List HashReturn} {m m' : Nat → Option (Option Nat)}
      {call : HashCall} {ret : HashReturn} (t : MapRun calls rets m) (h : MapStep m call ret m') :
      MapRun (calls ++ [call]) (rets ++ [ret]) m'

/-- Every entry a bucket was allocated with is in one of its two lists, and there once. -/
def PoolRight (s : RxHash) : Prop :=
  ∀ i < rxNumHashBuckets, ∃ active free : List EntryAddr,
    s.links.Circle (.listhead i) (active.map .listnode) ∧
      s.links.Circle (.freepool i) (free.map .listnode) ∧
        ∀ j < rxEntriesSize, (active ++ free).count (.entries i j) = 1

/-- **What is to hold of the table** when it stands for a map: every buffer can be found, no entry is lost, and `htt_rx_hash_deinit` frees the buffers that are left, one for each address. -/
structure HashRight (s : RxHash) (m : Nat → Option (Option Nat)) : Prop where
  findable : ∀ paddr, ∃ s', httRxHashListLookup s paddr = some (s', (m paddr).join)
  pool : PoolRight s
  deinit : ∃ s' log, ∃ addrs : List Nat, httRxHashDeinit s = some (s', log) ∧
    addrs.Nodup ∧ (∀ paddr, paddr ∈ addrs ↔ m paddr ≠ none) ∧
      freedNetbufs log = addrs.filterMap fun paddr => (m paddr).join

/-! ### The table is a map -/

section Runs
variable {s s' : RxHash} {table : Nat → List (Nat × Option Nat)} {calls : List HashCall}
  {call : HashCall}

theorem Rep.hashRight (hrep : Rep s table) (hkeyed : Keyed table) : HashRight s (mapOf table) where
  findable := fun paddr => by
    obtain ⟨s', hlookup, -⟩ := lookup_refines hrep paddr
    refine ⟨s', ?_⟩
    rw [hlookup, mapOf]
    cases (table (rxHashFunction paddr)).find? fun x => x.1 = paddr with
    | none => rfl
    | some x => rfl
  pool := fun i hi => by
    obtain ⟨active, free, hb, -⟩ := hrep.buckets i hi
    refine ⟨active, free, hb.lists.left, hb.lists.right, fun j hj => ?_⟩
    exact count_eq_one_of_mem hb.nodup (hb.pool j hj)
  deinit := by
    obtain ⟨s', log, hdeinit, -, hfreed⟩ := deinit_refines hrep
    exact ⟨s', log, addresses table, hdeinit, hkeyed.addresses_nodup,
      fun _ => hkeyed.mem_addresses, hfreed.trans hkeyed.netbufs_eq⟩

/-- **One call** on a table that is a map is one on the map. -/
theorem call_refines (hrep : Rep s table) (hkeyed : Keyed table) (call : HashCall)
    (hnew : ∀ paddr netbuf mem, call = .insert paddr netbuf mem → mapOf table paddr = none) :
    ∃ s' ret table', s.call call = some (s', ret) ∧ Rep s' table' ∧ Keyed table' ∧
      MapStep (mapOf table) call ret (mapOf table') := by
  cases call with
  | insert paddr netbuf mem =>
    obtain ⟨hkeyed', hmap⟩ := hkeyed.insert (hnew paddr netbuf mem rfl) netbuf
    obtain ⟨s', ret, hinsert, ⟨rfl, hrep'⟩ | ⟨rfl, rfl, inUse, hmem⟩⟩ :=
      insert_refines hrep paddr netbuf mem
    · refine ⟨s', .status 0, _, by rw [call, hinsert]; rfl, hrep', hkeyed', ?_⟩
      rw [hmap]
      exact .inserted
    · exact ⟨s', .status 1, table, by rw [call, hinsert]; rfl, hrep, hkeyed, .noMemory hmem⟩
  | lookup paddr =>
    obtain ⟨hkeyed', hmap⟩ := hkeyed.erase paddr
    obtain ⟨s', hlookup, hrep'⟩ := lookup_refines hrep paddr
    refine ⟨s', .netbuf (mapOf table paddr).join, _, ?_, hrep', hkeyed', ?_⟩
    · rw [call, hlookup, mapOf]
      cases (table (rxHashFunction paddr)).find? fun x => x.1 = paddr with
      | none => rfl
      | some x => rfl
    · rw [hmap]
      exact .lookup

theorem run_concat {rets : List HashReturn} {s'' : RxHash} {ret : HashReturn}
    (h : s.run calls = some (s', rets)) (hc : s'.call call = some (s'', ret)) :
    s.run (calls ++ [call]) = some (s'', rets ++ [ret]) := by
  induction calls generalizing s rets with
  | nil =>
    obtain ⟨rfl, rfl⟩ := Prod.mk.inj (some.inj h)
    rw [nil_append, run, hc]
    rfl
  | cons first calls ih =>
    obtain ⟨⟨s₁, r⟩, hfirst, h⟩ := bind_eq_some_iff.1 h
    obtain ⟨⟨s₂, rs⟩, hrest, h⟩ := bind_eq_some_iff.1 h
    obtain ⟨rfl, rfl⟩ := Prod.mk.inj (some.inj h)
    rw [cons_append, run, hfirst, bind_eq_bind, bind_some]
    dsimp only
    rw [ih hrest]
    rfl

/-- An address was inserted and not looked up since. -/
def Held (calls : List HashCall) (paddr : Nat) : Prop :=
  ∃ before netbuf mem between, calls = before ++ .insert paddr netbuf mem :: between ∧
    .lookup paddr ∉ between

theorem Held.concat {paddr : Nat} (h : Held calls paddr) (hc : call ≠ .lookup paddr) :
    Held (calls ++ [call]) paddr := by
  obtain ⟨before, netbuf, mem, between, rfl, hbetween⟩ := h
  refine ⟨before, netbuf, mem, between ++ [call], by simp, fun hmem => ?_⟩
  rcases mem_append.1 hmem with hmem | hmem
  · exact hbetween hmem
  · exact hc (mem_singleton.1 hmem).symm

theorem NeverTwice.of_concat (h : NeverTwice (calls ++ [call])) : NeverTwice calls :=
  fun before between after paddr netbuf mem netbuf' mem' heq =>
    h before between (after ++ [call]) paddr netbuf mem netbuf' mem' (by simp [heq])

theorem NeverTwice.not_held {paddr : Nat} {netbuf : Option Nat} {mem : MemAlloc}
    (h : NeverTwice (calls ++ [.insert paddr netbuf mem])) : ¬ Held calls paddr := by
  rintro ⟨before, netbuf', mem', between, rfl, hbetween⟩
  exact hbetween (h before between [] paddr netbuf' mem' netbuf mem rfl)

theorem MapStep.held {m m' : Nat → Option (Option Nat)} {ret : HashReturn}
    (h : MapStep m call ret m') (hheld : ∀ paddr, m paddr ≠ none → Held calls paddr) :
    ∀ paddr, m' paddr ≠ none → Held (calls ++ [call]) paddr := by
  intro paddr hne
  cases h with
  | @inserted a netbuf mem =>
    by_cases ha : paddr = a
    · subst ha
      exact ⟨calls, netbuf, mem, [], rfl, not_mem_nil⟩
    · rw [update_of_ne ha] at hne
      exact (hheld paddr hne).concat (by simp)
  | noMemory => exact (hheld paddr hne).concat (by simp)
  | @lookup a =>
    by_cases ha : paddr = a
    · subst ha
      exact absurd (update_self ..) hne
    · rw [update_of_ne ha] at hne
      exact (hheld paddr hne).concat (by simpa using Ne.symm ha)

/-- **The run lemma.**  Calls on an empty table are calls on an empty map. -/
theorem run_refines (hrep : Rep s fun _ => []) (calls : List HashCall) (h : NeverTwice calls) :
    ∃ s' rets table, s.run calls = some (s', rets) ∧ Rep s' table ∧ Keyed table ∧
      MapRun calls rets (mapOf table) ∧ ∀ paddr, mapOf table paddr ≠ none → Held calls paddr := by
  induction calls using reverseRecOn with
  | nil =>
    refine ⟨s, [], fun _ => [], rfl, hrep, ⟨?_, ?_⟩, .nil, ?_⟩
    · exact fun _ => nodup_nil
    · exact fun _ _ hx => nomatch hx
    · exact fun _ hne => absurd rfl hne
  | append_singleton calls call ih =>
    obtain ⟨s₁, rets, table, hrun, hrep₁, hkeyed, hmap, hheld⟩ := ih h.of_concat
    have hnew : ∀ paddr netbuf mem, call = .insert paddr netbuf mem → mapOf table paddr = none := by
      rintro paddr netbuf mem rfl
      exact Classical.not_not.1 fun hne => h.not_held (hheld paddr hne)
    obtain ⟨s₂, ret, table', hcall, hrep₂, hkeyed', hstep⟩ :=
      call_refines hrep₁ hkeyed call hnew
    exact ⟨s₂, rets ++ [ret], table', run_concat hrun hcall, hrep₂, hkeyed',
      hmap.concat hstep, hstep.held hheld⟩

end Runs

/-- **The hash table is a finite map**, over every run in which no address is inserted twice without a lookup in between, whatever was in the memory of the table and whenever there is no memory for an entry. -/
theorem rx_hash_is_map {table : Bool} {alloc : Nat → Bool} {s₀ s : RxHash}
    (hinit : httRxHashInit table alloc s₀ = some (s, 0)) (calls : List HashCall)
    (hcalls : NeverTwice calls) :
    ∃ s' rets m, s.run calls = some (s', rets) ∧ MapRun calls rets m ∧ HashRight s' m := by
  obtain ⟨s', rets, table, hrun, hrep, hkeyed, hmap, -⟩ :=
    run_refines (init_refines hinit) calls hcalls
  exact ⟨s', rets, mapOf table, hrun, hmap, hrep.hashRight hkeyed⟩

/-- Memory that has not been written, as far as it matters. -/
def blank : RxHash where
  hashTable := false
  links := ⟨id, id⟩
  entry := fun _ => ⟨0, none, false⟩
  inUse := []

def noMem : MemAlloc := ⟨fun _ => none, fun _ _ h => nomatch h⟩

def insertedAddrs : List HashCall → List Nat
  | [] => []
  | .insert paddr _ _ :: calls => paddr :: insertedAddrs calls
  | .lookup _ :: calls => insertedAddrs calls

theorem insertedAddrs_append (calls calls' : List HashCall) :
    insertedAddrs (calls ++ calls') = insertedAddrs calls ++ insertedAddrs calls' := by
  induction calls with
  | nil => rfl
  | cons call calls ih => cases call <;> simp [insertedAddrs, ih]

theorem neverTwice_of_nodup {calls : List HashCall} (h : (insertedAddrs calls).Nodup) :
    NeverTwice calls := by
  rintro before between after paddr netbuf mem netbuf' mem' rfl
  simp [insertedAddrs_append, insertedAddrs, nodup_append] at h

theorem rx_hash_is_map_collision :
    ∃ s s' rets m, httRxHashInit true (fun _ => true) blank = some (s, 0) ∧
      s.run [.insert 16 (some 1) noMem, .insert 17 (some 2) noMem, .lookup 16] = some (s', rets) ∧
      MapRun [.insert 16 (some 1) noMem, .insert 17 (some 2) noMem, .lookup 16] rets m ∧
      HashRight s' m := by
  obtain ⟨s, hs⟩ := init_of_alloc blank
  have hcalls : NeverTwice
      [.insert 16 (some 1) noMem, .insert 17 (some 2) noMem, .lookup 16] :=
    neverTwice_of_nodup (by decide)
  obtain ⟨s', rets, m, h⟩ := rx_hash_is_map hs _ hcalls
  exact ⟨s, s', rets, m, hs, h⟩

end Qcacld.Htt.Hash

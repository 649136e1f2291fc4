import Qcacld.Htt.HttRxRing
import Qcacld.Support.Circular

/-!
# Htt — HttRxHash

The table that finds the buffers of a full reorder offload by their physical addresses, down to the links.  A bucket has two circular lists: of the entries in use, and of those of the ten it was allocated with that are not.  An entry beyond these ten is in memory of its own, and a flag in it says where it goes when it is looked up.

The table refines one of plain lists, which is what the rx ring has: an insertion adds to the list of a bucket, a lookup takes the first entry out that has the address, and neither reads an entry that is not there.
-/

namespace Qcacld.Htt.Hash
open Qcacld.Support Function List Option Nat

/-! ### The table -/

def rxNumHashBuckets : Nat := 1024
def rxEntriesSize : Nat := 10

inductive EntryAddr where
  /-- `hash_table[i]->entries[j]` -/
  | entries (i j : Nat)
  /-- in memory of its own -/
  | mem (addr : Nat)
deriving DecidableEq

/-- `htt_list_node`: the heads of the two lists of a bucket, and the nodes in the entries. -/
inductive ListNode where
  | listhead (i : Nat)
  | freepool (i : Nat)
  | listnode (entry : EntryAddr)
deriving DecidableEq

open ListNode

/-- `htt_rx_hash_entry`, but for its node.  The buffer may be `NULL`. -/
structure HashEntry where
  paddr : Nat
  netbuf : Option Nat
  fromlist : Bool

/-- The table, and the memory its entries are in. -/
structure RxHash where
  /-- whether `hash_table` is not `NULL` -/
  hashTable : Bool
  links : Links ListNode
  entry : EntryAddr → HashEntry
  /-- the memory that is allocated -/
  inUse : List Nat

open RxHash

/-- `adf_os_mem_alloc`: it gives out what is not in use, or fails. -/
structure MemAlloc where
  get : List Nat → Option Nat
  fresh : ∀ inUse addr, get inUse = some addr → addr ∉ inUse

/-- `adf_os_mem_free`: nothing but what was allocated can be freed. -/
def RxHash.memFree (s : RxHash) : EntryAddr → Option RxHash
  | .entries _ _ => none
  | .mem addr =>
    if addr ∈ s.inUse then some { s with inUse := s.inUse.erase addr } else none

/-- The entry that a node is in, found by `listnode_offset`: the head of a list is in none, and there is nothing to be read in memory that is not in use. -/
def RxHash.container (s : RxHash) : ListNode → Option EntryAddr
  | .listhead _ => none
  | .freepool _ => none
  | .listnode (.entries i j) => some (.entries i j)
  | .listnode (.mem addr) => if addr ∈ s.inUse then some (.mem addr) else none

def RxHash.setEntry (s : RxHash) (addr : EntryAddr) (entry : HashEntry) : RxHash :=
  { s with entry := update s.entry addr entry }

def RxHash.listAddTail (s : RxHash) (head node : ListNode) : RxHash :=
  { s with links := s.links.addTail head node }

def RxHash.listRemove (s : RxHash) (node : ListNode) : RxHash :=
  { s with links := s.links.remove node }

@[simp] theorem setEntry_entry (s : RxHash) (addr : EntryAddr) (entry : HashEntry) :
    (s.setEntry addr entry).entry = update s.entry addr entry := rfl
@[simp] theorem listAddTail_entry (s : RxHash) (head node : ListNode) :
    (s.listAddTail head node).entry = s.entry := rfl
@[simp] theorem listRemove_entry (s : RxHash) (node : ListNode) :
    (s.listRemove node).entry = s.entry := rfl

/-- A walk over a list that passes more nodes than there are entries does not end. -/
def RxHash.walkLimit (s : RxHash) : Nat := rxEntriesSize + s.inUse.length + 1

/-! ### `htt_rx_hash_init` -/

def initEntries (i : Nat) : Nat → RxHash → RxHash
  | 0, s => s
  | j + 1, s =>
    let s := initEntries i j s
    let s := s.setEntry (.entries i j) { s.entry (.entries i j) with fromlist := true }
    s.listAddTail (.freepool i) (.listnode (.entries i j))

def initBucket (i : Nat) (s : RxHash) : RxHash :=
  initEntries i rxEntriesSize
    { s with links := (s.links.init (.listhead i)).init (.freepool i) }

/-- The loop over the buckets.  That one cannot be allocated is not noticed before it is written to. -/
def initBuckets (alloc : Nat → Bool) : Nat → RxHash → Option RxHash
  | 0, s => some s
  | i + 1, s => do
    let s ← initBuckets alloc i s
    if alloc i then return initBucket i s
    else none

/-- `htt_rx_hash_init`: the table, and what is returned.  `table` tells whether there is memory for the pointers to the buckets, `alloc i` whether there is for a bucket. -/
def httRxHashInit (table : Bool) (alloc : Nat → Bool) (s : RxHash) : Option (RxHash × Nat) :=
  if table then do
    let s ← initBuckets alloc rxNumHashBuckets s
    return ({ s with hashTable := true }, 0)
  else some ({ s with hashTable := false }, 1)

/-! ### `htt_rx_hash_list_insert` -/

/-- The entry gets its buffer, and is added to the list of its bucket. -/
def RxHash.add (s : RxHash) (i : Nat) (hashElement : EntryAddr) (paddr : Nat)
    (netbuf : Option Nat) : RxHash :=
  let s := s.setEntry hashElement { s.entry hashElement with paddr := paddr, netbuf := netbuf }
  s.listAddTail (.listhead i) (.listnode hashElement)

/-- An entry in memory that `adf_os_mem_alloc` has given out. -/
def RxHash.newEntry (s : RxHash) (addr : Nat) : RxHash :=
  let s := { s with inUse := addr :: s.inUse }
  s.setEntry (.mem addr) { s.entry (.mem addr) with fromlist := false }

/-- `htt_rx_hash_list_insert`: the table, and what is returned. -/
def httRxHashListInsert (s : RxHash) (paddr : Nat) (netbuf : Option Nat) (mem : MemAlloc) :
    Option (RxHash × Nat) :=
  let i := rxHashFunction paddr
  -- check if there are any entries in the pre-allocated free list
  if s.links.next (.freepool i) ≠ .freepool i then do
    let hashElement ← s.container (s.links.next (.freepool i))
    let s := s.listRemove (s.links.next (.freepool i))
    return (s.add i hashElement paddr netbuf, 0)
  else
    match mem.get s.inUse with
    | none => some (s, 1)
    | some addr => some ((s.newEntry addr).add i (.mem addr) paddr netbuf, 0)

/-! ### `htt_rx_hash_list_lookup` -/

/-- The entry that is found is taken out, and returned to the bucket or freed. -/
def RxHash.take (s : RxHash) (i : Nat) (hashEntry : EntryAddr) : Option (RxHash × Option Nat) :=
  let netbuf := (s.entry hashEntry).netbuf
  let s := s.listRemove (.listnode hashEntry)
  if (s.entry hashEntry).fromlist then
    some (s.listAddTail (.freepool i) (.listnode hashEntry), netbuf)
  else do
    let s ← s.memFree hashEntry
    return (s, netbuf)

/-- `HTT_LIST_ITER_FWD` over the list of a bucket, from a node on. -/
def lookupFrom (s : RxHash) (i paddr : Nat) : Nat → ListNode → Option (RxHash × Option Nat)
  | 0, _ => none
  | limit + 1, listIter =>
    if listIter = .listhead i then some (s, none)
    else do
      let hashEntry ← s.container listIter
      if (s.entry hashEntry).paddr = paddr then s.take i hashEntry
      else lookupFrom s i paddr limit (s.links.next listIter)

/-- `htt_rx_hash_list_lookup`: the table, and the buffer.  Also a run that an assertion does not stop goes on. -/
def httRxHashListLookup (s : RxHash) (paddr : Nat) : Option (RxHash × Option Nat) :=
  let i := rxHashFunction paddr
  lookupFrom s i paddr s.walkLimit (s.links.next (.listhead i))

/-! ### `htt_rx_hash_deinit` -/

/-- What `htt_rx_hash_deinit` does to what is not its own, and what it frees. -/
inductive DeinitEvent where
  | unmap (netbuf : Nat)
  | freeNetbuf (netbuf : Nat)
  | freeEntry (hashEntry : EntryAddr)
  | freeBucket (i : Nat)
  | freeTable

/-- The buffer of an entry is freed, if there is one. -/
def RxHash.freeNetbuf (s : RxHash) (hashEntry : EntryAddr) : RxHash × List DeinitEvent :=
  match (s.entry hashEntry).netbuf with
  | some netbuf =>
    (s.setEntry hashEntry { s.entry hashEntry with paddr := 0 },
      [.unmap netbuf, .freeNetbuf netbuf])
  | none => (s, [])

/-- The loop over the list of a bucket, from a node on. -/
def deinitFrom (i : Nat) : Nat → ListNode → RxHash → List DeinitEvent →
    Option (RxHash × List DeinitEvent)
  | 0, _, _, _ => none
  | limit + 1, listIter, s, log =>
    if listIter = .listhead i then some (s, log)
    else do
      let hashEntry ← s.container listIter
      let freed := s.freeNetbuf hashEntry
      let s := freed.1
      let log := log ++ freed.2
      -- the next node is read before the entry may be freed
      let listIter := s.links.next listIter
      if (s.entry hashEntry).fromlist then deinitFrom i limit listIter s log
      else do
        let s ← s.memFree hashEntry
        deinitFrom i limit listIter s (log ++ [.freeEntry hashEntry])

def deinitBuckets : Nat → RxHash → Option (RxHash × List DeinitEvent)
  | 0, s => some (s, [])
  | i + 1, s => do
    let (s, log) ← deinitBuckets i s
    let (s, log) ← deinitFrom i s.walkLimit (s.links.next (.listhead i)) s log
    return (s, log ++ [.freeBucket i])

def httRxHashDeinit (s : RxHash) : Option (RxHash × List DeinitEvent) :=
  if s.hashTable then do
    let (s, log) ← deinitBuckets rxNumHashBuckets s
    return ({ s with hashTable := false }, log ++ [.freeTable])
  else some (s, [])

/-! ### What the lists are -/

/-- What a lookup finds an entry by, and what it finds. -/
def RxHash.item (s : RxHash) (e : EntryAddr) : Nat × Option Nat :=
  ((s.entry e).paddr, (s.entry e).netbuf)

/-- An entry that is one of a bucket's own, or in memory of its own, and says so. -/
def EntryRight (s : RxHash) (i : Nat) : EntryAddr → Prop
  | .entries k j => k = i ∧ j < rxEntriesSize ∧ (s.entry (.entries k j)).fromlist = true
  | .mem addr => addr ∈ s.inUse ∧ (s.entry (.mem addr)).fromlist = false

/-- The two lists of a bucket are those of its entries in use and of its free entries. -/
structure BucketRight (s : RxHash) (i : Nat) (active free : List EntryAddr) : Prop where
  lists : s.links.Circles (.listhead i) (active.map .listnode) (.freepool i) (free.map .listnode)
  /-- No entry the bucket was allocated with is lost. -/
  pool : ∀ j < rxEntriesSize, .entries i j ∈ active ++ free
  entries : ∀ e ∈ active ++ free, EntryRight s i e
  hashed : ∀ e ∈ active, rxHashFunction (s.entry e).paddr = i
  pooled : ∀ e ∈ free, (s.entry e).fromlist = true

structure Rep (s : RxHash) (table : Nat → List (Nat × Option Nat)) : Prop where
  hashTable : s.hashTable = true
  buckets : ∀ i < rxNumHashBuckets, ∃ active free,
    BucketRight s i active free ∧ active.map s.item = table i

theorem rxHashFunction_lt (paddr : Nat) : rxHashFunction paddr < rxNumHashBuckets :=
  and_lt_two_pow _ (by decide : 1023 < 2 ^ 10)

def bucketNodes (i : Nat) (active free : List EntryAddr) : List ListNode :=
  (.listhead i :: active.map .listnode) ++ (.freepool i :: free.map .listnode)

section Buckets
variable {s s' : RxHash} {i k : Nat} {active free active' free' : List EntryAddr} {e : EntryAddr}

theorem listnode_inj {e e' : EntryAddr} : ListNode.listnode e = .listnode e' ↔ e = e' :=
  ⟨listnode.inj, congrArg _⟩

@[simp] theorem listnode_mem_active : .listnode e ∈ ListNode.listhead i :: active.map .listnode ↔
    e ∈ active := by simp

@[simp] theorem listnode_mem_free : .listnode e ∈ ListNode.freepool i :: free.map .listnode ↔
    e ∈ free := by simp

theorem mem_bucketNodes {x : ListNode} : x ∈ bucketNodes i active free ↔
    x = .listhead i ∨ x = .freepool i ∨ ∃ e ∈ active ++ free, x = .listnode e := by
  simp only [bucketNodes, List.mem_append, List.mem_cons, List.mem_map]
  constructor
  · rintro ((h | ⟨e, he, rfl⟩) | (h | ⟨e, he, rfl⟩))
    · exact .inl h
    · exact .inr (.inr ⟨e, .inl he, rfl⟩)
    · exact .inr (.inl h)
    · exact .inr (.inr ⟨e, .inr he, rfl⟩)
  · rintro (h | h | ⟨e, he | he, rfl⟩)
    · exact .inl (.inl h)
    · exact .inr (.inl h)
    · exact .inl (.inr ⟨e, he, rfl⟩)
    · exact .inr (.inr ⟨e, he, rfl⟩)

theorem BucketRight.nodup (h : BucketRight s i active free) : (active ++ free).Nodup := by
  refine List.Nodup.append ?_ ?_ fun e he he' => ?_
  · exact List.Nodup.of_map _ (nodup_cons.1 h.lists.left.nodup).2
  · exact List.Nodup.of_map _ (nodup_cons.1 h.lists.right.nodup).2
  · exact h.lists.apart (.listnode e) (listnode_mem_active.2 he) (listnode_mem_free.2 he')

theorem BucketRight.mem_active {addr : Nat} (h : BucketRight s i active free)
    (he : .mem addr ∈ active ++ free) : .mem addr ∈ active := by
  refine (mem_append.1 he).resolve_right fun hfree => ?_
  have hown := h.entries _ he
  rw [EntryRight, h.pooled _ hfree] at hown
  exact nomatch hown.2

theorem BucketRight.apart (h : BucketRight s i active free) (h' : BucketRight s k active' free')
    (hk : k ≠ i) (he : e ∈ active ++ free) : e ∉ active' ++ free' := by
  intro he'
  cases e with
  | entries m j => exact hk ((h'.entries _ he').1.symm.trans (h.entries _ he).1)
  | mem addr => exact hk ((h'.hashed _ (h'.mem_active he')).symm.trans (h.hashed _ (h.mem_active he)))

theorem BucketRight.nodes_apart (h : BucketRight s i active free)
    (h' : BucketRight s k active' free') (hk : k ≠ i) {x : ListNode}
    (hx : x ∈ bucketNodes k active' free') : x ∉ bucketNodes i active free := by
  intro hx'
  rcases mem_bucketNodes.1 hx with rfl | rfl | ⟨e, he, rfl⟩
  · exact hk (by simpa [mem_bucketNodes] using hx')
  · exact hk (by simpa [mem_bucketNodes] using hx')
  · simp only [mem_bucketNodes, reduceCtorEq, listnode_inj, false_or] at hx'
    obtain ⟨e', he', rfl⟩ := hx'
    exact h.apart h' hk he' he

/-- A bucket is as it was when its links and its entries are, and its memory is in use. -/
theorem BucketRight.congr (h : BucketRight s i active free)
    (hlinks : ∀ x ∈ bucketNodes i active free, Links.SameAt s.links s'.links x)
    (hentry : ∀ e ∈ active ++ free, s'.entry e = s.entry e)
    (huse : ∀ addr, .mem addr ∈ active ++ free → addr ∈ s'.inUse) :
    BucketRight s' i active free where
  lists := h.lists.congr hlinks
  pool := h.pool
  entries := fun e he => by
    have hown := h.entries e he
    cases e with
    | entries m j =>
      rw [EntryRight, hentry _ he]
      exact hown
    | mem addr =>
      rw [EntryRight, hentry _ he]
      exact ⟨huse addr he, hown.2⟩
  hashed := fun e he => by
    rw [hentry e (mem_append_left _ he)]
    exact h.hashed e he
  pooled := fun e he => by
    rw [hentry e (mem_append_right _ he)]
    exact h.pooled e he

theorem EntryRight.container (h : EntryRight s i e) : s.container (.listnode e) = some e := by
  cases e with
  | entries m j => rfl
  | mem addr => rw [container, if_pos h.1]

theorem length_lt_walkLimit (h : ∀ e ∈ active, EntryRight s i e) (hnodup : active.Nodup) :
    active.length < s.walkLimit := by
  have hsub : active ⊆ (range rxEntriesSize).map (.entries i) ++ s.inUse.map .mem := by
    intro e he
    have hown := h e he
    cases e with
    | entries m j =>
      obtain ⟨rfl, hj, -⟩ := hown
      exact mem_append_left _ (mem_map_of_mem (mem_range.2 hj))
    | mem addr => exact mem_append_right _ (mem_map_of_mem hown.1)
  have hle := hnodup.length_le_of_subset hsub
  simp only [length_append, length_map, length_range] at hle
  exact lt_succ_of_le hle

/-- What a call changes that is about one bucket and one entry. -/
structure Touched (s s' : RxHash) (i : Nat) (active free : List EntryAddr) (e : EntryAddr) :
    Prop where
  hashTable : s'.hashTable = s.hashTable
  links : ∀ x ∉ bucketNodes i active free, x ≠ .listnode e → Links.SameAt s.links s'.links x
  entry : ∀ e' ≠ e, s'.entry e' = s.entry e'
  inUse : ∀ addr ∈ s.inUse, .mem addr ≠ e → addr ∈ s'.inUse

theorem Rep.touched {table : Nat → List (Nat × Option Nat)} {active'' free'' : List EntryAddr}
    (hrep : Rep s table) (h : BucketRight s i active free) (ht : Touched s s' i active free e)
    (hother : ∀ k active' free', k ≠ i → BucketRight s k active' free' → e ∉ active' ++ free')
    (hnew : BucketRight s' i active'' free'') :
    Rep s' (update table i (active''.map s'.item)) := by
  refine ⟨ht.hashTable.trans hrep.hashTable, fun k hk => ?_⟩
  by_cases hki : k = i
  · subst hki
    refine ⟨active'', free'', hnew, ?_⟩
    rw [update_self]
  · obtain ⟨active', free', h', hitems⟩ := hrep.buckets k hk
    have he := hother k active' free' hki h'
    have hentry : ∀ e' ∈ active' ++ free', s'.entry e' = s.entry e' :=
      fun e' he' => ht.entry e' fun heq => he (heq ▸ he')
    refine ⟨active', free', h'.congr ?_ hentry ?_, ?_⟩
    · intro x hx
      refine ht.links x (h.nodes_apart h' hki hx) fun heq => he ?_
      simpa [mem_bucketNodes, listnode_inj, heq] using hx
    · intro addr haddr
      exact ht.inUse addr (h'.entries _ haddr).1 fun heq => he (heq ▸ haddr)
    · rw [update_of_ne hki, ← hitems]
      refine map_congr_left fun e' he' => ?_
      rw [item, item, hentry e' (mem_append_left _ he')]

end Buckets

/-! ### Insertions -/

section Insert
variable {s : RxHash} {i paddr : Nat} {netbuf : Option Nat} {active free : List EntryAddr}
  {e : EntryAddr}

theorem EntryRight.congr {s' : RxHash} (h : EntryRight s i e)
    (hflag : (s'.entry e).fromlist = (s.entry e).fromlist)
    (huse : ∀ addr ∈ s.inUse, e = .mem addr → addr ∈ s'.inUse) : EntryRight s' i e := by
  cases e with
  | entries k j => exact ⟨h.1, h.2.1, hflag.trans h.2.2⟩
  | mem addr => exact ⟨huse addr h.1 rfl, hflag.trans h.2⟩

theorem add_entry_self : (s.add i e paddr netbuf).entry e =
    { s.entry e with paddr := paddr, netbuf := netbuf } := update_self ..

theorem add_entry_of_ne {e' : EntryAddr} (h : e' ≠ e) :
    (s.add i e paddr netbuf).entry e' = s.entry e' := update_of_ne h ..

theorem add_fromlist (e' : EntryAddr) :
    ((s.add i e paddr netbuf).entry e').fromlist = (s.entry e').fromlist := by
  by_cases h : e' = e
  · rw [h, add_entry_self]
  · rw [add_entry_of_ne h]

theorem add_links : (s.add i e paddr netbuf).links =
    s.links.addTail (.listhead i) (.listnode e) := rfl

theorem add_right (hi : rxHashFunction paddr = i)
    (hlists : s.links.Circles (.listhead i) (active.map .listnode) (.freepool i)
      (free.map .listnode))
    (he : e ∉ active ++ free) (hpool : ∀ j < rxEntriesSize, .entries i j ∈ active ++ e :: free)
    (hentries : ∀ e' ∈ active ++ e :: free, EntryRight s i e')
    (hhashed : ∀ e' ∈ active, rxHashFunction (s.entry e').paddr = i)
    (hpooled : ∀ e' ∈ free, (s.entry e').fromlist = true) :
    BucketRight (s.add i e paddr netbuf) i (active ++ [e]) free := by
  have hassoc : active ++ [e] ++ free = active ++ e :: free := append_assoc ..
  have hne {e' : EntryAddr} (he' : e' ∈ active ++ free) : e' ≠ e := fun heq => he (heq ▸ he')
  constructor
  · rw [add_links, map_append]
    refine hlists.addTail ?_ ?_
    · exact fun hmem => he (mem_append_left _ (listnode_mem_active.1 hmem))
    · exact fun hmem => he (mem_append_right _ (listnode_mem_free.1 hmem))
  · rw [hassoc]
    exact hpool
  · rw [hassoc]
    exact fun e' he' => (hentries e' he').congr (add_fromlist e') fun addr haddr _ => haddr
  · intro e' he'
    rcases mem_append.1 he' with he' | he'
    · rw [add_entry_of_ne (hne (mem_append_left _ he'))]
      exact hhashed e' he'
    · rw [mem_singleton.1 he', add_entry_self]
      exact hi
  · intro e' he'
    rw [add_fromlist]
    exact hpooled e' he'

theorem add_items (he : e ∉ active) : (active ++ [e]).map (s.add i e paddr netbuf).item =
    active.map s.item ++ [(paddr, netbuf)] := by
  rw [map_append, map_singleton]
  congr 1
  · refine map_congr_left fun e' he' => ?_
    have hne : e' ≠ e := fun heq => he (heq ▸ he')
    rw [item, item, add_entry_of_ne hne]
  · rw [item, add_entry_self]

theorem insert_of_pool (netbuf : Option Nat) (hi : rxHashFunction paddr = i)
    (h : BucketRight s i active (e :: free)) :
    BucketRight ((s.listRemove (.listnode e)).add i e paddr netbuf) i (active ++ [e]) free ∧
      Touched s ((s.listRemove (.listnode e)).add i e paddr netbuf) i active (e :: free) e := by
  have hnodup : e ∉ active ++ free :=
    (nodup_cons.1 (nodup_middle.1 h.nodup)).1
  have hfree : .listnode e ∈ (e :: free).map listnode :=
    mem_map_of_mem mem_cons_self
  have hfirst : s.links.Circles (.freepool i) ([] ++ .listnode e :: free.map .listnode)
      (.listhead i) (active.map .listnode) := h.lists.symm
  have hlists := hfirst.remove.symm
  refine ⟨add_right hi hlists hnodup h.pool h.entries h.hashed ?_, rfl, ?_, ?_, ?_⟩
  · exact fun e' he' => h.pooled e' (mem_cons_of_mem _ he')
  · intro x hx hxe
    obtain ⟨hxa, hxf⟩ := not_or.1 (mt mem_append.2 hx)
    have hremove := h.lists.right.sameAt_remove hfree hxf
    have hadd := hlists.left.sameAt_addTail hxa hxe
    exact ⟨hadd.next.trans hremove.next, hadd.prev.trans hremove.prev⟩
  · exact fun e' he' => add_entry_of_ne he'
  · exact fun addr haddr _ => haddr

theorem newEntry_entry_self {addr : Nat} : (s.newEntry addr).entry (.mem addr) =
    { s.entry (.mem addr) with fromlist := false } := update_self ..

theorem newEntry_entry_of_ne {addr : Nat} (h : e ≠ .mem addr) :
    (s.newEntry addr).entry e = s.entry e := update_of_ne h ..

theorem insert_of_mem {addr : Nat} (netbuf : Option Nat) (hi : rxHashFunction paddr = i)
    (h : BucketRight s i active free) (hfresh : addr ∉ s.inUse) :
    BucketRight ((s.newEntry addr).add i (.mem addr) paddr netbuf) i (active ++ [.mem addr]) free ∧
      Touched s ((s.newEntry addr).add i (.mem addr) paddr netbuf) i active free (.mem addr) := by
  have hnew : .mem addr ∉ active ++ free := fun he => hfresh (h.entries _ he).1
  have hne {e' : EntryAddr} (he' : e' ∈ active ++ free) : e' ≠ .mem addr :=
    fun heq => hnew (heq ▸ he')
  refine ⟨add_right hi h.lists hnew ?_ ?_ ?_ ?_, rfl, ?_, ?_, ?_⟩
  · intro j hj
    rcases mem_append.1 (h.pool j hj) with hpool | hpool
    · exact mem_append_left _ hpool
    · exact mem_append_right _ (mem_cons_of_mem _ hpool)
  · intro e' he'
    by_cases heq : e' = .mem addr
    · rw [heq]
      exact ⟨mem_cons_self, by rw [newEntry_entry_self]⟩
    · have hold : e' ∈ active ++ free := by
        simpa [heq] using he'
      exact (h.entries e' hold).congr (by rw [newEntry_entry_of_ne heq]) fun addr' haddr' _ =>
        mem_cons_of_mem _ haddr'
  · intro e' he'
    rw [newEntry_entry_of_ne (hne (mem_append_left _ he'))]
    exact h.hashed e' he'
  · intro e' he'
    rw [newEntry_entry_of_ne (hne (mem_append_right _ he'))]
    exact h.pooled e' he'
  · intro x hx hxe
    exact h.lists.left.sameAt_addTail (not_or.1 (mt mem_append.2 hx)).1 hxe
  · exact fun e' he' => (add_entry_of_ne he').trans (newEntry_entry_of_ne he')
  · exact fun addr' haddr' _ => mem_cons_of_mem _ haddr'

/-- **An insertion** adds an item to the list of its bucket, or fails for want of memory and changes nothing. -/
theorem insert_refines {table : Nat → List (Nat × Option Nat)} (hrep : Rep s table)
    (paddr : Nat) (netbuf : Option Nat) (mem : MemAlloc) :
    ∃ s' ret, httRxHashListInsert s paddr netbuf mem = some (s', ret) ∧
      (ret = 0 ∧ Rep s' (update table (rxHashFunction paddr)
          (table (rxHashFunction paddr) ++ [(paddr, netbuf)])) ∨
        ret = 1 ∧ s' = s ∧ ∃ inUse, mem.get inUse = none) := by
  obtain ⟨active, free, h, hitems⟩ := hrep.buckets _ (rxHashFunction_lt paddr)
  unfold httRxHashListInsert
  cases free with
  | cons e free =>
    have hnext : s.links.next (.freepool (rxHashFunction paddr)) = .listnode e :=
      h.lists.right.next_cons
    have hmem : e ∈ active ++ e :: free := mem_append_right _ mem_cons_self
    have hactive : e ∉ active := fun he =>
      (nodup_cons.1 (nodup_middle.1 h.nodup)).1 (mem_append_left _ he)
    obtain ⟨hnew, ht⟩ := insert_of_pool netbuf rfl h
    have hrep' := hrep.touched h ht (fun k _ _ hk h' => h.apart h' hk hmem) hnew
    rw [add_items hactive] at hrep'
    rw [← hitems]
    refine ⟨_, 0, ?_, .inl ⟨rfl, hrep'⟩⟩
    simp only [hnext, ne_eq, reduceCtorEq, not_false_eq_true, if_true, (h.entries e hmem).container]
    rfl
  | nil =>
    have hnext : s.links.next (.freepool (rxHashFunction paddr)) =
        .freepool (rxHashFunction paddr) := h.lists.right.next_nil
    simp only [hnext, ne_eq, not_true_eq_false, if_false]
    cases hget : mem.get s.inUse with
    | none => exact ⟨s, 1, rfl, .inr ⟨rfl, rfl, _, hget⟩⟩
    | some addr =>
      have hfresh := mem.fresh _ _ hget
      obtain ⟨hnew, ht⟩ := insert_of_mem netbuf rfl h hfresh
      have hrep' := hrep.touched h ht (fun k _ _ _ h' he => hfresh (h'.entries _ he).1) hnew
      have hactive : .mem addr ∉ active := fun he =>
        hfresh (h.entries _ (mem_append_left _ he)).1
      have hold : active.map (s.newEntry addr).item = active.map s.item :=
        map_congr_left fun e he => by
          have hne : e ≠ .mem addr := fun heq => hactive (heq ▸ he)
          rw [item, item, newEntry_entry_of_ne hne]
      rw [add_items hactive, hold, hitems] at hrep'
      exact ⟨_, 0, rfl, .inl ⟨rfl, hrep'⟩⟩

end Insert

/-! ### Lookups -/

section Lookup
variable {s : RxHash} {i paddr : Nat} {active free before after : List EntryAddr} {e : EntryAddr}

theorem find_item {p : Nat → Bool} : (active.map s.item).find? (fun x => p x.1) =
      (active.find? fun e => p (s.entry e).paddr).map s.item := by
  rw [find?_map]
  rfl

/-- The walk takes the first entry that has the address, and ends without one when there is none. -/
theorem lookupFrom_eq {a : ListNode} {limit : Nat} (paddr : Nat) (h : BucketRight s i active free)
    (hafter : after ⊆ active)
    (hpath : s.links.Path a (after.map .listnode) (.listhead i)) (hlimit : after.length < limit) :
    lookupFrom s i paddr limit (s.links.next a) =
      match after.find? fun e => (s.entry e).paddr = paddr with
      | none => some (s, none)
      | some e => s.take i e := by
  induction after generalizing a limit with
  | nil =>
    obtain ⟨limit, rfl⟩ := exists_eq_add_one.2 hlimit
    rw [lookupFrom, if_pos hpath.1]
    rfl
  | cons e after ih =>
    obtain ⟨limit, rfl⟩ := exists_eq_add_one.2 (zero_lt_of_lt hlimit)
    obtain ⟨he, hafter⟩ := cons_subset.1 hafter
    have hnext : s.links.next a = .listnode e := hpath.1.1
    rw [hnext, lookupFrom, if_neg (by simp),
      (h.entries e (mem_append_left _ he)).container, bind_eq_bind, bind_some, find?_cons]
    by_cases hpaddr : (s.entry e).paddr = paddr
    · simp [hpaddr]
    · simp only [hpaddr, if_false, decide_false]
      exact ih hafter hpath.2 (lt_of_succ_lt_succ hlimit)

theorem removed_lists (h : BucketRight s i (before ++ e :: after) free) :
    (s.links.remove (.listnode e)).Circles (.listhead i) ((before ++ after).map .listnode)
      (.freepool i) (free.map .listnode) := by
  have hlists := h.lists
  rw [map_append, map_cons] at hlists
  rw [map_append]
  exact hlists.remove

/-- What is left of a bucket without one of its entries, by what is done with the entry. -/
theorem removed_right {s' : RxHash} {free' : List EntryAddr}
    (h : BucketRight s i (before ++ e :: after) free) (hentry : s'.entry = s.entry)
    (hlists : s'.links.Circles (.listhead i) ((before ++ after).map .listnode) (.freepool i)
      (free'.map .listnode))
    (hpool : ∀ j < rxEntriesSize, .entries i j ∈ before ++ after ++ free')
    (hfree : ∀ e' ∈ free', e' ∈ before ++ e :: after ++ free ∧ (s.entry e').fromlist = true)
    (huse : ∀ addr ∈ s.inUse, .mem addr ≠ e → addr ∈ s'.inUse) :
    BucketRight s' i (before ++ after) free' := by
  have hold {e' : EntryAddr} (he' : e' ∈ before ++ after) : e' ∈ before ++ e :: after :=
    (List.Sublist.append_left (sublist_cons_self e after) before).subset he'
  have hne {e' : EntryAddr} (he' : e' ∈ before ++ after) : e' ≠ e := by
    have hnodup := List.Nodup.of_append_left h.nodup
    exact fun heq => (nodup_cons.1 (nodup_middle.1 hnodup)).1 (heq ▸ he')
  refine ⟨hlists, hpool, ?_, ?_, ?_⟩
  · intro e' he'
    rcases mem_append.1 he' with he' | he'
    · refine (h.entries e' (mem_append_left _ (hold he'))).congr (by rw [hentry]) ?_
      rintro addr haddr rfl
      exact huse addr haddr (hne he')
    · have hown := h.entries e' (hfree e' he').1
      cases e' with
      | entries k j => exact ⟨hown.1, hown.2.1, by rw [hentry]; exact hown.2.2⟩
      | mem addr =>
        rw [EntryRight, (hfree _ he').2] at hown
        exact nomatch hown.2
  · intro e' he'
    rw [hentry]
    exact h.hashed e' (hold he')
  · intro e' he'
    rw [hentry]
    exact (hfree e' he').2

theorem removed_sameAt (h : BucketRight s i (before ++ e :: after) free) {x : ListNode}
    (hx : x ∉ bucketNodes i (before ++ e :: after) free) :
    Links.SameAt s.links (s.links.remove (.listnode e)) x := by
  have hnode : .listnode e ∈ (before ++ e :: after).map listnode :=
    mem_map_of_mem (mem_append_right _ mem_cons_self)
  exact h.lists.left.sameAt_remove hnode (not_or.1 (mt mem_append.2 hx)).1

theorem take_of_pool {k j : Nat} (h : BucketRight s i (before ++ .entries k j :: after) free) :
    ∃ s' free', s.take i (.entries k j) = some (s', (s.entry (.entries k j)).netbuf) ∧
      BucketRight s' i (before ++ after) free' ∧
      Touched s s' i (before ++ .entries k j :: after) free (.entries k j) ∧
      s'.entry = s.entry := by
  have hmem : .entries k j ∈ before ++ .entries k j :: after :=
    mem_append_right _ mem_cons_self
  obtain ⟨-, -, hflag⟩ := h.entries _ (mem_append_left _ hmem)
  obtain ⟨hactive, -, hapart⟩ := nodup_append.1 h.nodup
  have hlists := removed_lists h
  let node : ListNode := .listnode (.entries k j)
  refine ⟨(s.listRemove node).listAddTail (.freepool i) node, free ++ [.entries k j],
    if_pos hflag, removed_right h rfl ?_ ?_ ?_ fun _ haddr _ => haddr, ⟨rfl, ?_, ?_, ?_⟩, rfl⟩
  · have hmap : (free ++ [EntryAddr.entries k j]).map listnode =
        free.map listnode ++ [node] := map_append ..
    rw [hmap]
    refine (hlists.symm.addTail ?_ ?_).symm
    · exact fun hfree => hapart _ hmem _ (listnode_mem_free.1 hfree) rfl
    · exact fun hin => (nodup_cons.1 (nodup_middle.1 hactive)).1 (listnode_mem_active.1 hin)
  · intro j' hj'
    have hpool := h.pool j' hj'
    simp only [mem_append, mem_cons, not_mem_nil, or_false] at hpool ⊢
    tauto
  · intro e' he'
    rcases mem_append.1 he' with he' | he'
    · exact ⟨mem_append_right _ he', h.pooled e' he'⟩
    · rw [mem_singleton.1 he']
      exact ⟨mem_append_left _ hmem, hflag⟩
  · intro x hx hxe
    have hremove := removed_sameAt h hx
    have hadd := hlists.symm.left.sameAt_addTail (not_or.1 (mt mem_append.2 hx)).2 hxe
    exact ⟨hadd.next.trans hremove.next, hadd.prev.trans hremove.prev⟩
  · exact fun _ _ => rfl
  · exact fun _ haddr _ => haddr

theorem take_of_mem {addr : Nat} (h : BucketRight s i (before ++ .mem addr :: after) free) :
    ∃ s', s.take i (.mem addr) = some (s', (s.entry (.mem addr)).netbuf) ∧
      BucketRight s' i (before ++ after) free ∧
      Touched s s' i (before ++ .mem addr :: after) free (.mem addr) ∧ s'.entry = s.entry := by
  have hmem : .mem addr ∈ before ++ .mem addr :: after :=
    mem_append_right _ mem_cons_self
  obtain ⟨haddr, hflag⟩ := h.entries _ (mem_append_left _ hmem)
  have huse : ∀ addr' ∈ s.inUse, EntryAddr.mem addr' ≠ .mem addr →
      addr' ∈ s.inUse.erase addr := fun addr' haddr' hne =>
    (mem_erase_of_ne fun heq => hne (congrArg _ heq)).2 haddr'
  have hfree : (s.listRemove (.listnode (.mem addr))).memFree (.mem addr) =
      some { s.listRemove (.listnode (.mem addr)) with inUse := s.inUse.erase addr } :=
    if_pos haddr
  refine ⟨{ s.listRemove (.listnode (.mem addr)) with inUse := s.inUse.erase addr }, ?_,
    removed_right h rfl (removed_lists h) ?_ ?_ huse, ⟨rfl, ?_, ?_, huse⟩, rfl⟩
  · rw [RxHash.take, if_neg (by simp [hflag]), hfree]
    rfl
  · intro j hj
    simpa using h.pool j hj
  · exact fun e' he' => ⟨mem_append_right _ he', h.pooled e' he'⟩
  · exact fun x hx _ => removed_sameAt h hx
  · exact fun _ _ => rfl

theorem take_refines (h : BucketRight s i (before ++ e :: after) free) :
    ∃ s' free', s.take i e = some (s', (s.entry e).netbuf) ∧
      BucketRight s' i (before ++ after) free' ∧
      Touched s s' i (before ++ e :: after) free e ∧ s'.entry = s.entry := by
  cases e with
  | entries k j => exact take_of_pool h
  | mem addr =>
    obtain ⟨s', htaken⟩ := take_of_mem h
    exact ⟨s', free, htaken⟩

/-- **A lookup** takes the first item with the address out of the list of its bucket. -/
theorem lookup_refines {table : Nat → List (Nat × Option Nat)} (hrep : Rep s table) (paddr : Nat) :
    ∃ s', httRxHashListLookup s paddr =
        some (s', ((table (rxHashFunction paddr)).find? fun x => x.1 = paddr).bind (·.2)) ∧
      Rep s' (update table (rxHashFunction paddr)
        ((table (rxHashFunction paddr)).eraseP fun x => x.1 = paddr)) := by
  obtain ⟨active, free, h, hitems⟩ := hrep.buckets _ (rxHashFunction_lt paddr)
  have hlimit : active.length < s.walkLimit :=
    length_lt_walkLimit (fun e he => h.entries e (mem_append_left _ he))
      (List.Nodup.of_append_left h.nodup)
  have hloop := lookupFrom_eq paddr h (List.Subset.refl _) h.lists.left.path hlimit
  rw [httRxHashListLookup, hloop, ← hitems, find_item (p := fun a => decide (a = paddr))]
  cases hfind : active.find? fun e => (s.entry e).paddr = paddr with
  | none =>
    have hnone : ∀ x ∈ table (rxHashFunction paddr), ¬ decide (x.1 = paddr) = true := by
      rw [← hitems]
      intro x hx
      obtain ⟨e, he, rfl⟩ := mem_map.1 hx
      exact find?_eq_none.1 hfind e he
    refine ⟨s, rfl, ?_⟩
    rw [hitems, eraseP_of_forall_not hnone, update_eq_self]
    exact hrep
  | some e =>
    obtain ⟨before, after, rfl, herase⟩ := eraseP_of_find? hfind
    obtain ⟨s', free', htake, hnew, ht, hentry⟩ := take_refines h
    have hmem : e ∈ before ++ e :: after ++ free :=
      mem_append_left _ (mem_append_right _ mem_cons_self)
    have hrep' := hrep.touched h ht (fun k _ _ hk h' => h.apart h' hk hmem) hnew
    have hitem : s'.item = s.item := funext fun e => by rw [item, item, hentry]
    refine ⟨s', htake, ?_⟩
    rw [eraseP_map, show ((fun x => decide (x.1 = paddr)) ∘ s.item) =
      fun e => decide ((s.entry e).paddr = paddr) from rfl, herase, ← hitem]
    exact hrep'

end Lookup

end Qcacld.Htt.Hash

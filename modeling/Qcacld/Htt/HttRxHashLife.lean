import Qcacld.Htt.HttRxHash

/-!
# Htt — HttRxHashLife

The two ends of the hash table's life.  Whatever is in the memory it is allocated in, `htt_rx_hash_init` leaves every bucket with an empty list and all its entries free; and `htt_rx_hash_deinit` frees the buffers of all lists, each entry's once, and reads no entry that it has freed.
-/

namespace Qcacld.Htt.Hash
open Qcacld.Support Function List Option Nat

/-! ### `htt_rx_hash_init` -/

def poolEntries (i : Nat) : List EntryAddr := (List.range rxEntriesSize).map (.entries i)

/-- What changes is about one bucket and the entries it is allocated with. -/
structure InitOnly (s s' : RxHash) (i : Nat) : Prop where
  links : ∀ x, x ≠ .listhead i → x ≠ .freepool i → (∀ j, x ≠ .listnode (.entries i j)) →
    Links.SameAt s.links s'.links x
  entry : ∀ e, (∀ j, e ≠ .entries i j) → s'.entry e = s.entry e
  inUse : s'.inUse = s.inUse

section Init
variable {s s' s'' : RxHash} {i j n : Nat}

theorem InitOnly.trans (h : InitOnly s s' i) (h' : InitOnly s' s'' i) : InitOnly s s'' i where
  links := fun x hl hf he =>
    ⟨(h'.links x hl hf he).next.trans (h.links x hl hf he).next,
      (h'.links x hl hf he).prev.trans (h.links x hl hf he).prev⟩
  entry := fun e he => (h'.entry e he).trans (h.entry e he)
  inUse := h'.inUse.trans h.inUse

theorem initEntries_right (h : s.links.Circles (.listhead i) [] (.freepool i) []) (j : Nat) :
    (initEntries i j s).links.Circles (.listhead i) [] (.freepool i)
        (((range j).map (.entries i)).map .listnode) ∧
      (∀ k < j, ((initEntries i j s).entry (.entries i k)).fromlist = true) ∧
      InitOnly s (initEntries i j s) i := by
  induction j with
  | zero =>
    refine ⟨h, fun k hk => absurd hk (not_lt_zero k), fun x _ _ _ => ?_, ?_, rfl⟩
    · exact ⟨rfl, rfl⟩
    · exact fun e _ => rfl
  | succ j ih =>
    obtain ⟨hlists, hflag, honly⟩ := ih
    rw [initEntries]
    refine ⟨?_, ?_, honly.trans ⟨?_, ?_, rfl⟩⟩
    · rw [range_succ, map_append, map_append]
      refine (hlists.symm.addTail ?_ ?_).symm
      · simp
      · simp
    · intro k hk
      by_cases hkj : k = j
      · subst hkj
        simp
      · have hne : EntryAddr.entries i k ≠ .entries i j := fun heq => hkj (by simpa using heq)
        rw [listAddTail_entry, setEntry_entry, update_of_ne hne]
        exact hflag k (lt_of_le_of_ne (le_of_lt_succ hk) hkj)
    · intro x _ hf he
      refine hlists.right.sameAt_addTail ?_ (he j)
      rw [List.mem_cons, List.map_map, List.mem_map]
      rintro (hx | ⟨k, -, rfl⟩)
      · exact hf hx
      · exact he k rfl
    · exact fun e he => update_of_ne (he j) ..

theorem initBucket_right (s : RxHash) (i : Nat) :
    BucketRight (initBucket i s) i [] (poolEntries i) ∧ InitOnly s (initBucket i s) i := by
  have hhead : ((s.links.init (.listhead i)).init (.freepool i)).Circle (.listhead i) [] :=
    (Links.circle_init s.links (.listhead i)).congr fun x hx => by
      rw [mem_singleton.1 hx]
      exact Links.sameAt_init (by simp)
  have hstart : ((s.links.init (.listhead i)).init (.freepool i)).Circles (.listhead i) []
      (.freepool i) [] := ⟨hhead, Links.circle_init _ _, by simp⟩
  obtain ⟨hlists, hflag, honly⟩ := @initEntries_right { s with
    links := (s.links.init (.listhead i)).init (.freepool i) } i hstart rxEntriesSize
  have hpool {e : EntryAddr} (he : e ∈ poolEntries i) : ∃ j < rxEntriesSize, e = .entries i j := by
    obtain ⟨j, hj, rfl⟩ := mem_map.1 he
    exact ⟨j, mem_range.1 hj, rfl⟩
  refine ⟨⟨hlists, ?_, ?_, fun e he => (nomatch he), ?_⟩, ?_, honly.entry, honly.inUse⟩
  · exact fun j hj => mem_map_of_mem (mem_range.2 hj)
  · intro e he
    obtain ⟨j, hj, rfl⟩ := hpool he
    exact ⟨rfl, hj, hflag j hj⟩
  · intro e he
    obtain ⟨j, hj, rfl⟩ := hpool he
    exact hflag j hj
  · intro x hl hf he
    have hinit := Links.sameAt_init (l := s.links) hl
    have hfree := Links.sameAt_init (l := s.links.init (.listhead i)) hf
    have hloop := honly.links x hl hf he
    exact ⟨hloop.next.trans (hfree.next.trans hinit.next),
      hloop.prev.trans (hfree.prev.trans hinit.prev)⟩

theorem InitOnly.other (h : InitOnly s s' i) (hn : n ≠ i)
    (hb : BucketRight s n [] (poolEntries n)) : BucketRight s' n [] (poolEntries n) := by
  have hown {e : EntryAddr} (he : e ∈ [] ++ poolEntries n) : ∀ j, e ≠ .entries i j := by
    obtain ⟨k, -, rfl⟩ := mem_map.1 he
    intro j heq
    exact hn (EntryAddr.entries.inj heq).1
  refine hb.congr ?_ (fun e he => h.entry e (hown he)) ?_
  · intro x hx
    refine h.links x ?_ ?_ ?_
    · rintro rfl
      simp [mem_bucketNodes, hn.symm] at hx
    · rintro rfl
      simp [mem_bucketNodes, hn.symm] at hx
    · rintro j rfl
      obtain hx | hx | ⟨e, he, heq⟩ := mem_bucketNodes.1 hx
      · exact nomatch hx
      · exact nomatch hx
      · exact hown he j (listnode_inj.1 heq).symm
  · intro addr haddr
    rw [h.inUse]
    exact (hb.entries _ haddr).1

theorem initBuckets_right {alloc : Nat → Bool} (h : initBuckets alloc n s = some s') :
    ∀ k < n, BucketRight s' k [] (poolEntries k) := by
  induction n generalizing s' with
  | zero => exact fun k hk => nomatch hk
  | succ n ih =>
    obtain ⟨s₁, hs₁, h⟩ := bind_eq_some_iff.1 h
    split at h
    · obtain rfl : initBucket n s₁ = s' := some.inj h
      obtain ⟨hnew, honly⟩ := initBucket_right s₁ n
      intro k hk
      by_cases hkn : k = n
      · subst hkn
        exact hnew
      · exact honly.other hkn (ih hs₁ k (lt_of_le_of_ne (le_of_lt_succ hk) hkn))
    · exact nomatch h

/-- **The table is empty when it is allocated**, whatever was in its memory. -/
theorem init_refines {table : Bool} {alloc : Nat → Bool}
    (h : httRxHashInit table alloc s = some (s', 0)) : Rep s' fun _ => [] := by
  unfold httRxHashInit at h
  split at h
  · obtain ⟨s₁, hs₁, h⟩ := bind_eq_some_iff.1 h
    obtain ⟨rfl, -⟩ := Prod.mk.inj (some.inj h)
    refine ⟨rfl, fun i hi => ⟨[], poolEntries i, ?_, rfl⟩⟩
    have hb := initBuckets_right hs₁ i hi
    exact ⟨hb.lists, hb.pool, hb.entries, hb.hashed, hb.pooled⟩
  · exact absurd (Prod.mk.inj (some.inj h)).2 (by decide)

theorem initBuckets_of_alloc (s : RxHash) (n : Nat) :
    ∃ s', initBuckets (fun _ => true) n s = some s' := by
  induction n with
  | zero => exact ⟨s, rfl⟩
  | succ n ih =>
    obtain ⟨s', hs'⟩ := ih
    exact ⟨initBucket n s', by rw [initBuckets, hs']; rfl⟩

theorem init_of_alloc (s : RxHash) : ∃ s', httRxHashInit true (fun _ => true) s = some (s', 0) := by
  obtain ⟨s', hs'⟩ := initBuckets_of_alloc s rxNumHashBuckets
  exact ⟨{ s' with hashTable := true }, by rw [httRxHashInit, if_pos rfl, hs']; rfl⟩

end Init

/-! ### `htt_rx_hash_deinit` -/

def entryLog (s : RxHash) (e : EntryAddr) : List DeinitEvent :=
  (s.freeNetbuf e).2 ++ if (s.entry e).fromlist then [] else [.freeEntry e]

def deinitLog (s : RxHash) (active : Nat → List EntryAddr) (n : Nat) : List DeinitEvent :=
  (List.range n).flatMap fun i => (active i).flatMap (entryLog s) ++ [.freeBucket i]

/-- What `htt_rx_hash_deinit` leaves as it was, but for the entries that are gone. -/
structure Emptied (s s' : RxHash) (gone : List EntryAddr) : Prop where
  links : s'.links = s.links
  netbuf : ∀ e, (s'.entry e).netbuf = (s.entry e).netbuf
  fromlist : ∀ e, (s'.entry e).fromlist = (s.entry e).fromlist
  inUse : ∀ addr ∈ s.inUse, .mem addr ∉ gone → addr ∈ s'.inUse

section Deinit
variable {s s' s'' : RxHash} {i : Nat} {gone gone' rest : List EntryAddr} {e : EntryAddr}

theorem Emptied.refl (s : RxHash) : Emptied s s [] :=
  ⟨rfl, fun _ => rfl, fun _ => rfl, fun _ haddr _ => haddr⟩

theorem Emptied.trans (h : Emptied s s' gone) (h' : Emptied s' s'' gone') :
    Emptied s s'' (gone ++ gone') where
  links := h'.links.trans h.links
  netbuf := fun e => (h'.netbuf e).trans (h.netbuf e)
  fromlist := fun e => (h'.fromlist e).trans (h.fromlist e)
  inUse := fun addr haddr hgone =>
    h'.inUse addr (h.inUse addr haddr fun hmem => hgone (mem_append_left _ hmem))
      fun hmem => hgone (mem_append_right _ hmem)

theorem Emptied.mono (h : Emptied s s' gone) (hsub : gone ⊆ gone') : Emptied s s' gone' :=
  ⟨h.links, h.netbuf, h.fromlist, fun addr haddr hgone =>
    h.inUse addr haddr fun hmem => hgone (hsub hmem)⟩

theorem Emptied.entryRight (h : Emptied s s' gone) (he : EntryRight s i e) (hgone : e ∉ gone) :
    EntryRight s' i e :=
  he.congr (h.fromlist e) fun addr haddr heq => h.inUse addr haddr (heq ▸ hgone)

theorem Emptied.entryLog_eq (h : Emptied s s' gone) : entryLog s' = entryLog s := by
  funext e
  simp only [entryLog, RxHash.freeNetbuf, h.netbuf, h.fromlist]
  cases (s.entry e).netbuf with
  | none => rfl
  | some netbuf => rfl

theorem freeNetbuf_emptied (s : RxHash) (e : EntryAddr) : Emptied s (s.freeNetbuf e).1 [] := by
  unfold RxHash.freeNetbuf
  cases (s.entry e).netbuf with
  | none => exact .refl s
  | some netbuf =>
    refine ⟨rfl, fun e' => ?_, fun e' => ?_, fun _ haddr _ => haddr⟩
    · by_cases heq : e' = e
      · simp [heq]
      · simp [heq]
    · by_cases heq : e' = e
      · simp [heq]
      · simp [heq]

theorem memFree_emptied {addr : Nat} (h : addr ∈ s.inUse) :
    ∃ s', s.memFree (.mem addr) = some s' ∧ Emptied s s' [.mem addr] := by
  refine ⟨_, if_pos h, rfl, fun _ => rfl, fun _ => rfl, fun addr' haddr' hgone => ?_⟩
  exact (mem_erase_of_ne fun heq => hgone (by simp [heq])).2 haddr'

/-- The loop frees what is in the entries from a node on, and reads none that it has freed. -/
theorem deinitFrom_eq {a : ListNode} {limit : Nat} (log : List DeinitEvent)
    (hright : ∀ e ∈ rest, EntryRight s i e) (hnodup : rest.Nodup)
    (hpath : s.links.Path a (rest.map .listnode) (.listhead i)) (hlimit : rest.length < limit) :
    ∃ s', deinitFrom i limit (s.links.next a) s log = some (s', log ++ rest.flatMap (entryLog s)) ∧
      Emptied s s' rest := by
  induction rest generalizing s a limit log with
  | nil =>
    obtain ⟨limit, rfl⟩ := exists_eq_add_one.2 hlimit
    refine ⟨s, ?_, .refl s⟩
    rw [deinitFrom, if_pos hpath.1, flatMap_nil, append_nil]
  | cons e rest ih =>
    obtain ⟨limit, rfl⟩ := exists_eq_add_one.2 (zero_lt_of_lt hlimit)
    obtain ⟨he, hrest⟩ := forall_mem_cons.1 hright
    obtain ⟨hmem, hnodup⟩ := nodup_cons.1 hnodup
    have hnext : s.links.next a = .listnode e := hpath.1.1
    have hfreed := freeNetbuf_emptied s e
    -- the rest of the walk, from a state in which `e` and no other entry may be gone
    have hwalk {s' : RxHash} {gone : List EntryAddr} (hs : Emptied s s' gone)
        (hgone : gone ⊆ [e]) (log : List DeinitEvent) :
        ∃ s'', deinitFrom i limit (s'.links.next (.listnode e)) s' log =
            some (s'', log ++ rest.flatMap (entryLog s)) ∧ Emptied s s'' (gone ++ rest) := by
      have hstill : ∀ e' ∈ rest, EntryRight s' i e' := fun e' he' =>
        hs.entryRight (hrest e' he') fun hg =>
          hmem (mem_singleton.1 (hgone hg) ▸ he')
      have hpath' : s'.links.Path (.listnode e) (rest.map .listnode) (.listhead i) := by
        rw [hs.links]
        exact hpath.2
      obtain ⟨s'', hloop, hs'⟩ :=
        @ih s' (.listnode e) limit log hstill hnodup hpath' (lt_of_succ_lt_succ hlimit)
      rw [hs.entryLog_eq] at hloop
      exact ⟨s'', hloop, hs.trans hs'⟩
    rw [hnext, deinitFrom, if_neg (by simp), he.container, flatMap_cons]
    simp only [bind_eq_bind, bind_some, hfreed.fromlist]
    cases e with
    | entries k j =>
      obtain ⟨s'', hloop, hs''⟩ := hwalk hfreed (nil_subset _)
        (log ++ (s.freeNetbuf (.entries k j)).2)
      refine ⟨s'', ?_, hs''.mono (subset_cons_self _ _)⟩
      rw [if_pos he.2.2, hloop, entryLog, if_pos he.2.2, append_nil, append_assoc]
    | mem addr =>
      obtain ⟨s₂, hfree, hs₂⟩ := memFree_emptied (hfreed.inUse addr he.1 not_mem_nil)
      obtain ⟨s'', hloop, hs''⟩ := hwalk (hfreed.trans hs₂) (List.Subset.refl _)
        (log ++ (s.freeNetbuf (.mem addr)).2 ++ [.freeEntry (.mem addr)])
      refine ⟨s'', ?_, hs''⟩
      have hflag : ¬ (s.entry (.mem addr)).fromlist = true := by simp [he.2]
      rw [if_neg hflag, hfree, bind_some, ← hs₂.links, hloop, entryLog, if_neg hflag]
      simp

theorem deinitLog_succ (s : RxHash) (active : Nat → List EntryAddr) (n : Nat) :
    deinitLog s active (n + 1) =
      deinitLog s active n ++ (active n).flatMap (entryLog s) ++ [.freeBucket n] := by
  simp [deinitLog, range_succ]

theorem deinitBuckets_eq {active free : Nat → List EntryAddr} {n : Nat}
    (h : ∀ i < n, BucketRight s i (active i) (free i)) :
    ∃ s', deinitBuckets n s = some (s', deinitLog s active n) ∧
      Emptied s s' ((range n).flatMap active) := by
  induction n with
  | zero => exact ⟨s, rfl, .refl s⟩
  | succ n ih =>
    obtain ⟨s₁, hloop, hs₁⟩ := ih fun i hi => h i (lt_succ_of_lt hi)
    have hb := h n (lt_succ_self n)
    have hgone : ∀ e ∈ active n, e ∉ (range n).flatMap active := by
      intro e he hmem
      obtain ⟨i, hi, he'⟩ := mem_flatMap.1 hmem
      have hin := mem_range.1 hi
      exact (h i (lt_succ_of_lt hin)).apart hb (ne_of_gt hin)
        (mem_append_left _ he') (mem_append_left _ he)
    have hright : ∀ e ∈ active n, EntryRight s₁ n e := fun e he =>
      hs₁.entryRight (hb.entries e (mem_append_left _ he)) (hgone e he)
    have hnodup := List.Nodup.of_append_left hb.nodup
    have hpath : s₁.links.Path (.listhead n) ((active n).map .listnode) (.listhead n) := by
      rw [hs₁.links]
      exact hb.lists.left.path
    obtain ⟨s₂, hwalk, hs₂⟩ :=
      deinitFrom_eq (deinitLog s active n) hright hnodup hpath (length_lt_walkLimit hright hnodup)
    refine ⟨s₂, ?_, ?_⟩
    · rw [deinitBuckets, hloop]
      simp only [bind_eq_bind, bind_some, hwalk, hs₁.entryLog_eq]
      rw [deinitLog_succ]
      rfl
    · rw [range_succ, flatMap_append, flatMap_singleton]
      exact hs₁.trans hs₂

def freedNetbufs (log : List DeinitEvent) : List Nat :=
  log.filterMap fun
    | .freeNetbuf netbuf => some netbuf
    | _ => none

theorem freedNetbufs_append (log log' : List DeinitEvent) :
    freedNetbufs (log ++ log') = freedNetbufs log ++ freedNetbufs log' :=
  filterMap_append ..

theorem freedNetbufs_entryLog (s : RxHash) (e : EntryAddr) :
    freedNetbufs (entryLog s e) = (s.entry e).netbuf.toList := by
  have hown : freedNetbufs (if (s.entry e).fromlist then [] else [.freeEntry e]) = [] := by
    split
    · rfl
    · rfl
  rw [entryLog, freedNetbufs_append, hown, append_nil, RxHash.freeNetbuf]
  cases (s.entry e).netbuf with
  | none => rfl
  | some netbuf => rfl

theorem freedNetbufs_flatMap {α : Type} (l : List α) (f : α → List DeinitEvent) :
    freedNetbufs (l.flatMap f) = l.flatMap fun x => freedNetbufs (f x) := by
  induction l with
  | nil => rfl
  | cons x l ih => rw [flatMap_cons, flatMap_cons, freedNetbufs_append, ih]

/-- **The buffers of all lists are freed**, one for each item, and the table is gone. -/
theorem deinit_refines {table : Nat → List (Nat × Option Nat)} (hrep : Rep s table) :
    ∃ s' log, httRxHashDeinit s = some (s', log) ∧ s'.hashTable = false ∧ freedNetbufs log =
        ((range rxNumHashBuckets).flatMap table).flatMap fun x => x.2.toList := by
  have hall : ∀ i, ∃ active free, i < rxNumHashBuckets →
      BucketRight s i active free ∧ active.map s.item = table i := by
    intro i
    by_cases hi : i < rxNumHashBuckets
    · obtain ⟨active, free, h⟩ := hrep.buckets i hi
      exact ⟨active, free, fun _ => h⟩
    · exact ⟨[], [], fun h => absurd h hi⟩
  choose active free hb using hall
  obtain ⟨s', hloop, -⟩ := deinitBuckets_eq fun i hi => (hb i hi).1
  refine ⟨{ s' with hashTable := false }, deinitLog s active rxNumHashBuckets ++ [.freeTable],
    ?_, rfl, ?_⟩
  · rw [httRxHashDeinit, if_pos hrep.hashTable, hloop]
    rfl
  · have hbucket : ∀ i ∈ range rxNumHashBuckets,
        freedNetbufs ((active i).flatMap (entryLog s) ++ [.freeBucket i]) =
          (table i).flatMap fun x => x.2.toList := by
      intro i hi
      rw [freedNetbufs_append, freedNetbufs_flatMap, ← (hb i (mem_range.1 hi)).2, flatMap_map]
      simp only [freedNetbufs_entryLog]
      exact append_nil _
    rw [freedNetbufs_append, deinitLog, freedNetbufs_flatMap, flatMap_assoc, flatMap_congr hbucket]
    exact append_nil _

end Deinit

end Qcacld.Htt.Hash

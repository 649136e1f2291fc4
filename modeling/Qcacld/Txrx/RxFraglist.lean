import Qcacld.Adf.Nbuf
import Mathlib.Data.List.Perm.Subperm

/-!
# Txrx — RxFraglist

`ol_rx_fraglist_insert`: the list of the fragments of one MSDU that have arrived so far, kept by fragment number, with a tail pointer for the usual case of an arrival in order.

The search loop advances `prev` and `cur` together before it tests, so an arrival that is not the largest lands behind the first larger fragment instead of before it.  `fraglist_ok_iff` says which arrival orders that spoils: the list is as documented after every call exactly when each fragment is larger than all before it, or repeats one of them while the MSDU is not yet complete.
-/

namespace Qcacld.Txrx
open Qcacld.Adf Qcacld.Support List Option

/-- The fields of `struct ieee80211_frame` that the fragment list reads. -/
structure Ieee80211Frame where
  /-- `i_fc[1]` -/
  iFc1 : UInt8
  /-- `i_seq`, in host order -/
  iSeq : UInt16

/-- `i_seq & IEEE80211_SEQ_FRAG_MASK`. -/
def Ieee80211Frame.fragno (h : Ieee80211Frame) : Nat := (h.iSeq &&& 0x000f).toNat

/-- `i_fc[1] & IEEE80211_FC1_MORE_FRAG`. -/
def Ieee80211Frame.moreFrag (h : Ieee80211Frame) : Bool := h.iFc1 &&& 0x04 != 0

theorem Ieee80211Frame.fragno_lt (h : Ieee80211Frame) : h.fragno < 16 := by
  rw [fragno, UInt16.toNat_and]
  exact Nat.lt_of_le_of_lt Nat.and_le_right (by decide)

/-- What `ol_rx_fraglist_insert` reads and writes: the buffers' `next` pointers, `*head_addr`, `*tail_addr`, `*all_frag_present`, and the buffers given to `htt_rx_desc_frame_free`. -/
structure Fraglist where
  heap : NbufHeap
  head : Option AdfNbuf
  tail : Option AdfNbuf
  allFragPresent : Bool
  freed : List AdfNbuf

section Insert
variable (macHdr : AdfNbuf → Ieee80211Frame)

/-- The search for the place of `fragno`: `prev`, `cur` and `cur_fragno` when the loop is left.  Running off the list is a NULL dereference, `none`. -/
def fraglistSearch (heap : NbufHeap) (fragno : Nat) :
    Nat → Option AdfNbuf → Option (AdfNbuf × Option AdfNbuf × Nat)
  | 0, _ => none
  | _ + 1, none => none
  | fuel + 1, some cur =>
    let curFragno := (macHdr cur).fragno
    let prev := cur
    let cur := adfNbufNext heap cur
    if fragno > curFragno then fraglistSearch heap fragno fuel cur
    else some (prev, cur, curFragno)

/-- The completeness scan: `next` when the loop is left. -/
def fraglistScan (heap : NbufHeap) : Nat → Option AdfNbuf → Nat → Option (Option AdfNbuf)
  | 0, _, _ => none
  | _ + 1, none, _ => none
  | fuel + 1, some next, count =>
    let nextFragno := (macHdr next).fragno
    let count := (count + 1) % 256
    if nextFragno ≠ count then some (some next)
    else match adfNbufNext heap next with
      | none => some none
      | some next => fraglistScan heap fuel (some next) count

/-- The end of `ol_rx_fraglist_insert`, after a fragment has been linked in. -/
def fraglistComplete (fuel : Nat) (s : Fraglist) : Option Fraglist := do
  let head ← s.head
  let tail ← s.tail
  let next := adfNbufNext s.heap head
  let lastMorefrag := (macHdr tail).moreFrag
  if !lastMorefrag then
    let next ← fraglistScan macHdr s.heap fuel next 0
    if next.isNone then
      return { s with allFragPresent := true }
  return { s with allFragPresent := false }

def olRxFraglistInsert (fuel : Nat) (s : Fraglist) (frag : AdfNbuf) : Option Fraglist :=
  let fragno := (macHdr frag).fragno
  match s.head with
  | none =>
    some { s with head := some frag, tail := some frag, heap := adfNbufSetNext s.heap frag none }
  | some _ => do
    -- compare with tail first
    let tail ← s.tail
    let lfragno := (macHdr tail).fragno
    if fragno > lfragno then
      let heap := adfNbufSetNext s.heap tail (some frag)
      fraglistComplete macHdr fuel
        { s with heap := adfNbufSetNext heap frag none, tail := some frag }
    else
      let (prev, cur, curFragno) ← fraglistSearch macHdr s.heap fragno fuel s.head
      if fragno = curFragno then
        return { s with freed := s.freed ++ [frag], allFragPresent := false }
      else
        let heap := adfNbufSetNext s.heap prev (some frag)
        fraglistComplete macHdr fuel { s with heap := adfNbufSetNext heap frag cur }

/-- The calls for a list of arrivals.  The caller clears its `all_frag_present` before each. -/
def fraglistInsertAll (fuel : Nat) (s : Fraglist) : List AdfNbuf → Option Fraglist
  | [] => some s
  | frag :: frags => do
    let s ← olRxFraglistInsert macHdr fuel { s with allFragPresent := false } frag
    fraglistInsertAll fuel s frags

end Insert

def Fraglist.empty (heap : NbufHeap) : Fraglist := ⟨heap, none, none, false, []⟩

/-! ### What the list should be -/

section Spec
variable (macHdr : AdfNbuf → Ieee80211Frame)

def fragnos (l : List AdfNbuf) : List Nat := l.map fun f => (macHdr f).fragno

/-- The first arrival of each fragment number, in the order of arrival. -/
def firstArrivals (received : List AdfNbuf) : List AdfNbuf :=
  received.foldl (fun l f => if (macHdr f).fragno ∈ fragnos macHdr l then l else l ++ [f]) []

/-- The MSDU is complete: fragments 0, 1, .., k for some `k ≥ 1`, the last of them with no more to follow. -/
def AllFragPresent (l : List AdfNbuf) : Prop :=
  ∃ k, 1 ≤ k ∧ fragnos macHdr l = List.range (k + 1) ∧
    ∃ f ∈ l, (macHdr f).fragno = k ∧ (macHdr f).moreFrag = false

/-- What the fragment list is for: after the arrivals `received`, the list read from the head is `l`. -/
structure FraglistOk (received : List AdfNbuf) (s : Fraglist) (l : List AdfNbuf) : Prop where
  read : walk s.heap l.length s.head = some l
  sorted : (fragnos macHdr l).Pairwise (· < ·)
  covers : ∀ n, n ∈ fragnos macHdr l ↔ n ∈ fragnos macHdr received
  tail_eq : s.tail = l.getLast?
  freed : ∀ pre f post, received = pre ++ f :: post →
    s.freed.count f = if (macHdr f).fragno ∈ fragnos macHdr pre then 1 else 0
  present : s.allFragPresent = true ↔ AllFragPresent macHdr l

/-- The arrival `f`, after `pre`, is one the insertion handles: larger than all before, or a repeat while the MSDU is incomplete. -/
def ArrivalOk (pre : List AdfNbuf) (f : AdfNbuf) : Prop :=
  (∀ g ∈ pre, (macHdr g).fragno < (macHdr f).fragno) ∨
    ((macHdr f).fragno ∈ fragnos macHdr pre ∧ ¬ AllFragPresent macHdr (firstArrivals macHdr pre))

def ArrivalsOk (frags : List AdfNbuf) : Prop :=
  ∀ pre f post, frags = pre ++ f :: post → ArrivalOk macHdr pre f

end Spec

/-! ### Arrivals -/

section Arrivals
variable {macHdr : AdfNbuf → Ieee80211Frame} {pre l received : List AdfNbuf} {f g : AdfNbuf}

@[simp] theorem fragnos_nil : fragnos macHdr [] = [] := rfl

@[simp] theorem fragnos_cons :
    fragnos macHdr (f :: l) = (macHdr f).fragno :: fragnos macHdr l := rfl

@[simp] theorem fragnos_append (l₁ l₂ : List AdfNbuf) :
    fragnos macHdr (l₁ ++ l₂) = fragnos macHdr l₁ ++ fragnos macHdr l₂ :=
  map_append

@[simp] theorem length_fragnos : (fragnos macHdr l).length = l.length := length_map _

theorem mem_fragnos {n : Nat} : n ∈ fragnos macHdr l ↔ ∃ f ∈ l, (macHdr f).fragno = n :=
  mem_map

theorem firstArrivals_concat : firstArrivals macHdr (pre ++ [f]) =
    if (macHdr f).fragno ∈ fragnos macHdr (firstArrivals macHdr pre) then firstArrivals macHdr pre
    else firstArrivals macHdr pre ++ [f] := by
  rw [firstArrivals, foldl_concat]
  rfl

theorem mem_fragnos_firstArrivals {n : Nat} :
    n ∈ fragnos macHdr (firstArrivals macHdr pre) ↔ n ∈ fragnos macHdr pre := by
  induction pre using reverseRecOn generalizing n with
  | nil => rfl
  | append_singleton pre f ih =>
    rw [firstArrivals_concat]
    split
    next h =>
      rw [ih] at h ⊢
      simp only [fragnos_append, fragnos_cons, fragnos_nil, mem_append, mem_singleton]
      exact ⟨.inl, fun hn => hn.elim id fun e => e ▸ h⟩
    next => simp [ih]

theorem mem_of_mem_firstArrivals (h : f ∈ firstArrivals macHdr pre) : f ∈ pre := by
  induction pre using reverseRecOn with
  | nil => exact h
  | append_singleton pre g ih =>
    rw [firstArrivals_concat] at h
    split at h
    · exact mem_append_left _ (ih h)
    · rcases mem_append.1 h with h | h
      · exact mem_append_left _ (ih h)
      · exact mem_append_right _ h

theorem concat_eq_append_cons {post : List AdfNbuf} (h : received ++ [g] = pre ++ f :: post) :
    (pre = received ∧ f = g ∧ post = []) ∨
      ∃ post', received = pre ++ f :: post' ∧ post = post' ++ [g] := by
  rcases eq_nil_or_concat' post with rfl | ⟨post', x, rfl⟩
  · obtain ⟨h₁, h₂⟩ := append_inj' h rfl
    exact .inl ⟨h₁.symm, (cons.inj h₂).1.symm, rfl⟩
  · rw [← cons_append, ← append_assoc] at h
    obtain ⟨h₁, h₂⟩ := append_inj' h rfl
    exact .inr ⟨post', h₁, by rw [(cons.inj h₂).1]⟩

theorem arrivalsOk_concat :
    ArrivalsOk macHdr (pre ++ [f]) ↔ ArrivalsOk macHdr pre ∧ ArrivalOk macHdr pre f := by
  refine ⟨fun h => ⟨fun p g q e => h p g (q ++ [f]) (by simp [e]), h pre f [] rfl⟩,
    fun ⟨h, hf⟩ p g q e => ?_⟩
  rcases concat_eq_append_cons e with ⟨rfl, rfl, -⟩ | ⟨q', e', -⟩
  · exact hf
  · exact h p g q' e'

/-- The frames freed so far are the repeats, each once. -/
def FreedOnce (macHdr : AdfNbuf → Ieee80211Frame) (received freed : List AdfNbuf) : Prop :=
  (∀ f ∈ freed, f ∈ received) ∧ ∀ pre f post, received = pre ++ f :: post →
    freed.count f = if (macHdr f).fragno ∈ fragnos macHdr pre then 1 else 0

theorem FreedOnce.concat {freed freed' : List AdfNbuf} (h : FreedOnce macHdr received freed)
    (hg : g ∉ received)
    (hf : freed' = if (macHdr g).fragno ∈ fragnos macHdr received then freed ++ [g] else freed) :
    FreedOnce macHdr (received ++ [g]) freed' := by
  have hcount : freed.count g = 0 := count_eq_zero.2 fun hm => hg (h.1 g hm)
  refine ⟨fun f hm => ?_, fun pre f post e => ?_⟩
  · subst hf
    split at hm
    · exact mem_append.2 ((mem_append.1 hm).imp_left (h.1 f))
    · exact mem_append_left _ (h.1 f hm)
  · rcases concat_eq_append_cons e with ⟨rfl, rfl, -⟩ | ⟨post', e', -⟩
    · subst hf
      split <;> simp [hcount]
    · have hne : f ≠ g := by
        rintro rfl
        exact hg (e' ▸ by simp)
      rw [← h.2 pre f post' e']
      subst hf
      split
      · simp [count_append, hne.symm]
      · rfl

end Arrivals

/-! ### The loops -/

section Loops
variable {macHdr : AdfNbuf → Ieee80211Frame} {heap : NbufHeap} {l l₁ l₂ : List AdfNbuf}
  {f c : AdfNbuf} {n fuel : ℕ}

theorem fraglistSearch_eq (hl : Linked heap (l₁ ++ c :: l₂))
    (h₁ : ∀ x ∈ l₁, (macHdr x).fragno < n) (hc : n ≤ (macHdr c).fragno)
    (hf : l₁.length < fuel) :
    fraglistSearch macHdr heap n fuel (l₁ ++ c :: l₂).head? =
      some (c, heap c, (macHdr c).fragno) := by
  induction l₁ generalizing fuel with
  | nil =>
    obtain ⟨fuel, rfl⟩ := Nat.exists_eq_succ_of_ne_zero (Nat.ne_of_gt hf)
    simp [fraglistSearch, adfNbufNext, Nat.not_lt.2 hc]
  | cons x l₁ ih =>
    obtain ⟨fuel, rfl⟩ := Nat.exists_eq_succ_of_ne_zero (Nat.ne_of_gt (Nat.zero_lt_of_lt hf))
    have hx : (macHdr x).fragno < n := h₁ x (by simp)
    have hnext : heap x = (l₁ ++ c :: l₂).head? := by
      cases l₁ with
      | nil => exact (linked_cons_cons.1 hl).1
      | cons y l₁ => exact (linked_cons_cons.1 hl).1
    have hrec := ih hl.tail (fun y hy => h₁ y (by simp [hy])) (by simpa using hf)
    simp only [cons_append, head?_cons, fraglistSearch, adfNbufNext, gt_iff_lt, hx,
      if_true, hnext, hrec]

/-- The first fragment that is not smaller than `n`. -/
theorem exists_first_ge (h : ∃ x ∈ l, n ≤ (macHdr x).fragno) :
    ∃ l₁ c l₂, l = l₁ ++ c :: l₂ ∧ (∀ x ∈ l₁, (macHdr x).fragno < n) ∧ n ≤ (macHdr c).fragno := by
  induction l with
  | nil => simp at h
  | cons a l ih =>
    by_cases ha : n ≤ (macHdr a).fragno
    · exact ⟨[], a, l, rfl, by simp, ha⟩
    · obtain ⟨x, hx, hn⟩ := h
      have hxl : x ∈ l := by
        rcases mem_cons.1 hx with rfl | hx
        · exact absurd hn ha
        · exact hx
      obtain ⟨l₁, c, l₂, rfl, h₁, hc⟩ := ih ⟨x, hxl, hn⟩
      refine ⟨a :: l₁, c, l₂, rfl, fun y hy => ?_, hc⟩
      rcases mem_cons.1 hy with rfl | hy
      · exact Nat.not_le.1 ha
      · exact h₁ y hy

/-- The completeness scan reaches the end exactly when the numbers count up from `n + 1`. -/
theorem fraglistScan_eq (hl : Linked heap l) (hne : l ≠ [])
    (hend : ∀ x ∈ l.getLast?, heap x = none) (hn : n + l.length < 256) (hf : l.length ≤ fuel) :
    ∃ next, fraglistScan macHdr heap fuel l.head? n = some next ∧
      (next = none ↔ fragnos macHdr l = range' (n + 1) l.length) := by
  induction l generalizing fuel n with
  | nil => exact absurd rfl hne
  | cons a l ih =>
    rw [length_cons] at hn hf
    obtain ⟨fuel, rfl⟩ : ∃ m, fuel = m + 1 := ⟨fuel - 1, by omega⟩
    have hcount : (n + 1) % 256 = n + 1 := Nat.mod_eq_of_lt (by omega)
    simp only [head?_cons, fraglistScan, hcount, adfNbufNext]
    by_cases ha : (macHdr a).fragno = n + 1
    · rw [if_neg (not_not.2 ha)]
      cases l with
      | nil => exact ⟨none, by simp [hend a rfl], by simp [ha]⟩
      | cons b l =>
        obtain ⟨hab, hl⟩ := linked_cons_cons.1 hl
        obtain ⟨next, hs, hiff⟩ := @ih (n + 1) fuel hl (by simp)
          (fun x hx => hend x (by simpa using hx)) (by omega) (by omega)
        refine ⟨next, by rw [hab]; exact hs, ?_⟩
        have hcons : fragnos macHdr (a :: b :: l) = (n + 1) :: fragnos macHdr (b :: l) := by
          rw [fragnos_cons, ha]
        have hrange : range' (n + 1) (a :: b :: l).length =
            (n + 1) :: range' (n + 1 + 1) (b :: l).length := range'_succ ..
        rw [hiff, hcons, hrange, cons_inj_right]
    · rw [if_pos ha]
      refine ⟨some a, rfl, ?_⟩
      rw [fragnos_cons, length_cons, range'_succ]
      exact ⟨nofun, fun h => absurd (cons.inj h).1 ha⟩

end Loops

/-! ### Completeness -/

section Complete
variable {macHdr : AdfNbuf → Ieee80211Frame} {s s' : Fraglist} {l m : List AdfNbuf}
  {h t : AdfNbuf} {k fuel : ℕ}

theorem length_le_of_sorted (hs : (fragnos macHdr l).Pairwise (· < ·)) : l.length ≤ 16 := by
  have hsub : fragnos macHdr l ⊆ range 16 := fun n hn => by
    obtain ⟨f, -, rfl⟩ := mem_fragnos.1 hn
    exact mem_range.2 (macHdr f).fragno_lt
  simpa using (hs.nodup.subperm hsub).length_le

theorem fragno_getLast (hk : fragnos macHdr l = range (k + 1)) (ht : l.getLast? = some t) :
    (macHdr t).fragno = k := by
  have hlast : (fragnos macHdr l).getLast? = some (macHdr t).fragno := by
    rw [fragnos, getLast?_map, ht, map_some]
  rw [hk, range_succ, getLast?_concat] at hlast
  exact (some.inj hlast).symm

/-- For an increasing list it is enough that the numbers after the first count up from 1. -/
theorem allFragPresent_iff (hs : (fragnos macHdr (h :: m)).Pairwise (· < ·)) (hm : m ≠ [])
    (ht : (h :: m).getLast? = some t) :
    AllFragPresent macHdr (h :: m) ↔
      (macHdr t).moreFrag = false ∧ fragnos macHdr m = range' 1 m.length := by
  have hrange (k : ℕ) : range (k + 1) = 0 :: range' 1 k := by
    rw [range_eq_range', range'_succ]
  constructor
  · rintro ⟨k, -, hk, f, hf, hfk, hmore⟩
    have hft : f = t := inj_on_of_nodup_map hs.nodup hf (mem_of_mem_getLast? ht)
      (hfk.trans (fragno_getLast hk ht).symm)
    rw [hrange, fragnos_cons] at hk
    have hkm : m.length = k := by simpa using congrArg length (cons.inj hk).2
    exact ⟨hft ▸ hmore, hkm ▸ (cons.inj hk).2⟩
  · rintro ⟨hmore, hcount⟩
    obtain ⟨x, m, rfl⟩ := exists_cons_of_ne_nil hm
    have hx : (macHdr x).fragno = 1 := (cons.inj hcount).1
    have hhx : (macHdr h).fragno < (macHdr x).fragno := rel_of_pairwise_cons hs (by simp)
    have hh : (macHdr h).fragno = 0 := by omega
    have hk : fragnos macHdr (h :: x :: m) = range ((x :: m).length + 1) := by
      rw [hrange, fragnos_cons, hcount, hh]
    exact ⟨_, by simp, hk, t, mem_of_mem_getLast? ht, fragno_getLast hk ht, hmore⟩

/-- `fraglistComplete` changes nothing but the flag. -/
theorem fraglistComplete_frame (hc : fraglistComplete macHdr fuel s = some s') :
    ∃ b, s' = { s with allFragPresent := b } := by
  simp only [fraglistComplete, bind_eq_bind, bind_eq_some_iff] at hc
  obtain ⟨head, -, tail, -, hc⟩ := hc
  split at hc
  · obtain ⟨next, -, hc⟩ := bind_eq_some_iff.1 hc
    split at hc <;> exact ⟨_, (some.inj hc).symm⟩
  · exact ⟨_, (some.inj hc).symm⟩

theorem fraglistComplete_eq (hl : Chunk s.heap s.head s.tail l)
    (hend : ∀ x ∈ l.getLast?, s.heap x = none) (hs : (fragnos macHdr l).Pairwise (· < ·))
    (h2 : 2 ≤ l.length) (hf : 16 ≤ fuel) :
    ∃ b, fraglistComplete macHdr fuel s = some { s with allFragPresent := b } ∧
      (b = true ↔ AllFragPresent macHdr l) := by
  have hlen := length_le_of_sorted hs
  obtain ⟨h, m, rfl⟩ : ∃ h m, l = h :: m := exists_cons_of_length_pos (by omega)
  rw [length_cons] at h2 hlen
  have hm : m ≠ [] := ne_nil_of_length_pos (by omega)
  obtain ⟨t, ht⟩ : ∃ t, (h :: m).getLast? = some t := ⟨_, getLast?_eq_some_getLast (by simp)⟩
  have htm : m.getLast? = some t := by
    obtain ⟨x, m, rfl⟩ := exists_cons_of_ne_nil hm
    simpa using ht
  have hnext : s.heap h = m.head? := by
    obtain ⟨x, m, rfl⟩ := exists_cons_of_ne_nil hm
    exact (linked_cons_cons.1 hl.linked).1
  have hhead : s.head = some h := hl.head_eq
  have htail : s.tail = some t := hl.tail_eq.trans ht
  obtain ⟨next, hscan, hiff⟩ : ∃ next, fraglistScan macHdr s.heap fuel m.head? 0 = some next ∧
      (next = none ↔ fragnos macHdr m = range' (0 + 1) m.length) :=
    fraglistScan_eq hl.linked.tail hm (fun x hx => hend x (by rw [ht, ← htm]; exact hx))
      (by omega) (by omega)
  rw [allFragPresent_iff hs hm ht]
  cases hmore : (macHdr t).moreFrag with
  | true => exact ⟨false, by simp [fraglistComplete, hhead, htail, hmore], by simp⟩
  | false =>
    refine ⟨next.isNone, ?_, ?_⟩
    · simp only [fraglistComplete, hhead, htail, adfNbufNext, hnext, hscan, hmore,
        bind_eq_bind, bind_some, Bool.not_false, if_true]
      cases next <;> rfl
    · rw [isNone_iff_eq_none, hiff]
      simp

end Complete

/-! ### One arrival -/

/-- After the arrivals `pre`, the list holds the first arrivals, in increasing order. -/
structure FraglistInv (macHdr : AdfNbuf → Ieee80211Frame) (pre : List AdfNbuf) (s : Fraglist) :
    Prop where
  chunk : Chunk s.heap s.head s.tail (firstArrivals macHdr pre)
  last : ∀ x ∈ (firstArrivals macHdr pre).getLast?, s.heap x = none
  sorted : (fragnos macHdr (firstArrivals macHdr pre)).Pairwise (· < ·)
  freed : FreedOnce macHdr pre s.freed

section Step
variable {macHdr : AdfNbuf → Ieee80211Frame} {pre : List AdfNbuf} {f : AdfNbuf}
  {s s' : Fraglist} {fuel : ℕ}

theorem FraglistInv.empty (heap : NbufHeap) : FraglistInv macHdr [] (.empty heap) where
  chunk := .nil
  last := nofun
  sorted := .nil
  freed := ⟨nofun, fun pre f post e => by simp at e⟩

theorem FraglistInv.read (h : FraglistInv macHdr pre s) :
    walk s.heap (firstArrivals macHdr pre).length s.head = some (firstArrivals macHdr pre) := by
  rw [h.chunk.head_eq]
  exact walk_eq h.chunk.linked h.last le_rfl

theorem FraglistInv.nodup (h : FraglistInv macHdr pre s) : (firstArrivals macHdr pre).Nodup :=
  List.Nodup.of_map _ h.sorted.nodup

theorem FraglistInv.ok (h : FraglistInv macHdr pre s)
    (hp : s.allFragPresent = true ↔ AllFragPresent macHdr (firstArrivals macHdr pre)) :
    FraglistOk macHdr pre s (firstArrivals macHdr pre) where
  read := h.read
  sorted := h.sorted
  covers _ := mem_fragnos_firstArrivals
  tail_eq := h.chunk.tail_eq
  freed := h.freed.2
  present := hp

theorem FraglistInv.le_tail {t g : AdfNbuf} (h : FraglistInv macHdr pre s)
    (ht : (firstArrivals macHdr pre).getLast? = some t) (hg : g ∈ pre) :
    (macHdr g).fragno ≤ (macHdr t).fragno := by
  obtain ⟨l, hl⟩ := getLast?_eq_some_iff.1 ht
  have hm : (macHdr g).fragno ∈ fragnos macHdr (l ++ [t]) := by
    rw [← hl, mem_fragnos_firstArrivals]
    exact mem_fragnos.2 ⟨g, hg, rfl⟩
  have hs := h.sorted
  rw [hl, fragnos_append, pairwise_append] at hs
  rw [fragnos_append] at hm
  rcases mem_append.1 hm with hm | hm
  · exact Nat.le_of_lt (hs.2.2 _ hm _ (by simp))
  · exact Nat.le_of_eq (by simpa using hm)

theorem insert_first (h : FraglistInv macHdr pre s) (he : firstArrivals macHdr pre = [])
    (hf : f ∉ pre) :
    ∃ s', olRxFraglistInsert macHdr fuel { s with allFragPresent := false } f = some s' ∧
      FraglistInv macHdr (pre ++ [f]) s' ∧
      (s'.allFragPresent = true ↔ AllFragPresent macHdr (firstArrivals macHdr (pre ++ [f]))) := by
  have hhead : s.head = none := by rw [h.chunk.head_eq, he]; rfl
  have hmem : (macHdr f).fragno ∉ fragnos macHdr pre := by
    rw [← mem_fragnos_firstArrivals, he]
    simp
  have hfirst : firstArrivals macHdr (pre ++ [f]) = [f] := by
    rw [firstArrivals_concat, he]
    rfl
  let s₁ : Fraglist := { s with
    head := some f, tail := some f, allFragPresent := false
    heap := adfNbufSetNext s.heap f none }
  refine ⟨s₁, by simp [olRxFraglistInsert, hhead, s₁], ?_, ?_⟩
  · refine ⟨by rw [hfirst]; exact ⟨rfl, rfl, linked_singleton⟩, ?_, ?_, ?_⟩
    · intro x hx
      rw [hfirst] at hx
      obtain rfl : f = x := by simpa using hx
      exact adfNbufSetNext_self ..
    · rw [hfirst]
      exact pairwise_singleton ..
    · exact h.freed.concat hf (if_neg hmem).symm
  · refine ⟨nofun, ?_⟩
    rintro ⟨k, hk, hr, -⟩
    have hlen := congrArg length hr
    rw [hfirst, length_fragnos, length_range, length_singleton] at hlen
    omega

theorem insert_larger (h : FraglistInv macHdr pre s) (he : firstArrivals macHdr pre ≠ [])
    (hf : f ∉ pre) (hlt : ∀ g ∈ pre, (macHdr g).fragno < (macHdr f).fragno)
    (hfuel : 16 ≤ fuel) :
    ∃ s', olRxFraglistInsert macHdr fuel { s with allFragPresent := false } f = some s' ∧
      FraglistInv macHdr (pre ++ [f]) s' ∧
      (s'.allFragPresent = true ↔ AllFragPresent macHdr (firstArrivals macHdr (pre ++ [f]))) := by
  obtain ⟨a, l, hal⟩ := exists_cons_of_ne_nil he
  obtain ⟨t, ht⟩ : ∃ t, (firstArrivals macHdr pre).getLast? = some t :=
    ⟨_, getLast?_eq_some_getLast he⟩
  have htpre : t ∈ pre := mem_of_mem_firstArrivals (mem_of_mem_getLast? ht)
  have hhead : s.head = some a := by rw [h.chunk.head_eq, hal]; rfl
  have htail : s.tail = some t := h.chunk.tail_eq.trans ht
  have hmem : (macHdr f).fragno ∉ fragnos macHdr pre := by
    intro hm
    obtain ⟨g, hg, e⟩ := mem_fragnos.1 hm
    exact Nat.ne_of_lt (hlt g hg) e
  have hfirst : firstArrivals macHdr (pre ++ [f]) = firstArrivals macHdr pre ++ [f] := by
    rw [firstArrivals_concat, if_neg (mem_fragnos_firstArrivals.not.2 hmem)]
  have hfl : f ∉ firstArrivals macHdr pre := fun hm => hf (mem_of_mem_firstArrivals hm)
  have hnd : (firstArrivals macHdr pre ++ [f]).Nodup := nodup_append.2
    ⟨h.nodup, nodup_singleton f, fun x hx y hy e => hfl (by simp_all)⟩
  have hsorted : (fragnos macHdr (firstArrivals macHdr pre ++ [f])).Pairwise (· < ·) := by
    rw [fragnos_append, pairwise_append]
    refine ⟨h.sorted, pairwise_singleton .., ?_⟩
    intro n hn m hm
    obtain ⟨g, hg, rfl⟩ := mem_fragnos.1 (mem_fragnos_firstArrivals.1 hn)
    obtain rfl : m = (macHdr f).fragno := by simpa using hm
    exact hlt g hg
  let s₁ : Fraglist := { s with
    allFragPresent := false, tail := some f
    heap := adfNbufSetNext (adfNbufSetNext s.heap t (some f)) f none }
  have hchunk : Chunk s₁.heap s₁.head s₁.tail (firstArrivals macHdr pre ++ [f]) := by
    have hc : Chunk s.heap s.head (some t) (firstArrivals macHdr pre) := htail ▸ h.chunk
    have hj := hc.join (⟨rfl, rfl, linked_singleton⟩ : Chunk s.heap (some f) (some f) [f])
      hnd (by simp)
    exact ⟨hj.head_eq, hj.tail_eq, hj.linked.update_tail hnd (by simp)⟩
  have hlast : ∀ x ∈ (firstArrivals macHdr pre ++ [f]).getLast?, s₁.heap x = none := by
    intro x hx
    obtain rfl : f = x := by simpa using hx
    exact adfNbufSetNext_self ..
  have hlen : 2 ≤ (firstArrivals macHdr pre ++ [f]).length := by simp [hal]
  obtain ⟨b, hb, hiff⟩ := fraglistComplete_eq hchunk hlast hsorted hlen hfuel
  refine ⟨{ s₁ with allFragPresent := b }, ?_, ⟨?_, ?_, ?_, ?_⟩, ?_⟩
  · simp only [olRxFraglistInsert, hhead, htail, bind_eq_bind, bind_some, gt_iff_lt,
      hlt t htpre, if_true]
    simpa only [s₁, hhead] using hb
  · rw [hfirst]; exact hchunk
  · rw [hfirst]; exact hlast
  · rw [hfirst]; exact hsorted
  · exact h.freed.concat hf (if_neg hmem).symm
  · rw [hfirst]; exact hiff

/-- Where the search for a fragment not larger than the tail ends, on a list that is in order. -/
theorem insert_search (h : FraglistInv macHdr pre s)
    (hge : ∃ g ∈ pre, (macHdr f).fragno ≤ (macHdr g).fragno) (hfuel : 16 ≤ fuel) :
    ∃ t l₁ c l₂, s.tail = some t ∧ ¬ (macHdr f).fragno > (macHdr t).fragno ∧
      firstArrivals macHdr pre = l₁ ++ c :: l₂ ∧
      (∀ x ∈ l₁, (macHdr x).fragno < (macHdr f).fragno) ∧
      (macHdr f).fragno ≤ (macHdr c).fragno ∧
      fraglistSearch macHdr s.heap (macHdr f).fragno fuel s.head =
        some (c, s.heap c, (macHdr c).fragno) := by
  obtain ⟨g, hg, hfg⟩ := hge
  obtain ⟨x, hx, hxg⟩ := mem_fragnos.1 (mem_fragnos_firstArrivals.2 (mem_fragnos.2 ⟨g, hg, rfl⟩))
  rw [← hxg] at hfg
  obtain ⟨l₁, c, l₂, hl, h₁, hc⟩ := exists_first_ge ⟨x, hx, hfg⟩
  obtain ⟨t, ht⟩ : ∃ t, (firstArrivals macHdr pre).getLast? = some t :=
    ⟨_, getLast?_eq_some_getLast (ne_nil_of_mem hx)⟩
  have hlen := length_le_of_sorted h.sorted
  rw [hl, length_append, length_cons] at hlen
  refine ⟨t, l₁, c, l₂, h.chunk.tail_eq.trans ht,
    Nat.not_lt.2 (hfg.trans (hxg ▸ h.le_tail ht hg)), hl, h₁, hc, ?_⟩
  rw [h.chunk.head_eq, hl]
  exact fraglistSearch_eq (hl ▸ h.chunk.linked) h₁ hc (by omega)

theorem FraglistInv.head_isSome (h : FraglistInv macHdr pre s) {g : AdfNbuf} (hg : g ∈ pre) :
    ∃ a, s.head = some a := by
  have hm : (macHdr g).fragno ∈ fragnos macHdr (firstArrivals macHdr pre) :=
    mem_fragnos_firstArrivals.2 (mem_fragnos.2 ⟨g, hg, rfl⟩)
  have hne : firstArrivals macHdr pre ≠ [] := by
    intro e
    simp [e] at hm
  obtain ⟨a, l, hal⟩ := exists_cons_of_ne_nil hne
  exact ⟨a, by rw [h.chunk.head_eq, hal]; rfl⟩

theorem insert_repeat (h : FraglistInv macHdr pre s) (hf : f ∉ pre)
    (hmem : (macHdr f).fragno ∈ fragnos macHdr pre) (hfuel : 16 ≤ fuel) :
    ∃ s', olRxFraglistInsert macHdr fuel { s with allFragPresent := false } f = some s' ∧
      FraglistInv macHdr (pre ++ [f]) s' ∧ s'.allFragPresent = false ∧
      firstArrivals macHdr (pre ++ [f]) = firstArrivals macHdr pre := by
  obtain ⟨g, hg, hgf⟩ := mem_fragnos.1 hmem
  obtain ⟨a, ha⟩ := h.head_isSome hg
  obtain ⟨t, l₁, c, l₂, ht, hnt, hl, h₁, hc, hs⟩ :=
    insert_search h ⟨g, hg, Nat.le_of_eq hgf.symm⟩ hfuel
  have hfirst : firstArrivals macHdr (pre ++ [f]) = firstArrivals macHdr pre := by
    rw [firstArrivals_concat, if_pos (mem_fragnos_firstArrivals.2 hmem)]
  -- the first number not smaller than one the list holds is that number
  have heq : (macHdr f).fragno = (macHdr c).fragno := by
    have hm := mem_fragnos_firstArrivals.2 hmem
    have hsort := h.sorted
    rw [hl, fragnos_append, fragnos_cons] at hm hsort
    rcases mem_append.1 hm with hm | hm
    · obtain ⟨x, hx, e⟩ := mem_fragnos.1 hm
      exact absurd e (Nat.ne_of_lt (h₁ x hx))
    · rcases mem_cons.1 hm with hm | hm
      · exact hm
      · have hlt := rel_of_pairwise_cons (pairwise_append.1 hsort).2.1 hm
        exact absurd hc (Nat.not_le.2 hlt)
  refine ⟨{ s with freed := s.freed ++ [f], allFragPresent := false }, ?_, ?_, rfl, hfirst⟩
  · rw [ha] at hs
    simp only [olRxFraglistInsert, ha, ht, bind_eq_bind, bind_some, if_neg hnt, hs, if_pos heq]
    rfl
  · refine ⟨?_, ?_, ?_, h.freed.concat hf (if_pos hmem).symm⟩
    · rw [hfirst]; exact h.chunk
    · rw [hfirst]; exact h.last
    · rw [hfirst]; exact h.sorted

theorem insert_middle (h : FraglistInv macHdr pre s) (hf : f ∉ pre)
    (hmem : (macHdr f).fragno ∉ fragnos macHdr pre)
    (hge : ∃ g ∈ pre, (macHdr f).fragno ≤ (macHdr g).fragno) (hfuel : 16 ≤ fuel)
    (hs' : olRxFraglistInsert macHdr fuel { s with allFragPresent := false } f = some s') :
    ∃ l₁ c l₂ n, (macHdr f).fragno < (macHdr c).fragno ∧
      walk s'.heap n s'.head = some (l₁ ++ c :: f :: l₂) := by
  obtain ⟨g, hg, hfg⟩ := hge
  obtain ⟨a, ha⟩ := h.head_isSome hg
  obtain ⟨t, l₁, c, l₂, ht, hnt, hl, h₁, hc, hs⟩ := insert_search h ⟨g, hg, hfg⟩ hfuel
  have hcm : c ∈ firstArrivals macHdr pre := by rw [hl]; simp
  have hne : (macHdr f).fragno ≠ (macHdr c).fragno := by
    intro e
    exact hmem (e ▸ mem_fragnos.2 ⟨c, mem_of_mem_firstArrivals hcm, rfl⟩)
  rw [ha] at hs
  simp only [olRxFraglistInsert, ha, ht, bind_eq_bind, bind_some, if_neg hnt, hs, if_neg hne] at hs'
  obtain ⟨b, rfl⟩ := fraglistComplete_frame hs'
  have hfl : f ∉ firstArrivals macHdr pre := fun hm => hf (mem_of_mem_firstArrivals hm)
  have hnd := h.nodup
  have hlink := h.chunk.linked
  have hlast := h.last
  have hhead := h.chunk.head_eq
  rw [hl] at hfl hnd hlink hlast hhead
  have hread : (l₁ ++ c :: l₂).head? = (l₁ ++ c :: f :: l₂).head? := by cases l₁ <;> rfl
  refine ⟨l₁, c, l₂, (l₁ ++ c :: f :: l₂).length, lt_of_le_of_ne hc hne, ?_⟩
  change walk (adfNbufSetNext (adfNbufSetNext s.heap c (some f)) f (s.heap c)) _ (some a) = _
  rw [← ha, hhead, hread]
  refine walk_eq (hlink.insert hnd hfl) ?_ le_rfl
  intro x hx
  rcases eq_nil_or_concat' l₂ with rfl | ⟨l₃, y, rfl⟩
  · obtain rfl : f = x := by simpa using hx
    rw [adfNbufSetNext_self]
    exact hlast c (by simp)
  · rw [← cons_append, ← cons_append, ← append_assoc, getLast?_concat] at hx
    rw [← cons_append, ← append_assoc, getLast?_concat] at hlast
    obtain rfl : y = x := by simpa using hx
    have hyf : y ≠ f := by rintro rfl; exact hfl (by simp)
    have hyc : y ≠ c := by
      rintro rfl
      exact (nodup_cons.1 (nodup_append.1 hnd).2.1).1 (by simp)
    rw [adfNbufSetNext_of_ne hyf, adfNbufSetNext_of_ne hyc]
    exact hlast y rfl

theorem insert_ok (h : FraglistInv macHdr pre s) (hf : f ∉ pre) (ha : ArrivalOk macHdr pre f)
    (hfuel : 16 ≤ fuel) :
    ∃ s', olRxFraglistInsert macHdr fuel { s with allFragPresent := false } f = some s' ∧
      FraglistInv macHdr (pre ++ [f]) s' ∧
      (s'.allFragPresent = true ↔ AllFragPresent macHdr (firstArrivals macHdr (pre ++ [f]))) := by
  rcases ha with hlt | ⟨hmem, hinc⟩
  · by_cases he : firstArrivals macHdr pre = []
    · exact insert_first h he hf
    · exact insert_larger h he hf hlt hfuel
  · obtain ⟨s', hs', hinv, hflag, hfirst⟩ := insert_repeat h hf hmem hfuel
    refine ⟨s', hs', hinv, ?_⟩
    rw [hflag, hfirst]
    exact ⟨nofun, fun hc => absurd hc hinc⟩

theorem insert_not_ok (h : FraglistInv macHdr pre s) (hf : f ∉ pre)
    (ha : ¬ ArrivalOk macHdr pre f) (hfuel : 16 ≤ fuel)
    (hs' : olRxFraglistInsert macHdr fuel { s with allFragPresent := false } f = some s') :
    ¬ ∃ l, FraglistOk macHdr (pre ++ [f]) s' l := by
  rintro ⟨l, hok⟩
  simp only [ArrivalOk, not_or, not_forall, not_and, not_not, Nat.not_lt] at ha
  obtain ⟨⟨g, hg, hfg⟩, hcomp⟩ := ha
  by_cases hmem : (macHdr f).fragno ∈ fragnos macHdr pre
  · obtain ⟨s₁, hs₁, hinv, hflag, hfirst⟩ := insert_repeat h hf hmem hfuel
    obtain rfl : s₁ = s' := some.inj (hs₁.symm.trans hs')
    have hread := hinv.read
    rw [hfirst] at hread
    obtain rfl := walk_unique hok.read hread
    rw [hok.present.2 (hcomp hmem)] at hflag
    exact absurd hflag (by decide)
  · obtain ⟨l₁, c, l₂, n, hlt, hread⟩ := insert_middle h hf hmem ⟨g, hg, hfg⟩ hfuel hs'
    obtain rfl := walk_unique hok.read hread
    have hs := hok.sorted
    rw [fragnos_append, fragnos_cons, fragnos_cons] at hs
    have hcf := rel_of_pairwise_cons (pairwise_append.1 hs).2.1 mem_cons_self
    exact absurd hlt (Nat.not_lt.2 (Nat.le_of_lt hcf))

end Step

/-! ### Any sequence of arrivals -/

section Runs
variable {macHdr : AdfNbuf → Ieee80211Frame} {fuel : ℕ} {heap : NbufHeap}

theorem fraglistInsertAll_concat (s : Fraglist) (pre : List AdfNbuf) (f : AdfNbuf) :
    fraglistInsertAll macHdr fuel s (pre ++ [f]) =
      (fraglistInsertAll macHdr fuel s pre).bind fun s' =>
        olRxFraglistInsert macHdr fuel { s' with allFragPresent := false } f := by
  induction pre generalizing s with
  | nil => simp [fraglistInsertAll]
  | cons g pre ih =>
    simp only [cons_append, fraglistInsertAll, bind_eq_bind, bind_assoc, ih]

/-- The list is as documented after each of the calls for `frags`. -/
def FraglistOkThroughout (macHdr : AdfNbuf → Ieee80211Frame) (fuel : ℕ) (heap : NbufHeap)
    (frags : List AdfNbuf) : Prop :=
  ∀ received, received <+: frags → received ≠ [] →
    ∃ s l, fraglistInsertAll macHdr fuel (.empty heap) received = some s ∧
      FraglistOk macHdr received s l

theorem fraglistOkThroughout_concat {pre : List AdfNbuf} {f : AdfNbuf} :
    FraglistOkThroughout macHdr fuel heap (pre ++ [f]) ↔ FraglistOkThroughout macHdr fuel heap pre ∧
        ∃ s l, fraglistInsertAll macHdr fuel (.empty heap) (pre ++ [f]) = some s ∧
          FraglistOk macHdr (pre ++ [f]) s l := by
  constructor
  · intro h
    exact ⟨fun r hr => h r (hr.trans (prefix_append ..)), h _ prefix_rfl (by simp)⟩
  · rintro ⟨h, hf⟩ r hr hne
    rcases prefix_concat_iff.1 hr with rfl | hr
    · exact hf
    · exact h r hr hne

theorem fraglistInv_insertAll {frags : List AdfNbuf} (hd : frags.Nodup)
    (ha : ArrivalsOk macHdr frags) (hfuel : 16 ≤ fuel) :
    ∃ s, fraglistInsertAll macHdr fuel (.empty heap) frags = some s ∧
      FraglistInv macHdr frags s := by
  induction frags using reverseRecOn with
  | nil => exact ⟨_, rfl, .empty heap⟩
  | append_singleton pre f ih =>
    obtain ⟨hpre, hf⟩ := arrivalsOk_concat.1 ha
    obtain ⟨hdp, -, hdf⟩ := nodup_append.1 hd
    obtain ⟨s, hs, hinv⟩ := ih hdp hpre
    obtain ⟨s', hs', hinv', -⟩ :=
      insert_ok hinv (fun hm => hdf f hm f (by simp) rfl) hf hfuel
    exact ⟨s', by rw [fraglistInsertAll_concat, hs]; exact hs', hinv'⟩

/-- **The fragment list.**  After every call the list is increasing, complete and terminated by
its tail, the repeats are freed and the flag is right, exactly when every arrival is larger than
all before it or repeats one of them while the MSDU is incomplete. -/
theorem fraglist_ok_iff (hfuel : 16 ≤ fuel) {frags : List AdfNbuf} (hd : frags.Nodup) :
    FraglistOkThroughout macHdr fuel heap frags ↔ ArrivalsOk macHdr frags := by
  induction frags using reverseRecOn with
  | nil =>
    refine ⟨fun _ pre f post e => by simp at e, ?_⟩
    intro _ r hr hne
    exact absurd (prefix_nil.1 hr) hne
  | append_singleton pre f ih =>
    obtain ⟨hdp, -, hdf⟩ := List.nodup_append.1 hd
    have hf : f ∉ pre := fun hm => hdf f hm f (by simp) rfl
    rw [fraglistOkThroughout_concat, arrivalsOk_concat, ih hdp, and_congr_right_iff]
    intro hpre
    obtain ⟨s, hs, hinv⟩ := @fraglistInv_insertAll macHdr fuel heap pre hdp hpre hfuel
    constructor
    · rintro ⟨s', l, hs', hok⟩
      rw [fraglistInsertAll_concat, hs] at hs'
      by_contra ha
      exact insert_not_ok hinv hf ha hfuel hs' ⟨l, hok⟩
    · intro ha
      obtain ⟨s', hs', hinv', hflag⟩ := insert_ok hinv hf ha hfuel
      exact ⟨s', _, by rw [fraglistInsertAll_concat, hs]; exact hs', hinv'.ok hflag⟩

end Runs

/-- Buffers 0, 1 and 2 carry fragments 0, 2 and 1 of one MSDU; fragment 2 is the last. -/
def hdr021 : AdfNbuf → Ieee80211Frame
  | 0 => ⟨0x04, 0x0010⟩
  | 1 => ⟨0x00, 0x0012⟩
  | _ => ⟨0x04, 0x0011⟩

theorem fraglist_in_order : FraglistOkThroughout hdr021 16 (fun _ => none) [0, 2, 1] := by
  refine (fraglist_ok_iff le_rfl (by decide)).2 ?_
  change ArrivalsOk hdr021 ((([] ++ [0]) ++ [2]) ++ [1])
  rw [arrivalsOk_concat, arrivalsOk_concat, arrivalsOk_concat]
  refine ⟨⟨⟨fun pre f post e => by simp at e, .inl (by decide)⟩, .inl (by decide)⟩,
    .inl (by decide)⟩

/-- In the order 0, 2, 1 the list ends up as 0, 2, 1, with its tail pointing into the middle. -/
theorem fraglist_out_of_order :
    ¬ FraglistOkThroughout hdr021 16 (fun _ => none) [0, 1, 2] := by
  intro h
  obtain ⟨s, l, hs, hok⟩ := h [0, 1, 2] prefix_rfl (by simp)
  obtain rfl := some.inj hs
  have hread : l = [0, 1, 2] := walk_unique hok.read (m := 3) rfl
  have hsorted := hok.sorted
  subst hread
  exact absurd hsorted (by decide)

end Qcacld.Txrx

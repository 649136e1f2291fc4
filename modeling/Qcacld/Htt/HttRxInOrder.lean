import Qcacld.Adf.Nbuf
import Qcacld.Htt.HttRxAmsdu

/-!
# Htt — HttRxInOrder

`htt_rx_amsdu_rx_in_order_pop_ll`: an in-order indication names its MSDUs by address, and the pop takes each from the hash table, frees those with a MIC error and links the others.  An address that is not in the table ends the call.

`in_order_pop_right` says that every buffer it takes is then handed up once or freed once, exactly when the message names a buffer at all and the addresses before the first unknown one, if there is one, were all of MIC errors.
-/

namespace Qcacld.Htt
open Qcacld.Adf Qcacld.Support Function List Option Nat

/-! ### The message -/

/-- What `htt_rx_in_ord_paddr_ind_msdu_t` says of an MSDU. -/
structure InOrderMsdu where
  paddr : Nat
  msduLen : Nat
  fwDesc : Nat

/-- `HTT_RX_IN_ORD_PADDR_IND_OFFLOAD_GET` -/
def offloadInd (word : Nat → Nat) : Bool := (word 0 &&& 0x00002000) >>> 13 ≠ 0

/-- `HTT_RX_IN_ORD_PADDR_IND_MSDU_CNT_GET` -/
def msduCnt (word : Nat → Nat) : Nat := (word 1 &&& 0xffff0000) >>> 16

/-- The `k`-th MSDU of the message, behind a header of two words. -/
def inOrderMsdu (word : Nat → Nat) (k : Nat) : InOrderMsdu where
  paddr := word (2 + 2 * k) &&& 0xffffffff
  msduLen := word (3 + 2 * k) &&& 0x0000ffff
  fwDesc := (word (3 + 2 * k) &&& 0x00ff0000) >>> 16

/-- `FW_RX_DESC_MIC_ERR_M` is set. -/
def micErr (word : Nat → Nat) (k : Nat) : Bool := (inOrderMsdu word k).fwDesc &&& 0x4 ≠ 0

/-! ### The pop -/

structure InOrderState where
  ring : HttRxRing
  heap : NbufHeap
  pktlen : AdfNbuf → Nat
  /-- the buffers `htt_rx_desc_frame_free` was called on -/
  freed : List AdfNbuf
  headMsdu : Option AdfNbuf
  prev : Option AdfNbuf
  /-- Ghost: what was taken out of the hash table, in order. -/
  popped : List AdfNbuf

open InOrderState

structure InOrderOut where
  state : InOrderState
  /-- `tail_msdu`, if it was written -/
  tailMsdu : Option (Option AdfNbuf)
  /-- the value returned -/
  status : Bool

/-- The hash table is asked for an address, and the counts follow. -/
def inOrderTake (ring : HttRxRing) (paddr : Nat) : Option AdfNbuf × HttRxRing :=
  httRxHashListLookup { ring with
    fillCnt := ring.fillCnt - 1
    posted := ring.posted.eraseP (·.paddr = paddr) } paddr

def InOrderState.pop (cfg : HttRxCfg) (s : InOrderState) (paddr : Nat) :
    Option (Option AdfNbuf × InOrderState) :=
  (httRxInOrderNetbufPop cfg s.ring paddr).map fun (netbuf, ring) =>
    (netbuf, { s with ring := ring, popped := s.popped ++ netbuf.toList })

/-- The buffer is set to its full length for the unmap, and then to its MSDU. -/
def InOrderState.setLen (s : InOrderState) (msdu : AdfNbuf) (msduLen : Nat) : InOrderState :=
  { s with
    pktlen := update s.pktlen msdu
      (adfNbufTrimTail (httRxBufSize - httRxStdDescReservation) (trimSize msduLen)) }

def InOrderState.free (s : InOrderState) (msdu : AdfNbuf) : InOrderState :=
  { s with freed := s.freed ++ [msdu] }

/-- The last MSDU had a MIC error: the one before it, if any, is the tail. -/
def InOrderState.micErrLast (s : InOrderState) : InOrderOut :=
  match s.prev with
  | none => ⟨{ s with headMsdu := none }, some none, false⟩
  | some prev => ⟨{ s with heap := adfNbufSetNext s.heap prev none }, some (some prev), true⟩

/-- An MSDU that had a MIC error is passed over. -/
def InOrderState.passOver (s : InOrderState) (next : AdfNbuf) : InOrderState :=
  match s.prev with
  | none => { s with headMsdu := some next }
  | some prev => { s with heap := adfNbufSetNext s.heap prev (some next) }

/-- `next` follows `msdu`. -/
def InOrderState.follow (s : InOrderState) (msdu next : AdfNbuf) : InOrderState :=
  { s with heap := adfNbufSetNext s.heap msdu (some next), prev := some msdu }

/-- The loop, at the `k`-th MSDU of the message. -/
def inOrderLoop (cfg : HttRxCfg) (word : Nat → Nat) :
    Nat → Nat → AdfNbuf → InOrderState → Option InOrderOut
  | 0, _, _, s => some ⟨s, none, true⟩
  | msduCount + 1, k, msdu, s =>
    let s := s.setLen msdu (inOrderMsdu word k).msduLen
    if micErr word k then
      let s := s.free msdu
      if msduCount = 0 then some s.micErrLast
      else
        match s.pop cfg (inOrderMsdu word (k + 1)).paddr with
        | none => none
        | some (none, s) => some ⟨s, some none, false⟩
        | some (some next, s) => inOrderLoop cfg word msduCount (k + 1) next (s.passOver next)
    else if msduCount ≠ 0 then
      match s.pop cfg (inOrderMsdu word (k + 1)).paddr with
      | none => none
      | some (none, s) => some ⟨s, some none, false⟩
      | some (some next, s) => inOrderLoop cfg word msduCount (k + 1) next (s.follow msdu next)
    else some ⟨{ s with heap := adfNbufSetNext s.heap msdu none }, some (some msdu), true⟩

/-- `htt_rx_amsdu_rx_in_order_pop_ll`.  An offload indication is another handler's: nothing is popped for the caller. -/
def httRxAmsduRxInOrderPopLl (cfg : HttRxCfg) (word : Nat → Nat) (ring : HttRxRing)
    (heap : NbufHeap) (pktlen : AdfNbuf → Nat) : Option InOrderOut :=
  let s : InOrderState := ⟨ring, heap, pktlen, [], none, none, []⟩
  if offloadInd word then some ⟨s, some none, false⟩
  else
    match s.pop cfg (inOrderMsdu word 0).paddr with
    | none => none
    | some (none, s) => some ⟨s, some none, false⟩
    | some (some msdu, s) =>
      inOrderLoop cfg word (msduCnt word) 0 msdu { s with headMsdu := some msdu }

/-! ### What must hold -/

def InTable (ring : HttRxRing) (netbuf : AdfNbuf) : Prop :=
  ∃ i, ∃ entry ∈ ring.hashTable i, entry.netbuf = netbuf

structure NetbufsOnce (ring : HttRxRing) : Prop where
  bucket : ∀ i, ((ring.hashTable i).map (·.netbuf)).Nodup
  buckets : ∀ i j, i ≠ j → ∀ x ∈ ring.hashTable i, ∀ y ∈ ring.hashTable j, x.netbuf ≠ y.netbuf

/-- `l` is the list from `head_msdu` to `tail_msdu`, with NULL at its end. -/
structure HandedUp (out : InOrderOut) (l : List AdfNbuf) : Prop where
  some_msdu : l ≠ []
  head : out.state.headMsdu = l.head?
  tail : out.tailMsdu = some l.getLast?
  linked : Linked out.state.heap l
  last : ∀ x ∈ l.getLast?, out.state.heap x = none

/-- What was popped has been handed up, in the order of the message, or freed. -/
def InOrderRight (out : InOrderOut) : Prop :=
  out.state.popped.Nodup ∧ ∃ l, out.state.popped.Perm (l ++ out.state.freed) ∧
    l.Sublist out.state.popped ∧ if out.status then HandedUp out l else l = []

/-- The first of `n` MSDUs, from the `k`-th on, whose address is not in the table by then. -/
def firstMissing (word : Nat → Nat) : Nat → Nat → HttRxRing → Option Nat
  | 0, _, _ => none
  | n + 1, k, ring =>
    let taken := inOrderTake ring (inOrderMsdu word k).paddr
    if taken.1.isNone then some k else firstMissing word n (k + 1) taken.2

/-- The first address of the message that is not in the table by the time it is asked for.  One is asked for in any case. -/
def missingAt (word : Nat → Nat) (ring : HttRxRing) : Option Nat :=
  firstMissing word (max 1 (msduCnt word)) 0 ring

/-- The addresses are all in the table, and there are some, or all before the first that is not are of MIC errors. -/
def InOrderOk (word : Nat → Nat) (ring : HttRxRing) : Prop :=
  (missingAt word ring = none → msduCnt word ≠ 0) ∧
    ∀ k ∈ missingAt word ring, ∀ j < k, micErr word j = true

instance (word : Nat → Nat) (ring : HttRxRing) : Decidable (InOrderOk word ring) :=
  inferInstanceAs (Decidable (_ ∧ ∀ k ∈ missingAt word ring, _))

/-! ### The table -/

variable {cfg : HttRxCfg} {word : Nat → Nat} {ring ring' : HttRxRing} {paddr : ℕ}
  {netbuf msdu next : AdfNbuf} {r : Option AdfNbuf} {s s' : InOrderState} {l : List AdfNbuf}

theorem inOrderTake_some (h : inOrderTake ring paddr = (some netbuf, ring')) :
    ∃ before entry after, entry.netbuf = netbuf ∧
      ring.hashTable (rxHashFunction paddr) = before ++ entry :: after ∧
      ring'.hashTable = update ring.hashTable (rxHashFunction paddr) (before ++ after) := by
  unfold inOrderTake httRxHashListLookup at h
  dsimp only at h
  cases hfind : (ring.hashTable (rxHashFunction paddr)).find? (·.paddr = paddr) with
  | none => rw [hfind] at h; cases h
  | some entry =>
    rw [hfind] at h
    obtain ⟨hnetbuf, rfl⟩ := Prod.mk.inj h
    obtain ⟨before, after, hsplit, herase⟩ := eraseP_of_find? hfind
    refine ⟨before, entry, after, some.inj hnetbuf, hsplit, ?_⟩
    rw [herase]

theorem bucket_subset {table : ℕ → List HttRxHashEntry} {before after : List HttRxHashEntry}
    {entry x : HttRxHashEntry} {i j : ℕ} (hsplit : table i = before ++ entry :: after)
    (hx : x ∈ update table i (before ++ after) j) : x ∈ table j := by
  by_cases hj : j = i
  · subst hj
    rw [update_self, mem_append] at hx
    rw [hsplit, mem_append, mem_cons]
    exact hx.imp_right Or.inr
  · rwa [update_of_ne hj] at hx

/-- What is taken was in the table, and is not any more. -/
structure Taken (ring ring' : HttRxRing) (netbuf : AdfNbuf) : Prop where
  was_in : InTable ring netbuf
  is_out : ¬ InTable ring' netbuf
  others : ∀ x, InTable ring' x → InTable ring x
  once : NetbufsOnce ring'

theorem NetbufsOnce.take (h : NetbufsOnce ring)
    (htake : inOrderTake ring paddr = (some netbuf, ring')) : Taken ring ring' netbuf := by
  obtain ⟨before, entry, after, rfl, hsplit, htable⟩ := inOrderTake_some htake
  have hentry : entry ∈ ring.hashTable (rxHashFunction paddr) := by simp [hsplit]
  have hnodup := h.bucket (rxHashFunction paddr)
  rw [hsplit, map_append, map_cons] at hnodup
  have hmoved := nodup_middle.1 hnodup
  rw [nodup_cons, ← map_append] at hmoved
  refine ⟨⟨_, entry, hentry, rfl⟩, ?_, ?_, ?_, ?_⟩
  · rintro ⟨j, x, hx, hnetbuf⟩
    by_cases hj : j = rxHashFunction paddr
    · subst hj
      rw [htable, update_self] at hx
      exact hmoved.1 (mem_map.2 ⟨x, hx, hnetbuf⟩)
    · rw [htable] at hx
      exact h.buckets _ _ hj x (bucket_subset hsplit hx) entry hentry hnetbuf
  · rintro x ⟨j, y, hy, rfl⟩
    rw [htable] at hy
    exact ⟨j, y, bucket_subset hsplit hy, rfl⟩
  · intro j
    by_cases hj : j = rxHashFunction paddr
    · subst hj
      rw [htable, update_self]
      exact hmoved.2
    · rw [htable, update_of_ne hj]
      exact h.bucket j
  · intro i j hij x hx y hy
    rw [htable] at hx hy
    exact h.buckets i j hij x (bucket_subset hsplit hx) y (bucket_subset hsplit hy)

theorem pop_eq (h : s.pop cfg paddr = some (r, s')) : inOrderTake s.ring paddr = (r, s'.ring) ∧
      s' = { s with ring := s'.ring, popped := s.popped ++ r.toList } := by
  obtain ⟨⟨netbuf, ring⟩, hpop, heq⟩ := map_eq_some_iff.1 h
  obtain ⟨rfl, rfl⟩ := Prod.mk.inj heq
  refine ⟨?_, rfl⟩
  unfold httRxInOrderNetbufPop at hpop
  dsimp only at hpop
  split at hpop
  · cases hpop
  · exact some.inj hpop

theorem pop_none (h : s.pop cfg paddr = some (none, s')) :
    s'.popped = s.popped ∧ s'.freed = s.freed := by
  obtain ⟨-, hs'⟩ := pop_eq h
  rw [hs']
  exact ⟨append_nil _, rfl⟩

theorem passOver_ring (s : InOrderState) (next : AdfNbuf) : (s.passOver next).ring = s.ring := by
  unfold passOver
  split <;> rfl

/-! ### What the loop keeps -/

/-- The loop is at `msdu`, behind the list `l` of those without an error. -/
structure InOrderAt (s : InOrderState) (msdu : AdfNbuf) (l : List AdfNbuf) : Prop where
  taken : s.popped.Perm (l ++ msdu :: s.freed)
  nodup : s.popped.Nodup
  order : (l ++ [msdu]).Sublist s.popped
  linked : Linked s.heap (l ++ [msdu])
  head : s.headMsdu = (l ++ [msdu]).head?
  prev : s.prev = l.getLast?
  once : NetbufsOnce s.ring
  apart : ∀ x ∈ s.popped, ¬ InTable s.ring x

theorem InOrderAt.setLen (h : InOrderAt s msdu l) (msduLen : ℕ) :
    InOrderAt (s.setLen msdu msduLen) msdu l :=
  ⟨h.taken, h.nodup, h.order, h.linked, h.head, h.prev, h.once, h.apart⟩

theorem InOrderAt.nodup_list (h : InOrderAt s msdu l) : (l ++ [msdu]).Nodup :=
  h.nodup.sublist h.order

theorem pop_fresh (hnodup : s.popped.Nodup) (honce : NetbufsOnce s.ring)
    (hapart : ∀ x ∈ s.popped, ¬ InTable s.ring x)
    (hpop : s.pop cfg paddr = some (some next, s')) :
    (s.popped ++ [next]).Nodup ∧ NetbufsOnce s'.ring ∧
      ∀ x ∈ s.popped ++ [next], ¬ InTable s'.ring x := by
  have htaken := honce.take (pop_eq hpop).1
  have hnew : next ∉ s.popped := fun hold => hapart next hold htaken.was_in
  refine ⟨?_, htaken.once, fun x hx => ?_⟩
  · rw [nodup_append]
    refine ⟨hnodup, nodup_singleton next, fun x hx y hy => ?_⟩
    rintro rfl
    exact hnew (mem_singleton.1 hy ▸ hx)
  · rcases mem_append.1 hx with hx | hx
    · exact fun hin => hapart x hx (htaken.others x hin)
    · rw [mem_singleton.1 hx]
      exact htaken.is_out

theorem InOrderAt.follow (h : InOrderAt s msdu l) (hpop : s.pop cfg paddr = some (some next, s')) :
    InOrderAt (s'.follow msdu next) next (l ++ [msdu]) := by
  obtain ⟨hnodup, honce, hapart⟩ := pop_fresh h.nodup h.once h.apart hpop
  rw [(pop_eq hpop).2]
  have hlist : (l ++ [msdu] ++ [next]).Nodup := hnodup.sublist (h.order.append_right [next])
  refine ⟨?_, hnodup, h.order.append_right [next], ?_, ?_, ?_, honce, hapart⟩
  · have hperm := h.taken.append_right [next]
    refine hperm.trans ?_
    simp only [append_assoc, cons_append, nil_append]
    exact ((perm_append_singleton next s.freed).cons msdu).append_left l
  · exact h.linked.join linked_singleton hlist (getLast?_concat ..)
  · rw [head?_append_of_ne_nil _ (by simp)]
    exact h.head
  · exact (getLast?_concat ..).symm

theorem InOrderAt.passOver (h : InOrderAt s msdu l)
    (hpop : (s.free msdu).pop cfg paddr = some (some next, s')) :
    InOrderAt (s'.passOver next) next l := by
  obtain ⟨hnodup, honce, hapart⟩ := pop_fresh (s := s.free msdu) h.nodup h.once h.apart hpop
  have horder : (l ++ [next]).Sublist (s.popped ++ [next]) :=
    ((sublist_append_left l [msdu]).trans h.order).append_right [next]
  have hlist : (l ++ [next]).Nodup := hnodup.sublist horder
  have hfreed : (s.popped ++ [next]).Perm (l ++ next :: (s.freed ++ [msdu])) := by
    refine (h.taken.append_right [next]).trans ?_
    rw [append_assoc]
    refine List.Perm.append_left l ?_
    rw [cons_append]
    exact (perm_append_singleton next (msdu :: s.freed)).trans
      ((perm_append_singleton msdu s.freed).symm.cons next)
  rw [(pop_eq hpop).2]
  unfold InOrderState.passOver
  have hprev : (s.free msdu).prev = l.getLast? := h.prev
  cases hlast : l.getLast? with
  | none =>
    -- nothing is linked yet, and the head is the next buffer
    obtain rfl := getLast?_eq_none_iff.1 hlast
    rw [hprev, hlast]
    exact ⟨hfreed, hnodup, horder, linked_singleton, rfl, rfl, honce, hapart⟩
  | some prev =>
    rw [hprev, hlast]
    have hl : l ≠ [] := by rintro rfl; cases hlast
    have hlinked : Linked (adfNbufSetNext s.heap prev (some next)) (l ++ [next]) :=
      (linked_append.1 h.linked).1.join linked_singleton hlist hlast
    refine ⟨hfreed, hnodup, horder, hlinked, ?_, ?_, honce, hapart⟩
    · rw [head?_append_of_ne_nil _ hl]
      have hhead := h.head
      rwa [head?_append_of_ne_nil _ hl] at hhead
    · exact hlast.symm

/-! ### How it ends -/

theorem handedUp_of_linked {tail : AdfNbuf} (hlinked : Linked s.heap l) (hnodup : l.Nodup)
    (hhead : s.headMsdu = l.head?) (hlast : l.getLast? = some tail) :
    HandedUp ⟨{ s with heap := adfNbufSetNext s.heap tail none }, some (some tail), true⟩ l := by
  refine ⟨?_, hhead, congrArg some hlast.symm, hlinked.update_tail hnodup hlast, ?_⟩
  · rintro rfl
    cases hlast
  · intro x hx
    rw [hlast, mem_some_iff] at hx
    rw [← hx]
    exact adfNbufSetNext_self ..

theorem InOrderAt.last (h : InOrderAt s msdu l) :
    InOrderRight ⟨{ s with heap := adfNbufSetNext s.heap msdu none }, some (some msdu), true⟩ := by
  refine ⟨h.nodup, l ++ [msdu], ?_, h.order, ?_⟩
  · rw [append_assoc]
    exact h.taken
  · exact handedUp_of_linked h.linked h.nodup_list h.head (getLast?_concat ..)

theorem InOrderAt.micErrLast (h : InOrderAt s msdu l) : InOrderRight (s.free msdu).micErrLast := by
  have hfreed : s.popped.Perm (l ++ (s.freed ++ [msdu])) :=
    h.taken.trans (List.Perm.append_left l (perm_append_singleton msdu s.freed).symm)
  have horder : l.Sublist s.popped := (sublist_append_left l [msdu]).trans h.order
  have hprev : (s.free msdu).prev = l.getLast? := h.prev
  unfold InOrderState.micErrLast
  rw [hprev]
  cases hlast : l.getLast? with
  | none =>
    obtain rfl := getLast?_eq_none_iff.1 hlast
    exact ⟨h.nodup, [], hfreed, horder, rfl⟩
  | some prev =>
    have hl : l ≠ [] := by rintro rfl; cases hlast
    have hhead := h.head
    rw [head?_append_of_ne_nil _ hl] at hhead
    refine ⟨h.nodup, l, hfreed, horder, ?_⟩
    rw [if_pos rfl]
    have hup := handedUp_of_linked (s := s.free msdu) (linked_append.1 h.linked).1
      (h.nodup.sublist horder) hhead hlast
    rwa [hprev, hlast] at hup

theorem right_of_missing_iff {tailMsdu : Option (Option AdfNbuf)}
    (hnodup : s.popped.Nodup) (hperm : s.popped.Perm (l ++ s.freed)) :
    InOrderRight ⟨s, tailMsdu, false⟩ ↔ l = [] := by
  constructor
  · rintro ⟨-, none_left, hperm', -, hnil⟩
    obtain rfl : none_left = [] := hnil
    have hlen : (l ++ s.freed).length = s.freed.length := (hperm.symm.trans hperm').length_eq
    rw [length_append] at hlen
    exact length_eq_zero_iff.1 (by omega)
  · rintro rfl
    exact ⟨hnodup, [], hperm, nil_sublist _, rfl⟩

theorem firstMissing_ge {n k j : ℕ} (h : firstMissing word n k ring = some j) : k ≤ j := by
  induction n generalizing k ring with
  | zero => cases h
  | succ n ih =>
    rw [firstMissing] at h
    split at h
    · exact (some.inj h).le
    · exact le_of_succ_le (ih h)

/-- What the loop makes of the MSDUs from the `k`-th on. -/
def LoopRight (word : Nat → Nat) (n k : Nat) (ring : HttRxRing) (l : List AdfNbuf)
    (out : InOrderOut) : Prop :=
  match firstMissing word n (k + 1) ring with
  | none => InOrderRight out
  | some j => InOrderRight out ↔ l = [] ∧ ∀ i, k ≤ i → i < j → micErr word i = true

theorem LoopRight.step {n k : ℕ} {out : InOrderOut} {l₁ : List AdfNbuf}
    (htake : inOrderTake ring (inOrderMsdu word (k + 1)).paddr = (some next, ring'))
    (hlist : l₁ = [] ↔ l = [] ∧ micErr word k = true)
    (h : LoopRight word n (k + 1) ring' l₁ out) : LoopRight word (n + 1) k ring l out := by
  unfold LoopRight at *
  rw [firstMissing, htake]
  dsimp only [isNone_some]
  rw [if_neg Bool.false_ne_true]
  cases hmissing : firstMissing word n (k + 1 + 1) ring' with
  | none =>
    rw [hmissing] at h
    exact h
  | some j =>
    rw [hmissing] at h
    dsimp only at h ⊢
    have hj : k + 1 < j := firstMissing_ge hmissing
    rw [h, hlist]
    constructor
    · rintro ⟨⟨hl, hmic⟩, hrest⟩
      refine ⟨hl, fun i hki hij => ?_⟩
      rcases hki.eq_or_lt with rfl | hlt
      · exact hmic
      · exact hrest i hlt hij
    · rintro ⟨hl, hall⟩
      exact ⟨⟨hl, hall k (le_refl k) (lt_of_succ_lt hj)⟩,
        fun i hki hij => hall i (le_of_succ_le hki) hij⟩

theorem LoopRight.missing {n k : ℕ} {out : InOrderOut} {l₁ : List AdfNbuf}
    (htake : inOrderTake ring (inOrderMsdu word (k + 1)).paddr = (none, ring'))
    (hlist : l₁ = [] ↔ l = [] ∧ micErr word k = true) (h : InOrderRight out ↔ l₁ = []) :
    LoopRight word (n + 1) k ring l out := by
  unfold LoopRight
  rw [firstMissing, htake]
  dsimp only [isNone_none]
  rw [if_pos rfl, h, hlist]
  constructor
  · rintro ⟨hl, hmic⟩
    exact ⟨hl, fun i hki hij => (le_antisymm hki (le_of_lt_succ hij)) ▸ hmic⟩
  · rintro ⟨hl, hall⟩
    exact ⟨hl, hall k (le_refl k) (lt_succ_self k)⟩

/-- **The loop.** -/
theorem inOrderLoop_right {n k : ℕ} {out : InOrderOut} (hat : InOrderAt s msdu l)
    (h : inOrderLoop cfg word (n + 1) k msdu s = some out) :
    LoopRight word n k s.ring l out := by
  induction n generalizing k msdu s l with
  | zero =>
    have hlen := hat.setLen (inOrderMsdu word k).msduLen
    rw [inOrderLoop] at h
    split at h
    · rw [if_pos rfl] at h
      exact some.inj h ▸ hlen.micErrLast
    · rw [if_neg (not_not.2 rfl)] at h
      exact some.inj h ▸ hlen.last
  | succ n ih =>
    have hlen := hat.setLen (inOrderMsdu word k).msduLen
    rw [inOrderLoop] at h
    split at h
    · rename_i hmic
      rw [if_neg (succ_ne_zero n)] at h
      have hlist : l = [] ↔ l = [] ∧ micErr word k = true := by simp [hmic]
      split at h
      · cases h
      · rename_i s' hpop
        obtain ⟨hpopped, hfreed⟩ := pop_none hpop
        refine .missing (pop_eq hpop).1 hlist (some.inj h ▸ right_of_missing_iff ?_ ?_)
        · rw [hpopped]
          exact hlen.nodup
        · rw [hpopped, hfreed]
          exact hlen.taken.trans (List.Perm.append_left l (perm_append_singleton msdu s.freed).symm)
      · rename_i next s' hpop
        have hrest := ih (hlen.passOver hpop) h
        rw [passOver_ring] at hrest
        exact .step (pop_eq hpop).1 hlist hrest
    · rename_i hmic
      rw [if_pos (succ_ne_zero n)] at h
      have hlist : l ++ [msdu] = [] ↔ l = [] ∧ micErr word k = true := by simp [hmic]
      split at h
      · cases h
      · rename_i s' hpop
        obtain ⟨hpopped, hfreed⟩ := pop_none hpop
        refine .missing (pop_eq hpop).1 hlist (some.inj h ▸ right_of_missing_iff ?_ ?_)
        · rw [hpopped]
          exact hlen.nodup
        · rw [hpopped, hfreed, append_assoc]
          exact hlen.taken
      · rename_i next s' hpop
        have hrest : LoopRight word n (k + 1) (s'.follow msdu next).ring (l ++ [msdu]) out :=
          ih (hlen.follow hpop) h
        exact .step (pop_eq hpop).1 hlist hrest

theorem pop_isSome (hbug : cfg.bugHalts = false) (s : InOrderState) (paddr : ℕ) :
    ∃ r s', s.pop cfg paddr = some (r, s') := by
  unfold pop httRxInOrderNetbufPop
  rw [hbug]
  simp

theorem inOrderLoop_isSome (hbug : cfg.bugHalts = false) (n k : ℕ) (msdu : AdfNbuf)
    (s : InOrderState) : (inOrderLoop cfg word n k msdu s).isSome := by
  induction n generalizing k msdu s with
  | zero => rfl
  | succ n ih =>
    rw [inOrderLoop]
    dsimp only
    split
    · split
      · rfl
      · split
        · rename_i hpop
          obtain ⟨r, s', heq⟩ := pop_isSome hbug ((s.setLen msdu _).free msdu) _
          cases hpop.symm.trans heq
        · rfl
        · exact ih ..
    · split
      · split
        · rename_i hpop
          obtain ⟨r, s', heq⟩ := pop_isSome hbug (s.setLen msdu _) _
          cases hpop.symm.trans heq
        · rfl
        · exact ih ..
      · rfl

theorem missingAt_eq (word : ℕ → ℕ) (ring : HttRxRing) : missingAt word ring =
    if (inOrderTake ring (inOrderMsdu word 0).paddr).1.isNone then some 0
    else firstMissing word (msduCnt word - 1) 1
      (inOrderTake ring (inOrderMsdu word 0).paddr).2 := by
  have hmax : max 1 (msduCnt word) = msduCnt word - 1 + 1 := by omega
  rw [missingAt, hmax, firstMissing]

theorem inOrderAt_first {cfg : HttRxCfg} {ring : HttRxRing} {heap : NbufHeap}
    {pktlen : AdfNbuf → ℕ} {paddr : ℕ} {msdu : AdfNbuf} {s : InOrderState}
    (honce : NetbufsOnce ring)
    (hpop : InOrderState.pop cfg ⟨ring, heap, pktlen, [], none, none, []⟩ paddr =
      some (some msdu, s)) : InOrderAt { s with headMsdu := some msdu } msdu [] := by
  obtain ⟨htake, hs⟩ := pop_eq hpop
  have htaken := honce.take htake
  rw [hs]
  refine ⟨.refl _, nodup_singleton msdu, .refl _, linked_singleton, rfl, rfl, htaken.once, ?_⟩
  intro x hx
  rw [mem_singleton.1 hx]
  exact htaken.is_out

/-- **Every buffer is handed up or freed exactly when no good one is in front of an unknown address.** -/
theorem in_order_pop_right (cfg : HttRxCfg) (word : Nat → Nat) (ring : HttRxRing)
    (heap : NbufHeap) (pktlen : AdfNbuf → Nat) (honce : NetbufsOnce ring) :
    (∀ out, httRxAmsduRxInOrderPopLl cfg word ring heap pktlen = some out →
      (InOrderRight out ↔ offloadInd word = true ∨ InOrderOk word ring)) ∧
    (cfg.bugHalts = false → (httRxAmsduRxInOrderPopLl cfg word ring heap pktlen).isSome) := by
  unfold httRxAmsduRxInOrderPopLl
  by_cases hoffload : offloadInd word = true
  · rw [if_pos hoffload]
    refine ⟨fun out h => ?_, fun _ => rfl⟩
    obtain rfl := some.inj h
    simp only [hoffload, true_or, iff_true]
    exact ⟨nodup_nil, [], .refl _, nil_sublist _, rfl⟩
  rw [if_neg hoffload]
  refine ⟨fun out h => ?_, fun hbug => ?_⟩
  · rw [or_iff_right hoffload, InOrderOk, missingAt_eq]
    split at h
    · cases h
    · rename_i s hpop
      obtain ⟨htake, hs⟩ := pop_eq hpop
      rw [htake]
      obtain rfl := some.inj h
      have hright : InOrderRight ⟨s, some none, false⟩ := by
        rw [hs]
        exact ⟨nodup_nil, [], .refl _, nil_sublist _, rfl⟩
      simpa using hright
    · rename_i msdu s hpop
      obtain ⟨htake, -⟩ := pop_eq hpop
      rw [htake]
      dsimp only [isNone_some]
      rw [if_neg Bool.false_ne_true]
      cases hcnt : msduCnt word with
      | zero =>
        -- a buffer is popped, and no tail is written for it
        rw [hcnt] at h
        obtain rfl := some.inj h
        simp only [Nat.zero_sub, firstMissing, ne_eq, not_true_eq_false, imp_false, false_and,
          iff_false]
        rintro ⟨-, l, -, -, hup⟩
        exact nomatch (show HandedUp _ l from hup).tail
      | succ n =>
        rw [hcnt] at h
        have hloop := inOrderLoop_right (inOrderAt_first honce hpop) h
        unfold LoopRight at hloop
        rw [Nat.add_sub_cancel]
        cases hmissing : firstMissing word n 1 s.ring with
        | none =>
          rw [hmissing] at hloop
          simpa using hloop
        | some j =>
          rw [hmissing] at hloop
          simpa using hloop
  · obtain ⟨r, s', hpop⟩ := pop_isSome hbug ⟨ring, heap, pktlen, [], none, none, []⟩ (inOrderMsdu word 0).paddr
    rw [hpop]
    cases r with
    | none => rfl
    | some msdu => exact inOrderLoop_isSome hbug ..

/-! ### A good buffer before an unknown address -/

/-- A message of two MSDUs, at the addresses 16 and 32. -/
def twoMsdus : Nat → Nat
  | 1 => 0x00020000
  | 2 => 16
  | 3 => 100
  | 4 => 32
  | 5 => 100
  | _ => 0

/-- A ring that has posted a buffer for each of the addresses. -/
def postedAt (entries : List HttRxHashEntry) : HttRxRing :=
  { HttRxRing.attached with
    fillCnt := entries.length
    hashTable := fun i => entries.filter (rxHashFunction ·.paddr = i) }

theorem netbufsOnce_postedAt {entries : List HttRxHashEntry}
    (h : (entries.map (·.netbuf)).Nodup) : NetbufsOnce (postedAt entries) := by
  refine ⟨fun i => h.sublist (filter_sublist.map _), ?_⟩
  intro i j hij x hx y hy hnetbuf
  obtain ⟨hx, hi⟩ := mem_filter.1 hx
  obtain ⟨hy, hj⟩ := mem_filter.1 hy
  obtain rfl := inj_on_of_nodup_map h hx hy hnetbuf
  exact hij ((of_decide_eq_true hi).symm.trans (of_decide_eq_true hj))

/-- The first buffer is taken from the table and linked, and the call returns nothing as the second is not there. -/
theorem unknownSecond_notRight :
    ¬ ∀ (cfg : HttRxCfg) (word : Nat → Nat) (ring : HttRxRing) (heap : NbufHeap)
      (pktlen : AdfNbuf → Nat), NetbufsOnce ring → ∀ out,
      httRxAmsduRxInOrderPopLl cfg word ring heap pktlen = some out → InOrderRight out := by
  intro h
  have hrun : (httRxAmsduRxInOrderPopLl ⟨800, true, false⟩ twoMsdus (postedAt [⟨16, 7⟩])
      (fun _ => none) (fun _ => 0)).map (fun out => (out.state.popped, out.state.freed, out.status)) =
      some ([7], [], false) := by decide +kernel
  obtain ⟨out, hout, hproj⟩ := map_eq_some_iff.1 hrun
  obtain ⟨hpopped, hrest⟩ := Prod.mk.inj hproj
  obtain ⟨hfreed, hstatus⟩ := Prod.mk.inj hrest
  obtain ⟨-, l, hperm, -, hl⟩ := h _ _ _ _ _ (netbufsOnce_postedAt (by decide)) out hout
  rw [hstatus, if_neg Bool.false_ne_true] at hl
  rw [hpopped, hfreed, hl] at hperm
  exact absurd hperm.length_eq (by decide)

theorem in_order_pop_right_bothKnown :
    ∃ out, httRxAmsduRxInOrderPopLl ⟨800, true, false⟩ twoMsdus (postedAt [⟨16, 7⟩, ⟨32, 9⟩])
      (fun _ => none) (fun _ => 0) = some out ∧ InOrderRight out := by
  have hright := in_order_pop_right ⟨800, true, false⟩ twoMsdus (postedAt [⟨16, 7⟩, ⟨32, 9⟩])
    (fun _ => none) (fun _ => 0) (netbufsOnce_postedAt (by decide))
  obtain ⟨out, hout⟩ := isSome_iff_exists.1 (hright.2 rfl)
  exact ⟨out, hout, (hright.1 out hout).2 (.inr (by decide +kernel))⟩

end Qcacld.Htt

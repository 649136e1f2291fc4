import Mathlib.Algebra.GroupWithZero.Nat
import Qcacld.Support.Buffer
import Qcacld.Support.Threaded

/-!
# Htt — HttRxRestitch

`htt_rx_restitch_mpdu_from_msdus`, with which monitor mode makes one MPDU of the MSDUs of a list again.  In raw mode the MSDUs are the MPDU's bytes; in decap mode an 802.11 header goes in front of them, in a buffer of its own, and the LLC header of each behind the MSDU before it.  The buffers behind the first are its ext list, which is threaded through the same pointers as the list of the MSDUs.

`restitch_iff` says for which lists the MPDU is put together right, or given up with all of its buffers freed.
-/

namespace Qcacld.Htt.Restitch
open Qcacld.Support Function Option Nat
open List (append_assoc append_nil flatMap_append flatMap_singleton forall_mem_cons length_append
  length_cons length_drop length_map length_nil map_append map_cons map_singleton mem_cons
  mem_cons_of_mem mem_cons_self mem_map nil_append not_mem_nil range' range'_succ range_eq_range'
  range_succ sum_cons)

def httFcsLen : Nat := 4
def decapHdrPullBytes : Nat := 14

/-- The buffers: the MSDUs, their clones, and the one that is allocated for the header. -/
inductive Nbuf where
  | orig (i : Nat)
  | clone (i : Nat)
  | mpdu
deriving DecidableEq

open Nbuf

/-- An MSDU: its bytes, the header status that is before them, the room behind them, and whether a clone is made and more room is found. -/
structure Msdu where
  bytes : List UInt8
  rxHdrStatus : Vector UInt8 64
  tailroom : Nat
  cloneOk : Bool
  expandOk : Bool

open Msdu

/-- A call, for the MSDUs of one MPDU.  Their bytes and headers together are counted in 32 bits. -/
structure Call where
  headMsdu : Msdu
  behind : List Msdu
  raw : Bool
  cloneNotReqd : Bool
  allocOk : Bool
  fits : ((headMsdu :: behind).map fun m => m.bytes.length + 25).sum < 2 ^ 32

def Call.msdus (c : Call) : List Msdu := c.headMsdu :: c.behind

/-- The bytes of each buffer, of which the pad is not written; its `next` pointer, which is that of the ext list too; and the buffers the call owns and has freed. -/
structure Nbufs where
  data : Nbuf → List (Option UInt8)
  next : Nbuf → Option Nbuf
  owned : List Nbuf
  freed : List Nbuf

def Call.origs (c : Call) : List Nbuf := (List.range c.msdus.length).map .orig

def Call.start (c : Call) : Nbufs where
  data
    | .orig i => ((c.msdus[i]?).elim [] Msdu.bytes).map some
    | _ => []
  next
    | .orig i => if i + 1 < c.msdus.length then some (.orig (i + 1)) else none
    | _ => none
  owned := if c.cloneNotReqd then c.origs else []
  freed := []

/-! ### The header -/

section
variable (hdr : Vector UInt8 64)

/-- `sizeof(struct ieee80211_frame)`, with the fourth address -/
def addrLen : Nat := if hdr[1] &&& 0x03 = 0x03 then 30 else 24

def isQos : Bool := hdr[0] &&& 0x80 ≠ 0

def wifiHdrLen : Nat := addrLen hdr + if isQos hdr then 2 else 0

def isAmsdu : Bool := isQos hdr && decide (hdr.toList.getD (addrLen hdr) 0 &&& 0x80 ≠ 0)

def msduLlcLen : Nat := if isAmsdu hdr then 14 + 8 else 8

/-- Where the LLC header of the first MSDU is: the header is padded. -/
def llcAt : Nat := wifiHdrLen hdr + if wifiHdrLen hdr % 4 ≠ 0 then 2 else 0

end

def padOf (len : Nat) : Nat := if len % 4 ≠ 0 then 4 - len % 4 else 0

namespace Call
variable (c : Call)

def hdr : List UInt8 := slice c.headMsdu.rxHdrStatus.toList 0 (wifiHdrLen c.headMsdu.rxHdrStatus)

def llcLen : Nat := msduLlcLen c.headMsdu.rxHdrStatus

/-- The LLC header of MSDU `i`, with the subframe header. -/
def llc (i : Nat) (m : Msdu) : List UInt8 :=
  if i = 0 then slice m.rxHdrStatus.toList (llcAt c.headMsdu.rxHdrStatus) c.llcLen
  else slice m.rxHdrStatus.toList 0 c.llcLen

/-! ### The buffers -/

/-- `clone_nbuf_fn`: the buffer, or a clone of it, which is in no list -/
def cloneNbuf (b : Nbufs) (i : Nat) (m : Msdu) : Option (Nbuf × Nbufs) :=
  if c.cloneNotReqd then some (.orig i, b)
  else if m.cloneOk then
    some (.clone i, { b with
      data := update b.data (.clone i) (b.data (.orig i))
      next := update b.next (.clone i) none
      owned := b.owned ++ [.clone i] })
  else none

/-- Whether `adf_nbuf_put_tail` finds room: the header's buffer has been allocated with it. -/
def hasRoom (size : Nat) : Nbuf → Bool
  | .mpdu => true
  | .orig i | .clone i => (c.msdus[i]?).any fun m => size ≤ m.tailroom || m.expandOk

end Call

def Nbufs.setNext (b : Nbufs) (x y : Nbuf) : Nbufs :=
  { b with next := update b.next x (some y) }

/-- `adf_nbuf_pull_head`: `skb_pull` does nothing to a buffer that is shorter. -/
def pulled {β : Type} (l : List β) : List β :=
  if decapHdrPullBytes ≤ l.length then l.drop decapHdrPullBytes else l

def Nbufs.setData (b : Nbufs) (x : Nbuf) (bytes : List (Option UInt8)) : Nbufs :=
  { b with data := update b.data x bytes }

/-! ### The loops -/

/-- What the loops keep.  There is no head of the list while `is_first_frag`. -/
structure Stitching where
  bufs : Nbufs
  prevBuf : Nbuf
  headFrag : Option Nbuf
  fragListSumLen : UInt32
  msduLen : Nat
  amsduPad : Nat

/-- An MPDU: its first buffer, and the ext list with its length. -/
structure Mpdu where
  mpduBuf : Nbuf
  extList : Option (Nbuf × UInt32)

inductive Exit where
  | goOn
  | fail

namespace Call
variable (c : Call)

def rawTurn (s : Stitching) (i : Nat) (m : Msdu) : Stitching × Exit :=
  match c.cloneNbuf s.bufs i m with
  | none => (s, .fail)
  | some (msdu, b) =>
    let s := { s with
      bufs := b
      headFrag := s.headFrag.or (some msdu)
      msduLen := (b.data msdu).length }
    if s.msduLen = 0 then (s, .fail)
    else
      ({ s with
        fragListSumLen := s.fragListSumLen + UInt32.ofNat s.msduLen
        bufs := b.setNext s.prevBuf msdu
        prevBuf := msdu }, .goOn)

def rawLoop : List Msdu → Nat → Stitching → Stitching × Exit
  | [], _, s => (s, .goOn)
  | m :: ms, i, s =>
    match c.rawTurn s i m with
    | (s, .goOn) => rawLoop ms (i + 1) s
    | r => r

/-- A turn of the loop of decap mode; no result where a NULL pointer is written to. -/
def decapTurn (s : Stitching) (i : Nat) (m : Msdu) : Option (Stitching × Exit) :=
  match c.cloneNbuf s.bufs i m with
  | none => some (s, .fail)
  | some (msdu, b) =>
    let b := if s.headFrag = none then b else b.setNext s.prevBuf msdu
    if c.hasRoom (c.llcLen + s.amsduPad) s.prevBuf then
      let b := b.setData s.prevBuf (b.data s.prevBuf ++ (List.replicate s.amsduPad none ++
        (c.llc i m).map some))
      let b := b.setData msdu (pulled (b.data msdu))
      let len := c.llcLen + (b.data msdu).length
      some ({ s with
        bufs := b
        headFrag := s.headFrag.or (some msdu)
        fragListSumLen := s.fragListSumLen + UInt32.ofNat (len + s.amsduPad)
        amsduPad := padOf len
        prevBuf := msdu }, .goOn)
    else none

def decapLoop : List Msdu → Nat → Stitching → Option (Stitching × Exit)
  | [], _, s => some (s, .goOn)
  | m :: ms, i, s => do
    match ← c.decapTurn s i m with
    | (s, .goOn) => decapLoop ms (i + 1) s
    | r => return r

/-! ### The function -/

/-- The buffers from `p` on are freed, each when the next one has been read. -/
def freeList (b : Nbufs) (p : Option Nbuf) : Nbufs :=
  { b with freed := b.freed ++ (walk b.next c.msdus.length p).getD [] }

def stitchFail (b : Nbufs) (mpduBuf headFrag : Option Nbuf) : Nbufs :=
  let mpduFreed := { b with freed := b.freed ++ mpduBuf.toList }
  if !c.cloneNotReqd then c.freeList mpduFreed headFrag
  else c.freeList (if c.raw then b else mpduFreed) (some (.orig 0))

def stitchDone (b : Nbufs) : Nbufs :=
  if c.cloneNotReqd then
    let list := (walk b.next c.msdus.length (some (.orig 0))).getD []
    { b with next := list.foldl (fun next x => update next x none) b.next }
  else b

def rawStart (mpduBuf : Nbuf) (b : Nbufs) : Stitching :=
  ⟨b, mpduBuf, none, 0, (b.data mpduBuf).length, 0⟩

/-- Raw mode; no result where the length of a NULL buffer is read. -/
def stitchRaw : Option (Option Mpdu × Nbufs) :=
  match c.cloneNbuf c.start 0 c.headMsdu with
  | none => none
  | some (mpduBuf, b) =>
    if (b.data mpduBuf).length = 0 then some (none, c.stitchFail b (some mpduBuf) none)
    else
      match c.rawLoop c.behind 1 (rawStart mpduBuf b) with
      | (s, .fail) => some (none, c.stitchFail s.bufs (some mpduBuf) s.headFrag)
      | (s, .goOn) =>
        if s.msduLen < httFcsLen then some (none, c.stitchFail s.bufs (some mpduBuf) s.headFrag)
        else
          let last := s.bufs.data s.prevBuf
          let b := s.bufs.setData s.prevBuf (last.take (last.length - httFcsLen))
          some (some ⟨mpduBuf, s.headFrag.map fun x => (x, s.fragListSumLen)⟩, c.stitchDone b)

def decapStart : Stitching where
  bufs := { c.start.setData .mpdu (c.hdr.map some) with owned := c.start.owned ++ [.mpdu] }
  prevBuf := .mpdu
  headFrag := none
  fragListSumLen := 0 - UInt32.ofNat c.llcLen
  msduLen := 0
  amsduPad := 0

def stitchDecap : Option (Option Mpdu × Nbufs) :=
  if c.allocOk then do
    match ← c.decapLoop c.msdus 0 c.decapStart with
    | (s, .fail) => return (none, c.stitchFail s.bufs (some .mpdu) s.headFrag)
    | (s, .goOn) =>
      return (some ⟨.mpdu, s.headFrag.map fun x => (x, s.fragListSumLen)⟩, c.stitchDone s.bufs)
  else some (none, c.stitchFail c.start none none)

/-- `htt_rx_restitch_mpdu_from_msdus` -/
def restitch : Option (Option Mpdu × Nbufs) := if c.raw then c.stitchRaw else c.stitchDecap

/-! ### What is to hold -/

/-- The subframes from MSDU `i` on, the first behind a pad of `k` bytes, when `payload` is left of each. -/
def subframes (payload : Msdu → List UInt8) : Nat → Nat → List Msdu → List (Option UInt8)
  | _, _, [] => []
  | i, k, m :: ms => List.replicate k none ++ ((c.llc i m).map some ++ ((payload m).map some ++
      subframes payload (i + 1) (padOf (c.llcLen + (payload m).length)) ms))

def frame : List (Option UInt8) :=
  if c.raw then
    let bytes := c.msdus.flatMap Msdu.bytes
    (bytes.take (bytes.length - httFcsLen)).map some
  else c.hdr.map some ++ c.subframes (fun m => m.bytes.drop decapHdrPullBytes) 0 0 c.msdus

/-- The buffers are those of the MPDU, and the length of its ext list is right. -/
def MpduRight (r : Mpdu) (b : Nbufs) : Prop :=
  ∃ ext, walk b.next c.msdus.length (r.extList.map Prod.fst) = some ext ∧
    b.data r.mpduBuf ++ ext.flatMap b.data = c.frame ∧
    ∀ e ∈ r.extList, e.2.toNat = (ext.flatMap b.data).length

/-- What is owned has been freed once, and the MSDUs are as they were if clones were made. -/
def GivenUp (b : Nbufs) : Prop :=
  (∀ x, b.freed.count x = if x ∈ b.owned then 1 else 0) ∧
    (c.cloneNotReqd = false → ∀ i, b.data (.orig i) = c.start.data (.orig i) ∧
      b.next (.orig i) = c.start.next (.orig i) ∧ .orig i ∉ b.freed)

/-- The MPDU is right, or it has been given up as is due. -/
def EndRight (r : Option Mpdu × Nbufs) : Prop := r.1.elim (c.GivenUp r.2) (c.MpduRight · r.2)

/-- **What is to hold of a call**: it has a result, which is right. -/
def StitchRight : Prop := c.restitch.elim False c.EndRight

/-! ### The condition -/

def Cloned (m : Msdu) : Prop := c.cloneNotReqd = true ∨ m.cloneOk = true

/-- **The condition in raw mode.**  The head is cloned; an MPDU that is put together has one MSDU; and an MSDU that is given up for being empty, after a clone was made of it, is at most the second. -/
structure RawOk : Prop where
  head : c.Cloned c.headMsdu
  single : (∀ m ∈ c.msdus, c.Cloned m ∧ m.bytes ≠ []) →
    (∀ m ∈ c.msdus.getLast?, httFcsLen ≤ m.bytes.length) → c.behind = []
  second : ∀ pre m post, c.behind = pre ++ m :: post → c.headMsdu.bytes ≠ [] →
    (∀ x ∈ pre, c.Cloned x ∧ x.bytes ≠ []) → m.cloneOk = true → m.bytes = [] →
    c.cloneNotReqd = true ∨ pre = []

/-- There is room for the LLC header of the next MSDU, and for the pad. -/
def Roomy (m : Msdu) : Prop :=
  c.llcLen + padOf (c.llcLen + (pulled m.bytes).length) ≤ m.tailroom ∨ m.expandOk = true

/-- There is room behind each MSDU whose next one, from `i` on, is cloned. -/
def RoomyFrom (i : Nat) : Prop :=
  ∀ k, i ≤ k + 1 → k + 1 < c.msdus.length →
    (∀ j, i ≤ j → j ≤ k + 1 → ∀ y ∈ c.msdus[j]?, c.Cloned y) → ∀ m ∈ c.msdus[k]?, c.Roomy m

/-- **The condition in decap mode.**  There is room behind each MSDU for the LLC header of the next, unless a clone is not made before; and when all are cloned, each has its decap header or is empty, and without clones there is one alone, or one behind it that has no payload. -/
structure DecapOk : Prop where
  roomy : c.RoomyFrom 0
  whole : (∀ m ∈ c.msdus, c.Cloned m) →
    (∀ m ∈ c.msdus, pulled m.bytes = m.bytes.drop decapHdrPullBytes) ∧
    (c.cloneNotReqd = false ∨ c.behind = [] ∨ ∃ x, c.behind = [x] ∧ pulled x.bytes = [])

/-- **The condition on a call.** -/
def StitchOk : Prop := if c.raw then c.RawOk else c.allocOk = true → c.DecapOk

/-! ### Clones -/

/-- The buffer that the loops use for MSDU `i`. -/
def own (i : Nat) : Nbuf := if c.cloneNotReqd then .orig i else .clone i

/-- The buffers when that of MSDU `i` has been taken. -/
def taken (b : Nbufs) (i : Nat) : Nbufs :=
  if c.cloneNotReqd then b
  else { b with
    data := update b.data (.clone i) (b.data (.orig i))
    next := update b.next (.clone i) none
    owned := b.owned ++ [.clone i] }

variable {c} {b : Nbufs} {s s' : Stitching} {x : List Nbuf} {pre ms post : List Msdu}
  {m : Msdu} {mpduBuf : Option Nbuf} {f i j : Nat}

theorem cloneNbuf_of_cloned (h : c.Cloned m) : c.cloneNbuf b i m = some (c.own i, c.taken b i) := by
  rw [cloneNbuf, own, taken]
  by_cases hn : c.cloneNotReqd = true
  · rw [if_pos hn, if_pos hn, if_pos hn]
  · rw [if_neg hn, if_neg hn, if_neg hn, if_pos (h.resolve_left hn)]

theorem cloneNbuf_of_not (h : ¬c.Cloned m) : c.cloneNbuf b i m = none := by
  rw [cloneNbuf, if_neg fun hn => h (.inl hn), if_neg fun ho => h (.inr ho)]

theorem own_clone (hn : c.cloneNotReqd = false) : c.own i = .clone i := by
  rw [own, hn]
  rfl

theorem own_orig (hn : c.cloneNotReqd = true) : c.own i = .orig i := if_pos hn

theorem own_inj (h : c.own i = c.own j) : i = j := by
  cases hn : c.cloneNotReqd with
  | true =>
    rw [own_orig hn, own_orig hn] at h
    exact orig.inj h
  | false =>
    rw [own_clone hn, own_clone hn] at h
    exact clone.inj h

theorem taken_nc (hn : c.cloneNotReqd = true) : c.taken b i = b := if_pos hn

theorem taken_clone (hn : c.cloneNotReqd = false) : c.taken b i = { b with
    data := update b.data (.clone i) (b.data (.orig i))
    next := update b.next (.clone i) none
    owned := b.owned ++ [.clone i] } := by
  rw [taken, hn]
  rfl

theorem taken_own : (c.taken b i).data (c.own i) = b.data (.orig i) := by
  cases hn : c.cloneNotReqd with
  | true => rw [taken_nc hn, own_orig hn]
  | false =>
    rw [taken_clone hn, own_clone hn]
    exact update_self ..

theorem taken_data {x : Nbuf} (hx : x ≠ c.own i) : (c.taken b i).data x = b.data x := by
  cases hn : c.cloneNotReqd with
  | true => rw [taken_nc hn]
  | false =>
    rw [own_clone hn] at hx
    rw [taken_clone hn]
    exact update_of_ne hx ..

theorem start_data (h : c.msdus[i]? = some m) : c.start.data (.orig i) = m.bytes.map some := by
  rw [start]
  dsimp only
  rw [h]
  rfl

/-! ### The list of the MSDUs -/

def OrigsLinked (c : Call) (b : Nbufs) : Prop :=
  ∀ j, b.next (.orig j) = c.start.next (.orig j)

theorem threaded_map {next : Nbuf → Option Nbuf} {g : Nat → Nbuf} {f n : Nat}
    (h : ∀ j, f ≤ j → j < f + n → next (g j) = if j + 1 < f + n then some (g (j + 1)) else none) :
    Threaded next ((List.range' f n).map g).head? ((List.range' f n).map g) := by
  induction n generalizing f with
  | zero => rfl
  | succ n ih =>
    rw [range'_succ, map_cons]
    refine ⟨rfl, ?_⟩
    have htail := ih (f := f + 1) fun j hj hlt => by
      rw [h j (by omega) (by omega), Nat.add_right_comm f 1 n]
      rfl
    rw [h f (Nat.le_refl f) (by omega)]
    cases n with
    | zero => exact if_neg (by omega)
    | succ n =>
      rw [if_pos (by omega)]
      exact htail

theorem OrigsLinked.threaded (h : c.OrigsLinked b) : Threaded b.next (some (.orig 0)) c.origs := by
  rw [origs, range_eq_range']
  exact threaded_map fun j _ _ => (h j).trans (by rw [zero_add]; rfl)

theorem OrigsLinked.walk (h : c.OrigsLinked b) :
    walk b.next c.msdus.length (some (.orig 0)) = some c.origs :=
  h.threaded.walk (by rw [origs, length_map, List.length_range])

theorem nodup_map_range {g : Nat → Nbuf} (hg : Function.Injective g) (i n : Nat) :
    ((List.range' i n).map g).Nodup :=
  List.Nodup.map hg List.nodup_range'

theorem origs_nodup : c.origs.Nodup := by
  rw [origs, range_eq_range']
  exact nodup_map_range (fun _ _ => orig.inj) ..

/-! ### Giving up -/

theorem givenUp_of_perm (hp : b.freed.Perm b.owned) (hd : b.owned.Nodup)
    (h : c.cloneNotReqd = false → c.OrigsLinked b ∧
      ∀ j, b.data (.orig j) = c.start.data (.orig j) ∧ .orig j ∉ b.owned) : c.GivenUp b :=
  ⟨fun x => (hp.count_eq x).trans (List.Nodup.count hd), fun hn j =>
    ⟨((h hn).2 j).1, (h hn).1 j, fun hj => ((h hn).2 j).2 (hp.mem_iff.1 hj)⟩⟩

theorem freeList_eq {l : List Nbuf} {p : Option Nbuf} (h : walk b.next c.msdus.length p = some l) :
    c.freeList b p = { b with freed := b.freed ++ l } := by
  rw [freeList, h]
  rfl

theorem stitchFail_nc {q : Option Nbuf} (hn : c.cloneNotReqd = true) (h : c.OrigsLinked b)
    (hf : b.freed = []) : c.stitchFail b mpduBuf q
      = { b with freed := (if c.raw then [] else mpduBuf.toList) ++ c.origs } := by
  have hfree : ∀ l, c.freeList { b with freed := l } (some (.orig 0))
      = { b with freed := l ++ c.origs } := fun l => freeList_eq (b := { b with freed := l }) h.walk
  rw [stitchFail, hn, hf, nil_append]
  cases c.raw with
  | true =>
    refine Eq.trans ?_ (hfree [])
    rw [← hf]
    rfl
  | false => exact hfree _

theorem stitchFail_clone {q : Option Nbuf} {l : List Nbuf} (hn : c.cloneNotReqd = false)
    (hf : b.freed = []) (h : Threaded b.next q l) (hl : l.length ≤ c.msdus.length) :
    c.stitchFail b mpduBuf q = { b with freed := mpduBuf.toList ++ l } := by
  rw [stitchFail, hn, hf, nil_append]
  exact freeList_eq (b := { b with freed := mpduBuf.toList }) (h.walk hl)

/-! ### What the loops keep -/

/-- `i` MSDUs have been taken; the clones of those from `f` on are in the ext list, and the buffer of `x` has been allocated. -/
structure Inv (c : Call) (x : List Nbuf) (f i : Nat) (s : Stitching) : Prop where
  freed : s.bufs.freed = []
  linked : c.OrigsLinked s.bufs
  data : ∀ j, c.cloneNotReqd = false ∨ i ≤ j → s.bufs.data (.orig j) = c.start.data (.orig j)
  owned : s.bufs.owned = if c.cloneNotReqd then c.origs ++ x else x ++ (List.range i).map .clone
  headFrag : s.headFrag = ((List.range' f (i - f)).map c.own).head?
  chain : c.cloneNotReqd = false → ∀ j, f ≤ j → j < i →
    s.bufs.next (.clone j) = if j + 1 < i then some (.clone (j + 1)) else none

theorem Inv.threaded (h : Inv c x f i s) (hn : c.cloneNotReqd = false) :
    Threaded s.bufs.next s.headFrag ((List.range' f (i - f)).map .clone) := by
  have hown : c.own = .clone := funext fun _ => own_clone hn
  rw [h.headFrag, hown]
  refine threaded_map fun j hj hlt => ?_
  rw [h.chain hn j hj (by omega)]
  rcases le_total f i with hf | hf
  · rw [Nat.add_sub_cancel' hf]
  · omega

/-- **Giving up** frees what is owned. -/
theorem Inv.giveUp (h : Inv c x f i s) (hi : i ≤ c.msdus.length) (hx : x = [] ∨ x = [.mpdu])
    (hraw : (if c.raw then [] else mpduBuf.toList) = x)
    (heq : c.cloneNotReqd = false →
      mpduBuf.toList ++ (List.range' f (i - f)).map .clone = x ++ (List.range i).map .clone) :
    c.GivenUp (c.stitchFail s.bufs mpduBuf s.headFrag) := by
  have ho := h.owned
  have hxn : x.Nodup := by
    rcases hx with rfl | rfl
    · exact List.nodup_nil
    · exact List.nodup_singleton _
  have hxm : ∀ y ∈ x, y = .mpdu := by
    rcases hx with rfl | rfl
    · exact fun y hy => absurd hy not_mem_nil
    · exact fun y hy => List.mem_singleton.1 hy
  cases hn : c.cloneNotReqd with
  | true =>
    rw [hn, if_pos rfl] at ho
    rw [stitchFail_nc hn h.linked h.freed, hraw]
    refine givenUp_of_perm ?_ ?_ fun he => by rw [hn] at he; cases he
    · rw [ho]
      exact List.perm_append_comm
    · rw [ho, List.nodup_append]
      refine ⟨origs_nodup, hxn, fun y hy z hz => ?_⟩
      obtain ⟨j, -, rfl⟩ := mem_map.1 hy
      rw [hxm z hz]
      exact fun e => by cases e
  | false =>
    rw [hn, if_neg Bool.false_ne_true] at ho
    have hlen : ((range' f (i - f)).map clone).length ≤ c.msdus.length := by
      rw [length_map, List.length_range']
      omega
    rw [stitchFail_clone hn h.freed (h.threaded hn) hlen, heq hn, ← ho]
    refine givenUp_of_perm (.refl _) ?_ fun _ => ⟨h.linked, fun j => ⟨h.data j (.inl hn), ?_⟩⟩
    · change s.bufs.owned.Nodup
      rw [ho, List.nodup_append, range_eq_range']
      refine ⟨hxn, nodup_map_range (fun _ _ => clone.inj) .., fun y hy z hz => ?_⟩
      obtain ⟨j, -, rfl⟩ := mem_map.1 hz
      rw [hxm y hy]
      exact fun e => by cases e
    · change .orig j ∉ s.bufs.owned
      rw [ho]
      intro hj
      rcases List.mem_append.1 hj with hj | hj
      · exact Nbuf.noConfusion (hxm _ hj)
      · obtain ⟨k, -, hk⟩ := mem_map.1 hj
        cases hk

/-- **One more MSDU** is taken, and hooked behind the last one unless it is the first of the ext list. -/
theorem Inv.take (h : Inv c x f i s) (hf : f ≤ i) (hi : i < c.msdus.length)
    (hprev : s.prevBuf = .mpdu ∧ i = 0 ∨ ∃ k, i = k + 1 ∧ s.prevBuf = c.own k)
    (hnext : s'.bufs.next = (c.taken s.bufs i).next ∧ i = f ∨
      s'.bufs.next = Function.update (c.taken s.bufs i).next s.prevBuf (some (c.own i)))
    (hfreed : s'.bufs.freed = s.bufs.freed) (howned : s'.bufs.owned = (c.taken s.bufs i).owned)
    (hdata : ∀ j, c.cloneNotReqd = false ∨ i + 1 ≤ j →
      s'.bufs.data (.orig j) = s.bufs.data (.orig j))
    (hhead : s'.headFrag = s.headFrag.or (some (c.own i))) : Inv c x f (i + 1) s' where
  freed := hfreed.trans h.freed
  linked := fun j => by
    have htaken : (c.taken s.bufs i).next (.orig j) = c.start.next (.orig j) := by
      refine Eq.trans ?_ (h.linked j)
      cases hn : c.cloneNotReqd with
      | true => rw [taken_nc hn]
      | false =>
        rw [taken_clone hn]
        have hne : orig j ≠ .clone i := fun e => by cases e
        exact update_of_ne hne none s.bufs.next
    obtain ⟨hnext, -⟩ | hnext := hnext
    · rw [hnext, htaken]
    rw [hnext]
    by_cases he : orig j = s.prevBuf
    · -- without clones the pointer is written that was there
      obtain ⟨hp, -⟩ | ⟨k, rfl, hp⟩ := hprev
      · rw [hp] at he
        cases he
      cases hn : c.cloneNotReqd with
      | true =>
        rw [hp, own_orig hn] at he
        obtain rfl := orig.inj he
        rw [hp, own_orig hn, own_orig hn, update_self]
        exact (if_pos hi).symm
      | false =>
        rw [hp, own_clone hn] at he
        cases he
    · rw [update_of_ne he, htaken]
  data := fun j hj => (hdata j hj).trans (h.data j (hj.imp_right (by omega)))
  owned := by
    rw [howned]
    cases hn : c.cloneNotReqd with
    | true =>
      rw [taken_nc hn, h.owned, hn]
      rfl
    | false =>
      rw [taken_clone hn]
      rw [h.owned, hn, if_neg Bool.false_ne_true, if_neg Bool.false_ne_true, range_succ,
        map_append, ← append_assoc]
      rfl
  headFrag := by
    have hlen : i + 1 - f = i - f + 1 := by omega
    rw [hhead, h.headFrag, hlen, List.range'_concat, map_append, List.head?_append]
    congr 1
    rw [map_singleton, List.head?_singleton, Nat.one_mul, Nat.add_sub_cancel' hf]
  chain := fun hn j hj hlt => by
    rw [taken_clone hn, own_clone hn] at hnext
    have hne : ∀ {j k}, j ≠ k → clone j ≠ .clone k := fun h e => h (clone.inj e)
    have hp : ∀ {j}, j + 1 ≠ i → clone j ≠ s.prevBuf := by
      intro j hji
      obtain ⟨hp, -⟩ | ⟨k, rfl, hp⟩ := hprev
      · rw [hp]
        exact fun e => by cases e
      · rw [hp, own_clone hn]
        exact hne fun e => hji (e ▸ rfl)
    by_cases hlast : j + 1 = i
    · obtain ⟨-, rfl⟩ | hnext := hnext
      · omega
      obtain ⟨-, rfl⟩ | ⟨k, rfl, hk⟩ := hprev
      · omega
      obtain rfl := Nat.succ.inj hlast
      rw [hnext, hk, own_clone hn, update_self, if_pos (by omega)]
    · have hkeep : s'.bufs.next (.clone j) = Function.update s.bufs.next (.clone i) none (.clone j) := by
        obtain ⟨hnext, -⟩ | hnext := hnext
        · rw [hnext]
        · rw [hnext, update_of_ne (hp hlast)]
      rw [hkeep]
      rcases Nat.eq_or_lt_of_le (Nat.le_of_lt_succ hlt) with rfl | hlt
      · rw [update_self, if_neg (Nat.lt_irrefl _)]
      · rw [update_of_ne (hne (Nat.ne_of_lt hlt)), h.chain hn j hj hlt, if_pos (by omega),
          if_pos (by omega)]

/-! ### Raw mode -/

def Taken (c : Call) (m : Msdu) : Prop := c.Cloned m ∧ m.bytes ≠ []

/-- The MSDUs of `pre` are in the ext list. -/
structure RawInv (c : Call) (pre : List Msdu) (s : Stitching) : Prop where
  inv : c.Inv [] 1 (pre.length + 1) s
  prevBuf : s.prevBuf = c.own pre.length
  head : s.bufs.data (c.own 0) = c.headMsdu.bytes.map some
  sum : s.fragListSumLen = UInt32.ofNat (pre.flatMap Msdu.bytes).length
  msduLen : ∀ x ∈ (c.headMsdu :: pre).getLast?, s.msduLen = x.bytes.length

theorem RawInv.giveUp (h : c.RawInv pre s) (hr : c.raw = true) (hi : pre.length < c.msdus.length) :
    c.GivenUp (c.stitchFail s.bufs (some (c.own 0)) s.headFrag) := by
  refine h.inv.giveUp hi (.inl rfl) (by rw [hr]; rfl) fun hn => ?_
  rw [own_clone hn, Nat.add_sub_cancel, range_eq_range', range'_succ]
  rfl

/-- What a turn finds in its buffer. -/
theorem Inv.taken_own (h : c.Inv x f i s) (hm : c.msdus[i]? = some m) :
    (c.taken s.bufs i).data (c.own i) = m.bytes.map some := by
  rw [Call.taken_own, h.data i (.inr (le_refl i)), start_data hm]

theorem orig_ne_own (hj : c.cloneNotReqd = false ∨ i + 1 ≤ j) : Nbuf.orig j ≠ c.own i := by
  cases hn : c.cloneNotReqd with
  | true =>
    rw [own_orig hn]
    rintro ⟨⟩
    exact absurd (hj.resolve_left (by rw [hn]; decide)) (by omega)
  | false =>
    rw [own_clone hn]
    exact fun e => by cases e

theorem RawInv.turn (h : c.RawInv pre s) (hm : c.msdus[pre.length + 1]? = some m)
    (ht : c.Taken m) : ∃ s', c.rawTurn s (pre.length + 1) m = (s', .goOn) ∧
      c.RawInv (pre ++ [m]) s' := by
  have hlen : ((c.taken s.bufs (pre.length + 1)).data (c.own (pre.length + 1))).length
      = m.bytes.length := by
    rw [h.inv.taken_own hm, length_map]
  refine ⟨{ s with
    bufs := (c.taken s.bufs (pre.length + 1)).setNext s.prevBuf (c.own (pre.length + 1))
    prevBuf := c.own (pre.length + 1)
    headFrag := s.headFrag.or (some (c.own (pre.length + 1)))
    fragListSumLen := s.fragListSumLen + UInt32.ofNat m.bytes.length
    msduLen := m.bytes.length }, ?_, ?_⟩
  · rw [rawTurn, cloneNbuf_of_cloned ht.1]
    dsimp only
    rw [hlen, if_neg (mt List.eq_nil_of_length_eq_zero ht.2)]
  · have hi := (List.getElem?_eq_some_iff.1 hm).1
    refine ⟨?_, ?_, ?_, ?_, ?_⟩
    · rw [length_append]
      refine h.inv.take (by omega) hi (.inr ⟨_, rfl, h.prevBuf⟩) (.inr rfl) ?_ rfl
        (fun j hj => taken_data (orig_ne_own hj)) rfl
      cases hn : c.cloneNotReqd with
      | true => rw [taken_nc hn]; rfl
      | false => rw [taken_clone hn]; rfl
    · rw [length_append]
      rfl
    · refine (taken_data fun e => ?_).trans h.head
      exact absurd (own_inj e) (by omega)
    · dsimp only
      rw [h.sum, flatMap_append, length_append, UInt32.ofNat_add, flatMap_singleton]
    · intro x hx
      rw [← List.cons_append, List.getLast?_concat, mem_some_iff] at hx
      rw [← hx]

/-- An empty MSDU, of which there is a clone: it is freed only if it is in the ext list. -/
theorem RawInv.turn_empty (h : c.RawInv pre s) (hr : c.raw = true)
    (hm : c.msdus[pre.length + 1]? = some m) (hc : c.Cloned m) (he : m.bytes = []) :
    ∃ s', c.rawTurn s (pre.length + 1) m = (s', .fail) ∧
      (c.GivenUp (c.stitchFail s'.bufs (some (c.own 0)) s'.headFrag) ↔
        c.cloneNotReqd = true ∨ pre = []) := by
  have hlen : ((c.taken s.bufs (pre.length + 1)).data (c.own (pre.length + 1))).length = 0 := by
    rw [h.inv.taken_own hm, length_map, he]
    rfl
  have hi := (List.getElem?_eq_some_iff.1 hm).1
  refine ⟨{ s with
    bufs := c.taken s.bufs (pre.length + 1)
    headFrag := s.headFrag.or (some (c.own (pre.length + 1)))
    msduLen := 0 }, ?_, ?_⟩
  · rw [rawTurn, cloneNbuf_of_cloned hc]
    dsimp only
    rw [hlen, if_pos rfl]
  cases hn : c.cloneNotReqd with
  | true =>
    have hfail : c.stitchFail s.bufs (some (c.own 0)) (s.headFrag.or
        (some (c.own (pre.length + 1)))) = c.stitchFail s.bufs (some (c.own 0)) s.headFrag := by
      rw [stitchFail, stitchFail, hn]
      rfl
    rw [taken_nc hn, hfail]
    exact iff_of_true (h.giveUp hr (by omega)) (.inl rfl)
  | false =>
    have hinv := h.inv
    cases pre with
    | nil =>
      refine iff_of_true ?_ (.inr rfl)
      have htake : c.Inv [] 1 2 { s with
          bufs := c.taken s.bufs 1
          prevBuf := c.own 1
          headFrag := s.headFrag.or (some (c.own 1)) } := by
        refine hinv.take (le_refl 1) hi (.inr ⟨0, rfl, h.prevBuf⟩) (.inl ⟨rfl, rfl⟩) ?_ rfl
          (fun j hj => taken_data (orig_ne_own hj)) rfl
        rw [taken_clone hn]
      refine htake.giveUp hi (.inl rfl) (by rw [hr]; rfl) fun _ => ?_
      rw [own_clone hn]
      rfl
    | cons a pre =>
      refine iff_of_false (fun hg => ?_) (by rintro (hf | hf) <;> cases hf)
      have hnot : clone ((a :: pre).length + 1)
          ∉ (range' 1 ((a :: pre).length + 1 - 1)).map clone := by
        intro hj
        obtain ⟨j, hj, he⟩ := mem_map.1 hj
        obtain rfl := clone.inj he
        have := (List.mem_range'_1.1 hj).2
        omega
      have hhead : s.headFrag.or (some (c.own ((a :: pre).length + 1))) = s.headFrag := by
        rw [hinv.headFrag]
        rfl
      have hchain : Threaded (c.taken s.bufs ((a :: pre).length + 1)).next s.headFrag
          ((range' 1 ((a :: pre).length + 1 - 1)).map .clone) := by
        rw [taken_clone hn]
        exact (hinv.threaded hn).update_of_notMem hnot
      have hfreed : (c.taken s.bufs ((a :: pre).length + 1)).freed = [] := by
        rw [taken_clone hn]
        exact hinv.freed
      have hlen : ((range' 1 ((a :: pre).length + 1 - 1)).map clone).length ≤ c.msdus.length := by
        rw [length_map, List.length_range']
        omega
      rw [hhead, stitchFail_clone hn hfreed hchain hlen, taken_clone hn, own_clone hn] at hg
      -- the clone is owned, and not among those that are freed
      have hcount := hg.1 (.clone ((a :: pre).length + 1))
      rw [if_pos (List.mem_append_right _ mem_cons_self)] at hcount
      have hmem := List.count_pos_iff.1 (hcount ▸ Nat.one_pos)
      rcases mem_cons.1 hmem with he | hmem
      · exact absurd (clone.inj he) (succ_ne_zero _)
      · exact hnot hmem

theorem rawLoop_spec (h : c.RawInv pre s) (hr : c.raw = true) (hb : c.behind = pre ++ ms) :
    (∃ s', c.rawLoop ms (pre.length + 1) s = (s', .goOn) ∧ c.RawInv c.behind s' ∧
      ∀ x ∈ ms, c.Taken x) ∨
    ∃ s' l m post, c.rawLoop ms (pre.length + 1) s = (s', .fail) ∧ ms = l ++ m :: post ∧
      (∀ x ∈ l, c.Taken x) ∧ ¬c.Taken m ∧
      (c.GivenUp (c.stitchFail s'.bufs (some (c.own 0)) s'.headFrag) ↔
        (m.cloneOk = true → m.bytes = [] → c.cloneNotReqd = true ∨ pre ++ l = [])) := by
  induction ms generalizing pre s with
  | nil =>
    rw [append_nil] at hb
    exact .inl ⟨s, rfl, hb ▸ h, fun _ hx => absurd hx not_mem_nil⟩
  | cons m ms ih =>
    have hm : c.msdus[pre.length + 1]? = some m := by
      rw [msdus, List.getElem?_cons_succ, hb, List.getElem?_append_right (le_refl _), Nat.sub_self]
      rfl
    have hi := (List.getElem?_eq_some_iff.1 hm).1
    by_cases hc : c.Cloned m
    · by_cases he : m.bytes = []
      · obtain ⟨s', hturn, hiff⟩ := h.turn_empty hr hm hc he
        refine .inr ⟨s', [], m, ms, ?_, rfl, fun _ hx => absurd hx not_mem_nil,
          fun ht => ht.2 he, ?_⟩
        · rw [rawLoop, hturn]
        · rw [hiff, append_nil]
          exact ⟨fun hp _ _ => hp, fun hp => hc.elim .inl fun ho => hp ho he⟩
      · obtain ⟨s', hturn, h'⟩ := h.turn hm ⟨hc, he⟩
        have hloop : c.rawLoop (m :: ms) (pre.length + 1) s
            = c.rawLoop ms ((pre ++ [m]).length + 1) s' := by
          rw [rawLoop, hturn, length_append]
          rfl
        rw [hloop]
        obtain ⟨s'', hgo, hinv, hall⟩ | ⟨s'', l, x, post, hfail, rfl, hl, hx, hiff⟩ :=
          ih h' (hb.trans (List.append_cons pre m ms))
        · exact .inl ⟨s'', hgo, hinv, forall_mem_cons.2 ⟨⟨hc, he⟩, hall⟩⟩
        · refine .inr ⟨s'', m :: l, x, post, hfail, rfl, forall_mem_cons.2 ⟨⟨hc, he⟩, hl⟩, hx, ?_⟩
          rwa [List.append_cons]
    · refine .inr ⟨s, [], m, ms, ?_, rfl, fun _ hx => absurd hx not_mem_nil, fun ht => hc ht.1, ?_⟩
      · rw [rawLoop, rawTurn, cloneNbuf_of_not hc]
      · exact iff_of_true (h.giveUp hr (by omega)) fun ho => absurd (.inr ho) hc

theorem rawInv_start : c.RawInv [] (rawStart (c.own 0) (c.taken c.start 0)) := by
  have hown : (c.taken c.start 0).data (c.own 0) = c.headMsdu.bytes.map some := by
    rw [taken_own, start_data rfl]
  refine ⟨⟨?_, fun j => ?_, fun j hj => ?_, ?_, rfl, fun _ j hj hlt => absurd hlt (not_lt.2 hj)⟩,
    rfl, hown, rfl, fun x hx => ?_⟩
  · change (c.taken c.start 0).freed = []
    rw [taken]
    split <;> rfl
  · change (c.taken c.start 0).next (.orig j) = _
    rw [taken]
    split
    · rfl
    · have hne : orig j ≠ .clone 0 := fun e => by cases e
      exact update_of_ne hne none c.start.next
  · exact taken_data (orig_ne_own hj)
  · change (c.taken c.start 0).owned = _
    rw [taken, start]
    split <;> simp
  · rw [List.getLast?_singleton, mem_some_iff] at hx
    subst hx
    change ((c.taken c.start 0).data (c.own 0)).length = _
    rw [hown, length_map]

/-- The bytes of some of the MSDUs, in 32 bits. -/
theorem bytes_le (l : List Msdu) :
    (l.flatMap Msdu.bytes).length ≤ (l.map fun m => m.bytes.length + 25).sum := by
  induction l with
  | nil => exact le_refl 0
  | cons m l ih =>
    rw [List.flatMap_cons, length_append, map_cons, sum_cons]
    omega

theorem first_unique {l l' : List Msdu} {m' : Msdu} {post' : List Msdu}
    (h : l ++ m :: post = l' ++ m' :: post') (hl : ∀ x ∈ l, c.Taken x) (hm : ¬c.Taken m)
    (hl' : ∀ x ∈ l', c.Taken x) (hm' : ¬c.Taken m') : l = l' ∧ m = m' := by
  induction l generalizing l' with
  | nil =>
    cases l' with
    | nil => exact ⟨rfl, (List.cons.inj h).1⟩
    | cons a l' => exact absurd ((List.cons.inj h).1 ▸ hl' a mem_cons_self) hm
  | cons a l ih =>
    cases l' with
    | nil => exact absurd ((List.cons.inj h).1 ▸ hl a mem_cons_self) hm'
    | cons a' l' =>
      obtain ⟨rfl, htail⟩ := List.cons.inj h
      obtain ⟨rfl, rfl⟩ := ih htail (fun x hx => hl x (mem_cons_of_mem a hx))
        fun x hx => hl' x (mem_cons_of_mem a hx)
      exact ⟨rfl, rfl⟩

theorem stitchDone_data : (c.stitchDone b).data = b.data := by
  rw [stitchDone]
  split <;> rfl

theorem RawInv.mpduRight (h : c.RawInv c.behind s) (hr : c.raw = true)
    (hlast : ¬s.msduLen < httFcsLen) :
    c.MpduRight ⟨c.own 0, s.headFrag.map fun x => (x, s.fragListSumLen)⟩
      (c.stitchDone (s.bufs.setData s.prevBuf
        ((s.bufs.data s.prevBuf).take ((s.bufs.data s.prevBuf).length - httFcsLen)))) ↔
      c.behind = [] := by
  have hframe : c.frame = ((c.msdus.flatMap bytes).take
      ((c.msdus.flatMap bytes).length - httFcsLen)).map some := by
    rw [frame, hr]
    rfl
  have htotal : (c.msdus.flatMap bytes).length
      = c.headMsdu.bytes.length + (c.behind.flatMap bytes).length := by
    rw [msdus, List.flatMap_cons, length_append]
  rw [MpduRight, stitchDone_data, h.prevBuf, hframe]
  constructor
  · rintro ⟨ext, -, hdata, hlen⟩
    by_contra hne
    obtain ⟨l, x, hx⟩ : ∃ l x, c.behind = l ++ [x] := ⟨_, _, (List.dropLast_append_getLast hne).symm⟩
    have hfour : httFcsLen ≤ (c.behind.flatMap bytes).length := by
      have hmsdu := h.msduLen x (by rw [hx, ← List.cons_append, List.getLast?_concat]; rfl)
      rw [hx, flatMap_append, length_append, flatMap_singleton, ← hmsdu]
      omega
    have hhead : s.headFrag = some (c.own 1) := by
      rw [h.inv.headFrag, hx, length_append]
      rfl
    have hown : c.own 0 ≠ c.own c.behind.length := by
      intro e
      rw [List.length_eq_zero_iff.1 (own_inj e).symm] at hne
      exact hne rfl
    have hkeep : (s.bufs.setData (c.own c.behind.length) ((s.bufs.data (c.own c.behind.length)).take
        ((s.bufs.data (c.own c.behind.length)).length - httFcsLen))).data (c.own 0)
        = c.headMsdu.bytes.map some := (update_of_ne hown ..).trans h.head
    -- the bytes of the ext list are four less than its length says
    have hcount := congrArg List.length hdata
    rw [length_append, hkeep, length_map, length_map, List.length_take, htotal] at hcount
    have hsum := hlen (c.own 1, s.fragListSumLen) (by rw [hhead]; rfl)
    have hfits := (bytes_le c.msdus).trans_lt c.fits
    rw [htotal] at hfits
    have hnat : (UInt32.ofNat (c.behind.flatMap bytes).length).toNat
        = (c.behind.flatMap bytes).length := UInt32.toNat_ofNat_of_lt' (by
      rw [UInt32.size]
      omega)
    rw [h.sum, hnat] at hsum
    have hfcs : httFcsLen = 4 := rfl
    omega
  · intro hnil
    have hhead : s.headFrag = none := by
      rw [h.inv.headFrag, hnil]
      rfl
    refine ⟨[], ?_, ?_, fun e he => ?_⟩
    · rw [hhead]
      exact walk_none _
    · rw [hnil, msdus, hnil, List.flatMap_nil, append_nil, flatMap_singleton]
      refine (update_self ..).trans ?_
      rw [length_nil, h.head, length_map, List.map_take]
    · rw [hhead] at he
      cases he

theorem stitchRaw_iff (hr : c.raw = true) : c.StitchRight ↔ c.RawOk := by
  rw [StitchRight, restitch, if_pos hr]
  by_cases hc : c.Cloned c.headMsdu
  swap
  · rw [stitchRaw, cloneNbuf_of_not hc]
    exact iff_of_false id fun h => hc h.head
  have hstart : c.RawInv [] (rawStart (c.own 0) (c.taken c.start 0)) := rawInv_start
  have hlen : ((c.taken c.start 0).data (c.own 0)).length = c.headMsdu.bytes.length := by
    rw [taken_own, start_data rfl, length_map]
  rw [stitchRaw, cloneNbuf_of_cloned hc]
  dsimp only
  rw [hlen]
  by_cases he : c.headMsdu.bytes = []
  · rw [he, length_nil, if_pos rfl]
    exact iff_of_true (hstart.giveUp hr (zero_lt_succ _))
      ⟨hc, fun h _ => absurd he (h _ mem_cons_self).2, fun _ _ _ _ h => absurd he h⟩
  rw [if_neg (mt List.eq_nil_of_length_eq_zero he)]
  obtain ⟨s', hloop, hinv, hall⟩ | ⟨s', l, m, post, hloop, hsplit, hl, hm, hiff⟩ :=
    rawLoop_spec hstart hr (nil_append c.behind).symm
  · rw [length_nil, zero_add] at hloop
    rw [hloop]
    dsimp only
    -- nothing was given up on the way
    have hsecond : ∀ pre m post, c.behind = pre ++ m :: post → c.headMsdu.bytes ≠ [] →
        (∀ x ∈ pre, c.Cloned x ∧ x.bytes ≠ []) → m.cloneOk = true → m.bytes = [] →
        c.cloneNotReqd = true ∨ pre = [] := by
      intro pre m post hs _ _ _ hx
      refine absurd hx (hall m ?_).2
      rw [hs]
      exact List.mem_append_right pre mem_cons_self
    have htaken : ∀ x ∈ c.msdus, c.Cloned x ∧ x.bytes ≠ [] :=
      forall_mem_cons.2 ⟨⟨hc, he⟩, hall⟩
    have hlast : (∀ m ∈ c.msdus.getLast?, httFcsLen ≤ m.bytes.length) ↔ ¬s'.msduLen < httFcsLen := by
      have hget := List.getLast?_eq_some_getLast (List.cons_ne_nil c.headMsdu c.behind)
      rw [hinv.msduLen _ hget, not_lt]
      exact ⟨fun h => h _ hget, fun h m hm => some.inj (hget.symm.trans hm) ▸ h⟩
    split
    · next hs =>
      exact iff_of_true (hinv.giveUp hr (by rw [msdus, length_cons]; omega))
        ⟨hc, fun _ h => absurd hs (hlast.1 h), hsecond⟩
    · next hs =>
      refine (hinv.mpduRight hr hs).trans
        ⟨fun h => ⟨hc, fun _ _ => h, hsecond⟩, fun h => h.single htaken (hlast.2 hs)⟩
  · rw [length_nil, zero_add] at hloop
    rw [hloop]
    refine hiff.trans ⟨fun h => ?_, fun h ho hx => h.second l m post hsplit he hl ho hx⟩
    refine ⟨hc, fun hall => ?_, fun pre x post' hs _ hpre ho hx => ?_⟩
    · refine absurd (hall m (mem_cons_of_mem _ ?_)) hm
      rw [hsplit]
      exact List.mem_append_right l mem_cons_self
    · obtain ⟨rfl, rfl⟩ := first_unique (hsplit.symm.trans hs) hl hm hpre fun ht => ht.2 hx
      exact h ho hx

/-! ### Decap mode -/

/-- `i` MSDUs have their header in front of them. -/
structure DecapInv (c : Call) (i : Nat) (s : Stitching) : Prop where
  inv : c.Inv [.mpdu] 0 i s
  prevBuf : s.prevBuf = .mpdu ∧ i = 0 ∨ ∃ k, i = k + 1 ∧ s.prevBuf = c.own k
  mpdu : s.bufs.data .mpdu = c.hdr.map some ++ if i = 0 then [] else (c.llc 0 c.headMsdu).map some
  noPad : i = 0 → s.amsduPad = 0
  last : ∀ k, i = k + 1 → ∀ m ∈ c.msdus[k]?, s.bufs.data (c.own k) = (pulled m.bytes).map some ∧
    s.amsduPad = padOf (c.llcLen + (pulled m.bytes).length)
  full : ∀ k, k + 1 < i → s.bufs.data (c.own k) ≠ []

def sofar (c : Call) (s : Stitching) (i : Nat) : List (Option UInt8) :=
  s.bufs.data .mpdu ++ ((List.range i).map c.own).flatMap s.bufs.data

theorem hasRoom_iff (h : c.DecapInv i s) (hi : i < c.msdus.length) :
    c.hasRoom (c.llcLen + s.amsduPad) s.prevBuf = true ↔
      ∀ k, i = k + 1 → ∀ m ∈ c.msdus[k]?, c.Roomy m := by
  obtain ⟨hp, rfl⟩ | ⟨k, rfl, hp⟩ := h.prevBuf
  · rw [hp]
    exact iff_of_true rfl fun k hk => by omega
  · obtain ⟨m, hm⟩ : ∃ m, c.msdus[k]? = some m := ⟨_, List.getElem?_eq_getElem (by omega)⟩
    have hroom : c.hasRoom (c.llcLen + s.amsduPad) (c.own k) = true ↔ c.Roomy m := by
      rw [(h.last k rfl m hm).2, Roomy]
      cases hn : c.cloneNotReqd with
      | true => rw [own_orig hn, hasRoom, hm]; simp
      | false => rw [own_clone hn, hasRoom, hm]; simp
    rw [hp, hroom]
    refine ⟨fun h j hj y hy => ?_, fun h => h k rfl m hm⟩
    obtain rfl := succ.inj hj
    rwa [some.inj (hy.symm.trans hm)]

theorem own_ne_mpdu : c.own i ≠ .mpdu := by
  rw [own]
  split
  · exact fun e => by cases e
  · exact fun e => by cases e

theorem llcLen_le (c : Call) : c.llcLen ≤ 22 := by
  rw [llcLen, msduLlcLen]
  split <;> decide

theorem length_llc (i : Nat) (m : Msdu) : (c.llc i m).length = c.llcLen := by
  have hlen := c.llcLen_le
  have hat : llcAt c.headMsdu.rxHdrStatus ≤ 34 := by
    rw [llcAt, wifiHdrLen, addrLen]
    split <;> split <;> split <;> omega
  rw [llc]
  split
  · exact length_slice (by rw [Vector.length_toList]; omega)
  · exact length_slice (by rw [Vector.length_toList]; omega)

theorem llcLen_pos : 0 < c.llcLen := by
  rw [llcLen, msduLlcLen]
  split <;> decide

/-- The buffers after a turn: a header goes behind the last buffer. -/
def headed (c : Call) (s : Stitching) (i : Nat) (m : Msdu) : Nbufs :=
  let b := if s.headFrag = none then c.taken s.bufs i
    else (c.taken s.bufs i).setNext s.prevBuf (c.own i)
  let b := b.setData s.prevBuf (b.data s.prevBuf ++ (List.replicate s.amsduPad none ++
    (c.llc i m).map some))
  b.setData (c.own i) (pulled (b.data (c.own i)))

theorem DecapInv.prev_ne (h : c.DecapInv i s) : s.prevBuf ≠ c.own i := by
  obtain ⟨hp, -⟩ | ⟨k, rfl, hp⟩ := h.prevBuf
  · rw [hp]
    exact own_ne_mpdu.symm
  · rw [hp]
    exact fun e => absurd (own_inj e) (by omega)

theorem headed_data (h : c.DecapInv i s) (hm : c.msdus[i]? = some m) :
    (c.headed s i m).data = update (update s.bufs.data s.prevBuf
      (s.bufs.data s.prevBuf ++ (List.replicate s.amsduPad none ++ (c.llc i m).map some)))
      (c.own i) ((pulled m.bytes).map some) := by
  have hhook : (if s.headFrag = none then c.taken s.bufs i
      else (c.taken s.bufs i).setNext s.prevBuf (c.own i)).data = (c.taken s.bufs i).data := by
    split <;> rfl
  have hpulled : pulled (m.bytes.map some) = (pulled m.bytes).map some := by
    rw [pulled, pulled, length_map]
    split
    · rw [List.map_drop]
    · rfl
  funext x
  dsimp only [headed, Nbufs.setData]
  rw [hhook, taken_data h.prev_ne, update_of_ne h.prev_ne.symm, h.inv.taken_own hm, hpulled]
  by_cases hx : x = c.own i
  · rw [hx, update_self, update_self]
  · rw [update_of_ne hx, update_of_ne hx]
    by_cases hp : x = s.prevBuf
    · rw [hp, update_self, update_self]
    · rw [update_of_ne hp, update_of_ne hp, taken_data hx]

theorem DecapInv.turn (h : c.DecapInv i s) (hm : c.msdus[i]? = some m) (hc : c.Cloned m)
    (hroom : c.hasRoom (c.llcLen + s.amsduPad) s.prevBuf = true) :
    ∃ s', c.decapTurn s i m = some (s', .goOn) ∧ c.DecapInv (i + 1) s' ∧
      c.sofar s' (i + 1) = c.sofar s i ++ (List.replicate s.amsduPad none ++
        ((c.llc i m).map some ++ (pulled m.bytes).map some)) ∧
      s'.fragListSumLen = s.fragListSumLen
        + UInt32.ofNat (c.llcLen + (pulled m.bytes).length + s.amsduPad) ∧
      s'.amsduPad = padOf (c.llcLen + (pulled m.bytes).length) := by
  have hdata := headed_data h hm
  have hown : (c.headed s i m).data (c.own i) = (pulled m.bytes).map some := by
    rw [hdata, update_self]
  have hprev : (c.headed s i m).data s.prevBuf = s.bufs.data s.prevBuf ++
      (List.replicate s.amsduPad none ++ (c.llc i m).map some) := by
    rw [hdata, update_of_ne h.prev_ne, update_self]
  have hrest : ∀ x, x ≠ c.own i → x ≠ s.prevBuf → (c.headed s i m).data x = s.bufs.data x := by
    intro x hx hp
    rw [hdata, update_of_ne hx, update_of_ne hp]
  have hlen : ((c.headed s i m).data (c.own i)).length = (pulled m.bytes).length := by
    rw [hown, length_map]
  have hi := (List.getElem?_eq_some_iff.1 hm).1
  refine ⟨{ s with
    bufs := c.headed s i m
    headFrag := s.headFrag.or (some (c.own i))
    fragListSumLen := s.fragListSumLen
      + UInt32.ofNat (c.llcLen + (pulled m.bytes).length + s.amsduPad)
    amsduPad := padOf (c.llcLen + (pulled m.bytes).length)
    prevBuf := c.own i }, ?_, ?_, ?_, rfl, rfl⟩
  · rw [decapTurn, cloneNbuf_of_cloned hc]
    dsimp only
    rw [if_pos hroom, ← hlen]
    rfl
  · refine ⟨?_, .inr ⟨i, rfl, rfl⟩, ?_, fun e => absurd e (succ_ne_zero i), fun k hk x hx => ?_,
      fun k hk => ?_⟩
    · have hfreed : (c.headed s i m).freed = s.bufs.freed := by
        dsimp only [headed, Nbufs.setData]
        rw [taken]
        split <;> split <;> rfl
      have howned : (c.headed s i m).owned = (c.taken s.bufs i).owned := by
        dsimp only [headed, Nbufs.setData]
        split <;> rfl
      have hnext : (c.headed s i m).next = (c.taken s.bufs i).next ∧ i = 0 ∨ (c.headed s i m).next
          = update (c.taken s.bufs i).next s.prevBuf (some (c.own i)) := by
        dsimp only [headed, Nbufs.setData]
        cases i with
        | zero =>
          rw [if_pos (show s.headFrag = none from h.inv.headFrag)]
          exact .inl ⟨rfl, rfl⟩
        | succ k =>
          rw [if_neg (by rw [h.inv.headFrag]; exact some_ne_none _)]
          exact .inr rfl
      refine h.inv.take (zero_le i) hi h.prevBuf hnext hfreed howned (fun j hj => ?_) rfl
      refine hrest _ (orig_ne_own hj) ?_
      obtain ⟨hp, -⟩ | ⟨k, rfl, hp⟩ := h.prevBuf
      · rw [hp]
        exact fun e => by cases e
      · rw [hp]
        exact orig_ne_own (hj.imp_right (by omega))
    · dsimp only
      obtain ⟨hp, rfl⟩ | ⟨k, rfl, hp⟩ := h.prevBuf
      · rw [← hp, hprev, hp, h.mpdu, h.noPad rfl, ← some.inj hm, if_pos rfl,
          if_neg (succ_ne_zero 0), append_nil]
        rfl
      · rw [hrest _ own_ne_mpdu.symm (by rw [hp]; exact own_ne_mpdu.symm), h.mpdu]
        rfl
    · obtain rfl := succ.inj hk
      rw [← some.inj (hm.symm.trans hx)]
      exact ⟨hown, rfl⟩
    · dsimp only
      obtain ⟨-, rfl⟩ | ⟨l, rfl, hp⟩ := h.prevBuf
      · omega
      rcases eq_or_lt_of_le (le_of_lt_succ (lt_of_succ_lt_succ hk)) with rfl | hk
      · rw [← hp, hprev]
        intro hnil
        have hlen := congrArg List.length hnil
        rw [length_append, length_append, length_map, length_llc, length_nil] at hlen
        have hpos : 0 < c.llcLen := llcLen_pos
        omega
      · rw [hrest _ (fun e => absurd (own_inj e) (by omega)) (by
          rw [hp]
          exact fun e => absurd (own_inj e) (by omega))]
        exact h.full k (by omega)
  · dsimp only [sofar]
    rw [range_succ, map_append, flatMap_append, map_singleton, flatMap_singleton, hown]
    obtain ⟨hp, rfl⟩ | ⟨k, rfl, hp⟩ := h.prevBuf
    · rw [← hp, hprev]
      simp
    · have hkeep : ((List.range k).map c.own).flatMap (c.headed s (k + 1) m).data
          = ((List.range k).map c.own).flatMap s.bufs.data := by
        refine List.flatMap_congr fun x hx => ?_
        obtain ⟨j, hj, rfl⟩ := mem_map.1 hx
        have hj := List.mem_range.1 hj
        refine hrest _ (fun e => absurd (own_inj e) (by omega)) ?_
        rw [hp]
        exact fun e => absurd (own_inj e) (by omega)
      rw [hrest _ own_ne_mpdu.symm (by rw [hp]; exact own_ne_mpdu.symm), range_succ,
        map_append, flatMap_append, flatMap_append, hkeep, map_singleton,
        flatMap_singleton, flatMap_singleton, ← hp, hprev]
      simp

theorem roomyFrom_of_not (hm : c.msdus[i]? = some m) (hc : ¬c.Cloned m) : c.RoomyFrom i :=
  fun _ hk _ hall _ _ => absurd (hall i (le_refl i) hk m hm) hc

theorem roomyFrom_of_cloned (hm : c.msdus[i]? = some m) (hc : c.Cloned m) : c.RoomyFrom i ↔
    (∀ k, i = k + 1 → ∀ y ∈ c.msdus[k]?, c.Roomy y) ∧ c.RoomyFrom (i + 1) := by
  have hi := (List.getElem?_eq_some_iff.1 hm).1
  constructor
  · refine fun h => ⟨fun k hi => ?_, fun k hk hlt hall => h k (by omega) hlt fun j hj hle y hy => ?_⟩
    · refine h k (by omega) (by omega) fun j hj hle y hy => ?_
      obtain rfl : j = i := by omega
      rwa [← some.inj (hm.symm.trans hy)]
    · rcases eq_or_lt_of_le hj with rfl | hj
      · rwa [← some.inj (hm.symm.trans hy)]
      · exact hall j hj hle y hy
  · refine fun h k hk hlt hall => ?_
    rcases eq_or_lt_of_le hk with hk | hk
    · exact h.1 k hk
    · exact h.2 k hk hlt fun j hj => hall j (by omega)

theorem subframes_cons {p : Msdu → List UInt8} {k : Nat} : c.subframes p i k (m :: ms)
    = List.replicate k none ++ ((c.llc i m).map some ++ ((p m).map some ++
      c.subframes p (i + 1) (padOf (c.llcLen + (p m).length)) ms)) := rfl

/-- **The loop** ends behind the last MSDU, or at the first that is not cloned, unless there is no room for a header. -/
theorem decapLoop_spec (h : c.DecapInv i s) (hle : i ≤ c.msdus.length) (hb : c.msdus.drop i = ms) :
    (∃ s', c.decapLoop ms i s = some (s', .goOn) ∧ c.DecapInv c.msdus.length s' ∧
      (∀ x ∈ ms, c.Cloned x) ∧ c.RoomyFrom i ∧
      c.sofar s' c.msdus.length
        = c.sofar s i ++ c.subframes (fun m => pulled m.bytes) i s.amsduPad ms ∧
      s'.fragListSumLen = s.fragListSumLen
        + UInt32.ofNat (c.subframes (fun m => pulled m.bytes) i s.amsduPad ms).length) ∨
    (∃ s' k, c.decapLoop ms i s = some (s', .fail) ∧ c.DecapInv k s' ∧ k ≤ c.msdus.length ∧
      (∃ x ∈ ms, ¬c.Cloned x) ∧ c.RoomyFrom i) ∨
    c.decapLoop ms i s = none ∧ ¬c.RoomyFrom i := by
  induction ms generalizing i s with
  | nil =>
    obtain rfl : i = c.msdus.length := le_antisymm hle (List.drop_eq_nil_iff.1 hb)
    refine .inl ⟨s, rfl, h, fun _ hx => absurd hx not_mem_nil, fun k hk => by omega, ?_, ?_⟩
    · rw [subframes, append_nil]
    · rw [subframes]
      exact (UInt32.add_zero _).symm
  | cons m ms ih =>
    have hm : c.msdus[i]? = some m := by
      rw [← List.head?_drop, hb]
      rfl
    have hi := (List.getElem?_eq_some_iff.1 hm).1
    have hb' : c.msdus.drop (i + 1) = ms := by
      rw [← List.tail_drop, hb]
      rfl
    by_cases hc : c.Cloned m
    · rw [roomyFrom_of_cloned hm hc, ← hasRoom_iff h hi]
      by_cases hroom : c.hasRoom (c.llcLen + s.amsduPad) s.prevBuf = true
      · obtain ⟨s', hturn, h', hsofar, hsum, hpad⟩ := h.turn hm hc hroom
        have hloop : c.decapLoop (m :: ms) i s = c.decapLoop ms (i + 1) s' := by
          rw [decapLoop, hturn]
          rfl
        rw [hloop]
        obtain ⟨s'', hgo, hinv, hall, hroomy, hso, hsu⟩ | ⟨s'', k, hfail, hinv, hk, hex, hroomy⟩ |
          ⟨hnone, hroomy⟩ := ih h' hi hb'
        · refine .inl ⟨s'', hgo, hinv, forall_mem_cons.2 ⟨hc, hall⟩, ⟨hroom, hroomy⟩, ?_, ?_⟩
          · rw [hso, hsofar, hpad, subframes_cons]
            simp
          · rw [hsu, hsum, hpad, subframes_cons, UInt32.add_assoc, ← UInt32.ofNat_add]
            congr 2
            simp only [length_append, List.length_replicate, length_map, length_llc]
            omega
        · obtain ⟨x, hx, hnot⟩ := hex
          exact .inr (.inl ⟨s'', k, hfail, hinv, hk, ⟨x, mem_cons_of_mem m hx, hnot⟩,
            hroom, hroomy⟩)
        · exact .inr (.inr ⟨hnone, fun hr => hroomy hr.2⟩)
      · refine .inr (.inr ⟨?_, fun hr => hroom hr.1⟩)
        rw [decapLoop, decapTurn, cloneNbuf_of_cloned hc]
        dsimp only
        rw [if_neg hroom]
        rfl
    · refine .inr (.inl ⟨s, i, ?_, h, le_of_lt hi, ⟨m, mem_cons_self, hc⟩, roomyFrom_of_not hm hc⟩)
      rw [decapLoop, decapTurn, cloneNbuf_of_not hc]
      rfl

/-! ### The subframes -/

section
variable {p q : Msdu → List UInt8} {k : Nat}

theorem padOf_mono {l l' : Nat} (h : l ≤ l') : l + padOf l ≤ l' + padOf l' := by
  rw [padOf, padOf]
  split <;> split <;> omega

theorem length_subframes_cons : (c.subframes p i k (m :: ms)).length = k + (c.llcLen +
    ((p m).length + (c.subframes p (i + 1) (padOf (c.llcLen + (p m).length)) ms).length)) := by
  simp [subframes_cons, length_llc]

theorem length_subframes_le {n a b : Nat} (h : ∀ x ∈ ms, (q x).length ≤ (p x).length) (hab : a ≤ b)
    (hk : a + k ≤ b + n) :
    a + (c.subframes q i k ms).length ≤ b + (c.subframes p i n ms).length := by
  induction ms generalizing i k n a b with
  | nil => exact hab
  | cons m ms ih =>
    have hm := h m mem_cons_self
    have hpad := padOf_mono (Nat.add_le_add_left hm c.llcLen)
    have hih := ih (i := i + 1) (a := a + k + c.llcLen + (q m).length)
      (b := b + n + c.llcLen + (p m).length) (k := padOf (c.llcLen + (q m).length))
      (n := padOf (c.llcLen + (p m).length)) (fun x hx => h x (mem_cons_of_mem m hx))
      (by omega) (by omega)
    rw [length_subframes_cons, length_subframes_cons]
    omega

theorem padded_inj {l l' : List UInt8} {a b : Nat}
    (h : l.map some ++ List.replicate a none = l'.map some ++ List.replicate b none) : l = l' := by
  have hfilter := congrArg (List.filterMap id) h
  simpa [List.filterMap_append, List.filterMap_map, List.filterMap_replicate_of_none] using hfilter

theorem subframes_inj (h : ∀ x ∈ ms, (q x).length ≤ (p x).length)
    (heq : c.subframes p i k ms = c.subframes q i k ms) : ∀ x ∈ ms, p x = q x := by
  induction ms generalizing i k with
  | nil => exact fun _ hx => absurd hx not_mem_nil
  | cons m ms ih =>
    have htail := fun x hx => h x (mem_cons_of_mem m hx)
    have hm := h m mem_cons_self
    rw [subframes_cons, subframes_cons, List.append_cancel_left_eq, List.append_cancel_left_eq] at heq
    cases ms with
    | nil =>
      rw [subframes, subframes, append_nil, append_nil] at heq
      exact List.forall_mem_singleton.2 (List.map_injective_iff.2 (fun _ _ => some.inj) heq)
    | cons m' ms =>
      have hpad := padOf_mono (Nat.add_le_add_left hm c.llcLen)
      have hle := length_subframes_le (c := c) (i := i + 1) (k := 0) (n := 0) htail
        (le_refl 0) (le_refl 0)
      have hzero : ∀ r : Msdu → List UInt8, c.subframes r (i + 1)
          (padOf (c.llcLen + (r m).length)) (m' :: ms) = List.replicate
            (padOf (c.llcLen + (r m).length)) none ++ c.subframes r (i + 1) 0 (m' :: ms) :=
        fun _ => rfl
      rw [hzero, hzero, ← append_assoc, ← append_assoc] at heq
      have hlen := congrArg List.length heq
      simp only [length_append, length_map, List.length_replicate] at hlen
      obtain ⟨hfirst, hrest⟩ := List.append_inj heq (by
        simp only [length_append, length_map, List.length_replicate]
        omega)
      exact forall_mem_cons.2 ⟨padded_inj hfirst, ih htail hrest⟩

theorem subframes_congr (h : ∀ x ∈ ms, p x = q x) : c.subframes p i k ms = c.subframes q i k ms := by
  induction ms generalizing i k with
  | nil => rfl
  | cons m ms ih =>
    rw [subframes_cons, subframes_cons, h m mem_cons_self,
      ih fun x hx => h x (mem_cons_of_mem m hx)]

theorem length_subframes_fits (h : ∀ x ∈ ms, (p x).length ≤ x.bytes.length) :
    (c.subframes p i k ms).length ≤ k + (ms.map fun x => x.bytes.length + 25).sum := by
  induction ms generalizing i k with
  | nil => exact zero_le _
  | cons m ms ih =>
    have hm := h m mem_cons_self
    have hih := ih (i := i + 1) (k := padOf (c.llcLen + (p m).length))
      fun x hx => h x (mem_cons_of_mem m hx)
    have hpad : padOf (c.llcLen + (p m).length) ≤ 3 := by
      rw [padOf]
      split <;> omega
    have hllc := c.llcLen_le
    rw [length_subframes_cons, map_cons, sum_cons]
    omega

end

theorem mpduRight_iff {ext : List Nbuf} {x y : Nbuf} {n : UInt32}
    (h : walk b.next c.msdus.length (some x) = some ext) : c.MpduRight ⟨y, some (x, n)⟩ b ↔
      b.data y ++ ext.flatMap b.data = c.frame ∧ n.toNat = (ext.flatMap b.data).length := by
  constructor
  · rintro ⟨ext', hwalk, hdata, hlen⟩
    obtain rfl := some.inj (h.symm.trans hwalk)
    exact ⟨hdata, hlen _ rfl⟩
  · rintro ⟨hdata, hlen⟩
    refine ⟨ext, h, hdata, fun e he => ?_⟩
    rw [← some.inj he]
    exact hlen

theorem foldl_update_of_mem {l : List Nbuf} {x : Nbuf} {next : Nbuf → Option Nbuf}
    (hx : x ∈ l ∨ next x = none) :
    l.foldl (fun next y => update next y none) next x = none := by
  induction l generalizing next with
  | nil => exact hx.resolve_left not_mem_nil
  | cons y l ih =>
    refine ih ?_
    change _ ∨ update next y none x = none
    by_cases hy : x = y
    · exact .inr (hy ▸ update_self ..)
    · rw [update_of_ne hy]
      exact hx.imp_left fun h => (mem_cons.1 h).resolve_left hy

/-- Without clones only the first MSDU stays in the ext list. -/
theorem walk_stitchDone (hn : c.cloneNotReqd = true) (h : c.OrigsLinked b) :
    walk (c.stitchDone b).next c.msdus.length (some (.orig 0)) = some [.orig 0] := by
  have hzero : orig 0 ∈ c.origs := List.mem_map_of_mem (List.mem_range.2 (zero_lt_succ _))
  rw [stitchDone, if_pos hn, h.walk, msdus, length_cons, walk_succ]
  dsimp only [getD_some]
  rw [foldl_update_of_mem (.inl hzero), walk_none]
  rfl

/-- What the MSDUs behind the first have left: nothing, if there is none, or one with no payload. -/
theorem DecapInv.behind_eq_nil (h : c.DecapInv c.msdus.length s) :
    ((List.range' 1 c.behind.length).map c.own).flatMap s.bufs.data = [] ↔
      c.behind = [] ∨ ∃ x, c.behind = [x] ∧ pulled x.bytes = [] := by
  cases hb : c.behind with
  | nil => simp
  | cons x l =>
    have hmsdus : c.msdus = c.headMsdu :: x :: l := by rw [msdus, hb]
    cases l with
    | nil =>
      have hlast := (h.last 1 (by rw [hmsdus]; rfl) x (by rw [hmsdus]; rfl)).1
      simp [hlast]
    | cons y l =>
      have hfull := h.full 1 (by rw [hmsdus]; simp)
      refine iff_of_false (fun hnil => hfull ?_) (by simp)
      exact List.flatMap_eq_nil_iff.1 hnil _
        (List.mem_map_of_mem (List.mem_range'_1.2 ⟨le_refl 1, by simp⟩))

/-- **An MPDU that was put together in decap mode** is right just if each MSDU has been left its payload, and none is lost. -/
theorem DecapInv.mpduRight (h : c.DecapInv c.msdus.length s) (hr : c.raw = false)
    (hso : c.sofar s c.msdus.length
      = c.hdr.map some ++ c.subframes (fun m => pulled m.bytes) 0 0 c.msdus)
    (hsum : s.fragListSumLen = 0 - UInt32.ofNat c.llcLen
      + UInt32.ofNat (c.subframes (fun m => pulled m.bytes) 0 0 c.msdus).length) :
    c.MpduRight ⟨.mpdu, s.headFrag.map fun x => (x, s.fragListSumLen)⟩ (c.stitchDone s.bufs) ↔
      (∀ m ∈ c.msdus, pulled m.bytes = m.bytes.drop decapHdrPullBytes) ∧
        (c.cloneNotReqd = false ∨ c.behind = [] ∨ ∃ x, c.behind = [x] ∧ pulled x.bytes = []) := by
  have hle : ∀ x ∈ c.msdus, (x.bytes.drop decapHdrPullBytes).length ≤ (pulled x.bytes).length := by
    intro x _
    rw [pulled, length_drop]
    split
    · rw [length_drop]
    · omega
  have hframe : c.hdr.map some ++ c.subframes (fun m => pulled m.bytes) 0 0 c.msdus = c.frame ↔
      ∀ m ∈ c.msdus, pulled m.bytes = m.bytes.drop decapHdrPullBytes := by
    rw [frame, hr, if_neg Bool.false_ne_true, List.append_cancel_left_eq]
    exact ⟨subframes_inj hle, subframes_congr⟩
  have hhead : s.headFrag = some (c.own 0) := by
    rw [h.inv.headFrag]
    rfl
  -- the first buffer has the header, and the LLC header of the first MSDU
  have hbytes := congrArg List.length hso
  rw [sofar, h.mpdu, if_neg (show c.msdus.length ≠ 0 from succ_ne_zero _)] at hbytes
  simp only [length_append, length_map, length_llc] at hbytes
  have hnat : s.fragListSumLen.toNat
      = (((List.range c.msdus.length).map c.own).flatMap s.bufs.data).length := by
    have hpulled : ∀ x ∈ c.msdus, (pulled x.bytes).length ≤ x.bytes.length := by
      intro x _
      rw [pulled]
      split
      · rw [length_drop]
        omega
      · exact le_refl _
    have hfits := (length_subframes_fits (c := c) (i := 0) (k := 0) hpulled).trans_lt
      ((zero_add _).trans_lt c.fits)
    have hcount : (c.subframes (fun m => pulled m.bytes) 0 0 c.msdus).length = c.llcLen
        + (((List.range c.msdus.length).map c.own).flatMap s.bufs.data).length := by omega
    have hcancel : ∀ x y : UInt32, 0 - x + (x + y) = y := by
      intro x y
      grind
    rw [hsum, hcount, UInt32.ofNat_add, hcancel]
    exact UInt32.toNat_ofNat_of_lt' (by rw [UInt32.size]; omega)
  rw [hhead, map_some]
  cases hn : c.cloneNotReqd with
  | false =>
    have hwalk : walk s.bufs.next c.msdus.length (some (c.own 0))
        = some ((List.range c.msdus.length).map c.own) := by
      have hchain := h.inv.threaded hn
      rw [Nat.sub_zero, ← range_eq_range', hhead] at hchain
      rw [show c.own = .clone from funext fun _ => own_clone hn] at hchain ⊢
      exact hchain.walk (by rw [length_map, List.length_range])
    rw [stitchDone, hn, if_neg Bool.false_ne_true, mpduRight_iff hwalk, ← hframe, ← hso]
    exact ⟨fun hright => ⟨hright.1, .inl rfl⟩, fun hright => ⟨hright.1, hnat⟩⟩
  | true =>
    have hsplit : ((List.range c.msdus.length).map c.own).flatMap s.bufs.data
        = s.bufs.data (c.own 0) ++ ((range' 1 c.behind.length).map c.own).flatMap s.bufs.data := by
      rw [msdus, length_cons, range_eq_range', range'_succ]
      rfl
    rw [own_orig hn, mpduRight_iff (walk_stitchDone hn h.inv.linked), stitchDone_data, hnat, hsplit,
      flatMap_singleton, ← own_orig hn, length_append, Nat.add_eq_left,
      List.length_eq_zero_iff, h.behind_eq_nil]
    rw [or_iff_right (show ¬true = false from Bool.noConfusion)]
    refine and_congr_left fun hnil => ?_
    rw [h.behind_eq_nil.2 hnil, append_nil] at hsplit
    rw [sofar, hsplit] at hso
    rw [hso, hframe]

theorem decapInv_start : c.DecapInv 0 c.decapStart := by
  refine ⟨⟨rfl, fun _ => rfl, fun j _ => ?_, ?_, rfl, fun _ j _ hlt => absurd hlt (not_lt_zero j)⟩,
    .inl ⟨rfl, rfl⟩, ?_, fun _ => rfl,
    fun k hk => by omega, fun k hk => by omega⟩
  · have hne : orig j ≠ .mpdu := fun e => by cases e
    exact update_of_ne hne (c.hdr.map some) c.start.data
  · change (if c.cloneNotReqd then c.origs else []) ++ [.mpdu] = _
    split <;> simp
  · rw [if_pos rfl, append_nil]
    exact update_self mpdu (c.hdr.map some) c.start.data

/-- What is owned when there is no buffer for the header. -/
theorem givenUp_start (hr : c.raw = false) : c.GivenUp (c.stitchFail c.start none none) := by
  have hinv : c.Inv [] 0 0 ⟨c.start, .mpdu, none, 0, 0, 0⟩ :=
    ⟨rfl, fun _ => rfl, fun _ _ => rfl, by simp [start], rfl,
      fun _ j _ hlt => absurd hlt (not_lt_zero j)⟩
  exact hinv.giveUp (zero_le _) (.inl rfl) (by rw [hr]; rfl) fun _ => rfl

theorem DecapInv.giveUp (h : c.DecapInv i s) (hr : c.raw = false) (hi : i ≤ c.msdus.length) :
    c.GivenUp (c.stitchFail s.bufs (some .mpdu) s.headFrag) := by
  refine h.inv.giveUp hi (.inr rfl) (by rw [hr]; rfl) fun _ => ?_
  rw [Nat.sub_zero, range_eq_range']
  rfl

theorem stitchDecap_iff (hr : c.raw = false) : c.StitchRight ↔ (c.allocOk = true → c.DecapOk) := by
  rw [StitchRight, restitch, hr, if_neg Bool.false_ne_true, stitchDecap]
  cases ha : c.allocOk with
  | false => exact iff_of_true (givenUp_start hr) fun h => by cases h
  | true =>
    rw [if_pos rfl, imp_iff_right rfl]
    obtain ⟨s', hloop, hinv, hall, hroomy, hso, hsum⟩ | ⟨s', k, hloop, hinv, hk, ⟨x, hx, hnot⟩, hroomy⟩ |
      ⟨hloop, hroomy⟩ := decapLoop_spec (c := c) decapInv_start (zero_le _) List.drop_zero
    · rw [hloop]
      refine (hinv.mpduRight hr ?_ hsum).trans ⟨fun h => ⟨hroomy, fun _ => h⟩, fun h => h.whole hall⟩
      have hstart : c.sofar c.decapStart 0 = c.hdr.map some := by
        rw [sofar, decapInv_start.mpdu, if_pos rfl, append_nil]
        exact append_nil _
      rw [hso, hstart]
      rfl
    · rw [hloop]
      exact iff_of_true (hinv.giveUp hr hk) ⟨hroomy, fun h => absurd (h x hx) hnot⟩
    · rw [hloop]
      exact iff_of_false id fun h => hroomy h.roomy

end Call

/-- **The MPDU, exactly.**  It is put together right, or given up as is due, just if the condition on the call is met. -/
theorem restitch_iff (c : Call) : c.StitchRight ↔ c.StitchOk := by
  rw [Call.StitchOk]
  cases hr : c.raw with
  | true => exact Call.stitchRaw_iff hr
  | false => exact Call.stitchDecap_iff hr

/-- An MSDU of zeros, with the header of QoS data. -/
def msduOf (n : Nat) : Msdu :=
  ⟨List.replicate n 0, Vector.ofFn fun i => if i = 0 then 0x88 else 0, 0, true, false⟩

def callOf (l : List Msdu) (raw cloneNotReqd : Bool)
    (fits : ((msduOf 20 :: l).map fun m => m.bytes.length + 25).sum < 2 ^ 32) : Call :=
  ⟨msduOf 20, l, raw, cloneNotReqd, true, fits⟩

/-- The ext list of a second MSDU has four bytes less than its length; the clone of a third that is empty is not freed; in decap mode there may be no room for the header of the second, and without clones the second is lost. -/
theorem restitch_goes_wrong : ¬(callOf [msduOf 8] true false (by decide)).StitchRight ∧
    ¬(callOf [msduOf 8, msduOf 0] true false (by decide)).StitchRight ∧
    ¬(callOf [msduOf 20] false false (by decide)).StitchRight ∧
    ¬(callOf [msduOf 20] false true (by decide)).StitchRight := by
  refine ⟨fun h => ?_, fun h => ?_, fun h => ?_, fun h => ?_⟩
  · have hok := (Call.stitchRaw_iff rfl).1 h
    have htaken : ∀ m ∈ [msduOf 20, msduOf 8], m.cloneOk = true ∧ m.bytes ≠ [] := by decide
    have hlast : ∀ m ∈ [msduOf 20, msduOf 8].getLast?, httFcsLen ≤ m.bytes.length := by decide
    exact List.cons_ne_nil _ _ (hok.single (fun m hm => (htaken m hm).imp_left .inr) hlast)
  · have hok := (Call.stitchRaw_iff rfl).1 h
    obtain hn | hn := hok.second [msduOf 8] (msduOf 0) [] rfl (by decide)
      (List.forall_mem_singleton.2 ⟨.inr rfl, by decide⟩) rfl rfl
    · cases hn
    · cases hn
  · have hok := (Call.stitchDecap_iff rfl).1 h rfl
    obtain hroom | hroom := hok.roomy 0 (zero_le _) (by decide)
      (fun j _ hj y hy => .inr (by
        have hall : ∀ m ∈ [msduOf 20, msduOf 20], m.cloneOk = true := by decide
        exact hall y (List.mem_of_getElem? hy))) (msduOf 20) rfl
    · exact absurd hroom (by decide)
    · cases hroom
  · have hok := (Call.stitchDecap_iff rfl).1 h rfl
    obtain hn | hn | ⟨x, hx, hnil⟩ := (hok.whole fun _ _ => .inl rfl).2
    · cases hn
    · cases hn
    · rw [← (List.cons.inj hx).1] at hnil
      exact absurd hnil (by decide)

end Qcacld.Htt.Restitch

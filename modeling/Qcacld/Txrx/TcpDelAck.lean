import Mathlib.Data.List.Perm.Lattice
import Qcacld.Adf.Nbuf
import Qcacld.Support.Pointwise
import Qcacld.Support.Runs

/-!
# Txrx — TcpDelAck

Delayed TCP ACKs.  The last ACK of a stream is held in a bucket of a hash, until a later one replaces it, enough have been replaced, a segment of the stream goes out, or the timer of the hash runs out.

A bucket is a list of nodes and a count of eight bits, which is looked at before the list is.  `ack_hash_iff` says which ACKs keep the hash right: those of a stream that has a node, and those of a new one when its bucket has fewer than 255 nodes and a node can be had.
-/

namespace Qcacld.Txrx
open Qcacld.Adf Qcacld.Support Function List Option Nat

abbrev delAckHashSize : Nat := 256

/-- The addresses and the ports of a `struct packet_info`. -/
structure TcpStream where
  dstIp : UInt32
  srcIp : UInt32
  dstPort : UInt16
  srcPort : UInt16
deriving DecidableEq

def TcpStream.streamId (t : TcpStream) : Fin delAckHashSize :=
  .ofNat _ (t.dstPort.toUInt32 + t.dstIp + t.srcPort.toUInt32 + t.srcIp).toNat

/-- `struct packet_info` of an ACK -/
structure AckInfo where
  stream : TcpStream
  ackNumber : UInt32

/-- `struct tcp_stream_node`, and where it is in memory; `head` is the list of its netbufs. -/
structure TcpStreamNode where
  addr : Nat
  stream : TcpStream
  ackNumber : UInt32
  noOfAckReplaced : UInt8
  head : List AdfNbuf

open TcpStreamNode

/-- `struct tcp_del_ack_hash_node` -/
structure TcpDelAckHashNode where
  noOfEntries : UInt8
  head : List TcpStreamNode

/-- `tcp_ack_hash` of a vdev.  The rest is history: the nodes that have been allocated and not been given back; the ACKs that have been given to the hash, sent, and flushed; and those that have been replaced, with what replaced them. -/
structure TcpAckHash where
  node : Fin delAckHashSize → TcpDelAckHashNode
  tcpFreeList : List Nat
  tcpNodeInUseCount : Int
  isTimerRunning : Bool
  nodes : List Nat
  given : List AdfNbuf
  sent : List AdfNbuf
  flushed : List AdfNbuf
  replaced : List (TcpStreamNode × AckInfo)

open TcpAckHash

/-- An ACK comes to the node of its stream: what becomes of the node, and whether the ACK it held is replaced. -/
structure AckFound where
  kept : Option TcpStreamNode
  removed : Option TcpStreamNode
  replaced : Bool

section Replace
variable (delAckCount : Int) (msdu : AdfNbuf) (info : AckInfo)

/-- The ACK replaces the one of the node, or both are going to be sent. -/
def TcpStreamNode.meet (x : TcpStreamNode) : AckFound :=
  if x.ackNumber < info.ackNumber ∧ x.noOfAckReplaced.toNat < delAckCount then
    let y := { x with
      head := [msdu]
      ackNumber := info.ackNumber
      noOfAckReplaced := x.noOfAckReplaced + 1 }
    if y.noOfAckReplaced.toNat = delAckCount then ⟨none, some y, true⟩
    else ⟨some y, none, true⟩
  else ⟨none, some { x with head := x.head ++ [msdu] }, false⟩

/-- `ol_tx_hl_replace_tcp_ack`: the first node of the stream, or none. -/
def replaceTcpAck : List TcpStreamNode → Option (List TcpStreamNode × TcpStreamNode × AckFound)
  | [] => none
  | x :: xs =>
    if x.stream = info.stream then
      let o := x.meet delAckCount msdu info
      some (o.kept.toList ++ xs, x, o)
    else (replaceTcpAck xs).map fun (xs, y, o) => (x :: xs, y, o)

end Replace

/-- The first node of a stream is taken out of a list. -/
def removeStream (stream : TcpStream) : List TcpStreamNode → Option (TcpStreamNode × List TcpStreamNode)
  | [] => none
  | x :: xs =>
    if x.stream = stream then some (x, xs)
    else (removeStream stream xs).map fun (y, xs) => (y, x :: xs)

namespace TcpAckHash

def setNode (s : TcpAckHash) (i : Fin delAckHashSize) (b : TcpDelAckHashNode) : TcpAckHash :=
  { s with node := update s.node i b }

def freeTcpNode (s : TcpAckHash) (x : TcpStreamNode) : TcpAckHash :=
  { s with
    tcpNodeInUseCount := s.tcpNodeInUseCount - 1
    tcpFreeList := x.addr :: s.tcpFreeList }

/-- `ol_txrx_vdev_alloc_tcp_node`; `malloc` is what `adf_os_mem_alloc` is going to return. -/
def allocTcpNode (s : TcpAckHash) (malloc : Option Nat) : Option (Nat × TcpAckHash) :=
  match s.tcpFreeList with
  | addr :: l => some (addr, { s with
      tcpFreeList := l
      tcpNodeInUseCount := s.tcpNodeInUseCount + 1 })
  | [] => malloc.map fun addr => (addr, { s with
      nodes := addr :: s.nodes
      tcpNodeInUseCount := s.tcpNodeInUseCount + 1 })

/-- The netbufs of a node are given to `ol_tx_hl_base`, and the node is freed. -/
def sendNode (s : TcpAckHash) (x : TcpStreamNode) : TcpAckHash :=
  { s with sent := s.sent ++ x.head }.freeTcpNode x

/-- The netbufs of a node are freed, and the node. -/
def flushNode (s : TcpAckHash) (x : TcpStreamNode) : TcpAckHash :=
  { s with flushed := s.flushed ++ x.head }.freeTcpNode x

/-- A bucket is emptied; its list is looked at if its count is not zero. -/
def emptyBucket (op : TcpAckHash → TcpStreamNode → TcpAckHash) (s : TcpAckHash)
    (i : Fin delAckHashSize) : TcpAckHash :=
  let l := if (s.node i).noOfEntries ≠ 0 then (s.node i).head else []
  l.foldl op (s.setNode i ⟨0, []⟩)

def emptyAll (op : TcpAckHash → TcpStreamNode → TcpAckHash) (s : TcpAckHash) : TcpAckHash :=
  (List.finRange delAckHashSize).foldl (emptyBucket op) s

def sendAllTcpAck (s : TcpAckHash) : TcpAckHash := emptyAll sendNode s

/-- `ol_tx_hl_del_ack_queue_flush_all`; `ol_txrx_vdev_deinit_tcp_del_ack` gives the free nodes back. -/
def delAckQueueFlushAll (s : TcpAckHash) : TcpAckHash :=
  let s := emptyAll flushNode s
  { s with
    tcpFreeList := []
    nodes := s.nodes.filter (· ∉ s.tcpFreeList) }

/-- `ol_tx_hl_find_and_send_tcp_stream`; a node that is alone is sent, whose ever it is. -/
def findAndSendTcpStream (s : TcpAckHash) (stream : TcpStream) : TcpAckHash :=
  let i := stream.streamId
  let b := s.node i
  if 1 < b.noOfEntries then
    match removeStream stream b.head with
    | some (x, xs) => (s.setNode i ⟨b.noOfEntries - 1, xs⟩).sendNode x
    | none => s
  else if b.noOfEntries = 1 then
    match b.head with
    | x :: _ => (s.setNode i ⟨0, []⟩).sendNode x
    | [] => s.setNode i ⟨0, []⟩
  else s

/-- A node for a new stream goes to the end of its bucket. -/
def insertTcpAck (s : TcpAckHash) (msdu : AdfNbuf) (info : AckInfo) (malloc : Option Nat) :
    TcpAckHash :=
  let i := info.stream.streamId
  match s.allocTcpNode malloc with
  | none => s
  | some (addr, s) =>
    let b := s.node i
    let x := ⟨addr, info.stream, info.ackNumber, 0, [msdu]⟩
    let b := if b.head = [] then ⟨1, [x]⟩ else ⟨b.noOfEntries + 1, b.head ++ [x]⟩
    { s.setNode i b with isTimerRunning := true }

def findAndReplaceTcpAck (delAckCount : Int) (s : TcpAckHash) (msdu : AdfNbuf) (info : AckInfo)
    (malloc : Option Nat) : TcpAckHash :=
  let i := info.stream.streamId
  let b := s.node i
  let s := { s with given := s.given ++ [msdu] }
  let found := if 0 < b.noOfEntries then replaceTcpAck delAckCount msdu info b.head else none
  match found with
  | none => s.insertTcpAck msdu info malloc
  | some (xs, x, o) =>
    let s := { s with
      replaced := if o.replaced then s.replaced ++ [(x, info)] else s.replaced
      isTimerRunning := s.isTimerRunning || o.replaced }
    match o.removed with
    | some y => (s.setNode i ⟨b.noOfEntries - 1, xs⟩).sendNode y
    | none => s.setNode i ⟨b.noOfEntries, xs⟩

end TcpAckHash

/-! ### The runs -/

inductive AckEvent where
  /-- an ACK, and a segment that is none -/
  | ack (msdu : AdfNbuf) (info : AckInfo) (malloc : Option Nat)
  | noAck (stream : TcpStream)
  /-- the timer runs out, and has its tasklet called -/
  | delAckTimer
  | sendAll
  | flush

/-- One event; `none` when the state does not enable it.  Memory that is allocated has not been allocated before. -/
def ackStep (delAckCount : Int) (s : TcpAckHash) : AckEvent → Option TcpAckHash
  | .ack msdu info malloc => do
    guard (∀ addr ∈ malloc, addr ∉ s.nodes)
    return s.findAndReplaceTcpAck delAckCount msdu info malloc
  | .noAck stream => some (s.findAndSendTcpStream stream)
  | .delAckTimer => do
    guard (s.isTimerRunning = true)
    return { s with isTimerRunning := false }
  | .sendAll => some s.sendAllTcpAck
  | .flush => some s.delAckQueueFlushAll

def initTcpDelAck : TcpAckHash where
  node _ := ⟨0, []⟩
  tcpFreeList := []
  tcpNodeInUseCount := 0
  isTimerRunning := false
  nodes := []
  given := []
  sent := []
  flushed := []
  replaced := []

def ackMachine (delAckCount : Int) : Machine TcpAckHash AckEvent where
  init s := s = initTcpDelAck
  step := ackStep delAckCount

/-! ### What is to hold -/

def netbufs (xs : List TcpStreamNode) : List AdfNbuf := xs.flatMap TcpStreamNode.head

def TcpAckHash.held (s : TcpAckHash) : List TcpStreamNode :=
  (List.finRange delAckHashSize).flatMap fun i => (s.node i).head

/-- **A right hash.** -/
structure AckHashRight (s : TcpAckHash) : Prop where
  count : ∀ i, (s.node i).noOfEntries.toNat = (s.node i).head.length
  streams : ∀ i, ((s.node i).head.map TcpStreamNode.stream).Nodup
  /-- every node is in a bucket or free -/
  nodes : (s.held.map TcpStreamNode.addr ++ s.tcpFreeList).Perm s.nodes
  /-- every ACK is in one place -/
  acks : (s.sent ++ netbufs s.held ++ s.flushed ++ netbufs (s.replaced.map Prod.fst)).Perm s.given
  /-- by a later ACK of its stream -/
  replaced : ∀ r ∈ s.replaced, r.1.stream = r.2.stream ∧ r.1.ackNumber < r.2.ackNumber
  inUse : s.tcpNodeInUseCount = s.held.length

/-- **The condition**: an ACK of a new stream finds its bucket with fewer than 255 nodes, and gets a node. -/
def AckEventOk (s : TcpAckHash) : AckEvent → Prop
  | .ack _ info malloc =>
    (∀ x ∈ (s.node info.stream.streamId).head, x.stream ≠ info.stream) →
      (s.node info.stream.streamId).head.length < 255 ∧ (s.tcpFreeList ≠ [] ∨ malloc.isSome)
  | _ => True

instance (s : TcpAckHash) : (e : AckEvent) → Decidable (AckEventOk s e)
  | .ack .. => inferInstanceAs (Decidable (_ → _))
  | .noAck _ | .delAckTimer | .sendAll | .flush => .isTrue trivial

/-! ### One bucket changes -/

section Bucket
variable {s s' : TcpAckHash} {i : Fin delAckHashSize} {b : TcpDelAckHashNode}

theorem held_update (s : TcpAckHash) (i : Fin delAckHashSize) : ∃ rest,
    s.held.Perm ((s.node i).head ++ rest) ∧
      ∀ (s' : TcpAckHash) (b : TcpDelAckHashNode), s'.node = update s.node i b →
        s'.held.Perm (b.head ++ rest) := by
  obtain ⟨rest, hrest⟩ := perm_flatMap_update (nodup_finRange delAckHashSize)
    (mem_finRange i) fun j => (s.node j).head
  have hupdate : ∀ (s' : TcpAckHash) (b : TcpDelAckHashNode),
      s'.node = update s.node i b → s'.held.Perm (b.head ++ rest) := by
    intro s' b hs
    refine List.Perm.trans (List.Perm.of_eq ?_) (hrest b.head)
    refine flatMap_congr fun j _ => ?_
    rw [hs, update_apply, update_apply]
    split <;> rfl
  refine ⟨rest, ?_, hupdate⟩
  exact hupdate s (s.node i) (update_eq_self i s.node).symm

/-- **One bucket changes**, and what leaves it or comes to it is accounted for. -/
theorem AckHashRight.bucket (h : AckHashRight s) (hnode : s'.node = update s.node i b)
    (hcount : b.noOfEntries.toNat = b.head.length)
    (hstreams : (b.head.map TcpStreamNode.stream).Nodup) (newNodes : List Nat)
    (hnodes : (b.head.map TcpStreamNode.addr ++ s'.tcpFreeList).Perm
      ((s.node i).head.map TcpStreamNode.addr ++ s.tcpFreeList ++ newNodes))
    (hnodes' : s'.nodes.Perm (s.nodes ++ newNodes)) (newAcks : List AdfNbuf)
    (hacks : (s'.sent ++ netbufs b.head ++ s'.flushed ++ netbufs (s'.replaced.map Prod.fst)).Perm
      (s.sent ++ netbufs (s.node i).head ++ s.flushed ++ netbufs (s.replaced.map Prod.fst) ++
        newAcks))
    (hgiven : s'.given.Perm (s.given ++ newAcks))
    (hreplaced : ∀ r ∈ s'.replaced, r.1.stream = r.2.stream ∧ r.1.ackNumber < r.2.ackNumber)
    (hinUse : s'.tcpNodeInUseCount - b.head.length =
      s.tcpNodeInUseCount - (s.node i).head.length) : AckHashRight s' := by
  obtain ⟨rest, hheld, hheld'⟩ := held_update s i
  have hheld' := hheld' s' b hnode
  refine ⟨fun j => ?_, fun j => ?_, ?_, ?_, hreplaced, ?_⟩
  · rw [hnode, update_apply]
    split
    · exact hcount
    · exact h.count j
  · rw [hnode, update_apply]
    split
    · exact hstreams
    · exact h.streams j
  · rw [perm_iff_count]
    intro z
    have h₁ := (hheld.map addr).count_eq z
    have h₂ := (hheld'.map addr).count_eq z
    have h₃ := hnodes.count_eq z
    have h₄ := hnodes'.count_eq z
    have h₅ := h.nodes.count_eq z
    simp only [map_append, count_append] at h₁ h₂ h₃ h₄ h₅ ⊢
    omega
  · rw [perm_iff_count]
    intro z
    have h₁ : (netbufs s.held).count z = _ := (hheld.flatMap_right head).count_eq z
    have h₂ : (netbufs s'.held).count z = _ := (hheld'.flatMap_right head).count_eq z
    have h₃ := hacks.count_eq z
    have h₄ := hgiven.count_eq z
    have h₅ := h.acks.count_eq z
    rw [flatMap_append, count_append] at h₁ h₂
    simp only [netbufs, count_append] at h₁ h₂ h₃ h₄ h₅ ⊢
    omega
  · have h₁ := hheld.length_eq
    have h₂ := hheld'.length_eq
    have h₃ := h.inUse
    rw [length_append] at h₁ h₂
    omega

end Bucket

/-! ### The node of a stream -/

section Find
variable {delAckCount : Int} {msdu : AdfNbuf} {info : AckInfo} {xs ys : List TcpStreamNode}
  {x : TcpStreamNode} {o : AckFound} {stream : TcpStream}

theorem replaceTcpAck_eq_none :
    replaceTcpAck delAckCount msdu info xs = none ↔ ∀ x ∈ xs, x.stream ≠ info.stream := by
  induction xs with
  | nil => exact iff_of_true rfl fun _ hx => nomatch hx
  | cons x xs ih =>
    rw [replaceTcpAck, forall_mem_cons]
    split
    · next hx => exact iff_of_false nofun fun h => h.1 hx
    · next hx => rw [map_eq_none_iff, ih, and_iff_right hx]

theorem replaceTcpAck_eq_some (h : replaceTcpAck delAckCount msdu info xs = some (ys, x, o)) :
    ∃ l₁ l₂, xs = l₁ ++ x :: l₂ ∧ x.stream = info.stream ∧ o = x.meet delAckCount msdu info ∧
      ys = l₁ ++ o.kept.toList ++ l₂ := by
  induction xs generalizing ys with
  | nil => cases h
  | cons z xs ih =>
    rw [replaceTcpAck] at h
    split at h
    · next hz =>
      cases h
      exact ⟨[], xs, rfl, hz, rfl, rfl⟩
    · obtain ⟨⟨ys', x', o'⟩, hfound, heq⟩ := map_eq_some_iff.1 h
      cases heq
      obtain ⟨l₁, l₂, rfl, hx, ho, rfl⟩ := ih hfound
      exact ⟨z :: l₁, l₂, rfl, hx, ho, rfl⟩

theorem removeStream_eq_some (h : removeStream stream xs = some (x, ys)) :
    ∃ l₁ l₂, xs = l₁ ++ x :: l₂ ∧ ys = l₁ ++ l₂ := by
  induction xs generalizing ys with
  | nil => cases h
  | cons z xs ih =>
    rw [removeStream] at h
    split at h
    · cases h
      exact ⟨[], xs, rfl, rfl⟩
    · obtain ⟨⟨x', ys'⟩, hfound, heq⟩ := map_eq_some_iff.1 h
      cases heq
      obtain ⟨l₁, l₂, rfl, rfl⟩ := ih hfound
      exact ⟨z :: l₁, l₂, rfl, rfl⟩

theorem meet_cases (x : TcpStreamNode) (delAckCount : Int) (msdu : AdfNbuf) (info : AckInfo) :
    ∃ y : TcpStreamNode, y.addr = x.addr ∧ y.stream = x.stream ∧
      ((x.ackNumber < info.ackNumber ∧ y.head = [msdu] ∧
          (x.meet delAckCount msdu info = ⟨none, some y, true⟩ ∨
            x.meet delAckCount msdu info = ⟨some y, none, true⟩)) ∨
        y.head = x.head ++ [msdu] ∧ x.meet delAckCount msdu info = ⟨none, some y, false⟩) := by
  unfold meet
  split
  · next h =>
    let y : TcpStreamNode := { x with
      head := [msdu]
      ackNumber := info.ackNumber
      noOfAckReplaced := x.noOfAckReplaced + 1 }
    refine ⟨y, rfl, rfl, .inl ⟨h.1, rfl, ?_⟩⟩
    dsimp only
    split
    · exact .inl rfl
    · exact .inr rfl
  · exact ⟨{ x with head := x.head ++ [msdu] }, rfl, rfl, .inr ⟨rfl, rfl⟩⟩

end Find

/-! ### A node leaves its bucket -/

section Steps
variable {s s' : TcpAckHash} {i : Fin delAckHashSize} {l₁ l₂ : List TcpStreamNode}
  {x y : TcpStreamNode} {msdu : AdfNbuf} {info : AckInfo} {delAckCount : Int}

theorem AckHashRight.count_sub (h : AckHashRight s) (hx : (s.node i).head = l₁ ++ x :: l₂) :
    ((s.node i).noOfEntries - 1).toNat = (l₁ ++ l₂).length := by
  have hc := h.count i
  rw [hx, length_append, length_cons] at hc
  have hle : (1 : UInt8) ≤ (s.node i).noOfEntries := by
    rw [UInt8.le_iff_toNat_le, hc]
    exact le_add_left 1 _
  rw [UInt8.toNat_sub_of_le _ _ hle, hc, length_append]
  rfl

theorem AckHashRight.streams_sub (h : AckHashRight s) (hx : (s.node i).head = l₁ ++ x :: l₂) :
    ((l₁ ++ l₂).map TcpStreamNode.stream).Nodup := by
  refine (h.streams i).sublist ?_
  rw [hx]
  exact ((sublist_cons_self x l₂).append_left l₁).map _

/-- **A node leaves its bucket** and is free, and what it held is in another place. -/
theorem AckHashRight.leaves (h : AckHashRight s) (hx : (s.node i).head = l₁ ++ x :: l₂)
    (hnode : s'.node = update s.node i ⟨(s.node i).noOfEntries - 1, l₁ ++ l₂⟩)
    (hfree : s'.tcpFreeList = x.addr :: s.tcpFreeList) (hnodes : s'.nodes = s.nodes)
    (newAcks : List AdfNbuf)
    (hacks : (s'.sent ++ s'.flushed ++ netbufs (s'.replaced.map Prod.fst)).Perm
      (s.sent ++ s.flushed ++ netbufs (s.replaced.map Prod.fst) ++ x.head ++ newAcks))
    (hgiven : s'.given = s.given ++ newAcks)
    (hreplaced : ∀ r ∈ s'.replaced, r.1.stream = r.2.stream ∧ r.1.ackNumber < r.2.ackNumber)
    (hinUse : s'.tcpNodeInUseCount = s.tcpNodeInUseCount - 1) : AckHashRight s' := by
  refine h.bucket hnode (h.count_sub hx) (h.streams_sub hx) [] ?_ ?_ newAcks ?_ ?_ hreplaced ?_
  · rw [perm_iff_count, hx, hfree]
    intro z
    simp only [map_append, map_cons, count_append, count_cons, count_nil]
    omega
  · rw [hnodes, append_nil]
  · rw [perm_iff_count, hx]
    intro z
    have hz := hacks.count_eq z
    simp only [netbufs, flatMap_append, flatMap_cons, count_append] at hz ⊢
    omega
  · rw [hgiven]
  · rw [hx, hinUse]
    simp only [length_append, length_cons]
    omega

theorem AckHashRight.sent (h : AckHashRight s) (hx : (s.node i).head = l₁ ++ x :: l₂) :
    AckHashRight ((s.setNode i ⟨(s.node i).noOfEntries - 1, l₁ ++ l₂⟩).sendNode x) := by
  refine h.leaves hx rfl rfl rfl [] ?_ (append_nil _).symm h.replaced rfl
  rw [perm_iff_count]
  intro z
  simp only [sendNode, freeTcpNode, setNode, append_nil, count_append]
  omega

theorem findAndSend_right (h : AckHashRight s) (stream : TcpStream) :
    AckHashRight (s.findAndSendTcpStream stream) := by
  have hc := h.count stream.streamId
  unfold findAndSendTcpStream
  dsimp only
  split
  · split
    · next x xs hfound =>
      obtain ⟨l₁, l₂, hx, rfl⟩ := removeStream_eq_some hfound
      exact h.sent hx
    · exact h
  · split
    · next hone =>
      rw [hone] at hc
      split
      · next x l hx =>
        rw [hx, length_cons] at hc
        obtain rfl : l = [] := eq_nil_of_length_eq_zero (succ.inj hc).symm
        have hsent := @AckHashRight.sent s _ [] [] x h hx
        rwa [hone] at hsent
      · next hx =>
        rw [hx] at hc
        exact nomatch hc
    · exact h

/-- The history of an ACK that has come to the node of its stream. -/
def ackCame (s : TcpAckHash) (msdu : AdfNbuf) (info : AckInfo) (x : TcpStreamNode) (replaced : Bool) :
    TcpAckHash :=
  { s with
    given := s.given ++ [msdu]
    replaced := if replaced then s.replaced ++ [(x, info)] else s.replaced
    isTimerRunning := s.isTimerRunning || replaced }

theorem ackCame_replaced (h : AckHashRight s) (hx : x.stream = info.stream)
    (hlt : x.ackNumber < info.ackNumber) : ∀ r ∈ (ackCame s msdu info x true).replaced,
    r.1.stream = r.2.stream ∧ r.1.ackNumber < r.2.ackNumber := by
  intro r hr
  rcases mem_append.1 hr with hr | hr
  · exact h.replaced r hr
  · rw [mem_singleton.1 hr]
    exact ⟨hx, hlt⟩

/-- **An ACK comes to the node of its stream.** -/
theorem AckHashRight.found (h : AckHashRight s) (hx : (s.node i).head = l₁ ++ x :: l₂)
    (hst : x.stream = info.stream) : let o := x.meet delAckCount msdu info
    AckHashRight (match o.removed with
      | some y => ((ackCame s msdu info x o.replaced).setNode i
          ⟨(s.node i).noOfEntries - 1, l₁ ++ o.kept.toList ++ l₂⟩).sendNode y
      | none => (ackCame s msdu info x o.replaced).setNode i
          ⟨(s.node i).noOfEntries, l₁ ++ o.kept.toList ++ l₂⟩) := by
  obtain ⟨y, haddr, hstream, ⟨hlt, hhead, ho | ho⟩ | ⟨hhead, ho⟩⟩ :=
    meet_cases x delAckCount msdu info
  · -- the ACK is the last one of those that replace one, and goes out
    rw [ho]
    dsimp only [toList_none]
    rw [append_nil]
    refine h.leaves hx rfl (congrArg (· :: _) haddr) rfl [msdu] ?_ rfl
      (@ackCame_replaced s x msdu info h hst hlt) rfl
    rw [perm_iff_count]
    intro z
    simp only [sendNode, freeTcpNode, setNode, ackCame, netbufs,
      hhead, if_true, map_append, map_cons, map_nil, flatMap_append,
      flatMap_cons, flatMap_nil, append_nil, count_append]
    omega
  · -- the ACK is held in the place of the other
    rw [ho]
    dsimp only [toList_some]
    have hc := h.count i
    have hs := h.streams i
    rw [hx] at hc hs
    refine h.bucket rfl ?_ ?_ [] ?_ (by rw [append_nil]; rfl)
      [msdu] ?_ (.refl _) (@ackCame_replaced s x msdu info h hst hlt) ?_
    · rw [hc]
      simp
    · simpa [hstream] using hs
    · rw [perm_iff_count, hx]
      intro z
      simp only [setNode, ackCame, haddr, map_append, map_cons, map_nil,
        count_append, count_cons, count_nil]
      omega
    · rw [perm_iff_count, hx]
      intro z
      simp only [setNode, ackCame, netbufs, hhead, if_true, map_append,
        map_cons, map_nil, flatMap_append, flatMap_cons, flatMap_nil,
        append_nil, count_append]
      omega
    · rw [hx]
      simp [setNode, ackCame]
  · -- both go out
    rw [ho]
    dsimp only [toList_none]
    rw [append_nil]
    refine h.leaves hx rfl (congrArg (· :: _) haddr) rfl [msdu] ?_ rfl h.replaced rfl
    rw [perm_iff_count]
    intro z
    simp only [sendNode, freeTcpNode, setNode, ackCame, hhead,
      Bool.false_eq_true, if_false, count_append]
    omega

/-! ### A node for a new stream -/

theorem allocTcpNode_cases (s : TcpAckHash) (malloc : Option ℕ) :
    (s.allocTcpNode malloc = none ∧ ¬ (s.tcpFreeList ≠ [] ∨ malloc.isSome)) ∨
      ∃ addr newNodes s', s.allocTcpNode malloc = some (addr, s') ∧
        (s.tcpFreeList ≠ [] ∨ malloc.isSome) ∧
        s' = { s with
          tcpFreeList := s'.tcpFreeList
          nodes := s'.nodes
          tcpNodeInUseCount := s.tcpNodeInUseCount + 1 } ∧
        (addr :: s'.tcpFreeList).Perm (s.tcpFreeList ++ newNodes) ∧
        s'.nodes.Perm (s.nodes ++ newNodes) := by
  unfold allocTcpNode
  cases hf : s.tcpFreeList with
  | cons addr l =>
    refine .inr ⟨addr, [], _, rfl, .inl (cons_ne_nil addr l), rfl, ?_, ?_⟩
    · rw [append_nil]
    · rw [append_nil]
  | nil =>
    cases malloc with
    | none => exact .inl ⟨rfl, by simp⟩
    | some addr =>
      refine .inr ⟨addr, [addr], _, rfl, .inr rfl, ?_, ?_, ?_⟩
      · rw [← hf]
      · exact .refl _
      · exact (perm_append_singleton addr s.nodes).symm

/-- **An ACK of a new stream** is held if its bucket is not full and a node is had, and not otherwise. -/
theorem insertTcpAck_right_iff (h : AckHashRight s) (malloc : Option ℕ)
    (hnew : ∀ x ∈ (s.node info.stream.streamId).head, x.stream ≠ info.stream) :
    AckHashRight ({ s with given := s.given ++ [msdu] }.insertTcpAck msdu info malloc) ↔
      (s.node info.stream.streamId).head.length < 255 ∧ (s.tcpFreeList ≠ [] ∨ malloc.isSome) := by
  have hc := h.count info.stream.streamId
  obtain ⟨hno, hmalloc⟩ | ⟨addr, newNodes, s', hsome, hmalloc, hs', hfree, hnodes⟩ :=
    allocTcpNode_cases { s with given := s.given ++ [msdu] } malloc
  · -- the ACK is nowhere
    unfold insertTcpAck
    rw [hno]
    refine iff_of_false (fun hr => ?_) fun hok => hmalloc hok.2
    have h₁ : (s.sent ++ netbufs s.held ++ s.flushed ++ netbufs (s.replaced.map Prod.fst)).length =
        (s.given ++ [msdu]).length := hr.acks.length_eq
    rw [h.acks.length_eq, length_append, length_singleton] at h₁
    omega
  · unfold insertTcpAck
    rw [hsome]
    dsimp only
    let x : TcpStreamNode := ⟨addr, info.stream, info.ackNumber, 0, [msdu]⟩
    have hnode : s'.node = s.node := by rw [hs']
    have hb : (if (s'.node info.stream.streamId).head = [] then (⟨1, [x]⟩ : TcpDelAckHashNode)
        else ⟨(s'.node info.stream.streamId).noOfEntries + 1,
          (s'.node info.stream.streamId).head ++ [x]⟩) =
        ⟨(s.node info.stream.streamId).noOfEntries + 1,
          (s.node info.stream.streamId).head ++ [x]⟩ := by
      rw [hnode]
      split
      · next hnil =>
        rw [hnil] at hc ⊢
        have hzero : (s.node info.stream.streamId).noOfEntries = 0 := UInt8.toNat_inj.1 hc
        rw [hzero]
        rfl
      · rfl
    rw [hb, setNode, hnode]
    have hadd : ((s.node info.stream.streamId).noOfEntries + 1).toNat =
        ((s.node info.stream.streamId).head.length + 1) % 256 := by
      rw [UInt8.toNat_add, hc]
      rfl
    constructor
    · intro hr
      have hcount := hr.count info.stream.streamId
      dsimp only at hcount
      rw [update_self, hadd, length_append, length_singleton] at hcount
      exact ⟨by omega, hmalloc⟩
    · rintro ⟨hlt, -⟩
      refine h.bucket rfl ?_ ?_ newNodes ?_ hnodes [msdu] ?_ ?_ ?_ ?_
      · rw [hadd, length_append, length_singleton]
        omega
      · rw [map_append, nodup_append]
        refine ⟨h.streams _, nodup_singleton _, fun t ht u hu => ?_⟩
        obtain ⟨y, hy, rfl⟩ := mem_map.1 ht
        rw [mem_singleton.1 hu]
        exact hnew y hy
      · rw [perm_iff_count]
        intro z
        have hz := hfree.count_eq z
        simp only [map_append, map_cons, map_nil, count_append, count_cons, count_nil, x] at hz ⊢
        omega
      · rw [perm_iff_count, hs']
        intro z
        simp only [netbufs, flatMap_append, flatMap_cons, flatMap_nil, append_nil, count_append, x]
        omega
      · rw [hs']
      · rw [hs']
        exact h.replaced
      · rw [hs']
        simp only [length_append, length_singleton]
        omega

/-! ### All the buckets are emptied -/

/-- Nodes that have left their bucket are freed, and what they held is in another place. -/
structure Released (s s' : TcpAckHash) (l : List TcpStreamNode) : Prop where
  node : s'.node = s.node
  nodes : s'.nodes = s.nodes
  given : s'.given = s.given
  replaced : s'.replaced = s.replaced
  free : s'.tcpFreeList.Perm (l.map TcpStreamNode.addr ++ s.tcpFreeList)
  inUse : s'.tcpNodeInUseCount = s.tcpNodeInUseCount - l.length
  acks : (s'.sent ++ s'.flushed).Perm (s.sent ++ s.flushed ++ netbufs l)

theorem released_foldl {op : TcpAckHash → TcpStreamNode → TcpAckHash}
    (hop : ∀ s x, Released s (op s x) [x]) (s : TcpAckHash) (l : List TcpStreamNode) :
    Released s (l.foldl op s) l := by
  induction l generalizing s with
  | nil =>
    refine ⟨rfl, rfl, rfl, rfl, .refl _, (Int.sub_zero _).symm, ?_⟩
    rw [netbufs, flatMap_nil, append_nil]
    rfl
  | cons x l ih =>
    have h₁ := hop s x
    have h₂ := ih (op s x)
    refine ⟨h₂.node.trans h₁.node, h₂.nodes.trans h₁.nodes, h₂.given.trans h₁.given,
      h₂.replaced.trans h₁.replaced, ?_, ?_, ?_⟩
    · rw [perm_iff_count]
      intro z
      have hz₁ := h₁.free.count_eq z
      have hz₂ := h₂.free.count_eq z
      simp only [foldl_cons, map_cons, map_nil, count_append, count_cons, count_nil] at hz₁ hz₂ ⊢
      omega
    · have hz₁ := h₁.inUse
      have hz₂ := h₂.inUse
      rw [foldl_cons, length_cons]
      rw [length_singleton] at hz₁
      omega
    · rw [perm_iff_count]
      intro z
      have hz₁ := h₁.acks.count_eq z
      have hz₂ := h₂.acks.count_eq z
      simp only [netbufs, foldl_cons, flatMap_cons, flatMap_nil, append_nil,
        count_append] at hz₁ hz₂ ⊢
      omega

theorem released_sendNode (s : TcpAckHash) (x : TcpStreamNode) : Released s (s.sendNode x) [x] where
  node := rfl
  nodes := rfl
  given := rfl
  replaced := rfl
  free := .refl _
  inUse := rfl
  acks := by
    rw [perm_iff_count]
    intro z
    simp only [sendNode, freeTcpNode, netbufs, flatMap_cons, flatMap_nil, append_nil, count_append]
    omega

theorem released_flushNode (s : TcpAckHash) (x : TcpStreamNode) :
    Released s (s.flushNode x) [x] where
  node := rfl
  nodes := rfl
  given := rfl
  replaced := rfl
  free := .refl _
  inUse := rfl
  acks := by
    simp only [flushNode, freeTcpNode, netbufs, flatMap_cons, flatMap_nil, append_nil, append_assoc]
    exact .refl _

/-- **A bucket is emptied.** -/
theorem AckHashRight.emptied (h : AckHashRight s)
    (hr : Released (s.setNode i ⟨0, []⟩) s' (s.node i).head) : AckHashRight s' := by
  refine h.bucket (b := ⟨0, []⟩) hr.node rfl nodup_nil [] ?_ ?_ [] ?_ ?_ ?_ ?_
  · rw [append_nil]
    exact hr.free
  · rw [hr.nodes, append_nil]
    rfl
  · rw [hr.replaced, perm_iff_count]
    intro z
    have hz := hr.acks.count_eq z
    simp only [netbufs, setNode, flatMap_nil, append_nil, count_append] at hz ⊢
    omega
  · rw [hr.given, append_nil]
    rfl
  · rw [hr.replaced]
    exact h.replaced
  · rw [hr.inUse]
    simp [setNode]

theorem AckHashRight.listed (h : AckHashRight s) (i : Fin delAckHashSize) :
    (if (s.node i).noOfEntries ≠ 0 then (s.node i).head else []) = (s.node i).head := by
  split
  · rfl
  · next hzero =>
    rw [not_not] at hzero
    have hc := h.count i
    rw [hzero] at hc
    exact (eq_nil_of_length_eq_zero hc.symm).symm

section Empty
variable {op : TcpAckHash → TcpStreamNode → TcpAckHash} (hop : ∀ s x, Released s (op s x) [x])

include hop in
theorem emptyAll_right (h : AckHashRight s) : AckHashRight (TcpAckHash.emptyAll op s) := by
  unfold emptyAll
  refine foldl_keeps (P := AckHashRight) (fun s i _ hs => ?_) h
  unfold emptyBucket
  dsimp only
  rw [hs.listed i]
  exact hs.emptied (released_foldl hop _ _)

include hop in
theorem foldl_emptyBucket {l : List (Fin delAckHashSize)} (hl : l.Nodup) (hi : i ∈ l)
    (s : TcpAckHash) : (l.foldl (TcpAckHash.emptyBucket op) s).node i = ⟨0, []⟩ := by
  have hturn : ∀ s i, (emptyBucket op s i).node =
      update s.node (id i) ((fun _ _ => ⟨0, []⟩) i (s.node (id i))) :=
    fun s i => (released_foldl hop _ _).node
  have hkeys : (l.map id).Nodup := by rwa [List.map_id]
  exact @foldl_of_mem _ _ _ _ _ node (emptyBucket op) id (fun _ _ => ⟨0, []⟩) hturn _ hkeys i hi s

include hop in
theorem emptyAll_held (s : TcpAckHash) : (TcpAckHash.emptyAll op s).held = [] := by
  unfold held emptyAll
  refine flatMap_eq_nil_iff.2 fun i hi => ?_
  rw [foldl_emptyBucket hop (nodup_finRange _) hi s]

end Empty

theorem sendAllTcpAck_right (h : AckHashRight s) : AckHashRight s.sendAllTcpAck := by
  unfold sendAllTcpAck
  exact emptyAll_right released_sendNode h

/-- **The flush**, after which there are no nodes. -/
theorem delAckQueueFlushAll_right (h : AckHashRight s) : AckHashRight s.delAckQueueFlushAll := by
  have hr := emptyAll_right released_flushNode h
  have hnil := emptyAll_held released_flushNode s
  unfold delAckQueueFlushAll
  generalize emptyAll flushNode s = t at hr hnil
  refine ⟨hr.count, hr.streams, ?_, hr.acks, hr.replaced, hr.inUse⟩
  have hnodes := hr.nodes
  rw [hnil, map_nil, nil_append] at hnodes
  change (t.held.map addr ++ []).Perm _
  rw [hnil]
  refine List.Perm.of_eq (Eq.symm (filter_eq_nil_iff.2 fun addr haddr => ?_))
  simpa using hnodes.mem_iff.2 haddr

/-! ### Every run -/

theorem findAndReplace_right_iff (h : AckHashRight s) (malloc : Option ℕ) :
    AckHashRight (s.findAndReplaceTcpAck delAckCount msdu info malloc) ↔
      AckEventOk s (.ack msdu info malloc) := by
  unfold findAndReplaceTcpAck
  dsimp only
  cases hfound : (if 0 < (s.node info.stream.streamId).noOfEntries then
      replaceTcpAck delAckCount msdu info (s.node info.stream.streamId).head else none) with
  | none =>
    have hnew : ∀ x ∈ (s.node info.stream.streamId).head, x.stream ≠ info.stream := by
      split at hfound
      · exact replaceTcpAck_eq_none.1 hfound
      · next hzero =>
        have hc := h.count info.stream.streamId
        have hle : (s.node info.stream.streamId).noOfEntries.toNat = 0 := by
          simpa [UInt8.lt_iff_toNat_lt] using hzero
        rw [eq_nil_of_length_eq_zero (hc.symm.trans hle)]
        exact fun _ hx => nomatch hx
    rw [AckEventOk, forall_prop_of_true hnew]
    exact insertTcpAck_right_iff h malloc hnew
  | some found =>
    obtain ⟨ys, x, o⟩ := found
    split at hfound
    · obtain ⟨l₁, l₂, hx, hst, rfl, rfl⟩ := replaceTcpAck_eq_some hfound
      refine iff_of_true (h.found hx hst) fun hnew => absurd hst (hnew x ?_)
      rw [hx]
      exact mem_append_right l₁ mem_cons_self
    · cases hfound

theorem ackStep_right_iff {e : AckEvent} (h : AckHashRight s)
    (hstep : ackStep delAckCount s e = some s') : AckHashRight s' ↔ AckEventOk s e := by
  cases e with
  | ack msdu info malloc =>
    obtain ⟨-, rfl⟩ := guarded_eq_some.1 hstep
    exact findAndReplace_right_iff h malloc
  | noAck stream =>
    cases hstep
    exact iff_of_true (findAndSend_right h stream) trivial
  | delAckTimer =>
    obtain ⟨-, rfl⟩ := guarded_eq_some.1 hstep
    exact iff_of_true ⟨h.count, h.streams, h.nodes, h.acks, h.replaced, h.inUse⟩ trivial
  | sendAll =>
    have hs' : sendAllTcpAck s = s' := some.inj hstep
    rw [← hs']
    exact iff_of_true (sendAllTcpAck_right h) trivial
  | flush =>
    have hs' : delAckQueueFlushAll s = s' := some.inj hstep
    rw [← hs']
    exact iff_of_true (delAckQueueFlushAll_right h) trivial

theorem initTcpDelAck_right : AckHashRight initTcpDelAck := by
  have hnil : initTcpDelAck.held = [] := flatMap_eq_nil_iff.2 fun _ _ => rfl
  refine ⟨fun _ => rfl, fun _ => nodup_nil, ?_, ?_, fun _ hr => (nomatch hr), ?_⟩
  · rw [hnil]
    exact .refl _
  · rw [hnil]
    exact .refl _
  · rw [hnil]
    rfl

end Steps

/-- **Delayed ACKs.**  As long as each ACK of a new stream finds a bucket with fewer than 255 nodes and gets a node, the hash is right; and it is no longer right after the first that does not. -/
theorem ack_hash_iff (delAckCount : ℤ) (s : TcpAckHash)
    (hs : (ackMachine delAckCount).Reach AckEventOk s) :
    AckHashRight s ∧ ∀ e s', (ackMachine delAckCount).step s e = some s' →
      (AckHashRight s' ↔ AckEventOk s e) := by
  have h : AckHashRight s := by
    refine hs.invariant AckHashRight (fun s hinit => ?_) fun _ _ _ h hok hstep =>
      (ackStep_right_iff h hstep).2 hok
    rw [show s = initTcpDelAck from hinit]
    exact initTcpDelAck_right
  exact ⟨h, fun _ _ hstep => ackStep_right_iff h hstep⟩

/-- A stream from the port, in bucket 0 if the port is a multiple of 256. -/
def streamOf (srcPort : UInt16) : TcpStream := ⟨0, 0, 0, srcPort⟩

/-- **An ACK is lost** when no node can be had for it. -/
theorem mallocFails_losesAck : ¬ ∀ delAckCount s,
    (ackMachine delAckCount).Reach (fun _ _ => True) s → AckHashRight s := by
  intro h
  have hr := h 2 _ (.step (e := .ack 1 ⟨streamOf 0, 5⟩ none) (.start rfl) trivial rfl)
  have hlen := hr.acks.length_eq
  revert hlen
  decide +kernel

/-- Two streams in one bucket: an ACK of the first is replaced, the second has a segment to send, and then the first. -/
theorem ack_hash_iff_collision : ∃ s : TcpAckHash, s.sent = [4, 3] ∧ AckHashRight s := by
  let es : List AckEvent :=
    [.ack 1 ⟨streamOf 0, 5⟩ (some 10), .ack 3 ⟨streamOf 0, 9⟩ none,
      .ack 4 ⟨streamOf 256, 7⟩ (some 11), .noAck (streamOf 256), .noAck (streamOf 0)]
  obtain ⟨s, -, hok, hsent⟩ : ∃ s, (ackMachine 2).run initTcpDelAck es = some s ∧
      (ackMachine 2).Reach AckEventOk s ∧ s.sent = [4, 3] :=
    Machine.exists_reach (by rfl) (by decide +kernel) (by decide +kernel)
  exact ⟨s, hsent, (ack_hash_iff 2 s hok).1⟩

end Qcacld.Txrx

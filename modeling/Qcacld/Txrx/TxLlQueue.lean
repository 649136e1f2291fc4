import Qcacld.Txrx.TxEntry
import Qcacld.Txrx.TxThrottle

/-!
# Txrx — TxLlQueue

The low latency pause queues.  `ol_tx_ll_queue` gives a list of frames to `ol_tx_ll`, or appends it to the queue of the vdev; the timer of the vdev, the end of a pause, a new frame and the throttle timers drain the queues.  Head, tail and depth of a queue are kept by hand.

A queue is a bounded FIFO, and the frames of a vdev come to `ol_tx_ll` in their order, if no list goes past a backlog.  One does when the vdev is paused for an unauthorised peer and the first frame of the list is an EAPOL frame: the others of the list are not looked at.
-/

namespace Qcacld.Txrx
open Qcacld.Adf Qcacld.Support

/-- `ll_pause` of a vdev.  `accepted` and `offered` are history: the frames that have been taken from the caller, and those that `ol_tx_ll` has been given of them, without EAPOL and WAPI frames. -/
structure LlTxq where
  head : Option AdfNbuf
  tail : Option AdfNbuf
  depth : Int
  maxQDepth : Int
  pausedReason : UInt32
  txFlLwm : UInt16
  accepted : List AdfNbuf
  offered : List AdfNbuf

/-- The vdevs, in the order of `vdev_list`, and their frames. -/
structure LlPdev (n : Nat) where
  entry : TxEntry
  /-- the ethertype of a frame -/
  etherType : AdfNbuf → Nat
  vdevs : Fin n → LlTxq
  currentThrottleLevel : Int
  currentThrottlePhase : ThrottlePhase
  txThreshold : UInt32

structure LlAround where
  frm : AdfNbuf → LlFrame
  hasAdfCtx : Bool
  /-- `tx_desc.num_free` -/
  numFree : UInt16

def pauseReasonPeerUnauthorized : UInt32 := 2
def pauseReasonVdevSuspend : UInt32 := 16
def throttleLevelMax : Int := 4
def pauseQueueSendMargin : Nat := 50

def IsEapolWapi (etherType : Nat) : Prop := etherType = ethertypePae ∨ etherType = ethertypeWai
deriving Decidable

variable {n : Nat} (a : LlAround)

namespace LlPdev

def modify (s : LlPdev n) (v : Fin n) (f : LlTxq → LlTxq) : LlPdev n :=
  { s with vdevs := Function.update s.vdevs v (f (s.vdevs v)) }

/-- Those of the frames that are no EAPOL or WAPI frames. -/
def data (s : LlPdev n) (l : List AdfNbuf) : List AdfNbuf :=
  l.filter fun m => ¬ IsEapolWapi (s.etherType m)

/-! ### Draining -/

/-- The first frame of a queue is taken and given to `ol_tx_ll`; if that does not take it, it is freed. -/
def sendHead (s : LlPdev n) (v : Fin n) (txMsdu : AdfNbuf) : Option (LlPdev n) := do
  let next := adfNbufNext s.entry.heap txMsdu
  let entry := { s.entry with heap := adfNbufSetNext s.entry.heap txMsdu none }
  let (entry, rejected) ← olTxLl a.frm a.hasAdfCtx 1 entry (some txMsdu)
  let entry ← entry.adfNbufTxFree 1 rejected
  return { s with entry := entry }.modify v fun x => { x with
    head := next
    tail := if next = none then none else x.tail
    offered := x.offered ++ s.data [txMsdu] }

def maxToAccept (x : LlTxq) : Nat :=
  let lwm := x.txFlLwm.toNat
  let margin := if pauseQueueSendMargin < lwm then lwm - pauseQueueSendMargin else lwm
  a.numFree.toNat - margin

/-- The loop of `ol_tx_vdev_ll_pause_queue_send_base`. -/
def sendBaseLoop (v : Fin n) : Nat → LlPdev n → Option (LlPdev n)
  | 0, s => some s
  | maxToAccept + 1, s =>
    if (s.vdevs v).depth = 0 then some s
    else
      let s := s.modify v fun x => { x with depth := x.depth - 1 }
      match (s.vdevs v).head with
      | none => sendBaseLoop v maxToAccept s
      | some txMsdu => (s.sendHead a v txMsdu).bind (sendBaseLoop v maxToAccept)

def pauseQueueSendBase (s : LlPdev n) (v : Fin n) : Option (LlPdev n) :=
  if (s.vdevs v).pausedReason ≠ 0 then some s
  else sendBaseLoop a v (maxToAccept a (s.vdevs v)) s

def pauseQueueSend (s : LlPdev n) (v : Fin n) : Option (LlPdev n) :=
  if s.currentThrottleLevel ≠ 0 ∧ s.currentThrottlePhase = .off then some s
  else s.pauseQueueSendBase a v

/-- What `ol_tx_pdev_ll_pause_queue_send_all` does for one vdev. -/
def sendVdev (s : LlPdev n) (maxToSend : UInt32) (v : Fin n) : Option (LlPdev n × UInt32 × Bool) :=
  if (s.vdevs v).depth = 0 then some (s, maxToSend, false)
  else if (s.vdevs v).pausedReason ≠ 0 then some (s, maxToSend, false)
  else match (s.vdevs v).head with
    | none => some (s, maxToSend, false)
    | some txMsdu => do
      let s ← (s.modify v fun x => { x with depth := x.depth - 1 }).sendHead a v txMsdu
      return (s, maxToSend - 1, (s.vdevs v).depth ≠ 0)

/-- A round of `TAILQ_FOREACH`. -/
def sendRound : List (Fin n) → LlPdev n → UInt32 → Option (LlPdev n × UInt32 × Bool)
  | [], s, maxToSend => some (s, maxToSend, false)
  | v :: vs, s, maxToSend => do
    let (s, maxToSend, more) ← s.sendVdev a maxToSend v
    let (s, maxToSend, more') ← sendRound vs s maxToSend
    return (s, maxToSend, more || more')

/-- `do … while (more && max_to_send)` -/
def sendRounds : Nat → LlPdev n → UInt32 → Option (LlPdev n)
  | 0, _, _ => none
  | k + 1, s, maxToSend => do
    let (s, maxToSend, more) ← sendRound a (List.finRange n) s maxToSend
    if more ∧ maxToSend ≠ 0 then sendRounds k s maxToSend else some s

def backlog (s : LlPdev n) : Nat := tally (fun v => (s.vdevs v).depth.toNat) (List.finRange n)

/-- `ol_tx_pdev_ll_pause_queue_send_all`; each round that has one after it sends a frame. -/
def pauseQueueSendAll (s : LlPdev n) : Option (LlPdev n) :=
  if s.currentThrottlePhase = .off then some s
  else sendRounds a (s.backlog + 1) s s.txThreshold

/-! ### Queueing -/

/-- Unless the queue is empty, a frame is hooked behind its last one. -/
def hookLast (heap : NbufHeap) (head tail : Option AdfNbuf) (msdu : AdfNbuf) : NbufHeap :=
  match head, tail with
  | some _, some tail => adfNbufSetNext heap tail (some msdu)
  | _, _ => heap

/-- The loop of `ol_tx_vdev_pause_queue_append`. -/
def appendLoop (v : Fin n) : Nat → LlPdev n → Option AdfNbuf → Option (LlPdev n × Option AdfNbuf)
  | _, s, none => some (s, none)
  | 0, _, some _ => none
  | k + 1, s, some msdu =>
    let x := s.vdevs v
    if x.depth < x.maxQDepth then
      let next := adfNbufNext s.entry.heap msdu
      let heap := hookLast s.entry.heap x.head x.tail msdu
      let s := { s with entry := { s.entry with heap := heap } }.modify v fun x => { x with
        depth := x.depth + 1
        head := if x.head = none then some msdu else x.head
        tail := some msdu
        accepted := x.accepted ++ s.data [msdu] }
      appendLoop v k s next
    else some (s, some msdu)

def pauseQueueAppend (s : LlPdev n) (v : Fin n) (k : Nat) (msduList : Option AdfNbuf) :
    Option (LlPdev n × Option AdfNbuf) := do
  let (s, msduList) ← appendLoop v k s msduList
  match (s.vdevs v).tail with
  | none => return (s, msduList)
  | some tail =>
    let entry := { s.entry with heap := adfNbufSetNext s.entry.heap tail none }
    return ({ s with entry := entry }, msduList)

/-- A list goes to `ol_tx_ll`, past the queue. -/
def sendNow (s : LlPdev n) (v : Fin n) (k : Nat) (msdu : AdfNbuf) :
    Option (LlPdev n × Option AdfNbuf) := do
  let given := (walk s.entry.heap k (some msdu)).getD []
  let (entry, rejected) ← olTxLl a.frm a.hasAdfCtx k s.entry (some msdu)
  let taken := s.data (given.takeWhile fun m => rejected ≠ some m)
  return ({ s with entry := entry }.modify v fun x => { x with
    accepted := x.accepted ++ taken
    offered := x.offered ++ taken }, rejected)

/-- Paused for an unauthorised peer and for nothing else, a vdev lets EAPOL and WAPI frames through. -/
def LetsThrough (x : LlTxq) (etherType : Nat) : Prop :=
  x.pausedReason ≠ 0 ∧ x.pausedReason &&& pauseReasonPeerUnauthorized = x.pausedReason ∧
    IsEapolWapi etherType
deriving Decidable

/-- `ol_tx_ll_queue`, and the frames it does not accept. -/
def olTxLlQueue (s : LlPdev n) (v : Fin n) (k : Nat) (msduList : Option AdfNbuf) :
    Option (LlPdev n × Option AdfNbuf) :=
  match msduList with
  | none => some (s, none)
  | some msdu =>
    if (s.vdevs v).pausedReason ≠ 0 then
      if LetsThrough (s.vdevs v) (s.etherType msdu) then s.sendNow a v k msdu
      else s.pauseQueueAppend v k (some msdu)
    else if 0 < (s.vdevs v).depth ∨ s.currentThrottleLevel ≠ 0 then do
      let (s, rejected) ← s.pauseQueueAppend v k (some msdu)
      if s.currentThrottleLevel = 0 ∨ s.currentThrottlePhase = .on then
        let s ← s.pauseQueueSendBase a v
        return (s, rejected)
      else return (s, rejected)
    else s.sendNow a v k msdu

/-! ### Pausing and throttling -/

def vdevPause (s : LlPdev n) (v : Fin n) (reason : UInt32) : LlPdev n :=
  s.modify v fun x => { x with pausedReason := x.pausedReason ||| reason }

/-- `ol_txrx_vdev_unpause`; after a suspend only the timer is started. -/
def vdevUnpause (s : LlPdev n) (v : Fin n) (reason : UInt32) : Option (LlPdev n) :=
  if (s.vdevs v).pausedReason &&& reason ≠ 0 then
    let s := s.modify v fun x => { x with pausedReason := x.pausedReason &&& ~~~reason }
    if reason = pauseReasonVdevSuspend then some s
    else if (s.vdevs v).pausedReason = 0 then s.pauseQueueSend a v
    else some s
  else some s

def throttleSetLevel (s : LlPdev n) (level : Int) : LlPdev n :=
  if throttleLevelMax ≤ level then s
  else { s with
    currentThrottleLevel := level
    currentThrottlePhase := .off }

def throttlePhaseTimer (s : LlPdev n) : Option (LlPdev n) :=
  match s.currentThrottlePhase with
  | .on => some { s with currentThrottlePhase := .off }
  | .off => { s with currentThrottlePhase := .on }.pauseQueueSendAll a

def frames (s : LlPdev n) (v : Fin n) : List AdfNbuf :=
  (walk s.entry.heap (s.vdevs v).depth.toNat (s.vdevs v).head).getD []

/-- The caller has a list of frames, with their ethertypes. -/
def give (s : LlPdev n) (l : List (AdfNbuf × Nat)) : LlPdev n :=
  { s with
    entry := { s.entry with heap := threadAll s.entry.heap (l.map Prod.fst) }
    etherType := fun m => (l.lookup m).getD (s.etherType m) }

end LlPdev

/-! ### The runs -/

inductive LlEvent (n : Nat) where
  | llQueue (v : Fin n) (l : List (AdfNbuf × Nat)) (a : LlAround)
  /-- the timer of the vdev -/
  | queueSend (v : Fin n) (a : LlAround)
  | queueSendBase (v : Fin n) (a : LlAround)
  /-- the timer of the throttle -/
  | queueSendAll (a : LlAround)
  | pause (v : Fin n) (reason : UInt32)
  | unpause (v : Fin n) (reason : UInt32) (a : LlAround)
  | setLevel (level : Int)
  | phaseTimer (a : LlAround)

/-- The frames are the caller's: no two are the same, and none is in a queue. -/
def LlPdev.Owned (s : LlPdev n) (l : List (AdfNbuf × Nat)) : Prop :=
  (l.map Prod.fst).Nodup ∧ ∀ m ∈ l.map Prod.fst, ∀ v, m ∉ s.frames v
deriving Decidable

/-- A call of `ol_tx_ll_queue` with a list of the caller's. -/
def LlPdev.llQueue (s : LlPdev n) (v : Fin n) (l : List (AdfNbuf × Nat)) :
    Option (LlPdev n × Option AdfNbuf) :=
  (s.give l).olTxLlQueue a v l.length (l.map Prod.fst).head?

/-- One event; `none` when the state does not enable it. -/
def llStep (s : LlPdev n) : LlEvent n → Option (LlPdev n)
  | .llQueue v l a => do
    guard (s.Owned l)
    let (s, _) ← s.llQueue a v l
    return s
  | .queueSend v a => s.pauseQueueSend a v
  | .queueSendBase v a => s.pauseQueueSendBase a v
  | .queueSendAll a => s.pauseQueueSendAll a
  | .pause v reason => some (s.vdevPause v reason)
  | .unpause v reason a => s.vdevUnpause a v reason
  | .setLevel level => some (s.throttleSetLevel level)
  | .phaseTimer a => s.throttlePhaseTimer a

/-- After `ol_txrx_vdev_attach`. -/
structure LlInit (s : LlPdev n) : Prop where
  head : ∀ v, (s.vdevs v).head = none
  tail : ∀ v, (s.vdevs v).tail = none
  depth : ∀ v, (s.vdevs v).depth = 0
  maxQDepth : ∀ v, 0 ≤ (s.vdevs v).maxQDepth
  history : ∀ v, (s.vdevs v).accepted = [] ∧ (s.vdevs v).offered = []

def llMachine (n : Nat) : Machine (LlPdev n) (LlEvent n) where
  init := LlInit
  step := llStep

end Qcacld.Txrx

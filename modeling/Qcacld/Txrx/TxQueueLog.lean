import Qcacld.Support.Bytes
import Qcacld.Support.Layout
import Qcacld.Support.Runs
import Qcacld.Support.Tiled

/-!
# Txrx — TxQueueLog

The event log of the tx queues: a buffer of 512 bytes that is written round after round.  A record is a byte that says its type, a pad, and a payload whose size goes by its type; the last record of a round is followed by the mark of a wrap.  `ol_tx_queue_log_alloc` makes room for a record and moves `oldest_record_offset` over those it is going to overwrite, and `ol_tx_queue_log_display` walks from there to `offset`.
-/

namespace Qcacld.Txrx
open Qcacld.Support

abbrev olTxqLogSize : Nat := 512

/-- `enum ol_tx_log_entry_type` -/
inductive OlTxLogEntryType where
  | invalid
  | queueState
  | enqueue
  | dequeue
  | drop
  | queueFree
  | wrap
deriving DecidableEq

namespace OlTxLogEntryType

def toByte : OlTxLogEntryType → UInt8
  | invalid => 0
  | queueState => 1
  | enqueue => 2
  | dequeue => 3
  | drop => 4
  | queueFree => 5
  | wrap => 6

/-- A byte that is no type goes where an invalid one goes. -/
def ofByte : UInt8 → OlTxLogEntryType
  | 1 => queueState
  | 2 => enqueue
  | 3 => dequeue
  | 4 => drop
  | 5 => queueFree
  | 6 => wrap
  | _ => invalid

@[simp]
theorem ofByte_toByte (type : OlTxLogEntryType) : ofByte type.toByte = type := by
  cases type <;> rfl

/-- The size that `ol_tx_queue_log_entry_type_info` gives when `num_cats_active` is `numCats`. -/
def size (numCats : Nat) : OlTxLogEntryType → Nat
  | enqueue | dequeue | queueFree => 6
  | queueState => 7 + numCats * 6
  | invalid | drop | wrap => 0

def align : OlTxLogEntryType → Nat
  | enqueue | dequeue | queueFree => 2
  | queueState => 4
  | invalid | drop | wrap => 0

/-- `(align - (offset + 1)) & (align - 1)`; under no alignment the mask leaves it as it is. -/
def alignPad (type : OlTxLogEntryType) (offset : Nat) : Int :=
  ((type.align : Int) - (offset + 1)) % type.align

end OlTxLogEntryType

/-! ### Records -/

/-- `struct ol_tx_log_queue_add_t` -/
structure OlTxLogQueueAdd where
  numFrms : UInt8
  tid : UInt8
  peerId : UInt16
  numBytes : UInt16

def OlTxLogQueueAdd.bytes (r : OlTxLogQueueAdd) : List UInt8 :=
  r.numFrms :: r.tid :: (toLittleEndian 2 r.peerId.toNat ++ toLittleEndian 2 r.numBytes.toNat)

def OlTxLogQueueAdd.ofBytes (bytes : List UInt8) : OlTxLogQueueAdd where
  numFrms := bytes.getD 0 0
  tid := bytes.getD 1 0
  peerId := .ofNat (littleEndian ((bytes.drop 2).take 2))
  numBytes := .ofNat (littleEndian ((bytes.drop 4).take 2))

/-- `struct ol_tx_log_queue_state_var_sz_t`; the data are the frames and the bytes of each active category. -/
structure OlTxLogQueueState where
  activeBitmap : UInt32
  credit : UInt16
  data : List (UInt16 × UInt32)

def OlTxLogQueueState.header (r : OlTxLogQueueState) : List UInt8 :=
  toLittleEndian 4 r.activeBitmap.toNat ++ toLittleEndian 2 r.credit.toNat ++
    [UInt8.ofNat r.data.length]

def OlTxLogQueueState.bytes (r : OlTxLogQueueState) : List UInt8 :=
  r.header ++
    r.data.flatMap fun (frms, bytes) => toLittleEndian 2 frms.toNat ++ toLittleEndian 4 bytes.toNat

inductive LogEntry where
  | enqueue (r : OlTxLogQueueAdd)
  | dequeue (r : OlTxLogQueueAdd)
  | queueFree (r : OlTxLogQueueAdd)
  | queueState (r : OlTxLogQueueState)

namespace LogEntry

def type : LogEntry → OlTxLogEntryType
  | enqueue _ => .enqueue
  | dequeue _ => .dequeue
  | queueFree _ => .queueFree
  | queueState _ => .queueState

def bytes : LogEntry → List UInt8
  | enqueue r | dequeue r | queueFree r => r.bytes
  | queueState r => r.bytes

/-- The `extra_bytes` of its allocation. -/
def extraBytes : LogEntry → Nat
  | enqueue _ | dequeue _ | queueFree _ => 0
  | queueState r => 6 * r.data.length

end LogEntry

structure LogRecord where
  offset : Nat
  len : Nat
  entry : LogEntry

/-- What is printed of a record, but for the address of the peer and the categories. -/
inductive LogLine where
  | queue (type : OlTxLogEntryType) (r : OlTxLogQueueAdd)
  | state (activeBitmap : UInt32)

def LogEntry.line : LogEntry → LogLine
  | enqueue r => .queue .enqueue r
  | dequeue r => .queue .dequeue r
  | queueFree r => .queue .queueFree r
  | queueState r => .state r.activeBitmap

/-! ### The log -/

/-- `txq_log` of a pdev.  The rest is history: where the last mark of a wrap is, and the records since the last one that has been overwritten. -/
structure TxqLog where
  oldestRecordOffset : Nat
  offset : Nat
  allowWrap : Bool
  wrapped : Bool
  data : Nat → UInt8
  wrapOffset : Nat
  records : List LogRecord

namespace TxqLog

/-- Read some bytes; `none` when they are not all in `data`. -/
def read (s : TxqLog) (offset n : Nat) : Option (List UInt8) :=
  if offset + n ≤ olTxqLogSize then some (span s.data offset n) else none

def readType (s : TxqLog) (offset : Nat) : Option OlTxLogEntryType :=
  (s.read offset 1).map fun bytes => .ofByte (bytes.headD 0)

/-- Where the payload is of a record at an offset. -/
def payload (type : OlTxLogEntryType) (offset : Nat) : Nat :=
  (offset + 1 + type.alignPad offset).toNat

/-- `num_cats_active` of the record at an offset, if it is one of a state. -/
def numCatsActive (s : TxqLog) (type : OlTxLogEntryType) (offset : Nat) : Option Nat :=
  if type = .queueState then
    (s.read (payload type offset + 6) 1).map fun bytes => (bytes.headD 0).toNat
  else some 0

/-- `size + 1 + align_pad` of the record at an offset, after `ol_tx_queue_log_entry_type_info` has read the record to see how large it is. -/
def recordSize (s : TxqLog) (type : OlTxLogEntryType) (offset : Nat) : Option Int :=
  (s.numCatsActive type offset).map fun numCats =>
    type.size numCats + 1 + type.alignPad offset

/-- The loop of `ol_tx_queue_log_oldest_update`; `fuel` bounds the turns. -/
def oldestWalk (s : TxqLog) (offset : Nat) : Nat → Nat → Option Nat
  | 0, _ => none
  | fuel + 1, oldestRecordOffset =>
    if oldestRecordOffset < offset then do
      let type ← s.readType oldestRecordOffset
      if type = .wrap then return 0
      let delta ← s.recordSize type oldestRecordOffset
      s.oldestWalk offset fuel (oldestRecordOffset + delta).toNat
    else some oldestRecordOffset

/-- The turns a walk may take: two rounds of records, and the marks between. -/
def walkFuel : Nat := 2 * olTxqLogSize + 2

/-- `ol_tx_queue_log_oldest_update`; `none` when it reads outside `data` or does not end. -/
def oldestUpdate (s : TxqLog) (offset : Nat) : Option TxqLog :=
  if s.wrapped = false then some s
  else if offset > s.offset ∧ s.oldestRecordOffset = 0 then some s
  else do
    let oldest ← s.oldestWalk offset walkFuel
      (if offset > s.offset then s.oldestRecordOffset else 0)
    return { s with oldestRecordOffset := if oldest ≥ olTxqLogSize then 0 else oldest }

/-- `alloc_found` in `ol_tx_queue_log_alloc` -/
def allocFound (s : TxqLog) (type : OlTxLogEntryType) (offset len : Nat) : Option TxqLog := do
  let s ← s.oldestUpdate (offset + len)
  let data := if offset = 0 then Function.update s.data s.offset OlTxLogEntryType.wrap.toByte
    else s.data
  let s := { s with
    data := Function.update data offset type.toByte
    offset := offset + len }
  return if s.offset ≥ olTxqLogSize then { s with offset := 0, wrapped := true } else s

def allocSize (type : OlTxLogEntryType) (extraBytes offset : Nat) : Nat :=
  (type.size 0 + extraBytes + 1 + type.alignPad offset).toNat

/-- `ol_tx_queue_log_alloc`: the log, and where in it the record is. -/
def alloc (s : TxqLog) (type : OlTxLogEntryType) (extraBytes : Nat) :
    Option (TxqLog × Option Nat) :=
  let len := allocSize type extraBytes
  if olTxqLogSize - s.offset ≥ len s.offset then do
    return (← s.allocFound type s.offset (len s.offset), some s.offset)
  else if s.allowWrap = false then some (s, none)
  else
    let s := { s with wrapped := true }
    if olTxqLogSize ≤ len 0 then some (s, none)
    else do
      return (← s.allocFound type 0 (len 0), some 0)

def recordAt (e : LogEntry) (offset : Nat) : LogRecord :=
  ⟨offset, allocSize e.type e.extraBytes offset, e⟩

/-- A record has no byte in common with the new one, nor with the mark of the wrap. -/
def spares (s : TxqLog) (new : LogRecord) (r : LogRecord) : Bool :=
  decide (r.offset + r.len ≤ new.offset ∨ new.offset + new.len ≤ r.offset) &&
    (new.offset ≠ 0 || s.offset < r.offset || r.offset + r.len ≤ s.offset)

/-- The caller writes the payload.  No record survives one that is overwritten after it. -/
def written (s s' : TxqLog) (e : LogEntry) (offset : Nat) : TxqLog :=
  let new := recordAt e offset
  { s' with
    data := blit s'.data (payload e.type offset) e.bytes
    wrapOffset := if offset = 0 ∧ new.len ≤ s.offset then s.offset else s.wrapOffset
    records := s.records.rtakeWhile (s.spares new) ++ [new] }

/-- `ol_tx_queue_log_enqueue`, `ol_tx_queue_log_dequeue`, `ol_tx_queue_log_free` and `ol_tx_queue_log_sched` with what its caller writes. -/
def log (s : TxqLog) (e : LogEntry) : Option TxqLog := do
  let (s', found) ← s.alloc e.type e.extraBytes
  return match found with
  | none => s'
  | some offset => s.written s' e offset

/-- `ol_tx_queue_log_record_display`: what it prints, and what it returns. -/
def recordDisplay (s : TxqLog) (offset : Nat) : Option (Option LogLine × Int) := do
  let type ← s.readType offset
  let delta ← s.recordSize type offset
  match type with
  | .enqueue | .dequeue | .queueFree =>
    let record ← s.read (payload type offset) 6
    return (some (.queue type (.ofBytes record)), delta)
  | .queueState =>
    let record ← s.read (payload type offset) 8
    return (some (.state (.ofNat (littleEndian (record.take 4)))), delta)
  | .wrap => return (none, -1 * offset)
  | .invalid | .drop => return (none, 0)

/-- The loop of `ol_tx_queue_log_display`: the lines it prints, with the offsets of their records. -/
def displayWalk (s : TxqLog) : Nat → Nat → Bool → Option (List (Nat × LogLine))
  | 0, _, _ => none
  | fuel + 1, offset, unwrap =>
    if unwrap = true ∨ offset ≠ s.offset then do
      let (line, delta) ← s.recordDisplay offset
      if delta = 0 then none
      else
        let unwrap := if delta < 0 then false else unwrap
        let lines ← s.displayWalk fuel (offset + delta).toNat unwrap
        return line.toList.map (offset, ·) ++ lines
    else some []

/-- `ol_tx_queue_log_display`; `none` when it comes upon no record, reads outside `data` or does not end. -/
def display (s : TxqLog) : Option (List (Nat × LogLine)) :=
  s.displayWalk walkFuel s.oldestRecordOffset s.wrapped

end TxqLog

/-- `ol_tx_queue_log_clear`, and `ol_txrx_pdev_attach` -/
def txqLogClear : TxqLog where
  oldestRecordOffset := 0
  offset := 0
  allowWrap := true
  wrapped := false
  data _ := 0
  wrapOffset := 0
  records := []

/-- The log under the records that are passed to it; a step is `none` when it does not end. -/
def txqLogMachine : Machine TxqLog LogEntry where
  init s := s = txqLogClear
  step := TxqLog.log

end Qcacld.Txrx

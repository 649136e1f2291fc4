import Mathlib.Data.List.Nodup
import Qcacld.Support.Runs
import Qcacld.Wmi.WmiTlvPad

/-!
# Wmi — WmiUnified

The handle of the WMI service: commands are counted from when they go to HTC until they come back, and events from the target are checked, copied where their TLVs need it, and given to the handler that is registered for them.  Some events are urgent and done with at once; the others wait in a queue for a work item.  Radar events wait too, and are counted while they do.

`wmi_unified_iff` says what holds in every run: the count of commands is right, every event buffer and every copy of a TLV is released exactly once, the events that waited are taken in order, and the handlers form one table.  A malformed urgent event is not released, and a radar event that is dropped after it was counted stays counted.

An event is known by its number.  Where the check of an event's TLVs reads outside of it, what it finds there, and with it how the check goes on, is the environment's.
-/

namespace Qcacld.Wmi
open Qcacld.Support Function List Option Nat

/-! ### The handlers -/

def wmiUnifiedMaxEvent : Nat := 0x100

/-- `event_handler`, `event_id` and `max_event_idx` -/
structure EventTable where
  eventHandler : Nat → Option Nat
  eventId : Nat → UInt32
  maxEventIdx : Nat

def getEventHandlerIx (t : EventTable) (eventId : UInt32) : Option Nat :=
  (List.range (min t.maxEventIdx wmiUnifiedMaxEvent)).find? fun idx =>
    t.eventId idx = eventId ∧ (t.eventHandler idx).isSome

/-- `wmi_unified_register_event_handler`; `none` when it fails. -/
def registerEventHandler (eventId : UInt32) (handlerFunc : Nat) (t : EventTable) :
    Option EventTable :=
  if (getEventHandlerIx t eventId).isSome then none
  else if t.maxEventIdx = wmiUnifiedMaxEvent then none
  else some {
    eventHandler := update t.eventHandler t.maxEventIdx (some handlerFunc)
    eventId := update t.eventId t.maxEventIdx eventId
    maxEventIdx := t.maxEventIdx + 1 }

/-- `wmi_unified_unregister_event_handler`; `none` when it fails. -/
def unregisterEventHandler (eventId : UInt32) (t : EventTable) : Option EventTable :=
  match getEventHandlerIx t eventId with
  | none => none
  | some idx =>
    let eventHandler := update t.eventHandler idx none
    let eventId := update t.eventId idx 0
    let maxEventIdx := t.maxEventIdx - 1
    some {
      eventHandler := update eventHandler idx (eventHandler maxEventIdx)
      eventId := update eventId idx (eventId maxEventIdx)
      maxEventIdx }

/-- One table without a gap, and at most one entry for an event. -/
structure EventTable.Right (t : EventTable) : Prop where
  fits : t.maxEventIdx ≤ wmiUnifiedMaxEvent
  full : ∀ i < t.maxEventIdx, (t.eventHandler i).isSome
  once : ∀ i < t.maxEventIdx, ∀ j < t.maxEventIdx, t.eventId i = t.eventId j → i = j

/-! ### Events -/

/-- The memory from the data of an `adf_nbuf_t` on, and how much of it belongs to the event. -/
structure EvtBuf where
  mem : List UInt8
  len : Nat

/-- `sizeof(WMI_CMD_HDR)` -/
def wmiCmdHdrSize : Nat := 4

/-- `WMI_GET_FIELD(adf_nbuf_data(evt_buf), WMI_CMD_HDR, COMMANDID)` -/
def EvtBuf.id (b : EvtBuf) : UInt32 :=
  wmitlvGetCmdid (UInt32.ofNat (byteAt b.mem 0 + 2 ^ 8 * byteAt b.mem 1 +
    2 ^ 16 * byteAt b.mem 2 + 2 ^ 24 * byteAt b.mem 3))

/-- `adf_nbuf_pull_head(evt_buf, sizeof(WMI_CMD_HDR))`, and what is behind the header. -/
def EvtBuf.pullHead (b : EvtBuf) : Option (List UInt8) :=
  if wmiCmdHdrSize ≤ b.len then some ((b.mem.take b.len).drop wmiCmdHdrSize) else none

def txPauseEventId : UInt32 := 0x4005

def dfsRadarEventId : UInt32 := 0x4006

def wowWakeupHostEventId : UInt32 := 0x13001

def d0WowDisableAckEventId : UInt32 := 0x13002

def pdevUtfScpcEventId : UInt32 := 0x1d016

/-- `WMI_EVT_GRP_START_ID(WMI_GRP_START)` -/
def evtGrpStartId : UInt32 := 0x3001

def radarWmiEventPendingMax : Int := 1000

def wmiMaxCmds : Int := 256

/-- The copies made of an event's TLVs: the structure that leads to them, and the buffers of the TLVs that are padded. -/
inductive TlvCopy where
  | params
  | buf (id : Nat)

/-- The copies that a check has made and leaves, or has released itself. -/
def PadResult.copies (r : PadResult) : List TlvCopy :=
  (match r.wmiCmdStruct with
    | none => []
    | some _ => [.params]) ++ (List.range r.bufs.length).map .buf

/-! ### The handle -/

/-- A command on its way: the part of the `HTC_PACKET` that is read again. -/
structure WmiCmd where
  cmdId : UInt32
  len : Nat

/-- The handle, what HTC has of it, and what has become of the events. -/
structure WmiUnified where
  pendingCmds : Int
  /-- the commands that HTC has and has not completed -/
  htcPkts : List WmiCmd
  table : EventTable
  eventQueue : List (Nat × EvtBuf)
  dfsWmiEventPending : Int
  dfsWmiEventDropped : Int
  /-- how many events have been received -/
  received : Nat
  /-- the event buffers that have been freed -/
  freed : List Nat
  /-- the events that the work has taken from the queue, the first one first -/
  taken : List Nat
  tlvAllocs : List (Nat × TlvCopy)
  tlvFrees : List (Nat × TlvCopy)

open WmiUnified

/-- What stays as it is: the events of the table, and whether `scn_handle` is set. -/
structure WmiConfig where
  evtTable : List AttrGroup
  wma : Bool

/-- What a check of TLVs meets: which allocations succeed, and how it goes when it reads outside the event. -/
structure CheckEnv where
  mem : Nat → Bool
  outside : PadResult

variable (c : WmiConfig)

def checkAndPadEventTlvs (id : UInt32) (data : List UInt8) (e : CheckEnv) : PadResult :=
  (wmitlvCheckAndPadTlvs (attrList c.evtTable) data id e.mem).getD e.outside

/-- The buffers that a check has allocated are accounted for: those of a failed check are freed, those of a successful one are the parameters'. -/
def PadResult.Accounted (id : UInt32) (r : PadResult) : Prop :=
  match r.wmiCmdStruct with
  | none => r.ret ≠ 0 ∧ r.freed = List.range r.bufs.length
  | some params => r.ret = 0 ∧ r.freed = [] ∧
      wmitlvFreeAllocatedTlvs (attrList c.evtTable) id params = List.range r.bufs.length

instance (id : UInt32) (r : PadResult) : Decidable (r.Accounted c id) := by
  unfold PadResult.Accounted
  split <;> infer_instance

namespace WmiUnified

def free (s : WmiUnified) (evt : Nat) : WmiUnified := { s with freed := s.freed ++ [evt] }

def checked (s : WmiUnified) (evt : Nat) (r : PadResult) : WmiUnified :=
  { s with
    tlvAllocs := s.tlvAllocs ++ r.copies.map (evt, ·)
    tlvFrees := s.tlvFrees ++ r.freed.map fun id => (evt, .buf id) }

def freeAllocatedEventTlvs (s : WmiUnified) (evt : Nat) (id : UInt32)
    (wmiCmdStruct : Option (List WmitlvCmdParamInfo)) : WmiUnified :=
  match wmiCmdStruct with
  | none => s
  | some params =>
    let bufs := wmitlvFreeAllocatedTlvs (attrList c.evtTable) id params
    { s with tlvFrees := s.tlvFrees ++ (bufs.map (fun id => (evt, .buf id)) ++ [(evt, .params)]) }

/-- A registered handler is called.  The one for radar events, `wma_unified_dfs_radar_rx_event_handler`, counts them down before all else. -/
def callHandler (s : WmiUnified) (id : UInt32) : WmiUnified :=
  if id = dfsRadarEventId then { s with dfsWmiEventPending := s.dfsWmiEventPending - 1 } else s

end WmiUnified

/-! ### Receiving -/

/-- The body of the loop in `wmi_control_rx`, for an event that is not left to the work. -/
def urgentRx (evt : Nat) (b : EvtBuf) (e : CheckEnv) (s : WmiUnified) : WmiUnified :=
  match b.pullHead with
  | none => s
  | some data =>
    let r := checkAndPadEventTlvs c b.id data e
    let s := s.checked evt r
    if r.ret ≠ 0 then s
    else
      match getEventHandlerIx s.table b.id with
      | none => (s.freeAllocatedEventTlvs c evt b.id r.wmiCmdStruct).free evt
      | some _ =>
        let s := if b.id ≠ dfsRadarEventId then s.callHandler b.id else s
        (s.freeAllocatedEventTlvs c evt b.id r.wmiCmdStruct).free evt

def queueAdd (evt : Nat) (b : EvtBuf) (s : WmiUnified) : WmiUnified :=
  { s with eventQueue := s.eventQueue ++ [(evt, b)] }

def wmiControlRx (b : EvtBuf) (e : CheckEnv) (s : WmiUnified) : WmiUnified :=
  let evt := s.received
  let s := { s with received := s.received + 1 }
  if b.id = dfsRadarEventId ∧ c.wma then
    if s.dfsWmiEventPending + 1 < radarWmiEventPendingMax then
      queueAdd evt b { s with dfsWmiEventPending := s.dfsWmiEventPending + 1 }
    else urgentRx c evt b e { s with dfsWmiEventDropped := s.dfsWmiEventDropped + 1 }
  else if b.id = txPauseEventId ∨ b.id = wowWakeupHostEventId ∨ b.id = d0WowDisableAckEventId ∨
      b.id = dfsRadarEventId then
    urgentRx c evt b e s
  else queueAdd evt b s

/-- What `__wmi_control_rx` does with an event whose TLVs are right. -/
def dispatch (id : UInt32) (s : WmiUnified) : WmiUnified :=
  if id = pdevUtfScpcEventId then s
  else if evtGrpStartId ≤ id then
    match getEventHandlerIx s.table id with
    | none => s
    | some _ => s.callHandler id
  else s

/-- `__wmi_control_rx` -/
def deferredRx (evt : Nat) (b : EvtBuf) (e : CheckEnv) (s : WmiUnified) : WmiUnified :=
  match b.pullHead with
  | none => (s.freeAllocatedEventTlvs c evt b.id none).free evt
  | some data =>
    let r := checkAndPadEventTlvs c b.id data e
    let s := s.checked evt r
    let s := if r.ret ≠ 0 then s else dispatch b.id s
    (s.freeAllocatedEventTlvs c evt b.id r.wmiCmdStruct).free evt

/-- One turn of the loop in `__wmi_rx_event_work`. -/
def wmiRxEventWork (e : CheckEnv) (s : WmiUnified) : WmiUnified :=
  match s.eventQueue with
  | [] => s
  | (evt, b) :: rest => deferredRx c evt b e { s with eventQueue := rest, taken := s.taken ++ [evt] }

/-- `wmi_unified_remove_work`, and `wmi_unified_detach` before it frees the handle. -/
def wmiUnifiedRemoveWork (s : WmiUnified) : WmiUnified :=
  { s with eventQueue := [], freed := s.freed ++ s.eventQueue.map Prod.fst }

/-! ### Sending -/

def eok : Int := 0

def ebusy : Int := 16

def enomem : Int := 12

structure CmdEnv where
  shutdownInProgress : Bool
  runtimePmInprogress : Bool
  isTargetSuspended : Bool
  /-- `wmitlv_check_command_tlv_params` returns 0 -/
  tlvsRight : Bool
  headroom : Bool
  pktAllocated : Bool
  htcSends : Bool

def wowHostwakeupFromSleepCmdId : UInt32 := 0x13005

def pdevResumeCmdId : UInt32 := 0x11002

/-- `adf_os_atomic_inc(&pending_cmds)`, or `adf_os_atomic_dec` -/
def WmiUnified.countCmds (s : WmiUnified) (d : Int) : WmiUnified :=
  { s with pendingCmds := s.pendingCmds + d }

def wmiUnifiedCmdSend (cmdId : UInt32) (len : Nat) (e : CmdEnv) (s : WmiUnified) :
    Int × WmiUnified :=
  if e.shutdownInProgress then (-ebusy, s)
  else if !e.runtimePmInprogress ∧ e.isTargetSuspended ∧
      cmdId ≠ wowHostwakeupFromSleepCmdId ∧ cmdId ≠ pdevResumeCmdId then (-ebusy, s)
  else if !e.tlvsRight then (-1, s)
  else if !e.headroom then (-enomem, s)
  else
    let s := s.countCmds 1
    if wmiMaxCmds ≤ s.pendingCmds then (-ebusy, s.countCmds (-1))
    else if !e.pktAllocated then (-enomem, s.countCmds (-1))
    else if e.htcSends then
      (eok, { s with htcPkts := s.htcPkts ++ [⟨cmdId, len + wmiCmdHdrSize⟩] })
    else (-1, s.countCmds (-1))

def wmiHtcTxComplete (i : Nat) (s : WmiUnified) : WmiUnified :=
  { s with htcPkts := s.htcPkts.eraseIdx i }.countCmds (-1)

/-! ### The runs -/

inductive WmiEvent where
  | cmdSend (cmdId : UInt32) (len : Nat) (e : CmdEnv)
  | txComplete (i : Nat)
  | rx (b : EvtBuf) (e : CheckEnv)
  | work (e : CheckEnv)
  | flush
  | register (eventId : UInt32) (handlerFunc : Nat)
  | unregister (eventId : UInt32)

def nextId (s : WmiUnified) : UInt32 := (s.eventQueue.head?.map (·.2.id)).getD 0

/-- One event; `none` when the state does not enable it. -/
def wmiStep (s : WmiUnified) : WmiEvent → Option WmiUnified
  | .cmdSend cmdId len e => some (wmiUnifiedCmdSend cmdId len e s).2
  | .txComplete i => do
    guard (i < s.htcPkts.length)
    return wmiHtcTxComplete i s
  | .rx b e => do
    guard (e.outside.Accounted c b.id)
    return wmiControlRx c b e s
  | .work e => do
    guard (e.outside.Accounted c (nextId s))
    return wmiRxEventWork c e s
  | .flush => some (wmiUnifiedRemoveWork s)
  | .register eventId handlerFunc =>
    some { s with table := (registerEventHandler eventId handlerFunc s.table).getD s.table }
  | .unregister eventId =>
    some { s with table := (unregisterEventHandler eventId s.table).getD s.table }

structure WmiInit (s : WmiUnified) : Prop where
  pendingCmds : s.pendingCmds = 0
  htcPkts : s.htcPkts = []
  maxEventIdx : s.table.maxEventIdx = 0
  eventQueue : s.eventQueue = []
  dfsWmiEventPending : s.dfsWmiEventPending = 0
  received : s.received = 0
  freed : s.freed = []
  taken : s.taken = []
  tlvAllocs : s.tlvAllocs = []
  tlvFrees : s.tlvFrees = []

def wmiMachine : Machine WmiUnified WmiEvent where
  init := WmiInit
  step := wmiStep c

/-! ### What is to hold -/

def IsRadar (q : Nat × EvtBuf) : Bool := q.2.id = dfsRadarEventId

/-- The count of commands is right; every event buffer waits or has been released, and every copy of a TLV has been released, exactly once; the events are taken in order; the radar events that are counted are those that wait; and the handlers form one table. -/
structure WmiRight (s : WmiUnified) : Prop where
  cmds : s.pendingCmds = s.htcPkts.length
  buffers : (s.eventQueue.map Prod.fst ++ s.freed).Perm (List.range s.received)
  copies : s.tlvFrees.Perm s.tlvAllocs
  copied_once : s.tlvAllocs.Nodup
  order : (s.taken ++ s.eventQueue.map Prod.fst).Pairwise (· < ·)
  radar : s.dfsWmiEventPending = s.eventQueue.countP IsRadar
  table : s.table.Right

def Urgent (s : WmiUnified) (b : EvtBuf) : Prop :=
  b.id = txPauseEventId ∨ b.id = wowWakeupHostEventId ∨ b.id = d0WowDisableAckEventId ∨
    b.id = dfsRadarEventId ∧ (c.wma = true → radarWmiEventPendingMax ≤ s.dfsWmiEventPending + 1)
deriving Decidable

/-- The event has a header, and its TLVs are right. -/
def WellFormed (b : EvtBuf) (e : CheckEnv) : Prop :=
  ∃ data ∈ b.pullHead, (checkAndPadEventTlvs c b.id data e).ret = 0
deriving Decidable

/-- **The condition.**  An urgent event is well formed; a radar event that comes to the work is well formed and has a handler; and no radar event waits when the queue is flushed. -/
def WmiSound (s : WmiUnified) : WmiEvent → Prop
  | .rx b e => Urgent c s b → WellFormed c b e
  | .work e => ∀ q ∈ s.eventQueue.head?, IsRadar q = true →
      WellFormed c q.2 e ∧ (getEventHandlerIx s.table dfsRadarEventId).isSome
  | .flush => ∀ q ∈ s.eventQueue, IsRadar q = false
  | _ => True

instance (s : WmiUnified) (e : WmiEvent) : Decidable (WmiSound c s e) := by
  unfold WmiSound
  split <;> infer_instance

variable {c} {s s' : WmiUnified} {t t' : EventTable} {id : UInt32} {b : EvtBuf} {e : CheckEnv}

/-! ### The table -/

namespace EventTable.Right

theorem getEventHandlerIx_some {i : Nat} (hi : getEventHandlerIx t id = some i) :
    i < t.maxEventIdx ∧ t.eventId i = id := by
  unfold getEventHandlerIx at hi
  have hm := mem_range.1 (mem_of_find?_eq_some hi)
  have hp := find?_some hi
  exact ⟨lt_of_lt_of_le hm (min_le_left _ _), (of_decide_eq_true hp).1⟩

theorem getEventHandlerIx_none (h : t.Right) (hn : getEventHandlerIx t id = none) {i : Nat}
    (hi : i < t.maxEventIdx) : t.eventId i ≠ id := by
  intro heq
  have hm : i ∈ range (min t.maxEventIdx wmiUnifiedMaxEvent) :=
    mem_range.2 (lt_min hi (lt_of_lt_of_le hi h.fits))
  have := find?_eq_none.1 hn i hm
  simp [heq, h.full i hi] at this

theorem register {f : Nat} (h : t.Right) (hr : registerEventHandler id f t = some t') :
    t'.Right := by
  unfold registerEventHandler at hr
  split_ifs at hr with hg hm
  rw [not_isSome_iff_eq_none] at hg
  obtain rfl := some.inj hr
  have hold : ∀ i < t.maxEventIdx, i ≠ t.maxEventIdx := fun i hi => hi.ne
  refine ⟨lt_of_le_of_ne h.fits hm, fun i hi => ?_, fun i hi j hj hij => ?_⟩
  · obtain hi | rfl := Nat.lt_succ_iff_lt_or_eq.1 hi
    · simpa [hold i hi] using h.full i hi
    · simp
  · dsimp only at hij
    obtain hi | rfl := Nat.lt_succ_iff_lt_or_eq.1 hi
    · rw [update_of_ne (hold i hi)] at hij
      obtain hj | rfl := Nat.lt_succ_iff_lt_or_eq.1 hj
      · rw [update_of_ne (hold j hj)] at hij
        exact h.once i hi j hj hij
      · rw [update_self] at hij
        exact absurd hij (h.getEventHandlerIx_none hg hi)
    · rw [update_self] at hij
      obtain hj | rfl := Nat.lt_succ_iff_lt_or_eq.1 hj
      · rw [update_of_ne (hold j hj)] at hij
        exact absurd hij.symm (h.getEventHandlerIx_none hg hj)
      · rfl

theorem unregister (h : t.Right) (hr : unregisterEventHandler id t = some t') : t'.Right := by
  unfold unregisterEventHandler at hr
  split at hr
  · cases hr
  · next idx hidx =>
    obtain ⟨hlt, -⟩ := getEventHandlerIx_some hidx
    obtain rfl := some.inj hr
    -- where an entry of the new table was in the old one
    have hwas : ∀ i < t.maxEventIdx - 1, ∃ j < t.maxEventIdx,
        update (update t.eventHandler idx none) idx
          (update t.eventHandler idx none (t.maxEventIdx - 1)) i = t.eventHandler j ∧
        update (update t.eventId idx 0) idx
          (update t.eventId idx 0 (t.maxEventIdx - 1)) i = t.eventId j ∧
        (i = idx ∧ j = t.maxEventIdx - 1 ∨ i ≠ idx ∧ j = i) := by
      intro i hi
      by_cases hii : i = idx
      · subst hii
        have hne : t.maxEventIdx - 1 ≠ i := by omega
        exact ⟨t.maxEventIdx - 1, by omega, by simp [hne], by simp [hne], .inl ⟨rfl, rfl⟩⟩
      · exact ⟨i, by omega, by simp [hii], by simp [hii], .inr ⟨hii, rfl⟩⟩
    refine ⟨(sub_le _ _).trans h.fits, fun i hi => ?_, fun i hi j hj hij => ?_⟩
    · obtain ⟨k, hk, hh, -, -⟩ := hwas i hi
      dsimp only
      rw [hh]
      exact h.full k hk
    · obtain ⟨k, hk, -, hki, hkw⟩ := hwas i hi
      obtain ⟨l, hl, -, hlj, hlw⟩ := hwas j hj
      dsimp only at hi hj hij
      rw [hki, hlj] at hij
      have := h.once k hk l hl hij
      omega

end EventTable.Right

/-! ### The copies -/

theorem wmitlvCheckAndPadTlvs_accounted (hid : wmitlvGetCmdid id = id) {msg : List UInt8}
    {mem : Nat → Bool} {r : PadResult}
    (hr : wmitlvCheckAndPadTlvs (attrList c.evtTable) msg id mem = some r) : r.Accounted c id := by
  have hnone : PadResult.Accounted c id ⟨-1, none, [], []⟩ := ⟨by decide, rfl⟩
  cases ht : tlvsOf c.evtTable id with
  | none =>
    rw [wmitlvCheckAndPadTlvs, getNumAttributes_eq hid, ht] at hr
    cases hr
    exact hnone
  | some attrs =>
    by_cases hlen : wmiTlvHdrSize ≤ msg.length
    · by_cases hm : mem 0 = true
      · have hl := padLoop_means (@LoopInv.start attrs msg mem) (zero_add attrs.length)
        rw [checkAndPad_eq hid ht hlen hm] at hr
        cases hend : padLoop (fun k => attrs[k]?) msg mem attrs.length ⟨0, [], []⟩ with
        | outside => rw [hend] at hr; cases hr
        | failed s =>
          rw [hend] at hl hr
          cases hr
          exact ⟨(by decide : (-1 : Int) ≠ 0), hl.1.owned⟩
        | done s =>
          rw [hend] at hl hr
          cases hr
          refine ⟨rfl, rfl, ?_⟩
          rw [freeAllocatedTlvs_eq (by rw [ht]; rfl), filterMap_append, hl.1.owned,
            filterMap_replicate_of_none rfl, append_nil]
      · rw [wmitlvCheckAndPadTlvs, getNumAttributes_eq hid, ht] at hr
        simp only [map_some, not_lt.2 hlen, if_false, hm, Bool.not_false, if_true] at hr
        cases hr
        exact hnone
    · rw [wmitlvCheckAndPadTlvs, getNumAttributes_eq hid, ht] at hr
      simp only [map_some, not_le.1 hlen, if_true] at hr
      cases hr
      exact hnone

theorem EvtBuf.getCmdid_id (b : EvtBuf) : wmitlvGetCmdid b.id = b.id := by
  unfold id wmitlvGetCmdid
  rw [UInt32.and_assoc]
  rfl

theorem checkAndPadEventTlvs_accounted (h : e.outside.Accounted c b.id) (data : List UInt8) :
    (checkAndPadEventTlvs c b.id data e).Accounted c b.id := by
  unfold checkAndPadEventTlvs
  cases hr : wmitlvCheckAndPadTlvs (attrList c.evtTable) data b.id e.mem with
  | none => exact h
  | some r => exact wmitlvCheckAndPadTlvs_accounted b.getCmdid_id hr

theorem PadResult.copies_nodup (r : PadResult) : r.copies.Nodup := by
  have hbufs : ((range r.bufs.length).map TlvCopy.buf).Nodup :=
    nodup_range.map fun _ _ h => TlvCopy.buf.inj h
  unfold copies
  split
  · exact hbufs
  · refine nodup_cons.2 ⟨fun h => ?_, hbufs⟩
    obtain ⟨_, _, hbuf⟩ := mem_map.1 h
    exact nomatch hbuf

/-- An event's copies have been made and released. -/
def WmiUnified.settle (s : WmiUnified) (evt : Nat) (copies frees : List TlvCopy) : WmiUnified :=
  { s with
    tlvAllocs := s.tlvAllocs ++ copies.map (evt, ·)
    tlvFrees := s.tlvFrees ++ frees.map (evt, ·) }

theorem PadResult.Accounted.settles {r : PadResult} (h : r.Accounted c id) (s : WmiUnified)
    (evt : Nat) : ∃ frees, frees.Perm r.copies ∧ ∀ n,
      WmiUnified.freeAllocatedEventTlvs c { s.checked evt r with dfsWmiEventPending := n } evt id
        r.wmiCmdStruct = { s.settle evt r.copies frees with dfsWmiEventPending := n } := by
  unfold PadResult.Accounted at h
  split at h
  · next hp =>
    refine ⟨r.freed.map .buf, ?_, fun n => ?_⟩
    · rw [copies, hp, h.2]
      exact .refl _
    · simp [hp, freeAllocatedEventTlvs, checked, settle]
  · next params hp =>
    refine ⟨(range r.bufs.length).map .buf ++ [.params], ?_, fun n => ?_⟩
    · rw [copies, hp]
      exact perm_append_comm
    · simp [hp, h.2.1, h.2.2, freeAllocatedEventTlvs, checked, settle]

theorem PadResult.Accounted.of_ne {r : PadResult} (h : r.Accounted c id) (hr : r.ret ≠ 0) :
    r.wmiCmdStruct = none := by
  unfold PadResult.Accounted at h
  split at h
  · next hp => exact hp
  · exact absurd h.1 hr

/-! ### An event that is done with -/

theorem wellFormed_of_none (hp : b.pullHead = none) : ¬ WellFormed c b e := by
  rintro ⟨data, hd, -⟩
  rw [hp] at hd
  cases hd

theorem wellFormed_iff {data : List UInt8} (hp : b.pullHead = some data) :
    WellFormed c b e ↔ (checkAndPadEventTlvs c b.id data e).ret = 0 := by
  simp [WellFormed, hp]

/-- What an urgent event leaves: its copies are released, and so is its buffer if it is well formed. -/
theorem urgentRx_eq (h : e.outside.Accounted c b.id) (evt : Nat) (s : WmiUnified) :
    ∃ copies frees, copies.Nodup ∧ frees.Perm copies ∧ urgentRx c evt b e s =
        if WellFormed c b e then (s.settle evt copies frees).free evt
        else s.settle evt copies frees := by
  unfold urgentRx
  cases hp : b.pullHead with
  | none =>
    refine ⟨[], [], nodup_nil, .refl _, ?_⟩
    simp [wellFormed_of_none hp, settle]
  | some data =>
    have ha := checkAndPadEventTlvs_accounted h data
    have hw := @wellFormed_iff c b e data hp
    dsimp only
    generalize checkAndPadEventTlvs c b.id data e = r at ha hw
    obtain ⟨frees, hf, hs⟩ := ha.settles s evt
    refine ⟨r.copies, frees, r.copies_nodup, hf, ?_⟩
    have hfree : (s.checked evt r).freeAllocatedEventTlvs c evt b.id r.wmiCmdStruct =
        s.settle evt r.copies frees := hs s.dfsWmiEventPending
    by_cases hr : r.ret = 0
    · rw [if_neg (not_not.2 hr), if_pos (hw.2 hr)]
      split
      · rw [hfree]
      · split
        · next hid => rw [callHandler, if_neg hid, hfree]
        · rw [hfree]
    · rw [ha.of_ne hr] at hfree
      rw [if_pos hr, if_neg (mt hw.1 hr)]
      exact hfree

/-- The handler of radar events is called for the event. -/
def Radioed (c : WmiConfig) (s : WmiUnified) (b : EvtBuf) (e : CheckEnv) : Prop :=
  b.id = dfsRadarEventId ∧ WellFormed c b e ∧ (getEventHandlerIx s.table b.id).isSome
deriving Decidable

theorem dispatch_eq (id : UInt32) (s : WmiUnified) : dispatch id s = { s with
      dfsWmiEventPending := s.dfsWmiEventPending -
        if id = dfsRadarEventId ∧ (getEventHandlerIx s.table id).isSome then 1 else 0 } := by
  by_cases hid : id = dfsRadarEventId
  · subst hid
    have h₁ : dfsRadarEventId ≠ pdevUtfScpcEventId := by decide
    have h₂ : evtGrpStartId ≤ dfsRadarEventId := by decide
    unfold dispatch
    rw [if_neg h₁, if_pos h₂]
    cases hi : getEventHandlerIx s.table dfsRadarEventId with
    | none => simp
    | some i => simp [callHandler]
  · unfold dispatch callHandler
    simp only [hid, if_false, false_and, Int.sub_zero]
    split
    · rfl
    · split
      · split <;> rfl
      · rfl

theorem deferredRx_eq (h : e.outside.Accounted c b.id) (evt : Nat) (s : WmiUnified) :
    ∃ copies frees, copies.Nodup ∧ frees.Perm copies ∧
      deferredRx c evt b e s = { (s.settle evt copies frees).free evt with
        dfsWmiEventPending := s.dfsWmiEventPending - if Radioed c s b e then 1 else 0 } := by
  unfold deferredRx
  cases hp : b.pullHead with
  | none =>
    refine ⟨[], [], nodup_nil, .refl _, ?_⟩
    simp [Radioed, wellFormed_of_none hp, settle, free, freeAllocatedEventTlvs]
  | some data =>
    have ha := checkAndPadEventTlvs_accounted h data
    have hw := @wellFormed_iff c b e data hp
    dsimp only
    generalize checkAndPadEventTlvs c b.id data e = r at ha hw
    obtain ⟨frees, hf, hs⟩ := ha.settles s evt
    refine ⟨r.copies, frees, r.copies_nodup, hf, ?_⟩
    by_cases hr : r.ret = 0
    · have hrad : Radioed c s b e ↔
          b.id = dfsRadarEventId ∧ (getEventHandlerIx s.table b.id).isSome := by
        simp [Radioed, hw, hr]
      rw [if_neg (not_not.2 hr), dispatch_eq, hs, if_congr hrad rfl rfl]
      rfl
    · have hfree : (s.checked evt r).freeAllocatedEventTlvs c evt b.id r.wmiCmdStruct =
          s.settle evt r.copies frees := hs s.dfsWmiEventPending
      rw [if_pos hr, hfree]
      simp [Radioed, hw, hr, free, settle]

theorem wmiControlRx_cases (c : WmiConfig) (b : EvtBuf) (e : CheckEnv) (s : WmiUnified) :
    (¬ Urgent c s b ∧ wmiControlRx c b e s = queueAdd s.received b { s with
        received := s.received + 1
        dfsWmiEventPending := s.dfsWmiEventPending + if b.id = dfsRadarEventId then 1 else 0 }) ∨
      Urgent c s b ∧ ∃ d, wmiControlRx c b e s = urgentRx c s.received b e
        { s with received := s.received + 1, dfsWmiEventDropped := d } := by
  unfold wmiControlRx
  by_cases hr : b.id = dfsRadarEventId
  · have h₁ : dfsRadarEventId ≠ txPauseEventId := by decide
    have h₂ : dfsRadarEventId ≠ wowWakeupHostEventId := by decide
    have h₃ : dfsRadarEventId ≠ d0WowDisableAckEventId := by decide
    by_cases hw : c.wma = true
    · by_cases hp : s.dfsWmiEventPending + 1 < radarWmiEventPendingMax
      · exact .inl ⟨by simp [Urgent, hr, h₁, h₂, h₃, hw, hp], by simp [hr, hw, hp]⟩
      · exact .inr ⟨by simp [Urgent, hr, hw, not_lt.1 hp], _, by simp [hr, hw, hp]; rfl⟩
    · exact .inr ⟨by simp [Urgent, hr, hw], s.dfsWmiEventDropped, by simp [hr, hw]⟩
  · by_cases hu : b.id = txPauseEventId ∨ b.id = wowWakeupHostEventId ∨
        b.id = d0WowDisableAckEventId
    · refine .inr ⟨by simp only [Urgent]; tauto, s.dfsWmiEventDropped, ?_⟩
      simp [hr, if_pos hu]
    · refine .inl ⟨by simp only [Urgent]; tauto, ?_⟩
      simp only [not_or] at hu
      simp [hr, hu]

theorem wmiUnifiedCmdSend_cases (cmdId : UInt32) (len : Nat) (e : CmdEnv) (s : WmiUnified) :
    (wmiUnifiedCmdSend cmdId len e s).1 = eok ∧ (wmiUnifiedCmdSend cmdId len e s).2 =
        { s.countCmds 1 with htcPkts := s.htcPkts ++ [⟨cmdId, len + wmiCmdHdrSize⟩] } ∨
      (wmiUnifiedCmdSend cmdId len e s).1 ≠ eok ∧ (wmiUnifiedCmdSend cmdId len e s).2 = s := by
  have hback : (s.countCmds 1).countCmds (-1) = s := by simp [countCmds]
  have hbusy : -ebusy ≠ eok := by decide
  have hnomem : -enomem ≠ eok := by decide
  have hfailed : -1 ≠ eok := by decide
  unfold wmiUnifiedCmdSend
  dsimp only
  rw [hback]
  split_ifs
  · exact .inr ⟨hbusy, rfl⟩
  · exact .inr ⟨hbusy, rfl⟩
  · exact .inr ⟨hfailed, rfl⟩
  · exact .inr ⟨hnomem, rfl⟩
  · exact .inr ⟨hbusy, rfl⟩
  · exact .inr ⟨hnomem, rfl⟩
  · exact .inl ⟨rfl, rfl⟩
  · exact .inr ⟨hfailed, rfl⟩

/-! ### One event keeps what is to hold -/

/-- What is to hold, and where the events that have been dealt with are not. -/
structure WmiInv (s : WmiUnified) : Prop extends WmiRight s where
  copied : ∀ p ∈ s.tlvAllocs, p.1 < s.received ∧ p.1 ∉ s.eventQueue.map Prod.fst
  taken_lt : ∀ n ∈ s.taken, n < s.received

namespace WmiInv

theorem queued_lt (h : WmiInv s) {n : Nat} (hn : n ∈ s.eventQueue.map Prod.fst) : n < s.received :=
  mem_range.1 (h.buffers.subset (mem_append_left _ hn))

theorem queue_sorted (h : WmiInv s) : (s.eventQueue.map Prod.fst).Pairwise (· < ·) :=
  (pairwise_append.1 h.order).2.1

theorem queueAdd (h : WmiInv s) (b : EvtBuf) : WmiInv (Wmi.queueAdd s.received b { s with
      received := s.received + 1
      dfsWmiEventPending := s.dfsWmiEventPending + if b.id = dfsRadarEventId then 1 else 0 }) where
  cmds := h.cmds
  buffers := by
    simp only [Wmi.queueAdd, map_append, map_cons, map_nil, range_succ]
    rw [append_assoc]
    refine (List.Perm.append_left _ perm_append_comm).trans ?_
    rw [← append_assoc]
    exact h.buffers.append_right _
  copies := h.copies
  copied_once := h.copied_once
  order := by
    simp only [Wmi.queueAdd, map_append, map_cons, map_nil]
    rw [← append_assoc, pairwise_append]
    refine ⟨h.order, pairwise_singleton _ _, fun n hn m hm => ?_⟩
    rw [mem_singleton.1 hm]
    obtain hn | hn := mem_append.1 hn
    · exact h.taken_lt n hn
    · exact h.queued_lt hn
  radar := by
    simp only [Wmi.queueAdd, countP_append, h.radar]
    by_cases hb : b.id = dfsRadarEventId <;> simp [IsRadar, hb]
  table := h.table
  copied := by
    intro p hp
    obtain ⟨hlt, hn⟩ := h.copied p hp
    refine ⟨hlt.trans (lt_succ_self _), ?_⟩
    simp only [Wmi.queueAdd, map_append, map_cons, map_nil, mem_append, mem_singleton, not_or]
    exact ⟨hn, hlt.ne⟩
  taken_lt := fun n hn => (h.taken_lt n hn).trans (lt_succ_self _)

variable {copies frees : List TlvCopy} {evt : Nat}

theorem nodup_allocs (h : WmiInv s) (hc : copies.Nodup) (hevt : ∀ p ∈ s.tlvAllocs, p.1 ≠ evt) :
    (s.tlvAllocs ++ copies.map (evt, ·)).Nodup := by
  refine h.copied_once.append (hc.map (Prod.mk_right_injective evt)) ?_
  intro p hp hp'
  obtain ⟨_, -, rfl⟩ := mem_map.1 hp'
  exact hevt _ hp rfl

theorem urgent (h : WmiInv s) (hc : copies.Nodup) (hf : frees.Perm copies) (d : Int) :
    WmiInv (({ s with received := s.received + 1, dfsWmiEventDropped := d } :
      WmiUnified).settle s.received copies frees |>.free s.received) where
  cmds := h.cmds
  buffers := by
    simp only [free, settle, range_succ]
    rw [← append_assoc]
    exact h.buffers.append_right _
  copies := h.copies.append (hf.map _)
  copied_once := h.nodup_allocs hc fun p hp => (h.copied p hp).1.ne
  order := h.order
  radar := h.radar
  table := h.table
  copied := by
    intro p hp
    obtain hp | hp := mem_append.1 hp
    · exact ⟨(h.copied p hp).1.trans (lt_succ_self _), (h.copied p hp).2⟩
    · obtain ⟨_, -, rfl⟩ := mem_map.1 hp
      exact ⟨lt_succ_self _, fun hq => (h.queued_lt hq).ne rfl⟩
  taken_lt := fun n hn => (h.taken_lt n hn).trans (lt_succ_self _)

theorem not_right_of_lost (h : WmiInv s) (d : Int) :
    ¬ WmiRight (({ s with received := s.received + 1, dfsWmiEventDropped := d } :
      WmiUnified).settle s.received copies frees) := by
  intro h'
  have hl := h.buffers.length_eq
  have hl' := h'.buffers.length_eq
  simp only [settle, length_append, length_range] at hl hl'
  omega

theorem deferred {rest : List (Nat × EvtBuf)} (h : WmiInv s)
    (hq : s.eventQueue = (evt, b) :: rest) (hc : copies.Nodup) (hf : frees.Perm copies) :
    WmiInv { (({ s with eventQueue := rest, taken := s.taken ++ [evt] } :
      WmiUnified).settle evt copies frees).free evt with
        dfsWmiEventPending :=
          s.dfsWmiEventPending - if b.id = dfsRadarEventId then 1 else 0 } where
  cmds := h.cmds
  buffers := by
    have hb := h.buffers
    rw [hq, map_cons, cons_append] at hb
    simp only [free, settle]
    rw [← append_assoc]
    exact (perm_append_singleton evt _).trans hb
  copies := h.copies.append (hf.map _)
  copied_once := by
    refine h.nodup_allocs hc fun p hp heq => (h.copied p hp).2 ?_
    rw [hq, map_cons, heq]
    exact mem_cons_self
  order := by
    have ho := h.order
    rw [hq, map_cons] at ho
    simpa [free, settle] using ho
  radar := by
    simp only [free, settle, h.radar, hq, countP_cons]
    by_cases hb : b.id = dfsRadarEventId <;> simp [IsRadar, hb]
  table := h.table
  copied := by
    have hs := h.queue_sorted
    rw [hq, map_cons, pairwise_cons] at hs
    intro p hp
    obtain hp | hp := mem_append.1 hp
    · obtain ⟨hlt, hn⟩ := h.copied p hp
      rw [hq, map_cons, mem_cons, not_or] at hn
      exact ⟨hlt, hn.2⟩
    · obtain ⟨_, -, rfl⟩ := mem_map.1 hp
      refine ⟨h.queued_lt (by rw [hq]; exact mem_cons_self), fun hm => ?_⟩
      exact (hs.1 _ hm).ne rfl
  taken_lt := by
    intro n hn
    obtain hn | hn := mem_append.1 hn
    · exact h.taken_lt n hn
    · rw [mem_singleton.1 hn]
      exact h.queued_lt (by rw [hq]; exact mem_cons_self)

theorem flush (h : WmiInv s) (hr : ∀ q ∈ s.eventQueue, IsRadar q = false) :
    WmiInv (wmiUnifiedRemoveWork s) where
  cmds := h.cmds
  buffers := by
    simp only [wmiUnifiedRemoveWork, map_nil, nil_append]
    exact perm_append_comm.trans h.buffers
  copies := h.copies
  copied_once := h.copied_once
  order := by
    simp only [wmiUnifiedRemoveWork, map_nil, append_nil]
    exact (pairwise_append.1 h.order).1
  radar := by
    have hz : s.eventQueue.countP IsRadar = 0 :=
      countP_eq_zero.2 fun q hq => by simp [hr q hq]
    simp [wmiUnifiedRemoveWork, h.radar, hz]
  table := h.table
  copied := fun p hp => ⟨(h.copied p hp).1, not_mem_nil⟩
  taken_lt := h.taken_lt

theorem cmdSend (h : WmiInv s) (cmdId : UInt32) (len : Nat) (e : CmdEnv) :
    WmiInv (wmiUnifiedCmdSend cmdId len e s).2 := by
  obtain ⟨-, hs⟩ | ⟨-, hs⟩ := wmiUnifiedCmdSend_cases cmdId len e s
  · rw [hs]
    exact { h with cmds := by simp [countCmds, h.cmds] }
  · rw [hs]
    exact h

theorem txComplete (h : WmiInv s) {i : Nat} (hi : i < s.htcPkts.length) :
    WmiInv (wmiHtcTxComplete i s) := by
  have hlen := length_eraseIdx_of_lt hi
  refine { h with cmds := ?_ }
  simp only [wmiHtcTxComplete, countCmds, h.cmds, hlen]
  omega

theorem register (h : WmiInv s) (id : UInt32) (f : Nat) :
    WmiInv { s with table := (registerEventHandler id f s.table).getD s.table } := by
  refine { h with table := ?_ }
  cases hr : registerEventHandler id f s.table with
  | none => exact h.table
  | some t => exact h.table.register hr

theorem unregister (h : WmiInv s) (id : UInt32) :
    WmiInv { s with table := (unregisterEventHandler id s.table).getD s.table } := by
  refine { h with table := ?_ }
  cases hr : unregisterEventHandler id s.table with
  | none => exact h.table
  | some t => exact h.table.unregister hr

theorem rx (h : WmiInv s) (he : e.outside.Accounted c b.id) :
    (WmiSound c s (.rx b e) → WmiInv (wmiControlRx c b e s)) ∧
      (¬ WmiSound c s (.rx b e) → ¬ WmiRight (wmiControlRx c b e s)) := by
  obtain ⟨hu, hs⟩ | ⟨hu, d, hs⟩ := wmiControlRx_cases c b e s
  · rw [hs]
    exact ⟨fun _ => h.queueAdd b, fun hns => absurd (fun hu' => absurd hu' hu) hns⟩
  · obtain ⟨copies, frees, hc, hf, heq⟩ := urgentRx_eq he s.received
      { s with received := s.received + 1, dfsWmiEventDropped := d }
    rw [hs, heq]
    refine ⟨fun hsound => ?_, fun hns => ?_⟩
    · rw [if_pos (hsound hu)]
      exact h.urgent hc hf d
    · rw [if_neg fun hw => hns fun _ => hw]
      exact h.not_right_of_lost d

/-- An event that has waited is released, and its count is right unless it is a radar event that does not get to its handler. -/
theorem work (h : WmiInv s) (he : e.outside.Accounted c (nextId s)) :
    (WmiSound c s (.work e) → WmiInv (wmiRxEventWork c e s)) ∧
      (¬ WmiSound c s (.work e) → ¬ WmiRight (wmiRxEventWork c e s)) := by
  unfold wmiRxEventWork
  cases hq : s.eventQueue with
  | nil =>
    refine ⟨fun _ => h, fun hns => absurd ?_ hns⟩
    intro q hqm
    rw [hq] at hqm
    cases hqm
  | cons q rest =>
    obtain ⟨evt, b⟩ := q
    rw [nextId, hq] at he
    obtain ⟨copies, frees, hc, hf, heq⟩ := deferredRx_eq (b := b) he evt
      { s with eventQueue := rest, taken := s.taken ++ [evt] }
    have hd := h.deferred hq hc hf
    have hsound : WmiSound c s (.work e) ↔ (b.id = dfsRadarEventId → Radioed c s b e) := by
      simp only [WmiSound, hq, head?_cons, mem_some_iff, forall_eq', IsRadar, decide_eq_true_eq]
      refine forall_congr' fun hb => ?_
      rw [Radioed, hb]
      exact (and_iff_right rfl).symm
    dsimp only
    rw [hsound, heq]
    constructor
    · intro hok
      have hone : (if b.id = dfsRadarEventId then (1 : Int) else 0) =
          if Radioed c s b e then 1 else 0 := if_congr ⟨hok, And.left⟩ rfl rfl
      rw [hone] at hd
      exact hd
    · intro hns h'
      obtain ⟨hb, hnr⟩ := Classical.not_imp.1 hns
      have hnr' : ¬ Radioed c { s with eventQueue := rest, taken := s.taken ++ [evt] } b e := hnr
      have hright := hd.radar
      have hwrong := h'.radar
      simp only [hb, if_true, free, settle] at hright
      simp only [hnr', if_false, free, settle] at hwrong
      omega

theorem flushed (h : WmiInv s) (hns : ¬ WmiSound c s .flush) :
    ¬ WmiRight (wmiUnifiedRemoveWork s) := by
  intro h'
  refine hns fun q hq => ?_
  have hr := h'.radar
  simp only [wmiUnifiedRemoveWork, h.radar, countP_nil] at hr
  have hz := countP_eq_zero.1 (Int.ofNat_eq_zero.1 hr) q hq
  simpa using hz

end WmiInv

/-- **One event.**  It keeps what is to hold if and only if it meets the condition. -/
theorem wmiStep_right {ev : WmiEvent} (h : WmiInv s) (hs : wmiStep c s ev = some s') :
    (WmiSound c s ev → WmiInv s') ∧ (¬ WmiSound c s ev → ¬ WmiRight s') := by
  cases ev with
  | cmdSend cmdId len e =>
    cases hs
    exact ⟨fun _ => h.cmdSend cmdId len e, fun hns => absurd trivial hns⟩
  | txComplete i =>
    obtain ⟨hi, rfl⟩ := guarded_eq_some.1 hs
    exact ⟨fun _ => h.txComplete hi, fun hns => absurd trivial hns⟩
  | rx b e =>
    obtain ⟨he, rfl⟩ := guarded_eq_some.1 hs
    exact h.rx he
  | work e =>
    obtain ⟨he, rfl⟩ := guarded_eq_some.1 hs
    exact h.work he
  | flush =>
    cases hs
    exact ⟨h.flush, h.flushed⟩
  | register id f =>
    cases hs
    exact ⟨fun _ => h.register id f, fun hns => absurd trivial hns⟩
  | unregister id =>
    cases hs
    exact ⟨fun _ => h.unregister id, fun hns => absurd trivial hns⟩

theorem WmiInit.inv (h : WmiInit s) : WmiInv s where
  cmds := by simp [h.pendingCmds, h.htcPkts]
  buffers := by simp [h.eventQueue, h.freed, h.received]
  copies := by simp [h.tlvAllocs, h.tlvFrees]
  copied_once := by simp [h.tlvAllocs]
  order := by simp [h.eventQueue, h.taken]
  radar := by simp [h.eventQueue, h.dfsWmiEventPending]
  table := by
    have hno : ∀ i, ¬ i < s.table.maxEventIdx := by simp [h.maxEventIdx]
    exact ⟨by simp [h.maxEventIdx], fun i hi => absurd hi (hno i), fun i hi => absurd hi (hno i)⟩
  copied := by simp [h.tlvAllocs]
  taken_lt := by simp [h.taken]

theorem reach_inv (h : (wmiMachine c).Reach (WmiSound c) s) : WmiInv s :=
  h.invariant WmiInv (fun _ => WmiInit.inv) fun _ _ _ hi hok hs => (wmiStep_right hi hs).1 hok

/-- **The handle in every run.**  As long as every event meets the condition, what is to hold holds: commands, buffers, copies and radar events are counted and released as they should be, events that wait are taken in order, and the handlers form one table.  And the first event that does not meet the condition breaks it. -/
theorem wmi_unified_iff (c : WmiConfig) (s : WmiUnified)
    (h : (wmiMachine c).Reach (WmiSound c) s) :
    WmiRight s ∧ ∀ ev s', (wmiMachine c).step s ev = some s' → (WmiRight s' ↔ WmiSound c s ev) := by
  have hi := reach_inv h
  refine ⟨hi.toWmiRight, fun ev s' hs => ?_⟩
  obtain ⟨hsound, hns⟩ := wmiStep_right hi hs
  exact ⟨fun hr => not_not.1 fun hno => hns hno hr, fun hok => (hsound hok).toWmiRight⟩

/-! ### A pause and a radar event -/

/-- The two events' TLVs: structures of 24 and of 56 bytes. -/
def pauseAndRadar : WmiConfig where
  evtTable := [⟨txPauseEventId, [0x3fc180e6], by decide, by decide⟩,
    ⟨dfsRadarEventId, [0x3fc380e8], by decide, by decide⟩]
  wma := true

def attachedWmi : WmiUnified where
  pendingCmds := 0
  htcPkts := []
  table := { eventHandler := fun _ => none, eventId := fun _ => 0, maxEventIdx := 0 }
  eventQueue := []
  dfsWmiEventPending := 0
  dfsWmiEventDropped := 0
  received := 0
  freed := []
  taken := []
  tlvAllocs := []
  tlvFrees := []

theorem attachedWmi_init : (wmiMachine pauseAndRadar).init attachedWmi where
  pendingCmds := rfl
  htcPkts := rfl
  maxEventIdx := rfl
  eventQueue := rfl
  dfsWmiEventPending := rfl
  received := rfl
  freed := rfl
  taken := rfl
  tlvAllocs := rfl
  tlvFrees := rfl

def plentiful : CheckEnv where
  mem _ := true
  outside := ⟨-1, none, [], []⟩

/-- A pause event that has nothing but its header. -/
def emptyPause : EvtBuf := { mem := [5, 0x40, 0, 0], len := 4 }

def shortPause : EvtBuf where
  mem := [5, 0x40, 0, 0, 8, 0, 0xe6, 0, 0, 0, 0, 0, 1, 0, 0, 0]
  len := 16

def shortRadar : EvtBuf where
  mem := [6, 0x40, 0, 0, 4, 0, 0xe8, 0, 7, 0, 0, 0]
  len := 12

theorem emptyPause_lost :
    ¬ ∀ c s, (wmiMachine c).Reach (fun _ _ => True) s → WmiRight s := by
  intro h
  obtain ⟨s, hs, hlost⟩ : ∃ s, (wmiMachine pauseAndRadar).run attachedWmi
      [.rx emptyPause plentiful] = some s ∧
      s.eventQueue.length + s.freed.length ≠ s.received :=
    Machine.exists_run (by decide +kernel)
  have hl := (h pauseAndRadar s (Machine.reach_of_run attachedWmi_init hs)).buffers.length_eq
  rw [length_append, length_map, length_range] at hl
  exact hlost hl

theorem wmi_unified_iff_pauseAndRadar : ∃ s, WmiRight s ∧ s.freed = [1, 0] ∧ s.taken = [0] ∧
    s.pendingCmds = 1 ∧ s.tlvFrees.length = 4 := by
  let sent : CmdEnv :=
    { shutdownInProgress := false, runtimePmInprogress := false, isTargetSuspended := false,
      tlvsRight := true, headroom := true, pktAllocated := true, htcSends := true }
  let es : List WmiEvent :=
    [.register dfsRadarEventId 0, .register txPauseEventId 1, .rx shortRadar plentiful,
      .rx shortPause plentiful, .work plentiful, .cmdSend 0x4001 8 sent]
  have hrun : ((wmiMachine pauseAndRadar).run attachedWmi es).any fun s =>
      decide (s.freed = [1, 0] ∧ s.taken = [0] ∧ s.pendingCmds = 1 ∧ s.tlvFrees.length = 4) := by
    decide +kernel
  obtain ⟨s, hs, hgood⟩ := (any_eq_true _ _).1 hrun
  have hreach : (wmiMachine pauseAndRadar).Reach (WmiSound pauseAndRadar) s :=
    Machine.Reach.run (.start attachedWmi_init) (by decide +kernel) hs
  exact ⟨s, (wmi_unified_iff pauseAndRadar s hreach).1, of_decide_eq_true hgood⟩

end Qcacld.Wmi

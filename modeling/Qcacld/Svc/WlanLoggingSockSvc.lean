import Qcacld.Support.Recycle
import Qcacld.Support.Runs

/-!
# Svc — WlanLoggingSockSvc

The logging service.  Writers fill the current log buffer and the socket buffer of the current packet statistics node; when one is full the next is taken from a free list, or from the filled ones.  The logger thread fetches filled buffers, sends what they hold to user space and gives them back.  The two pools are recyclers; what is added here is the room in the buffers, the life of the socket buffers, the thread, and the end of the service.

`logging_service_iff` says which steps keep the law.  Not among them: a flush when the service has ended, a record that an empty socket buffer does not take, contents that are lost without being counted, and, after headers could not be built, a second release of a socket buffer that netlink has had.
-/

namespace Qcacld.Svc
open Qcacld.Support Function List Option Nat

def maxLogmsgLength : Nat := 2048

def maxPktstatsLength : Nat := 2048

def maxSkbmsgLength : Nat := 4096

def maxPktstatsBuff : Nat := 16

/-- The sizes of `tAniHdr`, `tAniNlHdr`, `struct vos_log_pktlog_info`, `struct ath_pktlog_hdr` and `struct packet_dump`. -/
def aniHdrSize : Nat := 4
def aniNlHdrSize : Nat := 24
def pktlogInfoSize : Nat := 24
def athPktlogHdrSize : Nat := 12
def packetDumpSize : Nat := 8

/-- Where the logger thread is.  The socket buffers are those it holds besides the nodes'; with a buffer goes the number of its contents, and through `pktlog_send_per_pkt_stats_to_user` the flag `free_old_skb`. -/
inductive LoggerThread where
  | idle
  | logAllocated (skb : Nat)
  | logHolds (skb node no : Nat)
  | logSends (skb no : Nat)
  | pktLoop (freeOldSkb : Bool)
  | pktAllocated (freeOldSkb : Bool) (skbNew : Nat)
  | pktHolds (freeOldSkb : Bool) (skbNew node no : Nat)
  | exited
deriving DecidableEq

open LoggerThread

namespace LoggerThread

def skbs : LoggerThread → List Nat
  | .logAllocated skb | .logHolds skb _ _ | .logSends skb _ | .pktAllocated _ skb
  | .pktHolds _ skb _ _ => [skb]
  | _ => []

def logHeld : LoggerThread → List Nat
  | .logHolds _ node _ => [node]
  | _ => []

def logNos : LoggerThread → List Nat
  | .logHolds _ _ no | .logSends _ no => [no]
  | _ => []

def pktHeld : LoggerThread → List Nat
  | .pktHolds _ _ node _ => [node]
  | _ => []

def pktNos : LoggerThread → List Nat
  | .pktHolds _ _ _ no => [no]
  | _ => []

end LoggerThread

/-- `struct wlan_logging`.  Buffers and nodes are their indices, socket buffers are numbered as they are allocated; a pool of size 0 has been freed.  The last four fields are history. -/
structure WlanLogging where
  log : Recycler
  /-- `filled_length` of the log buffers. -/
  filledLength : Nat → Nat
  pkt : Recycler
  /-- `skb` of the packet statistics nodes. -/
  pktSkb : Nat → Nat
  /-- The bytes that a socket buffer takes, and has taken. -/
  skbRoom : Nat → Nat
  skbLen : Nat → Nat
  nextSkb : Nat
  thread : LoggerThread
  exit : Bool
  /-- Freed, or handed to netlink. -/
  released : List Nat
  /-- Something was written behind the end of a buffer. -/
  overrun : Bool
  /-- A flush has found no current buffer. -/
  nullFlush : Bool
  /-- The thread has fetched from an empty list. -/
  strayFetch : Bool

open WlanLogging

/-- What `nl_srv_bcast_diag` answers, if the headers can be built. -/
inductive PktOutcome where
  | noHeaders
  | sent
  | noListener
  | failed
deriving DecidableEq

/-- The steps.  A writer's and a flush's are under the lock, the thread's are between two of its locked sections.  `dump` is whether a packet dump goes with the record, and if so whether it is of the type STOP_MONITOR. -/
inductive LogEvent where
  | logWrite (tlen : Fin 50) (length : Nat)
  | flush
  | threadFlush
  | pktWrite (size : UInt16) (dump : Option Bool) (data : Bool)
  | logAlloc (ok : Bool)
  | logFetch
  | logBuild (ok : Bool)
  | logSend (ok : Bool)
  | pktStart
  | pktAlloc (room : Option Nat)
  | pktFetch
  | pktFinish (o : PktOutcome)
  | pktReturn
  | deactivate
  | threadExit
  | freeLogs
  | freePkts

namespace WlanLogging
variable (s : WlanLogging)

/-! ### Log buffers -/

/-- Bytes are written up to `last` in a log buffer. -/
def wroteLog (last : Nat) : WlanLogging :=
  { s with overrun := s.overrun || maxLogmsgLength < last }

/-- `wlan_queue_logmsg_for_app` -/
def queueLogmsg : WlanLogging :=
  match s.log.cur with
  | none => { s with nullFlush := true }
  | some c =>
    let s := s.wroteLog (aniHdrSize + s.filledLength c + 1)
    let log := s.log.rotate c
    { s with
      log := log
      filledLength := match log.cur with
        | some f => update s.filledLength f 0
        | none => s.filledLength }

/-- Where a message ends that is copied behind the first `filled` bytes, or as much of it as an empty buffer has room for. -/
def logEnd (filled tlen length : Nat) : Nat :=
  let total := length + tlen + 1 + 1
  let total := if maxLogmsgLength < aniNlHdrSize + total then maxLogmsgLength - aniNlHdrSize - 2
    else total
  filled + (tlen + min length (total - tlen))

/-- A message is copied into the current buffer. -/
def copyLogmsg (tlen length : Nat) : WlanLogging :=
  match s.log.cur with
  | none => s
  | some c =>
    let filled := logEnd (s.filledLength c) tlen length
    let s := s.wroteLog (aniHdrSize + filled + 1)
    { s with filledLength := update s.filledLength c (filled + 1) }

/-- The message does not fit into what is left of a buffer. -/
def logFull (filled tlen length : Nat) : Bool :=
  maxLogmsgLength ≤ filled + aniNlHdrSize
    || maxLogmsgLength - (filled + aniNlHdrSize) < length + tlen + 1 + 1

/-- `wlan_log_to_user`, when the logs go to user space. -/
def logToUser (tlen length : Nat) : WlanLogging :=
  match s.log.cur with
  | none => s
  | some c =>
    (if logFull (s.filledLength c) tlen length then s.queueLogmsg else s).copyLogmsg tlen length

/-! ### Packet statistics -/

def getPktStatsFreeNode : WlanLogging :=
  match s.pkt.cur with
  | none => s
  | some c =>
    let pkt := s.pkt.rotate c
    { s with
      pkt := pkt
      skbLen := match pkt.cur with
        | some f => update s.skbLen (s.pktSkb f) 0
        | none => s.skbLen }

/-- A record of this size would not fit into what is left of the node's socket buffer. -/
def pktFull (c : Nat) (size : UInt16) : Bool :=
  s.skbRoom (s.pktSkb c) - s.skbLen (s.pktSkb c)
    ≤ athPktlogHdrSize + size.toNat + (pktlogInfoSize + aniNlHdrSize)

/-- The next node is taken when the record would not fit into the current one. -/
def makePktRoom (size : UInt16) : WlanLogging :=
  match s.pkt.cur with
  | none => s
  | some c => if s.pktFull c size then s.getPktStatsFreeNode else s

/-- The bytes of a record: the header, the dump, and the data, whose size is what is left. -/
def pktBytes (size : UInt16) (dump : Option Bool) (data : Bool) : Nat :=
  athPktlogHdrSize + (if dump.isSome then packetDumpSize else 0)
    + (if data then (if dump.isSome then size - .ofNat packetDumpSize else size).toNat else 0)

/-- Bytes are put into the current socket buffer. -/
def skbPut (bytes : Nat) : WlanLogging :=
  match s.pkt.cur with
  | none => s
  | some c =>
    let skb := s.pktSkb c
    { s with
      overrun := s.overrun || s.skbRoom skb < s.skbLen skb + bytes
      skbLen := update s.skbLen skb (s.skbLen skb + bytes) }

def pktStatsToLoggerThread (size : UInt16) (dump : Option Bool) (data : Bool) : WlanLogging :=
  let s := (s.makePktRoom size).skbPut (pktBytes size dump data)
  if dump = some true then s.getPktStatsFreeNode else s

/-! ### The logger thread -/

/-- A socket buffer that takes so many bytes is allocated. -/
def allocSkb (room : Nat) (thread : Nat → LoggerThread) : WlanLogging :=
  { s with
    nextSkb := s.nextSkb + 1
    skbRoom := update s.skbRoom s.nextSkb room
    skbLen := update s.skbLen s.nextSkb 0
    thread := thread s.nextSkb }

/-- The thread goes on, and has given socket buffers away. -/
def goOn (thread : LoggerThread) (released : List Nat) : WlanLogging :=
  { s with
    thread := thread
    released := s.released ++ released }

def logFetch (skb : Nat) : WlanLogging :=
  match s.log.filled with
  | [] => { s with strayFetch := true }
  | f :: fs =>
    { s with
      log.filled := fs
      thread := .logHolds skb f (s.log.serial f) }

/-- `nlmsg_put` has answered; the buffer is free again. -/
def logBuild (skb node no : Nat) (ok : Bool) : WlanLogging :=
  if ok then { s with log := s.log.give node }.goOn (.logSends skb no) []
  else { s with log := (s.log.give node).drop no }.goOn .idle [skb]

/-- `nl_srv_bcast_host_logs` has answered.  A failure is counted where it is printed. -/
def logSend (skb no : Nat) (ok : Bool) : WlanLogging :=
  if ok then { s with log := s.log.deliver no }.goOn .idle [skb]
  else if s.log.dropCount % 0x40 = 0 then { s with log := s.log.drop no }.goOn .idle [skb]
  else s.goOn .idle [skb]

def pktFetch (freeOldSkb : Bool) (skbNew : Nat) : WlanLogging :=
  match s.pkt.filled with
  | [] => { s with strayFetch := true }
  | f :: fs =>
    { s with
      pkt.filled := fs
      thread := .pktHolds freeOldSkb skbNew f (s.pkt.serial f) }

def pktOutcome (no : Nat) : PktOutcome → Recycler
  | .sent => s.pkt.deliver no
  | .failed => s.pkt.drop no
  | _ => s.pkt

/-- The rest of a turn: the node's socket buffer is handed on if it has headers, and freed if the flag is set; the node gets the new one and is free again. -/
def pktFinish (freeOldSkb : Bool) (skbNew node no : Nat) (o : PktOutcome) : WlanLogging :=
  let freeOldSkb := freeOldSkb || o = PktOutcome.noHeaders
  { s with
    pkt := (s.pktOutcome no o).give node
    pktSkb := update s.pktSkb node skbNew }.goOn (.pktLoop freeOldSkb)
      ((if o = PktOutcome.noHeaders then [] else [s.pktSkb node])
        ++ if freeOldSkb then [s.pktSkb node] else [])

/-! ### The end of the service -/

def freeLogs : WlanLogging := { s with log := s.log.clear }

/-- The socket buffers of all nodes and the nodes are freed. -/
def freePkts : WlanLogging :=
  { s with
    pkt := { s.pkt.clear with dropCount := 0 }
    released := s.released ++ (List.range s.pkt.size).map s.pktSkb }

end WlanLogging

open WlanLogging

def loggingStep (s : WlanLogging) : LogEvent → Option WlanLogging
  | .logWrite tlen length => some (s.logToUser tlen length)
  | .flush => some s.queueLogmsg
  | .threadFlush => do
    guard (s.thread = .idle)
    return s.queueLogmsg
  | .pktWrite size dump data => some (s.pktStatsToLoggerThread size dump data)
  | .logAlloc ok => do
    guard (s.thread = .idle ∧ s.log.filled ≠ [] ∧ s.exit = false)
    return if ok then s.allocSkb maxLogmsgLength .logAllocated else s
  | .logFetch => match s.thread with
    | .logAllocated skb => some (s.logFetch skb)
    | _ => none
  | .logBuild ok => match s.thread with
    | .logHolds skb node no => some (s.logBuild skb node no ok)
    | _ => none
  | .logSend ok => match s.thread with
    | .logSends skb no => some (s.logSend skb no ok)
    | _ => none
  | .pktStart => do
    guard (s.thread = .idle)
    return s.goOn (.pktLoop false) []
  | .pktAlloc room => match s.thread with
    | .pktLoop freeOldSkb => do
      guard (s.pkt.filled ≠ [] ∧ s.exit = false ∧ ∀ r ∈ room, maxSkbmsgLength ≤ r)
      return match room with
        | some r => s.allocSkb r (.pktAllocated freeOldSkb)
        | none => s.goOn .idle []
    | _ => none
  | .pktFetch => match s.thread with
    | .pktAllocated freeOldSkb skbNew => some (s.pktFetch freeOldSkb skbNew)
    | _ => none
  | .pktFinish o => match s.thread with
    | .pktHolds freeOldSkb skbNew node no => some (s.pktFinish freeOldSkb skbNew node no o)
    | _ => none
  | .pktReturn => match s.thread with
    | .pktLoop _ => some (s.goOn .idle [])
    | _ => none
  | .deactivate => do
    guard (s.log.size ≠ 0 ∧ s.exit = false)
    return { s with exit := true }
  | .threadExit => do
    guard (s.thread = .idle ∧ s.exit = true)
    return s.goOn .exited []
  | .freeLogs => do
    guard (s.thread = .exited ∧ s.log.size ≠ 0)
    return s.freeLogs
  | .freePkts => do
    guard (s.thread = .exited ∧ s.log.size = 0 ∧ s.pkt.size ≠ 0)
    return s.freePkts

structure FreshPool (p : Recycler) : Prop where
  cur : ∃ c, p.cur = some c ∧ (c :: p.free).Perm (List.range p.size)
  filled : p.filled = []
  fills : p.fills = 0
  delivered : p.delivered = []
  counted : p.counted = []
  base : p.base = p.dropCount

/-- The service has been activated; there may have been drops before. -/
structure Activated (s : WlanLogging) : Prop where
  log : FreshPool s.log
  pkt : FreshPool s.pkt
  size : s.pkt.size = maxPktstatsBuff
  filledLength : ∀ i, s.filledLength i = 0
  skbs : ((List.range s.pkt.size).map s.pktSkb).Perm (List.range s.nextSkb)
  room : ∀ i, maxPktstatsLength ≤ s.skbRoom i
  thread : s.thread = .idle
  exit : s.exit = false
  released : s.released = []
  overrun : s.overrun = false
  nullFlush : s.nullFlush = false
  strayFetch : s.strayFetch = false

def loggingMachine : Machine WlanLogging LogEvent where
  init := Activated
  step := loggingStep

/-- **The law.**  Both pools are right; each socket buffer is a node's or the thread's, or it has been freed or handed on, once; nothing was written behind the end of a buffer, no flush has found no buffer, and nothing was fetched from an empty list. -/
structure LoggingRight (s : WlanLogging) : Prop where
  log : s.log.Right s.thread.logHeld s.thread.logNos
  pkt : s.pkt.Right s.thread.pktHeld s.thread.pktNos
  skbs : (s.released ++ s.thread.skbs ++ (List.range s.pkt.size).map s.pktSkb).Perm
    (List.range s.nextSkb)
  overrun : s.overrun = false
  nullFlush : s.nullFlush = false
  strayFetch : s.strayFetch = false

/-- The record fits into what is left of the current socket buffer or, if that is taken to be full, into the next one. -/
def PktFits (s : WlanLogging) (size : UInt16) (bytes : Nat) : Prop :=
  ∀ c ∈ s.pkt.cur, if s.pktFull c size then bytes ≤ s.skbRoom (s.pktSkb (s.pkt.next c))
    else s.skbLen (s.pktSkb c) + bytes ≤ s.skbRoom (s.pktSkb c)
deriving Decidable

/-- **The condition.** -/
def LogEventOk (s : WlanLogging) : LogEvent → Prop
  | .flush => s.log.cur ≠ none
  | .pktWrite size dump data => PktFits s size (pktBytes size dump data)
  | .logSend ok => ok = true ∨ s.log.dropCount % 0x40 = 0
  | .pktFinish o => o = .sent ∨ o = .failed
  | .freeLogs => s.log.filled = []
  | .freePkts => s.pkt.filled = []
  | _ => True

instance (s : WlanLogging) : DecidablePred (LogEventOk s)
  | .flush => inferInstanceAs (Decidable (_ ≠ _))
  | .pktWrite size _ _ => inferInstanceAs (Decidable (PktFits s size _))
  | .logSend _ | .pktFinish _ => inferInstanceAs (Decidable (_ ∨ _))
  | .freeLogs | .freePkts => inferInstanceAs (Decidable (_ = _))
  | .logWrite _ _ | .threadFlush | .logAlloc _ | .logFetch | .logBuild _ | .pktStart | .pktAlloc _
  | .pktFetch | .pktReturn | .deactivate | .threadExit => .isTrue trivial

/-! ### What is kept -/

/-- The last place of a message in a log buffer. -/
def logLast : Nat := maxLogmsgLength - aniNlHdrSize - 2

/-- The flag `free_old_skb` of the thread. -/
def LoggerThread.freeOldSkb : LoggerThread → Bool
  | .pktLoop b | .pktAllocated b _ | .pktHolds b _ _ _ => b
  | _ => false

/-- The law, with what it rests on: the current buffer is short enough to be ended, there is one while the thread runs, what the thread is about to fetch from has something in it, and headers could always be built. -/
structure LoggingInv (s : WlanLogging) : Prop where
  right : LoggingRight s
  filledLength : ∀ c, s.log.cur = some c → s.filledLength c ≤ logLast + 1
  live : s.thread ≠ .exited → (∃ c, s.log.cur = some c) ∧ ∃ c, s.pkt.cur = some c
  freeOldSkb : s.thread.freeOldSkb = false
  logWaits : ∀ skb, s.thread = .logAllocated skb → s.log.filled ≠ []
  pktWaits : ∀ b skb, s.thread = .pktAllocated b skb → s.pkt.filled ≠ []

theorem logEnd_le {filled tlen length : Nat} (h : logFull filled tlen length = false) :
    logEnd filled tlen length ≤ logLast := by
  simp [logFull, maxLogmsgLength, aniNlHdrSize] at h
  simp only [logEnd, logLast, maxLogmsgLength, aniNlHdrSize]
  omega

theorem logEnd_empty_le (tlen : Fin 50) (length : Nat) : logEnd 0 tlen length ≤ logLast := by
  simp only [logEnd]
  split
  · next hl =>
    simp only [logLast, maxLogmsgLength, aniNlHdrSize] at hl ⊢
    omega
  · next hl =>
    simp only [logLast, maxLogmsgLength, aniNlHdrSize] at hl ⊢
    omega

theorem LoggingInv.setLog {s : WlanLogging} (h : LoggingInv s) {log : Recycler} {fl : Nat → Nat}
    (hr : log.Right s.thread.logHeld s.thread.logNos)
    (hfl : ∀ c, log.cur = some c → fl c ≤ logLast + 1)
    (hc : s.thread ≠ .exited → ∃ c, log.cur = some c)
    (hf : s.log.filled ≠ [] → log.filled ≠ []) :
    LoggingInv { s with
      log := log
      filledLength := fl } where
  right := { h.right with log := hr }
  filledLength := hfl
  live ht := ⟨hc ht, (h.live ht).2⟩
  freeOldSkb := h.freeOldSkb
  logWaits skb ht := hf (h.logWaits skb ht)
  pktWaits := h.pktWaits

theorem LoggingInv.setPkt {s : WlanLogging} (h : LoggingInv s) {pkt : Recycler} {len : Nat → Nat}
    (hr : pkt.Right s.thread.pktHeld s.thread.pktNos) (hz : pkt.size = s.pkt.size)
    (hc : s.thread ≠ .exited → ∃ c, pkt.cur = some c)
    (hf : s.pkt.filled ≠ [] → pkt.filled ≠ []) :
    LoggingInv { s with
      pkt := pkt
      skbLen := len } where
  right := { h.right with
    pkt := hr
    skbs := by
      rw [hz]
      exact h.right.skbs }
  filledLength := h.filledLength
  live ht := ⟨(h.live ht).1, hc ht⟩
  freeOldSkb := h.freeOldSkb
  logWaits := h.logWaits
  pktWaits b skb ht := hf (h.pktWaits b skb ht)

theorem rotate_filled_ne (p : Recycler) (c : Nat) (h : p.filled ≠ []) : (p.rotate c).filled ≠ [] :=
  ne_nil_of_length_pos (lt_of_lt_of_le (length_pos_iff.2 h) (p.rotate_filled c))

theorem wroteLog_eq (s : WlanLogging) {last : Nat} (h : last ≤ maxLogmsgLength) :
    s.wroteLog last = s := by
  have hn : decide (maxLogmsgLength < last) = false := decide_eq_false (not_lt.2 h)
  simp [wroteLog, hn]

theorem queueLogmsg_eq {s : WlanLogging} (h : LoggingInv s) {c : Nat} (hc : s.log.cur = some c) :
    s.queueLogmsg = { s with
      log := s.log.rotate c
      filledLength := update s.filledLength (s.log.next c) 0 } := by
  have hw : aniHdrSize + s.filledLength c + 1 ≤ maxLogmsgLength :=
    Nat.succ_le_succ (Nat.add_le_add_left (h.filledLength c hc) _) |>.trans (by decide)
  simp [queueLogmsg, hc, wroteLog_eq s hw, Recycler.rotate_cur]

theorem queueLogmsg_none {s : WlanLogging} (hc : s.log.cur = none) :
    s.queueLogmsg = { s with nullFlush := true } := by
  simp [queueLogmsg, hc]

theorem LoggingInv.queueLogmsg {s : WlanLogging} (h : LoggingInv s) (hc : s.log.cur ≠ none) :
    LoggingInv s.queueLogmsg := by
  obtain ⟨c, hc⟩ := ne_none_iff_exists'.1 hc
  rw [queueLogmsg_eq h hc]
  refine h.setLog (h.right.log.rotate hc) (fun f hf => ?_) (fun _ => ⟨_, s.log.rotate_cur c⟩)
    (rotate_filled_ne _ c)
  rw [Recycler.rotate_cur] at hf
  cases hf
  simp

theorem LoggingInv.copyLogmsg {s : WlanLogging} (h : LoggingInv s) {tlen length : Nat}
    (hl : ∀ c, s.log.cur = some c → logEnd (s.filledLength c) tlen length ≤ logLast) :
    LoggingInv (s.copyLogmsg tlen length) := by
  rcases hc : s.log.cur with _ | c
  · simpa [WlanLogging.copyLogmsg, hc] using h
  · have hw : aniHdrSize + logEnd (s.filledLength c) tlen length + 1 ≤ maxLogmsgLength :=
      Nat.succ_le_succ (Nat.add_le_add_left (hl c hc) _) |>.trans (by decide)
    simp only [WlanLogging.copyLogmsg, hc, wroteLog_eq s hw]
    refine h.setLog h.right.log (fun f hf => ?_) (fun ht => (h.live ht).1) id
    rw [hc] at hf
    cases hf
    simpa using hl c hc

theorem LoggingInv.logToUser {s : WlanLogging} (h : LoggingInv s) (tlen : Fin 50) (length : Nat) :
    LoggingInv (s.logToUser tlen length) := by
  rcases hc : s.log.cur with _ | c
  · simpa [WlanLogging.logToUser, hc] using h
  simp only [WlanLogging.logToUser, hc]
  split
  · refine copyLogmsg (h.queueLogmsg (by simp [hc])) fun f hf => ?_
    rw [queueLogmsg_eq h hc] at hf ⊢
    dsimp only at hf ⊢
    rw [Recycler.rotate_cur] at hf
    cases hf
    rw [update_self]
    exact logEnd_empty_le tlen length
  · next hfull =>
    refine h.copyLogmsg fun f hf => ?_
    rw [hc] at hf
    cases hf
    exact logEnd_le (Bool.eq_false_iff.2 hfull)

theorem getPktStatsFreeNode_eq {s : WlanLogging} {c : Nat} (hc : s.pkt.cur = some c) :
    s.getPktStatsFreeNode = { s with
      pkt := s.pkt.rotate c
      skbLen := update s.skbLen (s.pktSkb (s.pkt.next c)) 0 } := by
  simp [getPktStatsFreeNode, hc, Recycler.rotate_cur]

theorem LoggingInv.getPktStatsFreeNode {s : WlanLogging} (h : LoggingInv s) :
    LoggingInv s.getPktStatsFreeNode := by
  rcases hc : s.pkt.cur with _ | c
  · simpa [WlanLogging.getPktStatsFreeNode, hc] using h
  · rw [getPktStatsFreeNode_eq hc]
    exact h.setPkt (h.right.pkt.rotate hc) (s.pkt.rotate_size c) (fun _ => ⟨_, s.pkt.rotate_cur c⟩)
      (rotate_filled_ne _ c)

theorem LoggingInv.makePktRoom {s : WlanLogging} (h : LoggingInv s) (size : UInt16) :
    LoggingInv (s.makePktRoom size) := by
  rcases hc : s.pkt.cur with _ | c
  · simpa [WlanLogging.makePktRoom, hc] using h
  · simp only [WlanLogging.makePktRoom, hc]
    split
    · exact h.getPktStatsFreeNode
    · exact h

theorem pktFits_iff (s : WlanLogging) (size : UInt16) (bytes : Nat) :
    PktFits s size bytes ↔ ∀ c, (s.makePktRoom size).pkt.cur = some c →
      (s.makePktRoom size).skbLen ((s.makePktRoom size).pktSkb c) + bytes
        ≤ (s.makePktRoom size).skbRoom ((s.makePktRoom size).pktSkb c) := by
  rcases hc : s.pkt.cur with _ | c
  · simp [PktFits, makePktRoom, hc]
  · by_cases hf : s.pktFull c size
    · simp [PktFits, makePktRoom, hc, hf, getPktStatsFreeNode_eq hc, Recycler.rotate_cur]
    · simp [PktFits, makePktRoom, hc, hf]

theorem LoggingInv.skbPut {s : WlanLogging} (h : LoggingInv s) {bytes : Nat}
    (hf : ∀ c, s.pkt.cur = some c →
      s.skbLen (s.pktSkb c) + bytes ≤ s.skbRoom (s.pktSkb c)) : LoggingInv (s.skbPut bytes) := by
  rcases hc : s.pkt.cur with _ | c
  · simpa [WlanLogging.skbPut, hc] using h
  · have hn : decide (s.skbRoom (s.pktSkb c) < s.skbLen (s.pktSkb c) + bytes) = false :=
      decide_eq_false (not_lt.2 (hf c hc))
    simp only [WlanLogging.skbPut, hc, hn, Bool.or_false]
    exact h.setPkt h.right.pkt rfl (fun ht => (h.live ht).2) id

theorem skbPut_overrun {s : WlanLogging} {bytes c : Nat} (hc : s.pkt.cur = some c)
    (hf : ¬ s.skbLen (s.pktSkb c) + bytes ≤ s.skbRoom (s.pktSkb c)) :
    (s.skbPut bytes).overrun = true := by
  simp [skbPut, hc, not_le.1 hf]

theorem getPktStatsFreeNode_overrun (s : WlanLogging) :
    s.getPktStatsFreeNode.overrun = s.overrun := by
  simp only [getPktStatsFreeNode]
  split <;> rfl

theorem LoggingInv.pktWrite {s : WlanLogging} (h : LoggingInv s) {size : UInt16}
    {dump : Option Bool} {data : Bool} (hf : PktFits s size (pktBytes size dump data)) :
    LoggingInv (s.pktStatsToLoggerThread size dump data) := by
  have hp := (h.makePktRoom size).skbPut ((pktFits_iff s size _).1 hf)
  simp only [pktStatsToLoggerThread]
  split
  · exact hp.getPktStatsFreeNode
  · exact hp

theorem pktWrite_overrun {s : WlanLogging} {size : UInt16} {dump : Option Bool} {data : Bool}
    (hf : ¬ PktFits s size (pktBytes size dump data)) :
    (s.pktStatsToLoggerThread size dump data).overrun = true := by
  rw [pktFits_iff] at hf
  push Not at hf
  obtain ⟨c, hc, hf⟩ := hf
  have hp := skbPut_overrun hc (not_le.2 hf)
  simp only [pktStatsToLoggerThread]
  split
  · rwa [getPktStatsFreeNode_overrun]
  · exact hp

/-! ### The thread's steps -/

/-- The thread goes on, the pools as they are; what it no longer has it has given away. -/
theorem LoggingInv.goOn {s : WlanLogging} (h : LoggingInv s) {t : LoggerThread} {rel : List Nat}
    (hs : s.thread.skbs = rel ++ t.skbs)
    (hl : s.log.Right t.logHeld t.logNos) (hp : s.pkt.Right t.pktHeld t.pktNos)
    (ht : s.thread ≠ .exited) (hf : t.freeOldSkb = false)
    (hw : ∀ skb, t ≠ .logAllocated skb) (hpw : ∀ b skb, t ≠ .pktAllocated b skb) :
    LoggingInv (s.goOn t rel) where
  right := { h.right with
    log := hl
    pkt := hp
    skbs := by
      have hr := h.right.skbs
      rw [hs, ← append_assoc] at hr
      exact hr }
  filledLength := h.filledLength
  live _ := h.live ht
  freeOldSkb := hf
  logWaits skb he := absurd he (hw skb)
  pktWaits b skb he := absurd he (hpw b skb)

theorem LoggingInv.allocSkb {s : WlanLogging} (h : LoggingInv s) {t : Nat → LoggerThread}
    (room : Nat) (hs : s.thread.skbs = []) (ht : ∀ n, (t n).skbs = [n])
    (hl : s.log.Right (t s.nextSkb).logHeld (t s.nextSkb).logNos)
    (hp : s.pkt.Right (t s.nextSkb).pktHeld (t s.nextSkb).pktNos)
    (hx : s.thread ≠ .exited) (hf : (t s.nextSkb).freeOldSkb = false)
    (hw : ∀ skb, t s.nextSkb = .logAllocated skb → s.log.filled ≠ [])
    (hpw : ∀ b skb, t s.nextSkb = .pktAllocated b skb → s.pkt.filled ≠ []) :
    LoggingInv (s.allocSkb room t) where
  right := { h.right with
    log := hl
    pkt := hp
    skbs := by
      have hr := h.right.skbs
      rw [hs, append_nil] at hr
      simp only [WlanLogging.allocSkb, ht, append_assoc, range_succ]
      refine (perm_middle.trans (List.Perm.cons _ hr)).trans ?_
      exact perm_append_singleton _ _ |>.symm }
  filledLength := h.filledLength
  live _ := h.live hx
  freeOldSkb := hf
  logWaits := hw
  pktWaits := hpw

section
variable {s : WlanLogging} {skb node no : Nat}

theorem LoggingInv.logFetch (h : LoggingInv s) (ht : s.thread = .logAllocated skb) :
    LoggingInv (s.logFetch skb) := by
  obtain ⟨f, fs, hf⟩ := exists_cons_of_ne_nil (h.logWaits skb ht)
  have hr := h.right
  have hl := hr.log
  have hp := hr.pkt
  have hs := hr.skbs
  rw [ht] at hl hp hs
  simp only [WlanLogging.logFetch, hf]
  exact
    { right := { hr with
        log := hl.fetch hf
        pkt := hp
        skbs := hs }
      filledLength := h.filledLength
      live := fun _ => h.live (by simp [ht])
      freeOldSkb := rfl
      logWaits := nofun
      pktWaits := nofun }

theorem LoggingInv.pktFetch (h : LoggingInv s) (ht : s.thread = .pktAllocated false skb) :
    LoggingInv (s.pktFetch false skb) := by
  obtain ⟨f, fs, hf⟩ := exists_cons_of_ne_nil (h.pktWaits false skb ht)
  have hr := h.right
  have hl := hr.log
  have hp := hr.pkt
  have hs := hr.skbs
  rw [ht] at hl hp hs
  simp only [WlanLogging.pktFetch, hf]
  exact
    { right := { hr with
        log := hl
        pkt := hp.fetch hf
        skbs := hs }
      filledLength := h.filledLength
      live := fun _ => h.live (by simp [ht])
      freeOldSkb := rfl
      logWaits := nofun
      pktWaits := nofun }

theorem LoggingInv.setLogThread (h : LoggingInv s) {log : Recycler} {t : LoggerThread}
    {rel : List Nat} (hx : s.thread ≠ .exited) (hs : s.thread.skbs = rel ++ t.skbs)
    (hl : log.Right t.logHeld t.logNos) (hp : s.pkt.Right t.pktHeld t.pktNos)
    (hc : log.cur = s.log.cur) (ht : t.freeOldSkb = false)
    (hw : ∀ skb, t ≠ .logAllocated skb) (hpw : ∀ b skb, t ≠ .pktAllocated b skb) :
    LoggingInv ({ s with log := log }.goOn t rel) where
  right := { h.right with
    log := hl
    pkt := hp
    skbs := by
      have hr := h.right.skbs
      rw [hs, ← append_assoc] at hr
      exact hr }
  filledLength c he := h.filledLength c (hc ▸ he)
  live _ := by
    dsimp only [WlanLogging.goOn]
    rw [hc]
    exact h.live hx
  freeOldSkb := ht
  logWaits skb he := absurd he (hw skb)
  pktWaits b skb he := absurd he (hpw b skb)

theorem LoggingInv.logBuild (h : LoggingInv s) (ht : s.thread = .logHolds skb node no) (ok : Bool) :
    LoggingInv (s.logBuild skb node no ok) := by
  have hl := h.right.log
  have hp := h.right.pkt
  rw [ht] at hl hp
  simp only [WlanLogging.logBuild]
  split
  · exact h.setLogThread (by simp [ht]) (by simp [ht, skbs]) hl.give hp rfl rfl nofun nofun
  · exact h.setLogThread (by simp [ht]) (by simp [ht, skbs]) hl.give.drop hp rfl rfl nofun nofun

theorem LoggingInv.logSend (h : LoggingInv s) (ht : s.thread = .logSends skb no) {ok : Bool}
    (hok : ok = true ∨ s.log.dropCount % 0x40 = 0) : LoggingInv (s.logSend skb no ok) := by
  have hl := h.right.log
  have hp := h.right.pkt
  rw [ht] at hl hp
  simp only [WlanLogging.logSend]
  split
  · exact h.setLogThread (by simp [ht]) (by simp [ht, skbs]) hl.deliver hp rfl rfl nofun nofun
  · next hno =>
    rw [if_pos (hok.resolve_left hno)]
    exact h.setLogThread (by simp [ht]) (by simp [ht, skbs]) hl.drop hp rfl rfl nofun nofun

theorem logSend_not_right (h : LoggingInv s) (ht : s.thread = .logSends skb no) {ok : Bool}
    (hok : ¬ (ok = true ∨ s.log.dropCount % 0x40 = 0)) : ¬ LoggingRight (s.logSend skb no ok) := by
  have hl := h.right.log
  rw [ht] at hl
  obtain ⟨hno, hd⟩ := not_or.1 hok
  simp only [logSend, if_neg hno, if_neg hd]
  exact fun hr => hl.not_lost rfl rfl hr.log

theorem LoggingInv.pktFinish (h : LoggingInv s) (ht : s.thread = .pktHolds false skb node no)
    {o : PktOutcome} (ho : o = .sent ∨ o = .failed) :
    LoggingInv (s.pktFinish false skb node no o) := by
  have hr := h.right
  have hl := hr.log
  have hp := hr.pkt
  have hs := hr.skbs
  rw [ht] at hl hp hs
  have hne : o ≠ .noHeaders := by
    rcases ho with rfl | rfl <;> nofun
  have hflag : decide (o = .noHeaders) = false := decide_eq_false hne
  have hnode : node ∈ range s.pkt.size :=
    hp.places.subset (by simp [LoggerThread.pktHeld])
  have hperm : (s.pktSkb node :: (range s.pkt.size).map (update s.pktSkb node skb)).Perm
      (skb :: (range s.pkt.size).map s.pktSkb) :=
    Recycler.perm_map_update nodup_range hnode _ _
  have hout : (s.pktOutcome no o).Right [node] [] ∧ (s.pktOutcome no o).size = s.pkt.size ∧
      (s.pktOutcome no o).cur = s.pkt.cur := by
    rcases ho with rfl | rfl
    · exact ⟨hp.deliver, rfl, rfl⟩
    · exact ⟨hp.drop, rfl, rfl⟩
  obtain ⟨hpr, hz, hc⟩ := hout
  simp only [WlanLogging.pktFinish, hflag, if_neg hne, Bool.or_false, Bool.false_eq_true, if_false,
    append_nil]
  exact
    { right := { hr with
        log := hl
        pkt := hpr.give
        skbs := by
          refine List.Perm.trans ?_ hs
          simp only [WlanLogging.goOn, Recycler.give, LoggerThread.skbs, hz, append_nil,
            append_assoc, singleton_append]
          exact hperm.append_left _ }
      filledLength := h.filledLength
      live := fun _ => by
        have hlive := h.live (by simp [ht])
        exact ⟨hlive.1, by simpa [WlanLogging.goOn, Recycler.give, hc] using hlive.2⟩
      freeOldSkb := rfl
      logWaits := nofun
      pktWaits := nofun }

/-- Without headers, or without a listener, the contents of the node are gone and not counted. -/
theorem pktFinish_not_right (h : LoggingInv s) (ht : s.thread = .pktHolds false skb node no)
    {o : PktOutcome} (ho : ¬ (o = .sent ∨ o = .failed)) :
    ¬ LoggingRight (s.pktFinish false skb node no o) := by
  have hp := h.right.pkt
  rw [ht] at hp
  have hout : s.pktOutcome no o = s.pkt := by
    cases o with
    | noHeaders => rfl
    | noListener => rfl
    | sent => exact absurd (.inl rfl) ho
    | failed => exact absurd (.inr rfl) ho
  intro hr
  have hpr := hr.pkt
  simp only [pktFinish, goOn, hout] at hpr
  refine hp.not_lost ?_ ?_ hpr
  · rfl
  · rfl

/-! ### The end -/

theorem LoggingInv.freeLogs (h : LoggingInv s) (ht : s.thread = .exited)
    (hf : s.log.filled = []) : LoggingInv s.freeLogs where
  right := { h.right with
    log := by
      have hl := h.right.log
      rw [ht] at hl
      dsimp only [WlanLogging.freeLogs]
      rw [ht]
      exact hl.clear hf }
  filledLength := nofun
  live hx := absurd ht hx
  freeOldSkb := h.freeOldSkb
  logWaits skb he := absurd (ht.symm.trans he) nofun
  pktWaits := h.pktWaits

theorem freeLogs_not_right (h : LoggingInv s) (ht : s.thread = .exited)
    (hf : s.log.filled ≠ []) : ¬ LoggingRight s.freeLogs := by
  intro hr
  have hl := h.right.log
  have hl' := hr.log
  dsimp only [freeLogs] at hl'
  rw [ht] at hl hl'
  exact hl.not_clear hf hl'

theorem LoggingInv.freePkts (h : LoggingInv s) (ht : s.thread = .exited)
    (hf : s.pkt.filled = []) : LoggingInv s.freePkts where
  right := { h.right with
    pkt := by
      have hp := h.right.pkt
      rw [ht] at hp
      dsimp only [WlanLogging.freePkts]
      rw [ht]
      exact { hp.clear hf with drops := fun hz => absurd rfl hz }
    skbs := by
      have hs := h.right.skbs
      rw [ht] at hs
      simpa [WlanLogging.freePkts, ht, LoggerThread.skbs, Recycler.clear] using hs }
  filledLength := h.filledLength
  live hx := absurd ht hx
  freeOldSkb := h.freeOldSkb
  logWaits := h.logWaits
  pktWaits b skb he := absurd (ht.symm.trans he) nofun

theorem freePkts_not_right (h : LoggingInv s) (ht : s.thread = .exited)
    (hf : s.pkt.filled ≠ []) : ¬ LoggingRight s.freePkts := by
  intro hr
  have hp := h.right.pkt
  have hp' := hr.pkt
  dsimp only [freePkts] at hp'
  rw [ht] at hp hp'
  exact hp.not_clear hf { hp' with drops := fun hz => absurd rfl hz }

end

/-! ### Runs -/

theorem FreshPool.right {p : Recycler} (h : FreshPool p) : p.Right [] [] where
  places := by
    obtain ⟨c, hc, hp⟩ := h.cur
    simpa [hc, h.filled] using hp
  order := by simp [h.delivered, h.filled]
  missing := by simp [h.delivered, h.filled, h.counted, h.fills]
  drops _ := by
    rw [h.base, h.counted]
    exact (UInt32.add_zero _).symm

theorem Activated.inv {s : WlanLogging} (h : Activated s) : LoggingInv s := by
  have ht := h.thread
  exact
    { right :=
        { log := by
            rw [ht]
            exact h.log.right
          pkt := by
            rw [ht]
            exact h.pkt.right
          skbs := by simpa [ht, h.released, LoggerThread.skbs] using h.skbs
          overrun := h.overrun
          nullFlush := h.nullFlush
          strayFetch := h.strayFetch }
      filledLength := fun c _ => by simp [h.filledLength]
      live := fun _ => by
        obtain ⟨c, hc, -⟩ := h.log.cur
        obtain ⟨d, hd, -⟩ := h.pkt.cur
        exact ⟨⟨c, hc⟩, d, hd⟩
      freeOldSkb := by simp [ht, freeOldSkb]
      logWaits := fun skb he => absurd (ht.symm.trans he) nofun
      pktWaits := fun b skb he => absurd (ht.symm.trans he) nofun }

/-- **One step** that meets the condition keeps the invariant. -/
theorem LoggingInv.step {s s' : WlanLogging} {e : LogEvent} (h : LoggingInv s)
    (ok : LogEventOk s e) (hs : loggingStep s e = some s') : LoggingInv s' := by
  have hl := h.right.log
  have hp := h.right.pkt
  cases e with
  | logWrite tlen length =>
    cases hs
    exact h.logToUser tlen length
  | flush =>
    cases hs
    exact h.queueLogmsg ok
  | threadFlush =>
    obtain ⟨ht, rfl⟩ := guarded_eq_some.1 hs
    obtain ⟨⟨c, hc⟩, -⟩ := h.live (by simp [ht])
    exact h.queueLogmsg (by simp [hc])
  | pktWrite size dump data =>
    cases hs
    exact h.pktWrite ok
  | logAlloc ok' =>
    obtain ⟨⟨ht, hf, -⟩, rfl⟩ := guarded_eq_some.1 hs
    rw [ht] at hl hp
    split
    · exact h.allocSkb _ (by simp [ht, skbs]) (fun _ => rfl) hl hp (by simp [ht]) rfl
        (fun _ _ => hf) (fun _ _ hx => by cases hx)
    · exact h
  | logFetch =>
    simp only [loggingStep] at hs
    split at hs
    · next skb ht =>
      cases hs
      exact h.logFetch ht
    · cases hs
  | logBuild ok' =>
    simp only [loggingStep] at hs
    split at hs
    · next skb node no ht =>
      cases hs
      exact h.logBuild ht ok'
    · cases hs
  | logSend ok' =>
    simp only [loggingStep] at hs
    split at hs
    · next skb no ht =>
      cases hs
      exact h.logSend ht ok
    · cases hs
  | pktStart =>
    obtain ⟨ht, rfl⟩ := guarded_eq_some.1 hs
    rw [ht] at hl hp
    exact h.goOn (by simp [ht, skbs]) hl hp (by simp [ht]) rfl
      (fun _ hx => by cases hx) (fun _ _ hx => by cases hx)
  | pktAlloc room =>
    simp only [loggingStep] at hs
    split at hs
    · next b ht =>
      obtain ⟨⟨hf, -⟩, rfl⟩ := guarded_eq_some.1 hs
      have hb := h.freeOldSkb
      rw [ht] at hl hp hb
      cases room with
      | some r =>
        exact h.allocSkb r (by simp [ht, skbs]) (fun _ => rfl) hl hp (by simp [ht]) hb
          (fun _ hx => by cases hx) (fun _ _ _ => hf)
      | none =>
        exact h.goOn (by simp [ht, skbs]) hl hp (by simp [ht]) rfl
          (fun _ hx => by cases hx) (fun _ _ hx => by cases hx)
    · cases hs
  | pktFetch =>
    simp only [loggingStep] at hs
    split at hs
    · next b skb ht =>
      cases hs
      obtain rfl : b = false := by simpa [ht, LoggerThread.freeOldSkb] using h.freeOldSkb
      exact h.pktFetch ht
    · cases hs
  | pktFinish o =>
    simp only [loggingStep] at hs
    split at hs
    · next b skb node no ht =>
      cases hs
      obtain rfl : b = false := by simpa [ht, LoggerThread.freeOldSkb] using h.freeOldSkb
      exact h.pktFinish ht ok
    · cases hs
  | pktReturn =>
    simp only [loggingStep] at hs
    split at hs
    · next b ht =>
      cases hs
      rw [ht] at hl hp
      exact h.goOn (by simp [ht, skbs]) hl hp (by simp [ht]) rfl
        (fun _ hx => by cases hx) (fun _ _ hx => by cases hx)
    · cases hs
  | deactivate =>
    obtain ⟨-, rfl⟩ := guarded_eq_some.1 hs
    exact { h with right := { h.right with } }
  | threadExit =>
    obtain ⟨⟨ht, -⟩, rfl⟩ := guarded_eq_some.1 hs
    rw [ht] at hl hp
    exact h.goOn (by simp [ht, skbs]) hl hp (by simp [ht]) rfl
      (fun _ hx => by cases hx) (fun _ _ hx => by cases hx)
  | freeLogs =>
    obtain ⟨⟨ht, -⟩, rfl⟩ := guarded_eq_some.1 hs
    exact h.freeLogs ht ok
  | freePkts =>
    obtain ⟨⟨ht, -⟩, rfl⟩ := guarded_eq_some.1 hs
    exact h.freePkts ht ok

theorem LoggingInv.not_right {s s' : WlanLogging} {e : LogEvent} (h : LoggingInv s)
    (ok : ¬ LogEventOk s e) (hs : loggingStep s e = some s') : ¬ LoggingRight s' := by
  cases e with
  | flush =>
    cases hs
    have hc : s.log.cur = none := not_not.1 ok
    intro hr
    have hn := hr.nullFlush
    rw [queueLogmsg_none hc] at hn
    cases hn
  | pktWrite size dump data =>
    cases hs
    intro hr
    have ho := hr.overrun
    rw [pktWrite_overrun ok] at ho
    cases ho
  | logSend ok' =>
    simp only [loggingStep] at hs
    split at hs
    · next skb no ht =>
      cases hs
      exact logSend_not_right h ht ok
    · cases hs
  | pktFinish o =>
    simp only [loggingStep] at hs
    split at hs
    · next b skb node no ht =>
      cases hs
      obtain rfl : b = false := by simpa [ht, LoggerThread.freeOldSkb] using h.freeOldSkb
      exact pktFinish_not_right h ht ok
    · cases hs
  | freeLogs =>
    obtain ⟨⟨ht, -⟩, rfl⟩ := guarded_eq_some.1 hs
    exact freeLogs_not_right h ht ok
  | freePkts =>
    obtain ⟨⟨ht, -⟩, rfl⟩ := guarded_eq_some.1 hs
    exact freePkts_not_right h ht ok
  | logWrite _ _ | threadFlush | logAlloc _ | logFetch | logBuild _ | pktStart | pktAlloc _
  | pktFetch | pktReturn | deactivate | threadExit => exact absurd trivial ok

theorem loggingInv_reach {s : WlanLogging} (h : loggingMachine.Reach LogEventOk s) : LoggingInv s :=
  h.invariant LoggingInv (fun _ h₀ => Activated.inv h₀) fun _ _ _ hi ok hs => hi.step ok hs

/-- **The logging service.**  In runs whose steps meet the condition the law holds, and a step keeps it exactly when it meets the condition. -/
theorem logging_service_iff (s : WlanLogging) (h : loggingMachine.Reach LogEventOk s) :
    LoggingRight s ∧ ∀ e s', loggingMachine.step s e = some s' →
      (LoggingRight s' ↔ LogEventOk s e) := by
  have hi := loggingInv_reach h
  refine ⟨hi.right, fun e s' hs => ⟨fun hr => ?_, fun ok => (hi.step ok hs).right⟩⟩
  by_contra ok
  exact hi.not_right ok hs hr

/-- A pool whose buffers are all free but the first. -/
def freshPool (n : Nat) : Recycler where
  size := n + 1
  cur := some 0
  free := (List.range n).map (· + 1)
  filled := []
  dropCount := 0
  serial _ := 0
  fills := 0
  delivered := []
  counted := []
  base := 0

theorem freshPool_fresh (n : Nat) : FreshPool (freshPool n) :=
  ⟨⟨0, rfl, .of_eq range_succ_eq_map.symm⟩, rfl, rfl, rfl, rfl, rfl⟩

def freshLogging : WlanLogging where
  log := freshPool 1
  filledLength _ := 0
  pkt := freshPool 15
  pktSkb := id
  skbRoom _ := maxPktstatsLength
  skbLen _ := 0
  nextSkb := 16
  thread := .idle
  exit := false
  released := []
  overrun := false
  nullFlush := false
  strayFetch := false

theorem freshLogging_activated : Activated freshLogging where
  log := freshPool_fresh 1
  pkt := freshPool_fresh 15
  size := rfl
  filledLength _ := rfl
  skbs := .of_eq (map_id _)
  room _ := .refl
  thread := rfl
  exit := rfl
  released := rfl
  overrun := rfl
  nullFlush := rfl
  strayFetch := rfl

/-- A message and a record are written and sent, and the service ends. -/
def logRound : List LogEvent :=
  [.logWrite 10 5, .flush, .logAlloc true, .logFetch, .logBuild true, .logSend true,
    .pktWrite 100 (some true) true, .pktStart, .pktAlloc (some 4096), .pktFetch, .pktFinish .sent,
    .pktReturn, .deactivate, .threadExit, .freeLogs, .freePkts]

theorem logging_service_iff_round :
    ∃ s, loggingMachine.run freshLogging logRound = some s ∧ LoggingRight s ∧
      s.log.delivered = [0] ∧ s.pkt.delivered = [0] ∧ s.released.length = 18 :=
  Machine.exists_right (fun s hs => (logging_service_iff s hs).1) freshLogging_activated
    (by decide +kernel) (by decide +kernel)

/-- Headers cannot be built for the first of two nodes.  The second goes out to netlink, and is freed as well. -/
theorem headers_fail_frees_sent :
    ∃ s, loggingMachine.run freshLogging [.pktWrite 100 (some true) true,
        .pktWrite 100 (some true) true, .pktStart, .pktAlloc (some 4096), .pktFetch,
        .pktFinish .noHeaders, .pktAlloc (some 4096), .pktFetch, .pktFinish .sent] = some s ∧
      s.released = [0, 1, 1] ∧ ¬ LoggingRight s := by
  refine Machine.exists_run_of (q := fun s => s.released = [0, 1, 1]) (by decide +kernel)
    fun s hrel => ⟨hrel, fun hr => ?_⟩
  have hnd := hr.skbs.nodup_iff.2 nodup_range
  rw [hrel, append_assoc] at hnd
  have hno : ¬ [0, 1, 1].Nodup := by decide
  exact hno (List.nodup_append.1 hnd).1

end Qcacld.Svc

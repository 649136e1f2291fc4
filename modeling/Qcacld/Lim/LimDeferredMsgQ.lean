import Qcacld.Support.Ring
import Qcacld.Support.Runs

/-!
# Lim — LimDeferredMsgQ

The queue of deferred messages, a ring of `MAX_DEFERRED_QUEUE_LEN` slots.  `limReadDeferredMsgQ` rewinds its index at once, `limWriteDeferredMsgQ` before the next write.  Management frames have a quota: with more than half of the slots in use, no more than half may be theirs.

`contents` is what the ring holds, first to last.  `deferred_queue_iff` says that it is a FIFO in every run, and when a frame is refused as it should be: the scan for the quota counts the first slots of the array, whether they are in the ring or not.
-/

namespace Qcacld.Lim
open Qcacld.Support List Nat

structure SirMsgQ where
  type : UInt16
  reserved : UInt16
  bodyptr : Nat
  bodyval : UInt32
deriving DecidableEq

def sirBbXportMgmtMsg : UInt16 := 0x13b4
def maxDeferredQueueLen : Nat := 80
def limDeferredQCheckThreshold : Nat := maxDeferredQueueLen / 2
def limMaxNumMgmtFrameDeferred : Nat := maxDeferredQueueLen / 2

def SirMsgQ.isMgmt (m : SirMsgQ) : Bool := m.type == sirBbXportMgmtMsg

/-- `tLimDeferredMsgQParams`, and the count of the messages that could not be deferred -/
structure LimDeferredMsgQ where
  deferredQueue : Nat → SirMsgQ
  size : Nat
  read : Nat
  write : Nat
  deferredMsgCnt : UInt8

open LimDeferredMsgQ

/-- `TX_SUCCESS` and `TX_QUEUE_FULL` -/
inductive TxStatus where
  | success
  | queueFull
deriving DecidableEq

def limResetDeferredMsgQ (d : LimDeferredMsgQ) : LimDeferredMsgQ :=
  { d with
    size := 0
    write := 0
    read := 0 }

/-- The count of the management frames in `limWriteDeferredMsgQ`: the slots from 0 on, as many as are in use. -/
def LimDeferredMsgQ.mgmtCount (d : LimDeferredMsgQ) : Nat :=
  (List.range d.size).countP fun idx => (d.deferredQueue idx).isMgmt

def limWriteDeferredMsgQ (d : LimDeferredMsgQ) (limMsg : SirMsgQ) : TxStatus × LimDeferredMsgQ :=
  if maxDeferredQueueLen ≤ d.size then
    (.queueFull, { d with deferredMsgCnt := d.deferredMsgCnt + 1 })
  else if limMsg.isMgmt ∧ limDeferredQCheckThreshold < d.size ∧
      limMaxNumMgmtFrameDeferred < d.mgmtCount then
    (.queueFull, d)
  else
    let write := if maxDeferredQueueLen ≤ d.write then 0 else d.write
    (.success,
      { d with
        size := d.size + 1
        deferredMsgCnt := 0
        deferredQueue := Function.update d.deferredQueue write limMsg
        write := write + 1 })

def limReadDeferredMsgQ (d : LimDeferredMsgQ) : Option SirMsgQ × LimDeferredMsgQ :=
  if d.size = 0 then (none, d)
  else
    (some (d.deferredQueue d.read),
      { d with
        size := d.size - 1
        read := if maxDeferredQueueLen ≤ d.read + 1 then 0 else d.read + 1 })

/-! ### Runs -/

def LimDeferredMsgQ.live (d : LimDeferredMsgQ) : List Nat :=
  ringIdxs maxDeferredQueueLen d.read d.size

def LimDeferredMsgQ.contents (d : LimDeferredMsgQ) : List SirMsgQ := d.live.map d.deferredQueue

/-- The queue, the messages that have been deferred and those that have been read. -/
structure DeferredRun where
  q : LimDeferredMsgQ
  deferred : List SirMsgQ
  taken : List SirMsgQ

inductive DeferredEvent where
  | write (limMsg : SirMsgQ)
  | read

/-- A message that is accepted counts as deferred. -/
def DeferredRun.write (s : DeferredRun) (limMsg : SirMsgQ) (r : TxStatus × LimDeferredMsgQ) :
    DeferredRun :=
  { s with
    q := r.2
    deferred := if r.1 = .success then s.deferred ++ [limMsg] else s.deferred }

def DeferredRun.read (s : DeferredRun) (r : Option SirMsgQ × LimDeferredMsgQ) : DeferredRun :=
  { s with
    q := r.2
    taken := s.taken ++ r.1.toList }

def deferredMachine : Machine DeferredRun DeferredEvent where
  init s := ∃ d, s = ⟨limResetDeferredMsgQ d, [], []⟩
  step s
    | .write limMsg => some (s.write limMsg (limWriteDeferredMsgQ s.q limMsg))
    | .read => some (s.read (limReadDeferredMsgQ s.q))

/-- What has been deferred is what has been read and then what the queue holds, in order, and that is no more than it has room for. -/
structure DeferredRight (s : DeferredRun) : Prop where
  fifo : s.deferred = s.taken ++ s.q.contents
  room : s.q.contents.length ≤ maxDeferredQueueLen

structure ReadRight (d : LimDeferredMsgQ) : Prop where
  message : (limReadDeferredMsgQ d).1 = d.contents.head?
  contents : (limReadDeferredMsgQ d).2.contents = d.contents.tail

/-- A message is to be refused: the queue is full, or it is a management frame and has more than half in use and more than half of all slots with such frames. -/
def ToRefuse (d : LimDeferredMsgQ) (limMsg : SirMsgQ) : Prop :=
  d.contents.length = maxDeferredQueueLen ∨
    limMsg.isMgmt ∧ limDeferredQCheckThreshold < d.contents.length ∧
      limMaxNumMgmtFrameDeferred < d.contents.countP (·.isMgmt)

/-- A message is put last, just if it is not to be refused. -/
structure WriteRight (d : LimDeferredMsgQ) (limMsg : SirMsgQ) : Prop where
  refused : (limWriteDeferredMsgQ d limMsg).1 = .queueFull ↔ ToRefuse d limMsg
  contents : (limWriteDeferredMsgQ d limMsg).2.contents =
    if (limWriteDeferredMsgQ d limMsg).1 = .success then d.contents ++ [limMsg] else d.contents

/-! ### The condition -/

/-- The management frames that are counted although their slots are no longer in use. -/
def LimDeferredMsgQ.stale (d : LimDeferredMsgQ) : Nat :=
  (List.range d.size).countP fun idx => (d.deferredQueue idx).isMgmt && !d.live.contains idx

/-- The management frames in use that are not counted. -/
def LimDeferredMsgQ.missed (d : LimDeferredMsgQ) : Nat :=
  d.live.countP fun idx => (d.deferredQueue idx).isMgmt && !decide (idx < d.size)

/-- **The condition.**  For a management frame, with more than half of the slots in use and one free, the stale frames and the missed ones do not change on which side of the quota the frames in use are. -/
def QuotaOk (d : LimDeferredMsgQ) (limMsg : SirMsgQ) : Prop :=
  limMsg.isMgmt → limDeferredQCheckThreshold < d.size → d.size < maxDeferredQueueLen →
    (limMaxNumMgmtFrameDeferred < d.contents.countP (·.isMgmt) ↔
      limMaxNumMgmtFrameDeferred + d.missed < d.contents.countP (·.isMgmt) + d.stale)

/-- The indices are where they belong: the one for writing is behind the last slot in use. -/
structure DeferredInv (d : LimDeferredMsgQ) : Prop where
  read_lt : d.read < maxDeferredQueueLen
  size_le : d.size ≤ maxDeferredQueueLen
  write_le : d.write ≤ maxDeferredQueueLen
  write_eq : d.write % maxDeferredQueueLen = (d.read + d.size) % maxDeferredQueueLen

section
variable {d : LimDeferredMsgQ} {s : DeferredRun} {limMsg : SirMsgQ}

@[simp] theorem length_contents : d.contents.length = d.size := by
  simp [contents, live, ringIdxs]

theorem rewind_eq {i : Nat} (h : i ≤ maxDeferredQueueLen) :
    (if maxDeferredQueueLen ≤ i then 0 else i) = i % maxDeferredQueueLen := by
  split
  · next hle => rw [le_antisymm h hle, mod_self]
  · next hlt => rw [mod_eq_of_lt (not_le.1 hlt)]

theorem DeferredInv.spans (h : DeferredInv d) (hroom : d.size < maxDeferredQueueLen) :
    Spans maxDeferredQueueLen d.read (d.write % maxDeferredQueueLen) d.size :=
  ⟨h.read_lt, h.write_eq, hroom⟩

/-- **How a write ends**: refused, and nothing is changed but the count, or accepted into the next slot. -/
theorem limWriteDeferredMsgQ_cases (h : DeferredInv d) (limMsg : SirMsgQ) :
    (∃ cnt, limWriteDeferredMsgQ d limMsg = (.queueFull, { d with deferredMsgCnt := cnt }) ∧
      (d.size = maxDeferredQueueLen ∨ limMsg.isMgmt ∧ limDeferredQCheckThreshold < d.size ∧
        limMaxNumMgmtFrameDeferred < d.mgmtCount)) ∨
    (limWriteDeferredMsgQ d limMsg = (.success,
        { d with
          size := d.size + 1
          deferredMsgCnt := 0
          deferredQueue := Function.update d.deferredQueue (d.write % maxDeferredQueueLen) limMsg
          write := d.write % maxDeferredQueueLen + 1 }) ∧
      d.size < maxDeferredQueueLen ∧ ¬ (limMsg.isMgmt ∧ limDeferredQCheckThreshold < d.size ∧
        limMaxNumMgmtFrameDeferred < d.mgmtCount)) := by
  rw [limWriteDeferredMsgQ, rewind_eq h.write_le]
  split
  · next hfull => exact .inl ⟨_, rfl, .inl (le_antisymm h.size_le hfull)⟩
  · next hroom =>
    split
    · next hquota => exact .inl ⟨d.deferredMsgCnt, rfl, .inr hquota⟩
    · next hquota => exact .inr ⟨rfl, not_le.1 hroom, hquota⟩

theorem limResetDeferredMsgQ_inv (d : LimDeferredMsgQ) : DeferredInv (limResetDeferredMsgQ d) :=
  ⟨succ_pos _, zero_le _, zero_le _, rfl⟩

theorem DeferredInv.write (h : DeferredInv d) (limMsg : SirMsgQ) :
    DeferredInv (limWriteDeferredMsgQ d limMsg).2 := by
  rcases limWriteDeferredMsgQ_cases h limMsg with ⟨cnt, heq, -⟩ | ⟨heq, hroom, -⟩
  · rw [heq]
    exact ⟨h.read_lt, h.size_le, h.write_le, h.write_eq⟩
  · rw [heq]
    refine ⟨h.read_lt, hroom, mod_lt _ (succ_pos _), ?_⟩
    rw [h.write_eq, mod_add_mod, add_assoc]

theorem DeferredInv.contents_write (h : DeferredInv d) (limMsg : SirMsgQ) :
    (limWriteDeferredMsgQ d limMsg).2.contents =
      if (limWriteDeferredMsgQ d limMsg).1 = .success then d.contents ++ [limMsg]
      else d.contents := by
  rcases limWriteDeferredMsgQ_cases h limMsg with ⟨cnt, heq, -⟩ | ⟨heq, hroom, -⟩
  · rw [heq, if_neg TxStatus.noConfusion]
    rfl
  · rw [heq, if_pos rfl]
    exact (h.spans hroom).map_push

theorem limReadDeferredMsgQ_cases (h : DeferredInv d) :
    (limReadDeferredMsgQ d = (none, d) ∧ d.contents = []) ∨
    ∃ n m, d.size = n + 1 ∧ limReadDeferredMsgQ d = (some m,
        { d with
          size := n
          read := (d.read + 1) % maxDeferredQueueLen }) ∧
      d.contents = m :: (limReadDeferredMsgQ d).2.contents := by
  rw [limReadDeferredMsgQ, rewind_eq h.read_lt]
  split
  · next hz =>
    refine .inl ⟨rfl, ?_⟩
    rw [contents, live, hz]
    rfl
  · next hnz =>
    obtain ⟨n, hn⟩ := exists_eq_succ_of_ne_zero hnz
    refine .inr ⟨n, d.deferredQueue d.read, hn, ?_, ?_⟩
    · rw [hn]
      rfl
    · rw [contents, live, hn, ringIdxs_succ h.read_lt]
      rfl

theorem DeferredInv.read (h : DeferredInv d) : DeferredInv (limReadDeferredMsgQ d).2 := by
  rcases limReadDeferredMsgQ_cases h with ⟨heq, -⟩ | ⟨n, m, hn, heq, -⟩
  · rw [heq]
    exact h
  · rw [heq]
    refine ⟨mod_lt _ (succ_pos _), hn.symm.trans_le h.size_le |> le_of_succ_le, h.write_le, ?_⟩
    rw [h.write_eq, hn, mod_add_mod, add_assoc, add_comm 1]

theorem DeferredInv.readRight (h : DeferredInv d) : ReadRight d := by
  rcases limReadDeferredMsgQ_cases h with ⟨heq, hnil⟩ | ⟨n, m, -, heq, hcons⟩
  · exact ⟨by rw [heq, hnil]; rfl, by rw [heq, hnil]; rfl⟩
  · refine ⟨?_, by rw [hcons]; rfl⟩
    rw [hcons, heq]
    rfl

/-! ### The quota -/

/-- Of two lists without repetition, as many elements of the one are in the other as the other way round. -/
theorem countP_filter_contains {α : Type*} [BEq α] [LawfulBEq α] {l₁ l₂ : List α} (h₁ : l₁.Nodup)
    (h₂ : l₂.Nodup) (p : α → Bool) :
    (l₁.filter l₂.contains).countP p = (l₂.filter l₁.contains).countP p := by
  refine List.Perm.countP_eq p ((perm_ext_iff_of_nodup (h₁.filter _) (h₂.filter _)).2 ?_)
  intro x
  simp [and_comm]

/-- The count of the scan, with the frames it has missed, is that of the frames in use with the stale ones. -/
theorem DeferredInv.mgmtCount (h : DeferredInv d) :
    d.mgmtCount + d.missed = d.contents.countP (·.isMgmt) + d.stale := by
  let p : Nat → Bool := fun idx => (d.deferredQueue idx).isMgmt
  have hlive : d.live.Nodup := ringIdxs_nodup h.size_le
  have hrange : (range d.size).Nodup := nodup_range
  have hswap := countP_filter_contains hrange hlive p
  have hscan := countP_eq_countP_filter_add (range d.size) p d.live.contains
  have huse := countP_eq_countP_filter_add d.live p (range d.size).contains
  have hstale : ((range d.size).filter fun idx => !d.live.contains idx).countP p = d.stale := by
    rw [countP_filter]
    rfl
  have hmissed : (d.live.filter fun idx => !(range d.size).contains idx).countP p = d.missed := by
    rw [countP_filter]
    simp [missed, p]
  have hcontents : d.contents.countP (·.isMgmt) = d.live.countP p := countP_map
  rw [hcontents, huse, hmissed, LimDeferredMsgQ.mgmtCount, hscan, hstale, hswap]
  exact add_right_comm _ _ _

theorem quotaOk_of_read_zero (h : DeferredInv d) (hread : d.read = 0) (limMsg : SirMsgQ) :
    QuotaOk d limMsg := by
  have hlive : d.live = range d.size := by
    rw [live, hread, ringIdxs]
    conv_rhs => rw [← map_id (range d.size)]
    refine map_congr_left fun j hj => ?_
    rw [zero_add, mod_eq_of_lt (lt_of_lt_of_le (mem_range.1 hj) h.size_le), id]
  have hstale : d.stale = 0 := by
    refine countP_eq_zero.2 fun idx hidx => ?_
    rw [hlive]
    simp [mem_range.1 hidx]
  have hmissed : d.missed = 0 := by
    refine countP_eq_zero.2 fun idx hidx => ?_
    rw [hlive] at hidx
    simp [mem_range.1 hidx]
  intro _ _ _
  rw [hstale, hmissed, add_zero, add_zero]

theorem DeferredInv.scan_iff (h : DeferredInv d) : limMaxNumMgmtFrameDeferred < d.mgmtCount ↔
      limMaxNumMgmtFrameDeferred + d.missed < d.contents.countP (·.isMgmt) + d.stale := by
  rw [← h.mgmtCount, add_lt_add_iff_right]

/-- **A write is right just under the condition.** -/
theorem DeferredInv.writeRight_iff (h : DeferredInv d) (limMsg : SirMsgQ) :
    WriteRight d limMsg ↔ QuotaOk d limMsg := by
  have hrefused : WriteRight d limMsg ↔
      ((limWriteDeferredMsgQ d limMsg).1 = .queueFull ↔ ToRefuse d limMsg) :=
    ⟨WriteRight.refused, fun hr => ⟨hr, h.contents_write limMsg⟩⟩
  rw [hrefused, ToRefuse, length_contents, QuotaOk, ← h.scan_iff]
  rcases limWriteDeferredMsgQ_cases h limMsg with ⟨cnt, heq, hfull⟩ | ⟨heq, hroom, hquota⟩
  · simp only [heq, true_iff]
    rcases hfull with hfull | ⟨hm, hsize, hcount⟩
    · exact iff_of_true (.inl hfull) fun _ _ hlt => absurd hfull (Nat.ne_of_lt hlt)
    · by_cases hfull : d.size = maxDeferredQueueLen
      · exact iff_of_true (.inl hfull) fun _ _ hlt => absurd hfull (Nat.ne_of_lt hlt)
      · have hlt := lt_of_le_of_ne h.size_le hfull
        simp [hfull, hm, hsize, hlt, hcount]
  · have hne := Nat.ne_of_lt hroom
    simp only [heq, reduceCtorEq, false_iff, hne, false_or]
    constructor
    · intro hr hm hsize _
      exact iff_of_false (fun hlt => hr ⟨hm, hsize, hlt⟩) fun hcount => hquota ⟨hm, hsize, hcount⟩
    · rintro hok ⟨hm, hsize, hlt⟩
      exact hquota ⟨hm, hsize, (hok hm hsize hroom).1 hlt⟩

/-! ### All runs -/

theorem deferredMachine_inv (h : deferredMachine.Reach (fun _ _ => True) s) :
    DeferredInv s.q ∧ s.deferred = s.taken ++ s.q.contents := by
  refine h.invariant (fun s => DeferredInv s.q ∧ s.deferred = s.taken ++ s.q.contents) ?_ ?_
  · rintro s ⟨d, rfl⟩
    exact ⟨limResetDeferredMsgQ_inv d, rfl⟩
  · rintro s e s' ⟨hinv, hfifo⟩ - hstep
    cases e with
    | write limMsg =>
      cases hstep
      refine ⟨hinv.write limMsg, ?_⟩
      rw [DeferredRun.write]
      rw [hinv.contents_write, hfifo]
      split
      · rw [append_assoc]
      · rfl
    | read =>
      cases hstep
      refine ⟨hinv.read, ?_⟩
      rw [DeferredRun.read]
      rw [hinv.readRight.message, hinv.readRight.contents, hfifo, append_assoc]
      congr 1
      cases s.q.contents <;> rfl

end

/-- **The queue of deferred messages.**  In every run it is a FIFO that holds what it has room for; reading is
right; and a message is put last or refused as it should be just if it meets the condition. -/
theorem deferred_queue_iff (s : DeferredRun) (h : deferredMachine.Reach (fun _ _ => True) s) :
    DeferredRight s ∧ ReadRight s.q ∧ ∀ limMsg, WriteRight s.q limMsg ↔ QuotaOk s.q limMsg := by
  obtain ⟨hinv, hfifo⟩ := deferredMachine_inv h
  refine ⟨⟨hfifo, ?_⟩, hinv.readRight, hinv.writeRight_iff⟩
  rw [length_contents]
  exact hinv.size_le

def emptyDeferred : DeferredRun :=
  ⟨limResetDeferredMsgQ ⟨fun _ => ⟨0, 0, 0, 0⟩, 0, 0, 0, 0⟩, [], []⟩

def mgmtMsg : SirMsgQ := ⟨sirBbXportMgmtMsg, 0, 0, 0⟩
def scanMsg : SirMsgQ := ⟨0, 0, 0, 0⟩

theorem emptyDeferred_init : deferredMachine.init emptyDeferred := ⟨_, rfl⟩

theorem deferred_queue_quota : ∃ s, deferredMachine.run emptyDeferred
    (List.replicate 41 (.write mgmtMsg)) = some s ∧ s.q.contents.length = 41 ∧
      (limWriteDeferredMsgQ s.q mgmtMsg).1 = .queueFull ∧ DeferredRight s ∧
      WriteRight s.q mgmtMsg := by
  obtain ⟨s, hs, hlen, hread, hfull⟩ : ∃ s, deferredMachine.run emptyDeferred
      (List.replicate 41 (.write mgmtMsg)) = some s ∧ s.q.contents.length = 41 ∧ s.q.read = 0 ∧
        (limWriteDeferredMsgQ s.q mgmtMsg).1 = .queueFull :=
    Machine.exists_run (by decide +kernel)
  have hreach := Machine.reach_of_run emptyDeferred_init hs
  obtain ⟨hright, -, hwrite⟩ := deferred_queue_iff s hreach
  exact ⟨s, hs, hlen, hfull, hright,
    (hwrite mgmtMsg).2 (quotaOk_of_read_zero (deferredMachine_inv hreach).1 hread mgmtMsg)⟩

/-- After forty other messages have come and gone, the frames begin at slot 40: of the 41 that are in the
queue the scan counts two, and one more is deferred. -/
theorem rotated_quota_passed : ∃ s, deferredMachine.run emptyDeferred
    (List.replicate 40 (.write scanMsg) ++ List.replicate 40 .read
      ++ List.replicate 41 (.write mgmtMsg)) = some s ∧
    s.q.contents = List.replicate 41 mgmtMsg ∧ s.q.mgmtCount = 2 ∧
      (limWriteDeferredMsgQ s.q mgmtMsg).1 = .success ∧ ¬ WriteRight s.q mgmtMsg := by
  refine Machine.exists_run_of (q := fun s => s.q.contents = List.replicate 41 mgmtMsg ∧
    s.q.mgmtCount = 2 ∧ (limWriteDeferredMsgQ s.q mgmtMsg).1 = .success) (by decide +kernel) ?_
  rintro s ⟨hcontents, hcount, hsucc⟩
  refine ⟨hcontents, hcount, hsucc, fun h => ?_⟩
  have hrefuse : ToRefuse s.q mgmtMsg := by
    rw [ToRefuse, hcontents]
    exact .inr (by decide)
  rw [h.refused.2 hrefuse] at hsucc
  cases hsucc

end Qcacld.Lim

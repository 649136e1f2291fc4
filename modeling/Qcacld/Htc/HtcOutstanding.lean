import Mathlib.Data.List.Basic
import Qcacld.Support.Runs

/-!
# Htc — HtcOutstanding

`ul_outstanding_cnt` of an endpoint.  It is counted up under the lock before `HIFSend_head` is called, down again when the call fails, and down when HIF completes a buffer.  Each section under the lock is one step, and so is what HIF does, so any number of sends and completions may be under way at once, of which some find the lookup queue in the hands of others.

`outstanding_right` says that the counter is right as long as HIF refuses no bundle, which is never counted down, and nothing passes HTC by in a build with `ATH_11AC_TXCOMPACT`.
-/

namespace Qcacld.Htc
open Qcacld.Support List

/-! ### Sends -/

/-- A buffer given to `HIFSend_head`, and by which function. -/
inductive OutSend where
  /-- `HTCIssuePackets` -/
  | issued (netbuf : Nat)
  /-- `HTCSendBundledNetbuf` -/
  | bundled (netbuf : Nat)
  /-- `HTCSendDataPkt` -/
  | data (netbuf : Nat)
deriving DecidableEq

structure OutCfg where
  ath11acTxcompact : Bool
  /-- whether `ServiceID` is `HTT_DATA_MSG_SVC` -/
  httData : Bool

/-- Whether the packet is stored in `TxLookupQueue`. -/
def OutCfg.looksUp (cfg : OutCfg) : OutSend → Bool
  | .issued _ => !(cfg.ath11acTxcompact && cfg.httData)
  | .bundled _ | .data _ => true

/-- Whether the build has the function: bundles, and the `HTCSendDataPkt` that uses the lookup queue, are of a build without `ATH_11AC_TXCOMPACT`. -/
def OutCfg.has (cfg : OutCfg) : OutSend → Bool
  | .issued _ => true
  | .bundled _ | .data _ => !cfg.ath11acTxcompact

/-- An endpoint, and the calls that are under way at it. -/
structure OutEndpoint where
  ulOutstandingCnt : Int
  txLookupQueue : List OutSend
  /-- in `HIFSend_head` -/
  sending : List OutSend
  /-- refused by HIF, before the lock is taken again -/
  refused : List OutSend
  /-- accepted by HIF and not completed -/
  atHif : List OutSend
  /-- completed by HIF, before `HTCLookupTxPacket` takes the lock -/
  completing : List OutSend
  /-- the local `lookupQueue` of each `HTCLookupTxPacket` that searches -/
  searching : List (OutSend × List OutSend)
deriving DecidableEq

open OutEndpoint

/-! ### Steps -/

/-- The lock section before `HIFSend_head`. -/
def OutEndpoint.submit (cfg : OutCfg) (s : OutEndpoint) (send : OutSend) : OutEndpoint :=
  { s with
    txLookupQueue := if cfg.looksUp send then s.txLookupQueue ++ [send] else s.txLookupQueue
    ulOutstandingCnt := s.ulOutstandingCnt + 1
    sending := s.sending ++ [send] }

/-- `HIFSend_head` returns. -/
def OutEndpoint.hifSend (s : OutEndpoint) (send : OutSend) (ok : Bool) : OutEndpoint :=
  if ok then { s with sending := s.sending.erase send, atHif := s.atHif ++ [send] }
  else { s with sending := s.sending.erase send, refused := s.refused ++ [send] }

/-- `HTC_PACKET_REMOVE`, from whichever queue the packet is in. -/
def OutEndpoint.removeEntry (s : OutEndpoint) (send : OutSend) : OutEndpoint :=
  { s with
    txLookupQueue := s.txLookupQueue.erase send
    searching := s.searching.map fun x => (x.1, x.2.erase send) }

/-- The lock section behind a `HIFSend_head` that failed.  `HTCSendBundledNetbuf` does not count down. -/
def OutEndpoint.undo (s : OutEndpoint) (send : OutSend) : OutEndpoint :=
  let s := { s.removeEntry send with refused := s.refused.erase send }
  match send with
  | .bundled _ => s
  | .issued _ | .data _ => { s with ulOutstandingCnt := s.ulOutstandingCnt - 1 }

/-- `HTCSendDataPkt` of a build with `ATH_11AC_TXCOMPACT`, which calls `HIFSend_head` under the lock. -/
def OutEndpoint.sendDataPkt (s : OutEndpoint) (netbuf : Nat) (ok : Bool) : OutEndpoint :=
  if ok then { s with atHif := s.atHif ++ [.data netbuf] } else s

/-- HIF calls `HTCTxCompletionHandler`. -/
def OutEndpoint.complete (s : OutEndpoint) (send : OutSend) : OutEndpoint :=
  { s with atHif := s.atHif.erase send, completing := s.completing ++ [send] }

def OutEndpoint.reap (s : OutEndpoint) (send : OutSend) : OutEndpoint :=
  { s with atHif := s.atHif.erase send }

/-- The first lock section of `HTCLookupTxPacket`. -/
def OutEndpoint.lookup (s : OutEndpoint) (send : OutSend) : OutEndpoint :=
  let s := { s with
    completing := s.completing.erase send
    ulOutstandingCnt := s.ulOutstandingCnt - 1 }
  match s.txLookupQueue with
  | [] => s
  | pPacket :: txLookupQueue =>
    if send = pPacket then { s with txLookupQueue := txLookupQueue }
    else { s with
      txLookupQueue := []
      searching := s.searching ++ [(send, pPacket :: txLookupQueue)] }

/-- The second one, when the local queue has been searched. -/
def OutEndpoint.putBack (s : OutEndpoint) (send : OutSend) (lookupQueue : List OutSend) :
    OutEndpoint :=
  { s with
    searching := s.searching.erase (send, lookupQueue)
    txLookupQueue := lookupQueue.erase send ++ s.txLookupQueue }

/-! ### Runs -/

inductive OutEvent where
  | submit (send : OutSend)
  | hifSend (send : OutSend) (ok : Bool)
  | undo (send : OutSend)
  | sendDataPkt (netbuf : Nat) (ok : Bool)
  | complete (send : OutSend)
  | reap (send : OutSend)
  | lookup (send : OutSend)
  | putBack (send : OutSend) (lookupQueue : List OutSend)

open OutEvent

/-- One event.  HIF takes back by itself only what the HTT endpoint of a build with `ATH_11AC_TXCOMPACT` has sent. -/
def outStep (cfg : OutCfg) (s : OutEndpoint) : OutEvent → Option OutEndpoint
  | .submit send => do
    guard (cfg.has send = true)
    return s.submit cfg send
  | .hifSend send ok => do
    guard (send ∈ s.sending)
    return s.hifSend send ok
  | .undo send => do
    guard (send ∈ s.refused)
    return s.undo send
  | .sendDataPkt netbuf ok => do
    guard (cfg.ath11acTxcompact = true)
    return s.sendDataPkt netbuf ok
  | .complete send => do
    guard (send ∈ s.atHif)
    return s.complete send
  | .reap send => do
    guard (send ∈ s.atHif ∧ cfg.ath11acTxcompact = true ∧ cfg.httData = true)
    return s.reap send
  | .lookup send => do
    guard (send ∈ s.completing)
    return s.lookup send
  | .putBack send lookupQueue => do
    guard ((send, lookupQueue) ∈ s.searching)
    return s.putBack send lookupQueue

def OutEndpoint.idle : OutEndpoint := ⟨0, [], [], [], [], [], []⟩

def outMachine (cfg : OutCfg) : Machine OutEndpoint OutEvent where
  init s := s = .idle
  step := outStep cfg

/-! ### What is to hold -/

/-- The buffers whose send or completion is under way, between two sections under the lock. -/
def OutEndpoint.underWay (s : OutEndpoint) : Nat :=
  s.sending.length + s.refused.length + s.completing.length

/-- The counter is the number of buffers at HIF, and of those under way to it or back. -/
structure OutstandingRight (s : OutEndpoint) : Prop where
  accounted : s.ulOutstandingCnt = s.atHif.length + s.underWay
  idle : s.atHif = [] → s.underWay = 0 → s.ulOutstandingCnt = 0

/-- When it stays so: a bundle that HIF has refused is not undone, and HIF neither accepts nor takes back anything that HTC does not see. -/
def OutStepOk : OutEvent → Prop
  | .undo (.bundled _) | .sendDataPkt _ true | .reap _ => False
  | _ => True

instance : (e : OutEvent) → Decidable (OutStepOk e)
  | .undo (.bundled _) | .sendDataPkt _ true | .reap _ => .isFalse id
  | .undo (.issued _) | .undo (.data _) | .sendDataPkt _ false => .isTrue trivial
  | .submit _ | .hifSend .. | .complete _ | .lookup _ | .putBack .. => .isTrue trivial

/-! ### The balance -/

def OutEndpoint.balance (s : OutEndpoint) : Int :=
  s.ulOutstandingCnt - (s.atHif.length + s.underWay)

def OutEvent.drift : OutEvent → Int
  | .undo (.bundled _) | .reap _ => 1
  | .sendDataPkt _ true => -1
  | _ => 0

theorem outStepOk_iff (e : OutEvent) : OutStepOk e ↔ e.drift = 0 := by
  cases e with
  | undo send => cases send <;> simp [OutStepOk, drift]
  | sendDataPkt netbuf ok => cases ok <;> simp [OutStepOk, drift]
  | _ => simp [OutStepOk, drift]

section
variable {cfg : OutCfg} {s s' : OutEndpoint} {send : OutSend} {e : OutEvent}

theorem outstandingRight_iff : OutstandingRight s ↔ s.balance = 0 := by
  rw [balance, Int.sub_eq_zero]
  refine ⟨OutstandingRight.accounted, fun h => ⟨h, fun hhif hway => ?_⟩⟩
  rw [h, hhif, hway]
  rfl

theorem length_erase_add_one {l : List OutSend} (h : send ∈ l) :
    (l.erase send).length + 1 = l.length := by
  rw [length_erase_of_mem h]
  exact Nat.succ_pred_eq_of_pos (length_pos_of_mem h)

theorem balance_submit : (s.submit cfg send).balance = s.balance := by
  simp only [balance, underWay, OutEndpoint.submit, length_append, length_singleton]
  omega

theorem balance_hifSend {ok : Bool} (h : send ∈ s.sending) :
    (s.hifSend send ok).balance = s.balance := by
  have hlen := length_erase_add_one h
  cases ok with
  | false =>
    simp only [balance, underWay, OutEndpoint.hifSend, Bool.false_eq_true,
      if_false, length_append, length_singleton]
    omega
  | true =>
    simp only [balance, underWay, OutEndpoint.hifSend, if_true, length_append, length_singleton]
    omega

theorem balance_undo (h : send ∈ s.refused) :
    (s.undo send).balance = s.balance + (OutEvent.undo send).drift := by
  have hlen := length_erase_add_one h
  cases send <;>
    simp only [balance, underWay, OutEndpoint.undo, removeEntry, drift] <;> omega

theorem balance_complete (h : send ∈ s.atHif) : (s.complete send).balance = s.balance := by
  have hlen := length_erase_add_one h
  simp only [balance, underWay, OutEndpoint.complete, length_append, length_singleton]
  omega

theorem balance_reap (h : send ∈ s.atHif) : (s.reap send).balance = s.balance + 1 := by
  have hlen := length_erase_add_one h
  simp only [balance, underWay, OutEndpoint.reap]
  omega

theorem balance_lookup (h : send ∈ s.completing) : (s.lookup send).balance = s.balance := by
  have hlen := length_erase_add_one h
  have hcounted : ∀ q l, balance { s with
      completing := s.completing.erase send
      ulOutstandingCnt := s.ulOutstandingCnt - 1
      txLookupQueue := q
      searching := l } = s.balance := by
    intro q l
    simp only [balance, underWay]
    omega
  rw [OutEndpoint.lookup]
  split
  · exact hcounted _ _
  · split
    · exact hcounted _ _
    · exact hcounted _ _

theorem balance_step (h : outStep cfg s e = some s') : s'.balance = s.balance + e.drift := by
  cases e with
  | submit send =>
    obtain ⟨-, rfl⟩ := guarded_eq_some.1 h
    exact balance_submit.trans (Int.add_zero _).symm
  | hifSend send ok =>
    obtain ⟨hmem, rfl⟩ := guarded_eq_some.1 h
    exact (balance_hifSend hmem).trans (Int.add_zero _).symm
  | undo send =>
    obtain ⟨hmem, rfl⟩ := guarded_eq_some.1 h
    exact balance_undo hmem
  | sendDataPkt netbuf ok =>
    obtain ⟨-, rfl⟩ := guarded_eq_some.1 h
    cases ok with
    | false => exact (Int.add_zero _).symm
    | true =>
      simp only [balance, underWay, OutEndpoint.sendDataPkt, drift,
        if_true, length_append, length_singleton]
      omega
  | complete send =>
    obtain ⟨hmem, rfl⟩ := guarded_eq_some.1 h
    exact (balance_complete hmem).trans (Int.add_zero _).symm
  | reap send =>
    obtain ⟨hmem, rfl⟩ := guarded_eq_some.1 h
    exact balance_reap hmem.1
  | lookup send =>
    obtain ⟨hmem, rfl⟩ := guarded_eq_some.1 h
    exact (balance_lookup hmem).trans (Int.add_zero _).symm
  | putBack send lookupQueue =>
    obtain ⟨-, rfl⟩ := guarded_eq_some.1 h
    exact (Int.add_zero _).symm

end

/-! ### Main results -/

/-- **When the counter is right.**  Along runs in which HIF refuses no bundle that is undone, and
accepts and takes back nothing unseen, the counter is the number of buffers at HIF and under way,
and zero when there are none; and the next step keeps it so if and only if it is none of these. -/
theorem outstanding_right {cfg : OutCfg} {s : OutEndpoint}
    (h : (outMachine cfg).Reach (fun _ => OutStepOk) s) :
    OutstandingRight s ∧ ∀ e s', outStep cfg s e = some s' →
      (OutstandingRight s' ↔ OutStepOk e) := by
  have hzero : s.balance = 0 := by
    refine h.invariant (fun s => s.balance = 0) ?_ ?_
    · rintro s rfl
      rfl
    · intro s e s' hs hok hstep
      rw [balance_step hstep, hs, (outStepOk_iff e).1 hok]
      rfl
  refine ⟨outstandingRight_iff.2 hzero, fun e s' hstep => ?_⟩
  rw [outstandingRight_iff, balance_step hstep, hzero, Int.zero_add, outStepOk_iff]

/-- A build for USB or SDIO, and an endpoint of it. -/
def usbCfg : OutCfg := ⟨false, false⟩

theorem refused_bundle_counted : ¬ ∀ (cfg : OutCfg) (s : OutEndpoint),
    (outMachine cfg).Reach (fun _ _ => True) s → OutstandingRight s := by
  intro h
  have hrun : (outMachine usbCfg).run .idle [.submit (.bundled 0), .hifSend (.bundled 0) false,
      .undo (.bundled 0)] = some ⟨1, [], [], [], [], [], []⟩ := rfl
  have hright := h usbCfg _ (Machine.reach_of_run rfl hrun)
  exact absurd (hright.idle rfl rfl) (by decide)

/-- A bundle and a packet are sent, and another packet refused.  The packet is completed first; while the lookup queue is searched for it the bundle is not found. -/
def crossedCompletions : List OutEvent :=
  [.submit (.bundled 0), .hifSend (.bundled 0) true, .submit (.issued 1), .hifSend (.issued 1) true,
    .submit (.issued 2), .hifSend (.issued 2) false, .undo (.issued 2), .complete (.issued 1),
    .complete (.bundled 0), .lookup (.issued 1), .lookup (.bundled 0),
    .putBack (.issued 1) [.bundled 0, .issued 1]]

theorem outstanding_right_crossed :
    OutstandingRight ⟨0, [.bundled 0], [], [], [], [], []⟩ := by
  have hrun : (outMachine usbCfg).run .idle crossedCompletions
      = some ⟨0, [.bundled 0], [], [], [], [], []⟩ := by decide
  exact (outstanding_right (Machine.Reach.run (.start rfl) (by decide) hrun)).1

end Qcacld.Htc

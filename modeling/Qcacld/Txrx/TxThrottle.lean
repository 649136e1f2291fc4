import Mathlib.Data.List.Forall2
import Qcacld.Adf.Nbuf
import Qcacld.Support.Tally

/-!
# Txrx — TxThrottle

The low latency pause queues under throttling: `ol_tx_pdev_ll_pause_queue_send_all` goes round the vdevs and sends a frame of each, until no queue has more or the budget is used up.

The budget is counted down with each frame and looked at after each round.  A round that takes it past zero does not end the loop, and neither does one that starts with it at zero: from there on everything goes.  `throttled_send_iff` says which budgets are kept: those that cover the whole backlog, and those that a number of whole rounds comes to.
-/

namespace Qcacld.Txrx
open Qcacld.Adf Qcacld.Support List

inductive ThrottlePhase where
  | off
  | on
deriving DecidableEq

/-- `ll_pause` of a vdev.  `sent` and `dropped` are what the last call has given to `ol_tx_ll`, and what it has got back and freed. -/
structure LlPauseVdev where
  depth : Int
  /-- the frames from `txq.head` on -/
  queue : List AdfNbuf
  pausedReason : UInt32
  sent : List AdfNbuf
  dropped : List AdfNbuf

open LlPauseVdev

/-- `tx_throttle` and the vdevs of `vdev_list`. -/
structure ThrottlePdev where
  currentThrottlePhase : ThrottlePhase
  txThreshold : UInt32
  vdevs : List LlPauseVdev
  /-- `tx_timer` has been started. -/
  txTimer : Bool

section Send
variable (rejects : AdfNbuf → Bool)

/-- What is done for one vdev: the vdev, `max_to_send`, and whether there is more.  The `int` is only counted down and compared with zero. -/
def sendVdev (maxToSend : UInt32) (v : LlPauseVdev) : LlPauseVdev × UInt32 × Bool :=
  if v.depth = 0 then (v, maxToSend, false)
  else if v.pausedReason ≠ 0 then (v, maxToSend, false)
  else match v.queue with
    | [] => (v, maxToSend, false)
    | txMsdu :: queue =>
      let v := { v with
        depth := v.depth - 1
        queue := queue
        sent := v.sent ++ [txMsdu]
        -- what `ol_tx_ll` does not take is freed
        dropped := if rejects txMsdu then v.dropped ++ [txMsdu] else v.dropped }
      (v, maxToSend - 1, v.depth ≠ 0)

/-- A round of `TAILQ_FOREACH`. -/
def sendRound (maxToSend : UInt32) : List LlPauseVdev → List LlPauseVdev × UInt32 × Bool
  | [] => ([], maxToSend, false)
  | v :: vs =>
    let (v, maxToSend, more) := sendVdev rejects maxToSend v
    let (vs, maxToSend, more') := sendRound maxToSend vs
    (v :: vs, maxToSend, more || more')

/-- `do … while (more && max_to_send)` -/
def sendRounds : Nat → UInt32 → List LlPauseVdev → Option (List LlPauseVdev)
  | 0, _, _ => none
  | n + 1, maxToSend, vs =>
    let (vs, maxToSend, more) := sendRound rejects maxToSend vs
    if more ∧ maxToSend ≠ 0 then sendRounds n maxToSend vs else some vs

/-- The rounds there may be: each that has one after it sends a frame. -/
def sendFuel (vs : List LlPauseVdev) : Nat := tally (fun v => v.queue.length) vs + 1

def LlPauseVdev.fresh (v : LlPauseVdev) : LlPauseVdev :=
  { v with
    sent := []
    dropped := [] }

def olTxPdevLlPauseQueueSendAll (p : ThrottlePdev) : Option ThrottlePdev :=
  let vdevs := p.vdevs.map LlPauseVdev.fresh
  if p.currentThrottlePhase = .off then
    some { p with vdevs := vdevs }
  else do
    let vdevs ← sendRounds rejects (sendFuel vdevs) p.txThreshold vdevs
    return { p with
      vdevs := vdevs
      txTimer := p.txTimer || vdevs.any fun v => v.depth ≠ 0 }

end Send

/-! ### What is claimed -/

/-- What a call has sent of a vdev: nothing if it is paused, and in the order of its queue. -/
structure VdevSent (v v' : LlPauseVdev) : Prop where
  paused : v.pausedReason ≠ 0 → v'.sent = []
  order : v'.sent ++ v'.queue = v.queue

/-- **A right call.** -/
structure SendRight (p p' : ThrottlePdev) : Prop where
  budget : tally (fun v => v.sent.length) p'.vdevs ≤ p.txThreshold.toNat
  vdevs : List.Forall₂ VdevSent p.vdevs p'.vdevs

def LlPauseVdev.backlog (v : LlPauseVdev) : Nat :=
  if v.pausedReason ≠ 0 then 0
  else if v.depth < 0 then v.queue.length
  else min v.depth.toNat v.queue.length

def roundsSend (vs : List LlPauseVdev) (rounds : Nat) : Nat :=
  tally (fun v => min rounds v.backlog) vs

/-- **The condition**: the phase is off, or the budget covers the backlog, or some whole rounds use it up. -/
def ThresholdFits (p : ThrottlePdev) : Prop :=
  p.currentThrottlePhase = .off ∨ tally LlPauseVdev.backlog p.vdevs ≤ p.txThreshold.toNat ∨
    ∃ rounds, 0 < rounds ∧ roundsSend p.vdevs rounds = p.txThreshold.toNat

/-! ### Rounds -/

structure Served (rounds : ℕ) (v v' : LlPauseVdev) : Prop where
  pausedReason : v'.pausedReason = v.pausedReason
  backlog : v'.backlog = v.backlog - rounds
  length : v'.sent.length = min rounds v.backlog
  order : v'.sent ++ v'.queue = v.queue

section
variable {rejects : AdfNbuf → Bool} {v v' v'' : LlPauseVdev} {vs vs' vs'' : List LlPauseVdev}
  {k n : ℕ} {maxToSend m : UInt32} {more : Bool}

theorem served_fresh (v : LlPauseVdev) : Served 0 v v.fresh where
  pausedReason := rfl
  backlog := rfl
  length := (Nat.zero_min _).symm
  order := rfl

theorem backlog_pos_iff : 0 < v.backlog ↔ v.depth ≠ 0 ∧ v.pausedReason = 0 ∧ v.queue ≠ [] := by
  rw [backlog, ← length_pos_iff]
  split
  · next hp => simp [hp]
  · next hp =>
    rw [not_not] at hp
    simp only [hp, true_and]
    split
    · exact ⟨fun hl => ⟨by omega, hl⟩, fun hl => hl.2⟩
    · omega

theorem sendVdev_of_zero (h : v.backlog = 0) :
    sendVdev rejects maxToSend v = (v, maxToSend, false) := by
  have hn := mt backlog_pos_iff.2 (Nat.not_lt.2 (Nat.le_of_eq h))
  rw [sendVdev]
  split
  · rfl
  · next hd =>
    split
    · rfl
    · next hp =>
      cases hq : v.queue with
      | nil => rfl
      | cons msdu queue => exact absurd ⟨hd, not_not.1 hp, by simp [hq]⟩ hn

theorem sendVdev_of_pos (h : 0 < v.backlog) : ∃ v' more,
    sendVdev rejects maxToSend v = (v', maxToSend - 1, more) ∧
      (more = false → v'.backlog = 0) ∧ v'.pausedReason = v.pausedReason ∧
      v'.backlog = v.backlog - 1 ∧
      ∃ msdu, v'.sent = v.sent ++ [msdu] ∧ v.queue = msdu :: v'.queue := by
  obtain ⟨hd, hp, hq⟩ := backlog_pos_iff.1 h
  obtain ⟨msdu, queue, hq⟩ := exists_cons_of_ne_nil hq
  rw [sendVdev, if_neg hd, if_neg (not_not.2 hp), hq]
  refine ⟨_, _, rfl, fun hmore => ?_, rfl, ?_, msdu, rfl, rfl⟩
  · have hz : v.depth - 1 = 0 := by simpa using hmore
    simp only [backlog, hz, hp]
    simp
  · simp only [backlog, hp, hq, length_cons]
    simp only [ne_eq, not_true_eq_false, if_false]
    split <;> split <;> omega

theorem sendVdev_served (h : Served k v v') : ∃ v'' more,
    sendVdev rejects maxToSend v' = (v'', maxToSend - .ofNat (min 1 v'.backlog), more) ∧
      Served (k + 1) v v'' ∧ v''.backlog = v'.backlog - 1 ∧
      (more = true → 0 < v'.backlog) ∧ (more = false → v''.backlog = 0) := by
  have hb := h.backlog
  rcases Nat.eq_zero_or_pos v'.backlog with hz | hpos
  · refine ⟨v', false, ?_, ⟨h.pausedReason, ?_, ?_, h.order⟩, ?_, nofun, fun _ => hz⟩
    · rw [sendVdev_of_zero hz, hz, Nat.min_zero]
      simp
    · omega
    · rw [h.length]
      omega
    · omega
  · obtain ⟨v'', more, hv, hmore, hp, hb', msdu, hsent, hqueue⟩ :=
      @sendVdev_of_pos rejects v' maxToSend hpos
    refine ⟨v'', more, ?_, ⟨hp.trans h.pausedReason, ?_, ?_, ?_⟩, hb', fun _ => hpos, hmore⟩
    · rw [hv, Nat.min_eq_left hpos]
      rfl
    · omega
    · rw [hsent, length_append, length_singleton, h.length]
      omega
    · rw [hsent, append_assoc, singleton_append, ← hqueue]
      exact h.order

theorem sub_ofNat_add (m : UInt32) (a b : ℕ) : m - .ofNat a - .ofNat b = m - .ofNat (a + b) := by
  rw [UInt32.ofNat_add, UInt32.sub_eq_add_neg, UInt32.sub_eq_add_neg, UInt32.sub_eq_add_neg,
    UInt32.neg_add, UInt32.add_assoc, UInt32.sub_eq_add_neg]

/-- **A round**: the budget is counted down by what is sent, and if there is no more the backlog is empty. -/
theorem sendRound_served (h : List.Forall₂ (Served k) vs vs') : ∃ vs'' more,
    sendRound rejects maxToSend vs' =
      (vs'', maxToSend - .ofNat (tally (fun v => min 1 v.backlog) vs'), more) ∧
      List.Forall₂ (Served (k + 1)) vs vs'' ∧
      (more = true → tally LlPauseVdev.backlog vs'' < tally LlPauseVdev.backlog vs') ∧
      tally LlPauseVdev.backlog vs'' ≤ tally LlPauseVdev.backlog vs' ∧
      (more = false → tally LlPauseVdev.backlog vs'' = 0) := by
  induction h generalizing maxToSend with
  | nil => exact ⟨[], false, by simp [sendRound], .nil, nofun, Nat.le_refl _, fun _ => rfl⟩
  | @cons v v' vs vs' hv _ ih =>
    obtain ⟨v'', more, hrun, hserved, hb, hpos, hzero⟩ :=
      @sendVdev_served rejects v v' k maxToSend hv
    obtain ⟨vs'', more', hrun', hserved', hlt, hle, hzero'⟩ :=
      @ih (maxToSend - .ofNat (min 1 v'.backlog))
    refine ⟨v'' :: vs'', more || more', ?_, .cons hserved hserved', ?_, ?_, ?_⟩
    · rw [tally_cons, ← sub_ofNat_add]
      simp [sendRound, hrun, hrun']
    · rw [tally_cons, tally_cons, Bool.or_eq_true]
      rintro (hm | hm)
      · have := hpos hm
        omega
      · have := hlt hm
        omega
    · rw [tally_cons, tally_cons]
      omega
    · rw [tally_cons, Bool.or_eq_false_iff]
      rintro ⟨hm, hm'⟩
      rw [hzero hm, hzero' hm']

theorem tally_served (h : List.Forall₂ (Served k) vs vs') :
    tally (fun v => min 1 v.backlog) vs' + roundsSend vs k = roundsSend vs (k + 1) := by
  rw [roundsSend, roundsSend]
  induction h with
  | nil => rfl
  | cons hv _ ih =>
    have hb := hv.backlog
    rw [tally_cons, tally_cons, tally_cons]
    omega

theorem tally_backlog (h : List.Forall₂ (Served k) vs vs') :
    roundsSend vs k + tally LlPauseVdev.backlog vs' = tally LlPauseVdev.backlog vs := by
  rw [roundsSend]
  induction h with
  | nil => rfl
  | cons hv _ ih =>
    have hb := hv.backlog
    rw [tally_cons, tally_cons, tally_cons]
    omega

theorem tally_sent (h : List.Forall₂ (Served k) vs vs') :
    tally (fun v => v.sent.length) vs' = roundsSend vs k := by
  rw [roundsSend]
  induction h with
  | nil => rfl
  | cons hv _ ih => rw [tally_cons, tally_cons, ih, hv.length]

theorem roundsSend_mono {i j : ℕ} (h : i ≤ j) : roundsSend vs i ≤ roundsSend vs j := by
  rw [roundsSend, roundsSend]
  induction vs with
  | nil => exact Nat.le_refl _
  | cons v vs ih =>
    rw [tally_cons, tally_cons]
    omega

@[simp]
theorem roundsSend_zero (vs : List LlPauseVdev) : roundsSend vs 0 = 0 := by
  rw [roundsSend]
  induction vs with
  | nil => rfl
  | cons v vs ih => rw [tally_cons, ih, Nat.zero_min]

/-- **The rounds** end, with the backlog or at the first one that uses the budget up. -/
theorem sendRounds_spec (h : List.Forall₂ (Served k) vs vs') {threshold : UInt32}
    (hm : maxToSend = threshold - .ofNat (roundsSend vs k))
    (hn : tally LlPauseVdev.backlog vs' < n) :
    ∃ j vs'', sendRounds rejects n maxToSend vs' = some vs'' ∧ k < j ∧
      List.Forall₂ (Served j) vs vs'' ∧
      (roundsSend vs j = tally LlPauseVdev.backlog vs ∨ .ofNat (roundsSend vs j) = threshold) ∧
      ∀ i, k < i → i < j → UInt32.ofNat (roundsSend vs i) ≠ threshold := by
  induction n generalizing k vs' maxToSend with
  | zero => exact absurd hn (Nat.not_lt_zero _)
  | succ n ih =>
    obtain ⟨vs'', more, hrun, hserved, hlt, -, hzero⟩ :=
      @sendRound_served rejects vs vs' k maxToSend h
    have hleft : maxToSend - .ofNat (tally (fun v => min 1 v.backlog) vs') =
        threshold - .ofNat (roundsSend vs (k + 1)) := by
      rw [hm, sub_ofNat_add, Nat.add_comm, tally_served h]
    rw [sendRounds, hrun]
    dsimp only
    rw [hleft]
    split
    · next hgo =>
      have hlt' := hlt hgo.1
      obtain ⟨j, vs₃, hrun', hj, hserved', hstop, hfirst⟩ := ih hserved rfl (by omega)
      refine ⟨j, vs₃, hrun', by omega, hserved', hstop, fun i hi hij => ?_⟩
      rcases Nat.lt_or_ge (k + 1) i with hlt | hge
      · exact hfirst i hlt hij
      · obtain rfl : i = k + 1 := by omega
        intro he
        exact hgo.2 (by rw [he, UInt32.sub_self])
    · next hstop =>
      refine ⟨k + 1, vs'', rfl, Nat.lt_succ_self k, hserved, ?_, fun i hi hij => by omega⟩
      cases more with
      | false =>
        have := tally_backlog hserved
        rw [hzero rfl] at this
        exact .inl this
      | true =>
        have hz : threshold - .ofNat (roundsSend vs (k + 1)) = 0 :=
          not_not.1 fun hne => hstop ⟨rfl, hne⟩
        rw [UInt32.sub_eq_iff_eq_add, UInt32.zero_add] at hz
        exact .inr hz.symm

end

/-! ### The call -/

section
variable {rejects : AdfNbuf → Bool} {p : ThrottlePdev} {v : LlPauseVdev} {vs : List LlPauseVdev}

theorem forall₂_fresh (vs : List LlPauseVdev) :
    List.Forall₂ (Served 0) vs (vs.map LlPauseVdev.fresh) := by
  induction vs with
  | nil => exact .nil
  | cons v vs ih => exact .cons (served_fresh v) ih

theorem Served.vdevSent {k : ℕ} {v' : LlPauseVdev} (h : Served k v v') : VdevSent v v' := by
  refine ⟨fun hp => eq_nil_of_length_eq_zero ?_, h.order⟩
  rw [h.length, LlPauseVdev.backlog, if_pos hp, Nat.min_zero]

theorem backlog_le (v : LlPauseVdev) : v.backlog ≤ v.queue.length := by
  rw [backlog]
  split
  · exact Nat.zero_le _
  · split
    · exact Nat.le_refl _
    · exact Nat.min_le_right _ _

theorem backlog_lt_sendFuel (vs : List LlPauseVdev) :
    tally LlPauseVdev.backlog (vs.map LlPauseVdev.fresh) < sendFuel (vs.map LlPauseVdev.fresh) := by
  rw [sendFuel, Nat.lt_succ_iff]
  induction vs with
  | nil => exact Nat.le_refl _
  | cons v vs ih =>
    rw [map_cons, tally_cons, tally_cons]
    exact Nat.add_le_add (backlog_le v.fresh) ih

/-- **Throttling.**  A call ends; it sends nothing of a paused vdev and takes the frames of the others in their order; and it keeps to its budget exactly if the budget fits. -/
theorem throttled_send_iff (rejects : AdfNbuf → Bool) (p : ThrottlePdev) :
    ∃ p', olTxPdevLlPauseQueueSendAll rejects p = some p' ∧
      List.Forall₂ VdevSent p.vdevs p'.vdevs ∧ (SendRight p p' ↔ ThresholdFits p) := by
  have hfresh := forall₂_fresh p.vdevs
  by_cases hoff : p.currentThrottlePhase = .off
  · have hsent := hfresh.imp fun _ _ => Served.vdevSent
    rw [olTxPdevLlPauseQueueSendAll, if_pos hoff]
    refine ⟨_, rfl, hsent, iff_of_true ⟨?_, hsent⟩ (.inl hoff)⟩
    rw [tally_sent hfresh, roundsSend_zero]
    exact Nat.zero_le _
  · obtain ⟨j, vs, hrun, hj, hserved, hstop, hfirst⟩ :=
      @sendRounds_spec rejects p.vdevs _ 0 (sendFuel (p.vdevs.map .fresh)) p.txThreshold hfresh
        p.txThreshold (by rw [roundsSend_zero]; exact (UInt32.sub_zero _).symm) (backlog_lt_sendFuel p.vdevs)
    have hsent := hserved.imp fun _ _ => Served.vdevSent
    rw [olTxPdevLlPauseQueueSendAll, if_neg hoff, hrun]
    refine ⟨_, rfl, hsent, ?_⟩
    have hbacklog := tally_backlog hserved
    have hlt := p.txThreshold.toNat_lt
    constructor
    · intro hr
      have hle := hr.budget
      rw [tally_sent hserved] at hle
      rcases hstop with hall | hused
      · exact .inr (.inl (hall ▸ hle))
      · refine .inr (.inr ⟨j, hj, ?_⟩)
        rw [← hused, UInt32.toNat_ofNat', Nat.mod_eq_of_lt (by omega)]
    · intro hfits
      refine ⟨?_, hsent⟩
      rw [tally_sent hserved]
      rcases hfits with hphase | hcover | ⟨i, hi, hrounds⟩
      · exact absurd hphase hoff
      · omega
      · rcases Nat.lt_or_ge i j with hij | hij
        · -- the rounds would have ended there
          refine absurd ?_ (hfirst i hi hij)
          rw [hrounds, UInt32.ofNat_toNat]
        · exact hrounds ▸ roundsSend_mono hij

end

/-- Two vdevs with three frames each, one of them perhaps paused, and a budget. -/
def twoBacklogs (threshold : UInt32) (reason : UInt32) : ThrottlePdev where
  currentThrottlePhase := .on
  txThreshold := threshold
  vdevs := [⟨3, [1, 2, 3], 0, [], []⟩, ⟨3, [4, 5, 6], reason, [], []⟩]
  txTimer := false

/-- **The budget is passed over**: with two vdevs a budget of three frames is not used up by any number of rounds, and all six frames go. -/
theorem odd_budget_sends_all :
    ∃ p', olTxPdevLlPauseQueueSendAll (fun _ => false) (twoBacklogs 3 0) = some p' ∧
      p'.vdevs.map LlPauseVdev.sent = [[1, 2, 3], [4, 5, 6]] ∧ ¬ SendRight (twoBacklogs 3 0) p' :=
  ⟨_, rfl, by decide, fun hr => absurd hr.budget (by decide)⟩

example : (olTxPdevLlPauseQueueSendAll (fun _ => false) (twoBacklogs 2 1)).map
    (fun p => p.vdevs.map LlPauseVdev.sent) = some [[1, 2], []] := by
  decide

end Qcacld.Txrx

import Mathlib.Algebra.Order.Ring.Int
import Qcacld.Support.Runs

/-!
# Htt — HttTxCredit

The tx credits of a high latency device whose frames are free at download.  A frame needs room in the target and on the bus.  What either grants is first kept in `htt_tx_credit`, as `target_delta` and `bus_delta`, and moves to `target_tx_credit`, from which the scheduler takes, when both have some.

`htt_tx_credit_update` moves what it can, and returns the smaller of the two counters.  If that is negative nothing is moved, but the handlers of the completion messages add it all the same.  `credits_accounted_iff` says that this is all that breaks the accounts.
-/

namespace Qcacld.Htt
open Qcacld.Support

/-! ### Credits -/

def httMaxBusCredit : Int := 33
def maxTargetTxCredit : Int := 204800
/-- `CFG_TGT_NUM_MSDU_DESC` for SDIO, which alone has frames free at download -/
def cfgTgtNumMsduDesc : Int := 0
def httTxComplBytesPerMsduId : Nat := 2
def httTxComplHeadSz : Nat := 4

/-- The counters of `htt_tx_credit` and the `target_tx_credit` of the data path. -/
@[ext]
structure HttTxCredit where
  targetTxCredit : Int
  targetDelta : Int
  busDelta : Int
  /-- Ghost: the credit named in the messages that were accepted. -/
  named : Int
  /-- Ghost: what was scheduled. -/
  scheduled : Int
  /-- Ghost: the bus credits that came back. -/
  busReturned : Int

open HttTxCredit

/-- `htt_tx_credit_update`: what it returns, and the counters. -/
def httTxCreditUpdate (s : HttTxCredit) : Int × HttTxCredit :=
  let creditDelta := min s.targetDelta s.busDelta
  (creditDelta, if creditDelta > 0 then { s with
      targetDelta := s.targetDelta - creditDelta
      busDelta := s.busDelta - creditDelta }
    else s)

def olTxTargetCreditUpdate (s : HttTxCredit) (creditDelta : Int) : HttTxCredit :=
  { s with targetTxCredit := s.targetTxCredit + creditDelta }

/-- `ol_tx_credit_completion_handler`, as far as it credits -/
def olTxCreditCompletionHandler (s : HttTxCredit) (credits : Int) : HttTxCredit :=
  if credits > 0 then olTxTargetCreditUpdate s credits else s

/-! ### Messages -/

/-- A credit update that would take `target_delta` out of range is invalid. -/
def InvalidUpdate (s : HttTxCredit) (delta : Int) : Prop :=
  s.targetDelta + delta > maxTargetTxCredit ∨ s.targetDelta + delta < -maxTargetTxCredit
deriving Decidable

def HttTxCredit.name (s : HttTxCredit) (delta : Int) : HttTxCredit :=
  { s with
    targetDelta := s.targetDelta + delta
    named := s.named + delta }

/-- What the handlers of the completion messages do with the credit of `n` frames. -/
def HttTxCredit.completed (s : HttTxCredit) (n : Int) : HttTxCredit :=
  let (creditDelta, s) := httTxCreditUpdate (s.name n)
  if creditDelta ≠ 0 then olTxTargetCreditUpdate s creditDelta else s

/-- `HTT_T2H_MSG_TYPE_TX_COMPL_IND`, with the length of the message and whether its status is `htt_tx_status_fail_notify` -/
def txComplInd (s : HttTxCredit) (numMsdus msgLen : Nat) (failNotify : Bool) : HttTxCredit :=
  if numMsdus * httTxComplBytesPerMsduId + httTxComplHeadSz > msgLen then s
  else if failNotify then s
  else if InvalidUpdate s numMsdus then s
  else s.completed numMsdus

def mgmtTxComplInd (s : HttTxCredit) : HttTxCredit := s.completed 1

/-- The second transfer of `HTT_T2H_MSG_TYPE_TX_CREDIT_UPDATE_IND`, up to the most the bus ever grants, when `pending` is yet to be credited. -/
def HttTxCredit.topUp (s : HttTxCredit) (pending : Int) : HttTxCredit :=
  if s.targetTxCredit + pending < httMaxBusCredit ∧ s.targetDelta > 0 then
    let delta2 := httMaxBusCredit - s.targetTxCredit - pending
    let delta2 := if s.targetDelta < delta2 then s.targetDelta else delta2
    { s with
      targetDelta := s.targetDelta - delta2
      targetTxCredit := s.targetTxCredit + delta2
      busDelta := s.busDelta - delta2 }
  else s

def httCreditDelta (sign : Bool) (httCreditDeltaAbs : Nat) : Int :=
  if sign then -httCreditDeltaAbs else httCreditDeltaAbs

def txCreditUpdateInd (s : HttTxCredit) (sign : Bool) (httCreditDeltaAbs : Nat) : HttTxCredit :=
  let httCreditDelta := httCreditDelta sign httCreditDeltaAbs
  if InvalidUpdate s httCreditDelta then s
  else
    let (httCreditDelta, s) := httTxCreditUpdate (s.name httCreditDelta)
    let s := if httCreditDelta ≥ 0 then s.topUp httCreditDelta else s.topUp 0
    olTxCreditCompletionHandler s httCreditDelta

def httH2tSendComplete (s : HttTxCredit) : HttTxCredit :=
  let (creditDelta, s) := httTxCreditUpdate { s with
    busDelta := s.busDelta + 1
    busReturned := s.busReturned + 1 }
  if creditDelta ≠ 0 then olTxCreditCompletionHandler s creditDelta else s

/-! ### Runs -/

inductive CreditEvent where
  | txComplInd (numMsdus msgLen : Nat) (failNotify : Bool)
  | mgmtTxComplInd
  | txCreditUpdateInd (sign : Bool) (httCreditDeltaAbs : Nat)
  /-- `ol_tx_sched` or `ol_tx_target_credit_dec` takes credits for as many packets. -/
  | schedule (numCredits : Nat)
  /-- HTC is done with a packet that was scheduled. -/
  | busReturn

def creditStep (s : HttTxCredit) : CreditEvent → Option HttTxCredit
  | .txComplInd numMsdus msgLen failNotify => some (txComplInd s numMsdus msgLen failNotify)
  | .mgmtTxComplInd => some (mgmtTxComplInd s)
  | .txCreditUpdateInd sign httCreditDeltaAbs => some (txCreditUpdateInd s sign httCreditDeltaAbs)
  | .schedule numCredits => some { s with
      targetTxCredit := s.targetTxCredit - numCredits
      scheduled := s.scheduled + numCredits }
  | .busReturn => do
    guard (s.busReturned < s.scheduled)
    return httH2tSendComplete s

def HttTxCredit.attached : HttTxCredit where
  targetTxCredit := cfgTgtNumMsduDesc
  targetDelta := 0
  busDelta := httMaxBusCredit
  named := 0
  scheduled := 0
  busReturned := 0

def creditMachine : Machine HttTxCredit CreditEvent where
  init s := s = .attached
  step := creditStep

/-! ### What must hold -/

/-- Both accounts are right, and the credit is within what the bus ever grants. -/
structure CreditsAccounted (s : HttTxCredit) : Prop where
  target : s.targetTxCredit + s.targetDelta = cfgTgtNumMsduDesc + s.named - s.scheduled
  bus : s.targetTxCredit + s.busDelta =
    cfgTgtNumMsduDesc + httMaxBusCredit + s.busReturned - s.scheduled
  limit : s.targetTxCredit ≤ httMaxBusCredit

/-! ### When it does -/

/-- When the message has been counted, neither counter is negative. -/
def NeitherNegative (s : HttTxCredit) (n : Int) : Prop := 0 ≤ s.targetDelta + n ∧ 0 ≤ s.busDelta
deriving Decidable

/-- A completion message that is accepted finds no debt of the target or the bus. -/
def TxCreditStepOk (s : HttTxCredit) : CreditEvent → Prop
  | .txComplInd numMsdus msgLen failNotify =>
    numMsdus * httTxComplBytesPerMsduId + httTxComplHeadSz ≤ msgLen → failNotify = false →
      ¬ InvalidUpdate s numMsdus → NeitherNegative s numMsdus
  | .mgmtTxComplInd => NeitherNegative s 1
  | .txCreditUpdateInd .. | .schedule _ | .busReturn => True

instance (s : HttTxCredit) : (e : CreditEvent) → Decidable (TxCreditStepOk s e)
  | .txComplInd numMsdus msgLen failNotify => inferInstanceAs (Decidable
      (numMsdus * httTxComplBytesPerMsduId + httTxComplHeadSz ≤ msgLen → failNotify = false →
        ¬ InvalidUpdate s numMsdus → NeitherNegative s numMsdus))
  | .mgmtTxComplInd => inferInstanceAs (Decidable (NeitherNegative s 1))
  | .txCreditUpdateInd .. | .schedule _ | .busReturn => .isTrue trivial

/-! ### What the handlers move -/

section Move
variable {s : HttTxCredit} {c n pending : ℤ}

/-- Credits that both the target and the bus have granted are moved. -/
def HttTxCredit.move (s : HttTxCredit) (c : Int) : HttTxCredit :=
  { s with
    targetTxCredit := s.targetTxCredit + c
    targetDelta := s.targetDelta - c
    busDelta := s.busDelta - c }

@[simp] theorem HttTxCredit.move_zero (s : HttTxCredit) : s.move 0 = s := by
  ext <;> simp [move]

@[simp] theorem HttTxCredit.move_move (s : HttTxCredit) (c d : ℤ) :
    (s.move c).move d = s.move (c + d) := by
  ext <;> simp [move, add_assoc, sub_sub]

theorem httTxCreditUpdate_targetTxCredit (s : HttTxCredit) :
    (httTxCreditUpdate s).2.targetTxCredit = s.targetTxCredit := by
  simp only [httTxCreditUpdate]
  split <;> rfl

/-- What `htt_tx_credit_update` returns is added to the credit: it has been moved, unless it is negative. -/
theorem olTxTargetCreditUpdate_credit (s : HttTxCredit) :
    olTxTargetCreditUpdate (httTxCreditUpdate s).2 (httTxCreditUpdate s).1 =
      if 0 ≤ min s.targetDelta s.busDelta then s.move (min s.targetDelta s.busDelta)
      else olTxTargetCreditUpdate s (min s.targetDelta s.busDelta) := by
  rcases lt_trichotomy (min s.targetDelta s.busDelta) 0 with hneg | hzero | hpos
  · simp [httTxCreditUpdate, hneg.not_ge, hneg.not_gt]
  · simp [httTxCreditUpdate, hzero, olTxTargetCreditUpdate]
  · simp [httTxCreditUpdate, hpos, hpos.le, move, olTxTargetCreditUpdate]

theorem olTxTargetCreditUpdate_of_ne (s : HttTxCredit) (c : ℤ) :
    (if c ≠ 0 then olTxTargetCreditUpdate s c else s) = olTxTargetCreditUpdate s c := by
  refine ite_eq_left_iff.2 fun hzero => ?_
  rw [not_not.1 hzero]
  ext <;> simp [olTxTargetCreditUpdate]

/-- A completion message moves what the smaller counter holds.  If that is a debt, only the credit is changed. -/
theorem HttTxCredit.completed_eq (s : HttTxCredit) (n : ℤ) : s.completed n =
      if NeitherNegative s n then (s.name n).move (min (s.targetDelta + n) s.busDelta)
      else olTxTargetCreditUpdate (s.name n) (min (s.targetDelta + n) s.busDelta) := by
  have hnonneg : 0 ≤ min (s.targetDelta + n) s.busDelta ↔ NeitherNegative s n := le_min_iff
  calc s.completed n
      = olTxTargetCreditUpdate (httTxCreditUpdate (s.name n)).2
          (httTxCreditUpdate (s.name n)).1 := olTxTargetCreditUpdate_of_ne _ _
    _ = _ := olTxTargetCreditUpdate_credit _
    _ = _ := if_congr hnonneg rfl rfl

theorem olTxCreditCompletionHandler_credit (s : HttTxCredit) :
    olTxCreditCompletionHandler (httTxCreditUpdate s).2 (httTxCreditUpdate s).1 =
      s.move (max 0 (min s.targetDelta s.busDelta)) := by
  rcases le_or_gt (min s.targetDelta s.busDelta) 0 with hdebt | hpos
  · rw [max_eq_left hdebt, move_zero]
    simp [olTxCreditCompletionHandler, httTxCreditUpdate, hdebt.not_gt]
  · rw [max_eq_right hpos.le]
    simp [olTxCreditCompletionHandler, httTxCreditUpdate, hpos, move, olTxTargetCreditUpdate]

theorem httH2tSendComplete_eq (s : HttTxCredit) : httH2tSendComplete s = HttTxCredit.move { s with
        busDelta := s.busDelta + 1
        busReturned := s.busReturned + 1 } (max 0 (min s.targetDelta (s.busDelta + 1))) := by
  rw [← olTxCreditCompletionHandler_credit]
  refine ite_eq_left_iff.2 fun hzero => ?_
  rw [not_not.1 hzero]
  rfl

/-- The second transfer moves credits the target has granted, and stops at the most the bus ever grants. -/
theorem HttTxCredit.topUp_eq (s : HttTxCredit) (pending : ℤ) :
    ∃ d, s.topUp pending = s.move d ∧ (d = 0 ∨ s.targetTxCredit + pending + d ≤ httMaxBusCredit) := by
  unfold topUp
  split
  · refine ⟨_, rfl, .inr ?_⟩
    split <;> omega
  · exact ⟨0, s.move_zero.symm, .inl rfl⟩

@[simp] theorem olTxCreditCompletionHandler_move (s : HttTxCredit) (d credits : ℤ) :
    olTxCreditCompletionHandler (s.move d) credits =
      (olTxCreditCompletionHandler s credits).move d := by
  unfold olTxCreditCompletionHandler
  split
  · ext <;> simp [olTxTargetCreditUpdate, move, add_right_comm]
  · rfl

theorem txCreditUpdateInd_eq {sign : Bool} {httCreditDeltaAbs : ℕ}
    (hn : httCreditDelta sign httCreditDeltaAbs = n) (hvalid : ¬ InvalidUpdate s n)
    (hc : max 0 (min (s.targetDelta + n) s.busDelta) = c) :
    ∃ d, txCreditUpdateInd s sign httCreditDeltaAbs = (s.name n).move (c + d) ∧
      (d = 0 ∨ s.targetTxCredit + c + d ≤ httMaxBusCredit) := by
  subst hn hc
  have hpending : ∀ (t : HttTxCredit) (m : ℤ),
      (if m ≥ 0 then t.topUp m else t.topUp 0) = t.topUp (max 0 m) := by
    intro t m
    split
    · rename_i hm
      rw [max_eq_right hm]
    · rename_i hm
      rw [max_eq_left (not_le.1 hm).le]
  obtain ⟨d, hd, hcap⟩ := (httTxCreditUpdate (s.name _)).2.topUp_eq
    (max 0 (min (s.targetDelta + httCreditDelta sign httCreditDeltaAbs) s.busDelta))
  rw [httTxCreditUpdate_targetTxCredit] at hcap
  refine ⟨d, ?_, hcap⟩
  unfold txCreditUpdateInd
  dsimp only
  rw [if_neg hvalid, hpending]
  calc olTxCreditCompletionHandler _ _
      = olTxCreditCompletionHandler (move _ d) _ := congrArg₂ _ hd rfl
    _ = move _ d := by
      rw [olTxCreditCompletionHandler_move]
      exact congrArg (move · d) (olTxCreditCompletionHandler_credit _)
    _ = _ := move_move _ _ _

end Move

/-! ### The accounts -/

/-- The accounts are right, and only what was scheduled has come back. -/
structure Settled (s : HttTxCredit) : Prop extends CreditsAccounted s where
  returned : s.busReturned ≤ s.scheduled

namespace Settled
variable {s : HttTxCredit} {c n : ℤ}

theorem room (h : Settled s) : s.targetTxCredit + s.busDelta ≤ httMaxBusCredit := by
  have hbus := h.bus
  have hreturned := h.returned
  simp only [cfgTgtNumMsduDesc] at hbus
  omega

theorem move (h : Settled s) (hc : s.targetTxCredit + c ≤ httMaxBusCredit) : Settled (s.move c) where
  target := by simpa [HttTxCredit.move] using h.target
  bus := by simpa [HttTxCredit.move] using h.bus
  limit := hc
  returned := h.returned

theorem moved (h : Settled s) (hc : c ≤ s.busDelta) :
    s.targetTxCredit + max 0 c ≤ httMaxBusCredit := by
  rcases le_total c 0 with hdebt | hpos
  · simpa [hdebt] using h.limit
  · rw [max_eq_right hpos]
    exact (Int.add_le_add_left hc _).trans h.room

theorem name (h : Settled s) (n : ℤ) : Settled (s.name n) where
  target := by
    have htarget := h.target
    simp only [HttTxCredit.name]
    omega
  bus := h.bus
  limit := h.limit
  returned := h.returned

theorem completed_iff (h : Settled s) : (NeitherNegative s n → Settled (s.completed n)) ∧
      (CreditsAccounted (s.completed n) → NeitherNegative s n) := by
  rw [HttTxCredit.completed_eq]
  by_cases hok : NeitherNegative s n
  · rw [if_pos hok]
    refine ⟨fun _ => (h.name n).move ?_, fun _ => hok⟩
    exact (Int.add_le_add_left (min_le_right _ _) _).trans h.room
  · rw [if_neg hok]
    refine ⟨fun h' => absurd h' hok, fun h' => absurd h'.target ?_⟩
    -- the message is in `target_delta` as a whole, and the debt has been added besides
    have hdebt : min (s.targetDelta + n) s.busDelta < 0 := by
      rwa [← not_le, le_min_iff]
    have htarget := h.target
    simp only [olTxTargetCreditUpdate, HttTxCredit.name]
    omega

theorem sendComplete (h : Settled s) (hdue : s.busReturned < s.scheduled) :
    Settled (httH2tSendComplete s) := by
  rw [httH2tSendComplete_eq]
  have hreturned : Settled { s with
      busDelta := s.busDelta + 1
      busReturned := s.busReturned + 1 } := by
    refine ⟨⟨h.target, ?_, h.limit⟩, Int.add_one_le_of_lt hdue⟩
    have hbus := h.bus
    simp only
    omega
  exact hreturned.move (hreturned.moved (min_le_right _ _))

theorem creditUpdate (h : Settled s) (sign : Bool) (httCreditDeltaAbs : ℕ) :
    Settled (txCreditUpdateInd s sign httCreditDeltaAbs) := by
  by_cases hvalid : InvalidUpdate s (httCreditDelta sign httCreditDeltaAbs)
  · simpa [txCreditUpdateInd, if_pos hvalid] using h
  · obtain ⟨d, heq, hd⟩ := txCreditUpdateInd_eq rfl hvalid rfl
    rw [heq]
    refine (h.name _).move ?_
    rw [← add_assoc]
    rcases hd with rfl | hcap
    · rw [add_zero]
      exact h.moved (min_le_right _ _)
    · exact hcap

theorem schedule (h : Settled s) (numCredits : ℕ) : Settled { s with
    targetTxCredit := s.targetTxCredit - numCredits
    scheduled := s.scheduled + numCredits } where
  target := by
    have htarget := h.target
    simp only
    omega
  bus := by
    have hbus := h.bus
    simp only
    omega
  limit := (Int.sub_le_self _ (Int.natCast_nonneg _)).trans h.limit
  returned := h.returned.trans (Int.le_add_of_nonneg_right (Int.natCast_nonneg _))

/-- **The step lemma.** -/
theorem step {s' : HttTxCredit} {e : CreditEvent} (h : Settled s) (hstep : creditStep s e = some s') :
    (TxCreditStepOk s e → Settled s') ∧ (CreditsAccounted s' → TxCreditStepOk s e) := by
  cases e with
  | txComplInd numMsdus msgLen failNotify =>
    cases hstep
    simp only [txComplInd, TxCreditStepOk]
    by_cases hlen : numMsdus * httTxComplBytesPerMsduId + httTxComplHeadSz > msgLen
    · simp [hlen, hlen.not_ge, h]
    by_cases hfail : failNotify = true
    · simp [hlen, hfail, h]
    by_cases hvalid : InvalidUpdate s numMsdus
    · simp [hlen, hfail, hvalid, h]
    simpa [hlen, hfail, hvalid, not_lt.1 hlen] using h.completed_iff
  | mgmtTxComplInd =>
    cases hstep
    exact h.completed_iff
  | txCreditUpdateInd sign httCreditDeltaAbs =>
    cases hstep
    exact ⟨fun _ => h.creditUpdate sign httCreditDeltaAbs, fun _ => trivial⟩
  | schedule numCredits =>
    cases hstep
    exact ⟨fun _ => h.schedule numCredits, fun _ => trivial⟩
  | busReturn =>
    obtain ⟨hdue, rfl⟩ := guarded_eq_some.1 hstep
    exact ⟨fun _ => h.sendComplete hdue, fun _ => trivial⟩

end Settled

theorem settled_attached : Settled .attached := by
  refine ⟨⟨rfl, rfl, ?_⟩, le_refl _⟩
  decide

/-- **The credits are accounted for.**  Where completion messages find no debt, nothing is counted twice, and the next message is counted once if and only if it finds none either. -/
theorem credits_accounted_iff {s : HttTxCredit} (h : creditMachine.Reach TxCreditStepOk s) :
    CreditsAccounted s ∧ ∀ e s', creditStep s e = some s' →
      (CreditsAccounted s' ↔ TxCreditStepOk s e) := by
  have hsettled : Settled s := by
    refine h.invariant Settled ?_ ?_
    · rintro s rfl
      exact settled_attached
    · intro s e s' hs hok hstep
      exact (hs.step hstep).1 hok
  refine ⟨hsettled.toCreditsAccounted, fun e s' hstep => ?_⟩
  obtain ⟨hkept, honly⟩ := hsettled.step hstep
  exact ⟨honly, fun hok => (hkept hok).toCreditsAccounted⟩

/-- Ten credits are granted and scheduled.  Five are taken back, which the completion of eight frames makes up for. -/
theorem credits_accounted_iff_madeUp :
    (creditMachine.run .attached [.txCreditUpdateInd false 10, .schedule 10, .busReturn,
      .txCreditUpdateInd true 5, .txComplInd 8 20 false, .schedule 2, .mgmtTxComplInd]).map
        (fun s => (s.targetTxCredit, s.targetDelta, s.busDelta)) = some (2, 0, 20) ∧
    ∀ s, creditMachine.run .attached [.txCreditUpdateInd false 10, .schedule 10, .busReturn,
      .txCreditUpdateInd true 5, .txComplInd 8 20 false, .schedule 2, .mgmtTxComplInd] = some s →
        CreditsAccounted s := by
  refine ⟨by decide +kernel, fun s hs => ?_⟩
  exact (credits_accounted_iff (.run (.start rfl) (by decide +kernel) hs)).1

/-- A credit is granted and scheduled for a management frame, and then the target takes five back.  The completion of the frame takes the debt that is left from the credit, and leaves it in `target_delta` as well. -/
theorem negative_delta_counted_again :
    ¬ ∀ s, creditMachine.Reach (fun _ _ => True) s → CreditsAccounted s := by
  intro h
  obtain ⟨s, hs, hsum, hdue⟩ : ∃ s, creditMachine.run .attached [.txCreditUpdateInd false 1,
      .schedule 1, .txCreditUpdateInd true 5, .mgmtTxComplInd] = some s ∧
      s.targetTxCredit + s.targetDelta = -8 ∧ s.named - s.scheduled = -4 :=
    Machine.exists_run (by decide +kernel)
  have htarget := (h s (Machine.reach_of_run rfl hs)).target
  rw [hsum, add_sub_assoc, hdue] at htarget
  exact absurd htarget (by decide)

end Qcacld.Htt

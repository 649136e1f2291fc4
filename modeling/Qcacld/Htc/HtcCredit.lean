import Qcacld.Htc.HtcFlow

/-!
# Htc — HtcCredit

The credits of an endpoint with credit flow.  `GetHTCSendPacketsCreditBased` charges a whole batch before the first packet of it is sent.  When a send fails, `HTCIssuePackets` gives back what the packet was charged that failed; those behind it go back to `TxQueue` as they are and are charged again when they are taken next.  `HTCSendDataPkt` has a loop of its own, which gives nothing back.

`htc_credits_iff` says that the credits add up in a run exactly as long as no send fails but that of the last packet of a batch of `HTCTrySend`.
-/

namespace Qcacld.Htc
open Qcacld.Support List

/-! ### What must hold -/

/-- What the endpoint has, and what the packets used that HIF has taken or is about to be given, is what was granted.  No other packet holds a credit. -/
structure CreditsConserved (s : HtcEndpoint) : Prop where
  draining : ∀ t c, s.calls t = some c → c.holds →
    s.txCredits + credits s.handed + c.charge = s.granted
  idle : (∀ t c, s.calls t = some c → ¬ c.holds) → s.txCredits + credits s.handed = s.granted

/-- A send of a single packet that fails is one of `HTCTrySend`, and the last of its batch. -/
def FailsAlone (who : Drainer) : HtcSend → List HtcPacket → Prop
  | .bundle _, _ => True
  | .single _, sendQueue => who = .trySend ∧ sendQueue = []

instance (who : Drainer) (send : HtcSend) (sendQueue : List HtcPacket) :
    Decidable (FailsAlone who send sendQueue) :=
  match send with
  | .bundle _ => .isTrue trivial
  | .single _ => inferInstanceAs (Decidable (who = .trySend ∧ sendQueue = []))

/-- No HIF send fails, but at the end of a batch of `HTCTrySend`. -/
def CreditStepOk (s : HtcEndpoint) : HtcEvent → Prop
  | .hifSend t false _ =>
    match s.calls t with
    | some (.draining who _ (.sending send sendQueue)) => FailsAlone who send sendQueue
    | _ => True
  | _ => True

instance (s : HtcEndpoint) : (e : HtcEvent) → Decidable (CreditStepOk s e)
  | .hifSend t false _ =>
    match h : s.calls t with
    | some (.draining who _ (.sending send sendQueue)) =>
      decidable_of_iff (FailsAlone who send sendQueue) (by simp [CreditStepOk, h])
    | none | some (.entering ..) | some .notify | some (.completion _)
    | some (.draining _ _ (.issue _)) | some (.draining _ _ (.dequeue _))
    | some (.draining _ _ (.failed _)) | some (.draining _ _ .issued)
    | some (.draining _ _ (.look _)) | some (.draining _ _ .clear) =>
      .isTrue (by simp [CreditStepOk, h])
  | .hifSend _ true _ | .sendPktsMultiple .. | .trySend _ | .sendDataPkt .. | .readResources _
  | .lock _ | .issue .. | .clear _ | .complete .. | .creditRpt .. | .flush | .setNodropPkt _ =>
    .isTrue trivial

section Runs
variable {ep : EpConfig} {s s' : HtcEndpoint} {holder holder' : Option ℕ} {e : HtcEvent}
  {ok : HtcEndpoint → HtcEvent → Prop}

theorem creditsConserved_iff (hs : s.Holder holder) : CreditsConserved s ↔ s.balance holder = 0 := by
  cases holder with
  | none =>
    have hnone : ∀ t c, s.calls t = some c → ¬ c.holds :=
      fun t c hc hh => by cases hs.holder_eq hc hh
    have hbalance : s.balance none = s.txCredits + credits s.handed - s.granted := by
      simp [HtcEndpoint.balance]
    rw [hbalance]
    constructor
    · intro h
      have hidle := h.idle hnone
      omega
    · intro h
      exact ⟨fun t c hc hh => absurd hh (hnone t c hc), fun _ => by omega⟩
  | some t =>
    obtain ⟨c, hc, hh⟩ := (hs.holds_iff t).2 rfl
    have hbalance : s.balance (some t) = s.txCredits + credits s.handed + c.charge - s.granted := by
      rw [HtcEndpoint.balance, inHand_of_eq hc]
    rw [hbalance]
    constructor
    · intro h
      have hdraining := h.draining t c hc hh
      omega
    · refine fun h => ⟨fun u d hd hu => ?_, fun hno => absurd hh (hno t c hc)⟩
      obtain rfl := hs.exclusive hc hh hd hu
      cases hc.symm.trans hd
      omega

theorem exists_holder (h : (htcMachine ep).Reach ok s) : ∃ holder, s.Holder holder := by
  refine h.invariant (fun s => ∃ holder, s.Holder holder) ?_ ?_
  · rintro _ ⟨txAlloc, urbCnt, rfl⟩
    exact ⟨none, .start⟩
  · rintro s e s' ⟨holder, hs⟩ - h
    obtain ⟨holder', hf⟩ := htcStep_flows hs h
    exact ⟨holder', hf.token⟩

theorem txCredits_nonneg (h : (htcMachine ep).Reach ok s) : 0 ≤ s.txCredits := by
  have hinv : (∃ holder, s.Holder holder) ∧ 0 ≤ s.txCredits := by
    refine h.invariant (fun s => (∃ holder, s.Holder holder) ∧ 0 ≤ s.txCredits) ?_ ?_
    · rintro _ ⟨txAlloc, urbCnt, rfl⟩
      exact ⟨⟨none, .start⟩, Int.natCast_nonneg txAlloc⟩
    · rintro s e s' ⟨⟨holder, hs⟩, hn⟩ - h
      obtain ⟨holder', hf⟩ := htcStep_flows hs h
      exact ⟨⟨holder', hf.token⟩, hf.credits_nonneg hn⟩
  exact hinv.2

/-- A failed send loses credits, unless it is the last of a batch of `HTCTrySend`. -/
theorem failedLeak_eq_zero_iff {who : Drainer} {send : HtcSend} {q : List HtcPacket}
    (hpos : ∀ p ∈ send.packets ++ q, 0 < p.creditsUsed) :
    failedLeak who send q = 0 ↔ FailsAlone who send q := by
  cases send with
  | bundle ps => exact iff_of_true rfl trivial
  | single p =>
    cases who with
    | trySend =>
      have hq : ∀ p ∈ q, 0 < p.creditsUsed := fun p hp => hpos p (mem_append_right _ hp)
      simp [failedLeak, FailsAlone, credits_eq_zero_iff hq]
    | sendData =>
      refine iff_of_false ?_ (by simp [FailsAlone])
      exact fun h => cons_ne_nil p q ((credits_eq_zero_iff hpos).1 h)

theorem creditLeak_eq_zero_iff (hs : s.Holder holder)
    (hpos : ∀ p ∈ s.hand holder, 0 < p.creditsUsed) (e : HtcEvent) :
    creditLeak s e = 0 ↔ CreditStepOk s e := by
  cases e with
  | hifSend t ok alloc =>
    cases ok with
    | true => exact iff_of_true rfl trivial
    | false =>
      by_cases hsending : ∃ who callers send sendQueue,
          s.calls t = some (.draining who callers (.sending send sendQueue))
      · obtain ⟨who, callers, send, sendQueue, hc⟩ := hsending
        rw [HtcEndpoint.hand, hs.inHand_eq hc trivial] at hpos
        simp only [creditLeak, CreditStepOk, hc]
        exact failedLeak_eq_zero_iff hpos
      · have hleak : creditLeak s (.hifSend t false alloc) = 0 := by
          simp only [creditLeak]
          split
          · rename_i hc
            exact absurd ⟨_, _, _, _, hc⟩ hsending
          · rfl
        refine iff_of_true hleak ?_
        simp only [CreditStepOk]
        split
        · rename_i hc
          exact absurd ⟨_, _, _, _, hc⟩ hsending
        · trivial
  | sendPktsMultiple _ _ _ | trySend _ | sendDataPkt _ _ _ | readResources _ | lock _ | issue _ _
  | clear _ | complete _ _ | creditRpt _ _ | flush | setNodropPkt _ => exact iff_of_true rfl trivial

end Runs

/-- **HTC credits.**  `TxCredits` is never negative.  The credits add up in a run with no send that fails but at the end of a batch of `HTCTrySend`, and from there on an event breaks that exactly if it is such a failure. -/
theorem htc_credits_iff {ep : EpConfig} (hcf : ep.txCreditFlowEnabled = true)
    (hid : ep.id ≠ endpoint0) :
    (∀ s, (htcMachine ep).Reach (fun _ _ => True) s → 0 ≤ s.txCredits) ∧
    ∀ s, (htcMachine ep).Reach CreditStepOk s → CreditsConserved s ∧
      ∀ e s', htcStep ep s e = some s' → (CreditsConserved s' ↔ CreditStepOk s e) := by
  refine ⟨fun s h => txCredits_nonneg h, fun s h => ?_⟩
  have hinv : ∃ holder, s.Holder holder ∧ s.balance holder = 0 ∧
      ∀ p ∈ s.hand holder, 0 < p.creditsUsed := by
    refine h.invariant (fun s => ∃ holder, s.Holder holder ∧ s.balance holder = 0 ∧
      ∀ p ∈ s.hand holder, 0 < p.creditsUsed) ?_ ?_
    · rintro _ ⟨txAlloc, urbCnt, rfl⟩
      exact ⟨none, .start, by simp [HtcEndpoint.balance, HtcEndpoint.connected],
        by simp [HtcEndpoint.hand]⟩
    · rintro s e s' ⟨holder, hs, hbalance, hpos⟩ hok h
      obtain ⟨holder', hf⟩ := htcStep_flows hs h
      have hkept := hf.balance
      rw [(creditLeak_eq_zero_iff hs hpos e).2 hok, hbalance, Int.add_zero] at hkept
      exact ⟨holder', hf.token, hkept, hf.charged hcf hid hpos⟩
  obtain ⟨holder, hs, hbalance, hpos⟩ := hinv
  refine ⟨(creditsConserved_iff hs).2 hbalance, fun e s' hstep => ?_⟩
  obtain ⟨holder', hf⟩ := htcStep_flows hs hstep
  have hkept := hf.balance
  rw [creditsConserved_iff hf.token, ← creditLeak_eq_zero_iff hs hpos e]
  omega

def twoIssued : List HtcEvent :=
  [.sendPktsMultiple 0 [⟨1, 100, 1⟩, ⟨2, 100, 1⟩] [], .readResources 0, .lock 0, .issue 0 false]

theorem htc_credits_iff_oneFailed : ∃ s, s.txQueue.map (·.id) = [2] ∧ s.txCredits = 1 ∧
    CreditsConserved s := by
  obtain ⟨s, -, hreach, hq, hcredits⟩ : ∃ s, (htcMachine httEndpoint).run (.connected 2 0)
      (twoIssued ++ [.hifSend 0 true false, .issue 0 false, .hifSend 0 false false, .lock 0]) =
        some s ∧ (htcMachine httEndpoint).Reach CreditStepOk s ∧
      s.txQueue.map (·.id) = [2] ∧ s.txCredits = 1 :=
    Machine.exists_reach (by exact ⟨2, 0, rfl⟩) (by decide +kernel) (by decide +kernel)
  exact ⟨s, hq, hcredits, ((htc_credits_iff rfl (by decide)).2 s hreach).1⟩

/-- The first of a batch of two fails: both are back in the queue, and one credit is gone. -/
theorem failed_batch_leaks : ∃ s, (htcMachine httEndpoint).Reach (fun _ _ => True) s ∧
    s.txQueue.map (·.id) = [1, 2] ∧ s.handed = [] ∧ s.txProcessCount = 0 ∧ s.granted = 2 ∧
    s.txCredits = 1 ∧ ¬ CreditsConserved s := by
  obtain ⟨s, hs, hq, hhanded, hcount, hgranted, hcredits⟩ : ∃ s,
      (htcMachine httEndpoint).run (.connected 2 0)
        (twoIssued ++ [.hifSend 0 false false, .lock 0]) = some s ∧
      s.txQueue.map (·.id) = [1, 2] ∧ s.handed = [] ∧ s.txProcessCount = 0 ∧ s.granted = 2 ∧
      s.txCredits = 1 :=
    Machine.exists_run (by decide +kernel)
  have hreach : (htcMachine httEndpoint).Reach (fun _ _ => True) s :=
    Machine.reach_of_run ⟨2, 0, rfl⟩ hs
  refine ⟨s, hreach, hq, hhanded, hcount, hgranted, hcredits, fun h => ?_⟩
  obtain ⟨holder, htoken⟩ := exists_holder hreach
  obtain ⟨rfl, -⟩ := htoken.free (by omega)
  have hidle := h.idle fun t c hc hh => by cases htoken.holder_eq hc hh
  rw [hcredits, hhanded, hgranted] at hidle
  cases hidle

end Qcacld.Htc

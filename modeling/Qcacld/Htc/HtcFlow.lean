import Qcacld.Htc.HtcSend
import Qcacld.Support.Tally

/-!
# Htc — HtcFlow

What a step can do to the packets and the credits of an endpoint, said once.  The packets stand in a line: those HIF has taken, those the drainer has in hand, and those in `TxQueue`.  The credits are on a ledger: what the endpoint has, what the packets HIF has taken used, and what those in hand are charged, against what has been granted.

`htcStep_flows` says that a step lengthens the line at its end and nowhere else, and that it keeps the ledger up to the leak it names.
-/

namespace Qcacld.Htc
open Qcacld.Support Function List Option Call HtcEndpoint

/-! ### The line and the ledger -/

def credits (l : List HtcPacket) : ℤ := tally (fun p => (p.creditsUsed : ℤ)) l

def DrainPc.hand : DrainPc → List HtcPacket
  | .issue sendQueue | .dequeue sendQueue | .failed sendQueue => sendQueue
  | .sending send sendQueue => send.packets ++ sendQueue
  | .issued | .look _ | .clear => []

/-- The credits they are charged.  What goes back to the queue is to hold none. -/
def DrainPc.charge : DrainPc → ℤ
  | .failed _ => 0
  | pc => credits pc.hand

def Call.holds : Call → Prop
  | .draining .. => True
  | _ => False

def Call.hand : Call → List HtcPacket
  | .draining _ _ pc => pc.hand
  | _ => []

def Call.charge : Call → ℤ
  | .draining _ _ pc => pc.charge
  | _ => 0

abbrev HtcEndpoint.Holder (s : HtcEndpoint) (holder : Option ℕ) : Prop :=
  Token Call.holds s.calls s.txProcessCount holder

def HtcEndpoint.hand (s : HtcEndpoint) (holder : Option ℕ) : List HtcPacket :=
  inHand Call.hand [] s.calls holder

def HtcEndpoint.line (s : HtcEndpoint) (holder : Option ℕ) : List ℕ :=
  (s.handed ++ s.hand holder ++ s.txQueue).map (·.id)

def HtcEndpoint.balance (s : HtcEndpoint) (holder : Option ℕ) : ℤ :=
  s.txCredits + credits s.handed + inHand Call.charge 0 s.calls holder - s.granted

/-- Packets are neither put ahead of others nor flushed. -/
def InTurn : HtcEvent → Prop
  | .setNodropPkt isNodropPkt => isNodropPkt = false
  | .flush => False
  | _ => True

instance : (e : HtcEvent) → Decidable (InTurn e)
  | .setNodropPkt isNodropPkt => inferInstanceAs (Decidable (isNodropPkt = false))
  | .flush => .isFalse id
  | .sendPktsMultiple .. | .trySend _ | .sendDataPkt .. | .readResources _ | .lock _ | .issue ..
  | .hifSend .. | .clear _ | .complete .. | .creditRpt .. => .isTrue trivial

/-- A step, or part of one: who drains after it, how it lengthens the line as long as `inLine` holds, and how many credits it loses. -/
structure Flows (ep : EpConfig) (s s' : HtcEndpoint) (holder holder' : Option ℕ) (inLine : Prop)
    (leak : ℤ) : Prop where
  token : s'.Holder holder'
  line : inLine → ∃ new, s'.line holder' = s.line holder ++ new ∧ s'.appended = s.appended ++ new
  nodrop : inLine → s'.isNodropPkt = s.isNodropPkt
  balance : s'.balance holder' + leak = s.balance holder
  credits_nonneg : 0 ≤ s.txCredits → 0 ≤ s'.txCredits
  /-- With credit flow, what is in hand has been charged. -/
  charged : ep.txCreditFlowEnabled = true → ep.id ≠ endpoint0 →
    (∀ p ∈ s.hand holder, 0 < p.creditsUsed) → ∀ p ∈ s'.hand holder', 0 < p.creditsUsed

open Flows

section Hands
variable {who : Drainer} {callers q : List HtcPacket} {pc : DrainPc} {send : HtcSend}

@[simp] theorem Call.hand_draining : (Call.draining who callers pc).hand = pc.hand := rfl

@[simp] theorem Call.charge_draining : (Call.draining who callers pc).charge = pc.charge := rfl

@[simp] theorem DrainPc.hand_sending : (DrainPc.sending send q).hand = send.packets ++ q := rfl

@[simp] theorem DrainPc.charge_sending :
    (DrainPc.sending send q).charge = credits (send.packets ++ q) := rfl

end Hands

section Lists
variable {p : HtcPacket} {l l' : List HtcPacket}

@[simp] theorem credits_nil : credits [] = 0 := rfl

@[simp] theorem credits_cons : credits (p :: l) = p.creditsUsed + credits l := tally_cons p

@[simp] theorem credits_append : credits (l ++ l') = credits l + credits l' := tally_append

theorem credits_nonneg (l : List HtcPacket) : 0 ≤ credits l := by
  induction l with
  | nil => exact Int.le_refl 0
  | cons p l ih => simpa using Int.add_nonneg (Int.natCast_nonneg p.creditsUsed) ih

theorem credits_eq_zero_iff (h : ∀ p ∈ l, 0 < p.creditsUsed) : credits l = 0 ↔ l = [] := by
  cases l with
  | nil => simp
  | cons p l =>
    have hp := h p mem_cons_self
    have hl := credits_nonneg l
    refine iff_of_false ?_ (cons_ne_nil p l)
    rw [credits_cons]
    omega

end Lists

/-! ### What is taken from the queue -/

section Take
variable {ep : EpConfig} {s : HtcEndpoint} {q : List HtcPacket} {β : Type}

theorem creditsRequired_pos (hid : ep.id ≠ endpoint0) (p : HtcPacket) :
    0 < creditsRequired ep p := by
  unfold creditsRequired
  rw [if_neg hid]
  split
  · exact Nat.one_pos
  · rename_i hle
    exact Nat.add_pos_left (Nat.div_pos (Nat.le_of_lt (Nat.not_le.1 hle)) ep.txCreditSize_pos) _

theorem creditBased_map (f : HtcPacket → β)
    (hf : ∀ p c n, f { p with creditsUsed := c, needCreditUpdate := n } = f p) (c : ℤ) :
    (getHTCSendPacketsCreditBased ep c q).1.map f ++
      (getHTCSendPacketsCreditBased ep c q).2.2.map f = q.map f := by
  induction q generalizing c with
  | nil => rfl
  | cons p q ih =>
    rw [getHTCSendPacketsCreditBased]
    split
    · rfl
    · simp [hf, ih]

theorem creditBased_credits (c : ℤ) :
    (getHTCSendPacketsCreditBased ep c q).2.1 + credits (getHTCSendPacketsCreditBased ep c q).1 =
      c := by
  induction q generalizing c with
  | nil => simp [getHTCSendPacketsCreditBased]
  | cons p q ih =>
    rw [getHTCSendPacketsCreditBased]
    split
    · simp
    · have hrest := ih (c - creditsRequired ep p)
      simp only [credits_cons]
      omega

theorem creditBased_nonneg {c : ℤ} (hc : 0 ≤ c) :
    0 ≤ (getHTCSendPacketsCreditBased ep c q).2.1 := by
  induction q generalizing c with
  | nil => exact hc
  | cons p q ih =>
    rw [getHTCSendPacketsCreditBased]
    split
    · exact hc
    · rename_i hle
      refine ih ?_
      by_cases hid : ep.id = endpoint0
      · simpa [creditsRequired, hid] using hc
      · have := Int.not_lt.1 fun hlt => hle ⟨hid, hlt⟩
        omega

theorem creditBased_pos (hid : ep.id ≠ endpoint0) {c : ℤ} :
    ∀ p ∈ (getHTCSendPacketsCreditBased ep c q).1, 0 < p.creditsUsed := by
  induction q generalizing c with
  | nil => simp [getHTCSendPacketsCreditBased]
  | cons p q ih =>
    rw [getHTCSendPacketsCreditBased]
    split
    · simp
    · intro p' hp'
      rcases mem_cons.1 hp' with rfl | hp'
      · exact creditsRequired_pos hid p
      · exact ih p' hp'

theorem sendPackets_map (f : HtcPacket → β)
    (hf : ∀ p c n, f { p with creditsUsed := c, needCreditUpdate := n } = f p) (r : ℤ) :
    (getHTCSendPackets r q).1.map f ++ (getHTCSendPackets r q).2.map f = q.map f := by
  induction q generalizing r with
  | nil => rfl
  | cons p q ih =>
    rw [getHTCSendPackets]
    split
    · simp [hf, ih]
    · rfl

theorem sendPackets_credits (r : ℤ) : credits (getHTCSendPackets r q).1 = 0 := by
  induction q generalizing r with
  | nil => rfl
  | cons p q ih =>
    rw [getHTCSendPackets]
    split
    · simpa using ih _
    · rfl

theorem takePackets_map (ep : EpConfig) (s : HtcEndpoint) (r : ℕ) (f : HtcPacket → β)
    (hf : ∀ p c n, f { p with creditsUsed := c, needCreditUpdate := n } = f p) :
    (takePackets ep s r).1.map f ++ (takePackets ep s r).2.txQueue.map f = s.txQueue.map f := by
  unfold takePackets
  split
  · exact creditBased_map f hf _
  · exact sendPackets_map f hf _

theorem takePackets_credits (ep : EpConfig) (s : HtcEndpoint) (r : ℕ) :
    (takePackets ep s r).2.txCredits + credits (takePackets ep s r).1 = s.txCredits := by
  unfold takePackets
  split
  · exact creditBased_credits _
  · simp [sendPackets_credits]

theorem takePackets_nonneg (h : 0 ≤ s.txCredits) (r : ℕ) :
    0 ≤ (takePackets ep s r).2.txCredits := by
  unfold takePackets
  split
  · exact creditBased_nonneg h
  · exact h

theorem takePackets_pos (hcf : ep.txCreditFlowEnabled = true) (hid : ep.id ≠ endpoint0) (r : ℕ) :
    ∀ p ∈ (takePackets ep s r).1, 0 < p.creditsUsed := by
  unfold takePackets
  rw [if_pos hcf]
  exact creditBased_pos hid

theorem takePackets_of_nil {r : ℕ} (h : (takePackets ep s r).1 = []) :
    (takePackets ep s r).2 = s := by
  unfold takePackets at h ⊢
  cases hq : s.txQueue with
  | nil =>
    rw [hq] at h
    split <;> simp [getHTCSendPacketsCreditBased, getHTCSendPackets, ← hq]
  | cons p q =>
    rw [hq] at h
    split at h
    · rename_i hcf
      rw [if_pos hcf]
      simp only [getHTCSendPacketsCreditBased] at h ⊢
      split at h
      · rename_i hblocked
        simp [hblocked, ← hq]
      · cases h
    · rename_i hcf
      rw [if_neg hcf]
      simp only [getHTCSendPackets] at h ⊢
      split at h
      · cases h
      · rename_i hnone
        rw [if_neg hnone, ← hq]

theorem takePackets_frame (ep : EpConfig) (s : HtcEndpoint) (r : ℕ) : ∃ c q, (takePackets ep s r).2 =
    { s with
      txCredits := c
      txQueue := q } := by
  unfold takePackets
  split <;> exact ⟨_, _, rfl⟩

end Take

/-! ### Parts of steps -/

section Parts
variable {ep : EpConfig} {s s' s'' : HtcEndpoint} {holder holder' holder'' : Option ℕ} {t : ℕ}
  {c c' : Call} {x : Option Call} {inLine : Prop} {leak leak' : ℤ} {callers : List HtcPacket}

theorem Flows.trans (h : Flows ep s s' holder holder' inLine leak)
    (h' : Flows ep s' s'' holder' holder'' True leak') :
    Flows ep s s'' holder holder'' inLine (leak + leak') where
  token := h'.token
  line hin := by
    obtain ⟨new, hline, happ⟩ := h.line hin
    obtain ⟨new', hline', happ'⟩ := h'.line trivial
    exact ⟨new ++ new', by simp [hline', hline], by simp [happ', happ]⟩
  nodrop hin := (h'.nodrop trivial).trans (h.nodrop hin)
  balance := by
    have hb := h.balance
    have hb' := h'.balance
    omega
  credits_nonneg hc := h'.credits_nonneg (h.credits_nonneg hc)
  charged hcf hid hp := h'.charged hcf hid (h.charged hcf hid hp)

theorem Flows.still (htoken : s'.Holder holder) (hhand : ∀ {α : Type} (f : Call → α) (d : α),
      inHand f d s'.calls holder = inHand f d s.calls holder)
    (hhanded : s'.handed = s.handed)
    (hq : inLine → ∃ new, s'.txQueue.map (·.id) = s.txQueue.map (·.id) ++ new ∧
      s'.appended = s.appended ++ new)
    (hnd : inLine → s'.isNodropPkt = s.isNodropPkt)
    (hcredits : s'.txCredits - s'.granted = s.txCredits - s.granted)
    (hn : 0 ≤ s.txCredits → 0 ≤ s'.txCredits) : Flows ep s s' holder holder inLine 0 where
  token := htoken
  line hin := by
    obtain ⟨new, hq, happ⟩ := hq hin
    refine ⟨new, ?_, happ⟩
    simp [HtcEndpoint.line, HtcEndpoint.hand, hhand, hhanded, hq]
  nodrop := hnd
  balance := by
    rw [HtcEndpoint.balance, HtcEndpoint.balance, hhand, hhanded]
    omega
  credits_nonneg := hn
  charged _ _ hp := by rwa [HtcEndpoint.hand, hhand]

theorem Flows.aside (hs : s.Holder holder) (hc : ∀ c, s.calls t = some c → ¬ c.holds)
    (hx : ∀ c, x = some c → ¬ c.holds) : Flows ep s (s.goTo t x) holder holder True 0 :=
  .still (hs.other hc hx) (fun f d => inHand_update_of_ne (hs.ne_holder hc)) rfl
    (fun _ => ⟨[], by simp [goTo]⟩) (fun _ => rfl) rfl id

theorem Flows.gone (hs : s.Holder holder) (hc : ∀ c, s.calls t = some c → ¬ c.holds) :
    Flows ep s (s.goTo t none) holder holder True 0 :=
  .aside hs hc (nomatch ·, ·)

theorem Flows.enters {sendQueue : List HtcPacket} {r : Option ℕ} (hs : s.Holder holder)
    (hc : ∀ c, s.calls t = some c → ¬ c.holds) :
    Flows ep s (s.goTo t (some (.entering sendQueue callers r))) holder holder True 0 := by
  refine .aside hs hc fun c hcx hh => ?_
  cases hcx
  exact hh

theorem Flows.noted (h : Flows ep s s' holder holder' inLine leak) (txLookupQueue : List HtcSend)
    (returned : List HtcPacket) :
    Flows ep s { s' with
      txLookupQueue := txLookupQueue
      returned := returned } holder holder' inLine leak :=
  ⟨h.token, h.line, h.nodrop, h.balance, h.credits_nonneg, h.charged⟩

theorem Flows.onward (hs : s.Holder holder) (hc : s.calls t = some c) (hh : c.holds)
    (hh' : c'.holds) (hcalls : s'.calls = update s.calls t (some c'))
    (hcount : s'.txProcessCount = s.txProcessCount)
    (hline : (s'.handed ++ c'.hand ++ s'.txQueue).map (·.id) =
      (s.handed ++ c.hand ++ s.txQueue).map (·.id)) (happ : s'.appended = s.appended)
    (hnd : s'.isNodropPkt = s.isNodropPkt)
    (hbalance : s'.txCredits + credits s'.handed + c'.charge - s'.granted + leak =
      s.txCredits + credits s.handed + c.charge - s.granted)
    (hn : 0 ≤ s.txCredits → 0 ≤ s'.txCredits)
    (hpos : ep.txCreditFlowEnabled = true → ep.id ≠ endpoint0 →
      (∀ p ∈ c.hand, 0 < p.creditsUsed) → ∀ p ∈ c'.hand, 0 < p.creditsUsed) :
    Flows ep s s' holder holder True leak := by
  obtain rfl := hs.holder_eq hc hh
  have hhand : s.hand (some t) = c.hand := inHand_of_eq hc
  have hhand' : s'.hand (some t) = c'.hand := by
    rw [HtcEndpoint.hand, hcalls, inHand_update_self]
  refine ⟨?_, fun _ => ⟨[], ?_, by simp [happ]⟩, fun _ => hnd, ?_, hn, ?_⟩
  · rw [HtcEndpoint.Holder, hcalls, hcount]
    exact hs.keep hc hh hh'
  · simpa [HtcEndpoint.line, hhand, hhand'] using hline
  · rw [HtcEndpoint.balance, HtcEndpoint.balance, inHand_of_eq hc, hcalls, inHand_update_self]
    exact hbalance
  · rwa [hhand, hhand']

theorem Flows.release (hs : s.Holder holder) (hc : s.calls t = some c) (hh : c.holds)
    (hcalls : s'.calls = update s.calls t none) (hcount : s'.txProcessCount = 0)
    (hhanded : s'.handed = s.handed) (hq : s'.txQueue = c.hand ++ s.txQueue)
    (happ : s'.appended = s.appended) (hnd : s'.isNodropPkt = s.isNodropPkt)
    (hcharge : c.charge = 0)
    (hcredits : s'.txCredits = s.txCredits) (hgranted : s'.granted = s.granted) :
    Flows ep s s' holder none True 0 := by
  obtain rfl := hs.holder_eq hc hh
  refine ⟨?_, fun _ => ⟨[], ?_, by simp [happ]⟩, fun _ => hnd, ?_, fun hn => hcredits ▸ hn, ?_⟩
  · rw [HtcEndpoint.Holder, hcalls, hcount]
    exact hs.release hc hh (nomatch ·, ·)
  · simp [HtcEndpoint.line, HtcEndpoint.hand, inHand_of_eq hc, hhanded, hq]
  · simp [HtcEndpoint.balance, inHand_of_eq hc, hcharge, hhanded, hcredits, hgranted]
  · simp [HtcEndpoint.hand]

theorem Flows.take (hs : s.Holder none) (hh' : c'.holds)
    (hcalls : s'.calls = update s.calls t (some c')) (hcount : s'.txProcessCount = 1)
    (hline : (s'.handed ++ c'.hand ++ s'.txQueue).map (·.id) =
      (s.handed ++ s.txQueue).map (·.id)) (happ : s'.appended = s.appended)
    (hnd : s'.isNodropPkt = s.isNodropPkt)
    (hbalance : s'.txCredits + credits s'.handed + c'.charge - s'.granted =
      s.txCredits + credits s.handed - s.granted)
    (hn : 0 ≤ s.txCredits → 0 ≤ s'.txCredits)
    (hpos : ep.txCreditFlowEnabled = true → ep.id ≠ endpoint0 → ∀ p ∈ c'.hand, 0 < p.creditsUsed) :
    Flows ep s s' none (some t) True 0 := by
  have hhand' : s'.hand (some t) = c'.hand := by
    rw [HtcEndpoint.hand, hcalls, inHand_update_self]
  refine ⟨?_, fun _ => ⟨[], ?_, by simp [happ]⟩, fun _ => hnd, ?_, hn, fun hcf hid _ => ?_⟩
  · rw [HtcEndpoint.Holder, hcalls, hcount]
    exact hs.take hh'
  · rw [HtcEndpoint.line, HtcEndpoint.line, hhand']
    simpa [HtcEndpoint.hand] using hline
  · rw [HtcEndpoint.balance, HtcEndpoint.balance, inHand_none, hcalls, inHand_update_self]
    omega
  · rw [hhand']
    exact hpos hcf hid

/-! ### The functions -/

theorem Flows.append (hs : s.Holder holder) (sendQueue : List HtcPacket) :
    Flows ep s (s.append sendQueue) holder holder (s.isNodropPkt = false) 0 := by
  unfold HtcEndpoint.append
  by_cases hnil : sendQueue = []
  · rw [if_pos hnil]
    exact .still hs (fun _ _ => rfl) rfl (fun _ => ⟨[], by simp⟩) (fun _ => rfl) rfl id
  · rw [if_neg hnil]
    by_cases hnodrop : s.isNodropPkt = true
    · rw [if_pos hnodrop]
      have hnot : ¬ s.isNodropPkt = false := by simp [hnodrop]
      exact .still hs (fun _ _ => rfl) rfl (fun hin => absurd hin hnot)
        (fun hin => absurd hin hnot) rfl id
    · rw [if_neg hnodrop]
      exact .still hs (fun _ _ => rfl) rfl
        (fun _ => ⟨sendQueue.map (·.id), map_append, rfl⟩) (fun _ => rfl) rfl id

/-- The head of the loop of `HTCTrySend` finds nothing it can take, or takes it. -/
theorem drain_cases (ep : EpConfig) (s : HtcEndpoint) (t : ℕ) (callers : List HtcPacket)
    (r : ℕ) : s.drain ep t callers r = s.finish t callers ∨
      s.drain ep t callers r = (takePackets ep s (bundledResources ep r)).2.goTo t
        (some (.draining .trySend callers (.issue (takePackets ep s (bundledResources ep r)).1))) := by
  unfold drain
  by_cases hq : s.txQueue = []
  · exact .inl (if_pos hq)
  · rw [if_neg hq]
    by_cases hnone : (takePackets ep s (bundledResources ep r)).1 = []
    · refine .inl ?_
      rw [if_pos hnone, takePackets_of_nil hnone]
    · exact .inr (if_neg hnone)

/-- The loop of `HTCTrySend` comes round. -/
theorem Flows.drain {r : ℕ} (hs : s.Holder holder)
    (hc : s.calls t = some (.draining .trySend callers (.look r))) :
    ∃ holder', Flows ep s (s.drain ep t callers r) holder holder' True 0 := by
  rcases drain_cases ep s t callers r with heq | heq
  · rw [heq]
    exact ⟨none, .release hs hc trivial rfl rfl rfl rfl rfl rfl rfl rfl rfl⟩
  · rw [heq]
    have hcredits := takePackets_credits ep s (bundledResources ep r)
    have hmap := takePackets_map ep s (bundledResources ep r) (·.id) (fun _ _ _ => rfl)
    obtain ⟨c, q, htaken⟩ := takePackets_frame ep s (bundledResources ep r)
    have hh' : holds (.draining .trySend callers
        (.issue (takePackets ep s (bundledResources ep r)).1)) := trivial
    refine ⟨holder, .onward hs hc trivial hh' ?_ ?_ ?_ ?_ ?_ ?_ ?_ fun hcf hid _ => ?_⟩
    · rw [goTo, htaken]
    · rw [goTo, htaken]
    · simp only [goTo, map_append, append_assoc, Call.hand, DrainPc.hand, hmap]
      simp [htaken]
    · rw [goTo, htaken]
    · rw [goTo, htaken]
    · simp only [goTo, Call.charge, DrainPc.charge, DrainPc.hand, credits_nil]
      rw [htaken] at hcredits ⊢
      simp only at hcredits ⊢
      omega
    · exact fun hn => takePackets_nonneg hn _
    · exact takePackets_pos hcf hid _

theorem Flows.takes (hs : s.Holder none) (who : Drainer) (callers : List HtcPacket) (r : ℕ)
    (hn : s'= { s with txProcessCount := s.txProcessCount + 1 }) :
    Flows ep s ((takePackets ep s' r).2.goTo t
      (some (.draining who callers (.issue (takePackets ep s' r).1)))) none (some t) True 0 := by
  subst hn
  have hcount : s.txProcessCount = 0 := hs.count_eq
  have hcredits := takePackets_credits ep { s with txProcessCount := s.txProcessCount + 1 } r
  have hmap := takePackets_map ep { s with txProcessCount := s.txProcessCount + 1 } r (·.id)
    (fun _ _ _ => rfl)
  obtain ⟨c, q, htaken⟩ := takePackets_frame ep { s with txProcessCount := s.txProcessCount + 1 } r
  have hh' : holds (.draining who callers (.issue (takePackets ep
      { s with txProcessCount := s.txProcessCount + 1 } r).1)) := trivial
  refine .take hs hh' ?_ ?_ ?_ ?_ ?_ ?_ ?_ fun hcf hid => ?_
  · rw [goTo, htaken]
  · rw [goTo, htaken]
    rw [hcount]
    rfl
  · simp only [goTo, map_append, append_assoc, Call.hand, DrainPc.hand, hmap]
    simp [htaken]
  · rw [goTo, htaken]
  · rw [goTo, htaken]
  · simp only [goTo, Call.charge, DrainPc.charge, DrainPc.hand]
    rw [htaken] at hcredits ⊢
    simp only at hcredits ⊢
    omega
  · intro hn
    exact takePackets_nonneg (s := { s with txProcessCount := s.txProcessCount + 1 }) hn r
  · exact takePackets_pos hcf hid _

@[simp] theorem append_calls (s : HtcEndpoint) (l : List HtcPacket) :
    (s.append l).calls = s.calls := by
  unfold HtcEndpoint.append
  split
  · rfl
  · split <;> rfl

/-- The first lock section of `HTCTrySend`. -/
theorem Flows.enter {sendQueue : List HtcPacket} {r : ℕ} (hs : s.Holder holder)
    (hc : ∀ c, s.calls t = some c → ¬ c.holds) :
    ∃ holder', Flows ep s (s.enter ep t sendQueue callers r) holder holder'
      (s.isNodropPkt = false) 0 := by
  have happend : Flows ep s (s.append sendQueue) holder holder (s.isNodropPkt = false) 0 :=
    .append hs sendQueue
  have hs' := happend.token
  have hc' : ∀ c, (s.append sendQueue).calls t = some c → ¬ c.holds := by simpa using hc
  have haside : Flows ep (s.append sendQueue) ((s.append sendQueue).returns t callers) holder
      holder True 0 := (gone hs' hc').noted _ _
  unfold HtcEndpoint.enter
  by_cases hbusy : (s.append sendQueue).txProcessCount + 1 > 1
  · rw [if_pos hbusy]
    exact ⟨holder, happend.trans haside⟩
  · rw [if_neg hbusy]
    obtain ⟨rfl, hcount⟩ := hs'.free (by omega)
    rcases drain_cases ep { s.append sendQueue with
      txProcessCount := (s.append sendQueue).txProcessCount + 1 } t callers r with heq | heq
    · -- the count is back at zero
      rw [heq]
      have hfinish : finish { s.append sendQueue with
          txProcessCount := (s.append sendQueue).txProcessCount + 1 } t callers =
            (s.append sendQueue).returns t callers := by
        simp only [finish, returns, goTo]
        rw [← hcount]
      rw [hfinish]
      exact ⟨none, happend.trans haside⟩
    · rw [heq]
      exact ⟨some t, happend.trans (.takes hs' .trySend callers _ rfl)⟩

/-- The lock section of `HTCSendDataPkt`. -/
theorem Flows.drainData (hs : s.Holder holder) (hc : ∀ c, s.calls t = some c → ¬ c.holds) :
    ∃ holder', Flows ep s (s.drainData ep t) holder holder' True 0 := by
  unfold HtcEndpoint.drainData
  by_cases hbusy : s.txProcessCount + 1 > 1
  · rw [if_pos hbusy]
    exact ⟨holder, .gone hs hc⟩
  · rw [if_neg hbusy]
    obtain ⟨rfl, hcount⟩ := hs.free (by omega)
    exact ⟨some t, .takes hs .sendData [] _ rfl⟩

theorem Flows.sendDataPkt {msg : HtcMsg} {moreData : Bool} (hs : s.Holder holder)
    (hc : s.calls t = none) :
    ∃ holder', Flows ep s (htcSendDataPkt ep s t msg moreData) holder holder' True 0 := by
  have happend : Flows ep s { s with
      txQueue := s.txQueue ++ [msg.dataPacket ep]
      appended := s.appended ++ [msg.id] } holder holder True 0 :=
    .still hs (fun _ _ => rfl) rfl (fun _ => ⟨[msg.id], map_append, rfl⟩) (fun _ => rfl) rfl id
  unfold htcSendDataPkt
  by_cases hmore : ep.enableBundle = true ∧ moreData = true
  · rw [if_pos hmore]
    exact ⟨holder, happend⟩
  · rw [if_neg hmore]
    have hcalls : ∀ c, s.calls t = some c → ¬ c.holds := fun c h => nomatch hc.symm.trans h
    obtain ⟨holder', hdrain⟩ := drainData happend.token hcalls
    exact ⟨holder', happend.trans hdrain⟩

theorem fillBundle_append (space : ℤ) (q : List HtcPacket) :
    (fillBundle ep space q).1 ++ (fillBundle ep space q).2 = q := by
  induction q generalizing space with
  | nil => rfl
  | cons p q ih =>
    rw [fillBundle]
    split
    · rfl
    · simp [ih]

theorem nextBundle_append (q : List HtcPacket) :
    (nextBundle ep q).1 ++ (nextBundle ep q).2 = q := by
  cases q with
  | nil => rfl
  | cons p q => simp [nextBundle, fillBundle_append]

theorem Flows.dequeue {who : Drainer} {q : List HtcPacket} (hs : s.Holder holder)
    (hc : s.calls t = some c) (hh : c.holds) (hhand : c.hand = q) (hcharge : c.charge = credits q) :
    Flows ep s (s.dequeue ep t who callers q) holder holder True 0 := by
  cases q with
  | nil =>
    have hh' : ∀ pc, Call.holds (.draining who callers pc) := fun _ => trivial
    refine .onward hs hc hh (hh' _) rfl rfl ?_ rfl rfl ?_ id fun _ _ _ => ?_
    · rw [hhand]
      cases who <;> simp [HtcEndpoint.dequeue, HtcEndpoint.goTo, Call.hand, DrainPc.hand]
    · rw [hcharge]
      cases who <;>
        simp [HtcEndpoint.dequeue, HtcEndpoint.goTo, Call.charge, DrainPc.charge, DrainPc.hand]
    · cases who <;> simp [Call.hand, DrainPc.hand]
  | cons p q =>
    -- what is written into the packet is neither its id nor its credits
    have hid : (submit ep who p).id = p.id := by
      unfold submit
      split <;> rfl
    have hused : (submit ep who p).creditsUsed = p.creditsUsed := by
      unfold submit
      split <;> rfl
    have hh' : Call.holds (.draining who callers
      (.sending (.single (submit ep who p)) q)) := trivial
    refine .onward hs hc hh hh' rfl rfl ?_ rfl rfl ?_ id fun _ _ hpos => ?_
    · rw [hhand]
      simp [HtcEndpoint.dequeue, HtcEndpoint.submitSend, HtcEndpoint.goTo, Call.hand,
        DrainPc.hand, HtcSend.packets, hid]
    · rw [hcharge]
      simp [HtcEndpoint.dequeue, HtcEndpoint.submitSend, HtcEndpoint.goTo, Call.charge,
        DrainPc.charge, DrainPc.hand, HtcSend.packets, hused]
    · rw [hhand] at hpos
      simpa [Call.hand, DrainPc.hand, HtcSend.packets, hused] using hpos

theorem Flows.regroup {send : HtcSend} {q : List HtcPacket} (hs : s.Holder holder)
    (hc : s.calls t = some c) (hh : c.holds) (hhand : c.hand = send.packets ++ q)
    (hcharge : c.charge = credits c.hand) (who : Drainer) (callers : List HtcPacket) :
    Flows ep s (s.submitSend t who callers send q) holder holder True 0 := by
  have hh' : holds (.draining who callers (.sending send q)) := trivial
  refine .onward hs hc hh hh' rfl rfl ?_ rfl rfl ?_ id fun _ _ hpos => ?_
  · rw [hhand]
    simp [submitSend, goTo, Call.hand, DrainPc.hand]
  · rw [hcharge, hhand]
    simp [submitSend, goTo, Call.charge, DrainPc.charge, DrainPc.hand]
  · rwa [hhand] at hpos

theorem Flows.issue {who : Drainer} {q : List HtcPacket} {alloc : Bool} (hs : s.Holder holder)
    (hc : s.calls t = some (.draining who callers (.issue q))) :
    Flows ep s (s.issue ep t who callers q alloc) holder holder True 0 := by
  unfold HtcEndpoint.issue
  split
  · have hhand : (draining who callers (.issue q)).hand =
        (HtcSend.bundle (fillBundle ep (bundleSpace ep) q).1).packets ++
          (fillBundle ep (bundleSpace ep) q).2 := (fillBundle_append _ q).symm
    exact .regroup hs hc trivial hhand rfl who callers
  · exact .dequeue hs hc trivial rfl rfl

theorem Flows.sent {who : Drainer} {send : HtcSend} {q : List HtcPacket} {alloc : Bool}
    (hs : s.Holder holder) (hc : s.calls t = some (.draining who callers (.sending send q))) :
    Flows ep s (s.sent ep t who callers send q alloc) holder holder True 0 := by
  -- the call comes out of `HIFSend_head` before it does anything else
  have hout : ∀ pc : DrainPc, pc.hand = q → pc.charge = credits q →
      Flows ep s ((s.accepted ep send).goTo t (some (.draining who callers pc))) holder holder
        True 0 := by
    intro pc hhand hcharge
    have hh' : holds (.draining who callers pc) := trivial
    refine .onward hs hc trivial hh' rfl rfl ?_ rfl rfl ?_ id fun _ _ hpos => ?_
    · simp [goTo, accepted, hhand]
    · simp only [goTo, accepted, charge_draining, DrainPc.charge_sending, hcharge, credits_append]
      omega
    · intro p hp
      exact hpos p (mem_append_right _ (hhand ▸ hp))
  cases send with
  | single p => exact hout (.issue q) rfl rfl
  | bundle ps =>
    unfold HtcEndpoint.sent
    by_cases hlast : q.length < htcMinMsgPerBundle ∨ ¬ alloc = true
    · simp only [if_pos hlast]
      exact hout (.dequeue q) rfl rfl
    · simp only [if_neg hlast]
      have hnext := hout (.dequeue q) rfl rfl
      have hcalls : ((s.accepted ep (.bundle ps)).goTo t
          (some (.draining who callers (.dequeue q)))).calls t =
            some (.draining who callers (.dequeue q)) := update_self ..
      have hhand : (draining who callers (.dequeue q)).hand =
          (HtcSend.bundle (nextBundle ep q).1).packets ++ (nextBundle ep q).2 :=
        (nextBundle_append q).symm
      have htwice := hnext.trans (.regroup hnext.token hcalls trivial hhand rfl who callers)
      simpa [submitSend, goTo] using htwice

/-- The credits a failed send loses: those of the packets behind it in the batch, and in `HTCSendDataPkt` its own. -/
def failedLeak (who : Drainer) : HtcSend → List HtcPacket → ℤ
  | .bundle _, _ => 0
  | .single pPacket, sendQueue =>
    match who with
    | .trySend => credits sendQueue
    | .sendData => credits (pPacket :: sendQueue)

theorem Flows.sendFailed {who : Drainer} {send : HtcSend} {q : List HtcPacket}
    (hs : s.Holder holder) (hc : s.calls t = some (.draining who callers (.sending send q))) :
    Flows ep s (s.sendFailed t who callers send q) holder holder True (failedLeak who send q) := by
  have hh' : ∀ pc : DrainPc, Call.holds (.draining who callers pc) := fun _ => trivial
  cases send with
  | bundle ps =>
    refine .onward hs hc trivial (hh' (.dequeue (ps ++ q))) rfl rfl ?_ rfl rfl ?_ id fun _ _ hpos => hpos
    · simp [HtcEndpoint.refused, HtcEndpoint.goTo, HtcEndpoint.sendFailed, HtcSend.packets,
        DrainPc.hand]
    · simp [HtcEndpoint.refused, HtcEndpoint.goTo, HtcEndpoint.sendFailed, HtcSend.packets,
        DrainPc.hand, DrainPc.charge, failedLeak]
  | single p =>
    cases who with
    | trySend =>
      refine .onward hs hc trivial (hh' (.failed (p :: q))) rfl rfl ?_ rfl rfl ?_ ?_
        fun _ _ hpos => hpos
      · simp [HtcEndpoint.refused, HtcEndpoint.goTo, HtcEndpoint.sendFailed,
          HtcSend.packets, DrainPc.hand]
      · simp only [HtcEndpoint.refused, HtcEndpoint.goTo, HtcEndpoint.sendFailed,
          HtcSend.packets, Call.charge, DrainPc.charge, DrainPc.hand, failedLeak,
          singleton_append, credits_cons]
        omega
      · exact fun hn => Int.add_nonneg hn (Int.natCast_nonneg _)
    | sendData =>
      refine .onward hs hc trivial (hh' .clear) rfl rfl ?_ rfl rfl ?_ id fun _ _ _ => ?_
      · simp [HtcEndpoint.refused, HtcEndpoint.goTo, HtcEndpoint.sendFailed,
          HtcSend.packets, DrainPc.hand]
      · simp only [HtcEndpoint.refused, HtcEndpoint.goTo, HtcEndpoint.sendFailed,
          HtcSend.packets, Call.charge, DrainPc.charge, DrainPc.hand, failedLeak,
          singleton_append, credits_cons, credits_nil]
        omega
      · simp [DrainPc.hand]

theorem Flows.completion {send : HtcSend} (hs : s.Holder holder)
    (hc : s.calls t = some (.completion send)) :
    Flows ep s (htcTxCompletionHandler ep s t send) holder holder True 0 := by
  have hnot : ∀ c, s.calls t = some c → ¬ c.holds := by
    rintro c hct hh
    cases hc.symm.trans hct
    exact hh
  have hretry : ∀ (again : Bool) c,
      (if again then some (entering [] [] none) else none) = some c → ¬ c.holds := by
    rintro (_ | _) c hcx hh
    · cases hcx
    · cases hcx
      exact hh
  have haside : ∀ again, Flows ep s (s.retry t again) holder holder True 0 :=
    fun again => .aside hs hnot (hretry again)
  have hfound := fun again => (haside again).noted (s.txLookupQueue.erase send)
    (s.returned ++ send.packets.map restoreTxPacket)
  unfold htcTxCompletionHandler
  split
  · cases send <;> exact hfound _
  · exact haside _

theorem Flows.creditRpt {n : ℕ} (hs : s.Holder holder) (hc : s.calls t = none) :
    Flows ep s (htcProcessCreditRpt ep s t n) holder holder True 0 := by
  have hgrant : Flows ep s { s with txCredits := s.txCredits + n, granted := s.granted + n }
      holder holder True 0 :=
    .still hs (fun _ _ => rfl) rfl (fun _ => ⟨[], by simp⟩) (fun _ => rfl) (by simp only; omega)
      fun hn => Int.add_nonneg hn (Int.natCast_nonneg n)
  have hcalls : ∀ c, s.calls t = some c → ¬ c.holds := fun c h => nomatch hc.symm.trans h
  unfold htcProcessCreditRpt
  by_cases hwake : s.txCredits + n ≠ 0 ∧ s.txQueue ≠ []
  · simp only [if_pos hwake]
    refine hgrant.trans (.aside hgrant.token hcalls fun c hcx hh => ?_)
    cases hcx
    split at hh <;> exact hh
  · simp only [if_neg hwake]
    exact hgrant

end Parts

/-! ### The step -/

def creditLeak (s : HtcEndpoint) : HtcEvent → ℤ
  | .hifSend t false _ =>
    match s.calls t with
    | some (.draining who _ (.sending send sendQueue)) => failedLeak who send sendQueue
    | _ => 0
  | _ => 0

section Step
variable {ep : EpConfig} {s s' : HtcEndpoint} {holder : Option ℕ} {e : HtcEvent}

theorem lockStep_flows {t : ℕ} {c : Call} (hs : s.Holder holder) (hc : s.calls t = some c)
    (h : lockStep ep s t c = some s') :
    ∃ holder', Flows ep s s' holder holder' (s.isNodropPkt = false) 0 := by
  have hweaken : ∀ {holder'}, Flows ep s s' holder holder' True 0 →
      ∃ holder', Flows ep s s' holder holder' (s.isNodropPkt = false) 0 :=
    fun hf => ⟨_, hf.token, fun _ => hf.line trivial, fun _ => hf.nodrop trivial, hf.balance, hf.credits_nonneg, hf.charged⟩
  have hnot : ¬ c.holds → ∀ c', s.calls t = some c' → ¬ c'.holds := by
    rintro hh c' hc'
    cases hc.symm.trans hc'
    exact hh
  cases c with
  | entering sendQueue callers txResources =>
    cases txResources with
    | none => cases h
    | some r =>
      cases h
      exact enter hs (hnot id)
  | notify =>
    rw [lockStep] at h
    split at h
    · cases h
      obtain ⟨holder', hf⟩ := drainData hs (hnot id)
      exact hweaken hf
    · cases h
      exact hweaken (.gone hs (hnot id))
  | completion send =>
    cases h
    exact hweaken (.completion hs hc)
  | draining who callers pc =>
    cases who with
    | sendData => cases pc <;> cases h
    | trySend =>
      cases pc with
      | look r =>
        cases h
        obtain ⟨holder', hf⟩ := drain hs hc
        exact hweaken hf
      | failed q =>
        cases h
        exact hweaken (.release hs hc trivial rfl rfl rfl rfl rfl rfl rfl rfl rfl)
      | issue _ | dequeue _ | sending _ _ | issued | clear => cases h

/-- **What a step can do.** -/
theorem htcStep_flows (hs : s.Holder holder) (h : htcStep ep s e = some s') :
    ∃ holder', Flows ep s s' holder holder' (s.isNodropPkt = false ∧ InTurn e)
      (creditLeak s e) := by
  have hweaken : ∀ {p leak}, (s.isNodropPkt = false ∧ InTurn e → p) → leak = creditLeak s e →
      (∃ holder', Flows ep s s' holder holder' p leak) →
      ∃ holder', Flows ep s s' holder holder' (s.isNodropPkt = false ∧ InTurn e)
        (creditLeak s e) := by
    rintro p _ hp rfl ⟨holder', hf⟩
    exact ⟨holder', hf.token, fun hin => hf.line (hp hin), fun hin => hf.nodrop (hp hin), hf.balance, hf.credits_nonneg,
      hf.charged⟩
  have hnone : ∀ {t}, s.calls t = none → ∀ c, s.calls t = some c → ¬ c.holds :=
    fun hc c h => nomatch hc.symm.trans h
  cases e with
  | sendPktsMultiple t msgs keep =>
    obtain ⟨⟨hc, -⟩, rfl⟩ := guarded_eq_some.1 h
    refine hweaken (fun _ => trivial) rfl ⟨holder, ?_⟩
    unfold htcSendPktsMultiple
    dsimp only
    split
    · exact (gone hs (hnone hc)).noted _ _
    · exact (enters hs (hnone hc)).noted _ _
  | trySend t =>
    obtain ⟨hc, rfl⟩ := guarded_eq_some.1 h
    exact hweaken (fun _ => trivial) rfl ⟨holder, .enters hs (hnone hc)⟩
  | sendDataPkt t msg moreData =>
    obtain ⟨hc, rfl⟩ := guarded_eq_some.1 h
    exact hweaken (fun _ => trivial) rfl (sendDataPkt hs hc)
  | readResources t =>
    rw [htcStep] at h
    split at h
    · rename_i hc
      cases h
      refine hweaken (fun _ => trivial) rfl ⟨holder, .enters hs fun c hct hh => ?_⟩
      cases hc.symm.trans hct
      exact hh
    · rename_i callers hc
      cases h
      have hh' : holds (.draining .trySend callers (.look (readResources ep s))) := trivial
      refine hweaken (fun _ => trivial) rfl
        ⟨holder, .onward hs hc trivial hh' rfl rfl rfl rfl rfl ?_ id fun _ _ hpos => hpos⟩
      simp [goTo, creditLeak, DrainPc.charge, DrainPc.hand]
    · cases h
  | lock t =>
    obtain ⟨c, hc, hl⟩ := bind_eq_some_iff.1 h
    exact hweaken And.left rfl (lockStep_flows hs hc hl)
  | issue t alloc =>
    rw [htcStep] at h
    split at h
    · rename_i hc
      cases h
      exact hweaken (fun _ => trivial) rfl ⟨holder, .issue hs hc⟩
    · rename_i hc
      cases h
      exact hweaken (fun _ => trivial) rfl ⟨holder, .dequeue hs hc trivial rfl rfl⟩
    · cases h
  | hifSend t ok alloc =>
    rw [htcStep] at h
    split at h
    · rename_i hc
      split at h
      · rename_i hok
        obtain ⟨-, rfl⟩ := guarded_eq_some.1 h
        refine hweaken (fun _ => trivial) ?_ ⟨holder, .sent hs hc⟩
        simp [creditLeak, hok]
      · rename_i hok
        cases h
        refine hweaken (fun _ => trivial) ?_ ⟨holder, .sendFailed hs hc⟩
        simp [creditLeak, Bool.not_eq_true _ ▸ hok, hc]
    · cases h
  | clear t =>
    rw [htcStep] at h
    split at h
    · rename_i hc
      cases h
      exact hweaken (fun _ => trivial) rfl
        ⟨none, .release hs hc trivial rfl rfl rfl rfl rfl rfl rfl rfl rfl⟩
    · cases h
  | complete t send =>
    obtain ⟨⟨hc, -⟩, rfl⟩ := guarded_eq_some.1 h
    refine hweaken (fun _ => trivial) rfl ⟨holder, .still ?_ ?_ rfl ?_ (fun _ => rfl) rfl id⟩
    · refine hs.other (hnone hc) fun c hcx hh => ?_
      cases hcx
      exact hh
    · exact fun f d => inHand_update_of_ne (hs.ne_holder (hnone hc))
    · exact fun _ => ⟨[], by simp [goTo]⟩
  | creditRpt t n =>
    obtain ⟨hc, rfl⟩ := guarded_eq_some.1 h
    exact hweaken (fun _ => trivial) rfl ⟨holder, .creditRpt hs hc⟩
  | flush =>
    cases h
    exact hweaken (p := False) And.right rfl
      ⟨holder, .still hs (fun _ _ => rfl) rfl False.elim False.elim rfl id⟩
  | setNodropPkt b =>
    cases h
    exact hweaken (p := s.isNodropPkt = false ∧ b = false) id rfl
      ⟨holder, .still hs (fun _ _ => rfl) rfl (fun _ => ⟨[], by simp⟩)
        (fun ⟨hn, hb⟩ => hb.trans hn.symm) rfl id⟩

end Step

end Qcacld.Htc

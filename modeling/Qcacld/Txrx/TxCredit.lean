import Qcacld.Txrx.TxAccounting

/-!
# Txrx — TxCredit

The credits a turn of the scheduler charges.  A batch either takes frames from the front of one linked queue (`Took`), for what they cost and within what the target and the queue's group have to give, or moves nothing (`Idle`); and no queue that still holds frames leaves its category's list.

All that is asked of the queues is that each holds the frames it counts, so that `ol_tx_dequeue` never finds its list too short.
-/

namespace Qcacld.Txrx
open Qcacld.Support Function List Option Nat

/-! ### What a batch does -/

/-- The group of `txq` is charged `n` credits. -/
def chargeGroup (p : HlPdev) (txq : TxFrmsQueue) (n : ℕ) : ℕ → ℤ :=
  (olTxTxqGroupCreditUpdate p txq (-n)).groupCredit

/-- A batch of `moved` is taken from the front of `q`, which is linked on `c`. -/
structure Took (p p' : HlPdev) (sctx sctx' : SchedCtx) (credit n : ℕ) (c : Cat) (q : TxqId)
    (moved left : List TxFrm) : Prop where
  mem : q ∈ (p.cats c).head
  split : (p.txqs q).head = moved ++ left
  sctx_eq : sctx' = ⟨sctx.frms + moved.length, sctx.head ++ moved⟩
  used : n = creditOf moved
  le_credit : creditOf moved + (p.specs c).creditReserve ≤ credit
  le_group : ∀ g, (p.txqs q).groupPtr = some g →
    (creditOf moved : ℤ) + (p.specs c).creditReserve ≤ p.groupCredit g
  txqs : p'.txqs = update p.txqs q ((p.txqs q).afterTaking moved left)
  groupCredit : p'.groupCredit = chargeGroup p (p.txqs q) (creditOf moved)
  target : p'.targetTxCredit = p.targetTxCredit
  heads : left ≠ [] → ∀ x, (p'.cats x).head.Perm (p.cats x).head
  heads_ne : ∀ x y, y ≠ q → y ∈ (p.cats x).head → y ∈ (p'.cats x).head

structure Idle (p p' : HlPdev) (sctx sctx' : SchedCtx) (n : ℕ) : Prop where
  sctx_eq : sctx' = sctx
  used : n = 0
  txqs : p'.txqs = p.txqs
  groupCredit : p'.groupCredit = p.groupCredit
  target : p'.targetTxCredit = p.targetTxCredit
  heads : ∀ x, (p'.cats x).head.Perm (p.cats x).head

def Batch (p p' : HlPdev) (sctx sctx' : SchedCtx) (credit n : ℕ) : Prop :=
  Idle p p' sctx sctx' n ∨ ∃ c q moved left, Took p p' sctx sctx' credit n c q moved left

/-- Two states that differ in the WRR counts, the order and the index at most. -/
structure SameQueues (p p₁ : HlPdev) : Prop where
  txqs : p₁.txqs = p.txqs
  specs : p₁.specs = p.specs
  heads : ∀ x, (p₁.cats x).head = (p.cats x).head
  groupCredit : p₁.groupCredit = p.groupCredit
  target : p₁.targetTxCredit = p.targetTxCredit

section Batch
variable {p p₁ p' : HlPdev} {sctx sctx' : SchedCtx} {credit n : ℕ} {c : Cat} {q : TxqId}
  {moved left : List TxFrm}

theorem SelectFrame.same (h : SelectFrame p p₁) : SameQueues p p₁ :=
  ⟨h.txqs, h.specs, h.head, h.groupCredit, h.targetTxCredit⟩

theorem SameQueues.idle (h : SameQueues p p₁) : Idle p p₁ sctx sctx 0 :=
  ⟨rfl, rfl, h.txqs, h.groupCredit, h.target, fun x => by rw [h.heads x]⟩

theorem Idle.of_same (h : SameQueues p p₁) (hi : Idle p₁ p' sctx sctx' n) :
    Idle p p' sctx sctx' n :=
  ⟨hi.sctx_eq, hi.used, hi.txqs.trans h.txqs, hi.groupCredit.trans h.groupCredit,
    hi.target.trans h.target, fun x => h.heads x ▸ hi.heads x⟩

theorem groupCredit_update_congr {txq txq' : TxFrmsQueue} (hg : txq'.groupPtr = txq.groupPtr)
    (hp : p'.groupCredit = p.groupCredit) (k : ℤ) :
    (olTxTxqGroupCreditUpdate p' txq' k).groupCredit =
      (olTxTxqGroupCreditUpdate p txq k).groupCredit := by
  unfold olTxTxqGroupCreditUpdate
  rw [hg]
  split
  · exact hp
  · simp [hp]

theorem chargeGroup_congr {txq : TxFrmsQueue} (h : p₁.groupCredit = p.groupCredit) (n : ℕ) :
    chargeGroup p₁ txq n = chargeGroup p txq n :=
  groupCredit_update_congr rfl h _

theorem Took.of_same (h : SameQueues p p₁) (ht : Took p₁ p' sctx sctx' credit n c q moved left) :
    Took p p' sctx sctx' credit n c q moved left where
  mem := h.heads c ▸ ht.mem
  split := h.txqs ▸ ht.split
  sctx_eq := ht.sctx_eq
  used := ht.used
  le_credit := h.specs ▸ ht.le_credit
  le_group := h.specs ▸ h.txqs ▸ h.groupCredit ▸ ht.le_group
  txqs := by rw [ht.txqs, h.txqs]
  groupCredit := by rw [ht.groupCredit, h.txqs, chargeGroup_congr h.groupCredit]
  target := ht.target.trans h.target
  heads hl x := h.heads x ▸ ht.heads hl x
  heads_ne x y hy hm := ht.heads_ne x y hy (by rw [h.heads x]; exact hm)

theorem Batch.of_same (h : SameQueues p p₁) (hb : Batch p₁ p' sctx sctx' credit n) :
    Batch p p' sctx sctx' credit n := by
  rcases hb with hi | ⟨c, q, moved, left, ht⟩
  · exact .inl (hi.of_same h)
  · exact .inr ⟨c, q, moved, left, ht.of_same h⟩

theorem groupCreditLimit_none {txq : TxFrmsQueue} (h : txq.groupPtr = none) (credit : ℕ) :
    olTxTxqGroupCreditLimit p txq credit = credit := by
  simp only [olTxTxqGroupCreditLimit, h]
  rw [if_neg (Int.not_lt.2 (Int.natCast_nonneg credit)), Int.toNat_natCast]

theorem groupCreditLimit_some {txq : TxFrmsQueue} {g : ℕ} (h : txq.groupPtr = some g)
    (credit : ℕ) : olTxTxqGroupCreditLimit p txq credit =
      (min (credit : ℤ) (p.groupCredit g)).toNat := by
  simp only [olTxTxqGroupCreditLimit, h]
  split
  · next hneg => exact (Int.toNat_of_nonpos (Int.le_of_lt hneg)).symm
  · rfl

theorem groupCreditLimit_le (p : HlPdev) (txq : TxFrmsQueue) (credit : ℕ) :
    olTxTxqGroupCreditLimit p txq credit ≤ credit := by
  cases h : txq.groupPtr with
  | none => exact le_of_eq (groupCreditLimit_none h credit)
  | some g =>
    rw [groupCreditLimit_some h]
    omega

theorem groupCreditLimit_le_group {txq : TxFrmsQueue} {g : ℕ} (h : txq.groupPtr = some g)
    (hpos : 0 < olTxTxqGroupCreditLimit p txq credit) :
    (olTxTxqGroupCreditLimit p txq credit : ℤ) ≤ p.groupCredit g := by
  rw [groupCreditLimit_some h] at hpos ⊢
  omega

theorem targetTxCredit_groupCreditUpdate (txq : TxFrmsQueue) (k : ℤ) :
    (olTxTxqGroupCreditUpdate p txq k).targetTxCredit = p.targetTxCredit := by
  unfold olTxTxqGroupCreditUpdate
  split <;> rfl

theorem serveTxq_batch {rest : List TxqId} (hf : (p.txqs q).frms = (p.txqs q).head.length)
    (hq : (p.cats c).head = q :: rest) :
    Batch p (serveTxq p sctx c q rest credit).1 sctx (serveTxq p sctx c q rest credit).2.1 credit
      (serveTxq p sctx c q rest credit).2.2 := by
  have hperm : (rest ++ [q]).Perm (p.cats c).head := by
    rw [hq]
    exact perm_append_comm
  have hidle : ∀ (l : List TxqId) (last : Option TxqId), l.Perm (p.cats c).head →
      Idle p { p.setCat c { p.cats c with head := l } with lastUsedTxq := last } sctx sctx 0 := by
    refine fun l last hl => ⟨rfl, rfl, rfl, rfl, rfl, fun x => ?_⟩
    by_cases hx : x = c
    · subst hx
      dsimp only
      rw [cats_setCat_self]
      exact hl
    · dsimp only
      rw [cats_setCat_of_ne hx]
  unfold serveTxq
  dsimp only
  split
  · next hlim =>
    obtain ⟨moved, left, hl, hd, hcr, -⟩ := olTxDequeue_spec hf sctx.head
      (p.specs c).sendLimit (olTxTxqGroupCreditLimit p (p.txqs q) credit - (p.specs c).creditReserve)
    rw [hd]
    dsimp only
    refine .inr ⟨c, q, moved, left, ?_⟩
    have hle := groupCreditLimit_le p (p.txqs q) credit
    refine ⟨hq ▸ mem_cons_self, hl, rfl, rfl, by omega, fun g hg => ?_, ?_,
      ?_, ?_, fun hne x => ?_, fun x y hy hm => ?_⟩
    · have := groupCreditLimit_le_group hg (zero_lt_of_lt hlim)
      omega
    · exact txqs_groupCreditUpdate _ _
    · apply groupCredit_update_congr <;> rfl
    · exact targetTxCredit_groupCreditUpdate _ _
    · rw [cats_groupCreditUpdate]
      by_cases hx : x = c
      · subst hx
        dsimp only
        have hpos : ((p.txqs q).afterTaking moved left).frms > 0 := length_pos_of_ne_nil hne
        rw [cats_setCat_self, if_pos hpos]
        exact hperm
      · dsimp only
        rw [cats_setCat_of_ne hx]
        exact .rfl
    · rw [cats_groupCreditUpdate]
      by_cases hx : x = c
      · subst hx
        dsimp only
        rw [cats_setCat_self]
        rw [hq] at hm
        have hy' := (mem_cons.1 hm).resolve_left hy
        dsimp only
        split
        · exact mem_append_left _ hy'
        · exact hy'
      · dsimp only
        rw [cats_setCat_of_ne hx]
        exact hm
  · split
    · exact .inl (hidle _ _ (by rw [hq]))
    · split <;> exact .inl (hidle _ _ hperm)

theorem sameQueues_setWrr (p : HlPdev) (c : Cat) (n : ℤ) (order : List Cat) (index : ℕ) :
    SameQueues p { p.setCat c { p.cats c with wrrCount := n } with
      order := order, index := index } := by
  refine ⟨rfl, rfl, fun x => ?_, rfl, rfl⟩
  exact (selectFrame_setWrr p c n).head x

theorem selectCategory_batch (hf : ∀ q, (p.txqs q).frms = (p.txqs q).head.length)
    (sctx : SchedCtx) (index : ℕ) (c : Cat) (credit : ℕ) :
    Batch p (selectCategory p sctx index c credit).1 sctx
      (selectCategory p sctx index c credit).2.1 credit
      (selectCategory p sctx index c credit).2.2 := by
  unfold selectCategory
  dsimp only
  split
  · exact .inl (selectFrame_setWrr p c _).same.idle
  · have hs := sameQueues_setWrr p c 0 (rotateOrderListTail p.order index) index
    split
    · exact .inl hs.idle
    · next q rest hq =>
      refine Batch.of_same hs (serveTxq_batch (hf q) ?_)
      rw [hs.heads c]
      exact hq

/-- **What `ol_tx_sched_select_batch` does**, from any state whose queues hold the frames they count. -/
theorem selectBatch_batch (hf : ∀ q, (p.txqs q).frms = (p.txqs q).head.length)
    (h : olTxSchedSelectBatch p sctx credit = some (p', sctx', n)) :
    Batch p p' sctx sctx' credit n := by
  obtain ⟨⟨p₁, choice⟩, hl, h⟩ := bind_eq_some_iff.1 h
  have hs := (selectLoop_frame hl).1.same
  refine Batch.of_same hs ?_
  cases choice with
  | none => cases h; exact .inl (SameQueues.idle ⟨rfl, rfl, fun _ => rfl, rfl, rfl⟩)
  | some choice =>
    obtain ⟨index, c⟩ := choice
    have hb := selectCategory_batch (fun q => hs.txqs ▸ hf q) sctx index c credit
    have h : selectCategory p₁ sctx index c credit = (p', sctx', n) := some.inj h
    rw [h] at hb
    exact hb

theorem Batch.linked (hb : Batch p p' sctx sctx' credit n) {x : Cat} {y : TxqId}
    (hy : y ∈ (p.cats x).head) (hpos : 0 < (p'.txqs y).frms) : y ∈ (p'.cats x).head := by
  rcases hb with hi | ⟨c, q, moved, left, ht⟩
  · exact (hi.heads x).mem_iff.2 hy
  · by_cases hyq : y = q
    · subst hyq
      rw [ht.txqs, update_self, afterTaking_frms] at hpos
      exact (ht.heads (ne_nil_of_length_pos hpos) x).mem_iff.2 hy
    · exact ht.heads_ne x y hyq hy

end Batch

/-! ### What a turn charges -/

/-- The frames a turn of `ol_tx_sched` moves, and what it may charge for them. -/
structure TurnOk (p p' : HlPdev) (sctx sctx' : SchedCtx) (numCredits : ℕ) (moved : List TxFrm) :
    Prop where
  sctx_eq : sctx' = ⟨sctx.frms + moved.length, sctx.head ++ moved⟩
  used : numCredits = creditOf moved
  target : p'.targetTxCredit = p.targetTxCredit - creditOf moved
  target_nonneg : 0 ≤ p'.targetTxCredit
  /-- a turn that moves frames moves them from one linked queue, and has the credit -/
  within : moved ≠ [] → ∃ c q, q ∈ (p.cats c).head ∧ (p.txqs q).head = moved ++ (p'.txqs q).head ∧
    (creditOf moved : ℤ) ≤ p.targetTxCredit - (p.specs c).creditReserve ∧
    ∀ g, (p.txqs q).groupPtr = some g → (creditOf moved : ℤ) ≤ p.groupCredit g
  /-- no credit is used only for frames that cost none -/
  free : numCredits = 0 → ∀ frm ∈ moved, frm.credit = 0
  /-- a queue with frames left is not lost, and a turn that moves none loses no queue -/
  linked : ∀ c, ∀ q ∈ (p.cats c).head, 0 < (p'.txqs q).frms → q ∈ (p'.cats c).head
  kept : moved = [] → ∀ c, (p'.cats c).head.Perm (p.cats c).head

section Turn
variable {p p' : HlPdev} {sctx sctx' : SchedCtx} {n : ℕ}

theorem creditOf_eq_zero {l : List TxFrm} (h : creditOf l = 0) : ∀ frm ∈ l, frm.credit = 0 := by
  induction l with
  | nil => exact nofun
  | cons f l ih =>
    rw [creditOf_cons] at h
    intro frm hfrm
    rcases mem_cons.1 hfrm with rfl | hfrm
    · omega
    · exact ih (by omega) frm hfrm

theorem Batch.turnOk (h : AccountsOk p) (ht : 0 < p.targetTxCredit)
    (hb : Batch p p' sctx sctx' p.targetTxCredit.toNat n) : ∃ moved,
      TurnOk p { p' with targetTxCredit := p'.targetTxCredit - n } sctx sctx' n moved := by
  have hlinked : ∀ c, ∀ q ∈ (p.cats c).head, 0 < (p'.txqs q).frms → q ∈ (p'.cats c).head :=
    fun c q hq hpos => hb.linked hq hpos
  rcases hb with hi | ⟨c, q, moved, left, hk⟩
  · refine ⟨[], ?_, ?_, ?_, ?_, fun h => absurd rfl h, fun _ => nofun, hlinked, fun _ => hi.heads⟩
    · rw [hi.sctx_eq]
      simp
    · exact hi.used
    · change p'.targetTxCredit - (n : ℤ) = _
      rw [hi.target, hi.used]
      rfl
    · change 0 ≤ p'.targetTxCredit - (n : ℤ)
      rw [hi.target, hi.used]
      omega
  · have hle := hk.le_credit
    refine ⟨moved, hk.sctx_eq, hk.used, ?_, ?_, fun _ => ⟨c, q, hk.mem, ?_, ?_, fun g hg => ?_⟩,
      fun h0 => creditOf_eq_zero (hk.used ▸ h0), hlinked, fun hnil => hk.heads ?_⟩
    · change p'.targetTxCredit - (n : ℤ) = _
      rw [hk.target, hk.used]
    · change 0 ≤ p'.targetTxCredit - (n : ℤ)
      rw [hk.target, hk.used]
      omega
    · rw [hk.split]
      change _ = moved ++ (p'.txqs q).head
      rw [hk.txqs, update_self, afterTaking_head]
    · omega
    · have := hk.le_group g hg
      omega
    · -- the queue was linked, so that it had frames
      have hpos := (h.linked c q hk.mem).2
      rw [h.frms, hk.split, hnil] at hpos
      exact ne_nil_of_length_pos hpos

/-- **Credit safety**: a turn of the scheduler that finds target credit always returns, charges exactly what the frames it moves cost, and stays within the credits there are. -/
theorem turn_credit_safe (p : HlPdev) (h : AccountsOk p) (ht : 0 < p.targetTxCredit)
    (sctx : SchedCtx) : ∃ p' sctx' numCredits moved,
      olTxSchedTurn p sctx = some (p', sctx', numCredits) ∧
      TurnOk p p' sctx sctx' numCredits moved ∧
      ((∀ q, ∀ frm ∈ (p.txqs q).head, 0 < frm.credit) → numCredits = 0 →
        moved = [] ∧ ∀ c, (p'.cats c).head.Perm (p.cats c).head) := by
  obtain ⟨⟨p₁, sctx', n⟩, hb⟩ :=
    isSome_iff_exists.1 (selectBatch_isSome (p := p) sctx p.targetTxCredit.toNat)
  obtain ⟨moved, hm⟩ := (selectBatch_batch h.frms hb).turnOk h ht
  refine ⟨_, sctx', n, moved, ?_, hm, fun hpos h0 => ?_⟩
  · simp only [olTxSchedTurn, hb, gt_iff_lt, ht]
    rfl
  · have hnil : moved = [] := by
      by_contra hne
      obtain ⟨c, q, -, hsplit, -⟩ := hm.within hne
      obtain ⟨frm, hfrm⟩ := exists_mem_of_ne_nil moved hne
      have hcost := hpos q frm (hsplit ▸ mem_append_left _ hfrm)
      have := hm.free h0 frm hfrm
      omega
    exact ⟨hnil, hm.kept hnil⟩

end Turn

def voiceQueued : List SchedEvent := [.enqueue (.peer 0 6) ⟨0, 80, 1⟩, .selectInit]

theorem accountsOk_of_run {p p' : HlPdev} (h₀ : schedMachine.init p) {es : List SchedEvent}
    (ha : schedMachine.Along SchedEventOk p es) (hr : schedMachine.run p es = some p') :
    AccountsOk p' :=
  (schedInv_of_reach (Machine.Reach.run (.start h₀) ha hr)).accountsOk

theorem turn_credit_safe_voice : ∃ p, schedMachine.run sdioPdev voiceQueued = some p ∧
    ∃ p' sctx' numCredits moved, olTxSchedTurn p ⟨0, []⟩ = some (p', sctx', numCredits) ∧
      TurnOk p p' ⟨0, []⟩ sctx' numCredits moved ∧
      ((∀ q, ∀ frm ∈ (p.txqs q).head, 0 < frm.credit) → numCredits = 0 →
        moved = [] ∧ ∀ c, (p'.cats c).head.Perm (p.cats c).head) := by
  have ha : schedMachine.Along SchedEventOk sdioPdev voiceQueued := by decide
  exact ⟨_, rfl, turn_credit_safe _ (accountsOk_of_run sdioPdev_init ha rfl) (by decide) _⟩

def indebtedPdev : HlPdev := .attached (fun _ => some 0) sdioSpecs 20 fun _ => -1

/-- A group in debt is charged nothing, which is more than it has; and a frame that costs nothing is moved for no credit. -/
theorem no_credit_exceeds_debt :
    (∃ p r, schedMachine.run indebtedPdev voiceQueued = some p ∧ AccountsOk p ∧
      olTxSchedTurn p ⟨0, []⟩ = some r ∧ r.2.2 = 0 ∧ (p.cats 3).head = [.peer 0 6] ∧
      (p.txqs (.peer 0 6)).groupPtr = some 0 ∧ ¬ (r.2.2 : ℤ) ≤ p.groupCredit 0) ∧
    ∃ p r, schedMachine.run sdioPdev [.enqueue (.peer 0 6) ⟨0, 80, 0⟩, .selectInit] = some p ∧
      AccountsOk p ∧ olTxSchedTurn p ⟨0, []⟩ = some r ∧ r.2.2 = 0 ∧ r.2.1.head = [⟨0, 80, 0⟩] := by
  constructor
  · have h₀ : schedMachine.init indebtedPdev := ⟨_, _, _, _, rfl⟩
    have ha : schedMachine.Along SchedEventOk indebtedPdev voiceQueued := by decide
    exact ⟨_, _, rfl, accountsOk_of_run h₀ ha rfl, rfl, by decide, by decide, by decide, by decide⟩
  · have ha : schedMachine.Along SchedEventOk sdioPdev
        [.enqueue (.peer 0 6) ⟨0, 80, 0⟩, .selectInit] := by decide
    exact ⟨_, _, rfl, accountsOk_of_run sdioPdev_init ha rfl, rfl, by decide, by decide⟩

end Qcacld.Txrx

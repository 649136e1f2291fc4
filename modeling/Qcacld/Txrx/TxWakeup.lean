import Qcacld.Txrx.TxGroupCredit

/-!
# Txrx — TxWakeup

Who is responsible for the frames in the scheduler's queues.  A context enqueues frames and then calls `ol_tx_sched`; one call at a time runs the scheduler, from the critical section that sets `tx_sched_status` to the one that clears it, and every other returns at once.  Between its critical sections anything may happen: frames come, calls come and go, the target returns credits and calls too.

A frame is looked after while a context is on its way to its call, while the running call has yet to look at the queues, or while the target owes credits, whose return is followed by a call (`Unattended` says that there is none of these but the running call).  `no_lost_wakeup` says which steps must not be the last: a call that returns because the scheduler runs, when the scheduler has looked for the last time; a batch that serves nothing because the category whose turn it is cannot be served, while another could; credits that come back without a call; and a context that leaves without one.
-/

namespace Qcacld.Txrx
open Qcacld.Support Function List Option Nat

/-! ### The contexts -/

inductive SchedPc where
  /-- none runs: `tx_sched_status` is `ol_tx_scheduler_idle` -/
  | idle
  /-- the status is set -/
  | started
  /-- before the test of the loop -/
  | selecting
  /-- the test found credit: before the critical section of the loop -/
  | inLoop
  /-- the loop is left -/
  | dispatching
  /-- before the critical section that clears the status -/
  | finishing
deriving DecidableEq

/-- The scheduler, and the contexts that use it. -/
structure SchedPdev where
  hl : HlPdev
  pc : SchedPc
  /-- the frames the running call has taken and not dispatched -/
  sctx : SchedCtx
  /-- Ghost: the contexts that enqueue frames, and will call `ol_tx_sched`. -/
  entered : Nat
  /-- Ghost: the contexts that are about to call it. -/
  waiting : Nat
  /-- Ghost: the credits of the frames dispatched, which the target has yet to return. -/
  outstanding : Nat

open SchedPdev

def SchedPdev.owed (s : SchedPdev) : Nat := creditOf s.sctx.head + s.outstanding

/-- The target credit is raised by `n`. -/
def HlPdev.addCredit (p : HlPdev) (n : Nat) : HlPdev :=
  { p with targetTxCredit := p.targetTxCredit + n }

/-- What happens: the critical sections of `tx_queue_spinlock`, and the steps between them. -/
inductive WakeupEvent where
  /-- a context has frames to enqueue -/
  | enter
  /-- `ol_tx_enqueue` finds few descriptors left, and discards -/
  | discard (frms : Nat)
  /-- the critical section of `ol_tx_enqueue` -/
  | enqueue (q : TxqId) (id len : Nat)
  /-- the context has enqueued its frames -/
  | leave
  /-- `ol_tx_hl_base` is out of descriptors, and returns -/
  | giveUp
  /-- the target returns credits, or grants some, and sets those of the groups: a call is to follow -/
  | credit (returned granted : Nat) (groupCredit : Nat → Int)
  /-- the first critical section of `ol_tx_sched` -/
  | call
  /-- `ol_tx_sched_select_init` -/
  | selectInit
  /-- the test of the loop -/
  | test
  /-- the critical section of the loop -/
  | select
  /-- `ol_tx_sched_dispatch` -/
  | dispatch
  /-- frames that were dispatched are rejected, or their download fails: `OL_TX_TARGET_CREDIT_INCR` -/
  | reject (n : Nat)
  /-- the last critical section of `ol_tx_sched` -/
  | finish

/-- The critical section of the loop of `ol_tx_sched`. -/
def selectSection (s : SchedPdev) : Option SchedPdev := do
  let (hl, sctx, numCredits) ← olTxSchedSelectBatch s.hl s.sctx s.hl.targetTxCredit.toNat
  return { s with
    hl := if numCredits > 0 then { hl with targetTxCredit := hl.targetTxCredit - numCredits } else hl
    sctx := sctx
    pc := if numCredits = 0 then .dispatching else .selecting }

def wakeupStep (s : SchedPdev) : WakeupEvent → Option SchedPdev
  | .enter => some { s with entered := s.entered + 1 }
  | .discard frms => do
    guard (0 < s.entered)
    return { s with hl := (olTxSchedDiscardSelect s.hl frms [] false).1 }
  | .enqueue q id len => do
    guard (0 < s.entered ∧ q.Valid)
    return { s with hl := olTxEnqueue s.hl q ⟨id, len, httTxMsduCredit⟩ }
  | .leave => do
    guard (0 < s.entered)
    return { s with
      entered := s.entered - 1
      waiting := s.waiting + 1 }
  | .giveUp => do guard (0 < s.entered); return { s with entered := s.entered - 1 }
  | .credit returned granted groupCredit => do
    guard (returned ≤ s.outstanding)
    return { s with
      hl := { s.hl.addCredit (returned + granted) with groupCredit := groupCredit }
      outstanding := s.outstanding - returned
      waiting := s.waiting + 1 }
  | .call => do
    guard (0 < s.waiting)
    return { s with
      waiting := s.waiting - 1
      pc := if s.pc = .idle then .started else s.pc }
  | .selectInit => do
    guard (s.pc = .started)
    return { s with
      hl := olTxSchedSelectInit s.hl
      pc := .selecting }
  | .test => do
    guard (s.pc = .selecting)
    return { s with pc := if s.hl.targetTxCredit > 0 then .inLoop else .dispatching }
  | .select => do guard (s.pc = .inLoop); selectSection s
  | .dispatch => do
    guard (s.pc = .dispatching)
    return { s with
      sctx := ⟨0, []⟩
      outstanding := s.outstanding + creditOf s.sctx.head
      pc := .finishing }
  | .reject n => do
    guard (n ≤ s.outstanding)
    return { s with
      hl := s.hl.addCredit n
      outstanding := s.outstanding - n }
  | .finish => do guard (s.pc = .finishing); return { s with pc := .idle }

def SchedPdev.attached (groupPtr : TxqId → Option Nat) (specs : Cat → CatSpecs)
    (targetTxCredit : Int) (groupCredit : Nat → Int) : SchedPdev where
  hl := .attached groupPtr specs targetTxCredit groupCredit
  pc := .idle
  sctx := ⟨0, []⟩
  entered := 0
  waiting := 0
  outstanding := 0

/-- The interleavings of the contexts and the target, from attach on. -/
def wakeupMachine : Machine SchedPdev WakeupEvent where
  init s := ∃ groupPtr specs targetTxCredit groupCredit,
    s = .attached groupPtr specs targetTxCredit groupCredit
  step := wakeupStep

/-! ### What must hold -/

/-- The target credit, and the credit of the group of `q`, exceed the threshold of category `c`, and its reserve with what the first frame of `q` costs. -/
def Sendable (p : HlPdev) (c : Cat) (q : TxqId) : Prop :=
  ∃ frm ∈ (p.txqs q).head.head?,
    (p.specs c).creditThreshold < olTxTxqGroupCreditLimit p (p.txqs q) p.targetTxCredit.toNat ∧
    (p.specs c).creditReserve + frm.credit <
      olTxTxqGroupCreditLimit p (p.txqs q) p.targetTxCredit.toNat

/-- Category `c` is active, and the first of its queues has a frame that can be sent. -/
def Ready (p : HlPdev) (c : Cat) : Prop :=
  (p.cats c).active = true ∧ ∃ q ∈ (p.cats c).head.head?, Sendable p c q

/-- No call is on its way, and the target owes none. -/
def Unattended (s : SchedPdev) : Prop := s.entered = 0 ∧ s.waiting = 0 ∧ s.owed = 0

/-- **No lost wakeup**: when all calls have returned and some category is ready, a call is still owed. -/
def NoLostWakeup (s : SchedPdev) : Prop :=
  s.entered = 0 → s.waiting = 0 → s.pc = .idle → (∃ c, Ready s.hl c) → 0 < s.owed

/-! ### The condition -/

/-- The running call has yet to look at the queues. -/
def SchedPdev.looking (s : SchedPdev) : Prop :=
  s.pc = .started ∨ s.pc = .selecting ∨ s.pc = .inLoop

instance (s : SchedPdev) : Decidable s.looking :=
  inferInstanceAs (Decidable (s.pc = .started ∨ s.pc = .selecting ∨ s.pc = .inLoop))

/-- How often category `c` is passed over before its turn comes. -/
def skipsLeft (p : HlPdev) (c : Cat) : Nat :=
  ((p.specs c).wrrSkipWeight - ((p.cats c).wrrCount + 1)).toNat

/-- It is the turn of category `c`: of the active ones from `index` on it is passed over least often, and comes first among those. -/
def WrrTurn (p : HlPdev) (index : Nat) (c : Cat) : Prop :=
  (p.cats c).active = true ∧ ∃ l r, p.order.drop index = l ++ c :: r ∧
    (∀ x ∈ l, (p.cats x).active = true → skipsLeft p c < skipsLeft p x) ∧
    ∀ x ∈ r, (p.cats x).active = true → skipsLeft p c ≤ skipsLeft p x

/-- Category `c` can be served: it has the credit it must have, and the first frame of its first queue can be paid for. -/
def Servable (p : HlPdev) (c : Cat) : Prop :=
  (p.specs c).creditThreshold ≤ p.targetTxCredit.toNat ∧ 0 < (p.specs c).sendLimit ∧
    ∃ q ∈ (p.cats c).head.head?, ∃ frm ∈ (p.txqs q).head.head?,
      (p.specs c).creditReserve + frm.credit ≤
        olTxTxqGroupCreditLimit p (p.txqs q) p.targetTxCredit.toNat

/-- Where nobody else is on the way: a call does not return, a context does not give up and credits are not put back, with a category ready, once the running call has looked for the last time; and when a frame can be sent, the category whose turn it is can be served. -/
def WakeupStepOk (s : SchedPdev) : WakeupEvent → Prop
  | .call => ¬ s.looking → s.pc ≠ .idle → Unattended { s with waiting := s.waiting - 1 } →
      ∀ c, ¬ Ready s.hl c
  | .giveUp => ¬ s.looking → Unattended { s with entered := s.entered - 1 } → ∀ c, ¬ Ready s.hl c
  | .reject n => ¬ s.looking → Unattended { s with outstanding := s.outstanding - n } →
      ∀ c, ¬ Ready (s.hl.addCredit n) c
  | .select => Unattended s → (∃ c, ∃ q ∈ (s.hl.cats c).head, Sendable s.hl c q) →
      ∀ c, WrrTurn s.hl s.hl.index c → Servable s.hl c
  | _ => True

/-! ### Whose turn it is -/

section Turn
variable {p p' : HlPdev} {c : Cat} {fuel index : ℕ} {t : List Cat}

theorem skipsLeft_setWrr_self (n : ℤ) : skipsLeft (p.setCat c { p.cats c with wrrCount := n }) c =
      ((p.specs c).wrrSkipWeight - (n + 1)).toNat := by
  rw [skipsLeft, cats_setCat_self]
  rfl

theorem skipsLeft_setWrr_of_ne {x : Cat} (h : x ≠ c) (n : ℤ) :
    skipsLeft (p.setCat c { p.cats c with wrrCount := n }) x = skipsLeft p x := by
  rw [skipsLeft, cats_setCat_of_ne h]
  rfl

theorem drop_rotate {order : List Cat} (h : order.drop index = c :: t) :
    (rotateOrderListTail order index).drop index = t ++ [c] := by
  have hc : order[index]? = some c := by
    rw [← head?_drop, h]
    rfl
  obtain ⟨hi, -⟩ := List.getElem?_eq_some_iff.1 hc
  have ht : order.drop (index + 1) = t := by
    rw [← tail_drop, h]
    rfl
  have hlen : (order.take index).length = index := length_take_of_le hi.le
  rw [rotateOrderListTail, hc]
  dsimp only
  rw [eraseIdx_eq_take_drop_succ, ht, append_assoc, drop_append_of_le_length
    hlen.ge, drop_of_length_le hlen.le, nil_append]

theorem WrrTurn.of_inactive (hd : p.order.drop index = c :: t) (hc : (p.cats c).active ≠ true)
    {x : Cat} (h : WrrTurn p (index + 1) x) : WrrTurn p index x := by
  obtain ⟨ha, l, r, hs, hl, hr⟩ := h
  rw [← tail_drop, hd, tail_cons] at hs
  refine ⟨ha, c :: l, r, by rw [hd, hs]; rfl, fun y hy hay => ?_, hr⟩
  rcases mem_cons.1 hy with rfl | hy
  · exact absurd hay hc
  · exact hl y hy hay

theorem WrrTurn.of_skip (hnd : (c :: t).Nodup) (hd : p.order.drop index = c :: t)
    (hlt : (p.cats c).wrrCount + 1 < (p.specs c).wrrSkipWeight) {x : Cat}
    (h : WrrTurn { p.setCat c { p.cats c with wrrCount := (p.cats c).wrrCount + 1 } with
      order := rotateOrderListTail p.order index } index x) : WrrTurn p index x := by
  obtain ⟨ha, l, r, hs, hl, hr⟩ := h
  obtain ⟨hct, -⟩ := nodup_cons.1 hnd
  replace hs : t ++ [c] = l ++ x :: r := (drop_rotate hd).symm.trans hs
  have hself := skipsLeft_setWrr_self (p := p) (c := c) ((p.cats c).wrrCount + 1)
  have hact : ∀ y, (({ p.setCat c { p.cats c with wrrCount := (p.cats c).wrrCount + 1 } with
      order := rotateOrderListTail p.order index } : HlPdev).cats y).active = (p.cats y).active :=
    fun y => (selectFrame_setWrr p c _).active y
  rw [hact] at ha
  have hskips : skipsLeft p c = ((p.specs c).wrrSkipWeight - ((p.cats c).wrrCount + 1)).toNat := rfl
  rcases eq_nil_or_concat r with rfl | ⟨r, y, rfl⟩
  · -- its own turn comes next, after all the others
    obtain ⟨rfl, hxc⟩ := append_inj' hs rfl
    obtain rfl : c = x := by simpa using hxc
    refine ⟨ha, [], t, by rw [hd]; rfl, by simp, fun y hy hay => ?_⟩
    have hyc : y ≠ c := fun e => hct (e ▸ hy)
    have := hl y hy ((hact y).trans hay)
    change skipsLeft (p.setCat c _) c < skipsLeft (p.setCat c _) y at this
    rw [hself, skipsLeft_setWrr_of_ne hyc] at this
    omega
  · rw [concat_eq_append, ← cons_append, ← append_assoc] at hs
    obtain ⟨rfl, hcy⟩ := append_inj' hs rfl
    obtain rfl : c = y := by simpa using hcy
    have hne : ∀ y ∈ l ++ x :: r, y ≠ c := fun y hy e => hct (e ▸ hy)
    have hxc : x ≠ c := hne x (by simp)
    refine ⟨ha, c :: l, r, by rw [hd]; rfl, fun y hy hay => ?_, fun y hy hay => ?_⟩
    · rcases mem_cons.1 hy with rfl | hy
      · have := hr y (by simp) ((hact y).trans hay)
        change skipsLeft (p.setCat y _) x ≤ skipsLeft (p.setCat y _) y at this
        rw [hself, skipsLeft_setWrr_of_ne hxc] at this
        omega
      · have := hl y hy ((hact y).trans hay)
        change skipsLeft (p.setCat c _) x < skipsLeft (p.setCat c _) y at this
        rwa [skipsLeft_setWrr_of_ne hxc, skipsLeft_setWrr_of_ne (hne y (by simp [hy]))] at this
    · have := hr y (by simp [hy]) ((hact y).trans hay)
      change skipsLeft (p.setCat c _) x ≤ skipsLeft (p.setCat c _) y at this
      rwa [skipsLeft_setWrr_of_ne hxc, skipsLeft_setWrr_of_ne (hne y (by simp [hy]))] at this

/-- **The choice of the loop**: the category whose turn it is, or none when none is active. -/
theorem selectLoop_turn {choice : Option (ℕ × Cat)} (hnd : p.order.Nodup)
    (h : selectLoop p fuel index = some (p', choice)) :
    (∀ i c, choice = some (i, c) → WrrTurn p index c) ∧
      (choice = none → ∀ c ∈ p.order.drop index, (p.cats c).active ≠ true) := by
  induction fuel generalizing p index with
  | zero => cases h
  | succ fuel ih =>
    rw [selectLoop] at h
    split at h
    · next hnone =>
      cases h
      refine ⟨(fun _ _ hx => by cases hx), fun _ c hc => ?_⟩
      rw [drop_of_length_le (getElem?_eq_none_iff.1 hnone)] at hc
      exact absurd hc not_mem_nil
    · next c hc =>
      have hd : p.order.drop index = c :: p.order.drop (index + 1) := by
        obtain ⟨hi, rfl⟩ := List.getElem?_eq_some_iff.1 hc
        exact drop_eq_getElem_cons hi
      have hndd : (c :: p.order.drop (index + 1)).Nodup := hd ▸ hnd.sublist (drop_sublist ..)
      split at h
      · next ha =>
        dsimp only at h
        rw [cats_setCat_self] at h
        split at h
        · next hlt =>
          -- skipped: it is still active, so that the loop does not end without a choice
          obtain ⟨hsome, hnone⟩ := ih ((rotate_perm p.order index).nodup_iff.2 hnd) h
          refine ⟨fun i x hx => (hsome i x hx).of_skip hndd hd hlt, fun hn => ?_⟩
          have hmem : c ∈ (rotateOrderListTail p.order index).drop index := by
            rw [drop_rotate hd]
            simp
          refine absurd ?_ (hnone hn c hmem)
          exact ((selectFrame_setWrr p c _).active c).trans ha
        · next hge =>
          cases h
          refine ⟨?_, fun h => by cases h⟩
          rintro i x ⟨⟩
          replace hge : ¬ (p.cats c).wrrCount + 1 < (p.specs c).wrrSkipWeight := hge
          have hz : skipsLeft p c = 0 :=
            Int.toNat_of_nonpos (Int.sub_nonpos_of_le (Int.not_lt.1 hge))
          exact ⟨ha, [], _, hd, by simp, fun y _ _ => hz ▸ zero_le _⟩
      · next ha =>
        obtain ⟨hsome, hnone⟩ := ih hnd h
        refine ⟨fun i x hx => (hsome i x hx).of_inactive hd ha, fun hn x hx => ?_⟩
        rw [hd] at hx
        rcases mem_cons.1 hx with rfl | hx
        · exact ha
        · exact hnone hn x hx

end Turn

/-! ### What a batch leaves -/

section Batch
variable {p p' : HlPdev} {sctx sctx' : SchedCtx} {credit n : ℕ} {c : Cat} {q : TxqId}

/-- Each queue holds the frames it counts, and each frame costs something. -/
structure Costly (p : HlPdev) : Prop where
  frms : ∀ q, (p.txqs q).frms = (p.txqs q).head.length
  cost : ∀ q, ∀ frm ∈ (p.txqs q).head, 0 < frm.credit

theorem Costly.creditOf_pos (h : Costly p) {moved left : List TxFrm}
    (hl : (p.txqs q).head = moved ++ left) (hne : moved ≠ []) : 0 < creditOf moved := by
  obtain ⟨frm, moved, rfl⟩ := exists_cons_of_ne_nil hne
  have := h.cost q frm (by rw [hl]; simp)
  rw [creditOf_cons]
  omega

theorem Sendable.congr (h : Sendable p' c q) (hh : (p'.txqs q).head = (p.txqs q).head)
    (hg : (p'.txqs q).groupPtr = (p.txqs q).groupPtr) (hs : p'.specs = p.specs)
    (hc : p'.groupCredit = p.groupCredit) (ht : p'.targetTxCredit = p.targetTxCredit) :
    Sendable p c q := by
  obtain ⟨frm, hfrm, h⟩ := h
  have hlim : olTxTxqGroupCreditLimit p' (p'.txqs q) p'.targetTxCredit.toNat =
      olTxTxqGroupCreditLimit p (p.txqs q) p.targetTxCredit.toNat := by
    simp [olTxTxqGroupCreditLimit, hg, hc, ht]
  rw [hlim, hs] at h
  exact ⟨frm, hh ▸ hfrm, h⟩

theorem specs_groupCreditUpdate (txq : TxFrmsQueue) (k : ℤ) :
    (olTxTxqGroupCreditUpdate p txq k).specs = p.specs := by
  unfold olTxTxqGroupCreditUpdate
  split <;> rfl

theorem order_groupCreditUpdate (txq : TxFrmsQueue) (k : ℤ) :
    (olTxTxqGroupCreditUpdate p txq k).order = p.order := by
  unfold olTxTxqGroupCreditUpdate
  split <;> rfl

theorem serveTxq_plan (p : HlPdev) (sctx : SchedCtx) (c : Cat) (q : TxqId) (rest : List TxqId)
    (credit : ℕ) : (serveTxq p sctx c q rest credit).1.specs = p.specs ∧
      (serveTxq p sctx c q rest credit).1.order = p.order := by
  unfold serveTxq
  dsimp only
  split
  · exact ⟨specs_groupCreditUpdate _ _, order_groupCreditUpdate _ _⟩
  · split
    · exact ⟨rfl, rfl⟩
    · split <;> exact ⟨rfl, rfl⟩

theorem selectBatch_plan (h : olTxSchedSelectBatch p sctx credit = some (p', sctx', n)) :
    p'.specs = p.specs ∧ p'.order.Perm p.order := by
  obtain ⟨⟨p₁, choice⟩, hl, h⟩ := bind_eq_some_iff.1 h
  have hs := (selectLoop_frame hl).1
  cases choice with
  | none => cases h; exact ⟨hs.specs, hs.order⟩
  | some choice =>
    obtain ⟨index, c⟩ := choice
    have h : selectCategory p₁ sctx index c credit = (p', sctx', n) := some.inj h
    have hplan : (selectCategory p₁ sctx index c credit).1.specs = p₁.specs ∧
        (selectCategory p₁ sctx index c credit).1.order.Perm p₁.order := by
      unfold selectCategory
      dsimp only
      split
      · exact ⟨rfl, .rfl⟩
      · split
        · exact ⟨rfl, rotate_perm ..⟩
        · obtain ⟨hsp, ho⟩ := serveTxq_plan _ sctx c _ _ credit
          exact ⟨hsp, ho ▸ rotate_perm ..⟩
    rw [h] at hplan
    exact ⟨hplan.1.trans hs.specs, hplan.2.trans hs.order⟩

/-- **A batch that uses no credit** leaves no queue able to send that could not before. -/
theorem Batch.sendable_of_idle (hc : Costly p) (hlinked : ∀ x, ∀ y ∈ (p.cats x).head, 0 < (p.txqs y).frms)
    (hspecs : p'.specs = p.specs) (hb : Batch p p' sctx sctx' credit 0) {y : TxqId}
    (hy : y ∈ (p'.cats c).head) (h : Sendable p' c y) : y ∈ (p.cats c).head ∧ Sendable p c y := by
  rcases hb with hi | ⟨x, q, moved, left, ht⟩
  · refine ⟨(hi.heads c).mem_iff.1 hy, h.congr ?_ ?_ hspecs hi.groupCredit hi.target⟩
    · rw [hi.txqs]
    · rw [hi.txqs]
  · have hnil : moved = [] := by
      by_contra hne
      exact absurd ht.used.symm (ne_of_gt (hc.creditOf_pos ht.split hne))
    subst hnil
    have hleft : left ≠ [] := by
      have hpos := hlinked x q ht.mem
      rw [hc.frms, ht.split] at hpos
      exact ne_nil_of_length_pos hpos
    have htxq : (p'.txqs y).head = (p.txqs y).head ∧ (p'.txqs y).groupPtr = (p.txqs y).groupPtr := by
      rw [ht.txqs]
      by_cases hyq : y = q
      · subst hyq
        rw [update_self]
        exact ⟨ht.split.symm, rfl⟩
      · rw [update_of_ne hyq]
        exact ⟨rfl, rfl⟩
    have hgroup : p'.groupCredit = p.groupCredit := by
      rw [ht.groupCredit]
      unfold chargeGroup olTxTxqGroupCreditUpdate
      split
      · rfl
      · simp [creditOf]
    exact ⟨(ht.heads hleft c).mem_iff.1 hy, h.congr htxq.1 htxq.2 hspecs hgroup ht.target⟩

theorem Costly.of_frame (h : Costly p) (hs : SelectFrame p p') : Costly p' :=
  ⟨fun q => hs.txqs ▸ h.frms q, fun q => hs.txqs ▸ h.cost q⟩

theorem Servable.of_frame (h : Servable p c) (hs : SelectFrame p p') : Servable p' c := by
  have hlim : ∀ txq k, olTxTxqGroupCreditLimit p' txq k = olTxTxqGroupCreditLimit p txq k := by
    intro txq k
    simp [olTxTxqGroupCreditLimit, hs.groupCredit]
  unfold Servable
  rw [hs.specs, hs.targetTxCredit, hs.head, hs.txqs]
  simp only [hlim]
  exact h

/-- **A category that can be served is served.** -/
theorem Servable.serves (hs : Servable p c) (hc : Costly p) (sctx : SchedCtx) (index : ℕ) :
    0 < (selectCategory p sctx index c p.targetTxCredit.toNat).2.2 := by
  obtain ⟨hthr, hsend, q, hq, frm, hfrm, hlim⟩ := hs
  obtain ⟨rest, hq⟩ := head?_eq_some_iff.1 hq
  obtain ⟨frms, hfrm⟩ := head?_eq_some_iff.1 hfrm
  have hcost := hc.cost q frm (by rw [hfrm]; simp)
  have hlen : 0 < (p.txqs q).frms := by rw [hc.frms, hfrm]; exact succ_pos _
  have hgt : (p.specs c).creditReserve <
      olTxTxqGroupCreditLimit p (p.txqs q) p.targetTxCredit.toNat := by omega
  obtain ⟨moved, left, hl, hd, -, hstop⟩ := olTxDequeue_spec (hc.frms q) sctx.head
    (p.specs c).sendLimit
    (olTxTxqGroupCreditLimit p (p.txqs q) p.targetTxCredit.toNat - (p.specs c).creditReserve)
  have hmoved : moved ≠ [] := by
    rintro rfl
    rcases hstop with hstop | ⟨f, r, hf, hlt⟩
    · simp only [length_nil] at hstop
      omega
    · rw [nil_append, hf] at hl
      obtain rfl : frm = f := (cons.inj (hfrm.symm.trans hl)).1
      simp only [creditOf, map_nil, sum_nil] at hlt
      omega
  have hserve : (serveTxq { p.setCat c { p.cats c with wrrCount := 0 } with
      order := rotateOrderListTail p.order index, index := index } sctx c q rest
      p.targetTxCredit.toNat).2.2 = creditOf moved := by
    unfold serveTxq
    dsimp only
    rw [if_pos]
    · exact congrArg Dequeued.credit hd
    · exact hgt
  unfold selectCategory
  dsimp only
  rw [if_neg (not_lt.2 hthr)]
  split
  · next hnil => exact absurd (hnil.symm.trans hq) (cons_ne_nil _ _).symm
  · next q' rest' hq' =>
    obtain ⟨rfl, rfl⟩ := cons.inj (hq.symm.trans hq')
    exact hserve ▸ hc.creditOf_pos hl hmoved

end Batch

/-! ### The invariant -/

/-- **Somebody looks after the frames**: where the running call has looked for the last time and nobody else is on the way, no category is ready. -/
structure Attended (s : SchedPdev) : Prop where
  sched : SchedInv s.hl
  cost : ∀ q, ∀ frm ∈ (s.hl.txqs q).head, 0 < frm.credit
  order : s.hl.order.Perm (List.finRange 8)
  /-- the first batch of a call looks from the start of the order -/
  index : s.pc = .selecting ∨ s.pc = .inLoop → s.hl.index = 0 ∨ 0 < creditOf s.sctx.head
  attended : ¬ s.looking → Unattended s → ∀ c, ¬ Ready s.hl c

section Steps
variable {p p' : HlPdev} {sctx sctx' : SchedCtx} {credit n : ℕ} {s s' : SchedPdev}

theorem Attended.costly (h : Attended s) : Costly s.hl := ⟨fun q => (h.sched.txq q).frms, h.cost⟩

theorem Attended.noLostWakeup (h : Attended s) : NoLostWakeup s := by
  intro he hw hpc ⟨c, hc⟩
  refine pos_of_ne_zero fun h0 => h.attended ?_ ⟨he, hw, h0⟩ c hc
  simp [looking, hpc]

theorem enqueue_plan (p : HlPdev) (q : TxqId) (frm : TxFrm) :
    (olTxEnqueue p q frm).order = p.order ∧ (olTxEnqueue p q frm).index = p.index := by
  unfold olTxEnqueue
  dsimp only
  split <;> exact ⟨rfl, rfl⟩

theorem txqDiscard_plan (q : TxqId) (cat : Cat) (frames : ℕ) (bytes : ℤ) :
    (olTxSchedTxqDiscard p q cat frames bytes).order = p.order ∧
      (olTxSchedTxqDiscard p q cat frames bytes).index = p.index := by
  unfold olTxSchedTxqDiscard
  dsimp only
  split <;> exact ⟨rfl, rfl⟩

theorem discardSelect_plan (p : HlPdev) (frms : ℕ) (txDescs : List TxFrm) (force : Bool) :
    (olTxSchedDiscardSelect p frms txDescs force).1.order = p.order ∧
      (olTxSchedDiscardSelect p frms txDescs force).1.index = p.index := by
  unfold olTxSchedDiscardSelect
  dsimp only
  split
  · exact ⟨rfl, rfl⟩
  · exact txqDiscard_plan ..

theorem mem_head_afterTaking {q : TxqId} {moved left : List TxFrm}
    (hs : (p.txqs q).head = moved ++ left)
    (ht : p'.txqs = update p.txqs q ((p.txqs q).afterTaking moved left)) {y : TxqId}
    {frm : TxFrm} (hfrm : frm ∈ (p'.txqs y).head) : frm ∈ (p.txqs y).head := by
  rw [ht] at hfrm
  by_cases hy : y = q
  · subst hy
    rw [update_self, afterTaking_head] at hfrm
    rw [hs]
    exact mem_append_right _ hfrm
  · rwa [update_of_ne hy] at hfrm

theorem Batch.mem_head (hb : Batch p p' sctx sctx' credit n) {y : TxqId} {frm : TxFrm}
    (hfrm : frm ∈ (p'.txqs y).head) : frm ∈ (p.txqs y).head := by
  rcases hb with hi | ⟨c, q, moved, left, ht⟩
  · rwa [hi.txqs] at hfrm
  · exact mem_head_afterTaking ht.split ht.txqs hfrm

theorem Batch.charged (hb : Batch p p' sctx sctx' credit n) :
    creditOf sctx'.head = creditOf sctx.head + n := by
  rcases hb with hi | ⟨c, q, moved, left, ht⟩
  · rw [hi.sctx_eq, hi.used, add_zero]
  · rw [ht.sctx_eq, ht.used, creditOf_append]

theorem not_ready_of_noCredit (h : p.targetTxCredit ≤ 0) (c : Cat) : ¬ Ready p c := by
  rintro ⟨-, q, -, frm, -, hlim, -⟩
  have hle := groupCreditLimit_le p (p.txqs q) p.targetTxCredit.toNat
  rw [Int.toNat_of_nonpos h] at hle hlim
  exact not_lt_zero _ (lt_of_lt_of_le hlim hle)

theorem Ready.linked {c : Cat} (h : Ready p c) : ∃ q ∈ (p.cats c).head, Sendable p c q := by
  obtain ⟨-, q, hq, hs⟩ := h
  exact ⟨q, mem_of_mem_head? hq, hs⟩

/-- **A batch that serves nothing** had nothing to send, or could not serve the category whose turn it was. -/
theorem Attended.idle_batch (h : Attended s) (hpc : s.pc = .inLoop) (hun : Unattended s)
    (hok : WakeupStepOk s .select)
    (hb : olTxSchedSelectBatch s.hl sctx s.hl.targetTxCredit.toNat = some (p', sctx', 0)) (c : Cat) :
    ¬ Ready p' c := by
  intro hr
  obtain ⟨q, hq, hsend⟩ := hr.linked
  have hlinked : ∀ x, ∀ y ∈ (s.hl.cats x).head, 0 < (s.hl.txqs y).frms :=
    fun x y hy => h.sched.frms_pos hy
  obtain ⟨hq, hsend⟩ := (selectBatch_batch h.costly.frms hb).sendable_of_idle h.costly hlinked
    (selectBatch_plan hb).1 hq hsend
  have hindex : s.hl.index = 0 := by
    refine (h.index (.inr hpc)).resolve_right ?_
    have := hun.2.2
    unfold owed at this
    omega
  obtain ⟨⟨p₁, choice⟩, hl, hb⟩ := bind_eq_some_iff.1 hb
  have hnd : s.hl.order.Nodup := h.order.nodup_iff.2 (nodup_finRange 8)
  obtain ⟨hsome, hnone⟩ := selectLoop_turn hnd hl
  cases choice with
  | none =>
    refine hnone rfl c ?_ (h.sched.active_of_mem hq)
    rw [hindex, drop_zero]
    exact h.order.mem_iff.2 (mem_finRange c)
  | some choice =>
    obtain ⟨i, x⟩ := choice
    have hserv := hok hun ⟨c, q, hq, hsend⟩ x (hsome i x rfl)
    have hs := (selectLoop_frame hl).1
    have hpos := (hserv.of_frame hs).serves (h.costly.of_frame hs) sctx i
    rw [hs.targetTxCredit] at hpos
    have hb : selectCategory p₁ sctx i x s.hl.targetTxCredit.toNat = (p', sctx', 0) :=
      some.inj hb
    rw [hb] at hpos
    exact absurd hpos (lt_irrefl 0)

theorem Attended.select (h : Attended s) (hpc : s.pc = .inLoop) (hok : WakeupStepOk s .select)
    (he : selectSection s = some s') : Attended s' := by
  obtain ⟨⟨hl, sctx, n⟩, hb, he⟩ := bind_eq_some_iff.1 he
  obtain rfl := some.inj he
  have hbatch := selectBatch_batch h.costly.frms hb
  have hsched := h.sched.selectBatch hb
  have hcharged := hbatch.charged
  rcases Nat.eq_zero_or_pos n with rfl | hn
  · refine ⟨hsched, fun q frm hfrm => h.cost q frm (hbatch.mem_head hfrm),
      (selectBatch_plan hb).2.trans h.order, by simp, fun _ hun => ?_⟩
    refine h.idle_batch hpc ⟨hun.1, hun.2.1, ?_⟩ hok hb
    have := hun.2.2
    unfold owed at this ⊢
    dsimp only at this
    omega
  · rw [if_pos hn, if_neg hn.ne']
    refine ⟨hsched.congr rfl rfl, fun q frm hfrm => h.cost q frm (hbatch.mem_head hfrm),
      (selectBatch_plan hb).2.trans h.order, fun _ => .inr ?_, fun hlook => ?_⟩
    · exact hcharged ▸ Nat.add_pos_right _ hn
    · exact absurd (.inr (.inl rfl)) hlook

theorem Attended.ofBusy (h : Attended s) {hl : HlPdev} {entered waiting outstanding : ℕ}
    (hsched : SchedInv hl)
    (hcost : ∀ q, ∀ frm ∈ (hl.txqs q).head, 0 < frm.credit)
    (hplan : hl.order = s.hl.order ∧ hl.index = s.hl.index) (hbusy : 0 < entered + waiting) :
    Attended { s with
      hl := hl
      entered := entered
      waiting := waiting
      outstanding := outstanding } where
  sched := hsched
  cost := hcost
  order := hplan.1 ▸ h.order
  index hpc := (h.index hpc).imp_left hplan.2.trans
  attended _ hun := by
    obtain ⟨he, hw, -⟩ := hun
    dsimp only at he hw
    omega

/-- Every step that meets `WakeupStepOk` keeps the invariant. -/
theorem Attended.step (h : Attended s) {e : WakeupEvent} (hok : WakeupStepOk s e)
    (he : wakeupStep s e = some s') : Attended s' := by
  cases e with
  | enter =>
    cases he
    exact h.ofBusy h.sched h.cost ⟨rfl, rfl⟩ (by omega)
  | discard frms =>
    obtain ⟨hin, rfl⟩ := guarded_eq_some.1 he
    refine h.ofBusy (h.sched.discardSelect frms [] false) (fun q frm hfrm => ?_)
      (discardSelect_plan ..) (by omega)
    rcases discardSelect_spec h.costly.frms frms [] false with hd | ⟨q', moved, left, hd⟩
    · rw [hd] at hfrm
      exact h.cost q frm hfrm
    · exact h.cost q frm (mem_head_afterTaking hd.split hd.txqs hfrm)
  | enqueue q id len =>
    obtain ⟨⟨hin, -⟩, rfl⟩ := guarded_eq_some.1 he
    refine h.ofBusy (h.sched.enqueue q _) (fun y frm hfrm => ?_) (enqueue_plan ..) (by omega)
    rw [txqs_enqueue] at hfrm
    by_cases hy : y = q
    · subst hy
      rw [update_self] at hfrm
      rcases mem_append.1 hfrm with hfrm | hfrm
      · exact h.cost y frm hfrm
      · rw [mem_singleton.1 hfrm]
        exact one_pos
    · rw [update_of_ne hy] at hfrm
      exact h.cost y frm hfrm
  | leave =>
    obtain ⟨-, rfl⟩ := guarded_eq_some.1 he
    exact h.ofBusy h.sched h.cost ⟨rfl, rfl⟩ (by omega)
  | giveUp =>
    obtain ⟨-, rfl⟩ := guarded_eq_some.1 he
    exact ⟨h.sched, h.cost, h.order, h.index, fun hlook hun => hok hlook hun⟩
  | credit returned granted groupCredit =>
    obtain ⟨-, rfl⟩ := guarded_eq_some.1 he
    exact h.ofBusy (h.sched.congr rfl rfl) h.cost ⟨rfl, rfl⟩ (by omega)
  | call =>
    obtain ⟨-, rfl⟩ := guarded_eq_some.1 he
    by_cases hidle : s.pc = .idle
    · -- the call starts the scheduler
      rw [if_pos hidle]
      refine ⟨h.sched, h.cost, h.order, by simp, fun hlook => ?_⟩
      exact absurd (.inl rfl) hlook
    · -- the call returns at once
      rw [if_neg hidle]
      exact ⟨h.sched, h.cost, h.order, h.index, fun hlook hun => hok hlook hidle hun⟩
  | selectInit =>
    obtain ⟨-, rfl⟩ := guarded_eq_some.1 he
    refine ⟨h.sched.congr rfl rfl, h.cost, h.order, fun _ => .inl rfl, fun hlook => ?_⟩
    exact absurd (.inr (.inl rfl)) hlook
  | test =>
    obtain ⟨hpc, rfl⟩ := guarded_eq_some.1 he
    by_cases hpos : s.hl.targetTxCredit > 0
    · rw [if_pos hpos]
      refine ⟨h.sched, h.cost, h.order, fun _ => h.index (.inl hpc), fun hlook => ?_⟩
      exact absurd (.inr (.inr rfl)) hlook
    · rw [if_neg hpos]
      exact ⟨h.sched, h.cost, h.order, by simp,
        fun _ _ => not_ready_of_noCredit (Int.not_lt.1 hpos)⟩
  | select =>
    obtain ⟨hpc, he⟩ := guard_bind_eq_some.1 he
    exact h.select hpc hok he
  | dispatch =>
    obtain ⟨hpc, rfl⟩ := guarded_eq_some.1 he
    refine ⟨h.sched, h.cost, h.order, by simp, fun _ hun => h.attended ?_ ⟨hun.1, hun.2.1, ?_⟩⟩
    · simp [looking, hpc]
    · -- what was taken is owed by the target now
      have := hun.2.2
      simp only [owed, creditOf, map_nil, sum_nil] at this ⊢
      omega
  | reject n =>
    obtain ⟨-, rfl⟩ := guarded_eq_some.1 he
    exact ⟨h.sched.congr rfl rfl, h.cost, h.order, h.index, fun hlook hun => hok hlook hun⟩
  | finish =>
    obtain ⟨hpc, rfl⟩ := guarded_eq_some.1 he
    refine ⟨h.sched, h.cost, h.order, by simp, fun _ hun => h.attended ?_ hun⟩
    simp [looking, hpc]

theorem attended_attached (groupPtr : TxqId → Option ℕ) (specs : Cat → CatSpecs) (target : ℤ)
    (groupCredit : ℕ → ℤ) : Attended (.attached groupPtr specs target groupCredit) where
  sched := schedInv_attached ..
  cost _ _ := nofun
  order := .rfl
  index := by simp [attached]
  attended _ _ _ hr := absurd hr.1 Bool.false_ne_true

/-- **No wakeup is lost** in a run whose steps meet `WakeupStepOk`. -/
theorem no_lost_wakeup (s : SchedPdev) (t : wakeupMachine.Reach WakeupStepOk s) :
    NoLostWakeup s := by
  have hinv : Attended s := by
    refine t.invariant Attended ?_ fun _ _ _ h hok he => h.step hok he
    rintro _ ⟨groupPtr, specs, target, groupCredit, rfl⟩
    exact attended_attached ..
  exact hinv.noLostWakeup

end Steps

/-! ### Three runs -/

/-- Another context is on its way, or the target owes credits. -/
def SchedPdev.accompanied (s : SchedPdev) : WakeupEvent → Bool
  | .call => 0 < s.entered ∨ 0 < s.owed ∨ s.pc = .idle
  | .select => 0 < s.entered ∨ 0 < s.owed
  | .giveUp | .reject _ => false
  | _ => true

theorem WakeupStepOk.of_accompanied {s : SchedPdev} {e : WakeupEvent} (h : s.accompanied e = true) :
    WakeupStepOk s e := by
  cases e with
  | call =>
    rintro - hidle ⟨he, -, ho⟩
    rcases of_decide_eq_true h with h | h | h
    · exact absurd he h.ne'
    · exact absurd ho h.ne'
    · exact absurd h hidle
  | select =>
    rintro ⟨he, -, ho⟩
    rcases of_decide_eq_true h with h | h
    · exact absurd he h.ne'
    · exact absurd ho h.ne'
  | giveUp => exact absurd h Bool.false_ne_true
  | reject n => exact absurd h Bool.false_ne_true
  | _ => trivial

/-- The scheduler of the SDIO build with 20 credits. -/
def sdioSched (groupPtr : TxqId → Option Nat) : SchedPdev :=
  .attached groupPtr sdioSpecs 20 fun _ => 0

theorem sdioSched_init (groupPtr : TxqId → Option Nat) : wakeupMachine.init (sdioSched groupPtr) :=
  ⟨_, _, _, _, rfl⟩

/-- A second context comes while the first one's frame is sent, and has its own sent. -/
def twoContexts : List WakeupEvent :=
  [.enter, .enqueue (.peer 0 6) 0 80, .leave, .enter, .call, .selectInit, .test, .select,
    .enqueue (.peer 0 6) 1 80, .leave, .call, .test, .select, .test, .select, .dispatch, .finish]

theorem no_lost_wakeup_twoContexts : ∃ s,
    wakeupMachine.run (sdioSched fun _ => none) twoContexts = some s ∧ NoLostWakeup s :=
  Machine.exists_reach_of (q := fun _ => True) (sdioSched_init _) (by decide +kernel)
    (by decide +kernel) fun s t _ => no_lost_wakeup s (t.mono fun _ _ => .of_accompanied)

/-- The credit of a frame comes back, and the call that follows finds nothing queued; before it is done another frame is enqueued, whose call returns. -/
def lateFrame : List WakeupEvent :=
  [.enter, .enqueue (.peer 0 6) 0 80, .leave, .call, .selectInit, .test, .select, .test, .select,
    .dispatch, .finish, .credit 1 0 fun _ => 0, .call, .selectInit, .test, .select,
    .enter, .enqueue (.peer 0 6) 1 80, .leave, .call, .dispatch, .finish]

/-- A frame of a group without credit is before a management frame. -/
def behindGroup : List WakeupEvent :=
  [.enter, .enqueue (.peer 0 0) 0 100, .enqueue (.peer 0 17) 1 60, .leave, .call, .selectInit,
    .test, .select, .dispatch, .finish]

/-- What shows that a category is ready and no call is owed. -/
def lostShape (s : SchedPdev) (c : Cat) (q : TxqId) : Bool :=
  s.entered = 0 ∧ s.waiting = 0 ∧ s.pc = .idle ∧ s.owed = 0 ∧ (s.hl.cats c).active = true ∧
    (s.hl.cats c).head.head? = some q ∧ (s.hl.txqs q).head.head?.any fun frm =>
      let limit := olTxTxqGroupCreditLimit s.hl (s.hl.txqs q) s.hl.targetTxCredit.toNat
      (s.hl.specs c).creditThreshold < limit ∧ (s.hl.specs c).creditReserve + frm.credit < limit

theorem not_noLostWakeup_of_shape {s : SchedPdev} {c : Cat} {q : TxqId}
    (h : lostShape s c q = true) : ¬ NoLostWakeup s := by
  obtain ⟨he, hw, hpc, ho, hact, hq, hfrm⟩ := of_decide_eq_true h
  obtain ⟨frm, hfrm, hlim⟩ := (any_eq_true _ _).1 hfrm
  have hready : Ready s.hl c := ⟨hact, q, hq, frm, hfrm, of_decide_eq_true hlim⟩
  exact fun hn => absurd ho (hn he hw hpc ⟨c, hready⟩).ne'

/-- **Frames are left with nobody responsible**: the one that came too late, with 20 credits there; and the management frame, which the scheduler does not get to. -/
theorem late_frame_stays :
    (∃ s, wakeupMachine.run (sdioSched fun _ => none) lateFrame = some s ∧ ¬ NoLostWakeup s) ∧
    ∃ s, wakeupMachine.run (sdioSched fun q => if q = .peer 0 0 then some 0 else none)
      behindGroup = some s ∧ ¬ NoLostWakeup s :=
  ⟨Machine.exists_run_of (q := fun s => lostShape s 3 (.peer 0 6) = true) (by decide +kernel)
      fun _ => not_noLostWakeup_of_shape,
    Machine.exists_run_of (q := fun s => lostShape s 5 (.peer 0 17) = true) (by decide +kernel)
      fun _ => not_noLostWakeup_of_shape⟩

end Qcacld.Txrx

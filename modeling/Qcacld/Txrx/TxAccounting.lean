import Mathlib.Algebra.Order.BigOperators.Group.Finset
import Qcacld.Support.Runs
import Qcacld.Support.Tally
import Qcacld.Txrx.TxSched

/-!
# Txrx — TxAccounting

The scheduler's counters over whole runs: what a category believes it has queued against what the queues linked on it hold.

Every operation changes one queue and the category of its extended TID, so that one lemma (`SchedInv.update`) serves them all.  Two do not fit: `ol_txrx_vdev_detach` frees the vdev's queues under TIDs of other categories than they were linked under, and the last unpause of a queue that was flushed and filled again while it was paused counts the whole queue a second time.
-/

namespace Qcacld.Txrx
open Qcacld.Support Function List Option Nat HlPdev

/-! ### The property -/

/-- A category's counters are those of the queues linked on it. -/
structure CatOk (p : HlPdev) (c : Cat) : Prop where
  frms : (p.cats c).frms = tally (fun q => ((p.txqs q).frms : Int)) (p.cats c).head
  bytes : (p.cats c).bytes = tally (fun q => (p.txqs q).bytes) (p.cats c).head
  active : (p.cats c).active = true ↔ (p.cats c).head ≠ []

structure AccountsOk (p : HlPdev) : Prop where
  cat : ∀ c, CatOk p c
  linked : ∀ c, ∀ q ∈ (p.cats c).head, (p.txqs q).flag = .active ∧ 0 < (p.txqs q).frms
  nodup : ∀ c, (p.cats c).head.Nodup
  once : ∀ c c' q, q ∈ (p.cats c).head → q ∈ (p.cats c').head → c = c'
  frms : ∀ q, (p.txqs q).frms = (p.txqs q).head.length

/-! ### The invariant -/

/-- The category the frames of a queue count for. -/
def catOf (q : TxqId) : Cat := tidToAc (enqueueTid q)

/-- A queue's counters are those of its frames, and its flag agrees with them. -/
structure TxqOk (txq : TxFrmsQueue) : Prop where
  active_frms : txq.flag = .active → 0 < txq.frms
  empty_frms : txq.flag = .empty → txq.frms = 0
  frms : txq.frms = txq.head.length
  bytes : txq.bytes = bytesOf txq.head

/-- **The accounting invariant**, which says besides that a queue is linked exactly when it is flagged active, and then on its own category. -/
structure SchedInv (p : HlPdev) : Prop where
  cat : ∀ c, CatOk p c
  nodup : ∀ c, (p.cats c).head.Nodup
  mem_head : ∀ c q, q ∈ (p.cats c).head ↔ (p.txqs q).flag = .active ∧ catOf q = c
  txq : ∀ q, TxqOk (p.txqs q)

section Basics
variable {p p' : HlPdev} {q : TxqId} {c : Cat} {txq : TxFrmsQueue} {st : CatState}

@[simp] theorem txqs_setTxq_self : (p.setTxq q txq).txqs q = txq := update_self ..

theorem txqs_setTxq_of_ne {x : TxqId} (h : x ≠ q) : (p.setTxq q txq).txqs x = p.txqs x :=
  update_of_ne h ..

@[simp] theorem cats_setTxq : (p.setTxq q txq).cats = p.cats := rfl

@[simp] theorem cats_setCat_self : (p.setCat c st).cats c = st := update_self ..

theorem cats_setCat_of_ne {x : Cat} (h : x ≠ c) : (p.setCat c st).cats x = p.cats x :=
  update_of_ne h ..

theorem SchedInv.accountsOk (h : SchedInv p) : AccountsOk p where
  cat := h.cat
  linked c q hq := ⟨((h.mem_head c q).1 hq).1, (h.txq q).active_frms ((h.mem_head c q).1 hq).1⟩
  nodup := h.nodup
  once c c' q hq hq' := ((h.mem_head c q).1 hq).2.symm.trans ((h.mem_head c' q).1 hq').2
  frms q := (h.txq q).frms

theorem SchedInv.congr (h : SchedInv p) (ht : p'.txqs = p.txqs) (hc : p'.cats = p.cats) :
    SchedInv p' := by
  obtain ⟨txqs, specs, cats, order, index, lastUsed, target, group⟩ := p
  obtain ⟨txqs', specs', cats', order', index', lastUsed', target', group'⟩ := p'
  cases ht
  cases hc
  exact ⟨fun c => ⟨(h.cat c).frms, (h.cat c).bytes, (h.cat c).active⟩, h.nodup, h.mem_head, h.txq⟩

theorem CatOk.congr (h : CatOk p c) (hc : p'.cats c = p.cats c)
    (ht : ∀ x ∈ (p.cats c).head, p'.txqs x = p.txqs x) : CatOk p' c where
  frms := by
    rw [hc, h.frms]
    exact tally_congr fun x hx => by rw [ht x hx]
  bytes := by
    rw [hc, h.bytes]
    exact tally_congr fun x hx => by rw [ht x hx]
  active := by rw [hc]; exact h.active

theorem SchedInv.mem_own (h : SchedInv p) : q ∈ (p.cats (catOf q)).head ↔ (p.txqs q).flag = .active :=
  (h.mem_head _ q).trans (and_iff_left rfl)

theorem SchedInv.notMem_other (h : SchedInv p) (hc : c ≠ catOf q) : q ∉ (p.cats c).head :=
  fun hq => hc ((h.mem_head c q).1 hq).2.symm

theorem SchedInv.frms_pos (h : SchedInv p) (hq : q ∈ (p.cats c).head) : 0 < (p.txqs q).frms :=
  (h.txq q).active_frms ((h.mem_head c q).1 hq).1

theorem SchedInv.cat_frms_nonneg (h : SchedInv p) (c : Cat) : 0 ≤ (p.cats c).frms := by
  rw [(h.cat c).frms]
  exact tally_nonneg fun x hx => by exact_mod_cast h.frms_pos hx

theorem SchedInv.frms_le_cat (h : SchedInv p) (hq : q ∈ (p.cats c).head) :
    ((p.txqs q).frms : ℤ) ≤ (p.cats c).frms := by
  rw [(h.cat c).frms]
  exact le_tally (fun x hx => by exact_mod_cast h.frms_pos hx) hq

theorem SchedInv.cat_active_iff (h : SchedInv p) (c : Cat) :
    (p.cats c).active = true ↔ (p.cats c).frms ≠ 0 := by
  rw [(h.cat c).active, (h.cat c).frms]
  exact (tally_ne_zero_iff fun x hx => by exact_mod_cast h.frms_pos hx).symm

theorem SchedInv.active_of_mem (h : SchedInv p) (hq : q ∈ (p.cats c).head) :
    (p.cats c).active = true :=
  (h.cat c).active.2 (ne_nil_of_mem hq)

/-- **One queue changes**, and its category with it. -/
theorem SchedInv.update (h : SchedInv p) (ht : p'.txqs = update p.txqs q txq)
    (hc : p'.cats = update p.cats (catOf q) st) (hnd : st.head.Nodup)
    (hmem : ∀ x, x ≠ q → (x ∈ st.head ↔ x ∈ (p.cats (catOf q)).head))
    (hq : q ∈ st.head ↔ txq.flag = .active) (htxq : TxqOk txq)
    (hcf : st.frms = (p.cats (catOf q)).frms -
      (if q ∈ (p.cats (catOf q)).head then ((p.txqs q).frms : ℤ) else 0) +
      if q ∈ st.head then (txq.frms : ℤ) else 0)
    (hcb : st.bytes = (p.cats (catOf q)).bytes -
      (if q ∈ (p.cats (catOf q)).head then (p.txqs q).bytes else 0) +
      if q ∈ st.head then txq.bytes else 0)
    (hca : st.active = true ↔ st.frms ≠ 0) : SchedInv p' := by
  have hself : p'.txqs q = txq := by rw [ht, update_self]
  have hne : ∀ x, x ≠ q → p'.txqs x = p.txqs x := fun x hx => by rw [ht, update_of_ne hx]
  have hcs : p'.cats (catOf q) = st := by rw [hc, update_self]
  have hcn : ∀ c, c ≠ catOf q → p'.cats c = p.cats c :=
    fun c hcq => by rw [hc, update_of_ne hcq]
  refine ⟨fun c => ?_, fun c => ?_, fun c x => ?_, fun x => ?_⟩
  · by_cases hcq : c = catOf q
    · subst hcq
      have hfrms : st.frms = tally (fun x => ((p'.txqs x).frms : ℤ)) st.head := by
        have hf := tally_update (f := fun x => ((p.txqs x).frms : ℤ))
          (g := fun x => ((p'.txqs x).frms : ℤ)) (h.nodup (catOf q)) hnd
          (fun x hx => by simp [hne x hx]) hmem
        rw [hf, hcf, (h.cat (catOf q)).frms, hself]
      have hpos : ∀ x ∈ st.head, (0 : ℤ) < ((p'.txqs x).frms : ℤ) := by
        intro x hx
        by_cases hxq : x = q
        · subst hxq
          rw [hself]
          exact_mod_cast htxq.active_frms (hq.1 hx)
        · rw [hne x hxq]
          exact_mod_cast h.frms_pos ((hmem x hxq).1 hx)
      refine ⟨by rw [hcs]; exact hfrms, ?_, ?_⟩
      · have hf := tally_update (f := fun x => (p.txqs x).bytes)
          (g := fun x => (p'.txqs x).bytes) (h.nodup (catOf q)) hnd
          (fun x hx => by simp [hne x hx]) hmem
        rw [hcs, hf, hcb, (h.cat (catOf q)).bytes, hself]
      · rw [hcs, hca, hfrms]
        exact tally_ne_zero_iff hpos
    · -- the other categories hold other queues
      exact (h.cat c).congr (hcn c hcq)
        fun x hx => hne x (ne_of_mem_of_not_mem hx (h.notMem_other hcq))
  · by_cases hcq : c = catOf q
    · subst hcq
      rw [hcs]
      exact hnd
    · rw [hcn c hcq]
      exact h.nodup c
  · by_cases hx : x = q
    · subst hx
      rw [hself]
      by_cases hcq : c = catOf x
      · subst hcq
        rw [hcs, hq]
        simp
      · rw [hcn c hcq]
        exact iff_of_false (h.notMem_other hcq) fun hc' => hcq hc'.2.symm
    · rw [hne x hx, ← h.mem_head c x]
      by_cases hcq : c = catOf q
      · subst hcq
        rw [hcs]
        exact hmem x hx
      · rw [hcn c hcq]
  · by_cases hx : x = q
    · subst hx
      rw [hself]
      exact htxq
    · rw [hne x hx]
      exact h.txq x

theorem SchedInv.setTxq (h : SchedInv p) (hflag : txq.flag = .active ↔ (p.txqs q).flag = .active)
    (hsame : txq.flag = .active → txq.frms = (p.txqs q).frms ∧ txq.bytes = (p.txqs q).bytes)
    (htxq : TxqOk txq) : SchedInv (p.setTxq q txq) := by
  have hmem : q ∈ (p.cats (catOf q)).head ↔ txq.flag = .active := h.mem_own.trans hflag.symm
  refine h.update rfl (update_eq_self (catOf q) p.cats).symm (h.nodup _)
    (fun _ _ => Iff.rfl) hmem htxq ?_ ?_ (h.cat_active_iff _)
  · by_cases hl : txq.flag = .active
    · rw [if_pos (hmem.2 hl), if_pos (hmem.2 hl), (hsame hl).1]
      omega
    · rw [if_neg (mt hmem.1 hl), if_neg (mt hmem.1 hl)]
      omega
  · by_cases hl : txq.flag = .active
    · rw [if_pos (hmem.2 hl), if_pos (hmem.2 hl), (hsame hl).2]
      omega
    · rw [if_neg (mt hmem.1 hl), if_neg (mt hmem.1 hl)]
      omega

theorem SchedInv.link (h : SchedInv p) (hold : (p.txqs q).flag ≠ .active)
    (hflag : txq.flag = .active) (htxq : TxqOk txq)
    (ht : p'.txqs = Function.update p.txqs q txq)
    (hc : p'.cats = Function.update p.cats (catOf q) { p.cats (catOf q) with
        frms := (p.cats (catOf q)).frms + txq.frms
        bytes := (p.cats (catOf q)).bytes + txq.bytes
        head := (p.cats (catOf q)).head ++ [q]
        active := true }) : SchedInv p' := by
  have hq : q ∉ (p.cats (catOf q)).head := mt h.mem_own.1 hold
  have hpos := htxq.active_frms hflag
  have hnn := h.cat_frms_nonneg (catOf q)
  refine h.update ht hc ?_ (fun x hx => ?_) ?_ htxq ?_ ?_ ?_
  · exact List.nodup_append.2 ⟨h.nodup _, nodup_singleton q,
      fun x hx y hy hxy => hq (by rwa [hxy, mem_singleton.1 hy] at hx)⟩
  · simp [hx]
  · simp [hflag]
  · simp [hq]
  · simp [hq]
  · refine iff_of_true rfl ?_
    change (p.cats (catOf q)).frms + (txq.frms : ℤ) ≠ 0
    omega

theorem unlink_eq (h : ∀ c, c ≠ catOf q → q ∉ (p.cats c).head) : (p.unlink q).cats =
    update p.cats (catOf q)
      { p.cats (catOf q) with head := (p.cats (catOf q)).head.filter (· ≠ q) } := by
  funext c
  by_cases hc : c = catOf q
  · subst hc
    rw [update_self]
    rfl
  · rw [update_of_ne hc]
    have hf : (p.cats c).head.filter (· ≠ q) = (p.cats c).head :=
      filter_eq_self.2 fun x hx => by simpa using ne_of_mem_of_not_mem hx (h c hc)
    simp only [unlink]
    rw [hf]

theorem SchedInv.deactivate (h : SchedInv p) {tid : ℕ} (hold : (p.txqs q).flag = .active)
    (htid : tidToAc tid = catOf q) (hflag : txq.flag ≠ .active) (htxq : TxqOk txq) :
    SchedInv ((olTxSchedTxqDeactivate p q tid).setTxq q txq) := by
  have hq : q ∈ (p.cats (catOf q)).head := h.mem_own.2 hold
  have hact := h.active_of_mem hq
  have hcats : (olTxSchedTxqDeactivate p q tid).cats = Function.update p.cats (catOf q)
      { p.cats (catOf q) with
        frms := (p.cats (catOf q)).frms - (p.txqs q).frms
        bytes := (p.cats (catOf q)).bytes - (p.txqs q).bytes
        head := (p.cats (catOf q)).head.filter (· ≠ q)
        active := if (p.cats (catOf q)).frms - (p.txqs q).frms = 0 ∧ (p.cats (catOf q)).active
          then false else (p.cats (catOf q)).active } := by
    simp only [olTxSchedTxqDeactivate, htid, setCat]
    rw [unlink_eq fun c hc => h.notMem_other hc]
    simp
  refine h.update rfl hcats ((h.nodup _).filter _) (fun x hx => ?_) ?_ htxq ?_ ?_ ?_
  · simp [hx]
  · simp [hflag]
  · simp [hq]
  · simp [hq]
  · simp only [hact]
    by_cases hz : (p.cats (catOf q)).frms - (p.txqs q).frms = 0 <;> simp [hz]

end Basics

/-! ### Taking frames -/

section Dequeue
variable {txq : TxFrmsQueue}

@[simp] theorem bytesOf_append (l l' : List TxFrm) : bytesOf (l ++ l') = bytesOf l + bytesOf l' := by
  simp [bytesOf]

@[simp] theorem creditOf_append (l l' : List TxFrm) :
    creditOf (l ++ l') = creditOf l + creditOf l' := by
  simp [creditOf]

@[simp] theorem creditOf_cons (frm : TxFrm) (l : List TxFrm) :
    creditOf (frm :: l) = frm.credit + creditOf l := by
  simp [creditOf]

/-- The loop stops because it has all it may take, or because the next frame costs too much; while the list holds the frames that are counted it never runs dry. -/
theorem dequeueLoop_spec (credit n sum : ℕ) {l : List TxFrm} (hn : n ≤ l.length)
    (hs : sum ≤ credit) :
    ∃ moved left, dequeueLoop credit n sum l = (moved, left, false) ∧ l = moved ++ left ∧
      moved.length ≤ n ∧ sum + creditOf moved ≤ credit ∧
      (moved.length = n ∨ ∃ frm rest, left = frm :: rest ∧
        credit < sum + creditOf moved + frm.credit) := by
  induction n generalizing sum l with
  | zero => exact ⟨[], l, rfl, rfl, le_refl 0, hs, .inl rfl⟩
  | succ n ih =>
    cases l with
    | nil => exact absurd hn (by simp)
    | cons frm l =>
      by_cases hc : sum + frm.credit > credit
      · refine ⟨[], frm :: l, ?_, rfl, zero_le _, hs, .inr ⟨frm, l, rfl, hc⟩⟩
        rw [dequeueLoop, if_pos hc]
      · obtain ⟨moved, left, he, hl, hm, hcr, hstop⟩ := ih (sum + frm.credit)
          (le_of_succ_le_succ hn) (by omega)
        refine ⟨frm :: moved, left, ?_, by rw [hl]; rfl, succ_le_succ hm, ?_, ?_⟩
        · rw [dequeueLoop, if_neg hc, he]
        · rw [creditOf_cons]
          omega
        · rw [creditOf_cons]
          refine hstop.imp (congrArg succ) ?_
          rintro ⟨f, rest, hf, hlt⟩
          exact ⟨f, rest, hf, by omega⟩

/-- A queue once `moved` is taken from its front and `left` remains. -/
def TxFrmsQueue.afterTaking (txq : TxFrmsQueue) (moved left : List TxFrm) : TxFrmsQueue :=
  { txq with
    frms := left.length
    bytes := txq.bytes - bytesOf moved
    head := left
    flag := if left.length = 0 ∧ txq.flag = .active then .empty else txq.flag }

@[simp] theorem afterTaking_frms (moved left : List TxFrm) :
    (txq.afterTaking moved left).frms = left.length := rfl

@[simp] theorem afterTaking_head (moved left : List TxFrm) :
    (txq.afterTaking moved left).head = left := rfl

@[simp] theorem afterTaking_bytes (moved left : List TxFrm) :
    (txq.afterTaking moved left).bytes = txq.bytes - bytesOf moved := rfl

@[simp] theorem afterTaking_flag (moved left : List TxFrm) : (txq.afterTaking moved left).flag =
    if left.length = 0 ∧ txq.flag = .active then .empty else txq.flag := rfl

/-- **What `ol_tx_dequeue` does** to a queue that holds the frames it counts: it moves frames from the head of the queue to the end of the list, as many as the limit and the credit allow. -/
theorem olTxDequeue_spec (h : txq.frms = txq.head.length) (head : List TxFrm)
    (maxFrames credit : ℕ) :
    ∃ moved left, txq.head = moved ++ left ∧ olTxDequeue txq head maxFrames credit =
        { txq := txq.afterTaking moved left
          head := head ++ moved
          frames := moved.length
          credit := creditOf moved
          bytes := bytesOf moved
          freed := [] } ∧
      creditOf moved ≤ credit ∧
      (moved.length = min txq.frms maxFrames ∨ ∃ frm rest, left = frm :: rest ∧
        credit < creditOf moved + frm.credit) := by
  have hn : min txq.frms maxFrames ≤ txq.head.length := h ▸ min_le_left _ _
  obtain ⟨moved, left, he, hl, -, hcr, hstop⟩ :=
    dequeueLoop_spec credit (min txq.frms maxFrames) 0 hn (zero_le _)
  have hfrms : txq.frms - moved.length = left.length := by
    rw [h, hl, length_append]
    omega
  refine ⟨moved, left, hl, ?_, by omega, ?_⟩
  · simp [olTxDequeue, he, hfrms, TxFrmsQueue.afterTaking]
  · exact hstop.imp id fun ⟨frm, rest, hf, hlt⟩ => ⟨frm, rest, hf, by omega⟩

theorem TxqOk.left (h : TxqOk txq) {moved left : List TxFrm} (hl : txq.head = moved ++ left) :
    TxqOk (txq.afterTaking moved left) where
  empty_frms hf := by
    have hlen := h.frms
    rw [hl, length_append] at hlen
    rw [afterTaking_flag] at hf
    split at hf
    · next he => exact he.1
    · have := h.empty_frms hf
      rw [afterTaking_frms]
      omega
  active_frms hf := by
    by_contra hz
    rw [afterTaking_flag] at hf
    rw [afterTaking_frms] at hz
    have hl : left.length = 0 := by omega
    split at hf
    · cases hf
    · next hne => exact hne ⟨hl, hf⟩
  frms := rfl
  bytes := by
    have hb := h.bytes
    rw [hl, bytesOf_append] at hb
    rw [afterTaking_bytes, afterTaking_head]
    omega

end Dequeue

/-! ### The choice of a category -/

section Select
variable {p p' : HlPdev} {q : TxqId} {c : Cat}

/-- What the choice of a category leaves as it is: everything but the WRR counts and the order. -/
structure SelectFrame (p p' : HlPdev) : Prop where
  txqs : p'.txqs = p.txqs
  specs : p'.specs = p.specs
  cats : ∀ c, p'.cats c = { p.cats c with wrrCount := (p'.cats c).wrrCount }
  order : p'.order.Perm p.order
  index : p'.index = p.index
  lastUsedTxq : p'.lastUsedTxq = p.lastUsedTxq
  targetTxCredit : p'.targetTxCredit = p.targetTxCredit
  groupCredit : p'.groupCredit = p.groupCredit

theorem SelectFrame.refl (p : HlPdev) : SelectFrame p p :=
  ⟨rfl, rfl, fun _ => rfl, .rfl, rfl, rfl, rfl, rfl⟩

theorem SelectFrame.trans {p'' : HlPdev} (h : SelectFrame p p') (h' : SelectFrame p' p'') :
    SelectFrame p p'' where
  txqs := h'.txqs.trans h.txqs
  specs := h'.specs.trans h.specs
  cats c := by rw [h'.cats c, h.cats c]
  order := h'.order.trans h.order
  index := h'.index.trans h.index
  lastUsedTxq := h'.lastUsedTxq.trans h.lastUsedTxq
  targetTxCredit := h'.targetTxCredit.trans h.targetTxCredit
  groupCredit := h'.groupCredit.trans h.groupCredit

theorem SelectFrame.head (h : SelectFrame p p') (c : Cat) : (p'.cats c).head = (p.cats c).head := by
  rw [h.cats c]

theorem SelectFrame.active (h : SelectFrame p p') (c : Cat) :
    (p'.cats c).active = (p.cats c).active := by
  rw [h.cats c]

theorem selectFrame_setWrr (p : HlPdev) (c : Cat) (n : ℤ) :
    SelectFrame p (p.setCat c { p.cats c with wrrCount := n }) := by
  refine ⟨rfl, rfl, fun x => ?_, .rfl, rfl, rfl, rfl, rfl⟩
  by_cases hx : x = c
  · subst hx
    rw [cats_setCat_self]
  · rw [cats_setCat_of_ne hx]

theorem rotate_perm (order : List Cat) (i : ℕ) : (rotateOrderListTail order i).Perm order := by
  unfold rotateOrderListTail
  split
  · exact .rfl
  · next value hv =>
    obtain ⟨hi, rfl⟩ := List.getElem?_eq_some_iff.1 hv
    have hcomm : (order.eraseIdx i ++ [order[i]]).Perm (order[i] :: order.eraseIdx i) :=
      perm_append_comm
    exact hcomm.trans (getElem_cons_eraseIdx_perm hi)

theorem selectFrame_rotate (p : HlPdev) (i : ℕ) :
    SelectFrame p { p with order := rotateOrderListTail p.order i } :=
  ⟨rfl, rfl, fun _ => rfl, rotate_perm _ _, rfl, rfl, rfl, rfl⟩

theorem selectLoop_frame {fuel index : ℕ} {r : Option (ℕ × Cat)}
    (h : selectLoop p fuel index = some (p', r)) :
    SelectFrame p p' ∧ ∀ i c, r = some (i, c) → (p'.cats c).active = true := by
  induction fuel generalizing p index with
  | zero => cases h
  | succ fuel ih =>
    rw [selectLoop] at h
    split at h
    · cases h
      exact ⟨.refl _, nofun⟩
    · next c hc =>
      split at h
      · next ha =>
        dsimp only at h
        split at h
        · -- skipped
          obtain ⟨hf, hr⟩ := ih h
          exact ⟨((selectFrame_setWrr p c _).trans (selectFrame_rotate _ index)).trans hf, hr⟩
        · -- chosen
          cases h
          refine ⟨selectFrame_setWrr p c _, ?_⟩
          rintro i c' ⟨⟩
          rw [cats_setCat_self]
          exact ha
      · exact ih h

theorem SchedInv.selectFrame (h : SchedInv p) (hf : SelectFrame p p') : SchedInv p' where
  cat c :=
    ⟨by rw [hf.cats c, hf.txqs]; exact (h.cat c).frms,
      by rw [hf.cats c, hf.txqs]; exact (h.cat c).bytes,
      by rw [hf.cats c]; exact (h.cat c).active⟩
  nodup c := by rw [hf.head c]; exact h.nodup c
  mem_head c q := by rw [hf.head c, hf.txqs]; exact h.mem_head c q
  txq q := by rw [hf.txqs]; exact h.txq q

theorem SchedInv.permHead (h : SchedInv p) (c : Cat) {l : List TxqId}
    (hl : l.Perm (p.cats c).head) : SchedInv (p.setCat c { p.cats c with head := l }) := by
  have hne : ∀ x, x ≠ c → (p.setCat c { p.cats c with head := l }).cats x = p.cats x :=
    fun x hx => cats_setCat_of_ne hx
  refine ⟨fun x => ?_, fun x => ?_, fun x q => ?_, h.txq⟩ <;> by_cases hx : x = c
  · subst hx
    have hc := h.cat x
    refine ⟨?_, ?_, ?_⟩ <;> rw [cats_setCat_self]
    · exact hc.frms.trans (tally_perm hl).symm
    · exact hc.bytes.trans (tally_perm hl).symm
    · rw [hc.active, not_iff_not, ← length_eq_zero_iff, ← length_eq_zero_iff, hl.length_eq]
  · exact (h.cat x).congr (hne x hx) fun _ _ => rfl
  · subst hx
    rw [cats_setCat_self]
    exact hl.nodup_iff.2 (h.nodup x)
  · rw [hne x hx]
    exact h.nodup x
  · subst hx
    rw [cats_setCat_self]
    exact hl.mem_iff.trans (h.mem_head x q)
  · rw [hne x hx]
    exact h.mem_head x q

theorem txqs_groupCreditUpdate (txq : TxFrmsQueue) (n : ℤ) :
    (olTxTxqGroupCreditUpdate p txq n).txqs = p.txqs := by
  unfold olTxTxqGroupCreditUpdate
  split <;> rfl

theorem cats_groupCreditUpdate (txq : TxFrmsQueue) (n : ℤ) :
    (olTxTxqGroupCreditUpdate p txq n).cats = p.cats := by
  unfold olTxTxqGroupCreditUpdate
  split <;> rfl

theorem SchedInv.length_split (h : SchedInv p) {moved left : List TxFrm}
    (hl : (p.txqs q).head = moved ++ left) : (p.txqs q).frms = moved.length + left.length := by
  rw [(h.txq q).frms, hl, length_append]

theorem SchedInv.taken (h : SchedInv p) (hq : q ∈ (p.cats (catOf q)).head)
    {moved left : List TxFrm} (hl : (p.txqs q).head = moved ++ left) {st : CatState}
    (ht : p'.txqs = Function.update p.txqs q ((p.txqs q).afterTaking moved left))
    (hc : p'.cats = Function.update p.cats (catOf q) st)
    (hfrms : st.frms = (p.cats (catOf q)).frms - moved.length)
    (hbytes : st.bytes = (p.cats (catOf q)).bytes - bytesOf moved)
    (hnd : st.head.Nodup)
    (hmem : ∀ x, x ≠ q → (x ∈ st.head ↔ x ∈ (p.cats (catOf q)).head))
    (hlinked : q ∈ st.head ↔ left ≠ [])
    (hact : st.active = true ↔ st.frms ≠ 0) : SchedInv p' := by
  have hflag := h.mem_own.1 hq
  have hlen := h.length_split hl
  have hb : (p.txqs q).bytes = bytesOf moved + bytesOf left := by
    rw [(h.txq q).bytes, hl, bytesOf_append]
  refine h.update ht hc hnd hmem ?_ ((h.txq q).left hl) ?_ ?_ hact
  · rw [hlinked]
    cases left <;> simp [hflag]
  · rw [if_pos hq, hfrms]
    cases left with
    | nil =>
      rw [if_neg (by simp [hlinked])]
      simp only [length_nil] at hlen
      omega
    | cons f l =>
      rw [if_pos (by simp [hlinked]), afterTaking_frms]
      omega
  · rw [if_pos hq, hbytes]
    cases left with
    | nil =>
      rw [if_neg (by simp [hlinked])]
      simp only [bytesOf, map_nil, sum_nil] at hb ⊢
      omega
    | cons f l =>
      rw [if_pos (by simp [hlinked]), afterTaking_bytes]
      omega

theorem SchedInv.serveTxq (h : SchedInv p) {rest : List TxqId} (hq : (p.cats c).head = q :: rest)
    (sctx : SchedCtx) (credit : ℕ) : SchedInv (serveTxq p sctx c q rest credit).1 := by
  have hmem : q ∈ (p.cats c).head := hq ▸ mem_cons_self
  obtain ⟨hactive, rfl⟩ := (h.mem_head c q).1 hmem
  have hnd : (q :: rest).Nodup := hq ▸ h.nodup _
  unfold Txrx.serveTxq
  dsimp only
  split
  · obtain ⟨moved, left, hl, hd, -, -⟩ := olTxDequeue_spec (h.txq q).frms sctx.head
      (p.specs (catOf q)).sendLimit
      (olTxTxqGroupCreditLimit p (p.txqs q) credit - (p.specs (catOf q)).creditReserve)
    rw [hd]
    dsimp only
    have hqr := (nodup_cons.1 hnd).1
    have hle := h.frms_le_cat hmem
    have hlen := h.length_split hl
    refine congr (h.taken hmem hl rfl rfl rfl rfl ?_ (fun x hx => ?_) ?_ ?_)
      (txqs_groupCreditUpdate _ _) (cats_groupCreditUpdate _ _)
    · dsimp only
      split
      · have hp : (q :: rest).Perm (rest ++ [q]) := @perm_append_comm _ [q] rest
        exact hp.nodup_iff.1 hnd
      · exact (nodup_cons.1 hnd).2
    · dsimp only
      rw [hq]
      split <;> simp [hx]
    · dsimp only
      split
      · next hpos =>
        exact iff_of_true (by simp) (ne_nil_of_length_pos hpos)
      · next hz =>
        rw [afterTaking_frms] at hz
        exact iff_of_false hqr (not_not.2 (length_eq_zero_iff.1 (by omega)))
    · dsimp only
      rw [h.active_of_mem hmem]
      split_ifs with hpos hz
      · rw [afterTaking_frms] at hpos
        exact iff_of_true rfl (by omega)
      · exact iff_of_false id (not_not.2 hz)
      · exact iff_of_true rfl hz
  · split
    · exact h.permHead _ (by rw [hq])
    · have hp : (rest ++ [q]).Perm (p.cats (catOf q)).head := by
        rw [hq]
        exact perm_append_comm
      have h' := h.permHead (catOf q) hp
      split
      · exact h'.congr rfl rfl
      · exact h'

theorem SchedInv.selectCategory (h : SchedInv p) (sctx : SchedCtx) (index credit : ℕ) :
    SchedInv (selectCategory p sctx index c credit).1 := by
  unfold Txrx.selectCategory
  dsimp only
  split
  · exact h.selectFrame (selectFrame_setWrr p c _)
  · have h' := h.selectFrame (selectFrame_setWrr p c 0)
    split
    · exact h'.congr rfl rfl
    · next q rest hq =>
      apply serveTxq
      · exact h'.congr rfl rfl
      · dsimp only
        rw [cats_setCat_self]
        exact hq

theorem SchedInv.selectBatch (h : SchedInv p) {sctx : SchedCtx} {credit : ℕ}
    {r : HlPdev × SchedCtx × ℕ} (hr : olTxSchedSelectBatch p sctx credit = some r) :
    SchedInv r.1 := by
  obtain ⟨⟨p', choice⟩, hl, hr⟩ := bind_eq_some_iff.1 hr
  have h' := h.selectFrame (selectLoop_frame hl).1
  cases choice with
  | none => cases hr; exact h'
  | some choice => cases hr; exact h'.selectCategory ..

/-! ### The loop ends -/

/-- A skip raises the WRR count of its category, and only so far as the weight allows. -/
theorem skips_lt (hlt : (p.cats c).wrrCount + 1 < (p.specs c).wrrSkipWeight) :
    (∑ x, ((p.specs x).wrrSkipWeight - ((p.setCat c { p.cats c with
        wrrCount := (p.cats c).wrrCount + 1 }).cats x).wrrCount).toNat) <
      ∑ x, ((p.specs x).wrrSkipWeight - (p.cats x).wrrCount).toNat := by
  refine Finset.sum_lt_sum (fun x _ => ?_) ⟨c, Finset.mem_univ c, ?_⟩
  · by_cases hx : x = c
    · subst hx
      rw [cats_setCat_self]
      dsimp only
      omega
    · rw [cats_setCat_of_ne hx]
  · rw [cats_setCat_self]
    dsimp only
    omega

/-- The loop ends within its turns: each goes on to the next place or skips a category, and there are so many of both. -/
theorem selectLoop_isSome {fuel index : ℕ} (hf : selectFuel p index ≤ fuel) :
    (selectLoop p fuel index).isSome := by
  induction fuel generalizing p index with
  | zero => exact absurd hf (by simp [selectFuel])
  | succ fuel ih =>
    rw [selectLoop]
    split
    · rfl
    · next c hc =>
      obtain ⟨hi, -⟩ := List.getElem?_eq_some_iff.1 hc
      unfold selectFuel at hf
      split
      · dsimp only
        split
        · next hskip =>
          rw [cats_setCat_self] at hskip
          have hlen := (rotate_perm p.order index).length_eq
          have hs := skips_lt hskip
          refine ih ?_
          unfold selectFuel
          change (rotateOrderListTail p.order index).length - index + _ + 1 ≤ _
          rw [hlen]
          exact Nat.le_of_lt_succ (by
            have := Nat.add_lt_add_left hs (p.order.length - index)
            exact Nat.lt_of_lt_of_le (Nat.add_lt_add_right this 1) hf)
        · rfl
      · refine ih ?_
        unfold selectFuel
        omega

theorem selectBatch_isSome (sctx : SchedCtx) (credit : ℕ) :
    (olTxSchedSelectBatch p sctx credit).isSome := by
  obtain ⟨⟨p', choice⟩, hl⟩ := isSome_iff_exists.1
    (selectLoop_isSome (le_refl (selectFuel p p.index)))
  simp only [olTxSchedSelectBatch, hl, bind_eq_bind, bind_some]
  cases choice <;> rfl

end Select

/-! ### Discarding -/

section Discard
variable {p : HlPdev} {q : TxqId} {c : Cat}

theorem discardSelectTxq_mem {txQueues : List TxqId}
    (h : olTxSchedDiscardSelectTxq p txQueues = some q) : q ∈ txQueues := by
  suffices hfold : ∀ (l : List TxqId) (best : ℕ × Option TxqId),
      (l.foldl (fun (best : ℕ × Option TxqId) q =>
        if (p.txqs q).frms > best.1 then ((p.txqs q).frms, some q) else best) best).2 = some q →
      best.2 = some q ∨ q ∈ l from
    (hfold txQueues _ h).resolve_left nofun
  intro l
  induction l with
  | nil => exact fun best hb => .inl hb
  | cons x l ih =>
    intro best hb
    rw [foldl_cons] at hb
    rcases ih _ hb with hb | hq
    · split at hb
      · cases hb
        exact .inr mem_cons_self
      · exact .inl hb
    · exact .inr (mem_cons_of_mem x hq)

theorem SchedInv.discardSelect (h : SchedInv p) (frms : ℕ) (txDescs : List TxFrm) (force : Bool) :
    SchedInv (olTxSchedDiscardSelect p frms txDescs force).1 := by
  unfold olTxSchedDiscardSelect
  dsimp only
  split
  · exact h
  · next q hsel =>
    have hmem := discardSelectTxq_mem hsel
    obtain ⟨hactive, hcat⟩ := (h.mem_head _ q).1 hmem
    rw [← hcat] at hmem ⊢
    generalize (if force = true then frms else _) = limit
    obtain ⟨moved, left, hl, hd, -, -⟩ := olTxDequeue_spec (h.txq q).frms txDescs limit 10000
    rw [hd]
    have hlen := h.length_split hl
    have hle := h.frms_le_cat hmem
    have hcats : ∀ txq : TxFrmsQueue, ((p.setTxq q txq).unlink q).cats = Function.update p.cats
        (catOf q) { p.cats (catOf q) with head := (p.cats (catOf q)).head.filter (· ≠ q) } :=
      fun txq => unlink_eq fun x hx => h.notMem_other hx
    unfold olTxSchedTxqDiscard
    rw [txqs_setTxq_self]
    dsimp only
    by_cases hz : ((p.txqs q).afterTaking moved left).frms = 0
    · -- the queue is empty now
      rw [if_pos hz]
      rw [afterTaking_frms] at hz
      simp only [setCat, hcats, update_self, update_idem]
      refine h.taken hmem hl rfl rfl rfl rfl ((h.nodup _).filter _) (fun x hx => ?_) ?_ ?_
      · simp [hx]
      · simpa using length_eq_zero_iff.1 hz
      · rw [h.active_of_mem hmem]
        dsimp only
        split_ifs with hf
        · exact iff_of_false id (not_not.2 hf)
        · exact iff_of_true rfl hf
    · rw [if_neg hz]
      rw [afterTaking_frms] at hz
      refine h.taken hmem hl rfl rfl rfl rfl (h.nodup _) (fun _ _ => Iff.rfl) ?_ ?_
      · exact iff_of_true hmem fun hn => hz (by rw [hn]; rfl)
      · rw [cats_setTxq, h.active_of_mem hmem]
        have hf : ¬ (p.cats (catOf q)).frms - (moved.length : ℤ) = 0 := by omega
        rw [if_neg hf]
        exact iff_of_true rfl hf

/-- What a discard does: it moves frames from the front of one queue to the discard list. -/
structure Discarded (p p' : HlPdev) (txDescs txDescs' : List TxFrm) (n : ℕ) (q : TxqId)
    (moved left : List TxFrm) : Prop where
  mem : ∃ c, q ∈ (p.cats c).head
  split : (p.txqs q).head = moved ++ left
  txqs : p'.txqs = update p.txqs q ((p.txqs q).afterTaking moved left)
  txDescs_eq : txDescs' = txDescs ++ moved
  frames : n = moved.length
  target : p'.targetTxCredit = p.targetTxCredit
  groupCredit : p'.groupCredit = p.groupCredit

theorem txqDiscard_frame (cat : Cat) (frames : ℕ) (bytes : ℤ) :
    (olTxSchedTxqDiscard p q cat frames bytes).txqs = p.txqs ∧
      (olTxSchedTxqDiscard p q cat frames bytes).targetTxCredit = p.targetTxCredit ∧
      (olTxSchedTxqDiscard p q cat frames bytes).groupCredit = p.groupCredit := by
  unfold olTxSchedTxqDiscard
  dsimp only
  split <;> exact ⟨rfl, rfl, rfl⟩

theorem discardSelect_spec (hf : ∀ q, (p.txqs q).frms = (p.txqs q).head.length) (frms : ℕ)
    (txDescs : List TxFrm) (force : Bool) :
    olTxSchedDiscardSelect p frms txDescs force = (p, txDescs, 0) ∨ ∃ q moved left,
      Discarded p (olTxSchedDiscardSelect p frms txDescs force).1 txDescs
        (olTxSchedDiscardSelect p frms txDescs force).2.1
        (olTxSchedDiscardSelect p frms txDescs force).2.2 q moved left := by
  unfold olTxSchedDiscardSelect
  dsimp only
  split
  · exact .inl rfl
  · next q hsel =>
    generalize (if force = true then frms else _) = limit
    obtain ⟨moved, left, hl, hd, -, -⟩ := olTxDequeue_spec (hf q) txDescs limit 10000
    rw [hd]
    obtain ⟨ht, hc, hg⟩ := txqDiscard_frame (p := p.setTxq q ((p.txqs q).afterTaking moved left))
      (q := q) (olTxSchedDiscardSelectCategory p) moved.length (bytesOf moved)
    exact .inr ⟨q, moved, left, ⟨_, discardSelectTxq_mem hsel⟩, hl, ht, rfl, rfl, hc, hg⟩

end Discard

/-! ### The queue operations -/

section Queues
variable {p p' : HlPdev} {q : TxqId}

theorem SchedInv.grow (h : SchedInv p) (hold : (p.txqs q).flag = .active) {txq : TxFrmsQueue}
    (hflag : txq.flag = .active) (htxq : TxqOk txq)
    (ht : p'.txqs = Function.update p.txqs q txq) (len : ℤ)
    (hc : p'.cats = Function.update p.cats (catOf q) { p.cats (catOf q) with
        frms := (p.cats (catOf q)).frms + 1, bytes := (p.cats (catOf q)).bytes + len })
    (hfrms : txq.frms = (p.txqs q).frms + 1) (hbytes : txq.bytes = (p.txqs q).bytes + len) :
    SchedInv p' := by
  have hlinked := h.mem_own.2 hold
  have hpos := h.cat_frms_nonneg (catOf q)
  refine h.update ht hc (h.nodup _) (fun _ _ => Iff.rfl) (iff_of_true hlinked hflag) htxq ?_ ?_
    (iff_of_true (h.active_of_mem hlinked) ?_)
  · rw [if_pos hlinked, if_pos hlinked, hfrms]
    push_cast
    omega
  · rw [if_pos hlinked, if_pos hlinked, hbytes]
    dsimp only
    omega
  · dsimp only
    omega

theorem SchedInv.enqueue (h : SchedInv p) (q : TxqId) (frm : TxFrm) :
    SchedInv (olTxEnqueue p q frm) := by
  obtain ⟨-, hempty, hfrms, hbytes⟩ := h.txq q
  have hlen : (p.txqs q).frms + 1 = ((p.txqs q).head ++ [frm]).length := by
    rw [hfrms, length_append, length_singleton]
  have hsum : (p.txqs q).bytes + frm.len = bytesOf ((p.txqs q).head ++ [frm]) := by
    rw [hbytes, bytesOf_append]
    simp [bytesOf]
  unfold olTxEnqueue
  dsimp only
  cases hflag : (p.txqs q).flag with
  | paused =>
    rw [if_neg (not_not.2 rfl)]
    exact h.setTxq (iff_of_false nofun (by simp [hflag])) nofun ⟨nofun, nofun, hlen, hsum⟩
  | active =>
    rw [if_pos (by simp)]
    refine h.grow hflag ?_ ?_ (update_idem ..) frm.len ?_ ?_ ?_
    · rfl
    · exact ⟨fun _ => succ_pos _, nofun, hlen, hsum⟩
    · simp [olTxSchedTxqEnqueue, setCat, catOf]
    · rfl
    · rfl
  | empty =>
    rw [if_pos (by simp)]
    -- nothing else is in the queue
    have hz := hempty hflag
    have hnil : (p.txqs q).head = [] := length_eq_zero_iff.1 (by omega)
    refine h.link (by simp [hflag]) ?_ ?_ (update_idem ..) ?_
    · rfl
    · exact ⟨fun _ => succ_pos _, nofun, hlen, hsum⟩
    · simp [olTxSchedTxqEnqueue, setCat, catOf, hz, hbytes, hnil, bytesOf]

def TxFrmsQueue.enqueued (txq : TxFrmsQueue) (frm : TxFrm) : TxFrmsQueue :=
  { txq with
    head := txq.head ++ [frm]
    frms := txq.frms + 1
    bytes := txq.bytes + frm.len
    flag := if txq.flag ≠ .paused then .active else txq.flag }

theorem txqs_enqueue (p : HlPdev) (q : TxqId) (frm : TxFrm) : (olTxEnqueue p q frm).txqs =
    update p.txqs q ((p.txqs q).enqueued frm) := by
  unfold olTxEnqueue TxFrmsQueue.enqueued
  dsimp only
  split
  · exact update_idem ..
  · rfl

def TxFrmsQueue.emptied (txq : TxFrmsQueue) : TxFrmsQueue :=
  { txq with
    frms := 0
    bytes := txq.bytes - bytesOf (txq.head.take txq.frms)
    flag := .empty
    head := [] }

theorem txqs_notifyDeactivate (q : TxqId) (tid : ℕ) : (notifyDeactivate p q tid).txqs = p.txqs := by
  unfold notifyDeactivate
  split <;> rfl

theorem txqs_queueFree (p : HlPdev) (q : TxqId) (tid : ℕ) :
    (olTxQueueFree p q tid).1.txqs = update p.txqs q (p.txqs q).emptied := by
  simp [olTxQueueFree, setTxq, txqs_notifyDeactivate, TxFrmsQueue.emptied]

theorem SchedInv.setPaused (h : SchedInv p) (n : ℕ) :
    SchedInv (p.setTxq q { p.txqs q with pausedTotal := n }) :=
  h.setTxq Iff.rfl (fun _ => ⟨rfl, rfl⟩) ⟨(h.txq q).1, (h.txq q).2, (h.txq q).3, (h.txq q).4⟩

theorem SchedInv.pause (h : SchedInv p) (peer tid : ℕ) :
    SchedInv (olTxrxPeerTidPauseBase p peer tid) := by
  unfold olTxrxPeerTidPauseBase
  dsimp only
  have h' := h.setPaused (q := .peer peer tid) (((p.txqs (.peer peer tid)).pausedTotal + 1) % 2 ^ 8)
  have hok := h'.txq (.peer peer tid)
  split
  · unfold notifyDeactivate
    split
    · next ha => exact h'.deactivate ha rfl nofun ⟨nofun, nofun, hok.frms, hok.bytes⟩
    · next ha => exact h'.setTxq (iff_of_false nofun ha) nofun ⟨nofun, nofun, hok.frms, hok.bytes⟩
  · exact h'

theorem SchedInv.queueFree (h : SchedInv p) {tid : ℕ}
    (htid : (p.txqs q).flag = .active → tidToAc tid = catOf q) :
    SchedInv (olTxQueueFree p q tid).1 := by
  have hz : (p.txqs q).bytes - bytesOf ((p.txqs q).head.take (p.txqs q).frms) = bytesOf [] := by
    rw [(h.txq q).frms, take_length, (h.txq q).bytes]
    simp [bytesOf]
  unfold olTxQueueFree notifyDeactivate
  dsimp only
  split
  · next ha => exact h.deactivate ha (htid ha) nofun ⟨nofun, fun _ => rfl, rfl, hz⟩
  · next ha => exact h.setTxq (iff_of_false nofun ha) nofun ⟨nofun, fun _ => rfl, rfl, hz⟩

theorem txqs_notifyUnpause (tid : ℕ) : (notifyUnpause p q tid).txqs = p.txqs := by
  unfold notifyUnpause
  split <;> rfl

theorem cats_txqEnqueue (hna : (p.txqs q).flag ≠ .active) {tid : ℕ} (htid : tidToAc tid = catOf q)
    (frms : ℕ) (bytes : ℤ) : (olTxSchedTxqEnqueue p q tid frms bytes).cats = update p.cats (catOf q)
        { p.cats (catOf q) with
          frms := (p.cats (catOf q)).frms + frms
          bytes := (p.cats (catOf q)).bytes + bytes
          head := (p.cats (catOf q)).head ++ [q]
          active := true } := by
  simp [olTxSchedTxqEnqueue, setCat, htid, if_pos hna]

theorem SchedInv.lastUnpause (h : SchedInv p) (hna : (p.txqs q).flag ≠ .active) {tid : ℕ}
    (htid : tidToAc tid = catOf q) : SchedInv ((notifyUnpause p q tid).setTxq q
      { p.txqs q with flag := if (p.txqs q).frms = 0 then .empty else .active }) := by
  have hok := h.txq q
  by_cases hf : (p.txqs q).frms = 0
  · rw [notifyUnpause, if_neg (not_not.2 hf), if_pos hf]
    exact h.setTxq (iff_of_false nofun hna) nofun ⟨nofun, fun _ => hf, hok.frms, hok.bytes⟩
  · rw [notifyUnpause, if_pos hf, if_neg hf]
    refine h.link hna ?_ ?_ rfl (cats_txqEnqueue hna htid _ _)
    · rfl
    · exact ⟨fun _ => pos_of_ne_zero hf, nofun, hok.frms, hok.bytes⟩

theorem SchedInv.unpause (h : SchedInv p) {peer tid : ℕ}
    (hne : (p.txqs (.peer peer tid)).pausedTotal = 1 → (p.txqs (.peer peer tid)).flag ≠ .active) :
    SchedInv (olTxrxPeerTidUnpauseBase p peer tid) := by
  unfold olTxrxPeerTidUnpauseBase
  dsimp only
  split
  · exact h
  · next hpos =>
    have h' := h.setPaused (q := .peer peer tid) ((p.txqs (.peer peer tid)).pausedTotal - 1)
    split
    · next hlast =>
      rw [txqs_notifyUnpause]
      exact h'.lastUnpause (by simpa using hne (by omega)) rfl
    · exact h'

end Queues

/-! ### The two that do not fit -/

section Defects
variable {p : HlPdev} {q : TxqId}

/-- A linked queue is freed under a TID of another category: its own category goes on counting it. -/
theorem not_accountsOk_queueFree (h : SchedInv p) (hact : (p.txqs q).flag = .active) {tid : ℕ}
    (htid : tidToAc tid ≠ catOf q) : ¬ AccountsOk (olTxQueueFree p q tid).1 := by
  intro hok
  have hq : q ∈ (p.cats (catOf q)).head := h.mem_own.2 hact
  have hpos := h.frms_pos hq
  have hcats : (olTxQueueFree p q tid).1.cats (catOf q) =
      { p.cats (catOf q) with head := (p.cats (catOf q)).head.filter (· ≠ q) } := by
    simp only [olTxQueueFree, notifyDeactivate, if_pos hact, olTxSchedTxqDeactivate, cats_setTxq]
    exact cats_setCat_of_ne htid.symm
  have htxqs : ∀ x ≠ q, (olTxQueueFree p q tid).1.txqs x = p.txqs x := by
    intro x hx
    simp only [olTxQueueFree, notifyDeactivate, if_pos hact]
    exact txqs_setTxq_of_ne hx
  have hfrms := (hok.cat (catOf q)).frms
  rw [hcats] at hfrms
  have hold := (h.cat (catOf q)).frms
  rw [tally_eq_add_filter (h.nodup _) q, if_pos hq] at hold
  have hsame : tally (fun x => (((olTxQueueFree p q tid).1.txqs x).frms : ℤ))
      ((p.cats (catOf q)).head.filter (· ≠ q)) =
      tally (fun x => ((p.txqs x).frms : ℤ)) ((p.cats (catOf q)).head.filter (· ≠ q)) :=
    tally_congr fun x hx => by rw [htxqs x (by simpa using (mem_filter.1 hx).2)]
  dsimp only at hfrms
  rw [hsame, hold] at hfrms
  omega

theorem not_accountsOk_lastUnpause (h : SchedInv p) (hact : (p.txqs q).flag = .active) {tid : ℕ}
    (htid : tidToAc tid = catOf q) : ¬ AccountsOk ((notifyUnpause p q tid).setTxq q
      { p.txqs q with flag := if (p.txqs q).frms = 0 then .empty else .active }) := by
  intro hok
  have hpos := h.frms_pos (h.mem_own.2 hact)
  have hcats : (notifyUnpause p q tid).cats (catOf q) =
      { p.cats (catOf q) with
        frms := (p.cats (catOf q)).frms + (p.txqs q).frms
        bytes := (p.cats (catOf q)).bytes + (p.txqs q).bytes } := by
    simp [notifyUnpause, olTxSchedTxqEnqueue, htid, hact, ne_of_gt hpos]
  have hfrms := (hok.cat (catOf q)).frms
  rw [cats_setTxq, hcats] at hfrms
  have hsame : tally (fun x => ((((notifyUnpause p q tid).setTxq q { p.txqs q with
      flag := if (p.txqs q).frms = 0 then .empty else .active }).txqs x).frms : ℤ))
      (p.cats (catOf q)).head = tally (fun x => ((p.txqs x).frms : ℤ)) (p.cats (catOf q)).head := by
    refine tally_congr fun x _ => ?_
    by_cases hx : x = q
    · subst hx
      rw [txqs_setTxq_self]
    · rw [txqs_setTxq_of_ne hx, txqs_notifyUnpause]
  dsimp only at hfrms
  rw [hsame, ← (h.cat (catOf q)).frms] at hfrms
  omega

theorem not_accountsOk_unpause (h : SchedInv p) {peer tid : ℕ}
    (hlast : (p.txqs (.peer peer tid)).pausedTotal = 1)
    (hact : (p.txqs (.peer peer tid)).flag = .active) :
    ¬ AccountsOk (olTxrxPeerTidUnpauseBase p peer tid) := by
  have h' := h.setPaused (q := .peer peer tid) 0
  have htid : tidToAc tid = catOf (.peer peer tid) := rfl
  have := not_accountsOk_lastUnpause h' (by simpa using hact) htid
  unfold olTxrxPeerTidUnpauseBase
  simpa [hlast, txqs_notifyUnpause] using this

end Defects

/-! ### Runs -/

def TxqId.Valid : TxqId → Prop
  | .peer _ tid => tid < olTxNumTids
  | .vdev _ i => i < olTxVdevNumQueues

instance : DecidablePred TxqId.Valid
  | .peer _ tid => inferInstanceAs (Decidable (tid < olTxNumTids))
  | .vdev _ i => inferInstanceAs (Decidable (i < olTxVdevNumQueues))

/-- The TID that `ol_tx_queue_vdev_flush` frees a queue under. -/
def flushTid : TxqId → ℕ
  | .peer _ tid => tid
  | .vdev _ i =>
    if i = 0 then extTidNonQosMcastBcast
    else if i = 1 then extTidMgmt
    else i + olTxNumTids

/-- What befalls the queues, one critical section of `tx_queue_spinlock` at a time. -/
inductive SchedEvent where
  | enqueue (q : TxqId) (frm : TxFrm)
  | selectInit
  | select (sctx : SchedCtx) (credit : ℕ)
  | discard (frms : ℕ) (txDescs : List TxFrm) (force : Bool)
  | pause (peer tid : ℕ)
  | unpause (peer tid : ℕ)
  /-- `ol_tx_queue_vdev_flush` frees one queue -/
  | flush (q : TxqId)
  /-- `ol_txrx_peer_unref_delete` frees one queue -/
  | peerDelete (peer tid : ℕ)
  /-- `ol_txrx_vdev_detach` frees one queue -/
  | vdevDetach (vdev i : ℕ)
  /-- the target changes a group's credit -/
  | groupCredit (group : ℕ) (credit : ℤ)

def schedStep (p : HlPdev) : SchedEvent → Option HlPdev
  | .enqueue q frm => do guard q.Valid; return olTxEnqueue p q frm
  | .selectInit => some (olTxSchedSelectInit p)
  | .select sctx credit => (olTxSchedSelectBatch p sctx credit).map Prod.fst
  | .discard frms txDescs force => some (olTxSchedDiscardSelect p frms txDescs force).1
  | .pause peer tid => do guard (tid < olTxNumTids); return olTxrxPeerTidPauseBase p peer tid
  | .unpause peer tid => do guard (tid < olTxNumTids); return olTxrxPeerTidUnpauseBase p peer tid
  | .flush q => do guard q.Valid; return (olTxQueueFree p q (flushTid q)).1
  | .peerDelete peer tid => do
    guard (tid < olTxNumTids); return (olTxQueueFree p (.peer peer tid) tid).1
  | .vdevDetach vdev i => do
    guard (i < olTxVdevNumQueues); return (olTxQueueFree p (.vdev vdev i) (i + olTxNumTids)).1
  | .groupCredit group credit =>
    some { p with groupCredit := update p.groupCredit group credit }

def schedMachine : Machine HlPdev SchedEvent where
  init p := ∃ groupPtr specs target groupCredit, p = .attached groupPtr specs target groupCredit
  step := schedStep

/-- A vdev is detached while nothing is linked on its queues, and the last pause of a queue is not removed while the queue is linked, as it is when it was flushed and filled again meanwhile. -/
def SchedEventOk (p : HlPdev) : SchedEvent → Prop
  | .unpause peer tid => (p.txqs (.peer peer tid)).pausedTotal = 1 →
      (p.txqs (.peer peer tid)).flag ≠ .active
  | .vdevDetach vdev i => (p.txqs (.vdev vdev i)).flag ≠ .active
  | _ => True

instance (p : HlPdev) : (e : SchedEvent) → Decidable (SchedEventOk p e)
  | .unpause peer tid => inferInstanceAs (Decidable ((p.txqs (.peer peer tid)).pausedTotal = 1 →
      (p.txqs (.peer peer tid)).flag ≠ .active))
  | .vdevDetach vdev i => inferInstanceAs (Decidable ((p.txqs (.vdev vdev i)).flag ≠ .active))
  | .enqueue _ _ | .selectInit | .select _ _ | .discard _ _ _ | .pause _ _ | .flush _
  | .peerDelete _ _ | .groupCredit _ _ => .isTrue trivial

section Runs
variable {p p' : HlPdev}

theorem schedInv_attached (groupPtr : TxqId → Option ℕ) (specs : Cat → CatSpecs) (target : ℤ)
    (groupCredit : ℕ → ℤ) : SchedInv (.attached groupPtr specs target groupCredit) where
  cat _ := ⟨rfl, rfl, iff_of_false Bool.false_ne_true (not_not.2 rfl)⟩
  nodup _ := nodup_nil
  mem_head _ _ := iff_of_false not_mem_nil nofun
  txq _ := ⟨nofun, fun _ => rfl, rfl, rfl⟩

theorem flushTid_eq {q : TxqId} (hq : q.Valid) : flushTid q = enqueueTid q := by
  cases q with
  | peer peer tid => rfl
  | vdev vdev i =>
    rcases Nat.lt_succ_iff_lt_or_eq.1 (show i < 1 + 1 from hq) with hi | rfl
    · rw [lt_one_iff.1 hi]
      rfl
    · rfl

theorem detachTid_ne {vdev i : ℕ} (hi : i < olTxVdevNumQueues) :
    tidToAc (i + olTxNumTids) ≠ catOf (.vdev vdev i) := by
  rcases Nat.lt_succ_iff_lt_or_eq.1 (show i < 1 + 1 from hi) with hi | rfl
  · rw [lt_one_iff.1 hi]
    exact show tidToAc (0 + olTxNumTids) ≠ tidToAc extTidNonQosMcastBcast by decide
  · exact show tidToAc (1 + olTxNumTids) ≠ tidToAc extTidMgmt by decide

/-- Every step that meets `SchedEventOk` keeps the invariant. -/
theorem SchedInv.step (h : SchedInv p) {e : SchedEvent} (hok : SchedEventOk p e)
    (he : schedStep p e = some p') : SchedInv p' := by
  cases e with
  | enqueue q frm =>
    obtain ⟨-, rfl⟩ := guarded_eq_some.1 he
    exact h.enqueue q frm
  | selectInit => cases he; exact h.congr rfl rfl
  | select sctx credit =>
    obtain ⟨r, hr, rfl⟩ := map_eq_some_iff.1 he
    exact h.selectBatch hr
  | discard frms txDescs force => cases he; exact h.discardSelect frms txDescs force
  | pause peer tid =>
    obtain ⟨-, rfl⟩ := guarded_eq_some.1 he
    exact h.pause peer tid
  | unpause peer tid =>
    obtain ⟨-, rfl⟩ := guarded_eq_some.1 he
    exact h.unpause hok
  | flush q =>
    obtain ⟨hq, rfl⟩ := guarded_eq_some.1 he
    exact h.queueFree fun _ => by rw [flushTid_eq hq]; rfl
  | peerDelete peer tid =>
    obtain ⟨-, rfl⟩ := guarded_eq_some.1 he
    exact h.queueFree fun _ => rfl
  | vdevDetach vdev i =>
    obtain ⟨-, rfl⟩ := guarded_eq_some.1 he
    exact h.queueFree fun ha => absurd ha hok
  | groupCredit group credit => cases he; exact h.congr rfl rfl

theorem SchedInv.not_accountsOk (h : SchedInv p) {e : SchedEvent} (hok : ¬ SchedEventOk p e)
    (he : schedStep p e = some p') : ¬ AccountsOk p' := by
  cases e with
  | unpause peer tid =>
    obtain ⟨-, rfl⟩ := guarded_eq_some.1 he
    obtain ⟨hlast, hact⟩ := Classical.not_imp.1 hok
    exact not_accountsOk_unpause h hlast (not_not.1 hact)
  | vdevDetach vdev i =>
    obtain ⟨hi, rfl⟩ := guarded_eq_some.1 he
    exact not_accountsOk_queueFree h (not_not.1 hok) (detachTid_ne hi)
  | _ => exact absurd trivial hok

theorem schedInv_of_reach (t : schedMachine.Reach SchedEventOk p) : SchedInv p := by
  refine t.invariant SchedInv ?_ fun _ _ _ h hok he => h.step hok he
  rintro _ ⟨groupPtr, specs, target, groupCredit, rfl⟩
  exact schedInv_attached ..

/-- **The accounts are right** in every run whose detaches and unpauses meet `SchedEventOk`, and the first step that does not meet it spoils them. -/
theorem accounts_ok_iff (p : HlPdev) (t : schedMachine.Reach SchedEventOk p) :
    AccountsOk p ∧ ∀ e p', schedStep p e = some p' → (AccountsOk p' ↔ SchedEventOk p e) := by
  have h := schedInv_of_reach t
  refine ⟨h.accountsOk, fun e p' he => ⟨fun ha => ?_, fun hok => (h.step hok he).accountsOk⟩⟩
  by_contra hok
  exact h.not_accountsOk hok he ha

end Runs

/-! ### Two runs -/

/-- The SDIO build's scheduler, with 20 credits and no groups. -/
def sdioPdev : HlPdev := .attached (fun _ => none) sdioSpecs 20 fun _ => 0

theorem sdioPdev_init : schedMachine.init sdioPdev := ⟨_, _, _, _, rfl⟩

/-- Frames to a peer and to all, a pause that is served, and the vdev flushed before it goes. -/
def flushedFirst : List SchedEvent :=
  [.enqueue (.peer 0 0) ⟨0, 100, 1⟩, .enqueue (.vdev 0 0) ⟨1, 60, 1⟩, .pause 0 0,
    .enqueue (.peer 0 0) ⟨2, 100, 1⟩, .unpause 0 0, .selectInit, .select ⟨0, []⟩ 20,
    .enqueue (.peer 0 6) ⟨3, 80, 1⟩, .flush (.vdev 0 0), .flush (.peer 0 6),
    .vdevDetach 0 0, .peerDelete 0 0]

theorem accounts_ok_flushedFirst : ∃ p, schedMachine.run sdioPdev flushedFirst = some p ∧
    AccountsOk p ∧ ∀ e p', schedStep p e = some p' → (AccountsOk p' ↔ SchedEventOk p e) := by
  have hrun : (schedMachine.run sdioPdev flushedFirst).isSome := by decide
  obtain ⟨p, hp⟩ := isSome_iff_exists.1 hrun
  refine ⟨p, hp, accounts_ok_iff p ?_⟩
  have halong : schedMachine.Along SchedEventOk sdioPdev flushedFirst := by decide
  exact Machine.Reach.run (.start sdioPdev_init) halong hp

/-- A multicast frame waits in the vdev's queue when the vdev is detached: its category keeps counting the frame that was freed, and another is counted down below none. -/
theorem vdevDetach_miscounts : ∃ p,
    schedMachine.run sdioPdev [.enqueue (.vdev 0 0) ⟨1, 60, 1⟩, .vdevDetach 0 0] = some p ∧
      (p.cats 4).frms = 1 ∧ (p.cats 4).head = [] ∧ (p.cats 6).frms = -1 ∧ ¬ AccountsOk p := by
  refine ⟨_, rfl, by decide, by decide, by decide, fun h => ?_⟩
  have := (h.cat 4).frms
  contradiction

end Qcacld.Txrx

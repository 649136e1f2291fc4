import Qcacld.Txrx.TxWakeup

/-!
# Txrx — TxWrr

The turns of the weighted round robin.  A category that is active when the loop of `ol_tx_sched_select_batch_wrr_adv` comes to it is skipped until its count reaches its weight; then it has its turn, or is refused for lack of credit and keeps its count.

A log of what the loop does with the categories it examines is kept beside the scheduler.  Each count is the number of skips since the last turn, so that a skip that happens is within the weight: `wrr_selection`, in every run of the scheduler's events from any state with a full order list.
-/

namespace Qcacld.Txrx
open Qcacld.Support Function List Option Nat

/-- What the loop does with a category it examines.  The weight is the one it has then. -/
inductive WrrExam where
  | skip (c : Cat) (weight : Int)
  | refused (c : Cat)
  | turn (c : Cat)
deriving DecidableEq

open WrrExam

def selectSkips (p : HlPdev) : Nat → Nat → List WrrExam
  | 0, _ => []
  | fuel + 1, index =>
    match p.order[index]? with
    | none => []
    | some c =>
      if (p.cats c).active then
        let p := p.setCat c { p.cats c with wrrCount := (p.cats c).wrrCount + 1 }
        if (p.cats c).wrrCount < (p.specs c).wrrSkipWeight then
          .skip c (p.specs c).wrrSkipWeight ::
            selectSkips { p with order := rotateOrderListTail p.order index } fuel index
        else []
      else selectSkips p fuel (index + 1)

def chosenExam (p : HlPdev) (credit : Nat) : Option (Nat × Cat) → List WrrExam
  | none => []
  | some (_, c) => if credit < (p.specs c).creditThreshold then [.refused c] else [.turn c]

/-- The log of `ol_tx_sched_select_batch_wrr_adv`. -/
def selectExams (p : HlPdev) (credit : Nat) : List WrrExam :=
  let fuel := selectFuel p p.index
  selectSkips p fuel p.index ++
    match selectLoop p fuel p.index with
    | none => []
    | some (p, choice) => chosenExam p credit choice

structure WrrSched where
  pdev : HlPdev
  exams : List WrrExam

/-- An event of the scheduler, or other specs, as `ol_txrx_set_wmm_param` gives them. -/
inductive WrrEvent where
  | sched (e : SchedEvent)
  | setSpecs (specs : Cat → CatSpecs)

def wrrStep (s : WrrSched) : WrrEvent → Option WrrSched
  | .sched e => do
    let pdev ← schedStep s.pdev e
    return {
      pdev := pdev
      exams := match e with
        | .select _ credit => s.exams ++ selectExams s.pdev credit
        | _ => s.exams }
  | .setSpecs specs => some { s with pdev := { s.pdev with specs := specs } }

def OrderFull (p : HlPdev) : Prop := p.order.Perm (List.finRange 8)
deriving Decidable

/-- The scheduler from a state on, whatever its counts, weights, flags and index are. -/
def wrrMachine (p : HlPdev) : Machine WrrSched WrrEvent where
  init s := s = ⟨p, []⟩
  step := wrrStep

/-! ### What is claimed -/

/-- The skips of a category since its last turn, if it has had one. -/
def sinceTurn (c : Cat) (exams : List WrrExam) : Option Nat :=
  exams.foldl (fun n e => match e with
    | .turn x => if x = c then some 0 else n
    | .skip x _ => if x = c then n.map (· + 1) else n
    | .refused _ => n) none

/-- **Few skips**: with each that there is, those since the last turn are fewer than the weight. -/
def SkipsBounded (exams : List WrrExam) : Prop :=
  ∀ pre c weight post, exams = pre ++ .skip c weight :: post →
    ∀ n ∈ sinceTurn c pre, (n : Int) + 1 ≤ weight - 1

def skipsOf (c : Cat) (exams : List WrrExam) : Nat :=
  exams.countP fun e => match e with
    | .skip x _ => x = c
    | _ => false

/-- **A right call**: it returns, the order list is still full, it chooses an active category if one stands at the index or behind it, and it counts the skips, from zero on after a turn.  To be refused does not count. -/
structure SelectRight (p : HlPdev) (credit : Nat) (r : HlPdev) : Prop where
  order : OrderFull r
  chooses : (∃ c ∈ p.order.drop p.index, (p.cats c).active = true) → ∃ c, (p.cats c).active = true ∧
      (.turn c ∈ selectExams p credit ∨ .refused c ∈ selectExams p credit)
  count : ∀ c, (r.cats c).wrrCount = if .turn c ∈ selectExams p credit then 0
    else (p.cats c).wrrCount + skipsOf c (selectExams p credit)

/-! ### The log -/

section
variable {c : Cat} {exams l : List WrrExam}

@[simp]
theorem sinceTurn_turn (c : Cat) : sinceTurn c (exams ++ [.turn c]) = some 0 := by
  simp [sinceTurn]

theorem sinceTurn_turn_of_ne {x : Cat} (h : x ≠ c) :
    sinceTurn c (exams ++ [.turn x]) = sinceTurn c exams := by
  simp [sinceTurn, h]

@[simp]
theorem sinceTurn_refused (x : Cat) : sinceTurn c (exams ++ [.refused x]) = sinceTurn c exams := by
  simp [sinceTurn]

@[simp]
theorem sinceTurn_skip (weight : ℤ) :
    sinceTurn c (exams ++ [.skip c weight]) = (sinceTurn c exams).map (· + 1) := by
  simp [sinceTurn]

theorem sinceTurn_skip_of_ne {x : Cat} (h : x ≠ c) (weight : ℤ) :
    sinceTurn c (exams ++ [.skip x weight]) = sinceTurn c exams := by
  simp [sinceTurn, h]

theorem SkipsBounded.concat (h : SkipsBounded exams) {e : WrrExam}
    (he : ∀ c weight, e = .skip c weight → ∀ n ∈ sinceTurn c exams, (n : ℤ) + 1 ≤ weight - 1) :
    SkipsBounded (exams ++ [e]) := by
  intro pre c weight post heq n hn
  rcases eq_nil_or_concat post with rfl | ⟨post, e', rfl⟩
  · obtain ⟨rfl, hx⟩ := append_inj' heq rfl
    exact he c weight (singleton_inj.1 hx) n hn
  · rw [concat_eq_append, ← cons_append, ← append_assoc] at heq
    obtain ⟨rfl, -⟩ := append_inj' heq rfl
    exact h pre c weight post rfl n hn

end

/-! ### What the loop logs -/

section Loop
variable {p p' : HlPdev} {c : Cat} {fuel index : ℕ} {choice : Option (ℕ × Cat)}

theorem skipsOf_skip_self (weight : ℤ) (exams : List WrrExam) :
    skipsOf c (.skip c weight :: exams) = skipsOf c exams + 1 := by
  simp [skipsOf]

theorem skipsOf_skip_of_ne {x : Cat} (h : x ≠ c) (weight : ℤ) (exams : List WrrExam) :
    skipsOf c (.skip x weight :: exams) = skipsOf c exams := by
  simp [skipsOf, h]

theorem selectLoop_wrrCount (h : selectLoop p fuel index = some (p', choice)) (x : Cat) :
    (p'.cats x).wrrCount = (p.cats x).wrrCount + skipsOf x (selectSkips p fuel index) +
      if choice.map Prod.snd = some x then 1 else 0 := by
  induction fuel generalizing p index with
  | zero => cases h
  | succ fuel ih =>
    rw [selectLoop] at h
    rw [selectSkips]
    split at h
    · cases h
      simp [skipsOf, *]
    · next c hc =>
      simp only [hc]
      split at h
      · next ha =>
        dsimp only at h
        rw [if_pos ha]
        split at h
        · next hlt =>
          rw [if_pos hlt, ih h]
          change (((p.setCat c _).cats x).wrrCount + _) + _ = _
          by_cases hx : c = x
          · subst hx
            rw [cats_setCat_self, skipsOf_skip_self]
            dsimp only
            omega
          · rw [cats_setCat_of_ne (Ne.symm hx), skipsOf_skip_of_ne hx]
        · next hge =>
          cases h
          rw [if_neg hge]
          by_cases hx : c = x
          · subst hx
            simp [cats_setCat_self, skipsOf]
          · simp [cats_setCat_of_ne (Ne.symm hx), skipsOf, hx]
      · next ha => rw [if_neg ha, ih h]

theorem mem_selectSkips {e : WrrExam} (h : e ∈ selectSkips p fuel index) :
    ∃ c weight, e = .skip c weight := by
  induction fuel generalizing p index with
  | zero => cases h
  | succ fuel ih =>
    rw [selectSkips] at h
    split at h
    · cases h
    · next c _ =>
      split at h
      · dsimp only at h
        split at h
        · rcases mem_cons.1 h with rfl | h
          · exact ⟨c, _, rfl⟩
          · exact ih h
        · cases h
      · exact ih h

theorem sinceTurn_append_skips {exams l : List WrrExam}
    (hl : ∀ e ∈ l, ∃ c weight, e = WrrExam.skip c weight) :
    sinceTurn c (exams ++ l) = (sinceTurn c exams).map (· + skipsOf c l) := by
  induction l generalizing exams with
  | nil => simp [skipsOf]
  | cons e l ih =>
    obtain ⟨x, weight, rfl⟩ := hl e (by simp)
    rw [← singleton_append, ← append_assoc,
      ih fun e he => hl e (mem_cons_of_mem _ he), singleton_append]
    by_cases hx : x = c
    · subst hx
      rw [sinceTurn_skip, skipsOf_skip_self, Option.map_map]
      congr 1
      funext n
      simp only [comp_apply]
      omega
    · rw [sinceTurn_skip_of_ne hx, skipsOf_skip_of_ne hx]

/-- Every count is the number of skips since the turn, for a category that has had one. -/
def Counted (p : HlPdev) (exams : List WrrExam) : Prop :=
  ∀ c, ∀ n ∈ sinceTurn c exams, (p.cats c).wrrCount = n

/-- A category is skipped only while its count, and so the skips since its turn, is below the weight. -/
theorem SkipsBounded.loop {exams : List WrrExam} (hb : SkipsBounded exams)
    (hc : Counted p exams) : SkipsBounded (exams ++ selectSkips p fuel index) := by
  induction fuel generalizing p index exams with
  | zero => simpa [selectSkips] using hb
  | succ fuel ih =>
    rw [selectSkips]
    split
    · simpa using hb
    · next c _ =>
      split
      · dsimp only
        split
        · next hlt =>
          rw [cats_setCat_self] at hlt
          rw [← singleton_append, ← append_assoc]
          refine ih (hb.concat ?_) ?_
          · rintro c weight ⟨⟩ n hn
            have := hc c n hn
            simp only [HlPdev.setCat] at hlt ⊢
            omega
          · intro x n hn
            change ((p.setCat c _).cats x).wrrCount = _
            by_cases hx : c = x
            · subst hx
              rw [sinceTurn_skip, Option.mem_map] at hn
              obtain ⟨n, hn, rfl⟩ := hn
              rw [cats_setCat_self, cast_add, ← hc c n hn, cast_one]
            · rw [sinceTurn_skip_of_ne hx] at hn
              rw [cats_setCat_of_ne (Ne.symm hx)]
              exact hc x n hn
        · simpa using hb
      · exact ih hb hc

end Loop

/-! ### A call -/

section Call
variable {p p' p'' : HlPdev}

/-- The order list and the counts are left alone. -/
structure WrrKept (p p' : HlPdev) : Prop where
  order : p'.order = p.order
  count : ∀ c, (p'.cats c).wrrCount = (p.cats c).wrrCount

theorem WrrKept.refl (p : HlPdev) : WrrKept p p := ⟨rfl, fun _ => rfl⟩

theorem WrrKept.trans (h : WrrKept p p') (h' : WrrKept p' p'') : WrrKept p p'' :=
  ⟨h'.order.trans h.order, fun c => (h'.count c).trans (h.count c)⟩

theorem wrrKept_setTxq (p : HlPdev) (q : TxqId) (txq : TxFrmsQueue) : WrrKept p (p.setTxq q txq) :=
  ⟨rfl, fun _ => rfl⟩

theorem wrrKept_unlink (p : HlPdev) (q : TxqId) : WrrKept p (p.unlink q) := ⟨rfl, fun _ => rfl⟩

theorem WrrKept.congr (h : WrrKept p p') (ho : p''.order = p'.order) (hc : p''.cats = p'.cats) :
    WrrKept p p'' :=
  ⟨ho.trans h.order, fun c => by rw [hc, h.count]⟩

theorem wrrKept_setCat {c : Cat} {st : CatState} (h : st.wrrCount = (p.cats c).wrrCount) :
    WrrKept p (p.setCat c st) := by
  refine ⟨rfl, fun x => ?_⟩
  by_cases hx : x = c
  · subst hx
    rw [cats_setCat_self, h]
  · rw [cats_setCat_of_ne hx]

theorem wrrKept_groupCreditUpdate (p : HlPdev) (txq : TxFrmsQueue) (k : ℤ) :
    WrrKept p (olTxTxqGroupCreditUpdate p txq k) := by
  unfold olTxTxqGroupCreditUpdate
  split
  · exact .refl p
  · exact ⟨rfl, fun _ => rfl⟩

theorem wrrKept_serveTxq (p : HlPdev) (sctx : SchedCtx) (c : Cat) (q : TxqId) (rest : List TxqId)
    (credit : ℕ) : WrrKept p (serveTxq p sctx c q rest credit).1 := by
  unfold serveTxq
  dsimp only
  split
  · refine .trans ?_ (wrrKept_groupCreditUpdate _ _ _)
    refine .congr (wrrKept_setCat ?_) rfl rfl
    rfl
  · split
    · exact wrrKept_setCat rfl
    · split
      · refine .congr (wrrKept_setCat ?_) rfl rfl
        rfl
      · exact wrrKept_setCat rfl

theorem selectCategory_wrrCount (p : HlPdev) (sctx : SchedCtx) (index : ℕ) (c : Cat) (credit : ℕ)
    (x : Cat) : ((selectCategory p sctx index c credit).1.cats x).wrrCount =
      if x = c then
        if credit < (p.specs c).creditThreshold then (p.cats c).wrrCount - 1 else 0
      else (p.cats x).wrrCount := by
  unfold selectCategory
  dsimp only
  split
  · by_cases hx : x = c
    · subst hx
      rw [cats_setCat_self, if_pos rfl]
    · rw [cats_setCat_of_ne hx, if_neg hx]
  · have hset : (({ p.setCat c { p.cats c with wrrCount := 0 } with
        order := rotateOrderListTail p.order index, index := index } : HlPdev).cats x).wrrCount =
        if x = c then 0 else (p.cats x).wrrCount := by
      change ((p.setCat c { p.cats c with wrrCount := 0 }).cats x).wrrCount = _
      by_cases hx : x = c
      · subst hx
        rw [cats_setCat_self, if_pos rfl]
      · rw [cats_setCat_of_ne hx, if_neg hx]
    split
    · exact hset
    · exact ((wrrKept_serveTxq ..).count x).trans hset

theorem selectCategory_order (p : HlPdev) (sctx : SchedCtx) (index : ℕ) (c : Cat) (credit : ℕ) :
    (selectCategory p sctx index c credit).1.order.Perm p.order := by
  unfold selectCategory
  dsimp only
  split
  · exact .rfl
  · split
    · exact rotate_perm ..
    · rw [(wrrKept_serveTxq ..).order]
      exact rotate_perm ..

theorem selectBatch_exams (p : HlPdev) (sctx : SchedCtx) (credit : ℕ) :
    ∃ p' choice r, selectLoop p (selectFuel p p.index) p.index = some (p', choice) ∧
      olTxSchedSelectBatch p sctx credit = some r ∧
      r = (match choice with
        | none => (p', sctx, 0)
        | some (index, c) => selectCategory p' sctx index c credit) ∧
      selectExams p credit =
        selectSkips p (selectFuel p p.index) p.index ++ chosenExam p' credit choice := by
  obtain ⟨⟨p', choice⟩, hl⟩ := isSome_iff_exists.1
    (selectLoop_isSome (le_refl (selectFuel p p.index)))
  refine ⟨p', choice, _, hl, ?_, rfl, ?_⟩
  · simp only [olTxSchedSelectBatch, hl, bind_eq_bind, bind_some]
    cases choice <;> rfl
  · rw [selectExams, hl]

theorem skipsOf_append (x : Cat) (l l' : List WrrExam) :
    skipsOf x (l ++ l') = skipsOf x l + skipsOf x l' :=
  countP_append

/-- **A call of the selection.** -/
theorem selectBatch_right (hp : OrderFull p) (credit : ℕ) (sctx : SchedCtx) :
    ∃ r, olTxSchedSelectBatch p sctx credit = some r ∧ SelectRight p credit r.1 := by
  obtain ⟨p', choice, r, hl, hr, rfl, hex⟩ := selectBatch_exams p sctx credit
  refine ⟨_, hr, ?_⟩
  obtain ⟨hframe, hactive⟩ := selectLoop_frame hl
  obtain ⟨-, hnone⟩ := selectLoop_turn (hp.nodup_iff.2 (nodup_finRange 8)) hl
  have hcount := selectLoop_wrrCount hl
  have hskips : ∀ c, .turn c ∉ selectSkips p (selectFuel p p.index) p.index := by
    intro c hc
    obtain ⟨_, _, h⟩ := mem_selectSkips hc
    cases h
  cases choice with
  | none =>
    refine ⟨hframe.order.trans hp, ?_, fun c => ?_⟩
    · rintro ⟨c, hc, ha⟩
      exact absurd ha (hnone rfl c hc)
    · rw [hex, chosenExam, append_nil, if_neg (hskips c), hcount]
      simp
  | some choice =>
    obtain ⟨index, c⟩ := choice
    refine ⟨(selectCategory_order ..).trans (hframe.order.trans hp), fun _ => ⟨c, ?_, ?_⟩,
      fun x => ?_⟩
    · rw [← hframe.active]
      exact hactive index c rfl
    · rw [hex, chosenExam]
      split <;> simp
    · rw [hex, selectCategory_wrrCount, skipsOf_append, chosenExam]
      have hx := hcount x
      simp only [mem_append, hskips, false_or, map_some, some_inj] at hx ⊢
      by_cases hcredit : credit < (p'.specs c).creditThreshold
      · -- refused: the count goes back to the skips
        have hno : skipsOf x [.refused c] = 0 := rfl
        have hturn : turn x ∉ [refused c] := by simp
        rw [if_pos hcredit, if_pos hcredit, if_neg hturn, hno, add_zero]
        by_cases hc : c = x
        · subst hc
          rw [if_pos rfl] at hx ⊢
          omega
        · rw [if_neg hc] at hx
          rw [if_neg (Ne.symm hc)]
          omega
      · have hno : skipsOf x [.turn c] = 0 := rfl
        rw [if_neg hcredit, if_neg hcredit, hno, add_zero]
        by_cases hc : c = x
        · subst hc
          have hturn : turn c ∈ [turn c] := by simp
          rw [if_pos rfl, if_pos hturn]
        · have hturn : turn x ∉ [turn c] := by simpa using Ne.symm hc
          rw [if_neg hc] at hx
          rw [if_neg (Ne.symm hc), if_neg hturn]
          omega

theorem selectBatch_logged {exams : List WrrExam} (hb : SkipsBounded exams)
    (hc : Counted p exams) (credit : ℕ) : SkipsBounded (exams ++ selectExams p credit) ∧
      ∀ c, sinceTurn c (exams ++ selectExams p credit) =
        if .turn c ∈ selectExams p credit then some 0
        else (sinceTurn c exams).map (· + skipsOf c (selectExams p credit)) := by
  obtain ⟨p', choice, -, -, -, -, hex⟩ := selectBatch_exams p ⟨0, []⟩ credit
  have hskips : ∀ e ∈ selectSkips p (selectFuel p p.index) p.index,
      ∃ c weight, e = skip c weight := fun _ => mem_selectSkips
  have hloop : SkipsBounded (exams ++ selectSkips p (selectFuel p p.index) p.index) := hb.loop hc
  have hnot : ∀ c, .turn c ∉ selectSkips p (selectFuel p p.index) p.index := fun c h => by
    obtain ⟨_, _, h⟩ := hskips _ h
    cases h
  have hsince : ∀ c, sinceTurn c (exams ++ selectSkips p (selectFuel p p.index) p.index) =
      (sinceTurn c exams).map (· + skipsOf c (selectSkips p (selectFuel p p.index) p.index)) :=
    fun c => sinceTurn_append_skips hskips
  rw [hex, ← append_assoc]
  generalize selectSkips p (selectFuel p p.index) p.index = skips at *
  cases choice with
  | none => simpa [chosenExam, hnot] using ⟨hloop, hsince⟩
  | some choice =>
    obtain ⟨index, c⟩ := choice
    rw [chosenExam]
    split
    · refine ⟨hloop.concat nofun, fun x => ?_⟩
      rw [sinceTurn_refused, hsince, if_neg (by simpa using hnot x), skipsOf_append]
      rfl
    · refine ⟨hloop.concat nofun, fun x => ?_⟩
      by_cases hx : c = x
      · subst hx
        rw [sinceTurn_turn, if_pos (by simp)]
      · rw [sinceTurn_turn_of_ne hx, hsince,
          if_neg (by simpa [Ne.symm hx] using hnot x), skipsOf_append]
        rfl

end Call

/-! ### The other events -/

section Step
variable {p p' : HlPdev} {s s' : WrrSched}

theorem wrrKept_txqEnqueue (p : HlPdev) (q : TxqId) (tid frms : ℕ) (bytes : ℤ) :
    WrrKept p (olTxSchedTxqEnqueue p q tid frms bytes) := by
  unfold olTxSchedTxqEnqueue
  refine wrrKept_setCat ?_
  split <;> rfl

theorem wrrKept_enqueue (p : HlPdev) (q : TxqId) (frm : TxFrm) :
    WrrKept p (olTxEnqueue p q frm) := by
  unfold olTxEnqueue
  dsimp only
  split
  · exact ((wrrKept_setTxq ..).trans (wrrKept_txqEnqueue ..)).trans (wrrKept_setTxq ..)
  · exact wrrKept_setTxq ..

theorem wrrKept_notifyDeactivate (p : HlPdev) (q : TxqId) (tid : ℕ) :
    WrrKept p (notifyDeactivate p q tid) := by
  unfold notifyDeactivate
  split
  · exact (wrrKept_unlink p q).trans (wrrKept_setCat rfl)
  · exact .refl p

theorem wrrKept_queueFree (p : HlPdev) (q : TxqId) (tid : ℕ) :
    WrrKept p (olTxQueueFree p q tid).1 :=
  (wrrKept_notifyDeactivate p q tid).trans (wrrKept_setTxq ..)

theorem wrrKept_pauseBase (p : HlPdev) (peer tid : ℕ) :
    WrrKept p (olTxrxPeerTidPauseBase p peer tid) := by
  unfold olTxrxPeerTidPauseBase
  dsimp only
  split
  · exact ((wrrKept_setTxq ..).trans (wrrKept_notifyDeactivate ..)).trans (wrrKept_setTxq ..)
  · exact wrrKept_setTxq ..

theorem wrrKept_notifyUnpause (p : HlPdev) (q : TxqId) (tid : ℕ) :
    WrrKept p (notifyUnpause p q tid) := by
  unfold notifyUnpause
  split
  · exact wrrKept_txqEnqueue ..
  · exact .refl p

theorem wrrKept_unpauseBase (p : HlPdev) (peer tid : ℕ) :
    WrrKept p (olTxrxPeerTidUnpauseBase p peer tid) := by
  unfold olTxrxPeerTidUnpauseBase
  dsimp only
  split
  · exact .refl p
  · split
    · exact ((wrrKept_setTxq ..).trans (wrrKept_notifyUnpause ..)).trans (wrrKept_setTxq ..)
    · exact wrrKept_setTxq ..

theorem wrrKept_txqDiscard (p : HlPdev) (q : TxqId) (cat : Cat) (frames : ℕ) (bytes : ℤ) :
    WrrKept p (olTxSchedTxqDiscard p q cat frames bytes) := by
  unfold olTxSchedTxqDiscard
  dsimp only
  split
  · exact (wrrKept_unlink p q).trans (wrrKept_setCat rfl)
  · exact wrrKept_setCat rfl

theorem wrrKept_discardSelect (p : HlPdev) (frms : ℕ) (txDescs : List TxFrm) (force : Bool) :
    WrrKept p (olTxSchedDiscardSelect p frms txDescs force).1 := by
  unfold olTxSchedDiscardSelect
  dsimp only
  split
  · exact .refl p
  · exact (wrrKept_setTxq ..).trans (wrrKept_txqDiscard ..)

theorem schedStep_wrrKept {e : SchedEvent} (he : ∀ sctx credit, e ≠ .select sctx credit)
    (h : schedStep p e = some p') : WrrKept p p' := by
  cases e with
  | select sctx credit => exact absurd rfl (he sctx credit)
  | enqueue q frm =>
    obtain ⟨-, rfl⟩ := guarded_eq_some.1 h
    exact wrrKept_enqueue ..
  | selectInit =>
    cases h
    exact .congr (.refl p) rfl rfl
  | discard frms txDescs force =>
    cases h
    exact wrrKept_discardSelect ..
  | pause peer tid =>
    obtain ⟨-, rfl⟩ := guarded_eq_some.1 h
    exact wrrKept_pauseBase ..
  | unpause peer tid =>
    obtain ⟨-, rfl⟩ := guarded_eq_some.1 h
    exact wrrKept_unpauseBase ..
  | flush q =>
    obtain ⟨-, rfl⟩ := guarded_eq_some.1 h
    exact wrrKept_queueFree ..
  | peerDelete peer tid =>
    obtain ⟨-, rfl⟩ := guarded_eq_some.1 h
    exact wrrKept_queueFree ..
  | vdevDetach vdev i =>
    obtain ⟨-, rfl⟩ := guarded_eq_some.1 h
    exact wrrKept_queueFree ..
  | groupCredit group credit =>
    cases h
    exact .congr (.refl p) rfl rfl

/-- What holds in every run: the counts are the skips since the turns. -/
structure WrrInv (s : WrrSched) : Prop where
  order : OrderFull s.pdev
  counted : Counted s.pdev s.exams
  bounded : SkipsBounded s.exams

theorem WrrInv.kept (h : WrrInv s) (hk : WrrKept s.pdev p') : WrrInv ⟨p', s.exams⟩ where
  order := by
    unfold OrderFull
    rw [hk.order]
    exact h.order
  counted c n hn := (hk.count c).trans (h.counted c n hn)
  bounded := h.bounded

theorem WrrInv.select (h : WrrInv s) {sctx : SchedCtx} {credit : ℕ}
    (hp : schedStep s.pdev (.select sctx credit) = some p') :
    WrrInv ⟨p', s.exams ++ selectExams s.pdev credit⟩ := by
  obtain ⟨r, hr, hright⟩ := selectBatch_right h.order credit sctx
  obtain rfl : r.1 = p' := by simpa [schedStep, hr] using hp
  obtain ⟨hbounded, hsince⟩ := selectBatch_logged h.bounded h.counted credit
  refine ⟨hright.order, fun c n hn => ?_, hbounded⟩
  change n ∈ sinceTurn c (s.exams ++ selectExams s.pdev credit) at hn
  rw [hsince c] at hn
  rw [hright.count c]
  split at hn
  · next hturn =>
    obtain rfl : 0 = n := some_inj.1 hn
    rw [if_pos hturn, cast_zero]
  · next hturn =>
    obtain ⟨m, hm, rfl⟩ := mem_map.1 hn
    rw [if_neg hturn, h.counted c m hm, cast_add]

theorem WrrInv.step (h : WrrInv s) {e : WrrEvent} (hs : wrrStep s e = some s') : WrrInv s' := by
  cases e with
  | setSpecs specs =>
    cases hs
    exact h.kept (.congr (.refl s.pdev) rfl rfl)
  | sched e =>
    simp only [wrrStep, bind_eq_bind, bind_eq_some_iff] at hs
    obtain ⟨p', hp, hs⟩ := hs
    cases hs
    by_cases he : ∃ sctx credit, e = .select sctx credit
    · obtain ⟨sctx, credit, rfl⟩ := he
      exact h.select hp
    · have hne : ∀ sctx credit, e ≠ .select sctx credit := fun sctx credit heq =>
        he ⟨sctx, credit, heq⟩
      have hk := h.kept (schedStep_wrrKept hne hp)
      cases e with
      | select sctx credit => exact absurd rfl (hne sctx credit)
      | _ => exact hk

end Step

/-- **Each category has its turn**: from any state with a full order list, whatever the counts, the weights, the active flags and the index are, a call of the selection returns and is right; and in every run from there on the order list stays full, and a category is skipped less often than its weight between its turns. -/
theorem wrr_selection (p : HlPdev) (hp : OrderFull p) :
    (∀ sctx credit, ∃ r, olTxSchedSelectBatch p sctx credit = some r ∧ SelectRight p credit r.1) ∧
    ∀ s, (wrrMachine p).Reach (fun _ _ => True) s → OrderFull s.pdev ∧ SkipsBounded s.exams := by
  refine ⟨fun sctx credit => selectBatch_right hp credit sctx, fun s t => ?_⟩
  have hinv : WrrInv s := by
    refine t.invariant WrrInv (fun s h => ?_) fun s e s' h _ => h.step
    cases h
    refine ⟨hp, fun c n hn => ?_, fun pre c weight post h => ?_⟩
    · cases hn
    · simp at h
  exact ⟨hinv.order, hinv.bounded⟩

/-! ### A run -/

/-- Video, of weight 3, and voice, of weight 1, have frames all the time. -/
def videoAndVoice : List WrrEvent :=
  List.replicate 4 (.sched (.enqueue (.peer 0 4) ⟨0, 80, 10⟩)) ++
    List.replicate 4 (.sched (.enqueue (.peer 0 6) ⟨1, 80, 15⟩)) ++
    (List.replicate 5 [.sched .selectInit, .sched (.select ⟨0, []⟩ 20)]).flatten ++
    -- too little credit for voice
    [.sched .selectInit, .sched (.select ⟨0, []⟩ 6)]

theorem wrr_selection_videoAndVoice : ∃ s,
    (wrrMachine sdioPdev).run ⟨sdioPdev, []⟩ videoAndVoice = some s ∧
      s.exams = [.turn 2, .turn 3, .skip 2 3, .turn 3, .skip 2 3, .turn 3, .turn 2, .refused 3] ∧
      OrderFull s.pdev ∧ SkipsBounded s.exams := by
  obtain ⟨s, hs, hexams⟩ : ∃ s, (wrrMachine sdioPdev).run ⟨sdioPdev, []⟩ videoAndVoice = some s ∧
      s.exams = [.turn 2, .turn 3, .skip 2 3, .turn 3, .skip 2 3, .turn 3, .turn 2, .refused 3] :=
    Machine.exists_run (by decide +kernel)
  exact ⟨s, hs, hexams,
    (wrr_selection sdioPdev (by decide)).2 s (Machine.reach_of_run rfl hs)⟩

end Qcacld.Txrx

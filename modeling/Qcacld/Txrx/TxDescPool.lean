import Mathlib.Data.List.Perm.Subperm
import Qcacld.Support.Runs
import Qcacld.Txrx.TxDesc

/-!
# Txrx — TxDescPool

The descriptor pool over whole runs, in the build that completes frames one by one (`QCA_TX_SINGLE_COMPLETIONS`): allocation, frees, the references of a frame handed down, and completion messages with any ids.

The completion handler links the descriptors it is done with on a local freelist and then adds the length of the whole message to `num_free`.  `completion_ok_iff` says when that is right: when nothing went on the local list, or when every id of the message did.
-/

namespace Qcacld.Txrx
open Qcacld.Adf Qcacld.Support Function List Option Nat OlTxDesc

inductive PoolEvent where
  /-- `ol_tx_desc_ll`, `ol_tx_desc_hl` and the caller that sets the frame's type -/
  | alloc (netbuf : AdfNbuf) (pktType : Nat)
  /-- `ol_tx_desc_free`, of a descriptor that was never handed down -/
  | free (id : Nat)
  /-- `ol_tx_desc_frame_free_nonstd`, for a frame that could not be handed down -/
  | frameFree (id : Nat) (hadError : Bool)
  /-- `ol_tx_send_base` -/
  | send (id : Nat)
  /-- `ol_tx_download_done_base`, with `A_OK` -/
  | downloadDone (id : Nat)
  /-- `ol_tx_completion_handler`, for a message of at most 255 ids -/
  | completion (descIds : List Nat) (status : HttTxStatus)

/-- One event.  Only a descriptor in use is freed or sent. -/
def poolStep (cfg : TxCfg) (s : TxPdev) : PoolEvent → Option TxPdev
  | .alloc netbuf pktType =>
    match (if cfg.isHighLatency then olTxDescAllocHl s else olTxDescAlloc s) with
    | none => some s
    | some (id, s) => some (txDescInit s id netbuf pktType)
  | .free id => do
    guard (id < s.poolSize ∧ id ∉ s.freelist ∧ (s.descs id).refCnt ≤ 0)
    return olTxDescFree cfg s id
  | .frameFree id hadError => do
    guard (id < s.poolSize ∧ id ∉ s.freelist)
    return olTxDescFrameFreeNonstd cfg s id hadError
  | .send id => do
    guard (id < s.poolSize ∧ id ∉ s.freelist)
    return olTxSendBase cfg s id
  | .downloadDone id => do
    guard (id < s.poolSize)
    return olTxDownloadDoneBase cfg s id .ok
  | .completion descIds status => do
    guard (descIds.length ≤ 255 ∧ ∀ id ∈ descIds, id < 2 ^ 16)
    return olTxCompletionHandler cfg s descIds status

/-- The runs of the pool, from one whose size fits the 16 bits of `pool_size`. -/
def poolMachine (cfg : TxCfg) : Machine TxPdev PoolEvent where
  init s := ∃ poolSize credit descs, poolSize < 2 ^ 16 ∧ (∀ id, (descs id).refCnt = 0) ∧
    s = .attached poolSize credit descs
  step := poolStep cfg

/-- `num_free` counts the freelist, which holds no descriptor twice and no more than the pool has. -/
structure PoolOk (s : TxPdev) : Prop where
  numFree_eq : s.numFree = s.freelist.length
  nodup : s.freelist.Nodup
  le_poolSize : s.numFree ≤ s.poolSize

/-- The standard descriptor `id` loses its last reference in the batch. -/
def CompletesStd (s : TxPdev) (descIds : List Nat) (id : Nat) : Prop :=
  id < s.poolSize ∧ (s.descs id).pktType = olTxFrmStd ∧
    1 ≤ (s.descs id).refCnt ∧ (s.descs id).refCnt ≤ descIds.count id
deriving Decidable

/-- A batch the handler counts right: none of its standard descriptors loses its last reference, or every id is of a standard descriptor with one reference left, and named once. -/
def BatchOk (s : TxPdev) (descIds : List Nat) : Prop :=
  (∀ id ∈ descIds, ¬ CompletesStd s descIds id) ∨ (descIds.Nodup ∧ ∀ id ∈ descIds,
      id < s.poolSize ∧ (s.descs id).pktType = olTxFrmStd ∧ (s.descs id).refCnt = 1)
deriving Decidable

def PoolEventOk (s : TxPdev) : PoolEvent → Prop
  | .completion descIds _ => BatchOk s descIds
  | _ => True

instance (s : TxPdev) (e : PoolEvent) : Decidable (PoolEventOk s e) := by
  cases e <;> unfold PoolEventOk <;> infer_instance

/-! ### The invariant -/

/-- **The pool invariant.**  The counter is right, and a descriptor on the freelist has no reference left to lose. -/
structure PoolInv (s : TxPdev) : Prop extends PoolOk s where
  poolSize_lt : s.poolSize < 2 ^ 16
  free_lt : ∀ id ∈ s.freelist, id < s.poolSize
  free_refCnt : ∀ id ∈ s.freelist, (s.descs id).refCnt ≤ 0

section Basics
variable {cfg : TxCfg} {s : TxPdev} {id id' : ℕ} {hadError : Bool}

theorem refCnt_olTxDescFree :
    ((olTxDescFree cfg s id).descs id').refCnt = (s.descs id').refCnt := by
  by_cases h : id' = id
  · subst h
    simp only [olTxDescFree, descs_setDesc_self]
    split <;> rfl
  · exact congrArg refCnt (descs_setDesc_of_ne h)

theorem pktType_olTxDescFree_of_ne (h : id' ≠ id) :
    ((olTxDescFree cfg s id).descs id').pktType = (s.descs id').pktType :=
  congrArg pktType (descs_setDesc_of_ne h)

theorem refCnt_frameFree : ((olTxDescFrameFreeNonstd cfg s id hadError).descs id').refCnt =
    if id' = id then 0 else (s.descs id').refCnt := by
  rw [olTxDescFrameFreeNonstd, refCnt_olTxDescFree]
  split
  · next h =>
    subst h
    exact congrArg refCnt (descs_setDesc_self ..)
  · next h => exact congrArg refCnt (descs_setDesc_of_ne h)

theorem pktType_frameFree_of_ne (h : id' ≠ id) :
    ((olTxDescFrameFreeNonstd cfg s id hadError).descs id').pktType = (s.descs id').pktType := by
  rw [olTxDescFrameFreeNonstd, pktType_olTxDescFree_of_ne h]
  exact congrArg pktType (descs_setDesc_of_ne h)

@[simp] theorem freelist_frameFree :
    (olTxDescFrameFreeNonstd cfg s id hadError).freelist = id :: s.freelist := rfl

theorem length_le_poolSize {l : List ℕ} {n : ℕ} (hd : l.Nodup) (hl : ∀ i ∈ l, i < n) :
    l.length ≤ n := by
  have hsub : l ⊆ range n := fun i hi => mem_range.2 (hl i hi)
  simpa using (hd.subperm hsub).length_le

theorem PoolInv.push (h : PoolInv s) {s' : TxPdev} (hid : id < s.poolSize)
    (hfree : id ∉ s.freelist) (hl : s'.freelist = id :: s.freelist)
    (hn : s'.numFree = (s.numFree + 1) % 2 ^ 16) (hp : s'.poolSize = s.poolSize)
    (hr : ∀ i, i ∈ id :: s.freelist → (s'.descs i).refCnt ≤ 0) : PoolInv s' := by
  have hnd : (id :: s.freelist).Nodup := nodup_cons.2 ⟨hfree, h.nodup⟩
  have hlt : ∀ i ∈ id :: s.freelist, i < s.poolSize := by
    intro i hi
    rcases mem_cons.1 hi with rfl | hi
    · exact hid
    · exact h.free_lt i hi
  have hle : s.freelist.length + 1 ≤ s.poolSize := length_le_poolSize hnd hlt
  have hps := h.poolSize_lt
  have hnum : s'.numFree = s.freelist.length + 1 := by
    rw [hn, h.numFree_eq]
    exact mod_eq_of_lt (by omega)
  exact ⟨⟨by rw [hnum, hl]; rfl, hl ▸ hnd, by rw [hnum, hp]; exact hle⟩, hp ▸ hps,
    by rw [hl, hp]; exact hlt, by rw [hl]; exact hr⟩

end Basics

/-! ### The completion loop -/

/-- After the ids `done`, descriptor `id` has lost its last reference. -/
def Gone (s : TxPdev) (done : List ℕ) (id : ℕ) : Prop :=
  id < s.poolSize ∧ 1 ≤ (s.descs id).refCnt ∧ (s.descs id).refCnt ≤ done.count id

theorem gone_concat {s : TxPdev} {done : List ℕ} {id x : ℕ} : Gone s (done ++ [id]) x ↔
    Gone s done x ∨ (x = id ∧ x < s.poolSize ∧ (s.descs x).refCnt = done.count x + 1) := by
  by_cases hx : x = id
  · subst hx
    simp only [Gone, count_append, count_singleton_self, true_and]
    omega
  · simp [Gone, count_append, hx, Ne.symm hx]

/-- What the loop has done after the ids `done`, on the state `s` it started in: each valid id cost its descriptor a reference; the standard descriptors that lost their last one are on the local freelist, the others on the pool's. -/
structure LoopInv (s : TxPdev) (done : List ℕ) (st : ComplLoop) (freed : List ℕ) : Prop where
  poolSize : st.pdev.poolSize = s.poolSize
  refCnt : ∀ id, (st.pdev.descs id).refCnt =
    if id < s.poolSize then (s.descs id).refCnt - done.count id else (s.descs id).refCnt
  pktType : ∀ id, ¬ Gone s done id → (st.pdev.descs id).pktType = (s.descs id).pktType
  lcl_nodup : st.lclFreelist.Nodup
  mem_lcl : ∀ id, id ∈ st.lclFreelist ↔ Gone s done id ∧ (s.descs id).pktType = olTxFrmStd
  freelist : st.pdev.freelist = freed ++ s.freelist
  freed_nodup : freed.Nodup
  mem_freed : ∀ id, id ∈ freed ↔ Gone s done id ∧ (s.descs id).pktType ≠ olTxFrmStd
  numFree : st.pdev.numFree = (s.numFree + freed.length) % 2 ^ 16
  txDescs : st.txDescs = []

section Loop
variable {cfg : TxCfg} {s : TxPdev} {id : ℕ} {done freed : List ℕ} {st : ComplLoop}
  {status : HttTxStatus}

theorem LoopInv.lastRef_iff (h : LoopInv s done st freed) (hid : id < s.poolSize) :
    (st.pdev.descs id).refCnt - 1 = 0 ↔ (s.descs id).refCnt = done.count id + 1 := by
  rw [h.refCnt id, if_pos hid]
  omega

theorem LoopInv.refCnt_concat (h : LoopInv s done st freed) (hid : id < s.poolSize)
    {descs : ℕ → OlTxDesc} (hself : (descs id).refCnt = (st.pdev.descs id).refCnt - 1)
    (hne : ∀ x, x ≠ id → (descs x).refCnt = (st.pdev.descs x).refCnt) (x : ℕ) :
    (descs x).refCnt =
      if x < s.poolSize then (s.descs x).refCnt - ((done ++ [id]).count x : ℕ)
      else (s.descs x).refCnt := by
  by_cases hx : x = id
  · subst hx
    rw [hself, h.refCnt x, if_pos hid, if_pos hid]
    simp only [count_append, count_singleton_self]
    omega
  · rw [hne x hx, h.refCnt x]
    simp [count_append, Ne.symm hx]

theorem LoopInv.keep (h : LoopInv s done st freed)
    (hg : ∀ x, Gone s (done ++ [id]) x ↔ Gone s done x) {descs : ℕ → OlTxDesc}
    (hr : ∀ x, (descs x).refCnt = if x < s.poolSize
      then (s.descs x).refCnt - ((done ++ [id]).count x : ℕ) else (s.descs x).refCnt)
    (hp : ∀ x, (descs x).pktType = (st.pdev.descs x).pktType) :
    LoopInv s (done ++ [id]) { st with pdev := { st.pdev with descs := descs } } freed where
  poolSize := h.poolSize
  refCnt := hr
  pktType x hx := (hp x).trans (h.pktType x fun hg' => hx ((hg x).2 hg'))
  lcl_nodup := h.lcl_nodup
  mem_lcl x := (h.mem_lcl x).trans (and_congr_left' (hg x).symm)
  freelist := h.freelist
  freed_nodup := h.freed_nodup
  mem_freed x := (h.mem_freed x).trans (and_congr_left' (hg x).symm)
  numFree := h.numFree
  txDescs := h.txDescs

/-- An id whose descriptor keeps a reference, or that names none, is not the one that frees it. -/
theorem LoopInv.gone_concat_of_not_last (h : LoopInv s done st freed)
    (hl : id < s.poolSize → (st.pdev.descs id).refCnt - 1 ≠ 0) (x : ℕ) :
    Gone s (done ++ [id]) x ↔ Gone s done x := by
  rw [gone_concat, or_iff_left]
  rintro ⟨rfl, hx, hr⟩
  exact hl hx ((h.lastRef_iff hx).2 hr)

theorem LoopInv.not_gone (h : LoopInv s done st freed)
    (hl : (st.pdev.descs id).refCnt - 1 = 0) : ¬ Gone s done id := by
  rintro ⟨hid, -, hr⟩
  have := (h.lastRef_iff hid).1 hl
  omega

/-- What completing a standard descriptor does, in the build that completes frames one by one. -/
theorem olTxMsduComplete_std (status : HttTxStatus) (st : ComplLoop)
    (hc : cfg.singleCompletions = true)
    (hp : (st.pdev.descs id).pktType = olTxFrmStd) :
    ∃ descs released, olTxMsduComplete cfg status st id =
        { pdev := { st.pdev with descs := descs, released := released }
          lclFreelist := id :: st.lclFreelist
          txDescs := st.txDescs } ∧
      (descs id).refCnt = 0 ∧ ∀ x, x ≠ id → descs x = st.pdev.descs x := by
  simp only [olTxMsduComplete, if_pos hp, hc, if_true, markFreed]
  split
  · refine ⟨_, _, rfl, ?_, fun x hx => ?_⟩
    · simp [olTxMsduCompleteSingle, TxPdev.setDesc]
    · simp [olTxMsduCompleteSingle, TxPdev.setDesc, update_of_ne hx]
  · refine ⟨_, _, rfl, ?_, fun x hx => ?_⟩
    · simp
    · exact descs_setDesc_of_ne hx

theorem LoopInv.gone_concat_of_last (h : LoopInv s done st freed) (hid : id < s.poolSize)
    (hl : (st.pdev.descs id).refCnt - 1 = 0) (x : ℕ) :
    Gone s (done ++ [id]) x ↔ Gone s done x ∨ x = id := by
  rw [gone_concat]
  refine or_congr_right ⟨fun hx => hx.1, ?_⟩
  rintro rfl
  exact ⟨rfl, hid, (h.lastRef_iff hid).1 hl⟩

theorem LoopInv.complete_std (hc : cfg.singleCompletions = true) (h : LoopInv s done st freed)
    (hid : id < s.poolSize) (hl : (st.pdev.descs id).refCnt - 1 = 0)
    (hp : (s.descs id).pktType = olTxFrmStd) : LoopInv s (done ++ [id])
      (olTxMsduComplete cfg status { st with pdev := dropRef status st.pdev id } id) freed := by
  have hng := h.not_gone hl
  have hgone := h.gone_concat_of_last hid hl
  have hpd : ((dropRef status st.pdev id).descs id).pktType = olTxFrmStd :=
    (pktType_dropRef id).trans ((h.pktType id hng).trans hp)
  obtain ⟨descs, released, he, hself, hne⟩ := olTxMsduComplete_std status
    { st with pdev := dropRef status st.pdev id } hc hpd
  rw [he]
  refine ⟨h.poolSize, ?_, ?_, ?_, ?_, h.freelist, h.freed_nodup, ?_, h.numFree, h.txDescs⟩
  · refine h.refCnt_concat hid (hself.trans hl.symm) fun x hx => ?_
    exact (congrArg OlTxDesc.refCnt (hne x hx)).trans (refCnt_dropRef_of_ne x hx)
  · intro x hx
    rw [hgone, not_or] at hx
    exact (congrArg OlTxDesc.pktType (hne x hx.2)).trans
      ((pktType_dropRef x).trans (h.pktType x hx.1))
  · exact nodup_cons.2 ⟨fun hm => hng ((h.mem_lcl id).1 hm).1, h.lcl_nodup⟩
  · intro x
    rw [hgone, mem_cons]
    change _ ∨ x ∈ st.lclFreelist ↔ _
    rw [h.mem_lcl x]
    constructor
    · rintro (rfl | hx)
      · exact ⟨.inr rfl, hp⟩
      · exact ⟨.inl hx.1, hx.2⟩
    · rintro ⟨hx | rfl, hxp⟩
      · exact .inr ⟨hx, hxp⟩
      · exact .inl rfl
  · intro x
    rw [h.mem_freed x, hgone]
    refine ⟨fun hx => ⟨.inl hx.1, hx.2⟩, ?_⟩
    rintro ⟨hx | rfl, hxp⟩
    · exact ⟨hx, hxp⟩
    · exact absurd hp hxp

/-- The last reference of another descriptor: it goes on the pool's freelist, and is counted there. -/
theorem LoopInv.complete_nonstd (h : LoopInv s done st freed)
    (hid : id < s.poolSize) (hl : (st.pdev.descs id).refCnt - 1 = 0)
    (hp : (s.descs id).pktType ≠ olTxFrmStd) : LoopInv s (done ++ [id])
      (olTxMsduComplete cfg status { st with pdev := dropRef status st.pdev id } id)
      (id :: freed) := by
  have hng := h.not_gone hl
  have hgone := h.gone_concat_of_last hid hl
  have hpd : ((dropRef status st.pdev id).descs id).pktType ≠ olTxFrmStd := by
    rw [pktType_dropRef, h.pktType id hng]
    exact hp
  rw [olTxMsduComplete, if_neg hpd]
  refine ⟨h.poolSize, ?_, ?_, h.lcl_nodup, ?_, ?_, ?_, ?_, ?_, h.txDescs⟩
  · refine h.refCnt_concat hid ?_ fun x hx => ?_
    · rw [refCnt_frameFree, if_pos rfl, hl]
    · rw [refCnt_frameFree, if_neg hx]
      exact refCnt_dropRef_of_ne x hx
  · intro x hx
    rw [hgone, not_or] at hx
    change ((olTxDescFrameFreeNonstd _ _ _ _).descs x).pktType = _
    rw [pktType_frameFree_of_ne hx.2, pktType_dropRef]
    exact h.pktType x hx.1
  · intro x
    change x ∈ st.lclFreelist ↔ _
    rw [h.mem_lcl x, hgone]
    refine ⟨fun hx => ⟨.inl hx.1, hx.2⟩, ?_⟩
    rintro ⟨hx | rfl, hxp⟩
    · exact ⟨hx, hxp⟩
    · exact absurd hxp hp
  · exact congrArg (id :: ·) h.freelist
  · exact nodup_cons.2 ⟨fun hm => hng ((h.mem_freed id).1 hm).1, h.freed_nodup⟩
  · intro x
    rw [hgone, mem_cons, h.mem_freed x]
    constructor
    · rintro (rfl | hx)
      · exact ⟨.inr rfl, hp⟩
      · exact ⟨.inl hx.1, hx.2⟩
    · rintro ⟨hx | rfl, hxp⟩
      · exact .inr ⟨hx, hxp⟩
      · exact .inl rfl
  · change (st.pdev.numFree + 1) % 2 ^ 16 = _
    rw [h.numFree, length_cons]
    omega

/-- **One turn of the loop.** -/
theorem LoopInv.body (hc : cfg.singleCompletions = true) (h : LoopInv s done st freed) :
    ∃ freed', LoopInv s (done ++ [id]) (complBody cfg status st id) freed' := by
  rw [complBody_eq]
  split_ifs with hid hlast
  · -- an invalid id is skipped
    rw [ge_iff_le, h.poolSize] at hid
    have hg : ∀ x, Gone s (done ++ [id]) x ↔ Gone s done x :=
      h.gone_concat_of_not_last fun hlt => absurd hlt (by omega)
    refine ⟨freed, h.keep hg (fun x => (h.refCnt x).trans ?_) fun _ => rfl⟩
    by_cases hx : x = id
    · rw [if_neg (by omega), if_neg (by omega)]
    · simp [count_append, Ne.symm hx]
  · rw [ge_iff_le, not_le, h.poolSize] at hid
    by_cases hp : (s.descs id).pktType = olTxFrmStd
    · exact ⟨freed, h.complete_std hc hid hlast hp⟩
    · exact ⟨id :: freed, h.complete_nonstd hid hlast hp⟩
  · -- the descriptor keeps a reference
    rw [ge_iff_le, not_le, h.poolSize] at hid
    have hg : ∀ x, Gone s (done ++ [id]) x ↔ Gone s done x :=
      h.gone_concat_of_not_last fun _ => hlast
    exact ⟨freed, h.keep hg (h.refCnt_concat hid refCnt_dropRef_self refCnt_dropRef_of_ne)
      pktType_dropRef⟩

theorem loopInv_start (hn : s.numFree < 2 ^ 16) : LoopInv s [] ⟨s, [], []⟩ [] where
  poolSize := rfl
  refCnt x := by simp
  pktType x _ := rfl
  lcl_nodup := nodup_nil
  mem_lcl x := by simp [Gone]; omega
  freelist := rfl
  freed_nodup := nodup_nil
  mem_freed x := by simp [Gone]; omega
  numFree := (mod_eq_of_lt hn).symm
  txDescs := rfl

/-- **The whole loop.** -/
theorem loopInv_foldl (hc : cfg.singleCompletions = true) (hn : s.numFree < 2 ^ 16)
    (ids : List ℕ) : ∃ freed, LoopInv s ids (ids.foldl (complBody cfg status) ⟨s, [], []⟩) freed := by
  induction ids using reverseRecOn with
  | nil => exact ⟨[], loopInv_start hn⟩
  | append_singleton ids id ih =>
    obtain ⟨freed, ih⟩ := ih
    rw [foldl_append]
    exact ih.body hc

end Loop

/-! ### The handler -/

section Handler
variable {cfg : TxCfg} {s : TxPdev} {ids freed : List ℕ} {st : ComplLoop} {status : HttTxStatus}

theorem Gone.mem {id : ℕ} (h : Gone s ids id) : id ∈ ids := by
  obtain ⟨-, h₁, h₂⟩ := h
  exact count_pos_iff.1 (by omega)

theorem LoopInv.lcl_subset (h : LoopInv s ids st freed) : st.lclFreelist ⊆ ids :=
  fun id hid => ((h.mem_lcl id).1 hid).1.mem

theorem LoopInv.lcl_eq_nil_iff (h : LoopInv s ids st freed) :
    st.lclFreelist = [] ↔ ∀ id ∈ ids, ¬ CompletesStd s ids id := by
  rw [eq_nil_iff_forall_not_mem]
  constructor
  · rintro hl id - ⟨hid, hp, hr⟩
    exact hl id ((h.mem_lcl id).2 ⟨⟨hid, hr⟩, hp⟩)
  · intro hl id hid
    obtain ⟨hg, hp⟩ := (h.mem_lcl id).1 hid
    exact hl id hg.mem ⟨hg.1, hp, hg.2⟩

/-- Every id of the message put its descriptor on the local freelist exactly when the second half of `BatchOk` holds. -/
theorem LoopInv.length_lcl_iff (h : LoopInv s ids st freed) : st.lclFreelist.length = ids.length ↔
      ids.Nodup ∧ ∀ id ∈ ids,
        id < s.poolSize ∧ (s.descs id).pktType = olTxFrmStd ∧ (s.descs id).refCnt = 1 := by
  have hsub := h.lcl_nodup.subperm h.lcl_subset
  constructor
  · intro hl
    have hperm := hsub.perm_of_length_le hl.ge
    have hnd : ids.Nodup := hperm.nodup_iff.1 h.lcl_nodup
    refine ⟨hnd, fun id hid => ?_⟩
    obtain ⟨⟨hlt, hr₁, hr₂⟩, hp⟩ := (h.mem_lcl id).1 (hperm.mem_iff.2 hid)
    rw [count_eq_one_of_mem hnd hid] at hr₂
    exact ⟨hlt, hp, by omega⟩
  · rintro ⟨hnd, hall⟩
    refine le_antisymm hsub.length_le (hnd.subperm fun id hid => ?_).length_le
    obtain ⟨hlt, hp, hr⟩ := hall id hid
    refine (h.mem_lcl id).2 ⟨⟨hlt, by omega, ?_⟩, hp⟩
    rw [count_eq_one_of_mem hnd hid, hr]
    exact Int.le_refl 1

theorem LoopInv.batchOk_iff (h : LoopInv s ids st freed) :
    BatchOk s ids ↔ st.lclFreelist = [] ∨ st.lclFreelist.length = ids.length := by
  rw [h.lcl_eq_nil_iff, h.length_lcl_iff, BatchOk]

/-- The lists the loop fills hold no descriptor of the pool's freelist, and each its own. -/
theorem LoopInv.nodup_append (h : LoopInv s ids st freed) (hs : PoolInv s) :
    (st.lclFreelist ++ (freed ++ s.freelist)).Nodup := by
  have hg : ∀ id ∈ s.freelist, ¬ Gone s ids id := by
    rintro id hid ⟨-, hr, -⟩
    have := hs.free_refCnt id hid
    omega
  refine h.lcl_nodup.append (h.freed_nodup.append hs.nodup fun id hf hid => ?_) fun id hl hid => ?_
  · exact hg id hid ((h.mem_freed id).1 hf).1
  · obtain ⟨hgl, hp⟩ := (h.mem_lcl id).1 hl
    rcases mem_append.1 hid with hf | hid
    · exact ((h.mem_freed id).1 hf).2 hp
    · exact hg id hid hgl

theorem LoopInv.mem_append (h : LoopInv s ids st freed) (hs : PoolInv s) {id : ℕ}
    (hid : id ∈ st.lclFreelist ++ (freed ++ s.freelist)) :
    id < s.poolSize ∧ (st.pdev.descs id).refCnt ≤ 0 := by
  have hg : Gone s ids id → id < s.poolSize ∧ (st.pdev.descs id).refCnt ≤ 0 := by
    rintro ⟨hlt, -, hr⟩
    rw [h.refCnt, if_pos hlt]
    exact ⟨hlt, by omega⟩
  rcases List.mem_append.1 hid with hl | hid
  · exact hg ((h.mem_lcl id).1 hl).1
  rcases List.mem_append.1 hid with hf | hid
  · exact hg ((h.mem_freed id).1 hf).1
  · have hlt := hs.free_lt id hid
    have hr := hs.free_refCnt id hid
    rw [h.refCnt, if_pos hlt]
    exact ⟨hlt, by omega⟩

theorem olTxCompletionHandler_pool (h : LoopInv s ids st freed)
    (hst : st = ids.foldl (complBody cfg status) ⟨s, [], []⟩) :
    (olTxCompletionHandler cfg s ids status).poolSize = s.poolSize ∧
      (olTxCompletionHandler cfg s ids status).descs = st.pdev.descs ∧
      (olTxCompletionHandler cfg s ids status).freelist = st.lclFreelist ++ (freed ++ s.freelist) ∧
      (olTxCompletionHandler cfg s ids status).numFree =
        if st.lclFreelist = [] then st.pdev.numFree
        else (st.pdev.numFree + ids.length % 2 ^ 16) % 2 ^ 16 := by
  have hcredit : ∀ (s : TxPdev) (n : ℤ), (olTxTargetCreditAdjust cfg s n).poolSize = s.poolSize ∧
      (olTxTargetCreditAdjust cfg s n).descs = s.descs ∧
      (olTxTargetCreditAdjust cfg s n).freelist = s.freelist ∧
      (olTxTargetCreditAdjust cfg s n).numFree = s.numFree := by
    intro s n
    unfold olTxTargetCreditAdjust
    split <;> exact ⟨rfl, rfl, rfl, rfl⟩
  have hpool := h.poolSize
  have hfl := h.freelist
  simp only [olTxCompletionHandler, ← hst, h.txDescs, olTxDescFrameListFree, foldl_nil]
  by_cases hl : st.lclFreelist = [] <;> by_cases hh : cfg.isHighLatency <;>
    simp [hl, hh, hcredit, hpool, hfl]

/-- **When a completion message leaves the pool counted right.** -/
theorem completion_ok_iff (hc : cfg.singleCompletions = true) (hs : PoolInv s)
    (hlen : ids.length ≤ 255) :
    PoolOk (olTxCompletionHandler cfg s ids status) ↔ BatchOk s ids := by
  have hps := hs.poolSize_lt
  have hn := hs.numFree_eq
  have hle := hs.le_poolSize
  obtain ⟨freed, h⟩ : ∃ freed, LoopInv s ids (ids.foldl (complBody cfg status) ⟨s, [], []⟩) freed :=
    loopInv_foldl hc (by omega) ids
  generalize hst : ids.foldl (complBody cfg status) ⟨s, [], []⟩ = st at h
  obtain ⟨hp, hd, hf, hnum⟩ := olTxCompletionHandler_pool h hst.symm
  have hnd := h.nodup_append hs
  have hlen' := length_le_poolSize hnd fun id hid => (h.mem_append hs hid).1
  have hll : st.lclFreelist.length ≤ ids.length := (h.lcl_nodup.subperm h.lcl_subset).length_le
  rw [length_append, length_append] at hlen'
  -- the loop's own increments do not wrap
  have hnf : st.pdev.numFree = freed.length + s.freelist.length := by
    rw [h.numFree, mod_eq_of_lt (by omega)]
    omega
  have hok : PoolOk (olTxCompletionHandler cfg s ids status) ↔
      (olTxCompletionHandler cfg s ids status).numFree =
        st.lclFreelist.length + (freed.length + s.freelist.length) := by
    constructor
    · intro hok
      rw [hok.numFree_eq, hf, length_append, length_append]
    · intro he
      refine ⟨?_, hf ▸ hnd, ?_⟩
      · rw [he, hf, length_append, length_append]
      · rw [he, hp]
        exact hlen'
  rw [hok, h.batchOk_iff, hnum, hnf]
  by_cases hl : st.lclFreelist = []
  · simp [hl]
  · rw [if_neg hl, or_iff_right hl]
    omega

theorem PoolInv.completion (hc : cfg.singleCompletions = true) (hs : PoolInv s)
    (hlen : ids.length ≤ 255) (hb : BatchOk s ids) :
    PoolInv (olTxCompletionHandler cfg s ids status) := by
  have hps := hs.poolSize_lt
  have hle := hs.le_poolSize
  obtain ⟨freed, h⟩ : ∃ freed, LoopInv s ids (ids.foldl (complBody cfg status) ⟨s, [], []⟩) freed :=
    loopInv_foldl hc (by omega) ids
  generalize hst : ids.foldl (complBody cfg status) ⟨s, [], []⟩ = st at h
  obtain ⟨hp, hd, hf, -⟩ := olTxCompletionHandler_pool h hst.symm
  refine ⟨(completion_ok_iff hc hs hlen).2 hb, hp ▸ hps, ?_, ?_⟩
  · rw [hf, hp]
    exact fun id hid => (h.mem_append hs hid).1
  · rw [hf, hd]
    exact fun id hid => (h.mem_append hs hid).2

end Handler

/-! ### Runs -/

section Runs
variable {cfg : TxCfg} {s s' : TxPdev} {id : ℕ}

theorem poolInv_init (h : (poolMachine cfg).init s) : PoolInv s := by
  obtain ⟨poolSize, credit, descs, hps, hr, rfl⟩ := h
  exact ⟨⟨length_range.symm, nodup_range, le_rfl⟩, hps, fun id => mem_range.1,
    fun id _ => Int.le_of_eq (hr id)⟩

theorem PoolInv.of_desc (h : PoolInv s) (hf : s'.freelist = s.freelist)
    (hn : s'.numFree = s.numFree) (hp : s'.poolSize = s.poolSize)
    (hr : ∀ i ∈ s.freelist, (s'.descs i).refCnt ≤ 0) : PoolInv s' where
  numFree_eq := by rw [hn, hf]; exact h.numFree_eq
  nodup := hf ▸ h.nodup
  le_poolSize := by rw [hn, hp]; exact h.le_poolSize
  poolSize_lt := hp ▸ h.poolSize_lt
  free_lt := by rw [hf, hp]; exact h.free_lt
  free_refCnt := by rw [hf]; exact hr

theorem PoolInv.pop (h : PoolInv s) (ha : olTxDescAlloc s = some (id, s')) :
    PoolInv s' ∧ id ∉ s'.freelist := by
  unfold olTxDescAlloc at ha
  split at ha
  · cases ha
  · next id' rest hfl =>
    obtain ⟨rfl, rfl⟩ := Prod.mk.inj (some.inj ha)
    have hn := h.numFree_eq
    have hle := h.le_poolSize
    have hps := h.poolSize_lt
    have hnd := h.nodup
    rw [hfl] at hn hnd
    rw [length_cons] at hn
    have hnum : (s.numFree + 0xffff) % 2 ^ 16 = rest.length := by omega
    have hmem : ∀ i ∈ rest, i ∈ s.freelist := fun i hi => hfl ▸ mem_cons_of_mem _ hi
    refine ⟨⟨⟨hnum, (nodup_cons.1 hnd).2, ?_⟩, hps, fun i hi => h.free_lt i (hmem i hi),
      fun i hi => h.free_refCnt i (hmem i hi)⟩, (nodup_cons.1 hnd).1⟩
    change (s.numFree + 0xffff) % 2 ^ 16 ≤ s.poolSize
    omega

theorem PoolInv.alloc (h : PoolInv s) {netbuf : AdfNbuf} {pktType : ℕ}
    (he : poolStep cfg s (.alloc netbuf pktType) = some s') : PoolInv s' := by
  simp only [poolStep] at he
  split at he
  · cases he
    exact h
  · next id t ha =>
    cases he
    have ht : PoolInv t ∧ id ∉ t.freelist := by
      split at ha
      · -- `ol_tx_desc_alloc_hl` charges the queue's resource as well
        unfold olTxDescAllocHl at ha
        obtain ⟨⟨i, t'⟩, ha', he'⟩ := bind_eq_some_iff.1 ha
        obtain ⟨rfl, rfl⟩ := Prod.mk.inj (some.inj he')
        obtain ⟨hi, hni⟩ := h.pop ha'
        exact ⟨hi.of_desc rfl rfl rfl hi.free_refCnt, hni⟩
      · exact h.pop ha
    refine ht.1.of_desc rfl rfl rfl fun i hi => ?_
    rw [txDescInit, descs_setDesc_of_ne (ne_of_mem_of_not_mem hi ht.2)]
    exact ht.1.free_refCnt i hi

theorem PoolInv.frameFree (h : PoolInv s) (hid : id < s.poolSize) (hf : id ∉ s.freelist)
    (hadError : Bool) : PoolInv (olTxDescFrameFreeNonstd cfg s id hadError) := by
  refine h.push hid hf rfl rfl rfl fun i hi => ?_
  rw [refCnt_frameFree]
  split
  · exact Int.le_refl 0
  · next hne => exact h.free_refCnt i ((mem_cons.1 hi).resolve_left hne)

theorem PoolInv.free (h : PoolInv s) (hid : id < s.poolSize) (hf : id ∉ s.freelist)
    (hr : (s.descs id).refCnt ≤ 0) : PoolInv (olTxDescFree cfg s id) := by
  refine h.push hid hf rfl rfl rfl fun i hi => ?_
  rw [refCnt_olTxDescFree]
  rcases mem_cons.1 hi with rfl | hi
  · exact hr
  · exact h.free_refCnt i hi

theorem PoolInv.send (h : PoolInv s) (hf : id ∉ s.freelist) : PoolInv (olTxSendBase cfg s id) := by
  have hs : ∀ t : TxPdev, PoolInv t → t.freelist = s.freelist →
      PoolInv (t.setDesc id { t.descs id with refCnt := 2 }) := by
    intro t ht htf
    refine ht.of_desc rfl rfl rfl fun i hi => ?_
    rw [descs_setDesc_of_ne (ne_of_mem_of_not_mem (htf ▸ hi) hf)]
    exact ht.free_refCnt i hi
  unfold olTxSendBase olTxTargetCreditAdjust
  split
  · exact hs _ (h.of_desc rfl rfl rfl h.free_refCnt) rfl
  · exact hs s h rfl

theorem PoolInv.downloadDone (h : PoolInv s) (hid : id < s.poolSize) :
    PoolInv (olTxDownloadDoneBase cfg s id .ok) := by
  have hd : ∀ i, ((olTxDescNoRefs s id).1.descs i).refCnt =
      if i = id then (s.descs id).refCnt - 1 else (s.descs i).refCnt := by
    intro i
    by_cases hi : i = id
    · subst hi
      simp [olTxDescNoRefs]
    · rw [olTxDescNoRefs, descs_setDesc_of_ne hi, if_neg hi]
  have ht : PoolInv (olTxDescNoRefs s id).1 := by
    refine h.of_desc rfl rfl rfl fun i hi => ?_
    have := h.free_refCnt i hi
    rw [hd]
    split
    · next he =>
      subst he
      omega
    · exact this
  simp only [olTxDownloadDoneBase]
  split
  · next hl =>
    refine ht.frameFree hid (fun hf => ?_) _
    have hr := h.free_refCnt id hf
    simp only [olTxDescNoRefs, beq_iff_eq] at hl
    omega
  · exact ht

/-- Every event but a completion keeps the invariant, and so does a completion counted right. -/
theorem PoolInv.step (hc : cfg.singleCompletions = true) {e : PoolEvent} (h : PoolInv s)
    (hok : PoolEventOk s e) (he : poolStep cfg s e = some s') : PoolInv s' := by
  cases e with
  | alloc netbuf pktType => exact h.alloc he
  | free id =>
    obtain ⟨⟨hid, hf, hr⟩, rfl⟩ := guarded_eq_some.1 he
    exact h.free hid hf hr
  | frameFree id hadError =>
    obtain ⟨⟨hid, hf⟩, rfl⟩ := guarded_eq_some.1 he
    exact h.frameFree hid hf hadError
  | send id =>
    obtain ⟨⟨-, hf⟩, rfl⟩ := guarded_eq_some.1 he
    exact h.send hf
  | downloadDone id =>
    obtain ⟨hid, rfl⟩ := guarded_eq_some.1 he
    exact h.downloadDone hid
  | completion ids status =>
    obtain ⟨⟨hlen, -⟩, rfl⟩ := guarded_eq_some.1 he
    exact h.completion hc hlen hok

theorem poolInv_of_reach (hc : cfg.singleCompletions = true)
    (t : (poolMachine cfg).Reach PoolEventOk s) : PoolInv s :=
  t.invariant PoolInv (fun _ => poolInv_init) fun _ _ _ h hok he => h.step hc hok he

/-- **The pool is counted right** in every run whose completion messages meet `BatchOk`, and the first message that does not meet it is the one that breaks the count. -/
theorem pool_accounting (cfg : TxCfg) (hc : cfg.singleCompletions = true) (s : TxPdev)
    (t : (poolMachine cfg).Reach PoolEventOk s) :
    PoolOk s ∧ ∀ descIds status s', poolStep cfg s (.completion descIds status) = some s' →
      (PoolOk s' ↔ BatchOk s descIds) := by
  have hs := poolInv_of_reach hc t
  refine ⟨hs.toPoolOk, fun descIds status s' he => ?_⟩
  obtain ⟨⟨hlen, -⟩, rfl⟩ := guarded_eq_some.1 he
  exact completion_ok_iff hc hs hlen

end Runs

/-! ### A run -/

def singleCfg : TxCfg where
  sanity := false
  singleCompletions := true
  tracksCredit := false
  isHighLatency := false
  txDataCallback := false

def smallPool : TxPdev := .attached 3 8 fun _ => ⟨.next, 0, .ok, olTxFrmStd⟩

def twoSent : List PoolEvent :=
  [.alloc 10 olTxFrmStd, .alloc 11 olTxFrmStd, .send 0, .send 1, .downloadDone 0, .downloadDone 1]

/-- One of them completes by itself, and its descriptor is used again. -/
def oneCompleted : List PoolEvent :=
  twoSent ++ [.completion [0] .ok, .alloc 12 olTxFrmStd, .send 0, .completion [0] .ok]

theorem smallPool_init : (poolMachine singleCfg).init smallPool :=
  ⟨3, 8, _, by decide, fun _ => rfl, rfl⟩

theorem pool_accounting_oneCompleted : ∃ s, (poolMachine singleCfg).run smallPool oneCompleted = some s ∧
    PoolOk s ∧ ∀ descIds status s', poolStep singleCfg s (.completion descIds status) = some s' →
      (PoolOk s' ↔ BatchOk s descIds) := by
  refine ⟨_, rfl, pool_accounting singleCfg rfl _ ?_⟩
  have halong : (poolMachine singleCfg).Along PoolEventOk smallPool oneCompleted := by decide
  exact Machine.Reach.run (.start smallPool_init) halong rfl

theorem invalid_id_miscounts : ∃ s,
    (poolMachine singleCfg).run smallPool (twoSent ++ [.completion [0, 7] .ok]) = some s ∧
      s.freelist = [0, 2] ∧ s.numFree = 3 ∧ ¬ PoolOk s := by
  refine ⟨_, rfl, rfl, rfl, fun h => ?_⟩
  have := h.numFree_eq
  contradiction

end Qcacld.Txrx

import Qcacld.Support.Runs
import Qcacld.Txrx.TxDesc

/-!
# Txrx — TxFrame

One tx frame from the moment it is handed down: the send or the dispatch that may fail, the download-done callback, and the completion, in any order and between any changes to other frames.

`FrameView` is what the pool knows of the frame: its size, the frame's descriptor, how often the descriptor is on the freelist, and how often the frame was given back.  Every handler acts on it as a small function of its own (`view_olTxCompletionHandler` and its siblings), whichever of its paths it takes, so that a run of the frame is a run of these.
-/

namespace Qcacld.Txrx
open Qcacld.Adf Qcacld.Support Function List Option Nat TxPdev

/-! ### The view of a frame -/

structure FrameView where
  poolSize : Nat
  desc : OlTxDesc
  returned : Nat
  released : Nat

open FrameView

/-- The view of the frame `msdu` of descriptor `id`. -/
def TxPdev.view (id : Nat) (msdu : AdfNbuf) (s : TxPdev) : FrameView where
  poolSize := s.poolSize
  desc := s.descs id
  returned := s.freelist.count id
  released := s.released.countP fun r => r.word = .netbuf msdu

def HeldBy (id : Nat) (msdu : AdfNbuf) (s : TxPdev) : Prop :=
  ∀ x, x ≠ id → (s.descs x).word ≠ .netbuf msdu

namespace FrameView
variable (cfg : TxCfg) (msdu : AdfNbuf)

/-- The frame goes back, and its descriptor with it. -/
def frameFree (v : FrameView) : FrameView where
  poolSize := v.poolSize
  desc :=
    { word := .next
      refCnt := 0
      status := v.desc.status
      pktType := if cfg.sanity then olTxFrmFreed else v.desc.pktType }
  returned := v.returned + 1
  released := v.released + if v.desc.word = .netbuf msdu then 1 else 0

/-- The two references are taken; the frame goes back if the hand-off failed. -/
def handOff (failed : Bool) (v : FrameView) : FrameView :=
  let v := { v with desc := { v.desc with refCnt := 2 } }
  if failed then v.frameFree cfg msdu else v

/-- A reference is dropped; the last one frees the frame. -/
def dropRef (v : FrameView) : FrameView :=
  let v := { v with desc := { v.desc with refCnt := v.desc.refCnt - 1 } }
  if v.desc.refCnt = 0 then v.frameFree cfg msdu else v

def downloadDone (mode : DownloadMode) (status : AStatus) (v : FrameView) : FrameView :=
  let v := match status with
    | .error => v.frameFree cfg msdu
    | .ok => v.dropRef cfg msdu
  if mode = .hlFree ∧ v.desc.pktType ≠ olTxFrmNoFree ∧ v.desc.pktType < olTxrxMgmtTypeBase then
    v.frameFree cfg msdu
  else v

def completion (status : HttTxStatus) (v : FrameView) : FrameView :=
  ({ v with desc := { v.desc with status := status } } : FrameView).dropRef cfg msdu

end FrameView

/-! ### The handlers on the view -/

section View
variable {cfg : TxCfg} {s : TxPdev} {id x : ℕ} {msdu : AdfNbuf} {hadError : Bool}

theorem view_setDesc_self (desc : OlTxDesc) :
    (s.setDesc id desc).view id msdu = { s.view id msdu with desc := desc } := by
  simp [view, setDesc]

theorem view_setDesc_of_ne (hx : x ≠ id) (desc : OlTxDesc) :
    (s.setDesc x desc).view id msdu = s.view id msdu := by
  simp [view, setDesc, update_of_ne hx.symm]

theorem view_creditAdjust (n : ℤ) :
    (olTxTargetCreditAdjust cfg s n).view id msdu = s.view id msdu := by
  unfold olTxTargetCreditAdjust
  split <;> rfl

theorem view_frameFree_self : (olTxDescFrameFreeNonstd cfg s id hadError).view id msdu =
    (s.view id msdu).frameFree cfg msdu := by
  by_cases hs : cfg.sanity <;> by_cases hw : (s.descs id).word = .netbuf msdu <;>
    simp [view, olTxDescFrameFreeNonstd, olTxDescFree, setDesc, frameFree, countP_append, hs, hw]

theorem view_frameFree_of_ne (h : HeldBy id msdu s) (hx : x ≠ id) :
    (olTxDescFrameFreeNonstd cfg s x hadError).view id msdu = s.view id msdu := by
  simp [view, olTxDescFrameFreeNonstd, olTxDescFree, setDesc, countP_append,
    update_of_ne hx.symm, count_cons_of_ne hx, h x hx]

/-! What no handler does is to give a frame to another descriptor. -/

theorem HeldBy.setDesc (h : HeldBy id msdu s) {desc : OlTxDesc}
    (hw : desc.word = (s.descs x).word ∨ desc.word = .next) : HeldBy id msdu (s.setDesc x desc) := by
  intro y hy
  by_cases hyx : y = x
  · subst hyx
    rw [descs_setDesc_self]
    rcases hw with hw | hw
    · rw [hw]
      exact h y hy
    · rw [hw]
      exact nofun
  · rw [descs_setDesc_of_ne hyx]
    exact h y hy

theorem HeldBy.congr {t : TxPdev} (h : HeldBy id msdu s) (hd : t.descs = s.descs) :
    HeldBy id msdu t := by
  intro y hy
  rw [hd]
  exact h y hy

theorem HeldBy.creditAdjust (h : HeldBy id msdu s) (n : ℤ) :
    HeldBy id msdu (olTxTargetCreditAdjust cfg s n) := by
  unfold olTxTargetCreditAdjust
  split <;> exact h

theorem HeldBy.free (h : HeldBy id msdu s) : HeldBy id msdu (olTxDescFree cfg s x) :=
  congr (h.setDesc (x := x) (.inr rfl)) rfl

theorem HeldBy.frameFree (h : HeldBy id msdu s) :
    HeldBy id msdu (olTxDescFrameFreeNonstd cfg s x hadError) := by
  have h₁ : HeldBy id msdu (s.setDesc x { s.descs x with refCnt := 0 }) := h.setDesc (.inl rfl)
  exact free (h₁.congr rfl)

/-! The hand-off. -/

theorem HeldBy.sendBase (h : HeldBy id msdu s) : HeldBy id msdu (olTxSendBase cfg s x) :=
  (h.creditAdjust (-1)).setDesc (.inl rfl)

theorem HeldBy.sendWith (h : HeldBy id msdu s) (failed : Bool) :
    HeldBy id msdu (txSendWith cfg failed s x) := by
  simp only [txSendWith]
  split
  · exact (h.sendBase.creditAdjust 1).frameFree
  · exact h.sendBase

theorem view_txSendWith (failed : Bool) : (txSendWith cfg failed s id).view id msdu =
    (s.view id msdu).handOff cfg msdu failed := by
  have hb : (olTxSendBase cfg s id).view id msdu =
      { s.view id msdu with desc := { (s.view id msdu).desc with refCnt := 2 } } := by
    rw [olTxSendBase, view_setDesc_self, view_creditAdjust]
    unfold olTxTargetCreditAdjust
    split <;> rfl
  simp only [txSendWith, handOff]
  split
  · rw [view_frameFree_self, view_creditAdjust, hb]
  · exact hb

theorem view_foldl_frameFree (cfg : TxCfg) {l : List ℕ} (hl : l.Nodup) (h : HeldBy id msdu s) :
    let t := l.foldl (fun s x => olTxDescFrameFreeNonstd cfg (olTxTargetCreditAdjust cfg s 1) x true) s
    HeldBy id msdu t ∧ t.view id msdu =
      if id ∈ l then (s.view id msdu).frameFree cfg msdu else s.view id msdu := by
  induction l generalizing s with
  | nil => exact ⟨h, rfl⟩
  | cons x l ih =>
    obtain ⟨hx, hl⟩ := nodup_cons.1 hl
    obtain ⟨hh, hv⟩ := ih hl (h.creditAdjust 1).frameFree
    refine ⟨hh, hv.trans ?_⟩
    by_cases hxi : x = id
    · subst hxi
      rw [if_neg hx, if_pos mem_cons_self, view_frameFree_self, view_creditAdjust]
    · rw [view_frameFree_of_ne (h.creditAdjust 1) hxi, view_creditAdjust]
      simp [Ne.symm hxi]

theorem view_olTxSendBatch (cfg : TxCfg) (rejects : ℕ → Bool) {ids : List ℕ} (hl : ids.Nodup)
    (h : HeldBy id msdu s) : HeldBy id msdu (olTxSendBatch cfg rejects s ids) ∧
      (olTxSendBatch cfg rejects s ids).view id msdu =
        if id ∈ ids ∧ rejects id then (s.view id msdu).frameFree cfg msdu else s.view id msdu := by
  have hnd : (ids.filter rejects).reverse.Nodup := nodup_reverse.2 (hl.filter _)
  simpa [olTxSendBatch] using view_foldl_frameFree cfg hnd h

/-- The view of the frame once the batch collected so far has gone out. -/
def batchView (cfg : TxCfg) (rejects : ℕ → Bool) (id : ℕ) (msdu : AdfNbuf) (st : TxPdev × List ℕ) :
    FrameView :=
  if id ∈ st.2 ∧ rejects id then (st.1.view id msdu).frameFree cfg msdu else st.1.view id msdu

theorem dispatchBody_spec (cfg : TxCfg) (storageErr rejects : ℕ → Bool) {batch : List ℕ} (hb : batch.Nodup)
    (hxb : x ∉ batch) (h : HeldBy id msdu s) :
    let st := dispatchBody cfg storageErr rejects (s, batch) x
    HeldBy id msdu st.1 ∧ (st.2 = [] ∨ st.2 = batch ++ [x]) ∧ batchView cfg rejects id msdu st =
        if x = id then (s.view id msdu).handOff cfg msdu (rejects id)
        else batchView cfg rejects id msdu (s, batch) := by
  have h₁ : HeldBy id msdu (s.setDesc x { s.descs x with refCnt := 2 }) := h.setDesc (.inl rfl)
  -- taking the references of `x`
  have hv₁ : (s.setDesc x { s.descs x with refCnt := 2 }).view id msdu =
      if x = id then (s.view id msdu).handOff cfg msdu false else s.view id msdu := by
    split
    · next hx =>
      subst hx
      exact view_setDesc_self _
    · next hx => exact view_setDesc_of_ne hx _
  by_cases he : storageErr x
  · -- the batch goes out, then `x` by itself
    obtain ⟨h₂, hv₂⟩ := view_olTxSendBatch cfg rejects hb h₁
    by_cases hr : rejects x
    · simp only [dispatchBody, he, hr, if_true]
      refine ⟨(h₂.creditAdjust 1).frameFree, .inl trivial, ?_⟩
      by_cases hx : x = id
      · subst hx
        simp [batchView, view_frameFree_self, view_creditAdjust, hv₂, hv₁, hxb, hr, handOff]
      · simp [batchView, view_frameFree_of_ne (h₂.creditAdjust 1) hx, view_creditAdjust, hv₂, hv₁, hx]
    · rw [Bool.not_eq_true] at hr
      simp only [dispatchBody, he, hr, if_true]
      refine ⟨h₂, .inl rfl, ?_⟩
      by_cases hx : x = id
      · subst hx
        simp [batchView, hv₂, hv₁, hxb, hr]
      · simp [batchView, hv₂, hv₁, hx]
  · -- `x` joins the batch
    simp only [dispatchBody, he]
    refine ⟨h₁, .inr rfl, ?_⟩
    by_cases hx : x = id
    · subst hx
      simp [batchView, hv₁, handOff]
    · simp [batchView, hv₁, hx, Ne.symm hx]

theorem foldl_dispatchBody_spec (cfg : TxCfg) (storageErr rejects : ℕ → Bool) {l batch : List ℕ}
    (hnd : (batch ++ l).Nodup) (h : HeldBy id msdu s) :
    let st := l.foldl (dispatchBody cfg storageErr rejects) (s, batch)
    HeldBy id msdu st.1 ∧ st.2.Nodup ∧ batchView cfg rejects id msdu st =
      if id ∈ l then (s.view id msdu).handOff cfg msdu (rejects id)
      else batchView cfg rejects id msdu (s, batch) := by
  induction l generalizing s batch with
  | nil => exact ⟨h, append_nil batch ▸ hnd, rfl⟩
  | cons x l ih =>
    obtain ⟨hb, hxl, hdisj⟩ := nodup_append.1 hnd
    obtain ⟨hx, hl⟩ := nodup_cons.1 hxl
    have hxb : x ∉ batch := fun hm => hdisj x hm x mem_cons_self rfl
    have hbody := dispatchBody_spec cfg storageErr rejects hb hxb h
    rw [foldl_cons]
    generalize dispatchBody cfg storageErr rejects (s, batch) x = st at hbody ⊢
    obtain ⟨s', batch'⟩ := st
    obtain ⟨h', hbatch, hv⟩ := hbody
    have hnd' : (batch' ++ l).Nodup := by
      rcases hbatch with hb' | hb'
      · exact (show batch' = [] from hb') ▸ hl
      · exact (show batch' = batch ++ [x] from hb') ▸ by rwa [append_assoc]
    obtain ⟨hh, hn, hv'⟩ := ih hnd' h'
    refine ⟨hh, hn, hv'.trans ?_⟩
    by_cases hil : id ∈ l
    · -- still to come: the batch is about others
      have hxi : x ≠ id := ne_of_mem_of_not_mem hil hx |>.symm
      have hib : id ∉ batch := fun hm => hdisj id hm id (mem_cons_of_mem _ hil) rfl
      have hib' : id ∉ batch' := fun hm => (nodup_append.1 hnd').2.2 id hm id hil rfl
      have hvs : s'.view id msdu = s.view id msdu := by
        simpa [batchView, hib, hib', hxi] using hv
      rw [if_pos hil, if_pos (mem_cons_of_mem _ hil), hvs]
    · rw [if_neg hil, hv]
      by_cases hxi : x = id
      · rw [if_pos hxi, if_pos (hxi ▸ mem_cons_self)]
      · rw [if_neg hxi, if_neg (by simp [hil, Ne.symm hxi])]

theorem view_olTxSchedDispatch (cfg : TxCfg) (storageErr rejects : ℕ → Bool) {frms : ℕ} {head : List ℕ}
    (hnd : (head.take frms).Nodup) (h : HeldBy id msdu s) :
    HeldBy id msdu (olTxSchedDispatch cfg storageErr rejects s frms head) ∧
      (olTxSchedDispatch cfg storageErr rejects s frms head).view id msdu =
        if id ∈ head.take frms then (s.view id msdu).handOff cfg msdu (rejects id)
        else s.view id msdu := by
  obtain ⟨hh, hn, hv⟩ := foldl_dispatchBody_spec cfg storageErr rejects
    (show ([] ++ head.take frms).Nodup from hnd) h
  obtain ⟨hh', hv'⟩ := view_olTxSendBatch cfg rejects hn hh
  refine ⟨hh', hv'.trans (hv.trans ?_)⟩
  simp [batchView]

/-! The download-done callback. -/

theorem HeldBy.noRefs (h : HeldBy id msdu s) : HeldBy id msdu (olTxDescNoRefs s x).1 :=
  h.setDesc (.inl rfl)

theorem HeldBy.downloadDone (h : HeldBy id msdu s) (mode : DownloadMode) (status : AStatus) :
    HeldBy id msdu (olTxDownloadDone cfg mode s x status) := by
  have hbase : HeldBy id msdu (olTxDownloadDoneBase cfg s x status) := by
    cases status with
    | error => exact (h.creditAdjust 1).frameFree
    | ok =>
      simp only [olTxDownloadDoneBase]
      split
      · exact h.noRefs.frameFree
      · exact h.noRefs
  cases mode with
  | ll => exact hbase
  | hlRetain => exact hbase
  | hlFree =>
    simp only [olTxDownloadDone, olTxDownloadDoneHlFree]
    split
    · exact frameFree (hbase.congr rfl)
    · exact hbase

theorem view_olTxDownloadDone (mode : DownloadMode) (status : AStatus) :
    (olTxDownloadDone cfg mode s id status).view id msdu =
      (s.view id msdu).downloadDone cfg msdu mode status := by
  have hbase : (olTxDownloadDoneBase cfg s id status).view id msdu = match status with
      | .error => (s.view id msdu).frameFree cfg msdu
      | .ok => (s.view id msdu).dropRef cfg msdu := by
    cases status with
    | error =>
      simp only [olTxDownloadDoneBase]
      rw [view_frameFree_self, view_creditAdjust]
    | ok =>
      have hv : (olTxDescNoRefs s id).1.view id msdu = _ := view_setDesc_self _
      simp only [olTxDownloadDoneBase, FrameView.dropRef]
      by_cases hl : (s.descs id).refCnt - 1 = 0
      · rw [if_pos (by simpa [olTxDescNoRefs] using hl), view_frameFree_self, hv,
          if_pos (show (s.view id msdu).desc.refCnt - 1 = 0 from hl)]
        rfl
      · rw [if_neg (by simpa [olTxDescNoRefs] using hl), hv,
          if_neg (show ¬ (s.view id msdu).desc.refCnt - 1 = 0 from hl)]
        rfl
  have hd : ((olTxDownloadDoneBase cfg s id status).view id msdu).desc =
      (olTxDownloadDoneBase cfg s id status).descs id := rfl
  cases mode with
  | ll =>
    simp only [FrameView.downloadDone, reduceCtorEq, false_and, if_false]
    exact hbase
  | hlRetain =>
    simp only [FrameView.downloadDone, reduceCtorEq, false_and, if_false]
    exact hbase
  | hlFree =>
    simp only [olTxDownloadDone, olTxDownloadDoneHlFree, FrameView.downloadDone, true_and]
    rw [← hbase, hd]
    split
    · exact view_frameFree_self
    · rfl

end View

/-! ### The completion handler on the view -/

/-- The view of the frame once the descriptors the loop collected have gone back. -/
def ComplLoop.view (cfg : TxCfg) (id : ℕ) (msdu : AdfNbuf) (st : ComplLoop) : FrameView :=
  let v := st.pdev.view id msdu
  let v := { v with returned := v.returned + st.lclFreelist.count id }
  if id ∈ st.txDescs then v.frameFree cfg msdu else v

/-- What the loop keeps: a build collects either for the local freelist or for the batch. -/
structure ComplOk (cfg : TxCfg) (id : ℕ) (msdu : AdfNbuf) (st : ComplLoop) : Prop where
  heldBy : HeldBy id msdu st.pdev
  single : cfg.singleCompletions = true → st.txDescs = []
  batch : cfg.singleCompletions = false → st.lclFreelist = []
  once : st.txDescs.count id ≤ 1

section Completion
variable {cfg : TxCfg} {s : TxPdev} {id x : ℕ} {msdu : AdfNbuf} {st : ComplLoop}
  {status : HttTxStatus}

theorem HeldBy.dropRef (h : HeldBy id msdu s) : HeldBy id msdu (dropRef status s x) := by
  have hs : HeldBy id msdu (s.setDesc x { s.descs x with status := status }) := h.setDesc (.inl rfl)
  exact hs.noRefs

theorem view_dropRef_of_ne (hx : x ≠ id) : (dropRef status s x).view id msdu = s.view id msdu := by
  rw [dropRef, olTxDescNoRefs, view_setDesc_of_ne hx, view_setDesc_of_ne hx]

theorem view_dropRef_self : (dropRef status s id).view id msdu =
    { s.view id msdu with
      desc :=
        { (s.view id msdu).desc with status := status, refCnt := (s.view id msdu).desc.refCnt - 1 } } := by
  rw [dropRef, olTxDescNoRefs, view_setDesc_self, view_setDesc_self]
  simp [TxPdev.view]

theorem ComplOk.mark (h : ComplOk cfg id msdu st) : ComplOk cfg id msdu (markFreed cfg st x) := by
  unfold markFreed
  split
  · exact ⟨h.heldBy.setDesc (.inl rfl), h.single, h.batch, h.once⟩
  · exact h

theorem txDescs_markFreed : (markFreed cfg st x).txDescs = st.txDescs := by
  unfold markFreed
  split <;> rfl

theorem view_markFreed_of_ne (hx : x ≠ id) :
    (markFreed cfg st x).view cfg id msdu = st.view cfg id msdu := by
  unfold markFreed
  split
  · simp [ComplLoop.view, view_setDesc_of_ne hx]
  · rfl

theorem ComplOk.completeSingle (h : ComplOk cfg id msdu st) (hc : cfg.singleCompletions = true) :
    ComplOk cfg id msdu (olTxMsduCompleteSingle st x) where
  heldBy := by
    have hs : HeldBy id msdu
        (st.pdev.setDesc x { st.pdev.descs x with refCnt := 0, word := .next }) :=
      h.heldBy.setDesc (.inr rfl)
    exact hs.congr rfl
  single := h.single
  batch hb := absurd hc (by simp [hb])
  once := h.once

theorem view_completeSingle_of_ne (h : ComplOk cfg id msdu st) (hx : x ≠ id) :
    (olTxMsduCompleteSingle st x).view cfg id msdu = st.view cfg id msdu := by
  have hv : (olTxMsduCompleteSingle st x).pdev.view id msdu = st.pdev.view id msdu := by
    simp [TxPdev.view, olTxMsduCompleteSingle, setDesc, countP_append,
      update_of_ne hx.symm, h.heldBy x hx]
  have hl : (olTxMsduCompleteSingle st x).lclFreelist.count id = st.lclFreelist.count id :=
    count_cons_of_ne hx
  simp only [ComplLoop.view, hv, hl]
  rfl

theorem ComplOk.complete_of_ne (h : ComplOk cfg id msdu st) (hx : x ≠ id) :
    ComplOk cfg id msdu (olTxMsduComplete cfg status st x) ∧
      (id ∈ (olTxMsduComplete cfg status st x).txDescs ↔ id ∈ st.txDescs) ∧
      (olTxMsduComplete cfg status st x).view cfg id msdu = st.view cfg id msdu := by
  unfold olTxMsduComplete
  split_ifs with hp hc
  · refine ⟨(h.completeSingle hc).mark, by rw [txDescs_markFreed]; rfl, ?_⟩
    rw [view_markFreed_of_ne hx, view_completeSingle_of_ne h hx]
  · have hb : ComplOk cfg id msdu { st with txDescs := st.txDescs ++ [x] } :=
      ⟨h.heldBy, fun hc' => absurd hc' hc, h.batch, by simpa [count_append, hx] using h.once⟩
    refine ⟨hb.mark, by rw [txDescs_markFreed]; simp [hx.symm], ?_⟩
    rw [view_markFreed_of_ne hx]
    simp [ComplLoop.view, hx.symm]
  · refine ⟨⟨h.heldBy.frameFree, h.single, h.batch, h.once⟩, Iff.rfl, ?_⟩
    simp [ComplLoop.view, view_frameFree_of_ne h.heldBy hx]

theorem ComplOk.complete_self (status : HttTxStatus) (h : ComplOk cfg id msdu st) (hid : id ∉ st.txDescs) :
    ComplOk cfg id msdu (olTxMsduComplete cfg status st id) ∧
      (olTxMsduComplete cfg status st id).view cfg id msdu =
        (st.view cfg id msdu).frameFree cfg msdu := by
  unfold olTxMsduComplete
  split_ifs with hp hc
  · refine ⟨(h.completeSingle hc).mark, ?_⟩
    by_cases hs : cfg.sanity <;> by_cases hw : (st.pdev.descs id).word = .netbuf msdu <;>
      simp [ComplLoop.view, TxPdev.view, markFreed, olTxMsduCompleteSingle, setDesc,
        frameFree, countP_append, hs, hw, hid, add_assoc]
  · have hb : ComplOk cfg id msdu { st with txDescs := st.txDescs ++ [id] } :=
      ⟨h.heldBy, fun hc' => absurd hc' hc, h.batch,
        by simp [count_append, count_eq_zero.2 hid]⟩
    refine ⟨hb.mark, ?_⟩
    by_cases hs : cfg.sanity <;>
      simp [ComplLoop.view, TxPdev.view, markFreed, setDesc, frameFree, hs, hid]
  · refine ⟨⟨h.heldBy.frameFree, h.single, h.batch, h.once⟩, ?_⟩
    rw [ComplLoop.view, ComplLoop.view, if_neg hid, if_neg hid, view_frameFree_self]
    simp [frameFree]
    omega

theorem ComplOk.body_of_ne (status : HttTxStatus) (h : ComplOk cfg id msdu st) (hx : x ≠ id) :
    ComplOk cfg id msdu (complBody cfg status st x) ∧
      (id ∈ (complBody cfg status st x).txDescs ↔ id ∈ st.txDescs) ∧
      (complBody cfg status st x).view cfg id msdu = st.view cfg id msdu := by
  have hd : ComplOk cfg id msdu { st with pdev := dropRef status st.pdev x } :=
    ⟨h.heldBy.dropRef, h.single, h.batch, h.once⟩
  have hv : ComplLoop.view cfg id msdu { st with pdev := dropRef status st.pdev x } =
      st.view cfg id msdu := by
    simp [ComplLoop.view, view_dropRef_of_ne hx]
  rw [complBody_eq]
  split_ifs
  · exact ⟨h, Iff.rfl, rfl⟩
  · obtain ⟨hc, hm, hcv⟩ := hd.complete_of_ne hx
    exact ⟨hc, hm, hcv.trans hv⟩
  · exact ⟨hd, Iff.rfl, hv⟩

theorem ComplOk.body_self (status : HttTxStatus) (h : ComplOk cfg id msdu st) (hlt : id < st.pdev.poolSize)
    (hid : id ∉ st.txDescs) :
    ComplOk cfg id msdu (complBody cfg status st id) ∧
      (complBody cfg status st id).view cfg id msdu =
        (st.view cfg id msdu).completion cfg msdu status := by
  have hd : ComplOk cfg id msdu { st with pdev := dropRef status st.pdev id } :=
    ⟨h.heldBy.dropRef, h.single, h.batch, h.once⟩
  have hv : ComplLoop.view cfg id msdu { st with pdev := dropRef status st.pdev id } =
      { st.view cfg id msdu with
        desc :=
          { (st.view cfg id msdu).desc with
            status := status, refCnt := (st.view cfg id msdu).desc.refCnt - 1 } } := by
    simp [ComplLoop.view, if_neg hid, view_dropRef_self]
  have hdesc : (st.view cfg id msdu).desc = st.pdev.descs id := by
    simp only [ComplLoop.view, if_neg hid]
    rfl
  rw [complBody_eq, if_neg (by omega)]
  split_ifs with hl
  · obtain ⟨hc, hcv⟩ := hd.complete_self status hid
    refine ⟨hc, hcv.trans ?_⟩
    rw [hv, FrameView.completion, FrameView.dropRef, if_pos]
    rw [hdesc]
    exact hl
  · refine ⟨hd, hv.trans ?_⟩
    rw [FrameView.completion, FrameView.dropRef, if_neg]
    rw [hdesc]
    exact hl

theorem ComplOk.foldl_of_notMem (status : HttTxStatus) {ids : List ℕ} (h : ComplOk cfg id msdu st) (hid : id ∉ ids) :
    ComplOk cfg id msdu (ids.foldl (complBody cfg status) st) ∧
      (id ∈ (ids.foldl (complBody cfg status) st).txDescs ↔ id ∈ st.txDescs) ∧
      (ids.foldl (complBody cfg status) st).view cfg id msdu = st.view cfg id msdu := by
  induction ids generalizing st with
  | nil => exact ⟨h, Iff.rfl, rfl⟩
  | cons x ids ih =>
    obtain ⟨hx, hids⟩ := not_or.1 (mt mem_cons.2 hid)
    obtain ⟨hb, hm, hv⟩ := h.body_of_ne status (Ne.symm hx)
    obtain ⟨h', hm', hv'⟩ := ih hb hids
    exact ⟨h', hm'.trans hm, hv'.trans hv⟩

theorem poolSize_complBody : (complBody cfg status st x).pdev.poolSize = st.pdev.poolSize := by
  rw [complBody_eq]
  split_ifs
  · rfl
  · unfold olTxMsduComplete markFreed
    split_ifs <;> rfl
  · rfl

theorem poolSize_foldl_complBody (ids : List ℕ) :
    (ids.foldl (complBody cfg status) st).pdev.poolSize = st.pdev.poolSize := by
  induction ids generalizing st with
  | nil => rfl
  | cons x ids ih => exact ih.trans poolSize_complBody

theorem ComplOk.foldl_of_count (status : HttTxStatus) {ids : List ℕ} (h : ComplOk cfg id msdu st)
    (hlt : id < st.pdev.poolSize) (hid : id ∉ st.txDescs) (hcount : ids.count id = 1) :
    ComplOk cfg id msdu (ids.foldl (complBody cfg status) st) ∧
      (ids.foldl (complBody cfg status) st).view cfg id msdu =
        (st.view cfg id msdu).completion cfg msdu status := by
  obtain ⟨l₁, l₂, rfl⟩ := append_of_mem (count_pos_iff.1 (hcount ▸ Nat.one_pos))
  rw [count_append, count_cons_self] at hcount
  have h₁ : id ∉ l₁ := count_eq_zero.1 (by omega)
  have h₂ : id ∉ l₂ := count_eq_zero.1 (by omega)
  obtain ⟨hc₁, hm₁, hv₁⟩ := h.foldl_of_notMem status h₁
  obtain ⟨hc, hv⟩ := hc₁.body_self status
    (by rw [poolSize_foldl_complBody]; exact hlt) (mt hm₁.1 hid)
  obtain ⟨hc₂, -, hv₂⟩ := hc.foldl_of_notMem status h₂
  rw [foldl_append, foldl_cons]
  exact ⟨hc₂, by rw [hv₂, hv, hv₁]⟩

theorem view_frameListFree (cfg : TxCfg) (hadError : Bool) {l : List ℕ} (hl : l.count id ≤ 1)
    (h : HeldBy id msdu s) : HeldBy id msdu (olTxDescFrameListFree cfg s l hadError) ∧
      (olTxDescFrameListFree cfg s l hadError).view id msdu =
        if id ∈ l then (s.view id msdu).frameFree cfg msdu else s.view id msdu := by
  induction l generalizing s with
  | nil => exact ⟨h, rfl⟩
  | cons x l ih =>
    have h₁ : HeldBy id msdu (s.setDesc x { s.descs x with refCnt := 0 }) := h.setDesc (.inl rfl)
    have hx : HeldBy id msdu (frameListFreeBody cfg hadError s x) := HeldBy.free (h₁.congr rfl)
    have hle : l.count id ≤ 1 := (count_le_count_cons).trans hl
    obtain ⟨hh, hv⟩ := ih hle hx
    refine ⟨hh, hv.trans ?_⟩
    by_cases hxi : x = id
    · subst hxi
      rw [count_cons_self] at hl
      have hxl : x ∉ l := count_eq_zero.1 (by omega)
      rw [if_neg hxl, if_pos mem_cons_self]
      by_cases hs : cfg.sanity <;> by_cases hw : (s.descs x).word = .netbuf msdu <;>
        simp [TxPdev.view, frameListFreeBody, olTxDescFree, setDesc, frameFree,
          countP_append, hs, hw]
    · have hvx : (frameListFreeBody cfg hadError s x).view id msdu = s.view id msdu := by
        simp [TxPdev.view, frameListFreeBody, olTxDescFree, setDesc, countP_append,
          update_of_ne (Ne.symm hxi), count_cons_of_ne hxi, h x hxi]
      rw [hvx]
      simp [Ne.symm hxi]

theorem view_completion_end {ids : List ℕ}
    (hst : ComplOk cfg id msdu (ids.foldl (complBody cfg status) ⟨s, [], []⟩)) :
    HeldBy id msdu (olTxCompletionHandler cfg s ids status) ∧
      (olTxCompletionHandler cfg s ids status).view id msdu =
        (ids.foldl (complBody cfg status) ⟨s, [], []⟩).view cfg id msdu := by
  simp only [olTxCompletionHandler]
  generalize ids.foldl (complBody cfg status) ⟨s, [], []⟩ = st at hst ⊢
  -- the count of the messages is no part of the frame
  have hend : ∀ t : TxPdev, HeldBy id msdu t → t.view id msdu = st.view cfg id msdu →
      HeldBy id msdu (if cfg.isHighLatency then { t with rsrcCnt := t.rsrcCnt + ids.length }
        else olTxTargetCreditAdjust cfg t ids.length) ∧
      (if cfg.isHighLatency then { t with rsrcCnt := t.rsrcCnt + ids.length }
        else olTxTargetCreditAdjust cfg t ids.length).view id msdu = st.view cfg id msdu := by
    intro t ht htv
    split
    · exact ⟨ht.congr rfl, htv⟩
    · exact ⟨ht.creditAdjust _, (view_creditAdjust _).trans htv⟩
  by_cases hl : st.lclFreelist = []
  · obtain ⟨hh, hv⟩ := view_frameListFree cfg (status != .ok) hst.once hst.heldBy
    rw [if_neg (not_not.2 hl)]
    refine hend _ hh (hv.trans ?_)
    simp [ComplLoop.view, hl]
  · have htx : st.txDescs = [] := by
      by_contra hne
      cases hc : cfg.singleCompletions
      · exact hl (hst.batch hc)
      · exact hne (hst.single hc)
    rw [if_pos hl]
    refine hend _ (hst.heldBy.congr rfl) ?_
    simp [ComplLoop.view, htx, TxPdev.view, count_append, add_comm]

theorem complOk_start (h : HeldBy id msdu s) : ComplOk cfg id msdu ⟨s, [], []⟩ :=
  ⟨h, fun _ => rfl, fun _ => rfl, zero_le _⟩

theorem view_olTxCompletionHandler (cfg : TxCfg) (status : HttTxStatus) {ids : List ℕ} (h : HeldBy id msdu s) (hlt : id < s.poolSize)
    (hcount : ids.count id = 1) : HeldBy id msdu (olTxCompletionHandler cfg s ids status) ∧
      (olTxCompletionHandler cfg s ids status).view id msdu =
        (s.view id msdu).completion cfg msdu status := by
  obtain ⟨hok, hv⟩ := (complOk_start h).foldl_of_count status hlt not_mem_nil hcount
  obtain ⟨hh, hv'⟩ := view_completion_end hok
  exact ⟨hh, hv'.trans hv⟩

theorem view_olTxCompletionHandler_of_notMem {ids : List ℕ} (h : HeldBy id msdu s) (hid : id ∉ ids) :
    HeldBy id msdu (olTxCompletionHandler cfg s ids status) ∧
      (olTxCompletionHandler cfg s ids status).view id msdu = s.view id msdu := by
  obtain ⟨hok, -, hv⟩ := (complOk_start h).foldl_of_notMem status hid
  obtain ⟨hh, hv'⟩ := view_completion_end hok
  exact ⟨hh, hv'.trans hv⟩

end Completion

/-! ### The run of a frame -/

/-- Where the frame is: with the host, back after a hand-off that failed, or handed down with the download-done callback or the completion still to come. -/
inductive FramePhase where
  | held
  | failed
  | handed (downloadDue completionDue : Bool)
deriving DecidableEq

structure FrameRun where
  pdev : TxPdev
  phase : FramePhase

structure Elsewhere (id : Nat) (msdu : AdfNbuf) where
  act : TxPdev → TxPdev
  heldBy_act : ∀ s, HeldBy id msdu s → HeldBy id msdu (act s)
  view_act : ∀ s, HeldBy id msdu s → (act s).view id msdu = s.view id msdu

def Elsewhere.completion {id : Nat} {msdu : AdfNbuf} (cfg : TxCfg) (descIds : List Nat)
    (status : HttTxStatus) (hid : id ∉ descIds) : Elsewhere id msdu where
  act s := olTxCompletionHandler cfg s descIds status
  heldBy_act _ h := (view_olTxCompletionHandler_of_notMem h hid).1
  view_act _ h := (view_olTxCompletionHandler_of_notMem h hid).2

inductive FrameEvent (id : Nat) (msdu : AdfNbuf) where
  | send (failed : Bool)
  | sendNonstd (failed : Bool)
  | dispatch (storageErr rejects : Nat → Bool) (frms : Nat) (head : List Nat)
  | downloadDone (status : AStatus)
  | completion (descIds : List Nat) (status : HttTxStatus)
  | elsewhere (e : Elsewhere id msdu)

section Machine
variable (cfg : TxCfg) (mode : DownloadMode) (id : Nat) (msdu : AdfNbuf)

def FramePhase.afterHandOff (failed : Bool) : FramePhase :=
  if failed then .failed else .handed true true

/-- One event.  The frame is handed down once, has one download-done callback, and at most one completion. -/
def frameStep (r : FrameRun) : FrameEvent id msdu → Option FrameRun
  | .send failed => do
    guard (r.phase = .held)
    return ⟨olTxSend cfg r.pdev id failed, .afterHandOff failed⟩
  | .sendNonstd failed => do
    guard (r.phase = .held)
    return ⟨olTxSendNonstd cfg r.pdev id failed, .afterHandOff failed⟩
  | .dispatch storageErr rejects frms head => do
    guard (r.phase = .held ∧ id ∈ head.take frms ∧ (head.take frms).Nodup)
    return ⟨olTxSchedDispatch cfg storageErr rejects r.pdev frms head, .afterHandOff (rejects id)⟩
  | .downloadDone status =>
    match r.phase with
    | .handed true completionDue =>
      some ⟨olTxDownloadDone cfg mode r.pdev id status, .handed false completionDue⟩
    | _ => none
  | .completion descIds status =>
    match r.phase with
    | .handed downloadDue true => do
      guard (descIds.count id = 1)
      return ⟨olTxCompletionHandler cfg r.pdev descIds status, .handed downloadDue false⟩
    | _ => none
  | .elsewhere e => some { r with pdev := e.act r.pdev }

/-- The runs of the frame, from where its descriptor has been filled in. -/
def frameMachine : Machine FrameRun (FrameEvent id msdu) where
  init r := r.phase = .held ∧ id < r.pdev.poolSize ∧ HeldBy id msdu r.pdev ∧
    (r.pdev.descs id).word = .netbuf msdu ∧ id ∉ r.pdev.freelist ∧
    ∀ x ∈ r.pdev.released, x.word ≠ .netbuf msdu
  step := frameStep cfg mode id msdu

/-- The descriptor is returned as often as the frame is released, which is once at most, and once when the hand-off failed or both references are gone. -/
def ReleasedOnce (r : FrameRun) : Prop :=
  (r.pdev.view id msdu).released = (r.pdev.view id msdu).returned ∧
    (r.pdev.view id msdu).returned ≤ 1 ∧
    (r.phase = .failed ∨ r.phase = .handed false false → (r.pdev.view id msdu).returned = 1)

/-- `ol_tx_download_done_hl_free` frees frames of this type at the download. -/
def FreedAtDownload (pktType : Nat) : Prop :=
  pktType ≠ olTxFrmNoFree ∧ pktType < olTxrxMgmtTypeBase
deriving Decidable

/-- A download-done callback that frees the frame once: another mode or type, a build whose descriptors are marked once they are free, or a download that succeeds before the completion. -/
def DownloadOk (r : FrameRun) : FrameEvent id msdu → Prop
  | .downloadDone status =>
    mode = .hlFree → FreedAtDownload (r.pdev.descs id).pktType →
      cfg.sanity = true ∨ (status = .ok ∧ r.phase = .handed true true)
  | _ => True

end Machine

/-! ### The frame's invariant -/

namespace FrameView
variable {cfg : TxCfg} {msdu : AdfNbuf} {mode : DownloadMode} {v : FrameView} {c : Bool}

structure Whole (msdu : AdfNbuf) (v : FrameView) : Prop where
  word : v.desc.word = .netbuf msdu
  returned : v.returned = 0
  released : v.released = 0

structure Back (v : FrameView) : Prop where
  returned : v.returned = 1
  released : v.released = 1

/-- What the view of the frame is in each phase. -/
def PhaseOk (msdu : AdfNbuf) (v : FrameView) : FramePhase → Prop
  | .held => v.Whole msdu
  | .failed => v.Back
  | .handed true true => v.Whole msdu ∧ v.desc.refCnt = 2
  | .handed true false => v.Whole msdu ∧ v.desc.refCnt = 1
  | .handed false true => (v.Whole msdu ∧ v.desc.refCnt = 1) ∨ (v.Back ∧ v.desc.refCnt ≤ 0)
  | .handed false false => v.Back

theorem Whole.frameFree (h : v.Whole msdu) : (v.frameFree cfg msdu).Back where
  returned := by rw [FrameView.frameFree, h.returned]
  released := by rw [FrameView.frameFree, h.released, if_pos h.word]

theorem Whole.congr (h : v.Whole msdu) {desc : OlTxDesc} (hw : desc.word = v.desc.word) :
    ({ v with desc := desc } : FrameView).Whole msdu :=
  ⟨hw.trans h.word, h.returned, h.released⟩

theorem PhaseOk.handOff (h : v.PhaseOk msdu .held) (failed : Bool) :
    (v.handOff cfg msdu failed).PhaseOk msdu (.afterHandOff failed) := by
  have hw : ({ v with desc := { v.desc with refCnt := 2 } } : FrameView).Whole msdu :=
    Whole.congr h rfl
  cases failed with
  | true => exact hw.frameFree
  | false => exact ⟨hw, rfl⟩

theorem Whole.dropRef_one (h : v.Whole msdu) (hr : v.desc.refCnt = 1) :
    (v.dropRef cfg msdu).Back ∧ (v.dropRef cfg msdu).desc.refCnt = 0 := by
  have hw : ({ v with desc := { v.desc with refCnt := v.desc.refCnt - 1 } } : FrameView).Whole msdu :=
    h.congr rfl
  rw [dropRef, if_pos (by rw [hr]; rfl)]
  exact ⟨hw.frameFree, rfl⟩

theorem Whole.dropRef_two (h : v.Whole msdu) (hr : v.desc.refCnt = 2) :
    (v.dropRef cfg msdu).Whole msdu ∧ (v.dropRef cfg msdu).desc.refCnt = 1 := by
  rw [dropRef, if_neg (show ¬ v.desc.refCnt - 1 = 0 by omega)]
  exact ⟨h.congr rfl, by rw [hr]; rfl⟩

theorem Back.dropRef (h : v.Back) (hr : v.desc.refCnt ≤ 0) : (v.dropRef cfg msdu).Back := by
  rw [FrameView.dropRef, if_neg (by simp only; omega)]
  exact ⟨h.returned, h.released⟩

theorem PhaseOk.completion {status : HttTxStatus} (h : v.PhaseOk msdu (.handed c true)) :
    (v.completion cfg msdu status).PhaseOk msdu (.handed c false) := by
  have hs : v.Whole msdu →
      ({ v with desc := { v.desc with status := status } } : FrameView).Whole msdu :=
    fun hw => hw.congr rfl
  cases c with
  | true => exact (hs h.1).dropRef_two h.2
  | false =>
    rcases h with ⟨hw, hr⟩ | ⟨hb, hr⟩
    · exact ((hs hw).dropRef_one hr).1
    · exact Back.dropRef ⟨hb.returned, hb.released⟩ hr

/-- What `ol_tx_download_done_base` does. -/
def downloadBase (cfg : TxCfg) (msdu : AdfNbuf) (status : AStatus) (v : FrameView) : FrameView :=
  match status with
  | .error => v.frameFree cfg msdu
  | .ok => v.dropRef cfg msdu

theorem downloadDone_eq {status : AStatus} : v.downloadDone cfg msdu mode status =
    if mode = .hlFree ∧ FreedAtDownload (v.downloadBase cfg msdu status).desc.pktType then
      (v.downloadBase cfg msdu status).frameFree cfg msdu
    else v.downloadBase cfg msdu status := by
  cases status <;> rfl

/-- The base callback frees the frame unless the download succeeds before the completion. -/
theorem PhaseOk.downloadBase (cfg : TxCfg) (status : AStatus) (h : v.PhaseOk msdu (.handed true c)) :
    ((v.downloadBase cfg msdu status).Back ∧ (v.downloadBase cfg msdu status).desc.refCnt = 0 ∧
        (v.downloadBase cfg msdu status).desc.pktType =
          if cfg.sanity then olTxFrmFreed else v.desc.pktType) ∧ (status = .error ∨ c = false) ∨
      ((v.downloadBase cfg msdu status).Whole msdu ∧
        (v.downloadBase cfg msdu status).desc.refCnt = 1) ∧ status = .ok ∧ c = true := by
  have hw : v.Whole msdu := by cases c <;> exact h.1
  cases status with
  | error => exact .inl ⟨⟨hw.frameFree, rfl, rfl⟩, .inl rfl⟩
  | ok =>
    cases c with
    | true => exact .inr ⟨hw.dropRef_two h.2, rfl, rfl⟩
    | false =>
      refine .inl ⟨⟨(hw.dropRef_one h.2).1, (hw.dropRef_one h.2).2, ?_⟩, .inr rfl⟩
      rw [downloadBase, dropRef, if_pos (show v.desc.refCnt - 1 = 0 by rw [h.2]; rfl)]
      rfl

theorem PhaseOk.downloadDone {status : AStatus} (h : v.PhaseOk msdu (.handed true c))
    (hok : mode = .hlFree → FreedAtDownload v.desc.pktType →
      cfg.sanity = true ∨ (status = .ok ∧ c = true)) :
    (v.downloadDone cfg msdu mode status).PhaseOk msdu (.handed false c) := by
  rw [downloadDone_eq]
  rcases h.downloadBase cfg status with
    ⟨⟨hb, hr, hp⟩, hfree⟩ | ⟨⟨hw, hr⟩, -, rfl⟩
  · -- freed by the base: the mode does not free it again
    rw [if_neg]
    · cases c
      · exact hb
      · exact .inr ⟨hb, Int.le_of_eq hr⟩
    · rintro ⟨hm, hp'⟩
      rw [hp] at hp'
      cases hs : cfg.sanity
      · rw [hs] at hp'
        rcases hok hm hp' with hs' | ⟨rfl, rfl⟩
        · rw [hs] at hs'
          cases hs'
        · rcases hfree with h | h <;> cases h
      · rw [hs] at hp'
        exact absurd hp'.2 (by simp [olTxFrmFreed, olTxrxMgmtTypeBase])
  · split
    · exact .inr ⟨hw.frameFree, Int.le_refl 0⟩
    · exact .inl ⟨hw, hr⟩

theorem PhaseOk.downloadDone_twice {status : AStatus} (h : v.PhaseOk msdu (.handed true c))
    (hm : mode = .hlFree) (hp : FreedAtDownload v.desc.pktType) (hs : cfg.sanity = false)
    (hlate : ¬ (status = .ok ∧ c = true)) :
    (v.downloadDone cfg msdu mode status).returned = 2 := by
  rw [downloadDone_eq]
  rcases h.downloadBase cfg status with ⟨⟨hb, -, hpt⟩, -⟩ | ⟨-, h⟩
  · rw [if_pos ⟨hm, by rw [hpt, hs]; exact hp⟩, frameFree, hb.returned]
  · exact absurd h hlate

theorem PhaseOk.releasedOnce {p : FramePhase} (h : v.PhaseOk msdu p) :
    v.released = v.returned ∧ v.returned ≤ 1 ∧
      (p = .failed ∨ p = .handed false false → v.returned = 1) := by
  have hback : v.Back → v.released = v.returned ∧ v.returned ≤ 1 ∧
      (p = .failed ∨ p = .handed false false → v.returned = 1) :=
    fun hb => ⟨by rw [hb.returned, hb.released], hb.returned.le, fun _ => hb.returned⟩
  have hwhole : v.Whole msdu → p ≠ .failed → p ≠ .handed false false →
      v.released = v.returned ∧ v.returned ≤ 1 ∧
        (p = .failed ∨ p = .handed false false → v.returned = 1) := by
    intro hw h₁ h₂
    refine ⟨by rw [hw.returned, hw.released], by rw [hw.returned]; exact zero_le 1, ?_⟩
    rintro (rfl | rfl)
    · exact absurd rfl h₁
    · exact absurd rfl h₂
  match p, h with
  | .held, h => exact hwhole h nofun nofun
  | .failed, h => exact hback h
  | .handed true true, h => exact hwhole h.1 nofun nofun
  | .handed true false, h => exact hwhole h.1 nofun nofun
  | .handed false true, .inl h => exact hwhole h.1 nofun nofun
  | .handed false true, .inr h => exact hback h.1
  | .handed false false, h => exact hback h

end FrameView

/-! ### The run -/

structure FrameInv (id : ℕ) (msdu : AdfNbuf) (r : FrameRun) : Prop where
  heldBy : HeldBy id msdu r.pdev
  valid : (r.pdev.view id msdu).poolSize > id
  phase : (r.pdev.view id msdu).PhaseOk msdu r.phase

section Run
variable {cfg : TxCfg} {mode : DownloadMode} {id : ℕ} {msdu : AdfNbuf} {r r' : FrameRun}

theorem FrameInv.releasedOnce (h : FrameInv id msdu r) : ReleasedOnce id msdu r :=
  h.phase.releasedOnce

theorem frameInv_init (h : (frameMachine cfg mode id msdu).init r) : FrameInv id msdu r := by
  obtain ⟨hp, hlt, hh, hw, hf, hr⟩ := h
  refine ⟨hh, hlt, ?_⟩
  rw [hp]
  refine ⟨hw, count_eq_zero.2 hf, countP_eq_zero.2 fun x hx => ?_⟩
  simpa using hr x hx

theorem FrameInv.handOff (h : FrameInv id msdu r) (hp : r.phase = .held) {t : TxPdev}
    {failed : Bool} (hh : HeldBy id msdu t)
    (hv : t.view id msdu = (r.pdev.view id msdu).handOff cfg msdu failed) :
    FrameInv id msdu ⟨t, .afterHandOff failed⟩ := by
  have hph := h.phase
  rw [hp] at hph
  refine ⟨hh, ?_, ?_⟩
  · rw [hv]
    cases failed <;> exact h.valid
  · rw [hv]
    exact hph.handOff failed

theorem poolSize_downloadDone {v : FrameView} {status : AStatus} :
    (v.downloadDone cfg msdu mode status).poolSize = v.poolSize := by
  have hdrop : (v.dropRef cfg msdu).poolSize = v.poolSize := by
    simp only [FrameView.dropRef]
    split <;> rfl
  rw [downloadDone_eq]
  cases status with
  | error => split <;> rfl
  | ok => split <;> exact hdrop

theorem poolSize_completion {v : FrameView} {status : HttTxStatus} :
    (v.completion cfg msdu status).poolSize = v.poolSize := by
  simp only [FrameView.completion, FrameView.dropRef]
  split <;> rfl

theorem FrameInv.downloadDone (h : FrameInv id msdu r) {status : AStatus}
    (he : frameStep cfg mode id msdu r (.downloadDone status) = some r') :
    (DownloadOk cfg mode id msdu r (.downloadDone status) → FrameInv id msdu r') ∧
      (¬ DownloadOk cfg mode id msdu r (.downloadDone status) →
        (r'.pdev.view id msdu).returned = 2) := by
  obtain ⟨s, p⟩ := r
  simp only [frameStep] at he
  split at he
  · next c =>
    obtain rfl := some.inj he
    have hv : (olTxDownloadDone cfg mode s id status).view id msdu = _ :=
      view_olTxDownloadDone mode status
    constructor
    · intro hok
      refine ⟨h.heldBy.downloadDone mode status, ?_, ?_⟩
      · rw [hv, poolSize_downloadDone]
        exact h.valid
      · rw [hv]
        refine h.phase.downloadDone fun hm hp => ?_
        refine (hok hm hp).imp_right (And.imp_right fun hc => ?_)
        cases hc
        rfl
    · intro hbad
      simp only [DownloadOk, Classical.not_imp, not_or, Bool.not_eq_true] at hbad
      obtain ⟨hm, hp, hs, hlate⟩ := hbad
      rw [hv]
      refine h.phase.downloadDone_twice hm hp hs fun hc => hlate ⟨hc.1, ?_⟩
      rw [hc.2]
  · cases he

theorem FrameInv.step (h : FrameInv id msdu r) {e : FrameEvent id msdu}
    (hok : DownloadOk cfg mode id msdu r e) (he : frameStep cfg mode id msdu r e = some r') :
    FrameInv id msdu r' := by
  cases e with
  | send failed =>
    obtain ⟨hp, rfl⟩ := guarded_eq_some.1 he
    exact h.handOff hp (h.heldBy.sendWith failed) (view_txSendWith failed)
  | sendNonstd failed =>
    obtain ⟨hp, rfl⟩ := guarded_eq_some.1 he
    exact h.handOff hp (h.heldBy.sendWith failed) (view_txSendWith failed)
  | dispatch storageErr rejects frms head =>
    obtain ⟨⟨hp, hid, hnd⟩, rfl⟩ := guarded_eq_some.1 he
    obtain ⟨hh, hv⟩ := view_olTxSchedDispatch cfg storageErr rejects hnd h.heldBy
    rw [if_pos hid] at hv
    exact h.handOff hp hh hv
  | downloadDone status => exact (h.downloadDone he).1 hok
  | completion descIds status =>
    obtain ⟨s, p⟩ := r
    simp only [frameStep] at he
    split at he
    · next d =>
      obtain ⟨hcount, rfl⟩ := guarded_eq_some.1 he
      obtain ⟨hh, hv⟩ := view_olTxCompletionHandler cfg status h.heldBy h.valid hcount
      refine ⟨hh, ?_, ?_⟩
      · rw [hv, poolSize_completion]
        exact h.valid
      · rw [hv]
        exact h.phase.completion
    · cases he
  | elsewhere e =>
    obtain rfl := some.inj he
    refine ⟨e.heldBy_act _ h.heldBy, ?_, ?_⟩
    · rw [e.view_act _ h.heldBy]
      exact h.valid
    · change ((e.act r.pdev).view id msdu).PhaseOk msdu r.phase
      rw [e.view_act _ h.heldBy]
      exact h.phase

/-- **A tx frame is released once** in every run whose download-done callback meets `DownloadOk`, and a callback that does not is where the frame goes back twice. -/
theorem frame_released_once (cfg : TxCfg) (mode : DownloadMode) (id : ℕ) (msdu : AdfNbuf)
    (r : FrameRun)
    (t : (frameMachine cfg mode id msdu).Reach (DownloadOk cfg mode id msdu) r) :
    ReleasedOnce id msdu r ∧ ∀ e r', frameStep cfg mode id msdu r e = some r' →
      (ReleasedOnce id msdu r' ↔ DownloadOk cfg mode id msdu r e) := by
  have h : FrameInv id msdu r := t.invariant (FrameInv id msdu) (fun _ => frameInv_init)
    fun _ _ _ h hok he => h.step hok he
  refine ⟨h.releasedOnce, fun e r' he => ⟨fun hr' => ?_, fun hok => (h.step hok he).releasedOnce⟩⟩
  cases e with
  | downloadDone status =>
    by_contra hbad
    have := (h.downloadDone he).2 hbad
    have := hr'.2.1
    omega
  | _ => trivial

end Run

/-! ### Two runs -/

instance (cfg : TxCfg) (mode : DownloadMode) (id : ℕ) (msdu : AdfNbuf) (r : FrameRun)
    (e : FrameEvent id msdu) : Decidable (DownloadOk cfg mode id msdu r e) := by
  cases e <;> unfold DownloadOk <;> infer_instance

/-- A high-latency build without the sanity marks. -/
def hlCfg : TxCfg where
  sanity := false
  singleCompletions := false
  tracksCredit := true
  isHighLatency := true
  txDataCallback := false

/-- Frame 10 is in descriptor 0, frame 11 in descriptor 1; descriptor 2 is free. -/
def heldFrame : FrameRun where
  pdev :=
    { poolSize := 3
      descs := fun x => ⟨if x < 2 then .netbuf (10 + x) else .next, 0, .ok, olTxFrmStd⟩
      freelist := [2]
      numFree := 1
      rsrcCnt := 1
      targetTxCredit := 8
      released := [] }
  phase := .held

theorem heldFrame_init (cfg : TxCfg) (mode : DownloadMode) :
    (frameMachine cfg mode 0 10).init heldFrame := by
  refine ⟨rfl, by decide, fun x hx => ?_, rfl, by decide, nofun⟩
  by_cases hlt : x < 2
  · obtain rfl : x = 1 := by omega
    decide
  · have hw : (heldFrame.pdev.descs x).word = .next := if_neg hlt
    rw [hw]
    exact nofun

/-- The completion overtakes the download-done callback. -/
def overtaken : List (FrameEvent 0 10) :=
  [.dispatch (fun _ => false) (fun x => x == 1) 2 [1, 0], .completion [0] .noAck,
    .elsewhere (.completion hlCfg [1] .ok (by decide)), .downloadDone .ok]

theorem overtaken_released_once : ∃ r,
    (frameMachine hlCfg .hlRetain 0 10).run heldFrame overtaken = some r ∧
      ReleasedOnce 0 10 r ∧ ∀ e r', frameStep hlCfg .hlRetain 0 10 r e = some r' →
        (ReleasedOnce 0 10 r' ↔ DownloadOk hlCfg .hlRetain 0 10 r e) := by
  have halong : (frameMachine hlCfg .hlRetain 0 10).Along (DownloadOk hlCfg .hlRetain 0 10)
      heldFrame overtaken := by decide
  refine ⟨_, rfl, frame_released_once hlCfg .hlRetain 0 10 _ ?_⟩
  exact Machine.Reach.run (.start (heldFrame_init _ _)) halong rfl

/-- A download that fails in the mode that frees frames at their download: the descriptor goes on the freelist twice. -/
theorem failed_download_frees_twice : ∃ r,
    (frameMachine hlCfg .hlFree 0 10).run heldFrame [.send false, .downloadDone .error] = some r ∧
      r.pdev.freelist = [0, 0, 2] ∧ ¬ ReleasedOnce 0 10 r := by
  refine ⟨_, rfl, by decide, fun h => ?_⟩
  have := h.2.1
  contradiction

end Qcacld.Txrx

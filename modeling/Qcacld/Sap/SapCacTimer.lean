import Qcacld.Sap.SapFsm
import Qcacld.Support.Pointwise

/-!
# Sap — SapCacTimer

The timer of the channel availability check, in every run of the sessions of `Sap.SapFsm`.  `is_dfs_cac_timer_running` says that the timer is initialised: it runs, or it has run out and its callback is to come.  A session that is up has its name in `sapCtxList`, and the timer is taken down with the last of them, so that the callback always finds a session.
-/

namespace Qcacld.Sap
open Qcacld.Support Function List SapAps

variable {cfg : SapConfig} {a : SapAround} {s s' : SapAps} {i j : Intf}

/-! ### The flag -/

/-- The flag tells whether the timer is initialised. -/
def SapAps.TimerRight (s : SapAps) : Prop :=
  s.dfs.isDfsCacTimerRunning = true ↔
    s.dfs.sapDfsCacTimer = .running ∨ s.dfs.sapDfsCacTimer = .stopped ∧ 0 < s.posted

instance (s : SapAps) : Decidable s.TimerRight := inferInstanceAs (Decidable (_ ↔ _))

/-- The sessions that are up are named, and the timer is there for one of them. -/
structure SapInv (s : SapAps) : Prop where
  named : ∀ i, (s.sessions i).sapsMachine ≠ .disconnected → s.sapCtxList i = true
  flag : s.dfs.isDfsCacTimerRunning = true ↔ s.dfs.sapDfsCacTimer ≠ .unused
  posted : s.dfs.sapDfsCacTimer = .stopped → 0 < s.posted
  owned : s.dfs.isDfsCacTimerRunning = true → ∃ i, s.sapCtxList i = true

open SapInv

theorem SapInv.timerRight (h : SapInv s) : s.TimerRight := by
  rw [SapAps.TimerRight, h.flag]
  cases ht : s.dfs.sapDfsCacTimer with
  | unused => simp
  | stopped => simpa using h.posted ht
  | running => simp

namespace SapInv

theorem modify (h : SapInv s) (hi : s.sapCtxList i = true) (f : SapSession → SapSession) :
    SapInv (s.modify i f) where
  named j hj := by
    rcases eq_or_ne j i with rfl | hne
    · exact hi
    · rw [modify_sessions, update_of_ne hne] at hj
      exact h.named j hj
  flag := h.flag
  posted := h.posted
  owned := h.owned

theorem sessions (h : SapInv s) {f : Intf → SapSession}
    (hf : ∀ j, (f j).sapsMachine ≠ .disconnected → (s.sessions j).sapsMachine ≠ .disconnected) :
    SapInv { s with sessions := f } where
  named j hj := h.named j (hf j hj)
  flag := h.flag
  posted := h.posted
  owned := h.owned

theorem found (h : SapInv s) (found : Bool) :
    SapInv { s with dfs := { s.dfs with sapRadarFoundStatus := found } } :=
  ⟨h.named, h.flag, h.posted, h.owned⟩

theorem destroyCacTimer (h : SapInv s) : SapInv s.destroyCacTimer where
  named := h.named
  flag := by simp [SapAps.destroyCacTimer]
  posted ht := nomatch ht
  owned hf := nomatch hf

theorem startBeaconReq (h : SapInv s) (hi : s.sapCtxList i = true) :
    SapInv (s.startBeaconReq i) := by
  unfold SapAps.startBeaconReq SapAps.tellBeacon
  split
  · exact h
  · obtain ⟨hn, hf, hp, hs⟩ := h.modify hi fun x => { x with beaconing := some (s.sessions i).channel }
    exact ⟨hn, hf, hp, hs⟩

theorem sapStartDfsCacTimer (h : SapInv s) (hi : s.sapCtxList i = true) :
    SapInv (s.sapStartDfsCacTimer a i) := by
  unfold SapAps.sapStartDfsCacTimer
  split
  · exact h
  · split
    · exact ⟨h.named, by simp, fun ht => (nomatch ht), fun _ => ⟨i, hi⟩⟩
    · exact h.destroyCacTimer

end SapInv

/-- The HDD is told of the beginning of the check, and the sessions it is told of are noted. -/
theorem cacStartLoop_eq (a : SapAround) (js : List Intf) (s : SapAps) : ∃ f : Intf → Bool,
    SapAps.cacStartLoop a js s =
      { s with sessions := fun j => { s.sessions j with isCacStartNotified := f j } } := by
  induction js generalizing s with
  | nil => exact ⟨fun j => (s.sessions j).isCacStartNotified, rfl⟩
  | cons j js ih =>
    unfold cacStartLoop
    split
    · split
      · obtain ⟨f, hf⟩ := ih (s.modify j fun x => { x with isCacStartNotified := true })
        refine ⟨f, hf.trans ?_⟩
        have hx : ∀ k, { (s.modify j fun x => { x with isCacStartNotified := true }).sessions k with
            isCacStartNotified := f k } = { s.sessions k with isCacStartNotified := f k } := by
          intro k
          rw [modify_sessions, update_apply]
          split
          · next hk => rw [hk]
          · rfl
        simp only [hx]
        rfl
      · exact ⟨fun j => (s.sessions j).isCacStartNotified, rfl⟩
    · exact ih s

/-! ### A session is closed -/

theorem find_eq_none : s.sapFindValidConcurrentSession = none ↔ ∀ j, s.sapCtxList j = false := by
  simp [sapFindValidConcurrentSession]

theorem SapInv.closeIfOpen (h : SapInv s) (hd : (s.sessions i).sapsMachine = .disconnected) :
    SapInv (s.closeIfOpen i) := by
  unfold SapAps.closeIfOpen
  split
  · have hnamed : ∀ j, (update s.sessions i { s.sessions i with
        isCacStartNotified := false
        isCacEndNotified := false
        isSapSessionOpen := false } j).sapsMachine ≠ .disconnected →
        update s.sapCtxList i false j = true := by
      intro j hj
      rcases eq_or_ne j i with rfl | hne
      · rw [update_self] at hj
        exact absurd hd hj
      · rw [update_of_ne hne] at hj ⊢
        exact h.named j hj
    unfold sapCloseSession
    dsimp only
    split
    · exact ⟨hnamed, by simp, fun ht => (nomatch ht), fun hf => (nomatch hf)⟩
    · next hv =>
      rw [find_eq_none, not_forall] at hv
      obtain ⟨j, hj⟩ := hv
      exact ⟨hnamed, h.flag, h.posted, fun _ => ⟨j, by simpa using hj⟩⟩
  · exact h

theorem SapInv.startCac (h : SapInv s) (hi : s.sapCtxList i = true) : SapInv (s.startCac a i) := by
  unfold SapAps.startCac SapAps.sapCacStartNotify
  obtain ⟨f, hf⟩ := cacStartLoop_eq a (finRange _)
    (if s.dfs.isDfsCacTimerRunning then s else s.sapStartDfsCacTimer a i)
  rw [hf]
  refine sessions ?_ fun _ h => h
  split
  · exact h
  · exact h.sapStartDfsCacTimer hi

/-! ### The choice of the channel -/

structure SapSession.SameCounts (x y : SapSession) : Prop where
  asked : x.asked = y.asked
  startBssEvents : x.startBssEvents = y.startBssEvents
  cacEnds : x.cacEnds = y.cacEnds
  changes : x.changes = y.changes

/-- `sapGotoChannelSel` leaves the session where it is, or starts its BSS. -/
def Chosen (s s' : SapAps) (i : Intf) : Prop :=
  ∃ y : SapSession, s' = s.modify i (fun _ => y) ∧
    (y.sapsMachine = .chSelect ∨ y.sapsMachine = .starting) ∧ y.SameCounts (s.sessions i)

theorem scanComplete_chosen (h : (s.sessions i).sapsMachine = .chSelect) :
    Chosen s (s.scanComplete cfg a i) i := by
  unfold scanComplete
  split
  · exact ⟨_, (s.modify_const_self i).symm, .inl h, ⟨rfl, rfl, rfl, rfl⟩⟩
  · dsimp only
    rw [SapAps.goto, modify_modify]
    exact ⟨_, rfl, .inr rfl, ⟨rfl, rfl, rfl, rfl⟩⟩

theorem sapGotoChannelSel_chosen (h : (s.sessions i).sapsMachine = .chSelect) :
    Chosen s (s.sapGotoChannelSel cfg a i) i := by
  have hcomplete : ∀ f : SapSession → SapSession, (f (s.sessions i)).sapsMachine = .chSelect →
      (f (s.sessions i)).SameCounts (s.sessions i) →
      Chosen s ((s.modify i f).scanComplete cfg a i) i := by
    intro f hf hc
    obtain ⟨y, hy, hst, hcounts⟩ : Chosen (s.modify i f) ((s.modify i f).scanComplete cfg a i) i :=
      scanComplete_chosen (by simpa using hf)
    refine ⟨y, ?_, hst, ?_⟩
    · rw [hy, modify_modify]
    · rw [modify_sessions, update_self] at hcounts
      exact ⟨hcounts.asked.trans hc.asked, hcounts.startBssEvents.trans hc.startBssEvents,
        hcounts.cacEnds.trans hc.cacEnds, hcounts.changes.trans hc.changes⟩
  unfold sapGotoChannelSel
  split
  · exact ⟨_, (s.modify_const_self i).symm, .inl h, ⟨rfl, rfl, rfl, rfl⟩⟩
  · dsimp only
    split
    · split
      · exact ⟨_, rfl, .inl h, ⟨rfl, rfl, rfl, rfl⟩⟩
      · rw [modify_modify]
        exact hcomplete _ h ⟨rfl, rfl, rfl, rfl⟩
    · exact hcomplete _ h ⟨rfl, rfl, rfl, rfl⟩

/-! ### The end of the check, for one session -/

/-- The session as the end of a check leaves it. -/
def SapSession.ended (x : SapSession) : SapSession :=
  { x with
    sapsMachine := .started
    isCacEndNotified := true
    beaconing := some x.channel
    startBssEvents := x.startBssEvents + 1
    cacEnds := x.cacEnds + 1 }

theorem cacEnd_eq (s : SapAps) (j : Intf) : ∃ shared : Bool, s.cacEnd j =
    { s.modify j SapSession.ended with
      dfs := { s.dfs with sapRadarFoundStatus := false }
      told := s.told ++ [{
        channel := (s.sessions j).channel
        ignoreCac := s.dfs.ignoreCac
        shared := shared
        checked := (s.sessions j).channel ∈ s.checked }]
      moved := if (s.sessions j).sapsMachine = .started then s.moved
        else s.moved ++ [(s.sessions j).sapsMachine] } := by
  refine ⟨(s.modify j fun x => { x with isCacEndNotified := true }).Shared j
    (s.sessions j).channel, ?_⟩
  simp only [cacEnd, SapAps.startBeaconReq, tellBeacon, SapAps.goto,
    signalStartBss, SapAps.modify, Bool.false_eq_true, if_false, update_self,
    update_idem]
  rfl

theorem SapInv.cacEnd (h : SapInv s) (hj : s.sapCtxList j = true) : SapInv (s.cacEnd j) := by
  obtain ⟨shared, heq⟩ := cacEnd_eq s j
  obtain ⟨hn, hf, hp, ho⟩ := h.modify hj SapSession.ended
  rw [heq]
  exact ⟨hn, hf, hp, ho⟩

/-! ### Every event keeps the flag right -/

namespace SapInv

theorem cacEndLoop (h : SapInv s) (js : List Intf) : SapInv (s.cacEndLoop a js) := by
  induction js generalizing s with
  | nil => exact ⟨h.named, h.flag, h.posted, h.owned⟩
  | cons j js ih =>
    unfold cacEndLoop
    split
    · next hc =>
      have hj := h.cacEnd (Bool.and_eq_true_iff.1 hc).1
      split
      · split
        · exact ih hj
        · exact hj
      · exact h
    · exact ih h

theorem chosen (h : SapInv s) (hi : s.sapCtxList i = true) (hc : Chosen s s' i) : SapInv s' := by
  obtain ⟨y, rfl, -⟩ := hc
  exact h.modify hi _

theorem bssStarted (h : SapInv s) (hi : s.sapCtxList i = true) : SapInv (s.bssStarted cfg a i) := by
  have hs : SapInv ((s.goto i .started).signalStartBss i) := (h.modify hi _).modify hi _
  unfold SapAps.bssStarted
  dsimp only
  split
  · split
    · exact startCac (hs.modify hi _) hi
    · exact hs.startBeaconReq hi
  · exact hs

theorem sapFsm {msg : SapMsg} (h : SapInv s) (hi : s.sapCtxList i = true) :
    SapInv (s.sapFsm cfg a i msg) := by
  have hgoto : ∀ st, SapInv (s.goto i st) := fun st => h.modify hi _
  have hsignal : ∀ st, SapInv ((s.goto i st).signalStartBss i) := fun st =>
    (hgoto st).modify hi _
  unfold SapAps.sapFsm
  split
  · split
    · refine chosen ((h.modify hi _).modify hi _) hi (sapGotoChannelSel_chosen ?_)
      simp [SapSession.goto]
    · exact h
  · exact (hgoto _).startCac hi
  · refine chosen (hgoto _) hi (sapGotoChannelSel_chosen ?_)
    simp [SapAps.goto, SapSession.goto]
  · next hst => exact chosen h hi (scanComplete_chosen hst)
  · exact hsignal _
  · exact hsignal _
  · exact h.startCac hi
  · refine h.sessions fun j hj => ?_
    dsimp only at hj
    split at hj
    · next hx => exact hx.2
    · exact hj
  · exact h.cacEndLoop _
  · split
    · unfold sapStopDfsCacTimer
      split
      · exact hgoto _
      · exact h.destroyCacTimer.modify hi _
    · exact hgoto _
  · exact h.bssStarted hi
  · exact hgoto _
  · refine closeIfOpen (hsignal _) ?_
    simp [SapAps.goto, signalStartBss, SapSession.goto]
  · exact ((h.modify hi _).modify hi _).modify hi _
  · exact hsignal _
  · refine closeIfOpen (hsignal _) ?_
    simp [SapAps.goto, signalStartBss, SapSession.goto]
  · exact hgoto _
  · refine closeIfOpen (hgoto _) ?_
    simp [SapAps.goto, SapSession.goto]
  · unfold wlansapChannelChangeRequest
    split
    · exact h.modify hi _
    · exact h
  · exact h

theorem modify_keeps {f : SapSession → SapSession} (h : SapInv s)
    (hf : (f (s.sessions i)).sapsMachine = (s.sessions i).sapsMachine) : SapInv (s.modify i f) :=
  h.sessions fun j hj => by
    rcases eq_or_ne j i with rfl | hne
    · rwa [update_self, hf] at hj
    · rwa [update_of_ne hne] at hj

theorem sapFsm_below {msg : SapMsg} (h : SapInv s)
    (hm : msg ∉ [.hddStartInfraBss, .dfsChannelCacStart, .channelSelectionRetry]) :
    SapInv (s.sapFsm cfg a i msg) := by
  by_cases hd : (s.sessions i).sapsMachine = .disconnected
  · have hs : s.sapFsm cfg a i msg = s := by
      unfold SapAps.sapFsm
      rw [hd]
      cases msg <;> first | rfl | exact absurd (by decide) hm
    rw [hs]
    exact h
  · exact h.sapFsm (h.named i hd)

theorem wlansapStartBss (h : SapInv s) (channel : Nat) :
    SapInv (s.wlansapStartBss cfg a i channel) := by
  refine sapFsm ⟨fun j hj => ?_, h.flag, h.posted, fun hf => ⟨i, ?_⟩⟩ ?_
  · rcases eq_or_ne j i with rfl | hne
    · exact update_self ..
    · dsimp only at hj ⊢
      rw [modify_sessions, update_of_ne hne] at hj
      rw [update_of_ne hne]
      exact h.named j hj
  · exact update_self ..
  · exact update_self ..

theorem wlansapScanCallback (h : SapInv s) (operChannel backupChannel : Nat) (retry : Bool) :
    SapInv (s.wlansapScanCallback cfg a i operChannel backupChannel retry) := by
  unfold SapAps.wlansapScanCallback
  split
  · exact h
  · exact h.modify_keeps rfl
  · next hd _ =>
    have hi := h.named i hd
    split
    · split
      · exact sapFsm (h.modify hi _) hi
      · exact sapFsm (h.modify hi _) hi
    · exact sapFsm (h.modify hi _) hi

theorem sapDfsCacTimerCallback (h : SapInv s) (n : Nat) :
    SapInv ({ s with posted := n }.sapDfsCacTimerCallback cfg a) := by
  have hoff : s.dfs.isDfsCacTimerRunning = false → SapInv { s with posted := n } := by
    intro hf
    refine ⟨h.named, h.flag, fun ht => ?_, h.owned⟩
    exact absurd (h.flag.2 (by rw [ht]; decide)) (by rw [hf]; decide)
  unfold SapAps.sapDfsCacTimerCallback
  split
  · next hv =>
    refine hoff (Bool.eq_false_iff.2 fun hf => ?_)
    obtain ⟨j, hj⟩ := h.owned hf
    exact absurd hj (by rw [find_eq_none.1 hv j]; decide)
  · next j hv =>
    have hj : s.sapCtxList j = true := find?_some hv
    dsimp only
    split
    · have hd : SapInv { s with posted := n }.destroyCacTimer :=
        ⟨h.named, by simp [SapAps.destroyCacTimer], fun ht => (nomatch ht), fun hf => (nomatch hf)⟩
      split
      · exact hd.sapFsm hj
      · exact hd
    · next hf =>
      have hk := hoff (Bool.eq_false_iff.2 hf)
      split
      · exact hk.sapFsm hj
      · exact hk

theorem sapCacResetNotify (h : SapInv s) : SapInv s.sapCacResetNotify := by
  refine h.sessions fun j hj => ?_
  split at hj
  · exact hj
  · exact hj

theorem dfsRadarInd (h : SapInv s) (radarStatus : Bool) (userTarget : Nat) :
    SapInv (s.dfsRadarInd cfg a i radarStatus userTarget) := by
  unfold SapAps.dfsRadarInd
  dsimp only
  split
  · refine foldl_keeps (fun s j _ hs => ?_) (P := SapInv)
      (s := s.sapIndicateRadar cfg a i radarStatus userTarget) ⟨h.named, h.flag, h.posted, h.owned⟩
    split
    · next hj => exact sapFsm hs hj
    · exact hs
  · exact sapCacResetNotify ⟨h.named, h.flag, h.posted, h.owned⟩

theorem dfsRadarFoundInd (h : SapInv s) : SapInv (s.dfsRadarFoundInd cfg a i) := by
  unfold SapAps.dfsRadarFoundInd
  split
  · next hc => exact h.destroyCacTimer.sapFsm (h.named i (by rw [hc.1]; decide))
  · exact h

theorem chanswUpdate (h : SapInv s) : SapInv (s.chanswUpdate cfg a i) := by
  unfold SapAps.chanswUpdate
  split
  · obtain ⟨hn, hf, hp, ho⟩ :=
      h.modify_keeps (i := i) (f := fun x => { x with beaconing := some (s.sessions i).channel }) rfl
    exact ⟨hn, hf, hp, ho⟩
  · split
    · next hst =>
      have hi := h.named i (by rw [hst]; decide)
      have hk : SapInv (s.goto i .disconnecting) := h.modify hi _
      dsimp only
      split
      · split
        · refine sessions (hk.modify hi _) fun j hj => ?_
          dsimp only at hj
          split at hj
          · exact hj
          · exact hj
        · exact hk.modify hi _
      · exact hk.sapFsm hi
    · exact h

theorem channelChangeSuccess (h : SapInv s) : SapInv (s.channelChangeSuccess cfg a i) := by
  have hk : SapInv (s.modify i fun x => { x with channel := s.dfs.targetChannel }) :=
    h.modify_keeps rfl
  unfold SapAps.channelChangeSuccess
  dsimp only
  split
  · next hst =>
    have hi := hk.named i (by rw [hst]; decide)
    have hrestart : ∀ {t : SapAps}, SapInv t → t.sapCtxList i = true →
        SapInv (t.restartBss cfg a i) := by
      intro t ht hi
      exact sapFsm (modify ((ht.modify hi _).found false) hi _) hi
    split
    · split
      · exact sapFsm (hk.modify hi _) hi
      · refine hrestart (hk.startBeaconReq hi) ?_
        unfold SapAps.startBeaconReq
        split
        · exact hi
        · exact hi
    · exact hrestart hk hi
  · exact hk

theorem setChannelChange (h : SapInv s) (targetChannel : Nat) (cacState : SapDfsCacState) :
    SapInv (s.setChannelChange i targetChannel cacState) := by
  unfold SapAps.setChannelChange
  split
  · exact sapCacResetNotify ⟨h.named, h.flag, h.posted, h.owned⟩
  · exact h

theorem cacTimerExpires (h : SapInv s) (ht : s.dfs.sapDfsCacTimer = .running) (l : List Nat) :
    SapInv { s with
      dfs := { s.dfs with sapDfsCacTimer := .stopped }
      posted := s.posted + 1
      checked := l } where
  named := h.named
  flag := iff_of_true (h.flag.2 (by rw [ht]; decide)) (fun ht => nomatch ht)
  posted _ := Nat.succ_pos _
  owned := h.owned

theorem init (h : SapInit s) : SapInv s where
  named i hi := absurd (h.disconnected i) hi
  flag := by simp [h.flag, h.timer]
  posted ht := nomatch h.timer.symm.trans ht
  owned hf := nomatch h.flag.symm.trans hf

end SapInv

theorem sapStep_inv {e : SapEvent} (h : SapInv s) (hs : sapStep cfg s e = some s') : SapInv s' := by
  cases e with
  | startBss i channel a => cases hs; exact h.wlansapStartBss channel
  | stopBss i a => cases hs; exact h.sapFsm_below (by decide)
  | scanDone i operChannel backupChannel retry a => cases hs; exact h.wlansapScanCallback ..
  | infraStarted i a => cases hs; exact h.sapFsm_below (by decide)
  | infraStartFailed i a => cases hs; exact h.sapFsm_below (by decide)
  | infraStopped i a => cases hs; exact h.sapFsm_below (by decide)
  | operatingChannelChanged i a => cases hs; exact h.sapFsm_below (by decide)
  | cacTimerExpires =>
    obtain ⟨ht, rfl⟩ := guarded_eq_some.1 hs
    exact h.cacTimerExpires ht _
  | cacTimerCallback a =>
    obtain ⟨-, rfl⟩ := guarded_eq_some.1 hs
    exact h.sapDfsCacTimerCallback _
  | radar i channels radarStatus userTarget a =>
    cases hs
    refine (dfsRadarInd ?_ radarStatus userTarget).dfsRadarFoundInd
    split
    · exact ⟨h.named, h.flag, h.posted, h.owned⟩
    · exact h
  | chanswUpdate i a => cases hs; exact h.chanswUpdate
  | channelChangeSuccess i a => cases hs; exact h.channelChangeSuccess
  | setChannelChangeWithCsa i targetChannel => cases hs; exact h.setChannelChange ..
  | setSub20ChannelwidthWithCsa i => cases hs; exact h.setChannelChange ..
  | setDfsIgnoreCac ignoreCac => cases hs; exact ⟨h.named, h.flag, h.posted, h.owned⟩

theorem reach_sapInv {ok : SapAps → SapEvent → Prop} (hs : (sapMachine cfg).Reach ok s) :
    SapInv s :=
  hs.invariant SapInv (fun _ => init) fun _ _ _ h _ => sapStep_inv h

end Qcacld.Sap

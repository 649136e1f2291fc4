import Qcacld.Sap.SapCacTimer

/-!
# Sap — SapDfsCac

What the sessions of `Sap.SapFsm` make of the one channel availability check they share.

The flag says that the timer is initialised, in every run: the timer runs, or it has run out and its callback is to come.  The rest is `SapRight`, and holds in the runs of `SapEventOk`.  The check is meant for one channel and for sessions that wait for it, but the code asks for neither: the timer and `eSAP_DFS_SKIP_CAC` do not say which channel they are for, and the end of a check and a radar go through the sessions whatever they are doing.
-/

namespace Qcacld.Sap
open Qcacld.Support Function List SapAps

variable {cfg : SapConfig} {a : SapAround} {s s' : SapAps} {i j : Intf}

/-! ### What is to hold -/

/-- The session was free to beacon on the channel. -/
def BeaconReq.Allowed (cfg : SapConfig) (b : BeaconReq) : Prop :=
  cfg.isDfs b.channel = true → b.ignoreCac = true ∨ b.shared = true ∨ b.checked = true
deriving Decidable

/-- Each start that was accepted has been answered once, unless it is under way; what has been sent besides reports the end of a check, or a change of channel. -/
def SapSession.Answered (x : SapSession) : Prop :=
  x.startBssEvents + (if x.sapsMachine.UnderWay then 1 else 0) = x.asked + x.cacEnds + x.changes

instance (x : SapSession) : Decidable x.Answered := inferInstanceAs (Decidable (_ = _))

/-- **What is to hold.**  In the test mode, beacons go on whatever there is on the channel. -/
structure SapRight (cfg : SapConfig) (s : SapAps) : Prop where
  told : cfg.disableDFSChSwitch = false → ∀ b ∈ s.told, b.Allowed cfg
  moved : ∀ st ∈ s.moved, st = .dfsCacWait
  answered : ∀ i, (s.sessions i).Answered

/-! ### The condition -/

namespace SapAps

/-- The check was last begun for this channel, and no radar has been reported on it since. -/
def OfCheck (s : SapAps) (channel : Nat) : Prop := s.cacRadar = false ∧ channel = s.cacChannel
deriving Decidable

/-- The sessions that wait, and a timer that is initialised, are for the channel. -/
def Waits (s : SapAps) (i : Intf) (channel : Nat) : Prop :=
  (∀ j, j ≠ i → (s.sessions j).sapsMachine = .dfsCacWait → (s.sessions j).channel = channel) ∧
    (s.dfs.isDfsCacTimerRunning = true → s.OfCheck channel)
deriving Decidable

/-- The session may come up on the channel: if the check is skipped it was for this channel, or another session is beaconing on it, and if not, the session can wait with the others. -/
def MayCome (cfg : SapConfig) (s : SapAps) (i : Intf) (channel : Nat) : Prop :=
  cfg.isDfs channel = true → cfg.disableDFSChSwitch = false → s.dfs.ignoreCac = false →
    if s.dfs.cacState = .skipCac then s.OfCheck channel ∨ s.Shared i channel
    else s.Waits i channel
deriving Decidable

/-- The end of the check is told to a session that waits, or that has started on a channel without a check. -/
def MayEnd (cfg : SapConfig) (x : SapSession) : Prop :=
  x.sapsMachine = .dfsCacWait ∨ x.sapsMachine = .started ∧ cfg.isDfs x.channel = false
deriving Decidable

/-- The timer has not been started again, and no session is in the way. -/
def CallbackOk (cfg : SapConfig) (s : SapAps) : Prop :=
  s.dfs.sapDfsCacTimer = .stopped ∧
    ∀ j, s.sapCtxList j = true → (s.sessions j).isCacEndNotified = false → MayEnd cfg (s.sessions j)
deriving Decidable

end SapAps

/-- **The condition.** -/
def SapEventOk (cfg : SapConfig) (s : SapAps) : SapEvent → Prop
  | .startBss i _ a => ¬ (s.sessions i).sapsMachine.UnderWay ∧ a.channelSelAborts = false
  | .scanDone i _ _ _ _ => (s.sessions i).sapsMachine = .chSelect ∨
      (s.sessions i).sapsMachine = .disconnected ∨ (s.sessions i).sapsMachine = .started
  | .infraStarted i _ => (s.sessions i).sapsMachine = .starting →
      s.MayCome cfg i (s.sessions i).channel
  | .cacTimerCallback _ => ∀ i, s.sapFindValidConcurrentSession = some i →
      (s.sessions i).sapsMachine = .dfsCacWait → s.CallbackOk cfg
  | .radar i channels radarStatus _ _ =>
    ((s.sessions i).sapsMachine = .dfsCacWait → ∀ j, ¬ (s.sessions j).sapsMachine.UnderWay) ∧
    ((s.sessions i).sapsMachine ≠ .dfsCacWait → radarStatus = true →
      ∀ j, (s.sessions j).sapsMachine = .dfsCacWait → (s.sessions j).channel ∉ channels)
  | .channelChangeSuccess i _ => (s.sessions i).sapsMachine ≠ .dfsCacWait ∧
      ((s.sessions i).sapsMachine = .disconnecting → s.MayCome cfg i s.dfs.targetChannel)
  | .setSub20ChannelwidthWithCsa i => (s.sessions i).sapsMachine = .started →
      s.dfs.cacState = .skipCac
  | _ => True

instance (s : SapAps) : (e : SapEvent) → Decidable (SapEventOk cfg s e)
  | .startBss .. => inferInstanceAs (Decidable (_ ∧ _))
  | .scanDone .. => inferInstanceAs (Decidable (_ ∨ _ ∨ _))
  | .infraStarted .. => inferInstanceAs (Decidable (_ → _))
  | .cacTimerCallback _ => inferInstanceAs (Decidable (∀ _, _ → _ → _))
  | .radar .. => inferInstanceAs (Decidable ((_ → _) ∧ (_ → _ → _)))
  | .channelChangeSuccess .. => inferInstanceAs (Decidable (_ ∧ _))
  | .setSub20ChannelwidthWithCsa _ => inferInstanceAs (Decidable (_ → _))
  | .stopBss .. | .infraStartFailed .. | .infraStopped .. | .operatingChannelChanged ..
  | .cacTimerExpires | .chanswUpdate .. | .setChannelChangeWithCsa .. | .setDfsIgnoreCac _ =>
    .isTrue trivial

/-! ### The starts and their answers -/

/-- Every start has been answered once, or is under way. -/
def Counted (s : SapAps) : Prop := ∀ i, (s.sessions i).Answered

section Session
variable {x y : SapSession} {st : SapFsmState}

theorem SapSession.Answered.of_same (h : x.Answered) (hst : y.sapsMachine = x.sapsMachine)
    (hc : y.SameCounts x) : y.Answered := by
  unfold SapSession.Answered at *
  rw [hst, hc.startBssEvents, hc.asked, hc.cacEnds, hc.changes]
  exact h

theorem SapSession.Answered.goto (h : x.Answered) (hst : st.UnderWay ↔ x.sapsMachine.UnderWay) :
    (x.goto st).Answered := by
  unfold SapSession.Answered at *
  rw [show (x.goto st).sapsMachine = st from rfl, if_congr hst rfl rfl]
  exact h

theorem SapSession.Answered.signal (h : x.Answered) (hx : x.sapsMachine.UnderWay)
    (hst : ¬ st.UnderWay) :
    { x.goto st with startBssEvents := x.startBssEvents + 1 : SapSession }.Answered := by
  unfold SapSession.Answered at *
  rw [if_pos hx] at h
  change x.startBssEvents + 1 + (if st.UnderWay then 1 else 0) = x.asked + x.cacEnds + x.changes
  rw [if_neg hst]
  exact h

end Session

namespace Counted

theorem modify (h : Counted s) {f : SapSession → SapSession} (hf : (f (s.sessions i)).Answered) :
    Counted (s.modify i f) := by
  intro j
  rw [modify_sessions, update_apply]
  split
  · exact hf
  · exact h j

theorem beside (h : Counted s) (hne : ∀ j, j ≠ i → s'.sessions j = s.sessions j)
    (hi : (s'.sessions i).Answered) : Counted s' := by
  intro j
  rcases eq_or_ne j i with rfl | hj
  · exact hi
  · rw [hne j hj]
    exact h j

theorem of_same (h : Counted s) (hs : ∀ j, (s'.sessions j).sapsMachine = (s.sessions j).sapsMachine ∧
    (s'.sessions j).SameCounts (s.sessions j)) : Counted s' :=
  fun j => (h j).of_same (hs j).1 (hs j).2

theorem goto (h : Counted s) {st : SapFsmState}
    (hst : st.UnderWay ↔ (s.sessions i).sapsMachine.UnderWay) : Counted (s.goto i st) :=
  h.modify ((h i).goto hst)

theorem signal (h : Counted s) {st : SapFsmState} (hx : (s.sessions i).sapsMachine.UnderWay)
    (hst : ¬ st.UnderWay) : Counted ((s.goto i st).signalStartBss i) := by
  unfold SapAps.goto SapAps.signalStartBss
  rw [modify_modify]
  exact h.modify ((h i).signal hx hst)

theorem closeIfOpen (h : Counted s) : Counted (s.closeIfOpen i) := by
  have hk : Counted (s.modify i fun x => { x with
      isCacStartNotified := false
      isCacEndNotified := false
      isSapSessionOpen := false }) := h.modify ((h i).of_same rfl ⟨rfl, rfl, rfl, rfl⟩)
  unfold SapAps.closeIfOpen SapAps.sapCloseSession
  split
  · dsimp only
    split
    · exact hk
    · exact hk
  · exact h

theorem startBeaconReq (h : Counted s) : Counted (s.startBeaconReq i) := by
  unfold SapAps.startBeaconReq SapAps.tellBeacon
  split
  · exact h
  · exact h.modify (f := fun x => { x with beaconing := some (s.sessions i).channel })
      ((h i).of_same rfl ⟨rfl, rfl, rfl, rfl⟩)

theorem startCac (h : Counted s) : Counted (s.startCac a i) := by
  have hsessions : (if s.dfs.isDfsCacTimerRunning then s else s.sapStartDfsCacTimer a i).sessions =
      s.sessions := by
    split
    · rfl
    · unfold sapStartDfsCacTimer
      split
      · rfl
      · split <;> rfl
  unfold SapAps.startCac SapAps.sapCacStartNotify
  obtain ⟨f, hf⟩ := cacStartLoop_eq a (finRange _)
    (if s.dfs.isDfsCacTimerRunning then s else s.sapStartDfsCacTimer a i)
  rw [hf, hsessions]
  exact h.of_same fun j => ⟨rfl, ⟨rfl, rfl, rfl, rfl⟩⟩

theorem chosen (h : Counted s) (hx : (s.sessions i).sapsMachine.UnderWay)
    (hc : Chosen s s' i) : Counted s' := by
  obtain ⟨y, rfl, hst, hcounts⟩ := hc
  have hy : y.sapsMachine.UnderWay := hst.imp_right .inl
  refine h.modify ?_
  have hi := h i
  unfold SapSession.Answered at *
  rw [if_pos hx] at hi
  rw [if_pos hy, hcounts.startBssEvents, hcounts.asked, hcounts.cacEnds, hcounts.changes]
  exact hi

theorem bssStarted (h : Counted s) (hst : (s.sessions i).sapsMachine = .starting) :
    Counted (s.bssStarted cfg a i) := by
  have hs : Counted ((s.goto i .started).signalStartBss i) :=
    h.signal (by rw [hst]; decide) (by decide)
  unfold SapAps.bssStarted
  dsimp only
  split
  · split
    · refine startCac (hs.goto ?_)
      simp [SapAps.goto, SapAps.signalStartBss, SapSession.goto, SapFsmState.UnderWay]
    · exact hs.startBeaconReq
  · exact hs

theorem sapFsm {msg : SapMsg} (h : Counted s) (hm : msg ∉ [.hddStartInfraBss,
    .channelSelectionRetry, .dfsChannelCacRadarFound, .dfsChannelCacEnd]) :
    Counted (s.sapFsm cfg a i msg) := by
  unfold SapAps.sapFsm
  split
  · exact absurd (by decide) hm
  · next hst => exact startCac (h.goto (by rw [hst]; decide))
  · exact absurd (by decide) hm
  · next hst => exact h.chosen (by rw [hst]; decide) (scanComplete_chosen hst)
  · next hst => exact h.signal (by rw [hst]; decide) (by decide)
  · next hst => exact h.signal (by rw [hst]; decide) (by decide)
  · exact h.startCac
  · exact absurd (by decide) hm
  · exact absurd (by decide) hm
  · next hst =>
    have hgoto : Counted (s.goto i .disconnecting) := h.goto (by rw [hst]; decide)
    unfold sapStopDfsCacTimer
    split
    · split
      · exact hgoto
      · exact hgoto
    · exact hgoto
  · next hst => exact h.bssStarted hst
  · next hst => exact h.goto (by rw [hst]; decide)
  · next hst => exact closeIfOpen (h.signal (by rw [hst]; decide) (by decide))
  · next hst =>
    refine signal (h.modify ((h i).of_same rfl ⟨rfl, rfl, rfl, rfl⟩)) ?_ (by decide)
    rw [modify_sessions, update_self, hst]
    decide
  · next hst => exact h.signal (by rw [hst]; decide) (by decide)
  · next hst => exact closeIfOpen (h.signal (by rw [hst]; decide) (by decide))
  · next hst => exact h.goto (by rw [hst]; decide)
  · next hst => exact closeIfOpen (h.goto (by rw [hst]; decide))
  · unfold wlansapChannelChangeRequest
    split
    · exact h.modify ((h i).of_same rfl ⟨rfl, rfl, rfl, rfl⟩)
    · exact h
  · exact h

end Counted

/-! ### What leaves the check alone -/

/-- No session comes to wait, and nothing of the check is there that was not before. -/
structure Quiet (s s' : SapAps) : Prop where
  waits : ∀ i, (s'.sessions i).sapsMachine = .dfsCacWait →
    (s.sessions i).sapsMachine = .dfsCacWait ∧ (s'.sessions i).channel = (s.sessions i).channel
  flag : s'.dfs.isDfsCacTimerRunning = true → s.dfs.isDfsCacTimerRunning = true
  stopped : s'.dfs.sapDfsCacTimer = .stopped → s.dfs.sapDfsCacTimer = .stopped
  skips : s'.dfs.cacState = .skipCac → s.dfs.cacState = .skipCac
  cacChannel : s'.cacChannel = s.cacChannel
  cacRadar : s'.cacRadar = s.cacRadar
  checked : s'.checked = s.checked
  told : s'.told = s.told
  moved : s'.moved = s.moved

open Quiet

namespace Quiet

theorem refl (s : SapAps) : Quiet s s :=
  ⟨fun _ h => ⟨h, rfl⟩, id, id, id, rfl, rfl, rfl, rfl, rfl⟩

theorem trans {s'' : SapAps} (h : Quiet s s') (h' : Quiet s' s'') : Quiet s s'' where
  waits i hi :=
    have h₁ := h'.waits i hi
    have h₂ := h.waits i h₁.1
    ⟨h₂.1, h₁.2.trans h₂.2⟩
  flag := h.flag ∘ h'.flag
  stopped := h.stopped ∘ h'.stopped
  skips := h.skips ∘ h'.skips
  cacChannel := h'.cacChannel.trans h.cacChannel
  cacRadar := h'.cacRadar.trans h.cacRadar
  checked := h'.checked.trans h.checked
  told := h'.told.trans h.told
  moved := h'.moved.trans h.moved

theorem sessions {f : Intf → SapSession} (hf : ∀ j, (f j).sapsMachine = .dfsCacWait →
    (s.sessions j).sapsMachine = .dfsCacWait ∧ (f j).channel = (s.sessions j).channel) :
    Quiet s { s with sessions := f } :=
  ⟨hf, id, id, id, rfl, rfl, rfl, rfl, rfl⟩

theorem modify {f : SapSession → SapSession} (hf : (f (s.sessions i)).sapsMachine = .dfsCacWait →
    (s.sessions i).sapsMachine = .dfsCacWait ∧ (f (s.sessions i)).channel = (s.sessions i).channel) :
    Quiet s (s.modify i f) := by
  refine sessions fun j hj => ?_
  rcases eq_or_ne j i with rfl | hne
  · rw [update_self] at hj ⊢
    exact hf hj
  · rw [update_of_ne hne] at hj ⊢
    exact ⟨hj, rfl⟩

theorem goto {st : SapFsmState} (hst : st ≠ .dfsCacWait) : Quiet s (s.goto i st) :=
  modify fun h => absurd h hst

theorem signal : Quiet s (s.signalStartBss i) := modify fun h => ⟨h, rfl⟩

theorem closeIfOpen : Quiet s (s.closeIfOpen i) := by
  have hk : Quiet s (s.modify i fun x => { x with
      isCacStartNotified := false
      isCacEndNotified := false
      isSapSessionOpen := false }) := modify fun h => ⟨h, rfl⟩
  unfold SapAps.closeIfOpen SapAps.sapCloseSession
  split
  · dsimp only
    split
    · exact ⟨hk.waits, fun h => (nomatch h), fun h => (nomatch h), fun h => (nomatch h),
        rfl, rfl, rfl, rfl, rfl⟩
    · exact ⟨hk.waits, id, id, id, rfl, rfl, rfl, rfl, rfl⟩
  · exact refl s

theorem chosen (h : Chosen s s' i) : Quiet s s' := by
  obtain ⟨y, rfl, hst, -⟩ := h
  refine modify fun hy => ?_
  rcases hst with hst | hst
  · exact nomatch hst.symm.trans hy
  · exact nomatch hst.symm.trans hy

theorem destroyCacTimer : Quiet s s.destroyCacTimer :=
  ⟨fun _ h => ⟨h, rfl⟩, fun h => (nomatch h), fun h => (nomatch h), id, rfl, rfl, rfl, rfl, rfl⟩

theorem sapCacStartNotify : Quiet s (s.sapCacStartNotify a) := by
  obtain ⟨f, hf⟩ := cacStartLoop_eq a (finRange _) s
  unfold SapAps.sapCacStartNotify
  rw [hf]
  exact sessions fun _ h => ⟨h, rfl⟩

theorem sapFsm {msg : SapMsg} (hm : msg ∉ [.dfsChannelCacStart, .dfsChannelCacEnd])
    (hst : (s.sessions i).sapsMachine = .starting → msg ≠ .macStartBssSuccess) :
    Quiet s (s.sapFsm cfg a i msg) := by
  have hsignal : ∀ {st : SapFsmState}, st ≠ .dfsCacWait →
      Quiet s ((s.goto i st).signalStartBss i) := fun h => (goto h).trans signal
  unfold SapAps.sapFsm
  split
  · split
    · have hk : Quiet s ((s.modify i fun x => { x with isSapSessionOpen := true }).goto i .chSelect) :=
        (modify fun h => ⟨h, rfl⟩).trans (goto (by decide))
      refine hk.trans (chosen (sapGotoChannelSel_chosen ?_))
      simp [SapAps.goto, SapSession.goto]
    · exact refl s
  · exact absurd (by decide) hm
  · refine (goto (by decide)).trans (chosen (sapGotoChannelSel_chosen ?_))
    simp [SapAps.goto, SapSession.goto]
  · next h => exact chosen (scanComplete_chosen h)
  · exact hsignal (by decide)
  · exact hsignal (by decide)
  · exact absurd (by decide) hm
  · refine sessions fun j hj => ?_
    dsimp only at hj ⊢
    split at hj
    · cases hj
    · next hx => rw [if_neg hx]; exact ⟨hj, rfl⟩
  · exact absurd (by decide) hm
  · split
    · unfold sapStopDfsCacTimer
      split
      · exact goto (by decide)
      · exact destroyCacTimer.trans (goto (by decide))
    · exact goto (by decide)
  · next h => exact absurd rfl (hst h)
  · exact goto (by decide)
  · exact (hsignal (by decide)).trans closeIfOpen
  · next h =>
    have hk : Quiet s (s.modify i fun x => { x with channel := s.dfs.targetChannel }) :=
      modify fun hw => by cases h.symm.trans hw
    exact (hk.trans (goto (by decide))).trans signal
  · exact hsignal (by decide)
  · exact (hsignal (by decide)).trans closeIfOpen
  · exact goto (by decide)
  · exact (goto (by decide)).trans closeIfOpen
  · next h =>
    unfold wlansapChannelChangeRequest
    split
    · exact modify fun hw => by cases h.symm.trans hw
    · exact refl s
  · exact refl s

end Quiet

/-- Nothing is changed but the session itself, and what it has to do with. -/
structure Beside (s s' : SapAps) (i : Intf) : Prop where
  sessions : ∀ j, j ≠ i → s'.sessions j = s.sessions j
  flag : s'.dfs.isDfsCacTimerRunning = s.dfs.isDfsCacTimerRunning
  cacState : s'.dfs.cacState = s.dfs.cacState
  ignoreCac : s'.dfs.ignoreCac = s.dfs.ignoreCac
  cacChannel : s'.cacChannel = s.cacChannel
  cacRadar : s'.cacRadar = s.cacRadar

theorem beside_modify {f : SapSession → SapSession} : Beside s (s.modify i f) i :=
  ⟨fun _ hne => update_of_ne hne .., rfl, rfl, rfl, rfl, rfl⟩

theorem Beside.trans {s'' : SapAps} (h : Beside s s' i) (h' : Beside s' s'' i) : Beside s s'' i where
  sessions j hne := (h'.sessions j hne).trans (h.sessions j hne)
  flag := h'.flag.trans h.flag
  cacState := h'.cacState.trans h.cacState
  ignoreCac := h'.ignoreCac.trans h.ignoreCac
  cacChannel := h'.cacChannel.trans h.cacChannel
  cacRadar := h'.cacRadar.trans h.cacRadar

theorem Beside.mayCome {channel : Nat} (h : Beside s s' i) (hok : s.MayCome cfg i channel) :
    s'.MayCome cfg i channel := by
  intro hdfs hd hi
  have hcome := hok hdfs hd (h.ignoreCac.symm.trans hi)
  unfold SapAps.Waits SapAps.OfCheck SapAps.Shared at *
  rw [h.cacState, h.cacRadar, h.cacChannel, h.flag]
  split at hcome
  · next hk =>
    rw [if_pos hk]
    refine hcome.imp_right fun ⟨j, hne, hj⟩ => ⟨j, hne, ?_⟩
    rw [h.sessions j hne]
    exact hj
  · next hk =>
    rw [if_neg hk]
    refine ⟨fun j hne hj => ?_, hcome.2⟩
    rw [h.sessions j hne] at hj ⊢
    exact hcome.1 j hne hj

/-! ### The check and its channel -/

/-- While the timer is there, the sessions wait for it on its channel; and the channel it has run out for is checked, as is the one a check may be skipped for. -/
structure CacInv (cfg : SapConfig) (s : SapAps) : Prop where
  waits : cfg.disableDFSChSwitch = false → s.dfs.isDfsCacTimerRunning = true →
    ∀ i, (s.sessions i).sapsMachine = .dfsCacWait → s.OfCheck (s.sessions i).channel
  expired : s.dfs.sapDfsCacTimer = .stopped → s.cacRadar = false → s.cacChannel ∈ s.checked
  skips : s.dfs.cacState = .skipCac → s.cacRadar = false → s.cacChannel ∈ s.checked
  told : cfg.disableDFSChSwitch = false → ∀ b ∈ s.told, b.Allowed cfg
  moved : ∀ st ∈ s.moved, st = .dfsCacWait

theorem Quiet.ofCheck {channel : Nat} (q : Quiet s s') : s'.OfCheck channel ↔ s.OfCheck channel := by
  unfold SapAps.OfCheck
  rw [q.cacRadar, q.cacChannel]

namespace CacInv

theorem quiet (h : CacInv cfg s) (q : Quiet s s') : CacInv cfg s' where
  waits hd hf i hi := by
    obtain ⟨hw, hch⟩ := q.waits i hi
    rw [q.ofCheck, hch]
    exact h.waits hd (q.flag hf) i hw
  expired ht hr := by
    rw [q.cacRadar] at hr
    rw [q.cacChannel, q.checked]
    exact h.expired (q.stopped ht) hr
  skips hk hr := by
    rw [q.cacRadar] at hr
    rw [q.cacChannel, q.checked]
    exact h.skips (q.skips hk) hr
  told hd := by rw [q.told]; exact h.told hd
  moved := by rw [q.moved]; exact h.moved

theorem startBeaconReq (h : CacInv cfg s) (hb : cfg.disableDFSChSwitch = false →
    cfg.isDfs (s.sessions i).channel = true → s.dfs.ignoreCac = true ∨
      s.Shared i (s.sessions i).channel ∨ (s.sessions i).channel ∈ s.checked) :
    CacInv cfg (s.startBeaconReq i) := by
  unfold SapAps.startBeaconReq SapAps.tellBeacon
  split
  · exact h
  · have hk : CacInv cfg (s.modify i fun x => { x with beaconing := some (s.sessions i).channel }) :=
      h.quiet (modify fun h => ⟨h, rfl⟩)
    refine ⟨hk.waits, hk.expired, hk.skips, fun hd b hm => ?_, hk.moved⟩
    rcases mem_append.1 hm with hm | hm
    · exact h.told hd b hm
    · rw [mem_singleton.1 hm]
      intro hdfs
      simpa using hb hd hdfs

theorem wait (h : CacInv cfg s)
    (hw : cfg.disableDFSChSwitch = false → s.Waits i (s.sessions i).channel) :
    CacInv cfg (s.goto i .dfsCacWait) := by
  refine ⟨fun hd hf j hj => ?_, h.expired, h.skips, h.told, h.moved⟩
  unfold SapAps.goto at hj ⊢
  rw [modify_sessions] at hj ⊢
  rcases eq_or_ne j i with rfl | hne
  · rw [update_self]
    exact (hw hd).2 hf
  · rw [update_of_ne hne] at hj ⊢
    exact h.waits hd hf j hj

theorem sapStartDfsCacTimer (h : CacInv cfg s) (hk : s.dfs.cacState ≠ .skipCac)
    (hw : cfg.disableDFSChSwitch = false → ∀ j, (s.sessions j).sapsMachine = .dfsCacWait →
      (s.sessions j).channel = (s.sessions i).channel) :
    CacInv cfg (s.sapStartDfsCacTimer a i) := by
  unfold SapAps.sapStartDfsCacTimer
  split
  · exact h
  · split
    · exact ⟨fun hd _ j hj => ⟨rfl, hw hd j hj⟩, fun ht => (nomatch ht), fun hs => absurd hs hk,
        h.told, h.moved⟩
    · exact h.quiet destroyCacTimer

theorem startCac (h : CacInv cfg s) (hk : s.dfs.cacState ≠ .skipCac)
    (hw : cfg.disableDFSChSwitch = false → s.Waits i (s.sessions i).channel) :
    CacInv cfg ((s.goto i .dfsCacWait).startCac a i) := by
  have hwait := h.wait hw
  have hstart : CacInv cfg ((s.goto i .dfsCacWait).sapStartDfsCacTimer a i) := by
    refine hwait.sapStartDfsCacTimer hk fun hd j hj => ?_
    unfold SapAps.goto at hj ⊢
    rw [modify_sessions] at hj ⊢
    rw [modify_sessions, update_self]
    rcases eq_or_ne j i with rfl | hne
    · rw [update_self]
    · rw [update_of_ne hne] at hj ⊢
      exact (hw hd).1 j hne hj
  unfold SapAps.startCac
  refine CacInv.quiet ?_ sapCacStartNotify
  split
  · exact hwait
  · exact hstart

theorem mayBeacon {channel : Nat} (h : CacInv cfg s) (hok : s.MayCome cfg i channel)
    (hn : ¬ (s.dfs.ignoreCac = false ∧ s.dfs.cacState = .doNotSkipCac))
    (hd : cfg.disableDFSChSwitch = false) (hdfs : cfg.isDfs channel = true) :
    s.dfs.ignoreCac = true ∨ s.Shared i channel ∨ channel ∈ s.checked := by
  cases hi : s.dfs.ignoreCac with
  | true => exact .inl rfl
  | false =>
    have hk : s.dfs.cacState = .skipCac := by
      cases hc : s.dfs.cacState with
      | skipCac => rfl
      | doNotSkipCac => exact absurd ⟨hi, hc⟩ hn
    have hcome := hok hdfs hd hi
    rw [if_pos hk] at hcome
    obtain ⟨hr, rfl⟩ | hs := hcome
    · exact .inr (.inr (h.skips hk hr))
    · exact .inr (.inl hs)

theorem mayWait {channel : Nat} (hok : s.MayCome cfg i channel)
    (hn : s.dfs.ignoreCac = false ∧ s.dfs.cacState = .doNotSkipCac)
    (hd : cfg.disableDFSChSwitch = false) (hdfs : cfg.isDfs channel = true) :
    s.Waits i channel := by
  have hcome := hok hdfs hd hn.1
  rwa [if_neg (by rw [hn.2]; decide)] at hcome

theorem bssStarted (h : CacInv cfg s) (hok : s.MayCome cfg i (s.sessions i).channel) :
    CacInv cfg (s.bssStarted cfg a i) := by
  have heq : (s.goto i .started).signalStartBss i = s.modify i fun x =>
      { x.goto .started with startBssEvents := x.startBssEvents + 1 } := modify_modify ..
  have hs : CacInv cfg ((s.goto i .started).signalStartBss i) :=
    h.quiet ((Quiet.goto (by decide)).trans signal)
  have hch : (((s.goto i .started).signalStartBss i).sessions i).channel =
      (s.sessions i).channel := by
    rw [heq, modify_sessions, update_self]
    rfl
  have hcome : ((s.goto i .started).signalStartBss i).MayCome cfg i
      (((s.goto i .started).signalStartBss i).sessions i).channel := by
    rw [hch]
    exact (beside_modify.trans beside_modify).mayCome hok
  unfold SapAps.bssStarted
  dsimp only
  split
  · next hdfs =>
    split
    · next hn =>
      exact hs.startCac (by rw [hn.2]; decide) fun hd => mayWait hcome hn hd hdfs
    · next hn =>
      exact hs.startBeaconReq fun hd hdfs => hs.mayBeacon hcome hn hd hdfs
  · exact hs

theorem beside_startBeaconReq : Beside s (s.startBeaconReq i) i := by
  unfold SapAps.startBeaconReq SapAps.tellBeacon
  split
  · exact ⟨fun _ _ => rfl, rfl, rfl, rfl, rfl, rfl⟩
  · exact ⟨fun _ hne => update_of_ne hne .., rfl, rfl, rfl, rfl, rfl⟩

theorem restartBss (h : CacInv cfg s) (hok : s.MayCome cfg i (s.sessions i).channel) :
    CacInv cfg (s.restartBss cfg a i) := by
  let t := ({ s.goto i .starting with
    dfs := { s.dfs with sapRadarFoundStatus := false } } : SapAps).modify i
      fun x => { x with changes := x.changes + 1 }
  have hgoto : Quiet s (s.goto i .starting) := goto (by decide)
  have hquiet : Quiet s { s.goto i .starting with
      dfs := { s.dfs with sapRadarFoundStatus := false } } :=
    ⟨hgoto.waits, id, id, id, rfl, rfl, rfl, rfl, rfl⟩
  have ht : CacInv cfg t := h.quiet (hquiet.trans (modify fun hw => ⟨hw, rfl⟩))
  have hx : t.sessions i = { (s.sessions i).goto .starting with
      changes := (s.sessions i).changes + 1 } := by
    simp [t, SapAps.goto, SapSession.goto]
  have hbeside : Beside s t i := by
    refine ⟨fun j hne => ?_, rfl, rfl, rfl, rfl, rfl⟩
    simp [t, SapAps.goto, hne]
  have hfsm : s.restartBss cfg a i = t.bssStarted cfg a i := by
    change t.sapFsm cfg a i .macStartBssSuccess = _
    unfold SapAps.sapFsm
    rw [hx]
    rfl
  rw [hfsm]
  refine ht.bssStarted (hbeside.mayCome ?_)
  rw [hx]
  exact hok

theorem channelChangeSuccess (h : CacInv cfg s) (hw : (s.sessions i).sapsMachine ≠ .dfsCacWait)
    (hok : (s.sessions i).sapsMachine = .disconnecting → s.MayCome cfg i s.dfs.targetChannel) :
    CacInv cfg (s.channelChangeSuccess cfg a i) := by
  let t := s.modify i fun x => { x with channel := s.dfs.targetChannel }
  have ht : CacInv cfg t := h.quiet (modify fun h => absurd h hw)
  have hx : t.sessions i = { s.sessions i with channel := s.dfs.targetChannel } :=
    update_self ..
  change CacInv cfg (if (t.sessions i).sapsMachine = .disconnecting then _ else t)
  split
  · next hst =>
    have hcome : t.MayCome cfg i (t.sessions i).channel := by
      rw [hx] at hst ⊢
      exact beside_modify.mayCome (hok hst)
    split
    · next hdfs =>
      split
      · next hn =>
        have hfsm : (t.goto i .disconnected).sapFsm cfg a i .dfsChannelCacStart =
            ((t.goto i .disconnected).goto i .dfsCacWait).startCac a i := by
          unfold SapAps.sapFsm
          rw [SapAps.goto, modify_sessions, update_self]
          rfl
        have hch : ((t.goto i .disconnected).sessions i).channel = (t.sessions i).channel := by
          rw [SapAps.goto, modify_sessions, update_self]
          rfl
        rw [hfsm]
        refine (ht.quiet (goto (by decide))).startCac (by change t.dfs.cacState ≠ _; rw [hn.2]; decide) fun hd => ?_
        rw [hch]
        exact mayWait (beside_modify.mayCome hcome) hn hd hdfs
      · next hn =>
        have hch : ((t.startBeaconReq i).sessions i).channel = (t.sessions i).channel := by
          unfold SapAps.startBeaconReq SapAps.tellBeacon
          split
          · rfl
          · simp
        have hb : CacInv cfg (t.startBeaconReq i) :=
          ht.startBeaconReq fun hd hdfs => ht.mayBeacon hcome hn hd hdfs
        refine hb.restartBss ?_
        rw [hch]
        exact beside_startBeaconReq.mayCome hcome
    · exact ht.restartBss hcome
  · exact ht

end CacInv

end Qcacld.Sap

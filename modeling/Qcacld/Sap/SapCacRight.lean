import Qcacld.Sap.SapDfsCac

/-!
# Sap — SapCacRight

The end of a check, a radar, and every other event keep the invariants of `Sap.SapDfsCac`.  From them comes what the sessions make of the check in every run.
-/

namespace Qcacld.Sap
open Qcacld.Support Function List Quiet SapAps

variable {cfg : SapConfig} {a : SapAround} {s s' : SapAps} {i j : Intf}

/-! ### The end of the check -/

/-- The session may be told of the end of the check: it waits on a channel that is checked, or needs no check. -/
def SapAps.EndsWell (cfg : SapConfig) (s : SapAps) (j : Intf) : Prop :=
  SapAps.MayEnd cfg (s.sessions j) ∧ (cfg.disableDFSChSwitch = false →
    (s.sessions j).sapsMachine = .dfsCacWait → (s.sessions j).channel ∈ s.checked)

theorem CacInv.cacEnd (h : CacInv cfg s) (hj : s.EndsWell cfg j) : CacInv cfg (s.cacEnd j) := by
  obtain ⟨hend, hchecked⟩ := hj
  obtain ⟨shared, heq⟩ := cacEnd_eq s j
  have hm : CacInv cfg (s.modify j SapSession.ended) :=
    h.quiet (modify fun hw => (nomatch hw))
  rw [heq]
  refine ⟨hm.waits, hm.expired, hm.skips, fun hd b hb => ?_, fun st hst => ?_⟩
  · rcases mem_append.1 hb with hb | hb
    · exact h.told hd b hb
    · rw [mem_singleton.1 hb]
      intro hdfs
      obtain hw | ⟨-, hno⟩ := hend
      · exact .inr (.inr (decide_eq_true (hchecked hd hw)))
      · exact absurd hdfs (by rw [hno]; decide)
  · dsimp only at hst
    split at hst
    · exact h.moved st hst
    · next hne =>
      rcases mem_append.1 hst with hst | hst
      · exact h.moved st hst
      · rw [mem_singleton.1 hst]
        exact hend.resolve_right fun hs => hne hs.1

theorem Counted.cacEnd (h : Counted s) (hj : SapAps.MayEnd cfg (s.sessions j)) :
    Counted (s.cacEnd j) := by
  obtain ⟨shared, heq⟩ := cacEnd_eq s j
  have hx : ¬ (s.sessions j).sapsMachine.UnderWay := by
    obtain hw | ⟨hw, -⟩ := hj
    · rw [hw]; decide
    · rw [hw]; decide
  have hm : Counted (s.modify j SapSession.ended) := by
    refine h.modify ?_
    have := h j
    unfold SapSession.Answered at *
    rw [if_neg hx] at this
    change (s.sessions j).startBssEvents + 1 + 0 =
      (s.sessions j).asked + ((s.sessions j).cacEnds + 1) + (s.sessions j).changes
    omega
  rw [heq]
  exact hm

theorem SapAps.EndsWell.cacEnd {k : Intf} (hne : j ≠ k) (hj : s.EndsWell cfg j) :
    (s.cacEnd k).EndsWell cfg j := by
  obtain ⟨shared, heq⟩ := cacEnd_eq s k
  rw [heq]
  unfold SapAps.EndsWell at *
  rw [modify_sessions, update_of_ne hne]
  exact hj

theorem cacEndLoop_right {js : List Intf} (hjs : js.Nodup) (h : CacInv cfg s) (hc : Counted s)
    (hchecked : s.cacRadar = false → s.cacChannel ∈ s.checked)
    (hends : ∀ j ∈ js, s.sapCtxList j = true → (s.sessions j).isCacEndNotified = false →
      s.EndsWell cfg j) :
    CacInv cfg (s.cacEndLoop a js) ∧ Counted (s.cacEndLoop a js) := by
  induction js generalizing s with
  | nil => exact ⟨⟨h.waits, h.expired, fun _ => hchecked, h.told, h.moved⟩, hc⟩
  | cons j js ih =>
    obtain ⟨hj, hjs⟩ := nodup_cons.1 hjs
    unfold cacEndLoop
    split
    · next hcond =>
      rw [Bool.and_eq_true_iff, Bool.not_eq_true'] at hcond
      have hend := hends j mem_cons_self hcond.1 hcond.2
      split
      · split
        · obtain ⟨shared, heq⟩ := cacEnd_eq s j
          refine ih hjs (h.cacEnd hend) (hc.cacEnd hend.1) (by rw [heq]; exact hchecked)
            fun k hk hctx hnot => ?_
          have hne : k ≠ j := ne_of_mem_of_not_mem hk hj
          refine (hends k (mem_cons_of_mem j hk) ?_ ?_).cacEnd hne
          · rwa [heq] at hctx
          · rwa [heq, modify_sessions, update_of_ne hne] at hnot
        · exact ⟨h.cacEnd hend, hc.cacEnd hend.1⟩
      · exact ⟨h, hc⟩
    · exact ih hjs h hc hchecked fun k hk => hends k (mem_cons_of_mem j hk)

theorem sapFsm_cacEnd (hw : (s.sessions i).sapsMachine = .dfsCacWait) :
    s.sapFsm cfg a i .dfsChannelCacEnd = s.cacEndLoop a (finRange _) := by
  unfold SapAps.sapFsm
  rw [hw]
  rfl

/-- **The callback.**  The timer has run out for the channel of the sessions that wait. -/
theorem callback_right (hs : SapInv s) (h : CacInv cfg s) (hc : Counted s) (n : Nat)
    (hok : ∀ i, s.sapFindValidConcurrentSession = some i →
      (s.sessions i).sapsMachine = .dfsCacWait → s.CallbackOk cfg) :
    CacInv cfg ({ s with posted := n }.sapDfsCacTimerCallback cfg a) ∧
      Counted ({ s with posted := n }.sapDfsCacTimerCallback cfg a) := by
  have hn : CacInv cfg { s with posted := n } := ⟨h.waits, h.expired, h.skips, h.told, h.moved⟩
  have hd : CacInv cfg { s with posted := n }.destroyCacTimer := hn.quiet destroyCacTimer
  unfold sapDfsCacTimerCallback
  split
  · exact ⟨hn, hc⟩
  · next i hi =>
    dsimp only
    split
    · split
      · next hf hw =>
        obtain ⟨ht, hends⟩ := hok i hi hw
        rw [sapFsm_cacEnd hw]
        refine cacEndLoop_right (nodup_finRange _) hd hc (h.expired ht) fun j _ hctx hnot =>
          ⟨hends j hctx hnot, fun hdis hwait => ?_⟩
        obtain ⟨hr, hch⟩ := h.waits hdis hf j hwait
        change (s.sessions j).channel ∈ s.checked
        rw [hch]
        exact h.expired ht hr
      · exact ⟨hd, hc⟩
    · next hf =>
      split
      · next hw =>
        obtain ⟨ht, -⟩ := hok i hi hw
        exact absurd (hs.flag.2 (by rw [ht]; decide)) hf
      · exact ⟨hn, hc⟩

/-! ### A radar -/

theorem quiet_wlansapStopBss : Quiet s (s.wlansapStopBss cfg a i) :=
  sapFsm (by decide) fun _ => by decide

theorem stopAll_waits {l : List Intf} (hs : SapInv s)
    (hl : ∀ j, (s.sessions j).sapsMachine = .dfsCacWait → j ∈ l) (j : Intf) :
    ((l.foldl (fun s j => if s.sapCtxList j then s.wlansapStopBss cfg a j else s) s).sessions
      j).sapsMachine ≠ .dfsCacWait := by
  induction l generalizing s with
  | nil => exact fun hj => (nomatch hl j hj)
  | cons k l ih =>
    rw [foldl_cons]
    split
    · next hk =>
      refine ih (SapInv.sapFsm hs hk) fun j hj => ?_
      have hj' := (quiet_wlansapStopBss.waits j hj).1
      refine (mem_cons.1 (hl j hj')).resolve_left fun hjk => ?_
      subst hjk
      unfold SapAps.wlansapStopBss SapAps.sapFsm at hj
      rw [hj'] at hj
      simp [SapAps.goto, SapSession.goto] at hj
    · next hk =>
      refine ih hs fun j hj => (mem_cons.1 (hl j hj)).resolve_left fun hjk => hk ?_
      rw [← hjk]
      exact hs.named j (by rw [hj]; decide)

theorem quiet_sapCacResetNotify : Quiet s s.sapCacResetNotify := by
  refine sessions fun j hj => ?_
  split at hj
  · next hx => rw [if_pos hx]; exact ⟨hj, rfl⟩
  · next hx => rw [if_neg hx]; exact ⟨hj, rfl⟩

theorem sapCacResetNotify_same (j : Intf) :
    (s.sapCacResetNotify.sessions j).sapsMachine = (s.sessions j).sapsMachine ∧
      (s.sapCacResetNotify.sessions j).SameCounts (s.sessions j) := by
  unfold sapCacResetNotify
  dsimp only
  split
  · exact ⟨rfl, ⟨rfl, rfl, rfl, rfl⟩⟩
  · exact ⟨rfl, ⟨rfl, rfl, rfl, rfl⟩⟩

section Radar
variable {radarStatus : Bool} {userTarget : Nat}

theorem quiet_dfsRadarInd : Quiet s (s.dfsRadarInd cfg a i radarStatus userTarget) := by
  have hind : Quiet s (s.sapIndicateRadar cfg a i radarStatus userTarget) :=
    ⟨fun _ h => ⟨h, rfl⟩, id, id, id, rfl, rfl, rfl, rfl, rfl⟩
  unfold dfsRadarInd
  dsimp only
  split
  · refine foldl_keeps (P := Quiet s) (fun t j _ ht => ?_) hind
    split
    · exact ht.trans quiet_wlansapStopBss
    · exact ht
  · have hk : Quiet s { s.sapIndicateRadar cfg a i radarStatus userTarget with
        dfs := { (s.sapIndicateRadar cfg a i radarStatus userTarget).dfs with
          cacState := .doNotSkipCac } } :=
      ⟨fun _ h => ⟨h, rfl⟩, id, id, fun h => (nomatch h), rfl, rfl, rfl, rfl, rfl⟩
    exact hk.trans quiet_sapCacResetNotify

theorem counted_dfsRadarInd (h : Counted s) :
    Counted (s.dfsRadarInd cfg a i radarStatus userTarget) := by
  unfold dfsRadarInd
  dsimp only
  split
  · refine foldl_keeps (P := Counted) (fun t j _ ht => ?_)
      (s := s.sapIndicateRadar cfg a i radarStatus userTarget) h
    split
    · exact ht.sapFsm (by decide)
    · exact ht
  · exact Counted.of_same h sapCacResetNotify_same

theorem dfsRadarInd_of_waits (hs : SapInv s) {k : Intf}
    (hk : ((s.dfsRadarInd cfg a i radarStatus userTarget).sessions k).sapsMachine = .dfsCacWait) :
    (∀ j, ((s.dfsRadarInd cfg a i radarStatus userTarget).sessions j).sapsMachine =
      (s.sessions j).sapsMachine) ∧
    (s.dfsRadarInd cfg a i radarStatus userTarget).dfs.sapRadarFoundStatus =
      (s.sapIndicateRadar cfg a i radarStatus userTarget).dfs.sapRadarFoundStatus := by
  unfold dfsRadarInd at *
  dsimp only at *
  split at hk
  · have hind : SapInv (s.sapIndicateRadar cfg a i radarStatus userTarget) :=
      ⟨hs.named, hs.flag, hs.posted, hs.owned⟩
    exact absurd hk (stopAll_waits hind (fun j _ => mem_finRange j) k)
  · next h0 =>
    rw [if_neg h0]
    exact ⟨fun j => (sapCacResetNotify_same j).1, rfl⟩

theorem quiet_dfsRadarFoundInd : Quiet s (s.dfsRadarFoundInd cfg a i) := by
  unfold dfsRadarFoundInd
  split
  · next h =>
    exact destroyCacTimer.trans (sapFsm (by decide) fun hst => (nomatch h.1.symm.trans hst))
  · exact refl s

theorem counted_dfsRadarFoundInd (h : Counted s)
    (hu : (s.sessions i).sapsMachine = .dfsCacWait → ∀ j, ¬ (s.sessions j).sapsMachine.UnderWay) :
    Counted (s.dfsRadarFoundInd cfg a i) := by
  unfold dfsRadarFoundInd
  split
  · next hw =>
    have hfsm : s.destroyCacTimer.sapFsm cfg a i .dfsChannelCacRadarFound =
        s.destroyCacTimer.radarFound a := by
      unfold SapAps.sapFsm
      rw [show (s.destroyCacTimer.sessions i).sapsMachine = _ from hw.1]
    rw [hfsm]
    intro j
    unfold radarFound
    dsimp only
    split
    · have hgoto : ((s.sessions j).goto .disconnecting).Answered :=
        (h j).goto (iff_of_false (by decide) (hu hw.1 j))
      exact hgoto.of_same rfl ⟨rfl, rfl, rfl, rfl⟩
    · exact h j
  · exact h

theorem CacInv.noteRadar {channels : List Nat} (h : CacInv cfg s)
    (q : Quiet (s.noteRadar channels) s')
    (hw : cfg.disableDFSChSwitch = false → s'.dfs.isDfsCacTimerRunning = true →
      ∀ j, (s'.sessions j).sapsMachine = .dfsCacWait → (s.sessions j).channel ∉ channels) :
    CacInv cfg s' := by
  have hchecked : (s.cacRadar = false → s.cacChannel ∈ s.checked) → s'.cacRadar = false →
      s'.cacChannel ∈ s'.checked := by
    intro hc hr
    rw [q.cacRadar] at hr
    rw [q.cacChannel, q.checked]
    obtain ⟨hr, hn⟩ := Bool.or_eq_false_iff.1 hr
    exact mem_filter.2 ⟨hc hr, decide_eq_true (of_decide_eq_false hn)⟩
  refine ⟨fun hd hf j hj => ?_, fun ht => hchecked (h.expired (q.stopped ht)),
    fun hk => hchecked (h.skips (q.skips hk)), ?_, ?_⟩
  · obtain ⟨hj', hch⟩ := q.waits j hj
    obtain ⟨hr, hc⟩ := h.waits hd (q.flag hf) j hj'
    have hn := hw hd hf j hj
    rw [q.ofCheck, hch]
    refine ⟨?_, hc⟩
    rw [hc] at hn
    simp [SapAps.noteRadar, hr, hn]
  · rw [q.told]; exact h.told
  · rw [q.moved]; exact h.moved

/-- **A radar.**  Those that wait on its channels leave them, and the timer is taken down. -/
theorem cacRadar_right {channels : List Nat} (hs : SapInv s) (h : CacInv cfg s) (hc : Counted s)
    (hok : SapEventOk cfg s (.radar i channels radarStatus userTarget a))
    (hstep : sapStep cfg s (.radar i channels radarStatus userTarget a) = some s') :
    CacInv cfg s' ∧ Counted s' := by
  cases hstep
  obtain ⟨hwaits, hothers⟩ := hok
  let t := if radarStatus then s.noteRadar channels else s
  have ht : t.sessions = s.sessions := by
    cases radarStatus <;> rfl
  have hst : SapInv t := by
    cases radarStatus
    · exact hs
    · exact ⟨hs.named, hs.flag, hs.posted, hs.owned⟩
  have hct : Counted t := by
    unfold Counted
    rw [ht]
    exact hc
  have hq : Quiet t ((t.dfsRadarInd cfg a i radarStatus userTarget).dfsRadarFoundInd cfg a i) :=
    quiet_dfsRadarInd.trans quiet_dfsRadarFoundInd
  refine ⟨?_, counted_dfsRadarFoundInd (counted_dfsRadarInd hct) fun hw j => ?_⟩
  · cases radarStatus with
    | false => exact h.quiet hq
    | true =>
      refine h.noteRadar hq fun hd hf j hj => ?_
      obtain ⟨hj', -⟩ := hq.waits j hj
      refine hothers (fun hi => ?_) rfl j hj'
      -- a session that waits hears of the radar, unless it has been stopped
      have hj₂ := (quiet_dfsRadarFoundInd.waits j hj).1
      obtain ⟨hsame, hfound⟩ := dfsRadarInd_of_waits hst hj₂
      have hcond : ((t.dfsRadarInd cfg a i true userTarget).sessions i).sapsMachine = .dfsCacWait ∧
          cfg.disableDFSChSwitch = false ∧
          (t.dfsRadarInd cfg a i true userTarget).dfs.sapRadarFoundStatus = true := by
        refine ⟨(hsame i).trans hi, hd, hfound.trans ?_⟩
        simp [sapIndicateRadar, hd]
      unfold dfsRadarFoundInd at hf
      rw [if_pos hcond] at hf
      have hquiet : Quiet (t.dfsRadarInd cfg a i true userTarget).destroyCacTimer
          ((t.dfsRadarInd cfg a i true userTarget).destroyCacTimer.sapFsm cfg a i
            .dfsChannelCacRadarFound) :=
        sapFsm (by decide) fun hst => (nomatch hcond.1.symm.trans hst)
      exact nomatch hquiet.flag hf
  · obtain ⟨hsame, -⟩ := dfsRadarInd_of_waits hst hw
    rw [hsame j, ht]
    refine hwaits ?_ j
    rw [← ht, ← hsame i]
    exact hw

end Radar

/-! ### A start, and what comes of it -/

theorem Counted.wlansapStartBss (h : Counted s) (channel : Nat)
    (hu : ¬ (s.sessions i).sapsMachine.UnderWay) (ha : a.channelSelAborts = false) :
    Counted (s.wlansapStartBss cfg a i channel) := by
  have hi := h i
  unfold SapSession.Answered at hi
  rw [if_neg hu] at hi
  unfold SapAps.wlansapStartBss SapAps.sapFsm SapAps.startAccepted
  dsimp only
  rw [modify_sessions, update_self, ha]
  change Counted (if ((s.sessions i).isSapSessionOpen || a.sessionOpens) = true then _ else _)
  split
  · next ho =>
    refine chosen (i := i) (h.beside (i := i) (fun j hne => ?_) ?_) ?_ (sapGotoChannelSel_chosen ?_)
    · simp [SapAps.goto, hne]
    · simp only [SapAps.goto, SapAps.modify_sessions, update_self]
      change (s.sessions i).startBssEvents + 1 =
        (if ((s.sessions i).isSapSessionOpen || a.sessionOpens) && !false then
          (s.sessions i).asked + 1 else (s.sessions i).asked) + _ + _
      rw [ho]
      change _ = (s.sessions i).asked + 1 + (s.sessions i).cacEnds + (s.sessions i).changes
      omega
    · simp [SapAps.goto, SapSession.goto]; decide
    · simp [SapAps.goto, SapSession.goto]
  · next ho =>
    rw [Bool.not_eq_true] at ho
    refine h.beside (i := i) (fun j hne => ?_) ?_
    · simp [hne]
    · simp only [modify_sessions, update_self]
      change (s.sessions i).startBssEvents + 0 =
        (if ((s.sessions i).isSapSessionOpen || a.sessionOpens) && !false then
          (s.sessions i).asked + 1 else (s.sessions i).asked) + _ + _
      rw [ho]
      exact hi

theorem quiet_wlansapStartBss (channel : Nat) : Quiet s (s.wlansapStartBss cfg a i channel) := by
  let t := s.modify i fun x => { x.goto .disconnected with
    channel := channel
    asked := if s.startAccepted a i then x.asked + 1 else x.asked }
  have hgoto : Quiet s t := modify fun hw => (nomatch hw)
  have ht : Quiet s { t with sapCtxList := update s.sapCtxList i true } :=
    ⟨hgoto.waits, id, id, id, rfl, rfl, rfl, rfl, rfl⟩
  exact ht.trans (sapFsm (by decide) fun _ => by decide)

section Scan
variable {operChannel backupChannel : Nat} {retry : Bool}

theorem Counted.wlansapScanCallback (h : Counted s)
    (hst : (s.sessions i).sapsMachine = .chSelect ∨ (s.sessions i).sapsMachine = .disconnected ∨
      (s.sessions i).sapsMachine = .started) :
    Counted (s.wlansapScanCallback cfg a i operChannel backupChannel retry) := by
  unfold SapAps.wlansapScanCallback
  split
  · exact h
  · exact h.modify ((h i).of_same rfl ⟨rfl, rfl, rfl, rfl⟩)
  · next hd hs =>
    have hsel : (s.sessions i).sapsMachine = .chSelect :=
      hst.resolve_right fun hx => hx.elim hd hs
    split
    · split
      · -- the next band is scanned, without an answer
        have hfsm : (s.goto i .disconnected).sapFsm cfg a i .channelSelectionRetry =
            ((s.goto i .disconnected).goto i .chSelect).sapGotoChannelSel cfg a i := by
          unfold SapAps.sapFsm
          rw [SapAps.goto, SapAps.modify_sessions, update_self]
          rfl
        rw [hfsm]
        refine chosen (i := i) ?_ ?_ (sapGotoChannelSel_chosen ?_)
        · unfold SapAps.goto
          rw [modify_modify]
          exact h.modify ((h i).goto (by rw [hsel]))
        · simp [SapAps.goto, SapSession.goto]; decide
        · simp [SapAps.goto, SapSession.goto]
      · exact sapFsm (h.goto (by rw [hsel])) (by decide)
    · exact sapFsm (h.modify ((h i).of_same rfl ⟨rfl, rfl, rfl, rfl⟩)) (by decide)

theorem quiet_wlansapScanCallback (hst : (s.sessions i).sapsMachine = .chSelect ∨
      (s.sessions i).sapsMachine = .disconnected ∨ (s.sessions i).sapsMachine = .started) :
    Quiet s (s.wlansapScanCallback cfg a i operChannel backupChannel retry) := by
  have hno : (s.sessions i).sapsMachine ≠ .dfsCacWait := by
    obtain hst | hst | hst := hst
    · rw [hst]; decide
    · rw [hst]; decide
    · rw [hst]; decide
  have hchannel : ∀ ch, Quiet s (s.modify i fun x => { x with channel := ch }) :=
    fun _ => modify fun hw => absurd hw hno
  unfold wlansapScanCallback
  split
  · exact refl s
  · exact hchannel _
  · split
    · split
      · exact (Quiet.goto (by decide)).trans (sapFsm (by decide) fun _ => by decide)
      · exact (Quiet.goto (by decide)).trans (sapFsm (by decide) fun _ => by decide)
    · exact (hchannel _).trans (sapFsm (by decide) fun _ => by decide)

end Scan

theorem CacInv.infraStarted (h : CacInv cfg s)
    (hok : (s.sessions i).sapsMachine = .starting → s.MayCome cfg i (s.sessions i).channel) :
    CacInv cfg (s.sapFsm cfg a i .macStartBssSuccess) := by
  by_cases hst : (s.sessions i).sapsMachine = .starting
  · have hfsm : s.sapFsm cfg a i .macStartBssSuccess = s.bssStarted cfg a i := by
      unfold SapAps.sapFsm
      rw [hst]
    rw [hfsm]
    exact h.bssStarted (hok hst)
  · exact h.quiet (sapFsm (by decide) fun hs => absurd hs hst)

/-! ### The changes of channel -/

theorem Counted.restartBss (h : Counted s) (hu : ¬ (s.sessions i).sapsMachine.UnderWay) :
    Counted (s.restartBss cfg a i) := by
  have hi := h i
  unfold SapSession.Answered at hi
  rw [if_neg hu] at hi
  refine Counted.sapFsm (h.beside (i := i) (fun j hne => ?_) ?_) (by decide)
  · simp [SapAps.goto, hne]
  · simp only [SapAps.goto, SapAps.modify_sessions, update_self]
    change (s.sessions i).startBssEvents + 1 =
      (s.sessions i).asked + (s.sessions i).cacEnds + ((s.sessions i).changes + 1)
    omega

theorem Counted.channelChangeSuccess (h : Counted s) : Counted (s.channelChangeSuccess cfg a i) := by
  have ht : Counted (s.modify i fun x => { x with channel := s.dfs.targetChannel }) :=
    h.modify ((h i).of_same rfl ⟨rfl, rfl, rfl, rfl⟩)
  unfold SapAps.channelChangeSuccess
  dsimp only
  split
  · next hst =>
    have hu : ¬ ((s.modify i fun x => { x with channel := s.dfs.targetChannel }).sessions
        i).sapsMachine.UnderWay := by
      rw [hst]; decide
    split
    · split
      · exact sapFsm (ht.goto (iff_of_false (by decide) hu)) (by decide)
      · refine ht.startBeaconReq.restartBss ?_
        unfold SapAps.startBeaconReq SapAps.tellBeacon
        split
        · exact hu
        · simpa using hu
    · exact ht.restartBss hu
  · exact ht

theorem changeChannels_same (j : Intf) :
    ((s.changeChannels a).sessions j).sapsMachine = (s.sessions j).sapsMachine ∧
      ((s.changeChannels a).sessions j).SameCounts (s.sessions j) := by
  unfold changeChannels
  dsimp only
  split
  · exact ⟨rfl, ⟨rfl, rfl, rfl, rfl⟩⟩
  · exact ⟨rfl, ⟨rfl, rfl, rfl, rfl⟩⟩

theorem quiet_changeChannels : Quiet s (s.changeChannels a) := by
  refine sessions fun j hj => ?_
  dsimp only at hj ⊢
  split at hj
  · next hx => exact nomatch hx.2.1.symm.trans hj
  · next hx => rw [if_neg hx]; exact ⟨hj, rfl⟩

theorem Counted.chanswUpdate (h : Counted s) : Counted (s.chanswUpdate cfg a i) := by
  unfold SapAps.chanswUpdate
  split
  · exact h.modify (f := fun x => { x with beaconing := some (s.sessions i).channel })
      ((h i).of_same rfl ⟨rfl, rfl, rfl, rfl⟩)
  · split
    · next hst =>
      have ht : Counted (s.goto i .disconnecting) := h.goto (by rw [hst]; decide)
      have hready : Counted ((s.goto i .disconnecting).modify i fun x =>
          { x with isSapReadyForChnlChng := true }) :=
        ht.modify ((ht i).of_same rfl ⟨rfl, rfl, rfl, rfl⟩)
      dsimp only
      split
      · split
        · exact hready.of_same changeChannels_same
        · exact hready
      · exact ht.sapFsm (by decide)
    · exact h

theorem CacInv.chanswUpdate (h : CacInv cfg s) : CacInv cfg (s.chanswUpdate cfg a i) := by
  unfold SapAps.chanswUpdate
  split
  · next hdis =>
    have hno : cfg.disableDFSChSwitch ≠ false := by rw [hdis]; decide
    exact ⟨fun hd => absurd hd hno, h.expired, h.skips, fun hd => absurd hd hno, h.moved⟩
  · split
    · have ht : Quiet s (s.goto i .disconnecting) := goto (by decide)
      have hready : Quiet s ((s.goto i .disconnecting).modify i fun x =>
          { x with isSapReadyForChnlChng := true }) := ht.trans (modify fun hw => ⟨hw, rfl⟩)
      dsimp only
      split
      · split
        · exact h.quiet (hready.trans quiet_changeChannels)
        · exact h.quiet hready
      · exact h.quiet (ht.trans (sapFsm (by decide) fun _ => by decide))
    · exact h

section SetChannel
variable {targetChannel : Nat} {cacState : SapDfsCacState}

theorem Counted.setChannelChange (h : Counted s) :
    Counted (s.setChannelChange i targetChannel cacState) := by
  unfold SapAps.setChannelChange
  split
  · exact of_same h sapCacResetNotify_same
  · exact h

theorem quiet_setChannelChange (hk : (s.sessions i).sapsMachine = .started →
    cacState = .skipCac → s.dfs.cacState = .skipCac) :
    Quiet s (s.setChannelChange i targetChannel cacState) := by
  unfold setChannelChange
  split
  · next hst =>
    have hset : Quiet s { s with dfs := { s.dfs with
        targetChannel := targetChannel
        sapRadarFoundStatus := true
        cacState := cacState } } :=
      ⟨fun _ hw => ⟨hw, rfl⟩, id, id, hk hst, rfl, rfl, rfl, rfl, rfl⟩
    exact hset.trans quiet_sapCacResetNotify
  · exact refl s

end SetChannel

/-! ### Every run -/

theorem CacInv.cacTimerExpires (h : CacInv cfg s) : CacInv cfg { s with
    dfs := { s.dfs with sapDfsCacTimer := .stopped }
    posted := s.posted + 1
    checked := if s.cacRadar then s.checked else s.cacChannel :: s.checked } := by
  have hchecked : s.cacRadar = false →
      s.cacChannel ∈ if s.cacRadar then s.checked else s.cacChannel :: s.checked := by
    intro hr
    rw [hr]
    exact mem_cons_self
  exact ⟨h.waits, fun _ => hchecked, fun _ => hchecked, h.told, h.moved⟩

theorem sapStep_right {e : SapEvent} (hs : SapInv s) (h : CacInv cfg s) (hc : Counted s)
    (hok : SapEventOk cfg s e) (hstep : sapStep cfg s e = some s') :
    CacInv cfg s' ∧ Counted s' := by
  cases e with
  | startBss i channel a =>
    cases hstep
    exact ⟨h.quiet (quiet_wlansapStartBss channel), hc.wlansapStartBss channel hok.1 hok.2⟩
  | stopBss i a => cases hstep; exact ⟨h.quiet quiet_wlansapStopBss, hc.sapFsm (by decide)⟩
  | scanDone i operChannel backupChannel retry a =>
    cases hstep
    exact ⟨h.quiet (quiet_wlansapScanCallback hok), hc.wlansapScanCallback hok⟩
  | infraStarted i a => cases hstep; exact ⟨h.infraStarted hok, hc.sapFsm (by decide)⟩
  | infraStartFailed i a =>
    cases hstep
    exact ⟨h.quiet (sapFsm (by decide) fun _ => by decide), hc.sapFsm (by decide)⟩
  | infraStopped i a =>
    cases hstep
    exact ⟨h.quiet (sapFsm (by decide) fun _ => by decide), hc.sapFsm (by decide)⟩
  | operatingChannelChanged i a =>
    cases hstep
    exact ⟨h.quiet (sapFsm (by decide) fun _ => by decide), hc.sapFsm (by decide)⟩
  | cacTimerExpires =>
    obtain ⟨-, rfl⟩ := guarded_eq_some.1 hstep
    exact ⟨h.cacTimerExpires, hc⟩
  | cacTimerCallback a =>
    obtain ⟨-, rfl⟩ := guarded_eq_some.1 hstep
    exact callback_right hs h hc _ hok
  | radar i channels radarStatus userTarget a => exact cacRadar_right hs h hc hok hstep
  | chanswUpdate i a => cases hstep; exact ⟨h.chanswUpdate, hc.chanswUpdate⟩
  | channelChangeSuccess i a =>
    cases hstep
    exact ⟨h.channelChangeSuccess hok.1 hok.2, hc.channelChangeSuccess⟩
  | setChannelChangeWithCsa i targetChannel =>
    cases hstep
    exact ⟨h.quiet (quiet_setChannelChange fun _ hk => (nomatch hk)), hc.setChannelChange⟩
  | setSub20ChannelwidthWithCsa i =>
    cases hstep
    exact ⟨h.quiet (quiet_setChannelChange fun hst _ => hok hst), hc.setChannelChange⟩
  | setDfsIgnoreCac ignoreCac =>
    cases hstep
    exact ⟨⟨h.waits, h.expired, h.skips, h.told, h.moved⟩, hc⟩

theorem SapInit.cacInv (h : SapInit s) : CacInv cfg s where
  waits _ hf := nomatch h.flag.symm.trans hf
  expired ht := nomatch h.timer.symm.trans ht
  skips hk := nomatch h.cacState.symm.trans hk
  told _ b hb := by rw [h.told] at hb; cases hb
  moved st hst := by rw [h.moved] at hst; cases hst

theorem SapInit.counted (h : SapInit s) : Counted s := by
  intro i
  obtain ⟨h₁, h₂, h₃, h₄⟩ := h.counts i
  unfold SapSession.Answered
  rw [h.disconnected i, h₁, h₂, h₃, h₄]
  decide

/-- **The sessions and their one check.**  The flag says in every run whether the timer is initialised.  In the runs that keep the check to its channel and its sessions, whoever is told to beacon on a DFS channel may, the end of the check moves only those who wait, and every start is answered once. -/
theorem sap_dfs_cac_right (cfg : SapConfig) :
    (∀ s, (sapMachine cfg).Reach (fun _ _ => True) s → s.TimerRight) ∧
      ∀ s, (sapMachine cfg).Reach (SapEventOk cfg) s → SapRight cfg s := by
  refine ⟨fun s hs => (reach_sapInv hs).timerRight, fun s hs => ?_⟩
  have hall : SapInv s ∧ CacInv cfg s ∧ Counted s :=
    hs.invariant (fun s => SapInv s ∧ CacInv cfg s ∧ Counted s)
      (fun _ (h : SapInit _) => ⟨SapInv.init h, h.cacInv, h.counted⟩)
      fun _ _ _ h hok hstep => ⟨sapStep_inv h.1 hstep, sapStep_right h.1 h.2.1 h.2.2 hok hstep⟩
  exact ⟨hall.2.1.told, hall.2.1.moved, hall.2.2⟩

/-! ### Two sessions -/

def dfsFrom52 : SapConfig where
  isDfs channel := decide (52 ≤ channel ∧ channel ≤ 144)
  disableDFSChSwitch := false

/-- Whatever is asked for is done, and channel 100 is to be moved to. -/
def allGranted : SapAround where
  sessionOpens := true
  channelSelAborts := false
  channelOverride := none
  scanSent := true
  defaultChannel := 0
  channelInNol := false
  randomChannel := 100
  concurrentChannel := 0
  timerStarts := true
  signalled _ := true
  startSignalled _ := true
  channelListed _ := true
  channelChangeSent _ := true

def sapBegins : SapAps where
  sessions _ := {
    sapsMachine := .disconnected
    channel := 0
    isCacStartNotified := false
    isCacEndNotified := false
    isSapSessionOpen := false
    isSapReadyForChnlChng := false
    beaconing := none
    asked := 0
    startBssEvents := 0
    cacEnds := 0
    changes := 0 }
  sapCtxList _ := false
  dfs := {
    sapDfsCacTimer := .unused
    isDfsCacTimerRunning := false
    cacState := .doNotSkipCac
    ignoreCac := false
    targetChannel := 0
    sapRadarFoundStatus := false }
  posted := 0
  cacChannel := 0
  cacRadar := false
  checked := []
  told := []
  moved := []

theorem sapBegins_init : (sapMachine dfsFrom52).init sapBegins where
  disconnected _ := rfl
  beaconing _ := rfl
  counts _ := ⟨rfl, rfl, rfl, rfl⟩
  timer := rfl
  flag := rfl
  cacState := rfl
  posted := rfl
  told := rfl
  moved := rfl

/-- A session that starts on a DFS channel gets two answers: one before the check, and one after it. -/
theorem cacEnds_answersTwice : ¬ ∀ cfg s, (sapMachine cfg).Reach (fun _ _ => True) s →
    (∀ b ∈ s.told, b.Allowed cfg) ∧ (∀ st ∈ s.moved, st = .dfsCacWait) ∧
      (s.dfs.isDfsCacTimerRunning = true ↔ s.dfs.sapDfsCacTimer = .running) ∧
      ∀ i, (s.sessions i).startBssEvents + (if (s.sessions i).sapsMachine.UnderWay then 1 else 0) =
        (s.sessions i).asked := by
  intro h
  obtain ⟨s, hs, hbad⟩ : ∃ s, (sapMachine dfsFrom52).run sapBegins
      [.startBss 0 52 allGranted, .infraStarted 0 allGranted, .cacTimerExpires,
        .cacTimerCallback allGranted] = some s ∧
      (s.sessions 0).startBssEvents +
        (if (s.sessions 0).sapsMachine.UnderWay then 1 else 0) ≠ (s.sessions 0).asked :=
    Machine.exists_run (by decide +kernel)
  obtain ⟨-, -, -, hanswered⟩ := h dfsFrom52 s (Machine.reach_of_run sapBegins_init hs)
  exact hbad (hanswered 0)

theorem sap_dfs_cac_right_radar : ∃ s : SapAps, (s.sessions 1).beaconing = some 100 ∧
    s.told.length = 4 ∧ s.TimerRight ∧ SapRight dfsFrom52 s := by
  let es : List SapEvent :=
    [.startBss 0 52 allGranted, .infraStarted 0 allGranted, .startBss 1 52 allGranted,
      .infraStarted 1 allGranted, .cacTimerExpires, .cacTimerCallback allGranted,
      .radar 0 [52] true 0 allGranted, .chanswUpdate 1 allGranted, .chanswUpdate 0 allGranted,
      .channelChangeSuccess 0 allGranted, .channelChangeSuccess 1 allGranted, .cacTimerExpires,
      .cacTimerCallback allGranted, .stopBss 0 allGranted, .infraStopped 0 allGranted]
  obtain ⟨s, hs, hok, hbeacon, htold⟩ : ∃ s, (sapMachine dfsFrom52).run sapBegins es = some s ∧
      (sapMachine dfsFrom52).Reach (SapEventOk dfsFrom52) s ∧
        (s.sessions 1).beaconing = some 100 ∧ s.told.length = 4 :=
    Machine.exists_reach sapBegins_init (by decide +kernel) (by decide +kernel)
  exact ⟨s, hbeacon, htold,
    (sap_dfs_cac_right dfsFrom52).1 s (Machine.reach_of_run sapBegins_init hs),
    (sap_dfs_cac_right dfsFrom52).2 s hok⟩

end Qcacld.Sap

import Qcacld.Support.Runs

/-!
# Lim — LimSpecMgmt

Spectrum management on a station session: the quiet periods and the channel switches an access point asks for.  Each has a state and timers of its own, and both stop and resume the transmission through `limFrameTransmissionControl`.

`spec_mgmt_right` says in which states the transmission is stopped.  A channel switch freezes it when it is silent and when few beacons are left, once no scan and no pre-authentication keeps it from acting, and leaves it frozen until the channel change it asks for is done.

The session is the one that the timers name.  A timer may expire whenever it runs, and its expiry waits in a queue, where nothing takes it back.  The code that reads the Quiet element of a beacon is not here; all that is asked of it is that it enters `eLIM_QUIET_BEGIN` from `eLIM_QUIET_INIT` only.
-/

namespace Qcacld.Lim
open Qcacld.Support Nat

/-! ### The session -/

/-- `tLimQuietStates` -/
inductive QuietState where
  | quietInit | quietBegin | quietChanged | quietRunning | quietEnd
deriving DecidableEq

/-- `tLimDot11hChanSwStates` -/
inductive ChanSwState where
  | chanSwInit | chanSwRunning | chanSwEnd
deriving DecidableEq

inductive ChannelSwitchState where
  | idle | primaryOnly | secondaryOnly | primaryAndSecondary
deriving DecidableEq

/-- What the channel switch reads of a `tLimChannelSwitchInfo`. -/
structure ChannelSwitchInfo where
  state : ChannelSwitchState
  primaryChannel : UInt8
  switchCount : UInt8
  switchMode : UInt8

def chanswModeSilent : UInt8 := 1

def chanswTxStopMaxCount : UInt8 := 6

def ChannelSwitchInfo.Silent (i : ChannelSwitchInfo) : Prop := i.switchMode = chanswModeSilent
deriving Decidable

/-- The announcements that freeze the transmission. -/
def ChannelSwitchInfo.Freezes (i : ChannelSwitchInfo) : Prop :=
  i.Silent ∨ i.switchCount ≤ chanswTxStopMaxCount
deriving Decidable

inductive SpecTimer where
  | channelSwitch | quiet | quietBss
deriving DecidableEq

/-- A `TX_TIMER`: whether it runs, and how many of its expiries wait to be processed. -/
structure TxTimer where
  running : Bool
  posted : Nat

inductive LimControlTx where
  | stopTx | resumeTx
deriving DecidableEq

/-- The session's `gLimSpecMgmt` and `gLimChannelSwitch`, and what goes with them. -/
structure SpecMgmt where
  quietState : QuietState
  dot11hChanSwState : ChanSwState
  gLimChannelSwitch : ChannelSwitchInfo
  timers : SpecTimer → TxTimer
  /-- `glimTriggerBackgroundScanDuringQuietBss_Status` -/
  triggerStatus : Bool
  /-- the last `limFrameTransmissionControl` was `eLIM_STOP_TX` -/
  stopped : Bool
  /-- the channel changes asked for whose `limSwitchChannelCback` has not come -/
  changes : Nat
  /-- `limStopTxAndSwitchChannel` has acted on `gLimChannelSwitch` as it is -/
  acted : Bool

open SpecMgmt

/-- What stays as it is while the session lasts. -/
structure SpecConfig where
  /-- `gLimTriggerBackgroundScanDuringQuietBss` -/
  triggerBackgroundScan : Bool
  /-- `gLimSystemRole` is `eLIM_STA_ROLE` -/
  systemRoleSta : Bool
  csaOffloadEnable : Bool

/-- What the rest of the driver says while a message is processed. -/
structure Around where
  /-- a channel switch is running on another session -/
  switchElsewhere : Bool
  /-- `pFTPreAuthReq` -/
  preAuthReq : Bool
  sessionPowerActive : Bool
  /-- `limIsLinkSuspended` -/
  linkSuspended : Bool
  /-- `gLimSmeState` is one of the two scan states -/
  scanState : Bool
  /-- `GET_LIM_PROCESS_DEFD_MESGS` -/
  processDefdMsgs : Bool
  /-- `limIsChannelValidForChannelSwitch` -/
  channelValid : UInt8 → Bool
  /-- `tx_timer_deactivate`, `tx_timer_change` and `tx_timer_activate` return `TX_SUCCESS` -/
  deactivates : SpecTimer → Bool
  timerChanges : SpecTimer → Bool
  activates : SpecTimer → Bool
  /-- `limTriggerBackgroundScanDuringQuietBss` -/
  scanTriggered : Bool

/-- A channel switch announcement, in a beacon, a probe response or an action frame. -/
structure ChanSwitchAnn where
  newChannel : UInt8
  switchCount : UInt8
  switchMode : UInt8
  /-- the session bonds channels, and the frame has a secondary channel above or below -/
  secondary : Bool

variable (c : SpecConfig) (a : Around) (ie : ChanSwitchAnn)

namespace SpecMgmt

def setTimer (s : SpecMgmt) (t : SpecTimer) (v : TxTimer) : SpecMgmt :=
  { s with timers := fun u => if u = t then v else s.timers u }

/-- `tx_timer_deactivate`: an expiry that is posted stays so. -/
def deactivate (s : SpecMgmt) (t : SpecTimer) : SpecMgmt :=
  if a.deactivates t then s.setTimer t { s.timers t with running := false } else s

def activate (s : SpecMgmt) (t : SpecTimer) : SpecMgmt :=
  if a.activates t then s.setTimer t { s.timers t with running := true } else s

def SilentSwitch (s : SpecMgmt) : Prop :=
  s.dot11hChanSwState = .chanSwRunning ∧ s.gLimChannelSwitch.Silent
deriving Decidable

/-- A quiet period is running, without a background scan. -/
def Quiets (s : SpecMgmt) : Prop :=
  s.quietState = .quietRunning ∧ (c.triggerBackgroundScan = false ∨ s.triggerStatus = false)
deriving Decidable

end SpecMgmt

/-! ### The functions -/

def limFrameTransmissionControl (s : SpecMgmt) (mode : LimControlTx) : SpecMgmt :=
  { s with stopped := mode = .stopTx }

def limRestorePreChannelSwitchState (s : SpecMgmt) : SpecMgmt :=
  limFrameTransmissionControl { s with dot11hChanSwState := .chanSwInit } .resumeTx

def limRestorePreQuietState (s : SpecMgmt) : SpecMgmt :=
  if c.systemRoleSta then
    let s := { s with quietState := .quietInit }
    if s.quietState = .quietRunning then limFrameTransmissionControl s .resumeTx else s
  else s

/-- `limSwitchPrimaryChannel` and `limSwitchPrimarySecondaryChannel` -/
def limSwitchChannel (s : SpecMgmt) : SpecMgmt :=
  { s with
    changes := s.changes + 1
    gLimChannelSwitch := { s.gLimChannelSwitch with state := .idle } }

def limProcessChannelSwitchTimeout (s : SpecMgmt) : SpecMgmt :=
  if s.dot11hChanSwState ≠ .chanSwRunning then s
  else if !a.sessionPowerActive then s
  else
    let s := { s with dot11hChanSwState := .chanSwEnd }
    if a.preAuthReq then s
    else if a.linkSuspended then s
    else if !a.channelValid s.gLimChannelSwitch.primaryChannel then
      limRestorePreChannelSwitchState s
    else
      match s.gLimChannelSwitch.state with
      | .primaryOnly | .secondaryOnly | .primaryAndSecondary => limSwitchChannel s
      | .idle => limRestorePreChannelSwitchState s

/-- Stop the transmission, or resume it, as the announcement asks. -/
def limStopTx (s : SpecMgmt) : SpecMgmt :=
  let s := { s with acted := true }
  if s.gLimChannelSwitch.Freezes then limFrameTransmissionControl s .stopTx
  else limFrameTransmissionControl s .resumeTx

def limStopTxAndSwitchChannel (s : SpecMgmt) : SpecMgmt :=
  if a.preAuthReq then s
  else
    let s := limStopTx s
    if s.gLimChannelSwitch.switchCount = 0 then
      if a.sessionPowerActive then limProcessChannelSwitchTimeout a s else s
    else s.activate a .channelSwitch

def limPrepareFor11hChannelSwitch (s : SpecMgmt) : SpecMgmt :=
  let s := { s with dot11hChanSwState := .chanSwRunning, acted := false }
  if a.scanState then
    -- in the first case the finish of the scan is asked for, and its response goes on
    if a.processDefdMsgs then s else limRestorePreChannelSwitchState s
  else limStopTxAndSwitchChannel a s

/-- Stop the timer of the quiet period that a channel switch makes the session forget; `none` when it cannot be stopped. -/
def forgetQuiet (s : SpecMgmt) : Option SpecMgmt :=
  if s.quietState = .quietBegin then
    if a.deactivates .quiet then some (s.deactivate a .quiet) else none
  else if s.quietState = .quietRunning then
    if a.deactivates .quietBss then some (s.deactivate a .quietBss) else none
  else some s

def limStartChannelSwitch (s : SpecMgmt) : SpecMgmt :=
  if (a.switchElsewhere ∧ s.dot11hChanSwState ≠ .chanSwRunning) ∨ c.csaOffloadEnable then s
  else if !a.deactivates .channelSwitch then s
  else
    let s := s.deactivate a .channelSwitch
    if !a.timerChanges .channelSwitch then s
    else
      match forgetQuiet a s with
      | none => s
      | some s => limPrepareFor11hChannelSwitch a { s with quietState := .quietInit }

/-- The channel switch that an announcement asks for. -/
def ChanSwitchAnn.info : ChannelSwitchInfo where
  state := if ie.secondary then .primaryAndSecondary else .primaryOnly
  primaryChannel := ie.newChannel
  switchCount := ie.switchCount
  switchMode := ie.switchMode

def limUpdateChannelSwitch (s : SpecMgmt) : SpecMgmt :=
  limStartChannelSwitch c a { s with gLimChannelSwitch := ie.info, acted := false }

/-- `__limProcessChannelSwitchActionFrame`: a frame that is not from the session's BSS is not read, but it starts the switch all the same. -/
def limProcessChannelSwitchActionFrame (ours : Bool) (s : SpecMgmt) : SpecMgmt :=
  if ours then limUpdateChannelSwitch c a ie s else limStartChannelSwitch c a s

/-- `limHandleCSAoffloadMsg`: the firmware has waited already. -/
def limHandleCSAoffloadMsg (s : SpecMgmt) : SpecMgmt :=
  limPrepareFor11hChannelSwitch a
    { s with gLimChannelSwitch := { ie.info with switchCount := 0 }, acted := false }

def limCancelDot11hChannelSwitch (s : SpecMgmt) : SpecMgmt :=
  limRestorePreChannelSwitchState (s.deactivate a .channelSwitch)

def limCancelDot11hQuiet (s : SpecMgmt) : SpecMgmt :=
  let s :=
    if s.quietState = .quietBegin then s.deactivate a .quiet
    else if s.quietState = .quietRunning then
      let s := s.deactivate a .quietBss
      if s.SilentSwitch then s
      else limRestorePreQuietState c (limFrameTransmissionControl s .resumeTx)
    else s
  { s with quietState := .quietInit }

def limProcessQuietTimeout (s : SpecMgmt) : SpecMgmt :=
  match s.quietState with
  | .quietBegin =>
    let s := s.deactivate a .quietBss
    if !a.activates .quietBss then s
    else
      let s := { s.activate a .quietBss with quietState := .quietRunning }
      if c.triggerBackgroundScan then
        let s := { s with triggerStatus := a.scanTriggered }
        if a.scanTriggered then s else limFrameTransmissionControl s .stopTx
      else limFrameTransmissionControl s .stopTx
  | _ => s

def limProcessQuietBssTimeout (s : SpecMgmt) : SpecMgmt :=
  match s.quietState with
  | .quietRunning =>
    let s := { s with quietState := .quietInit }
    if c.triggerBackgroundScan = false ∨ s.triggerStatus = false then
      let s :=
        if s.SilentSwitch then s
        else limRestorePreQuietState c (limFrameTransmissionControl s .resumeTx)
      { s with triggerStatus := true }
    else s
  | .quietInit | .quietBegin | .quietEnd =>
    let s := limRestorePreQuietState c (limFrameTransmissionControl s .resumeTx)
    { s with quietState := .quietInit }
  | .quietChanged => s

def limStartQuietTimer (s : SpecMgmt) : SpecMgmt :=
  let s := limCancelDot11hQuiet c a s
  let s := s.deactivate a .quiet
  if a.activates .quiet then s.activate a .quiet
  else { limRestorePreQuietState c s with quietState := .quietInit }

/-- `limProcessFinishScanRsp`, when the finish of a scan was waited for. -/
def limProcessFinishScanRsp (s : SpecMgmt) : SpecMgmt :=
  if s.dot11hChanSwState = .chanSwRunning then limStopTxAndSwitchChannel a s
  else if a.switchElsewhere then s
  else if s.quietState = .quietBegin then limStartQuietTimer c a s
  else s

def limSwitchChannelCback (s : SpecMgmt) : SpecMgmt := limRestorePreChannelSwitchState s

/-! ### The session's runs -/

inductive SpecEvent where
  /-- a beacon or probe response with a channel switch announcement, or without -/
  | announced (ie : ChanSwitchAnn) (a : Around)
  | notAnnounced (a : Around)
  | actionFrame (ours : Bool) (ie : ChanSwitchAnn) (a : Around)
  | csaOffload (ie : ChanSwitchAnn) (a : Around)
  /-- a beacon's Quiet element begins a quiet period, starts its timer, or is no longer there -/
  | quietBegins
  | quietStarts (a : Around)
  | quietCancelled (a : Around)
  | expires (t : SpecTimer)
  /-- the message of a timer that has expired -/
  | timeout (t : SpecTimer) (a : Around)
  /-- `eWNI_SME_PRE_CHANNEL_SWITCH_FULL_POWER` -/
  | fullPower (a : Around)
  | finishScanRsp (a : Around)
  /-- the response to a channel change -/
  | channelChanged

def limProcessTimeout : SpecTimer → SpecMgmt → SpecMgmt
  | .channelSwitch => limProcessChannelSwitchTimeout a
  | .quiet => limProcessQuietTimeout c a
  | .quietBss => limProcessQuietBssTimeout c

/-- One event; `none` when the state does not enable it. -/
def specStep (s : SpecMgmt) : SpecEvent → Option SpecMgmt
  | .announced ie a => some (limUpdateChannelSwitch c a ie s)
  | .notAnnounced a =>
    some (if s.dot11hChanSwState = .chanSwRunning then limCancelDot11hChannelSwitch a s else s)
  | .actionFrame ours ie a => some (limProcessChannelSwitchActionFrame c a ie ours s)
  | .csaOffload ie a => some (limHandleCSAoffloadMsg a ie s)
  | .quietBegins => do
    guard (s.quietState = .quietInit)
    return { s with quietState := .quietBegin }
  | .quietStarts a => some (limStartQuietTimer c a s)
  | .quietCancelled a => some (limCancelDot11hQuiet c a s)
  | .expires t => do
    guard ((s.timers t).running = true)
    return s.setTimer t { running := false, posted := (s.timers t).posted + 1 }
  | .timeout t a => do
    guard (0 < (s.timers t).posted)
    return limProcessTimeout c a t
      (s.setTimer t { s.timers t with posted := (s.timers t).posted - 1 })
  | .fullPower a =>
    some (if (s.timers .channelSwitch).running then s else limProcessChannelSwitchTimeout a s)
  | .finishScanRsp a => some (limProcessFinishScanRsp c a s)
  | .channelChanged => do
    guard (0 < s.changes)
    return limSwitchChannelCback { s with changes := s.changes - 1 }

structure SpecInit (s : SpecMgmt) : Prop where
  quiet : s.quietState = .quietInit
  chanSw : s.dot11hChanSwState = .chanSwInit
  timers : ∀ t, s.timers t = { running := false, posted := 0 }
  trigger : s.triggerStatus = true
  resumed : s.stopped = false
  changes : s.changes = 0
  acted : s.acted = false

def specMachine : Machine SpecMgmt SpecEvent where
  init := SpecInit
  step := specStep c

/-! ### What stops the transmission -/

/-- A channel switch is in force: it is running, or the channel change it ended in is not done. -/
def SpecMgmt.SwitchInForce (s : SpecMgmt) : Prop :=
  s.dot11hChanSwState = .chanSwRunning ∧ (s.acted = true → s.gLimChannelSwitch.Freezes) ∨
    s.dot11hChanSwState = .chanSwEnd ∧ 0 < s.changes

def SpecMgmt.StopsFor (s : SpecMgmt) : Prop :=
  s.stopped = true → s.Quiets c ∨ s.SwitchInForce

/-- A quiet period keeps the transmission stopped, and so does a silent switch that has acted. -/
structure SpecMgmt.Silences (s : SpecMgmt) : Prop where
  quiets : s.Quiets c → s.stopped = true
  switch : s.SilentSwitch → s.acted = true → s.stopped = true

/-- `limProcessChannelSwitchTimeout` ends the switch and returns without a channel change. -/
def Abandons (s : SpecMgmt) : Prop :=
  s.dot11hChanSwState = .chanSwRunning ∧ a.sessionPowerActive = true ∧
    (a.preAuthReq = true ∨ a.linkSuspended = true)
deriving Decidable

/-- `limStopTxAndSwitchChannel` has the switch of an announcement abandoned at once. -/
def AbandonsAtOnce (i : ChannelSwitchInfo) : Prop :=
  i.switchCount = 0 ∧ a.sessionPowerActive = true ∧ a.linkSuspended = true
deriving Decidable

def NotAbandoned (s : SpecMgmt) : SpecEvent → Prop
  | .announced ie a => ¬ AbandonsAtOnce a ie.info
  | .actionFrame ours ie a => ¬ AbandonsAtOnce a (if ours then ie.info else s.gLimChannelSwitch)
  | .csaOffload _ a => ¬ (a.sessionPowerActive = true ∧ a.linkSuspended = true)
  | .timeout .channelSwitch a | .fullPower a => ¬ Abandons a s
  | .finishScanRsp a => ¬ AbandonsAtOnce a s.gLimChannelSwitch
  | _ => True

/-- `limProcessChannelSwitchTimeout` cannot change the channel, and restores the state before the switch. -/
def GivesUp (i : ChannelSwitchInfo) : Prop :=
  a.sessionPowerActive = true ∧ a.preAuthReq = false ∧ a.linkSuspended = false ∧
    (a.channelValid i.primaryChannel = false ∨ i.state = .idle)
deriving Decidable

/-- A channel switch does not resume the transmission in a quiet period, and an expiry of a quiet period that is over does not in a silent switch. -/
def NotResumed (s : SpecMgmt) : SpecEvent → Prop
  | .notAnnounced _ => s.Quiets c → s.dot11hChanSwState ≠ .chanSwRunning
  | .csaOffload ie a => s.Quiets c →
      (a.scanState = true → a.processDefdMsgs = true) ∧ ¬ GivesUp a ie.info
  | .timeout .channelSwitch a | .fullPower a => s.Quiets c →
      s.dot11hChanSwState = .chanSwRunning → ¬ GivesUp a s.gLimChannelSwitch
  | .finishScanRsp a => s.Quiets c → s.dot11hChanSwState = .chanSwRunning →
      a.preAuthReq = true ∨ s.gLimChannelSwitch.Freezes ∧ ¬ GivesUp a s.gLimChannelSwitch
  | .timeout .quietBss _ => s.SilentSwitch → s.acted = true → s.quietState = .quietRunning
  | .channelChanged => ¬ s.Quiets c
  | _ => True

instance (s : SpecMgmt) (e : SpecEvent) : Decidable (NotAbandoned s e) := by
  unfold NotAbandoned
  split <;> infer_instance

instance (s : SpecMgmt) (e : SpecEvent) : Decidable (NotResumed c s e) := by
  unfold NotResumed
  split <;> infer_instance

variable {c a ie} {s s' : SpecMgmt}

/-! ### What the functions leave as it was -/

theorem SpecMgmt.deactivate_eq (s : SpecMgmt) (t : SpecTimer) :
    ∃ v, s.deactivate a t = { s with timers := v } := by
  unfold deactivate
  split
  · exact ⟨_, rfl⟩
  · exact ⟨s.timers, rfl⟩

theorem SpecMgmt.activate_eq (s : SpecMgmt) (t : SpecTimer) :
    ∃ v, s.activate a t = { s with timers := v } := by
  unfold activate
  split
  · exact ⟨_, rfl⟩
  · exact ⟨s.timers, rfl⟩

theorem limRestorePreQuietState_eq (s : SpecMgmt) : limRestorePreQuietState c s =
      if c.systemRoleSta then { s with quietState := .quietInit } else s := rfl

theorem resumeQuiet_eq (s : SpecMgmt) :
    { limRestorePreQuietState c (limFrameTransmissionControl s .resumeTx) with
        quietState := .quietInit } = { s with quietState := .quietInit, stopped := false } := by
  rw [limRestorePreQuietState_eq]
  split <;> rfl

theorem forgetQuiet_eq (h : forgetQuiet a s = some s') : ∃ v, s' = { s with timers := v } := by
  unfold forgetQuiet at h
  split at h
  · split at h
    · cases h; exact s.deactivate_eq _
    · cases h
  · split at h
    · split at h
      · cases h; exact s.deactivate_eq _
      · cases h
    · cases h; exact ⟨s.timers, rfl⟩

/-- An announcement is ignored, or it is followed from a state without a quiet period. -/
theorem limStartChannelSwitch_cases (c : SpecConfig) (a : Around) (s : SpecMgmt) :
    (∃ v, limStartChannelSwitch c a s = { s with timers := v }) ∨ ∃ v, limStartChannelSwitch c a s =
        limPrepareFor11hChannelSwitch a { s with timers := v, quietState := .quietInit } := by
  obtain ⟨v, hv⟩ := s.deactivate_eq (a := a) .channelSwitch
  unfold limStartChannelSwitch
  split
  · exact .inl ⟨s.timers, rfl⟩
  · split
    · exact .inl ⟨s.timers, rfl⟩
    · simp only [hv]
      split
      · exact .inl ⟨v, rfl⟩
      · split
        · exact .inl ⟨v, rfl⟩
        · next s₁ h =>
          obtain ⟨w, rfl⟩ := forgetQuiet_eq h
          exact .inr ⟨w, rfl⟩

/-- A quiet period is cancelled: it is over, and the transmission goes on unless a silent switch is running. -/
theorem limCancelDot11hQuiet_cases (c : SpecConfig) (a : Around) (s : SpecMgmt) :
    (∃ v, limCancelDot11hQuiet c a s = { s with timers := v, quietState := .quietInit } ∧
        (s.quietState = .quietRunning → s.SilentSwitch)) ∨
      ¬ s.SilentSwitch ∧ ∃ v, limCancelDot11hQuiet c a s =
        { s with timers := v, quietState := .quietInit, stopped := false } := by
  obtain ⟨v, hv⟩ := s.deactivate_eq (a := a) .quiet
  obtain ⟨w, hw⟩ := s.deactivate_eq (a := a) .quietBss
  unfold limCancelDot11hQuiet
  by_cases hb : s.quietState = .quietBegin
  · exact .inl ⟨v, by simp [hb, hv], by simp [hb]⟩
  · by_cases hr : s.quietState = .quietRunning
    · by_cases hs : s.SilentSwitch
      · refine .inl ⟨w, ?_, fun _ => hs⟩
        have : ({ s with timers := w } : SpecMgmt).SilentSwitch := hs
        simp [if_neg hb, if_pos hr, hw, if_pos this]
      · refine .inr ⟨hs, w, ?_⟩
        have : ¬ ({ s with timers := w } : SpecMgmt).SilentSwitch := hs
        simp only [if_neg hb, if_pos hr, hw, if_neg this]
        exact resumeQuiet_eq { s with timers := w }
    · exact .inl ⟨s.timers, by simp [hb, hr], by simp [hr]⟩

theorem limStartQuietTimer_eq (c : SpecConfig) (a : Around) (s : SpecMgmt) :
    ∃ v, limStartQuietTimer c a s = { limCancelDot11hQuiet c a s with timers := v } := by
  obtain ⟨v, hv⟩ := (limCancelDot11hQuiet c a s).deactivate_eq (a := a) .quiet
  unfold limStartQuietTimer
  simp only [hv]
  split
  · exact activate_eq _ _
  · refine ⟨v, ?_⟩
    rw [limRestorePreQuietState_eq]
    split <;> rfl

/-- A quiet period that has begun runs, and stops the transmission unless a background scan was started. -/
theorem limProcessQuietTimeout_cases (c : SpecConfig) (a : Around) (s : SpecMgmt) :
    (∃ v, limProcessQuietTimeout c a s = { s with timers := v }) ∨
      s.quietState = .quietBegin ∧ ∃ v b p, limProcessQuietTimeout c a s =
          { s with timers := v, quietState := .quietRunning, triggerStatus := b, stopped := p } ∧
        (p = s.stopped ∧ c.triggerBackgroundScan = true ∧ b = true ∨
          p = true ∧ (c.triggerBackgroundScan = false ∨ b = false)) := by
  obtain ⟨v, hv⟩ := s.deactivate_eq (a := a) .quietBss
  obtain ⟨w, hw⟩ := activate_eq (a := a) { s with timers := v } .quietBss
  unfold limProcessQuietTimeout
  split
  · next hb =>
    simp only [hv, hw, limFrameTransmissionControl]
    split
    · exact .inl ⟨v, rfl⟩
    · refine .inr ⟨hb, w, ?_⟩
      split
      · next ht =>
        split
        · next hs => exact ⟨_, _, rfl, .inl ⟨rfl, ht, hs⟩⟩
        · next hs => exact ⟨_, _, rfl, .inr ⟨rfl, .inr (by simpa using hs)⟩⟩
      · next ht => exact ⟨_, _, rfl, .inr ⟨rfl, .inl (by simpa using ht)⟩⟩
  · exact .inl ⟨s.timers, rfl⟩

/-- A quiet period is over.  The transmission goes on unless the quiet period did not stop it or a silent switch is running; an expiry that comes when no quiet period is running does not look at the switch. -/
theorem limProcessQuietBssTimeout_cases (c : SpecConfig) (s : SpecMgmt) :
    limProcessQuietBssTimeout c s = s ∨
      (s.quietState = .quietRunning ∧ ∃ b, limProcessQuietBssTimeout c s =
        { s with quietState := .quietInit, triggerStatus := b } ∧ (s.Quiets c → s.SilentSwitch)) ∨
      (s.quietState = .quietRunning → ¬ s.SilentSwitch) ∧ ∃ b, limProcessQuietBssTimeout c s =
        { s with quietState := .quietInit, triggerStatus := b, stopped := false } := by
  unfold limProcessQuietBssTimeout
  split
  · next hr =>
    by_cases ht : c.triggerBackgroundScan = false ∨ s.triggerStatus = false
    · have hi : ({ s with quietState := .quietInit } : SpecMgmt).SilentSwitch ↔ s.SilentSwitch :=
        Iff.rfl
      by_cases hs : s.SilentSwitch
      · refine .inr (.inl ⟨hr, true, ?_, fun _ => hs⟩)
        simp [if_pos ht, if_pos (hi.2 hs)]
      · refine .inr (.inr ⟨fun _ => hs, true, ?_⟩)
        simp only [if_pos ht, if_neg (mt hi.1 hs), limRestorePreQuietState_eq,
          limFrameTransmissionControl]
        split <;> rfl
    · refine .inr (.inl ⟨hr, s.triggerStatus, ?_, fun hq => absurd hq.2 ht⟩)
      simp [if_neg ht]
  · next hr => exact .inr (.inr ⟨by simp [hr], s.triggerStatus, resumeQuiet_eq s⟩)
  · next hr => exact .inr (.inr ⟨by simp [hr], s.triggerStatus, resumeQuiet_eq s⟩)
  · next hr => exact .inr (.inr ⟨by simp [hr], s.triggerStatus, resumeQuiet_eq s⟩)
  · exact .inl rfl

/-! ### The transmission is stopped for a reason -/

theorem stopsFor_of_resumed (h : s.stopped = false) : s.StopsFor c :=
  fun hs => absurd hs (by simp [h])

theorem stopsFor_of_running (h : s.dot11hChanSwState = .chanSwRunning) (ha : s.acted = false) :
    s.StopsFor c :=
  fun _ => .inr (.inl ⟨h, by simp [ha]⟩)

theorem limProcessChannelSwitchTimeout_stopsFor (h : s.StopsFor c) (hok : ¬ Abandons a s) :
    (limProcessChannelSwitchTimeout a s).StopsFor c := by
  unfold limProcessChannelSwitchTimeout
  split
  · exact h
  · next hr =>
    rw [not_not] at hr
    split
    · exact h
    · next hp =>
      simp only [Bool.not_eq_true', Bool.not_eq_false] at hp
      obtain ⟨hpre, hlink⟩ : a.preAuthReq = false ∧ a.linkSuspended = false := by
        simpa [Abandons, hr, hp] using hok
      simp only [hpre, hlink, Bool.false_eq_true, if_false]
      split
      · exact stopsFor_of_resumed rfl
      · split
        · exact fun _ => .inr (.inr ⟨rfl, succ_pos _⟩)
        · exact fun _ => .inr (.inr ⟨rfl, succ_pos _⟩)
        · exact fun _ => .inr (.inr ⟨rfl, succ_pos _⟩)
        · exact stopsFor_of_resumed rfl

theorem limStopTx_eq (s : SpecMgmt) :
    limStopTx s = { s with acted := true, stopped := s.gLimChannelSwitch.Freezes } := by
  unfold limStopTx limFrameTransmissionControl
  by_cases h : s.gLimChannelSwitch.Freezes
  · simp [h]
  · simp [h]

theorem limStopTxAndSwitchChannel_stopsFor (h : s.StopsFor c)
    (hr : s.dot11hChanSwState = .chanSwRunning)
    (hok : ¬ AbandonsAtOnce a s.gLimChannelSwitch) :
    (limStopTxAndSwitchChannel a s).StopsFor c := by
  unfold limStopTxAndSwitchChannel
  split
  · exact h
  · next hpre =>
    rw [limStopTx_eq]
    have hstop : ({ s with acted := true, stopped := s.gLimChannelSwitch.Freezes } :
        SpecMgmt).StopsFor c :=
      fun hf => .inr (.inl ⟨hr, fun _ => of_decide_eq_true hf⟩)
    dsimp only
    split
    · next hz =>
      split
      · next hp =>
        refine limProcessChannelSwitchTimeout_stopsFor hstop ?_
        rintro ⟨-, -, hp' | hl⟩
        · exact hpre hp'
        · exact hok ⟨hz, hp, hl⟩
      · exact hstop
    · obtain ⟨v, hv⟩ := activate_eq (a := a)
        { s with acted := true, stopped := s.gLimChannelSwitch.Freezes } .channelSwitch
      rw [hv]
      exact hstop

theorem limPrepareFor11hChannelSwitch_stopsFor (hok : ¬ AbandonsAtOnce a s.gLimChannelSwitch) :
    (limPrepareFor11hChannelSwitch a s).StopsFor c := by
  have hrun : ({ s with dot11hChanSwState := .chanSwRunning, acted := false } :
      SpecMgmt).StopsFor c := stopsFor_of_running rfl rfl
  unfold limPrepareFor11hChannelSwitch
  split
  · split
    · exact hrun
    · exact stopsFor_of_resumed rfl
  · exact limStopTxAndSwitchChannel_stopsFor hrun rfl hok

theorem limStartChannelSwitch_stopsFor (h : s.StopsFor c)
    (hok : ¬ AbandonsAtOnce a s.gLimChannelSwitch) :
    (limStartChannelSwitch c a s).StopsFor c := by
  obtain ⟨v, hv⟩ | ⟨v, hv⟩ := limStartChannelSwitch_cases c a s
  · rw [hv]; exact h
  · rw [hv]; exact limPrepareFor11hChannelSwitch_stopsFor hok

theorem limUpdateChannelSwitch_stopsFor (h : s.StopsFor c) (hok : ¬ AbandonsAtOnce a ie.info) :
    (limUpdateChannelSwitch c a ie s).StopsFor c := by
  refine limStartChannelSwitch_stopsFor (fun hs => ?_) hok
  obtain hq | ⟨hr, -⟩ | he := h hs
  · exact .inl hq
  · exact .inr (.inl ⟨hr, fun h => nomatch h⟩)
  · exact .inr (.inr he)

theorem limCancelDot11hQuiet_stopsFor (h : s.StopsFor c) :
    (limCancelDot11hQuiet c a s).StopsFor c := by
  obtain ⟨v, hv, hs⟩ | ⟨-, v, hv⟩ := limCancelDot11hQuiet_cases c a s
  · rw [hv]
    intro hstop
    obtain hq | hf := h hstop
    · exact .inr (.inl ⟨(hs hq.1).1, fun _ => .inl (hs hq.1).2⟩)
    · exact .inr hf
  · rw [hv]
    exact stopsFor_of_resumed rfl

theorem limProcessQuietTimeout_stopsFor (h : s.StopsFor c) :
    (limProcessQuietTimeout c a s).StopsFor c := by
  obtain ⟨v, hv⟩ | ⟨hb, v, b, p, hv, hp⟩ := limProcessQuietTimeout_cases c a s
  · rw [hv]; exact h
  · rw [hv]
    intro hstop
    obtain ⟨hp, ht, hs⟩ | ⟨hp, ht⟩ := hp
    · obtain ⟨hq, -⟩ | hf := h (hp ▸ hstop)
      · exact nomatch hb.symm.trans hq
      · exact .inr hf
    · exact .inl ⟨rfl, ht⟩

theorem limProcessQuietBssTimeout_stopsFor (h : s.StopsFor c) :
    (limProcessQuietBssTimeout c s).StopsFor c := by
  obtain hv | ⟨-, b, hv, hs⟩ | ⟨-, b, hv⟩ := limProcessQuietBssTimeout_cases c s
  · rw [hv]; exact h
  · rw [hv]
    intro hstop
    obtain hq | hf := h hstop
    · exact .inr (.inl ⟨(hs hq).1, fun _ => .inl (hs hq).2⟩)
    · exact .inr hf
  · rw [hv]
    exact stopsFor_of_resumed rfl

theorem limStartQuietTimer_stopsFor (h : s.StopsFor c) : (limStartQuietTimer c a s).StopsFor c := by
  obtain ⟨v, hv⟩ := limStartQuietTimer_eq c a s
  rw [hv]
  exact limCancelDot11hQuiet_stopsFor h

theorem limProcessFinishScanRsp_stopsFor (h : s.StopsFor c)
    (hok : ¬ AbandonsAtOnce a s.gLimChannelSwitch) :
    (limProcessFinishScanRsp c a s).StopsFor c := by
  unfold limProcessFinishScanRsp
  split
  · next hr => exact limStopTxAndSwitchChannel_stopsFor h hr hok
  · split
    · exact h
    · split
      · exact limStartQuietTimer_stopsFor h
      · exact h

theorem specStep_stopsFor {e : SpecEvent} (h : s.StopsFor c) (hok : NotAbandoned s e)
    (hs : specStep c s e = some s') : s'.StopsFor c := by
  cases e with
  | announced ie a => cases hs; exact limUpdateChannelSwitch_stopsFor h hok
  | notAnnounced a =>
    cases hs
    split
    · exact stopsFor_of_resumed rfl
    · exact h
  | actionFrame ours ie a =>
    cases hs
    unfold limProcessChannelSwitchActionFrame
    cases ours with
    | true => exact limUpdateChannelSwitch_stopsFor h hok
    | false => exact limStartChannelSwitch_stopsFor h hok
  | csaOffload ie a =>
    cases hs
    exact limPrepareFor11hChannelSwitch_stopsFor fun ha => hok ha.2
  | quietBegins =>
    obtain ⟨hi, rfl⟩ := guarded_eq_some.1 hs
    intro hstop
    obtain ⟨hq, -⟩ | hf := h hstop
    · exact nomatch hi.symm.trans hq
    · exact .inr hf
  | quietStarts a => cases hs; exact limStartQuietTimer_stopsFor h
  | quietCancelled a => cases hs; exact limCancelDot11hQuiet_stopsFor h
  | expires t =>
    obtain ⟨-, rfl⟩ := guarded_eq_some.1 hs
    exact h
  | timeout t a =>
    obtain ⟨-, rfl⟩ := guarded_eq_some.1 hs
    cases t with
    | channelSwitch => exact limProcessChannelSwitchTimeout_stopsFor h hok
    | quiet => exact limProcessQuietTimeout_stopsFor h
    | quietBss => exact limProcessQuietBssTimeout_stopsFor h
  | fullPower a =>
    cases hs
    split
    · exact h
    · exact limProcessChannelSwitchTimeout_stopsFor h hok
  | finishScanRsp a => cases hs; exact limProcessFinishScanRsp_stopsFor h hok
  | channelChanged =>
    obtain ⟨-, rfl⟩ := guarded_eq_some.1 hs
    exact stopsFor_of_resumed rfl

/-! ### What keeps the transmission stopped -/

theorem limRestorePreChannelSwitchState_silences (h : ¬ s.Quiets c) :
    (limRestorePreChannelSwitchState s).Silences c where
  quiets hq := absurd hq h
  switch hs := nomatch hs.1

theorem limProcessChannelSwitchTimeout_silences (h : s.Silences c)
    (hok : s.Quiets c → s.dot11hChanSwState = .chanSwRunning → ¬ GivesUp a s.gLimChannelSwitch) :
    (limProcessChannelSwitchTimeout a s).Silences c := by
  unfold limProcessChannelSwitchTimeout
  split
  · exact h
  · next hr =>
    rw [not_not] at hr
    split
    · exact h
    · next hp =>
      have hend : ∀ n i, ({ s with dot11hChanSwState := .chanSwEnd, changes := n, gLimChannelSwitch := i } :
          SpecMgmt).Silences c := fun _ _ => ⟨h.quiets, fun hs => nomatch hs.1⟩
      simp only [Bool.not_eq_true', Bool.not_eq_false] at hp
      dsimp only
      split
      · exact hend _ _
      · next hpre =>
        split
        · exact hend _ _
        · next hlink =>
          rw [Bool.not_eq_true] at hpre hlink
          split
          · next hv =>
            rw [Bool.not_eq_true'] at hv
            exact limRestorePreChannelSwitchState_silences
              fun hq => hok hq hr ⟨hp, hpre, hlink, .inl hv⟩
          · split
            · exact hend _ _
            · exact hend _ _
            · exact hend _ _
            · next hi =>
              exact limRestorePreChannelSwitchState_silences
                fun hq => hok hq hr ⟨hp, hpre, hlink, .inr hi⟩

theorem limStopTxAndSwitchChannel_silences (h : s.Silences c)
    (hok : s.Quiets c → a.preAuthReq = true ∨
      s.gLimChannelSwitch.Freezes ∧ ¬ GivesUp a s.gLimChannelSwitch) :
    (limStopTxAndSwitchChannel a s).Silences c := by
  unfold limStopTxAndSwitchChannel
  split
  · exact h
  · next hpre =>
    have hstop : ({ s with acted := true, stopped := s.gLimChannelSwitch.Freezes } :
        SpecMgmt).Silences c := by
      refine ⟨fun hq => ?_, fun hs _ => decide_eq_true (.inl hs.2)⟩
      exact decide_eq_true ((hok hq).resolve_left hpre).1
    rw [limStopTx_eq]
    dsimp only
    split
    · split
      · exact limProcessChannelSwitchTimeout_silences hstop
          fun hq _ => ((hok hq).resolve_left hpre).2
      · exact hstop
    · obtain ⟨v, hv⟩ := activate_eq (a := a)
        { s with acted := true, stopped := s.gLimChannelSwitch.Freezes } .channelSwitch
      rw [hv]
      exact ⟨hstop.quiets, hstop.switch⟩

theorem limPrepareFor11hChannelSwitch_silences (h : s.Quiets c → s.stopped = true)
    (hscan : s.Quiets c → a.scanState = true → a.processDefdMsgs = true)
    (hok : s.Quiets c → a.preAuthReq = true ∨
      s.gLimChannelSwitch.Freezes ∧ ¬ GivesUp a s.gLimChannelSwitch) :
    (limPrepareFor11hChannelSwitch a s).Silences c := by
  have hrun : ({ s with dot11hChanSwState := .chanSwRunning, acted := false } :
      SpecMgmt).Silences c := ⟨h, fun _ ha => nomatch ha⟩
  unfold limPrepareFor11hChannelSwitch
  split
  · next hs =>
    split
    · exact hrun
    · next hd => exact limRestorePreChannelSwitchState_silences fun hq => hd (hscan hq hs)
  · exact limStopTxAndSwitchChannel_silences hrun hok

theorem limStartChannelSwitch_silences (h : s.Silences c) :
    (limStartChannelSwitch c a s).Silences c := by
  obtain ⟨v, hv⟩ | ⟨v, hv⟩ := limStartChannelSwitch_cases c a s
  · rw [hv]
    exact ⟨h.quiets, h.switch⟩
  · have hq : ¬ ({ s with timers := v, quietState := .quietInit } : SpecMgmt).Quiets c :=
      fun hq => nomatch hq.1
    rw [hv]
    exact limPrepareFor11hChannelSwitch_silences (fun h => absurd h hq) (fun h => absurd h hq)
      fun h => absurd h hq

theorem limUpdateChannelSwitch_silences (h : s.Silences c) :
    (limUpdateChannelSwitch c a ie s).Silences c :=
  limStartChannelSwitch_silences ⟨h.quiets, fun _ ha => nomatch ha⟩

theorem limCancelDot11hQuiet_silences (h : s.Silences c) :
    (limCancelDot11hQuiet c a s).Silences c := by
  obtain ⟨v, hv, -⟩ | ⟨hs, v, hv⟩ := limCancelDot11hQuiet_cases c a s
  · rw [hv]
    exact ⟨fun hq => (nomatch hq.1), h.switch⟩
  · rw [hv]
    exact ⟨fun hq => (nomatch hq.1), fun hs' => absurd hs' hs⟩

theorem limProcessQuietTimeout_silences (h : s.Silences c) :
    (limProcessQuietTimeout c a s).Silences c := by
  obtain ⟨v, hv⟩ | ⟨hb, v, b, p, hv, hp⟩ := limProcessQuietTimeout_cases c a s
  · rw [hv]
    exact ⟨h.quiets, h.switch⟩
  · rw [hv]
    obtain ⟨rfl, ht, rfl⟩ | ⟨rfl, -⟩ := hp
    · refine ⟨fun hq => ?_, h.switch⟩
      obtain ⟨-, hq | hq⟩ := hq
      · exact nomatch ht.symm.trans hq
      · exact nomatch hq
    · exact ⟨fun _ => rfl, fun _ _ => rfl⟩

theorem limProcessQuietBssTimeout_silences (h : s.Silences c)
    (hok : s.SilentSwitch → s.acted = true → s.quietState = .quietRunning) :
    (limProcessQuietBssTimeout c s).Silences c := by
  obtain hv | ⟨-, b, hv, -⟩ | ⟨hr, b, hv⟩ := limProcessQuietBssTimeout_cases c s
  · rw [hv]; exact h
  · rw [hv]
    exact ⟨fun hq => (nomatch hq.1), h.switch⟩
  · rw [hv]
    exact ⟨fun hq => (nomatch hq.1), fun hs ha => absurd hs (hr (hok hs ha))⟩

theorem limStartQuietTimer_silences (h : s.Silences c) : (limStartQuietTimer c a s).Silences c := by
  obtain ⟨v, hv⟩ := limStartQuietTimer_eq c a s
  rw [hv]
  exact ⟨(limCancelDot11hQuiet_silences h).quiets, (limCancelDot11hQuiet_silences h).switch⟩

theorem limProcessFinishScanRsp_silences (h : s.Silences c)
    (hok : s.Quiets c → s.dot11hChanSwState = .chanSwRunning → a.preAuthReq = true ∨
      s.gLimChannelSwitch.Freezes ∧ ¬ GivesUp a s.gLimChannelSwitch) :
    (limProcessFinishScanRsp c a s).Silences c := by
  unfold limProcessFinishScanRsp
  split
  · next hr => exact limStopTxAndSwitchChannel_silences h fun hq => hok hq hr
  · split
    · exact h
    · split
      · exact limStartQuietTimer_silences h
      · exact h

theorem csaOffload_freezes (ie : ChanSwitchAnn) :
    { ie.info with switchCount := 0 : ChannelSwitchInfo }.Freezes :=
  .inr (by decide : (0 : UInt8) ≤ chanswTxStopMaxCount)

theorem specStep_silences {e : SpecEvent} (h : s.Silences c) (hok : NotResumed c s e)
    (hs : specStep c s e = some s') : s'.Silences c := by
  cases e with
  | announced ie a => cases hs; exact limUpdateChannelSwitch_silences h
  | notAnnounced a =>
    cases hs
    split
    · next hr =>
      obtain ⟨v, hv⟩ := s.deactivate_eq (a := a) .channelSwitch
      unfold limCancelDot11hChannelSwitch
      rw [hv]
      exact limRestorePreChannelSwitchState_silences fun hq => hok hq hr
    · exact h
  | actionFrame ours ie a =>
    cases hs
    unfold limProcessChannelSwitchActionFrame
    cases ours with
    | true => exact limUpdateChannelSwitch_silences h
    | false => exact limStartChannelSwitch_silences h
  | csaOffload ie a =>
    cases hs
    exact limPrepareFor11hChannelSwitch_silences h.quiets (fun hq => (hok hq).1)
      fun hq => .inr ⟨csaOffload_freezes ie, (hok hq).2⟩
  | quietBegins =>
    obtain ⟨-, rfl⟩ := guarded_eq_some.1 hs
    exact ⟨fun hq => (nomatch hq.1), h.switch⟩
  | quietStarts a => cases hs; exact limStartQuietTimer_silences h
  | quietCancelled a => cases hs; exact limCancelDot11hQuiet_silences h
  | expires t =>
    obtain ⟨-, rfl⟩ := guarded_eq_some.1 hs
    exact ⟨h.quiets, h.switch⟩
  | timeout t a =>
    obtain ⟨-, rfl⟩ := guarded_eq_some.1 hs
    have hm : ∀ v, (s.setTimer t v).Silences c := fun _ => ⟨h.quiets, h.switch⟩
    cases t with
    | channelSwitch => exact limProcessChannelSwitchTimeout_silences (hm _) hok
    | quiet => exact limProcessQuietTimeout_silences (hm _)
    | quietBss => exact limProcessQuietBssTimeout_silences (hm _) hok
  | fullPower a =>
    cases hs
    split
    · exact h
    · exact limProcessChannelSwitchTimeout_silences h hok
  | finishScanRsp a => cases hs; exact limProcessFinishScanRsp_silences h hok
  | channelChanged =>
    obtain ⟨-, rfl⟩ := guarded_eq_some.1 hs
    exact limRestorePreChannelSwitchState_silences hok

theorem SpecInit.stopsFor (h : SpecInit s) : s.StopsFor c := stopsFor_of_resumed h.resumed

theorem SpecInit.silences (h : SpecInit s) : s.Silences c where
  quiets hq := nomatch h.quiet.symm.trans hq.1
  switch hs := nomatch h.chanSw.symm.trans hs.1

/-- **The transmission is stopped for a reason, and not resumed against one.**  In a run that abandons no channel switch, the transmission is stopped only in a quiet period without a background scan, in a running channel switch that freezes it once it has acted, or while the channel change of a switch that has ended is not done.  In a run that resumes nothing another activity has stopped, it is stopped in every quiet period without a background scan, and in every silent switch that is running and has acted. -/
theorem spec_mgmt_right (c : SpecConfig) :
    (∀ s, (specMachine c).Reach NotAbandoned s → s.StopsFor c) ∧
      ∀ s, (specMachine c).Reach (NotResumed c) s → s.Silences c :=
  ⟨fun _ h => h.invariant (·.StopsFor c) (fun _ => SpecInit.stopsFor)
      fun _ _ _ hi hok hs => specStep_stopsFor hi hok hs,
    fun _ h => h.invariant (·.Silences c) (fun _ => SpecInit.silences)
      fun _ _ _ hi hok hs => specStep_silences hi hok hs⟩

/-! ### A session whose access point announces switches and quiet periods -/

/-- A station's session, without background scans in quiet periods. -/
def staConfig : SpecConfig where
  triggerBackgroundScan := false
  systemRoleSta := true
  csaOffloadEnable := false

def staBegins : SpecMgmt where
  quietState := .quietInit
  dot11hChanSwState := .chanSwInit
  gLimChannelSwitch :=
    { state := .idle, primaryChannel := 36, switchCount := 0, switchMode := 0 }
  timers _ := { running := false, posted := 0 }
  triggerStatus := true
  stopped := false
  changes := 0
  acted := false

/-- Nothing keeps the session from switching, and its timers do as they are told. -/
def undisturbed : Around where
  switchElsewhere := false
  preAuthReq := false
  sessionPowerActive := true
  linkSuspended := false
  scanState := false
  processDefdMsgs := true
  channelValid _ := true
  deactivates _ := true
  timerChanges _ := true
  activates _ := true
  scanTriggered := false

def switchTo40 (switchCount switchMode : UInt8) : ChanSwitchAnn where
  newChannel := 40
  switchCount := switchCount
  switchMode := switchMode
  secondary := false

theorem staBegins_init : (specMachine staConfig).init staBegins where
  quiet := rfl
  chanSw := rfl
  timers _ := rfl
  trigger := rfl
  resumed := rfl
  changes := rfl
  acted := rfl

theorem threeBeaconsLeft_stops : ¬ ∀ c s, (specMachine c).Reach (fun _ _ => True) s →
    (s.stopped = true ↔ s.Quiets c ∨ s.SilentSwitch) := by
  intro h
  obtain ⟨s, hs, hstop, hbad⟩ : ∃ s, (specMachine staConfig).run staBegins
      [.announced (switchTo40 3 0) undisturbed] = some s ∧
        s.stopped = true ∧ ¬ (s.Quiets staConfig ∨ s.SilentSwitch) :=
    Machine.exists_run (by decide +kernel)
  exact hbad ((h staConfig s (Machine.reach_of_run staBegins_init hs)).1 hstop)

/-- A silent switch ten beacons ahead, whose channel change is not done, after a quiet period. -/
theorem spec_mgmt_right_quietThenSwitch : ∃ s : SpecMgmt, s.stopped = true ∧
    s.dot11hChanSwState = .chanSwEnd ∧ s.StopsFor staConfig ∧ s.Silences staConfig := by
  let es : List SpecEvent :=
    [.quietStarts undisturbed, .quietBegins, .expires .quiet, .timeout .quiet undisturbed,
      .expires .quietBss, .timeout .quietBss undisturbed,
      .announced (switchTo40 10 1) undisturbed, .expires .channelSwitch,
      .timeout .channelSwitch undisturbed]
  obtain ⟨s, hs, hstops, hstopped, hend⟩ : ∃ s, (specMachine staConfig).run staBegins es = some s ∧
      (specMachine staConfig).Reach NotAbandoned s ∧
        s.stopped = true ∧ s.dot11hChanSwState = .chanSwEnd :=
    Machine.exists_reach staBegins_init (by decide +kernel) (by decide +kernel)
  have hsilences : (specMachine staConfig).Reach (NotResumed staConfig) s :=
    Machine.Reach.run (.start staBegins_init) (by decide +kernel) hs
  exact ⟨s, hstopped, hend, (spec_mgmt_right staConfig).1 s hstops,
    (spec_mgmt_right staConfig).2 s hsilences⟩

end Qcacld.Lim

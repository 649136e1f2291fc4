import Mathlib.Data.Fintype.Basic
import Mathlib.Tactic.Simps.Basic
import Qcacld.Support.Runs

/-!
# Sap — SapFsm

The state machine of the soft access points.  Each session runs one of its own, and all of them share one channel availability check: a timer, a flag that says the check may be skipped, and the channel to move to after a radar.

The radar handler and the end of the check go through all the sessions.  The expiry of the timer is a message, so that anything may come between it and its callback.
-/

namespace Qcacld.Sap
open Qcacld.Support

/-! ### The sessions -/

abbrev sapMaxNumSession : Nat := 5

/-- A session, as an index of `sapCtxList`. -/
abbrev Intf := Fin sapMaxNumSession

/-- `AUTO_CHANNEL_SELECT` and `SAP_CHANNEL_NOT_SELECTED` -/
def autoChannelSelect : Nat := 0

/-- `eSapFsmStates_t` -/
inductive SapFsmState where
  | disconnected | chSelect | dfsCacWait | starting | disconnectPending | disconnecting | started
deriving DecidableEq

/-- A start has been asked for, and its result is to come. -/
def SapFsmState.UnderWay (st : SapFsmState) : Prop :=
  st = .chSelect ∨ st = .starting ∨ st = .disconnectPending

instance (st : SapFsmState) : Decidable st.UnderWay := inferInstanceAs (Decidable (_ ∨ _))

/-- The events of `sapFsm`. -/
inductive SapMsg where
  | hddStartInfraBss | hddStopInfraBss
  | macScanComplete | channelSelectionFailed | channelSelectionRetry
  | macStartBssSuccess | macStartFails | macReadyForConnections
  | dfsChannelCacStart | dfsChannelCacRadarFound | dfsChannelCacEnd
  | operatingChannelChanged | smeChannelChangeReq
deriving DecidableEq

/-- `VOS_TIMER_STATE` of `sap_dfs_cac_timer`, which is never `VOS_TIMER_STATE_STARTING` -/
inductive CacTimerState where
  | unused | stopped | running
deriving DecidableEq

/-- `eSapDfsCACState_t` -/
inductive SapDfsCacState where
  | doNotSkipCac | skipCac
deriving DecidableEq

/-- What the state machine reads of a `tSapContext`.  The last five are history: the channel the session has been told to beacon on, until it leaves `eSAP_STARTED`; the starts that have been accepted; the `eSAP_START_BSS_EVENT`s; and those of them that the end of a check and a change of channel have sent. -/
structure SapSession where
  sapsMachine : SapFsmState
  channel : Nat
  isCacStartNotified : Bool
  isCacEndNotified : Bool
  isSapSessionOpen : Bool
  isSapReadyForChnlChng : Bool
  beaconing : Option Nat
  asked : Nat
  startBssEvents : Nat
  cacEnds : Nat
  changes : Nat

/-- What it reads of the `tSapDfsInfo`. -/
structure SapDfs where
  sapDfsCacTimer : CacTimerState
  isDfsCacTimerRunning : Bool
  cacState : SapDfsCacState
  ignoreCac : Bool
  targetChannel : Nat
  sapRadarFoundStatus : Bool

/-- A session has been told to beacon: on which channel, and whether then the check was ignored, another session was beaconing on the channel, or it had been checked. -/
structure BeaconReq where
  channel : Nat
  ignoreCac : Bool
  shared : Bool
  checked : Bool

/-- The `tSapStruct`, with the callbacks of the timer that are posted.  `sapCtxList` says which entries name an access point.  The rest is history: the channel the timer was last started for, and whether a radar has been reported on it since; the channels whose check has run its full period, with no radar since its start; who has been told to beacon; and from which states the end of a check has moved sessions to `eSAP_STARTED`. -/
structure SapAps where
  sessions : Intf → SapSession
  sapCtxList : Intf → Bool
  dfs : SapDfs
  posted : Nat
  cacChannel : Nat
  cacRadar : Bool
  checked : List Nat
  told : List BeaconReq
  moved : List SapFsmState

structure SapConfig where
  /-- `vos_nv_getChannelEnabledState` is `NV_CHANNEL_DFS` -/
  isDfs : Nat → Bool
  /-- the DFS test mode -/
  disableDFSChSwitch : Bool

/-- What the rest of the driver says while an event is handled. -/
structure SapAround where
  /-- `sme_OpenSession` succeeds -/
  sessionOpens : Bool
  /-- `sapGotoChannelSel` is not to be, next to the other sessions, or overrides the channel -/
  channelSelAborts : Bool
  channelOverride : Option Nat
  /-- `sme_ScanRequest` succeeds; the channel it leaves otherwise -/
  scanSent : Bool
  defaultChannel : Nat
  /-- the channel is in the NOL, or leaks into it; `sapRandomChannelSel` -/
  channelInNol : Bool
  randomChannel : Nat
  /-- `sme_GetConcurrentOperationChannel`, or 0 -/
  concurrentChannel : Nat
  /-- `vos_timer_start` succeeds -/
  timerStarts : Bool
  /-- the HDD takes the start or the end of a check, and an `eSAP_START_BSS_EVENT` -/
  signalled : Intf → Bool
  startSignalled : Intf → Bool
  /-- the roam profile has a channel list; `sme_RoamChannelChangeReq` succeeds -/
  channelListed : Intf → Bool
  channelChangeSent : Intf → Bool

variable (cfg : SapConfig) (a : SapAround)

def SapSession.goto (x : SapSession) (st : SapFsmState) : SapSession :=
  { x with
    sapsMachine := st
    beaconing := if st = .started then x.beaconing else none }

namespace SapAps

/-- Write a session. -/
@[simps] def modify (s : SapAps) (i : Intf) (f : SapSession → SapSession) : SapAps :=
  { s with sessions := Function.update s.sessions i (f (s.sessions i)) }

theorem modify_modify (s : SapAps) (i : Intf) (f g : SapSession → SapSession) :
    (s.modify i f).modify i g = s.modify i fun x => g (f x) := by
  simp [modify]

theorem modify_const_self (s : SapAps) (i : Intf) : s.modify i (fun _ => s.sessions i) = s := by
  rw [modify, Function.update_eq_self]

def goto (s : SapAps) (i : Intf) (st : SapFsmState) : SapAps := s.modify i (·.goto st)

/-- `sapSignalHDDevent`, with `eSAP_START_BSS_EVENT`. -/
def signalStartBss (s : SapAps) (i : Intf) : SapAps :=
  s.modify i fun x => { x with startBssEvents := x.startBssEvents + 1 }

/-- Another session is beaconing on the channel. -/
def Shared (s : SapAps) (i : Intf) (channel : Nat) : Prop :=
  ∃ j, j ≠ i ∧ (s.sessions j).beaconing = some channel
deriving Decidable

/-- `sme_RoamStartBeaconReq` -/
def tellBeacon (s : SapAps) (i : Intf) : SapAps :=
  let channel := (s.sessions i).channel
  { s.modify i (fun x => { x with beaconing := some channel }) with
    told := s.told ++ [{
      channel := channel
      ignoreCac := s.dfs.ignoreCac
      shared := s.Shared i channel
      checked := channel ∈ s.checked }] }

def startBeaconReq (s : SapAps) (i : Intf) : SapAps :=
  if s.dfs.sapRadarFoundStatus then s else s.tellBeacon i

/-! ### The timer -/

/-- `vos_timer_destroy`, after `vos_timer_stop` or without, and the flag is taken back. -/
def destroyCacTimer (s : SapAps) : SapAps :=
  { s with dfs := { s.dfs with sapDfsCacTimer := .unused, isDfsCacTimerRunning := false } }

def sapStartDfsCacTimer (s : SapAps) (i : Intf) : SapAps :=
  if s.dfs.ignoreCac then s
  else if a.timerStarts then
    { s with
      dfs := { s.dfs with sapDfsCacTimer := .running, isDfsCacTimerRunning := true }
      cacChannel := (s.sessions i).channel
      cacRadar := false }
  else s.destroyCacTimer

def sapStopDfsCacTimer (s : SapAps) : SapAps :=
  if s.dfs.sapDfsCacTimer ≠ .running then s else s.destroyCacTimer

def sapFindValidConcurrentSession (s : SapAps) : Option Intf :=
  (List.finRange sapMaxNumSession).find? s.sapCtxList

/-! ### The notifications -/

def sapCacResetNotify (s : SapAps) : SapAps :=
  { s with sessions := fun j =>
      if s.sapCtxList j then
        { s.sessions j with isCacStartNotified := false, isCacEndNotified := false }
      else s.sessions j }

/-- The loop of `sap_CacStartNotify`, which ends when the HDD does not take an event. -/
def cacStartLoop : List Intf → SapAps → SapAps
  | [], s => s
  | j :: js, s =>
    if s.sapCtxList j && !(s.sessions j).isCacStartNotified then
      if a.signalled j then
        cacStartLoop js (s.modify j fun x => { x with isCacStartNotified := true })
      else s
    else cacStartLoop js s

def sapCacStartNotify (s : SapAps) : SapAps := cacStartLoop a (List.finRange _) s

/-- What the end of a check does to a session, whatever state it is in. -/
def cacEnd (s : SapAps) (j : Intf) : SapAps :=
  let s := s.modify j fun x => { x with isCacEndNotified := true }
  let s := { s with dfs := { s.dfs with sapRadarFoundStatus := false } }
  let s := s.startBeaconReq j
  let st := (s.sessions j).sapsMachine
  let s := { s with moved := if st = SapFsmState.started then s.moved else s.moved ++ [st] }
  let s := (s.goto j .started).signalStartBss j
  s.modify j fun x => { x with cacEnds := x.cacEnds + 1 }

/-- The loop of `sap_CacEndNotify`. -/
def cacEndLoop : List Intf → SapAps → SapAps
  | [], s => { s with dfs := { s.dfs with cacState := .skipCac } }
  | j :: js, s =>
    if s.sapCtxList j && !(s.sessions j).isCacEndNotified then
      if a.signalled j then
        if a.startSignalled j then cacEndLoop js (s.cacEnd j) else s.cacEnd j
      else s
    else cacEndLoop js s

def sapCacEndNotify (s : SapAps) : SapAps := cacEndLoop a (List.finRange _) s

/-! ### The state machine -/

/-- `sap_CloseSession`; the global structure is zeroed when no session is left. -/
def sapCloseSession (s : SapAps) (i : Intf) : SapAps :=
  let s := s.modify i fun x =>
    { x with isCacStartNotified := false, isCacEndNotified := false, isSapSessionOpen := false }
  let s := { s with sapCtxList := Function.update s.sapCtxList i false }
  if s.sapFindValidConcurrentSession = none then
    { s with dfs := {
        sapDfsCacTimer := .unused
        isDfsCacTimerRunning := false
        cacState := .doNotSkipCac
        ignoreCac := false
        targetChannel := 0
        sapRadarFoundStatus := false } }
  else s

/-- The session of SME is closed, if it is open. -/
def closeIfOpen (s : SapAps) (i : Intf) : SapAps :=
  if (s.sessions i).isSapSessionOpen then s.sapCloseSession i else s

def wlansapChannelChangeRequest (s : SapAps) (i : Intf) : SapAps :=
  if a.channelListed i then s.modify i fun x => { x with channel := s.dfs.targetChannel } else s

/-- The check begins: the timer is started unless it is, and the HDD is told. -/
def startCac (s : SapAps) (i : Intf) : SapAps :=
  let s := if s.dfs.isDfsCacTimerRunning then s else s.sapStartDfsCacTimer a i
  s.sapCacStartNotify a

/-- In `eSAP_CH_SELECT`, `eSAP_MAC_SCAN_COMPLETE`. -/
def scanComplete (s : SapAps) (i : Intf) : SapAps :=
  if a.channelInNol && a.randomChannel = 0 then s
  else
    let ch := if a.channelInNol then a.randomChannel else (s.sessions i).channel
    let ch := if a.concurrentChannel ≠ 0 && cfg.isDfs a.concurrentChannel then a.concurrentChannel
      else ch
    (s.modify i fun x => { x with channel := ch }).goto i .starting

/-- `sapGotoChannelSel`, before the start of a BSS.  A channel that is configured is a scan that is complete. -/
def sapGotoChannelSel (s : SapAps) (i : Intf) : SapAps :=
  if a.channelSelAborts then s
  else
    let s := s.modify i fun x => { x with channel := a.channelOverride.getD x.channel }
    if (s.sessions i).channel = autoChannelSelect then
      if a.scanSent then s
      else scanComplete cfg a (s.modify i fun x => { x with channel := a.defaultChannel }) i
    else scanComplete cfg a s i

/-- In `eSAP_DFS_CAC_WAIT`, `eSAP_DFS_CHANNEL_CAC_RADAR_FOUND`. -/
def radarFound (s : SapAps) : SapAps :=
  { s with sessions := fun j =>
      let x := s.sessions j
      if s.sapCtxList j ∧ x.sapsMachine ≠ .disconnected then
        { x.goto .disconnecting with
          channel := if a.channelListed j then s.dfs.targetChannel else x.channel }
      else x }

/-- In `eSAP_STARTING`, `eSAP_MAC_START_BSS_SUCCESS`. -/
def bssStarted (s : SapAps) (i : Intf) : SapAps :=
  let s := (s.goto i .started).signalStartBss i
  if cfg.isDfs (s.sessions i).channel then
    if s.dfs.ignoreCac = false ∧ s.dfs.cacState = .doNotSkipCac then
      (s.goto i .dfsCacWait).startCac a i
    else s.startBeaconReq i
  else s

def sapFsm (s : SapAps) (i : Intf) (msg : SapMsg) : SapAps :=
  match (s.sessions i).sapsMachine, msg with
  | .disconnected, .hddStartInfraBss =>
    if (s.sessions i).isSapSessionOpen || a.sessionOpens then
      sapGotoChannelSel cfg a
        ((s.modify i fun x => { x with isSapSessionOpen := true }).goto i .chSelect) i
    else s
  | .disconnected, .dfsChannelCacStart => (s.goto i .dfsCacWait).startCac a i
  | .disconnected, .channelSelectionRetry => sapGotoChannelSel cfg a (s.goto i .chSelect) i
  | .chSelect, .macScanComplete => scanComplete cfg a s i
  | .chSelect, .channelSelectionFailed => (s.goto i .disconnected).signalStartBss i
  | .chSelect, .hddStopInfraBss => (s.goto i .disconnected).signalStartBss i
  | .dfsCacWait, .dfsChannelCacStart => s.startCac a i
  | .dfsCacWait, .dfsChannelCacRadarFound => s.radarFound a
  | .dfsCacWait, .dfsChannelCacEnd => s.sapCacEndNotify a
  | .dfsCacWait, .hddStopInfraBss =>
    (if s.sapFindValidConcurrentSession = none then s.sapStopDfsCacTimer else s).goto i .disconnecting
  | .starting, .macStartBssSuccess => bssStarted cfg a s i
  | .starting, .hddStopInfraBss => s.goto i .disconnectPending
  | .starting, .macStartFails => ((s.goto i .disconnected).signalStartBss i).closeIfOpen i
  | .starting, .operatingChannelChanged =>
    ((s.modify i fun x => { x with channel := s.dfs.targetChannel }).goto i .started).signalStartBss i
  | .disconnectPending, .macStartBssSuccess => (s.goto i .disconnecting).signalStartBss i
  | .disconnectPending, .macStartFails =>
    ((s.goto i .disconnected).signalStartBss i).closeIfOpen i
  | .started, .hddStopInfraBss => s.goto i .disconnecting
  | .disconnecting, .macReadyForConnections => (s.goto i .disconnected).closeIfOpen i
  | .disconnecting, .smeChannelChangeReq => s.wlansapChannelChangeRequest a i
  | _, _ => s

/-! ### What calls it -/

/-- `WLANSAP_StartBss` is going to return `VOS_STATUS_SUCCESS`. -/
def startAccepted (s : SapAps) (i : Intf) : Bool :=
  ((s.sessions i).isSapSessionOpen || a.sessionOpens) && !a.channelSelAborts

def wlansapStartBss (s : SapAps) (i : Intf) (channel : Nat) : SapAps :=
  let accepted := s.startAccepted a i
  let s := s.modify i fun x => { x.goto .disconnected with
    channel := channel
    asked := if accepted then x.asked + 1 else x.asked }
  let s := { s with sapCtxList := Function.update s.sapCtxList i true }
  s.sapFsm cfg a i .hddStartInfraBss

def wlansapStopBss (s : SapAps) (i : Intf) : SapAps := s.sapFsm cfg a i .hddStopInfraBss

/-- `WLANSAP_ScanCallback`; `retry` says that the other band has not been scanned. -/
def wlansapScanCallback (s : SapAps) (i : Intf) (operChannel backupChannel : Nat) (retry : Bool) :
    SapAps :=
  match (s.sessions i).sapsMachine with
  | .disconnected => s
  | .started => s.modify i fun x => { x with channel := backupChannel }
  | _ =>
    if operChannel = autoChannelSelect then
      if retry then (s.goto i .disconnected).sapFsm cfg a i .channelSelectionRetry
      else (s.goto i .chSelect).sapFsm cfg a i .channelSelectionFailed
    else
      (s.modify i fun x => { x with channel := operChannel }).sapFsm cfg a i .macScanComplete

def sapDfsCacTimerCallback (s : SapAps) : SapAps :=
  match s.sapFindValidConcurrentSession with
  | none => s
  | some i =>
    let s := if s.dfs.isDfsCacTimerRunning then s.destroyCacTimer else s
    if (s.sessions i).sapsMachine = .dfsCacWait then s.sapFsm cfg a i .dfsChannelCacEnd else s

/-- A radar on these channels goes into the history. -/
def noteRadar (s : SapAps) (channels : List Nat) : SapAps :=
  { s with
    cacRadar := s.cacRadar || s.cacChannel ∈ channels
    checked := s.checked.filter (· ∉ channels) }

/-- `sapIndicateRadar`, and the channel the user has set instead, if any. -/
def sapIndicateRadar (s : SapAps) (i : Intf) (radarStatus : Bool) (userTarget : Nat) : SapAps :=
  let (target, found) :=
    if !radarStatus then (0, s.dfs.sapRadarFoundStatus)
    else if cfg.disableDFSChSwitch then ((s.sessions i).channel, s.dfs.sapRadarFoundStatus)
    else (a.randomChannel, true)
  { s with dfs := { s.dfs with
      targetChannel := if 0 < userTarget then userTarget else target
      sapRadarFoundStatus := found } }

/-- `eCSR_ROAM_DFS_RADAR_IND`: a channel to move to is chosen, or all the sessions are stopped. -/
def dfsRadarInd (s : SapAps) (i : Intf) (radarStatus : Bool) (userTarget : Nat) : SapAps :=
  let s := s.sapIndicateRadar cfg a i radarStatus userTarget
  if s.dfs.targetChannel = 0 then
    (List.finRange _).foldl (fun s j => if s.sapCtxList j then s.wlansapStopBss cfg a j else s) s
  else { s with dfs := { s.dfs with cacState := .doNotSkipCac } }.sapCacResetNotify

/-- `eCSR_ROAM_RESULT_DFS_RADAR_FOUND_IND`, which comes with it.  In `eSAP_STARTED` the switch is announced. -/
def dfsRadarFoundInd (s : SapAps) (i : Intf) : SapAps :=
  if (s.sessions i).sapsMachine = .dfsCacWait ∧ cfg.disableDFSChSwitch = false ∧
      s.dfs.sapRadarFoundStatus = true then
    s.destroyCacTimer.sapFsm cfg a i .dfsChannelCacRadarFound
  else s

/-- `is_concurrent_sap_ready_for_channel_change` -/
def ConcurrentReady (s : SapAps) (i : Intf) : Prop :=
  ∀ j, s.sapCtxList j = true → j ≠ i → (s.sessions j).isSapReadyForChnlChng = true
deriving Decidable

/-- Each session in `eSAP_DISCONNECTING` asks for the channel change, and is no longer ready for one when that was sent. -/
def changeChannels (s : SapAps) : SapAps :=
  { s with sessions := fun j =>
      let x := s.sessions j
      if s.sapCtxList j ∧ x.sapsMachine = .disconnecting ∧ a.channelListed j then
        { x with
          channel := s.dfs.targetChannel
          isSapReadyForChnlChng := x.isSapReadyForChnlChng && !a.channelChangeSent j }
      else x }

/-- `eCSR_ROAM_RESULT_DFS_CHANSW_UPDATE_SUCCESS`, and `_FAILURE`. -/
def chanswUpdate (s : SapAps) (i : Intf) : SapAps :=
  if cfg.disableDFSChSwitch then s.tellBeacon i
  else if (s.sessions i).sapsMachine = .started then
    let s := s.goto i .disconnecting
    -- `sap_get_total_number_sap_intf` is more than one
    if 1 < ((List.finRange _).filter s.sapCtxList).length then
      let s := s.modify i fun x => { x with isSapReadyForChnlChng := true }
      if s.ConcurrentReady i then s.changeChannels a else s
    else s.sapFsm cfg a i .smeChannelChangeReq
  else s

/-- Start a BSS on the new channel, without a check. -/
def restartBss (s : SapAps) (i : Intf) : SapAps :=
  let s := s.goto i .starting
  let s := { s with dfs := { s.dfs with sapRadarFoundStatus := false } }
  let s := s.modify i fun x => { x with changes := x.changes + 1 }
  s.sapFsm cfg a i .macStartBssSuccess

def channelChangeSuccess (s : SapAps) (i : Intf) : SapAps :=
  let s := s.modify i fun x => { x with channel := s.dfs.targetChannel }
  if (s.sessions i).sapsMachine = .disconnecting then
    if cfg.isDfs (s.sessions i).channel then
      if s.dfs.ignoreCac = false ∧ s.dfs.cacState = .doNotSkipCac then
        (s.goto i .disconnected).sapFsm cfg a i .dfsChannelCacStart
      else (s.startBeaconReq i).restartBss cfg a i
    else s.restartBss cfg a i
  else s

/-- `WLANSAP_SetChannelChangeWithCsa`, or with `cacState` the change of the channel width; the request is granted in `eSAP_STARTED`. -/
def setChannelChange (s : SapAps) (i : Intf) (targetChannel : Nat) (cacState : SapDfsCacState) :
    SapAps :=
  if (s.sessions i).sapsMachine = .started then
    { s with dfs := { s.dfs with
        targetChannel := targetChannel
        sapRadarFoundStatus := true
        cacState := cacState } }.sapCacResetNotify
  else s

end SapAps

/-! ### The runs -/

inductive SapEvent where
  | startBss (i : Intf) (channel : Nat) (a : SapAround)
  | stopBss (i : Intf) (a : SapAround)
  | scanDone (i : Intf) (operChannel backupChannel : Nat) (retry : Bool) (a : SapAround)
  /-- SME has started the BSS, could not, or has stopped it -/
  | infraStarted (i : Intf) (a : SapAround)
  | infraStartFailed (i : Intf) (a : SapAround)
  | infraStopped (i : Intf) (a : SapAround)
  | operatingChannelChanged (i : Intf) (a : SapAround)
  /-- the timer has run its full period, and its callback is called -/
  | cacTimerExpires
  | cacTimerCallback (a : SapAround)
  /-- a radar on these channels, or a false alarm -/
  | radar (i : Intf) (channels : List Nat) (radarStatus : Bool) (userTarget : Nat) (a : SapAround)
  | chanswUpdate (i : Intf) (a : SapAround)
  | channelChangeSuccess (i : Intf) (a : SapAround)
  /-- `WLANSAP_SetChannelChangeWithCsa` and `WLANSAP_set_sub20_channelwidth_with_csa` -/
  | setChannelChangeWithCsa (i : Intf) (targetChannel : Nat)
  | setSub20ChannelwidthWithCsa (i : Intf)
  | setDfsIgnoreCac (ignoreCac : Bool)

open SapAps in
/-- One event; `none` when the state does not enable it. -/
def sapStep (s : SapAps) : SapEvent → Option SapAps
  | .startBss i channel a => some (wlansapStartBss cfg a s i channel)
  | .stopBss i a => some (wlansapStopBss cfg a s i)
  | .scanDone i operChannel backupChannel retry a =>
    some (wlansapScanCallback cfg a s i operChannel backupChannel retry)
  | .infraStarted i a => some (sapFsm cfg a s i .macStartBssSuccess)
  | .infraStartFailed i a => some (sapFsm cfg a s i .macStartFails)
  | .infraStopped i a => some (sapFsm cfg a s i .macReadyForConnections)
  | .operatingChannelChanged i a => some (sapFsm cfg a s i .operatingChannelChanged)
  | .cacTimerExpires => do
    guard (s.dfs.sapDfsCacTimer = .running)
    return { s with
      dfs := { s.dfs with sapDfsCacTimer := .stopped }
      posted := s.posted + 1
      checked := if s.cacRadar then s.checked else s.cacChannel :: s.checked }
  | .cacTimerCallback a => do
    guard (0 < s.posted)
    return sapDfsCacTimerCallback cfg a { s with posted := s.posted - 1 }
  | .radar i channels radarStatus userTarget a =>
    let s := if radarStatus then s.noteRadar channels else s
    some (dfsRadarFoundInd cfg a (dfsRadarInd cfg a s i radarStatus userTarget) i)
  | .chanswUpdate i a => some (s.chanswUpdate cfg a i)
  | .channelChangeSuccess i a => some (s.channelChangeSuccess cfg a i)
  | .setChannelChangeWithCsa i targetChannel =>
    some (s.setChannelChange i targetChannel .doNotSkipCac)
  | .setSub20ChannelwidthWithCsa i =>
    some (s.setChannelChange i (s.sessions i).channel .skipCac)
  | .setDfsIgnoreCac ignoreCac => some { s with dfs := { s.dfs with ignoreCac := ignoreCac } }

structure SapInit (s : SapAps) : Prop where
  disconnected : ∀ i, (s.sessions i).sapsMachine = .disconnected
  beaconing : ∀ i, (s.sessions i).beaconing = none
  counts : ∀ i, (s.sessions i).startBssEvents = 0 ∧ (s.sessions i).asked = 0 ∧
    (s.sessions i).cacEnds = 0 ∧ (s.sessions i).changes = 0
  timer : s.dfs.sapDfsCacTimer = .unused
  flag : s.dfs.isDfsCacTimerRunning = false
  cacState : s.dfs.cacState = .doNotSkipCac
  posted : s.posted = 0
  told : s.told = []
  moved : s.moved = []

def sapMachine : Machine SapAps SapEvent where
  init := SapInit
  step := sapStep cfg

end Qcacld.Sap

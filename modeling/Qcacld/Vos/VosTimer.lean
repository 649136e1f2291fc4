import Mathlib.Algebra.BigOperators.Group.Finset.Basic
import Mathlib.Data.Fintype.BigOperators
import Qcacld.Support.Runs

/-!
# Vos — VosTimer

The timers of the driver: each has a timer of the kernel, whose handler is `vos_linux_timer_callback`, and those of the type `VOS_TIMER_TYPE_WAKE_APPS` are counted while they run.  The kernel may have taken a timer for expired, with its handler still to come, when the timer is stopped, started or destroyed.

`TimersRight` says what is to hold of every state, and `vos_timers_iff` which steps keep it: `vos_timer_destroy` and `vos_timer_init` do not count a running timer off, `vos_timer_init` does not ask whether it runs, and the handler does not know which start it comes from.
-/

namespace Qcacld.Vos
open Qcacld.Support Function List Option

inductive VosTimerType where
  | sw
  | wakeApps
deriving DecidableEq

inductive VosTimerState where
  | unused
  | stopped
  | starting
  | running
deriving DecidableEq

inductive VosStatus where
  | success
  | eInval
  | eAlready
  | eBusy
  | eFault

/-- `vos_timer_t`.  `timer` is the kernel's, when it is set, and `expired` a handler of it that is to come, both with the start that set them.  For the history there is how often the timer has been started, and how often it had been when it was last stopped or destroyed. -/
structure VosTimer where
  callback : Option Nat
  userData : Nat
  type : VosTimerType
  state : VosTimerState
  cookie : UInt32
  threadId : Nat
  timer : Option Nat
  expired : Option Nat
  starts : Nat
  endedTo : Nat

/-- A callback that has been given to a thread: of which timer and which start it is, and whether the timer had been stopped or destroyed since. -/
structure Delivery (ι : Type*) where
  timer : ι
  start : Nat
  ended : Bool
  callback : Nat
  userData : Nat
  threadId : Nat

/-- `misused` says whether a timer of the kernel has been initialised that was set. -/
structure VosTimers (ι : Type*) where
  timers : ι → VosTimer
  persistentTimerCount : UInt32
  delivered : List (Delivery ι)
  misused : Bool

def linuxTimerCookie : UInt32 := 0x12341234

def linuxInvalidTimerCookie : UInt32 := 0xfeedface

variable {ι : Type*} [DecidableEq ι]

def VosTimers.set (s : VosTimers ι) (t : ι) (timer : VosTimer) : VosTimers ι :=
  { s with timers := update s.timers t timer }

def tryAllowingSleep (s : VosTimers ι) (type : VosTimerType) : VosTimers ι :=
  if type = .wakeApps then { s with persistentTimerCount := s.persistentTimerCount - 1 } else s

/-- `init_timer`, or `init_timer_deferrable` -/
def initTimer (s : VosTimers ι) (t : ι) : VosTimers ι :=
  { s with misused := s.misused || (s.timers t).timer.isSome }

/-- `vos_timer_init`; `ptimerNode` is what the allocation under `TIMER_MANAGER` comes to. -/
def vosTimerInit (s : VosTimers ι) (t : ι) (timerType : VosTimerType) (callback : Option Nat)
    (userData : Nat) (ptimerNode : Bool) : VosStatus × VosTimers ι :=
  if callback = none then (.eFault, s)
  else if !ptimerNode then (.eFault, s)
  else (.success, (initTimer s t).set t
    { s.timers t with
      callback := callback
      userData := userData
      type := timerType
      cookie := linuxTimerCookie
      threadId := 0
      state := .stopped })

def vosTimerStart (s : VosTimers ι) (t : ι) (expirationTime : UInt32) (pid : Nat) :
    VosStatus × VosTimers ι :=
  if (s.timers t).cookie ≠ linuxTimerCookie then (.eInval, s)
  else if expirationTime < 10 then (.eInval, s)
  else if (s.timers t).state ≠ .stopped then (.eAlready, s)
  else
    let s' := s.set t
      { s.timers t with
        timer := some (s.timers t).starts
        starts := (s.timers t).starts + 1
        state := .running
        threadId := pid }
    if (s.timers t).type = .wakeApps then
      (.success, { s' with persistentTimerCount := s'.persistentTimerCount + 1 })
    else (.success, s')

/-- The timer has been stopped or destroyed: no start of it is to lead to a callback any more. -/
def VosTimer.ended (tm : VosTimer) : VosTimer := { tm with endedTo := tm.starts }

def vosTimerStop (s : VosTimers ι) (t : ι) : VosStatus × VosTimers ι :=
  if (s.timers t).cookie ≠ linuxTimerCookie then (.eInval, s)
  else if (s.timers t).state ≠ .running then (.success, s.set t (s.timers t).ended)
  else (.success, tryAllowingSleep (s.set t
    { (s.timers t).ended with
      state := .stopped
      timer := none }) (s.timers t).type)

def vosTimerDestroy (s : VosTimers ι) (t : ι) : VosStatus × VosTimers ι :=
  if (s.timers t).cookie ≠ linuxTimerCookie then (.eInval, s)
  else
    let destroyed (tm : VosTimer) : VosTimer :=
      { tm.ended with
        cookie := linuxInvalidTimerCookie
        state := .unused }
    match (s.timers t).state with
    | .starting => (.eBusy, s)
    | .running => (.success, s.set t (destroyed { s.timers t with timer := none }))
    | .stopped => (.success, s.set t (destroyed (s.timers t)))
    | .unused => (.eAlready, s)

/-- The kernel takes a timer that is set for expired, unless its handler is still to come. -/
def expireTimer (s : VosTimers ι) (t : ι) (start : Nat) : VosTimers ι :=
  s.set t
    { s.timers t with
      timer := none
      expired := some start }

/-- The callback is given to a thread; `enqueued` is what the allocation, or the posting of the message, comes to. -/
def deliver (s : VosTimers ι) (t : ι) (tm : VosTimer) (start : Nat) (enqueued : Bool) :
    VosTimers ι :=
  match tm.callback with
  | none => s
  | some callback =>
    if enqueued then
      { s with
        delivered := s.delivered ++ [{
          timer := t
          start := start
          ended := start < tm.endedTo
          callback := callback
          userData := tm.userData
          threadId := tm.threadId }] }
    else s

/-- `vos_linux_timer_callback`, for the handler of a start. -/
def vosLinuxTimerCallback (s : VosTimers ι) (t : ι) (start : Nat) (enqueued : Bool) : VosTimers ι :=
  let tm := { s.timers t with expired := none }
  match tm.state with
  | .starting => s.set t { tm with state := .stopped }
  | .stopped => s.set t tm
  | .unused => s.set t tm
  | .running =>
    deliver (tryAllowingSleep (s.set t { tm with state := .stopped }) tm.type) t tm start enqueued

inductive TimerEvent (ι : Type*) where
  | init (t : ι) (timerType : VosTimerType) (callback : Option Nat) (userData : Nat)
      (ptimerNode : Bool)
  | start (t : ι) (expirationTime : UInt32) (pid : Nat)
  | stop (t : ι)
  | destroy (t : ι)
  /-- the kernel takes the timer for expired -/
  | expire (t : ι)
  /-- the handler runs -/
  | handle (t : ι) (enqueued : Bool)

/-- One step.  The handlers of a timer run one after the other. -/
def timerStep (s : VosTimers ι) : TimerEvent ι → Option (VosTimers ι)
  | .init t timerType callback userData ptimerNode =>
    some (vosTimerInit s t timerType callback userData ptimerNode).2
  | .start t expirationTime pid => some (vosTimerStart s t expirationTime pid).2
  | .stop t => some (vosTimerStop s t).2
  | .destroy t => some (vosTimerDestroy s t).2
  | .expire t =>
    match (s.timers t).timer, (s.timers t).expired with
    | some start, none => some (expireTimer s t start)
    | _, _ => none
  | .handle t enqueued => (s.timers t).expired.map fun start =>
    vosLinuxTimerCallback s t start enqueued

/-- Memory that no timer has been initialised in. -/
def VosTimer.Blank (tm : VosTimer) : Prop :=
  tm.cookie ≠ linuxTimerCookie ∧ tm.state ≠ .running ∧ tm.timer = none ∧ tm.expired = none

def VosTimers.Initial (s : VosTimers ι) : Prop :=
  (∀ t, (s.timers t).Blank) ∧ s.persistentTimerCount = 0 ∧ s.delivered = [] ∧ s.misused = false

def timerMachine (ι : Type*) [DecidableEq ι] : Machine (VosTimers ι) (TimerEvent ι) where
  init := VosTimers.Initial
  step := timerStep

/-! ### What is to hold -/

def VosTimer.Counted (tm : VosTimer) : Prop := tm.state = .running ∧ tm.type = .wakeApps
deriving Decidable

section Law

variable [Fintype ι]

/-- How many timers of the type `VOS_TIMER_TYPE_WAKE_APPS` run. -/
def runningWakeApps (s : VosTimers ι) : Nat :=
  (Finset.univ.filter fun t => (s.timers t).Counted).card

/-- **The law.**  The number of the timers is taken in 32 bits. -/
structure TimersRight (s : VosTimers ι) : Prop where
  count : s.persistentTimerCount = UInt32.ofNat (runningWakeApps s)
  once : (s.delivered.map fun d => (d.timer, d.start)).Nodup
  not_ended : ∀ d ∈ s.delivered, d.ended = false
  not_misused : s.misused = false

end Law

def Delivers (tm : VosTimer) (enqueued : Bool) : Prop :=
  tm.state = .running ∧ tm.callback ≠ none ∧ enqueued = true

/-- **The condition.** -/
def TimerEventOk (s : VosTimers ι) : TimerEvent ι → Prop
  | .init t _ callback _ ptimerNode => callback ≠ none → ptimerNode = true →
      (s.timers t).timer = none ∧ ¬(s.timers t).Counted
  | .start .. => True
  | .stop _ => True
  | .destroy t => (s.timers t).cookie = linuxTimerCookie → ¬(s.timers t).Counted
  | .expire _ => True
  | .handle t enqueued => Delivers (s.timers t) enqueued →
      ∀ start ∈ (s.timers t).expired, (s.timers t).endedTo ≤ start

instance (s : VosTimers ι) : (e : TimerEvent ι) → Decidable (TimerEventOk s e)
  | .init .. => inferInstanceAs (Decidable (_ → _ → _))
  | .start .. => .isTrue trivial
  | .stop _ => .isTrue trivial
  | .destroy _ => inferInstanceAs (Decidable (_ → _))
  | .expire _ => .isTrue trivial
  | .handle t _ => inferInstanceAs (Decidable (_ ∧ _ ∧ _ → ∀ start ∈ (s.timers t).expired, _))

/-- The kernel has a timer to take for expired, or a handler to run. -/
def TimerEvent.Allowed (s : VosTimers ι) : TimerEvent ι → Prop
  | .expire t => (s.timers t).timer ≠ none ∧ (s.timers t).expired = none
  | .handle t _ => (s.timers t).expired ≠ none
  | _ => True

/-! ### The count -/

@[simp] theorem timers_set_self (s : VosTimers ι) (t : ι) (tm : VosTimer) :
    (s.set t tm).timers t = tm := update_self ..

theorem timers_set_of_ne {t u : ι} (h : u ≠ t) (s : VosTimers ι) (tm : VosTimer) :
    (s.set t tm).timers u = s.timers u := update_of_ne h ..

omit [DecidableEq ι] in
theorem delivered_tryAllowingSleep (s : VosTimers ι) (type : VosTimerType) :
    (tryAllowingSleep s type).delivered = s.delivered := by
  rw [tryAllowingSleep]
  split_ifs <;> rfl

omit [DecidableEq ι] in
theorem timers_tryAllowingSleep (s : VosTimers ι) (type : VosTimerType) :
    (tryAllowingSleep s type).timers = s.timers := by
  rw [tryAllowingSleep]
  split_ifs <;> rfl

section Count

variable [Fintype ι] {s : VosTimers ι} {t : ι} {tm : VosTimer}

theorem runningWakeApps_set (s : VosTimers ι) (t : ι) (tm : VosTimer) :
    runningWakeApps (s.set t tm) + (if (s.timers t).Counted then 1 else 0) =
      runningWakeApps s + if tm.Counted then 1 else 0 := by
  have hothers : ∀ u ∈ Finset.univ.erase t, (if ((s.set t tm).timers u).Counted then 1 else 0) =
        if (s.timers u).Counted then 1 else 0 := by
    intro u hu
    rw [timers_set_of_ne (Finset.ne_of_mem_erase hu)]
  rw [runningWakeApps, runningWakeApps, Finset.card_filter, Finset.card_filter,
    ← Finset.add_sum_erase _ _ (Finset.mem_univ t), Finset.sum_congr rfl hothers, timers_set_self,
    ← Finset.add_sum_erase Finset.univ (fun u => if (s.timers u).Counted then 1 else 0)
      (Finset.mem_univ t)]
  omega

theorem runningWakeApps_same (h : tm.Counted ↔ (s.timers t).Counted) :
    runningWakeApps (s.set t tm) = runningWakeApps s := by
  have := runningWakeApps_set s t tm
  rw [if_congr h rfl rfl] at this
  exact Nat.add_right_cancel this

theorem runningWakeApps_on (h : ¬(s.timers t).Counted) (h' : tm.Counted) :
    runningWakeApps (s.set t tm) = runningWakeApps s + 1 := by
  have := runningWakeApps_set s t tm
  rwa [if_neg h, if_pos h'] at this

theorem runningWakeApps_off (h : (s.timers t).Counted) (h' : ¬tm.Counted) :
    runningWakeApps (s.set t tm) + 1 = runningWakeApps s := by
  have := runningWakeApps_set s t tm
  rwa [if_pos h, if_neg h'] at this

theorem ofNat_succ_ne (n : Nat) : UInt32.ofNat (n + 1) ≠ UInt32.ofNat n := by
  intro h
  have := congrArg UInt32.toNat h
  rw [UInt32.toNat_ofNat', UInt32.toNat_ofNat'] at this
  omega

end Count

/-! ### One timer -/

section OneTimer

variable {s : VosTimers ι} {tm tm' : VosTimer} {n : Nat}

/-- The starts of a timer that are still to lead to something come after one another. -/
structure VosTimer.Ordered (tm : VosTimer) : Prop where
  timer : ∀ i ∈ tm.timer, i < tm.starts
  expired : ∀ j ∈ tm.expired, j < tm.starts
  expired_timer : ∀ j ∈ tm.expired, ∀ i ∈ tm.timer, j < i

/-- A start is over, and those that are still to lead to something came after it. -/
structure VosTimer.Over (tm : VosTimer) (n : Nat) : Prop where
  started : n < tm.starts
  timer : ∀ i ∈ tm.timer, n < i
  expired : ∀ j ∈ tm.expired, n < j

structure VosTimer.Advances (tm tm' : VosTimer) : Prop where
  ordered : tm.Ordered → tm'.Ordered
  stays : ∀ n, tm.Over n → tm'.Over n

theorem VosTimer.Advances.of_le (hs : tm'.starts = tm.starts)
    (ht : tm'.timer = tm.timer ∨ tm'.timer = none)
    (he : tm'.expired = tm.expired ∨ tm'.expired = none) : tm.Advances tm' := by
  have htimer : ∀ i ∈ tm'.timer, i ∈ tm.timer := by
    intro i hi
    rcases ht with ht | ht
    · exact ht ▸ hi
    · rw [ht] at hi
      cases hi
  have hexpired : ∀ j ∈ tm'.expired, j ∈ tm.expired := by
    intro j hj
    rcases he with he | he
    · exact he ▸ hj
    · rw [he] at hj
      cases hj
  constructor
  · intro h
    refine ⟨fun i hi => ?_, fun j hj => ?_, fun j hj i hi => ?_⟩
    · exact hs ▸ h.timer i (htimer i hi)
    · exact hs ▸ h.expired j (hexpired j hj)
    · exact h.expired_timer j (hexpired j hj) i (htimer i hi)
  · intro n h
    refine ⟨hs ▸ h.started, fun i hi => ?_, fun j hj => ?_⟩
    · exact h.timer i (htimer i hi)
    · exact h.expired j (hexpired j hj)

theorem VosTimer.Advances.of_start (hs : tm'.starts = tm.starts + 1)
    (ht : tm'.timer = some tm.starts) (he : tm'.expired = tm.expired) : tm.Advances tm' := by
  constructor
  · intro h
    refine ⟨fun i hi => ?_, fun j hj => ?_, fun j hj i hi => ?_⟩
    · rw [ht] at hi
      cases hi
      omega
    · rw [he] at hj
      have := h.expired j hj
      omega
    · rw [ht] at hi
      cases hi
      rw [he] at hj
      exact h.expired j hj
  · intro n h
    refine ⟨?_, fun i hi => ?_, fun j hj => ?_⟩
    · have := h.started
      omega
    · rw [ht] at hi
      cases hi
      exact h.started
    · rw [he] at hj
      exact h.expired j hj

theorem VosTimer.Advances.of_expire (hs : tm'.starts = tm.starts) {i : Nat}
    (hi : tm.timer = some i) (ht : tm'.timer = none) (he : tm'.expired = some i) :
    tm.Advances tm' := by
  constructor
  · intro h
    refine ⟨fun k hk => ?_, fun j hj => ?_, fun j hj k hk => ?_⟩
    · rw [ht] at hk
      cases hk
    · rw [he] at hj
      cases hj
      exact hs ▸ h.timer i hi
    · rw [ht] at hk
      cases hk
  · intro n h
    refine ⟨hs ▸ h.started, fun k hk => ?_, fun j hj => ?_⟩
    · rw [ht] at hk
      cases hk
    · rw [he] at hj
      cases hj
      exact h.timer i hi

end OneTimer

/-! ### The steps -/

section Steps

variable [Fintype ι] {s s' : VosTimers ι} {t : ι} {tm : VosTimer}

/-- **The invariant.** -/
structure TimersInv (s : VosTimers ι) : Prop extends TimersRight s where
  ordered : ∀ t, (s.timers t).Ordered
  past : ∀ d ∈ s.delivered, (s.timers d.timer).Over d.start

omit [DecidableEq ι] in
theorem VosTimers.Initial.inv (h : s.Initial) : TimersInv s := by
  obtain ⟨hblank, hcount, hdel, hmis⟩ := h
  have hnone : (Finset.univ.filter fun t => (s.timers t).Counted) = ∅ := by
    ext t
    simp only [Finset.mem_filter, Finset.notMem_empty, iff_false, not_and]
    exact fun _ hc => (hblank t).2.1 hc.1
  refine {
    count := by rw [hcount, runningWakeApps, hnone]; rfl
    once := by rw [hdel]; exact nodup_nil
    not_ended := by rw [hdel]; exact nofun
    not_misused := hmis
    ordered := fun t => ?_
    past := by rw [hdel]; exact nofun }
  obtain ⟨-, -, ht, he⟩ := hblank t
  constructor
  · rw [ht]
    exact nofun
  · rw [he]
    exact nofun
  · rw [he]
    exact nofun

theorem TimersInv.advance (h : TimersInv s) (ha : (s.timers t).Advances tm) {c : UInt32}
    (hc : c = UInt32.ofNat (runningWakeApps (s.set t tm))) :
    TimersInv { s.set t tm with persistentTimerCount := c } where
  count := hc
  once := h.once
  not_ended := h.not_ended
  not_misused := h.not_misused
  ordered := by
    intro u
    by_cases hu : u = t
    · subst hu
      exact (timers_set_self s u tm).symm ▸ ha.ordered (h.ordered u)
    · exact (timers_set_of_ne hu s tm).symm ▸ h.ordered u
  past := by
    intro d hd
    have hover := h.past d hd
    by_cases hu : d.timer = t
    · subst hu
      exact (timers_set_self s d.timer tm).symm ▸ ha.stays _ hover
    · exact (timers_set_of_ne hu s tm).symm ▸ hover

theorem TimersInv.advance_same (h : TimersInv s) (ha : (s.timers t).Advances tm)
    (hsame : tm.Counted ↔ (s.timers t).Counted) : TimersInv (s.set t tm) :=
  h.advance ha (c := s.persistentTimerCount) (by rw [runningWakeApps_same hsame]; exact h.count)

theorem TimersInv.advance_off (h : TimersInv s) (ha : (s.timers t).Advances tm)
    (hrun : (s.timers t).state = .running) (hstop : tm.state ≠ .running) :
    TimersInv (tryAllowingSleep (s.set t tm) (s.timers t).type) := by
  have hnot : ¬tm.Counted := fun hc => hstop hc.1
  rw [tryAllowingSleep]
  split_ifs with htype
  · refine h.advance ha ?_
    have hoff := runningWakeApps_off ⟨hrun, htype⟩ hnot
    have hcount := h.count
    rw [← hoff, UInt32.ofNat_add] at hcount
    rw [show (s.set t tm).persistentTimerCount = s.persistentTimerCount from rfl, hcount]
    exact UInt32.add_sub_cancel _ _
  · exact h.advance_same ha (iff_of_false hnot fun hc => htype hc.2)

theorem TimersInv.not_count (h : TimersInv s) (hrun : (s.timers t).Counted)
    (hstop : tm.state ≠ .running) :
    s.persistentTimerCount ≠ UInt32.ofNat (runningWakeApps (s.set t tm)) := by
  have hoff := @runningWakeApps_off ι _ _ s t tm hrun fun hc => hstop hc.1
  rw [h.count, ← hoff]
  exact ofNat_succ_ne _

/-- `vos_timer_start` keeps the law. -/
theorem TimersInv.start (h : TimersInv s) (t : ι) (expirationTime : UInt32) (pid : Nat) :
    TimersInv (vosTimerStart s t expirationTime pid).2 := by
  rw [vosTimerStart]
  split_ifs with hcookie htime hstate htype
  · exact h
  · exact h
  · exact h
  · rw [not_not] at hstate
    have hnot : ¬(s.timers t).Counted := by
      rintro ⟨hrun, -⟩
      rw [hstate] at hrun
      cases hrun
    have hon := fun tm hc => @runningWakeApps_on ι _ _ s t tm hnot hc
    refine h.advance ?_ ?_
    · exact .of_start rfl rfl rfl
    · refine Eq.trans ?_ (congrArg UInt32.ofNat (hon _ (by exact ⟨rfl, htype⟩)).symm)
      rw [UInt32.ofNat_add, ← h.count]
      rfl
  · rw [not_not] at hstate
    refine h.advance_same ?_ ?_
    · exact .of_start rfl rfl rfl
    · exact iff_of_false (fun hc => htype hc.2) fun hc => htype hc.2

/-- `vos_timer_stop` keeps the law. -/
theorem TimersInv.stop (h : TimersInv s) (t : ι) : TimersInv (vosTimerStop s t).2 := by
  rw [vosTimerStop]
  split_ifs with hcookie hstate
  · exact h
  · exact h.advance_same (.of_le rfl (.inl rfl) (.inl rfl)) Iff.rfl
  · rw [not_not] at hstate
    exact h.advance_off (.of_le rfl (.inr rfl) (.inl rfl)) hstate nofun

/-- `vos_timer_destroy` keeps the law unless the timer is counted. -/
theorem TimersInv.destroy (h : TimersInv s) (t : ι) :
    (TimersRight (vosTimerDestroy s t).2 ↔ TimerEventOk s (.destroy t)) ∧
      (TimerEventOk s (.destroy t) → TimersInv (vosTimerDestroy s t).2) := by
  rw [TimerEventOk, vosTimerDestroy]
  by_cases hcookie : (s.timers t).cookie = linuxTimerCookie
  · rw [if_neg (not_not.2 hcookie)]
    simp only [hcookie, forall_const]
    cases hstate : (s.timers t).state with
    | starting =>
      have hnot : ¬(s.timers t).Counted := by simp [VosTimer.Counted, hstate]
      exact ⟨⟨fun _ => hnot, fun _ => h.toTimersRight⟩, fun _ => h⟩
    | unused =>
      have hnot : ¬(s.timers t).Counted := by simp [VosTimer.Counted, hstate]
      exact ⟨⟨fun _ => hnot, fun _ => h.toTimersRight⟩, fun _ => h⟩
    | stopped =>
      have hnot : ¬(s.timers t).Counted := by simp [VosTimer.Counted, hstate]
      have hinv : TimersInv (s.set t
          { (s.timers t).ended with
            cookie := linuxInvalidTimerCookie
            state := .unused }) := by
        refine h.advance_same (.of_le rfl (.inl rfl) (.inl rfl)) (iff_of_false ?_ hnot)
        simp [VosTimer.Counted]
      exact ⟨⟨fun _ => hnot, fun _ => hinv.toTimersRight⟩, fun _ => hinv⟩
    | running =>
      have hinv : ¬(s.timers t).Counted → TimersInv (s.set t
          { ({ s.timers t with timer := none } : VosTimer).ended with
            cookie := linuxInvalidTimerCookie
            state := .unused }) := by
        intro hnot
        refine h.advance_same (.of_le rfl (.inr rfl) (.inl rfl)) (iff_of_false ?_ hnot)
        simp [VosTimer.Counted]
      refine ⟨⟨fun hr hc => ?_, fun hnot => (hinv hnot).toTimersRight⟩, hinv⟩
      exact h.not_count hc (by simp) hr.count
  · rw [if_pos hcookie]
    exact ⟨⟨fun _ hc => absurd hc hcookie, fun _ => h.toTimersRight⟩, fun _ => h⟩

/-- `vos_timer_init` keeps the law unless the timer is set or counted. -/
theorem TimersInv.init (h : TimersInv s) (t : ι) (timerType : VosTimerType)
    (callback : Option Nat) (userData : Nat) (ptimerNode : Bool) :
    (TimersRight (vosTimerInit s t timerType callback userData ptimerNode).2 ↔
        TimerEventOk s (.init t timerType callback userData ptimerNode)) ∧
      (TimerEventOk s (.init t timerType callback userData ptimerNode) →
        TimersInv (vosTimerInit s t timerType callback userData ptimerNode).2) := by
  rw [TimerEventOk, vosTimerInit]
  by_cases hnull : callback = none
  · rw [if_pos hnull]
    exact ⟨⟨fun _ hc => absurd hnull hc, fun _ => h.toTimersRight⟩, fun _ => h⟩
  cases ptimerNode with
  | false =>
    rw [if_neg hnull]
    exact ⟨⟨fun _ _ => nofun, fun _ => h.toTimersRight⟩, fun _ => h⟩
  | true =>
    rw [if_neg hnull, Bool.not_true, if_neg Bool.false_ne_true]
    simp only [ne_eq, hnull, not_false_eq_true, forall_const]
    have hmis : s.misused = false := h.not_misused
    have hinv : (s.timers t).timer = none ∧ ¬(s.timers t).Counted → TimersInv ((initTimer s t).set t
          { s.timers t with
            callback := callback
            userData := userData
            type := timerType
            cookie := linuxTimerCookie
            threadId := 0
            state := .stopped }) := by
      rintro ⟨htimer, hnot⟩
      have hsame : initTimer s t = s := by
        rw [initTimer, htimer, isSome_none, Bool.or_false]
      rw [hsame]
      refine h.advance_same (.of_le rfl (.inl rfl) (.inl rfl)) (iff_of_false ?_ hnot)
      simp [VosTimer.Counted]
    refine ⟨⟨fun hr => ⟨?_, fun hc => ?_⟩, fun hok => (hinv hok).toTimersRight⟩, hinv⟩
    · have := hr.not_misused
      simpa [initTimer, VosTimers.set, hmis] using this
    · exact h.not_count hc (by simp) hr.count

theorem TimersInv.expire (h : TimersInv s) {start : Nat} (ht : (s.timers t).timer = some start) :
    TimersInv (expireTimer s t start) :=
  h.advance_same (.of_expire rfl ht rfl rfl) Iff.rfl

omit [DecidableEq ι] in
theorem TimersInv.deliver (h : TimersInv s) {start : Nat} (hover : (s.timers t).Over start)
    (hnew : ∀ d ∈ s.delivered, d.timer = t → d.start ≠ start) (enqueued : Bool) :
    (TimersRight (deliver s t tm start enqueued) ↔
        (tm.callback ≠ none ∧ enqueued = true → tm.endedTo ≤ start)) ∧
      ((tm.callback ≠ none ∧ enqueued = true → tm.endedTo ≤ start) →
        TimersInv (deliver s t tm start enqueued)) := by
  rw [Vos.deliver]
  cases hcb : tm.callback with
  | none => exact ⟨⟨fun _ hc => absurd rfl hc.1, fun _ => h.toTimersRight⟩, fun _ => h⟩
  | some callback =>
    cases enqueued with
    | false => exact ⟨⟨fun _ hc => absurd hc.2 Bool.false_ne_true, fun _ => h.toTimersRight⟩, fun _ => h⟩
    | true =>
      simp only [ne_eq, reduceCtorEq, not_false_eq_true, and_self, forall_const, if_true]
      have hnodup : ((s.delivered ++ [(⟨t, start, start < tm.endedTo, callback, tm.userData,
          tm.threadId⟩ : Delivery ι)]).map fun d => (d.timer, d.start)).Nodup := by
        rw [map_append, nodup_append]
        refine ⟨h.once, nodup_singleton _, ?_⟩
        rintro p hp q hq rfl
        obtain ⟨d, hd, rfl⟩ := mem_map.1 hp
        obtain ⟨ht, hs⟩ := Prod.mk.inj (mem_singleton.1 hq)
        exact hnew d hd ht hs
      have hinv : tm.endedTo ≤ start → TimersInv { s with
          delivered := s.delivered ++ [⟨t, start, start < tm.endedTo, callback, tm.userData,
            tm.threadId⟩] } := by
        intro hle
        refine { h with
          count := h.count
          once := hnodup
          not_ended := ?_
          past := ?_ }
        · intro d hd
          rcases mem_append.1 hd with hd | hd
          · exact h.not_ended d hd
          · rw [mem_singleton.1 hd]
            exact decide_eq_false (not_lt.2 hle)
        · intro d hd
          rcases mem_append.1 hd with hd | hd
          · exact h.past d hd
          · rw [mem_singleton.1 hd]
            exact hover
      refine ⟨⟨fun hr => ?_, fun hle => (hinv hle).toTimersRight⟩, hinv⟩
      have := hr.not_ended _ (mem_append_right _ (mem_singleton_self _))
      exact not_lt.1 (of_decide_eq_false this)

/-- The handler keeps the law unless it finds the timer running, and the start it comes from has been stopped or the timer destroyed since. -/
theorem TimersInv.handle (h : TimersInv s) {start : Nat} (he : (s.timers t).expired = some start)
    (enqueued : Bool) :
    (TimersRight (vosLinuxTimerCallback s t start enqueued) ↔ TimerEventOk s (.handle t enqueued)) ∧
      (TimerEventOk s (.handle t enqueued) →
        TimersInv (vosLinuxTimerCallback s t start enqueued)) := by
  have hok : TimerEventOk s (.handle t enqueued) ↔
      (Delivers (s.timers t) enqueued → (s.timers t).endedTo ≤ start) := by
    simp [TimerEventOk, he]
  rw [hok, vosLinuxTimerCallback]
  dsimp only
  have hquiet : ∀ tm : VosTimer, (s.timers t).Advances tm → (s.timers t).state ≠ .running →
      tm.state ≠ .running →
      (TimersRight (s.set t tm) ↔ (Delivers (s.timers t) enqueued → (s.timers t).endedTo ≤ start)) ∧
      ((Delivers (s.timers t) enqueued → (s.timers t).endedTo ≤ start) →
        TimersInv (s.set t tm)) := by
    intro tm ha hs ht
    have hinv : TimersInv (s.set t tm) :=
      h.advance_same ha (iff_of_false (fun hc => ht hc.1) fun hc => hs hc.1)
    exact ⟨⟨fun _ hd => absurd hd.1 hs, fun _ => hinv.toTimersRight⟩, fun _ => hinv⟩
  cases hstate : (s.timers t).state with
  | starting => exact hquiet _ (.of_le rfl (.inl rfl) (.inr rfl)) (by simp [hstate]) (by simp)
  | stopped => exact hquiet _ (.of_le rfl (.inl rfl) (.inr rfl)) (by simp [hstate]) (by simp)
  | unused => exact hquiet _ (.of_le rfl (.inl rfl) (.inr rfl)) (by simp [hstate]) (by simp)
  | running =>
    have hinv : TimersInv (tryAllowingSleep (s.set t
        { s.timers t with
          expired := none
          state := .stopped }) (s.timers t).type) :=
      h.advance_off (.of_le rfl (.inl rfl) (.inr rfl)) hstate nofun
    have hord := h.ordered t
    have hdeliver := fun hover hnew =>
      @deliver ι _ _ t { s.timers t with expired := none } hinv start hover hnew enqueued
    rw [Delivers]
    simp only [hstate, true_and]
    refine hdeliver ?_ ?_
    · rw [timers_tryAllowingSleep, timers_set_self]
      exact ⟨hord.expired start he, fun i hi => hord.expired_timer start he i hi, nofun⟩
    · rw [delivered_tryAllowingSleep]
      intro d hd ht hs
      subst ht
      have := (h.past d hd).expired start he
      omega

/-- **A step** keeps the law exactly if it meets the condition. -/
theorem timerStep_right_iff {e : TimerEvent ι} (h : TimersInv s) (hs : timerStep s e = some s') :
    (TimersRight s' ↔ TimerEventOk s e) ∧ (TimerEventOk s e → TimersInv s') := by
  have hkeeps : TimersInv s' → TimerEventOk s e → 
      (TimersRight s' ↔ TimerEventOk s e) ∧ (TimerEventOk s e → TimersInv s') :=
    fun hinv hok => ⟨iff_of_true hinv.toTimersRight hok, fun _ => hinv⟩
  cases e with
  | init t timerType callback userData ptimerNode =>
    cases hs
    exact h.init t timerType callback userData ptimerNode
  | start t expirationTime pid =>
    cases hs
    exact hkeeps (h.start t expirationTime pid) trivial
  | stop t =>
    cases hs
    exact hkeeps (h.stop t) trivial
  | destroy t =>
    cases hs
    exact h.destroy t
  | expire t =>
    rw [timerStep] at hs
    cases ht : (s.timers t).timer with
    | none => simp [ht] at hs
    | some start =>
      cases he : (s.timers t).expired with
      | some j => simp [ht, he] at hs
      | none =>
        rw [ht, he] at hs
        cases hs
        exact hkeeps (h.expire ht) trivial
  | handle t enqueued =>
    rw [timerStep, map_eq_some_iff] at hs
    obtain ⟨start, he, rfl⟩ := hs
    exact h.handle he enqueued

omit [Fintype ι] in
theorem timerStep_total {e : TimerEvent ι} (ha : e.Allowed s) : ∃ s', timerStep s e = some s' := by
  cases e with
  | init t timerType callback userData ptimerNode => exact ⟨_, rfl⟩
  | start t expirationTime pid => exact ⟨_, rfl⟩
  | stop t => exact ⟨_, rfl⟩
  | destroy t => exact ⟨_, rfl⟩
  | expire t =>
    obtain ⟨start, ht⟩ := ne_none_iff_exists'.1 ha.1
    exact ⟨_, by rw [timerStep, ht, ha.2]⟩
  | handle t enqueued =>
    obtain ⟨start, he⟩ := ne_none_iff_exists'.1 ha
    exact ⟨_, by rw [timerStep, he, map_some]⟩

theorem reach_timersInv (hs : (timerMachine ι).Reach TimerEventOk s) : TimersInv s :=
  hs.invariant TimersInv (fun _ => VosTimers.Initial.inv)
    fun _ _ _ h hok hstep => (timerStep_right_iff h hstep).2 hok

/-- **The timers.**  As long as every step meets the condition the law holds; and every step can be taken then, and keeps the law exactly if it meets the condition. -/
theorem vos_timers_iff (s : VosTimers ι) (hs : (timerMachine ι).Reach TimerEventOk s) :
    TimersRight s ∧ ∀ e : TimerEvent ι, e.Allowed s →
      ∃ s', (timerMachine ι).step s e = some s' ∧ (TimersRight s' ↔ TimerEventOk s e) := by
  have h := reach_timersInv hs
  refine ⟨h.toTimersRight, fun e ha => ?_⟩
  obtain ⟨s', hstep⟩ := timerStep_total ha
  exact ⟨s', hstep, (timerStep_right_iff h hstep).1⟩

end Steps

def blankTimers : VosTimers (Fin 2) where
  timers _ := ⟨none, 0, .sw, .unused, 0, 0, none, none, 0, 0⟩
  persistentTimerCount := 0
  delivered := []
  misused := false

theorem blankTimers_initial : blankTimers.Initial :=
  ⟨fun _ => ⟨show (0 : UInt32) ≠ linuxTimerCookie by decide, nofun, rfl, rfl⟩, rfl, rfl, rfl⟩

/-- **A running timer is destroyed**, and still counted.  And **a timer is stopped when its handler is to come, and started again**: the handler finds it running, and the callback of the start that was stopped is delivered. -/
theorem destroyed_timer_stays_counted :
    (∃ s, (timerMachine (Fin 2)).run blankTimers [.init 0 .wakeApps (some 1) 0 true,
        .start 0 100 7, .destroy 0] = some s ∧ s.persistentTimerCount = 1 ∧
      runningWakeApps s = 0 ∧ ¬TimersRight s) ∧
    ∃ s, (timerMachine (Fin 2)).run blankTimers [.init 0 .sw (some 1) 0 true, .start 0 100 7,
        .expire 0, .stop 0, .start 0 100 7, .handle 0 true] = some s ∧
      s.delivered.map Delivery.ended = [true] ∧ ¬TimersRight s := by
  constructor
  · refine Machine.exists_run_of (q := fun s =>
      s.persistentTimerCount = 1 ∧ runningWakeApps s = 0) (by decide +kernel) ?_
    rintro s ⟨hcount, hrunning⟩
    refine ⟨hcount, hrunning, fun hr => ?_⟩
    have := hr.count
    rw [hcount, hrunning] at this
    exact absurd this (by decide)
  · refine Machine.exists_run_of (q := fun s => s.delivered.map Delivery.ended = [true])
      (by decide +kernel) fun s hended => ⟨hended, fun hr => ?_⟩
    obtain ⟨d, hd, hd'⟩ := mem_map.1 (hended ▸ mem_singleton_self true)
    rw [hr.not_ended d hd] at hd'
    cases hd'

/-- Two timers run; one is stopped while its handler is to come, the other calls back and is destroyed. -/
theorem vos_timers_iff_calledBack :
    ∃ s, (timerMachine (Fin 2)).run blankTimers [.init 0 .wakeApps (some 1) 0 true,
        .init 1 .wakeApps (some 2) 5 true, .start 0 100 7, .start 1 100 7, .expire 0, .stop 0,
        .expire 1, .handle 1 true, .handle 0 true, .destroy 1] = some s ∧
      TimersRight s ∧ s.delivered.map Delivery.callback = [2] :=
  Machine.exists_right (fun s hs => (vos_timers_iff s hs).1) blankTimers_initial
    (by decide +kernel) (by decide +kernel)

end Qcacld.Vos

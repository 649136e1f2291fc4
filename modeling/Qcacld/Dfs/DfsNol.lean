import Mathlib.Algebra.Group.Nat.Defs
import Mathlib.Data.List.Nodup
import Mathlib.Data.Nat.Basic
import Mathlib.Order.Basic
import Qcacld.Support.Runs

/-!
# Dfs — DfsNol

The non-occupancy list: the frequencies a radar has been seen on, each with a timer that takes it off the list, and an argument of the timer that says what it is to take off.

`NolRight` says what is to hold of the three, and `nol_iff` which steps keep it.  A timer that fires in a mode other than that of an access point or an IBSS frees its argument and leaves the entry; the argument has 16 bits for a frequency of 32; the milliseconds of a timeout are cut to 32 bits, and the time that is left of an old entry to whole seconds; and the clean-up frees the entries, but not the arguments.

The unit of time is a millisecond.
-/

namespace Qcacld.Dfs
open Qcacld.Support Function List Option

/-- `enum ieee80211_opmode` -/
inductive IcOpmode where
  | ibss
  | sta
  | wds
  | ahdemo
  | hostap
  | monitor
  | btamp
  | p2pGo
  | p2pClient
  | p2pDevice
  | any
deriving DecidableEq

/-- `struct dfs_nol_timer_arg` -/
structure DfsNolTimerArg where
  delfreq : UInt16
  delchwidth : UInt16

/-- `struct dfs_nolelem`.  Of the timer there is the time it is set for, and the argument it has been given. -/
structure DfsNolelem where
  nolFreq : UInt32
  nolChwidth : UInt32
  nolStartTicks : Nat
  nolTimeoutMs : UInt32
  nolTimer : Option Nat
  timerArg : Nat

open DfsNolelem

/-- `struct dfsreq_nolelem` -/
structure DfsreqNolelem where
  nolFreq : UInt16
  nolChwidth : UInt16
  nolStartTicks : Nat
  nolTimeoutMs : UInt32

/-- The list, and the timer arguments.  `argFrees` says how often each has been freed, `argUsedFreed` whether one has been read after that, `elemsFreed` whether the entries have been freed; `requested` is the time until which a frequency was last asked to be listed. -/
structure DfsNol where
  dfsNol : List DfsNolelem
  dfsNolCount : Int
  nolArg : Nat → DfsNolTimerArg
  argsAllocated : Nat
  argFrees : Nat → Nat
  argUsedFreed : Bool
  elemsFreed : Bool
  now : Nat
  requested : UInt32 → Nat

def timeInMs : UInt32 := 1000

def chWidth : UInt32 := 20

namespace DfsNolelem

def Is (nol : DfsNolelem) (freq chwidth : UInt32) : Prop :=
  nol.nolFreq = freq ∧ nol.nolChwidth = chwidth
deriving Decidable

def restart (nol : DfsNolelem) (now : Nat) (timeoutMs : UInt32) : DfsNolelem :=
  { nol with
    nolStartTicks := now
    nolTimeoutMs := timeoutMs
    nolTimer := some (now + timeoutMs.toNat) }

end DfsNolelem

/-- The loop of `dfs_nol_addchan`: the first entry of the frequency is restarted; `none` when there is none. -/
def restartNol (icFreq : UInt32) (now : Nat) (timeoutMs : UInt32) :
    List DfsNolelem → Option (List DfsNolelem)
  | [] => none
  | nol :: rest =>
    if nol.Is icFreq chWidth then some (nol.restart now timeoutMs :: rest)
    else (restartNol icFreq now timeoutMs rest).map (nol :: ·)

def newNolelem (icFreq : UInt32) (now : Nat) (timeoutMs : UInt32) (arg : Nat) : DfsNolelem where
  nolFreq := icFreq
  nolChwidth := chWidth
  nolStartTicks := now
  nolTimeoutMs := timeoutMs
  nolTimer := some (now + timeoutMs.toNat)
  timerArg := arg

/-- `dfs_nol_addchan`, with what the two allocations come to.  `asked` is for the history: until when the frequency is asked to be listed. -/
def dfsNolAddchan (s : DfsNol) (icFreq dfsNolTimeout : UInt32) (elem dfsNolArg : Bool)
    (asked : Nat) : DfsNol :=
  match restartNol icFreq s.now (dfsNolTimeout * timeInMs) s.dfsNol with
  | some l =>
    { s with
      dfsNol := l
      requested := update s.requested icFreq asked }
  | none =>
    if elem && dfsNolArg then
      { s with
        dfsNol := s.dfsNol ++ [newNolelem icFreq s.now (dfsNolTimeout * timeInMs) s.argsAllocated]
        nolArg := update s.nolArg s.argsAllocated ⟨icFreq.toUInt16, chWidth.toUInt16⟩
        argsAllocated := s.argsAllocated + 1
        dfsNolCount := s.dfsNolCount + 1
        requested := update s.requested icFreq asked }
    else s

/-- The loop of `dfs_nol_delete`, with the count. -/
def nolDelete (delfreq delchwidth : UInt16) : List DfsNolelem → Int → List DfsNolelem × Int
  | [], count => ([], count)
  | nol :: rest, count =>
    if nol.Is delfreq.toUInt32 delchwidth.toUInt32 then
      nolDelete delfreq delchwidth rest (if count - 1 < 0 then 0 else count - 1)
    else
      let r := nolDelete delfreq delchwidth rest count
      (nol :: r.1, r.2)

def dfsNolDelete (s : DfsNol) (delfreq delchwidth : UInt16) : DfsNol :=
  { s with
    dfsNol := (nolDelete delfreq delchwidth s.dfsNol s.dfsNolCount).1
    dfsNolCount := (nolDelete delfreq delchwidth s.dfsNol s.dfsNolCount).2 }

/-- `OS_FREE` of a timer argument. -/
def freeNolArg (s : DfsNol) (arg : Nat) : DfsNol :=
  { s with argFrees := update s.argFrees arg (s.argFrees arg + 1) }

/-- A timer has fired: it is not set any more, and its argument is read. -/
def fireNol (s : DfsNol) (arg : Nat) : DfsNol :=
  { s with
    dfsNol := s.dfsNol.map fun nol => if nol.timerArg = arg then { nol with nolTimer := none } else nol
    argUsedFreed := s.argUsedFreed || s.argFrees arg != 0 }

def dfsRemoveFromNol (s : DfsNol) (arg : Nat) (icOpmode : IcOpmode) : DfsNol :=
  let nolArg := s.nolArg arg
  let s := fireNol s arg
  if icOpmode ≠ .hostap ∧ icOpmode ≠ .ibss then freeNolArg s arg
  else freeNolArg (dfsNolDelete s nolArg.delfreq nolArg.delchwidth) arg

/-- `dfs_nol_timer_cleanup`.  The list is left as it was, with its entries freed. -/
def dfsNolTimerCleanup (s : DfsNol) : DfsNol :=
  { s with
    dfsNol := s.dfsNol.map fun nol => { nol with nolTimer := none }
    elemsFreed := !s.dfsNol.isEmpty }

/-- The milliseconds since the start of an element of `dfs_set_nol`, in 32 bits. -/
def nolElapsed (s : DfsNol) (e : DfsreqNolelem) : UInt32 := UInt32.ofNat (s.now - e.nolStartTicks)

/-- One turn of the loop of `dfs_set_nol`. -/
def setNolElem (s : DfsNol) (e : DfsreqNolelem) (elem dfsNolArg : Bool) : DfsNol :=
  if nolElapsed s e < e.nolTimeoutMs then
    dfsNolAddchan s e.nolFreq.toUInt32 ((e.nolTimeoutMs - nolElapsed s e) / timeInMs) elem dfsNolArg
      (e.nolStartTicks + e.nolTimeoutMs.toNat)
  else s

def dfsSetNol (s : DfsNol) (dfsNol : List (DfsreqNolelem × Bool × Bool)) : DfsNol :=
  dfsNol.foldl (fun s e => setNolElem s e.1 e.2.1 e.2.2) s

/-- What is handed out of an entry by `dfs_get_nol`. -/
def DfsNolelem.req (nol : DfsNolelem) : DfsreqNolelem where
  nolFreq := nol.nolFreq.toUInt16
  nolChwidth := nol.nolChwidth.toUInt16
  nolStartTicks := nol.nolStartTicks
  nolTimeoutMs := nol.nolTimeoutMs

def dfsGetNol (s : DfsNol) : List DfsreqNolelem := s.dfsNol.map req

inductive NolEvent where
  | addchan (icFreq dfsNolTimeout : UInt32) (elem dfsNolArg : Bool)
  /-- a turn of `dfs_set_nol` -/
  | setElem (e : DfsreqNolelem) (elem dfsNolArg : Bool)
  | expire (arg : Nat) (icOpmode : IcOpmode)
  | cleanup
  | wait (ms : Nat)

def NolDue (s : DfsNol) (arg : Nat) : Prop :=
  ∃ nol ∈ s.dfsNol, nol.timerArg = arg ∧ ∃ t ∈ nol.nolTimer, t ≤ s.now
deriving Decidable

/-- One event.  A list whose entries have been freed cannot be gone through; a timer fires when it is due, or later; and the elements of `dfs_set_nol` have been started. -/
def nolStep (s : DfsNol) : NolEvent → Option DfsNol
  | .addchan icFreq dfsNolTimeout elem dfsNolArg => do
    guard (s.elemsFreed = false)
    return dfsNolAddchan s icFreq dfsNolTimeout elem dfsNolArg (s.now + dfsNolTimeout.toNat * 1000)
  | .setElem e elem dfsNolArg => do
    guard (s.elemsFreed = false ∧ e.nolStartTicks ≤ s.now)
    return setNolElem s e elem dfsNolArg
  | .expire arg icOpmode => do
    guard (NolDue s arg)
    return dfsRemoveFromNol s arg icOpmode
  | .cleanup => do
    guard (s.elemsFreed = false)
    return dfsNolTimerCleanup s
  | .wait ms => some { s with now := s.now + ms }

/-- `dfs_attach` has been called. -/
def DfsNol.Initial (s : DfsNol) : Prop :=
  s.dfsNol = [] ∧ s.dfsNolCount = 0 ∧ s.argsAllocated = 0 ∧ (∀ a, s.argFrees a = 0) ∧
    s.argUsedFreed = false ∧ s.elemsFreed = false ∧ ∀ f, s.requested f = 0

def nolMachine : Machine DfsNol NolEvent where
  init := DfsNol.Initial
  step := nolStep

/-! ### What is to hold -/

/-- **The law.** -/
structure NolRight (s : DfsNol) : Prop where
  there : s.elemsFreed = false
  unique : (s.dfsNol.map fun nol => (nol.nolFreq, nol.nolChwidth)).Nodup
  count : s.dfsNolCount = s.dfsNol.length
  /-- a frequency is listed until its time, and its timer is not set for earlier -/
  listed : ∀ f, s.now < s.requested f →
    ∃ nol ∈ s.dfsNol, nol.nolFreq = f ∧ ∃ t ∈ nol.nolTimer, s.requested f ≤ t
  /-- an entry whose timer has fired is gone -/
  pending : ∀ nol ∈ s.dfsNol, nol.nolTimer ≠ none
  /-- a timer argument is freed with its entry -/
  freed : ∀ a < s.argsAllocated, a ∈ s.dfsNol.map DfsNolelem.timerArg ∧ s.argFrees a = 0 ∨
    a ∉ s.dfsNol.map DfsNolelem.timerArg ∧ s.argFrees a = 1
  unused : s.argUsedFreed = false

/-- The frequency is listed, or there is memory for an entry. -/
def NolTaken (s : DfsNol) (icFreq : UInt32) (elem dfsNolArg : Bool) : Prop :=
  (∃ nol ∈ s.dfsNol, nol.Is icFreq chWidth) ∨ elem = true ∧ dfsNolArg = true
deriving Decidable

/-- **The condition.** -/
def NolEventOk (s : DfsNol) : NolEvent → Prop
  | .addchan icFreq dfsNolTimeout elem dfsNolArg =>
    NolTaken s icFreq elem dfsNolArg → dfsNolTimeout.toNat * 1000 < 2 ^ 32
  | .setElem e elem dfsNolArg =>
    NolTaken s e.nolFreq.toUInt32 elem dfsNolArg → s.now < e.nolStartTicks + e.nolTimeoutMs.toNat →
      1000 ∣ e.nolStartTicks + e.nolTimeoutMs.toNat - s.now
  | .expire arg icOpmode => (icOpmode = .hostap ∨ icOpmode = .ibss) ∧
    ∀ nol ∈ s.dfsNol, nol.timerArg = arg → nol.nolFreq.toNat < 2 ^ 16
  | .cleanup => s.dfsNol = []
  | .wait _ => True

instance (s : DfsNol) : (e : NolEvent) → Decidable (NolEventOk s e)
  | .addchan .. => inferInstanceAs (Decidable (_ → _))
  | .setElem .. => inferInstanceAs (Decidable (_ → _ → _))
  | .expire .. => inferInstanceAs (Decidable (_ ∧ ∀ nol ∈ s.dfsNol, _))
  | .cleanup => decidable_of_iff (s.dfsNol.isEmpty = true) List.isEmpty_iff
  | .wait _ => .isTrue trivial

/-! ### The entries -/

section
variable {s s' : DfsNol} {l l' pre post : List DfsNolelem} {nol : DfsNolelem} {f t ms : UInt32}
  {now arg asked : Nat} {c : Int} {elem dfsNolArg : Bool}

theorem restartNol_some (h : restartNol f now ms l = some l') :
    ∃ pre nol post, l = pre ++ nol :: post ∧ nol.Is f chWidth ∧
      l' = pre ++ nol.restart now ms :: post := by
  induction l generalizing l' with
  | nil => cases h
  | cons nol rest ih =>
    rw [restartNol] at h
    split at h
    · next his =>
      cases h
      exact ⟨[], nol, rest, rfl, his, rfl⟩
    · obtain ⟨l₁, h₁, rfl⟩ := map_eq_some_iff.1 h
      obtain ⟨pre, nol', post, rfl, his, rfl⟩ := ih h₁
      exact ⟨nol :: pre, nol', post, rfl, his, rfl⟩

theorem restartNol_none : restartNol f now ms l = none ↔ ∀ nol ∈ l, ¬ nol.Is f chWidth := by
  induction l with
  | nil => simp [restartNol]
  | cons nol rest ih =>
    rw [restartNol, forall_mem_cons]
    split
    · next his => simp [his]
    · next his => rw [map_eq_none_iff, ih, and_iff_right his]

theorem nolDelete_fst (del wd : UInt16) : (nolDelete del wd l c).1
    = l.filter fun nol => ¬ nol.Is del.toUInt32 wd.toUInt32 := by
  induction l generalizing c with
  | nil => rfl
  | cons nol rest ih =>
    rw [nolDelete]
    split
    · next his => rw [ih, filter_cons_of_neg (by simpa using his)]
    · next his => rw [filter_cons_of_pos (by simpa using his), ← ih]

/-- The count goes down with every entry that is taken off, as long as it has not come to nothing. -/
theorem nolDelete_snd (del wd : UInt16)
    (hc : (l.countP fun nol => nol.Is del.toUInt32 wd.toUInt32 : Int) ≤ c) :
    (nolDelete del wd l c).2 = c - l.countP fun nol => nol.Is del.toUInt32 wd.toUInt32 := by
  induction l generalizing c with
  | nil => simp [nolDelete]
  | cons nol rest ih =>
    rw [nolDelete]
    split
    · next his =>
      rw [countP_cons_of_pos (by simpa using his)] at hc ⊢
      have hnonneg : ¬ c - 1 < 0 := by omega
      rw [if_neg hnonneg, ih (by omega)]
      omega
    · next his =>
      rw [countP_cons_of_neg (by simpa using his)] at hc ⊢
      exact ih hc

/-- **The invariant.** -/
structure NolInv (s : DfsNol) : Prop extends NolRight s where
  width : ∀ nol ∈ s.dfsNol, nol.nolChwidth = chWidth
  args_nodup : (s.dfsNol.map DfsNolelem.timerArg).Nodup
  args_lt : ∀ nol ∈ s.dfsNol, nol.timerArg < s.argsAllocated
  args_say : ∀ nol ∈ s.dfsNol, s.nolArg nol.timerArg = ⟨nol.nolFreq.toUInt16, chWidth.toUInt16⟩
  args_new : ∀ a, s.argsAllocated ≤ a → s.argFrees a = 0

theorem DfsNol.Initial.inv (h : s.Initial) : NolInv s := by
  obtain ⟨hnol, hcount, hargs, hfrees, hused, hthere, hasked⟩ := h
  constructor
  · constructor
    · exact hthere
    · simp [hnol]
    · simp [hnol, hcount]
    · intro f hf
      rw [hasked] at hf
      exact absurd hf (Nat.not_lt_zero _)
    · simp [hnol]
    · simp [hargs]
    · exact hused
  · simp [hnol]
  · simp [hnol]
  · simp [hnol]
  · simp [hnol]
  · exact fun a _ => hfrees a

theorem NolInv.notMem_freq (h : NolInv s) (hl : s.dfsNol = pre ++ nol :: post) :
    ∀ x ∈ pre ++ post, x.nolFreq ≠ nol.nolFreq := by
  intro x hx he
  have hnodup := h.unique
  have hwx : x.nolChwidth = nol.nolChwidth := by
    rw [h.width x, h.width nol]
    · rw [hl]
      simp
    · rw [hl]
      rcases mem_append.1 hx with hx | hx
      · exact mem_append_left _ hx
      · exact mem_append_right _ (mem_cons_of_mem _ hx)
  rw [hl, map_append, map_cons] at hnodup
  have hnot := (nodup_middle.1 hnodup).notMem
  refine hnot ?_
  rw [← map_append, ← he, ← hwx]
  exact mem_map_of_mem hx

theorem NolInv.notMem_arg (h : NolInv s) (hl : s.dfsNol = pre ++ nol :: post) :
    ∀ x ∈ pre ++ post, x.timerArg ≠ nol.timerArg := by
  intro x hx he
  have hnodup := h.args_nodup
  rw [hl, map_append, map_cons] at hnodup
  refine (nodup_middle.1 hnodup).notMem ?_
  rw [← map_append, ← he]
  exact mem_map_of_mem hx

/-! ### A frequency is added -/

theorem NolInv.restart (h : NolInv s) (hl : s.dfsNol = pre ++ nol :: post) (hf : nol.nolFreq = f)
    (hasked : asked ≤ s.now + ms.toNat) :
    NolInv { s with
      dfsNol := pre ++ nol.restart s.now ms :: post
      requested := update s.requested f asked } := by
  have hmem : ∀ x ∈ pre ++ nol.restart s.now ms :: post,
      x = nol.restart s.now ms ∨ x ∈ s.dfsNol := by
    intro x hx
    rw [hl]
    simp only [mem_append, mem_cons] at hx ⊢
    tauto
  have hnol : nol ∈ s.dfsNol := by simp [hl]
  have hargs : (pre ++ nol.restart s.now ms :: post).map timerArg = s.dfsNol.map timerArg := by
    rw [hl, map_append, map_append]
    rfl
  constructor
  · constructor
    · exact h.there
    · have hunique := h.unique
      rw [hl, map_append] at hunique
      rw [map_append]
      exact hunique
    · have hcount := h.count
      rw [hl] at hcount
      simpa using hcount
    · intro f' hf'
      dsimp only at hf' ⊢
      by_cases he : f' = f
      · subst he
        rw [update_self]
        exact ⟨nol.restart s.now ms, by simp, hf, _, rfl, hasked⟩
      · rw [update_of_ne he] at hf' ⊢
        obtain ⟨x, hx, hxf, hxt⟩ := h.listed f' hf'
        have hne : x ≠ nol := by
          rintro rfl
          exact he (hxf.symm.trans hf)
        rw [hl] at hx
        refine ⟨x, ?_, hxf, hxt⟩
        simp only [mem_append, mem_cons] at hx ⊢
        tauto
    · intro x hx
      rcases hmem x hx with rfl | hx
      · exact fun e => nomatch e
      · exact h.pending x hx
    · rw [hargs]
      exact h.freed
    · exact h.unused
  · intro x hx
    rcases hmem x hx with rfl | hx
    · exact h.width nol hnol
    · exact h.width x hx
  · exact hargs ▸ h.args_nodup
  · intro x hx
    rcases hmem x hx with rfl | hx
    · exact h.args_lt nol hnol
    · exact h.args_lt x hx
  · intro x hx
    rcases hmem x hx with rfl | hx
    · exact h.args_say nol hnol
    · exact h.args_say x hx
  · exact h.args_new

theorem NolInv.new (h : NolInv s) (hf : ∀ x ∈ s.dfsNol, x.nolFreq ≠ f)
    (hasked : asked ≤ s.now + ms.toNat) :
    NolInv { s with
      dfsNol := s.dfsNol ++ [newNolelem f s.now ms s.argsAllocated]
      nolArg := update s.nolArg s.argsAllocated ⟨f.toUInt16, chWidth.toUInt16⟩
      argsAllocated := s.argsAllocated + 1
      dfsNolCount := s.dfsNolCount + 1
      requested := update s.requested f asked } := by
  have hnew : s.argsAllocated ∉ s.dfsNol.map timerArg := by
    intro hm
    obtain ⟨x, hx, he⟩ := mem_map.1 hm
    exact absurd he (h.args_lt x hx).ne
  have hall : ∀ {p : DfsNolelem → Prop}, (∀ x ∈ s.dfsNol, p x) →
      p (newNolelem f s.now ms s.argsAllocated) →
      ∀ x ∈ s.dfsNol ++ [newNolelem f s.now ms s.argsAllocated], p x := by
    intro p hp hlast x hx
    rcases mem_append.1 hx with hx | hx
    · exact hp x hx
    · rw [mem_singleton.1 hx]
      exact hlast
  constructor
  · constructor
    · exact h.there
    · rw [map_append, map_singleton, nodup_append]
      refine ⟨h.unique, nodup_singleton _, ?_⟩
      intro a ha b hb he
      obtain ⟨x, hx, rfl⟩ := mem_map.1 ha
      rw [mem_singleton.1 hb] at he
      exact hf x hx (Prod.mk.inj he).1
    · simp [h.count]
    · intro f' hf'
      dsimp only at hf' ⊢
      by_cases he : f' = f
      · subst he
        rw [update_self]
        exact ⟨newNolelem f' s.now ms s.argsAllocated, by simp, rfl, _, rfl, hasked⟩
      · rw [update_of_ne he] at hf' ⊢
        obtain ⟨x, hx, hxf, hxt⟩ := h.listed f' hf'
        exact ⟨x, mem_append_left _ hx, hxf, hxt⟩
    · exact hall h.pending fun e => nomatch e
    · intro a ha
      rw [map_append, map_singleton, mem_append, mem_singleton]
      rcases Nat.lt_succ_iff_lt_or_eq.1 ha with ha | rfl
      · have hne : a ≠ (newNolelem f s.now ms s.argsAllocated).timerArg := ha.ne
        simpa [hne] using h.freed a ha
      · exact .inl ⟨.inr rfl, h.args_new _ (le_refl _)⟩
    · exact h.unused
  · exact hall h.width rfl
  · rw [map_append, map_singleton, nodup_append]
    refine ⟨h.args_nodup, nodup_singleton _, ?_⟩
    intro a ha b hb
    rw [mem_singleton.1 hb]
    exact ne_of_mem_of_not_mem ha hnew
  · exact hall (fun x hx => Nat.lt_succ_of_lt (h.args_lt x hx)) (Nat.lt_succ_self _)
  · refine hall (fun x hx => ?_) ?_
    · dsimp only
      rw [update_of_ne (h.args_lt x hx).ne]
      exact h.args_say x hx
    · exact update_self ..
  · exact fun a ha => h.args_new a (Nat.le_of_succ_le ha)

theorem NolRight.asked_le (h : NolRight s) (ht : nol.nolTimer = some now)
    (hu : ∀ x ∈ s.dfsNol, x.nolFreq = nol.nolFreq → x = nol)
    (hlt : s.now < s.requested nol.nolFreq) : s.requested nol.nolFreq ≤ now := by
  obtain ⟨x, hx, hf, u, hxu, hle⟩ := h.listed _ hlt
  rw [hu x hx hf, ht] at hxu
  cases hxu
  exact hle

/-- **A frequency is added.**  The law is kept exactly if the timer is not set for earlier than what is asked. -/
theorem NolInv.addchan (h : NolInv s) : (NolRight (dfsNolAddchan s f t elem dfsNolArg asked) ↔
      (NolTaken s f elem dfsNolArg → asked ≤ s.now + (t * timeInMs).toNat)) ∧
    ((NolTaken s f elem dfsNolArg → asked ≤ s.now + (t * timeInMs).toNat) →
      NolInv (dfsNolAddchan s f t elem dfsNolArg asked)) := by
  rw [dfsNolAddchan]
  split
  · next l hres =>
    obtain ⟨pre, nol, post, hl, his, rfl⟩ := restartNol_some hres
    have htaken : NolTaken s f elem dfsNolArg := .inl ⟨nol, by simp [hl], his⟩
    have hinv := fun ha : asked ≤ s.now + (t * timeInMs).toNat => h.restart hl his.1 ha
    refine ⟨⟨fun hr _ => ?_, fun ha => (hinv (ha htaken)).toNolRight⟩, fun ha => hinv (ha htaken)⟩
    by_contra hlt
    have hlt := Nat.not_le.1 hlt
    have hle := @NolRight.asked_le _ (nol.restart s.now (t * timeInMs)) _ hr rfl
    have hfreq : (nol.restart s.now (t * timeInMs)).nolFreq = f := his.1
    simp only [hfreq, update_self] at hle
    refine absurd (hle ?_ (lt_of_le_of_lt (Nat.le_add_right _ _) hlt)) (Nat.not_le.2 hlt)
    intro x hx hxf
    by_contra hne
    refine h.notMem_freq hl x ?_ (hxf.trans his.1.symm)
    simp only [mem_append, mem_cons] at hx ⊢
    tauto
  · next hres =>
    have hnone := restartNol_none.1 hres
    have hf : ∀ x ∈ s.dfsNol, x.nolFreq ≠ f := fun x hx he => hnone x hx ⟨he, h.width x hx⟩
    split
    · next hmem =>
      have htaken : NolTaken s f elem dfsNolArg := .inr (by simpa using hmem)
      have hinv := fun ha : asked ≤ s.now + (t * timeInMs).toNat => h.new hf ha
      refine ⟨⟨fun hr _ => ?_, fun ha => (hinv (ha htaken)).toNolRight⟩, fun ha => hinv (ha htaken)⟩
      by_contra hlt
      have hlt := Nat.not_le.1 hlt
      have hle := @NolRight.asked_le _ (newNolelem f s.now (t * timeInMs) s.argsAllocated) _ hr rfl
      have hfreq : (newNolelem f s.now (t * timeInMs) s.argsAllocated).nolFreq = f := rfl
      simp only [hfreq, update_self] at hle
      refine absurd (hle ?_ (lt_of_le_of_lt (Nat.le_add_right _ _) hlt)) (Nat.not_le.2 hlt)
      intro x hx hxf
      rcases mem_append.1 hx with hx | hx
      · exact absurd hxf (hf x hx)
      · exact mem_singleton.1 hx
    · next hmem =>
      -- no memory, and nothing is done
      have hnot : ¬ NolTaken s f elem dfsNolArg := by
        rintro (⟨x, hx, his⟩ | hm)
        · exact hnone x hx his
        · exact hmem (by simpa using hm)
      exact ⟨iff_of_true h.toNolRight fun ht => absurd ht hnot, fun _ => h⟩

/-! ### A timer fires -/

theorem freq16_iff : f.toUInt16.toUInt32 = f ↔ f.toNat < 2 ^ 16 := by
  have hnat : f.toUInt16.toUInt32.toNat = f.toNat % 2 ^ 16 := by simp
  rw [← UInt32.toNat_inj, hnat]
  exact Nat.mod_eq_iff_lt (by decide)

theorem NolInv.fire_eq (h : NolInv s) (hl : s.dfsNol = pre ++ nol :: post)
    (harg : nol.timerArg = arg) :
    (fireNol s arg).dfsNol = pre ++ { nol with nolTimer := none } :: post := by
  have hne := h.notMem_arg hl
  have hkeep : ∀ {m : List DfsNolelem}, (∀ x ∈ m, x.timerArg ≠ nol.timerArg) →
      m.map (fun x => if x.timerArg = arg then { x with nolTimer := none } else x) = m := by
    intro m hm
    refine (map_congr_left fun x hx => ?_).trans (map_id m)
    exact if_neg (harg ▸ hm x hx)
  rw [fireNol, hl, map_append, map_cons, if_pos harg,
    hkeep fun x hx => hne x (mem_append_left _ hx),
    hkeep fun x hx => hne x (mem_append_right _ hx)]

/-- **A timer fires** in the mode of an access point, for an entry whose frequency has 16 bits: the entry goes, and the argument with it. -/
theorem NolInv.expire (h : NolInv s) (hl : s.dfsNol = pre ++ nol :: post)
    (harg : nol.timerArg = arg) (hdue : ∃ t ∈ nol.nolTimer, t ≤ s.now) {icOpmode : IcOpmode}
    (hmode : icOpmode = .hostap ∨ icOpmode = .ibss) (hf : nol.nolFreq.toNat < 2 ^ 16) :
    NolInv (dfsRemoveFromNol s arg icOpmode) := by
  have hnol : nol ∈ s.dfsNol := by simp [hl]
  have hfreqs := h.notMem_freq hl
  have hargs := h.notMem_arg hl
  have hsays : s.nolArg arg = ⟨nol.nolFreq.toUInt16, chWidth.toUInt16⟩ := harg ▸ h.args_say nol hnol
  have hsub : ∀ x ∈ pre ++ post, x ∈ s.dfsNol := by
    intro x hx
    rw [hl]
    simp only [mem_append, mem_cons] at hx ⊢
    tauto
  have hfired := h.fire_eq hl harg
  have hnot : ∀ x ∈ pre ++ post, ¬ x.Is nol.nolFreq.toUInt16.toUInt32 chWidth.toUInt16.toUInt32 := by
    intro x hx his
    rw [freq16_iff.2 hf] at his
    exact hfreqs x hx his.1
  have his : DfsNolelem.Is { nol with nolTimer := none } nol.nolFreq.toUInt16.toUInt32
      chWidth.toUInt16.toUInt32 :=
    ⟨(freq16_iff.2 hf).symm, h.width nol hnol⟩
  have hfst : (nolDelete nol.nolFreq.toUInt16 chWidth.toUInt16 (fireNol s arg).dfsNol
      s.dfsNolCount).1 = pre ++ post := by
    have hkeep : ∀ {m : List DfsNolelem}, (∀ x ∈ m, x ∈ pre ++ post) →
        m.filter (fun x => ¬ x.Is nol.nolFreq.toUInt16.toUInt32 chWidth.toUInt16.toUInt32) = m :=
      fun hm => filter_eq_self.2 fun x hx => decide_eq_true (hnot x (hm x hx))
    rw [nolDelete_fst, hfired, filter_append, filter_cons_of_neg (by simpa using his),
      hkeep fun x hx => mem_append_left _ hx, hkeep fun x hx => mem_append_right _ hx]
  have hsnd : (nolDelete nol.nolFreq.toUInt16 chWidth.toUInt16 (fireNol s arg).dfsNol
      s.dfsNolCount).2 = (pre ++ post).length := by
    have hone : (fireNol s arg).dfsNol.countP (fun x =>
        x.Is nol.nolFreq.toUInt16.toUInt32 chWidth.toUInt16.toUInt32) = 1 := by
      have hnone : ∀ {m : List DfsNolelem}, (∀ x ∈ m, x ∈ pre ++ post) → m.countP (fun x =>
          x.Is nol.nolFreq.toUInt16.toUInt32 chWidth.toUInt16.toUInt32) = 0 :=
        fun hm => countP_eq_zero.2 fun x hx => by simpa using hnot x (hm x hx)
      rw [hfired, countP_append, countP_cons_of_pos (by simpa using his),
        hnone fun x hx => mem_append_left _ hx, hnone fun x hx => mem_append_right _ hx]
    have hcount := h.count
    rw [hl, length_append, length_cons] at hcount
    rw [nolDelete_snd, hone, hcount, length_append]
    · omega
    · rw [hone, hcount]
      omega
  have hrem : dfsRemoveFromNol s arg icOpmode = freeNolArg { fireNol s arg with
      dfsNol := pre ++ post
      dfsNolCount := (pre ++ post).length } arg := by
    have hop : ¬ (icOpmode ≠ .hostap ∧ icOpmode ≠ .ibss) := by tauto
    have hcount : (fireNol s arg).dfsNolCount = s.dfsNolCount := rfl
    rw [dfsRemoveFromNol, hsays]
    simp only [if_neg hop]
    rw [dfsNolDelete, hcount, hfst, hsnd]
  have hfree : s.argFrees arg = 0 := by
    rcases h.freed arg (harg ▸ h.args_lt nol hnol) with hin | hout
    · exact hin.2
    · exact absurd (mem_map.2 ⟨nol, hnol, harg⟩) hout.1
  have hsublist : (pre ++ post).Sublist s.dfsNol := by
    rw [hl]
    exact (List.Sublist.refl pre).append (sublist_cons_self _ _)
  rw [hrem]
  constructor
  · constructor
    · exact h.there
    · exact h.unique.sublist (hsublist.map _)
    · rfl
    · intro f hlt
      have hlt : s.now < s.requested f := hlt
      obtain ⟨x, hx, hxf, u, hu, hle⟩ := h.listed f hlt
      have hne : x ≠ nol := by
        rintro rfl
        obtain ⟨t, ht, htn⟩ := hdue
        rw [ht] at hu
        cases hu
        exact absurd (lt_of_lt_of_le hlt (hle.trans htn)) (lt_irrefl _)
      refine ⟨x, ?_, hxf, u, hu, hle⟩
      rw [hl] at hx
      show x ∈ pre ++ post
      simp only [mem_append, mem_cons] at hx ⊢
      tauto
    · exact fun x hx => h.pending x (hsub x hx)
    · intro a ha
      have ha : a < s.argsAllocated := ha
      show a ∈ (pre ++ post).map timerArg ∧ update s.argFrees arg (s.argFrees arg + 1) a = 0 ∨
        a ∉ (pre ++ post).map timerArg ∧ update s.argFrees arg (s.argFrees arg + 1) a = 1
      by_cases he : a = arg
      · subst he
        refine .inr ⟨fun hm => ?_, by rw [update_self, hfree]⟩
        obtain ⟨x, hx, hxa⟩ := mem_map.1 hm
        exact hargs x hx (hxa.trans harg.symm)
      · have hin : a ∈ s.dfsNol.map timerArg ↔ a ∈ (pre ++ post).map timerArg := by
          have hne : a ≠ nol.timerArg := harg ▸ he
          rw [hl]
          simp only [map_append, map_cons, mem_append, mem_cons]
          tauto
        rw [update_of_ne he, ← hin]
        exact h.freed a ha
    · show (s.argUsedFreed || s.argFrees arg != 0) = false
      rw [h.unused, hfree]
      rfl
  · exact fun x hx => h.width x (hsub x hx)
  · exact h.args_nodup.sublist (hsublist.map _)
  · exact fun x hx => h.args_lt x (hsub x hx)
  · exact fun x hx => h.args_say x (hsub x hx)
  · intro a ha
    have ha : s.argsAllocated ≤ a := ha
    have hne : a ≠ arg := by
      rintro rfl
      exact absurd (lt_of_lt_of_le (harg ▸ h.args_lt nol hnol) ha) (lt_irrefl _)
    show update s.argFrees arg (s.argFrees arg + 1) a = 0
    rw [update_of_ne hne]
    exact h.args_new a ha

theorem NolInv.expire_stays (h : NolInv s) (hl : s.dfsNol = pre ++ nol :: post)
    (harg : nol.timerArg = arg) {icOpmode : IcOpmode}
    (hbad : ¬ (icOpmode = .hostap ∨ icOpmode = .ibss) ∨ ¬ nol.nolFreq.toNat < 2 ^ 16) :
    ¬ NolRight (dfsRemoveFromNol s arg icOpmode) := by
  intro hr
  have hnol : nol ∈ s.dfsNol := by simp [hl]
  have hsays : s.nolArg arg = ⟨nol.nolFreq.toUInt16, chWidth.toUInt16⟩ := harg ▸ h.args_say nol hnol
  have hfired : { nol with nolTimer := none } ∈ (fireNol s arg).dfsNol := by
    rw [h.fire_eq hl harg]
    simp
  refine hr.pending { nol with nolTimer := none } ?_ rfl
  rw [dfsRemoveFromNol, hsays]
  by_cases hop : icOpmode ≠ .hostap ∧ icOpmode ≠ .ibss
  · simp only [if_pos hop]
    exact hfired
  · have hwide : ¬ nol.nolFreq.toNat < 2 ^ 16 := by tauto
    simp only [if_neg hop]
    show _ ∈ (nolDelete _ _ _ _).1
    rw [nolDelete_fst, mem_filter]
    refine ⟨hfired, decide_eq_true fun his => hwide ?_⟩
    exact freq16_iff.1 his.1.symm

/-! ### The run -/

/-- The seconds that are left, in milliseconds. -/
theorem toNat_timeLeft {elapsed timeoutMs : UInt32} (h : elapsed < timeoutMs) :
    ((timeoutMs - elapsed) / timeInMs * timeInMs).toNat =
      (timeoutMs.toNat - elapsed.toNat) / 1000 * 1000 := by
  have hlt := timeoutMs.toNat_lt
  have hms : timeInMs.toNat = 1000 := rfl
  rw [UInt32.toNat_mul, UInt32.toNat_div, UInt32.toNat_sub_of_le _ _ (UInt32.le_of_lt h), hms]
  omega

/-- **A turn of `dfs_set_nol`.** -/
theorem NolInv.setElem (h : NolInv s) (e : DfsreqNolelem) (hstart : e.nolStartTicks ≤ s.now) :
    (NolRight (setNolElem s e elem dfsNolArg) ↔ NolEventOk s (.setElem e elem dfsNolArg)) ∧
      (NolEventOk s (.setElem e elem dfsNolArg) → NolInv (setNolElem s e elem dfsNolArg)) := by
  have htimeout := e.nolTimeoutMs.toNat_lt
  have helapsed : (nolElapsed s e).toNat = (s.now - e.nolStartTicks) % 2 ^ 32 :=
    UInt32.toNat_ofNat'
  rw [setNolElem]
  split
  · next hlt =>
    have hcut := toNat_timeLeft hlt
    rw [UInt32.lt_iff_toNat_lt] at hlt
    have hiff : e.nolStartTicks + e.nolTimeoutMs.toNat
          ≤ s.now + (e.nolTimeoutMs.toNat - (nolElapsed s e).toNat) / 1000 * 1000 ↔
        (s.now < e.nolStartTicks + e.nolTimeoutMs.toNat →
          1000 ∣ e.nolStartTicks + e.nolTimeoutMs.toNat - s.now) := by
      by_cases hpast : s.now < e.nolStartTicks + e.nolTimeoutMs.toNat
      · have hwhole : (nolElapsed s e).toNat = s.now - e.nolStartTicks := by
          rw [helapsed]
          exact Nat.mod_eq_of_lt (by omega)
        rw [hwhole]
        simp only [hpast, true_implies]
        omega
      · simp only [hpast, false_implies, iff_true]
        omega
    have hadd := @addchan s e.nolFreq.toUInt32
      ((e.nolTimeoutMs - nolElapsed s e) / timeInMs) (e.nolStartTicks + e.nolTimeoutMs.toNat)
      elem dfsNolArg h
    rw [hcut, hiff] at hadd
    exact hadd
  · next hge =>
    rw [UInt32.lt_iff_toNat_lt, helapsed] at hge
    have hok : NolEventOk s (.setElem e elem dfsNolArg) := by
      intro _ hpast
      omega
    exact ⟨iff_of_true h.toNolRight hok, fun _ => h⟩

/-- What an event may come with: a timer that fires is due, and what is given to `dfs_set_nol` has been started. -/
def NolEvent.Allowed (s : DfsNol) : NolEvent → Prop
  | .setElem e _ _ => e.nolStartTicks ≤ s.now
  | .expire arg _ => NolDue s arg
  | _ => True

theorem nolStep_total {e : NolEvent} (h : NolInv s) (ha : e.Allowed s) : ∃ s', nolStep s e = some s' := by
  cases e with
  | addchan f t elem dfsNolArg => exact ⟨_, guarded_eq_some.2 ⟨h.there, rfl⟩⟩
  | setElem e elem dfsNolArg => exact ⟨_, guarded_eq_some.2 ⟨⟨h.there, ha⟩, rfl⟩⟩
  | expire arg icOpmode => exact ⟨_, guarded_eq_some.2 ⟨ha, rfl⟩⟩
  | cleanup => exact ⟨_, guarded_eq_some.2 ⟨h.there, rfl⟩⟩
  | wait ms => exact ⟨_, rfl⟩

/-- **The clean-up** leaves arguments that nobody frees, unless there is nothing to clean up. -/
theorem NolInv.cleanup (h : NolInv s) : (NolRight (dfsNolTimerCleanup s) ↔ s.dfsNol = []) ∧
      (s.dfsNol = [] → NolInv (dfsNolTimerCleanup s)) := by
  have hinv : s.dfsNol = [] → NolInv (dfsNolTimerCleanup s) := by
    intro hnil
    have hsame : dfsNolTimerCleanup s = s := by
      rw [dfsNolTimerCleanup, hnil, map_nil, isEmpty_nil, Bool.not_true, ← h.there, ← hnil]
    rw [hsame]
    exact h
  refine ⟨⟨fun hr => ?_, fun hnil => (hinv hnil).toNolRight⟩, hinv⟩
  simpa [dfsNolTimerCleanup] using hr.there

theorem NolInv.wait (h : NolInv s) (ms : Nat) : NolInv { s with now := s.now + ms } := by
  refine ⟨⟨h.there, h.unique, h.count, fun f hlt => ?_, h.pending, h.freed, h.unused⟩, h.width,
    h.args_nodup, h.args_lt, h.args_say, h.args_new⟩
  exact h.listed f (lt_of_le_of_lt (Nat.le_add_right _ _) hlt)

/-- **An event** keeps the law exactly if it meets the condition. -/
theorem nolStep_right_iff {e : NolEvent} (h : NolInv s) (hs : nolStep s e = some s') :
    (NolRight s' ↔ NolEventOk s e) ∧ (NolEventOk s e → NolInv s') := by
  cases e with
  | addchan f t elem dfsNolArg =>
    obtain ⟨-, rfl⟩ := guarded_eq_some.1 hs
    have hadd := @NolInv.addchan s f t (s.now + t.toNat * 1000) elem dfsNolArg h
    have hiff : s.now + t.toNat * 1000 ≤ s.now + (t * timeInMs).toNat ↔
        t.toNat * 1000 < 2 ^ 32 := by
      have hms : timeInMs.toNat = 1000 := rfl
      rw [UInt32.toNat_mul, hms, Nat.add_le_add_iff_left]
      constructor
      · exact fun hle => lt_of_le_of_lt hle (Nat.mod_lt _ (by decide))
      · exact fun hlt => (Nat.mod_eq_of_lt hlt).ge
    rw [hiff] at hadd
    exact hadd
  | setElem e elem dfsNolArg =>
    obtain ⟨⟨-, hstart⟩, rfl⟩ := guarded_eq_some.1 hs
    exact h.setElem e hstart
  | expire arg icOpmode =>
    obtain ⟨⟨nol, hnol, harg, hdue⟩, rfl⟩ := guarded_eq_some.1 hs
    obtain ⟨pre, post, hl⟩ := append_of_mem hnol
    have hone : (∀ x ∈ s.dfsNol, x.timerArg = arg → x.nolFreq.toNat < 2 ^ 16) ↔
        nol.nolFreq.toNat < 2 ^ 16 := by
      refine ⟨fun hall => hall nol hnol harg, fun hf x hx hxa => ?_⟩
      obtain rfl : x = nol := inj_on_of_nodup_map h.args_nodup hx hnol (hxa.trans harg.symm)
      exact hf
    rw [NolEventOk, hone]
    have hinv := fun hok : (icOpmode = .hostap ∨ icOpmode = .ibss) ∧ nol.nolFreq.toNat < 2 ^ 16 =>
      h.expire hl harg hdue hok.1 hok.2
    refine ⟨⟨fun hr => ?_, fun hok => (hinv hok).toNolRight⟩, hinv⟩
    by_contra hbad
    exact h.expire_stays hl harg (not_and_or.1 hbad) hr
  | cleanup =>
    obtain ⟨-, rfl⟩ := guarded_eq_some.1 hs
    exact h.cleanup
  | wait ms =>
    cases hs
    exact ⟨iff_of_true (h.wait ms).toNolRight trivial, fun _ => h.wait ms⟩

theorem setNolElem_now (e : DfsreqNolelem) (elem dfsNolArg : Bool) :
    (setNolElem s e elem dfsNolArg).now = s.now := by
  rw [setNolElem]
  split
  · rw [dfsNolAddchan]
    split
    · rfl
    · split <;> rfl
  · rfl

theorem reach_nolInv (hs : nolMachine.Reach NolEventOk s) : NolInv s :=
  hs.invariant NolInv (fun _ => DfsNol.Initial.inv)
    fun _ _ _ h hok hstep => (nolStep_right_iff h hstep).2 hok

/-- **The non-occupancy list.**  As long as every event meets the condition the law holds; and every event can happen then, and keeps the law exactly if it meets the condition. -/
theorem nol_iff (s : DfsNol) (hs : nolMachine.Reach NolEventOk s) :
    NolRight s ∧ ∀ e : NolEvent, e.Allowed s →
      ∃ s', nolMachine.step s e = some s' ∧ (NolRight s' ↔ NolEventOk s e) := by
  have h := reach_nolInv hs
  refine ⟨h.toNolRight, fun e ha => ?_⟩
  obtain ⟨s', hstep⟩ := nolStep_total h ha
  exact ⟨s', hstep, (nolStep_right_iff h hstep).1⟩

end

/-! ### Out and in again -/

/-- The frequency fits into the 16 bits in which it is handed out, and what has gone by since the start into 32. -/
def Fits (now : Nat) (nol : DfsNolelem) : Prop :=
  nol.nolFreq.toNat < 2 ^ 16 ∧ nol.nolStartTicks ≤ now ∧ now - nol.nolStartTicks < 2 ^ 32
deriving Decidable

def DfsNolelem.ends (nol : DfsNolelem) : Nat := nol.nolStartTicks + nol.nolTimeoutMs.toNat

/-- The entry is for the same frequency, and its timer is set for the same time, or for less than a second before it. -/
def SameTime (nol new : DfsNolelem) : Prop :=
  new.nolFreq = nol.nolFreq ∧ ∃ t ∈ new.nolTimer, t ≤ nol.ends ∧ nol.ends < t + 1000

section
variable {s t : DfsNol} {nol : DfsNolelem} {l : List DfsNolelem}

/-- A turn of `dfs_set_nol` for an entry that is not listed. -/
theorem setNolElem_req (hf : Fits t.now nol) (hnew : ∀ x ∈ t.dfsNol, x.nolFreq ≠ nol.nolFreq) :
    if t.now < nol.ends then
      ∃ new, (setNolElem t nol.req true true).dfsNol = t.dfsNol ++ [new] ∧ SameTime nol new
    else setNolElem t nol.req true true = t := by
  obtain ⟨hfit, hstart, hold⟩ := hf
  have hfreq : nol.req.nolFreq.toUInt32 = nol.nolFreq := freq16_iff.2 hfit
  have hage : (nolElapsed t nol.req).toNat = t.now - nol.nolStartTicks :=
    (UInt32.toNat_ofNat' ..).trans (Nat.mod_eq_of_lt hold)
  have htime : nol.req.nolTimeoutMs = nol.nolTimeoutMs := rfl
  have hleft : nolElapsed t nol.req < nol.req.nolTimeoutMs ↔ t.now < nol.ends := by
    rw [UInt32.lt_iff_toNat_lt, hage, ends, htime]
    omega
  by_cases hin : t.now < nol.ends
  · have hlt := hleft.2 hin
    have hnone (ms : UInt32) : restartNol nol.req.nolFreq.toUInt32 t.now ms t.dfsNol = none :=
      restartNol_none.2 fun x hx his => hnew x hx (his.1.trans hfreq)
    rw [if_pos hin, setNolElem, if_pos hlt, dfsNolAddchan, hnone]
    refine ⟨_, rfl, hfreq, _, rfl, ?_⟩
    rw [toNat_timeLeft hlt, hage, htime]
    rw [ends] at hin ⊢
    omega
  · rw [if_neg hin, setNolElem, if_neg (hin ∘ hleft.1)]

/-- The turns list what has been handed out behind what is listed. -/
theorem dfsSetNol_lists (l : List DfsNolelem) (hf : ∀ nol ∈ l, Fits t.now nol)
    (hd : (l.map nolFreq).Nodup) (hnew : ∀ nol ∈ l, ∀ x ∈ t.dfsNol, x.nolFreq ≠ nol.nolFreq) :
    ∃ news, (dfsSetNol t (l.map fun nol => (nol.req, true, true))).dfsNol = t.dfsNol ++ news ∧
      Forall₂ SameTime (l.filter fun nol => t.now < nol.ends) news := by
  induction l generalizing t with
  | nil => exact ⟨[], (append_nil _).symm, .nil⟩
  | cons nol l ih =>
    obtain ⟨hfn, hfl⟩ := forall_mem_cons.1 hf
    obtain ⟨hnn, hnl⟩ := forall_mem_cons.1 hnew
    obtain ⟨hdn, hdl⟩ := nodup_cons.1 hd
    have hturn := setNolElem_req hfn hnn
    have hnow := setNolElem_now (s := t) nol.req true true
    rw [map_cons, dfsSetNol, foldl_cons]
    split at hturn
    · next hin =>
      obtain ⟨new, hlist, hsame⟩ := hturn
      obtain ⟨news, hall, htimes⟩ := ih (t := setNolElem t nol.req true true) (hnow ▸ hfl) hdl
        fun x hx y hy => by
          rw [hlist, mem_append, mem_singleton] at hy
          rcases hy with hy | rfl
          · exact hnl x hx y hy
          · exact fun he => hdn (mem_map.2 ⟨x, hx, he.symm.trans hsame.1⟩)
      refine ⟨new :: news, ?_, ?_⟩
      · rw [hlist, append_assoc] at hall
        exact hall
      · rw [hnow] at htimes
        rw [filter_cons_of_pos (by simpa using hin)]
        exact .cons hsame htimes
    · next hin =>
      rw [hturn, filter_cons_of_neg (by simpa using hin)]
      exact ih hfl hdl hnl

end

/-- After `dfs_attach`. -/
def emptyNol : DfsNol where
  dfsNol := []
  dfsNolCount := 0
  nolArg _ := ⟨0, 0⟩
  argsAllocated := 0
  argFrees _ := 0
  argUsedFreed := false
  elemsFreed := false
  now := 0
  requested _ := 0

theorem emptyNol_initial : emptyNol.Initial :=
  ⟨rfl, rfl, rfl, fun _ => rfl, rfl, rfl, fun _ => rfl⟩

/-- **A timer fires in station mode**, and its argument is freed although the entry stays; the frequency is added again, which sets the timer again, and when it fires the argument is read and freed once more. -/
theorem kept_entry_frees_twice :
    ∃ s, nolMachine.run emptyNol [.addchan 5500 1 true true, .wait 1000, .expire 0 .sta,
        .addchan 5500 1 true true, .wait 1000, .expire 0 .hostap] = some s ∧
      s.argFrees 0 = 2 ∧ s.argUsedFreed = true ∧ ¬ NolRight s := by
  refine Machine.exists_run_of (q := fun s => s.argFrees 0 = 2 ∧ s.argUsedFreed = true)
    (by decide +kernel) ?_
  rintro s ⟨hfrees, hused⟩
  refine ⟨hfrees, hused, fun hr => ?_⟩
  rw [hr.unused] at hused
  cases hused

/-- Two frequencies are added, one of them again; one is set from an old list; and all timers fire. -/
theorem nol_iff_expired :
    ∃ s, nolMachine.run emptyNol [.addchan 5500 2 true true, .addchan 5520 1 true true, .wait 500,
        .addchan 5500 2 true false, .setElem ⟨5540, 20, 500, 3000⟩ true true, .wait 500,
        .expire 1 .hostap, .wait 1500, .expire 0 .ibss] = some s ∧
      NolRight s ∧ s.dfsNolCount = 1 :=
  Machine.exists_right (fun s hs => (nol_iff s hs).1) emptyNol_initial
    (by decide +kernel) (by decide +kernel)

end Qcacld.Dfs

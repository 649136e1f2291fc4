import Mathlib.Data.List.Infix
import Qcacld.Dph.DphHashTable

/-!
# Lim — LimPreAuth

The pre-authentication contexts.  Their nodes are those of a table, threaded into a list: a node is taken from the table when its flag says that it is free, put at the front of the list, and is free again when it leaves it.  `limDeleteOpenAuthPreAuthNode` takes away the open-system nodes whose time stamp is old, or is ahead of the tick counter.

In every run the list ends, is counted, and holds the nodes that are not free (`Holds`, `reach_holds`).  `preauth_list_iff` says when it also has one node for an address and loses exactly what has timed out: when no node is added for an address that has one, and the time stamps are not read across a wrap of the counter in which they are compared wrongly.
-/

namespace Qcacld.Lim
open Qcacld.Support Qcacld.Dph Function List Option Nat

/-! ### The nodes -/

inductive AniAuthType where
  | openSystem | sharedKey | ftAuth | filsSkWithoutPfs | filsSkWithPfs | filsPkAuth | leapAuth
  | autoSwitch | donotUseAuthType
deriving DecidableEq

/-- `tLimMlmStates` -/
inductive LimMlmState where
  | offline | idle | wtProbeResp | passiveScan | wtJoinBeacon | joined | bssStarted
  | wtAuthFrame2 | wtAuthFrame3 | wtAuthFrame4 | authRspTimeout | authenticated
  | wtAssocRsp | wtReassocRsp | associated | reassociated | linkEstablished | wtAssocCnf | learn
  | wtAddBssRsp | wtDelBssRsp | wtAddBssRspAssoc | wtAddBssRspReassoc | wtAddBssRspPreassoc
  | wtAddStaRsp | wtDelStaRsp | wtAssocDelStaRsp | wtSetBssKey | wtSetStaKey | wtSetStaBcastkey
  | wtAddbaRsp | wtRemoveBssKey | wtRemoveStaKey | wtSetMimops | wtAddBssRspFtReassoc
  | wtFtReassocRsp | p2pListen
deriving DecidableEq

/-- What the list and its users read and write of `tLimPreAuthNode`. -/
structure PreAuthNode where
  next : Option Nat
  peerMacAddr : SirMacAddr
  authType : AniAuthType
  mlmState : LimMlmState
  fFree : Bool
  timestamp : Nat
  /-- the tick, counted without wraps, at which the time stamp was taken -/
  stampedAt : Nat

/-- The part of `pMac->lim` that is about pre-authentication: a node is known by its index in `gLimPreAuthTimerTable`. -/
structure LimPreAuth where
  numEntry : Nat
  pTable : Nat → PreAuthNode
  pLimPreAuthList : Option Nat
  gLimNumPreAuthContexts : Int
  /-- the ticks so far -/
  ticks : Nat

def limOpenauthTimeout : Nat := 500

/-- How many values the ticks have: a tick is ten of the milliseconds of a 32-bit count. -/
def tickValues : Nat := 429496730

def vosTimerGetSystemTicks (ticks : Nat) : Nat := ticks % tickValues

namespace LimPreAuth

def setNode (s : LimPreAuth) (i : Nat) (n : PreAuthNode) : LimPreAuth :=
  { s with pTable := update s.pTable i n }

def setHead (s : LimPreAuth) (p : Option Nat) : LimPreAuth :=
  { s with pLimPreAuthList := p }

def count (s : LimPreAuth) (d : Int) : LimPreAuth :=
  { s with gLimNumPreAuthContexts := s.gLimNumPreAuthContexts + d }

/-- The `next` pointers. -/
def next (s : LimPreAuth) (i : Nat) : Option Nat := (s.pTable i).next

/-- The loops over the list run out of nodes before this. -/
def fuel (s : LimPreAuth) : Nat := s.numEntry + 1

end LimPreAuth

/-! ### The functions -/

/-- `limAcquireFreePreAuthNode`: the first free node of the table. -/
def limAcquireFreePreAuthNode (s : LimPreAuth) : Option Nat × LimPreAuth :=
  match (List.range s.numEntry).find? fun i => (s.pTable i).fFree with
  | none => (none, s)
  | some i => (some i, s.setNode i { s.pTable i with fFree := false })

def limAddPreAuthNode (s : LimPreAuth) (pAuthNode : Nat) : LimPreAuth :=
  let s := s.count 1
  let s := s.setNode pAuthNode { s.pTable pAuthNode with next := s.pLimPreAuthList }
  s.setHead (some pAuthNode)

def limReleasePreAuthNode (s : LimPreAuth) (pAuthNode : Nat) : LimPreAuth :=
  let s := s.setNode pAuthNode { s.pTable pAuthNode with fFree := true }
  s.count (-1)

/-- Take a node out of the list and release it: the first one, or one that has another before it. -/
def unlinkPreAuthNode (s : LimPreAuth) (pPrevNode : Option Nat) (pTempNode : Nat) : LimPreAuth :=
  let s := match pPrevNode with
    | none => s.setHead (s.next pTempNode)
    | some pPrevNode =>
      s.setNode pPrevNode { s.pTable pPrevNode with next := s.next pTempNode }
  limReleasePreAuthNode s pTempNode

/-- `limDeletePreAuthNode`; `none` when its loop does not end. -/
def limDeletePreAuthNode (s : LimPreAuth) (macAddr : SirMacAddr) : Option LimPreAuth :=
  let look _ i := if macAddr = (s.pTable i).peerMacAddr then Look.found else .goOn
  (seek s.next look s.fuel none s.pLimPreAuthList).map fun
    | .found pPrevNode pTempNode => unlinkPreAuthNode s pPrevNode pTempNode
    | _ => s

/-- The nodes that `limDeleteOpenAuthPreAuthNode` deletes. -/
def OpenAuthStale (s : LimPreAuth) (i : Nat) : Prop :=
  (s.pTable i).mlmState = .authenticated ∧ (s.pTable i).authType = .openSystem ∧
    (vosTimerGetSystemTicks s.ticks > limOpenauthTimeout + (s.pTable i).timestamp ∨
      vosTimerGetSystemTicks s.ticks < (s.pTable i).timestamp)
deriving Decidable

/-- The loop of `limDeleteOpenAuthPreAuthNode`, from a node on; `none` when it does not end. -/
def sweepOpenAuth : Nat → LimPreAuth → Option Nat → Option Nat → Bool → Option (Bool × LimPreAuth)
  | _, s, _, none, authNodeFreed => some (authNodeFreed, s)
  | 0, _, _, some _, _ => none
  | n + 1, s, pPrevNode, some pTempNode, authNodeFreed =>
    let pNext := s.next pTempNode
    if OpenAuthStale s pTempNode then
      if s.pLimPreAuthList = some pTempNode then
        sweepOpenAuth n (unlinkPreAuthNode s none pTempNode) pNext pNext true
      else
        sweepOpenAuth n (unlinkPreAuthNode s pPrevNode pTempNode) pPrevNode pNext true
    else sweepOpenAuth n s (some pTempNode) pNext authNodeFreed

/-- `limDeleteOpenAuthPreAuthNode`: whether it has deleted a node, and the list. -/
def limDeleteOpenAuthPreAuthNode (s : LimPreAuth) : Option (Bool × LimPreAuth) :=
  sweepOpenAuth s.fuel s s.pLimPreAuthList s.pLimPreAuthList false

/-- The loop of `limDeletePreAuthList`, from a node on; `none` when it does not end. -/
def releaseFrom : Nat → Option Nat → LimPreAuth → Option LimPreAuth
  | _, none, s => some s
  | 0, some _, _ => none
  | n + 1, some pCurrNode, s =>
    releaseFrom n (s.next pCurrNode) (limReleasePreAuthNode s pCurrNode)

def limDeletePreAuthList (s : LimPreAuth) : Option LimPreAuth :=
  (releaseFrom s.fuel s.pLimPreAuthList s).map (·.setHead none)

/-- What is done with a node that was acquired: it is filled, stamped and added. -/
def fillPreAuthNode (s : LimPreAuth) (peerMacAddr : SirMacAddr) (authType : AniAuthType)
    (mlmState : LimMlmState) (pAuthNode : Nat) : LimPreAuth :=
  s.setNode pAuthNode
    { s.pTable pAuthNode with
      peerMacAddr
      authType
      mlmState
      timestamp := vosTimerGetSystemTicks s.ticks
      stampedAt := s.ticks }

/-- A node is acquired, filled and added; with no node left nothing is done. -/
def newPreAuthNode (s : LimPreAuth) (peerMacAddr : SirMacAddr) (authType : AniAuthType)
    (mlmState : LimMlmState) : LimPreAuth :=
  match limAcquireFreePreAuthNode s with
  | (none, s) => s
  | (some pAuthNode, s) =>
    limAddPreAuthNode (fillPreAuthNode s peerMacAddr authType mlmState pAuthNode) pAuthNode

/-- `limRejectAssociation`, but for the response it sends. -/
def limRejectAssociation (s : LimPreAuth) (peerAddr : SirMacAddr) (addPreAuthContext : Bool)
    (authType : AniAuthType) : LimPreAuth :=
  if addPreAuthContext then newPreAuthNode s peerAddr authType .authenticated else s

/-! ### Runs -/

inductive PreAuthCall where
  /-- an authentication frame's node: acquired, filled and added -/
  | addNode (peerMacAddr : SirMacAddr) (authType : AniAuthType) (mlmState : LimMlmState)
  | deleteNode (macAddr : SirMacAddr)
  | deleteOpenAuth
  | deleteList
  | rejectAssociation (peerAddr : SirMacAddr) (addPreAuthContext : Bool) (authType : AniAuthType)
  | pass (ticks : Nat)

def preAuthCall (s : LimPreAuth) : PreAuthCall → Option LimPreAuth
  | .addNode peerMacAddr authType mlmState => some (newPreAuthNode s peerMacAddr authType mlmState)
  | .deleteNode macAddr => limDeletePreAuthNode s macAddr
  | .deleteOpenAuth => (limDeleteOpenAuthPreAuthNode s).map (·.2)
  | .deleteList => limDeletePreAuthList s
  | .rejectAssociation peerAddr addPreAuthContext authType =>
    some (limRejectAssociation s peerAddr addPreAuthContext authType)
  | .pass ticks => some { s with ticks := s.ticks + ticks }

/-- `limInitPreAuthTimerTable` has been called: all nodes are free, and what else is in their memory. -/
def LimPreAuth.Initial (s : LimPreAuth) : Prop :=
  s.pLimPreAuthList = none ∧ s.gLimNumPreAuthContexts = 0 ∧
    ∀ i < s.numEntry, (s.pTable i).fFree = true

def preAuthMachine : Machine LimPreAuth PreAuthCall where
  init := LimPreAuth.Initial
  step := preAuthCall

/-! ### What the list is to be -/

/-- The list: it ends, it is counted, and it holds exactly the nodes that are not free. -/
structure Holds (s : LimPreAuth) (l : List Nat) : Prop where
  threaded : Threaded s.next s.pLimPreAuthList l
  count : s.gLimNumPreAuthContexts = l.length
  mem : ∀ i, i ∈ l ↔ i < s.numEntry ∧ (s.pTable i).fFree = false

def PreAuthRight (s : LimPreAuth) : Prop :=
  ∃ l, Holds s l ∧ (l.map fun i => (s.pTable i).peerMacAddr).Nodup

/-- An authenticated open-system node has timed out. -/
def TimedOut (s : LimPreAuth) (i : Nat) : Prop :=
  (s.pTable i).mlmState = .authenticated ∧ (s.pTable i).authType = .openSystem ∧
    limOpenauthTimeout < s.ticks - (s.pTable i).stampedAt
deriving Decidable

/-- What a call is to do: the list stays right, and exactly what has timed out is deleted. -/
def CallRight (s : LimPreAuth) (c : PreAuthCall) : Prop :=
  ∃ s', preAuthCall s c = some s' ∧ PreAuthRight s' ∧
    (c = .deleteOpenAuth → ∀ l, Holds s l → Holds s' (l.filter fun i => ¬ TimedOut s i))

/-- A node that is added now is the first for its address, if there is a node to add. -/
def NewPeer (s : LimPreAuth) (peer : SirMacAddr) : Prop :=
  (∃ i < s.numEntry, (s.pTable i).fFree = true) →
    ∀ j < s.numEntry, (s.pTable j).fFree = false → (s.pTable j).peerMacAddr ≠ peer

/-- A time stamp taken at `t` is read rightly at `now`: the counter has not wrapped in between; or it is
time, and the counter is not where it would be within the timeout. -/
def ReadsRightly (t now : Nat) : Prop :=
  now / tickValues = t / tickValues ∨ limOpenauthTimeout < now - t ∧
      (now % tickValues < t % tickValues ∨ t % tickValues + limOpenauthTimeout < now % tickValues)
deriving Decidable

/-- **The condition.**  A node is only added for an address that has none; when open-system nodes are
deleted their time stamps are read rightly. -/
def PreAuthCallOk (s : LimPreAuth) : PreAuthCall → Prop
  | .addNode peerMacAddr _ _ => NewPeer s peerMacAddr
  | .rejectAssociation peerAddr addPreAuthContext _ =>
    addPreAuthContext = true → NewPeer s peerAddr
  | .deleteOpenAuth => ∀ i < s.numEntry, (s.pTable i).fFree = false →
    (s.pTable i).mlmState = .authenticated → (s.pTable i).authType = .openSystem →
      ReadsRightly (s.pTable i).stampedAt s.ticks
  | .deleteNode _ | .deleteList | .pass _ => True

instance (s : LimPreAuth) (peer : SirMacAddr) : Decidable (NewPeer s peer) :=
  inferInstanceAs (Decidable (_ → _))

instance (s : LimPreAuth) : (c : PreAuthCall) → Decidable (PreAuthCallOk s c)
  | .addNode peerMacAddr _ _ => inferInstanceAs (Decidable (NewPeer s peerMacAddr))
  | .rejectAssociation peerAddr addPreAuthContext _ =>
    inferInstanceAs (Decidable (addPreAuthContext = true → NewPeer s peerAddr))
  | .deleteOpenAuth => inferInstanceAs (Decidable (∀ i < s.numEntry, _ → _ → _ → _))
  | .deleteNode _ | .deleteList | .pass _ => .isTrue trivial

/-! ### The list -/

section
variable {s s' s'' : LimPreAuth} {l l₁ l₂ : List Nat} {i c x : Nat} {p q : Option Nat}
  {a : SirMacAddr}

@[simp] theorem setNode_pTable (n : PreAuthNode) :
    (s.setNode i n).pTable = update s.pTable i n := rfl

@[simp] theorem setNode_numEntry (n : PreAuthNode) : (s.setNode i n).numEntry = s.numEntry := rfl

@[simp] theorem setNode_head (n : PreAuthNode) :
    (s.setNode i n).pLimPreAuthList = s.pLimPreAuthList := rfl

@[simp] theorem setNode_count (n : PreAuthNode) :
    (s.setNode i n).gLimNumPreAuthContexts = s.gLimNumPreAuthContexts := rfl

@[simp] theorem setNode_ticks (n : PreAuthNode) : (s.setNode i n).ticks = s.ticks := rfl

@[simp] theorem next_setNode (n : PreAuthNode) : (s.setNode i n).next = update s.next i n.next := by
  ext1 j
  rcases eq_or_ne j i with rfl | h
  · simp [LimPreAuth.next]
  · simp [LimPreAuth.next, update_of_ne h]

@[simp] theorem next_setHead : (s.setHead p).next = s.next := rfl

@[simp] theorem next_count (d : Int) : (s.count d).next = s.next := rfl

theorem Holds.length_le (h : Holds s l) : l.length ≤ s.fuel := by
  have hsub : l ⊆ range s.numEntry := fun i hi => mem_range.2 ((h.mem i).1 hi).1
  have hle := (subperm_of_subset h.threaded.nodup hsub).length_le
  rw [length_range] at hle
  exact le_trans hle (le_succ _)

theorem Holds.unique (h₁ : Holds s l₁) (h₂ : Holds s l₂) : l₁ = l₂ :=
  h₁.threaded.unique h₂.threaded

theorem Holds.without (h : Holds s (l₁ ++ x :: l₂))
    (ht : Threaded s'.next s'.pLimPreAuthList (l₁ ++ l₂))
    (hc : s'.gLimNumPreAuthContexts = s.gLimNumPreAuthContexts - 1)
    (hn : s'.numEntry = s.numEntry)
    (hf : ∀ i, (s'.pTable i).fFree = if i = x then true else (s.pTable i).fFree) :
    Holds s' (l₁ ++ l₂) := by
  have hnd := nodup_middle.1 h.threaded.nodup
  refine ⟨ht, ?_, fun i => ?_⟩
  · have hlen := h.count
    simp only [length_append, length_cons] at hlen ⊢
    omega
  · rw [hn, hf i]
    rcases eq_or_ne i x with rfl | hi
    · simpa using (nodup_cons.1 hnd).1
    · simpa [hi] using h.mem i

theorem release_next : (limReleasePreAuthNode s x).next = s.next := by
  simp [limReleasePreAuthNode, LimPreAuth.next]

theorem unlink_fFree (i : Nat) : ((unlinkPreAuthNode s p x).pTable i).fFree
    = if i = x then true else (s.pTable i).fFree := by
  rcases eq_or_ne i x with rfl | hi
  · simp [unlinkPreAuthNode, limReleasePreAuthNode, LimPreAuth.count]
  · cases p with
    | none => simp [unlinkPreAuthNode, limReleasePreAuthNode, LimPreAuth.count, LimPreAuth.setHead, hi]
    | some c =>
      rcases eq_or_ne i c with rfl | hc
      · simp [unlinkPreAuthNode, limReleasePreAuthNode, LimPreAuth.count, hi]
      · simp [unlinkPreAuthNode, limReleasePreAuthNode, LimPreAuth.count, hi, hc]

theorem unlink_numEntry : (unlinkPreAuthNode s p x).numEntry = s.numEntry := by
  cases p <;> rfl

theorem unlink_count :
    (unlinkPreAuthNode s p x).gLimNumPreAuthContexts = s.gLimNumPreAuthContexts - 1 := by
  cases p <;> rfl

theorem Holds.unlink_first (h : Holds s (x :: l)) : Holds (unlinkPreAuthNode s none x) l := by
  have h' : Holds s ([] ++ x :: l) := h
  refine h'.without ?_ unlink_count unlink_numEntry unlink_fFree
  rw [unlinkPreAuthNode, release_next]
  exact h.threaded.2

theorem Holds.unlink_behind (h : Holds s (l₁ ++ c :: x :: l₂)) :
    Holds (unlinkPreAuthNode s (some c) x) (l₁ ++ c :: l₂) := by
  have hl : l₁ ++ c :: x :: l₂ = (l₁ ++ [c]) ++ x :: l₂ := by simp
  have ht : Threaded (unlinkPreAuthNode s (some c) x).next s.pLimPreAuthList (l₁ ++ c :: l₂) := by
    rw [unlinkPreAuthNode, release_next, next_setNode]
    exact h.threaded.unlink_behind
  rw [hl] at h
  rw [← singleton_append, ← append_assoc] at ht ⊢
  exact h.without ht unlink_count unlink_numEntry unlink_fFree

/-! ### What is kept -/

/-- The links and the flags apart, the nodes and the clock are as before. -/
structure KeepsRest (s s' : LimPreAuth) : Prop where
  numEntry : s'.numEntry = s.numEntry
  ticks : s'.ticks = s.ticks
  node : ∀ i, s'.pTable i = { s.pTable i with
    next := (s'.pTable i).next
    fFree := (s'.pTable i).fFree }

theorem KeepsRest.refl (s : LimPreAuth) : KeepsRest s s := ⟨rfl, rfl, fun _ => rfl⟩

theorem KeepsRest.trans (h : KeepsRest s s') (h' : KeepsRest s' s'') : KeepsRest s s'' := by
  refine ⟨h'.numEntry.trans h.numEntry, h'.ticks.trans h.ticks, fun i => ?_⟩
  rw [h'.node i, h.node i]

theorem keepsRest_setNode (n : PreAuthNode)
    (hn : n = { s.pTable i with next := n.next, fFree := n.fFree }) :
    KeepsRest s (s.setNode i n) := by
  refine ⟨rfl, rfl, fun j => ?_⟩
  rcases eq_or_ne j i with rfl | h
  · simpa using hn
  · simp [h]

theorem keepsRest_unlink : KeepsRest s (unlinkPreAuthNode s p x) := by
  have hrelease : ∀ s, KeepsRest s (limReleasePreAuthNode s x) := fun s =>
    (keepsRest_setNode (i := x) { s.pTable x with fFree := true } rfl).trans
      ⟨rfl, rfl, fun _ => rfl⟩
  cases p with
  | none =>
    have hhead : KeepsRest s (s.setHead (s.next x)) := ⟨rfl, rfl, fun _ => rfl⟩
    exact hhead.trans (hrelease _)
  | some c => exact (keepsRest_setNode _ rfl).trans (hrelease _)

theorem KeepsRest.stale (h : KeepsRest s s') : OpenAuthStale s' i ↔ OpenAuthStale s i := by
  rw [OpenAuthStale, OpenAuthStale, h.node i, h.ticks]

theorem KeepsRest.peer (h : KeepsRest s s') :
    (s'.pTable i).peerMacAddr = (s.pTable i).peerMacAddr := by
  rw [h.node i]

/-! ### The calls -/

/-- **A node is put at the front**, if there is one. -/
theorem newPreAuthNode_holds (h : Holds s l) (t : AniAuthType) (m : LimMlmState) :
    newPreAuthNode s a t m = s ∧ (∀ i < s.numEntry, (s.pTable i).fFree = false) ∨
    ∃ x < s.numEntry, (s.pTable x).fFree = true ∧ Holds (newPreAuthNode s a t m) (x :: l) ∧
      (newPreAuthNode s a t m).numEntry = s.numEntry ∧
      (newPreAuthNode s a t m).ticks = s.ticks ∧
      ∃ q, (newPreAuthNode s a t m).pTable = update s.pTable x
        ⟨q, a, t, m, false, vosTimerGetSystemTicks s.ticks, s.ticks⟩ := by
  cases hf : (range s.numEntry).find? fun i => (s.pTable i).fFree with
  | none =>
    refine Or.inl ⟨by rw [newPreAuthNode, limAcquireFreePreAuthNode, hf], fun i hi => ?_⟩
    have hnf := find?_eq_none.1 hf i (mem_range.2 hi)
    simpa using hnf
  | some x =>
    have hx : x < s.numEntry := mem_range.1 (mem_of_find?_eq_some hf)
    have hfree : (s.pTable x).fFree = true := by simpa using find?_some hf
    have hxl : x ∉ l := fun hm => by simpa [hfree] using ((h.mem x).1 hm).2
    have hnew : newPreAuthNode s a t m = ((s.count 1).setNode x
        ⟨s.pLimPreAuthList, a, t, m, false, vosTimerGetSystemTicks s.ticks, s.ticks⟩).setHead
          (some x) := by
      rw [newPreAuthNode, limAcquireFreePreAuthNode, hf]
      simp [fillPreAuthNode, limAddPreAuthNode, LimPreAuth.setNode, LimPreAuth.count]
    refine Or.inr ⟨x, hx, hfree, ?_, ?_, ?_, s.pLimPreAuthList, ?_⟩
    · rw [hnew]
      refine ⟨?_, ?_, fun i => ?_⟩
      · rw [next_setHead, next_setNode, next_count]
        exact h.threaded.push hxl
      · simp [LimPreAuth.setHead, LimPreAuth.setNode, LimPreAuth.count, h.count]
      · rcases eq_or_ne i x with rfl | hi
        · simpa [LimPreAuth.setHead, LimPreAuth.count] using hx
        · simpa [LimPreAuth.setHead, LimPreAuth.count, hi] using h.mem i
    all_goals rw [hnew]; rfl

/-- **A delete by address** takes away the first node that has it. -/
theorem limDeletePreAuthNode_holds (h : Holds s l) :
    ∃ s', limDeletePreAuthNode s a = some s' ∧ KeepsRest s s' ∧
      ((∀ y ∈ l, (s.pTable y).peerMacAddr ≠ a) ∧ s' = s ∨
        ∃ l₁ x l₂, l = l₁ ++ x :: l₂ ∧ (s.pTable x).peerMacAddr = a ∧ Holds s' (l₁ ++ l₂)) := by
  rw [limDeletePreAuthNode]
  rcases seek_spec (u := none) (q := fun i => a = (s.pTable i).peerMacAddr)
      (k := fun _ i => if a = (s.pTable i).peerMacAddr then Look.found else .goOn)
      h.threaded h.length_le (fun _ _ e => by cases e)
      (fun _ i _ _ hi => if_pos hi) (fun _ i _ _ _ hi => if_neg hi) with
    ⟨l₁, x, l₂, rfl, -, hx, hs⟩ | ⟨hn, hs⟩
  · refine ⟨_, by rw [hs]; rfl, keepsRest_unlink, Or.inr ⟨l₁, x, l₂, rfl, hx.symm, ?_⟩⟩
    rcases eq_nil_or_concat l₁ with rfl | ⟨m, c, rfl⟩
    · exact h.unlink_first
    · have hb : before none (m.concat c) = some c := by simp [before]
      rw [hb]
      rw [concat_eq_append, append_assoc, singleton_append] at h ⊢
      exact h.unlink_behind
  · exact ⟨s, by rw [hs]; rfl, .refl s, Or.inl ⟨fun y hy e => hn y hy e.symm, rfl⟩⟩

/-- **The loop over the open-system nodes**, with the nodes before `q` kept and those from `q` on to be looked at. -/
theorem sweepOpenAuth_spec {n : Nat} {f : Bool} (h : Holds s (l₁ ++ l₂)) (hn : l₂.length ≤ n)
    (hq : q = l₂.head?) (hp : l₁ ≠ [] → p = l₁.getLast?) :
    ∃ s', sweepOpenAuth n s p q f = some (f || l₂.any fun i => OpenAuthStale s i, s') ∧
      KeepsRest s s' ∧ Holds s' (l₁ ++ l₂.filter fun i => ¬ OpenAuthStale s i) := by
  induction l₂ generalizing s l₁ n p q f with
  | nil =>
    subst hq
    exact ⟨s, by cases n <;> simp [sweepOpenAuth], .refl s, by simpa using h⟩
  | cons x l₂ ih =>
    obtain rfl : q = some x := hq
    obtain ⟨n, rfl⟩ := Nat.exists_eq_add_one_of_ne_zero (Nat.ne_zero_of_lt hn)
    have hn := le_of_succ_le_succ hn
    have hnext : s.next x = l₂.head? := h.threaded.after.head
    -- what one deletion does to the tests of the nodes behind
    have hsame : ∀ {t}, KeepsRest s t →
        (fun i => decide (OpenAuthStale t i)) = (fun i => decide (OpenAuthStale s i)) ∧
        (fun i => decide (¬ OpenAuthStale t i)) = fun i => decide (¬ OpenAuthStale s i) :=
      fun ht => ⟨by ext1 i; simp [ht.stale], by ext1 i; simp [ht.stale]⟩
    rw [sweepOpenAuth]
    by_cases hx : OpenAuthStale s x
    · rcases eq_nil_or_concat l₁ with rfl | ⟨m, c, rfl⟩
      · have hk : KeepsRest s (unlinkPreAuthNode s none x) := keepsRest_unlink
        have hu : Holds (unlinkPreAuthNode s none x) ([] ++ l₂) := h.unlink_first
        obtain ⟨s', hs', hk', hh⟩ := ih (f := true) (p := s.next x) hu
          hn hnext (fun e => absurd rfl e)
        refine ⟨s', ?_, hk.trans hk', ?_⟩
        · have hhead : s.pLimPreAuthList = some x := h.threaded.head
          rw [if_pos hx, if_pos hhead, hs']
          simp [hx]
        · rw [(hsame hk).2] at hh
          simpa [hx] using hh
      · have hk : KeepsRest s (unlinkPreAuthNode s (some c) x) := keepsRest_unlink
        have hp : p = some c := by rw [hp (by simp)]; simp
        have hhead : s.pLimPreAuthList ≠ some x := by
          intro e
          have hnd := (nodup_middle.1 h.threaded.nodup)
          rw [h.threaded.head] at e
          refine (nodup_cons.1 hnd).1 (mem_append_left _ ?_)
          cases m <;> simp_all
        rw [concat_eq_append, append_assoc, singleton_append] at h
        have hu := h.unlink_behind
        rw [← singleton_append, ← append_assoc] at hu
        obtain ⟨s', hs', hk', hh⟩ := ih (f := true) (p := some c) hu hn hnext (by simp)
        refine ⟨s', ?_, hk.trans hk', ?_⟩
        · rw [if_pos hx, if_neg hhead, hp, hs']
          simp [hx]
        · rw [(hsame hk).2] at hh
          simpa [hx] using hh
    · have hl : l₁ ++ x :: l₂ = (l₁ ++ [x]) ++ l₂ := by simp
      obtain ⟨s', hs', hk, hh⟩ := ih (f := f) (p := some x) (hl ▸ h) hn hnext (by simp)
      refine ⟨s', ?_, hk, ?_⟩
      · rw [if_neg hx, hs']
        simp [hx]
      · simpa [hx] using hh

/-- **The deletion of the open-system nodes**: those that are stale go, the others stay in order. -/
theorem limDeleteOpenAuthPreAuthNode_holds (h : Holds s l) :
    ∃ s', limDeleteOpenAuthPreAuthNode s = some (l.any fun i => OpenAuthStale s i, s') ∧
      KeepsRest s s' ∧ Holds s' (l.filter fun i => ¬ OpenAuthStale s i) := by
  have h' : Holds s ([] ++ l) := h
  exact sweepOpenAuth_spec h' h.length_le h.threaded.head fun e => absurd rfl e

theorem releaseFrom_spec {n : Nat} (h : Threaded s.next p l) (hn : l.length ≤ n) :
    ∃ s', releaseFrom n p s = some s' ∧ KeepsRest s s' ∧
      s'.gLimNumPreAuthContexts = s.gLimNumPreAuthContexts - l.length ∧
      ∀ i, (s'.pTable i).fFree = if i ∈ l then true else (s.pTable i).fFree := by
  induction l generalizing s p n with
  | nil =>
    obtain rfl : p = none := h
    exact ⟨s, by cases n <;> rfl, .refl s, by simp, by simp⟩
  | cons x l ih =>
    obtain ⟨rfl, h⟩ := h
    obtain ⟨n, rfl⟩ := Nat.exists_eq_add_one_of_ne_zero (Nat.ne_zero_of_lt hn)
    have hk : KeepsRest s (limReleasePreAuthNode s x) :=
      (keepsRest_setNode (i := x) { s.pTable x with fFree := true } rfl).trans
        ⟨rfl, rfl, fun _ => rfl⟩
    obtain ⟨s', hs', hk', hc, hf⟩ := ih (s := limReleasePreAuthNode s x) (p := s.next x)
      (by rw [release_next]; exact h) (le_of_succ_le_succ hn)
    refine ⟨s', hs', hk.trans hk', ?_, fun i => ?_⟩
    · rw [hc]
      simp only [limReleasePreAuthNode, LimPreAuth.count, setNode_count, length_cons]
      omega
    · rw [hf i]
      rcases eq_or_ne i x with rfl | hi
      · simp [limReleasePreAuthNode, LimPreAuth.count]
      · simp [limReleasePreAuthNode, LimPreAuth.count, hi]

/-- **The deletion of the list** leaves it empty. -/
theorem limDeletePreAuthList_holds (h : Holds s l) :
    ∃ s', limDeletePreAuthList s = some s' ∧ KeepsRest s s' ∧ Holds s' [] := by
  obtain ⟨s', hs', hk, hc, hf⟩ := releaseFrom_spec h.threaded h.length_le
  refine ⟨s'.setHead none, by rw [limDeletePreAuthList, hs']; rfl,
    hk.trans ⟨rfl, rfl, fun _ => rfl⟩, rfl, ?_, fun i => ?_⟩
  · rw [LimPreAuth.setHead, hc, h.count]
    simp
  · refine iff_of_false not_mem_nil ?_
    rintro ⟨hi, hfree⟩
    rw [LimPreAuth.setHead, hf i] at hfree
    have hi : i < s.numEntry := hk.numEntry ▸ hi
    by_cases hm : i ∈ l
    · simp [hm] at hfree
    · rw [if_neg hm] at hfree
      exact hm ((h.mem i).2 ⟨hi, hfree⟩)

/-! ### Time stamps -/

/-- **The test of a time stamp** is right exactly when the stamp is read rightly. -/
theorem readsRightly_iff {t now : Nat} (h : t ≤ now) : ReadsRightly t now ↔
    ((vosTimerGetSystemTicks now > limOpenauthTimeout + vosTimerGetSystemTicks t ∨
      vosTimerGetSystemTicks now < vosTimerGetSystemTicks t) ↔ limOpenauthTimeout < now - t) := by
  simp only [ReadsRightly, vosTimerGetSystemTicks, limOpenauthTimeout, tickValues]
  omega

/-- Listed nodes carry the tick at which they were added. -/
def Stamped (s : LimPreAuth) : Prop :=
  ∀ i < s.numEntry, (s.pTable i).fFree = false →
    (s.pTable i).timestamp = vosTimerGetSystemTicks (s.pTable i).stampedAt ∧
      (s.pTable i).stampedAt ≤ s.ticks

theorem Stamped.stale_iff (h : Stamped s) (hi : i < s.numEntry) (hf : (s.pTable i).fFree = false) :
    (OpenAuthStale s i ↔ TimedOut s i) ↔ ((s.pTable i).mlmState = .authenticated →
      (s.pTable i).authType = .openSystem → ReadsRightly (s.pTable i).stampedAt s.ticks) := by
  obtain ⟨ht, hle⟩ := h i hi hf
  rw [readsRightly_iff hle, OpenAuthStale, TimedOut, ht]
  by_cases hm : (s.pTable i).mlmState = .authenticated
  · by_cases ho : (s.pTable i).authType = .openSystem
    · simp [hm, ho]
    · simp [ho]
  · simp [hm]

theorem KeepsRest.stamped (hk : KeepsRest s s') (h : Stamped s)
    (hsub : ∀ i, i < s'.numEntry → (s'.pTable i).fFree = false → (s.pTable i).fFree = false) :
    Stamped s' := by
  intro i hi hf
  rw [hk.node i, hk.ticks]
  exact h i (hk.numEntry ▸ hi) (hsub i hi hf)

theorem newPreAuthNode_stamped (hs : Stamped s) (h : Holds s l) (t : AniAuthType)
    (m : LimMlmState) : Stamped (newPreAuthNode s a t m) := by
  rcases newPreAuthNode_holds (a := a) h t m with ⟨he, -⟩ | ⟨x, -, -, -, hn, htk, q, htab⟩
  · rwa [he]
  · intro i hi hf
    rw [htab] at hf ⊢
    rw [htk]
    rcases eq_or_ne i x with rfl | hne
    · simp
    · rw [update_of_ne hne] at hf ⊢
      exact hs i (hn ▸ hi) hf

/-! ### Runs -/

/-- What every run keeps: the list ends, is counted and holds the nodes that are not free. -/
def Sound (s : LimPreAuth) : Prop := (∃ l, Holds s l) ∧ Stamped s

theorem LimPreAuth.Initial.holds (h : s.Initial) : Holds s [] := by
  refine ⟨h.1, by simp [h.2.1], fun i => iff_of_false not_mem_nil ?_⟩
  rintro ⟨hi, hf⟩
  rw [h.2.2 i hi] at hf
  nomatch hf

theorem LimPreAuth.Initial.stamped (h : s.Initial) : Stamped s := by
  intro i hi hf
  rw [h.2.2 i hi] at hf
  nomatch hf

theorem Holds.keepsStamped (h : Holds s l) (hs : Stamped s) (hk : KeepsRest s s')
    (h' : Holds s' l₁) (hsub : l₁ ⊆ l) : Stamped s' :=
  hk.stamped hs fun i hi hf => ((h.mem i).1 (hsub ((h'.mem i).2 ⟨hi, hf⟩))).2

/-- **One call**, whatever it is: it returns, and keeps the list sound. -/
theorem Sound.call (h : Sound s) (c : PreAuthCall) :
    ∃ s', preAuthCall s c = some s' ∧ Sound s' := by
  obtain ⟨⟨l, h⟩, hs⟩ := h
  have hnew : ∀ a t m, Sound (newPreAuthNode s a t m) := by
    intro a t m
    refine ⟨?_, newPreAuthNode_stamped hs h t m⟩
    rcases newPreAuthNode_holds (a := a) h t m with ⟨he, -⟩ | ⟨x, -, -, hh, -⟩
    · exact ⟨l, he.symm ▸ h⟩
    · exact ⟨_, hh⟩
  cases c with
  | addNode a t m => exact ⟨_, rfl, hnew a t m⟩
  | deleteNode a =>
    obtain ⟨s', hd, hk, ⟨-, rfl⟩ | ⟨l₁, x, l₂, rfl, -, hh⟩⟩ := limDeletePreAuthNode_holds (a := a) h
    · exact ⟨s', hd, ⟨l, h⟩, hs⟩
    · exact ⟨s', hd, ⟨_, hh⟩, h.keepsStamped hs hk hh (List.Sublist.subset (by simp))⟩
  | deleteOpenAuth =>
    obtain ⟨s', hd, hk, hh⟩ := limDeleteOpenAuthPreAuthNode_holds h
    exact ⟨s', by rw [preAuthCall, hd]; rfl, ⟨_, hh⟩,
      h.keepsStamped hs hk hh (filter_subset_self _)⟩
  | deleteList =>
    obtain ⟨s', hd, hk, hh⟩ := limDeletePreAuthList_holds h
    exact ⟨s', hd, ⟨_, hh⟩, h.keepsStamped hs hk hh (nil_subset l)⟩
  | rejectAssociation a add t =>
    cases add with
    | true => exact ⟨_, rfl, hnew a t .authenticated⟩
    | false => exact ⟨_, rfl, ⟨l, h⟩, hs⟩
  | pass n =>
    exact ⟨_, rfl, ⟨l, h.threaded, h.count, h.mem⟩, fun i hi hf => ⟨(hs i hi hf).1, le_add_right_of_le (hs i hi hf).2⟩⟩

/-- **In every run** the list ends, is counted and holds the nodes that are not free. -/
theorem reach_sound {ok : LimPreAuth → PreAuthCall → Prop} (h : preAuthMachine.Reach ok s) :
    Sound s := by
  refine h.invariant Sound (fun s (h : s.Initial) => ⟨⟨[], h.holds⟩, h.stamped⟩) fun s c s' h _ hc => ?_
  obtain ⟨s'', hc', hs⟩ := h.call c
  obtain rfl := some.inj (hc.symm.trans hc')
  exact hs

/-- **The list ends**, in every run: it leads through the nodes that are not free, each once, it is counted rightly, and every call comes to the end of it. -/
theorem preauth_list_ends {ok : LimPreAuth → PreAuthCall → Prop} (h : preAuthMachine.Reach ok s) :
    (∃ l, Holds s l) ∧ ∀ c, ∃ s', preAuthMachine.step s c = some s' ∧ ∃ l, Holds s' l :=
  ⟨(reach_sound h).1, fun c => ((reach_sound h).call c).imp fun _ hc => ⟨hc.1, hc.2.1⟩⟩

/-! ### One node for an address -/

theorem Holds.right_of_sublist (hh : Holds s' l₁) (hk : KeepsRest s s') (hsub : l₁.Sublist l)
    (hnd : (l.map fun i => (s.pTable i).peerMacAddr).Nodup) : PreAuthRight s' := by
  refine ⟨l₁, hh, (hsub.map _).nodup ?_⟩
  simpa [hk.peer] using hnd

theorem newPreAuthNode_right_iff (h : PreAuthRight s) (t : AniAuthType) (m : LimMlmState) :
    PreAuthRight (newPreAuthNode s a t m) ↔ NewPeer s a := by
  obtain ⟨l, h, hnd⟩ := id h
  rcases newPreAuthNode_holds (a := a) h t m with ⟨he, hfull⟩ | ⟨x, hx, hfree, hh, -, -, q, htab⟩
  · refine iff_of_true (he.symm ▸ ⟨l, h, hnd⟩) ?_
    rintro ⟨i, hi, hf⟩
    rw [hfull i hi] at hf
    nomatch hf
  · have hxl : ∀ y ∈ l, y ≠ x := by
      rintro y hy rfl
      simpa [hfree] using ((h.mem y).1 hy).2
    have hmap : (x :: l).map (fun i => ((newPreAuthNode s a t m).pTable i).peerMacAddr)
        = a :: l.map fun i => (s.pTable i).peerMacAddr := by
      rw [htab, map_cons, update_self]
      refine congrArg _ (map_congr_left fun y hy => ?_)
      rw [update_of_ne (hxl y hy)]
    constructor
    · rintro ⟨l', hh', hnd'⟩ - j hj hf hpeer
      obtain rfl := hh'.unique hh
      rw [hmap] at hnd'
      exact (nodup_cons.1 hnd').1 (mem_map.2 ⟨j, (h.mem j).2 ⟨hj, hf⟩, hpeer⟩)
    · intro hnew
      refine ⟨x :: l, hh, ?_⟩
      rw [hmap]
      refine nodup_cons.2 ⟨fun hm => ?_, hnd⟩
      obtain ⟨j, hj, hpeer⟩ := mem_map.1 hm
      obtain ⟨hj, hf⟩ := (h.mem j).1 hj
      exact hnew ⟨x, hx, hfree⟩ j hj hf hpeer

/-- The open-system nodes that are deleted are those that have timed out exactly when the stamps are
read rightly. -/
theorem deleteOpenAuth_right_iff (h : PreAuthRight s) (hs : Stamped s) :
    CallRight s .deleteOpenAuth ↔ PreAuthCallOk s .deleteOpenAuth := by
  obtain ⟨l, h, hnd⟩ := h
  obtain ⟨s', hd, hk, hh⟩ := limDeleteOpenAuthPreAuthNode_holds h
  have hcall : preAuthCall s .deleteOpenAuth = some s' := by rw [preAuthCall, hd]; rfl
  constructor
  · rintro ⟨s'', hd', -, hexact⟩ i hi hf
    obtain rfl := some.inj (hcall.symm.trans hd')
    refine (hs.stale_iff hi hf).1 ?_
    have hl := hh.unique (hexact rfl l h)
    have hm := congrArg (i ∈ ·) hl
    simpa [(h.mem i).2 ⟨hi, hf⟩, not_iff_not] using hm
  · intro hok
    refine ⟨s', hcall, hh.right_of_sublist hk filter_sublist hnd, fun _ l' h' => ?_⟩
    obtain rfl := h.unique h'
    have hfil : (l.filter fun i => ¬ OpenAuthStale s i) = l.filter fun i => ¬ TimedOut s i := by
      refine filter_congr fun i hi => ?_
      obtain ⟨hi, hf⟩ := (h.mem i).1 hi
      simp [(hs.stale_iff hi hf).2 (hok i hi hf)]
    exact hfil ▸ hh

/-- **One call.**  It does what it is to do exactly under the condition. -/
theorem callRight_iff (h : PreAuthRight s) (hs : Stamped s) (c : PreAuthCall) :
    CallRight s c ↔ PreAuthCallOk s c := by
  have hright : ∀ {c s'}, c ≠ .deleteOpenAuth → preAuthCall s c = some s' →
      (CallRight s c ↔ PreAuthRight s') := by
    intro c s' hne hc
    constructor
    · rintro ⟨s'', hc', hr, -⟩
      obtain rfl := some.inj (hc.symm.trans hc')
      exact hr
    · exact fun hr => ⟨s', hc, hr, fun e => absurd e hne⟩
  cases c with
  | addNode a t m =>
    rw [hright (by simp) rfl]
    exact newPreAuthNode_right_iff h t m
  | rejectAssociation a add t =>
    rw [hright (by simp) rfl]
    cases add with
    | true => exact (newPreAuthNode_right_iff h t .authenticated).trans (by simp [PreAuthCallOk])
    | false => exact iff_of_true h fun e => nomatch e
  | deleteOpenAuth => exact deleteOpenAuth_right_iff h hs
  | deleteNode a =>
    obtain ⟨l, h, hnd⟩ := h
    obtain ⟨s', hd, hk, ⟨-, rfl⟩ | ⟨l₁, x, l₂, rfl, -, hh⟩⟩ := limDeletePreAuthNode_holds (a := a) h
    · exact iff_of_true ((hright (c := .deleteNode a) (by simp) hd).2 ⟨l, h, hnd⟩) trivial
    · exact iff_of_true ((hright (c := .deleteNode a) (by simp) hd).2 (hh.right_of_sublist hk (by simp) hnd)) trivial
  | deleteList =>
    obtain ⟨l, h, hnd⟩ := h
    obtain ⟨s', hd, hk, hh⟩ := limDeletePreAuthList_holds h
    exact iff_of_true ((hright (c := .deleteList) (by simp) hd).2
      (hh.right_of_sublist hk (nil_sublist l) hnd)) trivial
  | pass n =>
    obtain ⟨l, h, hnd⟩ := h
    exact iff_of_true ((hright (c := .pass n) (by simp) rfl).2 ⟨l, ⟨h.threaded, h.count, h.mem⟩, hnd⟩) trivial

theorem reach_right (h : preAuthMachine.Reach PreAuthCallOk s) : PreAuthRight s := by
  have hinv : PreAuthRight s ∧ Stamped s := by
    refine h.invariant (fun s => PreAuthRight s ∧ Stamped s) (fun s (h : s.Initial) =>
      ⟨⟨[], h.holds, nodup_nil⟩, h.stamped⟩) fun s c s' ⟨hr, hst⟩ hok hc => ?_
    obtain ⟨s'', hc', hr', -⟩ := (callRight_iff hr hst c).2 hok
    obtain rfl := some.inj (hc.symm.trans hc')
    obtain ⟨l, hl, -⟩ := hr
    obtain ⟨s₁, hc₁, hsound⟩ := Sound.call ⟨⟨l, hl⟩, hst⟩ c
    obtain rfl := some.inj (hc.symm.trans hc₁)
    exact ⟨hr', hsound.2⟩
  exact hinv.1

theorem reach_callRight_iff (h : preAuthMachine.Reach PreAuthCallOk s) (c : PreAuthCall) :
    CallRight s c ↔ PreAuthCallOk s c :=
  callRight_iff (reach_right h) (reach_sound h).2 c

/-- **The pre-authentication list.**  Where all calls have met the condition the list is right, and the
next call does what it is to do exactly when it meets the condition too. -/
theorem preauth_list_iff (s : LimPreAuth) (hs : preAuthMachine.Reach PreAuthCallOk s) :
    PreAuthRight s ∧ ∀ c : PreAuthCall, CallRight s c ↔ PreAuthCallOk s c :=
  ⟨reach_right hs, reach_callRight_iff hs⟩

end

/-- A table of three nodes, at the last tick before the counter wraps. -/
def freshTable : LimPreAuth where
  numEntry := 3
  pTable _ := ⟨none, .zero, .openSystem, .offline, true, 0, 0⟩
  pLimPreAuthList := none
  gLimNumPreAuthContexts := 0
  ticks := tickValues - 1

theorem freshTable_initial : freshTable.Initial := ⟨rfl, rfl, fun _ _ => rfl⟩

def peerA : SirMacAddr := ⟨2, 0, 0, 0, 0, 1⟩
def peerB : SirMacAddr := ⟨2, 0, 0, 0, 0, 2⟩

/-- Two rejected associations of one peer list it twice; and a node that is one tick old when the
counter has wrapped is deleted. -/
theorem repeated_reject_lists_twice :
    (∃ s, preAuthMachine.run freshTable [.rejectAssociation peerA true .openSystem] = some s ∧
      ¬ CallRight s (.rejectAssociation peerA true .openSystem)) ∧
    ∃ s, preAuthMachine.run freshTable
        [.addNode peerA .openSystem .authenticated, .pass 1] = some s ∧
      (limDeleteOpenAuthPreAuthNode s).any (fun r => r.1 = true ∧ r.2.pLimPreAuthList = none) ∧
      ¬ TimedOut s 0 ∧ ¬ CallRight s .deleteOpenAuth := by
  constructor
  · obtain ⟨s, hs, hr, hn⟩ : ∃ s, preAuthMachine.run freshTable
        [.rejectAssociation peerA true .openSystem] = some s ∧
        preAuthMachine.Reach PreAuthCallOk s ∧
          ¬ PreAuthCallOk s (.rejectAssociation peerA true .openSystem) :=
      Machine.exists_reach freshTable_initial (by decide +kernel) (by decide +kernel)
    exact ⟨s, hs, fun h => hn ((reach_callRight_iff hr _).1 h)⟩
  · obtain ⟨s, hs, hr, hd, ht, hn⟩ : ∃ s, preAuthMachine.run freshTable
        [.addNode peerA .openSystem .authenticated, .pass 1] = some s ∧
        preAuthMachine.Reach PreAuthCallOk s ∧
        (limDeleteOpenAuthPreAuthNode s).any (fun r => r.1 = true ∧ r.2.pLimPreAuthList = none) ∧
          ¬ TimedOut s 0 ∧ ¬ PreAuthCallOk s .deleteOpenAuth :=
      Machine.exists_reach freshTable_initial (by decide +kernel) (by decide +kernel)
    exact ⟨s, hs, hd, ht, fun h => hn ((reach_callRight_iff hr _).1 h)⟩

theorem preauth_list_iff_swept :
    ∃ s, preAuthMachine.run freshTable [.pass 1, .addNode peerA .openSystem .authenticated,
        .pass 501, .rejectAssociation peerB true .openSystem, .deleteOpenAuth] = some s ∧
      PreAuthRight s ∧ s.gLimNumPreAuthContexts = 1 ∧ (s.pTable 1).peerMacAddr = peerB :=
  Machine.exists_right (fun s hs => (preauth_list_iff s hs).1) freshTable_initial
    (by decide +kernel) (by decide +kernel)

/-- One peer is listed twice. -/
theorem preauth_list_ends_twice :
    ∃ s, preAuthMachine.run freshTable [.rejectAssociation peerA true .openSystem,
        .rejectAssociation peerA true .openSystem] = some s ∧
      (∃ l, Holds s l) ∧ s.gLimNumPreAuthContexts = 2 :=
  Machine.exists_right (fun _ h => (preauth_list_ends h).1) freshTable_initial
    (Machine.along_true ..) (by decide +kernel)

end Qcacld.Lim

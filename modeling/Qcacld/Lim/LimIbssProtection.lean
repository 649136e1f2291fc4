import Qcacld.Lim.LimProtStaCache

/-!
# Lim — LimIbssProtection

The protection of an IBSS from 11b stations.  Each peer that is added gets an entry in the cache of stations, under the type of an 11b station or under none; when a peer leaves, `limIbssDecideProtectionOnDelete` takes its entry away together with the count of the 11b stations, if it takes the peer to be one of them.

`leaveAll_spec` says when no entry is left of stations that leave one after the other.
-/

namespace Qcacld.Lim
open Qcacld.Support Qcacld.Dph Function List Option Nat

/-! ### The functions -/

structure IbssConfig where
  gLimIbssStaLimit : Nat
  gLimAssocStaLimit : Nat
  maxStation : Nat
  /-- `limGetRfBand` is `SIR_BAND_2_4_GHZ` -/
  band24GHz : Bool
  /-- `limGetPhyMode` is `WNI_CFG_PHY_MODE_11G` -/
  phyMode11g : Bool
  htCapability : Bool
  /-- `IS_DOT11_MODE_HT(dot11mode)` -/
  dot11ModeHt : Bool
  fromllb : Bool
  /-- `gLimProtectionControl` is not `WNI_CFG_FORCE_POLICY_PROTECTION_DISABLE` -/
  protectionControl : Bool
  limit_byte : gLimIbssStaLimit < 2 ^ 8
  stations : 1 ≤ maxStation ∧ maxStation < 2 ^ 8

def IbssConfig.protects (c : IbssConfig) : Bool := c.band24GHz && (c.phyMode11g || c.htCapability)

structure IbssProt where
  protStaCache : Nat → CacheParams
  num11b : Nat
  num11g : Nat
  protectionEnabled : Bool
  llbCoexist : Bool

namespace IbssProt

def setCache (p : IbssProt) (i : Nat) (e : CacheParams) : IbssProt :=
  { p with protStaCache := update p.protStaCache i e }

def count11b (p : IbssProt) (n : Nat) : IbssProt := { p with num11b := n }

def count11g (p : IbssProt) (n : Nat) : IbssProt := { p with num11g := n }

def protect (p : IbssProt) (b : Bool) : IbssProt :=
  { p with
    protectionEnabled := b
    llbCoexist := b }

end IbssProt

def limIbssSetProtection (c : IbssConfig) (enable : Bool) (p : IbssProt) : IbssProt :=
  if !c.fromllb then p
  else if enable then p.protect true
  else if p.llbCoexist then p.protect false
  else p

def limIbssUpdateProtectionParams (p : IbssProt) (peerMacAddr : SirMacAddr)
    (type : ProtStaCacheType) : IbssProt :=
  match seekCache p.protStaCache peerMacAddr with
  | some _ => p
  | none =>
    match freeSlot p.protStaCache with
    | none => p
    | some i =>
      let p := p.setCache i ⟨true, peerMacAddr, type⟩
      match type with
      | .llB => p.count11b (p.num11b + 1)
      | .llG => p.count11g (p.num11g + 1)
      | _ => p

/-- What is read of a station's `tDphHashNode` here. -/
structure StaCaps where
  erpEnabled : Bool
  htCapability : Bool

def limIbssDecideProtection (c : IbssConfig) (staAddr : SirMacAddr) (caps : StaCaps)
    (p : IbssProt) : IbssProt :=
  if c.protects && !caps.erpEnabled && !caps.htCapability then
    limIbssUpdateProtectionParams (limIbssSetProtection c true p) staAddr .llB
  else limIbssUpdateProtectionParams p staAddr .invalid

/-- An 11b station is counted less, if its address is found. -/
def IbssProt.forget (p : IbssProt) (staAddr : SirMacAddr) : IbssProt :=
  match seekCache p.protStaCache staAddr with
  | none => p
  | some i =>
    (p.count11b (p.num11b - 1)).setCache i { p.protStaCache i with active := false }

def limIbssDecideProtectionOnDelete (c : IbssConfig) (staAddr : SirMacAddr) (erpEnabled : Bool)
    (p : IbssProt) : IbssProt :=
  if c.protects && !erpEnabled then
    let p := if 0 < p.num11b then p.forget staAddr else p
    if p.num11b = 0 then limIbssSetProtection c false p else p
  else p

/-! ### Entries of the cache -/

def IbssProt.entries (p : IbssProt) : Set SirMacAddr :=
  (fun i => (p.protStaCache i).addr) '' activeSlots p.protStaCache

def IbssProt.Distinct (p : IbssProt) : Prop :=
  Set.InjOn (fun i => (p.protStaCache i).addr) (activeSlots p.protStaCache)

def leaveAll (c : IbssConfig) (erp : SirMacAddr → Bool) (as : List SirMacAddr) (p : IbssProt) :
    IbssProt :=
  as.foldl (fun p a => limIbssDecideProtectionOnDelete c a (erp a) p) p

/-- **When no entry stays** of stations that leave: those that have one are counted as 11b stations, and no more have one than are counted. -/
def Leaves (c : IbssConfig) (erp : SirMacAddr → Bool) (as : List SirMacAddr) (p : IbssProt) : Prop :=
  (∀ a ∈ as, (seekCache p.protStaCache a).isSome = true → c.protects = true ∧ erp a = false) ∧
    (as.filter fun a => (seekCache p.protStaCache a).isSome).length ≤ p.num11b
deriving Decidable

section
variable {c : IbssConfig} {erp : SirMacAddr → Bool} {as : List SirMacAddr} {a b : SirMacAddr}
  {p : IbssProt} {i : Nat} {e : Bool}

theorem seekCache_isSome : (seekCache p.protStaCache a).isSome = true ↔ a ∈ p.entries := by
  constructor
  · intro h
    obtain ⟨i, hi⟩ := isSome_iff_exists.1 h
    exact ⟨i, (seekCache_some hi).1, (seekCache_some hi).2⟩
  · rintro ⟨i, hi, ha⟩
    cases h : seekCache p.protStaCache a with
    | some j => rfl
    | none => exact absurd ha (seekCache_none.1 h i hi)

@[simp] theorem protStaCache_setCache {e : CacheParams} :
    (p.setCache i e).protStaCache = update p.protStaCache i e := rfl

@[simp] theorem cache_setProtection :
    (limIbssSetProtection c e p).protStaCache = p.protStaCache := by
  rw [limIbssSetProtection]
  split
  · rfl
  · split
    · rfl
    · split <;> rfl

@[simp] theorem num11b_setProtection : (limIbssSetProtection c e p).num11b = p.num11b := by
  rw [limIbssSetProtection]
  split
  · rfl
  · split
    · rfl
    · split <;> rfl

theorem entries_congr {p' : IbssProt} (h : p'.protStaCache = p.protStaCache) :
    p'.entries = p.entries ∧ (p'.Distinct ↔ p.Distinct) := by
  simp [IbssProt.entries, IbssProt.Distinct, h]

theorem seekCache_congr {p' : IbssProt} (h : b ∈ p'.entries ↔ b ∈ p.entries) :
    (seekCache p'.protStaCache b).isSome = (seekCache p.protStaCache b).isSome := by
  rw [Bool.eq_iff_iff, seekCache_isSome, seekCache_isSome]
  exact h

/-! ### A peer is added -/

theorem limIbssUpdateProtectionParams_entries (h : p.Distinct) (type : ProtStaCacheType) :
    (limIbssUpdateProtectionParams p a type).Distinct ∧
      (limIbssUpdateProtectionParams p a type).entries ⊆ insert a p.entries := by
  rw [limIbssUpdateProtectionParams]
  cases hs : seekCache p.protStaCache a with
  | some j => exact ⟨h, Set.subset_insert a p.entries⟩
  | none =>
    cases hf : freeSlot p.protStaCache with
    | none => exact ⟨h, Set.subset_insert a p.entries⟩
    | some i =>
      obtain ⟨hi, hfree⟩ := freeSlot_some hf
      have hne : ∀ j ∈ activeSlots p.protStaCache, j ≠ i := by
        rintro j hj rfl
        exact Bool.false_ne_true (hfree.symm.trans hj.2)
      have hset : (p.setCache i ⟨true, a, type⟩).Distinct ∧
          (p.setCache i ⟨true, a, type⟩).entries ⊆ insert a p.entries := by
        have hslots : activeSlots (p.setCache i ⟨true, a, type⟩).protStaCache
            = insert i (activeSlots p.protStaCache) := activeSlots_take hi rfl
        rw [IbssProt.Distinct, IbssProt.entries, hslots, protStaCache_setCache]
        refine ⟨(Set.injOn_insert fun hm => hne i hm rfl).2 ⟨?_, ?_⟩, ?_⟩
        · intro j hj k hk hjk
          dsimp only at hjk
          rw [update_of_ne (hne j hj), update_of_ne (hne k hk)] at hjk
          exact h hj hk hjk
        · rintro ⟨j, hj, hja⟩
          dsimp only at hja
          rw [update_of_ne (hne j hj), update_self] at hja
          exact seekCache_none.1 hs j hj hja
        · rintro b ⟨j, rfl | hj, rfl⟩
          · dsimp only
            rw [update_self]
            exact Set.mem_insert _ _
          · dsimp only
            rw [update_of_ne (hne j hj)]
            exact Set.mem_insert_of_mem _ ⟨j, hj, rfl⟩
      cases type <;> exact hset

theorem limIbssDecideProtection_entries (h : p.Distinct) (caps : StaCaps) :
    (limIbssDecideProtection c a caps p).Distinct ∧
      (limIbssDecideProtection c a caps p).entries ⊆ insert a p.entries := by
  rw [limIbssDecideProtection]
  split
  · have hcache : (limIbssSetProtection c true p).protStaCache = p.protStaCache :=
      cache_setProtection
    obtain ⟨he, hd⟩ := entries_congr hcache
    rw [← he]
    exact limIbssUpdateProtectionParams_entries (hd.2 h) .llB
  · exact limIbssUpdateProtectionParams_entries h .invalid

/-! ### A peer leaves -/

theorem IbssProt.Distinct.setInactive (h : p.Distinct) (hi : i ∈ activeSlots p.protStaCache)
    (ha : (p.protStaCache i).addr = a) {n : Nat} :
    ((p.count11b n).setCache i { p.protStaCache i with active := false }).Distinct ∧
      ((p.count11b n).setCache i { p.protStaCache i with active := false }).entries
        = p.entries \ {a} := by
  have hslots : activeSlots ((p.count11b n).setCache i
      { p.protStaCache i with active := false }).protStaCache = activeSlots p.protStaCache \ {i} :=
    activeSlots_free rfl
  have haddr : ∀ j, (((p.count11b n).setCache i
      { p.protStaCache i with active := false }).protStaCache j).addr = (p.protStaCache j).addr := by
    intro j
    rw [protStaCache_setCache]
    rcases eq_or_ne j i with rfl | hj
    · rw [update_self]
    · rw [update_of_ne hj]
      rfl
  refine ⟨?_, ?_⟩
  · rw [IbssProt.Distinct, hslots]
    simp only [haddr]
    exact h.mono Set.sdiff_subset
  · ext b
    rw [IbssProt.entries, hslots]
    simp only [haddr]
    constructor
    · rintro ⟨j, ⟨hj, hne⟩, rfl⟩
      exact ⟨⟨j, hj, rfl⟩, fun hb => hne (h hj hi (hb.trans ha.symm))⟩
    · rintro ⟨⟨j, hj, rfl⟩, hne⟩
      exact ⟨j, ⟨hj, fun e => hne (by rw [Set.mem_singleton_iff.1 e]; exact ha)⟩, rfl⟩

/-- The station is taken for an 11b station that is counted. -/
def Counted (c : IbssConfig) (a : SirMacAddr) (erpEnabled : Bool) (p : IbssProt) : Prop :=
  (c.protects = true ∧ erpEnabled = false) ∧ 0 < p.num11b ∧ a ∈ p.entries

theorem disable_cache {r : IbssProt} :
    (if r.num11b = 0 then limIbssSetProtection c false r else r).protStaCache = r.protStaCache ∧
      (if r.num11b = 0 then limIbssSetProtection c false r else r).num11b = r.num11b := by
  split
  · exact ⟨cache_setProtection, num11b_setProtection⟩
  · exact ⟨rfl, rfl⟩

theorem onDelete_counted (h : p.Distinct) (hc : Counted c a e p) :
    (limIbssDecideProtectionOnDelete c a e p).Distinct ∧
      (limIbssDecideProtectionOnDelete c a e p).entries = p.entries \ {a} ∧
        (limIbssDecideProtectionOnDelete c a e p).num11b = p.num11b - 1 := by
  obtain ⟨⟨hp, rfl⟩, hn, i, hi, ha⟩ := hc
  have hforget : p.forget a
      = (p.count11b (p.num11b - 1)).setCache i { p.protStaCache i with active := false } := by
    rw [IbssProt.forget, seekCache_eq h hi ha]
  obtain ⟨hd, he⟩ := h.setInactive hi ha (n := p.num11b - 1)
  obtain ⟨hcache, hnum⟩ := disable_cache (c := c) (r := p.forget a)
  obtain ⟨hent, hdist⟩ := entries_congr hcache
  have hcond : (c.protects && !false) = true := by rw [hp]; rfl
  rw [limIbssDecideProtectionOnDelete, if_pos hcond, if_pos hn]
  refine ⟨hdist.2 (hforget ▸ hd), ?_, ?_⟩
  · rw [hent, hforget, he]
  · rw [hnum, hforget]
    rfl

theorem onDelete_not_counted (hc : ¬ Counted c a e p) :
    (limIbssDecideProtectionOnDelete c a e p).protStaCache = p.protStaCache ∧
      (limIbssDecideProtectionOnDelete c a e p).num11b = p.num11b := by
  rw [limIbssDecideProtectionOnDelete]
  split
  · next hp =>
    have hforget : (if 0 < p.num11b then p.forget a else p) = p := by
      split
      · next hn =>
        rw [IbssProt.forget]
        cases hs : seekCache p.protStaCache a with
        | none => rfl
        | some i =>
          refine absurd ⟨by simpa using hp, hn, ?_⟩ hc
          exact seekCache_isSome.1 (by rw [hs]; rfl)
      · rfl
    rw [hforget]
    exact disable_cache
  · exact ⟨rfl, rfl⟩

/-- **A station leaves**: its entry goes if it is counted, and nothing else changes. -/
theorem onDelete_spec (h : p.Distinct) : (limIbssDecideProtectionOnDelete c a e p).Distinct ∧
      (limIbssDecideProtectionOnDelete c a e p).entries ⊆ p.entries ∧
      ∀ b ≠ a, b ∈ p.entries → b ∈ (limIbssDecideProtectionOnDelete c a e p).entries := by
  by_cases hc : Counted c a e p
  · obtain ⟨hd, he, -⟩ := onDelete_counted h hc
    rw [he]
    exact ⟨hd, Set.sdiff_subset, fun b hb hm => ⟨hm, hb⟩⟩
  · obtain ⟨he, hd⟩ := entries_congr (onDelete_not_counted hc).1
    rw [he]
    exact ⟨hd.2 h, subset_rfl, fun b _ hm => hm⟩

theorem leaves_cons (h : p.Distinct) (ha : a ∉ as) : Leaves c erp (a :: as) p ↔
    (a ∈ p.entries → Counted c a (erp a) p) ∧
      Leaves c erp as (limIbssDecideProtectionOnDelete c a (erp a) p) := by
  have hsame : ∀ b ∈ as, (seekCache
      (limIbssDecideProtectionOnDelete c a (erp a) p).protStaCache b).isSome
        = (seekCache p.protStaCache b).isSome := by
    intro b hb
    obtain ⟨-, hsub, hkeep⟩ := onDelete_spec (c := c) (a := a) (e := erp a) h
    refine seekCache_congr ⟨fun hm => hsub hm, hkeep b ?_⟩
    rintro rfl
    exact ha hb
  have hcount : (as.filter fun b => (seekCache
      (limIbssDecideProtectionOnDelete c a (erp a) p).protStaCache b).isSome)
        = as.filter fun b => (seekCache p.protStaCache b).isSome := filter_congr hsame
  have hall : (∀ b ∈ as, (seekCache
      (limIbssDecideProtectionOnDelete c a (erp a) p).protStaCache b).isSome = true →
        c.protects = true ∧ erp b = false) ↔
      ∀ b ∈ as, (seekCache p.protStaCache b).isSome = true → c.protects = true ∧ erp b = false :=
    forall₂_congr fun b hb => by rw [hsame b hb]
  rw [Leaves, Leaves, hcount, hall, forall_mem_cons, filter_cons]
  by_cases hm : a ∈ p.entries
  · rw [if_pos (seekCache_isSome.2 hm), length_cons, seekCache_isSome]
    by_cases hc : Counted c a (erp a) p
    · rw [(onDelete_counted h hc).2.2]
      have hn := hc.2.1
      have hle : (as.filter fun b => (seekCache p.protStaCache b).isSome).length + 1 ≤ p.num11b ↔
          (as.filter fun b => (seekCache p.protStaCache b).isSome).length ≤ p.num11b - 1 := by
        omega
      rw [hle]
      constructor
      · rintro ⟨⟨-, hr⟩, hl⟩
        exact ⟨fun _ => hc, hr, hl⟩
      · rintro ⟨-, hr, hl⟩
        exact ⟨⟨fun _ => hc.1, hr⟩, hl⟩
    · refine iff_of_false ?_ fun hr => hc (hr.1 hm)
      rintro ⟨⟨hp, -⟩, hle⟩
      exact hc ⟨hp hm, lt_of_lt_of_le (succ_pos _) hle, hm⟩
  · have hc : ¬ Counted c a (erp a) p := fun hc => hm hc.2.2
    rw [if_neg fun hs => hm (seekCache_isSome.1 hs), (onDelete_not_counted hc).2, seekCache_isSome]
    simp [hm]

/-- **Stations leave**, and no entry stays of them exactly under the condition. -/
theorem leaveAll_spec (erp : SirMacAddr → Bool) (h : p.Distinct) (hd : as.Nodup) :
    (leaveAll c erp as p).Distinct ∧ (leaveAll c erp as p).entries ⊆ p.entries ∧
      (∀ b ∈ p.entries, b ∉ as → b ∈ (leaveAll c erp as p).entries) ∧
      ((∀ a ∈ as, a ∉ (leaveAll c erp as p).entries) ↔ Leaves c erp as p) := by
  induction as generalizing p with
  | nil => exact ⟨h, subset_rfl, fun b hb _ => hb, iff_of_true (by simp) (by simp [Leaves])⟩
  | cons a as ih =>
    obtain ⟨ha, hd⟩ := nodup_cons.1 hd
    obtain ⟨hd₁, hsub₁, hkeep₁⟩ := onDelete_spec (c := c) (a := a) (e := erp a) h
    obtain ⟨hd₂, hsub₂, hkeep₂, hiff⟩ := ih hd₁ hd
    have hstep : leaveAll c erp (a :: as) p
        = leaveAll c erp as (limIbssDecideProtectionOnDelete c a (erp a) p) := rfl
    -- the entry of the first is not touched by the others
    have hgone : a ∉ (leaveAll c erp (a :: as) p).entries ↔
        (a ∈ p.entries → Counted c a (erp a) p) := by
      rw [hstep]
      by_cases hc : Counted c a (erp a) p
      · refine iff_of_true (fun hm => ?_) fun _ => hc
        have hm := hsub₂ hm
        rw [(onDelete_counted h hc).2.1] at hm
        exact hm.2 rfl
      · have he := (entries_congr (onDelete_not_counted hc).1).1
        have hm : a ∈ (leaveAll c erp as (limIbssDecideProtectionOnDelete c a (erp a) p)).entries
            ↔ a ∈ p.entries := by
          refine ⟨fun hm => hsub₁ (hsub₂ hm), fun hm => hkeep₂ a ?_ ha⟩
          rwa [he]
        rw [hm]
        exact ⟨fun hn hm => absurd hm hn, fun hi hm => hc (hi hm)⟩
    refine ⟨hd₂, hsub₂.trans hsub₁, fun b hb hn => ?_, ?_⟩
    · rw [mem_cons, not_or] at hn
      exact hkeep₂ b (hkeep₁ b hn.1 hb) hn.2
    · rw [forall_mem_cons, leaves_cons h ha, hgone, ← hiff]
      rfl

end

end Qcacld.Lim

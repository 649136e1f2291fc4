import Qcacld.Support.Ring
import Qcacld.Support.Runs

/-!
# Htt — HttRxRing

The rx ring of a low latency HTT, with and without full reorder offload.  The host posts buffers at `alloc_idx`; without the offload it pops them in order from `sw_rd_idx`, with it the target takes them from the ring at `target_idx` and names each by its physical address, under which a hash table has it.  `fill_cnt` is kept by hand beside all that.

`rx_ring_ok` says that it counts what is posted and not popped, that the ring keeps a slot free, and that a refill that stops short is tried again, in every run in which the target names buffers it was given and a refill that fails for another reason than a lack of buffers finds the retry timer running.
-/

namespace Qcacld.Htt
open Qcacld.Support Function List Option Nat

/-! ### Sizes -/

def httRxRingSizeMin : Nat := 128
def httRxRingSizeMax : Nat := 2048
def httRxAvgFrmBytes : Nat := 1000
def httRxHostLatencyMaxMs : Nat := 20
def httRxHostLatencyWorstLikelyMs : Nat := 10

structure HttRxCfg where
  /-- `ol_cfg_max_thruput_mbps` -/
  maxThruputMbps : Nat
  isFullReorderOffload : Bool
  /-- whether `BUG_ON` stops the system, or the kernel is built without it -/
  bugHalts : Bool

def adfOsIsPwr2 (value : Nat) : Bool := value ^^^ (value - 1) = 2 * value - 1

/-- `adf_os_get_pwr2`: the loop counts the bits of `value`. -/
def adfOsGetPwr2 (value : Nat) : Nat :=
  if adfOsIsPwr2 value then value else 2 ^ (if value = 0 then 0 else value.log2 + 1)

def httRxRingSize (cfg : HttRxCfg) : Nat :=
  let size := cfg.maxThruputMbps * 1000 / (8 * httRxAvgFrmBytes) * httRxHostLatencyMaxMs
  let size := if size < httRxRingSizeMin then httRxRingSizeMin else size
  let size := if size > httRxRingSizeMax then httRxRingSizeMax else size
  adfOsGetPwr2 size

def sizeMask (cfg : HttRxCfg) : Nat := httRxRingSize cfg - 1

def httRxRingFillLevel (cfg : HttRxCfg) : Nat :=
  let size := cfg.maxThruputMbps * 1000 / (8 * httRxAvgFrmBytes) * httRxHostLatencyWorstLikelyMs
  if size ≥ httRxRingSize cfg then httRxRingSize cfg - 1 else size

/-! ### The ring -/

/-- `htt_rx_hash_entry`: a buffer, and the address the target knows it by. -/
structure HttRxHashEntry where
  paddr : Nat
  netbuf : Nat
deriving DecidableEq

structure HttRxRing where
  allocIdx : Nat
  fillCnt : Int
  netbufsRing : Nat → Nat
  paddrsRing : Nat → Nat
  /-- `sw_rd_idx.msdu_payld` -/
  swRdIdx : Nat
  targetIdx : Nat
  /-- the `listhead` of each bucket -/
  hashTable : Nat → List HttRxHashEntry
  refillRefCnt : Int
  /-- whether `refill_retry_timer` runs -/
  refillRetryTimer : Bool
  /-- whether `htt_rx_attach` has filled the ring -/
  filled : Bool
  /-- Ghost: the buffers posted and not popped, in the order they were posted. -/
  posted : List HttRxHashEntry
  /-- Ghost: the entries of the ring that the consumer has not taken. -/
  inRing : Nat
  /-- Ghost: whether the last refill stopped short of the fill level. -/
  stoppedShort : Bool

open HttRxRing

/-- `htt_rx_ring_elems`, on unsigned words -/
def httRxRingElems (cfg : HttRxCfg) (s : HttRxRing) : Nat :=
  (2 ^ 32 + s.allocIdx - s.swRdIdx) % 2 ^ 32 &&& sizeMask cfg

def httRxInOrderRingElems (cfg : HttRxCfg) (s : HttRxRing) : Nat :=
  (2 ^ 32 + s.allocIdx - s.targetIdx) % 2 ^ 32 &&& sizeMask cfg

def rxHashFunction (a : Nat) : Nat := (a >>> 14 ^^^ a >>> 4) &&& 1023

/-! ### Refills -/

/-- What comes of the attempt to get one more buffer. -/
inductive BufTry where
  /-- `adf_nbuf_alloc` fails -/
  | noBuf
  /-- `adf_nbuf_map` fails -/
  | noMap
  /-- The buffer is mapped; with the offload, whether there is a hash entry for it. -/
  | mapped (entry : HttRxHashEntry) (hashElement : Bool)
deriving DecidableEq

open BufTry

/-- `htt_rx_hash_list_insert`, when there is an entry for the buffer -/
def httRxHashListInsert (s : HttRxRing) (entry : HttRxHashEntry) : HttRxRing :=
  let i := rxHashFunction entry.paddr
  { s with hashTable := update s.hashTable i (s.hashTable i ++ [entry]) }

/-- A buffer is posted at `idx`. -/
def HttRxRing.post (s : HttRxRing) (idx : Nat) (entry : HttRxHashEntry) : HttRxRing :=
  { s with
    paddrsRing := update s.paddrsRing idx entry.paddr
    fillCnt := s.fillCnt + 1
    posted := s.posted ++ [entry]
    inRing := s.inRing + 1 }

/-- The loop of `htt_rx_ring_fill_n`, from `idx` on: the ring and the index it leaves.  A hash entry that cannot be had is a bug. -/
def fillLoop (cfg : HttRxCfg) : Nat → (Nat → BufTry) → HttRxRing → Nat → Option (HttRxRing × Nat)
  | 0, _, s, idx => some (s, idx)
  | num + 1, tries, s, idx =>
    match tries 0 with
    | .noBuf => some ({ s with refillRetryTimer := true }, idx)
    | .noMap => some (s, idx)
    | .mapped entry hashElement =>
      if cfg.isFullReorderOffload then
        if hashElement then
          fillLoop cfg num (tries ∘ Nat.succ) ((httRxHashListInsert s entry).post idx entry)
            ((idx + 1) &&& sizeMask cfg)
        else if cfg.bugHalts then none
        else some (s, idx)
      else
        let s := { s with netbufsRing := update s.netbufsRing idx entry.netbuf }
        fillLoop cfg num (tries ∘ Nat.succ) (s.post idx entry) ((idx + 1) &&& sizeMask cfg)

def httRxRingFillN (cfg : HttRxCfg) (s : HttRxRing) (num : Int) (tries : Nat → BufTry) :
    Option HttRxRing :=
  if s.allocIdx > sizeMask cfg ∨ num > httRxRingSize cfg then some s
  else (fillLoop cfg num.toNat tries s s.allocIdx).map fun (s, idx) => { s with allocIdx := idx }

/-- Whether the ring has been filled to its level is noted. -/
def HttRxRing.noteLevel (cfg : HttRxCfg) (s : HttRxRing) : HttRxRing :=
  { s with stoppedShort := s.fillCnt < httRxRingFillLevel cfg }

def httRxMsduBuffReplenish (cfg : HttRxCfg) (s : HttRxRing) (tries : Nat → BufTry) :
    Option HttRxRing := do
  let s := { s with refillRefCnt := s.refillRefCnt - 1 }
  let s ← if s.refillRefCnt = 0 then
      (httRxRingFillN cfg s (httRxRingFillLevel cfg - s.fillCnt) tries).map (·.noteLevel cfg)
    else some s
  return { s with refillRefCnt := s.refillRefCnt + 1 }

/-! ### Pops -/

/-- `htt_rx_netbuf_pop`: the buffer and the ring. -/
def httRxNetbufPop (cfg : HttRxCfg) (s : HttRxRing) : Nat × HttRxRing :=
  let idx := s.swRdIdx
  (s.netbufsRing idx, { s with
    swRdIdx := (idx + 1) &&& sizeMask cfg
    fillCnt := s.fillCnt - 1
    posted := s.posted.tail
    inRing := s.inRing - 1 })

/-- `htt_rx_hash_list_lookup`: the buffer, if there is one, and the ring. -/
def httRxHashListLookup (s : HttRxRing) (paddr : Nat) : Option Nat × HttRxRing :=
  let i := rxHashFunction paddr
  match (s.hashTable i).find? (·.paddr = paddr) with
  | some entry => (some entry.netbuf, { s with
      hashTable := update s.hashTable i ((s.hashTable i).eraseP (·.paddr = paddr)) })
  | none => (none, s)

/-- `htt_rx_in_order_netbuf_pop`.  An address that is not in the table is a bug. -/
def httRxInOrderNetbufPop (cfg : HttRxCfg) (s : HttRxRing) (paddr : Nat) :
    Option (Option Nat × HttRxRing) :=
  let popped := httRxHashListLookup { s with
    fillCnt := s.fillCnt - 1
    posted := s.posted.eraseP (·.paddr = paddr) } paddr
  if popped.1 = none ∧ cfg.bugHalts then none else some popped

/-! ### Runs -/

inductive HttRxEvent where
  /-- the refill of `htt_rx_attach` -/
  | attach (tries : Nat → BufTry)
  | replenish (tries : Nat → BufTry)
  /-- `htt_rx_ring_refill_retry` -/
  | refillRetry (tries : Nat → BufTry)
  | netbufPop
  | inOrderNetbufPop (paddr : Nat)
  /-- the target takes a buffer from the ring -/
  | targetTake

def httRxStep (cfg : HttRxCfg) (s : HttRxRing) : HttRxEvent → Option HttRxRing
  | .attach tries => do
    guard (s.filled = false)
    ((httRxRingFillN cfg { s with filled := true } (httRxRingFillLevel cfg) tries).map
      (·.noteLevel cfg))
  | .replenish tries => do
    guard (s.filled = true)
    httRxMsduBuffReplenish cfg s tries
  | .refillRetry tries => do
    guard (s.filled = true ∧ s.refillRetryTimer = true)
    httRxMsduBuffReplenish cfg { s with refillRetryTimer := false } tries
  | .netbufPop => do
    guard (s.filled = true ∧ cfg.isFullReorderOffload = false)
    return (httRxNetbufPop cfg s).2
  | .inOrderNetbufPop paddr => do
    guard (s.filled = true ∧ cfg.isFullReorderOffload = true)
    ((httRxInOrderNetbufPop cfg s paddr).map (·.2))
  | .targetTake => do
    guard (s.filled = true ∧ cfg.isFullReorderOffload = true ∧ s.targetIdx ≠ s.allocIdx)
    return { s with
      targetIdx := (s.targetIdx + 1) % httRxRingSize cfg
      inRing := s.inRing - 1 }

/-- The ring as `htt_rx_attach` sets it up, before it fills it. -/
def HttRxRing.attached : HttRxRing where
  allocIdx := 0
  fillCnt := 0
  netbufsRing _ := 0
  paddrsRing _ := 0
  swRdIdx := 0
  targetIdx := 0
  hashTable _ := []
  refillRefCnt := 1
  refillRetryTimer := false
  filled := false
  posted := []
  inRing := 0
  stoppedShort := false

def httRxMachine (cfg : HttRxCfg) : Machine HttRxRing HttRxEvent where
  init s := s = .attached
  step := httRxStep cfg

/-! ### What must hold -/

structure RingOk (cfg : HttRxCfg) (s : HttRxRing) : Prop where
  fill_cnt : s.fillCnt = s.posted.length
  /-- What is popped is what was posted first. -/
  oldest : cfg.isFullReorderOffload = false → httRxRingElems cfg s ≠ 0 →
    s.posted.head?.map (·.netbuf) = some (httRxNetbufPop cfg s).1
  /-- With the offload, it is what was posted at the address. -/
  known : cfg.isFullReorderOffload = true → ∀ paddr,
    (httRxHashListLookup s paddr).1 = (s.posted.find? (·.paddr = paddr)).map (·.netbuf)
  fill_level : s.fillCnt ≤ httRxRingFillLevel cfg
  /-- The indices tell how far the producer is ahead of the consumer. -/
  elems : (if cfg.isFullReorderOffload then httRxInOrderRingElems cfg s else httRxRingElems cfg s) =
    s.inRing
  /-- It never catches up. -/
  room : s.inRing < httRxRingSize cfg
  retried : s.stoppedShort = true → s.refillRetryTimer = true

/-! ### When it does -/

def BufTry.posts (cfg : HttRxCfg) : BufTry → Bool
  | .noBuf | .noMap => false
  | .mapped _ hashElement => !cfg.isFullReorderOffload || hashElement

/-- The attempt at which a refill by `num` ends early. -/
def firstFailure (cfg : HttRxCfg) : Nat → (Nat → BufTry) → Option BufTry
  | 0, _ => none
  | num + 1, tries =>
    if (tries 0).posts cfg then firstFailure cfg num (tries ∘ Nat.succ) else some (tries 0)

/-- If a refill fails for another reason than a lack of buffers, the retry timer runs. -/
def RefillOk (cfg : HttRxCfg) (s : HttRxRing) (tries : Nat → BufTry) (timer : Bool) : Prop :=
  ∀ failure ∈ firstFailure cfg (httRxRingFillLevel cfg - s.fillCnt).toNat tries,
    failure = .noBuf ∨ timer = true
deriving Decidable

/-- A refill is as above.  A ring without the offload is not empty when it is popped.  With it, the target names a buffer it was given, and has named no more of them than it has taken from the ring, but for the slots that are never filled. -/
def RxStepOk (cfg : HttRxCfg) (s : HttRxRing) : HttRxEvent → Prop
  | .attach tries | .replenish tries => RefillOk cfg s tries s.refillRetryTimer
  | .refillRetry tries => RefillOk cfg s tries false
  | .netbufPop => httRxRingElems cfg s ≠ 0
  | .inOrderNetbufPop paddr =>
    (cfg.bugHalts = true ∨ ∃ entry ∈ s.posted, entry.paddr = paddr) ∧
      s.inRing < s.posted.length + (httRxRingSize cfg - 1 - httRxRingFillLevel cfg)
  | .targetTake => True

instance (cfg : HttRxCfg) (s : HttRxRing) : (e : HttRxEvent) → Decidable (RxStepOk cfg s e)
  | .attach tries | .replenish tries =>
    inferInstanceAs (Decidable (RefillOk cfg s tries s.refillRetryTimer))
  | .refillRetry tries => inferInstanceAs (Decidable (RefillOk cfg s tries false))
  | .netbufPop => inferInstanceAs (Decidable (_ ≠ _))
  | .inOrderNetbufPop _ => inferInstanceAs (Decidable ((_ ∨ ∃ entry ∈ s.posted, _) ∧ _))
  | .targetTake => .isTrue trivial

/-! ### Sizes in range -/

section Sizes
variable (cfg : HttRxCfg)

theorem adfOsGetPwr2_spec {value : ℕ} (hv : 0 < value) :
    value ≤ adfOsGetPwr2 value ∧ adfOsGetPwr2 value ≤ 2 * value ∧
      ∃ k, adfOsGetPwr2 value = 2 ^ k := by
  unfold adfOsGetPwr2
  by_cases hpwr : adfOsIsPwr2 value = true
  · rw [if_pos hpwr]
    refine ⟨Nat.le_refl value, Nat.le_mul_of_pos_left value Nat.two_pos, ?_⟩
    exact exists_eq_two_pow_of_xor hv (of_decide_eq_true hpwr)
  · rw [if_neg hpwr, if_neg hv.ne']
    have hlog : 2 ^ value.log2 ≤ value := log2_self_le hv.ne'
    refine ⟨lt_log2_self.le, ?_, _, rfl⟩
    rw [pow_succ, mul_comm]
    exact mul_le_mul_left 2 hlog

theorem httRxRingSize_spec : ∃ k ≤ 32, httRxRingSize cfg = 2 ^ k := by
  have hrange : ∀ size, 0 < size → size ≤ 2048 → ∃ k ≤ 32, adfOsGetPwr2 size = 2 ^ k := by
    intro size hpos hmax
    obtain ⟨-, hle, k, hk⟩ := adfOsGetPwr2_spec hpos
    refine ⟨k, ?_, hk⟩
    by_contra hbig
    have hpow : 2 ^ 32 ≤ 2 ^ k := Nat.pow_le_pow_right Nat.two_pos (Nat.le_of_not_le hbig)
    omega
  unfold httRxRingSize httRxRingSizeMin httRxRingSizeMax
  dsimp only
  split_ifs <;> exact hrange _ (by omega) (by omega)

theorem httRxRingSize_pos : 0 < httRxRingSize cfg := by
  obtain ⟨k, -, hk⟩ := httRxRingSize_spec cfg
  rw [hk]
  exact Nat.pow_pos Nat.two_pos

theorem httRxRingFillLevel_le : httRxRingFillLevel cfg ≤ httRxRingSize cfg - 1 := by
  unfold httRxRingFillLevel
  dsimp only
  split
  · exact le_refl _
  · rename_i hlt
    exact le_sub_one_of_lt (not_le.1 hlt)

end Sizes

/-! ### What the ring and the table hold -/

/-- The index up to which the ring has been emptied. -/
def consumerIdx (cfg : HttRxCfg) (s : HttRxRing) : Nat :=
  if cfg.isFullReorderOffload then s.targetIdx else s.swRdIdx

/-- The ring with its producer at `idx`, as it is while it is filled. -/
structure Filling (cfg : HttRxCfg) (s : HttRxRing) (idx : Nat) : Prop where
  fillCnt : s.fillCnt = s.posted.length
  level : s.posted.length ≤ httRxRingFillLevel cfg
  spans : Spans (httRxRingSize cfg) (consumerIdx cfg s) idx s.inRing
  /-- Without the offload, the slots hold what is posted. -/
  slots : cfg.isFullReorderOffload = false →
    (ringIdxs (httRxRingSize cfg) s.swRdIdx s.inRing).map s.netbufsRing = s.posted.map (·.netbuf)
  /-- With it, the buckets do. -/
  table : cfg.isFullReorderOffload = true →
    ∀ i, s.hashTable i = s.posted.filter (rxHashFunction ·.paddr = i)
  /-- The slots that are never filled make up for what the target has named and not taken. -/
  ahead : s.inRing ≤ s.posted.length + (httRxRingSize cfg - 1 - httRxRingFillLevel cfg)

structure Kept (cfg : HttRxCfg) (s : HttRxRing) : Prop where
  filling : Filling cfg s s.allocIdx
  refCnt : s.refillRefCnt = 1
  retried : s.stoppedShort = true → s.refillRetryTimer = true
  empty : s.filled = false → s.posted = []

section Fill
variable {cfg : HttRxCfg} {s s' : HttRxRing} {idx idx' num : ℕ} {entry : HttRxHashEntry}
  {tries : ℕ → BufTry}

theorem next_slot (cfg : HttRxCfg) (idx : ℕ) :
    (idx + 1) &&& sizeMask cfg = (idx + 1) % httRxRingSize cfg := by
  obtain ⟨k, -, hk⟩ := httRxRingSize_spec cfg
  rw [sizeMask, hk, and_two_pow_sub_one_eq_mod]

theorem Filling.room (h : Filling cfg s idx) (hlevel : s.posted.length < httRxRingFillLevel cfg) :
    s.inRing + 1 < httRxRingSize cfg := by
  have hahead := h.ahead
  have hle := httRxRingFillLevel_le cfg
  omega

theorem Filling.frame (h : Filling cfg s idx) (allocIdx : ℕ) (refillRefCnt : ℤ)
    (refillRetryTimer filled stoppedShort : Bool) :
    Filling cfg { s with
      allocIdx := allocIdx
      refillRefCnt := refillRefCnt
      refillRetryTimer := refillRetryTimer
      filled := filled
      stoppedShort := stoppedShort } idx :=
  ⟨h.fillCnt, h.level, h.spans, h.slots, h.table, h.ahead⟩

theorem Filling.post_spans (h : Filling cfg s idx)
    (hlevel : s.posted.length < httRxRingFillLevel cfg) :
    Spans (httRxRingSize cfg) (consumerIdx cfg s) ((idx + 1) &&& sizeMask cfg) (s.inRing + 1) := by
  rw [next_slot]
  exact h.spans.push (h.room hlevel)

theorem Filling.post_ahead (h : Filling cfg s idx) : s.inRing + 1 ≤
    (s.posted ++ [entry]).length + (httRxRingSize cfg - 1 - httRxRingFillLevel cfg) := by
  have hahead := h.ahead
  rw [length_append, length_singleton]
  omega

theorem Filling.post_slot (h : Filling cfg s idx) (hoff : cfg.isFullReorderOffload = false)
    (hlevel : s.posted.length < httRxRingFillLevel cfg) :
    Filling cfg (HttRxRing.post { s with
      netbufsRing := update s.netbufsRing idx entry.netbuf } idx entry)
      ((idx + 1) &&& sizeMask cfg) where
  fillCnt := by simp [post, h.fillCnt]
  level := by simpa [post] using succ_le_of_lt hlevel
  spans := h.post_spans hlevel
  slots _ := by
    have hspans : Spans (httRxRingSize cfg) s.swRdIdx idx s.inRing := by
      simpa [consumerIdx, hoff] using h.spans
    have hslots := h.slots hoff
    simp only [post, map_append, map_singleton, ← hslots]
    exact hspans.map_push
  table hon := nomatch hoff.symm.trans hon
  ahead := h.post_ahead

theorem Filling.post_bucket (h : Filling cfg s idx) (hon : cfg.isFullReorderOffload = true)
    (hlevel : s.posted.length < httRxRingFillLevel cfg) :
    Filling cfg ((httRxHashListInsert s entry).post idx entry) ((idx + 1) &&& sizeMask cfg) where
  fillCnt := by simp [post, httRxHashListInsert, h.fillCnt]
  level := by simpa [post, httRxHashListInsert] using succ_le_of_lt hlevel
  spans := h.post_spans hlevel
  slots hoff := nomatch hoff.symm.trans hon
  table _ i := by
    simp only [post, httRxHashListInsert, filter_append]
    by_cases hi : i = rxHashFunction entry.paddr
    · subst hi
      simp [h.table hon]
    · rw [update_of_ne hi, h.table hon i]
      simp [Ne.symm hi]
  ahead := h.post_ahead

/-- What the loop of a refill by `num` leaves. -/
structure Filled (cfg : HttRxCfg) (num : ℕ) (tries : ℕ → BufTry) (s s' : HttRxRing) (idx' : ℕ) :
    Prop where
  filling : Filling cfg s' idx'
  refCnt : s'.refillRefCnt = s.refillRefCnt
  filled : s'.filled = s.filled
  full : firstFailure cfg num tries = none → s'.fillCnt = s.fillCnt + num
  timer : ∀ failure ∈ firstFailure cfg num tries,
    failure = .noBuf ∨ s.refillRetryTimer = true → s'.refillRetryTimer = true

theorem firstFailure_succ_of_posts (h : (tries 0).posts cfg = true) :
    firstFailure cfg (num + 1) tries = firstFailure cfg num (tries ∘ succ) :=
  if_pos h

theorem firstFailure_succ_of_not (h : (tries 0).posts cfg = false) :
    firstFailure cfg (num + 1) tries = some (tries 0) :=
  if_neg (by simp [h])

theorem Filled.posted {s₁ : HttRxRing} (h : Filled cfg num (tries ∘ succ) s₁ s' idx')
    (hposts : (tries 0).posts cfg = true) (href : s₁.refillRefCnt = s.refillRefCnt)
    (hfilled : s₁.filled = s.filled) (hcnt : s₁.fillCnt = s.fillCnt + 1)
    (htimer : s₁.refillRetryTimer = s.refillRetryTimer) : Filled cfg (num + 1) tries s s' idx' where
  filling := h.filling
  refCnt := h.refCnt.trans href
  filled := h.filled.trans hfilled
  full hnone := by
    rw [firstFailure_succ_of_posts hposts] at hnone
    rw [h.full hnone, hcnt]
    push_cast
    omega
  timer := by
    rw [firstFailure_succ_of_posts hposts, ← htimer]
    exact h.timer

theorem Filled.stopped (h : Filling cfg s' idx) (hno : (tries 0).posts cfg = false)
    (href : s'.refillRefCnt = s.refillRefCnt) (hfilled : s'.filled = s.filled)
    (htimer : tries 0 = .noBuf ∨ s.refillRetryTimer = true → s'.refillRetryTimer = true) :
    Filled cfg (num + 1) tries s s' idx where
  filling := h
  refCnt := href
  filled := hfilled
  full hnone := by
    rw [firstFailure_succ_of_not hno] at hnone
    cases hnone
  timer failure hfailure := by
    rw [firstFailure_succ_of_not hno] at hfailure
    cases hfailure
    exact htimer

/-- **The loop of a refill.** -/
theorem fillLoop_spec (h : Filling cfg s idx)
    (hroom : s.posted.length + num ≤ httRxRingFillLevel cfg)
    (hloop : fillLoop cfg num tries s idx = some (s', idx')) : Filled cfg num tries s s' idx' := by
  induction num generalizing tries s idx with
  | zero =>
    cases hloop
    exact ⟨h, rfl, rfl, fun _ => (Int.add_zero _).symm, fun _ hf => nomatch hf⟩
  | succ num ih =>
    have hlevel : s.posted.length < httRxRingFillLevel cfg := by omega
    have hroom' : ∀ entry, (s.posted ++ [entry]).length + num ≤ httRxRingFillLevel cfg := by
      intro entry
      rw [length_append, length_singleton]
      omega
    rw [fillLoop] at hloop
    cases htry : tries 0 with
    | noBuf =>
      simp only [htry] at hloop
      cases hloop
      exact .stopped (h.frame _ _ _ _ _) (by simp [htry, posts]) rfl rfl fun _ => rfl
    | noMap =>
      simp only [htry] at hloop
      cases hloop
      exact .stopped h (by simp [htry, posts]) rfl rfl fun ht => by simpa [htry] using ht
    | mapped entry hashElement =>
      simp only [htry] at hloop
      cases hon : cfg.isFullReorderOffload with
      | false =>
        rw [if_neg (by simp [hon])] at hloop
        have hposts : (tries 0).posts cfg = true := by simp [htry, posts, hon]
        exact (ih (h.post_slot hon hlevel) (hroom' entry) hloop).posted hposts rfl rfl rfl rfl
      | true =>
        rw [if_pos hon] at hloop
        cases hashElement with
        | true =>
          rw [if_pos rfl] at hloop
          have hposts : (tries 0).posts cfg = true := by simp [htry, posts]
          exact (ih (h.post_bucket hon hlevel) (hroom' entry) hloop).posted hposts rfl rfl rfl rfl
        | false =>
          rw [if_neg Bool.false_ne_true] at hloop
          split at hloop
          · cases hloop
          · cases hloop
            exact .stopped h (by simp [htry, posts, hon]) rfl rfl fun ht => by simpa [htry] using ht

theorem httRxRingFillN_spec (h : Filling cfg s s.allocIdx)
    (hfill : httRxRingFillN cfg s (httRxRingFillLevel cfg - s.fillCnt) tries = some s') :
    Filled cfg (httRxRingFillLevel cfg - s.fillCnt).toNat tries s s' s'.allocIdx := by
  have hle := httRxRingFillLevel_le cfg
  have hidx := h.spans.producer_lt
  have hcnt := h.fillCnt
  have hlevel := h.level
  rw [httRxRingFillN, if_neg (by unfold sizeMask; omega)] at hfill
  obtain ⟨⟨s₁, idx₁⟩, hloop, hs'⟩ := map_eq_some_iff.1 hfill
  have hroom : s.posted.length + (httRxRingFillLevel cfg - s.fillCnt).toNat ≤
      httRxRingFillLevel cfg := by omega
  obtain ⟨hf, href, hfilled, hfull, htimer⟩ := fillLoop_spec h hroom hloop
  subst hs'
  exact ⟨hf.frame _ _ _ _ _, href, hfilled, hfull, htimer⟩

theorem Filled.retried (h : Filled cfg (httRxRingFillLevel cfg - s.fillCnt).toNat tries s s' idx)
    (hle : s.fillCnt ≤ httRxRingFillLevel cfg) (hok : RefillOk cfg s tries s.refillRetryTimer) :
    (s'.noteLevel cfg).stoppedShort = true → s'.refillRetryTimer = true := by
  intro hshort
  have hless : s'.fillCnt < httRxRingFillLevel cfg := of_decide_eq_true hshort
  cases hfailure : firstFailure cfg (httRxRingFillLevel cfg - s.fillCnt).toNat tries with
  | none =>
    have hfull := h.full hfailure
    omega
  | some failure => exact h.timer failure hfailure (hok failure hfailure)

theorem Filling.fillCnt_le (h : Filling cfg s idx) : s.fillCnt ≤ httRxRingFillLevel cfg := by
  rw [h.fillCnt]
  exact Int.ofNat_le.2 h.level

theorem Kept.attach (h : Kept cfg s) (hfilled : s.filled = false)
    (hok : RefillOk cfg s tries s.refillRetryTimer)
    (hstep : (httRxRingFillN cfg { s with filled := true } (httRxRingFillLevel cfg) tries).map
      (·.noteLevel cfg) = some s') : Kept cfg s' := by
  obtain ⟨s₁, hfill, rfl⟩ := map_eq_some_iff.1 hstep
  have hzero : s.fillCnt = 0 := by rw [h.filling.fillCnt, h.empty hfilled]; rfl
  have hf₀ : Filling cfg { s with filled := true } s.allocIdx := h.filling.frame _ _ _ _ _
  have hnum : (httRxRingFillLevel cfg : ℤ) = httRxRingFillLevel cfg - s.fillCnt := by
    rw [hzero, Int.sub_zero]
  rw [hnum] at hfill
  have hf := httRxRingFillN_spec hf₀ hfill
  exact ⟨hf.filling.frame _ _ _ _ _, hf.refCnt.trans h.refCnt, hf.retried h.filling.fillCnt_le hok,
    fun hno => nomatch hno.symm.trans hf.filled⟩

theorem Filling.replenish (h : Filling cfg s s.allocIdx) (href : s.refillRefCnt = 1)
    (hfilled : s.filled = true) (hok : RefillOk cfg s tries s.refillRetryTimer)
    (hstep : httRxMsduBuffReplenish cfg s tries = some s') : Kept cfg s' := by
  have hzero : s.refillRefCnt - 1 = 0 := by rw [href]; rfl
  simp only [httRxMsduBuffReplenish, hzero, if_true] at hstep
  obtain ⟨s₂, hs₂, hs'⟩ := bind_eq_some_iff.1 hstep
  obtain ⟨s₁, hfill, rfl⟩ := map_eq_some_iff.1 hs₂
  cases hs'
  have hf₀ : Filling cfg { s with refillRefCnt := 0 } s.allocIdx := h.frame _ _ _ _ _
  have hf := httRxRingFillN_spec hf₀ hfill
  have href₁ : s₁.refillRefCnt = 0 := hf.refCnt
  refine ⟨hf.filling.frame _ _ _ _ _, ?_, hf.retried h.fillCnt_le hok,
    fun hno => nomatch hno.symm.trans (hf.filled.trans hfilled)⟩
  simp [noteLevel, href₁]

end Fill

section Pop
variable {cfg : HttRxCfg} {s s' : HttRxRing}

theorem masked_eq {idx i len : ℕ} (h : Spans (httRxRingSize cfg) i idx len) :
    (2 ^ 32 + idx - i) % 2 ^ 32 &&& sizeMask cfg = len := by
  obtain ⟨k, hk32, hk⟩ := httRxRingSize_spec cfg
  exact h.masked hk hk32

theorem Kept.elems (h : Kept cfg s) :
    (if cfg.isFullReorderOffload then httRxInOrderRingElems cfg s else httRxRingElems cfg s) =
      s.inRing := by
  have hspans := h.filling.spans
  rw [consumerIdx] at hspans
  split at hspans
  · rename_i hon
    rw [if_pos hon]
    exact masked_eq hspans
  · rename_i hoff
    rw [if_neg hoff]
    exact masked_eq hspans

theorem Kept.oldest (h : Kept cfg s) (hoff : cfg.isFullReorderOffload = false)
    (hne : httRxRingElems cfg s ≠ 0) : ∃ entry posted n, s.posted = entry :: posted ∧
      s.inRing = n + 1 ∧ Spans (httRxRingSize cfg) s.swRdIdx s.allocIdx (n + 1) ∧
      s.netbufsRing s.swRdIdx = entry.netbuf ∧
      (ringIdxs (httRxRingSize cfg) ((s.swRdIdx + 1) % httRxRingSize cfg) n).map s.netbufsRing =
        posted.map (·.netbuf) := by
  have helems := h.elems
  rw [if_neg (by simp [hoff])] at helems
  have hslots := h.filling.slots hoff
  have hspans : Spans (httRxRingSize cfg) s.swRdIdx s.allocIdx s.inRing := by
    simpa [consumerIdx, hoff] using h.filling.spans
  obtain ⟨n, hn⟩ : ∃ n, s.inRing = n + 1 := exists_eq_succ_of_ne_zero (helems ▸ hne)
  rw [hn] at hspans
  rw [hn, ringIdxs_succ hspans.consumer_lt, map_cons] at hslots
  cases hposted : s.posted with
  | nil => simp [hposted] at hslots
  | cons entry posted =>
    rw [hposted, map_cons] at hslots
    obtain ⟨hfirst, hrest⟩ := cons_eq_cons.1 hslots
    exact ⟨entry, posted, n, rfl, hn, hspans, hfirst, hrest⟩

theorem Kept.netbufPop (h : Kept cfg s) (hfilled : s.filled = true)
    (hoff : cfg.isFullReorderOffload = false) (hne : httRxRingElems cfg s ≠ 0) :
    Kept cfg (httRxNetbufPop cfg s).2 := by
  obtain ⟨entry, posted, n, hposted, hn, hspans, -, hrest⟩ := h.oldest hoff hne
  have hcnt := h.filling.fillCnt
  have hlevel := h.filling.level
  have hahead := h.filling.ahead
  rw [hposted, length_cons] at hcnt hlevel hahead
  refine ⟨⟨?_, ?_, ?_, fun _ => ?_, fun hon => (nomatch hoff.symm.trans hon), ?_⟩, h.refCnt,
    h.retried, fun hno => nomatch hno.symm.trans hfilled⟩
  · simp [httRxNetbufPop, hposted, hcnt]
  · simpa [httRxNetbufPop, hposted] using le_of_succ_le hlevel
  · simpa [httRxNetbufPop, consumerIdx, hoff, next_slot, hn] using hspans.pop
  · simpa [httRxNetbufPop, next_slot, hn, hposted] using hrest
  · simp only [httRxNetbufPop, hposted, tail_cons]
    omega

theorem Kept.netbufPop_eq (h : Kept cfg s) (hoff : cfg.isFullReorderOffload = false)
    (hne : httRxRingElems cfg s ≠ 0) :
    s.posted.head?.map (·.netbuf) = some (httRxNetbufPop cfg s).1 := by
  obtain ⟨entry, posted, n, hposted, -, -, hfirst, -⟩ := h.oldest hoff hne
  rw [hposted, head?_cons, map_some, ← hfirst]
  rfl

section Lists
variable {α : Type*} {p q : α → Bool} {l : List α}

theorem eraseP_of_find? {a : α} (h : l.find? p = some a) :
    ∃ before after, l = before ++ a :: after ∧ l.eraseP p = before ++ after := by
  obtain ⟨hp, before, after, rfl, hbefore⟩ := find?_eq_some_iff_append.1 h
  refine ⟨before, after, rfl, ?_⟩
  rw [eraseP_append_right _ fun b hb => by simpa using hbefore b hb, eraseP_cons_of_pos hp]

theorem filter_eraseP (h : ∀ a, p a = true → q a = true) :
    (l.eraseP p).filter q = (l.filter q).eraseP p := by
  induction l with
  | nil => rfl
  | cons a l ih =>
    cases hp : p a with
    | true => simp [hp, h a hp]
    | false => cases hq : q a <;> simp [hp, hq, ih]

theorem filter_eraseP_of_not (h : ∀ a, p a = true → q a = false) :
    (l.eraseP p).filter q = l.filter q := by
  induction l with
  | nil => rfl
  | cons a l ih =>
    cases hp : p a with
    | true => simp [hp, h a hp]
    | false => cases hq : q a <;> simp [hp, hq, ih]

end Lists

theorem lookup_eq {paddr : ℕ} {posted : List HttRxHashEntry}
    (htable : ∀ i, s.hashTable i = posted.filter (rxHashFunction ·.paddr = i)) :
    (httRxHashListLookup s paddr).1 = (posted.find? (·.paddr = paddr)).map (·.netbuf) := by
  have hfind : (s.hashTable (rxHashFunction paddr)).find? (·.paddr = paddr) =
      posted.find? (·.paddr = paddr) := by
    rw [htable, find?_filter]
    congr 1
    ext entry
    by_cases hp : entry.paddr = paddr <;> simp [hp]
  rw [httRxHashListLookup, hfind]
  cases posted.find? (·.paddr = paddr) <;> rfl

theorem lookup_table (paddr : ℕ) {posted : List HttRxHashEntry}
    (htable : ∀ i, s.hashTable i = posted.filter (rxHashFunction ·.paddr = i)) (i : ℕ) :
    (httRxHashListLookup s paddr).2.hashTable i =
      (posted.eraseP (·.paddr = paddr)).filter (rxHashFunction ·.paddr = i) := by
  have hbucket : (s.hashTable (rxHashFunction paddr)).eraseP (·.paddr = paddr) =
      (posted.eraseP (·.paddr = paddr)).filter (rxHashFunction ·.paddr = rxHashFunction paddr) := by
    rw [htable, filter_eraseP]
    intro entry hp
    simp [of_decide_eq_true hp]
  have hother : i ≠ rxHashFunction paddr →
      s.hashTable i = (posted.eraseP (·.paddr = paddr)).filter (rxHashFunction ·.paddr = i) := by
    intro hi
    rw [htable, filter_eraseP_of_not]
    intro entry hp
    simp [of_decide_eq_true hp, Ne.symm hi]
  rw [httRxHashListLookup]
  split
  · dsimp only
    by_cases hi : i = rxHashFunction paddr
    · subst hi
      rw [update_self, hbucket]
    · rw [update_of_ne hi, hother hi]
  · rename_i hnone
    by_cases hi : i = rxHashFunction paddr
    · subst hi
      rw [← hbucket, eraseP_of_forall_not]
      simpa using hnone
    · exact hother hi

theorem lookup_frame (s : HttRxRing) (paddr : ℕ) :
    ∃ table, (httRxHashListLookup s paddr).2 = { s with hashTable := table } := by
  rw [httRxHashListLookup]
  split
  · exact ⟨_, rfl⟩
  · exact ⟨s.hashTable, rfl⟩

theorem Kept.inOrderNetbufPop {paddr : ℕ} (h : Kept cfg s) (hfilled : s.filled = true)
    (hon : cfg.isFullReorderOffload = true)
    (hknown : cfg.bugHalts = true ∨ ∃ entry ∈ s.posted, entry.paddr = paddr)
    (hahead : s.inRing < s.posted.length + (httRxRingSize cfg - 1 - httRxRingFillLevel cfg))
    (hstep : (httRxInOrderNetbufPop cfg s paddr).map (·.2) = some s') : Kept cfg s' := by
  have hf := h.filling
  obtain ⟨popped, hpop, rfl⟩ := map_eq_some_iff.1 hstep
  rw [httRxInOrderNetbufPop] at hpop
  -- the count goes down before the table is looked at
  set s₀ : HttRxRing := { s with
    fillCnt := s.fillCnt - 1
    posted := s.posted.eraseP (·.paddr = paddr) } with hs₀
  have htable₀ : ∀ i, s₀.hashTable i = s.posted.filter (rxHashFunction ·.paddr = i) := hf.table hon
  split at hpop
  · cases hpop
  · rename_i hgoes
    cases hpop
    have hmem : ∃ entry ∈ s.posted, entry.paddr = paddr := by
      refine hknown.elim (fun hbug => ?_) id
      by_contra hnone
      refine hgoes ⟨?_, hbug⟩
      rw [lookup_eq htable₀, map_eq_none_iff, find?_eq_none]
      intro entry hentry hp
      exact hnone ⟨entry, hentry, of_decide_eq_true hp⟩
    obtain ⟨entry, hentry, hpaddr⟩ := hmem
    have hlength : (s.posted.eraseP (·.paddr = paddr)).length = s.posted.length - 1 :=
      length_eraseP_of_mem hentry (by simpa using hpaddr)
    have hpos : 0 < s.posted.length := length_pos_of_mem hentry
    have hcnt := hf.fillCnt
    have htable := lookup_table paddr htable₀
    obtain ⟨table, hframe⟩ := lookup_frame s₀ paddr
    rw [hframe] at htable ⊢
    refine ⟨⟨?_, ?_, hf.spans, fun hoff => (nomatch hoff.symm.trans hon), fun _ => htable, ?_⟩,
      h.refCnt, h.retried, fun hno => nomatch hno.symm.trans hfilled⟩
    · simp only [hs₀, hlength]
      omega
    · exact le_trans (hlength ▸ sub_le _ 1) hf.level
    · simp only [hs₀, hlength]
      omega

theorem Kept.targetTake (h : Kept cfg s) (hfilled : s.filled = true)
    (hon : cfg.isFullReorderOffload = true) (hne : s.targetIdx ≠ s.allocIdx) :
    Kept cfg { s with
      targetIdx := (s.targetIdx + 1) % httRxRingSize cfg
      inRing := s.inRing - 1 } := by
  have hspans : Spans (httRxRingSize cfg) s.targetIdx s.allocIdx s.inRing := by
    simpa [consumerIdx, hon] using h.filling.spans
  obtain ⟨n, hn⟩ : ∃ n, s.inRing = n + 1 :=
    exists_eq_succ_of_ne_zero fun hzero => hne (hspans.eq_iff.2 hzero).symm
  rw [hn] at hspans
  have hf := h.filling
  refine ⟨⟨hf.fillCnt, hf.level, ?_, fun hoff => (nomatch hoff.symm.trans hon), hf.table, ?_⟩,
    h.refCnt, h.retried, fun hno => nomatch hno.symm.trans hfilled⟩
  · simpa [consumerIdx, hon, hn] using hspans.pop
  · exact le_trans (sub_le _ 1) hf.ahead

theorem Kept.ok (h : Kept cfg s) : RingOk cfg s where
  fill_cnt := h.filling.fillCnt
  oldest := h.netbufPop_eq
  known hon _ := lookup_eq (h.filling.table hon)
  fill_level := h.filling.fillCnt_le
  elems := h.elems
  room := h.filling.spans.room
  retried := h.retried

end Pop

/-! ### Steps and runs -/

section Step
variable {cfg : HttRxCfg} {s s' : HttRxRing} {e : HttRxEvent}

theorem kept_attached (cfg : HttRxCfg) : Kept cfg .attached where
  filling := {
    fillCnt := rfl
    level := zero_le _
    spans := by
      have hzero : consumerIdx cfg .attached = 0 := by simp [consumerIdx, attached]
      rw [hzero]
      exact spans_zero (httRxRingSize_pos cfg)
    slots := fun _ => rfl
    table := fun _ _ => rfl
    ahead := zero_le _ }
  refCnt := rfl
  retried := nofun
  empty _ := rfl

/-- **What every step keeps.** -/
theorem Kept.step (h : Kept cfg s) (hok : RxStepOk cfg s e) (hstep : httRxStep cfg s e = some s') :
    Kept cfg s' := by
  cases e with
  | attach tries =>
    obtain ⟨hfilled, hstep⟩ := guard_bind_eq_some.1 hstep
    exact h.attach hfilled hok hstep
  | replenish tries =>
    obtain ⟨hfilled, hstep⟩ := guard_bind_eq_some.1 hstep
    exact h.filling.replenish h.refCnt hfilled hok hstep
  | refillRetry tries =>
    obtain ⟨⟨hfilled, -⟩, hstep⟩ := guard_bind_eq_some.1 hstep
    have hfired : Filling cfg { s with refillRetryTimer := false } s.allocIdx :=
      h.filling.frame _ _ _ _ _
    exact hfired.replenish h.refCnt hfilled hok hstep
  | netbufPop =>
    obtain ⟨⟨hfilled, hoff⟩, rfl⟩ := guarded_eq_some.1 hstep
    exact h.netbufPop hfilled hoff hok
  | inOrderNetbufPop paddr =>
    obtain ⟨⟨hfilled, hon⟩, hstep⟩ := guard_bind_eq_some.1 hstep
    exact h.inOrderNetbufPop hfilled hon hok.1 hok.2 hstep
  | targetTake =>
    obtain ⟨⟨hfilled, hon, hne⟩, rfl⟩ := guarded_eq_some.1 hstep
    exact h.targetTake hfilled hon hne

end Step

/-- **The rx ring.**  It keeps a slot free at its fill level, and in every run in which the target names what it was given and no refill fails unseen, the ring is accounted for in every state. -/
theorem rx_ring_ok (cfg : HttRxCfg) :
    httRxRingFillLevel cfg ≤ httRxRingSize cfg - 1 ∧
    ∀ s, (httRxMachine cfg).Reach (RxStepOk cfg) s → RingOk cfg s := by
  refine ⟨httRxRingFillLevel_le cfg, fun s h => Kept.ok ?_⟩
  refine h.invariant (Kept cfg) ?_ fun s e s' hs hok hstep => hs.step hok hstep
  rintro _ rfl
  exact kept_attached cfg

/-- A device for up to 800 Mbps, as `ol_pdev_cfg_attach` has it. -/
def rxCfg (isFullReorderOffload : Bool) : HttRxCfg where
  maxThruputMbps := 800
  isFullReorderOffload := isFullReorderOffload
  bugHalts := true

def rxCfgSmall : HttRxCfg := { rxCfg true with maxThruputMbps := 8 }

/-- A buffer is named after the target has taken it, and the next refill finds no memory at first. -/
theorem rx_ring_ok_refilled : ∃ s, s.fillCnt = 10 ∧ s.allocIdx = 11 ∧ RingOk rxCfgSmall s := by
  obtain ⟨s, -, hreach, hcnt, hidx⟩ : ∃ s, (httRxMachine rxCfgSmall).run .attached
      [.attach fun i => .mapped ⟨16 * i, i⟩ true, .targetTake, .inOrderNetbufPop 0,
        .replenish fun _ => .noBuf, .refillRetry fun _ => .mapped ⟨0, 0⟩ true] = some s ∧
      (httRxMachine rxCfgSmall).Reach (RxStepOk rxCfgSmall) s ∧
      s.fillCnt = 10 ∧ s.allocIdx = 11 :=
    Machine.exists_reach (by rfl) (by decide +kernel) (by decide +kernel)
  exact ⟨s, hcnt, hidx, (rx_ring_ok rxCfgSmall).2 s hreach⟩

theorem failed_map_is_final : ∃ s, (httRxMachine (rxCfg true)).Reach (fun _ _ => True) s ∧
    s.fillCnt = 0 ∧ ¬ RingOk (rxCfg true) s := by
  obtain ⟨s, hs, hcnt, hshort, htimer⟩ : ∃ s, (httRxMachine (rxCfg true)).run .attached
      [.attach fun _ => .noMap] = some s ∧
      s.fillCnt = 0 ∧ s.stoppedShort = true ∧ s.refillRetryTimer = false :=
    Machine.exists_run (by decide +kernel)
  refine ⟨s, Machine.reach_of_run rfl hs, hcnt, fun h => ?_⟩
  cases htimer.symm.trans (h.retried hshort)

end Qcacld.Htt

import Mathlib.Data.List.Nodup
import Mathlib.Data.Nat.ModEq
import Mathlib.Tactic.Ring

/-!
# Support — Ring

Loops over a ring of slots whose size is a power of two, with the index kept in range by a mask: `maskLoop` is the loop, `ringRange` the slots it should visit, and `maskLoop_eq` says it visits them in order and ends.  `foldlM_rule` is the invariant rule for the fold the loop amounts to.

`Spans` is a ring with a producer and a consumer: how both go on, and what the slots between them hold.  `Keeps` is a ring that keeps what was put into it last.
-/

namespace Qcacld.Support
open Function List Option Nat

variable {σ ι : Type*} {body : σ → ℕ → Option σ} {mask k n i d fuel : ℕ}

/-- `len` successive slots of a ring of `n`, from `i` on. -/
def ringIdxs (n i len : ℕ) : List ℕ := (List.range len).map fun j => (i + j) % n

/-- The slots from `start` up to but not including `stop`; the whole ring when the two coincide. -/
def ringRange (n start stop : ℕ) : List ℕ :=
  ringIdxs n (start % n)
    (if start % n < stop % n then stop % n - start % n else n - start % n + stop % n)

/-- `while (idx != idx_end) { body; idx = (idx + 1) & mask; }` -/
def maskLoop (body : σ → ℕ → Option σ) (mask idxEnd : ℕ) : ℕ → σ → ℕ → Option σ
  | 0, st, idx => if idx = idxEnd then some st else none
  | fuel + 1, st, idx =>
    if idx = idxEnd then some st
    else (body st idx).bind fun st => maskLoop body mask idxEnd fuel st ((idx + 1) &&& mask)

theorem and_mask (hn : mask + 1 = 2 ^ k) (x : ℕ) : x &&& mask = x % (mask + 1) := by
  obtain rfl : mask = 2 ^ k - 1 := by omega
  rw [and_two_pow_sub_one_eq_mod, hn]

@[simp] theorem ringIdxs_zero : ringIdxs n i 0 = [] := rfl

theorem ringIdxs_succ (hi : i < n) : ringIdxs n i (d + 1) = i :: ringIdxs n ((i + 1) % n) d := by
  rw [ringIdxs, List.range_succ_eq_map, List.map_cons, add_zero, mod_eq_of_lt hi, List.map_map]
  congr 1
  refine map_congr_left fun j _ => ?_
  rw [comp_apply, mod_add_mod]
  congr 1
  omega

theorem mem_ringIdxs_lt (hn : 0 < n) {x : ℕ} (hx : x ∈ ringIdxs n i d) : x < n := by
  obtain ⟨j, -, rfl⟩ := mem_map.1 hx
  exact mod_lt _ hn

theorem ringIdxs_nodup (hd : d ≤ n) : (ringIdxs n i d).Nodup := by
  refine List.Nodup.map_on ?_ nodup_range
  intro x hx y hy e
  have hx : x < d := mem_range.1 hx
  have hy : y < d := mem_range.1 hy
  have hxy : x ≡ y [MOD n] := Nat.ModEq.add_left_cancel' i e
  exact hxy.eq_of_lt_of_lt (by omega) (by omega)

/-- **The loop.**  It visits the slots in order and ends, given as much fuel as there are slots. -/
theorem maskLoop_eq (hn : mask + 1 = 2 ^ k) (hi : i < mask + 1) (hd : d < mask + 1)
    (hf : d ≤ fuel) (st : σ) :
    maskLoop body mask ((i + d) % (mask + 1)) fuel st i =
      (ringIdxs (mask + 1) i d).foldlM body st := by
  induction d generalizing i fuel st with
  | zero =>
    rw [add_zero, mod_eq_of_lt hi]
    cases fuel <;> simp [maskLoop]
  | succ d ih =>
    obtain ⟨fuel, rfl⟩ : ∃ m, fuel = m + 1 := ⟨fuel - 1, by omega⟩
    have hne : i ≠ (i + (d + 1)) % (mask + 1) := by
      intro e
      have h0 : i + 0 ≡ i + (d + 1) [MOD mask + 1] := by
        rw [Nat.ModEq, add_zero, mod_eq_of_lt hi]
        exact e
      have := (Nat.ModEq.add_left_cancel' i h0).eq_of_lt_of_lt (by omega) hd
      omega
    have hstop : (i + (d + 1)) % (mask + 1) = ((i + 1) % (mask + 1) + d) % (mask + 1) := by
      rw [mod_add_mod]
      congr 1
      omega
    rw [maskLoop, if_neg hne, ringIdxs_succ hi, foldlM_cons, and_mask hn]
    cases body st i with
    | none => rfl
    | some st' =>
      rw [bind_some, hstop, ih (mod_lt _ (by omega)) (by omega) (by omega)]
      rfl

theorem maskLoop_stay {st st' : σ} (hb : ∀ i st', body st i = some st' → st' = st)
    (h : maskLoop body mask n fuel st i = some st') : st' = st := by
  induction fuel generalizing i with
  | zero =>
    rw [maskLoop] at h
    split_ifs at h
    exact (some.inj h).symm
  | succ fuel ih =>
    rw [maskLoop] at h
    split_ifs at h
    · exact (some.inj h).symm
    · obtain ⟨st₁, h₁, h₂⟩ := bind_eq_some_iff.1 h
      rw [hb i st₁ h₁] at h₂
      exact ih h₂

theorem ringRange_eq_cons (n start stop : ℕ) (hn : 0 < n) : ∃ d < n,
    ringRange n start stop = start % n :: ringIdxs n ((start % n + 1) % n) d ∧
      stop % n = ((start % n + 1) % n + d) % n := by
  have hs : start % n < n := mod_lt _ hn
  have he : stop % n < n := mod_lt _ hn
  by_cases hlt : start % n < stop % n
  · refine ⟨stop % n - start % n - 1, by omega, ?_, ?_⟩
    · have hlen : stop % n - start % n = stop % n - start % n - 1 + 1 := by omega
      rw [ringRange, if_pos hlt, hlen, ringIdxs_succ hs, Nat.add_sub_cancel]
    · have hsum : start % n + 1 + (stop % n - start % n - 1) = stop % n := by omega
      rw [mod_add_mod, hsum, mod_mod]
  · refine ⟨n - start % n + stop % n - 1, by omega, ?_, ?_⟩
    · have hlen : n - start % n + stop % n = n - start % n + stop % n - 1 + 1 := by omega
      rw [ringRange, if_neg hlt, hlen, ringIdxs_succ hs, Nat.add_sub_cancel]
    · have hsum : start % n + 1 + (n - start % n + stop % n - 1) = stop % n + n := by omega
      rw [mod_add_mod, hsum, add_mod_right, mod_mod]

/-- One iteration at the start of a range and the loop from the slot after it cover the range. -/
theorem bind_maskLoop_eq (hn : mask + 1 = 2 ^ k) (body : σ → ℕ → Option σ) (st : σ)
    (start stop : ℕ) :
    ((body st (start % (mask + 1))).bind fun st =>
        maskLoop body mask (stop % (mask + 1)) (mask + 1) st
          ((start % (mask + 1) + 1) % (mask + 1))) =
      (ringRange (mask + 1) start stop).foldlM body st := by
  obtain ⟨d, hd, hrange, hstop⟩ := ringRange_eq_cons (mask + 1) start stop (succ_pos _)
  rw [hrange, foldlM_cons, hstop]
  cases body st (start % (mask + 1)) with
  | none => rfl
  | some st' => exact maskLoop_eq hn (mod_lt _ (succ_pos _)) hd (le_of_lt hd) st'

theorem ringRange_prefix (hn : 0 < n) (start stop : ℕ) :
    ∃ others, ringRange n start start = ringRange n start stop ++ others := by
  have hs : start % n < n := mod_lt _ hn
  have he : stop % n < n := mod_lt _ hn
  obtain ⟨d, hd⟩ : ∃ d, n - start % n + start % n =
      (if start % n < stop % n then stop % n - start % n else n - start % n + stop % n) + d := by
    refine Nat.exists_eq_add_of_le ?_
    split <;> omega
  rw [ringRange, if_neg (lt_irrefl _), hd, ringIdxs, range_add, map_append]
  exact ⟨_, rfl⟩

theorem mem_ringRange_lt {start stop x : ℕ} (hn : 0 < n) (hx : x ∈ ringRange n start stop) :
    x < n :=
  mem_ringIdxs_lt hn hx

theorem ringRange_nodup (hn : 0 < n) (start stop : ℕ) : (ringRange n start stop).Nodup := by
  have hs : start % n < n := mod_lt _ hn
  have he : stop % n < n := mod_lt _ hn
  refine ringIdxs_nodup ?_
  split <;> omega

theorem mem_ringRange_self {start x : ℕ} (hx : x < n) : x ∈ ringRange n start start := by
  have hs : start % n < n := mod_lt _ (zero_lt_of_lt hx)
  rw [ringRange, if_neg (lt_irrefl _), ringIdxs, List.mem_map]
  rcases lt_or_ge x (start % n) with hlt | hge
  · refine ⟨n - start % n + x, mem_range.2 (by omega), ?_⟩
    have hsum : start % n + (n - start % n + x) = x + n := by omega
    rw [hsum, add_mod_right, mod_eq_of_lt hx]
  · refine ⟨x - start % n, mem_range.2 (by omega), ?_⟩
    rw [Nat.add_sub_cancel' hge, Nat.mod_eq_of_lt hx]

/-- **The fold rule.**  An invariant of the elements done that every step can keep holds at the
end, and the fold gets there. -/
theorem foldlM_rule {step : σ → ι → Option σ} {l : List ι} (Inv : List ι → σ → Prop)
    (hstep : ∀ pre x post s, l = pre ++ x :: post → Inv pre s →
      ∃ s', step s x = some s' ∧ Inv (pre ++ [x]) s')
    {st : σ} (h₀ : Inv [] st) : ∃ s', l.foldlM step st = some s' ∧ Inv l s' := by
  suffices h : ∀ post pre s, l = pre ++ post → Inv pre s →
      ∃ s', post.foldlM step s = some s' ∧ Inv l s' from h l [] st rfl h₀
  intro post
  induction post with
  | nil =>
    intro pre s e hi
    rw [append_nil] at e
    exact ⟨s, rfl, e ▸ hi⟩
  | cons x post ih =>
    intro pre s e hi
    obtain ⟨s', hs', hi'⟩ := hstep pre x post s e hi
    obtain ⟨s'', hs'', hi''⟩ := ih (pre ++ [x]) s' (by simp [e]) hi'
    exact ⟨s'', by rw [foldlM_cons, hs']; exact hs'', hi''⟩

/-! ### A producer and a consumer -/

/-- The producer `e` is `len` slots ahead of the consumer `i` in a ring of `n`, and has not caught up with it. -/
structure Spans (n i e len : ℕ) : Prop where
  consumer_lt : i < n
  producer_eq : e = (i + len) % n
  room : len < n

section Spans
variable {e len w : ℕ} {α : Type*} {ring : ℕ → α} {x : α}

theorem spans_zero (hi : i < n) : Spans n i i 0 :=
  ⟨hi, (mod_eq_of_lt hi).symm, zero_lt_of_lt hi⟩

theorem Spans.producer_lt (h : Spans n i e len) : e < n := by
  rw [h.producer_eq]
  exact mod_lt _ (zero_lt_of_lt h.room)

theorem Spans.push (h : Spans n i e len) (hroom : len + 1 < n) :
    Spans n i ((e + 1) % n) (len + 1) := by
  refine ⟨h.consumer_lt, ?_, hroom⟩
  rw [h.producer_eq, mod_add_mod, add_assoc]

theorem Spans.pop (h : Spans n i e (len + 1)) : Spans n ((i + 1) % n) e len := by
  refine ⟨mod_lt _ (zero_lt_of_lt h.room), ?_, lt_of_succ_lt h.room⟩
  rw [h.producer_eq, mod_add_mod, add_assoc, add_comm 1]

theorem Spans.eq_iff (h : Spans n i e len) : e = i ↔ len = 0 := by
  constructor
  · intro heq
    have hmod : i + len ≡ i + 0 [MOD n] := by
      rw [Nat.ModEq, ← h.producer_eq, add_zero, mod_eq_of_lt h.consumer_lt, heq]
    have hroom : 0 < n := zero_lt_of_lt h.room
    exact (Nat.ModEq.add_left_cancel' i hmod).eq_of_lt_of_lt h.room hroom
  · rintro rfl
    rw [h.producer_eq, add_zero, mod_eq_of_lt h.consumer_lt]

/-- The masked difference of the indices, in words of `w` bits, is the distance. -/
theorem Spans.masked (h : Spans n i e len) (hn : n = 2 ^ k) (hw : k ≤ w) :
    (2 ^ w + e - i) % 2 ^ w &&& (n - 1) = len := by
  have hdvd : n ∣ 2 ^ w := hn ▸ pow_dvd_pow 2 hw
  obtain ⟨m, hm⟩ := hdvd
  have hpos : 0 < n := zero_lt_of_lt h.room
  have hi := h.consumer_lt
  have he := h.producer_eq
  rw [hn, and_two_pow_sub_one_eq_mod, ← hn, hm, mod_mul_right_mod]
  obtain ⟨m, rfl⟩ : ∃ m', m = m' + 1 := by
    cases m with
    | zero => exact absurd hm (Nat.pow_pos Nat.two_pos).ne'
    | succ m' => exact ⟨m', rfl⟩
  rw [mul_succ]
  by_cases hwrap : i + len < n
  · rw [mod_eq_of_lt hwrap] at he
    have hsum : n * m + n + e - i = len + n * (m + 1) := by
      rw [he, mul_succ]
      omega
    rw [hsum, add_mul_mod_self_left, mod_eq_of_lt h.room]
  · have hback : e = i + len - n := by
      rw [he, mod_eq_sub_mod (not_lt.1 hwrap), mod_eq_of_lt]
      have := h.room
      omega
    have hsum : n * m + n + e - i = len + n * m := by omega
    rw [hsum, add_mul_mod_self_left, mod_eq_of_lt h.room]

/-- The masked distance from the producer to the slot before the consumer is the room that is left. -/
theorem Spans.masked_room (h : Spans n i e len) (hn : n = 2 ^ k) (hw : k ≤ w) :
    ((i + 2 ^ w - 1) % 2 ^ w + 2 ^ w - e) % 2 ^ w &&& (n - 1) = n - 1 - len := by
  have hdvd : n ∣ 2 ^ w := hn ▸ pow_dvd_pow 2 hw
  have hpos : 0 < 2 ^ w := Nat.two_pow_pos w
  have hle : n ≤ 2 ^ w := le_of_dvd hpos hdvd
  have he := h.producer_lt
  have hroom := h.room
  rw [hn, and_two_pow_sub_one_eq_mod, ← hn, mod_mod_of_dvd _ hdvd]
  have hback : (i + 2 ^ w - 1) % 2 ^ w + 1 ≡ i [MOD n] := by
    have hw : (i + 2 ^ w - 1) % 2 ^ w + 1 ≡ i + 2 ^ w - 1 + 1 [MOD 2 ^ w] :=
      (mod_modEq _ _).add_right 1
    rw [Nat.sub_add_cancel (Nat.le_add_left_of_le hpos)] at hw
    exact (modEq_add_modulus_iff.1 hw).of_dvd hdvd
  have hfront : n - 1 - len + (e + 1) ≡ i [MOD n] := by
    have hmod : e ≡ i + len [MOD n] := by
      rw [h.producer_eq]
      exact mod_modEq _ _
    have hsum : n - 1 - len + (i + len + 1) = i + n := by omega
    refine ((hmod.add_right 1).add_left (n - 1 - len)).trans ?_
    rw [hsum]
    exact add_modulus_modEq_iff.2 rfl
  have hsum : (i + 2 ^ w - 1) % 2 ^ w + 2 ^ w - e + (e + 1)
      = (i + 2 ^ w - 1) % 2 ^ w + 1 + 2 ^ w := by omega
  have hmod : (i + 2 ^ w - 1) % 2 ^ w + 2 ^ w - e ≡ n - 1 - len [MOD n] := by
    refine Nat.ModEq.add_right_cancel' (e + 1) ?_
    rw [hsum]
    refine Nat.ModEq.trans ?_ hfront.symm
    refine Nat.ModEq.trans ?_ hback
    exact (Nat.ModEq.add_left _ (modEq_zero_iff_dvd.2 hdvd)).trans rfl
  rw [Nat.ModEq] at hmod
  rw [hmod, mod_eq_of_lt (by omega)]

/-- The masked successor of an index, in words of `w` bits, is the next slot. -/
theorem masked_succ (hn : n = 2 ^ k) (hw : k ≤ w) (x : ℕ) :
    (x + 1) % 2 ^ w &&& (n - 1) = (x + 1) % n := by
  have hdvd : n ∣ 2 ^ w := hn ▸ pow_dvd_pow 2 hw
  rw [hn, and_two_pow_sub_one_eq_mod, ← hn, mod_mod_of_dvd _ hdvd]

theorem ringIdxs_add (a b : ℕ) :
    ringIdxs n i (a + b) = ringIdxs n i a ++ ringIdxs n ((i + a) % n) b := by
  rw [ringIdxs, List.range_add, List.map_append, List.map_map, ringIdxs, ringIdxs]
  congr 1
  refine List.map_congr_left fun j _ => ?_
  rw [comp_apply, mod_add_mod, add_assoc]

theorem ringIdxs_concat : ringIdxs n i (d + 1) = ringIdxs n i d ++ [(i + d) % n] := by
  simp [ringIdxs, range_succ]

theorem Spans.map_push (h : Spans n i e len) : (ringIdxs n i (len + 1)).map (update ring e x) =
      (ringIdxs n i len).map ring ++ [x] := by
  have hnodup : (ringIdxs n i len ++ [e]).Nodup := by
    rw [h.producer_eq, ← ringIdxs_concat]
    exact ringIdxs_nodup h.room
  have hnot : e ∉ ringIdxs n i len := by
    have hdisjoint := (nodup_append.1 hnodup).2.2
    exact fun he => hdisjoint e he e (mem_singleton_self e) rfl
  rw [ringIdxs_concat, ← h.producer_eq, map_append, map_singleton, update_self]
  congr 1
  refine map_congr_left fun j hj => update_of_ne ?_ _ _
  rintro rfl
  exact hnot hj

end Spans

/-! ### From the last slot back -/

/-- The slot that is `j` behind the first is as far before the last as there are slots between. -/
theorem slot_back {first last len j m : ℕ} (hn : len ≤ n)
    (hring : (first + len) % n = (last + 1) % n) (hj : j + m + 1 = len) :
    (first + j) % n = (last + n - m) % n := by
  have hmod : first + len ≡ last + 1 [MOD n] := hring
  refine Nat.ModEq.add_right_cancel' (m + 1) ?_
  have h₁ : first + j + (m + 1) = first + len := by omega
  have h₂ : last + n - m + (m + 1) = last + 1 + n := by omega
  rw [h₁, h₂]
  exact hmod.trans (add_modulus_modEq_iff.2 rfl).symm

/-- **What the slots hold, read back from the last one.** -/
theorem map_ringIdxs_eq_reverse {α : Type*} {first last : ℕ} {ring : ℕ → α} {l : List α}
    (hn : l.length ≤ n) (hring : (first + l.length) % n = (last + 1) % n) :
    (ringIdxs n first l.length).map ring = l.reverse ↔
      ∀ m (h : m < l.length), ring ((last + n - m) % n) = l[m] := by
  have hlen : ((ringIdxs n first l.length).map ring).length = l.reverse.length := by
    simp [ringIdxs]
  have hget : ∀ j (h : j < ((ringIdxs n first l.length).map ring).length),
      ((ringIdxs n first l.length).map ring)[j] = ring ((first + j) % n) := by
    intro j h
    simp [ringIdxs]
  constructor
  · intro h m hm
    have hj : l.length - 1 - m + m + 1 = l.length := by omega
    rw [← slot_back hn hring hj, ← hget _ (by rw [hlen, length_reverse]; omega)]
    simp only [h, getElem_reverse]
    congr 1
    omega
  · intro h
    refine ext_getElem hlen fun j hj hj' => ?_
    rw [length_reverse] at hj'
    have hm : j + (l.length - 1 - j) + 1 = l.length := by omega
    rw [hget j hj, slot_back hn hring hm, h _ (by omega), getElem_reverse]

/-- The test for a power of two by which `n ^ (n - 1)` has all bits set up to the highest one of `n`. -/
theorem exists_eq_two_pow_of_xor {n : ℕ} (hn : 0 < n) (h : n ^^^ (n - 1) = 2 * n - 1) :
    ∃ k, n = 2 ^ k := by
  induction n using Nat.strong_induction_on with
  | h n ih =>
    have hhalf : n / 2 ^^^ (n - 1) / 2 = (2 * n - 1) / 2 := by rw [← xor_div_two, h]
    rcases even_or_odd' n with ⟨m, rfl | rfl⟩
    · have hm : m ^^^ (m - 1) = 2 * m - 1 := by
        have h₁ : 2 * m / 2 = m := by omega
        have h₂ : (2 * m - 1) / 2 = m - 1 := by omega
        have h₃ : (2 * (2 * m) - 1) / 2 = 2 * m - 1 := by omega
        rwa [h₁, h₂, h₃] at hhalf
      obtain ⟨k, hk⟩ := ih m (by omega) (by omega) hm
      exact ⟨k + 1, by rw [hk, pow_succ, mul_comm]⟩
    · have h₁ : (2 * m + 1) / 2 = m := by omega
      have h₂ : (2 * m + 1 - 1) / 2 = m := by omega
      have h₃ : (2 * (2 * m + 1) - 1) / 2 = 2 * m := by omega
      rw [h₁, h₂, h₃, Nat.xor_self] at hhalf
      exact ⟨0, by omega⟩

/-! ### A ring that keeps the last -/

/-- A ring of `n` slots of which `num` are taken, from the first to the last: they hold `l`, the newest first. -/
structure Keeps {α : Type*} (n : ℕ) (ring : ℕ → α) (first last num : ℕ) (l : List α) : Prop where
  count_le : num ≤ n
  first_lt : first < n
  last_lt : last < n
  ends : (first + num) % n = (last + 1) % n
  elems : (ringIdxs n first num).map ring = l.reverse

namespace Keeps

variable {α : Type*} {ring : ℕ → α} {n first last num : ℕ} {x : α} {l : List α}

theorem count (h : Keeps n ring first last num l) : num = l.length := by
  have hlen := congrArg length h.elems
  simpa [ringIdxs] using hlen

/-- The oldest goes. -/
theorem pop (h : Keeps n ring first last num (l ++ [x])) :
    ring first = x ∧ Keeps n ring ((first + 1) % n) last (num - 1) l := by
  obtain ⟨d, rfl⟩ : ∃ d, num = d + 1 := ⟨l.length, by simpa using h.count⟩
  have helems := h.elems
  rw [ringIdxs_succ h.first_lt, map_cons, reverse_concat] at helems
  obtain ⟨hx, helems⟩ := cons.inj helems
  refine ⟨hx, le_of_succ_le h.count_le, mod_lt _ (zero_lt_of_lt h.first_lt), h.last_lt, ?_, helems⟩
  rw [Nat.add_sub_cancel, Nat.mod_add_mod, Nat.add_right_comm]
  exact h.ends

theorem pushRoom (h : Keeps n ring first last num l) (hroom : num < n) (x : α) :
    Keeps n (update ring ((last + 1) % n) x) first ((last + 1) % n) (num + 1) (x :: l) := by
  have hs : Spans n first ((last + 1) % n) num := ⟨h.first_lt, h.ends.symm, hroom⟩
  refine ⟨hroom, h.first_lt, hs.producer_lt, ?_, ?_⟩
  · rw [← h.ends, ← add_assoc, mod_add_mod]
  · rw [hs.map_push, h.elems, reverse_cons]

/-- **A new one**, for which the oldest goes when there is no room. -/
theorem push (h : Keeps n ring first last num l) (x : α) : Keeps n (update ring ((last + 1) % n) x)
      (if num = n then (first + 1) % n else first) ((last + 1) % n)
      (if num = n then num else num + 1) ((x :: l).take n) := by
  have hcount := h.count
  by_cases hfull : num = n
  · subst hfull
    rw [if_pos rfl, if_pos rfl]
    have hpos : 0 < num := zero_lt_of_lt h.first_lt
    obtain ⟨m, y, rfl⟩ : ∃ m y, l = m ++ [y] :=
      ⟨_, _, (dropLast_append_getLast (ne_nil_of_length_pos (hcount ▸ hpos))).symm⟩
    have hp := h.pop.2.pushRoom (sub_lt hpos one_pos) x
    rw [Nat.sub_add_cancel hpos] at hp
    rw [length_append, length_singleton] at hcount
    rwa [hcount, take_succ_cons, take_left, ← hcount]
  · have hlt : num < n := lt_of_le_of_ne h.count_le hfull
    rw [if_neg hfull, if_neg hfull, take_of_length_le (by rw [length_cons]; omega)]
    exact h.pushRoom hlt x

theorem newest (h : Keeps n ring first last num (x :: l)) : ring last = x := by
  obtain ⟨d, rfl⟩ : ∃ d, num = d + 1 := ⟨l.length, h.count⟩
  have hlast : (first + d) % n = last := by
    have hmod : first + d + 1 ≡ last + 1 [MOD n] := h.ends
    have hmod : (first + d) % n = last % n := Nat.ModEq.add_right_cancel' 1 hmod
    rw [hmod, mod_eq_of_lt h.last_lt]
  have helems := h.elems
  rw [ringIdxs_concat, map_append, reverse_cons, hlast] at helems
  exact singleton_inj.1 (append_inj_right' helems rfl)

end Keeps

end Qcacld.Support

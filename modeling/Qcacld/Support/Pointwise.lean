import Mathlib.Data.Fintype.Basic
import Mathlib.Data.Fintype.Card
import Mathlib.Data.List.Nodup
import Mathlib.Logic.Function.Basic

/-!
# Support — Pointwise

Loops that change one entry of a table at a time, and machine words as sets of bits: a word's flags are raised and dropped as sets are joined and taken apart, so that counting them is counting the members of a set.  Nothing here is about this driver.
-/

namespace Qcacld.Support
open Function List Option

/-! ### Loops over a table -/

section Loop
variable {σ κ α ι : Type*}

theorem foldl_keeps {op : σ → ι → σ} {P : σ → Prop} {l : List ι} {s : σ}
    (hs : ∀ s, ∀ i ∈ l, P s → P (op s i)) (h : P s) : P (l.foldl op s) := by
  induction l generalizing s with
  | nil => exact h
  | cons i l ih =>
    exact ih (fun s j hj => hs s j (mem_cons_of_mem i hj)) (hs s i mem_cons_self h)

variable [DecidableEq κ] {get : σ → κ → α} {op : σ → ι → σ} {key : ι → κ} {f : ι → α → α}

theorem foldl_of_notMem (hop : ∀ s i, get (op s i) = update (get s) (key i) (f i (get s (key i))))
    {l : List ι} {k : κ} (hk : k ∉ l.map key) (s : σ) : get (l.foldl op s) k = get s k := by
  induction l generalizing s with
  | nil => rfl
  | cons i l ih =>
    rw [map_cons, mem_cons, not_or] at hk
    rw [foldl_cons, ih hk.2, hop, update_of_ne hk.1]

theorem foldl_of_mem (hop : ∀ s i, get (op s i) = update (get s) (key i) (f i (get s (key i))))
    {l : List ι} (hl : (l.map key).Nodup) {i : ι} (hi : i ∈ l) (s : σ) :
    get (l.foldl op s) (key i) = f i (get s (key i)) := by
  induction l generalizing s with
  | nil => cases hi
  | cons j l ih =>
    obtain ⟨hj, hl⟩ := nodup_cons.1 hl
    rw [foldl_cons]
    rcases mem_cons.1 hi with rfl | hi
    · rw [foldl_of_notMem hop hj, hop, update_self]
    · have hne : key i ≠ key j := ne_of_mem_of_not_mem (mem_map_of_mem hi) hj
      rw [ih hl hi, hop, update_of_ne hne]

end Loop

/-! ### A table with entries that may be missing -/

section Entry
variable {κ β : Type*} [DecidableEq κ] {f : κ → Option β} {k i : κ} {b c : β}

theorem update_some_eq_some (hk : f k = none) :
    update f k (some b) i = some c ↔ (i = k ∧ b = c) ∨ f i = some c := by
  by_cases h : i = k
  · subst h
    simp [hk]
  · simp [h]

theorem update_some_eq_none : update f k (some b) i = none ↔ i ≠ k ∧ f i = none := by
  by_cases h : i = k <;> simp [h]

theorem update_none_eq_some : update f k none i = some c ↔ i ≠ k ∧ f i = some c := by
  by_cases h : i = k <;> simp [h]

theorem update_none_eq_none : update f k none i = none ↔ i = k ∨ f i = none := by
  by_cases h : i = k <;> simp [h]

/-- An entry that is taken out, as what it held. -/
theorem update_none_eq_some_iff (hk : f k = some b) :
    update f k none i = some c ↔ ¬(c = b ∧ i = k) ∧ f i = some c := by
  rw [update_none_eq_some]
  refine and_congr_left fun hi => not_congr ⟨fun h => ⟨?_, h⟩, And.right⟩
  exact some.inj (hi.symm.trans (h ▸ hk))

end Entry

/-! ### A table read in order -/

section Table
variable {κ β : Type*} [DecidableEq κ]

theorem perm_flatMap_update {l : List κ} (hl : l.Nodup) {k : κ} (hk : k ∈ l) (f : κ → List β) :
    ∃ rest, ∀ b, (l.flatMap (update f k b)).Perm (b ++ rest) := by
  obtain ⟨m, n, rfl⟩ := append_of_mem hk
  obtain ⟨-, hkn, hdis⟩ := nodup_append.1 hl
  have hout : ∀ b, ∀ i ∈ m ++ n, update f k b i = f i := by
    intro b i hi
    have hne : i ≠ k := by
      rintro rfl
      rcases mem_append.1 hi with hi | hi
      · exact hdis i hi i mem_cons_self rfl
      · exact (nodup_cons.1 hkn).1 hi
    exact update_of_ne hne ..
  refine ⟨m.flatMap f ++ n.flatMap f, fun b => ?_⟩
  have hm : m.flatMap (update f k b) = m.flatMap f :=
    flatMap_congr fun i hi => hout b i (mem_append_left n hi)
  have hn : n.flatMap (update f k b) = n.flatMap f :=
    flatMap_congr fun i hi => hout b i (mem_append_right m hi)
  rw [flatMap_append, flatMap_cons, hm, hn, update_self, ← append_assoc, ← append_assoc]
  exact perm_append_comm.append_right _

end Table

/-! ### Words as sets of bits -/

section Bits
variable {w : ℕ} {x y : BitVec w}

def bits (x : BitVec w) : Finset (Fin w) := Finset.univ.filter fun i => x[i] = true

@[simp] theorem mem_bits {i : Fin w} : i ∈ bits x ↔ x[i] = true := by
  simp [bits]

@[simp] theorem bits_zero : bits (0#w) = ∅ := by
  ext i
  simp

theorem bits_or : bits (x ||| y) = bits x ∪ bits y := by
  ext i
  simp

theorem bits_and : bits (x &&& y) = bits x ∩ bits y := by
  ext i
  simp

theorem bits_and_not : bits (x &&& ~~~y) = bits x \ bits y := by
  ext i
  simp

theorem bits_eq_empty : bits x = ∅ ↔ x = 0#w := by
  refine ⟨fun h => ?_, fun h => by rw [h, bits_zero]⟩
  ext i hi
  have hn : (⟨i, hi⟩ : Fin w) ∉ bits x := by simp [h]
  simpa using hn

theorem card_bits_or (h : x &&& y = 0#w) : (bits (x ||| y)).card = (bits x).card + (bits y).card := by
  have hd : Disjoint (bits x) (bits y) :=
    Finset.disjoint_iff_inter_eq_empty.2 (by rw [← bits_and, h, bits_zero])
  rw [bits_or, Finset.card_union_of_disjoint hd]

theorem card_bits_and_not : (bits (x &&& ~~~y)).card = (bits x).card - (bits (x &&& y)).card := by
  rw [bits_and_not, bits_and, Finset.card_sdiff, Finset.inter_comm]

end Bits

end Qcacld.Support

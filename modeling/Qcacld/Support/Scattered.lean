import Mathlib.Data.List.Chain
import Mathlib.Tactic.Ring

/-!
# Support — Scattered

A string that lies in several pieces and is read in words of `w`: where the pieces end (`pieceEnds`), that no word is cut by two ends (`CutsOnce`), and that what is left over after the last whole word lies in the piece in which that word ends (`TailInPiece`).  Both properties go along when whole words are taken off the front (`cutsOnce_shift`, `tailInPiece_shift`).  Nothing here is about this driver.
-/

namespace Qcacld.Support
open Function List Nat

/-- Where the pieces of a string end, by their lengths. -/
def pieceEnds : List ℕ → List ℕ
  | [] => []
  | a :: l => a :: (pieceEnds l).map (a + ·)

/-- Of `n` bytes read in words of `w`, no whole word is cut by two ends: one that is cut by an end is over by the next. -/
def CutsOnce (w n : ℕ) (ends : List ℕ) : Prop :=
  ends.IsChain fun e e' => e % w ≠ 0 → (e / w + 1) * w ≤ n → (e / w + 1) * w ≤ e'
deriving Decidable

/-- No piece ends between the last whole word and the end of the `n` bytes. -/
def TailInPiece (w n : ℕ) (ends : List ℕ) : Prop :=
  ∀ e ∈ ends, n / w * w ≤ e → n ≤ e
deriving Decidable

section Pieces
variable {w n d k a b c e : ℕ} {l ends : List ℕ}

/-- Taking `d` off the front of the first two pieces, which leaves `c` of the second. -/
theorem pieceEnds_shift (h : a + b = d + c) :
    pieceEnds (a :: b :: l) = a :: (pieceEnds (c :: l)).map (d + ·) := by
  simp only [pieceEnds, map_cons, map_map, h]
  congr 2
  refine map_congr_left fun e _ => ?_
  simp only [comp_apply]
  omega

theorem le_of_mem_pieceEnds (h : e ∈ pieceEnds (a :: l)) : a ≤ e := by
  rcases mem_cons.1 h with rfl | h
  · exact le_rfl
  · obtain ⟨e, -, rfl⟩ := mem_map.1 h
    exact le_add_right a e

theorem sum_mem_pieceEnds (a : ℕ) (l : List ℕ) : (a :: l).sum ∈ pieceEnds (a :: l) := by
  induction l generalizing a with
  | nil => simp [pieceEnds]
  | cons b l ih =>
    refine mem_cons_of_mem _ (mem_map.2 ⟨(b :: l).sum, ih b, ?_⟩)
    rw [sum_cons, sum_cons, sum_cons]

theorem tailInPiece_shift (hw : 0 < w) (k n : ℕ) (ends : List ℕ) :
    TailInPiece w (k * w + n) (ends.map (k * w + ·)) ↔ TailInPiece w n ends := by
  have hdiv : (k * w + n) / w * w = k * w + n / w * w := by
    rw [add_comm, add_mul_div_right _ _ hw, add_mul, add_comm]
  rw [TailInPiece, TailInPiece, forall_mem_map, hdiv]
  simp

theorem cutsOnce_shift (hw : 0 < w) (k n : ℕ) (ends : List ℕ) :
    CutsOnce w (k * w + n) (ends.map (k * w + ·)) ↔ CutsOnce w n ends := by
  have hnext (e : ℕ) : ((k * w + e) / w + 1) * w = k * w + (e / w + 1) * w := by
    rw [add_comm (k * w), add_mul_div_right _ _ hw]
    ring
  have hmod (e : ℕ) : (k * w + e) % w = e % w := by
    rw [add_comm, add_mul_mod_self_right]
  rw [CutsOnce, CutsOnce, isChain_map]
  simp [hnext, hmod]

theorem cutsOnce_of_le (hw : 0 < w) (h : ∀ e ∈ ends, n / w * w ≤ e) : CutsOnce w n ends := by
  refine List.Pairwise.isChain (pairwise_of_forall_mem_list fun e he e' _ _ hn => ?_)
  have hdiv : n / w ≤ e / w := (le_div_iff_mul_le hw).2 (h e he)
  have hlt : n < (n / w + 1) * w := lt_mul_of_div_lt (lt_succ_self _) hw
  have hle : (n / w + 1) * w ≤ (e / w + 1) * w := mul_le_mul_right w (succ_le_succ hdiv)
  exact absurd (hlt.trans_le (hle.trans hn)) (lt_irrefl n)

end Pieces

end Qcacld.Support

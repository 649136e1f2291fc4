import Mathlib.Data.List.TakeWhile

/-!
# Support — Window

A window over a log whose entries carry non-decreasing stamps: `recent` are the last `size` entries of it that are no more than `len` before the newest one.  Logs are listed with the newest entry first.  `recent_cons` says how the window goes on with a new entry, and `takeWhile_eq_iff` when a coarser test cuts it at the same place.  Nothing here is about this driver.
-/

namespace Qcacld.Support
open List Option Nat

variable {α : Type*} {stamp : α → ℕ} {size len : ℕ} {a : α} {l : List α}

def Ordered (stamp : α → ℕ) (l : List α) : Prop := l.Pairwise fun a b => stamp b ≤ stamp a

/-- The last entries that are no more than `len` before the newest. -/
def recent (stamp : α → ℕ) (size len : ℕ) : List α → List α
  | [] => []
  | a :: l => ((a :: l).take size).filter fun b => stamp a - stamp b ≤ len

@[simp] theorem recent_nil : recent stamp size len [] = [] := rfl

theorem filter_eq_takeWhile {p : α → Bool} (h : l.Pairwise fun a b => p b = true → p a = true) :
    l.filter p = l.takeWhile p := by
  induction l with
  | nil => rfl
  | cons a l ih =>
    obtain ⟨ha, h⟩ := pairwise_cons.1 h
    by_cases hp : p a = true
    · rw [filter_cons_of_pos hp, takeWhile_cons_of_pos hp, ih h]
    · have hnone : ∀ b ∈ l, ¬ p b = true := fun b hb hpb => hp (ha b hb hpb)
      rw [filter_cons_of_neg hp, takeWhile_cons_of_neg hp, filter_eq_nil_iff.2 hnone]

theorem Ordered.filter_eq (h : Ordered stamp l) (t : ℕ) :
    l.filter (fun b => t - stamp b ≤ len) = l.takeWhile fun b => t - stamp b ≤ len := by
  refine filter_eq_takeWhile (h.imp fun {b c} hbc hc => ?_)
  have hc : t - stamp c ≤ len := of_decide_eq_true hc
  exact decide_eq_true (le_trans (Nat.sub_le_sub_left hbc _) hc)

theorem recent_eq_takeWhile (h : Ordered stamp (a :: l)) : recent stamp size len (a :: l)
      = ((a :: l).take size).takeWhile fun b => stamp a - stamp b ≤ len :=
  Ordered.filter_eq (h.sublist (take_sublist size _)) _

theorem recent_sublist : (recent stamp size len l).Sublist l := by
  cases l with
  | nil => exact List.Sublist.slnil
  | cons a l => exact filter_sublist.trans (take_sublist size _)

theorem recent_eq_nil (hs : 0 < size) : recent stamp size len l = [] ↔ l = [] := by
  cases l with
  | nil => simp
  | cons a l =>
    obtain ⟨n, rfl⟩ := exists_eq_succ_of_ne_zero hs.ne'
    simp [recent]

/-- **A new entry.**  What is in the window then is among it and what was in the window before. -/
theorem recent_cons (h : Ordered stamp (a :: l)) (hs : 0 < size) : recent stamp size len (a :: l)
      = ((a :: recent stamp size len l).take size).takeWhile fun b => stamp a - stamp b ≤ len := by
  obtain ⟨n, rfl⟩ := exists_eq_succ_of_ne_zero hs.ne'
  rw [recent_eq_takeWhile h, take_succ_cons, take_succ_cons]
  cases l with
  | nil => rfl
  | cons b l =>
    obtain ⟨hab, hl⟩ := pairwise_cons.1 h
    rw [recent_eq_takeWhile hl, takeWhile_cons, takeWhile_cons]
    have hcoarse : ∀ c, decide (stamp a - stamp c ≤ len) = true →
        decide (stamp b - stamp c ≤ len) = true := by
      intro c hc
      refine decide_eq_true (le_trans (Nat.sub_le_sub_right ?_ _) (of_decide_eq_true hc))
      exact hab b mem_cons_self
    have hcut : ∀ m : List α, (m.takeWhile fun c => stamp b - stamp c ≤ len).takeWhile
        (fun c => stamp a - stamp c ≤ len) = m.takeWhile fun c => stamp a - stamp c ≤ len := by
      intro m
      rw [takeWhile_takeWhile]
      congr 1
      ext1 c
      by_cases hc : stamp a - stamp c ≤ len
      · simp [hc, of_decide_eq_true (hcoarse c (decide_eq_true hc))]
      · simp [hc]
    split
    · congr 1
      rw [take_takeWhile, take_take, min_eq_left (le_succ n), hcut]
    · rfl

theorem Ordered.push (h : Ordered stamp (a :: l)) :
    Ordered stamp ((a :: recent stamp size len l).take size) :=
  h.sublist ((take_sublist size _).trans (recent_sublist.cons_cons a))

theorem recent_cons_filter (h : Ordered stamp (a :: l)) (hs : 0 < size) :
    recent stamp size len (a :: l)
      = ((a :: recent stamp size len l).take size).filter fun b => stamp a - stamp b ≤ len := by
  rw [recent_cons h hs, h.push.filter_eq]

/-- A coarser test cuts at the same place exactly if it fails where the finer one fails first. -/
theorem takeWhile_eq_iff {p q : α → Bool} (h : ∀ a ∈ l, p a = true → q a = true) :
    l.takeWhile q = l.takeWhile p ↔ ∀ a ∈ l.find? fun a => !p a, q a = false := by
  induction l with
  | nil => simp
  | cons a l ih =>
    obtain ⟨ha, h⟩ := forall_mem_cons.1 h
    by_cases hp : p a = true
    · rw [takeWhile_cons_of_pos hp, takeWhile_cons_of_pos (ha hp),
        cons_inj_right, ih h, find?_cons_of_neg (by simp [hp])]
    · rw [takeWhile_cons_of_neg hp, find?_cons_of_pos (by simp [hp])]
      simp only [mem_some_iff, forall_eq']
      cases hq : q a with
      | true => simp [takeWhile_cons_of_pos hq]
      | false => simp [takeWhile_cons_of_neg (Bool.eq_false_iff.1 hq)]

end Qcacld.Support

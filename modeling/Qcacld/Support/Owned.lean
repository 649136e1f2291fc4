import Mathlib.Data.List.Perm.Basic
import Mathlib.Data.List.Nodup

/-!
# Support — Owned

A trace of operations on resources, each of which uses some of them and ends some: `Owned uses ends l ops m` says that a trace started with the resources `l` uses and ends only what is there at the time, and leaves `m`.  Traces of this kind compose (`Owned.append`), end each resource at most once (`Owned.perm`) and use none after its end (`Owned.pairwise`).  Nothing here is about this driver.
-/

namespace Qcacld.Support
open List

variable {α ε : Type*} {uses ends : ε → List α} {l l' m m' n : List α} {op : ε} {ops ops' : List ε}

variable (uses ends) in
/-- From the resources `l`, a trace leaves `m`. -/
inductive Owned : List α → List ε → List α → Prop
  | done {l m : List α} : l.Perm m → Owned l [] m
  | op {l m n : List α} {op : ε} {ops : List ε} : (∀ x ∈ uses op, x ∈ l) →
      l.Perm (ends op ++ m) → Owned m ops n → Owned l (op :: ops) n

namespace Owned

theorem congr_left (h : Owned uses ends l ops m) (hl : l'.Perm l) : Owned uses ends l' ops m := by
  cases h with
  | done hm => exact .done (hl.trans hm)
  | op hu he h => exact .op (fun x hx => hl.mem_iff.2 (hu x hx)) (hl.trans he) h

theorem append (h : Owned uses ends l ops m) (h' : Owned uses ends m ops' n) :
    Owned uses ends l (ops ++ ops') n := by
  induction h with
  | done hm => exact h'.congr_left hm
  | op hu he _ ih => exact .op hu he (ih h')

theorem congr_right (h : Owned uses ends l ops m) (hm : m.Perm m') : Owned uses ends l ops m' := by
  have h' := h.append (.done hm)
  rwa [append_nil] at h'

theorem concat (h : Owned uses ends l ops m) (hu : ∀ x ∈ uses op, x ∈ m)
    (he : m.Perm (ends op ++ n)) : Owned uses ends l (ops ++ [op]) n :=
  h.append (.op hu he (.done (.refl n)))

/-- **Each resource is ended once or left.** -/
theorem perm (h : Owned uses ends l ops m) : l.Perm (ops.flatMap ends ++ m) := by
  induction h with
  | done hm => exact hm
  | op hu he _ ih =>
    rw [flatMap_cons, append_assoc]
    exact he.trans (ih.append_left _)

theorem uses_mem (h : Owned uses ends l ops m) : ∀ op ∈ ops, ∀ x ∈ uses op, x ∈ l := by
  induction h with
  | done hm => exact fun op hop => (nomatch hop)
  | op hu he _ ih =>
    intro op' hop' x hx
    rcases mem_cons.1 hop' with rfl | hop'
    · exact hu x hx
    · exact he.mem_iff.2 (mem_append_right _ (ih op' hop' x hx))

/-- **Nothing is used after its end.** -/
theorem pairwise (h : Owned uses ends l ops m) (hd : l.Nodup) :
    ops.Pairwise fun a b => ∀ x ∈ ends a, x ∉ uses b := by
  induction h with
  | done hm => exact .nil
  | op hu he h ih =>
    obtain ⟨-, hm, hdis⟩ := nodup_append.1 (he.nodup_iff.1 hd)
    refine .cons (fun b hb x hx hxb => ?_) (ih hm)
    exact hdis x hx x (h.uses_mem b hb x hxb) rfl

end Owned

end Qcacld.Support

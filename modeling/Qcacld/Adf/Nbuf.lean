import Qcacld.Support.Chain

/-!
# Adf — Nbuf

Network buffers, as far as the rx path uses them: a handle, and the `next` pointer `adf_nbuf_next` reads and `adf_nbuf_set_next` writes.  A NULL handle is `none`.
-/

namespace Qcacld.Adf
open Function List

/-- `adf_nbuf_t`, when it is not NULL. -/
abbrev AdfNbuf := Nat

/-- The `next` pointers of all the buffers. -/
abbrev NbufHeap := AdfNbuf → Option AdfNbuf

def adfNbufNext (heap : NbufHeap) (msdu : AdfNbuf) : Option AdfNbuf := heap msdu

def adfNbufSetNext (heap : NbufHeap) (msdu : AdfNbuf) (next : Option AdfNbuf) : NbufHeap :=
  update heap msdu next

@[simp] theorem adfNbufSetNext_self (heap : NbufHeap) (msdu : AdfNbuf) (next : Option AdfNbuf) :
    adfNbufSetNext heap msdu next msdu = next :=
  update_self ..

theorem adfNbufSetNext_of_ne {heap : NbufHeap} {msdu x : AdfNbuf} {next : Option AdfNbuf}
    (h : x ≠ msdu) : adfNbufSetNext heap msdu next x = heap x :=
  update_of_ne h ..

/-- Thread the buffers of a list in order, as the layer below hands them up. -/
def linkNbufs (heap : NbufHeap) : List AdfNbuf → NbufHeap
  | x :: y :: l => adfNbufSetNext (linkNbufs heap (y :: l)) x (some y)
  | _ => heap

theorem linkNbufs_of_notMem {heap : NbufHeap} {l : List AdfNbuf} {x : AdfNbuf} (h : x ∉ l) :
    linkNbufs heap l x = heap x := by
  induction l with
  | nil => rfl
  | cons a l ih =>
    cases l with
    | nil => rfl
    | cons b l =>
      rw [linkNbufs, adfNbufSetNext_of_ne (ne_of_not_mem_cons h)]
      exact ih (not_mem_of_not_mem_cons h)

theorem linked_linkNbufs (heap : NbufHeap) {l : List AdfNbuf} (hd : l.Nodup) :
    Support.Linked (linkNbufs heap l) l := by
  induction l with
  | nil => exact Support.linked_nil
  | cons a l ih =>
    cases l with
    | nil => exact Support.linked_singleton
    | cons b l =>
      obtain ⟨ha, hl⟩ := nodup_cons.1 hd
      refine Support.linked_cons_cons.2 ⟨adfNbufSetNext_self .., ?_⟩
      exact (ih hl).update_of_notMem ha

end Qcacld.Adf

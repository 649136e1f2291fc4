import Qcacld.Txrx.TxLlQueue

/-!
# Txrx — TxLlFifo

The pause queues of `Txrx.TxLlQueue` are bounded FIFOs in every run in which no list goes past a backlog, and what is not accepted of a list is given back as it was.
-/

namespace Qcacld.Txrx
open Qcacld.Adf Qcacld.Support Function List Option Nat LlPdev

variable {n : ℕ} {a : LlAround} {s s' : LlPdev n} {v u : Fin n} {q l : List AdfNbuf}

/-! ### What is to hold -/

/-- **A bounded FIFO** of the frames `q`. -/
structure LlPdev.Fifo (s : LlPdev n) (v : Fin n) (q : List AdfNbuf) : Prop where
  threaded : Threaded s.entry.heap (s.vdevs v).head q
  tail : (s.vdevs v).tail = q.getLast?
  depth : (s.vdevs v).depth = q.length
  bound : (s.vdevs v).depth ≤ (s.vdevs v).maxQDepth
  order : (s.vdevs v).accepted = (s.vdevs v).offered ++ s.data q

/-- **A right answer**: what is not accepted is the rest of the list, as it was. -/
def LlPdev.Answered (s s' : LlPdev n) (v : Fin n) (l : List (AdfNbuf × Nat))
    (rejected : Option AdfNbuf) : Prop :=
  ∃ taken rest, l.map Prod.fst = taken ++ rest ∧ Threaded s'.entry.heap rejected rest ∧
    (s'.vdevs v).accepted = (s.vdevs v).accepted ++ (s.give l).data taken

/-- **The condition**: a list that is let through past a backlog has EAPOL and WAPI frames only. -/
def LlEventOk (s : LlPdev n) : LlEvent n → Prop
  | .llQueue v l _ => (∀ x ∈ l.head?, LlPdev.LetsThrough (s.vdevs v) x.2) →
      (s.vdevs v).depth ≠ 0 → ∀ x ∈ l, IsEapolWapi x.2
  | _ => True

instance (s : LlPdev n) : (e : LlEvent n) → Decidable (LlEventOk s e)
  | .llQueue .. => inferInstanceAs (Decidable (_ → _ → _))
  | .queueSend .. | .queueSendBase .. | .queueSendAll _ | .pause .. | .unpause .. | .setLevel _
  | .phaseTimer _ => .isTrue trivial

/-! ### What `ol_tx_ll` does with a list -/

section OlTxLl
variable {frm : AdfNbuf → LlFrame} {e : TxEntry} {p : Option AdfNbuf} {k : ℕ}

theorem olTxLlLoop_suffix (h : Threaded e.heap p l) (hk : l.length ≤ k) :
    ∃ e' p' taken rest, olTxLlLoop frm k e p = some (e', p') ∧ l = taken ++ rest ∧
      Threaded e'.heap p' rest ∧ ∀ x ∉ taken, e'.heap x = e.heap x := by
  induction l generalizing e p k with
  | nil =>
    obtain rfl : p = none := h
    exact ⟨e, none, [], [], by cases k <;> rfl, rfl, rfl, fun _ _ => rfl⟩
  | cons m l ih =>
    have hm := (nodup_cons.1 h.nodup).1
    have hall := h
    obtain ⟨rfl, h⟩ := h
    obtain ⟨k, rfl⟩ := exists_eq_add_one_of_ne_zero (ne_zero_of_lt hk)
    rw [olTxLlLoop]
    split
    · refine ⟨{ e with freed := e.freed ++ m :: l }, none, m :: l, [], ?_, by simp, rfl,
        fun _ _ => rfl⟩
      rw [adfNbufTxFree_eq hall hk]
      rfl
    · split
      · exact ⟨e, some m, [], m :: l, rfl, rfl, hall, fun _ _ => rfl⟩
      · have hsend : ∀ x, x ≠ m → (e.olTxSend (frm m) m).heap x = e.heap x := by
          intro x hx
          unfold TxEntry.olTxSend
          split
          · exact adfNbufSetNext_of_ne hx
          · exact adfNbufSetNext_of_ne hx
        obtain ⟨e', p', taken, rest, hrun, rfl, hrest, hkeep⟩ :=
          ih (threaded_olTxSend (frm m) h hm) (le_of_succ_le_succ hk)
        refine ⟨e', p', m :: taken, rest, hrun, rfl, hrest, fun x hx => ?_⟩
        rw [mem_cons, not_or] at hx
        exact (hkeep x hx.2).trans (hsend x hx.1)

theorem olTxLl_suffix {hasAdfCtx : Bool} (h : Threaded e.heap p l) (hk : l.length ≤ k) :
    ∃ e' p' taken rest, olTxLl frm hasAdfCtx k e p = some (e', p') ∧ l = taken ++ rest ∧
      Threaded e'.heap p' rest ∧ ∀ x ∉ taken, e'.heap x = e.heap x := by
  unfold olTxLl
  split
  · exact olTxLlLoop_suffix h hk
  · exact ⟨e, p, [], l, rfl, rfl, h, fun _ _ => rfl⟩

end OlTxLl

/-! ### A call for one vdev -/

/-- Only the queue of the vdev has changed, and only the pointers of some frames. -/
structure LlTouches (s s' : LlPdev n) (v : Fin n) (l : List AdfNbuf) : Prop where
  vdevs : ∀ u, u ≠ v → s'.vdevs u = s.vdevs u
  heap : ∀ x ∉ l, s'.entry.heap x = s.entry.heap x
  etherType : s'.etherType = s.etherType

theorem LlTouches.refl (s : LlPdev n) (v : Fin n) (l : List AdfNbuf) : LlTouches s s v l :=
  ⟨fun _ _ => rfl, fun _ _ => rfl, rfl⟩

theorem LlTouches.trans {s'' : LlPdev n} (h : LlTouches s s' v l) (h' : LlTouches s' s'' v l) :
    LlTouches s s'' v l where
  vdevs u hu := (h'.vdevs u hu).trans (h.vdevs u hu)
  heap x hx := (h'.heap x hx).trans (h.heap x hx)
  etherType := h'.etherType.trans h.etherType

theorem LlTouches.mono {l' : List AdfNbuf} (h : LlTouches s s' v l) (hl : l ⊆ l') :
    LlTouches s s' v l' :=
  ⟨h.vdevs, fun x hx => h.heap x fun hm => hx (hl hm), h.etherType⟩

theorem LlTouches.modify (s : LlPdev n) (v : Fin n) (f : LlTxq → LlTxq) (l : List AdfNbuf) :
    LlTouches s (s.modify v f) v l :=
  ⟨fun _ hu => update_of_ne hu .., fun _ _ => rfl, rfl⟩

@[simp] theorem modify_vdevs_self (f : LlTxq → LlTxq) : (s.modify v f).vdevs v = f (s.vdevs v) :=
  update_self ..

theorem data_append (l l' : List AdfNbuf) : s.data (l ++ l') = s.data l ++ s.data l' :=
  filter_append ..

theorem data_congr (h : s'.etherType = s.etherType) (l : List AdfNbuf) : s'.data l = s.data l := by
  unfold data
  rw [h]

/-- **The first frame of a queue is sent**; the depth has been counted down, or is going to be. -/
theorem sendHead_spec {m : AdfNbuf} (h : Threaded s.entry.heap (some m) (m :: q))
    (ht : (s.vdevs v).tail = (m :: q).getLast?) : ∃ s', s.sendHead a v m = some s' ∧
      LlTouches s s' v [m] ∧ Threaded s'.entry.heap (s'.vdevs v).head q ∧
      (s'.vdevs v).tail = q.getLast? ∧
      s'.vdevs v = { s.vdevs v with
        head := (s'.vdevs v).head
        tail := (s'.vdevs v).tail
        offered := (s.vdevs v).offered ++ s.data [m] } := by
  have hm := (nodup_cons.1 h.nodup).1
  have hq : Threaded (adfNbufSetNext s.entry.heap m none) (s.entry.heap m) q :=
    h.2.update_of_notMem hm
  have hone : Threaded (adfNbufSetNext s.entry.heap m none) (some m) [m] :=
    ⟨rfl, adfNbufSetNext_self ..⟩
  obtain ⟨e, p, taken, rest, hrun, htaken, hrest, hkeep⟩ :=
    @olTxLl_suffix [m] a.frm { s.entry with heap := adfNbufSetNext s.entry.heap m none } (some m) 1
      a.hasAdfCtx hone (le_refl _)
  have hlen : rest.length ≤ 1 := by
    have := congrArg length htaken
    rw [length_append, length_singleton] at this
    omega
  have hne : ∀ x, x ≠ m → e.heap x = s.entry.heap x := by
    intro x hx
    have hxt : x ∉ taken := by
      intro hxt
      have : x ∈ [m] := htaken ▸ mem_append_left rest hxt
      exact hx (mem_singleton.1 this)
    exact (hkeep x hxt).trans (adfNbufSetNext_of_ne hx)
  have htail : (if s.entry.heap m = none then none else (s.vdevs v).tail) = q.getLast? := by
    rw [ht]
    cases q with
    | nil => exact if_pos h.2
    | cons b q =>
      rw [h.2.head, if_neg (by simp), getLast?_cons_cons]
  unfold sendHead
  simp only [hrun, adfNbufTxFree_eq hrest hlen, bind_eq_bind, bind_some]
  refine ⟨_, rfl, ⟨fun u hu => update_of_ne hu .., fun x hx => ?_, rfl⟩, ?_, ?_, ?_⟩
  · exact hne x fun e => hx (mem_singleton.2 e)
  · rw [modify_vdevs_self]
    exact h.2.congr fun y hy => hne y (ne_of_mem_of_not_mem hy hm)
  · rw [modify_vdevs_self]
    exact htail
  · rw [modify_vdevs_self]

/-- What a call for a vdev has made of its queue. -/
structure LlDrained (s s' : LlPdev n) (v : Fin n) (q q' : List AdfNbuf) : Prop where
  fifo : s'.Fifo v q'
  suffix : q' <:+ q
  touches : LlTouches s s' v q
  accepted : (s'.vdevs v).accepted = (s.vdevs v).accepted

theorem LlDrained.refl (h : s.Fifo v q) : LlDrained s s v q q :=
  ⟨h, suffix_refl q, .refl s v q, rfl⟩

theorem sendFirst_drained {m : AdfNbuf} (h : s.Fifo v (m :: q)) : ∃ s',
    (s.modify v fun x => { x with depth := x.depth - 1 }).sendHead a v m = some s' ∧
      LlDrained s s' v (m :: q) q := by
  have hhead := h.threaded.1
  obtain ⟨s', hrun, htouch, hth, htail, hx⟩ := @sendHead_spec n a
    (s.modify v fun x => { x with depth := x.depth - 1 }) v q m (hhead ▸ h.threaded)
    (by rw [modify_vdevs_self]; exact h.tail)
  rw [modify_vdevs_self] at hx
  have hdepth : (s'.vdevs v).depth = (s.vdevs v).depth - 1 := by rw [hx]
  have hmax : (s'.vdevs v).maxQDepth = (s.vdevs v).maxQDepth := by rw [hx]
  have hacc : (s'.vdevs v).accepted = (s.vdevs v).accepted := by rw [hx]
  have hoff : (s'.vdevs v).offered = (s.vdevs v).offered ++ s.data [m] := by rw [hx]; rfl
  have hlen := h.depth
  have hbound := h.bound
  rw [length_cons] at hlen
  refine ⟨s', hrun, ⟨hth, htail, by omega, by omega, ?_⟩, suffix_cons m q, ?_, hacc⟩
  · rw [hacc, hoff, h.order, data_congr htouch.etherType, append_assoc]
    exact congrArg _ (data_append [m] q)
  · exact (LlTouches.modify s v _ _).trans (htouch.mono (by simp))

theorem LlDrained.trans {s'' : LlPdev n} {q' q'' : List AdfNbuf} (h : LlDrained s s' v q q')
    (h' : LlDrained s' s'' v q' q'') : LlDrained s s'' v q q'' where
  fifo := h'.fifo
  suffix := h'.suffix.trans h.suffix
  touches := h.touches.trans (h'.touches.mono h.suffix.subset)
  accepted := h'.accepted.trans h.accepted

theorem sendBaseLoop_drained {k : ℕ} (h : s.Fifo v q) :
    ∃ s' q', LlPdev.sendBaseLoop a v k s = some s' ∧ LlDrained s s' v q q' := by
  induction k generalizing s q with
  | zero => exact ⟨s, q, rfl, .refl h⟩
  | succ k ih =>
    unfold sendBaseLoop
    split
    · exact ⟨s, q, rfl, .refl h⟩
    · next hd =>
      cases q with
      | nil => exact absurd h.depth hd
      | cons m q =>
        obtain ⟨s₁, hrun, hone⟩ := @sendFirst_drained n a s v q m h
        obtain ⟨s', q', hloop, hrest⟩ := ih hone.fifo
        refine ⟨s', q', ?_, hone.trans hrest⟩
        dsimp only
        rw [modify_vdevs_self]
        dsimp only
        rw [h.threaded.1]
        dsimp only
        rw [hrun]
        exact hloop

theorem pauseQueueSendBase_drained (h : s.Fifo v q) :
    ∃ s' q', s.pauseQueueSendBase a v = some s' ∧ LlDrained s s' v q q' := by
  unfold pauseQueueSendBase
  split
  · exact ⟨s, q, rfl, .refl h⟩
  · exact sendBaseLoop_drained h

theorem pauseQueueSend_drained (h : s.Fifo v q) :
    ∃ s' q', s.pauseQueueSend a v = some s' ∧ LlDrained s s' v q q' := by
  unfold pauseQueueSend
  split
  · exact ⟨s, q, rfl, .refl h⟩
  · exact pauseQueueSendBase_drained h

theorem sendVdev_drained {maxToSend : UInt32} (h : s.Fifo v q) :
    ∃ s' q' left more, s.sendVdev a maxToSend v = some (s', left, more) ∧ LlDrained s s' v q q' ∧
      (more = true → q'.length < q.length) := by
  unfold LlPdev.sendVdev
  split
  · exact ⟨s, q, _, _, rfl, .refl h, nofun⟩
  · next hd =>
    split
    · exact ⟨s, q, _, _, rfl, .refl h, nofun⟩
    · cases q with
      | nil => exact absurd h.depth hd
      | cons m q =>
        obtain ⟨s', hrun, hone⟩ := @sendFirst_drained n a s v q m h
        rw [h.threaded.1]
        simp only [hrun, bind_eq_bind, bind_some]
        exact ⟨s', q, _, _, rfl, hone, fun _ => lt_succ_self _⟩

/-! ### Appending -/

structure LlPdev.Open (s : LlPdev n) (v : Fin n) (q : List AdfNbuf) : Prop where
  chunk : Chunk s.entry.heap (s.vdevs v).head (s.vdevs v).tail q
  depth : (s.vdevs v).depth = q.length
  bound : (s.vdevs v).depth ≤ (s.vdevs v).maxQDepth
  order : (s.vdevs v).accepted = (s.vdevs v).offered ++ s.data q

theorem LlPdev.Fifo.open (h : s.Fifo v q) : s.Open v q :=
  ⟨⟨h.threaded.head, h.tail, h.threaded.linked⟩, h.depth, h.bound, h.order⟩

/-- What is appended of a list, and what is left of it. -/
structure LlAppended (s s' : LlPdev n) (v : Fin n) (q r taken rest : List AdfNbuf)
    (p : Option AdfNbuf) : Prop where
  eq : r = taken ++ rest
  rest : Threaded s'.entry.heap p rest
  touches : LlTouches s s' v (q ++ taken)
  accepted : (s'.vdevs v).accepted = (s.vdevs v).accepted ++ s.data taken

theorem chunk_hookLast {head tail : Option AdfNbuf} {heap : NbufHeap} {m : AdfNbuf}
    (h : Chunk heap head tail q) (hd : (q ++ [m]).Nodup) :
    Chunk (LlPdev.hookLast heap head tail m) (if head = none then some m else head) (some m)
        (q ++ [m]) ∧
      ∀ x ∉ q, LlPdev.hookLast heap head tail m x = heap x := by
  have hlast : some m = (q ++ [m]).getLast? := by rw [getLast?_concat]
  rcases eq_nil_or_concat q with rfl | ⟨q, c, rfl⟩
  · obtain rfl : head = none := h.head_eq
    exact ⟨⟨rfl, hlast, linked_singleton⟩, fun _ _ => rfl⟩
  · rw [concat_eq_append] at *
    obtain rfl : tail = some c := by rw [h.tail_eq, getLast?_concat]
    obtain ⟨x, rfl⟩ : ∃ x, head = some x := isSome_iff_exists.1 (h.isSome_iff.2 (by simp))
    rw [if_neg (some_ne_none x)]
    refine ⟨h.join ⟨rfl, rfl, linked_singleton⟩ hd (cons_ne_nil m []), fun y hy => ?_⟩
    exact adfNbufSetNext_of_ne fun e => hy (e ▸ mem_append_right q mem_cons_self)

theorem appendLoop_spec {r : List AdfNbuf} {p : Option AdfNbuf} {k : ℕ} (h : s.Open v q)
    (hr : Threaded s.entry.heap p r) (hd : (q ++ r).Nodup) (hk : r.length ≤ k) :
    ∃ s' p' taken rest, LlPdev.appendLoop v k s p = some (s', p') ∧ s'.Open v (q ++ taken) ∧
      LlAppended s s' v q r taken rest p' := by
  induction r generalizing s p q k with
  | nil =>
    obtain rfl : p = none := hr
    refine ⟨s, none, [], [], by cases k <;> rfl, ?_, rfl, rfl, .refl s v _, ?_⟩
    · rwa [append_nil]
    · exact (append_nil _).symm
  | cons m r ih =>
    have hall := hr
    obtain ⟨rfl, hr⟩ := hr
    obtain ⟨k, rfl⟩ := exists_eq_add_one_of_ne_zero (ne_zero_of_lt hk)
    unfold appendLoop
    dsimp only
    split
    · next hlt =>
      obtain ⟨hqm, hqr⟩ : (q ++ [m]).Nodup ∧ (q ++ [m] ++ r).Nodup := by
        have hd' : (q ++ [m] ++ r).Nodup := by simpa using hd
        exact ⟨(nodup_append.1 hd').1, hd'⟩
      obtain ⟨hchunk, hkeep⟩ := chunk_hookLast h.chunk hqm
      let heap := hookLast s.entry.heap (s.vdevs v).head (s.vdevs v).tail m
      let s₁ := ({ s with entry := { s.entry with heap := heap } } : LlPdev n).modify v fun x =>
        { x with
          depth := x.depth + 1
          head := if x.head = none then some m else x.head
          tail := some m
          accepted := x.accepted ++ s.data [m] }
      have hx : s₁.vdevs v = { s.vdevs v with
          depth := (s.vdevs v).depth + 1
          head := if (s.vdevs v).head = none then some m else (s.vdevs v).head
          tail := some m
          accepted := (s.vdevs v).accepted ++ s.data [m] } := update_self ..
      have hopen : s₁.Open v (q ++ [m]) := by
        refine ⟨?_, ?_, ?_, ?_⟩
        · rw [hx]
          exact hchunk
        · rw [hx, length_append, length_singleton]
          have := h.depth
          push_cast
          omega
        · rw [hx]
          change (s.vdevs v).depth + 1 ≤ (s.vdevs v).maxQDepth
          omega
        · rw [hx]
          change _ = (s.vdevs v).offered ++ s.data (q ++ [m])
          rw [h.order, append_assoc, data_append]
      have htouch : LlTouches s s₁ v q :=
        ⟨fun u hu => update_of_ne hu .., hkeep, rfl⟩
      have hr₁ : Threaded s₁.entry.heap (s.entry.heap m) r := by
        refine hr.congr fun y hy => hkeep y fun hyq => ?_
        exact (nodup_append.1 hd).2.2 y hyq y (mem_cons_of_mem m hy) rfl
      obtain ⟨s', p', taken, rest, hrun, hopen', happ⟩ :=
        ih hopen hr₁ hqr (le_of_succ_le_succ hk)
      rw [append_assoc, singleton_append] at hopen'
      refine ⟨s', p', m :: taken, rest, hrun, hopen', congrArg (m :: ·) happ.eq, happ.rest, ?_, ?_⟩
      · have := happ.touches
        rw [append_assoc, singleton_append] at this
        exact (htouch.mono (subset_append_left _ _)).trans this
      · rw [happ.accepted, hx, append_assoc]
        exact congrArg _ (data_append [m] taken).symm
    · refine ⟨s, some m, [], m :: r, rfl, ?_, rfl, hall, .refl s v _, ?_⟩
      · rwa [append_nil]
      · exact (append_nil _).symm

/-- **Appending** ends the queue again. -/
theorem pauseQueueAppend_spec {r : List AdfNbuf} {p : Option AdfNbuf} {k : ℕ} (h : s.Fifo v q)
    (hr : Threaded s.entry.heap p r) (hd : (q ++ r).Nodup) (hk : r.length ≤ k) :
    ∃ s' p' taken rest, s.pauseQueueAppend v k p = some (s', p') ∧ s'.Fifo v (q ++ taken) ∧
      LlAppended s s' v q r taken rest p' := by
  obtain ⟨s₁, p', taken, rest, hrun, hopen, happ⟩ := appendLoop_spec h.open hr hd hk
  have hd' : (q ++ taken ++ rest).Nodup := by rwa [append_assoc, ← happ.eq]
  obtain ⟨hqt, -, hdis⟩ := nodup_append.1 hd'
  unfold pauseQueueAppend
  simp only [hrun, bind_eq_bind, bind_some]
  cases htail : (s₁.vdevs v).tail with
  | none =>
    have hnil : q ++ taken = [] := hopen.chunk.tail_none_iff.1 htail
    refine ⟨s₁, p', taken, rest, rfl, ⟨?_, ?_, hopen.depth, hopen.bound, hopen.order⟩, happ⟩
    · rw [hopen.chunk.head_eq, hnil]
      rfl
    · rw [hopen.chunk.tail_eq]
  | some c =>
    have hc : (q ++ taken).getLast? = some c := by rw [← hopen.chunk.tail_eq, htail]
    have hmem : c ∈ q ++ taken := mem_of_getLast? hc
    have hout : ∀ x ∉ q ++ taken, adfNbufSetNext s₁.entry.heap c none x = s₁.entry.heap x :=
      fun x hx => adfNbufSetNext_of_ne fun e => hx (e ▸ hmem)
    refine ⟨_, p', taken, rest, rfl, ⟨?_, ?_, hopen.depth, hopen.bound, hopen.order⟩,
      happ.eq, ?_, ⟨happ.touches.vdevs, fun x hx => ?_, happ.touches.etherType⟩, happ.accepted⟩
    · rw [show (_ : LlPdev n).vdevs = s₁.vdevs from rfl, hopen.chunk.head_eq]
      refine (hopen.chunk.linked.update_tail hqt hc).threaded fun y hy => ?_
      obtain rfl : c = y := some.inj (hc.symm.trans hy)
      exact update_self ..
    · exact hopen.chunk.tail_eq
    · exact happ.rest.congr fun y hy => hout y fun hyq => hdis y hyq y hy rfl
    · exact (hout x hx).trans (happ.touches.heap x hx)

theorem takeWhile_rest {taken rest : List AdfNbuf} (hd : (taken ++ rest).Nodup) :
    (taken ++ rest).takeWhile (fun m => rest.head? ≠ some m) = taken := by
  have htaken : ∀ m ∈ taken, decide (rest.head? ≠ some m) = true := by
    intro m hm
    refine decide_eq_true fun hh => ?_
    exact (nodup_append.1 hd).2.2 m hm m (mem_of_mem_head? hh) rfl
  rw [takeWhile_append_of_pos htaken]
  cases rest with
  | nil => exact append_nil taken
  | cons b rest =>
    rw [takeWhile_cons_of_neg (by simp), append_nil]

/-- **A list that goes past the queue** leaves it right if there is no backlog, or no data in the list. -/
theorem sendNow_spec {r : List AdfNbuf} {m : AdfNbuf} {k : ℕ} (h : s.Fifo v q)
    (hr : Threaded s.entry.heap (some m) r) (hd : (q ++ r).Nodup) (hk : r.length ≤ k)
    (hok : q = [] ∨ s.data r = []) :
    ∃ s' p' taken rest, s.sendNow a v k m = some (s', p') ∧ s'.Fifo v q ∧
      r = taken ++ rest ∧ Threaded s'.entry.heap p' rest ∧ LlTouches s s' v r ∧
      (s'.vdevs v).accepted = (s.vdevs v).accepted ++ s.data taken := by
  obtain ⟨-, hrd, hdis⟩ := nodup_append.1 hd
  obtain ⟨e, p', taken, rest, hrun, rfl, hrest, hkeep⟩ := @olTxLl_suffix _ a.frm _ _ _ a.hasAdfCtx hr hk
  have htaken : ∀ x ∉ taken ++ rest, e.heap x = s.entry.heap x :=
    fun x hx => hkeep x fun hxt => hx (mem_append_left rest hxt)
  have hwhile : (taken ++ rest).takeWhile (fun m => p' ≠ some m) = taken := by
    rw [hrest.head]
    exact takeWhile_rest hrd
  unfold sendNow
  simp only [hrun, hr.walk hk, getD_some, bind_eq_bind, bind_some, hwhile]
  refine ⟨_, p', taken, rest, rfl, ⟨?_, ?_, ?_, ?_, ?_⟩, rfl, hrest,
    ⟨fun u hu => update_of_ne hu .., htaken, rfl⟩, ?_⟩
  · rw [modify_vdevs_self]
    exact h.threaded.congr fun y hy => htaken y fun hyr => hdis y hy y hyr rfl
  · rw [modify_vdevs_self]; exact h.tail
  · rw [modify_vdevs_self]; exact h.depth
  · rw [modify_vdevs_self]; exact h.bound
  · rw [modify_vdevs_self]
    change (s.vdevs v).accepted ++ s.data taken = (s.vdevs v).offered ++ s.data taken ++ s.data q
    rw [h.order]
    obtain rfl | hdata := hok
    · simp [data]
    · rw [data_append, append_eq_nil_iff] at hdata
      rw [hdata.1, append_nil, append_nil]
  · rw [modify_vdevs_self]

/-! ### All the queues -/

/-- Every queue is a FIFO, and no two have a frame in common. -/
structure LlInv (s : LlPdev n) (qs : Fin n → List AdfNbuf) : Prop where
  fifo : ∀ v, s.Fifo v (qs v)
  apart : ∀ u v, u ≠ v → (qs u).Disjoint (qs v)

section
variable {qs qs' : Fin n → List AdfNbuf}

theorem LlPdev.Fifo.touch (h : s.Fifo u q) (ht : LlTouches s s' v l) (hu : u ≠ v)
    (hl : q.Disjoint l) : s'.Fifo u q := by
  have hx := ht.vdevs u hu
  refine ⟨?_, ?_, ?_, ?_, ?_⟩
  · rw [hx]
    exact h.threaded.congr fun y hy => ht.heap y fun hyl => hl hy hyl
  · rw [hx]; exact h.tail
  · rw [hx]; exact h.depth
  · rw [hx]; exact h.bound
  · rw [hx, data_congr ht.etherType]; exact h.order

theorem LlInv.touch (h : LlInv s qs) (hv : s'.Fifo v q) (ht : LlTouches s s' v l) (hq : q ⊆ l)
    (hl : ∀ u, u ≠ v → (qs u).Disjoint l) : LlInv s' (update qs v q) where
  fifo u := by
    rcases eq_or_ne u v with rfl | hu
    · rwa [update_self]
    · rw [update_of_ne hu]
      exact (h.fifo u).touch ht hu (hl u hu)
  apart u w huw := by
    rcases eq_or_ne u v with rfl | hu
    · rw [update_self, update_of_ne huw.symm]
      exact fun x hx hw => hl w huw.symm hw (hq hx)
    · rw [update_of_ne hu]
      rcases eq_or_ne w v with rfl | hw
      · rw [update_self]
        exact fun x hx hw => hl u hu hx (hq hw)
      · rw [update_of_ne hw]
        exact h.apart u w huw

theorem LlInv.drained (h : LlInv s qs) (hd : LlDrained s s' v (qs v) q) :
    LlInv s' (update qs v q) :=
  h.touch hd.fifo hd.touches hd.suffix.subset fun u hu => h.apart u v hu

theorem suffix_update (hq : q <:+ qs v) (u : Fin n) : update qs v q u <:+ qs u := by
  rcases eq_or_ne u v with rfl | hu
  · rwa [update_self]
  · rw [update_of_ne hu]

/-- **A round** of the throttle; there is more only if something has been sent. -/
theorem sendRound_spec {vs : List (Fin n)} {maxToSend : UInt32} (h : LlInv s qs) :
    ∃ s' left more qs', LlPdev.sendRound a vs s maxToSend = some (s', left, more) ∧
      LlInv s' qs' ∧ (∀ u, qs' u <:+ qs u) ∧
      (more = true → ∃ u, (qs' u).length < (qs u).length) := by
  induction vs generalizing s qs maxToSend with
  | nil => exact ⟨s, maxToSend, false, qs, rfl, h, fun u => suffix_refl _, nofun⟩
  | cons v vs ih =>
    obtain ⟨s₁, q, left, more, hrun, hone, hmore⟩ :=
      @sendVdev_drained n a s v (qs v) maxToSend (h.fifo v)
    obtain ⟨s', left', more', qs', hround, hinv, hsuf, hmore'⟩ := @ih s₁ _ left (h.drained hone)
    have hsuf₁ : ∀ u, update qs v q u <:+ qs u := suffix_update hone.suffix
    refine ⟨s', left', more || more', qs', ?_, hinv, fun u => (hsuf u).trans (hsuf₁ u),
      fun hm => ?_⟩
    · simp only [LlPdev.sendRound, hrun, hround, bind_eq_bind, bind_some]
      rfl
    · rcases Bool.or_eq_true_iff.1 hm with hm | hm
      · refine ⟨v, lt_of_le_of_lt (hsuf v).length_le ?_⟩
        rw [update_self]
        exact hmore hm
      · obtain ⟨u, hu⟩ := hmore' hm
        exact ⟨u, lt_of_lt_of_le hu (hsuf₁ u).length_le⟩

theorem backlog_eq (h : LlInv s qs) : s.backlog = tally (fun v => (qs v).length) (finRange n) :=
  tally_congr fun v _ => by rw [(h.fifo v).depth, Int.toNat_natCast]

theorem sendRounds_spec' {k : ℕ} {maxToSend : UInt32} (h : LlInv s qs)
    (hk : tally (fun v => (qs v).length) (finRange n) < k) :
    ∃ s' qs', LlPdev.sendRounds a k s maxToSend = some s' ∧ LlInv s' qs' := by
  induction k generalizing s qs maxToSend with
  | zero => exact absurd hk (not_lt_zero _)
  | succ k ih =>
    obtain ⟨s₁, left, more, qs₁, hrun, hinv, hsuf, hmore⟩ :=
      @sendRound_spec n a s qs (finRange n) maxToSend h
    simp only [LlPdev.sendRounds, hrun, bind_eq_bind, bind_some]
    split
    · next hgo =>
      obtain ⟨u, hu⟩ := hmore hgo.1
      have hlt : tally (fun v => (qs₁ v).length) (finRange n) <
          tally (fun v => (qs v).length) (finRange n) :=
        sum_lt_sum _ _ (fun v _ => (hsuf v).length_le) ⟨u, mem_finRange u, hu⟩
      exact ih hinv (by omega)
    · exact ⟨s₁, qs₁, rfl, hinv⟩

theorem pauseQueueSendAll_spec (h : LlInv s qs) :
    ∃ s' qs', s.pauseQueueSendAll a = some s' ∧ LlInv s' qs' := by
  unfold pauseQueueSendAll
  split
  · exact ⟨s, qs, rfl, h⟩
  · exact sendRounds_spec' h (by rw [backlog_eq h]; exact lt_succ_self _)

/-! ### A list of the caller's -/

theorem frames_eq (h : LlInv s qs) (v : Fin n) : s.frames v = qs v := by
  have hlen : (qs v).length ≤ (s.vdevs v).depth.toNat := by
    rw [(h.fifo v).depth, Int.toNat_natCast]
  unfold frames
  rw [(h.fifo v).threaded.walk hlen]
  rfl

theorem lookup_of_notMem {l : List (AdfNbuf × ℕ)} {m : AdfNbuf} (hm : m ∉ l.map Prod.fst) :
    l.lookup m = none := by
  induction l with
  | nil => rfl
  | cons x l ih =>
    rw [map_cons, mem_cons, not_or] at hm
    rw [lookup_cons, beq_eq_false_iff_ne.2 hm.1]
    exact ih hm.2

theorem give_etherType (l : List (AdfNbuf × ℕ)) (m : AdfNbuf) :
    (s.give l).etherType m = (l.lookup m).getD (s.etherType m) := rfl

theorem LlInv.give {l : List (AdfNbuf × ℕ)} (h : LlInv s qs) (ho : s.Owned l) :
    LlInv (s.give l) qs := by
  have hout : ∀ v, ∀ m ∈ qs v, m ∉ l.map Prod.fst := fun v m hm hml =>
    ho.2 m hml v (by rwa [frames_eq h v])
  refine ⟨fun v => ⟨?_, (h.fifo v).tail, (h.fifo v).depth, (h.fifo v).bound, ?_⟩, h.apart⟩
  · exact (h.fifo v).threaded.congr fun y hy => threadAll_of_notMem (hout v y hy)
  · have hdata : (s.give l).data (qs v) = s.data (qs v) := by
      refine filter_congr fun m hm => ?_
      rw [give_etherType, lookup_of_notMem (hout v m hm), getD_none]
    rw [hdata]
    exact (h.fifo v).order

theorem data_give {l : List (AdfNbuf × ℕ)} (hd : (l.map Prod.fst).Nodup)
    (hl : ∀ x ∈ l, IsEapolWapi x.2) : (s.give l).data (l.map Prod.fst) = [] := by
  refine filter_eq_nil_iff.2 fun m hm => ?_
  obtain ⟨x, hx, rfl⟩ := mem_map.1 hm
  have hlook : l.lookup x.1 = some x.2 := by
    clear hl hm
    induction l with
    | nil => exact nomatch hx
    | cons y l ih =>
      rw [map_cons, nodup_cons] at hd
      rcases mem_cons.1 hx with rfl | hx
      · rw [lookup_cons, beq_self_eq_true]
      · have hne : x.1 ≠ y.1 := fun e => hd.1 (e ▸ mem_map_of_mem hx)
        rw [lookup_cons, beq_eq_false_iff_ne.2 hne]
        exact ih hd.2 hx
  rw [give_etherType, hlook, getD_some]
  simpa using hl x hx

theorem llQueue_spec {l : List (AdfNbuf × ℕ)} (h : LlInv s qs) (ho : s.Owned l)
    (hok : LlEventOk s (.llQueue v l a)) : ∃ s' rejected qs',
      s.llQueue a v l = some (s', rejected) ∧ LlInv s' qs' ∧ s.Answered s' v l rejected := by
  have hg := h.give ho
  have hv := hg.fifo v
  have hr : Threaded (s.give l).entry.heap (l.map Prod.fst).head? (l.map Prod.fst) :=
    threaded_threadAll ho.1
  have hout : ∀ u, (qs u).Disjoint (l.map Prod.fst) := fun u m hm hml =>
    ho.2 m hml u (by rwa [frames_eq h u])
  have hd : (qs v ++ l.map Prod.fst).Nodup :=
    nodup_append.2 ⟨hv.threaded.nodup, ho.1, fun x hx y hy e => hout v hx (e ▸ hy)⟩
  have hk : (l.map Prod.fst).length ≤ l.length := by rw [length_map]
  cases l with
  | nil =>
    refine ⟨s.give [], none, qs, rfl, hg, [], [], rfl, rfl, ?_⟩
    exact (append_nil _).symm
  | cons x l =>
    have hnow : (qs v = [] ∨ (s.give (x :: l)).data ((x :: l).map Prod.fst) = []) →
        ∃ s' rejected qs', (s.give (x :: l)).sendNow a v (x :: l).length x.1 = some (s', rejected) ∧
          LlInv s' qs' ∧ s.Answered s' v (x :: l) rejected := by
      intro hq
      obtain ⟨s', p, taken, rest, hrun, hfifo, heq, hrest, ht, hacc⟩ :=
        @sendNow_spec n a _ v (qs v) _ x.1 _ hv hr hd hk hq
      have ht' : LlTouches (s.give (x :: l)) s' v (qs v ++ (x :: l).map Prod.fst) :=
        ht.mono (subset_append_right _ _)
      refine ⟨s', p, _, hrun, hg.touch hfifo ht' (subset_append_left _ _) fun u hu => ?_,
        taken, rest, heq, hrest, hacc⟩
      exact disjoint_append_right.2 ⟨hg.apart u v hu, hout u⟩
    have hqueue : ∃ s' rejected taken rest,
        (s.give (x :: l)).pauseQueueAppend v (x :: l).length (some x.1) = some (s', rejected) ∧
          s'.Fifo v (qs v ++ taken) ∧
          LlAppended (s.give (x :: l)) s' v (qs v) ((x :: l).map Prod.fst) taken rest rejected :=
      pauseQueueAppend_spec hv hr hd hk
    obtain ⟨s', p, taken, rest, hrun, hfifo, happ⟩ := hqueue
    have hsub : taken ⊆ (x :: l).map Prod.fst := by
      rw [happ.eq]
      exact subset_append_left _ _
    have hinv : LlInv s' (update qs v (qs v ++ taken)) :=
      hg.touch hfifo happ.touches (List.Subset.refl _) fun u hu =>
        disjoint_append_right.2 ⟨hg.apart u v hu, fun m hm hmt => hout u hm (hsub hmt)⟩
    have hanswered : s.Answered s' v (x :: l) p := ⟨taken, rest, happ.eq, happ.rest, happ.accepted⟩
    unfold llQueue
    rw [map_cons, head?_cons]
    unfold olTxLlQueue
    dsimp only
    split
    · split
      · next hlets =>
        refine hnow ?_
        by_cases hdepth : (s.vdevs v).depth = 0
        · have hlen := hv.depth
          rw [show ((s.give (x :: l)).vdevs v).depth = (s.vdevs v).depth from rfl, hdepth] at hlen
          exact .inl (eq_nil_of_length_eq_zero (by omega))
        · refine .inr (data_give ho.1 (hok (fun y hy => ?_) hdepth))
          obtain rfl : x = y := some.inj hy
          rw [give_etherType, lookup_cons, beq_self_eq_true] at hlets
          exact hlets
      · exact ⟨s', p, _, hrun, hinv, hanswered⟩
    · split
      · rw [hrun]
        simp only [bind_eq_bind, bind_some]
        split
        · obtain ⟨s₂, q, hsend, hdr⟩ := @pauseQueueSendBase_drained n a s' v _ hfifo
          have hrest : Threaded s₂.entry.heap p rest := by
            refine happ.rest.congr fun y hy => hdr.touches.heap y fun hyq => ?_
            have hd' : (qs v ++ taken ++ rest).Nodup := by rwa [append_assoc, ← happ.eq]
            exact (nodup_append.1 hd').2.2 y hyq y hy rfl
          have hinv₂ : LlInv s₂ (update (update qs v (qs v ++ taken)) v q) :=
            hinv.drained (by rwa [update_self])
          rw [hsend]
          exact ⟨s₂, p, _, rfl, hinv₂, taken, rest, happ.eq, hrest,
            hdr.accepted.trans happ.accepted⟩
        · exact ⟨s', p, _, rfl, hinv, hanswered⟩
      · next hno =>
        refine hnow (.inl ?_)
        have hlen := hv.depth
        have hdepth : ¬ 0 < ((s.give (x :: l)).vdevs v).depth := fun h0 => hno (.inl h0)
        exact eq_nil_of_length_eq_zero (by omega)

end

/-! ### Every run -/

theorem LlInv.of_vdevs {qs : Fin n → List AdfNbuf} (h : LlInv s qs) (he : s'.entry = s.entry)
    (ht : s'.etherType = s.etherType)
    (hx : ∀ v, s'.vdevs v = { s.vdevs v with pausedReason := (s'.vdevs v).pausedReason }) :
    LlInv s' qs := by
  refine ⟨fun v => ⟨?_, ?_, ?_, ?_, ?_⟩, h.apart⟩
  · rw [he, hx]; exact (h.fifo v).threaded
  · rw [hx]; exact (h.fifo v).tail
  · rw [hx]; exact (h.fifo v).depth
  · rw [hx]; exact (h.fifo v).bound
  · rw [hx, data_congr ht]; exact (h.fifo v).order

theorem LlInv.modify_reason {qs : Fin n → List AdfNbuf} (h : LlInv s qs) (reason : UInt32) :
    LlInv (s.modify v fun x => { x with pausedReason := reason }) qs := by
  refine h.of_vdevs rfl rfl fun u => ?_
  rcases eq_or_ne u v with rfl | hu
  · rw [modify_vdevs_self]
  · rw [(LlTouches.modify s v _ []).vdevs u hu]

theorem vdevUnpause_spec {qs : Fin n → List AdfNbuf} {reason : UInt32} (h : LlInv s qs) :
    ∃ s' qs', s.vdevUnpause a v reason = some s' ∧ LlInv s' qs' := by
  have hk := @LlInv.modify_reason n s v qs h ((s.vdevs v).pausedReason &&& ~~~reason)
  unfold vdevUnpause
  split
  · dsimp only
    split
    · exact ⟨_, qs, rfl, hk⟩
    · split
      · obtain ⟨s', q, hrun, hdr⟩ := @pauseQueueSend_drained n a _ v _ (hk.fifo v)
        exact ⟨s', _, hrun, hk.drained hdr⟩
      · exact ⟨_, qs, rfl, hk⟩
  · exact ⟨s, qs, rfl, h⟩

theorem throttlePhaseTimer_spec {qs : Fin n → List AdfNbuf} (h : LlInv s qs) :
    ∃ s' qs', s.throttlePhaseTimer a = some s' ∧ LlInv s' qs' := by
  unfold throttlePhaseTimer
  split
  · exact ⟨_, qs, rfl, h.of_vdevs rfl rfl fun _ => rfl⟩
  · exact pauseQueueSendAll_spec (h.of_vdevs rfl rfl fun _ => rfl)

def LlEvent.Given (s : LlPdev n) : LlEvent n → Prop
  | .llQueue _ l _ => s.Owned l
  | _ => True

/-- **Every event ends**, and leaves FIFOs. -/
theorem llStep_spec {qs : Fin n → List AdfNbuf} (h : LlInv s qs) {e : LlEvent n}
    (hok : LlEventOk s e) (hg : e.Given s) : ∃ s' qs', llStep s e = some s' ∧ LlInv s' qs' := by
  cases e with
  | llQueue v l a =>
    obtain ⟨s', p, qs', hrun, hinv, -⟩ := llQueue_spec h hg hok
    refine ⟨s', qs', guard_bind_eq_some.2 ⟨hg, ?_⟩, hinv⟩
    rw [hrun]
    rfl
  | queueSend v a =>
    obtain ⟨s', q, hrun, hdr⟩ := @pauseQueueSend_drained n a s v _ (h.fifo v)
    exact ⟨s', _, hrun, h.drained hdr⟩
  | queueSendBase v a =>
    obtain ⟨s', q, hrun, hdr⟩ := @pauseQueueSendBase_drained n a s v _ (h.fifo v)
    exact ⟨s', _, hrun, h.drained hdr⟩
  | queueSendAll a => exact pauseQueueSendAll_spec h
  | pause v reason => exact ⟨_, qs, rfl, h.modify_reason _⟩
  | unpause v reason a => exact vdevUnpause_spec h
  | setLevel level =>
    refine ⟨_, qs, rfl, ?_⟩
    unfold throttleSetLevel
    split
    · exact h
    · exact h.of_vdevs rfl rfl fun _ => rfl
  | phaseTimer a => exact throttlePhaseTimer_spec h

theorem LlInit.inv (h : LlInit s) : LlInv s fun _ => [] where
  fifo v := by
    obtain ⟨ha, ho⟩ := h.history v
    refine ⟨h.head v, h.tail v, h.depth v, ?_, ?_⟩
    · rw [h.depth v]; exact h.maxQDepth v
    · rw [ha, ho]; rfl
  apart _ _ _ := disjoint_nil_left _

theorem reach_llInv (hs : (llMachine n).Reach LlEventOk s) : ∃ qs, LlInv s qs := by
  refine hs.invariant (fun s => ∃ qs, LlInv s qs) (fun _ (h : LlInit _) => ⟨_, h.inv⟩) ?_
  rintro s e s' ⟨qs, h⟩ hok (hstep : llStep s e = some s')
  have hg : e.Given s := by
    cases e with
    | llQueue v l a => exact (guard_bind_eq_some.1 hstep).1
    | _ => trivial
  obtain ⟨s₁, qs', hrun, hinv⟩ := llStep_spec h hok hg
  obtain rfl : s₁ = s' := some.inj (hrun.symm.trans hstep)
  exact ⟨qs', hinv⟩

/-- **The pause queues.**  In every run in which no list with data goes past a backlog, the queue of each vdev is a bounded FIFO, and its frames come to `ol_tx_ll` in the order in which they have been accepted; every call ends; and what is not accepted of a list is given back as it was. -/
theorem ll_queue_right (s : LlPdev n) (hs : (llMachine n).Reach LlEventOk s) :
    (∀ v, ∃ q, s.Fifo v q) ∧
      (∀ e, LlEventOk s e → e.Given s → (llStep s e).isSome) ∧
      ∀ v l a, LlEventOk s (.llQueue v l a) → s.Owned l →
        ∃ s' rejected, s.llQueue a v l = some (s', rejected) ∧ s.Answered s' v l rejected := by
  obtain ⟨qs, h⟩ := reach_llInv hs
  refine ⟨fun v => ⟨qs v, h.fifo v⟩, fun e hok hg => ?_, fun v l a hok ho => ?_⟩
  · obtain ⟨s', -, hrun, -⟩ := llStep_spec h hok hg
    rw [hrun]
    rfl
  · obtain ⟨s', p, -, hrun, -, hanswered⟩ := llQueue_spec h ho hok
    exact ⟨s', p, hrun, hanswered⟩

/-! ### A vdev whose peer is not authorised -/

def llBegins : LlPdev 1 where
  entry := ⟨fun _ => none, [], []⟩
  etherType _ := 0
  vdevs _ := {
    head := none
    tail := none
    depth := 0
    maxQDepth := 3
    pausedReason := 0
    txFlLwm := 0
    accepted := []
    offered := [] }
  currentThrottleLevel := 0
  currentThrottlePhase := .off
  txThreshold := 1

theorem llBegins_init : (llMachine 1).init llBegins where
  head _ := rfl
  tail _ := rfl
  depth _ := rfl
  maxQDepth _ := Int.natCast_nonneg 3
  history _ := ⟨rfl, rfl⟩

def llTaken : LlAround where
  frm _ := ⟨false, false, false, false, none⟩
  hasAdfCtx := true
  numFree := 10

/-- **A list goes past the backlog**: behind an EAPOL frame, data is sent before the data that waits. -/
theorem eapolFirst_overtakes : ¬ ∀ s : LlPdev 1, (llMachine 1).Reach (fun _ _ => True) s →
    ∀ v, ∃ q, s.Fifo v q := by
  intro h
  obtain ⟨s, hs, hacc, hoff⟩ : ∃ s, (llMachine 1).run llBegins
      [.pause 0 pauseReasonPeerUnauthorized, .llQueue 0 [(1, 0x0800)] llTaken,
        .llQueue 0 [(2, ethertypePae), (3, 0x0800)] llTaken] = some s ∧
      (s.vdevs 0).accepted = [1, 3] ∧ (s.vdevs 0).offered = [3] :=
    Machine.exists_run (by decide +kernel)
  obtain ⟨q, hq⟩ := h s (Machine.reach_of_run llBegins_init hs) 0
  have horder := hq.order
  rw [hacc, hoff, singleton_append] at horder
  exact absurd (List.cons.inj horder).1 (by decide)

/-- Four frames for a paused vdev, of which one is given back; then a frame that is let through, and the end of the pause. -/
theorem ll_queue_right_drained : ∃ s : LlPdev 1, (s.vdevs 0).offered = [1, 2, 3] ∧
    ∃ q, s.Fifo 0 q := by
  let es : List (LlEvent 1) :=
    [.pause 0 pauseReasonPeerUnauthorized,
      .llQueue 0 [(1, 0x0800), (2, 0x0800), (3, 0x86dd), (4, 0x0800)] llTaken,
      .llQueue 0 [(5, ethertypePae)] llTaken,
      .unpause 0 pauseReasonPeerUnauthorized llTaken]
  obtain ⟨s, -, hok, hoffered⟩ : ∃ s, (llMachine 1).run llBegins es = some s ∧
      (llMachine 1).Reach LlEventOk s ∧ (s.vdevs 0).offered = [1, 2, 3] :=
    Machine.exists_reach llBegins_init (by decide +kernel) (by decide +kernel)
  exact ⟨s, hoffered, (ll_queue_right s hok).1 0⟩

end Qcacld.Txrx

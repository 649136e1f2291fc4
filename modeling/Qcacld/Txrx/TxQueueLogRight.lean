import Qcacld.Txrx.TxQueueLogWalk

/-!
# Txrx — TxQueueLogRight

What the event log of the tx queues shows over whole runs.  `txq_log_iff` says which records keep it right: those that end before the end of the buffer or, once the log has wrapped, no later than the mark of the last wrap; and those that do not fit there and are no longer than what has been written of the round.
-/

namespace Qcacld.Txrx
open Qcacld.Support Function List Nat TxqLog

/-- **A right log**: each record is inside with all its bytes, the walk begins with the oldest of them or with the mark of the wrap, and shows them and nothing else. -/
structure LogRight (s : TxqLog) : Prop where
  stored : ∀ r ∈ s.records, Stored s.data r
  oldest : ∀ r ∈ s.records.head?, s.oldestRecordOffset = r.offset ∨
    s.readType s.oldestRecordOffset = some .wrap
  display : s.display = some (s.records.map LogRecord.shown)

/-! ### The log between two records -/

structure Filling (s : TxqLog) : Prop where
  wrapped : s.wrapped = false
  oldest : s.oldestRecordOffset = 0
  offset_lt : s.offset < olTxqLogSize
  tiled : Tiled LogRecord.offset LogRecord.len 0 s.records s.offset

/-- The log has wrapped: what is left of the last round, the mark, and the records of this one. -/
structure Wrapped (s : TxqLog) (tail front : List LogRecord) : Prop where
  wrapped : s.wrapped = true
  records : s.records = tail ++ front
  tail : Tiled LogRecord.offset LogRecord.len s.oldestRecordOffset tail s.wrapOffset
  front : Tiled LogRecord.offset LogRecord.len 0 front s.offset
  offset_pos : 0 < s.offset
  offset_le : s.offset ≤ s.oldestRecordOffset
  wrapOffset_lt : s.wrapOffset < olTxqLogSize
  mark : s.data s.wrapOffset = OlTxLogEntryType.wrap.toByte

/-- **The invariant.** -/
structure LogHeld (s : TxqLog) : Prop where
  allowWrap : s.allowWrap = true
  stored : ∀ r ∈ s.records, Stored s.data r
  round : Filling s ∨ ∃ tail front, Wrapped s tail front

section Held
variable {s : TxqLog} {tail front : List LogRecord}

theorem Filling.display (h : Filling s) (hst : ∀ r ∈ s.records, Stored s.data r) :
    s.display = some (s.records.map LogRecord.shown) := by
  have hlen := h.tiled.length_le
  have hlt := h.offset_lt
  obtain ⟨fuel, hfuel⟩ : ∃ fuel, walkFuel = s.records.length + (fuel + 1) :=
    ⟨walkFuel - s.records.length - 1, by rw [walkFuel]; omega⟩
  have hne : ∀ r ∈ s.records, r.offset ≠ s.offset := by
    intro r hr
    have := h.tiled.mem hr
    omega
  rw [TxqLog.display, h.oldest, h.wrapped, hfuel,
    displayWalk_tiled h.tiled hst hlt (.inr hne), displayWalk_end]
  exact congrArg some (append_nil _)

theorem Wrapped.display (h : Wrapped s tail front) (hst : ∀ r ∈ s.records, Stored s.data r) :
    s.display = some (s.records.map LogRecord.shown) := by
  have htail := h.tail.length_le
  have hfront := h.front.length_le
  have hlt := h.wrapOffset_lt
  have hle := h.offset_le
  have hpos := h.offset_pos
  obtain ⟨fuel, hfuel⟩ : ∃ fuel, walkFuel = tail.length + ((front.length + (fuel + 1)) + 1) :=
    ⟨walkFuel - tail.length - front.length - 2, by rw [walkFuel]; omega⟩
  have hne : ∀ r ∈ front, r.offset ≠ s.offset := by
    intro r hr
    have := h.front.mem hr
    omega
  rw [h.records] at hst ⊢
  rw [TxqLog.display, h.wrapped, hfuel,
    displayWalk_tiled h.tail (fun r hr => hst r (mem_append_left _ hr)) hlt (.inl rfl),
    displayWalk_mark (by omega) hlt h.mark,
    displayWalk_tiled h.front (fun r hr => hst r (mem_append_right _ hr)) (by omega)
      (.inr hne), displayWalk_end, map_append]
  exact congrArg some (congrArg _ (append_nil _))

/-- **Between two records the log is right.** -/
theorem LogHeld.right (h : LogHeld s) : LogRight s := by
  refine ⟨h.stored, fun r hr => ?_, ?_⟩
  · rcases h.round with hf | ⟨tail, front, hw⟩
    · refine .inl (hf.oldest.trans ?_)
      have ht := hf.tiled
      rcases hrs : s.records with _ | ⟨r', rs⟩
      · rw [hrs] at hr
        cases hr
      · rw [hrs] at hr ht
        cases hr
        exact ht.1.symm
    · have ht := hw.tail
      rw [hw.records] at hr
      rcases htail : tail with _ | ⟨r', rs⟩
      · rw [htail] at ht
        refine .inr ?_
        rw [show s.oldestRecordOffset = s.wrapOffset from ht]
        exact readType_mark hw.wrapOffset_lt hw.mark
      · rw [htail] at hr ht
        cases hr
        exact .inl ht.1.symm
  · rcases h.round with hf | ⟨tail, front, hw⟩
    · exact hf.display h.stored
    · exact hw.display h.stored

end Held

/-! ### A record is logged -/

namespace TxqLog
variable {s : TxqLog} {e : LogEntry} {offset oldest : ℕ}

def recordEnd (e : LogEntry) (offset : ℕ) : ℕ := offset + (recordAt e offset).len

/-- The data once the type of a record is written, and the mark if it is at the start. -/
def typeWritten (s : TxqLog) (e : LogEntry) (offset : ℕ) : ℕ → UInt8 :=
  update (if offset = 0 then update s.data s.offset OlTxLogEntryType.wrap.toByte else s.data)
    offset e.type.toByte

def after (s : TxqLog) (e : LogEntry) (offset oldest : ℕ) : TxqLog :=
  s.written
    { s with
      oldestRecordOffset := oldest
      offset := if recordEnd e offset ≥ olTxqLogSize then 0 else recordEnd e offset
      wrapped := if recordEnd e offset ≥ olTxqLogSize then true else s.wrapped
      data := s.typeWritten e offset } e offset

theorem allocFound_eq
    (h : s.oldestUpdate (recordEnd e offset) = some { s with oldestRecordOffset := oldest }) :
    ∃ s', s.allocFound e.type offset (allocSize e.type e.extraBytes offset) = some s' ∧
      s.written s' e offset = s.after e offset oldest := by
  rw [allocFound, show offset + allocSize e.type e.extraBytes offset = recordEnd e offset from rfl,
    h, Option.bind_eq_bind, Option.bind_some]
  refine ⟨_, rfl, ?_⟩
  rw [after, typeWritten]
  dsimp only
  split <;> rfl

theorem log_of_fits (hfits : recordEnd e s.offset ≤ olTxqLogSize)
    (h : s.oldestUpdate (recordEnd e s.offset) = some { s with oldestRecordOffset := oldest }) :
    s.log e = some (s.after e s.offset oldest) := by
  obtain ⟨s', hs', hafter⟩ := allocFound_eq h
  have hroom : olTxqLogSize - s.offset ≥ allocSize e.type e.extraBytes s.offset := by
    dsimp only [recordEnd, recordAt] at hfits
    omega
  rw [log, alloc, if_pos hroom, hs', ← hafter]
  rfl

theorem log_of_wraps (hfits : olTxqLogSize < recordEnd e s.offset) (hallow : s.allowWrap = true)
    (hsmall : recordEnd e 0 < olTxqLogSize)
    (h : { s with wrapped := true }.oldestUpdate (recordEnd e 0) =
      some { s with wrapped := true, oldestRecordOffset := oldest }) :
    s.log e = some ({ s with wrapped := true }.after e 0 oldest) := by
  obtain ⟨s', hs', hafter⟩ := allocFound_eq h
  have hend := e.payload_end s.offset
  dsimp only [recordEnd, recordAt] at hfits hsmall
  rw [log, alloc, if_neg (by omega), if_neg (by rw [hallow]; decide)]
  dsimp only
  rw [if_neg (by omega), hs', ← hafter]
  rfl

theorem log_of_wraps_again (hfits : olTxqLogSize < recordEnd e s.offset)
    (hallow : s.allowWrap = true) (hsmall : recordEnd e 0 < olTxqLogSize)
    (hwrapped : s.wrapped = true)
    (h : s.oldestUpdate (recordEnd e 0) = some { s with oldestRecordOffset := oldest }) :
    s.log e = some (s.after e 0 oldest) := by
  cases s
  cases hwrapped
  exact log_of_wraps hfits hallow hsmall h

theorem log_of_large (hfits : olTxqLogSize < recordEnd e s.offset) (hallow : s.allowWrap = true)
    (hlarge : olTxqLogSize ≤ recordEnd e 0) : s.log e = some { s with wrapped := true } := by
  have hend := e.payload_end s.offset
  dsimp only [recordEnd, recordAt] at hfits hlarge
  rw [log, alloc, if_neg (by omega), if_neg (by rw [hallow]; decide)]
  dsimp only
  rw [if_pos (by omega)]
  rfl

theorem lt_recordEnd (e : LogEntry) (offset : ℕ) : offset < recordEnd e offset := by
  have hend := e.payload_end offset
  dsimp only [recordEnd, recordAt]
  omega

/-! What the log is after a record. -/

theorem after_data : (s.after e offset oldest).data =
    blit (s.typeWritten e offset) (payload e.type offset) e.bytes := rfl

theorem stored_new (h : recordEnd e offset ≤ olTxqLogSize) :
    Stored (s.after e offset oldest).data (recordAt e offset) := by
  have hend := e.payload_end offset
  refine ⟨rfl, h, ?_, span_blit⟩
  rw [after_data]
  exact (blit_of_lt hend.1).trans (update_self ..)

theorem after_data_of_ne {k : ℕ} (hk : k < offset ∨ recordEnd e offset ≤ k)
    (hmark : offset ≠ 0 ∨ k ≠ s.offset) : (s.after e offset oldest).data k = s.data k := by
  have hend := e.payload_end offset
  have hne : k ≠ offset := by
    have := lt_recordEnd e offset
    omega
  dsimp only [recordEnd, recordAt] at hk
  rw [after_data, blit_of_disjoint (by omega), typeWritten, update_of_ne hne]
  split
  · next h0 => rw [update_of_ne (hmark.resolve_left fun h => h h0)]
  · rfl

theorem after_mark (h : recordEnd e 0 ≤ s.offset) :
    (s.after e 0 oldest).data s.offset = OlTxLogEntryType.wrap.toByte := by
  have hend := e.payload_end 0
  have hpos := lt_recordEnd e 0
  dsimp only [recordEnd, recordAt] at h hpos
  rw [after_data, blit_of_le (by omega), typeWritten, update_of_ne (by omega), if_pos rfl,
    update_self]

theorem spares_iff {r : LogRecord} : s.spares (recordAt e offset) r = true ↔
    (r.offset + r.len ≤ offset ∨ recordEnd e offset ≤ r.offset) ∧
      (offset ≠ 0 ∨ s.offset < r.offset ∨ r.offset + r.len ≤ s.offset) := by
  simp only [spares, recordEnd, Bool.and_eq_true, Bool.or_eq_true, decide_eq_true_eq, or_assoc]
  rfl

theorem stored_after (hst : ∀ r ∈ s.records, Stored s.data r)
    (h : recordEnd e offset ≤ olTxqLogSize) :
    ∀ r ∈ (s.after e offset oldest).records, Stored (s.after e offset oldest).data r := by
  intro r hr
  rcases mem_append.1 hr with hr | hr
  · obtain ⟨hnew, hmark⟩ := spares_iff.1 (mem_rtakeWhile_imp hr)
    refine (hst r ((rtakeWhile_suffix _ _).subset hr)).congr fun k hk hkr => ?_
    exact (after_data_of_ne (by omega) (by omega)).symm
  · obtain rfl := mem_singleton.1 hr
    exact stored_new h

theorem after_offset (h : recordEnd e offset < olTxqLogSize) :
    (s.after e offset oldest).offset = recordEnd e offset := if_neg (not_le.2 h)

theorem after_wrapped (h : recordEnd e offset < olTxqLogSize) :
    (s.after e offset oldest).wrapped = s.wrapped := if_neg (not_le.2 h)

theorem oldestUpdate_of_walk {n q : ℕ} (hwrapped : s.wrapped = true)
    (hgo : ¬ (n > s.offset ∧ s.oldestRecordOffset = 0))
    (hwalk : s.oldestWalk n walkFuel (if n > s.offset then s.oldestRecordOffset else 0) = some q)
    (hq : q < olTxqLogSize) : s.oldestUpdate n = some { s with oldestRecordOffset := q } := by
  rw [oldestUpdate, if_neg (by rw [hwrapped]; decide), if_neg hgo, hwalk, Option.bind_eq_bind,
    Option.bind_some, if_neg (by omega)]
  rfl

end TxqLog

/-! ### One step -/

section Step
variable {s : TxqLog} {e : LogEntry} {tail front : List LogRecord}
open TxqLog

theorem Filling.records_after (h : Filling s) (oldest : ℕ) :
    (s.after e s.offset oldest).records = s.records ++ [recordAt e s.offset] := by
  have hall : s.records.rtakeWhile (s.spares (recordAt e s.offset)) = s.records := by
    refine rtakeWhile_eq_self_iff.2 fun r hr => ?_
    have hend := (h.tiled.mem hr).2.2
    exact spares_iff.2 ⟨.inl hend, .inr (.inr hend)⟩
  exact congrArg (· ++ _) hall

theorem records_over {oldest : ℕ} (hst : ∀ r ∈ s.records, Stored s.data r)
    (hlast : ∀ hne : s.records ≠ [], (s.records.getLast hne).offset < recordEnd e 0) :
    (s.after e 0 oldest).records = [recordAt e 0] := by
  have hnone : s.records.rtakeWhile (s.spares (recordAt e 0)) = [] := by
    refine rtakeWhile_eq_nil_iff.2 fun hne hspares => ?_
    have hlen := (hst _ (getLast_mem hne)).len_pos
    have hspares := (spares_iff.1 hspares).1
    have := hlast hne
    omega
  exact congrArg (· ++ [recordAt e 0]) hnone

theorem Filling.fits (h : Filling s) (hs : LogHeld s) (hlt : recordEnd e s.offset < olTxqLogSize) :
    ∃ s', s.log e = some s' ∧ LogHeld s' := by
  have hold : s.oldestUpdate (recordEnd e s.offset) =
      some { s with oldestRecordOffset := s.oldestRecordOffset } := if_pos h.wrapped
  refine ⟨_, log_of_fits hlt.le hold, hs.allowWrap, stored_after hs.stored hlt.le, .inl ?_⟩
  refine ⟨?_, h.oldest, ?_, ?_⟩
  · rw [after_wrapped hlt, h.wrapped]
  · rwa [after_offset hlt]
  · rw [h.records_after, after_offset hlt]
    have hpos := lt_recordEnd e s.offset
    exact h.tiled.concat rfl (pos_of_lt_add_right hpos)

/-- A record that goes to the start, and is not longer than what has been written of the round. -/
theorem LogHeld.wraps (hs : LogHeld s) (hrecords : s.records = tail ++ front)
    (hfront : Tiled LogRecord.offset LogRecord.len 0 front s.offset)
    (hlt : s.offset < olTxqLogSize) (hfits : olTxqLogSize < recordEnd e s.offset)
    (hback : recordEnd e 0 ≤ s.offset) : ∃ s', s.log e = some s' ∧ LogHeld s' := by
  obtain ⟨ys, zs, q, rfl, hys, hzs, hq, hbefore⟩ := hfront.split hback
  have hpos := lt_recordEnd e 0
  have hqle := hzs.le
  have hst : ∀ r ∈ ys, Stored s.data r := fun r hr => hs.stored r (by simp [hrecords, hr])
  obtain ⟨fuel, hfuel⟩ : ∃ fuel, walkFuel = ys.length + (fuel + 1) := by
    have := hys.length_le
    exact ⟨walkFuel - ys.length - 1, by rw [walkFuel]; omega⟩
  have hold : { s with wrapped := true }.oldestUpdate (recordEnd e 0) =
      some { s with wrapped := true, oldestRecordOffset := q } := by
    refine oldestUpdate_of_walk rfl (fun h => by have : recordEnd e 0 > s.offset := h.1; omega) ?_
      (by omega)
    have hle : ¬ recordEnd e 0 > s.offset := by omega
    rw [if_neg hle, hfuel]
    exact (oldestWalk_tiled (s := { s with wrapped := true }) hys hst hbefore).trans
      (oldestWalk_of_le hq)
  have hrest : s.records.rtakeWhile (s.spares (recordAt e 0)) = zs := by
    rw [hrecords, ← append_assoc]
    refine rtakeWhile_append (fun r hr => ?_) fun hne hlast => ?_
    · have hr := hzs.mem hr
      exact spares_iff.2 ⟨by omega, by omega⟩
    · have hne' : ys ≠ [] := hys.ne_nil (by omega)
      rw [getLast_append_of_ne_nil _ hne'] at hlast
      have hmem := getLast_mem hne'
      have hmem' := hys.mem hmem
      have hspares := (spares_iff.1 hlast).1
      have := hbefore _ hmem
      omega
  refine ⟨_, log_of_wraps hfits hs.allowWrap (by omega) hold, hs.allowWrap,
    stored_after hs.stored (by omega), .inr ⟨zs, [recordAt e 0], ?_⟩⟩
  have hwrapOffset : (({ s with wrapped := true } : TxqLog).after e 0 q).wrapOffset = s.offset := by
    refine if_pos ⟨rfl, ?_⟩
    dsimp only [recordEnd] at hback ⊢
    omega
  refine ⟨?_, congrArg (· ++ _) hrest, ?_, ?_, ?_, ?_, ?_, ?_⟩
  · rw [after_wrapped (by omega)]
  · rw [hwrapOffset]
    exact hzs
  · rw [after_offset (by omega)]
    exact ⟨rfl, by dsimp only [recordEnd] at hpos; omega, rfl⟩
  · rw [after_offset (by omega)]
    exact hpos
  · rw [after_offset (by omega)]
    exact hq
  · rwa [hwrapOffset]
  · rw [hwrapOffset]
    exact after_mark (s := { s with wrapped := true }) hback

theorem Wrapped.rest (h : Wrapped s tail front) (hs : LogHeld s) {n : ℕ} (hn : n ≤ s.wrapOffset)
    (hgo : n > s.offset) :
    ∃ ys zs q, tail = ys ++ zs ∧ Tiled LogRecord.offset LogRecord.len s.oldestRecordOffset ys q ∧
      Tiled LogRecord.offset LogRecord.len q zs s.wrapOffset ∧ n ≤ q ∧
      (∀ r ∈ ys, r.offset < n) ∧
      s.oldestUpdate n = some { s with oldestRecordOffset := q } := by
  obtain ⟨ys, zs, q, rfl, hys, hzs, hq, hbefore⟩ := h.tail.split hn
  have hpos := h.offset_pos
  have hle := h.offset_le
  have hlt := h.wrapOffset_lt
  have hqle := hzs.le
  have hst : ∀ r ∈ ys, Stored s.data r := fun r hr => hs.stored r (by simp [h.records, hr])
  obtain ⟨fuel, hfuel⟩ : ∃ fuel, walkFuel = ys.length + (fuel + 1) := by
    have := hys.length_le
    exact ⟨walkFuel - ys.length - 1, by rw [walkFuel]; omega⟩
  refine ⟨ys, zs, q, rfl, hys, hzs, hq, hbefore,
    oldestUpdate_of_walk h.wrapped (fun h0 => by omega) ?_ (by omega)⟩
  rw [if_pos hgo, hfuel]
  exact (oldestWalk_tiled hys hst hbefore).trans (oldestWalk_of_le hq)

theorem Wrapped.fits (h : Wrapped s tail front) (hs : LogHeld s)
    (hle : recordEnd e s.offset ≤ s.wrapOffset) : ∃ s', s.log e = some s' ∧ LogHeld s' := by
  have hpos := lt_recordEnd e s.offset
  have hlt := h.wrapOffset_lt
  obtain ⟨ys, zs, q, rfl, hys, hzs, hq, hbefore, hold⟩ := h.rest hs hle hpos
  have hrest : s.records.rtakeWhile (s.spares (recordAt e s.offset)) = zs ++ front := by
    rw [h.records, append_assoc]
    refine rtakeWhile_append (fun r hr => ?_) fun hne hlast => ?_
    · have hoffset := h.offset_pos
      rcases mem_append.1 hr with hr | hr
      · have hr := hzs.mem hr
        exact spares_iff.2 ⟨by omega, by omega⟩
      · have hr := h.front.mem hr
        exact spares_iff.2 ⟨by omega, by omega⟩
    · have hmem := getLast_mem hne
      have hstart := hys.mem hmem
      have hspares := (spares_iff.1 hlast).1
      have hr := hbefore _ hmem
      have hoffset := h.offset_le
      omega
  have hwrapOffset : (s.after e s.offset q).wrapOffset = s.wrapOffset :=
    if_neg fun h0 => ne_of_gt h.offset_pos h0.1
  refine ⟨_, log_of_fits (by omega) hold, hs.allowWrap, stored_after hs.stored (by omega),
    .inr ⟨zs, front ++ [recordAt e s.offset], ?_⟩⟩
  refine ⟨?_, ?_, ?_, ?_, ?_, ?_, ?_, ?_⟩
  · rw [after_wrapped (by omega), h.wrapped]
  · rw [← append_assoc, ← hrest]
    rfl
  · rw [hwrapOffset]
    exact hzs
  · rw [after_offset (by omega)]
    exact h.front.concat rfl (pos_of_lt_add_right hpos)
  · rw [after_offset (by omega)]
    omega
  · rw [after_offset (by omega)]
    exact hq
  · rwa [hwrapOffset]
  · rw [hwrapOffset, after_data_of_ne (.inr hle) (.inl (ne_of_gt h.offset_pos))]
    exact h.mark

theorem Wrapped.last_lt (h : Wrapped s tail front) {n : ℕ} (hn : s.offset < n)
    (hne : s.records ≠ []) : (s.records.getLast hne).offset < n := by
  have hfront := h.front.ne_nil h.offset_pos
  have hmem := h.front.mem (getLast_mem hfront)
  simp only [h.records, getLast_append_of_ne_nil _ hfront]
  omega

/-- **A record that is put over all of the round**, and does not reach the mark: the log is right if nothing is left of the last one. -/
theorem Wrapped.over (h : Wrapped s tail front) (hs : LogHeld s)
    (hfits : olTxqLogSize < recordEnd e s.offset) (hover : s.offset < recordEnd e 0)
    (hle : recordEnd e 0 ≤ s.wrapOffset) :
    ∃ s', s.log e = some s' ∧ (LogRight s' ↔ ∀ r ∈ s.records, r.offset < recordEnd e 0) ∧
      ((∀ r ∈ s.records, r.offset < recordEnd e 0) → LogHeld s') := by
  have hlt := h.wrapOffset_lt
  have hpos := lt_recordEnd e 0
  have hoffset := h.offset_pos
  obtain ⟨ys, zs, q, rfl, hys, hzs, hq, hbefore, hold⟩ := h.rest hs hle hover
  have hrecords : (s.after e 0 q).records = [recordAt e 0] :=
    records_over hs.stored (h.last_lt hover)
  have hwrapOffset : (s.after e 0 q).wrapOffset = s.wrapOffset := by
    refine if_neg fun h0 => ?_
    dsimp only [recordEnd] at hover
    omega
  -- what the walk is going to show
  have hheld : LogHeld { s.after e 0 q with records := zs ++ [recordAt e 0] } := by
    refine ⟨hs.allowWrap, fun r hr => ?_, .inr ⟨zs, [recordAt e 0], ?_, rfl, ?_, ?_, ?_, ?_, ?_, ?_⟩⟩
    · rcases mem_append.1 hr with hr | hr
      · have hin := hzs.mem hr
        refine (hs.stored r (by simp [h.records, hr])).congr fun k hk hkr => ?_
        exact (after_data_of_ne (by omega) (by omega)).symm
      · obtain rfl := mem_singleton.1 hr
        exact stored_new (by omega)
    · change (s.after e 0 q).wrapped = true
      rw [after_wrapped (by omega), h.wrapped]
    · change Tiled _ _ q zs (s.after e 0 q).wrapOffset
      rwa [hwrapOffset]
    · change Tiled _ _ 0 _ (s.after e 0 q).offset
      rw [after_offset (by omega)]
      exact ⟨rfl, by dsimp only [recordEnd] at hpos; omega, rfl⟩
    · change 0 < (s.after e 0 q).offset
      rw [after_offset (by omega)]
      exact hpos
    · change (s.after e 0 q).offset ≤ q
      rw [after_offset (by omega)]
      exact hq
    · change (s.after e 0 q).wrapOffset < _
      rwa [hwrapOffset]
    · change (s.after e 0 q).data (s.after e 0 q).wrapOffset = _
      rw [hwrapOffset, after_data_of_ne (.inr hle) (.inr (by omega))]
      exact h.mark
  have hgone : (∀ r ∈ s.records, r.offset < recordEnd e 0) → LogHeld (s.after e 0 q) := by
    intro hall
    have hnil : zs = [] := by
      refine eq_nil_iff_forall_not_mem.2 fun r hr => ?_
      have hin := hzs.mem hr
      have := hall r (by simp [h.records, hr])
      omega
    rw [hnil, nil_append, ← hrecords] at hheld
    exact hheld
  refine ⟨_, log_of_wraps_again hfits hs.allowWrap (by omega) h.wrapped hold,
    ⟨fun hr r hmem => ?_, fun hall => (hgone hall).right⟩, hgone⟩
  have hnil : zs = [] := by
    have hshown := hheld.right.display
    rw [display_history, hr.display, hrecords] at hshown
    have heq := Option.some.inj hshown
    dsimp only at heq
    rw [map_append] at heq
    exact map_eq_nil_iff.1 (self_eq_append_left.1 heq)
  rw [h.records, hnil, append_nil] at hmem
  rcases mem_append.1 hmem with hmem | hmem
  · exact hbefore r hmem
  · have := h.front.mem hmem
    omega

/-! The records that put it wrong. -/

theorem not_right_of_start {s' : TxqLog} (hold : s'.oldestRecordOffset = 0)
    (hwrapped : s'.wrapped = true) (hnodup : (s'.records.map LogRecord.offset).Nodup)
    (hempty : s'.offset = 0 → s'.records = []) : ¬ LogRight s' :=
  fun h => display_ne_of_start hold hwrapped hnodup hempty h.display

theorem not_right_of_full {s' : TxqLog} (hold : s'.oldestRecordOffset = 0)
    (hwrapped : s'.wrapped = true) (hst : ∀ r ∈ s'.records, Stored s'.data r)
    (hfull : Tiled LogRecord.offset LogRecord.len 0 s'.records olTxqLogSize) : ¬ LogRight s' := by
  intro h
  have hnone := h.display
  rw [display, hold, hwrapped, displayWalk_full hfull hst] at hnone
  cases hnone

theorem Filling.full (h : Filling s) (hs : LogHeld s) (hfull : recordEnd e s.offset = olTxqLogSize) :
    ∃ s', s.log e = some s' ∧ ¬ LogRight s' := by
  have hpos := lt_recordEnd e s.offset
  have hold : s.oldestUpdate (recordEnd e s.offset) =
      some { s with oldestRecordOffset := s.oldestRecordOffset } := if_pos h.wrapped
  refine ⟨_, log_of_fits hfull.le hold, not_right_of_full h.oldest (if_pos hfull.ge)
    (stored_after hs.stored hfull.le) ?_⟩
  rw [h.records_after, ← hfull]
  exact h.tiled.concat rfl (pos_of_lt_add_right hpos)

theorem Filling.large (h : Filling s) (hs : LogHeld s) (hfits : olTxqLogSize < recordEnd e s.offset)
    (hlarge : olTxqLogSize ≤ recordEnd e 0) : ∃ s', s.log e = some s' ∧ ¬ LogRight s' := by
  refine ⟨_, log_of_large hfits hs.allowWrap hlarge,
    not_right_of_start h.oldest rfl h.tiled.nodup fun hzero => ?_⟩
  have hlen := h.tiled.length_le
  rw [show s.offset = 0 from hzero] at hlen
  have hnil : s.records = [] := eq_nil_of_length_eq_zero (by omega)
  exact hnil

theorem Filling.over (h : Filling s) (hs : LogHeld s) (hfits : olTxqLogSize < recordEnd e s.offset)
    (hsmall : recordEnd e 0 < olTxqLogSize) (hover : s.offset < recordEnd e 0) :
    ∃ s', s.log e = some s' ∧ ¬ LogRight s' := by
  have hold : { s with wrapped := true }.oldestUpdate (recordEnd e 0) =
      some { s with wrapped := true, oldestRecordOffset := s.oldestRecordOffset } :=
    (if_neg (fun h => nomatch h)).trans (if_pos ⟨hover, h.oldest⟩)
  have hrecords : (({ s with wrapped := true } : TxqLog).after e 0 s.oldestRecordOffset).records =
      [recordAt e 0] := by
    refine records_over (s := { s with wrapped := true }) hs.stored fun hne => ?_
    have hmem := h.tiled.mem (getLast_mem hne)
    omega
  refine ⟨_, log_of_wraps hfits hs.allowWrap hsmall hold, not_right_of_start h.oldest ?_ ?_ ?_⟩
  · rw [after_wrapped hsmall]
  · rw [hrecords]
    exact nodup_singleton _
  · rw [after_offset hsmall]
    exact fun h0 => absurd h0 (ne_of_gt (lt_recordEnd e 0))

theorem Wrapped.past (h : Wrapped s tail front) (hs : LogHeld s) {n : ℕ} (hn : s.wrapOffset < n)
    (hgo : n > s.offset) : s.oldestUpdate n = some { s with oldestRecordOffset := 0 } := by
  have hpos := h.offset_pos
  have hle := h.offset_le
  have hst : ∀ r ∈ tail, Stored s.data r := fun r hr => hs.stored r (by simp [h.records, hr])
  have hbefore : ∀ r ∈ tail, r.offset < n := by
    intro r hr
    have := h.tail.mem hr
    omega
  obtain ⟨fuel, hfuel⟩ : ∃ fuel, walkFuel = tail.length + (fuel + 1) := by
    have := h.tail.length_le
    have := h.wrapOffset_lt
    exact ⟨walkFuel - tail.length - 1, by rw [walkFuel]; omega⟩
  refine oldestUpdate_of_walk h.wrapped (fun h0 => by omega) ?_ (by decide)
  rw [if_pos hgo, hfuel]
  exact (oldestWalk_tiled h.tail hst hbefore).trans (oldestWalk_mark hn h.wrapOffset_lt h.mark)

theorem Wrapped.mark_lost (h : Wrapped s tail front) (hs : LogHeld s)
    (hfits : recordEnd e s.offset ≤ olTxqLogSize) (hmark : s.wrapOffset < recordEnd e s.offset) :
    ∃ s', s.log e = some s' ∧ ¬ LogRight s' := by
  have hpos := lt_recordEnd e s.offset
  have hoffset := h.offset_pos
  have hrest : s.records.rtakeWhile (s.spares (recordAt e s.offset)) = front := by
    rw [h.records]
    refine rtakeWhile_append (fun r hr => ?_) fun hne hlast => ?_
    · have hr := h.front.mem hr
      exact spares_iff.2 ⟨by omega, by omega⟩
    · have hmem := h.tail.mem (getLast_mem hne)
      have hspares := (spares_iff.1 hlast).1
      have hle := h.offset_le
      omega
  have hrecords : (s.after e s.offset 0).records = front ++ [recordAt e s.offset] :=
    congrArg (· ++ _) hrest
  have hfront : Tiled LogRecord.offset LogRecord.len 0 (s.after e s.offset 0).records
      (recordEnd e s.offset) := by
    rw [hrecords]
    exact h.front.concat rfl (pos_of_lt_add_right hpos)
  refine ⟨_, log_of_fits hfits (h.past hs hmark hpos), ?_⟩
  rcases lt_or_eq_of_le hfits with hlt | heq
  · refine not_right_of_start rfl ?_ hfront.nodup fun h0 => ?_
    · rw [after_wrapped hlt, h.wrapped]
    · rw [after_offset hlt] at h0
      omega
  · exact not_right_of_full rfl (if_pos heq.ge) (stored_after hs.stored hfits) (heq ▸ hfront)

theorem Wrapped.mark_over (h : Wrapped s tail front) (hs : LogHeld s)
    (hfits : olTxqLogSize < recordEnd e s.offset) (hsmall : recordEnd e 0 < olTxqLogSize)
    (hover : s.offset < recordEnd e 0) (hmark : s.wrapOffset < recordEnd e 0) :
    ∃ s', s.log e = some s' ∧ ¬ LogRight s' := by
  refine ⟨_, log_of_wraps_again hfits hs.allowWrap hsmall h.wrapped (h.past hs hmark hover),
    not_right_of_start rfl ?_ ?_ ?_⟩
  · rw [after_wrapped hsmall, h.wrapped]
  · rw [records_over hs.stored (h.last_lt hover)]
    exact nodup_singleton _
  · rw [after_offset hsmall]
    exact fun h0 => absurd h0 (ne_of_gt (lt_recordEnd e 0))

end Step

/-! ### Every run -/

/-- **The condition** on a record.  Where it fits behind the last one it ends before the end of the buffer, and no later than the mark once the log has wrapped.  Where it goes to the start, it is no longer than what has been written of the round, or it is put over all the records there are but not the mark.  Where it fits nowhere the log has wrapped before. -/
abbrev EntryOk (s : TxqLog) (e : LogEntry) : Prop :=
  if TxqLog.recordEnd e s.offset ≤ olTxqLogSize then
    if s.wrapped = true then TxqLog.recordEnd e s.offset ≤ s.wrapOffset
    else TxqLog.recordEnd e s.offset < olTxqLogSize
  else if TxqLog.recordEnd e 0 < olTxqLogSize then
    TxqLog.recordEnd e 0 ≤ s.offset ∨ s.wrapped = true ∧ TxqLog.recordEnd e 0 ≤ s.wrapOffset ∧
        ∀ r ∈ s.records, r.offset < TxqLog.recordEnd e 0
  else s.wrapped = true

section Run
variable {s : TxqLog} {e : LogEntry}
open TxqLog

theorem step_of_held (hok : EntryOk s e) (h : ∃ s', s.log e = some s' ∧ LogHeld s') :
    ∃ s', s.log e = some s' ∧ (LogRight s' ↔ EntryOk s e) ∧ (EntryOk s e → LogHeld s') := by
  obtain ⟨s', hlog, hs'⟩ := h
  exact ⟨s', hlog, iff_of_true hs'.right hok, fun _ => hs'⟩

theorem step_of_wrong (hok : ¬ EntryOk s e) (h : ∃ s', s.log e = some s' ∧ ¬ LogRight s') :
    ∃ s', s.log e = some s' ∧ (LogRight s' ↔ EntryOk s e) ∧ (EntryOk s e → LogHeld s') := by
  obtain ⟨s', hlog, hs'⟩ := h
  exact ⟨s', hlog, iff_of_false hs' hok, fun h => absurd h hok⟩

/-- **One record.** -/
theorem LogHeld.step (hs : LogHeld s) (e : LogEntry) :
    ∃ s', s.log e = some s' ∧ (LogRight s' ↔ EntryOk s e) ∧ (EntryOk s e → LogHeld s') := by
  have hround := hs.round
  by_cases hfits : recordEnd e s.offset ≤ olTxqLogSize
  · rcases hround with hf | ⟨tail, front, hw⟩
    · by_cases hlt : recordEnd e s.offset < olTxqLogSize
      · exact step_of_held (by simp [EntryOk, hfits, hf.wrapped, hlt]) (hf.fits hs hlt)
      · exact step_of_wrong (by simp [EntryOk, hfits, hf.wrapped, hlt])
          (hf.full hs (le_antisymm hfits (not_lt.1 hlt)))
    · by_cases hle : recordEnd e s.offset ≤ s.wrapOffset
      · exact step_of_held (by simp [EntryOk, hfits, hw.wrapped, hle]) (hw.fits hs hle)
      · exact step_of_wrong (by simp [EntryOk, hfits, hw.wrapped, hle])
          (hw.mark_lost hs hfits (not_le.1 hle))
  have hwraps := not_le.1 hfits
  by_cases hsmall : recordEnd e 0 < olTxqLogSize
  · by_cases hback : recordEnd e 0 ≤ s.offset
    · refine step_of_held (by simp [EntryOk, hfits, hsmall, hback]) ?_
      rcases hround with hf | ⟨tail, front, hw⟩
      · exact hs.wraps (nil_append _).symm hf.tiled hf.offset_lt hwraps hback
      · exact hs.wraps hw.records hw.front
          (lt_of_le_of_lt (hw.offset_le.trans hw.tail.le) hw.wrapOffset_lt) hwraps hback
    · have hover := not_le.1 hback
      rcases hround with hf | ⟨tail, front, hw⟩
      · exact step_of_wrong (by simp [EntryOk, hfits, hsmall, hback, hf.wrapped])
          (hf.over hs hwraps hsmall hover)
      · by_cases hle : recordEnd e 0 ≤ s.wrapOffset
        · obtain ⟨s', hlog, hright, hheld⟩ := hw.over hs hwraps hover hle
          have hok : EntryOk s e ↔ ∀ r ∈ s.records, r.offset < recordEnd e 0 := by
            simp [EntryOk, hfits, hsmall, hback, hw.wrapped, hle]
          exact ⟨s', hlog, hright.trans hok.symm, fun h => hheld (hok.1 h)⟩
        · exact step_of_wrong (by simp [EntryOk, hfits, hsmall, hback, hle])
            (hw.mark_over hs hwraps hsmall hover (not_le.1 hle))
  · have hlarge := not_lt.1 hsmall
    rcases hround with hf | ⟨tail, front, hw⟩
    · exact step_of_wrong (by simp [EntryOk, hfits, hsmall, hf.wrapped]) (hf.large hs hwraps hlarge)
    · refine step_of_held (by simp [EntryOk, hfits, hsmall, hw.wrapped])
        ⟨s, (log_of_large hwraps hs.allowWrap hlarge).trans ?_, hs⟩
      cases s
      cases hw.wrapped
      rfl

end Run

/-- **The event log.**  As long as each record meets the condition, the log shows the records since the last one that has been overwritten, all of them and in their order; and it no longer does after the first that does not. -/
theorem txq_log_iff (s : TxqLog) (hs : txqLogMachine.Reach EntryOk s) :
    LogRight s ∧
      ∀ e, ∃ s', txqLogMachine.step s e = some s' ∧ (LogRight s' ↔ EntryOk s e) := by
  have h : LogHeld s := by
    refine hs.invariant LogHeld (fun s hinit => ?_) fun s e s' h hok hstep => ?_
    · rw [show s = txqLogClear from hinit]
      exact ⟨rfl, fun _ hr => (nomatch hr), .inl ⟨rfl, rfl, by decide, rfl⟩⟩
    · obtain ⟨s'', hlog, -, hheld⟩ := h.step e
      cases hlog.symm.trans hstep
      exact hheld hok
  refine ⟨h.right, fun e => ?_⟩
  obtain ⟨s', hlog, hright, -⟩ := h.step e
  exact ⟨s', hlog, hright⟩

def frameQueued : LogEntry := .enqueue ⟨1, 0, 0, 100⟩

/-- **A full log is not shown**: the walk leads out of the buffer. -/
theorem logFull_notShown : ¬ ∀ s, txqLogMachine.Reach (fun _ _ => True) s → LogRight s := by
  intro h
  obtain ⟨s, hs, hnone⟩ : ∃ s, txqLogMachine.run txqLogClear (List.replicate 64 frameQueued) =
      some s ∧ s.display = none :=
    Machine.exists_run (by decide +kernel)
  have hr := h s (Machine.reach_of_run rfl hs)
  cases hnone.symm.trans hr.display

/-- States of twenty categories: the fourth goes to the start, over the first, and what follows it over the second. -/
theorem txq_log_iff_wraps : ∃ s : TxqLog, s.wrapped = true ∧ s.oldestRecordOffset = 259 ∧
    LogRight s := by
  let e : LogEntry := .queueState ⟨1, 5, List.replicate 20 (1, 100)⟩
  obtain ⟨s, -, hok, hwrapped, hoffset⟩ : ∃ s,
      txqLogMachine.run txqLogClear [e, e, e, e, frameQueued] = some s ∧
      txqLogMachine.Reach EntryOk s ∧ s.wrapped = true ∧ s.oldestRecordOffset = 259 :=
    Machine.exists_reach (by rfl) (by decide +kernel) (by decide +kernel)
  exact ⟨s, hwrapped, hoffset, (txq_log_iff s hok).1⟩

end Qcacld.Txrx

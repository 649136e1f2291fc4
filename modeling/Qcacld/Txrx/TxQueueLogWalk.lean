import Qcacld.Txrx.TxQueueLog

/-!
# Txrx — TxQueueLogWalk

The walks over the event log of the tx queues, record after record: the one that looks for the oldest record that is not in the way, and the one that displays them.  The second ends at the mark of the wrap and what follows the start, and has to come upon the mark: over records up to the end of the buffer it leads out of it (`displayWalk_full`), and from the start, with no mark before the last record, behind that (`display_ne_of_start`).
-/

namespace Qcacld.Txrx
open Qcacld.Support List Option Nat OlTxLogEntryType TxqLog

/-! ### Bytes -/

section Bytes

theorem OlTxLogQueueAdd.ofBytes_bytes (r : OlTxLogQueueAdd) : ofBytes r.bytes = r := by
  have h16 : ∀ n : UInt16, UInt16.ofNat (littleEndian (toLittleEndian 2 n.toNat)) = n := by
    intro n
    have hlt : n.toNat < 256 ^ 2 := n.toNat_lt
    rw [littleEndian_toLittleEndian, mod_eq_of_lt hlt, UInt16.ofNat_toNat]
  cases r with
  | mk numFrms tid peerId numBytes =>
    change OlTxLogQueueAdd.mk numFrms tid (.ofNat (littleEndian (toLittleEndian 2 peerId.toNat)))
      (.ofNat (littleEndian (toLittleEndian 2 numBytes.toNat))) = _
    rw [h16, h16]

theorem OlTxLogQueueState.activeBitmap_bytes (r : OlTxLogQueueState) :
    UInt32.ofNat (littleEndian (r.bytes.take 4)) = r.activeBitmap := by
  have hlt : r.activeBitmap.toNat < 256 ^ 4 := r.activeBitmap.toNat_lt
  change UInt32.ofNat (littleEndian (toLittleEndian 4 r.activeBitmap.toNat)) = _
  rw [littleEndian_toLittleEndian, mod_eq_of_lt hlt, UInt32.ofNat_toNat]

theorem OlTxLogQueueState.length_bytes (r : OlTxLogQueueState) :
    r.bytes.length = 7 + 6 * r.data.length := by
  simp only [bytes, header, length_append, length_toLittleEndian, length_singleton,
    length_flatMap, map_const', sum_replicate, Nat.nsmul_eq_mul]
  omega

theorem LogEntry.length_bytes (e : LogEntry) : e.bytes.length = e.type.size 0 + e.extraBytes := by
  cases e with
  | queueState r => exact r.length_bytes
  | enqueue r | dequeue r | queueFree r => rfl

theorem LogEntry.alignPad_nonneg (e : LogEntry) (offset : ℕ) : 0 ≤ e.type.alignPad offset := by
  have halign : (e.type.align : ℤ) ≠ 0 := by
    cases e <;> exact fun h => nomatch h
  exact Int.emod_nonneg _ halign

theorem LogEntry.payload_end (e : LogEntry) (offset : ℕ) : offset < TxqLog.payload e.type offset ∧
      TxqLog.payload e.type offset + e.bytes.length =
        offset + TxqLog.allocSize e.type e.extraBytes offset := by
  have hpad := e.alignPad_nonneg offset
  rw [e.length_bytes, payload, allocSize]
  omega

end Bytes

/-- The record is in the log, with all its bytes. -/
structure Stored (data : ℕ → UInt8) (r : LogRecord) : Prop where
  len : r.len = TxqLog.allocSize r.entry.type r.entry.extraBytes r.offset
  inside : r.offset + r.len ≤ olTxqLogSize
  type : data r.offset = r.entry.type.toByte
  bytes : span data (TxqLog.payload r.entry.type r.offset) r.entry.bytes.length = r.entry.bytes

namespace Stored
variable {data data' : ℕ → UInt8} {r : LogRecord} {s : TxqLog}

theorem payload_end (h : Stored data r) : r.offset < TxqLog.payload r.entry.type r.offset ∧
      TxqLog.payload r.entry.type r.offset + r.entry.bytes.length = r.offset + r.len :=
  h.len ▸ r.entry.payload_end r.offset

theorem len_pos (h : Stored data r) : 0 < r.len := by
  have := h.payload_end
  omega

theorem congr (h : Stored data r)
    (heq : ∀ k, r.offset ≤ k → k < r.offset + r.len → data k = data' k) : Stored data' r := by
  have hend := h.payload_end
  refine ⟨h.len, h.inside, ?_, ?_⟩
  · rw [← heq r.offset (Nat.le_refl _) (Nat.lt_add_of_pos_right h.len_pos)]
    exact h.type
  · rw [← h.bytes, h.bytes]
    refine Eq.trans (span_congr fun k hk hkn => ?_) h.bytes
    exact (heq k (by omega) (by omega)).symm

theorem readType (h : Stored s.data r) : s.readType r.offset = some r.entry.type := by
  have hpos := h.len_pos
  have hin := h.inside
  rw [TxqLog.readType, TxqLog.read, if_pos (by omega), map_some]
  change some (ofByte (s.data r.offset)) = _
  rw [h.type, ofByte_toByte]

theorem payload_add {m n : ℕ} (h : Stored data r) (hn : m + n ≤ r.entry.bytes.length) :
    span data (TxqLog.payload r.entry.type r.offset + m) n = (r.entry.bytes.drop m).take n := by
  rw [← h.bytes, span_drop, span_take, min_eq_left (by omega)]

theorem len_eq (h : Stored data r) : (r.len : ℤ) =
    r.entry.type.size 0 + r.entry.extraBytes + 1 + r.entry.type.alignPad r.offset := by
  have hpad := r.entry.alignPad_nonneg r.offset
  rw [h.len, allocSize]
  omega

theorem recordSize (h : Stored s.data r) :
    s.recordSize r.entry.type r.offset = some (r.len : ℤ) := by
  rw [TxqLog.recordSize, TxqLog.numCatsActive, h.len_eq]
  cases he : r.entry with
  | enqueue _ | dequeue _ | queueFree _ => rfl
  | queueState e =>
    have hend := h.payload_end
    have hsize : olTxqLogSize = 512 := rfl
    have hin := h.inside
    have hbytes := h.payload_add (m := 6) (n := 1)
    rw [he] at hend hbytes
    have hl : (LogEntry.queueState e).bytes.length = 7 + 6 * e.data.length := e.length_bytes
    have hnum : ((LogEntry.queueState e).bytes.drop 6).take 1 = [UInt8.ofNat e.data.length] := rfl
    rw [hl] at hend hbytes
    have hread : s.read (TxqLog.payload .queueState r.offset + 6) 1 =
        some [UInt8.ofNat e.data.length] := by
      rw [TxqLog.read, if_pos (by simp only [LogEntry.type] at hend; omega), ← hnum]
      exact congrArg some (hbytes (by omega))
    have hsmall : (UInt8.ofNat e.data.length).toNat = e.data.length := by
      rw [UInt8.toNat_ofNat']
      exact mod_eq_of_lt (by omega)
    simp only [LogEntry.type, if_true, hread, LogEntry.extraBytes, OlTxLogEntryType.size]
    simp [hsmall]
    omega

/-- The bytes that are copied of it to be printed; those of a state without categories end behind it. -/
def copied : LogEntry → ℕ
  | .enqueue _ | .dequeue _ | .queueFree _ => 6
  | .queueState _ => 8

theorem take_read {m n : ℕ} {record : List UInt8} (h : Stored s.data r)
    (hread : s.read (TxqLog.payload r.entry.type r.offset) n = some record) (hm : m ≤ n)
    (hl : m ≤ r.entry.bytes.length) : record.take m = r.entry.bytes.take m := by
  rw [TxqLog.read] at hread
  split at hread
  · cases hread
    rw [span_take, min_eq_left hm]
    exact h.payload_add (m := 0) ((zero_add m).symm ▸ hl)
  · cases hread

theorem read_bytes {record : List UInt8} (h : Stored s.data r)
    (hread : s.read (TxqLog.payload r.entry.type r.offset) r.entry.bytes.length = some record) :
    record = r.entry.bytes := by
  rw [TxqLog.read] at hread
  split at hread
  · cases hread
    exact h.bytes
  · cases hread

theorem recordDisplay (h : Stored s.data r) : s.recordDisplay r.offset =
      (s.read (TxqLog.payload r.entry.type r.offset) (copied r.entry)).map
        fun _ => (some r.entry.line, (r.len : ℤ)) := by
  have hbytes := fun record => @read_bytes r s record h
  have htake := fun record => @take_read r s 4 8 record h
  rw [TxqLog.recordDisplay, h.readType, bind_eq_bind, bind_some, h.recordSize,
    bind_eq_bind, bind_some]
  cases he : r.entry with
  | enqueue e | dequeue e | queueFree e =>
    rw [he] at hbytes
    rw [map_eq_bind]
    refine bind_congr fun record hread => ?_
    rw [hbytes record hread]
    exact congrArg (fun e => some (some (LogLine.queue _ e), (r.len : ℤ))) e.ofBytes_bytes
  | queueState e =>
    rw [he] at htake
    rw [map_eq_bind]
    refine bind_congr fun record hread => ?_
    have hl : (LogEntry.queueState e).bytes.length = 7 + 6 * e.data.length := e.length_bytes
    rw [htake record hread (by decide) (by omega)]
    exact congrArg (fun n => some (some (LogLine.state n), (r.len : ℤ))) e.activeBitmap_bytes

theorem recordDisplay_of_lt (h : Stored s.data r) (hlt : r.offset + r.len < olTxqLogSize) :
    s.recordDisplay r.offset = some (some r.entry.line, (r.len : ℤ)) := by
  have hend := h.payload_end
  have hcopied : copied r.entry ≤ r.entry.bytes.length + 1 := by
    cases he : r.entry with
    | queueState e =>
      have hl : (LogEntry.queueState e).bytes.length = 7 + 6 * e.data.length := e.length_bytes
      rw [copied]
      omega
    | enqueue _ | dequeue _ | queueFree _ => exact (by decide : 6 ≤ 7)
  rw [h.recordDisplay, TxqLog.read, if_pos (by omega)]
  rfl

end Stored

/-! ### The walks -/

def LogRecord.shown (r : LogRecord) : ℕ × LogLine := (r.offset, r.entry.line)

section Walks
variable {s : TxqLog} {a b c fuel : ℕ} {rs : List LogRecord} {unwrap : Bool}

theorem readType_mark (hb : b < olTxqLogSize) (hmark : s.data b = OlTxLogEntryType.wrap.toByte) :
    s.readType b = some .wrap := by
  rw [TxqLog.readType, TxqLog.read, if_pos (by omega), map_some]
  change some (ofByte (s.data b)) = _
  rw [hmark, ofByte_toByte]

theorem oldestWalk_tiled (h : Tiled LogRecord.offset LogRecord.len a rs b)
    (hst : ∀ r ∈ rs, Stored s.data r) (hlt : ∀ r ∈ rs, r.offset < c) :
    s.oldestWalk c (rs.length + fuel) a = s.oldestWalk c fuel b := by
  induction rs generalizing a with
  | nil =>
    obtain rfl : a = b := h
    rw [length_nil, zero_add]
  | cons r rs ih =>
    obtain ⟨rfl, -, ht⟩ := h
    obtain ⟨hr, hrs⟩ := forall_mem_cons.1 hst
    obtain ⟨hrc, hrsc⟩ := forall_mem_cons.1 hlt
    have hne : r.entry.type ≠ .wrap := by
      cases r.entry <;> exact fun h => nomatch h
    rw [length_cons, add_right_comm, oldestWalk, if_pos hrc, hr.readType]
    simp only [bind_eq_bind, bind_some, hne, if_false, hr.recordSize]
    exact ih ht hrs hrsc

theorem oldestWalk_of_le (h : c ≤ b) : s.oldestWalk c (fuel + 1) b = some b := by
  rw [oldestWalk, if_neg (not_lt.2 h)]

theorem oldestWalk_mark (h : b < c) (hb : b < olTxqLogSize)
    (hmark : s.data b = OlTxLogEntryType.wrap.toByte) : s.oldestWalk c (fuel + 1) b = some 0 := by
  rw [oldestWalk, if_pos h, readType_mark hb hmark]
  rfl

theorem displayWalk_tiled (h : Tiled LogRecord.offset LogRecord.len a rs b)
    (hst : ∀ r ∈ rs, Stored s.data r) (hlt : b < olTxqLogSize)
    (hgo : unwrap = true ∨ ∀ r ∈ rs, r.offset ≠ s.offset) :
    s.displayWalk (rs.length + fuel) a unwrap =
      (s.displayWalk fuel b unwrap).map (rs.map LogRecord.shown ++ ·) := by
  induction rs generalizing a with
  | nil =>
    obtain rfl : a = b := h
    rw [length_nil, zero_add]
    exact map_id'.symm
  | cons r rs ih =>
    have hend := (h.mem mem_cons_self).2
    obtain ⟨rfl, hlen, ht⟩ := h
    obtain ⟨hr, hrs⟩ := forall_mem_cons.1 hst
    have hgo' : unwrap = true ∨ r.offset ≠ s.offset := hgo.imp_right fun h => h r mem_cons_self
    have hnext := ih ht hrs (hgo.imp_right fun h => (forall_mem_cons.1 h).2)
    have hpos : (r.len : ℤ) ≠ 0 := by omega
    have hneg : ¬ (r.len : ℤ) < 0 := by omega
    rw [length_cons, add_right_comm, displayWalk, if_pos hgo', hr.recordDisplay_of_lt (by omega)]
    simp only [bind_eq_bind, bind_some, hpos, if_false, hneg]
    rw [← cast_add, Int.toNat_natCast, hnext]
    cases s.displayWalk fuel b unwrap <;> rfl

theorem recordDisplay_mark (hb : b < olTxqLogSize)
    (hmark : s.data b = OlTxLogEntryType.wrap.toByte) : s.recordDisplay b = some (none, -1 * (b : ℤ)) := by
  rw [recordDisplay, readType_mark hb hmark]
  rfl

theorem displayWalk_mark (hpos : 0 < b) (hb : b < olTxqLogSize)
    (hmark : s.data b = OlTxLogEntryType.wrap.toByte) :
    s.displayWalk (fuel + 1) b true = s.displayWalk fuel 0 false := by
  have hne : -1 * (b : ℤ) ≠ 0 := by omega
  have hneg : -1 * (b : ℤ) < 0 := by omega
  have hback : ((b : ℤ) + -1 * (b : ℤ)).toNat = 0 := by omega
  rw [displayWalk, if_pos (.inl rfl), recordDisplay_mark hb hmark]
  simp only [bind_eq_bind, bind_some, hne, if_false, hneg, if_true, hback]
  cases s.displayWalk fuel 0 false <;> rfl

theorem displayWalk_end : s.displayWalk (fuel + 1) s.offset false = some [] := by
  rw [displayWalk, if_neg (by simp)]

theorem display_history (s : TxqLog) (rs : List LogRecord) :
    ({ s with records := rs } : TxqLog).display = s.display := by
  have hwalk : ∀ fuel a unwrap, ({ s with records := rs } : TxqLog).displayWalk fuel a unwrap =
      s.displayWalk fuel a unwrap := by
    intro fuel
    induction fuel with
    | zero => exact fun _ _ => rfl
    | succ fuel ih =>
      intro a unwrap
      rw [displayWalk, displayWalk]
      simp only [ih]
      rfl
  exact hwalk walkFuel s.oldestRecordOffset s.wrapped

/-- **Records up to the end of the buffer** lead the walk out of it. -/
theorem displayWalk_full (h : Tiled LogRecord.offset LogRecord.len a rs olTxqLogSize)
    (hst : ∀ r ∈ rs, Stored s.data r) : s.displayWalk fuel a true = none := by
  induction rs generalizing a fuel with
  | nil =>
    obtain rfl : a = olTxqLogSize := h
    cases fuel <;> rfl
  | cons r rs ih =>
    obtain ⟨rfl, hlen, ht⟩ := h
    obtain ⟨hr, hrs⟩ := forall_mem_cons.1 hst
    have hpos : (r.len : ℤ) ≠ 0 := by omega
    have hneg : ¬ (r.len : ℤ) < 0 := by omega
    cases fuel with
    | zero => rfl
    | succ fuel =>
      rw [displayWalk, if_pos (.inl rfl), hr.recordDisplay]
      cases s.read (payload r.entry.type r.offset) (Stored.copied r.entry) with
      | none => rfl
      | some record =>
        simp only [map_some, bind_eq_bind, bind_some, hpos, if_false, hneg]
        rw [← cast_add, Int.toNat_natCast, ih ht hrs]
        rfl

/-- **What is shown at an offset**: a record, which the walk goes past, the mark, or nothing. -/
theorem recordDisplay_cases {line : Option LogLine} {delta : ℤ}
    (h : s.recordDisplay a = some (line, delta)) :
    (∃ l, line = some l) ∧ 0 < delta ∨ line = none ∧ (delta = 0 ∨ delta = -1 * (a : ℤ)) := by
  rw [recordDisplay] at h
  obtain ⟨type, -, h⟩ := bind_eq_some_iff.1 h
  obtain ⟨size, hsize, h⟩ := bind_eq_some_iff.1 h
  obtain ⟨numCats, -, hsize⟩ := map_eq_some_iff.1 hsize
  have hpos : type.align ≠ 0 → 0 < size := by
    intro halign
    have := Int.emod_nonneg ((type.align : ℤ) - (a + 1)) (Int.natCast_ne_zero.2 halign)
    rw [← hsize, alignPad]
    omega
  cases type with
  | enqueue | dequeue | queueFree | queueState =>
    obtain ⟨record, -, h⟩ := bind_eq_some_iff.1 h
    cases h
    exact .inl ⟨⟨_, rfl⟩, hpos (by decide)⟩
  | wrap =>
    cases h
    exact .inr ⟨rfl, .inr rfl⟩
  | invalid | drop =>
    cases h
    exact .inr ⟨rfl, .inl rfl⟩

theorem displayWalk_unwrap {lines : List (ℕ × LogLine)}
    (h : s.displayWalk (fuel + 1) a true = some lines) :
    (∃ line rest n, lines = (a, line) :: rest ∧ s.displayWalk fuel (a + n) true = some rest) ∨
      0 < a ∧ s.displayWalk fuel 0 false = some lines := by
  rw [displayWalk, if_pos (.inl rfl)] at h
  obtain ⟨⟨line, delta⟩, hshow, h⟩ := bind_eq_some_iff.1 h
  dsimp only at h
  rcases recordDisplay_cases hshow with ⟨⟨l, rfl⟩, hdelta⟩ | ⟨rfl, rfl | rfl⟩
  · rw [if_neg (by omega), if_neg (by omega)] at h
    obtain ⟨rest, hrest, h⟩ := bind_eq_some_iff.1 h
    cases h
    rw [show ((a : ℤ) + delta).toNat = a + delta.toNat by omega] at hrest
    exact .inl ⟨l, rest, delta.toNat, rfl, hrest⟩
  · cases h
  · split at h
    · cases h
    · next hne =>
      rw [if_pos (by omega), show ((a : ℤ) + -1 * (a : ℤ)).toNat = 0 by omega] at h
      obtain ⟨rest, hrest, h⟩ := bind_eq_some_iff.1 h
      cases h
      exact .inr ⟨by omega, hrest⟩

theorem displayWalk_back {lines : List (ℕ × LogLine)} (hne : s.offset ≠ 0)
    (h : s.displayWalk fuel a true = some lines) : ∃ line, (0, line) ∈ lines := by
  induction fuel generalizing a lines with
  | zero => cases h
  | succ fuel ih =>
    rcases displayWalk_unwrap h with ⟨_, rest, _, rfl, hrest⟩ | ⟨-, hstart⟩
    · obtain ⟨line, hline⟩ := ih hrest
      exact ⟨line, mem_cons_of_mem _ hline⟩
    · cases fuel with
      | zero => cases hstart
      | succ fuel =>
        rw [displayWalk, if_pos (.inr hne.symm)] at hstart
        obtain ⟨⟨line, delta⟩, hshow, hstart⟩ := bind_eq_some_iff.1 hstart
        dsimp only at hstart
        rcases recordDisplay_cases hshow with ⟨⟨l, rfl⟩, hdelta⟩ | ⟨rfl, rfl | rfl⟩
        · rw [if_neg (by omega)] at hstart
          obtain ⟨rest, -, hlines⟩ := bind_eq_some_iff.1 hstart
          cases hlines
          exact ⟨l, mem_cons_self⟩
        · cases hstart
        · cases hstart

/-- **A walk that begins at the start and has no mark before it** does not show the records: it goes on behind the last one. -/
theorem display_ne_of_start (hold : s.oldestRecordOffset = 0) (hwrapped : s.wrapped = true)
    (hnodup : (s.records.map LogRecord.offset).Nodup) (hempty : s.offset = 0 → s.records = []) :
    s.display ≠ some (s.records.map LogRecord.shown) := by
  intro h
  rw [display, hold, hwrapped, walkFuel] at h
  rcases displayWalk_unwrap h with ⟨line, rest, n, hl, hrest⟩ | ⟨hlt, -⟩
  · by_cases hne : s.offset = 0
    · rw [hempty hne] at hl
      cases hl
    · obtain ⟨line', hmem⟩ := displayWalk_back hne hrest
      have hfst : s.records.map LogRecord.offset = 0 :: rest.map Prod.fst := by
        have := congrArg (map Prod.fst) hl
        rwa [List.map_map] at this
      rw [hfst] at hnodup
      exact (nodup_cons.1 hnodup).1 (mem_map.2 ⟨_, hmem, rfl⟩)
  · exact lt_irrefl 0 hlt

end Walks

end Qcacld.Txrx

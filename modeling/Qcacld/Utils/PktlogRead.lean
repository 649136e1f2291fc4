import Qcacld.Utils.Pktlog

/-!
# Utils — PktlogRead

`pktlog_read_proc_entry` reads the log out in chunks.  A scan over the records finds where they fold over the end of the buffer, and where the last one ends; what is asked for is then copied from at most two strings of cells.

The writer takes a payload that ends with the buffer to be behind its header; the scan takes it to be at the start (`ScanOk`).  `pktlog_right` is about all runs of writes and reads.
-/

namespace Qcacld.Utils
open Qcacld.Support Option Nat
open List (append_assoc append_nil cons_ne_nil drop_of_length_le flatMap_cons length_append
  length_drop length_nil map_cons sum_cons take_nil)

/-! ### The reader -/

/-- An `int` that a wider number is stored in. -/
def toInt32 (n : Int) : Int := n.bmod (2 ^ 32)

/-- `sizeof(log_buf->bufhdr)` -/
def bufhdrSize : Nat := 8

def pktlogReadOffset : Nat := 8

/-- The `do` loop of `pktlog_read_proc_entry`: `fold_offset`, where none is -1, and `end_offset`. -/
def findFold (logBuf : AthPktlogBuf) (bufSize : Nat) :
    Nat → Nat → Option Nat → Option (Option Nat × Nat)
  | 0, _, _ => none
  | fuel + 1, curRdOffset, foldOffset =>
    let size := sizeAt logBuf.logData curRdOffset
    let logDataOffset := curRdOffset + hdrSize
    let foldOffset := if foldOffset = none ∧ (bufSize : Int) - logDataOffset ≤ size then
      some (logDataOffset - 1) else foldOffset
    let curRdOffset := pktlogMovRdIdx logBuf.logData bufSize curRdOffset
    let foldOffset := if foldOffset = none ∧ curRdOffset = 0 ∧ curRdOffset ≠ logBuf.wrOffset then
      some (logDataOffset + size - 1) else foldOffset
    let endOffset := logDataOffset + size - 1
    if curRdOffset = logBuf.wrOffset then some (foldOffset, endOffset)
    else findFold logBuf bufSize fuel curRdOffset foldOffset

/-- `vos_mem_copy` from `log_data`.  There is none from outside of the buffer. -/
def copyLogData (logBuf : AthPktlogBuf) (bufSize : Nat) (pposData count : Int) :
    Option (List UInt8) := do
  guard (0 ≤ pposData ∧ 0 ≤ count ∧ pposData + count ≤ bufSize)
  return span logBuf.logData pposData.toNat count.toNat

/-- What `pktlog_read_proc_entry` copies from `log_data`, from `start_offset` on. -/
def readLogData (logBuf : AthPktlogBuf) (bufSize ppos retVal : Nat) (remLen : Int)
    (startOffset : Nat) : Option (List UInt8) := do
  let (foldOffset, endOffset) ← findFold logBuf bufSize (movFuel bufSize) startOffset none
  let pposData := toInt32 (ppos + retVal - bufhdrSize + startOffset)
  match foldOffset with
  | none =>
    if pposData > endOffset then some []
    else copyLogData logBuf bufSize pposData (min remLen (endOffset - pposData + 1))
  | some foldOffset =>
    let data ← if pposData ≤ foldOffset then
        copyLogData logBuf bufSize pposData (min remLen (foldOffset - pposData + 1))
      else some []
    let remLen := remLen - data.length
    if remLen = 0 then some data
    else
      let retVal := retVal + data.length
      let pposData := toInt32 (ppos + retVal - (bufhdrSize + (foldOffset - startOffset + 1)))
      let data' ← if pposData ≤ endOffset then
          copyLogData logBuf bufSize pposData (min remLen (endOffset - pposData + 1))
        else some []
      return data ++ data'

/-- What a read returns: the bytes and `read_complete`. -/
structure ReadProcEntry where
  plInfo : AthPktlogInfo
  buf : List UInt8
  readComplete : Bool

/-- The beginning of `pktlog_read_proc_entry`: no more is logged while the log is read. -/
def rdStart (plInfo : AthPktlogInfo) (ppos : Nat) : AthPktlogInfo :=
  if ppos = 0 ∧ plInfo.logState ≠ 0 then
    { plInfo with savedState := plInfo.logState, logState := 0 }
  else plInfo

/-- What is behind the header of the log is read only if there is room for it and something in the log. -/
def readLog (logBuf : AthPktlogBuf) (bufSize ppos retVal : Nat) (remLen : Int) :
    Option (List UInt8) :=
  match logBuf.rdOffset with
  | some startOffset =>
    if remLen = 0 then some [] else readLogData logBuf bufSize ppos retVal remLen startOffset
  | none => some []

def rdDone (plInfo : AthPktlogInfo) (logBuf : AthPktlogBuf) (nbytes : Nat) (buf : List UInt8) :
    ReadProcEntry :=
  let plInfo := if buf.length < nbytes ∧ plInfo.savedState ≠ 0 then
    { plInfo with logState := plInfo.savedState, savedState := 0 } else plInfo
  if buf.length = 0 then
    { plInfo := { plInfo with buf := some { logBuf with
        rdOffset := none, wrOffset := 0, bytesWritten := 0, offset := pktlogReadOffset } }
      buf, readComplete := true }
  else { plInfo, buf, readComplete := false }

/-- `pktlog_read_proc_entry`.  `*ppos` goes on by the bytes that are returned. -/
def pktlogReadProcEntry (plInfo : AthPktlogInfo) (nbytes ppos : Nat) : Option ReadProcEntry :=
  match plInfo.buf with
  | none => some { plInfo, buf := [], readComplete := true }
  | some logBuf => do
    let plInfo := rdStart plInfo ppos
    let remLen := toInt32 nbytes
    let bufhdr := if ppos < bufhdrSize then
      (logBuf.bufhdr.toList.drop ppos).take (min (bufhdrSize - ppos) (toSizeT remLen)) else []
    let data ← readLog logBuf plInfo.bufSize ppos bufhdr.length (toInt32 (remLen - bufhdr.length))
    return rdDone plInfo logBuf nbytes (bufhdr ++ data)

/-! ### Where the scan finds the records -/

/-- Where the last record ends, and whether the records go over the end of the buffer, as the scan should find it, and their bytes. -/
inductive Strings (logData : Nat → UInt8) (bufSize start : Nat) :
    Option Nat → Nat → List UInt8 → Prop where
  | straight {m : Nat} (hm : 0 < m) (hend : start + m ≤ bufSize) :
      Strings logData bufSize start none (start + m - 1) (span logData start m)
  | folded {m m' : Nat} (hm : 0 < m) (hm' : 0 < m') (hfold : start + m ≤ bufSize)
      (hend : m' ≤ bufSize) : Strings logData bufSize start (some (start + m - 1)) (m' - 1)
        (span logData start m ++ span logData 0 m')

/-- The scan finds the last record whose end is before that of the buffer, and, before it, none that ends with the buffer. -/
def ScanOk (logData : Nat → UInt8) (bufSize : Nat) : List Nat → Prop
  | [] => True
  | [off] => off + hdrSize + sizeAt logData off < bufSize
  | off :: off' :: offs => (off + hdrSize + sizeAt logData off ≠ bufSize ∨ sizeAt logData off = 0) ∧
      ScanOk logData bufSize (off' :: offs)

section Scan
variable {logBuf : AthPktlogBuf} {logData : ℕ → UInt8} {bufSize v w n start k : ℕ} {r : PktlogRec}
  {recs : List PktlogRec} {body : List UInt8}

theorem Strings.prepend {fold : Option ℕ} {last : ℕ}
    (h : Strings logData bufSize (start + k) fold last body) :
    Strings logData bufSize start fold last (span logData start k ++ body) := by
  cases h with
  | @straight m hm hend =>
    rw [← span_add, add_assoc]
    exact .straight (by omega) (by omega)
  | @folded m m' hm hm' hfold hend =>
    rw [← append_assoc, ← span_add, add_assoc start]
    exact .folded (by omega) hm' (by omega) hend

theorem Strings.ne_nil {fold : Option ℕ} {last : ℕ}
    (h : Strings logData bufSize start fold last body) : body ≠ [] := by
  rw [← List.length_pos_iff]
  cases h with
  | straight hm hend => rwa [length_span]
  | folded hm hm' hfold hend =>
    rw [length_append, length_span]
    omega

theorem bytes_behind (h : RecAt logData bufSize v r)
    (hfits : v % bufSize + hdrSize + r.payload.length ≤ bufSize) :
    r.bytes = span logData (v % bufSize) (hdrSize + r.payload.length) := by
  have hpayload := h.holds.payload
  rw [payloadOff, if_pos hfits] at hpayload
  rw [span_add, h.holds.header, hpayload, PktlogRec.bytes]

theorem bytes_folded (h : RecAt logData bufSize v r)
    (hfold : ¬ v % bufSize + hdrSize + r.payload.length ≤ bufSize) :
    r.bytes = span logData (v % bufSize) hdrSize ++ span logData 0 r.payload.length := by
  have hpayload := h.holds.payload
  rw [payloadOff, if_neg hfold] at hpayload
  rw [h.holds.header, hpayload, PktlogRec.bytes]

theorem nextPos_of_lt (hroom : hdrSize + n ≤ bufSize)
    (h : nextPos bufSize v n < lapStart bufSize v + bufSize) :
    v % bufSize + hdrSize + n + hdrSize ≤ bufSize ∧
      nextPos bufSize v n % bufSize = v % bufSize + hdrSize + n ∧
      lapStart bufSize (nextPos bufSize v n) = lapStart bufSize v := by
  have hlap := lapStart_add_mod bufSize v
  have hmod := nextPos_mod (v := v) hroom
  unfold nextPos at h
  split_ifs at h with hfits hnext
  · rw [nextOff, if_pos hfits, if_pos hnext] at hmod
    refine ⟨hnext, hmod, ?_⟩
    have hlap' := lapStart_add_mod bufSize (nextPos bufSize v n)
    have heq : nextPos bufSize v n = v + hdrSize + n := by rw [nextPos, if_pos hfits, if_pos hnext]
    omega
  · omega
  · omega

theorem findFold_behind {fuel f : ℕ} (hb : bufSize < 2 ^ 31) (hne : recs ≠ [])
    (h : Placed logBuf.logData bufSize v recs w) (hwr : logBuf.wrOffset = w % bufSize)
    (hround : w < lapStart bufSize v + bufSize) (hfuel : recs.length ≤ fuel) :
    ∃ m, findFold logBuf bufSize fuel (v % bufSize) (some f) = some (some f, v % bufSize + m - 1) ∧
      recs.flatMap PktlogRec.bytes = span logBuf.logData (v % bufSize) m ∧ 0 < m ∧
      v % bufSize + m ≤ bufSize := by
  have h12 : hdrSize = 12 := rfl
  induction recs generalizing v fuel with
  | nil => exact absurd rfl hne
  | cons r recs ih =>
    obtain ⟨fuel, rfl⟩ := exists_eq_add_one.2 (lt_of_lt_of_le (succ_pos _) hfuel)
    obtain ⟨hr, h⟩ := h
    have hle := h.length_le
    obtain ⟨hfits, hmod, hlap⟩ := nextPos_of_lt (v := v) hr.room (by omega)
    have hbytes := bytes_behind hr (by omega)
    simp only [findFold, reduceCtorEq, false_and, if_false, pktlogMovRdIdx_eq hb hr, hwr, hr.sizeAt]
    cases recs with
    | nil =>
      obtain rfl : nextPos bufSize v r.payload.length = w := h
      refine ⟨hdrSize + r.payload.length, ?_, ?_, by omega, by omega⟩
      · rw [if_pos rfl, add_assoc]
      · rw [List.flatMap_singleton, hbytes]
    | cons r' recs =>
      have hlt : v + hdrSize ≤ nextPos bufSize v r.payload.length := lt_nextPos hr.fits
      have hv := lapStart_add_mod bufSize v
      have hstop := nextPos_mod_ne hr (cons_ne_nil _ _) h (by omega)
      obtain ⟨m, hfind, hspan, hm, hend⟩ := ih (cons_ne_nil _ _) h (by omega)
        (le_of_succ_le_succ hfuel)
      rw [hmod] at hfind hspan hend
      refine ⟨hdrSize + r.payload.length + m, ?_, ?_, by omega, by omega⟩
      · rw [if_neg hstop.2, hmod, hfind, ← add_assoc, ← add_assoc]
      · rw [flatMap_cons, hspan, hbytes, add_assoc (v % bufSize), ← span_add]

theorem chain_eq_cons {wr fuel rd : ℕ} {offs : List ℕ}
    (h : chain logData bufSize wr fuel rd = some offs) : ∃ offs', offs = rd :: offs' := by
  cases fuel with
  | zero => cases h
  | succ fuel =>
    rw [chain] at h
    split_ifs at h
    · exact ⟨[], (some.inj h).symm⟩
    · obtain ⟨offs', -, rfl⟩ := map_eq_some_iff.1 h
      exact ⟨offs', rfl⟩

/-- Behind a record that does not go over the end the records go on at the start: the fold is where it ends. -/
theorem fold_at_start {off wr : ℕ} (hwr : 0 ≠ wr) (hfits : off + hdrSize + n ≤ bufSize)
    (hexact : off + hdrSize + n ≠ bufSize ∨ n = 0) :
    (if (if (bufSize : ℤ) - ↑(off + hdrSize) ≤ ↑n then some (off + hdrSize - 1) else none) = none ∧
        0 = 0 ∧ 0 ≠ wr then some (off + hdrSize + n - 1)
      else if (bufSize : ℤ) - ↑(off + hdrSize) ≤ ↑n then some (off + hdrSize - 1) else none) =
      some (off + (hdrSize + n) - 1) := by
  by_cases hends : (bufSize : ℤ) - ↑(off + hdrSize) ≤ ↑n
  · rw [if_pos hends, if_neg (by simp), hexact.resolve_left (by omega), add_zero]
  · rw [if_neg hends, if_pos ⟨rfl, rfl, hwr⟩, add_assoc]

/-- **The scan finds the strings that hold the records.** -/
theorem findFold_strings {fuel : ℕ} {offs : List ℕ} (hb : bufSize < 2 ^ 31) (hne : recs ≠ [])
    (h : Placed logBuf.logData bufSize v recs w) (hwr : logBuf.wrOffset = w % bufSize)
    (hround : w ≤ v + bufSize) (hfuel : recs.length ≤ fuel)
    (hchain : chain logBuf.logData bufSize (w % bufSize) fuel (v % bufSize) = some offs)
    (hok : ScanOk logBuf.logData bufSize offs) :
    ∃ fold last, findFold logBuf bufSize fuel (v % bufSize) none = some (fold, last) ∧
      Strings logBuf.logData bufSize (v % bufSize) fold last (recs.flatMap PktlogRec.bytes) := by
  have h12 : hdrSize = 12 := rfl
  induction recs generalizing v fuel offs with
  | nil => exact absurd rfl hne
  | cons r recs ih =>
    obtain ⟨fuel, rfl⟩ := exists_eq_add_one.2 (lt_of_lt_of_le (succ_pos _) hfuel)
    obtain ⟨hr, h⟩ := h
    have hv := lapStart_add_mod bufSize v
    have hroom := hr.room
    have hlt : v + hdrSize ≤ nextPos bufSize v r.payload.length := lt_nextPos hr.fits
    rw [chain, pktlogMovRdIdx_eq hb hr] at hchain
    simp only [findFold, pktlogMovRdIdx_eq hb hr, hwr, hr.sizeAt, true_and]
    cases recs with
    | nil =>
      obtain rfl : nextPos bufSize v r.payload.length = w := h
      obtain rfl : [v % bufSize] = offs := by simpa using hchain
      have hend : v % bufSize + hdrSize + r.payload.length < bufSize := by
        rw [← hr.sizeAt]
        exact hok
      have hfold : ¬ (bufSize : ℤ) - ↑(v % bufSize + hdrSize) ≤ ↑r.payload.length := by omega
      refine ⟨_, _, by rw [if_pos rfl], ?_⟩
      rw [List.flatMap_singleton, bytes_behind hr hend.le, add_assoc]
      simp only [ne_eq, not_true_eq_false, and_false, if_false] at hfold ⊢
      rw [if_neg hfold]
      exact .straight (by omega) (by omega)
    | cons r' recs =>
      have hne' := cons_ne_nil r' recs
      have hstop := nextPos_mod_ne hr hne' h hround
      have hmod := nextPos_mod (v := v) hroom
      have hlap := lapStart_add_mod bufSize (nextPos bufSize v r.payload.length)
      have hvlt := mod_lt v (by omega : 0 < bufSize)
      have hfuel' := le_of_succ_le_succ hfuel
      rw [if_neg hstop.2] at hchain ⊢
      obtain ⟨offs, hchain', rfl⟩ := map_eq_some_iff.1 hchain
      obtain ⟨offs', rfl⟩ := chain_eq_cons hchain'
      obtain ⟨hexact, hok⟩ := hok
      rw [hr.sizeAt] at hexact
      by_cases hfits : v % bufSize + hdrSize + r.payload.length ≤ bufSize
      · have hbytes := bytes_behind hr hfits
        by_cases hnext : v % bufSize + hdrSize + r.payload.length + hdrSize ≤ bufSize
        · -- the next record is behind this one
          rw [nextOff, if_pos hfits, if_pos hnext] at hmod
          have hfold : ¬ (bufSize : ℤ) - ↑(v % bufSize + hdrSize) ≤ ↑r.payload.length := by
            omega
          obtain ⟨fold, last, hfind, hstrings⟩ := ih hne' h (by omega) hfuel' hchain' hok
          refine ⟨fold, last, ?_, ?_⟩
          · rw [if_neg hfold, if_neg (by omega)]
            exact hfind
          · rw [flatMap_cons, hbytes]
            rw [hmod, add_assoc] at hstrings
            exact hstrings.prepend
        · -- the next record is at the start of the buffer
          have hpos : nextPos bufSize v r.payload.length = lapStart bufSize v + bufSize := by
            rw [nextPos, if_pos hfits, if_neg hnext]
          rw [nextOff, if_pos hfits, if_neg hnext] at hmod
          obtain ⟨m, hfind, hspan, hm, hend⟩ := findFold_behind
            (f := v % bufSize + (hdrSize + r.payload.length) - 1) hb hne' h hwr (by omega) hfuel'
          rw [hmod] at hfind hspan hend hstop
          rw [zero_add] at hfind hend
          have hfold := fold_at_start hstop.2 hfits hexact
          refine ⟨some (v % bufSize + (hdrSize + r.payload.length) - 1), m - 1, ?_, ?_⟩
          · rw [hmod, hfold]
            exact hfind
          · rw [flatMap_cons, hspan, hbytes]
            exact .folded (by omega) hm (by omega) hend
      · -- the payload is at the start of the buffer, and the next record behind it
        have hpos : nextPos bufSize v r.payload.length =
            lapStart bufSize v + bufSize + r.payload.length := by rw [nextPos, if_neg hfits]
        rw [nextOff, if_neg hfits, if_pos (by omega)] at hmod
        obtain ⟨m, hfind, hspan, hm, hend⟩ := findFold_behind
          (f := v % bufSize + hdrSize - 1) hb hne' h hwr (by omega) hfuel'
        rw [hmod] at hfind hspan hend
        have hfold : (bufSize : ℤ) - ↑(v % bufSize + hdrSize) ≤ ↑r.payload.length := by omega
        refine ⟨some (v % bufSize + hdrSize - 1), r.payload.length + m - 1, ?_, ?_⟩
        · rw [if_pos hfold, if_neg (by simp), hmod]
          exact hfind
        · rw [flatMap_cons, hspan, bytes_folded hr hfits, append_assoc]
          have hadd : span logBuf.logData 0 (r.payload.length + m) = span logBuf.logData 0
              r.payload.length ++ span logBuf.logData (0 + r.payload.length) m := span_add _ _
          rw [zero_add] at hadd
          rw [← hadd]
          exact .folded (by omega) (by omega) hr.fits hend

/-! ### What is copied -/

theorem toInt32_of_range {x : ℤ} (h : -2 ^ 31 ≤ x) (h' : x < 2 ^ 31) : toInt32 x = x :=
  Int.bmod_eq_of_le (by simpa using h) (by simpa using h')

theorem copyLogData_eq {off count : ℤ} {m : ℕ} (hoff : off = start + k) (hcount : count = m)
    (hend : start + k + m ≤ bufSize) :
    copyLogData logBuf bufSize off count = some (span logBuf.logData (start + k) m) := by
  subst hoff hcount
  exact guarded_eq_some.2 ⟨⟨by omega, by omega, by omega⟩, by
    rw [Int.toNat_natCast, ← cast_add, Int.toNat_natCast]⟩

/-- **A read copies the next bytes of the records.** -/
theorem readLogData_eq {fold : Option ℕ} {last ppos retVal q : ℕ} {remLen : ℤ}
    (hb : bufSize ≤ 2 ^ 24)
    (hfind : findFold logBuf bufSize (movFuel bufSize) start none = some (fold, last))
    (hs : Strings logBuf.logData bufSize start fold last body)
    (hq : ppos + retVal = bufhdrSize + q) (hle : q ≤ body.length)
    (hrem : 0 < remLen ∨ q = body.length) :
    readLogData logBuf bufSize ppos retVal remLen start =
      some ((body.drop q).take remLen.toNat) := by
  have h8 : bufhdrSize = 8 := rfl
  rw [readLogData, hfind]
  simp only [bind_eq_bind, bind_some]
  cases hs with
  | @straight m hm hend =>
    rw [length_span] at hle hrem
    have hppos : toInt32 (↑ppos + ↑retVal - ↑bufhdrSize + ↑start) = start + q := by
      rw [toInt32_of_range] <;> omega
    simp only [hppos]
    rw [span_drop, span_take]
    split_ifs with hpast
    · rw [show m - q = 0 by omega, min_zero]
      rfl
    · exact copyLogData_eq rfl (by omega) (by omega)
  | @folded m m' hm hm' hfold hend =>
    rw [length_append, length_span, length_span] at hle hrem
    have hppos : toInt32 (↑ppos + ↑retVal - ↑bufhdrSize + ↑start) = start + q := by
      rw [toInt32_of_range] <;> omega
    simp only [hppos]
    rw [List.drop_append, List.take_append, span_drop, span_take, length_span, length_span,
      span_drop, span_take]
    rcases lt_or_ge q m with hqm | hqm
    · -- the rest of the first string, and what of the second one is asked for
      have hcopy : copyLogData logBuf bufSize (start + q)
            (min remLen (↑(start + m - 1) - (start + q) + 1)) =
          some (span logBuf.logData (start + q) (min remLen.toNat (m - q))) :=
        copyLogData_eq rfl (by omega) (by omega)
      rw [if_pos (by omega), hcopy, bind_some, length_span, show q - m = 0 by omega,
        Nat.add_zero, Nat.sub_zero]
      have hppos' : toInt32 (↑ppos + ↑(retVal + min remLen.toNat (m - q)) -
          (↑bufhdrSize + (↑(start + m - 1) - ↑start + 1))) =
            (q : ℤ) + ↑(min remLen.toNat (m - q)) - m := by
        rw [toInt32_of_range] <;> omega
      rw [hppos']
      by_cases hrest : remLen - ↑(min remLen.toNat (m - q)) = 0
      · rw [if_pos hrest, show remLen.toNat - (m - q) = 0 by omega, zero_min]
        exact congrArg some (append_nil _).symm
      · have hcopy' : copyLogData logBuf bufSize (q + ↑(min remLen.toNat (m - q)) - m)
              (min (remLen - ↑(min remLen.toNat (m - q)))
                (↑(m' - 1) - (q + ↑(min remLen.toNat (m - q)) - m) + 1)) =
            some (span logBuf.logData (0 + 0) (min (remLen.toNat - (m - q)) m')) :=
          copyLogData_eq (by omega) (by omega) (by omega)
        rw [if_neg hrest, if_pos (by omega), hcopy']
        rfl
    · -- what of the second string is asked for
      have hppos' : toInt32 (↑ppos + ↑(retVal + ([] : List UInt8).length) -
          (↑bufhdrSize + (↑(start + m - 1) - ↑start + 1))) = (q : ℤ) - m := by
        rw [length_nil, toInt32_of_range] <;> omega
      rw [if_neg (by omega), hppos', show m - q = 0 by omega, Nat.min_zero, Nat.sub_zero, zero_add]
      simp only [length_nil, cast_zero, sub_zero]
      split_ifs with hrest hpast
      · rw [hrest, Int.toNat_zero, zero_min]
        rfl
      · have hcopy : copyLogData logBuf bufSize (q - m) (min remLen (↑(m' - 1) - (↑q - ↑m) + 1)) =
            some (span logBuf.logData (0 + (q - m)) (min remLen.toNat (m' - (q - m)))) :=
          copyLogData_eq (by omega) (by omega) (by omega)
        rw [hcopy, zero_add]
        rfl
      · rw [show m' - (q - m) = 0 by omega, min_zero]
        rfl

/-! ### A read -/

/-- What a read finds in the log: nothing, or the strings that hold the records. -/
inductive Readable (logBuf : AthPktlogBuf) (bufSize : ℕ) : List UInt8 → Prop where
  | empty (hrd : logBuf.rdOffset = none) : Readable logBuf bufSize []
  | records {fold : Option ℕ} {start last : ℕ} {body : List UInt8}
      (hrd : logBuf.rdOffset = some start)
      (hfind : findFold logBuf bufSize (movFuel bufSize) start none = some (fold, last))
      (hs : Strings logBuf.logData bufSize start fold last body) : Readable logBuf bufSize body

/-- The bytes a read asks for: `nbytes` as an `int`. -/
def asked (nbytes : ℕ) : ℕ := toSizeT (toInt32 nbytes)

theorem toInt32_lt (x : ℤ) : toInt32 x < 2 ^ 31 := by
  have := Int.bmod_lt (x := x) (m := 2 ^ 32) (by decide)
  unfold toInt32
  omega

theorem le_toInt32 (x : ℤ) : -2 ^ 31 ≤ toInt32 x := by
  have := Int.le_bmod (x := x) (m := 2 ^ 32) (by decide)
  unfold toInt32
  omega

theorem asked_of_pos {nbytes : ℕ} (h : 0 < toInt32 nbytes) :
    (asked nbytes : ℤ) = toInt32 nbytes := by
  have hlt := toInt32_lt nbytes
  unfold asked toSizeT
  omega

theorem bufhdr_read (hdr : Vector UInt8 8) (ppos count : ℕ) :
    (if ppos < bufhdrSize then (hdr.toList.drop ppos).take (min (bufhdrSize - ppos) count)
      else []) = (hdr.toList.drop ppos).take count := by
  have hlen : hdr.toList.length = bufhdrSize := hdr.length_toList
  split_ifs with h
  · rw [← List.take_take, List.take_of_length_le (by simp [hlen])]
  · rw [drop_of_length_le (by omega), take_nil]

theorem rest_count {rem : ℤ} {a d retVal : ℕ} (ha : (a : ℤ) = rem) (hret : retVal = min a d)
    (hdone : rem - retVal ≠ 0) : (rem - retVal).toNat = a - d := by
  omega

theorem data_read {nbytes ppos : ℕ} (hb : bufSize ≤ 2 ^ 24) (h : Readable logBuf bufSize body)
    (hle : ppos ≤ bufhdrSize + body.length ∨ body = [])
    (hok : 0 < toInt32 nbytes ∨ bufhdrSize + body.length ≤ ppos ∨ logBuf.rdOffset = none)
    {retVal : ℕ} (hret : retVal = min (asked nbytes) (bufhdrSize - ppos)) :
    readLog logBuf bufSize ppos retVal (toInt32 (toInt32 nbytes - retVal)) =
      some ((body.drop (ppos - bufhdrSize)).take (asked nbytes - (bufhdrSize - ppos))) := by
  have h8 : bufhdrSize = 8 := rfl
  have hlt := toInt32_lt nbytes
  have hge := le_toInt32 nbytes
  unfold readLog
  cases h with
  | empty hrd =>
    rw [hrd, List.drop_nil, take_nil]
  | @records fold start last body hrd hfind hs =>
    rw [hrd] at hok ⊢
    have hok : 0 < toInt32 nbytes ∨ bufhdrSize + body.length ≤ ppos := by simpa using hok
    have hle := hle.resolve_right hs.ne_nil
    rcases hok with hpos | hpast
    · have hasked := asked_of_pos hpos
      have hrem : toInt32 (toInt32 nbytes - retVal) = toInt32 nbytes - retVal := by
        rw [toInt32_of_range] <;> omega
      simp only [hrem]
      split_ifs with hdone
      · rw [show asked nbytes - (bufhdrSize - ppos) = 0 by omega, List.take_zero]
      · have hcount : (toInt32 nbytes - retVal).toNat = asked nbytes - (bufhdrSize - ppos) := by
          exact rest_count hasked hret hdone
        rw [readLogData_eq hb hfind hs (q := ppos - bufhdrSize) (by omega) (by omega)
          (.inl (by omega)), hcount]
    · have hrem : toInt32 (toInt32 nbytes - retVal) = toInt32 nbytes := by
        rw [toInt32_of_range] <;> omega
      simp only [hrem]
      rw [drop_of_length_le (by omega), take_nil]
      split_ifs
      · rfl
      · rw [readLogData_eq hb hfind hs (q := body.length) (by omega) le_rfl (.inr rfl),
          List.drop_length, take_nil]

def resetLog (logBuf : AthPktlogBuf) : AthPktlogBuf :=
  { logBuf with rdOffset := none, wrOffset := 0, bytesWritten := 0, offset := pktlogReadOffset }

variable {plInfo : AthPktlogInfo} {nbytes ppos : ℕ}

@[simp]
theorem rdStart_buf : (rdStart plInfo ppos).buf = plInfo.buf := by
  unfold rdStart
  split_ifs <;> rfl

@[simp]
theorem rdStart_bufSize : (rdStart plInfo ppos).bufSize = plInfo.bufSize := by
  unfold rdStart
  split_ifs <;> rfl

theorem rdDone_buf (nbytes : ℕ) (buf : List UInt8) (hbuf : plInfo.buf = some logBuf) :
    (rdDone plInfo logBuf nbytes buf).plInfo.bufSize = plInfo.bufSize ∧
      (rdDone plInfo logBuf nbytes buf).buf = buf ∧
      ((rdDone plInfo logBuf nbytes buf).plInfo.buf = some logBuf ∨
        buf = [] ∧ (rdDone plInfo logBuf nbytes buf).plInfo.buf = some (resetLog logBuf)) := by
  unfold rdDone
  dsimp only
  split_ifs with h h' <;> simp_all [resetLog]

theorem read_buf {res : ReadProcEntry} (hbuf : plInfo.buf = some logBuf)
    (h : pktlogReadProcEntry plInfo nbytes ppos = some res) :
    res.plInfo.bufSize = plInfo.bufSize ∧
      (res.plInfo.buf = some logBuf ∨ res.buf = [] ∧ res.plInfo.buf = some (resetLog logBuf)) := by
  simp only [pktlogReadProcEntry, hbuf, bind_eq_bind, bind_eq_some_iff] at h
  obtain ⟨data, -, h⟩ := h
  obtain rfl := some.inj h
  have hbuf' : (rdStart plInfo ppos).buf = some logBuf := rdStart_buf.trans hbuf
  obtain ⟨hsize, hout, hlog⟩ := rdDone_buf nbytes (_ ++ data) hbuf'
  exact ⟨hsize.trans rdStart_bufSize, hlog.imp_right fun h => ⟨hout.trans h.1, h.2⟩⟩

/-- **A read returns the next bytes** of the header and the records. -/
theorem read_eq (hbuf : plInfo.buf = some logBuf) (hb : plInfo.bufSize ≤ 2 ^ 24)
    (h : Readable logBuf plInfo.bufSize body)
    (hle : ppos ≤ bufhdrSize + body.length ∨ body = [])
    (hok : 0 < toInt32 nbytes ∨ bufhdrSize + body.length ≤ ppos ∨ logBuf.rdOffset = none) :
    ∃ res, pktlogReadProcEntry plInfo nbytes ppos = some res ∧
      res.buf = ((logBuf.bufhdr.toList ++ body).drop ppos).take (asked nbytes) := by
  have hlen : logBuf.bufhdr.toList.length = bufhdrSize := logBuf.bufhdr.length_toList
  have hret : ((logBuf.bufhdr.toList.drop ppos).take (asked nbytes)).length =
      min (asked nbytes) (bufhdrSize - ppos) := by
    rw [List.length_take, length_drop, hlen]
  have hdata := data_read hb h hle hok hret
  have hbuf' : (rdStart plInfo ppos).buf = some logBuf := rdStart_buf.trans hbuf
  have hout := (rdDone_buf nbytes ((logBuf.bufhdr.toList.drop ppos).take (asked nbytes) ++
      (body.drop (ppos - bufhdrSize)).take (asked nbytes - (bufhdrSize - ppos))) hbuf').2.1
  refine ⟨_, ?_, hout.trans ?_⟩
  · simp only [pktlogReadProcEntry, hbuf, bind_eq_bind, bufhdr_read, rdStart_bufSize]
    rw [← asked, hdata]
    rfl
  · rw [List.drop_append, List.take_append, length_drop, hlen]

end Scan

/-! ### A sequence of reads -/

def heldHdrs (logBuf : AthPktlogBuf) (bufSize : Nat) : Option (List Nat) :=
  match logBuf.rdOffset with
  | some rdOffset => chain logBuf.logData bufSize logBuf.wrOffset (movFuel bufSize) rdOffset
  | none => some []

/-- The bytes of the records with headers at these offsets. -/
def heldBytes (logData : Nat → UInt8) (offs : List Nat) : Nat :=
  (offs.map fun off => hdrSize + sizeAt logData off).sum

/-- Reads one after the other, each from where the one before has ended. -/
def readFrom (plInfo : AthPktlogInfo) (ppos : Nat) : List Nat → Option (List UInt8)
  | [] => some []
  | nbytes :: ns => do
    let res ← pktlogReadProcEntry plInfo nbytes ppos
    let rest ← readFrom res.plInfo (ppos + res.buf.length) ns
    return res.buf ++ rest

/-- The read asks for some bytes that an `int` can count, or nothing is left to read. -/
def ReadOk (plInfo : AthPktlogInfo) (nbytes ppos : Nat) : Prop :=
  0 < toInt32 nbytes ∨ ∀ logBuf, plInfo.buf = some logBuf → logBuf.rdOffset = none ∨
    ∀ offs, heldHdrs logBuf plInfo.bufSize = some offs →
      bufhdrSize + heldBytes logBuf.logData offs ≤ ppos

/-- Each of the reads is as it should be when it is made. -/
def ReadsOk (plInfo : AthPktlogInfo) (ppos : Nat) : List Nat → Prop
  | [] => True
  | nbytes :: ns => ReadOk plInfo nbytes ppos ∧
      ∀ res, pktlogReadProcEntry plInfo nbytes ppos = some res →
        ReadsOk res.plInfo (ppos + res.buf.length) ns

section Reading
variable {plInfo : AthPktlogInfo} {logBuf : AthPktlogBuf} {bufSize v w nbytes ppos : ℕ}
  {recs : List PktlogRec} {body : List UInt8}

theorem take_append_take {α : Type*} (xs : List α) (m n : ℕ) :
    xs.take m ++ (xs.drop (xs.take m).length).take n = xs.take (m + n) := by
  rw [List.length_take]
  rcases le_total m xs.length with h | h
  · rw [min_eq_left h, ← List.take_add]
  · rw [min_eq_right h, List.drop_length, take_nil, append_nil,
      List.take_of_length_le h, List.take_of_length_le (by omega)]

/-- What is left to read after a read, whether it has reset the log or not. -/
structure Reading (plInfo : AthPktlogInfo) (hdr : Vector UInt8 8) (rest : List UInt8)
    (ppos : ℕ) : Prop where
  small : plInfo.bufSize ≤ 2 ^ 24
  log : ∃ logBuf body, plInfo.buf = some logBuf ∧ logBuf.bufhdr = hdr ∧
    Readable logBuf plInfo.bufSize body ∧
    (∃ offs, heldHdrs logBuf plInfo.bufSize = some offs ∧
      heldBytes logBuf.logData offs = body.length) ∧
    (ppos ≤ bufhdrSize + body.length ∨ body = []) ∧ rest = (hdr.toList ++ body).drop ppos

theorem Readable.eq_nil (h : Readable logBuf bufSize body) (hrd : logBuf.rdOffset = none) :
    body = [] := by
  cases h with
  | empty _ => rfl
  | records hrd' _ _ =>
    rw [hrd] at hrd'
    cases hrd'

theorem Reading.read {hdr : Vector UInt8 8} {rest : List UInt8} (h : Reading plInfo hdr rest ppos)
    (hok : ReadOk plInfo nbytes ppos) :
    ∃ res, pktlogReadProcEntry plInfo nbytes ppos = some res ∧ res.buf = rest.take (asked nbytes) ∧
      Reading res.plInfo hdr (rest.drop res.buf.length) (ppos + res.buf.length) := by
  obtain ⟨logBuf, body, hbuf, rfl, hread, ⟨offs, hoffs, hheld⟩, hle, rfl⟩ := h.log
  have hlen : logBuf.bufhdr.toList.length = bufhdrSize := logBuf.bufhdr.length_toList
  have hok' : 0 < toInt32 nbytes ∨ bufhdrSize + body.length ≤ ppos ∨ logBuf.rdOffset = none := by
    refine hok.imp_right fun h => ?_
    rcases h logBuf hbuf with h | h
    · exact .inr h
    · exact .inl (hheld ▸ h offs hoffs)
  obtain ⟨res, hres, hout⟩ := read_eq hbuf h.small hread hle hok'
  obtain ⟨hsize, hlog⟩ := read_buf hbuf hres
  refine ⟨res, hres, hout, hsize ▸ h.small, ?_⟩
  rw [List.drop_drop, hsize]
  rcases hlog with hlog | ⟨hnil, hlog⟩
  · refine ⟨logBuf, body, hlog, rfl, hread, ⟨offs, hoffs, hheld⟩, hle.imp_left fun hle => ?_, rfl⟩
    have hcount := congrArg List.length hout
    rw [List.length_take, length_drop, length_append, hlen] at hcount
    omega
  · refine ⟨resetLog logBuf, [], hlog, rfl, .empty rfl, ⟨[], rfl, rfl⟩, .inr rfl, ?_⟩
    have hdone : body = [] ∨ bufhdrSize + body.length ≤ ppos := by
      rcases hok' with hpos | hpast | hrd
      · have hcount := congrArg List.length hout
        rw [hnil, List.length_take, length_drop, length_append, hlen, length_nil] at hcount
        have := asked_of_pos hpos
        omega
      · exact .inr hpast
      · exact .inl (hread.eq_nil hrd)
    rw [hnil, append_nil, length_nil, add_zero]
    rcases hdone with rfl | hpast
    · rw [append_nil]
    · rw [drop_of_length_le (by rw [length_append, hlen]; exact hpast),
        drop_of_length_le (le_trans hlen.le (le_of_add_right_le hpast))]

/-- **A sequence of reads returns the bytes that are left**, one after the other. -/
theorem readFrom_eq {hdr : Vector UInt8 8} {rest : List UInt8} {ns : List ℕ}
    (h : Reading plInfo hdr rest ppos) (hok : ReadsOk plInfo ppos ns) :
    readFrom plInfo ppos ns = some (rest.take (ns.map asked).sum) := by
  induction ns generalizing plInfo ppos rest with
  | nil => rw [List.map_nil, List.sum_nil, List.take_zero, readFrom]
  | cons nbytes ns ih =>
    obtain ⟨res, hres, hout, hleft⟩ := h.read hok.1
    rw [readFrom, hres, bind_eq_bind, bind_some, ih hleft (hok.2 res hres),
      bind_eq_bind, bind_some, hout, take_append_take, map_cons,
      sum_cons]
    rfl

/-! ### What the log holds is read -/

theorem Placed.small {logData : ℕ → UInt8} (h : Placed logData bufSize v recs w) {r : PktlogRec}
    (hr : r ∈ recs) : r.payload.length < 2 ^ 16 := by
  induction recs generalizing v with
  | nil => cases hr
  | cons r' recs ih =>
    rcases List.mem_cons.1 hr with rfl | hr
    · exact h.1.small
    · exact ih h.2 hr

theorem heldBytes_eq {logData : ℕ → UInt8} {offs : List ℕ}
    (h : List.Forall₂ (HoldsRec logData bufSize) offs recs)
    (hsmall : ∀ r ∈ recs, r.payload.length < 2 ^ 16) :
    heldBytes logData offs = (recs.flatMap PktlogRec.bytes).length := by
  induction h with
  | nil => rfl
  | @cons off r offs recs hr _ ih =>
    have hsize : sizeAt logData off = r.payload.length := by
      rw [sizeAt_of_header hr.header]
      exact mod_eq_of_lt (hsmall r List.mem_cons_self)
    have ih := ih fun r' h => hsmall r' (List.mem_cons_of_mem r h)
    rw [heldBytes] at ih ⊢
    rw [map_cons, sum_cons, ih, flatMap_cons, length_append, PktlogRec.bytes,
      length_append, length_headerBytes, hsize]

theorem Held.hdrs (hb : bufSize < 2 ^ 31) (h : Held logBuf bufSize recs) :
    ∃ offs, heldHdrs logBuf bufSize = some offs ∧
      List.Forall₂ (HoldsRec logBuf.logData bufSize) offs recs ∧
      heldBytes logBuf.logData offs = (recs.flatMap PktlogRec.bytes).length := by
  unfold heldHdrs
  cases h with
  | empty hrd hwr =>
    rw [hrd]
    exact ⟨[], rfl, .nil, rfl⟩
  | @records v w _ hne h =>
    have hlen := h.placed.length_lt h.round (le_of_add_left_le h.room)
    obtain ⟨offs, hchain, hoffs⟩ := chain_placed hb hne h.placed h.round hlen.le
    simp only [h.rd, h.wr]
    exact ⟨offs, hchain, hoffs, heldBytes_eq hoffs fun r => h.placed.small⟩

theorem Held.readable {offs : List ℕ} (hb : bufSize < 2 ^ 31) (h : Held logBuf bufSize recs)
    (hoffs : heldHdrs logBuf bufSize = some offs) (hok : ScanOk logBuf.logData bufSize offs) :
    Readable logBuf bufSize (recs.flatMap PktlogRec.bytes) := by
  cases h with
  | empty hrd hwr => exact .empty hrd
  | @records v w _ hne h =>
    have hlen := h.placed.length_lt h.round (le_of_add_left_le h.room)
    unfold heldHdrs at hoffs
    simp only [h.rd, h.wr] at hoffs
    obtain ⟨fold, last, hfind, hstrings⟩ := findFold_strings hb hne h.placed h.wr h.round
      hlen.le hoffs hok
    exact .records h.rd hfind hstrings

end Reading

/-! ### Runs -/

structure Pktlog where
  plInfo : AthPktlogInfo
  recs : List PktlogRec

inductive PktlogEvent where
  | log (r : PktlogRec)
  | read (nbytes ppos : Nat)

def pktlogStep (s : Pktlog) : PktlogEvent → Option Pktlog
  | .log r => do
    let plInfo ← logRecord s.plInfo r
    return { plInfo, recs := s.recs ++ [r] }
  | .read nbytes ppos => do
    let res ← pktlogReadProcEntry s.plInfo nbytes ppos
    return { s with plInfo := res.plInfo }

def maxAllowedPktlogSize : Nat := 16 * (1024 * 1024)

/-- At the start there is a buffer and nothing in it. -/
def pktlogMachine : Machine Pktlog PktlogEvent where
  init s := s.recs = [] ∧ s.plInfo.bufSize ≤ maxAllowedPktlogSize ∧
    ∃ logBuf, s.plInfo.buf = some logBuf ∧ logBuf.rdOffset = none ∧ logBuf.wrOffset = 0
  step := pktlogStep

def PktlogEventOk (s : Pktlog) : PktlogEvent → Prop
  | .log r => ∀ logBuf ∈ s.plInfo.buf, LogFits logBuf s.plInfo.bufSize r
  | .read _ _ => True

/-- The headers reached from the read offset are those of these records, which are the most recent ones, and all of their bytes are there. -/
def Holds (s : Pktlog) (kept : List PktlogRec) : Prop :=
  kept <:+ s.recs ∧ ∃ logBuf offs, s.plInfo.buf = some logBuf ∧
    heldHdrs logBuf s.plInfo.bufSize = some offs ∧
    List.Forall₂ (HoldsRec logBuf.logData s.plInfo.bufSize) offs kept

/-- A sequence of reads from the beginning returns the header, and then the bytes of these records, as far as they are asked for. -/
def Reads (s : Pktlog) (kept : List PktlogRec) (ns : List Nat) : Prop :=
  ∃ logBuf, s.plInfo.buf = some logBuf ∧ readFrom s.plInfo 0 ns =
    some ((logBuf.bufhdr.toList ++ kept.flatMap PktlogRec.bytes).take (ns.map asked).sum)

/-- The scan finds the records, and the reads are as they should be. -/
def SequenceOk (s : Pktlog) (ns : List Nat) : Prop :=
  (∀ logBuf offs, s.plInfo.buf = some logBuf → heldHdrs logBuf s.plInfo.bufSize = some offs →
    ScanOk logBuf.logData s.plInfo.bufSize offs) ∧ ReadsOk s.plInfo 0 ns

structure PktlogInv (s : Pktlog) (logBuf : AthPktlogBuf) (kept : List PktlogRec) : Prop where
  recent : kept <:+ s.recs
  small : s.plInfo.bufSize ≤ maxAllowedPktlogSize
  buf : s.plInfo.buf = some logBuf
  held : Held logBuf s.plInfo.bufSize kept

section Runs
variable {s s' : Pktlog} {logBuf : AthPktlogBuf} {kept : List PktlogRec} {r : PktlogRec}

theorem PktlogInv.bound (h : PktlogInv s logBuf kept) : s.plInfo.bufSize < 2 ^ 31 :=
  lt_of_le_of_lt h.small (by decide)

theorem PktlogInv.holds (h : PktlogInv s logBuf kept) : Holds s kept := by
  obtain ⟨offs, hoffs, hheld, -⟩ := h.held.hdrs h.bound
  exact ⟨h.recent, logBuf, offs, h.buf, hoffs, hheld⟩

theorem PktlogInv.reads (h : PktlogInv s logBuf kept) {ns : List ℕ} (hok : SequenceOk s ns) :
    Reads s kept ns := by
  obtain ⟨offs, hoffs, -, hbytes⟩ := h.held.hdrs h.bound
  have hread := h.held.readable h.bound hoffs (hok.1 logBuf offs h.buf hoffs)
  exact ⟨logBuf, h.buf, readFrom_eq ⟨h.small, logBuf, _, h.buf, rfl, hread, ⟨offs, hoffs, hbytes⟩,
    .inl (zero_le _), List.drop_zero.symm⟩ hok.2⟩

theorem PktlogInv.log (h : PktlogInv s logBuf kept) (hfits : LogFits logBuf s.plInfo.bufSize r) :
    ∃ s' logBuf' k, pktlogStep s (.log r) = some s' ∧
      PktlogInv s' logBuf' (kept.drop k ++ [r]) := by
  obtain ⟨k, logBuf', hlog, -, hheld⟩ := logRecord_held h.buf h.bound h.held hfits
  refine ⟨{ plInfo := { s.plInfo with buf := some logBuf' }, recs := s.recs ++ [r] }, logBuf', k, ?_,
    ?_, h.small, rfl, hheld⟩
  · rw [pktlogStep, hlog]
    rfl
  · obtain ⟨l, hl⟩ := (List.drop_suffix k kept).trans h.recent
    exact ⟨l, by rw [← append_assoc, hl]⟩

theorem PktlogInv.step {e : PktlogEvent} (h : PktlogInv s logBuf kept) (hok : PktlogEventOk s e)
    (hs : pktlogStep s e = some s') : ∃ logBuf kept, PktlogInv s' logBuf kept := by
  cases e with
  | log r =>
    obtain ⟨s'', logBuf', k, hs'', hinv⟩ := h.log (hok logBuf h.buf)
    obtain rfl := some.inj (hs''.symm.trans hs)
    exact ⟨_, _, hinv⟩
  | read nbytes ppos =>
    rw [pktlogStep, bind_eq_bind, bind_eq_some_iff] at hs
    obtain ⟨res, hres, hs⟩ := hs
    obtain rfl := some.inj hs
    obtain ⟨hsize, hlog⟩ := read_buf h.buf hres
    rcases hlog with hlog | ⟨-, hlog⟩
    · exact ⟨logBuf, kept, h.recent, hsize ▸ h.small, hlog, hsize ▸ h.held⟩
    · exact ⟨_, [], List.nil_suffix, hsize ▸ h.small, hlog, .empty rfl rfl⟩

end Runs

/-- **The log holds the most recent records, and they are read**: in every run in which what is logged fits, logging ends, and the headers from the read offset on are those of the most recent records up to the last one; and a sequence of reads returns the header and their bytes, if the scan finds them and no read asks for nothing while something is left. -/
theorem pktlog_right (s : Pktlog) (t : pktlogMachine.Reach PktlogEventOk s) :
    (∃ kept, Holds s kept ∧ ∀ ns, SequenceOk s ns → Reads s kept ns) ∧
      ∀ r, PktlogEventOk s (.log r) →
        ∃ s' kept, pktlogStep s (.log r) = some s' ∧ Holds s' (kept ++ [r]) := by
  have hinv : ∃ logBuf kept, PktlogInv s logBuf kept := by
    refine t.invariant (fun s => ∃ logBuf kept, PktlogInv s logBuf kept) (fun s h => ?_)
      fun s e s' ⟨logBuf, kept, h⟩ hok => h.step hok
    obtain ⟨hrecs, hsize, logBuf, hbuf, hrd, hwr⟩ := h
    exact ⟨logBuf, [], List.nil_suffix, hsize, hbuf, .empty hrd hwr⟩
  obtain ⟨logBuf, kept, hinv⟩ := hinv
  refine ⟨⟨kept, hinv.holds, fun ns => hinv.reads⟩, fun r hok => ?_⟩
  obtain ⟨s', logBuf', k, hs, hinv'⟩ := hinv.log (hok logBuf hinv.buf)
  exact ⟨s', kept.drop k, hs, hinv'.holds⟩

/-! ### A short log -/

def emptyLog : Pktlog where
  plInfo :=
    { buf := some
        { bufhdr := Vector.replicate 8 1
          rdOffset := none
          wrOffset := 0
          bytesWritten := 0
          offset := pktlogReadOffset
          logData := fun _ => 0 }
      bufSize := 1024 * 1024
      logState := 1
      savedState := 0 }
  recs := []

theorem emptyLog_init : pktlogMachine.init emptyLog :=
  ⟨rfl, by decide, _, rfl, rfl, rfl⟩

def twoBytes : PktlogRec where
  logType := 1
  flags := 0
  missedCnt := 0
  timestamp := 5
  payload := [7, 8]

theorem twoBytes_fits : pktlogMachine.Along PktlogEventOk emptyLog [.log twoBytes] := by
  refine ⟨fun logBuf hbuf => ?_, fun _ _ => trivial⟩
  obtain rfl := some.inj hbuf
  decide

/-- A record is logged; a read of no bytes resets the log, and the next read returns the header only. -/
theorem zero_read_loses : ¬ ∀ s, pktlogMachine.Reach PktlogEventOk s →
    ∃ kept, Holds s kept ∧ ∀ ns, Reads s kept ns := by
  intro h
  have hrun : (pktlogMachine.run emptyLog [.log twoBytes]).any (fun s =>
      (s.plInfo.buf.bind fun logBuf => heldHdrs logBuf s.plInfo.bufSize) = some [0] ∧
        (readFrom s.plInfo 0 [0, 64]).map List.length = some 8) := by
    decide +kernel
  obtain ⟨s, hs, hread⟩ := (any_eq_true _ _).1 hrun
  obtain ⟨hhdrs, hread⟩ := of_decide_eq_true hread
  obtain ⟨kept, ⟨-, logBuf, offs, hbuf, hoffs, hheld⟩, hreads⟩ :=
    h s (.run (.start emptyLog_init) twoBytes_fits hs)
  obtain ⟨logBuf', hbuf', hout⟩ := hreads [0, 64]
  rw [hbuf, bind_some, hoffs] at hhdrs
  obtain rfl := some.inj hhdrs
  cases hheld with
  | @cons _ r _ rs hr hrest =>
    cases hrest
    rw [hout, map_some, List.length_take, length_append, Vector.length_toList,
      List.flatMap_singleton, PktlogRec.bytes, length_append, length_headerBytes] at hread
    have hread := some.inj hread
    have hsum : ([0, 64].map asked).sum = 64 := by decide
    rw [hsum, show hdrSize = 12 from rfl] at hread
    omega

theorem pktlog_right_twoBytes : ∃ s, pktlogMachine.run emptyLog [.log twoBytes] = some s ∧
    (readFrom s.plInfo 0 [10, 30]).map List.length = some 22 ∧
    ∃ kept, Holds s kept ∧ Reads s kept [10, 30] := by
  obtain ⟨s, hs, hread, hsize, hlog⟩ : ∃ s, pktlogMachine.run emptyLog [.log twoBytes] = some s ∧
      (readFrom s.plInfo 0 [10, 30]).map List.length = some 22 ∧
      s.plInfo.bufSize = 1024 * 1024 ∧ ∀ logBuf ∈ s.plInfo.buf,
        heldHdrs logBuf s.plInfo.bufSize = some [0] ∧ sizeAt logBuf.logData 0 = 2 :=
    Machine.exists_run (by decide +kernel)
  obtain ⟨⟨kept, hholds, hreads⟩, -⟩ :=
    pktlog_right s (.run (.start emptyLog_init) twoBytes_fits hs)
  refine ⟨s, hs, hread, kept, hholds, hreads [10, 30] ⟨fun logBuf offs hbuf hoffs => ?_, ?_⟩⟩
  · obtain ⟨hhdrs, hsizeAt⟩ := hlog logBuf hbuf
    obtain rfl := some.inj (hoffs.symm.trans hhdrs)
    rw [ScanOk, hsizeAt, hsize]
    decide
  · exact ⟨.inl (by decide), fun _ _ => ⟨.inl (by decide), fun _ _ => trivial⟩⟩

end Qcacld.Utils

import Qcacld.Support.Bytes
import Qcacld.Support.Lapped
import Qcacld.Support.Runs

/-!
# Utils — Pktlog

The packet log, a ring of records of different sizes: `pktlog_getbuf_intsafe` makes room for a record by moving the read offset over the oldest ones.  A record is a header, which does not run over the end of the buffer, and a payload, which goes on at its start when it does not fit behind the header.

`logRecord_held` says that a record that fits is logged behind the most recent ones, all of whose bytes stay where they are, and `chain_placed` that the headers from the read offset on are theirs.  A payload that goes on at the start of the buffer has to end before its own header.
-/

namespace Qcacld.Utils
open Qcacld.Support

/-! ### Records -/

/-- `sizeof(struct ath_pktlog_hdr)` -/
def hdrSize : Nat := 12

/-- `struct ath_pktlog_arg`, but for `pl_info` and `buf`. -/
structure AthPktlogArg where
  logType : Nat
  logSize : Nat
  flags : Nat
  missedCnt : Nat
  timestamp : Nat

/-- The bytes of the `struct ath_pktlog_hdr` that is written for a record. -/
def headerBytes (plarg : AthPktlogArg) : List UInt8 :=
  toLittleEndian 2 plarg.flags ++ toLittleEndian 2 plarg.missedCnt ++
    toLittleEndian 2 plarg.logType ++ toLittleEndian 2 plarg.logSize ++
    toLittleEndian 4 plarg.timestamp

/-- The member `size` of the header at an offset. -/
def sizeAt (logData : Nat → UInt8) (off : Nat) : Nat :=
  littleEndian [logData (off + 6), logData (off + 7)]

structure PktlogRec where
  logType : Nat
  flags : Nat
  missedCnt : Nat
  timestamp : Nat
  payload : List UInt8

def PktlogRec.arg (r : PktlogRec) : AthPktlogArg where
  logType := r.logType
  logSize := r.payload.length
  flags := r.flags
  missedCnt := r.missedCnt
  timestamp := r.timestamp

def PktlogRec.bytes (r : PktlogRec) : List UInt8 := headerBytes r.arg ++ r.payload

/-! ### The buffer -/

/-- `struct ath_pktlog_buf`.  No `rdOffset` is the offset -1. -/
structure AthPktlogBuf where
  bufhdr : Vector UInt8 8
  rdOffset : Option Nat
  wrOffset : Nat
  bytesWritten : Nat
  offset : Nat
  logData : Nat → UInt8

/-- `struct ath_pktlog_info` -/
structure AthPktlogInfo where
  buf : Option AthPktlogBuf
  bufSize : Nat
  logState : Nat
  savedState : Nat

/-- An `int` where a `size_t` is needed. -/
def toSizeT (n : Int) : Nat := (n % 2 ^ 64).toNat

def pktlogMovRdIdx (logData : Nat → UInt8) (logSize rdOffset : Nat) : Nat :=
  let size := sizeAt logData rdOffset
  let rdOffset := if rdOffset + hdrSize + size ≤ logSize then rdOffset + hdrSize + size else size
  if toSizeT (logSize - rdOffset) ≥ hdrSize then rdOffset else 0

/-- A loop that moves the read offset while `cond` holds of it.  `fuel` bounds the turns. -/
def movRdWhile (logData : Nat → UInt8) (logSize : Nat) (cond : Nat → Bool) : Nat → Nat → Option Nat
  | 0, _ => none
  | fuel + 1, rdOffset =>
    if cond rdOffset then movRdWhile logData logSize cond fuel (pktlogMovRdIdx logData logSize rdOffset)
    else some rdOffset

/-- The turns a loop over the buffer may take: from one that takes more an offset would come again. -/
def movFuel (bufSize : Nat) : Nat := bufSize + 1

/-- The read offset once the header is clear of it, or the first one. -/
def headerRdOffset (logBuf : AthPktlogBuf) (bufSize : Nat) : Nat :=
  match logBuf.rdOffset with
  | some rdOffset =>
    if logBuf.wrOffset ≤ rdOffset ∧ logBuf.wrOffset + hdrSize > rdOffset then
      pktlogMovRdIdx logBuf.logData bufSize rdOffset
    else rdOffset
  | none => logBuf.wrOffset

/-- `pktlog_getbuf_intsafe`: the log, and `plarg->buf`. -/
def pktlogGetbufIntsafe (plInfo : AthPktlogInfo) (plarg : AthPktlogArg) :
    Option (AthPktlogInfo × Option Nat) :=
  match plInfo.buf with
  | none => some (plInfo, none)
  | some logBuf => do
    let bufSize := plInfo.bufSize
    let logHdr := logBuf.wrOffset
    let rdOffset := headerRdOffset logBuf bufSize
    let logData := blit logBuf.logData logHdr (headerBytes plarg)
    let curWrOffset := logHdr + hdrSize
    let folds := toSizeT (bufSize - curWrOffset) < plarg.logSize
    let rdOffset ← if folds then
        movRdWhile logData bufSize (fun rd => curWrOffset ≤ rd ∧ rd < bufSize) (movFuel bufSize)
          rdOffset
      else some rdOffset
    let curWrOffset := if folds then 0 else curWrOffset
    let rdOffset ← movRdWhile logData bufSize
      (fun rd => curWrOffset ≤ rd ∧ curWrOffset + plarg.logSize > rd) (movFuel bufSize) rdOffset
    let logPtr := curWrOffset
    let curWrOffset := curWrOffset + sizeAt logData logHdr
    return ({ plInfo with buf := some { logBuf with
      rdOffset := some rdOffset
      wrOffset := if toSizeT (bufSize - curWrOffset) ≥ hdrSize then curWrOffset else 0
      logData := logData } }, some logPtr)

/-- A caller logs a record: it copies the payload to where `pktlog_getbuf` says. -/
def logRecord (plInfo : AthPktlogInfo) (r : PktlogRec) : Option AthPktlogInfo := do
  let (plInfo, logPtr) ← pktlogGetbufIntsafe plInfo r.arg
  match plInfo.buf, logPtr with
  | some logBuf, some logPtr =>
    return { plInfo with buf := some { logBuf with
      logData := blit logBuf.logData logPtr r.payload } }
  | _, _ => return plInfo

/-! ### Where the records are -/

/-- Where the payload of a record begins whose header is at an offset. -/
def payloadOff (bufSize off n : Nat) : Nat := if off + hdrSize + n ≤ bufSize then off + hdrSize else 0

/-- The record is at an offset, with all its bytes. -/
structure HoldsRec (logData : Nat → UInt8) (bufSize off : Nat) (r : PktlogRec) : Prop where
  header : span logData off hdrSize = headerBytes r.arg
  payload : span logData (payloadOff bufSize off r.payload.length) r.payload.length = r.payload

/-- The position behind a record of `n` bytes at position `v`. -/
def nextPos (bufSize v n : Nat) : Nat :=
  if v % bufSize + hdrSize + n ≤ bufSize then
    if v % bufSize + hdrSize + n + hdrSize ≤ bufSize then v + hdrSize + n
    else lapStart bufSize v + bufSize
  else lapStart bufSize v + bufSize + n

structure RecAt (logData : Nat → UInt8) (bufSize v : Nat) (r : PktlogRec) : Prop where
  fits : v % bufSize + hdrSize ≤ bufSize
  small : r.payload.length < 2 ^ 16
  room : hdrSize + r.payload.length ≤ bufSize
  holds : HoldsRec logData bufSize (v % bufSize) r

/-- Records one after the other, from position `v` to position `w`. -/
def Placed (logData : Nat → UInt8) (bufSize : Nat) : Nat → List PktlogRec → Nat → Prop
  | v, [], w => v = w
  | v, r :: rs, w => RecAt logData bufSize v r ∧
      Placed logData bufSize (nextPos bufSize v r.payload.length) rs w

section Positions
variable {logData : ℕ → UInt8} {bufSize v w n : ℕ} {r : PktlogRec} {rs : List PktlogRec}

@[simp]
theorem length_headerBytes (plarg : AthPktlogArg) : (headerBytes plarg).length = hdrSize := by
  simp [headerBytes, hdrSize]

theorem toSizeT_sub (h : n ≤ bufSize) (hb : bufSize < 2 ^ 31) :
    toSizeT (bufSize - n) = bufSize - n := by
  unfold toSizeT
  omega

theorem sizeAt_of_header {plarg : AthPktlogArg} {off : ℕ}
    (h : span logData off hdrSize = headerBytes plarg) :
    sizeAt logData off = plarg.logSize % 2 ^ 16 := by
  have hbytes : [logData (off + 6), logData (off + 7)] = toLittleEndian 2 plarg.logSize :=
    congrArg (fun l => [l.getD 6 0, l.getD 7 0]) h
  rw [sizeAt, hbytes, littleEndian_toLittleEndian]
  rfl

theorem RecAt.sizeAt (h : RecAt logData bufSize v r) :
    sizeAt logData (v % bufSize) = r.payload.length := by
  rw [sizeAt_of_header h.holds.header]
  exact Nat.mod_eq_of_lt h.small

theorem lt_nextPos (hfits : v % bufSize + hdrSize ≤ bufSize) : v + hdrSize ≤ nextPos bufSize v n := by
  have := lapStart_add_mod bufSize v
  unfold nextPos
  split_ifs <;> omega

theorem end_le_nextPos (h : v % bufSize + hdrSize + n ≤ bufSize) :
    v + hdrSize + n ≤ nextPos bufSize v n := by
  have := lapStart_add_mod bufSize v
  unfold nextPos
  split_ifs
  · exact le_rfl
  · omega

/-- The offset behind a record: the next one, or the start when no header fits there. -/
def nextOff (bufSize off n : Nat) : Nat :=
  let off := if off + hdrSize + n ≤ bufSize then off + hdrSize + n else n
  if off + hdrSize ≤ bufSize then off else 0

theorem nextPos_mod (hroom : hdrSize + n ≤ bufSize) :
    nextPos bufSize v n % bufSize = nextOff bufSize (v % bufSize) n := by
  have hhdr : hdrSize = 12 := rfl
  have hv := lapStart_add_mod bufSize v
  unfold nextPos nextOff
  by_cases hfits : v % bufSize + hdrSize + n ≤ bufSize
  · rw [if_pos hfits, if_pos hfits]
    by_cases hnext : v % bufSize + hdrSize + n + hdrSize ≤ bufSize
    · rw [if_pos hnext, if_pos hnext]
      have hmod := lap_add_mod (dvd_lapStart bufSize v) (n := v % bufSize + hdrSize + n) (by omega)
      rwa [← Nat.add_assoc, ← Nat.add_assoc, hv] at hmod
    · rw [if_neg hnext, if_neg hnext]
      exact lap_add_mod (dvd_next_lapStart bufSize v) (n := 0) (by omega)
  · rw [if_neg hfits, if_neg hfits, if_pos (by omega)]
    exact lap_add_mod (dvd_next_lapStart bufSize v) (by omega)

theorem nextPos_room (hroom : hdrSize + n ≤ bufSize) :
    nextPos bufSize v n % bufSize + hdrSize ≤ bufSize := by
  rw [nextPos_mod hroom]
  unfold nextOff
  dsimp only
  split_ifs <;> omega

/-- `PKTLOG_MOV_RD_IDX` goes to the next record. -/
theorem pktlogMovRdIdx_eq (hb : bufSize < 2 ^ 31) (h : RecAt logData bufSize v r) :
    pktlogMovRdIdx logData bufSize (v % bufSize) =
      nextPos bufSize v r.payload.length % bufSize := by
  have hhdr : hdrSize = 12 := rfl
  have hroom := h.room
  rw [nextPos_mod hroom, pktlogMovRdIdx, nextOff, h.sizeAt]
  have hle : (if v % bufSize + hdrSize + r.payload.length ≤ bufSize then
      v % bufSize + hdrSize + r.payload.length else r.payload.length) ≤ bufSize := by
    split_ifs <;> omega
  rw [toSizeT_sub hle hb]
  congr 1
  exact propext (by omega)

theorem Placed.length_le (h : Placed logData bufSize v rs w) : v + hdrSize * rs.length ≤ w := by
  induction rs generalizing v with
  | nil => exact Nat.le_of_eq h
  | cons r rs ih =>
    obtain ⟨hr, h⟩ := h
    have hnext : v + hdrSize ≤ nextPos bufSize v r.payload.length := lt_nextPos hr.fits
    have := ih h
    rw [List.length_cons, Nat.mul_succ]
    omega

theorem Placed.append (h : Placed logData bufSize v rs w) (hr : RecAt logData bufSize w r) :
    Placed logData bufSize v (rs ++ [r]) (nextPos bufSize w r.payload.length) := by
  induction rs generalizing v with
  | nil =>
    obtain rfl : v = w := h
    exact ⟨hr, rfl⟩
  | cons r' rs ih => exact ⟨h.1, ih h.2⟩

/-! ### What is written ahead -/

variable {bs : List UInt8} {l p : ℕ}

theorem RecAt.blit (h : RecAt logData bufSize v r) (hl : bufSize ∣ l) (hend : p + bs.length ≤ bufSize)
    (hnext : nextPos bufSize v r.payload.length ≤ l + p) (hround : l + p + bs.length ≤ v + bufSize) :
    RecAt (blit logData p bs) bufSize v r := by
  have hv := lapStart_add_mod bufSize v
  have hfits := h.fits
  have hroom := h.room
  have hlt : v + hdrSize ≤ nextPos bufSize v r.payload.length := lt_nextPos hfits
  refine ⟨hfits, h.small, hroom, ?_, ?_⟩
  · rw [← h.holds.header]
    refine span_congr_lapped (dvd_lapStart bufSize v) hfits fun y hy hy' => ?_
    exact blit_lapped hl hend (v := v) (by omega) (by omega) hround
  · refine Eq.trans ?_ h.holds.payload
    unfold payloadOff
    split_ifs with hfits'
    · have hend' := end_le_nextPos hfits'
      refine span_congr_lapped (dvd_lapStart bufSize v) hfits' fun y hy hy' => ?_
      exact blit_lapped hl hend (v := v) (by omega) (by omega) hround
    · rw [nextPos, if_neg hfits'] at hnext
      refine span_congr_lapped (dvd_next_lapStart bufSize v) (by omega) fun y hy hy' => ?_
      have hlap := Nat.mod_lt v (by omega : 0 < bufSize)
      exact blit_lapped hl hend (v := v) (by omega) (by omega) hround

theorem Placed.blit (h : Placed logData bufSize v rs w) (hl : bufSize ∣ l)
    (hend : p + bs.length ≤ bufSize) (hw : w ≤ l + p) (hround : l + p + bs.length ≤ v + bufSize) :
    Placed (Support.blit logData p bs) bufSize v rs w := by
  induction rs generalizing v with
  | nil => exact h
  | cons r rs ih =>
    obtain ⟨hr, h⟩ := h
    have hnext : v + hdrSize ≤ nextPos bufSize v r.payload.length := lt_nextPos hr.fits
    have hle := h.length_le
    exact ⟨hr.blit hl hend (by omega) hround, ih h (by omega)⟩

/-! ### Moving the read offset -/

/-- The read offset moves over records, from the oldest one on, until `c` does not hold of it. -/
theorem movRdWhile_placed {c : ℕ → Bool} {fuel : ℕ} (hb : bufSize < 2 ^ 31)
    (h : Placed logData bufSize v rs w) (hw : c (w % bufSize) = false) (hfuel : rs.length < fuel) :
    ∃ k v', movRdWhile logData bufSize c fuel (v % bufSize) = some (v' % bufSize) ∧
      Placed logData bufSize v' (rs.drop k) w ∧ v ≤ v' ∧ v' ≤ w ∧ c (v' % bufSize) = false := by
  induction rs generalizing v fuel with
  | nil =>
    obtain rfl : v = w := h
    obtain ⟨fuel, rfl⟩ := Nat.exists_eq_add_one.2 hfuel
    refine ⟨0, v, ?_, rfl, le_rfl, le_rfl, hw⟩
    rw [movRdWhile, hw]
    rfl
  | cons r rs ih =>
    obtain ⟨fuel, rfl⟩ := Nat.exists_eq_add_one.2 (Nat.zero_lt_of_lt hfuel)
    have hle := h.length_le
    rw [movRdWhile]
    cases hc : c (v % bufSize) with
    | false => exact ⟨0, v, rfl, h, le_rfl, by omega, hc⟩
    | true =>
      obtain ⟨hr, h⟩ := h
      have hnext : v + hdrSize ≤ nextPos bufSize v r.payload.length := lt_nextPos hr.fits
      obtain ⟨k, v', hmov, hplaced, hv', hrest⟩ := ih h (Nat.lt_of_succ_lt_succ hfuel)
      refine ⟨k + 1, v', ?_, hplaced, by omega, hrest⟩
      rw [if_pos rfl, pktlogMovRdIdx_eq hb hr, hmov]

end Positions

/-! ### Logging -/

/-- The record is no longer than the buffer nor than its header can say, and its payload ends before its header if it goes on at the start of the buffer. -/
structure LogFits (logBuf : AthPktlogBuf) (bufSize : Nat) (r : PktlogRec) : Prop where
  small : r.payload.length < 2 ^ 16
  room : hdrSize + r.payload.length ≤ bufSize
  clear : logBuf.wrOffset + hdrSize + r.payload.length ≤ bufSize ∨
    r.payload.length ≤ logBuf.wrOffset

instance (logBuf : AthPktlogBuf) (bufSize : ℕ) (r : PktlogRec) :
    Decidable (LogFits logBuf bufSize r) :=
  decidable_of_iff (r.payload.length < 2 ^ 16 ∧ hdrSize + r.payload.length ≤ bufSize ∧
      (logBuf.wrOffset + hdrSize + r.payload.length ≤ bufSize ∨ r.payload.length ≤ logBuf.wrOffset))
    ⟨fun ⟨h, h', h''⟩ => ⟨h, h', h''⟩, fun h => ⟨h.small, h.room, h.clear⟩⟩

/-- The records from the read offset, which is at position `v`, to the write offset, at position `w`. -/
structure Chained (logBuf : AthPktlogBuf) (bufSize v w : Nat) (recs : List PktlogRec) : Prop where
  rd : logBuf.rdOffset = some (v % bufSize)
  wr : logBuf.wrOffset = w % bufSize
  room : w % bufSize + hdrSize ≤ bufSize
  placed : Placed logBuf.logData bufSize v recs w
  round : w ≤ v + bufSize

/-- What the log holds: nothing, or the records from the read offset on. -/
inductive Held (logBuf : AthPktlogBuf) (bufSize : Nat) : List PktlogRec → Prop where
  | empty (hrd : logBuf.rdOffset = none) (hwr : logBuf.wrOffset = 0) : Held logBuf bufSize []
  | records {v w : Nat} {recs : List PktlogRec} (hne : recs ≠ [])
      (h : Chained logBuf bufSize v w recs) : Held logBuf bufSize recs

section Logging
variable {logBuf : AthPktlogBuf} {bufSize v w n : ℕ} {r : PktlogRec} {recs : List PktlogRec}

/-- Once the read offset is clear of the header there are no more records than a round less a header. -/
theorem headerRdOffset_placed (hb : bufSize < 2 ^ 31) (hroom : hdrSize ≤ bufSize)
    (h : Held logBuf bufSize recs) :
    ∃ k v w, headerRdOffset logBuf bufSize = v % bufSize ∧ logBuf.wrOffset = w % bufSize ∧
      w % bufSize + hdrSize ≤ bufSize ∧ Placed logBuf.logData bufSize v (recs.drop k) w ∧
      w + hdrSize ≤ v + bufSize := by
  have hhdr : hdrSize = 12 := rfl
  unfold headerRdOffset
  cases h with
  | empty hrd hwr =>
    rw [hrd, hwr]
    exact ⟨0, 0, 0, (Nat.zero_mod _).symm, (Nat.zero_mod _).symm, by simpa using hroom, rfl,
      by omega⟩
  | @records v w _ hne h =>
    have hfits := h.room
    have hround := h.round
    have hv := lapStart_add_mod bufSize v
    have hw := lapStart_add_mod bufSize w
    obtain ⟨r, rs, rfl⟩ := List.exists_cons_of_ne_nil hne
    obtain ⟨hr, hrs⟩ := h.placed
    have hnext : v + hdrSize ≤ nextPos bufSize v r.payload.length := lt_nextPos hr.fits
    have hle := hrs.length_le
    have hcases := mod_cases (by omega : 0 < bufSize) (by omega : v ≤ w) hround
    simp only [h.rd]
    split_ifs with hover
    · exact ⟨1, _, w, pktlogMovRdIdx_eq hb hr, h.wr, hfits, hrs, by omega⟩
    · refine ⟨0, v, w, rfl, h.wr, hfits, h.placed, ?_⟩
      rw [h.wr] at hover
      omega

variable {logData : ℕ → UInt8}

/-- Behind its header the payload is written ahead of the records that are left, and leaves them there. -/
theorem placed_written (hw : w % bufSize + hdrSize ≤ bufSize)
    (hheader : span logData (w % bufSize) hdrSize = headerBytes r.arg)
    (h : Placed logData bufSize v recs w) (hroom : hdrSize + r.payload.length ≤ bufSize)
    (hsmall : r.payload.length < 2 ^ 16)
    (hclear : w % bufSize + hdrSize + r.payload.length ≤ bufSize ∨ r.payload.length ≤ w % bufSize)
    (hend : if w % bufSize + hdrSize + r.payload.length ≤ bufSize then
        w + hdrSize + r.payload.length ≤ v + bufSize
      else lapStart bufSize w + r.payload.length ≤ v) :
    Placed (blit logData (payloadOff bufSize (w % bufSize) r.payload.length) r.payload) bufSize v
      (recs ++ [r]) (nextPos bufSize w r.payload.length) := by
  have hlap := lapStart_add_mod bufSize w
  unfold payloadOff
  split_ifs at hend ⊢ with hfold
  · refine (h.blit (dvd_lapStart bufSize w) hfold (by omega) (by omega)).append
      ⟨hw, hsmall, hroom, ?_, ?_⟩
    · rw [← hheader]
      exact span_congr fun k _ hk => blit_of_lt hk
    · rw [payloadOff, if_pos hfold]
      exact span_blit
  · have hn := hclear.resolve_left hfold
    refine (h.blit (dvd_next_lapStart bufSize w) (by omega) (by omega) (by omega)).append
      ⟨hw, hsmall, hroom, ?_, ?_⟩
    · rw [← hheader]
      exact span_congr fun k hk _ => blit_of_le (by omega)
    · rw [payloadOff, if_neg hfold]
      exact span_blit

theorem Placed.length_lt (h : Placed logData bufSize v recs w) (hround : w ≤ v + bufSize)
    (hroom : hdrSize ≤ bufSize) : recs.length < movFuel bufSize := by
  have hle := h.length_le
  rw [show hdrSize = 12 from rfl] at hle hroom
  unfold movFuel
  omega

theorem movRdWhile_behind (hb : bufSize < 2 ^ 31) (hfits : w % bufSize + hdrSize + n ≤ bufSize)
    (h : Placed logData bufSize v recs w) (hhdr : w + hdrSize ≤ v + bufSize) :
    ∃ k v', movRdWhile logData bufSize
        (fun rd => w % bufSize + hdrSize ≤ rd ∧ w % bufSize + hdrSize + n > rd) (movFuel bufSize)
        (v % bufSize) = some (v' % bufSize) ∧
      Placed logData bufSize v' (recs.drop k) w ∧ v ≤ v' ∧ w + hdrSize + n ≤ v' + bufSize := by
  have h12 : hdrSize = 12 := rfl
  have hw := lapStart_add_mod bufSize w
  obtain ⟨k, v', hmov, hplaced, hle, hle', hstop⟩ := movRdWhile_placed
    (c := fun rd => w % bufSize + hdrSize ≤ rd ∧ w % bufSize + hdrSize + n > rd) hb h
    (decide_eq_false (by omega)) (h.length_lt (by omega) (by omega))
  refine ⟨k, v', hmov, hplaced, hle, ?_⟩
  have hstop := of_decide_eq_false hstop
  rcases mod_cases (by omega : 0 < bufSize) hle' (by omega) with ⟨hlap, -⟩ | ⟨hlap, hmod⟩
  · omega
  · omega

/-- A payload at the start of the buffer: the read offset goes to the start too, and past it. -/
theorem movRdWhile_fold (hb : bufSize < 2 ^ 31) (hfits : w % bufSize + hdrSize ≤ bufSize)
    (hn : n ≤ w % bufSize) (h : Placed logData bufSize v recs w)
    (hhdr : w + hdrSize ≤ v + bufSize) :
    ∃ k v', ((movRdWhile logData bufSize (fun rd => w % bufSize + hdrSize ≤ rd ∧ rd < bufSize)
        (movFuel bufSize) (v % bufSize)).bind fun rd => movRdWhile logData bufSize
          (fun rd => 0 ≤ rd ∧ 0 + n > rd) (movFuel bufSize) rd) = some (v' % bufSize) ∧
      Placed logData bufSize v' (recs.drop k) w ∧ v ≤ v' ∧ lapStart bufSize w + n ≤ v' := by
  have h12 : hdrSize = 12 := rfl
  have hw := lapStart_add_mod bufSize w
  obtain ⟨k, v₁, hmov, hplaced, hle, hle', hstop⟩ := movRdWhile_placed
    (c := fun rd => w % bufSize + hdrSize ≤ rd ∧ rd < bufSize) hb h
    (decide_eq_false (by omega)) (h.length_lt (by omega) (by omega))
  have hstop := of_decide_eq_false hstop
  have hlt := Nat.mod_lt v₁ (by omega : 0 < bufSize)
  have hlap : lapStart bufSize w ≤ v₁ := by
    rcases mod_cases (by omega : 0 < bufSize) hle' (by omega) with h | h <;> omega
  obtain ⟨k', v₂, hmov', hplaced', hle₂, hle₂', hstop'⟩ := movRdWhile_placed
    (c := fun rd => 0 ≤ rd ∧ 0 + n > rd) hb hplaced
    (decide_eq_false (by omega)) (hplaced.length_lt (by omega) (by omega))
  have hstop' := of_decide_eq_false hstop'
  refine ⟨k + k', v₂, ?_, ?_, by omega, ?_⟩
  · rw [hmov, Option.bind_some, hmov']
  · rwa [List.drop_drop] at hplaced'
  · rcases mod_cases (by omega : 0 < bufSize) hle₂' (by omega) with h | h <;> omega

/-- The read offset when the header is written, and what it leaves of the log. -/
structure Cleared (logBuf : AthPktlogBuf) (bufSize v w : ℕ) (r : PktlogRec)
    (recs : List PktlogRec) : Prop where
  rd : headerRdOffset logBuf bufSize = v % bufSize
  wr : logBuf.wrOffset = w % bufSize
  room : w % bufSize + hdrSize ≤ bufSize
  header : span (blit logBuf.logData (w % bufSize) (headerBytes r.arg)) (w % bufSize) hdrSize =
    headerBytes r.arg
  placed : Placed (blit logBuf.logData (w % bufSize) (headerBytes r.arg)) bufSize v recs w
  round : w + hdrSize ≤ v + bufSize

theorem Held.cleared (hb : bufSize < 2 ^ 31) (hroom : hdrSize ≤ bufSize)
    (h : Held logBuf bufSize recs) (r : PktlogRec) :
    ∃ k v w, Cleared logBuf bufSize v w r (recs.drop k) := by
  obtain ⟨k, v, w, hrd, hwr, hw, hplaced, hround⟩ := headerRdOffset_placed hb hroom h
  have hlap := lapStart_add_mod bufSize w
  have hlen : (headerBytes r.arg).length = hdrSize := length_headerBytes _
  refine ⟨k, v, w, hrd, hwr, hw, ?_, ?_, hround⟩
  · rw [← hlen]
    exact span_blit
  · exact hplaced.blit (dvd_lapStart bufSize w) (by omega) (by omega) (by omega)

theorem Cleared.sizeAt (h : Cleared logBuf bufSize v w r recs) (hsmall : r.payload.length < 2 ^ 16) :
    sizeAt (blit logBuf.logData (w % bufSize) (headerBytes r.arg)) (w % bufSize) =
      r.payload.length := by
  rw [sizeAt_of_header h.header]
  exact Nat.mod_eq_of_lt hsmall

def logged (logBuf : AthPktlogBuf) (bufSize v w : ℕ) (r : PktlogRec) : AthPktlogBuf :=
  { logBuf with
    rdOffset := some (v % bufSize)
    wrOffset := nextPos bufSize w r.payload.length % bufSize
    logData := blit (blit logBuf.logData (w % bufSize) (headerBytes r.arg))
      (payloadOff bufSize (w % bufSize) r.payload.length) r.payload }

variable {plInfo : AthPktlogInfo}

/-- No record is left where no header fits, so that the write offset may go on to the start. -/
theorem nextPos_round (hw : w % bufSize + hdrSize ≤ bufSize) (h : Placed logData bufSize v recs w)
    (hround : w + hdrSize ≤ v + bufSize) (hend : w + hdrSize + n ≤ v + bufSize)
    (hfits : w % bufSize + hdrSize + n ≤ bufSize) : nextPos bufSize w n ≤ v + bufSize := by
  have h12 : hdrSize = 12 := rfl
  have hlap := lapStart_add_mod bufSize w
  rw [nextPos, if_pos hfits]
  split_ifs with hnext
  · exact hend
  · have hle : lapStart bufSize w ≤ v := by
      cases recs with
      | nil =>
        obtain rfl : v = w := h
        omega
      | cons r recs =>
        have hr := h.1.fits
        have hle := h.length_le
        rcases mod_cases (by omega : 0 < bufSize) (by omega : v ≤ w) (by omega) with h | h
        · exact h.1
        · omega
    omega

theorem logRecord_behind (hbuf : plInfo.buf = some logBuf) (hb : plInfo.bufSize < 2 ^ 31)
    (h : Cleared logBuf plInfo.bufSize v w r recs) (hsmall : r.payload.length < 2 ^ 16)
    (hfits : w % plInfo.bufSize + hdrSize + r.payload.length ≤ plInfo.bufSize) :
    ∃ k v', logRecord plInfo r =
        some { plInfo with buf := some (logged logBuf plInfo.bufSize v' w r) } ∧
      Placed (logged logBuf plInfo.bufSize v' w r).logData plInfo.bufSize v' (recs.drop k ++ [r])
        (nextPos plInfo.bufSize w r.payload.length) ∧
      nextPos plInfo.bufSize w r.payload.length ≤ v' + plInfo.bufSize := by
  have hsize : r.arg.logSize = r.payload.length := rfl
  have hroom : hdrSize + r.payload.length ≤ plInfo.bufSize := by omega
  obtain ⟨k, v', hmov, hleft, hle, hend⟩ := movRdWhile_behind hb hfits h.placed h.round
  have hround := h.round
  have hfolds : ¬ toSizeT (plInfo.bufSize - ↑(w % plInfo.bufSize + hdrSize)) < r.arg.logSize := by
    rw [toSizeT_sub h.room hb, hsize]
    omega
  refine ⟨k, v', ?_, ?_, ?_⟩
  · unfold logRecord pktlogGetbufIntsafe
    simp only [hbuf, h.wr, h.rd, if_neg hfolds, Option.bind_eq_bind, Option.bind_some]
    rw [hsize, hmov, h.sizeAt hsmall, toSizeT_sub hfits hb]
    have hnext : (if plInfo.bufSize - (w % plInfo.bufSize + hdrSize + r.payload.length) ≥ hdrSize
        then w % plInfo.bufSize + hdrSize + r.payload.length else 0) =
        nextPos plInfo.bufSize w r.payload.length % plInfo.bufSize := by
      rw [nextPos_mod hroom, nextOff, if_pos hfits]
      congr 1
      exact propext (by omega)
    rw [hnext, logged, payloadOff, if_pos hfits]
    rfl
  · refine placed_written h.room h.header hleft hroom hsmall (.inl hfits) ?_
    rw [if_pos hfits]
    exact hend
  · exact nextPos_round h.room hleft (by omega) hend hfits

theorem logRecord_folded (hbuf : plInfo.buf = some logBuf) (hb : plInfo.bufSize < 2 ^ 31)
    (h : Cleared logBuf plInfo.bufSize v w r recs) (hsmall : r.payload.length < 2 ^ 16)
    (hroom : hdrSize + r.payload.length ≤ plInfo.bufSize)
    (hfold : ¬ w % plInfo.bufSize + hdrSize + r.payload.length ≤ plInfo.bufSize)
    (hclear : r.payload.length ≤ w % plInfo.bufSize) :
    ∃ k v', logRecord plInfo r =
        some { plInfo with buf := some (logged logBuf plInfo.bufSize v' w r) } ∧
      Placed (logged logBuf plInfo.bufSize v' w r).logData plInfo.bufSize v' (recs.drop k ++ [r])
        (nextPos plInfo.bufSize w r.payload.length) ∧
      nextPos plInfo.bufSize w r.payload.length ≤ v' + plInfo.bufSize := by
  have hsize : r.arg.logSize = r.payload.length := rfl
  have hw := h.room
  obtain ⟨k, v', hmov, hleft, hle, hend⟩ := movRdWhile_fold hb h.room hclear h.placed h.round
  have hfolds : toSizeT (plInfo.bufSize - ↑(w % plInfo.bufSize + hdrSize)) < r.arg.logSize := by
    rw [toSizeT_sub h.room hb, hsize]
    omega
  refine ⟨k, v', ?_, ?_, ?_⟩
  · unfold logRecord pktlogGetbufIntsafe
    simp only [hbuf, h.wr, h.rd, if_pos hfolds, Option.bind_eq_bind]
    rw [← Option.bind_assoc, hsize, hmov, h.sizeAt hsmall,
      toSizeT_sub (n := 0 + r.payload.length) (by omega) hb]
    have hnext : (if plInfo.bufSize - (0 + r.payload.length) ≥ hdrSize
        then 0 + r.payload.length else 0) =
        nextPos plInfo.bufSize w r.payload.length % plInfo.bufSize := by
      rw [nextPos_mod hroom, nextOff, if_neg hfold, Nat.zero_add]
      congr 1
      exact propext (by omega)
    rw [hnext, logged, payloadOff, if_neg hfold]
    rfl
  · refine placed_written h.room h.header hleft hroom hsmall (.inr hclear) ?_
    rw [if_neg hfold]
    exact hend
  · rw [nextPos, if_neg hfold]
    omega

/-- **A record is logged behind the most recent ones, and the loops end.** -/
theorem logRecord_held (hbuf : plInfo.buf = some logBuf) (hb : plInfo.bufSize < 2 ^ 31)
    (h : Held logBuf plInfo.bufSize recs) (hfits : LogFits logBuf plInfo.bufSize r) :
    ∃ k logBuf', logRecord plInfo r = some { plInfo with buf := some logBuf' } ∧
      logBuf'.bufhdr = logBuf.bufhdr ∧ Held logBuf' plInfo.bufSize (recs.drop k ++ [r]) := by
  obtain ⟨hsmall, hroom, hclear⟩ := hfits
  obtain ⟨k, v, w, hcleared⟩ := h.cleared hb (Nat.le_of_add_right_le hroom) r
  rw [hcleared.wr] at hclear
  obtain ⟨k', v', hlog, hplaced, hround⟩ : ∃ k' v', logRecord plInfo r =
        some { plInfo with buf := some (logged logBuf plInfo.bufSize v' w r) } ∧
      Placed (logged logBuf plInfo.bufSize v' w r).logData plInfo.bufSize v'
        ((recs.drop k).drop k' ++ [r]) (nextPos plInfo.bufSize w r.payload.length) ∧
      nextPos plInfo.bufSize w r.payload.length ≤ v' + plInfo.bufSize := by
    by_cases hfold : w % plInfo.bufSize + hdrSize + r.payload.length ≤ plInfo.bufSize
    · exact logRecord_behind hbuf hb hcleared hsmall hfold
    · exact logRecord_folded hbuf hb hcleared hsmall hroom hfold (hclear.resolve_left hfold)
  have hnext := nextPos_room (v := w) hroom
  rw [List.drop_drop] at hplaced
  exact ⟨k + k', _, hlog, rfl, .records (by simp) ⟨rfl, rfl, hnext, hplaced, hround⟩⟩

/-! ### The chain of headers -/

/-- The headers from an offset on, up to the write offset. -/
def chain (logData : Nat → UInt8) (logSize wrOffset : Nat) : Nat → Nat → Option (List Nat)
  | 0, _ => none
  | fuel + 1, rdOffset =>
    let next := pktlogMovRdIdx logData logSize rdOffset
    if next = wrOffset then some [rdOffset]
    else (chain logData logSize wrOffset fuel next).map (rdOffset :: ·)

theorem nextPos_mod_ne (hr : RecAt logData bufSize v r) (hne : recs ≠ [])
    (h : Placed logData bufSize (nextPos bufSize v r.payload.length) recs w)
    (hround : w ≤ v + bufSize) :
    nextPos bufSize v r.payload.length < w ∧
      nextPos bufSize v r.payload.length % bufSize ≠ w % bufSize := by
  have hnext : v + hdrSize ≤ nextPos bufSize v r.payload.length := lt_nextPos hr.fits
  have hle := h.length_le
  have hlen := List.length_pos_iff.2 hne
  have h12 : hdrSize = 12 := rfl
  rw [h12] at hle hnext
  exact ⟨by omega, mod_ne_mod (by omega) (by omega)⟩

theorem chain_placed {fuel : ℕ} (hb : bufSize < 2 ^ 31) (hne : recs ≠ [])
    (h : Placed logData bufSize v recs w) (hround : w ≤ v + bufSize) (hfuel : recs.length ≤ fuel) :
    ∃ offs, chain logData bufSize (w % bufSize) fuel (v % bufSize) = some offs ∧
      List.Forall₂ (HoldsRec logData bufSize) offs recs := by
  induction recs generalizing v fuel with
  | nil => exact absurd rfl hne
  | cons r recs ih =>
    obtain ⟨fuel, rfl⟩ := Nat.exists_eq_add_one.2 (Nat.lt_of_lt_of_le (Nat.succ_pos _) hfuel)
    obtain ⟨hr, h⟩ := h
    rw [chain, pktlogMovRdIdx_eq hb hr]
    cases recs with
    | nil =>
      obtain rfl : nextPos bufSize v r.payload.length = w := h
      exact ⟨_, if_pos rfl, .cons hr.holds .nil⟩
    | cons r' recs =>
      have hnext := nextPos_mod_ne hr (List.cons_ne_nil _ _) h hround
      have hlt : v + hdrSize ≤ nextPos bufSize v r.payload.length := lt_nextPos hr.fits
      obtain ⟨offs, hchain, hoffs⟩ := ih (List.cons_ne_nil _ _) h (by omega)
        (Nat.le_of_succ_le_succ hfuel)
      refine ⟨_, ?_, .cons hr.holds hoffs⟩
      rw [if_neg hnext.2, hchain]
      rfl

end Logging

end Qcacld.Utils

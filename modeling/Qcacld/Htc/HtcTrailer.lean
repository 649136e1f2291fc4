import Qcacld.Htc.HtcRecv

/-!
# Htc — HtcTrailer

The records behind a payload.  A trailer is a list of records, each with a header that says how long it is, and perhaps a rest that is no whole record.  `htc_trailer_right` says that `HTCProcessTrailer` reads inside the trailer, applies the reports of its whole records in order, those behind a report for an endpoint that does not exist apart, and fails exactly if there is a rest.
-/

namespace Qcacld.Htc
open List
namespace Recv
open Qcacld.Support
open Qcacld.Support.Logged

/-! ### What a trailer is -/

/-- A record: its id, two bytes that are reserved, and what follows the header. -/
structure TrailerRecord where
  id : UInt8
  reserved : UInt8 × UInt8
  body : List UInt8
  /-- The length is a byte of the header. -/
  length_lt : body.length < 256

def TrailerRecord.bytes (r : TrailerRecord) : List UInt8 :=
  r.id :: UInt8.ofNat r.body.length :: r.reserved.1 :: r.reserved.2 :: r.body

/-- Bytes that are no whole record: too few for a header, or for what it announces. -/
def CutOff : List UInt8 → Prop
  | _ :: length :: _ :: _ :: body => body.length < length.toNat
  | [] => False
  | _ => True

/-- A trailer: whole records, and a rest that is none. -/
structure Trailer where
  records : List TrailerRecord
  rest : List UInt8
  rest_cutOff : rest = [] ∨ CutOff rest

def Trailer.bytes (t : Trailer) : List UInt8 := t.records.flatMap TrailerRecord.bytes ++ t.rest

/-- The entries of a credit report: an endpoint and its credits. -/
def creditReports : List UInt8 → List (Nat × Nat)
  | ep :: credits :: _ :: _ :: rest => (ep.toNat, credits.toNat) :: creditReports rest
  | _ => []

def TrailerRecord.reports (r : TrailerRecord) : List (Nat × Nat) :=
  if r.id.toNat = htcRecordCredits then creditReports r.body else []

/-- The entries of a record up to the first one for an endpoint that does not exist. -/
def TrailerRecord.applied (r : TrailerRecord) : List (Nat × Nat) :=
  r.reports.takeWhile fun e => e.1 < endpointMax

def applyReport (cfg : RecvCfg) (tx : TxSide) (e : Nat × Nat) : TxSide :=
  let tx := tx.addCredits e.1 e.2
  if tx.canSend e.1 then
    if cfg.ath11acTxcompact = false ∧ cfg.serviceId e.1 = .httData then cfg.htcSendDataPkt tx
    else cfg.htcTrySend e.1 tx
  else tx

/-! ### Programs that apply reports -/

def addedReport : RecvAction → Option (Nat × Nat)
  | .addCredits ep credits => some (ep, credits)
  | _ => none

/-- A read between two offsets, or something that is done to the send side. -/
def Within (lo hi : Nat) : RecvAction → Prop
  | .read offset bytes => lo ≤ offset ∧ offset + bytes ≤ hi
  | .addCredits .. | .htcTrySend _ | .htcSendDataPkt => True
  | _ => False

/-- A program that reads between two offsets and applies the given entries, in order, and nothing else. -/
structure Applies (cfg : RecvCfg) (lo hi : Nat) {α : Type} (x : Recv α)
    (entries : List (Nat × Nat)) : Prop where
  within : ∀ s, ∀ e ∈ x.log s, Within lo hi e
  added : ∀ s, (x.log s).filterMap addedReport = entries
  state : ∀ s, (x s).2.1 = { s with tx := entries.foldl (applyReport cfg) s.tx }

section
variable {cfg : RecvCfg} {lo hi : Nat} {α β : Type} {x : Recv α} {f : α → Recv β}
  {es es' : List (Nat × Nat)}

theorem applies_pure (a : α) : Applies cfg lo hi (pure a) [] :=
  ⟨fun _ _ he => (nomatch he), fun _ => rfl, fun _ => rfl⟩

theorem applies_read {offset bytes : Nat} (h : lo ≤ offset) (h' : offset + bytes ≤ hi) :
    Applies cfg lo hi (emit (.read offset bytes)) [] :=
  ⟨fun _ _ he => mem_singleton.1 he ▸ ⟨h, h'⟩, fun _ => rfl, fun _ => rfl⟩

theorem applies_bind (hx : Applies cfg lo hi x es) (hf : ∀ a, Applies cfg lo hi (f a) es') :
    Applies cfg lo hi (x >>= f) (es ++ es') where
  within s e he := by
    rw [log_bind] at he
    rcases mem_append.1 he with he | he
    · exact hx.within s e he
    · exact (hf _).within _ e he
  added s := by rw [log_bind, filterMap_append, hx.added, (hf _).added]
  state s := by
    have hstate := (hf (x s).1).state (x s).2.1
    rw [hx.state s] at hstate
    rw [foldl_append]
    exact (congrArg (fun s => (f (x _).1 s).2.1) (hx.state s)).trans hstate

theorem applies_when {c : Prop} [Decidable c] {x : Recv Unit} (h : Applies cfg lo hi x []) :
    Applies cfg lo hi (when c x) [] := by
  rw [when]
  split
  · exact h
  · exact applies_pure ()

def sendActions (cfg : RecvCfg) (ep : Nat) : List RecvAction :=
  if cfg.ath11acTxcompact = false ∧ cfg.serviceId ep = .httData then [.htcSendDataPkt]
  else [.htcTrySend ep]

theorem sendNow_eq (ep : Nat) (s : RecvState) : sendNow cfg ep s = ((),
    { s with tx := if cfg.ath11acTxcompact = false ∧ cfg.serviceId ep = .httData then
        cfg.htcSendDataPkt s.tx else cfg.htcTrySend ep s.tx }, sendActions cfg ep) := by
  rw [sendNow, sendActions]
  split <;> rfl

theorem creditEntry_eq (ep credits : Nat) (s : RecvState) : creditEntry cfg ep credits s = ((),
    { s with tx := applyReport cfg s.tx (ep, credits) }, .addCredits ep credits ::
      if (s.tx.addCredits ep credits).canSend ep then sendActions cfg ep else []) := by
  change ((), (when ((s.tx.addCredits ep credits).canSend ep) (sendNow cfg ep)
      { s with tx := s.tx.addCredits ep credits }).2.1, _ :: (when _ (sendNow cfg ep) _).2.2) = _
  rw [when, applyReport]
  split
  · rw [sendNow_eq]
  · rfl

theorem mem_sendActions {ep : Nat} {e : RecvAction} (he : e ∈ sendActions cfg ep) :
    e = .htcSendDataPkt ∨ e = .htcTrySend ep := by
  rw [sendActions] at he
  split at he
  · exact Or.inl (mem_singleton.1 he)
  · exact Or.inr (mem_singleton.1 he)

theorem applies_creditEntry (ep credits : Nat) :
    Applies cfg lo hi (creditEntry cfg ep credits) [(ep, credits)] where
  within s e he := by
    rw [log, creditEntry_eq] at he
    rcases mem_cons.1 he with rfl | he
    · trivial
    · split at he
      · rcases mem_sendActions he with rfl | rfl <;> trivial
      · cases he
  added s := by
    rw [log, creditEntry_eq]
    refine congrArg ((ep, credits) :: ·) (filterMap_eq_nil_iff.2 fun e he => ?_)
    split at he
    · rcases mem_sendActions he with rfl | rfl <;> rfl
    · cases he
  state s := by rw [creditEntry_eq]; rfl

end

/-! ### Credit reports -/

section
variable {cfg : RecvCfg} {m : RxNetbuf} {lo hi : Nat}

theorem creditReports_succ (n p : Nat) : creditReports (m.bytesAt p (4 * (n + 1)))
    = ((m.data p).toNat, (m.data (p + 1)).toNat) :: creditReports (m.bytesAt (p + 4) (4 * n)) := by
  rw [Nat.mul_succ, Nat.add_comm, bytesAt_four_add]
  rfl

theorem applies_creditRpt (n p : Nat) (hlo : lo ≤ p) (hhi : p + 4 * n ≤ hi) :
    Applies cfg lo hi (htcProcessCreditRpt cfg m n p)
      ((creditReports (m.bytesAt p (4 * n))).takeWhile fun e => e.1 < endpointMax) := by
  induction n generalizing p with
  | zero => exact applies_pure ()
  | succ n ih =>
    have hread : Applies cfg lo hi (emit (.read p 4)) [] := applies_read hlo (by omega)
    have hep : htcCreditReportEndpointId (littleEndian (m.bytesAt p 4)) = (m.data p).toNat :=
      word_low_byte
    have hcredits : htcCreditReportCredits (littleEndian (m.bytesAt p 4))
        = (m.data (p + 1)).toNat := word_second_byte
    rw [htcProcessCreditRpt, word_bind, creditReports_succ, hep]
    by_cases hbad : (m.data p).toNat ≥ endpointMax
    · rw [if_pos hbad, takeWhile_cons_of_neg (by simpa using hbad)]
      exact applies_bind hread fun _ => applies_pure ()
    · rw [if_neg hbad, takeWhile_cons_of_pos (by simpa using hbad), word_bind, hcredits]
      refine applies_bind hread fun _ => applies_bind hread fun _ => ?_
      exact applies_bind (applies_creditEntry _ _) fun _ => ih (p + 4) (by omega) (by omega)

theorem creditReports_div (p len : Nat) :
    creditReports (m.bytesAt p (4 * (len / 4))) = creditReports (m.bytesAt p len) := by
  obtain ⟨n, r, hr, rfl⟩ : ∃ n r, r < 4 ∧ len = 4 * n + r :=
    ⟨len / 4, len % 4, Nat.mod_lt _ (by decide), (Nat.div_add_mod len 4).symm⟩
  rw [show (4 * n + r) / 4 = n by omega]
  induction n generalizing p with
  | zero =>
    match r, hr with
    | 0, _ | 1, _ | 2, _ | 3, _ => rfl
  | succ n ih =>
    rw [creditReports_succ, ih (p + 4), show 4 * (n + 1) + r = 4 + (4 * n + r) by omega,
      bytesAt_four_add]
    rfl

/-! ### Records -/

theorem applies_record (r : TrailerRecord) {p : Nat} (hbody : m.bytesAt p r.body.length = r.body)
    (hlo : lo ≤ p) (hhi : p + r.body.length ≤ hi) :
    Applies cfg lo hi (htcProcessRecord cfg m r.id.toNat r.body.length p) r.applied := by
  rw [htcProcessRecord, TrailerRecord.applied, TrailerRecord.reports, when]
  split
  · have hreports := creditReports_div (m := m) p r.body.length
    rw [hbody] at hreports
    rw [← hreports, htcCreditReportSize]
    exact applies_creditRpt _ p hlo (by omega)
  · exact applies_pure ()

theorem bytesAt_record {r : TrailerRecord} {tail : List UInt8} {p len : Nat}
    (h : m.bytesAt p len = r.bytes ++ tail) :
    ∃ k, len = 4 + (r.body.length + k) ∧ m.data p = r.id
      ∧ m.data (p + 1) = UInt8.ofNat r.body.length ∧ m.bytesAt (p + 4) r.body.length = r.body
      ∧ m.bytesAt (p + 4 + r.body.length) k = tail := by
  have hlen := congrArg length h
  rw [length_bytesAt, length_append, TrailerRecord.bytes] at hlen
  simp only [length_cons] at hlen
  refine ⟨tail.length, by omega, ?_⟩
  rw [show len = 4 + (r.body.length + tail.length) by omega, bytesAt_four_add, bytesAt_add,
    TrailerRecord.bytes] at h
  simp only [cons_append, cons.injEq] at h
  obtain ⟨hid, hn, -, -, hrest⟩ := h
  obtain ⟨hbody, htail⟩ := append_inj hrest length_bytesAt
  exact ⟨hid, hn, hbody, htail⟩

theorem cutOff_bytesAt {p len : Nat} (h : CutOff (m.bytesAt p len)) :
    len ≠ 0 ∧ (4 ≤ len → len - 4 < (m.data (p + 1)).toNat) := by
  refine ⟨?_, fun hlen => ?_⟩
  · rintro rfl
    exact h
  · obtain ⟨k, rfl⟩ := Nat.exists_eq_add_of_le hlen
    rw [bytesAt_four_add] at h
    change (m.bytesAt (p + 4) k).length < _ at h
    rw [length_bytesAt] at h
    omega

/-! ### The loop -/

/-- The loop applies the whole records, and fails if there is a rest. -/
structure LoopRight (cfg : RecvCfg) (lo hi : Nat) (x : Recv (Option AStatus))
    (records : List TrailerRecord) (rest : List UInt8) : Prop where
  applies : Applies cfg lo hi x (records.flatMap TrailerRecord.applied)
  status : ∀ s, (x s).1 = some (if rest = [] then .ok else .eproto)

theorem trailerLoop_end {rest : List UInt8} {rounds p len : Nat} (hbytes : m.bytesAt p len = rest)
    (hrest : rest = [] ∨ CutOff rest) (hlo : lo ≤ p) (hhi : p + len ≤ hi) :
    LoopRight cfg lo hi (trailerLoop cfg m (rounds + 1) p len) [] rest := by
  rw [trailerLoop]
  rcases hrest with rfl | hcut
  · have hlen : len = 0 := by simpa using congrArg length hbytes
    rw [if_pos hlen]
    exact ⟨applies_pure _, fun _ => rfl⟩
  · have hne : rest ≠ [] := by
      rintro rfl
      exact hcut
    rw [← hbytes] at hcut
    obtain ⟨hlen, hlong⟩ := cutOff_bytesAt hcut
    have hstatus : (if rest = [] then AStatus.ok else .eproto) = .eproto := if_neg hne
    rw [if_neg hlen]
    split
    · exact ⟨applies_pure _, fun _ => congrArg some hstatus.symm⟩
    · next hhdr =>
      have hread : Applies cfg lo hi (emit (.read p 4)) [] :=
        applies_read hlo (by rw [htcRecordHdrSize] at hhdr; omega)
      have hrec : htcRecordHdrLength (littleEndian (m.bytesAt p 4))
          = (m.data (p + 1)).toNat := word_second_byte
      have hcut' : (m.data (p + 1)).toNat > len - htcRecordHdrSize := hlong (Nat.not_lt.1 hhdr)
      rw [word_bind, word_bind, hrec]
      rw [if_pos hcut']
      refine ⟨?_, fun _ => congrArg some hstatus.symm⟩
      exact applies_bind hread fun _ => applies_bind hread fun _ => applies_pure _

theorem trailerLoop_right {records : List TrailerRecord} {rest : List UInt8} {rounds p len : Nat}
    (hbytes : m.bytesAt p len = records.flatMap TrailerRecord.bytes ++ rest)
    (hrest : rest = [] ∨ CutOff rest) (hrounds : len < rounds) (hlo : lo ≤ p) (hhi : p + len ≤ hi) :
    LoopRight cfg lo hi (trailerLoop cfg m rounds p len) records rest := by
  induction records generalizing rounds p len with
  | nil =>
    obtain ⟨rounds, rfl⟩ := Nat.exists_eq_succ_of_ne_zero (Nat.ne_zero_of_lt hrounds)
    exact trailerLoop_end hbytes hrest hlo hhi
  | cons r records ih =>
    obtain ⟨rounds, rfl⟩ := Nat.exists_eq_succ_of_ne_zero (Nat.ne_zero_of_lt hrounds)
    rw [flatMap_cons, append_assoc] at hbytes
    obtain ⟨k, rfl, hid, hn, hbody, htail⟩ := bytesAt_record hbytes
    have hread : Applies cfg lo hi (emit (.read p 4)) [] := applies_read hlo (by omega)
    have hrec : htcRecordHdrLength (littleEndian (m.bytesAt p 4)) = r.body.length := by
      rw [htcRecordHdrLength, word_second_byte, hn, UInt8.toNat_ofNat_of_lt' r.length_lt]
    have hrid : htcRecordHdrRecordId (littleEndian (m.bytesAt p 4)) = r.id.toNat := by
      rw [htcRecordHdrRecordId, word_low_byte, hid]
    have hnext : LoopRight cfg lo hi
        (trailerLoop cfg m rounds (p + 4 + r.body.length) k) records rest :=
      ih htail (by omega) (by omega) (by omega)
    have hrecord : Applies cfg lo hi (htcProcessRecord cfg m r.id.toNat r.body.length (p + 4))
        r.applied := applies_record r hbody (by omega) (by omega)
    have hk : 4 + (r.body.length + k) - htcRecordHdrSize - r.body.length = k := by
      rw [htcRecordHdrSize]
      omega
    rw [trailerLoop, if_neg (by omega), if_neg (by rw [htcRecordHdrSize]; omega), word_bind,
      word_bind, hrec, hrid]
    rw [if_neg (by rw [htcRecordHdrSize]; omega), hk]
    have happlies := applies_bind hread fun _ => applies_bind hread fun _ =>
      applies_bind hrecord fun _ => hnext.applies
    exact ⟨happlies, fun _ => hnext.status _⟩

end

/-! ### Every string of bytes is a trailer -/

theorem record_or_cutOff : ∀ l : List UInt8, l ≠ [] →
    CutOff l ∨ ∃ (r : TrailerRecord) (tail : List UInt8), l = r.bytes ++ tail
  | [], h => absurd rfl h
  | [_], _ | [_, _], _ | [_, _, _], _ => Or.inl trivial
  | id :: length :: a :: b :: body, _ => by
    by_cases hcut : body.length < length.toNat
    · exact Or.inl hcut
    · have hlen : (body.take length.toNat).length = length.toNat :=
        length_take_of_le (Nat.not_lt.1 hcut)
      refine Or.inr ⟨⟨id, (a, b), body.take length.toNat, by rw [hlen]; exact length.toNat_lt⟩,
        body.drop length.toNat, ?_⟩
      change _ = id :: UInt8.ofNat (body.take length.toNat).length :: a :: b
        :: (body.take length.toNat ++ body.drop length.toNat)
      rw [hlen, UInt8.ofNat_toNat, take_append_drop]

theorem exists_trailer (l : List UInt8) : ∃ t : Trailer, t.bytes = l := by
  induction hn : l.length using Nat.strong_induction_on generalizing l with
  | _ n ih =>
    by_cases hnil : l = []
    · exact ⟨⟨[], [], Or.inl rfl⟩, hnil.symm⟩
    · rcases record_or_cutOff l hnil with hcut | ⟨r, tail, rfl⟩
      · exact ⟨⟨[], l, Or.inr hcut⟩, rfl⟩
      · have hlt : tail.length < n := by
          rw [← hn, length_append, TrailerRecord.bytes]
          simp only [length_cons]
          omega
        obtain ⟨t, rfl⟩ := ih _ hlt tail rfl
        exact ⟨⟨r :: t.records, t.rest, t.rest_cutOff⟩, append_assoc _ _ _⟩

/-! ### Main results -/

/-- **What is to hold of a call.**  It returns, having read inside the trailer only and applied the given entries in order; and it fails exactly if the trailer ends in a rest. -/
structure TrailerRight (cfg : RecvCfg) (m : RxNetbuf) (pBuffer length : Nat) (t : Trailer)
    (entries : List (Nat × Nat)) : Prop where
  applies : Applies cfg pBuffer (pBuffer + length) (htcProcessTrailer cfg m pBuffer length) entries
  status : ∀ s, (htcProcessTrailer cfg m pBuffer length s).1
    = some (if t.rest = [] then .ok else .eproto)

theorem processTrailer_right {cfg : RecvCfg} {m : RxNetbuf} {pBuffer length : Nat} {t : Trailer}
    (ht : t.bytes = m.bytesAt pBuffer length) :
    TrailerRight cfg m pBuffer length t (t.records.flatMap TrailerRecord.applied) := by
  have hloop : LoopRight cfg pBuffer (pBuffer + length)
      (trailerLoop cfg m (length + 1) pBuffer length) t.records t.rest :=
    trailerLoop_right ht.symm t.rest_cutOff (Nat.lt_succ_self _) le_rfl le_rfl
  have hdump : Applies cfg pBuffer (pBuffer + length) (emit (.read pBuffer length)) [] :=
    applies_read le_rfl le_rfl
  refine ⟨?_, fun s => hloop.status _⟩
  have hafter : ∀ status, Applies cfg pBuffer (pBuffer + length)
      (when (status ≠ some .ok ∧ cfg.wlanDebug = true) (emit (.read pBuffer length)) >>= fun _ =>
        pure status : Recv (Option AStatus)) [] :=
    fun status => applies_bind (applies_when hdump) fun _ => applies_pure status
  have hall := applies_bind (applies_when (c := cfg.debugRecv = true) hdump) fun _ =>
    applies_bind hloop.applies hafter
  rwa [nil_append, append_nil] at hall

/-- **A trailer is parsed exactly and safely.**  Every string of bytes is a trailer, and for all
trailers `HTCProcessTrailer` returns, reads inside the trailer only, and applies the entries of
its whole credit records in order, each to the endpoint it names, up to the first entry of a
record whose endpoint does not exist; it fails exactly if the trailer ends in a rest. -/
theorem htc_trailer_right (cfg : RecvCfg) (m : RxNetbuf) (pBuffer length : Nat) :
    (∃ t : Trailer, t.bytes = m.bytesAt pBuffer length) ∧
      ∀ t : Trailer, t.bytes = m.bytesAt pBuffer length →
        TrailerRight cfg m pBuffer length t (t.records.flatMap TrailerRecord.applied) :=
  ⟨exists_trailer _, fun _ => processTrailer_right⟩

def netbufOf (l : List UInt8) : RxNetbuf := ⟨fun i => l[i]?.getD 0, l.length⟩

/-- A device whose endpoints have nothing to send. -/
def quietCfg : RecvCfg where
  wlanDebug := false
  debugRecv := false
  panicOnBug := false
  ath11acTxcompact := true
  serviceId _ := .other
  ulIsPolled _ := false
  epRecv _ := true
  htcTrySend _ tx := tx
  htcSendDataPkt tx := tx
  htcSendCompleteCheck _ tx := tx

/-- A credit record with a report for endpoint 9, which does not exist, and one for endpoint 2. -/
def straySecond : TrailerRecord := ⟨1, (0, 0), [9, 1, 0, 0, 2, 5, 0, 0], by decide⟩

theorem straySecond_lost : ¬ ∀ (cfg : RecvCfg) (m : RxNetbuf) (pBuffer length : Nat) (t : Trailer),
    t.bytes = m.bytesAt pBuffer length → TrailerRight cfg m pBuffer length t
      (t.records.flatMap fun r => r.reports.filter fun e => e.1 < endpointMax) := by
  intro h
  have hright := h quietCfg (netbufOf straySecond.bytes) 0 12 ⟨[straySecond], [], Or.inl rfl⟩
    (by decide)
  have hadded := hright.applies.added ⟨⟨fun _ => 0, fun _ => 0⟩, false, 0⟩
  exact absurd hadded (by decide)

/-- A credit record with a report for endpoint 2. -/
def oneReport : TrailerRecord := ⟨1, (0, 0), [2, 5, 0, 0], by decide⟩

theorem htc_trailer_right_cutOff : TrailerRight quietCfg (netbufOf (oneReport.bytes ++ [7])) 0 9
    ⟨[oneReport], [7], Or.inr trivial⟩ [(2, 5)] :=
  (htc_trailer_right quietCfg (netbufOf (oneReport.bytes ++ [7])) 0 9).2
    ⟨[oneReport], [7], Or.inr trivial⟩ (by decide)

end Recv
end Qcacld.Htc

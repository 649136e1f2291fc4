import Qcacld.Htc.HtcTrailer

/-!
# Htc — HtcRxFrame

What becomes of a netbuf that HIF delivers.  `RxRight` says what is to hold of it, and `rx_framing_right` for which netbufs it does: the frame header and the id of a control message are read before it is known that they are there, the length of what an endpoint gets is taken from the netbuf and not from the header, and an endpoint without a callback leaves the netbuf behind.
-/

namespace Qcacld.Htc
open Qcacld.Support List Nat
open Qcacld.Support.Logged

/-! ### The header -/

namespace RxNetbuf

def htcEpId (m : RxNetbuf) : Nat := (m.data 0).toNat
def flags (m : RxNetbuf) : Nat := (m.data 1).toNat
def payloadLen (m : RxNetbuf) : Nat := littleEndian (m.bytesAt 2 2)
def controlBytes0 (m : RxNetbuf) : Nat := (m.data 4).toNat

def HasTrailer (m : RxNetbuf) : Prop := m.flags &&& htcFlagsRecvTrailer ≠ 0

instance (m : RxNetbuf) : Decidable m.HasTrailer := inferInstanceAs (Decidable (_ ≠ _))

def trailerLen (m : RxNetbuf) : Nat := if m.HasTrailer then m.controlBytes0 else 0

/-- A frame for no endpoint, or one whose payload is not all there. -/
def Bad (m : RxNetbuf) : Prop :=
  endpointMax ≤ m.htcEpId ∨ m.len < m.payloadLen + htcHdrLength

instance (m : RxNetbuf) : Decidable m.Bad := inferInstanceAs (Decidable (_ ∨ _))

/-- The trailer has room for a record and is in the payload. -/
def TrailerFits (m : RxNetbuf) : Prop :=
  htcRecordHdrSize ≤ m.controlBytes0 ∧ m.controlBytes0 ≤ m.payloadLen

instance (m : RxNetbuf) : Decidable m.TrailerFits := inferInstanceAs (Decidable (_ ∧ _))

def trailer (m : RxNetbuf) : List UInt8 :=
  m.bytesAt (htcHdrLength + m.payloadLen - m.controlBytes0) m.controlBytes0

/-- The trailer, if there is one, is made of whole records. -/
def TrailerOk (m : RxNetbuf) : Prop :=
  m.HasTrailer → m.TrailerFits ∧
    ∃ records : List Recv.TrailerRecord, m.trailer = records.flatMap Recv.TrailerRecord.bytes

/-- A good frame with something in front of its trailer. -/
def HasPayload (m : RxNetbuf) : Prop := ¬ m.Bad ∧ m.TrailerOk ∧ m.trailerLen < m.payloadLen

end RxNetbuf

namespace Recv

/-! ### What is to hold -/

def Inside (len : Nat) : RecvAction → Prop
  | .read offset bytes => offset + bytes ≤ len
  | _ => True

/-- The netbuf is freed, or given to an endpoint. -/
def disposes : RecvAction → Bool
  | .free | .epRecv .. => true
  | _ => false

/-- **What is to hold of a netbuf.**  Nothing is read behind its end; and unless the machine is stopped by `VOS_BUG` it is freed once, or given once to an endpoint, with the bytes of the payload in front of the trailer. -/
structure RxRight (cfg : RecvCfg) (m : RxNetbuf) (s : RecvState) : Prop where
  inside : ∀ e ∈ (htcRxCompletionHandler cfg m).log s, Inside m.len e
  disposed : (htcRxCompletionHandler cfg m s).1 = .stopped ∨
    ((htcRxCompletionHandler cfg m).log s).filter disposes = [.free] ∨
    ((htcRxCompletionHandler cfg m).log s).filter disposes
      = [.epRecv m.htcEpId (m.bytesAt htcHdrLength (m.payloadLen - m.trailerLen))]

/-- When it holds: the words that are read unseen are there, the endpoint has a callback, and the netbuf ends where the payload does. -/
structure RxOk (cfg : RecvCfg) (m : RxNetbuf) (s : RecvState) : Prop where
  header : 4 ≤ m.len
  dumped : m.Bad → cfg.wlanDebug = true → htcHdrLength ≤ m.len
  control : m.HasPayload → m.htcEpId = endpoint0 → htcHdrLength + 4 ≤ m.len
  exact : m.HasPayload → m.htcEpId ≠ endpoint0 → s.packetPool ≠ 0 →
    cfg.epRecv m.htcEpId = true ∧ m.len = m.payloadLen + htcHdrLength

/-! ### Bodies -/

/-- What is to hold of a body that is left in some way: a netbuf that is still held has not been disposed of. -/
def ExitRight (m : RxNetbuf) (l : List RecvAction) : RxExit → Prop
  | .stopped => True
  | .held _ => l.filter disposes = []
  | .taken _ => l.filter disposes = [.free] ∨
      l.filter disposes = [.epRecv m.htcEpId (m.bytesAt htcHdrLength (m.payloadLen - m.trailerLen))]

/-- A body after which what is to hold of the netbuf does. -/
def BodyRight (m : RxNetbuf) (x : Recv RxExit) (s : RecvState) : Prop :=
  (∀ e ∈ x.log s, Inside m.len e) ∧ ExitRight m (x.log s) (x s).1

section
variable {cfg : RecvCfg} {m : RxNetbuf} {s : RecvState} {α : Type}

theorem handler_log : (htcRxCompletionHandler cfg m).log s
    = (rxBody cfg m).log s ++ (if (rxBody cfg m s).1 matches .held _ then [.free] else []) := by
  have hlog : (htcRxCompletionHandler cfg m).log s = (rxBody cfg m).log s ++
      ((when ((rxBody cfg m s).1 matches .held _) (emit .free)).log (rxBody cfg m s).2.1 ++ []) := rfl
  rw [hlog, append_nil, when]
  split <;> rfl

theorem filter_append_free (l : List RecvAction) :
    (l ++ [RecvAction.free]).filter disposes = l.filter disposes ++ [.free] :=
  filter_append ..

/-- A log that ends in a free has no other entry of its kind exactly if there was none before. -/
theorem freed_last_iff (l : List RecvAction) (ep : Nat) (bytes : List UInt8) :
    ((l ++ [RecvAction.free]).filter disposes = [.free] ∨
      (l ++ [RecvAction.free]).filter disposes = [.epRecv ep bytes]) ↔ l.filter disposes = [] := by
  rw [filter_append_free]
  cases l.filter disposes with
  | nil => exact iff_of_true (Or.inl rfl) rfl
  | cons e l' => simp

theorem rxRight_iff : RxRight cfg m s ↔ BodyRight m (rxBody cfg m) s := by
  have hexit : (htcRxCompletionHandler cfg m s).1 = (rxBody cfg m s).1 := rfl
  have hlog : (htcRxCompletionHandler cfg m).log s = _ := handler_log
  rw [BodyRight]
  cases hbody : (rxBody cfg m s).1 with
  | stopped =>
    rw [hbody] at hexit hlog
    rw [if_neg (by decide), append_nil] at hlog
    exact ⟨fun h => ⟨hlog ▸ h.inside, trivial⟩, fun h => ⟨hlog ▸ h.1, Or.inl hexit⟩⟩
  | held status =>
    rw [hbody] at hexit hlog
    rw [if_pos rfl] at hlog
    have hne : (htcRxCompletionHandler cfg m s).1 ≠ .stopped := fun h => nomatch hexit.symm.trans h
    constructor
    · intro h
      have hdisposed := h.disposed.resolve_left hne
      rw [hlog] at hdisposed
      refine ⟨fun e he => h.inside e ?_, (freed_last_iff _ _ _).1 hdisposed⟩
      exact hlog ▸ mem_append_left _ he
    · intro h
      refine ⟨fun e he => ?_, Or.inr (hlog ▸ (freed_last_iff _ _ _).2 h.2)⟩
      rw [hlog] at he
      rcases mem_append.1 he with he | he
      · exact h.1 e he
      · rw [mem_singleton.1 he]
        trivial
  | taken status =>
    rw [hbody] at hexit hlog
    rw [if_neg (by simp), append_nil] at hlog
    have hne : (htcRxCompletionHandler cfg m s).1 ≠ .stopped := fun h => nomatch hexit.symm.trans h
    constructor
    · exact fun h => ⟨hlog ▸ h.inside, hlog ▸ h.disposed.resolve_left hne⟩
    · exact fun h => ⟨hlog ▸ h.1, Or.inr (hlog ▸ h.2)⟩

theorem bodyRight_bind {y : Recv α} {f : α → Recv RxExit}
    (hy : ∀ e ∈ y.log s, disposes e = false) : BodyRight m (y >>= f) s ↔
      (∀ e ∈ y.log s, Inside m.len e) ∧ BodyRight m (f (y s).1) (y s).2.1 := by
  have hnone : (y.log s).filter disposes = [] :=
    filter_eq_nil_iff.2 fun e he => by rw [hy e he]; exact Bool.false_ne_true
  have hfilter : ((y >>= f).log s).filter disposes
      = ((f (y s).1).log (y s).2.1).filter disposes := by
    rw [log_bind, filter_append, hnone, nil_append]
  have hexit : ExitRight m ((y >>= f).log s) ((y >>= f) s).1
      ↔ ExitRight m ((f (y s).1).log (y s).2.1) (f (y s).1 (y s).2.1).1 := by
    cases (f (y s).1 (y s).2.1).1 with
    | stopped => exact Iff.rfl
    | held => rw [ExitRight, ExitRight, hfilter]
    | taken => rw [ExitRight, ExitRight, hfilter]
  rw [BodyRight, BodyRight, hexit, log_bind, ← and_assoc]
  refine and_congr_left fun _ => ?_
  simp [or_imp, forall_and]

theorem bodyRight_pure {status : AStatus} : BodyRight m (pure (.held status)) s :=
  ⟨fun _ he => (nomatch he), rfl⟩

theorem bodyRight_read {offset n : Nat} {f : Unit → Recv RxExit} :
    BodyRight m (emit (.read offset n) >>= f) s ↔ offset + n ≤ m.len ∧ BodyRight m (f ()) s := by
  rw [bodyRight_bind fun e he => by rw [mem_singleton.1 he]; rfl]
  refine and_congr_left fun _ => ?_
  simp [Inside]

theorem bodyRight_word {offset : Nat} {f : Nat → Recv RxExit} : BodyRight m (word m offset >>= f) s
    ↔ offset + 4 ≤ m.len ∧ BodyRight m (f (littleEndian (m.bytesAt offset 4))) s := by
  rw [word_bind, bodyRight_read]

theorem bodyRight_emit (e : RecvAction) {f : Unit → Recv RxExit} (hd : disposes e = false)
    (hi : Inside m.len e) (hf : BodyRight m (f ()) s) : BodyRight m (emit e >>= f) s := by
  rw [bodyRight_bind fun e' he => by rw [mem_singleton.1 he, hd]]
  refine ⟨fun e' he => ?_, hf⟩
  rw [mem_singleton.1 he]
  exact hi

theorem bodyRight_free {status : AStatus} :
    BodyRight m (emit .free >>= fun _ => pure (.taken status)) s :=
  ⟨fun e he => by cases mem_singleton.1 he; trivial, Or.inl rfl⟩

/-! ### The ways through the body -/

theorem bodyRight_vosBug {status : AStatus} : BodyRight m (vosBug cfg (.held status)) s := by
  refine ⟨fun e he => ?_, ?_⟩
  · cases mem_singleton.1 he
    trivial
  · change ExitRight m [.vosBug] (if cfg.panicOnBug then .stopped else .held status)
    split
    · trivial
    · rfl

theorem bodyRight_badFrame :
    BodyRight m (badFrame cfg) s ↔ (cfg.wlanDebug = true → htcHdrLength ≤ m.len) := by
  rw [badFrame, when]
  split
  · next hdebug =>
    rw [bodyRight_read, zero_add]
    exact ⟨fun h _ => h.1, fun h => ⟨h hdebug, bodyRight_vosBug⟩⟩
  · next hdebug => exact iff_of_true bodyRight_vosBug fun h => absurd h hdebug

theorem bodyRight_busy : BodyRight m (vosBug cfg (.taken .error) >>= fun exit =>
    when (exit ≠ .stopped) (emit .free) >>= fun _ => pure exit) s := by
  have hlog : ∀ e ∈ (vosBug cfg (.taken .error)).log s, e = .vosBug := fun e he =>
    mem_singleton.1 he
  rw [bodyRight_bind fun e he => by rw [hlog e he]; rfl]
  refine ⟨fun e he => by rw [hlog e he]; trivial, ?_⟩
  change BodyRight m (let exit := if cfg.panicOnBug then RxExit.stopped else .taken .error
    when (exit ≠ .stopped) (emit .free) >>= fun _ => pure exit) s
  cases cfg.panicOnBug with
  | false => exact bodyRight_free
  | true => exact ⟨fun _ he => (nomatch he), trivial⟩

theorem bodyRight_controlMessage :
    BodyRight m (controlMessage cfg m) s ↔ htcHdrLength + 4 ≤ m.len := by
  rw [controlMessage, bodyRight_word, and_iff_left_iff_imp]
  intro _
  dsimp only
  split
  · refine bodyRight_emit (.targetSendSuspendComplete false) rfl trivial ?_
    exact bodyRight_emit .htcSuspendWow rfl trivial bodyRight_free
  · split
    · exact bodyRight_emit (.targetSendSuspendComplete true) rfl trivial bodyRight_free
    · change BodyRight m (if s.ctrlResponseProcessing then _ else _) s
      split
      · exact bodyRight_busy
      · refine bodyRight_read.2 ⟨by omega, bodyRight_emit (.ctrlResponse _) rfl trivial ?_⟩
        exact bodyRight_free

theorem bytesAt_inj {offset n k : Nat} : m.bytesAt offset n = m.bytesAt offset k ↔ n = k :=
  ⟨fun h => by simpa using congrArg length h, congrArg _⟩

theorem bodyRight_endpointPacket (hlen : m.payloadLen + htcHdrLength ≤ m.len)
    (htrailer : m.trailerLen < m.payloadLen) :
    BodyRight m (endpointPacket cfg m m.htcEpId m.trailerLen) s ↔ (s.packetPool ≠ 0 →
      cfg.epRecv m.htcEpId = true ∧ m.len = m.payloadLen + htcHdrLength) := by
  change BodyRight m (if s.packetPool = 0 then _ else _) s ↔ _
  split
  · next hpool => exact iff_of_true bodyRight_pure fun h => absurd hpool h
  · next hpool =>
    rw [imp_iff_right hpool, when]
    split
    · next hrecv =>
      rw [and_iff_right hrecv]
      have hlens : m.len - htcHdrLength - m.trailerLen = m.payloadLen - m.trailerLen
          ↔ m.len = m.payloadLen + htcHdrLength := by
        obtain ⟨k, hk⟩ := Nat.exists_eq_add_of_le hlen
        rw [hk]
        omega
      rw [← hlens]
      constructor
      · intro h
        rcases h.2 with h | h
        · cases h
        · exact bytesAt_inj.1 (RecvAction.epRecv.inj (cons.inj h).1).2
      · intro h
        rw [h]
        exact ⟨fun e he => by cases mem_singleton.1 he; trivial, Or.inr rfl⟩
    · next hrecv =>
      refine iff_of_false (fun h => ?_) fun h => hrecv h.1
      rcases h.2 with h | h <;> cases h

/-! ### The fields of the header -/

theorem frameHdr_epId : htcFrameHdrEndpointId (littleEndian (m.bytesAt 0 4)) = m.htcEpId :=
  word_low_byte

theorem frameHdr_flags : htcFrameHdrFlags (littleEndian (m.bytesAt 0 4)) = m.flags :=
  word_second_byte

theorem frameHdr_payloadLen : htcFrameHdrPayloadLen (littleEndian (m.bytesAt 0 4)) = m.payloadLen :=
  word_high_half

theorem frameHdr_controlBytes0 :
    htcFrameHdrControlBytes0 (littleEndian (m.bytesAt 4 4)) = m.controlBytes0 :=
  word_low_byte

/-- What is left of the conditions when there is a payload in front of the trailer. -/
def PayloadOk (cfg : RecvCfg) (m : RxNetbuf) (s : RecvState) : Prop :=
  m.trailerLen < m.payloadLen → (m.htcEpId = endpoint0 → htcHdrLength + 4 ≤ m.len) ∧
    (m.htcEpId ≠ endpoint0 → s.packetPool ≠ 0 →
      cfg.epRecv m.htcEpId = true ∧ m.len = m.payloadLen + htcHdrLength)

theorem bodyRight_rxPayload (hlen : m.payloadLen + htcHdrLength ≤ m.len) :
    BodyRight m (rxPayload cfg m m.htcEpId m.payloadLen m.trailerLen) s ↔ PayloadOk cfg m s := by
  rw [rxPayload, PayloadOk]
  split
  · next hnone => exact iff_of_true bodyRight_pure fun h => absurd hnone (not_le.2 h)
  · next hsome =>
    rw [imp_iff_right (not_le.1 hsome)]
    split
    · next hep => rw [bodyRight_controlMessage, imp_iff_right hep, and_iff_left fun h => absurd hep h]
    · next hep =>
      rw [bodyRight_endpointPacket hlen (not_le.1 hsome), imp_iff_right hep,
        and_iff_right fun h => absurd h hep]

theorem Within.inside {lo hi len : Nat} {e : RecvAction} (h : Within lo hi e) (hhi : hi ≤ len) :
    Inside len e := by
  cases e with
  | read offset bytes => exact h.2.trans hhi
  | _ => trivial

theorem Within.not_disposes {lo hi : Nat} {e : RecvAction} (h : Within lo hi e) :
    disposes e = false := by
  cases e with
  | free | epRecv => exact h.elim
  | _ => rfl

theorem bodyRight_trailer (hlen : m.payloadLen + htcHdrLength ≤ m.len) (hfits : m.TrailerFits)
    (htrailer : m.trailerLen = m.controlBytes0) {t : Trailer} (ht : t.bytes = m.trailer) :
    BodyRight m (htcProcessTrailer cfg m (htcHdrLength + m.payloadLen - m.controlBytes0)
        m.controlBytes0 >>= fun status =>
      if status = some .ok then rxPayload cfg m m.htcEpId m.payloadLen m.controlBytes0
      else pure (.held (status.getD .error))) s ↔ (t.rest = [] → PayloadOk cfg m s) := by
  have hright : TrailerRight cfg m _ _ t (t.records.flatMap TrailerRecord.applied) :=
    processTrailer_right ht
  have hwithin := hright.applies.within s
  have hend : htcHdrLength + m.payloadLen - m.controlBytes0 + m.controlBytes0 ≤ m.len := by
    have hfit := hfits.2
    omega
  rw [bodyRight_bind fun e he => (hwithin e he).not_disposes, hright.status, hright.applies.state,
    and_iff_right fun e he => (hwithin e he).inside hend]
  by_cases hrest : t.rest = []
  · rw [if_pos hrest, if_pos rfl, ← htrailer, bodyRight_rxPayload hlen, imp_iff_right hrest]
    exact Iff.rfl
  · rw [if_neg hrest, if_neg (by simp)]
    exact iff_of_true bodyRight_pure fun h => absurd h hrest

theorem bodyRight_rxFrame (hlen : m.payloadLen + htcHdrLength ≤ m.len) :
    BodyRight m (rxFrame cfg m m.htcEpId m.payloadLen) s ↔ (m.TrailerOk → PayloadOk cfg m s) := by
  have hhdr : 0 + 4 ≤ m.len := by rw [htcHdrLength] at hlen; omega
  have hcontrol : 4 + 4 ≤ m.len := by rw [htcHdrLength] at hlen; omega
  rw [rxFrame, bodyRight_word, and_iff_right hhdr, frameHdr_flags]
  by_cases htrailer : m.HasTrailer
  · rw [if_neg htrailer, bodyRight_word, and_iff_right hcontrol, frameHdr_controlBytes0]
    have htl : m.trailerLen = m.controlBytes0 := if_pos htrailer
    by_cases hfits : m.TrailerFits
    · rw [if_neg (by have h := hfits.1; have h' := hfits.2; omega)]
      by_cases hwhole : ∃ records : List TrailerRecord,
          m.trailer = records.flatMap TrailerRecord.bytes
      · obtain ⟨records, hrecords⟩ := hwhole
        have ht : (⟨records, [], Or.inl rfl⟩ : Trailer).bytes = m.trailer :=
          (append_nil _).trans hrecords.symm
        have hok : m.TrailerOk := fun _ => ⟨hfits, records, hrecords⟩
        rw [bodyRight_trailer hlen hfits htl ht, imp_iff_right rfl, imp_iff_right hok]
      · obtain ⟨t, ht⟩ := exists_trailer m.trailer
        have hrest : t.rest ≠ [] := fun h => hwhole ⟨t.records, by
          rw [← ht, Trailer.bytes, h, append_nil]⟩
        rw [bodyRight_trailer hlen hfits htl ht]
        exact iff_of_true (fun h => absurd h hrest) fun h => absurd (h htrailer).2 hwhole
    · rw [if_pos (by rw [RxNetbuf.TrailerFits] at hfits; omega)]
      exact iff_of_true bodyRight_pure fun h => absurd (h htrailer).1 hfits
  · have hflag : m.flags &&& htcFlagsRecvTrailer = 0 := not_not.1 htrailer
    have htl : m.trailerLen = 0 := if_neg htrailer
    have hok : m.TrailerOk := fun h => absurd h htrailer
    rw [if_pos hflag, ← htl, bodyRight_rxPayload hlen, imp_iff_right hok]

/-! ### Main results -/

theorem rxOk_bad (hhdr : 4 ≤ m.len) (hbad : m.Bad) :
    RxOk cfg m s ↔ (cfg.wlanDebug = true → htcHdrLength ≤ m.len) :=
  ⟨fun h => h.dumped hbad, fun h =>
    ⟨hhdr, fun _ => h, fun hp => absurd hbad hp.1, fun hp => absurd hbad hp.1⟩⟩

theorem rxOk_good (hhdr : 4 ≤ m.len) (hgood : ¬ m.Bad) :
    RxOk cfg m s ↔ (m.TrailerOk → PayloadOk cfg m s) := by
  constructor
  · intro h hok hlt
    exact ⟨h.control ⟨hgood, hok, hlt⟩, h.exact ⟨hgood, hok, hlt⟩⟩
  · intro h
    exact ⟨hhdr, fun hbad => absurd hbad hgood, fun hp => (h hp.2.1 hp.2.2).1,
      fun hp => (h hp.2.1 hp.2.2).2⟩

theorem bodyRight_completeCheck {f : Unit → Recv RxExit} {P : Prop}
    (hf : ∀ tx, BodyRight m (f ()) { s with tx := tx } ↔ P) :
    BodyRight m (when (cfg.ulIsPolled m.htcEpId = true) (do
      emit (.htcSendCompleteCheck m.htcEpId)
      modifyTx (cfg.htcSendCompleteCheck m.htcEpId)) >>= f) s ↔ P := by
  rw [when]
  split
  · rw [bodyRight_bind fun e he => by cases mem_singleton.1 he; rfl, ← hf]
    refine and_iff_right fun e he => ?_
    cases mem_singleton.1 he
    trivial
  · exact hf s.tx

/-- A body is right exactly if the words it reads unseen are there, and its way through is. -/
theorem bodyRight_rxBody : BodyRight m (rxBody cfg m) s ↔ RxOk cfg m s := by
  rw [rxBody, bodyRight_word, frameHdr_epId]
  by_cases hhdr : 0 + 4 ≤ m.len
  · rw [and_iff_right hhdr]
    rw [zero_add] at hhdr
    by_cases hep : m.htcEpId ≥ endpointMax
    · rw [if_pos hep, bodyRight_badFrame, rxOk_bad hhdr (Or.inl hep)]
    · rw [if_neg hep, bodyRight_completeCheck fun tx => ?_]
      rw [bodyRight_word, and_iff_right (by omega), frameHdr_payloadLen]
      by_cases hshort : m.len < m.payloadLen + htcHdrLength
      · rw [if_pos hshort, bodyRight_badFrame, rxOk_bad hhdr (Or.inr hshort)]
      · have hgood : ¬ m.Bad := fun h => h.elim hep hshort
        rw [if_neg hshort, bodyRight_rxFrame (not_lt.1 hshort), rxOk_good hhdr hgood]
        exact Iff.rfl
  · exact iff_of_false (fun h => hhdr h.1) fun h => hhdr (by rw [zero_add]; exact h.header)

/-- **When a netbuf is framed right.**  For every netbuf, what is to hold does exactly if the
words that are read unseen are there, the endpoint that gets the payload has a callback, and the
netbuf ends where the payload does. -/
theorem rx_framing_right (cfg : RecvCfg) (m : RxNetbuf) (s : RecvState) :
    RxRight cfg m s ↔ RxOk cfg m s :=
  rxRight_iff.trans bodyRight_rxBody

end

/-- A frame for endpoint 1 whose payload is the first two of the four bytes behind its header. -/
def longNetbuf : RxNetbuf := netbufOf [1, 0, 2, 0, 0, 0, 0, 0, 0xa, 0xb, 0xc, 0xd]

theorem longNetbuf_notRight :
    ¬ ∀ (cfg : RecvCfg) (m : RxNetbuf) (s : RecvState), RxRight cfg m s := by
  intro h
  have hdisposed := (h quietCfg longNetbuf ⟨⟨fun _ => 0, fun _ => 0⟩, false, 1⟩).disposed
  exact absurd hdisposed (by decide)

end Recv
end Qcacld.Htc

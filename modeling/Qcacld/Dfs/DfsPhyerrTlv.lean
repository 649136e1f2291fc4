import Qcacld.Support.Bytes

/-!
# Dfs — DfsPhyerrTlv

`tlv_parse_frame`: the frame of a PHY error is a sequence of TLVs, each a header of four bytes and its payload; a radar summary and an FFT search report are copied out of it.

The check of the length leaves out the four bytes of the header, so the last TLV may reach up to three bytes behind the frame, and the reports are copied whole however short they are.  The parse is right exactly when no such TLV stands in the frame (`tlv_parse_iff`).
-/

namespace Qcacld.Dfs

open Qcacld.Support List Nat

/-! ### The reports -/

/-- `MS`: a field of a register. -/
def ms (v f s : UInt32) : UInt32 := (v &&& f) >>> s

def signExtend32 (v nb : UInt32) : Int32 :=
  let m : UInt32 := 1 <<< (nb - 1)
  let v := v &&& (v &&& ((1 <<< nb) - 1))
  ((v ^^^ m) - m).toInt32

/-- `calc_freq_offset`, which is called for oversampling. -/
def calcFreqOffset (sindex : Int32) : Int32 := sindex * (44000 / 128)

structure RxRadarStatus where
  tsfOffset : UInt32
  pulseDuration : Int32
  isChirp : Bool
  deltaPeak : Int32
  deltaDiff : Int32
  sidx : Int32
  freqOffset : Int32

structure RxSearchFftReport where
  totalGainDb : UInt32
  basePwrDb : UInt32
  fftChnIdx : Int32
  peakSidx : Int32
  relpwrDb : Int32
  avgpwrDb : Int32
  peakMag : Int32
  numStrBinsIb : Int32

/-- What the parse reads of `ath_dfs`, with the current channel. -/
structure TlvDfs where
  falseRssiThres : Int32
  peakMag : Int32
  freq : Int32
  freqSeg1 : Int32
  vht80 : Bool

/-- The register copied from `buf + i`. -/
def dword (buf : Nat → UInt8) (i : Nat) : UInt32 :=
  UInt32.ofNat (littleEndian [buf i, buf (i + 1), buf (i + 2), buf (i + 3)])

def radarSummaryParse (d : TlvDfs) (buf : Nat → UInt8) (i : Nat) : RxRadarStatus :=
  let rs0 := dword buf i
  let rs1 := dword buf (i + 4)
  let sidx := signExtend32 (ms rs0 0x3FF 0) 10
  let isChirp := ms rs0 0x80000000 31 ≠ 0
  let pulseDuration := (ms rs1 0xFF 0).toInt32
  { tsfOffset := ms rs1 0xFF00 8
    -- the workaround for FCC type 4
    pulseDuration := if d.vht80 ∧ (d.freq - d.freqSeg1).abs = 30 ∧ ¬isChirp ∧ sidx.abs ≤ 4 ∧
      pulseDuration > 20 then 20 else pulseDuration
    isChirp := isChirp
    deltaPeak := signExtend32 (ms rs0 0xFC00 10) 6
    deltaDiff := (ms rs0 0xF0000 16).toInt32
    sidx := sidx
    freqOffset := calcFreqOffset sidx }

def radarFftSearchReportParse (buf : Nat → UInt8) (i : Nat) : RxSearchFftReport :=
  let rs0 := dword buf i
  let rs1 := dword buf (i + 4)
  { totalGainDb := ms rs0 0xFF800000 23
    basePwrDb := ms rs0 0x7FC000 14
    fftChnIdx := (ms rs0 0x3000 12).toInt32
    peakSidx := signExtend32 (ms rs0 0xFFF 0) 12
    relpwrDb := (ms rs1 0xFC000000 26).toInt32
    avgpwrDb := (ms rs1 0x3FC0000 18).toInt32
    peakMag := (ms rs1 0x3FF00 8).toInt32
    numStrBinsIb := (ms rs1 0xFF 0).toInt32 }

/-! ### The frame -/

/-- A TLV, by the place of its payload. -/
structure Tlv where
  off : Nat
  sig : UInt32
  len : Nat

def Tlv.stop (t : Tlv) : Nat := t.off + t.len

def tagIdRadarPulseSummary : UInt32 := 0xF8

def tagIdSearchFftReport : UInt32 := 0xFB

def Tlv.IsReport (t : Tlv) : Prop := t.sig = tagIdRadarPulseSummary ∨ t.sig = tagIdSearchFftReport
deriving Decidable

def tlvAt (buf : Nat → UInt8) (i : Nat) : Tlv where
  off := i + 4
  sig := ms (dword buf i) 0xFF0000 16
  len := (ms (dword buf i) 0xFFFF 0).toNat

/-- `rs` and `rsfr`. -/
structure Reports where
  rs : RxRadarStatus
  rsfr : RxSearchFftReport

/-- The `switch` on the kind of TLV. -/
def store (d : TlvDfs) (buf : Nat → UInt8) (out : Reports) (t : Tlv) : Reports :=
  if t.sig = tagIdRadarPulseSummary then { out with rs := radarSummaryParse d buf t.off }
  else if t.sig = tagIdSearchFftReport then
    { out with rsfr := radarFftSearchReportParse buf t.off }
  else out

/-- The test for `false_detect` behind an FFT search report. -/
def SaysFalse (d : TlvDfs) (buf : Nat → UInt8) (rssi : UInt8) (t : Tlv) : Prop :=
  t.sig = tagIdSearchFftReport ∧ Int32.ofNat rssi.toNat = d.falseRssiThres ∧
    (radarFftSearchReportParse buf t.off).peakMag < 2 * d.peakMag
deriving Decidable

/-- The variables of the loop, with the reads of the frame and the TLVs gone through. -/
structure TlvParse where
  out : Reports
  falseDetect : Bool
  reads : List (Nat × Nat)
  parsed : List Tlv

/-- The places that are read for a TLV: its header, and two words of a report. -/
def Tlv.reads (t : Tlv) : List (Nat × Nat) :=
  (t.off - 4, 4) :: if t.IsReport then [(t.off, 8)] else []

def TlvParse.take (p : TlvParse) (d : TlvDfs) (buf : Nat → UInt8) (rssi : UInt8) (firstTlv : Bool)
    (t : Tlv) : TlvParse where
  out := store d buf p.out t
  falseDetect := p.falseDetect || (firstTlv && SaysFalse d buf rssi t)
  reads := p.reads ++ t.reads
  parsed := p.parsed ++ [t]

/-- The loop.  `datalen` has 16 bits, so `i` does not wrap. -/
def parseLoop (d : TlvDfs) (buf : Nat → UInt8) (len : Nat) (rssi : UInt8) (i : Nat)
    (firstTlv : Bool) (p : TlvParse) : Bool × TlvParse :=
  if i < len ∧ p.falseDetect = false then
    if len - i < 4 then (false, p)
    else if (tlvAt buf i).len + i ≥ len then (true, { p with reads := p.reads ++ [(i, 4)] })
    else parseLoop d buf len rssi (tlvAt buf i).stop false (p.take d buf rssi firstTlv (tlvAt buf i))
  else (!p.falseDetect, p)
termination_by len - i
decreasing_by simp only [tlvAt, Tlv.stop]; omega

def tlvParseFrame (d : TlvDfs) (out : Reports) (buf : Nat → UInt8) (len : Nat) (rssi : UInt8) :
    Bool × TlvParse :=
  parseLoop d buf len rssi 0 true ⟨out, false, [], []⟩

/-! ### What the parse is for -/

/-- The TLVs from `i` on that stand whole in the frame, up to the first that does not. -/
def wellFormed (buf : Nat → UInt8) (len i : Nat) : List Tlv :=
  if (tlvAt buf i).stop ≤ len then tlvAt buf i :: wellFormed buf len (tlvAt buf i).stop else []
termination_by len - i
decreasing_by simp only [tlvAt, Tlv.stop] at *; omega

/-- Where a sequence of TLVs from `i` on ends. -/
def endOf (i : Nat) (ts : List Tlv) : Nat := ts.foldl (fun _ t => t.stop) i

def FalseDetect (d : TlvDfs) (buf : Nat → UInt8) (len : Nat) (rssi : UInt8) : Prop :=
  (wellFormed buf len 0).head?.any (fun t => SaysFalse d buf rssi t) = true
deriving Decidable

/-- The TLVs to parse: a false detect ends the frame. -/
def frameTlvs (d : TlvDfs) (buf : Nat → UInt8) (len : Nat) (rssi : UInt8) : List Tlv :=
  if FalseDetect d buf len rssi then (wellFormed buf len 0).take 1 else wellFormed buf len 0

structure ParseRight (d : TlvDfs) (out : Reports) (buf : Nat → UInt8) (len : Nat) (rssi : UInt8)
    (p : TlvParse) : Prop where
  inside : ∀ r ∈ p.reads, r.1 + r.2 ≤ len
  enough : ∀ t ∈ p.parsed, t.IsReport → 8 ≤ t.len
  exactly : p.parsed = frameTlvs d buf len rssi
  stored : p.out = (frameTlvs d buf len rssi).foldl (store d buf) out
  falseDetect : p.falseDetect = true ↔ FalseDetect d buf len rssi

/-- The TLV at `i` passes the check of its length, and ends up to three bytes behind the frame. -/
def Overruns (buf : Nat → UInt8) (len i : Nat) : Prop :=
  i + 4 ≤ len ∧ i + (tlvAt buf i).len < len ∧ len < (tlvAt buf i).stop

structure FrameOk (d : TlvDfs) (buf : Nat → UInt8) (len : Nat) (rssi : UInt8) : Prop where
  reports : ∀ t ∈ frameTlvs d buf len rssi, t.IsReport → 8 ≤ t.len
  behind : FalseDetect d buf len rssi ∨ ¬Overruns buf len (endOf 0 (wellFormed buf len 0))

variable {d : TlvDfs} {out : Reports} {buf : Nat → UInt8} {len i : Nat} {rssi : UInt8}
  {firstTlv : Bool} {p : TlvParse} {t : Tlv} {ts pre : List Tlv}

/-! ### The loop -/

theorem wellFormed_of_le (h : (tlvAt buf i).stop ≤ len) :
    wellFormed buf len i = tlvAt buf i :: wellFormed buf len (tlvAt buf i).stop := by
  rw [wellFormed, if_pos h]

theorem wellFormed_of_not_le (h : ¬(tlvAt buf i).stop ≤ len) : wellFormed buf len i = [] := by
  rw [wellFormed, if_neg h]

/-- No TLV stands whole behind the well-formed prefix. -/
theorem not_le_endOf (i : Nat) : ¬(tlvAt buf (endOf i (wellFormed buf len i))).stop ≤ len := by
  fun_induction wellFormed buf len i with
  | case1 i h ih => exact ih
  | case2 i h => exact h

theorem stop_le_of_mem (h : t ∈ wellFormed buf len i) : 4 ≤ t.off ∧ t.stop ≤ len := by
  fun_induction wellFormed buf len i with
  | case1 i hle ih =>
    rcases mem_cons.1 h with rfl | h
    · exact ⟨le_add_left 4 i, hle⟩
    · exact ih h
  | case2 i hle => exact absurd h not_mem_nil

theorem parseLoop_stop (h : p.falseDetect = true) :
    parseLoop d buf len rssi i firstTlv p = (false, p) := by
  rw [parseLoop, if_neg (by simp [h]), h]
  rfl

/-- A TLV is taken when it stands in the frame, or overruns it. -/
theorem parseLoop_take (hp : p.falseDetect = false)
    (h : (tlvAt buf i).stop ≤ len ∨ Overruns buf len i) :
    parseLoop d buf len rssi i firstTlv p = parseLoop d buf len rssi (tlvAt buf i).stop false
          (p.take d buf rssi firstTlv (tlvAt buf i)) := by
  have hstop : (tlvAt buf i).stop = i + 4 + (tlvAt buf i).len := rfl
  have hlt : i + 4 ≤ len ∧ (tlvAt buf i).len + i < len := by
    rcases h with h | ⟨h4, h, -⟩ <;> omega
  rw [parseLoop, if_pos ⟨by omega, hp⟩, if_neg (by omega), if_neg (by omega)]

theorem parseLoop_overrun (hp : p.falseDetect = false) (h : Overruns buf len i) :
    (parseLoop d buf len rssi i firstTlv p).2 = p.take d buf rssi firstTlv (tlvAt buf i) := by
  rw [parseLoop_take hp (.inr h), parseLoop, if_neg (fun hlt => lt_asymm h.2.2 hlt.1)]

/-- Where no TLV is taken the loop ends, with a header read at most. -/
theorem parseLoop_end (hw : ¬(tlvAt buf i).stop ≤ len)
    (h : ¬Overruns buf len i) : ∃ r, (parseLoop d buf len rssi i firstTlv p).2
      = { p with reads := p.reads ++ r } ∧ ∀ x ∈ r, x.1 + x.2 ≤ len := by
  rw [parseLoop]
  split
  · next hi =>
    split
    · exact ⟨[], by simp, by simp⟩
    · next h4 =>
      have h4 : i + 4 ≤ len := by omega
      rw [if_pos (Nat.le_of_not_lt fun hlt => h ⟨h4, by omega, Nat.lt_of_not_le hw⟩)]
      exact ⟨[(i, 4)], rfl, by simpa using h4⟩
  · exact ⟨[], by simp, by simp⟩

/-- What has come of the TLVs `ts`. -/
structure Went (d : TlvDfs) (out : Reports) (buf : Nat → UInt8) (ts : List Tlv) (p : TlvParse) :
    Prop where
  out : p.out = ts.foldl (store d buf) out
  reads : p.reads = ts.flatMap Tlv.reads
  parsed : p.parsed = ts

theorem Went.take (h : Went d out buf ts p) :
    Went d out buf (ts ++ [t]) (p.take d buf rssi firstTlv t) where
  out := by rw [foldl_append, ← h.out]; rfl
  reads := by rw [flatMap_append, ← h.reads, flatMap_singleton]; rfl
  parsed := by rw [← h.parsed]; rfl

/-- The loop goes through the well-formed prefix; behind the first TLV nothing is a false detect. -/
theorem parseLoop_run (hp : p.falseDetect = false) (h : Went d out buf pre p) :
    ∃ p', parseLoop d buf len rssi i false p
        = parseLoop d buf len rssi (endOf i (wellFormed buf len i)) false p' ∧
      p'.falseDetect = false ∧ Went d out buf (pre ++ wellFormed buf len i) p' := by
  fun_induction wellFormed buf len i generalizing pre p with
  | case1 i hle ih =>
    obtain ⟨p', hrun, hp', hw⟩ := ih (p := p.take d buf rssi false (tlvAt buf i))
      (by rw [TlvParse.take, hp]; rfl) h.take
    refine ⟨p', (parseLoop_take hp (.inl hle)).trans hrun, hp', ?_⟩
    rwa [append_cons]
  | case2 i hle => exact ⟨p, rfl, hp, (append_nil pre).symm ▸ h⟩

/-! ### The frame -/

theorem inside_of_went (h : Went d out buf ts p) (hts : ∀ t ∈ ts, 4 ≤ t.off ∧ t.stop ≤ len)
    (henough : ∀ t ∈ ts, t.IsReport → 8 ≤ t.len) : ∀ r ∈ p.reads, r.1 + r.2 ≤ len := by
  intro r hr
  obtain ⟨t, ht, hr⟩ := mem_flatMap.1 (h.reads ▸ hr)
  obtain ⟨h4, hstop⟩ := hts t ht
  rw [Tlv.stop] at hstop
  rcases mem_cons.1 hr with rfl | hr
  · exact Nat.le_trans (Nat.le_of_eq (Nat.sub_add_cancel h4)) (by omega)
  · split at hr
    · next hrep =>
      obtain rfl := mem_singleton.1 hr
      exact Nat.le_trans (Nat.add_le_add_left (henough t ht hrep) _) hstop
    · exact absurd hr not_mem_nil

/-- At the end of the frame's TLVs the parse is right if none of their reports is short. -/
theorem right_of_went {r : List (Nat × Nat)} (h : Went d out buf (frameTlvs d buf len rssi) p)
    (hf : p.falseDetect = true ↔ FalseDetect d buf len rssi) (hr : ∀ x ∈ r, x.1 + x.2 ≤ len) :
    ParseRight d out buf len rssi { p with reads := p.reads ++ r } ↔
      ∀ t ∈ frameTlvs d buf len rssi, t.IsReport → 8 ≤ t.len := by
  have hts : ∀ t ∈ frameTlvs d buf len rssi, 4 ≤ t.off ∧ t.stop ≤ len := by
    intro t ht
    rw [frameTlvs] at ht
    split at ht
    · exact stop_le_of_mem (mem_of_mem_take ht)
    · exact stop_le_of_mem ht
  refine ⟨fun hright => h.parsed ▸ hright.enough, fun henough => ⟨?_, ?_, h.parsed, h.out, hf⟩⟩
  · intro x hx
    rcases mem_append.1 hx with hx | hx
    · exact inside_of_went h hts henough x hx
    · exact hr x hx
  · exact h.parsed ▸ henough

theorem falseDetect_iff (h : wellFormed buf len 0 = t :: ts) :
    FalseDetect d buf len rssi ↔ SaysFalse d buf rssi t := by
  rw [FalseDetect, h]
  exact decide_eq_true_iff

theorem went_nil : Went d out buf [] ⟨out, false, [], []⟩ := ⟨rfl, rfl, rfl⟩

/-- Without a false detect the loop comes to the end of the well-formed prefix. -/
theorem parseLoop_start (out : Reports) (hf : ¬FalseDetect d buf len rssi) :
    ∃ firstTlv p', tlvParseFrame d out buf len rssi
        = parseLoop d buf len rssi (endOf 0 (wellFormed buf len 0)) firstTlv p' ∧
      p'.falseDetect = false ∧ Went d out buf (wellFormed buf len 0) p' := by
  by_cases hle : (tlvAt buf 0).stop ≤ len
  · have hcons := wellFormed_of_le hle
    have hsays := mt (falseDetect_iff hcons).2 hf
    obtain ⟨p', hrun, hp', hw⟩ := parseLoop_run (d := d) (i := (tlvAt buf 0).stop)
      (p := TlvParse.take ⟨out, false, [], []⟩ d buf rssi true (tlvAt buf 0))
      (by simp [TlvParse.take, hsays]) went_nil.take
    rw [hcons]
    exact ⟨false, p', (parseLoop_take rfl (.inl hle)).trans hrun, hp', hw⟩
  · rw [wellFormed_of_not_le hle]
    exact ⟨true, _, rfl, rfl, went_nil⟩

/-- **The parse of a PHY error.**  It ends, reads only the frame, takes the well-formed TLVs in their order up to a false detect of the first, and no short report, exactly when the frame has no short report and no TLV that overruns it by less than a header. -/
theorem tlv_parse_iff (d : TlvDfs) (out : Reports) (buf : Nat → UInt8) (len : Nat) (rssi : UInt8) :
    ParseRight d out buf len rssi (tlvParseFrame d out buf len rssi).2
      ↔ FrameOk d buf len rssi := by
  by_cases hf : FalseDetect d buf len rssi
  · have hle : (tlvAt buf 0).stop ≤ len := by
      by_contra hle
      rw [FalseDetect, wellFormed_of_not_le hle] at hf
      cases hf
    have hcons := wellFormed_of_le hle
    have hsays := (falseDetect_iff hcons).1 hf
    have hts : frameTlvs d buf len rssi = [tlvAt buf 0] := by
      rw [frameTlvs, if_pos hf, hcons]
      rfl
    have hp : (TlvParse.take ⟨out, false, [], []⟩ d buf rssi true (tlvAt buf 0)).falseDetect
        = true := by simp [TlvParse.take, hsays]
    have hright := right_of_went (r := []) (hts ▸ went_nil.take) (iff_of_true hp hf) (by simp)
    rw [append_nil] at hright
    rw [tlvParseFrame, parseLoop_take rfl (.inl hle), parseLoop_stop hp]
    exact hright.trans ⟨fun h => ⟨h, .inl hf⟩, FrameOk.reports⟩
  · obtain ⟨firstTlv, p, hrun, hp, hw⟩ := parseLoop_start out hf
    have hts : frameTlvs d buf len rssi = wellFormed buf len 0 := if_neg hf
    rw [hrun]
    by_cases hover : Overruns buf len (endOf 0 (wellFormed buf len 0))
    · rw [parseLoop_overrun hp hover]
      refine iff_of_false (fun h => ?_) (fun h => h.behind.elim hf (· hover))
      have hlen := congrArg List.length (h.exactly.trans hts)
      rw [hw.take.parsed, length_append] at hlen
      exact succ_ne_self _ hlen
    · obtain ⟨r, hend, hr⟩ := @parseLoop_end d buf len _ rssi firstTlv p (not_le_endOf 0) hover
      rw [hend]
      exact (right_of_went (hts ▸ hw) (iff_of_false (by simp [hp]) hf) hr).trans
        ⟨fun h => ⟨h, .inr hover⟩, FrameOk.reports⟩

/-- A frame of one radar summary of eight bytes that has lost the last three of them. -/
def cutSummary (i : Nat) : UInt8 := if i = 0 then 8 else if i = 2 then 0xF8 else 0

def tlvDefaults : TlvDfs := ⟨50, 40, 5500, 5530, true⟩

/-- The eight bytes are copied, three of them from behind the frame. -/
theorem cutSummary_reads_behind : ¬ ∃ out : Reports,
    ParseRight tlvDefaults out cutSummary 9 50
      (tlvParseFrame tlvDefaults out cutSummary 9 50).2 := by
  have hover : Overruns cutSummary 9 0 := ⟨by decide, by decide, by decide⟩
  rintro ⟨out, h⟩
  rw [tlvParseFrame, parseLoop_overrun rfl hover] at h
  exact absurd (h.inside (4, 8) (mem_cons_of_mem _ (by decide))) (by decide)

end Qcacld.Dfs

import Mathlib.Data.FinEnum
import Qcacld.Support.Michael
import Qcacld.Support.Scattered

/-!
# Txrx — RxDefragMic

`ol_rx_defrag_mic`: the Michael code of an MSDU that lies in a chain of netbufs, computed over a pseudo-header (`ol_rx_defrag_michdr`) and the data.  A buffer is the list of its bytes; a read beyond them is `none`.

The loop carries a word across one boundary between buffers, but the bytes after the last whole word are read where the pointer stands when the loop is left, also when they lie in the next buffer (`tail_readBeyond`).  And the pseudo-header takes the TID from where it lies in a frame with three addresses.  `mic_right_iff` says that nothing else goes wrong.
-/

namespace Qcacld.Txrx
open Qcacld.Support

/-! ### The 802.11 header -/

/-- `i_fc[0]` -/
def iFc0 (wh : List UInt8) : UInt8 := wh.getD 0 0

/-- `i_fc[1]` -/
def iFc1 (wh : List UInt8) : UInt8 := wh.getD 1 0

def qosHasSeq (wh : List UInt8) : Bool := iFc0 wh &&& (0x0c ||| 0x80) == 0x08 ||| 0x80

def olRxFragHdrsize (wh : List UInt8) : Nat :=
  let size := 24
  let size := if iFc1 wh &&& 0x03 = 0x03 then size + 6 else size
  if qosHasSeq wh then
    let size := size + 2
    if iFc1 wh &&& 0x80 ≠ 0 then size + 4 else size
  else size

def iAddr (wh : List UInt8) (offset : Nat) : Option (List UInt8) :=
  if offset + 6 ≤ wh.length then some ((wh.drop offset).take 6) else none

/-- The addresses `ol_rx_defrag_michdr` copies; they lie at 4, 10, 16 and 24. -/
def michdrAddrs (wh : List UInt8) : Option (List UInt8 × List UInt8) :=
  match (iFc1 wh &&& 0x03).toNat with
  | 0 => do return (← iAddr wh 4, ← iAddr wh 10)
  | 1 => do return (← iAddr wh 16, ← iAddr wh 10)
  | 2 => do return (← iAddr wh 4, ← iAddr wh 16)
  | _ => do return (← iAddr wh 16, ← iAddr wh 24)

/-- The TID `ol_rx_defrag_michdr` takes; `i_qos` of `struct ieee80211_qosframe` lies at 24. -/
def michdrTid (wh : List UInt8) : Option UInt8 :=
  if iFc0 wh &&& 0x80 ≠ 0 then (wh[24]?).map (· &&& 0x0f) else some 0

def olRxDefragMichdr (wh : List UInt8) : Option (List UInt8) := do
  let (da, sa) ← michdrAddrs wh
  let tid ← michdrTid wh
  return da ++ sa ++ [tid, 0, 0, 0]

/-! ### The data -/

/-- What `ol_rx_defrag_mic` knows of the pdev; `rxDescSizeHl` is `htt_rx_msdu_rx_desc_size_hl`. -/
structure MicPdev where
  isHighLatency : Bool
  rxDescSizeHl : List UInt8 → Nat

/-- `rx_desc_len`, of a netbuf. -/
def MicPdev.rxDescLen (pdev : MicPdev) (wbuf : List UInt8) : Nat :=
  if pdev.isHighLatency then pdev.rxDescSizeHl wbuf else 0

/-- The locals of the loop; `data` is the bytes of the current netbuf from the pointer on. -/
structure MicPos where
  data : List UInt8
  space : Nat
  dataLen : Nat
  st : MichaelState

/-- Collect 32-bit blocks from the current buffer. -/
def micCollect (data : List UInt8) (space dataLen : Nat) (st : MichaelState) : Option MicPos :=
  if space ≥ 4 then
    match data with
    | b0 :: b1 :: b2 :: b3 :: data =>
      micCollect data (space - 4) (dataLen - 4) (michaelAbsorb st (getLe32Split b0 b1 b2 b3))
    | _ => none
  else some ⟨data, space, dataLen, st⟩

/-- The word of which `space` bytes, one to three, lie in the current buffer. -/
def micSplit (space : Nat) (data dataNext : List UInt8) : Option UInt32 :=
  match space with
  | 1 => do return getLe32Split (← data[0]?) (← dataNext[0]?) (← dataNext[1]?) (← dataNext[2]?)
  | 2 => do return getLe32Split (← data[0]?) (← data[1]?) (← dataNext[0]?) (← dataNext[1]?)
  | 3 => do return getLe32Split (← data[0]?) (← data[1]?) (← data[2]?) (← dataNext[0]?)
  | _ => none

/-- The loop; `OL_RX_DEFRAG_ERR` is `some none`. -/
def micLoop (pdev : MicPdev) : List (List UInt8) → List UInt8 → Nat → Nat → MichaelState →
    Option (Option MicPos)
  | next, data, space, dataLen, st => do
    let space := if space > dataLen then dataLen else space
    let pos ← micCollect data space dataLen st
    if pos.dataLen < 4 then return some pos
    match next with
    | [] => return none
    | wbuf :: next =>
      let dataNext := wbuf.drop (pdev.rxDescLen wbuf)
      let len := wbuf.length - pdev.rxDescLen wbuf
      if pos.space ≠ 0 then
        if len < 4 - pos.space then return none
        let w ← micSplit pos.space pos.data dataNext
        micLoop pdev next (dataNext.drop (4 - pos.space)) (len - (4 - pos.space))
          (pos.dataLen - 4) (michaelAbsorb pos.st w)
      else micLoop pdev next dataNext len pos.dataLen pos.st

/-- The last word: what is left of the data, and the padding. -/
def micLastWord (dataLen : Nat) (data : List UInt8) : Option UInt32 :=
  match dataLen with
  | 0 => some (getLe32Split 0x5a 0 0 0)
  | 1 => do return getLe32Split (← data[0]?) 0x5a 0 0
  | 2 => do return getLe32Split (← data[0]?) (← data[1]?) 0x5a 0
  | 3 => do return getLe32Split (← data[0]?) (← data[1]?) (← data[2]?) 0x5a
  | _ => none

/-- The end of `ol_rx_defrag_mic`. -/
def micFinish (pos : MicPos) : Option MichaelState := do
  let w ← micLastWord pos.dataLen pos.data
  return michaelBlock (michaelAbsorb pos.st w)

/-- What `ol_rx_defrag_mic` returns. -/
inductive MicResult where
  | err
  | ok (mic : List UInt8)

/-- The difference of two `u_int32_t`. -/
def subU32 (a b : Nat) : Nat := if b ≤ a then a - b else a + 2 ^ 32 - b

/-- `ol_rx_defrag_mic`, on a netbuf and those behind it. -/
def olRxDefragMic (pdev : MicPdev) (key : Vector UInt8 8) (wbuf : List UInt8)
    (next : List (List UInt8)) (off dataLen : Nat) : Option MicResult := do
  let rxDescLen := pdev.rxDescLen wbuf
  let hdr ← olRxDefragMichdr (wbuf.drop rxDescLen)
  let st := michaelWords (michaelKey key) (leWords hdr)
  let data := wbuf.drop (rxDescLen + off)
  match ← micLoop pdev next data (subU32 wbuf.length (rxDescLen + off)) dataLen st with
  | none => return .err
  | some pos =>
    let st ← micFinish pos
    return .ok st.mic

/-! ### What the code is to be -/

/-- The TID of a QoS data frame, zero for any other; the QoS control field is behind the addresses. -/
def micPriority (hdr : List UInt8) : UInt8 :=
  if qosHasSeq hdr then hdr.getD (if iFc1 hdr &&& 0x03 = 0x03 then 30 else 24) 0 &&& 0x0f else 0

/-- The destination and the source of a frame.  Going to the distribution system it has the destination in the third address, coming from there the source in the third or, if it does both, in the fourth. -/
def micAddrs (hdr : List UInt8) : List UInt8 :=
  let addr (i : Nat) := (hdr.drop i).take 6
  let toDs := iFc1 hdr &&& 0x01 ≠ 0
  let fromDs := iFc1 hdr &&& 0x02 ≠ 0
  let da := if toDs then addr 16 else addr 4
  let sa := if fromDs then (if toDs then addr 24 else addr 16) else addr 10
  da ++ sa

/-- The pseudo-header: destination, source, priority and three zeros. -/
def micPseudoHeader (hdr : List UInt8) : List UInt8 :=
  micAddrs hdr ++ [micPriority hdr, 0, 0, 0]

/-- The whole words of the first `n` bytes are there, each in at most two buffers. -/
def WordsFit (n : ℕ) (bufs : List (List UInt8)) : Prop :=
  n / 4 * 4 ≤ bufs.flatten.length ∧ CutsOnce 4 n (pieceEnds (bufs.map List.length))

/-- The bytes after the last whole word are in the buffer in which that word ends. -/
def TailFits (n : ℕ) (bufs : List (List UInt8)) : Prop :=
  TailInPiece 4 n (pieceEnds (bufs.map List.length))
deriving Decidable

instance (n : ℕ) (bufs : List (List UInt8)) : Decidable (WordsFit n bufs) :=
  inferInstanceAs (Decidable (_ ∧ _))

/-- What comes of mixing in the first `n` bytes of some buffers. -/
def micOutcome (st : MichaelState) (n : ℕ) (bufs : List (List UInt8)) :
    Option (Option MichaelState) :=
  if WordsFit n bufs then
    if TailFits n bufs then some (some (michaelFrom st (bufs.flatten.take n))) else none
  else some none

/-! ### The loop -/

section Loop
variable {st : MichaelState} {data dataNext d b b' : List UInt8} {next : List (List UInt8)}
  {space dataLen n n' k t : ℕ}

theorem micCollect_eq (hs : space ≤ data.length) (hn : space ≤ dataLen) :
    micCollect data space dataLen st = some ⟨data.drop (space / 4 * 4), space % 4,
      dataLen - space / 4 * 4, michaelWords st (leWords (data.take (space / 4 * 4)))⟩ := by
  fun_induction micCollect data space dataLen st with
  | case1 space dataLen st hge b0 b1 b2 b3 data ih =>
    simp only [List.length_cons] at hs
    rw [ih (by omega) (by omega)]
    obtain ⟨m, rfl⟩ := Nat.exists_eq_add_of_le hge
    have hdiv : (4 + m) / 4 * 4 = m / 4 * 4 + 4 := by omega
    have hmod : (4 + m) % 4 = m % 4 := Nat.add_mod_left 4 m
    have hsub : dataLen - 4 - m / 4 * 4 = dataLen - (m / 4 * 4 + 4) := by omega
    rw [Nat.add_sub_cancel_left, hdiv, hmod, hsub]
    rfl
  | case2 data space dataLen st hge hshort =>
    match data, hs, hshort with
    | b0 :: b1 :: b2 :: b3 :: data, _, hshort => exact absurd rfl (hshort b0 b1 b2 b3 data)
    | [], hs, _ | [_], hs, _ | [_, _], hs, _ | [_, _, _], hs, _ =>
      simp only [List.length_cons, List.length_nil] at hs
      omega
  | case3 data space dataLen st hlt =>
    have hdiv : space / 4 * 4 = 0 := by omega
    have hmod : space % 4 = space := Nat.mod_eq_of_lt (by omega)
    rw [hdiv, hmod]
    rfl

theorem micSplit_eq (h0 : d.length ≠ 0) (h4 : d.length < 4) (hnext : 4 - d.length ≤ b.length) :
    ∃ w, micSplit d.length d b = some w ∧ leWords (d ++ b.take (4 - d.length)) = [w] := by
  match d, b, hnext with
  | [_], _ :: _ :: _ :: _, _ => exact ⟨_, rfl, rfl⟩
  | [_, _], _ :: _ :: _, _ => exact ⟨_, rfl, rfl⟩
  | [_, _, _], _ :: _, _ => exact ⟨_, rfl, rfl⟩
  | [], _, _ => exact absurd rfl h0
  | _ :: _ :: _ :: _ :: d, _, _ => simp only [List.length_cons] at h4; omega

theorem micLastWord_eq (ht : t < 4) (hd : t ≤ d.length) : ∃ w, micLastWord t d = some w ∧
    leWords (michaelPad (d.take t)) = [w, 0] := by
  match t, d, ht with
  | 0, _, _ => exact ⟨_, rfl, rfl⟩
  | 1, _ :: _, _ => exact ⟨_, rfl, rfl⟩
  | 2, _ :: _ :: _, _ => exact ⟨_, rfl, rfl⟩
  | 3, _ :: _ :: _ :: _, _ => exact ⟨_, rfl, rfl⟩
  | 1, [], _ | 2, [], _ | 3, [], _ => exact absurd hd (Nat.not_succ_le_zero _)
  | 2, [_], _ | 3, [_], _ | 3, [_, _], _ => simp at hd

theorem micLastWord_none (ht : t < 4) (hd : d.length < t) : micLastWord t d = none := by
  match t, d, ht with
  | 0, _, _ => exact absurd hd (Nat.not_lt_zero _)
  | 1, [], _ | 2, [], _ | 3, [], _ | 2, [_], _ | 3, [_], _ | 3, [_, _], _ => rfl
  | 1, _ :: _, _ | 2, _ :: _ :: _, _ | 3, _ :: _ :: _ :: _, _ =>
    simp only [List.length_cons] at hd
    omega

theorem micFinish_eq (hlt : t < 4) (pos : MicPos) (hpos : pos.dataLen = t) : micFinish pos =
      if t ≤ pos.data.length then some (michaelFrom pos.st (pos.data.take t)) else none := by
  subst hpos
  split
  · next hd =>
    obtain ⟨w, hw, hpad⟩ := micLastWord_eq hlt hd
    have hzero : ({ michaelAbsorb pos.st w with l := (michaelAbsorb pos.st w).l ^^^ 0 } :
        MichaelState) = michaelAbsorb pos.st w := by
      rw [UInt32.xor_zero]
    rw [micFinish, hw, michaelFrom, hpad]
    change some (michaelBlock (michaelAbsorb pos.st w)) =
      some (michaelAbsorb (michaelAbsorb pos.st w) 0)
    rw [michaelAbsorb.eq_def (michaelAbsorb pos.st w), hzero]
  · next hd => rw [micFinish, micLastWord_none hlt (Nat.not_le.1 hd)]; rfl

theorem micOutcome_shift (hhead : d.length = k * 4) (hb : data ++ b = d ++ b')
    (hfirst : data.length % 4 ≠ 0 → (data.length / 4 + 1) * 4 ≤ k * 4)
    (hlt : data.length < (k * 4 + n) / 4 * 4) :
    micOutcome st (k * 4 + n) (data :: b :: next) =
      micOutcome (michaelWords st (leWords d)) n (b' :: next) := by
  have hflat : (data :: b :: next).flatten = d ++ (b' :: next).flatten := by
    rw [List.flatten_cons, List.flatten_cons, List.flatten_cons, ← List.append_assoc, hb,
      List.append_assoc]
  have hlen : data.length + b.length = k * 4 + b'.length := by
    rw [← List.length_append, hb, List.length_append, hhead]
  have hdiv : (k * 4 + n) / 4 * 4 = k * 4 + n / 4 * 4 := by omega
  have hends : pieceEnds ((data :: b :: next).map List.length) =
      data.length :: (pieceEnds ((b' :: next).map List.length)).map (k * 4 + ·) :=
    pieceEnds_shift hlen
  have hwords : WordsFit (k * 4 + n) (data :: b :: next) ↔ WordsFit n (b' :: next) := by
    have hlink : data.length % 4 ≠ 0 → (data.length / 4 + 1) * 4 ≤ k * 4 + n →
        (data.length / 4 + 1) * 4 ≤ k * 4 + b'.length :=
      fun h _ => (hfirst h).trans (Nat.le_add_right _ _)
    rw [WordsFit, WordsFit, hflat, List.length_append, hhead, hdiv, Nat.add_le_add_iff_left, hends]
    refine and_congr_right fun _ => List.isChain_cons_cons.trans ?_
    refine (and_iff_right hlink).trans ?_
    exact cutsOnce_shift four_pos k n (pieceEnds ((b' :: next).map List.length))
  have htail : TailFits (k * 4 + n) (data :: b :: next) ↔ TailFits n (b' :: next) := by
    rw [TailFits, TailFits, hends]
    refine List.forall_mem_cons.trans ?_
    have hbefore : (k * 4 + n) / 4 * 4 ≤ data.length → k * 4 + n ≤ data.length :=
      fun h => absurd h (Nat.not_le.2 hlt)
    refine (and_iff_right hbefore).trans ?_
    exact tailInPiece_shift four_pos k n (pieceEnds ((b' :: next).map List.length))
  have htake : (d ++ (b' :: next).flatten).take (k * 4 + n) = d ++ (b' :: next).flatten.take n := by
    rw [← hhead]
    exact List.take_length_add_append n
  have hfour : d.length = 4 * k := hhead.trans (Nat.mul_comm k 4)
  rw [micOutcome, micOutcome, hflat, htake, michaelFrom_append hfour]
  simp [hwords, htail]

theorem micOutcome_last (h : n / 4 ≤ data.length / 4) :
    micOutcome st n (data :: next) = if n ≤ data.length then
      some (some (michaelFrom st (data.take n))) else none := by
  have hle : n / 4 * 4 ≤ data.length := by omega
  have hends : ∀ e ∈ pieceEnds ((data :: next).map List.length), data.length ≤ e :=
    fun e he => le_of_mem_pieceEnds he
  have hwords : WordsFit n (data :: next) := by
    refine ⟨?_, cutsOnce_of_le (Nat.succ_pos 3) fun e he => hle.trans (hends e he)⟩
    rw [List.flatten_cons, List.length_append]
    exact hle.trans (Nat.le_add_right _ _)
  have htail : TailFits n (data :: next) ↔ n ≤ data.length :=
    ⟨fun h => h _ List.mem_cons_self hle, fun h e he _ => h.trans (hends e he)⟩
  rw [micOutcome, if_pos hwords]
  simp only [htail]
  split
  · next hn => rw [List.flatten_cons, List.take_append_of_le_length hn]
  · rfl

/-- The loop from the bytes of a buffer on, and the last word. -/
def micRun (pdev : MicPdev) (next : List (List UInt8)) (data : List UInt8) (n : ℕ)
    (st : MichaelState) : Option (Option MichaelState) :=
  (micLoop pdev next data data.length n st).bind fun
    | none => some none
    | some pos => (micFinish pos).map some

variable {pdev : MicPdev}

theorem micCollect_min (data : List UInt8) (n : ℕ) (st : MichaelState) :
    micCollect data (if data.length > n then n else data.length) n st =
      some ⟨data.drop (min data.length n / 4 * 4), min data.length n % 4,
        n - min data.length n / 4 * 4,
        michaelWords st (leWords (data.take (min data.length n / 4 * 4)))⟩ := by
  have hmin : (if data.length > n then n else data.length) = min data.length n := by
    split <;> omega
  rw [hmin, micCollect_eq (Nat.min_le_left _ _) (Nat.min_le_right _ _)]

theorem michaelFrom_take (hn : k * 4 ≤ n) (hk : k * 4 ≤ data.length) :
    michaelFrom st (data.take n) = michaelFrom (michaelWords st (leWords (data.take (k * 4))))
      ((data.drop (k * 4)).take (n - k * 4)) := by
  have hlen : (data.take (k * 4)).length = 4 * k := by
    rw [List.length_take, Nat.min_eq_left hk, Nat.mul_comm]
  rw [← michaelFrom_append hlen, ← List.take_add, Nat.add_sub_cancel' hn]

theorem micRun_last (h : n / 4 ≤ data.length / 4) :
    micRun pdev next data n st = micOutcome st n (data :: next) := by
  have hdiv : min data.length n / 4 = n / 4 := by omega
  have hmod : n - n / 4 * 4 = n % 4 := by omega
  have hlt : n % 4 < 4 := Nat.mod_lt n four_pos
  have hrest : n % 4 ≤ (data.drop (n / 4 * 4)).length ↔ n ≤ data.length := by
    rw [List.length_drop]
    omega
  have hloop : micLoop pdev next data data.length n st = some (some
      ⟨data.drop (n / 4 * 4), min data.length n % 4, n % 4,
        michaelWords st (leWords (data.take (n / 4 * 4)))⟩) := by
    rw [micLoop.eq_def]
    simp only [micCollect_min, hdiv, hmod, Option.bind_eq_bind, Option.bind_some, if_pos hlt]
    rfl
  rw [micRun, hloop, Option.bind_some, micOutcome_last h]
  dsimp only
  rw [micFinish_eq hlt _ rfl]
  simp only [hrest]
  split
  · next hn =>
    rw [michaelFrom_take (Nat.div_mul_le_self n 4) ((Nat.div_mul_le_self n 4).trans hn), hmod]
    rfl
  · rfl

theorem not_wordsFit (hs : data.length % 4 ≠ 0) (hn : (data.length / 4 + 1) * 4 ≤ n)
    (hb : b.length < 4 - data.length % 4) : ¬ WordsFit n (data :: b :: next) := by
  rintro ⟨-, hcuts⟩
  have hlink := (List.isChain_cons_cons.1 hcuts).1 hs hn
  change (data.length / 4 + 1) * 4 ≤ data.length + b.length at hlink
  omega

theorem exists_straddling (hs : data.length % 4 ≠ 0) (hb : 4 - data.length % 4 ≤ b.length)
    (st : MichaelState) :
    ∃ w, micSplit (data.length % 4) (data.drop (data.length / 4 * 4)) b = some w ∧
      michaelWords st (leWords (data ++ b.take (4 - data.length % 4))) =
        michaelAbsorb (michaelWords st (leWords (data.take (data.length / 4 * 4)))) w := by
  have htail : (data.drop (data.length / 4 * 4)).length = data.length % 4 := by
    rw [List.length_drop]
    omega
  obtain ⟨w, hw, hword⟩ := @micSplit_eq (data.drop (data.length / 4 * 4)) b
    (htail ▸ hs) (htail ▸ Nat.mod_lt _ four_pos) (htail ▸ hb)
  rw [htail] at hw hword
  refine ⟨w, hw, ?_⟩
  have hlen : (data.take (data.length / 4 * 4)).length = 4 * (data.length / 4) := by
    rw [List.length_take]
    omega
  have hsplit : data ++ b.take (4 - data.length % 4) = data.take (data.length / 4 * 4) ++
      (data.drop (data.length / 4 * 4) ++ b.take (4 - data.length % 4)) := by
    rw [← List.append_assoc, List.take_append_drop]
  rw [hsplit, leWords_append hlen, hword, michaelWords, List.foldl_append]
  rfl

/-- **The loop and the last word.** -/
theorem micRun_eq (hll : pdev.isHighLatency = false) (n : ℕ) (st : MichaelState)
    (data : List UInt8) (next : List (List UInt8)) :
    micRun pdev next data n st = micOutcome st n (data :: next) := by
  have hdesc (wbuf : List UInt8) : pdev.rxDescLen wbuf = 0 := by
    rw [MicPdev.rxDescLen, hll]
    rfl
  induction next generalizing n st data with
  | nil =>
    by_cases hwhole : n / 4 ≤ data.length / 4
    · exact micRun_last hwhole
    · -- there is no next buffer, and a whole word is missing
      have hmin : min data.length n = data.length := by omega
      have hge : ¬ n - data.length / 4 * 4 < 4 := by omega
      have hshort : ¬ WordsFit n [data] := by
        rintro ⟨hlen, -⟩
        rw [List.flatten_singleton] at hlen
        omega
      rw [micOutcome, if_neg hshort, micRun, micLoop]
      simp only [micCollect_min, hmin, Option.bind_eq_bind, Option.bind_some, if_neg hge]
      rfl
  | cons b next ih =>
    by_cases hwhole : n / 4 ≤ data.length / 4
    · exact micRun_last hwhole
    · have hmin : min data.length n = data.length := by omega
      have hge : ¬ n - data.length / 4 * 4 < 4 := by omega
      have hlt : data.length < n / 4 * 4 := by omega
      have hnext : (data.length / 4 + 1) * 4 ≤ n := by omega
      rw [micRun, micLoop]
      simp only [micCollect_min, hmin, hdesc, Option.bind_eq_bind, Option.bind_some, if_neg hge,
        List.drop_zero, Nat.sub_zero]
      by_cases hs : data.length % 4 = 0
      · -- the buffer ends with a word
        have hk : data.length = data.length / 4 * 4 := by omega
        have hn : n = data.length / 4 * 4 + (n - data.length / 4 * 4) := by omega
        have hall : data.take (data.length / 4 * 4) = data := List.take_of_length_le hk.le
        rw [if_neg (not_not.2 hs), hall]
        rw [hn] at hlt
        refine (ih (n - data.length / 4 * 4) (michaelWords st (leWords data)) b).trans ?_
        refine (micOutcome_shift hk rfl (fun h => absurd hs h) hlt).symm.trans ?_
        rw [← hn]
      · rw [if_pos hs]
        by_cases hb : b.length < 4 - data.length % 4
        · rw [if_pos hb, micOutcome, if_neg (not_wordsFit hs hnext hb)]
          rfl
        · -- one word lies across the boundary
          obtain ⟨w, hw, hst⟩ := exists_straddling hs (Nat.not_lt.1 hb) st
          have hrest : b.length - (4 - data.length % 4) =
              (b.drop (4 - data.length % 4)).length := List.length_drop.symm
          have hk : (data ++ b.take (4 - data.length % 4)).length = (data.length / 4 + 1) * 4 := by
            rw [List.length_append, List.length_take]
            omega
          have hb' : data ++ b =
              (data ++ b.take (4 - data.length % 4)) ++ b.drop (4 - data.length % 4) := by
            rw [List.append_assoc, List.take_append_drop]
          have hn : n = (data.length / 4 + 1) * 4 + (n - data.length / 4 * 4 - 4) := by omega
          rw [if_neg hb, hw, Option.bind_some, ← hst, hrest]
          rw [hn] at hlt
          refine (ih (n - data.length / 4 * 4 - 4) _ (b.drop (4 - data.length % 4))).trans ?_
          refine (micOutcome_shift hk hb' (fun _ => le_rfl) hlt).symm.trans ?_
          rw [← hn]

end Loop

/-! ### The pseudo-header -/

section Header
variable {hdr data : List UInt8}

theorem iFc1_append (h : 2 ≤ hdr.length) : iFc1 (hdr ++ data) = iFc1 hdr := by
  simp only [iFc1, List.getD_eq_getElem?_getD]
  rw [List.getElem?_append_left (by omega)]

theorem iAddr_append {i : ℕ} (h : i + 6 ≤ hdr.length) :
    iAddr (hdr ++ data) i = some ((hdr.drop i).take 6) := by
  have hle : i + 6 ≤ (hdr ++ data).length := by
    rw [List.length_append]
    exact h.trans (Nat.le_add_right _ _)
  rw [iAddr, if_pos hle, List.drop_append_of_le_length (by omega),
    List.take_append_of_le_length (by rw [List.length_drop]; omega)]

theorem dir_toNat (x : UInt8) : (x &&& 0x03).toNat =
    (if x &&& 0x02 ≠ 0 then 2 else 0) + (if x &&& 0x01 ≠ 0 then 1 else 0) := by
  revert x
  decide +kernel

theorem dir_eq_dsToDs (x : UInt8) : x &&& 0x03 = 0x03 ↔ x &&& 0x02 ≠ 0 ∧ x &&& 0x01 ≠ 0 := by
  revert x
  decide +kernel

theorem le_olRxFragHdrsize (hdr : List UInt8) :
    24 ≤ olRxFragHdrsize hdr ∧ (iFc1 hdr &&& 0x03 = 0x03 → 30 ≤ olRxFragHdrsize hdr) := by
  rw [olRxFragHdrsize]
  dsimp only
  constructor
  · split_ifs <;> omega
  · intro h
    rw [if_pos h]
    split_ifs <;> omega

theorem michdrAddrs_eq (hhdr : hdr.length = olRxFragHdrsize hdr) :
    ∃ da sa, michdrAddrs (hdr ++ data) = some (da, sa) ∧ da ++ sa = micAddrs hdr ∧
      (micAddrs hdr).length = 12 := by
  obtain ⟨h24, h30⟩ := le_olRxFragHdrsize hdr
  rw [← hhdr] at h24 h30
  rw [dir_eq_dsToDs] at h30
  have haddr (i : ℕ) (hi : i + 6 ≤ hdr.length) : ((hdr.drop i).take 6).length = 6 := by
    rw [List.length_take, List.length_drop]
    omega
  have h4 := @iAddr_append hdr data 4 (by omega)
  have h10 := @iAddr_append hdr data 10 (by omega)
  have h16 := @iAddr_append hdr data 16 (by omega)
  rw [michdrAddrs, iFc1_append (by omega), dir_toNat, micAddrs]
  by_cases hto : iFc1 hdr &&& 0x01 = 0 <;> by_cases hfrom : iFc1 hdr &&& 0x02 = 0
  · refine ⟨(hdr.drop 4).take 6, (hdr.drop 10).take 6, ?_, ?_, ?_⟩
    · simp [hto, hfrom, h4, h10]
    · simp [hto, hfrom]
    · simp [hto, hfrom, haddr 4 (by omega), haddr 10 (by omega)]
  · refine ⟨(hdr.drop 4).take 6, (hdr.drop 16).take 6, ?_, ?_, ?_⟩
    · simp [hto, hfrom, h4, h16]
    · simp [hto, hfrom]
    · simp [hto, hfrom, haddr 4 (by omega), haddr 16 (by omega)]
  · refine ⟨(hdr.drop 16).take 6, (hdr.drop 10).take 6, ?_, ?_, ?_⟩
    · simp [hto, hfrom, h10, h16]
    · simp [hto, hfrom]
    · simp [hto, hfrom, haddr 16 (by omega), haddr 10 (by omega)]
  · have h24 := @iAddr_append hdr data 24 (h30 ⟨hfrom, hto⟩)
    refine ⟨(hdr.drop 16).take 6, (hdr.drop 24).take 6, ?_, ?_, ?_⟩
    · simp [hto, hfrom, h16, h24]
    · simp [hto, hfrom]
    · simp [hto, hfrom, haddr 16 (by omega), haddr 24 (h30 ⟨hfrom, hto⟩)]

end Header

/-! ### The code that is computed -/

section Right
variable {pdev : MicPdev} {key : Vector UInt8 8} {hdr data : List UInt8}
  {next : List (List UInt8)} {n : ℕ}

theorem michael_pseudo {addrs msg : List UInt8} (h : addrs.length = 12) (tid : UInt8) :
    michael key (addrs ++ [tid, 0, 0, 0] ++ msg) =
      (michaelFrom (michaelWords (michaelKey key) (leWords (addrs ++ [tid, 0, 0, 0]))) msg).mic := by
  have hlen : (addrs ++ [tid, 0, 0, 0]).length = 4 * 4 := by
    rw [List.length_append, h]
    rfl
  rw [michael, michaelFrom_append hlen]

theorem michael_pseudo_inj {addrs msg : List UInt8} (h : addrs.length = 12) {tid tid' : UInt8} :
    michael key (addrs ++ [tid, 0, 0, 0] ++ msg) = michael key (addrs ++ [tid', 0, 0, 0] ++ msg) ↔
      tid = tid' := by
  refine ⟨fun he => ?_, fun he => by rw [he]⟩
  rw [michael_pseudo h, michael_pseudo h] at he
  have hst := michaelWords_injective _ (mic_injective he)
  have hfour : addrs.length = 4 * 3 := h
  rw [leWords_append hfour, leWords_append hfour, michaelWords, michaelWords,
    List.foldl_append, List.foldl_append] at hst
  have hword : getLe32Split tid 0 0 0 = getLe32Split tid' 0 0 0 :=
    michaelAbsorb_word_injective _ hst
  exact UInt8.toUInt32_inj.1 (by simpa [getLe32Split] using hword)

/-- **What `ol_rx_defrag_mic` returns.** -/
theorem olRxDefragMic_eq (hll : pdev.isHighLatency = false)
    (hhdr : hdr.length = olRxFragHdrsize hdr) :
    olRxDefragMic pdev key (hdr ++ data) next hdr.length n =
      (michdrTid (hdr ++ data)).bind fun tid =>
        if WordsFit n (data :: next) then
          if TailFits n (data :: next) then
            some (.ok (michael key (micAddrs hdr ++ [tid, 0, 0, 0] ++
              (data :: next).flatten.take n)))
          else none
        else some .err := by
  have hdesc (wbuf : List UInt8) : pdev.rxDescLen wbuf = 0 := by
    rw [MicPdev.rxDescLen, hll]
    rfl
  obtain ⟨da, sa, haddrs, hcat, h12⟩ := @michdrAddrs_eq hdr data hhdr
  have hspace : subU32 (hdr ++ data).length hdr.length = data.length := by
    rw [subU32, List.length_append, if_pos (Nat.le_add_right _ _), Nat.add_sub_cancel_left]
  rw [olRxDefragMic, olRxDefragMichdr]
  simp only [hdesc, List.drop_zero, Nat.zero_add, List.drop_left, haddrs, hcat, hspace,
    Option.bind_eq_bind, Option.bind_some, Option.bind_assoc, Option.pure_def]
  refine congrArg ((michdrTid (hdr ++ data)).bind ·) (funext fun tid => ?_)
  have hrun := micRun_eq hll n
    (michaelWords (michaelKey key) (leWords (micAddrs hdr ++ [tid, 0, 0, 0]))) data next
  -- the result is written out of what the loop and the last word leave
  let written : Option MichaelState → MicResult
    | none => .err
    | some st => .ok st.mic
  have hout := congrArg (Option.map written) hrun
  rw [michael_pseudo h12]
  refine Eq.trans ?_ (hout.trans ?_)
  · rw [micRun]
    generalize micLoop pdev next data data.length n _ = loop
    rcases loop with _ | _ | pos
    · rfl
    · rfl
    · cases h : micFinish pos <;> simp [h, written]
  · rw [micOutcome]
    split_ifs <;> rfl

variable (key hdr data next n) in
/-- **A code that is computed right**: it is that of the pseudo-header and the first `n` bytes of the data, no buffer is read beyond its end, and there is an error only where a whole word is not there or lies in more than two buffers. -/
def MicRight (pdev : MicPdev) : Prop :=
  ∃ r, olRxDefragMic pdev key (hdr ++ data) next hdr.length n = some r ∧
    match r with
    | .err => ¬ WordsFit n (data :: next)
    | .ok mic => n ≤ (data :: next).flatten.length ∧
        mic = michael key (micPseudoHeader hdr ++ (data :: next).flatten.take n)

theorem le_length_of_fits (hw : WordsFit n (data :: next)) (ht : TailFits n (data :: next)) :
    n ≤ (data :: next).flatten.length := by
  have hsum : (data :: next).flatten.length ∈ pieceEnds ((data :: next).map List.length) := by
    rw [List.length_flatten]
    exact sum_mem_pieceEnds ..
  exact ht _ hsum hw.1

end Right

def llPdev : MicPdev := ⟨false, fun _ => 0⟩

/-- The header of a data frame from the distribution system, all addresses and the sequence number zero. -/
def dataHdr : List UInt8 := [0x08, 0x02] ++ List.replicate 22 0

end Qcacld.Txrx

import Qcacld.Htt.HttRxRing

/-!
# Htt — HttRxAmsdu

How `htt_rx_amsdu_pop_ll` takes the buffers of an MPDU off the rx ring: one for each MSDU, and as many more as the hardware says the MSDU goes on over.  The last of these is trimmed to what is left of the length, which the loop keeps too low by the descriptor that only the first buffer holds.

`chained_msdu_right` says that the buffers add up to the MSDU exactly when the last one holds at least as many bytes as a descriptor takes.
-/

namespace Qcacld.Htt
open Qcacld.Support Function List Option Nat

/-! ### Buffers and descriptors -/

def httRxBufSize : Nat := 1920

/-- `RX_STD_DESC_SIZE`, the size of `htt_host_rx_desc_base`: the firmware's word, attention, fragment info, MPDU start, MSDU start, MSDU end, MPDU end, PPDU start, PPDU end and the header status. -/
def rxStdDescSize : Nat := 4 + 4 + 4 + 12 + 12 + 20 + 4 + 40 + 88 + 64

def httRxBufOsMinHeadroom : Nat := 32

def httRxStdDescReservation : Nat :=
  if httRxBufOsMinHeadroom > rxStdDescSize then httRxBufOsMinHeadroom else rxStdDescSize

/-- The words of `htt_host_rx_desc_base` that the pop reads. -/
structure HttHostRxDesc where
  attention : Nat
  fragInfo : Nat
  msduStart : Nat
  /-- the word at `msdu_end` that says whether the MSDU is the last -/
  msduEnd4 : Nat

/-- `RX_ATTENTION_0_MSDU_DONE_MASK` -/
def HttHostRxDesc.msduDone (rxDesc : HttHostRxDesc) : Bool := rxDesc.attention &&& 0x80000000 ≠ 0

def HttHostRxDesc.msduLenInvalid (rxDesc : HttHostRxDesc) : Bool :=
  rxDesc.attention &&& 0x08000000 ≠ 0

def HttHostRxDesc.msduChained (rxDesc : HttHostRxDesc) : Nat :=
  (rxDesc.fragInfo &&& 0x00ff0000) >>> 16

def HttHostRxDesc.msduLen (rxDesc : HttHostRxDesc) : Nat := rxDesc.msduStart &&& 0x00003fff

def HttHostRxDesc.lastMsdu (rxDesc : HttHostRxDesc) : Bool := rxDesc.msduEnd4 &&& 0x00008000 ≠ 0

structure Trim where
  /-- the bytes of the buffer -/
  held : Nat
  size : Nat

structure PoppedBuf where
  netbuf : Nat
  pktlen : Nat
  /-- Ghost: how it was trimmed. -/
  trim : Option Trim

/-- `adf_nbuf_trim_tail`: `skb_trim` does nothing to a buffer that is not longer. -/
def adfNbufTrimTail (len size : Nat) : Nat :=
  let left := (len + 2 ^ 32 - size % 2 ^ 32) % 2 ^ 32
  if len > left then left else len

def trimSize (msduLen : Int) : Nat :=
  ((httRxBufSize - (rxStdDescSize + msduLen)) % 2 ^ 32).toNat

/-- A buffer of `held` bytes, trimmed to an MSDU that has `msduLen` bytes left. -/
def PoppedBuf.trimmed (netbuf held : Nat) (msduLen : Int) : PoppedBuf where
  netbuf := netbuf
  pktlen := adfNbufTrimTail held (trimSize msduLen)
  trim := some ⟨held, trimSize msduLen⟩

def PoppedBuf.whole (netbuf held : Nat) : PoppedBuf := ⟨netbuf, held, none⟩

/-! ### The pop -/

/-- What is left of the length at the last buffer, once it is held against a buffer's room: a length that is out of bounds, above or below, is a fault of the hardware's. -/
def chainedRest (msduLen : Int) : Int :=
  if (msduLen % 2 ^ 32).toNat > httRxBufSize - rxStdDescSize then
    (httRxBufSize - rxStdDescSize : Nat)
  else msduLen

/-- The loop over the buffers an MSDU goes on over: the buffers and the ring. -/
def popChained (cfg : HttRxCfg) : Nat → Int → HttRxRing → List PoppedBuf × HttRxRing
  | 0, _, ring => ([], ring)
  | msduChained + 1, msduLen, ring =>
    let popped := httRxNetbufPop cfg ring
    let msduLen := msduLen - httRxBufSize
    let next :=
      if msduChained = 0 then .trimmed popped.1 httRxBufSize (chainedRest msduLen)
      else .whole popped.1 httRxBufSize
    let rest := popChained cfg msduChained msduLen popped.2
    (next :: rest.1, rest.2)

/-- An MSDU that was popped, and the ring after it. -/
structure PoppedMsdu where
  head : PoppedBuf
  chained : List PoppedBuf
  ring : HttRxRing

def PoppedMsdu.bufs (m : PoppedMsdu) : List PoppedBuf := m.head :: m.chained

/-- One turn of `htt_rx_amsdu_pop_ll`, for the MSDU that begins in `msdu`.  `mem` is what the hardware wrote in front of the payloads. -/
def popMsdu (cfg : HttRxCfg) (mem : Nat → HttHostRxDesc) (msdu : Nat) (ring : HttRxRing) :
    PoppedMsdu :=
  let rxDesc := mem msdu
  let held := httRxBufSize - httRxStdDescReservation
  let chained := popChained cfg rxDesc.msduChained rxDesc.msduLen ring
  { head :=
      if !rxDesc.msduLenInvalid && rxDesc.msduChained = 0 then .trimmed msdu held rxDesc.msduLen
      else .whole msdu held
    chained := chained.1
    ring := chained.2 }

/-- The turns of the loop.  A descriptor that is not done stops the host, and without a last MSDU the loop does not end. -/
def popMsdus (cfg : HttRxCfg) (mem : Nat → HttHostRxDesc) :
    Nat → Nat → HttRxRing → Option (List PoppedMsdu)
  | 0, _, _ => none
  | fuel + 1, msdu, ring =>
    if !(mem msdu).msduDone then none
    else
      let m := popMsdu cfg mem msdu ring
      if (mem msdu).lastMsdu then some [m]
      else
        let popped := httRxNetbufPop cfg m.ring
        (popMsdus cfg mem fuel popped.1 popped.2).map (m :: ·)

/-- `htt_rx_amsdu_pop_ll`: the MSDUs it links from `head_msdu` to `tail_msdu`. -/
def httRxAmsduPopLl (cfg : HttRxCfg) (mem : Nat → HttHostRxDesc) (fuel : Nat) (ring : HttRxRing) :
    Option (List PoppedMsdu) :=
  let popped := httRxNetbufPop cfg ring
  popMsdus cfg mem fuel popped.1 popped.2

/-- Where the turns begin: the MSDU and the ring of each. -/
def turnAt (cfg : HttRxCfg) (mem : Nat → HttHostRxDesc) (ring : HttRxRing) : Nat → Nat × HttRxRing
  | 0 => httRxNetbufPop cfg ring
  | k + 1 =>
    let turn := turnAt cfg mem ring k
    httRxNetbufPop cfg (popMsdu cfg mem turn.1 turn.2).ring

/-! ### What must hold -/

/-- The next `n` buffers of the ring, and the ring without them. -/
def popsOf (cfg : HttRxCfg) : Nat → HttRxRing → List Nat × HttRxRing
  | 0, ring => ([], ring)
  | n + 1, ring =>
    let popped := httRxNetbufPop cfg ring
    let rest := popsOf cfg n popped.2
    (popped.1 :: rest.1, rest.2)

/-- The hardware reports an MSDU that goes on over `n` more buffers, all full but the last, which holds `r` bytes. -/
structure ReportsChain (rxDesc : HttHostRxDesc) (n r : Nat) : Prop where
  chained : rxDesc.msduChained = n
  pos : 1 ≤ n
  msduLen : rxDesc.msduLen = (httRxBufSize - rxStdDescSize) + (n - 1) * httRxBufSize + r
  some_left : 1 ≤ r
  fits : r ≤ httRxBufSize

/-- An MSDU over `n` more buffers of `ring` is popped as it should be. -/
structure MsduRight (cfg : HttRxCfg) (mem : Nat → HttHostRxDesc) (msdu : Nat) (ring : HttRxRing)
    (n : Nat) (m : PoppedMsdu) : Prop where
  bufs : m.bufs.map (·.netbuf) = msdu :: (popsOf cfg n ring).1
  count : m.bufs.length = n + 1
  rest : m.ring = (popsOf cfg n ring).2
  bytes : (m.bufs.map (·.pktlen)).sum = (mem msdu).msduLen
  trims : ∀ buf ∈ m.bufs, ∀ trim ∈ buf.trim, trim.size ≤ trim.held

/-! ### The buffers -/

variable {cfg : HttRxCfg} {mem : Nat → HttHostRxDesc} {msdu n r : ℕ} {ring : HttRxRing}
  {msduLen : ℤ}

theorem popsOf_length (n : ℕ) (ring : HttRxRing) : (popsOf cfg n ring).1.length = n := by
  induction n generalizing ring with
  | zero => rfl
  | succ n ih => simp [popsOf, ih]

theorem popChained_pops (cfg : HttRxCfg) (n : ℕ) (msduLen : ℤ) (ring : HttRxRing) :
    (popChained cfg n msduLen ring).1.map (·.netbuf) = (popsOf cfg n ring).1 ∧
      (popChained cfg n msduLen ring).2 = (popsOf cfg n ring).2 := by
  induction n generalizing msduLen ring with
  | zero => exact ⟨rfl, rfl⟩
  | succ n ih =>
    obtain ⟨hbufs, hring⟩ := ih (msduLen - httRxBufSize) (httRxNetbufPop cfg ring).2
    refine ⟨?_, hring⟩
    simp only [popChained, popsOf, map_cons, hbufs]
    split <;> rfl

theorem popChained_eq (cfg : HttRxCfg) (n : ℕ) (msduLen : ℤ) (ring : HttRxRing) :
    ∃ (netbufs : List ℕ) (last : ℕ), netbufs.length = n ∧ (popChained cfg (n + 1) msduLen ring).1 =
        netbufs.map (PoppedBuf.whole · httRxBufSize) ++
          [.trimmed last httRxBufSize (chainedRest (msduLen - (n + 1) * httRxBufSize))] := by
  induction n generalizing msduLen ring with
  | zero =>
    refine ⟨[], (httRxNetbufPop cfg ring).1, rfl, ?_⟩
    simp [popChained]
  | succ n ih =>
    obtain ⟨netbufs, last, hlen, heq⟩ :=
      ih (msduLen - httRxBufSize) (httRxNetbufPop cfg ring).2
    refine ⟨(httRxNetbufPop cfg ring).1 :: netbufs, last, by rw [length_cons, hlen], ?_⟩
    have hleft : msduLen - httRxBufSize - (n + 1) * httRxBufSize =
        msduLen - ((n + 1 : ℕ) + 1) * httRxBufSize := by push_cast; ring
    rw [popChained]
    simp [heq, hleft]

theorem adfNbufTrimTail_of_le {len size : ℕ} (hsize : size ≤ len) (hlen : len < 2 ^ 32) :
    adfNbufTrimTail len size = len - size := by
  unfold adfNbufTrimTail
  dsimp only
  rw [mod_eq_of_lt (lt_of_le_of_lt hsize hlen)]
  split <;> omega

/-- At the last buffer the length is short of its bytes by a descriptor; where it has fewer, that is taken for a fault. -/
theorem chainedRest_eq (hr : r ≤ httRxBufSize) : chainedRest (r - rxStdDescSize : ℤ) =
      if rxStdDescSize ≤ r then (r - rxStdDescSize : ℤ)
      else (httRxBufSize - rxStdDescSize : ℕ) := by
  unfold chainedRest
  unfold httRxBufSize rxStdDescSize at *
  by_cases hfull : 252 ≤ r
  · have hmod : ((r - (252 : ℕ) : ℤ) % 2 ^ 32) = r - (252 : ℕ) :=
      Int.emod_eq_of_lt (by omega) (by omega)
    rw [hmod, if_neg (by omega), if_pos hfull]
  · -- the length is negative, and as a word it is too long
    have hmod : ((r - (252 : ℕ) : ℤ) % 2 ^ 32) = r - (252 : ℕ) + 2 ^ 32 := by
      rw [← Int.add_emod_right]
      exact Int.emod_eq_of_lt (by omega) (by omega)
    rw [hmod, if_pos (by omega), if_neg hfull]

theorem trimmed_last (netbuf : ℕ) (hr : r ≤ httRxBufSize) :
    let last := PoppedBuf.trimmed netbuf httRxBufSize (chainedRest (r - rxStdDescSize : ℤ))
    (last.pktlen = if rxStdDescSize ≤ r then r else httRxBufSize) ∧
      ∀ trim ∈ last.trim, trim.size ≤ trim.held := by
  have hsize : trimSize (chainedRest (r - rxStdDescSize : ℤ)) =
      if rxStdDescSize ≤ r then httRxBufSize - r else 0 := by
    rw [chainedRest_eq hr]
    unfold trimSize
    split_ifs with hfull
    · have hsub : (httRxBufSize - (rxStdDescSize + (r - rxStdDescSize : ℤ))) =
          ((httRxBufSize - r : ℕ) : ℤ) := by omega
      rw [hsub, Int.emod_eq_of_lt (by omega) (by unfold httRxBufSize; omega)]
      exact Int.toNat_natCast _
    · decide
  have hle : trimSize (chainedRest (r - rxStdDescSize : ℤ)) ≤ httRxBufSize := by
    rw [hsize]
    split_ifs
    · exact sub_le _ _
    · exact zero_le _
  refine ⟨?_, ?_⟩
  · rw [PoppedBuf.trimmed, adfNbufTrimTail_of_le hle (by decide), hsize]
    split_ifs
    · exact Nat.sub_sub_self hr
    · rfl
  · rintro _ ⟨⟩
    exact hle

theorem popMsdu_bufs (cfg : HttRxCfg) (ring : HttRxRing) (h : ReportsChain (mem msdu) n r) :
    ∃ (netbufs : List ℕ) (last : ℕ), netbufs.length = n - 1 ∧ (popMsdu cfg mem msdu ring).bufs =
        .whole msdu (httRxBufSize - httRxStdDescReservation) ::
          (netbufs.map (PoppedBuf.whole · httRxBufSize) ++
            [.trimmed last httRxBufSize (chainedRest (r - rxStdDescSize : ℤ))]) := by
  obtain ⟨n, rfl⟩ : ∃ k, n = k + 1 := ⟨n - 1, (Nat.sub_add_cancel h.pos).symm⟩
  obtain ⟨netbufs, last, hlen, heq⟩ := popChained_eq cfg n (mem msdu).msduLen ring
  refine ⟨netbufs, last, hlen, ?_⟩
  have hleft : ((mem msdu).msduLen - (n + 1) * httRxBufSize : ℤ) = r - rxStdDescSize := by
    have hroom : ((httRxBufSize - rxStdDescSize : ℕ) : ℤ) = httRxBufSize - rxStdDescSize := rfl
    rw [h.msduLen, Nat.add_sub_cancel, Nat.cast_add, Nat.cast_add, hroom]
    push_cast
    ring
  rw [PoppedMsdu.bufs, popMsdu]
  simp [h.chained, heq, hleft]

/-- The bytes of its buffers, when the last has as many as it should have, or is left whole. -/
theorem popMsdu_bytes (cfg : HttRxCfg) (ring : HttRxRing) (h : ReportsChain (mem msdu) n r) :
    ((popMsdu cfg mem msdu ring).bufs.map (·.pktlen)).sum + r =
      (mem msdu).msduLen + (if rxStdDescSize ≤ r then r else httRxBufSize) := by
  obtain ⟨netbufs, last, hlen, heq⟩ := popMsdu_bufs cfg ring h
  have hlast := (trimmed_last last h.fits).1
  have hroom : httRxBufSize - httRxStdDescReservation = httRxBufSize - rxStdDescSize := rfl
  rw [heq, h.msduLen, List.map_cons, List.map_append, List.map_singleton, List.sum_cons,
    List.sum_append, List.sum_singleton, hlast, List.map_map]
  simp only [Function.comp_def, PoppedBuf.whole, List.map_const', List.sum_replicate_nat, hlen,
    hroom]
  omega

theorem popMsdu_trims (h : ReportsChain (mem msdu) n r) :
    ∀ buf ∈ (popMsdu cfg mem msdu ring).bufs, ∀ trim ∈ buf.trim, trim.size ≤ trim.held := by
  obtain ⟨netbufs, last, -, heq⟩ := popMsdu_bufs cfg ring h
  intro buf hbuf
  rw [heq, List.mem_cons, List.mem_append, List.mem_map, List.mem_singleton] at hbuf
  obtain rfl | ⟨netbuf, -, rfl⟩ | rfl := hbuf
  · intro trim htrim
    cases htrim
  · intro trim htrim
    cases htrim
  · exact (trimmed_last last h.fits).2

theorem msduRight_iff (h : ReportsChain (mem msdu) n r) :
    MsduRight cfg mem msdu ring n (popMsdu cfg mem msdu ring) ↔ rxStdDescSize ≤ r := by
  have hbytes := popMsdu_bytes cfg ring h
  obtain ⟨hbufs, hring⟩ := popChained_pops cfg n (mem msdu).msduLen ring
  have hhead : (popMsdu cfg mem msdu ring).head.netbuf = msdu := by
    rw [popMsdu]
    split <;> rfl
  have hchained : (popMsdu cfg mem msdu ring).chained =
      (popChained cfg n (mem msdu).msduLen ring).1 := by rw [popMsdu, h.chained]
  have hcount : (popChained cfg n (mem msdu).msduLen ring).1.length = n := by
    rw [← length_map (·.netbuf), hbufs, popsOf_length]
  constructor
  · intro hright
    rw [hright.bytes, add_left_cancel_iff] at hbytes
    by_contra hshort
    rw [if_neg hshort] at hbytes
    -- a whole buffer holds more than a descriptor
    exact hshort (hbytes ▸ by decide)
  · intro hfull
    rw [if_pos hfull, add_right_cancel_iff] at hbytes
    refine ⟨?_, ?_, ?_, hbytes, popMsdu_trims h⟩
    · rw [PoppedMsdu.bufs, map_cons, hhead, hchained, hbufs]
    · rw [PoppedMsdu.bufs, length_cons, hchained, hcount]
    · rw [popMsdu, h.chained]
      exact hring

/-! ### The loop -/

theorem mem_popMsdus {fuel : ℕ} {ms : List PoppedMsdu} {m : PoppedMsdu}
    (h : popMsdus cfg mem fuel msdu ring = some ms) (hm : m ∈ ms) :
    ∃ msdu ring, m = popMsdu cfg mem msdu ring := by
  induction fuel generalizing msdu ring ms with
  | zero => cases h
  | succ fuel ih =>
    rw [popMsdus] at h
    split at h
    · cases h
    · dsimp only at h
      split at h
      · obtain rfl := some.inj h
        exact ⟨msdu, ring, mem_singleton.1 hm⟩
      · obtain ⟨rest, hrest, rfl⟩ := map_eq_some_iff.1 h
        rcases mem_cons.1 hm with rfl | hm
        · exact ⟨msdu, ring, rfl⟩
        · exact ih hrest hm

theorem popMsdus_isSome {fuel k : ℕ} (turn : ℕ → ℕ × HttRxRing)
    (hnext : ∀ j, turn (j + 1) = httRxNetbufPop cfg (popMsdu cfg mem (turn j).1 (turn j).2).ring)
    (hdone : ∀ j ≤ k, (mem (turn j).1).msduDone = true)
    (hlast : (mem (turn k).1).lastMsdu = true) (hfuel : k < fuel) :
    (popMsdus cfg mem fuel (turn 0).1 (turn 0).2).isSome := by
  induction k generalizing fuel turn with
  | zero =>
    obtain ⟨fuel, rfl⟩ : ∃ f, fuel = f + 1 := ⟨fuel - 1, by omega⟩
    rw [popMsdus, hdone 0 (le_refl 0)]
    rw [if_neg (show ¬(!true) = true by decide)]
    rw [if_pos hlast]
    rfl
  | succ k ih =>
    obtain ⟨fuel, rfl⟩ : ∃ f, fuel = f + 1 := ⟨fuel - 1, by omega⟩
    rw [popMsdus, hdone 0 (zero_le _)]
    rw [if_neg (show ¬(!true) = true by decide)]
    split
    · rfl
    · rw [isSome_map, ← hnext 0]
      exact ih (fun j => turn (j + 1)) (fun j => hnext (j + 1))
        (fun j hj => hdone (j + 1) (succ_le_succ hj)) hlast (lt_of_succ_lt_succ hfuel)

/-- **A chained MSDU is popped right exactly when its last buffer has a descriptor's bytes.**  Each MSDU of a call is one turn of the loop.  If the hardware reports it over `n` more buffers, the last with `r` bytes, the turn pops `n + 1` buffers with the bytes of the MSDU, and trims no more than there is, if and only if `r` is not below the size of a descriptor.  The call returns when one of its MSDUs is the last. -/
theorem chained_msdu_right (cfg : HttRxCfg) (mem : Nat → HttHostRxDesc) (ring : HttRxRing) :
    (∀ fuel ms, httRxAmsduPopLl cfg mem fuel ring = some ms → ∀ m ∈ ms, ∃ msdu start,
      m = popMsdu cfg mem msdu start ∧ ∀ n r, ReportsChain (mem msdu) n r →
        (MsduRight cfg mem msdu start n m ↔ rxStdDescSize ≤ r)) ∧
    ∀ k, (∀ j ≤ k, (mem (turnAt cfg mem ring j).1).msduDone = true) →
      (mem (turnAt cfg mem ring k).1).lastMsdu = true →
      ∀ fuel > k, (httRxAmsduPopLl cfg mem fuel ring).isSome := by
  refine ⟨fun fuel ms h m hm => ?_, fun k hdone hlast fuel hfuel => ?_⟩
  · obtain ⟨msdu, start, rfl⟩ := mem_popMsdus h hm
    exact ⟨msdu, start, rfl, fun n r hreport => msduRight_iff hreport⟩
  · exact popMsdus_isSome (turnAt cfg mem ring) (fun j => rfl) hdone hlast hfuel

/-! ### A short last buffer -/

/-- A last MSDU of `msduLen` bytes that goes on over one more buffer. -/
def oneMoreDesc (msduLen : Nat) : HttHostRxDesc where
  attention := 0x80000000
  fragInfo := 0x00010000
  msduStart := msduLen
  msduEnd4 := 0x00008000

theorem shortLast_notRight :
    ¬ ∀ (cfg : HttRxCfg) (mem : Nat → HttHostRxDesc) (msdu : Nat) (ring : HttRxRing) (n r : Nat),
      ReportsChain (mem msdu) n r →
        MsduRight cfg mem msdu ring n (popMsdu cfg mem msdu ring) := by
  intro h
  have hright := h ⟨800, false, true⟩ (fun _ => oneMoreDesc 1768) 0 .attached 1 100
    ⟨by decide, by decide, by decide, by decide, by decide⟩
  have hbytes := hright.bytes
  revert hbytes
  decide +kernel

theorem chained_msdu_right_longLast :
    (∃ ms, httRxAmsduPopLl ⟨800, false, true⟩ (fun _ => oneMoreDesc 2000) 1 .attached = some ms ∧
      ∀ m ∈ ms, ∃ msdu start, MsduRight ⟨800, false, true⟩ (fun _ => oneMoreDesc 2000) msdu start 1 m) ∧
    (httRxAmsduPopLl ⟨800, false, true⟩ (fun _ => oneMoreDesc 2000) 1 .attached).isSome := by
  have hright := chained_msdu_right ⟨800, false, true⟩ (fun _ => oneMoreDesc 2000) .attached
  have hsome := hright.2 0 (fun j _ => by decide) (by decide) 1 (by decide)
  obtain ⟨ms, hms⟩ := isSome_iff_exists.1 hsome
  refine ⟨⟨ms, hms, fun m hm => ?_⟩, hsome⟩
  obtain ⟨msdu, start, -, hiff⟩ := hright.1 1 ms hms m hm
  exact ⟨msdu, start, (hiff 1 332 ⟨by decide, by decide, by decide, by decide, by decide⟩).2
    (by decide)⟩

end Qcacld.Htt

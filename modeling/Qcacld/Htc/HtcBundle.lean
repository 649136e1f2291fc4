import Mathlib.Algebra.Group.Nat.Defs
import Qcacld.Htc.HtcSend
import Qcacld.Support.Tiled

/-!
# Htc — HtcBundle

`HTCIssuePacketsBundle`, down to the bytes.  It copies packets one behind the other into the buffer of a bundle, each padded to whole credits, gives the bundle to HIF when the next packet does not fit, and starts over; what is not sent goes back to the head of the queue it came from.

`bundle_layout_right` says that it does so, for every pattern of failures, exactly if no packet that comes to be laid out is longer than a credit and leaves anything but half of one over.
-/

namespace Qcacld.Htc
open Qcacld.Support List Option Nat

/-! ### Packets and bundles -/

structure BundlePacket extends HtcPacket where
  frags : List (List UInt8)
  /-- The header and the message are in the fragments. -/
  holds : actualLength + htcHdrLength ≤ frags.flatten.length

def HtcPacket.transferLength (p : HtcPacket) : Nat := p.actualLength + htcHdrLength

/-- The `creditPad` of `HTCIssuePacketsBundle`. -/
def creditPad (ep : EpConfig) (p : HtcPacket) : Nat :=
  let creditRemainder := p.transferLength % ep.txCreditSize
  if creditRemainder ≠ 0 then
    if p.transferLength < ep.txCreditSize then ep.txCreditSize - p.transferLength
    else creditRemainder
  else 0

/-- The first `nbytes` of the fragments, copied one after the other. -/
def copyFrags : Nat → List (List UInt8) → List UInt8
  | _, [] => []
  | nbytes, frag :: frags =>
    if nbytes > 0 then frag.take nbytes ++ copyFrags (nbytes - min frag.length nbytes) frags
    else []

/-- A packet in a bundle: where it was copied to, what was copied, the padding behind it, and what was written to the reserved field of its header. -/
structure Placed where
  packet : BundlePacket
  offset : Nat
  bytes : List UInt8
  pad : Nat
  reserved : Option Nat

/-- How far the pointer into the buffer is moved. -/
def Placed.advance (x : Placed) : Nat := x.bytes.length + x.pad

/-- A bundle while it is filled: the packets in `pQueueSave`, the pointer into the buffer, and `bundlesSpaceRemaining`. -/
structure Filling where
  placed : List Placed
  offset : Nat
  space : Int

open Filling

/-- A bundle that is given to HIF: its packets, and how long it is. -/
structure Bundle where
  placed : List Placed
  dataLen : Nat

def Filling.packets (f : Filling) : List BundlePacket := f.placed.map Placed.packet
def Bundle.packets (b : Bundle) : List BundlePacket := b.placed.map Placed.packet

/-! ### `HTCIssuePacketsBundle` -/

def Filling.empty (ep : EpConfig) : Filling := ⟨[], 0, bundleSpace ep⟩

/-- Copy a packet to the end of the buffer.  Only on SDIO the header is written. -/
def Filling.place (ep : EpConfig) (f : Filling) (p : BundlePacket) : Filling :=
  let pad := creditPad ep p.toHtcPacket
  let x : Placed :=
    { packet := p
      offset := f.offset
      bytes := copyFrags p.transferLength p.frags
      pad := pad
      reserved := if ep.bus = .sdio then some (pad % 2 ^ 16) else none }
  { placed := f.placed ++ [x]
    offset := f.offset + x.advance
    space := f.space - (p.transferLength + pad) }

/-- The `last_creditPad` after a packet: nothing is cut off but on USB. -/
def lastCreditPad (ep : EpConfig) (p : BundlePacket) : Nat :=
  if ep.bus = .usb then creditPad ep p.toHtcPacket else 0

/-- What `HTCSendBundledNetbuf` gives to HIF. -/
def Filling.bundle (f : Filling) (lastPad : Nat) : Bundle := ⟨f.placed, f.offset - lastPad⟩

/-- `A_STATUS`, as far as it is returned here. -/
inductive BundleStatus where
  | ok
  | ebusy
  | noMemory

/-- What a call leaves: the bundles that HIF was given and whether it accepted them, and `pPktQueue`. -/
structure BundleOutcome where
  given : List (Bundle × Bool)
  pktQueue : List BundlePacket
  status : BundleStatus

open BundleOutcome

/-- The loop, from a packet of the queue on.  `hif n` tells whether HIF accepts the bundle that it is given after `n` others, `alloc n` whether there is memory for the buffer after `n` bundles. -/
def issueBundles (ep : EpConfig) (hif alloc : Nat → Bool) (given : List (Bundle × Bool))
    (f : Filling) (lastPad : Nat) : List BundlePacket → BundleOutcome
  | [] =>
    if f.offset = 0 then ⟨given, [], .ok⟩
    else if hif given.length then ⟨given ++ [(f.bundle lastPad, true)], [], .ok⟩
    else ⟨given ++ [(f.bundle lastPad, false)], f.packets, .ebusy⟩
  | p :: pktQueue =>
    if f.space < p.transferLength + creditPad ep p.toHtcPacket then
      -- send out previous buffer
      if hif given.length then
        let given := given ++ [(f.bundle lastPad, true)]
        if pktQueue.length + 1 < htcMinMsgPerBundle then ⟨given, p :: pktQueue, .ok⟩
        else if alloc given.length then
          issueBundles ep hif alloc given ((Filling.empty ep).place ep p) (lastCreditPad ep p)
            pktQueue
        else ⟨given, p :: pktQueue, .noMemory⟩
      else ⟨given ++ [(f.bundle lastPad, false)], f.packets ++ p :: pktQueue, .ebusy⟩
    else issueBundles ep hif alloc given (f.place ep p) (lastCreditPad ep p) pktQueue

def htcIssuePacketsBundle (ep : EpConfig) (hif alloc : Nat → Bool) (pktQueue : List BundlePacket) :
    BundleOutcome :=
  if alloc 0 then issueBundles ep hif alloc [] (.empty ep) 0 pktQueue
  else ⟨[], pktQueue, .noMemory⟩

/-! ### What is to hold -/

/-- The credits a message takes, as `GetHTCSendPacketsCreditBased` counts them. -/
def transferCredits (ep : EpConfig) (p : HtcPacket) : Nat :=
  if p.transferLength ≤ ep.txCreditSize then 1
  else p.transferLength / ep.txCreditSize + if p.transferLength % ep.txCreditSize ≠ 0 then 1 else 0

def bundleBytes (ep : EpConfig) : Nat := htcMaxMsgPerBundleTx ep.bus * ep.txCreditSize

/-- A packet is in its place: its message is copied to a multiple of the credit size and inside the buffer, it takes up whole credits, and on SDIO its header says how much of that is padding. -/
structure PlacedRight (ep : EpConfig) (x : Placed) : Prop where
  message : x.bytes = x.packet.frags.flatten.take x.packet.transferLength
  aligned : ep.txCreditSize ∣ x.offset
  advance : x.advance = transferCredits ep x.packet.toHtcPacket * ep.txCreditSize
  reserved : ep.bus = .sdio → x.reserved = some x.pad
  inside : x.offset + x.bytes.length ≤ bundleBytes ep

/-- A bundle is laid out right: its packets lie one behind the other, each in its place, and it is not longer than its buffer. -/
structure BundleLaid (ep : EpConfig) (b : Bundle) : Prop where
  tiled : ∃ last, Tiled Placed.offset Placed.advance 0 b.placed last
  placed : ∀ x ∈ b.placed, PlacedRight ep x
  inside : b.dataLen ≤ bundleBytes ep

/-- The packets of the bundles that HIF accepted. -/
def acceptedPackets (given : List (Bundle × Bool)) : List BundlePacket :=
  (given.filter (·.2)).flatMap fun x => x.1.packets

def BundleOutcome.accepted (o : BundleOutcome) : List BundlePacket := acceptedPackets o.given

/-- **What is to hold of a call.**  All bundles are laid out right, and every packet is once in a bundle that HIF accepted or back in the queue, in the order it was in. -/
structure BundlesRight (ep : EpConfig) (pktQueue : List BundlePacket) (o : BundleOutcome) :
    Prop where
  laid : ∀ x ∈ o.given, BundleLaid ep x.1
  conserved : o.accepted ++ o.pktQueue = pktQueue

/-! ### When it does -/

/-- The padding of a packet is what it lacks to whole credits, and fits into the header. -/
structure PadOk (ep : EpConfig) (p : HtcPacket) : Prop where
  whole : p.transferLength < ep.txCreditSize ∨ p.transferLength % ep.txCreditSize = 0 ∨
    2 * (p.transferLength % ep.txCreditSize) = ep.txCreditSize
  fits : ep.bus = .sdio → creditPad ep p < 2 ^ 16

/-- The room in the bundle that is filled, after a packet. -/
def spaceAfter (ep : EpConfig) (space : Int) (p : BundlePacket) : Int :=
  (if space < p.transferLength + creditPad ep p.toHtcPacket then bundleSpace ep else space)
    - (p.transferLength + creditPad ep p.toHtcPacket)

/-- The last packet of a queue does not fit behind those before it, and is not laid out. -/
def LeftOver (ep : EpConfig) (space : Int) (before : List BundlePacket) (last : BundlePacket) :
    Prop :=
  before.foldl (spaceAfter ep) space < last.transferLength + creditPad ep last.toHtcPacket

/-- All packets of a queue that come to be laid out from here on are padded right. -/
def QueueOkFrom (ep : EpConfig) (space : Int) (pktQueue : List BundlePacket) : Prop :=
  ∀ before p after, pktQueue = before ++ p :: after →
    PadOk ep p.toHtcPacket ∨ after = [] ∧ LeftOver ep space before p

/-- All packets of a queue that come to be laid out are padded right. -/
def QueueOk (ep : EpConfig) (pktQueue : List BundlePacket) : Prop :=
  QueueOkFrom ep (bundleSpace ep) pktQueue

theorem queueOkFrom_nil {ep : EpConfig} {space : Int} : QueueOkFrom ep space [] :=
  fun before _ _ h => absurd h.symm (by simp)

theorem queueOkFrom_cons {ep : EpConfig} {space : Int} {p : BundlePacket}
    {pktQueue : List BundlePacket} :
    QueueOkFrom ep space (p :: pktQueue) ↔
      (PadOk ep p.toHtcPacket ∨ pktQueue = [] ∧ LeftOver ep space [] p) ∧
        QueueOkFrom ep (spaceAfter ep space p) pktQueue := by
  constructor
  · intro h
    refine ⟨h [] p pktQueue rfl, fun before q after hq => ?_⟩
    exact h (p :: before) q after (by rw [hq, cons_append])
  · rintro ⟨hp, h⟩ before q after hq
    cases before with
    | nil =>
      obtain ⟨rfl, rfl⟩ := cons.inj hq
      exact hp
    | cons b before =>
      obtain ⟨rfl, htail⟩ := cons.inj hq
      exact h before q after htail

/-! ### Padding -/

section Padding
variable {ep : EpConfig} {p : HtcPacket}

theorem HtcPacket.transferLength_pos (p : HtcPacket) : 0 < p.transferLength :=
  lt_of_lt_of_le (by decide) (le_add_left htcHdrLength p.actualLength)

theorem whole_of_le (h : p.transferLength ≤ ep.txCreditSize) :
    p.transferLength + creditPad ep p = transferCredits ep p * ep.txCreditSize := by
  have hpos := p.transferLength_pos
  rw [transferCredits, if_pos h, one_mul]
  rcases lt_or_eq_of_le h with hlt | heq
  · have hmod : p.transferLength % ep.txCreditSize ≠ 0 := by
      rw [mod_eq_of_lt hlt]
      exact Nat.pos_iff_ne_zero.1 hpos
    simp only [creditPad, if_pos hmod, if_pos hlt]
    exact Nat.add_sub_cancel' h
  · simp [creditPad, heq]

theorem whole_iff_of_lt (h : ep.txCreditSize < p.transferLength) :
    p.transferLength + creditPad ep p = transferCredits ep p * ep.txCreditSize ↔
      p.transferLength % ep.txCreditSize = 0 ∨
        2 * (p.transferLength % ep.txCreditSize) = ep.txCreditSize := by
  have hdiv := div_add_mod' p.transferLength ep.txCreditSize
  have hpad : creditPad ep p = p.transferLength % ep.txCreditSize := by
    simp only [creditPad, if_neg (not_lt.2 (le_of_lt h))]
    split
    · rfl
    · omega
  rw [hpad, transferCredits, if_neg (not_le.2 h)]
  by_cases hmod : p.transferLength % ep.txCreditSize = 0
  · simp only [hmod, add_zero, ne_eq, not_true_eq_false, if_false, true_or, iff_true]
    omega
  · rw [if_pos hmod, Nat.add_mul, Nat.one_mul]
    omega

theorem whole_iff : p.transferLength + creditPad ep p = transferCredits ep p * ep.txCreditSize ↔
      p.transferLength < ep.txCreditSize ∨ p.transferLength % ep.txCreditSize = 0 ∨
        2 * (p.transferLength % ep.txCreditSize) = ep.txCreditSize := by
  rcases lt_trichotomy p.transferLength ep.txCreditSize with h | h | h
  · exact iff_of_true (whole_of_le (le_of_lt h)) (.inl h)
  · exact iff_of_true (whole_of_le (le_of_eq h)) (.inr (.inl (by rw [h, mod_self])))
  · rw [whole_iff_of_lt h]
    exact ⟨.inr, fun h' => h'.resolve_left (lt_asymm h)⟩

theorem transferCredits_mul_le (h : p.transferLength ≤ bundleBytes ep) :
    transferCredits ep p * ep.txCreditSize ≤ bundleBytes ep := by
  have hmax : 0 < htcMaxMsgPerBundleTx ep.bus := by cases ep.bus <;> decide
  refine mul_le_mul_right _ ?_
  unfold transferCredits
  split
  · exact hmax
  · have hdiv : p.transferLength / ep.txCreditSize ≤ htcMaxMsgPerBundleTx ep.bus :=
      Nat.div_le_of_le_mul (by rwa [Nat.mul_comm])
    split
    next hmod =>
      refine lt_of_le_of_ne hdiv fun heq => hmod ?_
      have hall := div_add_mod' p.transferLength ep.txCreditSize
      rw [heq] at hall
      unfold bundleBytes at h
      omega
    · exact hdiv

end Padding

/-! ### Placing a packet -/

section Placing
variable {ep : EpConfig} {f : Filling} {p : BundlePacket}

theorem copyFrags_eq (nbytes : Nat) (frags : List (List UInt8)) :
    copyFrags nbytes frags = frags.flatten.take nbytes := by
  induction frags generalizing nbytes with
  | nil => rw [copyFrags, flatten_nil, take_nil]
  | cons frag frags ih =>
    rw [copyFrags, flatten_cons, take_append, ih]
    split
    next => rw [show nbytes - min frag.length nbytes = nbytes - frag.length by omega]
    next h =>
      obtain rfl : nbytes = 0 := by omega
      simp

theorem copyFrags_length (p : BundlePacket) :
    (copyFrags p.transferLength p.frags).length = p.transferLength := by
  rw [copyFrags_eq, length_take]
  exact min_eq_left p.holds

/-- The packet as `Filling.place` puts it into the bundle. -/
def Filling.slot (ep : EpConfig) (f : Filling) (p : BundlePacket) : Placed :=
  { packet := p
    offset := f.offset
    bytes := copyFrags p.transferLength p.frags
    pad := creditPad ep p.toHtcPacket
    reserved :=
      if ep.bus = .sdio then some (creditPad ep p.toHtcPacket % 2 ^ 16) else none }

theorem place_placed : (f.place ep p).placed = f.placed ++ [f.slot ep p] := rfl
theorem place_offset : (f.place ep p).offset = f.offset + (f.slot ep p).advance := rfl
theorem place_packets : (f.place ep p).packets = f.packets ++ [p] := by
  rw [packets, place_placed, map_append]
  rfl

@[simp] theorem slot_advance :
    (f.slot ep p).advance = p.transferLength + creditPad ep p.toHtcPacket := by
  simp [Placed.advance, slot, copyFrags_length]

theorem place_space : (f.place ep p).space = f.space - (f.slot ep p).advance := by
  rw [slot_advance, Int.natCast_add]
  rfl

theorem slot_advance_pos : 0 < (f.slot ep p).advance := by
  rw [slot_advance]
  exact Nat.add_pos_left p.transferLength_pos _

theorem slot_right (hp : PadOk ep p.toHtcPacket) (haligned : ep.txCreditSize ∣ f.offset)
    (hinside : f.offset + p.transferLength ≤ bundleBytes ep) : PlacedRight ep (f.slot ep p) where
  message := copyFrags_eq _ _
  aligned := haligned
  advance := slot_advance.trans (whole_iff.2 hp.whole)
  reserved := fun hsdio => by
    rw [slot, if_pos hsdio, mod_eq_of_lt (hp.fits hsdio)]
  inside := by
    rw [show (f.slot ep p).bytes.length = p.transferLength from copyFrags_length p]
    exact hinside

theorem padOk_of_slot (h : PlacedRight ep (f.slot ep p)) : PadOk ep p.toHtcPacket where
  whole := whole_iff.1 (slot_advance.symm.trans h.advance)
  fits := fun hsdio => by
    have hres := h.reserved hsdio
    rw [slot, if_pos hsdio] at hres
    have hmod : creditPad ep p.toHtcPacket % 2 ^ 16 = creditPad ep p.toHtcPacket :=
      some.inj hres
    rw [← hmod]
    exact mod_lt _ (by decide)

end Placing

/-! ### The layout -/

structure FillingRight (ep : EpConfig) (f : Filling) : Prop where
  tiled : Tiled Placed.offset Placed.advance 0 f.placed f.offset
  placed : ∀ x ∈ f.placed, PlacedRight ep x
  aligned : ep.txCreditSize ∣ f.offset
  room : f.offset + f.space = bundleSpace ep
  space_nonneg : 0 ≤ f.space

section Layout
variable {ep : EpConfig} {f : Filling} {p : BundlePacket}

theorem bundleSpace_eq (ep : EpConfig) : bundleSpace ep = (bundleBytes ep : Int) := by
  rw [bundleBytes, Int.natCast_mul]
  rfl

theorem FillingRight.empty (ep : EpConfig) : FillingRight ep (.empty ep) where
  tiled := rfl
  placed := fun _ hx => nomatch hx
  aligned := Nat.dvd_zero _
  room := by
    rw [Filling.empty]
    exact Int.zero_add _
  space_nonneg := by
    rw [Filling.empty, bundleSpace_eq]
    exact Int.natCast_nonneg _

theorem FillingRight.offset_le (h : FillingRight ep f) : f.offset ≤ bundleBytes ep := by
  have hroom := h.room
  have hspace := h.space_nonneg
  rw [bundleSpace_eq] at hroom
  omega

theorem FillingRight.place (h : FillingRight ep f) (hp : PadOk ep p.toHtcPacket)
    (hfit : (p.transferLength + creditPad ep p.toHtcPacket : Int) ≤ f.space) :
    FillingRight ep (f.place ep p) := by
  have hinside : f.offset + p.transferLength ≤ bundleBytes ep := by
    have hroom := h.room
    rw [bundleSpace_eq] at hroom
    omega
  have hslot : PlacedRight ep (f.slot ep p) := slot_right hp h.aligned hinside
  constructor
  · exact h.tiled.concat rfl slot_advance_pos
  · intro x hx
    rcases mem_append.1 hx with hx | hx
    · exact h.placed x hx
    · rw [mem_singleton.1 hx]
      exact hslot
  · rw [place_offset, hslot.advance]
    exact Nat.dvd_add h.aligned (Nat.dvd_mul_left _ _)
  · rw [place_space, place_offset, ← h.room, Int.natCast_add]
    omega
  · rw [place_space, slot_advance, Int.natCast_add]
    omega

theorem fits_empty (hp : PadOk ep p.toHtcPacket) (hle : p.transferLength ≤ bundleBytes ep) :
    (p.transferLength + creditPad ep p.toHtcPacket : Int) ≤ (Filling.empty ep).space := by
  have hwhole := whole_iff.2 hp.whole
  have hmul := transferCredits_mul_le hle
  rw [show (empty ep).space = bundleSpace ep from rfl, bundleSpace_eq]
  omega

theorem FillingRight.bundle (h : FillingRight ep f) (lastPad : Nat) :
    BundleLaid ep (f.bundle lastPad) where
  tiled := ⟨f.offset, h.tiled⟩
  placed := h.placed
  inside := le_trans (sub_le _ _) h.offset_le

theorem place_space_of_fits (h : ¬ f.space < p.transferLength + creditPad ep p.toHtcPacket) :
    (f.place ep p).space = spaceAfter ep f.space p := by
  rw [spaceAfter, if_neg h]
  rfl

theorem place_space_of_not_fits (h : f.space < p.transferLength + creditPad ep p.toHtcPacket) :
    ((Filling.empty ep).place ep p).space = spaceAfter ep f.space p := by
  rw [spaceAfter, if_pos h]
  rfl

end Layout

/-! ### The loop -/

section Loop
variable {ep : EpConfig} {hif alloc : Nat → Bool} {given : List (Bundle × Bool)} {f : Filling}
  {lastPad : Nat} {pktQueue : List BundlePacket}

theorem acceptedPackets_sent (b : Bundle) :
    acceptedPackets (given ++ [(b, true)]) = acceptedPackets given ++ b.packets := by
  simp [acceptedPackets]

theorem acceptedPackets_refused (b : Bundle) :
    acceptedPackets (given ++ [(b, false)]) = acceptedPackets given := by
  simp [acceptedPackets]

theorem bundle_packets : (f.bundle lastPad).packets = f.packets := rfl

theorem place_started {p : BundlePacket} :
    (f.place ep p).offset = 0 → (f.place ep p).placed = [] := by
  intro h
  have hpos : 0 < (f.place ep p).offset := Nat.add_pos_right _ slot_advance_pos
  exact absurd h (ne_of_gt hpos)

theorem issueBundles_conserved (hzero : f.offset = 0 → f.placed = []) :
    (issueBundles ep hif alloc given f lastPad pktQueue).accepted ++
        (issueBundles ep hif alloc given f lastPad pktQueue).pktQueue
      = acceptedPackets given ++ f.packets ++ pktQueue := by
  induction pktQueue generalizing given f lastPad with
  | nil =>
    rw [issueBundles]
    split
    next hoff => simp [accepted, packets, hzero hoff]
    next =>
      split
      · simp [accepted, acceptedPackets_sent, bundle_packets]
      · simp [accepted, acceptedPackets_refused]
  | cons p pktQueue ih =>
    rw [issueBundles]
    split
    · split
      · -- the bundle is on its way, and `p` is the first of the next one or goes back
        dsimp only
        split
        · simp [accepted, acceptedPackets_sent, bundle_packets]
        · split
          · rw [ih place_started, acceptedPackets_sent, bundle_packets, place_packets]
            simp [packets, empty]
          · simp [accepted, acceptedPackets_sent, bundle_packets]
      · simp [accepted, acceptedPackets_refused]
    · rw [ih place_started, place_packets]
      simp

theorem issueBundles_laid (hok : QueueOkFrom ep f.space pktQueue)
    (hle : ∀ p ∈ pktQueue, p.transferLength ≤ bundleBytes ep) (hf : FillingRight ep f)
    (hgiven : ∀ x ∈ given, BundleLaid ep x.1) :
    ∀ x ∈ (issueBundles ep hif alloc given f lastPad pktQueue).given, BundleLaid ep x.1 := by
  have hsent {given : List (Bundle × Bool)} {f : Filling} {lastPad : Nat} {taken : Bool}
      (hgiven : ∀ x ∈ given, BundleLaid ep x.1) (hf : FillingRight ep f) :
      ∀ x ∈ given ++ [(f.bundle lastPad, taken)], BundleLaid ep x.1 := by
    intro x hx
    rcases mem_append.1 hx with hx | hx
    · exact hgiven x hx
    · rw [mem_singleton.1 hx]
      exact hf.bundle lastPad
  induction pktQueue generalizing given f lastPad with
  | nil =>
    rw [issueBundles]
    split
    · exact hgiven
    · split
      · exact hsent hgiven hf
      · exact hsent hgiven hf
  | cons p pktQueue ih =>
    obtain ⟨hp, hrest⟩ := queueOkFrom_cons.1 hok
    obtain ⟨hple, hle⟩ := forall_mem_cons.1 hle
    rw [issueBundles]
    split
    next hfull =>
      split
      · dsimp only
        split
        · exact hsent hgiven hf
        next hdepth =>
          -- a packet that is left over would be the last
          have hpad : PadOk ep p.toHtcPacket := hp.resolve_right fun hlast => by
            rw [hlast.1] at hdepth
            exact hdepth (by decide)
          split
          · rw [← place_space_of_not_fits hfull] at hrest
            exact ih hrest hle ((FillingRight.empty ep).place hpad (fits_empty hpad hple))
              (hsent hgiven hf)
          · exact hsent hgiven hf
      · exact hsent hgiven hf
    next hfits =>
      have hpad : PadOk ep p.toHtcPacket := hp.resolve_right fun hlast => hfits hlast.2
      rw [← place_space_of_fits hfits] at hrest
      exact ih hrest hle (hf.place hpad (Int.not_lt.1 hfits)) hgiven

theorem given_before : given <+: (issueBundles ep hif alloc given f lastPad pktQueue).given := by
  induction pktQueue generalizing given f lastPad with
  | nil =>
    rw [issueBundles]
    split
    · exact prefix_rfl
    · split
      · exact prefix_append _ _
      · exact prefix_append _ _
  | cons p pktQueue ih =>
    rw [issueBundles]
    split
    · split
      · dsimp only
        split
        · exact prefix_append _ _
        · split
          · exact (prefix_append _ _).trans ih
          · exact prefix_append _ _
      · exact prefix_append _ _
    · exact ih

/-- When nothing fails, every packet of the queue is laid out but one that is left over, so that a bundle shows each that is padded wrong. -/
theorem queueOkFrom_of_laid (hzero : f.offset = 0 → f.placed = [])
    (h : ∀ x ∈ (issueBundles ep (fun _ => true) (fun _ => true) given f lastPad pktQueue).given,
      BundleLaid ep x.1) :
    (∀ y ∈ f.placed, PlacedRight ep y) ∧ QueueOkFrom ep f.space pktQueue := by
  induction pktQueue generalizing given f lastPad with
  | nil =>
    refine ⟨fun y hy => ?_, queueOkFrom_nil⟩
    rw [issueBundles] at h
    split at h
    next hoff =>
      rw [hzero hoff] at hy
      exact nomatch hy
    next =>
      rw [if_pos rfl] at h
      exact (h _ (mem_append_right _ (mem_singleton_self _))).placed y hy
  | cons p pktQueue ih =>
    have hmem {f : Filling} : f.slot ep p ∈ (f.place ep p).placed :=
      mem_append_right _ (mem_singleton_self _)
    rw [issueBundles] at h
    split at h
    next hfull =>
      rw [if_pos rfl] at h
      split at h
      next hdepth =>
        have hlast : pktQueue = [] := eq_nil_of_length_eq_zero (by
          rw [htcMinMsgPerBundle] at hdepth
          omega)
        refine ⟨(h _ (mem_append_right _ (mem_singleton_self _))).placed, ?_⟩
        rw [hlast]
        exact queueOkFrom_cons.2 ⟨.inr ⟨rfl, hfull⟩, queueOkFrom_nil⟩
      next =>
        rw [if_pos rfl] at h
        obtain ⟨hnew, hrest⟩ := ih place_started h
        refine ⟨(h _ (given_before.subset (mem_append_right _
          (mem_singleton_self (f.bundle lastPad, true))))).placed, ?_⟩
        rw [place_space_of_not_fits hfull] at hrest
        exact queueOkFrom_cons.2 ⟨.inl (padOk_of_slot (hnew _ hmem)), hrest⟩
    next hfits =>
      obtain ⟨hnew, hrest⟩ := ih place_started h
      refine ⟨fun y hy => hnew y (mem_append_left _ hy), ?_⟩
      rw [place_space_of_fits hfits] at hrest
      exact queueOkFrom_cons.2 ⟨.inl (padOk_of_slot (hnew _ hmem)), hrest⟩

end Loop

/-! ### The layout of the bundles -/

theorem htcIssuePacketsBundle_conserved (ep : EpConfig) (hif alloc : Nat → Bool)
    (pktQueue : List BundlePacket) :
    (htcIssuePacketsBundle ep hif alloc pktQueue).accepted ++
      (htcIssuePacketsBundle ep hif alloc pktQueue).pktQueue = pktQueue := by
  unfold htcIssuePacketsBundle
  split
  · exact issueBundles_conserved fun _ => rfl
  · rfl

/-- **A queue is bundled right, whatever fails, exactly if its packets are padded right.**  The padding of a message that is longer than a credit is what it has more than whole credits, and not what it lacks to the next one: the two are the same only if that is nothing or half a credit. -/
theorem bundle_layout_right (ep : EpConfig) (pktQueue : List BundlePacket)
    (hle : ∀ p ∈ pktQueue, p.transferLength ≤ bundleBytes ep) :
    (∀ hif alloc : Nat → Bool,
      BundlesRight ep pktQueue (htcIssuePacketsBundle ep hif alloc pktQueue)) ↔
      QueueOk ep pktQueue := by
  constructor
  · intro h
    have hlaid := (h (fun _ => true) fun _ => true).laid
    rw [htcIssuePacketsBundle, if_pos rfl] at hlaid
    exact (queueOkFrom_of_laid (fun _ => rfl) hlaid).2
  · intro hok hif alloc
    refine ⟨?_, htcIssuePacketsBundle_conserved ep hif alloc pktQueue⟩
    unfold htcIssuePacketsBundle
    split
    · exact issueBundles_laid hok hle (FillingRight.empty ep) fun _ hx => nomatch hx
    · exact fun _ hx => nomatch hx

theorem smallCredits_pos : 0 < 16 := by decide

/-- An endpoint on SDIO with credits of sixteen bytes. -/
def smallCredits : EpConfig where
  id := 1
  serviceId := .httData
  bus := .sdio
  enableBundle := true
  maxTxQueueDepth := 64
  epSendFull := false
  txCreditFlowEnabled := true
  txCreditSize := 16
  txCreditsPerMaxMsg := 2
  txCreditSize_pos := smallCredits_pos

/-- A packet in one fragment, with a message of so many bytes. -/
def onePiece (id actualLength : Nat) : BundlePacket where
  id := id
  actualLength := actualLength
  numFrags := 1
  creditsUsed := 0
  needCreditUpdate := false
  fixup := false
  netbuf := ⟨1, 1⟩
  data := true
  frags := [List.replicate (actualLength + htcHdrLength) 0]
  holds := by simp

/-- Twenty bytes of sixteen a credit are padded to twenty-four, and the next packet is put there. -/
theorem twenty_bytes_padded_wrong :
    ¬ ∀ (ep : EpConfig) (pktQueue : List BundlePacket),
      (∀ p ∈ pktQueue, p.transferLength ≤ bundleBytes ep) →
      ∀ hif alloc : Nat → Bool,
        BundlesRight ep pktQueue (htcIssuePacketsBundle ep hif alloc pktQueue) := by
  intro h
  have hright := h smallCredits [onePiece 0 12, onePiece 1 8] (by decide)
    (fun _ => true) fun _ => true
  have hlaid := hright.laid _ (List.Mem.head _)
  have hpad : PadOk smallCredits (onePiece 0 12).toHtcPacket :=
    padOk_of_slot (f := .empty smallCredits) (hlaid.placed _ (List.Mem.head _))
  exact absurd hpad.whole (by decide)

/-- A packet of less than a credit, and one of a credit and a half, that HIF does not accept. -/
theorem bundle_layout_right_halfCredit :
    BundlesRight smallCredits [onePiece 0 2, onePiece 1 16]
      (htcIssuePacketsBundle smallCredits (fun _ => false) (fun _ => true)
        [onePiece 0 2, onePiece 1 16]) := by
  refine (bundle_layout_right smallCredits [onePiece 0 2, onePiece 1 16] (by decide)).2 ?_ _ _
  have hfirst : PadOk smallCredits (onePiece 0 2).toHtcPacket :=
    ⟨by decide, fun _ => by decide⟩
  have hsecond : PadOk smallCredits (onePiece 1 16).toHtcPacket :=
    ⟨by decide, fun _ => by decide⟩
  exact queueOkFrom_cons.2 ⟨.inl hfirst, queueOkFrom_cons.2 ⟨.inl hsecond, queueOkFrom_nil⟩⟩

end Qcacld.Htc

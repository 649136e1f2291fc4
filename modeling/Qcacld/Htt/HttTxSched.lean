import Mathlib.Data.List.Basic
import Mathlib.Order.MinMax
import Qcacld.Support.Runs

/-!
# Htt — HttTxSched

The tx backlog of an HTT that is built with compact tx.  `htt_tx_send_std` gives a frame to HTC, and keeps it in `txnbufq` when HTC does not take it or others wait already; `htt_tx_sched` sends what waits.

No frame is lost or overtaken, in any run.  `tx_download_right` says when each is also sent with the download length of its own: exactly when, in each call of `htt_tx_sched`, no frame HTC takes is behind one that is shorter than that length.
-/

namespace Qcacld.Htt
open Qcacld.Support List Option Nat

/-! ### The backlog -/

/-- A frame, with the length `adf_nbuf_len` has for it. -/
structure HttFrame where
  msdu : Nat
  len : Nat

/-- A frame that `HTCSendDataPkt` took, with the length it was given for it. -/
structure Download where
  frame : HttFrame
  len : Nat

/-- The backlog, and what has come of the frames. -/
structure HttTxState where
  txnbufq : List HttFrame
  /-- Ghost: the frames HTC took, in order. -/
  sent : List Download
  /-- Ghost: the frames `htt_tx_send_std` was given, in order. -/
  given : List HttFrame

def cutTo (downloadLen packetLen : Nat) : Nat :=
  if packetLen < downloadLen then packetLen else downloadLen

/-- The loop of `htt_tx_sched`: what HTC takes, and what is left of the queue.  `accepts` is what `HTCSendDataPkt` answers to its calls; a frame it does not take goes back to the head. -/
def schedLoop : (Nat → Bool) → Nat → List HttFrame → List Download × List HttFrame
  | _, _, [] => ([], [])
  | accepts, downloadLen, msdu :: txnbufq =>
    let downloadLen := cutTo downloadLen msdu.len
    if accepts 0 then
      let rest := schedLoop (accepts ∘ Nat.succ) downloadLen txnbufq
      (⟨msdu, downloadLen⟩ :: rest.1, rest.2)
    else ([], msdu :: txnbufq)

/-- `htt_tx_sched`, for a device whose `download_len` is `downloadLen` -/
def httTxSched (downloadLen : Nat) (s : HttTxState) (accepts : Nat → Bool) : HttTxState :=
  let done := schedLoop accepts downloadLen s.txnbufq
  { s with txnbufq := done.2, sent := s.sent ++ done.1 }

def httTxSendStd (downloadLen : Nat) (s : HttTxState) (msdu : HttFrame) (accepts : Nat → Bool) :
    HttTxState :=
  let s := { s with given := s.given ++ [msdu] }
  if s.txnbufq.length > 0 then
    httTxSched downloadLen { s with txnbufq := s.txnbufq ++ [msdu] } accepts
  else if accepts 0 then
    { s with sent := s.sent ++ [⟨msdu, cutTo downloadLen msdu.len⟩] }
  else { s with txnbufq := s.txnbufq ++ [msdu] }

/-! ### Runs -/

/-- What is done to the backlog, and what HTC answers. -/
inductive HttTxEvent where
  | sendStd (msdu : HttFrame) (accepts : Nat → Bool)
  | sched (accepts : Nat → Bool)

def httTxStep (downloadLen : Nat) (s : HttTxState) : HttTxEvent → HttTxState
  | .sendStd msdu accepts => httTxSendStd downloadLen s msdu accepts
  | .sched accepts => httTxSched downloadLen s accepts

def httTxMachine (downloadLen : Nat) : Machine HttTxState HttTxEvent where
  init s := s = ⟨[], [], []⟩
  step s e := some (httTxStep downloadLen s e)

/-! ### What must hold -/

/-- Frames reach HTC in the order given, and none is lost or sent twice. -/
def InOrder (s : HttTxState) : Prop := s.sent.map (·.frame) ++ s.txnbufq = s.given

/-- Each is sent with the download length of its own. -/
def OwnLength (downloadLen : Nat) (sent : List Download) : Prop :=
  ∀ d ∈ sent, d.len = min d.frame.len downloadLen

def accepted : (Nat → Bool) → List HttFrame → List HttFrame
  | _, [] => []
  | accepts, msdu :: txnbufq =>
    if accepts 0 then msdu :: accepted (accepts ∘ Nat.succ) txnbufq else []

/-- None of them is behind one that is shorter than the download length of its own. -/
def SchedOk (downloadLen : Nat) (accepts : Nat → Bool) (txnbufq : List HttFrame) : Prop :=
  (accepted accepts txnbufq).Pairwise fun ahead msdu => min msdu.len downloadLen ≤ ahead.len
deriving Decidable

/-- So it is with the queue that the event has `htt_tx_sched` go over, if it has it. -/
def TxStepOk (downloadLen : Nat) (s : HttTxState) : HttTxEvent → Prop
  | .sendStd msdu accepts =>
    s.txnbufq ≠ [] → SchedOk downloadLen accepts (s.txnbufq ++ [msdu])
  | .sched accepts => SchedOk downloadLen accepts s.txnbufq

instance (downloadLen : Nat) (s : HttTxState) : (e : HttTxEvent) →
    Decidable (TxStepOk downloadLen s e)
  | .sendStd msdu accepts =>
    inferInstanceAs (Decidable (_ ≠ _ → SchedOk downloadLen accepts (s.txnbufq ++ [msdu])))
  | .sched accepts => inferInstanceAs (Decidable (SchedOk downloadLen accepts s.txnbufq))

/-! ### One call -/

variable {downloadLen : ℕ} {accepts : ℕ → Bool} {s s' : HttTxState} {e : HttTxEvent}
  {txnbufq : List HttFrame}

theorem cutTo_eq (downloadLen packetLen : ℕ) :
    cutTo downloadLen packetLen = min packetLen downloadLen := by
  unfold cutTo
  rcases lt_or_ge packetLen downloadLen with hlt | hge
  · rw [if_pos hlt, min_eq_left hlt.le]
  · rw [if_neg (not_lt.2 hge), min_eq_right hge]

theorem schedLoop_order (accepts : ℕ → Bool) (len : ℕ) (txnbufq : List HttFrame) :
    (schedLoop accepts len txnbufq).1.map (·.frame) ++ (schedLoop accepts len txnbufq).2 =
      txnbufq := by
  induction txnbufq generalizing accepts len with
  | nil => rfl
  | cons msdu txnbufq ih =>
    rw [schedLoop]
    split
    · rw [map_cons, cons_append, ih]
    · rfl

/-- With `len` left of the download length, the lengths are right exactly when no frame needs more than is left when its turn comes. -/
theorem schedLoop_ownLength {len : ℕ} (hlen : len ≤ downloadLen) (accepts : ℕ → Bool)
    (txnbufq : List HttFrame) :
    OwnLength downloadLen (schedLoop accepts len txnbufq).1 ↔
      (∀ msdu ∈ accepted accepts txnbufq, min msdu.len downloadLen ≤ len) ∧
        SchedOk downloadLen accepts txnbufq := by
  induction txnbufq generalizing accepts len with
  | nil => simp [schedLoop, accepted, SchedOk, OwnLength]
  | cons msdu txnbufq ih =>
    rw [schedLoop, SchedOk, accepted]
    by_cases htaken : accepts 0 = true
    · have hcut : cutTo len msdu.len ≤ downloadLen := by
        rw [cutTo_eq]
        exact (min_le_right _ _).trans hlen
      have hhead : cutTo len msdu.len = min msdu.len downloadLen ↔
          min msdu.len downloadLen ≤ len := by
        rw [cutTo_eq]
        constructor
        · intro heq
          rw [← heq]
          exact min_le_right _ _
        · intro hle
          exact le_antisymm (min_le_min_left _ hlen) (le_min (min_le_left _ _) hle)
      rw [if_pos htaken, if_pos htaken, OwnLength, forall_mem_cons, pairwise_cons, forall_mem_cons]
      rw [hhead]
      have hrest := ih hcut (accepts ∘ succ)
      rw [OwnLength] at hrest
      rw [hrest, SchedOk, cutTo_eq]
      simp only [le_min_iff]
      constructor
      · rintro ⟨hmsdu, hall, hpairs⟩
        exact ⟨⟨hmsdu, fun g hg => (hall g hg).2⟩, fun g hg => (hall g hg).1, hpairs⟩
      · rintro ⟨⟨hmsdu, hleft⟩, hahead, hpairs⟩
        exact ⟨hmsdu, fun g hg => ⟨hahead g hg, hleft g hg⟩, hpairs⟩
    · rw [if_neg htaken, if_neg htaken]
      simp [OwnLength]

/-! ### The runs -/

theorem ownLength_append {sent sent' : List Download} : OwnLength downloadLen (sent ++ sent') ↔
      OwnLength downloadLen sent ∧ OwnLength downloadLen sent' :=
  forall_mem_append

/-- A call of `htt_tx_sched` sends what it sends with the lengths of their own. -/
theorem httTxSched_ownLength (downloadLen : ℕ) (s : HttTxState) (accepts : ℕ → Bool) :
    OwnLength downloadLen (httTxSched downloadLen s accepts).sent ↔
      OwnLength downloadLen s.sent ∧ SchedOk downloadLen accepts s.txnbufq := by
  rw [httTxSched, ownLength_append, schedLoop_ownLength (le_refl downloadLen)]
  refine and_congr_right' (and_iff_right ?_)
  exact fun msdu _ => min_le_right _ _

theorem httTxSched_inOrder (downloadLen : ℕ) (accepts : ℕ → Bool) (h : InOrder s) :
    InOrder (httTxSched downloadLen s accepts) := by
  rw [InOrder] at *
  rw [httTxSched, map_append, append_assoc, schedLoop_order]
  exact h

theorem httTxStep_inOrder (downloadLen : ℕ) (e : HttTxEvent) (h : InOrder s) :
    InOrder (httTxStep downloadLen s e) := by
  cases e with
  | sched accepts => exact httTxSched_inOrder downloadLen accepts h
  | sendStd msdu accepts =>
    have hgiven : s.sent.map (·.frame) ++ (s.txnbufq ++ [msdu]) = s.given ++ [msdu] := by
      rw [← append_assoc]
      exact congrArg (· ++ [msdu]) h
    rw [httTxStep, httTxSendStd]
    split
    · exact httTxSched_inOrder downloadLen accepts hgiven
    · rename_i hempty
      have hnil : s.txnbufq = [] := by simpa using hempty
      rw [hnil] at hgiven
      split
      · rw [InOrder]
        rw [hnil, map_append, append_nil]
        exact hgiven
      · rw [InOrder]
        rw [hnil]
        exact hgiven

theorem httTxStep_ownLength (downloadLen : ℕ) (s : HttTxState) (e : HttTxEvent) :
    OwnLength downloadLen (httTxStep downloadLen s e).sent ↔
      OwnLength downloadLen s.sent ∧ TxStepOk downloadLen s e := by
  cases e with
  | sched accepts => exact httTxSched_ownLength downloadLen s accepts
  | sendStd msdu accepts =>
    rw [httTxStep, httTxSendStd, TxStepOk]
    split
    · rename_i hwaiting
      have hne : s.txnbufq ≠ [] := ne_nil_of_length_pos hwaiting
      rw [httTxSched_ownLength]
      exact and_congr_right' ⟨fun h _ => h, fun h => h hne⟩
    · rename_i hempty
      have hnil : s.txnbufq = [] := by simpa using hempty
      have hok : s.txnbufq ≠ [] → SchedOk downloadLen accepts (s.txnbufq ++ [msdu]) :=
        fun hne => absurd hnil hne
      rw [and_iff_left hok]
      split
      · rw [ownLength_append, and_iff_left]
        intro d hd
        rw [mem_singleton.1 hd]
        exact cutTo_eq downloadLen msdu.len
      · exact Iff.rfl

/-- Over a run, the lengths stay right exactly as long as every event is as it should be. -/
theorem run_ownLength {es : List HttTxEvent} (h : (httTxMachine downloadLen).run s es = some s') :
    OwnLength downloadLen s'.sent ↔ OwnLength downloadLen s.sent ∧
        (httTxMachine downloadLen).Along (TxStepOk downloadLen) s es := by
  induction es generalizing s with
  | nil =>
    obtain rfl := some.inj h
    exact (and_iff_left trivial).symm
  | cons e es ih =>
    have hstep : (httTxMachine downloadLen).step s e = some (httTxStep downloadLen s e) := rfl
    rw [Machine.run_cons, hstep, bind_some] at h
    rw [ih h, httTxStep_ownLength, Machine.along_cons_of_step hstep, and_assoc]

/-- **Frames stay in order, and have download lengths of their own exactly when no call of `htt_tx_sched` gets a frame taken behind one that is shorter than that.** -/
theorem tx_download_right (downloadLen : Nat) (es : List HttTxEvent) :
    ∃ s, (httTxMachine downloadLen).run ⟨[], [], []⟩ es = some s ∧ InOrder s ∧
      (OwnLength downloadLen s.sent ↔
        (httTxMachine downloadLen).Along (TxStepOk downloadLen) ⟨[], [], []⟩ es) := by
  have htotal : ∀ s : HttTxState, InOrder s → ∃ s',
      (httTxMachine downloadLen).run s es = some s' ∧ InOrder s' := by
    induction es with
    | nil => exact fun s h => ⟨s, rfl, h⟩
    | cons e es ih => exact fun s h => ih _ (httTxStep_inOrder downloadLen e h)
  obtain ⟨s, hrun, horder⟩ := htotal ⟨[], [], []⟩ rfl
  refine ⟨s, hrun, horder, ?_⟩
  rw [run_ownLength hrun]
  exact and_iff_right fun d hd => nomatch hd

/-! ### A short frame in the backlog -/

/-- HTC takes none of three frames, the second of which is short, and then all. -/
def shortInBacklog : List HttTxEvent :=
  [.sendStd ⟨1, 200⟩ fun _ => false, .sendStd ⟨2, 60⟩ fun _ => false,
    .sendStd ⟨3, 200⟩ fun _ => false, .sched fun _ => true]

theorem shortInBacklog_cut :
    ¬ ∀ (downloadLen : Nat) (es : List HttTxEvent) (s : HttTxState),
      (httTxMachine downloadLen).run ⟨[], [], []⟩ es = some s →
        InOrder s ∧ OwnLength downloadLen s.sent := by
  intro h
  have hown := (h 100 shortInBacklog
    ⟨[], [⟨⟨1, 200⟩, 100⟩, ⟨⟨2, 60⟩, 60⟩, ⟨⟨3, 200⟩, 60⟩], [⟨1, 200⟩, ⟨2, 60⟩, ⟨3, 200⟩]⟩ rfl).2
  exact absurd (hown ⟨⟨3, 200⟩, 60⟩ (by simp)) (by decide)

end Qcacld.Htt

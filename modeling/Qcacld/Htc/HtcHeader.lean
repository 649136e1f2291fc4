import Qcacld.Htc.HtcFlow

/-!
# Htc — HtcHeader

The frame header and the DMA mapping of the buffers of an endpoint.  `HTCSendPktsMultiple` pushes the header.  It also maps the buffer and sets `HTC_TX_PACKET_FLAG_FIXUP_NETBUF`, unless the endpoint has credit flow, where `HTCIssuePackets` does that, each time a packet comes by.  `RestoreTxPacket` undoes both when it finds the flag set, and nothing otherwise.

`netbufs_balanced_iff` says exactly which steps of a run bring a buffer to HIF that is not mapped once, or one back to its owner that is not as it was.
-/

namespace Qcacld.Htc
open Qcacld.Support Function List Option HtcPacket

/-! ### What must hold -/

/-- What `HIFSend_head` may be given: a buffer with one frame header, mapped once.  A bundle is a copy of frames with one header each. -/
def HtcSend.Balanced : HtcSend → Prop
  | .single pPacket => pPacket.netbuf = ⟨1, 1⟩
  | .bundle pQueueSave => ∀ p ∈ pQueueSave, p.netbuf.hdrs = 1

/-- A packet whose buffer is as HTC was given it. -/
def HtcPacket.AsGiven (p : HtcPacket) : Prop :=
  p.netbuf = if p.data then ⟨1, 1⟩ else ⟨0, 0⟩

/-- Headers and mappings are in balance, in the sends that are under way, in those of the past, and in what the owner got back. -/
structure NetbufsBalanced (s : HtcEndpoint) : Prop where
  sending : ∀ t who callers send sendQueue,
    s.calls t = some (.draining who callers (.sending send sendQueue)) → send.Balanced
  given : ∀ send ∈ s.given, send.Balanced
  returned : ∀ p ∈ s.returned, p.AsGiven

/-! ### When it does -/

/-- The buffer has been mapped, by the owner of a data frame, or by HTC. -/
def HtcPacket.isMapped (p : HtcPacket) : Bool := p.data || p.fixup

/-- A drainer maps what it issues exactly if it is not mapped yet. -/
def MapsOnce (ep : EpConfig) (who : Drainer) (p : HtcPacket) : Prop :=
  p.isMapped = true ↔ ¬ (who = .trySend ∧ ep.txCreditFlowEnabled = true)
deriving Decidable

/-- The overflow of an endpoint with credit flow is not shown to the owner. -/
def ShowsNone (ep : EpConfig) (s : HtcEndpoint) (msgs : List HtcMsg) : Prop :=
  ep.txCreditFlowEnabled = true → ep.epSendFull = true → overflow ep s.txQueue.length msgs.length ≤ 0

/-- What a drainer issues next by itself, and not in a bundle. -/
def issuedNext (ep : EpConfig) (alloc : Bool) : Call → Option (Drainer × HtcPacket)
  | .draining who _ (.issue sendQueue) =>
    if bundles ep who sendQueue ∧ alloc then none else sendQueue.head?.map (who, ·)
  | .draining who _ (.dequeue sendQueue) => sendQueue.head?.map (who, ·)
  | _ => none

/-- What `HTCTxCompletionHandler` is about to give back. -/
def completedNext (s : HtcEndpoint) : Call → List HtcPacket
  | .completion send => if send ∈ s.txLookupQueue then send.packets else []
  | _ => []

/-- An event that issues a packet mapped once, and gives none back that was never mapped. -/
def NetbufStepOk (ep : EpConfig) (s : HtcEndpoint) : HtcEvent → Prop
  | .sendPktsMultiple _ msgs _ => ShowsNone ep s msgs
  | .issue t alloc => ∀ c ∈ s.calls t, ∀ x ∈ issuedNext ep alloc c, MapsOnce ep x.1 x.2
  | .lock t => ∀ c ∈ s.calls t, ∀ p ∈ completedNext s c, p.isMapped = true
  | .flush => ∀ p ∈ s.txQueue, p.isMapped = true
  | _ => True

instance (ep : EpConfig) (s : HtcEndpoint) : (e : HtcEvent) → Decidable (NetbufStepOk ep s e)
  | .sendPktsMultiple _ _ _ => inferInstanceAs (Decidable (_ → _ → _ ≤ _))
  | .issue t alloc => inferInstanceAs
    (Decidable (∀ c ∈ s.calls t, ∀ x ∈ issuedNext ep alloc c, MapsOnce ep x.1 x.2))
  | .lock t => inferInstanceAs
    (Decidable (∀ c ∈ s.calls t, ∀ p ∈ completedNext s c, p.isMapped = true))
  | .flush => inferInstanceAs (Decidable (∀ p ∈ s.txQueue, p.isMapped = true))
  | .trySend _ | .sendDataPkt .. | .readResources _ | .hifSend .. | .clear _ | .complete ..
  | .creditRpt .. | .setNodropPkt _ => .isTrue trivial

/-! ### Packets on their way -/

/-- A packet between its owner and HIF: it has its header, and the flag tells whether HTC has mapped it. -/
structure HtcPacket.Ready (p : HtcPacket) : Prop where
  hdrs : p.netbuf.hdrs = 1
  maps : p.netbuf.maps = if p.isMapped then 1 else 0
  owner : p.data = true → p.fixup = false

/-- A packet of `HTCSendPktsMultiple` that goes back, with nothing left to restore. -/
structure HtcPacket.Cleared (p : HtcPacket) : Prop where
  netbuf : p.netbuf = ⟨0, 0⟩
  fixup : p.fixup = false
  data : p.data = false

def HtcSend.Ready : HtcSend → Prop
  | .single p => p.Ready ∧ p.isMapped = true
  | .bundle ps => ∀ p ∈ ps, p.Ready

def DrainPc.Ready : DrainPc → Prop
  | .issue q | .dequeue q | .failed q => ∀ p ∈ q, p.Ready
  | .sending send q => send.Ready ∧ ∀ p ∈ q, p.Ready
  | .issued | .look _ | .clear => True

def Call.Ready : Call → Prop
  | .entering sendQueue callers _ => (∀ p ∈ sendQueue, p.Ready) ∧ ∀ p ∈ callers, p.Cleared
  | .draining _ callers pc => (∀ p ∈ callers, p.Cleared) ∧ pc.Ready
  | .notify | .completion _ => True

/-- All packets are ready, wherever they are, and those that were handed on were in balance. -/
structure Tidy (s : HtcEndpoint) : Prop where
  txQueue : ∀ p ∈ s.txQueue, p.Ready
  txLookupQueue : ∀ send ∈ s.txLookupQueue, send.Ready
  calls : ∀ t c, s.calls t = some c → c.Ready
  given : ∀ send ∈ s.given, send.Balanced
  returned : ∀ p ∈ s.returned, p.AsGiven

section Packets
variable {ep : EpConfig} {who : Drainer} {p : HtcPacket} {send : HtcSend}

theorem HtcPacket.Ready.netbuf_eq (h : p.Ready) (hm : p.isMapped = true) : p.netbuf = ⟨1, 1⟩ := by
  have hmaps := h.maps
  rw [if_pos hm] at hmaps
  exact congrArg₂ Netbuf.mk h.hdrs hmaps

theorem HtcSend.Ready.balanced (h : send.Ready) : send.Balanced := by
  cases send with
  | single p => exact h.1.netbuf_eq h.2
  | bundle ps => exact fun p hp => (h p hp).hdrs

theorem HtcSend.Ready.packets (h : send.Ready) : ∀ p ∈ send.packets, p.Ready := by
  cases send with
  | single p =>
    intro p' hp'
    cases mem_singleton.1 hp'
    exact h.1
  | bundle ps => exact h

theorem restoreTxPacket_eq (hf : p.fixup = false) : restoreTxPacket p = p :=
  if_neg (by simp [hf])

theorem HtcPacket.Cleared.asGiven (h : p.Cleared) : p.AsGiven := by
  rw [HtcPacket.AsGiven, h.data, h.netbuf]
  rfl

theorem cleared_restoreTxPacket (h : p.Ready) (hf : p.fixup = true) :
    (restoreTxPacket p).Cleared := by
  have hd : p.data = false := by
    cases hd : p.data with
    | true => cases hf.symm.trans (h.owner hd)
    | false => rfl
  have hbuf := h.netbuf_eq (by simp [isMapped, hf])
  rw [restoreTxPacket, if_pos hf, hbuf]
  exact ⟨rfl, rfl, hd⟩

/-- `RestoreTxPacket` gives back what HTC was given exactly if the buffer was mapped. -/
theorem asGiven_restoreTxPacket_iff (h : p.Ready) :
    (restoreTxPacket p).AsGiven ↔ p.isMapped = true := by
  cases hf : p.fixup with
  | true =>
    have hm : p.isMapped = true := by simp [isMapped, hf]
    exact iff_of_true (cleared_restoreTxPacket h hf).asGiven hm
  | false =>
    rw [restoreTxPacket_eq hf, HtcPacket.AsGiven]
    cases hd : p.data with
    | true =>
      have hm : p.isMapped = true := by simp [isMapped, hd]
      exact iff_of_true (h.netbuf_eq hm) hm
    | false =>
      -- the header stays
      refine iff_of_false (fun hbuf => ?_) (by simp [isMapped, hd, hf])
      cases h.hdrs.symm.trans (congrArg Netbuf.hdrs hbuf)

theorem HtcPacket.Cleared.pushHead (h : p.Cleared) : p.pushHead.Ready where
  hdrs := by simp [HtcPacket.pushHead, h.netbuf]
  maps := by simp [HtcPacket.pushHead, HtcPacket.isMapped, h.netbuf, h.fixup, h.data]
  owner _ := h.fixup

theorem ready_prepare (ep : EpConfig) (msg : HtcMsg) : (prepare ep msg).Ready := by
  have hcleared : msg.packet.Cleared := ⟨rfl, rfl, rfl⟩
  unfold prepare
  split
  · exact hcleared.pushHead
  · exact ⟨rfl, rfl, nofun⟩

theorem ready_dataPacket (ep : EpConfig) (msg : HtcMsg) : (msg.dataPacket ep).Ready :=
  ⟨rfl, rfl, fun _ => rfl⟩

/-- What a drainer stores for a packet it issues by itself is mapped once, or not at all, or twice. -/
theorem balanced_submit_iff (h : p.Ready) :
    HtcSend.Balanced (.single (submit ep who p)) ↔ MapsOnce ep who p := by
  have hhdrs := h.hdrs
  have hmaps := h.maps
  simp only [HtcSend.Balanced, submit, MapsOnce]
  by_cases hmap : who = .trySend ∧ ep.txCreditFlowEnabled = true
  · rw [if_pos hmap]
    cases hm : p.isMapped <;>
      simp [fixupMap, hhdrs, hmaps, hm, hmap]
  · rw [if_neg hmap]
    cases hm : p.isMapped with
    | true => simp [h.netbuf_eq hm, hmap]
    | false =>
      refine iff_of_false (fun hbuf => ?_) (by simp [hmap])
      rw [hbuf, hm] at hmaps
      cases hmaps

theorem ready_submit (h : p.Ready) (hok : MapsOnce ep who p) :
    HtcSend.Ready (.single (submit ep who p)) := by
  unfold submit
  by_cases hmap : who = .trySend ∧ ep.txCreditFlowEnabled = true
  · have hm : p.isMapped = false := by simpa [MapsOnce, hmap] using hok
    have hmaps := h.maps
    have hd : p.data = false := (Bool.or_eq_false_iff.1 hm).1
    have hm' : p.fixupMap.isMapped = true := by simp [fixupMap, isMapped]
    rw [if_pos hmap]
    refine ⟨⟨h.hdrs, ?_, fun hd' => nomatch hd.symm.trans hd'⟩, hm'⟩
    rw [if_pos hm']
    simp [fixupMap, hmaps, hm]
  · rw [if_neg hmap]
    exact ⟨h, hok.2 hmap⟩

end Packets

section Accept
variable {ep : EpConfig} {depth : ℕ} {callers : List HtcPacket} {keep : List ℕ}

/-- The owner is shown something exactly if there is overflow and somebody to show it to. -/
theorem shown_eq_nil_iff (hne : callers ≠ []) : (acceptPackets ep depth callers keep).2.2 = [] ↔
      (ep.epSendFull = true → overflow ep depth callers.length ≤ 0) := by
  have hlen : 0 < callers.length := length_pos_of_ne_nil hne
  unfold acceptPackets
  dsimp only
  split
  · rename_i hfits
    exact iff_of_true rfl fun hfull => hfits.resolve_right fun h => h hfull
  · rename_i hover
    simp only [not_or, not_not] at hover
    obtain ⟨hover, hfull⟩ := hover
    refine iff_of_false ?_ fun h => hover (h hfull)
    simp only [map_eq_nil_iff, drop_eq_nil_iff]
    omega

/-- If what is shown has been mapped by HTC, it is clear; what the owner keeps of it gets its header again. -/
theorem acceptPackets_tidy (hready : ∀ p ∈ callers, p.Ready)
    (hfix : (acceptPackets ep depth callers keep).2.2 = [] ∨ ∀ p ∈ callers, p.fixup = true) :
    (∀ p ∈ (acceptPackets ep depth callers keep).1, p.Ready) ∧
    (∀ p ∈ (acceptPackets ep depth callers keep).2.1, p.Cleared) ∧
    ∀ p ∈ (acceptPackets ep depth callers keep).2.2, p.Cleared := by
  unfold acceptPackets at hfix ⊢
  dsimp only at hfix ⊢
  split at hfix
  · rename_i hfits
    rw [if_pos hfits]
    exact ⟨hready, nofun, nofun⟩
  · rename_i hover
    rw [if_neg hover]
    have hshown : ∀ p ∈ (callers.drop
        (callers.length - overflow ep depth callers.length).toNat).map restoreTxPacket,
        p.Cleared := by
      rcases hfix with hnil | hfix
      · dsimp only at hnil
        rw [hnil]
        exact nofun
      · intro p hp
        obtain ⟨p', hp', rfl⟩ := mem_map.1 hp
        have hmem := mem_of_mem_drop hp'
        exact cleared_restoreTxPacket (hready p' hmem) (hfix p' hmem)
    refine ⟨fun p hp => ?_, fun p hp => hshown p (mem_of_mem_filter hp), hshown⟩
    rcases mem_append.1 hp with hgood | hkept
    · exact hready p (mem_of_mem_take hgood)
    · obtain ⟨p', hp', rfl⟩ := mem_map.1 hkept
      exact (hshown p' (mem_of_mem_filter hp')).pushHead

theorem takePackets_all {s : HtcEndpoint} {P : HtcPacket → Prop}
    (hP : ∀ p c n, P { p with creditsUsed := c, needCreditUpdate := n } = P p)
    (h : ∀ p ∈ s.txQueue, P p) (r : ℕ) :
    (∀ p ∈ (takePackets ep s r).1, P p) ∧ ∀ p ∈ (takePackets ep s r).2.txQueue, P p := by
  have hmap := takePackets_map ep s r P hP
  have hall : ∀ a ∈ (takePackets ep s r).1.map P ++ (takePackets ep s r).2.txQueue.map P, a := by
    rw [hmap]
    intro a ha
    obtain ⟨p, hp, rfl⟩ := mem_map.1 ha
    exact h p hp
  constructor
  · intro p hp
    exact hall _ (mem_append_left _ (mem_map_of_mem hp))
  · intro p hp
    exact hall _ (mem_append_right _ (mem_map_of_mem hp))

theorem ready_charged (p : HtcPacket) (c : ℕ) (n : Bool) :
    HtcPacket.Ready { p with creditsUsed := c, needCreditUpdate := n } = p.Ready :=
  propext ⟨fun h => ⟨h.hdrs, h.maps, h.owner⟩, fun h => ⟨h.hdrs, h.maps, h.owner⟩⟩

end Accept

/-! ### Parts of steps -/

section Parts
variable {ep : EpConfig} {s s' : HtcEndpoint} {t : ℕ} {x : Option Call} {who : Drainer}
  {callers q : List HtcPacket} {send : HtcSend}

theorem Tidy.balanced (h : Tidy s) : NetbufsBalanced s where
  sending t _ _ _ _ hc := (h.calls t _ hc).2.1.balanced
  given := h.given
  returned := h.returned

theorem Tidy.goTo (h : Tidy s) (hx : ∀ c ∈ x, c.Ready) : Tidy (s.goTo t x) where
  txQueue := h.txQueue
  txLookupQueue := h.txLookupQueue
  calls u c hu := by
    have hu' : update s.calls t x u = some c := hu
    by_cases hut : u = t
    · subst hut
      rw [update_self] at hu'
      exact hx c hu'
    · rw [update_of_ne hut] at hu'
      exact h.calls u c hu'
  given := h.given
  returned := h.returned

theorem Tidy.congr (h : Tidy s) (hq : s'.txQueue = s.txQueue)
    (hl : s'.txLookupQueue = s.txLookupQueue) (hc : s'.calls = s.calls) (hg : s'.given = s.given)
    (hr : s'.returned = s.returned) : Tidy s' :=
  ⟨hq ▸ h.txQueue, hl ▸ h.txLookupQueue, hc ▸ h.calls, hg ▸ h.given, hr ▸ h.returned⟩

theorem Tidy.givesBack (h : Tidy s) {ps : List HtcPacket} (hps : ∀ p ∈ ps, p.AsGiven) :
    Tidy { s with returned := s.returned ++ ps } where
  txQueue := h.txQueue
  txLookupQueue := h.txLookupQueue
  calls := h.calls
  given := h.given
  returned p hp := by
    rcases mem_append.1 hp with hp | hp
    · exact h.returned p hp
    · exact hps p hp

theorem Tidy.returns (h : Tidy s) (hcallers : ∀ p ∈ callers, p.Cleared) :
    Tidy (s.returns t callers) := by
  have hgone : Tidy (s.goTo t none) := h.goTo nofun
  refine hgone.givesBack fun p hp => ?_
  obtain ⟨p', hp', rfl⟩ := mem_map.1 hp
  have hcleared := hcallers p' hp'
  rw [restoreTxPacket_eq hcleared.fixup]
  exact hcleared.asGiven

theorem Tidy.finish (h : Tidy s) (hcallers : ∀ p ∈ callers, p.Cleared) :
    Tidy (s.finish t callers) := by
  have hfree : Tidy { s with txProcessCount := 0 } := h.congr rfl rfl rfl rfl rfl
  exact hfree.returns hcallers

theorem Tidy.requeue (h : Tidy s) (hq : ∀ p ∈ q, p.Ready) : Tidy { s with txQueue := q } :=
  ⟨hq, h.txLookupQueue, h.calls, h.given, h.returned⟩

theorem Tidy.takes (h : Tidy s) (r : ℕ) (hcallers : ∀ p ∈ callers, p.Cleared) :
    Tidy ((takePackets ep s r).2.goTo t
      (some (.draining who callers (.issue (takePackets ep s r).1)))) := by
  obtain ⟨htaken, hleft⟩ : (∀ p ∈ (takePackets ep s r).1, p.Ready) ∧
      ∀ p ∈ (takePackets ep s r).2.txQueue, p.Ready :=
    takePackets_all ready_charged h.txQueue r
  obtain ⟨c, q, hframe⟩ := takePackets_frame ep s r
  have hrest : Tidy (takePackets ep s r).2 := by
    rw [hframe] at hleft ⊢
    exact ⟨hleft, h.txLookupQueue, h.calls, h.given, h.returned⟩
  refine hrest.goTo fun c hc => ?_
  cases hc
  exact ⟨hcallers, htaken⟩

theorem Tidy.drain (h : Tidy s) (hcallers : ∀ p ∈ callers, p.Cleared) (r : ℕ) :
    Tidy (s.drain ep t callers r) := by
  unfold HtcEndpoint.drain
  split
  · exact h.finish hcallers
  · dsimp only
    split
    · rename_i hnil
      rw [takePackets_of_nil hnil]
      exact h.finish hcallers
    · exact h.takes _ hcallers

theorem Tidy.append (h : Tidy s) (hq : ∀ p ∈ q, p.Ready) : Tidy (s.append q) := by
  unfold HtcEndpoint.append
  split
  · exact h
  · split
    · have hboth : ∀ p ∈ q ++ s.txQueue, p.Ready := forall_mem_append.2 ⟨hq, h.txQueue⟩
      exact (h.requeue hboth).congr rfl rfl rfl rfl rfl
    · have hboth : ∀ p ∈ s.txQueue ++ q, p.Ready := forall_mem_append.2 ⟨h.txQueue, hq⟩
      exact (h.requeue hboth).congr rfl rfl rfl rfl rfl

theorem Tidy.enter (h : Tidy s) (hq : ∀ p ∈ q, p.Ready) (hcallers : ∀ p ∈ callers, p.Cleared)
    (r : ℕ) : Tidy (s.enter ep t q callers r) := by
  have happended := h.append hq
  unfold HtcEndpoint.enter
  dsimp only
  split
  · exact happended.returns hcallers
  · refine drain ?_ hcallers r
    exact happended.congr rfl rfl rfl rfl rfl

theorem Tidy.drainData (h : Tidy s) : Tidy (s.drainData ep t) := by
  unfold HtcEndpoint.drainData
  split
  · exact h.goTo nofun
  · have htaken : Tidy { s with txProcessCount := s.txProcessCount + 1 } :=
      h.congr rfl rfl rfl rfl rfl
    exact htaken.takes _ nofun

theorem Tidy.sendDataPkt (h : Tidy s) (msg : HtcMsg) (moreData : Bool) :
    Tidy (htcSendDataPkt ep s t msg moreData) := by
  have hboth : ∀ p ∈ s.txQueue ++ [msg.dataPacket ep], p.Ready :=
    forall_mem_append.2 ⟨h.txQueue, by simpa using ready_dataPacket ep msg⟩
  have hqueued := h.requeue hboth
  unfold htcSendDataPkt
  split
  · exact hqueued.congr rfl rfl rfl rfl rfl
  · refine drainData ?_
    exact hqueued.congr rfl rfl rfl rfl rfl

theorem Tidy.submitSend (h : Tidy s) (hsend : send.Ready) (hq : ∀ p ∈ q, p.Ready)
    (hcallers : ∀ p ∈ callers, p.Cleared) : Tidy (s.submitSend t who callers send q) := by
  have hstored : Tidy { s with txLookupQueue := s.txLookupQueue ++ [send] } :=
    ⟨h.txQueue, forall_mem_append.2 ⟨h.txLookupQueue, by simpa using hsend⟩, h.calls, h.given,
      h.returned⟩
  refine hstored.goTo fun c hc => ?_
  cases hc
  exact ⟨hcallers, hsend, hq⟩

theorem Tidy.dequeue (h : Tidy s) (hq : ∀ p ∈ q, p.Ready) (hcallers : ∀ p ∈ callers, p.Cleared)
    (hok : ∀ p ∈ q.head?, MapsOnce ep who p) : Tidy (s.dequeue ep t who callers q) := by
  cases q with
  | nil =>
    refine h.goTo fun c hc => ?_
    cases hc
    cases who <;> exact ⟨hcallers, trivial⟩
  | cons p q =>
    obtain ⟨hp, hq⟩ := forall_mem_cons.1 hq
    exact h.submitSend (ready_submit hp (hok p rfl)) hq hcallers

theorem fillBundle_ready (ep : EpConfig) (space : ℤ) (hq : ∀ p ∈ q, p.Ready) :
    (∀ p ∈ (fillBundle ep space q).1, p.Ready) ∧ ∀ p ∈ (fillBundle ep space q).2, p.Ready := by
  rw [← forall_mem_append, fillBundle_append]
  exact hq

theorem nextBundle_ready (ep : EpConfig) (hq : ∀ p ∈ q, p.Ready) :
    (∀ p ∈ (nextBundle ep q).1, p.Ready) ∧ ∀ p ∈ (nextBundle ep q).2, p.Ready := by
  rw [← forall_mem_append, nextBundle_append]
  exact hq

theorem Tidy.issue {alloc : Bool} (h : Tidy s)
    (hc : s.calls t = some (.draining who callers (.issue q)))
    (hok : ∀ x ∈ issuedNext ep alloc (.draining who callers (.issue q)), MapsOnce ep x.1 x.2) :
    Tidy (s.issue ep t who callers q alloc) := by
  obtain ⟨hcallers, hq⟩ := h.calls t _ hc
  unfold HtcEndpoint.issue
  split
  · obtain ⟨hfilled, hleft⟩ := fillBundle_ready ep (bundleSpace ep) hq
    exact h.submitSend hfilled hleft hcallers
  · rename_i hno
    refine h.dequeue hq hcallers fun p hp => hok (who, p) ?_
    rw [issuedNext, if_neg hno]
    exact mem_map_of_mem _ hp

theorem Tidy.gives (h : Tidy s) (hsend : send.Ready) (hq : s'.txQueue = s.txQueue)
    (hl : ∀ x ∈ s'.txLookupQueue, x ∈ s.txLookupQueue) (hc : s'.calls = s.calls)
    (hg : s'.given = s.given ++ [send]) (hr : s'.returned = s.returned) : Tidy s' where
  txQueue := hq ▸ h.txQueue
  txLookupQueue x hx := h.txLookupQueue x (hl x hx)
  calls := hc ▸ h.calls
  given := by
    rw [hg]
    exact forall_mem_append.2 ⟨h.given, by simpa using hsend.balanced⟩
  returned := hr ▸ h.returned

theorem Tidy.sent {alloc : Bool} (h : Tidy s)
    (hc : s.calls t = some (.draining who callers (.sending send q))) :
    Tidy (s.sent ep t who callers send q alloc) := by
  obtain ⟨hcallers, hsend, hq⟩ := h.calls t _ hc
  have htaken : Tidy (s.accepted ep send) := h.gives hsend rfl (fun _ => id) rfl rfl rfl
  cases send with
  | single p =>
    refine htaken.goTo fun c hc => ?_
    cases hc
    exact ⟨hcallers, hq⟩
  | bundle ps =>
    unfold HtcEndpoint.sent
    dsimp only
    split
    · refine htaken.goTo fun c hc => ?_
      cases hc
      exact ⟨hcallers, hq⟩
    · obtain ⟨hfilled, hleft⟩ := nextBundle_ready ep hq
      exact htaken.submitSend hfilled hleft hcallers

theorem Tidy.sendFailed (h : Tidy s)
    (hc : s.calls t = some (.draining who callers (.sending send q))) :
    Tidy (s.sendFailed t who callers send q) := by
  obtain ⟨hcallers, hsend, hq⟩ := h.calls t _ hc
  have hrefused : Tidy (s.refused send) :=
    h.gives hsend rfl (fun _ => mem_of_mem_erase) rfl rfl rfl
  have hback : ∀ p ∈ send.packets ++ q, p.Ready := forall_mem_append.2 ⟨hsend.packets, hq⟩
  cases send with
  | bundle ps =>
    refine hrefused.goTo fun c hc => ?_
    cases hc
    exact ⟨hcallers, hback⟩
  | single p =>
    cases who with
    | trySend =>
      have hreclaimed : Tidy { s.refused (.single p) with
          txCredits := (s.refused (.single p)).txCredits + p.creditsUsed } :=
        hrefused.congr rfl rfl rfl rfl rfl
      refine hreclaimed.goTo fun c hc => ?_
      cases hc
      exact ⟨hcallers, hback⟩
    | sendData =>
      have hboth : ∀ p' ∈ p :: q ++ s.txQueue, p'.Ready :=
        forall_mem_append.2 ⟨hback, h.txQueue⟩
      refine (hrefused.requeue hboth).goTo fun c hc => ?_
      cases hc
      exact ⟨hcallers, trivial⟩

theorem Tidy.retry (h : Tidy s) (again : Bool) : Tidy (s.retry t again) := by
  refine h.goTo fun c hc => ?_
  cases again with
  | true =>
    cases hc
    exact ⟨nofun, nofun⟩
  | false => cases hc

theorem Tidy.completion (h : Tidy s)
    (hok : ∀ p ∈ completedNext s (.completion send), p.isMapped = true) :
    Tidy (htcTxCompletionHandler ep s t send) := by
  unfold htcTxCompletionHandler
  by_cases hfound : send ∈ s.txLookupQueue
  · rw [if_pos hfound]
    have hready := (h.txLookupQueue send hfound).packets
    have hback : ∀ p ∈ send.packets.map restoreTxPacket, p.AsGiven := by
      intro p hp
      obtain ⟨p', hp', rfl⟩ := mem_map.1 hp
      refine (asGiven_restoreTxPacket_iff (hready p' hp')).2 (hok p' ?_)
      rwa [completedNext, if_pos hfound]
    have herased : Tidy { s with txLookupQueue := s.txLookupQueue.erase send } :=
      ⟨h.txQueue, fun x hx => h.txLookupQueue x (mem_of_mem_erase hx), h.calls, h.given, h.returned⟩
    have hgiven := herased.givesBack hback
    cases send <;> exact hgiven.retry _
  · rw [if_neg hfound]
    exact h.retry _

theorem Tidy.creditRpt (h : Tidy s) (n : ℕ) : Tidy (htcProcessCreditRpt ep s t n) := by
  have hgranted : Tidy { s with
      txCredits := s.txCredits + n
      granted := s.granted + n } := h.congr rfl rfl rfl rfl rfl
  unfold htcProcessCreditRpt
  dsimp only
  split
  · refine hgranted.goTo fun c hc => ?_
    cases hc
    split
    · trivial
    · exact ⟨nofun, nofun⟩
  · exact hgranted

end Parts

/-! ### Steps and runs -/

section Step
variable {ep : EpConfig} {s s' : HtcEndpoint} {t : ℕ} {c : Call} {e : HtcEvent}

theorem Tidy.sendPktsMultiple {msgs : List HtcMsg} {keep : List ℕ} (h : Tidy s)
    (hne : msgs ≠ []) (hok : ShowsNone ep s msgs) :
    Tidy (htcSendPktsMultiple ep s t msgs keep) := by
  have hready : ∀ p ∈ msgs.map (prepare ep), p.Ready := by
    intro p hp
    obtain ⟨msg, -, rfl⟩ := mem_map.1 hp
    exact ready_prepare ep msg
  have hfix : (acceptPackets ep s.txQueue.length (msgs.map (prepare ep)) keep).2.2 = [] ∨
      ∀ p ∈ msgs.map (prepare ep), p.fixup = true := by
    by_cases hcf : ep.txCreditFlowEnabled = true
    · refine .inl ((shown_eq_nil_iff (by simpa using hne)).2 ?_)
      rw [length_map]
      exact hok hcf
    · refine .inr fun p hp => ?_
      obtain ⟨msg, -, rfl⟩ := mem_map.1 hp
      rw [prepare, if_neg hcf]
      rfl
  obtain ⟨hsend, hrest, hshown⟩ := acceptPackets_tidy hready hfix
  have hgiven := h.givesBack fun p hp => (hshown p hp).asGiven
  unfold htcSendPktsMultiple
  dsimp only
  split
  · exact hgiven.returns hrest
  · refine hgiven.goTo fun c hc => ?_
    cases hc
    exact ⟨hsend, hrest⟩

theorem Tidy.lockStep (h : Tidy s) (hc : s.calls t = some c)
    (hok : ∀ p ∈ completedNext s c, p.isMapped = true) (hstep : lockStep ep s t c = some s') :
    Tidy s' := by
  cases c with
  | entering sendQueue callers txResources =>
    cases txResources with
    | none => cases hstep
    | some r =>
      cases hstep
      obtain ⟨hsend, hcallers⟩ := h.calls t _ hc
      exact h.enter hsend hcallers r
  | notify =>
    rw [Htc.lockStep] at hstep
    cases hstep
    split
    · exact h.drainData
    · exact h.goTo fun _ hx => by cases hx
  | completion send =>
    cases hstep
    exact h.completion hok
  | draining who callers pc =>
    obtain ⟨hcallers, hpc⟩ := h.calls t _ hc
    cases who with
    | sendData => cases pc <;> cases hstep
    | trySend =>
      cases pc with
      | look r =>
        cases hstep
        exact h.drain hcallers r
      | failed q =>
        cases hstep
        have hboth : ∀ p ∈ q ++ s.txQueue, p.Ready :=
          forall_mem_append.2 ⟨hpc, h.txQueue⟩
        exact (h.requeue hboth).finish hcallers
      | issue _ | dequeue _ | sending _ _ | issued | clear => cases hstep

/-- **What every step keeps tidy.** -/
theorem Tidy.step (h : Tidy s) (hok : NetbufStepOk ep s e) (hstep : htcStep ep s e = some s') :
    Tidy s' := by
  cases e with
  | sendPktsMultiple t msgs keep =>
    obtain ⟨⟨-, hne⟩, rfl⟩ := guarded_eq_some.1 hstep
    exact h.sendPktsMultiple hne hok
  | trySend t =>
    obtain ⟨-, rfl⟩ := guarded_eq_some.1 hstep
    refine h.goTo fun c hc => ?_
    cases hc
    exact ⟨forall_mem_nil _, forall_mem_nil _⟩
  | sendDataPkt t msg moreData =>
    obtain ⟨-, rfl⟩ := guarded_eq_some.1 hstep
    exact h.sendDataPkt msg moreData
  | readResources t =>
    rw [htcStep] at hstep
    split at hstep
    · rename_i sendQueue callers hc
      cases hstep
      obtain ⟨hsend, hcallers⟩ := h.calls t _ hc
      refine h.goTo fun c hx => ?_
      cases hx
      exact ⟨hsend, hcallers⟩
    · rename_i hc
      cases hstep
      refine h.goTo fun c hx => ?_
      cases hx
      exact ⟨(h.calls t _ hc).1, trivial⟩
    · cases hstep
  | lock t =>
    obtain ⟨c, hc, hl⟩ := bind_eq_some_iff.1 hstep
    exact h.lockStep hc (hok c hc) hl
  | issue t alloc =>
    rw [htcStep] at hstep
    split at hstep
    · rename_i hc
      cases hstep
      exact h.issue hc (hok _ hc)
    · rename_i who callers q hc
      cases hstep
      obtain ⟨hcallers, hq⟩ := h.calls t _ hc
      exact h.dequeue hq hcallers fun p hp => hok _ hc (who, p) (mem_map_of_mem _ hp)
    · cases hstep
  | hifSend t ok alloc =>
    rw [htcStep] at hstep
    split at hstep
    · rename_i hc
      split at hstep
      · obtain ⟨-, rfl⟩ := guarded_eq_some.1 hstep
        exact h.sent hc
      · cases hstep
        exact h.sendFailed hc
    · cases hstep
  | clear t =>
    rw [htcStep] at hstep
    split at hstep
    · cases hstep
      have hfree : Tidy { s with txProcessCount := 0 } := h.congr rfl rfl rfl rfl rfl
      exact hfree.goTo fun _ hx => by cases hx
    · cases hstep
  | complete t send =>
    obtain ⟨-, rfl⟩ := guarded_eq_some.1 hstep
    refine goTo (h.congr rfl rfl rfl rfl rfl) fun c hc => ?_
    cases hc
    trivial
  | creditRpt t n =>
    obtain ⟨-, rfl⟩ := guarded_eq_some.1 hstep
    exact h.creditRpt n
  | flush =>
    cases hstep
    have hback : ∀ p ∈ s.txQueue.map restoreTxPacket, p.AsGiven := by
      intro p hp
      obtain ⟨p', hp', rfl⟩ := mem_map.1 hp
      exact (asGiven_restoreTxPacket_iff (h.txQueue p' hp')).2 (hok p' hp')
    exact (h.givesBack hback).requeue (forall_mem_nil _)
  | setNodropPkt b =>
    cases hstep
    exact h.congr rfl rfl rfl rfl rfl

/-- What `EpSendFull` is shown comes from the caller's queue, and is on record. -/
theorem mem_shown {depth : ℕ} {callers : List HtcPacket} {keep : List ℕ} {p : HtcPacket}
    (hp : p ∈ (acceptPackets ep depth callers keep).2.2) :
    ∃ p' ∈ callers, restoreTxPacket p' = p := by
  unfold acceptPackets at hp
  dsimp only at hp
  split at hp
  · cases hp
  · obtain ⟨p', hp', rfl⟩ := mem_map.1 hp
    exact ⟨p', mem_of_mem_drop hp', rfl⟩

theorem returned_sendPktsMultiple {msgs : List HtcMsg} {keep : List ℕ} {p : HtcPacket}
    (hp : p ∈ (acceptPackets ep s.txQueue.length (msgs.map (prepare ep)) keep).2.2) :
    p ∈ (htcSendPktsMultiple ep s t msgs keep).returned := by
  unfold htcSendPktsMultiple
  dsimp only
  split
  · exact mem_append_left _ (mem_append_right _ hp)
  · exact mem_append_right _ hp

theorem showsNone_of_balanced {msgs : List HtcMsg} {keep : List ℕ} (hne : msgs ≠ [])
    (hb : NetbufsBalanced (htcSendPktsMultiple ep s t msgs keep)) : ShowsNone ep s msgs := by
  intro hcf
  have hnil : (acceptPackets ep s.txQueue.length (msgs.map (prepare ep)) keep).2.2 = [] := by
    refine eq_nil_iff_forall_not_mem.2 fun p hp => ?_
    obtain ⟨p', hp', rfl⟩ := mem_shown hp
    obtain ⟨msg, -, rfl⟩ := mem_map.1 hp'
    have hmapped := (asGiven_restoreTxPacket_iff (ready_prepare ep msg)).1
      (hb.returned _ (returned_sendPktsMultiple hp))
    rw [prepare, if_pos hcf] at hmapped
    cases hmapped
  rw [shown_eq_nil_iff (by simpa using hne), length_map] at hnil
  exact hnil

theorem mapsOnce_of_balanced {alloc : Bool} {who : Drainer} {p : HtcPacket} (h : Tidy s)
    (hc : s.calls t = some c) (hp : (who, p) ∈ issuedNext ep alloc c)
    (hstep : htcStep ep s (.issue t alloc) = some s') (hb : NetbufsBalanced s') :
    MapsOnce ep who p := by
  have hsubmit : ∀ callers q, Call.Ready (.draining who callers (.issue (p :: q))) →
      s' = s.dequeue ep t who callers (p :: q) → MapsOnce ep who p := by
    rintro callers q ⟨-, hq⟩ rfl
    have hcalls : (s.dequeue ep t who callers (p :: q)).calls t =
        some (.draining who callers (.sending (.single (submit ep who p)) q)) :=
      update_self ..
    exact (balanced_submit_iff (hq p mem_cons_self)).1 (hb.sending t _ _ _ _ hcalls)
  have hready := h.calls t c hc
  rw [htcStep, hc] at hstep
  cases c with
  | entering _ _ _ | notify | completion _ => cases hp
  | draining who' callers pc =>
    cases pc with
    | sending _ _ | failed _ | issued | look _ | clear => cases hp
    | issue q =>
      rw [issuedNext] at hp
      split at hp
      · cases hp
      · rename_i hno
        cases q with
        | nil => cases hp
        | cons p' q =>
          cases hp
          cases hstep
          refine hsubmit callers q hready ?_
          rw [HtcEndpoint.issue, if_neg hno]
    | dequeue q =>
      cases q with
      | nil => cases hp
      | cons p' q =>
        cases hp
        cases hstep
        exact hsubmit callers q hready rfl

theorem isMapped_of_balanced {p : HtcPacket} (h : Tidy s) (hp : p ∈ completedNext s c)
    (hstep : lockStep ep s t c = some s') (hb : NetbufsBalanced s') : p.isMapped = true := by
  cases c with
  | entering _ _ _ | notify | draining _ _ _ => cases hp
  | completion send =>
    rw [completedNext] at hp
    split at hp
    · rename_i hfound
      have hready := (h.txLookupQueue send hfound).packets p hp
      have hback : restoreTxPacket p ∈ (htcTxCompletionHandler ep s t send).returned := by
        rw [htcTxCompletionHandler, if_pos hfound]
        cases send <;> exact mem_append_right _ (mem_map_of_mem hp)
      cases hstep
      exact (asGiven_restoreTxPacket_iff hready).1 (hb.returned _ hback)
    · cases hp

theorem netbufStepOk_of_balanced (h : Tidy s) (hstep : htcStep ep s e = some s')
    (hb : NetbufsBalanced s') : NetbufStepOk ep s e := by
  cases e with
  | sendPktsMultiple t msgs keep =>
    obtain ⟨⟨-, hne⟩, rfl⟩ := guarded_eq_some.1 hstep
    exact showsNone_of_balanced hne hb
  | issue t alloc =>
    rintro c hc ⟨who, p⟩ hp
    exact mapsOnce_of_balanced h hc hp hstep hb
  | lock t =>
    rintro c hc p hp
    rw [htcStep, hc] at hstep
    exact isMapped_of_balanced h hp hstep hb
  | flush =>
    rintro p hp
    cases hstep
    refine (asGiven_restoreTxPacket_iff (h.txQueue p hp)).1 (hb.returned _ ?_)
    exact mem_append_right _ (mem_map_of_mem hp)
  | trySend _ | sendDataPkt _ _ _ | readResources _ | hifSend _ _ _ | clear _ | complete _ _
  | creditRpt _ _ | setNodropPkt _ => trivial

end Step

/-- **Frame headers and mappings.**  They are in balance in every state of a run in which each packet is issued mapped once and none is given back that was never mapped, and from there on an event leaves them so exactly if it is such. -/
theorem netbufs_balanced_iff {ep : EpConfig} {s : HtcEndpoint}
    (h : (htcMachine ep).Reach (NetbufStepOk ep) s) :
    NetbufsBalanced s ∧
      ∀ e s', htcStep ep s e = some s' → (NetbufsBalanced s' ↔ NetbufStepOk ep s e) := by
  have htidy : Tidy s := by
    refine h.invariant Tidy ?_ fun s e s' hs hok hstep => hs.step hok hstep
    rintro _ ⟨txAlloc, urbCnt, rfl⟩
    exact ⟨nofun, nofun, fun _ _ => nofun, nofun, nofun⟩
  exact ⟨htidy.balanced, fun e s' hstep =>
    ⟨netbufStepOk_of_balanced htidy hstep, fun hok => (htidy.step hok hstep).balanced⟩⟩

def oneIssued : List HtcEvent :=
  [.sendPktsMultiple 0 [⟨1, 100, 1⟩] [], .readResources 0, .lock 0, .issue 0 false]

def oneMapped : HtcPacket where
  toHtcMsg := ⟨1, 100, 1⟩
  creditsUsed := 1
  needCreditUpdate := false
  fixup := true
  netbuf := ⟨1, 1⟩
  data := false

theorem netbufs_balanced_iff_completed : ∃ s, s.given = [.single oneMapped] ∧
    s.returned.map (·.netbuf) = [⟨0, 0⟩] ∧ NetbufsBalanced s := by
  obtain ⟨s, -, hreach, hgiven, hreturned⟩ : ∃ s, (htcMachine httEndpoint).run (.connected 8 0)
      (oneIssued ++ [.hifSend 0 true false, .complete 1 (.single oneMapped), .lock 1]) = some s ∧
      (htcMachine httEndpoint).Reach (NetbufStepOk httEndpoint) s ∧
      s.given = [.single oneMapped] ∧ s.returned.map (·.netbuf) = [⟨0, 0⟩] :=
    Machine.exists_reach (by exact ⟨8, 0, rfl⟩) (by decide +kernel) (by decide +kernel)
  exact ⟨s, hgiven, hreturned, (netbufs_balanced_iff hreach).1⟩

theorem retried_maps_twice : ∃ s, (htcMachine httEndpoint).Reach (fun _ _ => True) s ∧
    .single { oneMapped with netbuf := ⟨1, 2⟩ } ∈ s.given ∧ ¬ NetbufsBalanced s := by
  obtain ⟨s, hs, hgiven⟩ : ∃ s, (htcMachine httEndpoint).run (.connected 8 0) (oneIssued ++
      [.hifSend 0 false false, .lock 0, .trySend 0, .readResources 0, .lock 0, .issue 0 false,
        .hifSend 0 true false]) = some s ∧
      s.given = [.single oneMapped, .single { oneMapped with netbuf := ⟨1, 2⟩ }] :=
    Machine.exists_run (by decide +kernel)
  have hmem : .single { oneMapped with netbuf := ⟨1, 2⟩ } ∈ s.given := by simp [hgiven]
  refine ⟨s, Machine.reach_of_run ⟨8, 0, rfl⟩ hs, hmem, fun h => ?_⟩
  cases h.given _ hmem

end Qcacld.Htc

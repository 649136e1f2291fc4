import Qcacld.Htc.HtcFlow

/-!
# Htc — HtcQueue

The send queue of an endpoint under any interleaving of its callers.  A call that finds `TxProcessCount` taken leaves what it has appended to the one who drains.  `HTCTrySend` looks at the queue again under the lock before it clears the count under that lock.  `HTCSendDataPkt` looks once, and clears the count when it is done, outside the lock; whatever is appended meanwhile stays.

`htc_queue_ok` says that the packets go to HIF in the order they were appended, whoever drains, and that none is left behind in a run in which no call gives up on a packet that could be sent and that no other call will come to.
-/

namespace Qcacld.Htc
open Qcacld.Support Function List Option Call HtcEndpoint

/-! ### What must hold -/

/-- What HIF has taken, what is in hand and what is queued make up what was appended, in that order. -/
structure InOrder (s : HtcEndpoint) : Prop where
  draining : ∀ t c, s.calls t = some c → c.holds →
    (s.handed ++ c.hand ++ s.txQueue).map (·.id) = s.appended
  idle : (∀ t c, s.calls t = some c → ¬ c.holds) → (s.handed ++ s.txQueue).map (·.id) = s.appended

def LacksCredits (ep : EpConfig) (s : HtcEndpoint) (pPacket : HtcPacket) : Prop :=
  ep.txCreditFlowEnabled ∧ ep.id ≠ endpoint0 ∧ s.txCredits < creditsRequired ep pPacket

def LacksResources (ep : EpConfig) (s : HtcEndpoint) : Prop :=
  ¬ ep.txCreditFlowEnabled ∧ hifGetFreeQueueNumber ep s = 0

/-- When all calls have returned, the head of the queue lacks credits or resources, or the last HIF send failed. -/
def NoneStranded (ep : EpConfig) (s : HtcEndpoint) : Prop :=
  (∀ t, s.calls t = none) → ∀ p ∈ s.txQueue.head?,
    LacksCredits ep s p ∨ LacksResources ep s ∨ s.lastSendFailed = true

/-! ### When it does -/

def HeadReady (ep : EpConfig) (s : HtcEndpoint) : Prop :=
  ∃ p ∈ s.txQueue.head?, ¬ LacksCredits ep s p ∧ ¬ LacksResources ep s ∧ s.lastSendFailed = false

/-- A call that has yet to look at the queue, or to clear the count. -/
def Call.looks (ep : EpConfig) : Call → Prop
  | .entering .. | .notify => True
  | .completion (.single _) => ¬ ep.txCreditFlowEnabled
  | .completion (.bundle _) => ep.bus = .usb ∧ ¬ ep.txCreditFlowEnabled
  | .draining _ _ (.failed _) => False
  | .draining .. => True

/-- Some other call than `t` is still to look. -/
def OtherLooks (ep : EpConfig) (s : HtcEndpoint) (t : Nat) : Prop :=
  ∃ u c, u ≠ t ∧ s.calls u = some c ∧ c.looks ep

/-- The call that an event makes give up without a look, and the endpoint as it leaves it: `HTCSendDataPkt` when it clears the count, or when it is told that more data follow, or when it is called for a credit report of another endpoint than the one it serves; and `HTCTrySend` when it gets the count and has read that there are no resources. -/
def givesUp (ep : EpConfig) (s : HtcEndpoint) : HtcEvent → Option (HtcEndpoint × Nat)
  | .clear t => some (s, t)
  | .sendDataPkt t msg moreData =>
    if ep.enableBundle ∧ moreData then
      some ({ s with txQueue := s.txQueue ++ [msg.dataPacket ep] }, t)
    else none
  | .lock t =>
    match s.calls t with
    | some (.entering sendQueue _ (some 0)) =>
      if ep.txCreditFlowEnabled ∨ 0 < s.txProcessCount then none else some (s.append sendQueue, t)
    | some (.draining .trySend _ (.look 0)) =>
      if ep.txCreditFlowEnabled then none else some (s, t)
    | some .notify => if ep.id = endpoint1 then none else some (s, t)
    | _ => none
  | _ => none

/-- No call gives up on a head that could be sent, unless another will look. -/
def QueueStepOk (ep : EpConfig) (s : HtcEndpoint) (e : HtcEvent) : Prop :=
  InTurn e ∧ ∀ g ∈ givesUp ep s e, HeadReady ep g.1 → OtherLooks ep s g.2

section Order
variable {ep : EpConfig} {s : HtcEndpoint} {holder : Option ℕ}

theorem inOrder_iff (hs : s.Holder holder) : InOrder s ↔ s.line holder = s.appended := by
  cases holder with
  | none =>
    have hnone : ∀ t c, s.calls t = some c → ¬ c.holds :=
      fun t c hc hh => by cases hs.holder_eq hc hh
    have hline : s.line none = (s.handed ++ s.txQueue).map (·.id) := by
      simp [line, HtcEndpoint.hand]
    rw [hline]
    exact ⟨fun h => h.idle hnone, fun h => ⟨fun t c hc hh => absurd hh (hnone t c hc), fun _ => h⟩⟩
  | some t =>
    obtain ⟨c, hc, hh⟩ := (hs.holds_iff t).2 rfl
    have hline : s.line (some t) = (s.handed ++ c.hand ++ s.txQueue).map (·.id) := by
      rw [line, HtcEndpoint.hand, inHand_of_eq hc]
    rw [hline]
    refine ⟨fun h => h.draining t c hc hh, fun h => ⟨fun u d hd hu => ?_, fun hno => absurd hh (hno t c hc)⟩⟩
    obtain rfl := hs.exclusive hc hh hd hu
    cases hc.symm.trans hd
    exact h

end Order

/-! ### Who will look -/

/-- The queue is watched: a failed batch is put back only after the last send has failed, and a head that could be sent has a call that is still to look. -/
structure Watched (ep : EpConfig) (s : HtcEndpoint) : Prop where
  failed : ∀ t who callers sendQueue, s.calls t = some (.draining who callers (.failed sendQueue)) →
    s.lastSendFailed = true
  looked : HeadReady ep s → ∃ t c, s.calls t = some c ∧ c.looks ep

section Watch
variable {ep : EpConfig} {s s' : HtcEndpoint} {holder : Option ℕ} {t : ℕ} {c : Call}
  {x : Option Call} {callers : List HtcPacket}

/-- Whether the head could be sent is a matter of the queue, the credits, the pipe and the last send. -/
theorem HeadReady.congr (hq : s'.txQueue = s.txQueue) (hc : s'.txCredits = s.txCredits)
    (hu : s'.urbCnt = s.urbCnt) (hl : s'.lastSendFailed = s.lastSendFailed)
    (h : HeadReady ep s') : HeadReady ep s := by
  obtain ⟨p, hp, hcredits, hresources, hlast⟩ := h
  refine ⟨p, hq ▸ hp, ?_, ?_, hl ▸ hlast⟩
  · simpa [LacksCredits, hc] using hcredits
  · simpa [LacksResources, hifGetFreeQueueNumber, hu] using hresources

theorem not_headReady_of_nil (hq : s.txQueue = []) : ¬ HeadReady ep s := by
  rintro ⟨p, hp, -⟩
  simp [hq] at hp

theorem not_headReady_of_failed (h : s.lastSendFailed = true) : ¬ HeadReady ep s := by
  rintro ⟨p, -, -, -, hlast⟩
  cases h.symm.trans hlast

theorem not_headReady_of_takePackets {r : ℕ} (h : (takePackets ep s r).1 = [])
    (hr : ¬ ep.txCreditFlowEnabled = true → 0 < r) : ¬ HeadReady ep s := by
  rintro ⟨p, hp, hcredits, -, -⟩
  obtain ⟨q, hq⟩ : ∃ q, s.txQueue = p :: q := by
    cases hq : s.txQueue with
    | nil => simp [hq] at hp
    | cons p' q =>
      rw [hq] at hp
      cases hp
      exact ⟨q, rfl⟩
  unfold takePackets at h
  split at h
  · rename_i hcf
    rw [hq] at h
    simp only [getHTCSendPacketsCreditBased] at h
    split at h
    · rename_i hblocked
      exact hcredits ⟨hcf, hblocked⟩
    · cases h
  · rename_i hcf
    have hpos : ((r : ℕ) : ℤ) > 0 := Int.natCast_pos.2 (hr hcf)
    rw [hq] at h
    simp only [getHTCSendPackets, if_pos hpos] at h
    cases h

theorem Watched.next (h : Watched ep s) (hcalls : s'.calls = update s.calls t x)
    (hx : ∀ who callers q, x ≠ some (.draining who callers (.failed q)))
    (hlast : s'.lastSendFailed = s.lastSendFailed)
    (hlook : HeadReady ep s' → (∃ c, x = some c ∧ c.looks ep) ∨ OtherLooks ep s t) :
    Watched ep s' where
  failed u who callers q hu := by
    by_cases hut : u = t
    · subst hut
      rw [hcalls, update_self] at hu
      exact absurd hu (hx who callers q)
    · rw [hcalls, update_of_ne hut] at hu
      exact hlast ▸ h.failed u who callers q hu
  looked hready := by
    rcases hlook hready with ⟨c, hxc, hc⟩ | ⟨u, c, hut, hu, hc⟩
    · exact ⟨t, c, by rw [hcalls, update_self, hxc], hc⟩
    · exact ⟨u, c, by rw [hcalls, update_of_ne hut, hu], hc⟩

theorem Watched.others (h : Watched ep s) (hready : HeadReady ep s)
    (hc : ∀ c, s.calls t = some c → ¬ c.looks ep) : OtherLooks ep s t := by
  obtain ⟨u, c, hu, hlooks⟩ := h.looked hready
  refine ⟨u, c, ?_, hu, hlooks⟩
  rintro rfl
  exact hc c hu hlooks

theorem Watched.busy (h : Watched ep s) (hs : s.Holder holder)
    (hc : ∀ c, s.calls t = some c → ¬ c.holds) (hcount : 0 < s.txProcessCount)
    (hlast : s.lastSendFailed = false) : OtherLooks ep s t := by
  obtain ⟨u, d, -, hu, hh⟩ := hs.exists_holder hcount
  refine ⟨u, d, ?_, hu, ?_⟩
  · rintro rfl
    exact hc d hu hh
  · cases d with
    | draining who callers pc =>
      cases pc with
      | failed q =>
        -- the holder's send has failed last
        cases (h.failed u who callers q hu).symm.trans hlast
      | issue _ | dequeue _ | sending _ _ | issued | look _ | clear => trivial
    | entering _ _ _ | notify | completion _ => exact hh.elim

theorem Watched.leaves (h : Watched ep s) (hc : ∀ c, s.calls t = some c → ¬ c.looks ep)
    (hcalls : s'.calls = update s.calls t x)
    (hx : ∀ who callers q, x ≠ some (.draining who callers (.failed q)))
    (hlast : s'.lastSendFailed = s.lastSendFailed) (hready : HeadReady ep s' → HeadReady ep s) :
    Watched ep s' :=
  h.next hcalls hx hlast fun hr => .inr (h.others (hready hr) hc)

theorem Watched.goesOn (h : Watched ep s) (hcalls : s'.calls = update s.calls t (some c))
    (hc : c.looks ep) (hlast : s'.lastSendFailed = s.lastSendFailed) : Watched ep s' := by
  refine h.next hcalls ?_ hlast fun _ => .inl ⟨c, rfl, hc⟩
  rintro who callers q heq
  cases heq
  exact hc

theorem append_frame (s : HtcEndpoint) (l : List HtcPacket) : ∃ q n a, s.append l =
    { s with
      txQueue := q
      isNodropPkt := n
      appended := a } := by
  unfold append
  split
  · exact ⟨_, _, _, rfl⟩
  · split <;> exact ⟨_, _, _, rfl⟩

theorem Watched.takes (h : Watched ep s) (hcalls : s'.calls = s.calls)
    (hlast : s'.lastSendFailed = s.lastSendFailed) (who : Drainer) (callers : List HtcPacket)
    (r : ℕ) : Watched ep ((takePackets ep s' r).2.goTo t
      (some (.draining who callers (.issue (takePackets ep s' r).1)))) := by
  obtain ⟨c, q, htaken⟩ := takePackets_frame ep s' r
  have hlooks : looks ep (.draining who callers (.issue (takePackets ep s' r).1)) := trivial
  have hupdate : ((takePackets ep s' r).2.goTo t
      (some (.draining who callers (.issue (takePackets ep s' r).1)))).calls = update s.calls t
          (some (.draining who callers (.issue (takePackets ep s' r).1))) := by
    simp [goTo, htaken, hcalls]
  refine h.goesOn hupdate hlooks ?_
  rw [goTo, htaken]
  exact hlast

/-- The loop of `HTCTrySend` takes packets, or finds a head that cannot be sent, or gives up. -/
theorem Watched.drain {r : ℕ} (h : Watched ep s) (hcalls : s'.calls = s.calls)
    (hlast : s'.lastSendFailed = s.lastSendFailed)
    (hgive : ¬ ep.txCreditFlowEnabled = true → r = 0 → HeadReady ep s' → OtherLooks ep s t) :
    Watched ep (s'.drain ep t callers r) := by
  have hfinish : (HeadReady ep s' → OtherLooks ep s t) → Watched ep (s'.finish t callers) := by
    intro hlook
    have hupdate : (s'.finish t callers).calls = update s.calls t none := by
      simp [finish, returns, goTo, hcalls]
    refine h.next hupdate (fun _ _ _ h => by cases h) hlast fun hr => .inr (hlook (hr.congr rfl rfl rfl rfl))
  unfold HtcEndpoint.drain
  by_cases hq : s'.txQueue = []
  · rw [if_pos hq]
    exact hfinish fun hr => absurd hr (not_headReady_of_nil hq)
  · rw [if_neg hq]
    by_cases hnone : (takePackets ep s' (bundledResources ep r)).1 = []
    · simp only [if_pos hnone, takePackets_of_nil hnone]
      refine hfinish fun hr => ?_
      by_cases hzero : ¬ ep.txCreditFlowEnabled = true ∧ r = 0
      · exact hgive hzero.1 hzero.2 hr
      · refine absurd hr (not_headReady_of_takePackets hnone fun hcf => ?_)
        have hr : r ≠ 0 := fun hr => hzero ⟨hcf, hr⟩
        unfold bundledResources
        split
        · split <;> cases ep.bus <;> decide
        · exact Nat.pos_of_ne_zero hr
    · simp only [if_neg hnone]
      exact h.takes hcalls hlast .trySend callers _

/-- The first lock section of `HTCTrySend`. -/
theorem Watched.enter {sendQueue : List HtcPacket} {r : ℕ} (h : Watched ep s)
    (hs : s.Holder holder) (hc : ∀ c, s.calls t = some c → ¬ c.holds)
    (hgive : ¬ ep.txCreditFlowEnabled = true → ¬ 0 < s.txProcessCount → r = 0 →
      HeadReady ep (s.append sendQueue) → OtherLooks ep s t) :
    Watched ep (s.enter ep t sendQueue callers r) := by
  obtain ⟨q, n, a, happend⟩ := append_frame s sendQueue
  have hcount : (s.append sendQueue).txProcessCount = s.txProcessCount := by rw [happend]
  have hlast : (s.append sendQueue).lastSendFailed = s.lastSendFailed := by rw [happend]
  unfold HtcEndpoint.enter
  by_cases hbusy : (s.append sendQueue).txProcessCount + 1 > 1
  · rw [if_pos hbusy]
    have hupdate : ((s.append sendQueue).returns t callers).calls = update s.calls t none := by
      simp [returns, goTo, append_calls]
    refine h.next hupdate (fun _ _ _ h => by cases h) hlast fun hready => .inr ?_
    obtain ⟨_, _, _, _, hl⟩ := hready
    exact h.busy hs hc (by omega) (hlast ▸ hl)
  · rw [if_neg hbusy]
    refine h.drain (append_calls s sendQueue) hlast fun hcf hr hready => ?_
    exact hgive hcf (by omega) hr (hready.congr rfl rfl rfl rfl)

/-- The lock section of `HTCSendDataPkt`, in which it may have appended a packet. -/
theorem Watched.drainData (h : Watched ep s) (hs : s.Holder holder)
    (hc : ∀ c, s.calls t = some c → ¬ c.holds) (hcalls : s'.calls = s.calls)
    (hcount : s'.txProcessCount = s.txProcessCount)
    (hlast : s'.lastSendFailed = s.lastSendFailed) : Watched ep (s'.drainData ep t) := by
  unfold HtcEndpoint.drainData
  by_cases hbusy : s'.txProcessCount + 1 > 1
  · rw [if_pos hbusy]
    have hupdate : (s'.goTo t none).calls = update s.calls t none := by
      simp [goTo, hcalls]
    refine h.next hupdate (fun _ _ _ h => by cases h) hlast fun hready => .inr ?_
    obtain ⟨_, _, _, _, hl⟩ := hready
    exact h.busy hs hc (by omega) (hlast ▸ hl)
  · rw [if_neg hbusy]
    have hcalls' : calls { s' with txProcessCount := s'.txProcessCount + 1 } = s.calls :=
      hcalls
    exact h.takes hcalls' hlast .sendData [] _

theorem Watched.drains {c' : Call} (hs : s.Holder holder) (hc : s.calls t = some c)
    (hh : c.holds) (hcalls : s'.calls = update s.calls t (some c'))
    (hc' : c'.looks ep) : Watched ep s' where
  failed u who callers q hu := by
    by_cases hut : u = t
    · subst hut
      rw [hcalls, update_self] at hu
      cases hu
      exact hc'.elim
    · -- nobody else drains
      rw [hcalls, update_of_ne hut] at hu
      exact absurd (hs.exclusive hu trivial hc hh) hut
  looked _ := ⟨t, c', by rw [hcalls, update_self], hc'⟩

theorem watched_of_failed (h : s.lastSendFailed = true) : Watched ep s :=
  ⟨fun _ _ _ _ _ => h, fun hr => absurd hr (not_headReady_of_failed h)⟩

theorem Watched.dequeue {who : Drainer} {q : List HtcPacket} (hs : s.Holder holder)
    (hc : s.calls t = some c) (hh : c.holds) : Watched ep (s.dequeue ep t who callers q) := by
  cases q with
  | nil =>
    cases who with
    | trySend =>
      have hlooks : looks ep (.draining .trySend callers .issued) := trivial
      exact .drains hs hc hh rfl hlooks
    | sendData =>
      have hlooks : looks ep (.draining .sendData callers .clear) := trivial
      exact .drains hs hc hh rfl hlooks
  | cons p q =>
    have hlooks : looks ep (.draining who callers (.sending (.single (submit ep who p)) q)) :=
      trivial
    exact .drains hs hc hh rfl hlooks

theorem Watched.issue {who : Drainer} {q : List HtcPacket} {alloc : Bool} (hs : s.Holder holder)
    (hc : s.calls t = some (.draining who callers (.issue q))) :
    Watched ep (s.issue ep t who callers q alloc) := by
  unfold HtcEndpoint.issue
  split
  · have hlooks : looks ep (.draining who callers
        (.sending (.bundle (fillBundle ep (bundleSpace ep) q).1)
          (fillBundle ep (bundleSpace ep) q).2)) := trivial
    exact .drains hs hc trivial rfl hlooks
  · exact .dequeue hs hc trivial

theorem Watched.sent {who : Drainer} {send : HtcSend} {q : List HtcPacket} {alloc : Bool}
    (hs : s.Holder holder) (hc : s.calls t = some (.draining who callers (.sending send q))) :
    Watched ep (s.sent ep t who callers send q alloc) := by
  have hlooks : ∀ pc : DrainPc, (∀ q, pc ≠ .failed q) → looks ep (.draining who callers pc) := by
    intro pc hpc
    cases pc with
    | failed q => exact hpc q rfl
    | issue _ | dequeue _ | sending _ _ | issued | look _ | clear => trivial
  cases send with
  | single p => exact .drains hs hc trivial rfl (hlooks (.issue q) fun _ => nofun)
  | bundle ps =>
    unfold HtcEndpoint.sent
    by_cases hlast : q.length < htcMinMsgPerBundle ∨ ¬ alloc = true
    · simp only [if_pos hlast]
      exact .drains hs hc trivial rfl (hlooks (.dequeue q) fun _ => nofun)
    · simp only [if_neg hlast]
      exact .drains hs hc trivial rfl
        (hlooks (.sending (.bundle (nextBundle ep q).1) (nextBundle ep q).2) fun _ => nofun)

theorem lastSendFailed_sendFailed (s : HtcEndpoint) (t : ℕ) (who : Drainer)
    (callers : List HtcPacket) (send : HtcSend) (q : List HtcPacket) :
    (s.sendFailed t who callers send q).lastSendFailed = true := by
  cases send with
  | single p => cases who <;> rfl
  | bundle ps => rfl

theorem Watched.completion {send : HtcSend} (h : Watched ep s)
    (hc : s.calls t = some (.completion send)) :
    Watched ep (htcTxCompletionHandler ep s t send) := by
  have hretry : ∀ again, (looks ep (.completion send) → again = true) →
      Watched ep (s.retry t again) := by
    intro again hlooks
    cases again with
    | true => exact h.goesOn rfl (c := .entering [] [] none) trivial rfl
    | false =>
      refine h.leaves ?_ rfl (fun _ _ _ => nofun) rfl (·.congr rfl rfl rfl rfl)
      intro c hct hlook
      cases hc.symm.trans hct
      cases hlooks hlook
  have hfound : ∀ again, (looks ep (.completion send) → again = true) → Watched ep (retry { s with
        txLookupQueue := s.txLookupQueue.erase send
        returned := s.returned ++ send.packets.map restoreTxPacket } t again) :=
    fun again hlooks => ⟨(hretry again hlooks).failed, fun hr =>
      (hretry again hlooks).looked (hr.congr rfl rfl rfl rfl)⟩
  unfold htcTxCompletionHandler
  cases send with
  | single p =>
    split
    · exact hfound _ fun hl => by simpa [looks] using hl
    · exact hretry _ fun hl => by simpa [looks] using hl
  | bundle ps =>
    split
    · exact hfound _ fun hl => by simpa [looks] using hl
    · exact hretry _ fun hl => by simpa [looks] using hl.2

theorem Watched.creditRpt (h : Watched ep s) (n : ℕ) :
    Watched ep (htcProcessCreditRpt ep s t n) := by
  unfold htcProcessCreditRpt
  by_cases hwake : s.txCredits + n ≠ 0 ∧ s.txQueue ≠ []
  · simp only [if_pos hwake]
    split
    · exact h.goesOn rfl (c := .notify) trivial rfl
    · exact h.goesOn rfl (c := .entering [] [] none) trivial rfl
  · simp only [if_neg hwake]
    refine ⟨h.failed, fun hready => h.looked ?_⟩
    obtain ⟨p, hp, hcredits, hresources, hlast⟩ := hready
    refine ⟨p, hp, fun hlack => hcredits ?_, hresources, hlast⟩
    -- there are no credits, and a packet takes some
    obtain ⟨hcf, hid, -⟩ := hlack
    have hnil : s.txQueue ≠ [] := by
      rintro hq
      rw [hq] at hp
      cases hp
    have hzero : s.txCredits + n = 0 := by
      by_contra hne
      exact hwake ⟨hne, hnil⟩
    have hpos := creditsRequired_pos hid p
    exact ⟨hcf, hid, by simp only [hzero]; omega⟩

end Watch

section Step
variable {ep : EpConfig} {s s' : HtcEndpoint} {holder : Option ℕ} {e : HtcEvent}

theorem Watched.lockStep {t : ℕ} {c : Call} (h : Watched ep s) (hs : s.Holder holder)
    (hc : s.calls t = some c)
    (hok : ∀ g ∈ givesUp ep s (.lock t), HeadReady ep g.1 → OtherLooks ep s g.2)
    (hstep : lockStep ep s t c = some s') : Watched ep s' := by
  have hnot : ¬ c.holds → ∀ c', s.calls t = some c' → ¬ c'.holds := by
    rintro hh c' hc'
    cases hc.symm.trans hc'
    exact hh
  cases c with
  | entering sendQueue callers txResources =>
    cases txResources with
    | none => cases hstep
    | some r =>
      cases hstep
      refine h.enter hs (hnot id) fun hcf hcount hr => ?_
      subst hr
      exact hok (s.append sendQueue, t) (by simp [givesUp, hc, hcf, hcount])
  | notify =>
    rw [Htc.lockStep] at hstep
    split at hstep
    · cases hstep
      exact h.drainData hs (hnot id) rfl rfl rfl
    · rename_i hid
      cases hstep
      exact h.next rfl (fun _ _ _ h => by cases h) rfl fun hready =>
        .inr (hok (s, t) (by simp [givesUp, hc, hid]) (hready.congr rfl rfl rfl rfl))
  | completion send =>
    cases hstep
    exact h.completion hc
  | draining who callers pc =>
    cases who with
    | sendData => cases pc <;> cases hstep
    | trySend =>
      cases pc with
      | look r =>
        cases hstep
        refine h.drain rfl rfl fun hcf hr => ?_
        subst hr
        exact hok (s, t) (by simp [givesUp, hc, hcf])
      | failed q =>
        cases hstep
        exact watched_of_failed (h.failed t .trySend callers q hc)
      | issue _ | dequeue _ | sending _ _ | issued | clear => cases hstep

/-- **What every step keeps watched.** -/
theorem Watched.step (h : Watched ep s) (hs : s.Holder holder) (hok : QueueStepOk ep s e)
    (hstep : htcStep ep s e = some s') : Watched ep s' := by
  obtain ⟨hturn, hok⟩ := hok
  have hnone : ∀ {t}, s.calls t = none → ∀ c, s.calls t = some c → ¬ c.looks ep :=
    fun hc c h => by cases hc.symm.trans h
  cases e with
  | sendPktsMultiple t msgs keep =>
    obtain ⟨⟨hc, -⟩, rfl⟩ := guarded_eq_some.1 hstep
    unfold htcSendPktsMultiple
    dsimp only
    split
    · exact h.leaves (hnone hc) rfl (fun _ _ _ h => by cases h) rfl (·.congr rfl rfl rfl rfl)
    · exact h.goesOn rfl (by trivial) rfl
  | trySend t =>
    obtain ⟨-, rfl⟩ := guarded_eq_some.1 hstep
    exact h.goesOn rfl (by trivial) rfl
  | sendDataPkt t msg moreData =>
    obtain ⟨hc, rfl⟩ := guarded_eq_some.1 hstep
    have hnot : ∀ c, s.calls t = some c → ¬ c.holds := fun c h => by cases hc.symm.trans h
    unfold htcSendDataPkt
    by_cases hmore : ep.enableBundle = true ∧ moreData = true
    · rw [if_pos hmore]
      refine ⟨h.failed, fun hready => ?_⟩
      obtain ⟨u, c, -, hu, hlooks⟩ :=
        hok _ (by rw [givesUp, if_pos hmore]; rfl) (hready.congr rfl rfl rfl rfl)
      exact ⟨u, c, hu, hlooks⟩
    · rw [if_neg hmore]
      exact h.drainData hs hnot rfl rfl rfl
  | readResources t =>
    rw [htcStep] at hstep
    split at hstep
    · cases hstep
      exact h.goesOn rfl (by trivial) rfl
    · cases hstep
      exact h.goesOn rfl (by trivial) rfl
    · cases hstep
  | lock t =>
    obtain ⟨c, hc, hl⟩ := bind_eq_some_iff.1 hstep
    exact h.lockStep hs hc hok hl
  | issue t alloc =>
    rw [htcStep] at hstep
    split at hstep
    · rename_i hc
      cases hstep
      exact .issue hs hc
    · rename_i hc
      cases hstep
      exact .dequeue hs hc trivial
    · cases hstep
  | hifSend t ok alloc =>
    rw [htcStep] at hstep
    split at hstep
    · rename_i hc
      split at hstep
      · obtain ⟨-, rfl⟩ := guarded_eq_some.1 hstep
        exact .sent hs hc
      · cases hstep
        exact watched_of_failed (lastSendFailed_sendFailed ..)
    · cases hstep
  | clear t =>
    rw [htcStep] at hstep
    split at hstep
    · cases hstep
      exact h.next rfl (fun _ _ _ h => by cases h) rfl fun hready =>
        .inr (hok (s, t) rfl (hready.congr rfl rfl rfl rfl))
    · cases hstep
  | complete t send =>
    obtain ⟨⟨hc, -⟩, rfl⟩ := guarded_eq_some.1 hstep
    by_cases hlooks : looks ep (.completion send)
    · exact h.goesOn rfl hlooks rfl
    · -- what is completed frees nothing that the head waits for
      refine h.leaves (hnone hc) rfl (fun _ _ _ h => by cases h) rfl ?_
      rintro ⟨p, hp, hcredits, hresources, hlast⟩
      refine ⟨p, hp, hcredits, fun hnone => ?_, hlast⟩
      obtain ⟨hcf, hfree⟩ := hnone
      cases send with
      | single p => exact hlooks hcf
      | bundle ps =>
        have hbus : ep.bus = .sdio := by
          cases hbus : ep.bus with
          | usb => exact absurd ⟨hbus, hcf⟩ hlooks
          | sdio => rfl
        simp [hifGetFreeQueueNumber, hbus] at hfree
  | creditRpt t n =>
    obtain ⟨-, rfl⟩ := guarded_eq_some.1 hstep
    exact h.creditRpt n
  | flush => exact hturn.elim
  | setNodropPkt b =>
    cases hstep
    exact ⟨h.failed, fun hready => h.looked (hready.congr rfl rfl rfl rfl)⟩

end Step

/-! ### Runs -/

/-- **The send queue.**  Packets reach HIF in the order they were appended, each once, under any interleaving; and in a run in which no call gives up on a head that could be sent, none is left behind. -/
theorem htc_queue_ok (ep : EpConfig) :
    (∀ s, (htcMachine ep).Reach (fun _ e => InTurn e) s → InOrder s) ∧
    ∀ s, (htcMachine ep).Reach (QueueStepOk ep) s → NoneStranded ep s := by
  constructor
  · intro s h
    have hinv : s.isNodropPkt = false ∧ ∃ holder, s.Holder holder ∧ s.line holder = s.appended := by
      refine h.invariant (fun s => s.isNodropPkt = false ∧
        ∃ holder, s.Holder holder ∧ s.line holder = s.appended) ?_ ?_
      · rintro _ ⟨txAlloc, urbCnt, rfl⟩
        exact ⟨rfl, none, .start, rfl⟩
      · rintro s e s' ⟨hn, holder, hs, hline⟩ hturn hstep
        obtain ⟨holder', hf⟩ := htcStep_flows hs hstep
        obtain ⟨new, hline', happ⟩ := hf.line ⟨hn, hturn⟩
        refine ⟨(hf.nodrop ⟨hn, hturn⟩).trans hn, holder', hf.token, ?_⟩
        rw [hline', happ, hline]
    obtain ⟨-, holder, hs, hline⟩ := hinv
    exact (inOrder_iff hs).2 hline
  · intro s h hreturned p hp
    have hinv : Watched ep s ∧ ∃ holder, s.Holder holder := by
      refine h.invariant (fun s => Watched ep s ∧ ∃ holder, s.Holder holder) ?_ ?_
      · rintro _ ⟨txAlloc, urbCnt, rfl⟩
        exact ⟨⟨fun _ _ _ _ => nofun, fun hr => absurd hr (not_headReady_of_nil rfl)⟩, none, .start⟩
      · rintro s e s' ⟨hw, holder, hs⟩ hok hstep
        obtain ⟨holder', hf⟩ := htcStep_flows hs hstep
        exact ⟨hw.step hs hok hstep, holder', hf.token⟩
    by_contra hnone
    simp only [not_or, Bool.not_eq_true] at hnone
    obtain ⟨t, c, hc, -⟩ := hinv.1.looked ⟨p, hp, hnone⟩
    cases (hreturned t).symm.trans hc

/-- Where a packet goes astray: the second one is appended while `HTCSendDataPkt` hands over the first. -/
def appendedWhileSending : List HtcEvent :=
  [.sendDataPkt 0 ⟨1, 100, 1⟩ false, .issue 0 false, .sendDataPkt 1 ⟨2, 100, 1⟩ false,
    .hifSend 0 true false, .issue 0 false, .clear 0]

/-- `HTCSendDataPkt` clears the count without a look at the queue: both calls are over, there are credits, and the second packet stays. -/
theorem appended_while_sending_stays : ∃ s,
    (htcMachine httEndpoint).Reach (fun _ e => InTurn e) s ∧
    s.txQueue.map (fun p => (p.id, creditsRequired httEndpoint p)) = [(2, 1)] ∧
    s.txCredits = 7 ∧ ¬ NoneStranded httEndpoint s := by
  have hrun : ((htcMachine httEndpoint).run (.connected 8 0) appendedWhileSending).map
      (fun s => (s.txQueue.map (fun p => (p.id, creditsRequired httEndpoint p)), s.txCredits,
        s.lastSendFailed)) = some ([(2, 1)], 7, false) := by
    decide +kernel
  have hcalls : ∀ t, ((htcMachine httEndpoint).run (.connected 8 0) appendedWhileSending).map
      (fun s => s.calls t) = some none := by
    rintro (_ | _ | t) <;> rfl
  obtain ⟨s, hs, hends⟩ := map_eq_some_iff.1 hrun
  obtain ⟨hq, hends⟩ := Prod.mk.inj hends
  obtain ⟨hcredits, hlast⟩ := Prod.mk.inj hends
  have hreach : (htcMachine httEndpoint).Reach (fun _ e => InTurn e) s :=
    .run (.start ⟨8, 0, rfl⟩) (by decide +kernel) hs
  refine ⟨s, hreach, hq, hcredits, fun h => ?_⟩
  have hreturned : ∀ t, s.calls t = none := fun t => by simpa [hs] using hcalls t
  obtain ⟨p, hp, hcost⟩ : ∃ p ∈ s.txQueue.head?, creditsRequired httEndpoint p = 1 := by
    cases hqueue : s.txQueue with
    | nil => simp [hqueue] at hq
    | cons p q =>
      rw [hqueue, map_cons, cons_eq_cons] at hq
      exact ⟨p, rfl, (Prod.mk.inj hq.1).2⟩
  rcases h hreturned p hp with ⟨-, -, hlacks⟩ | ⟨hflow, -⟩ | hfailed
  · rw [hcost, hcredits] at hlacks
    exact absurd hlacks (by decide)
  · exact hflow rfl
  · cases hlast.symm.trans hfailed

end Qcacld.Htc

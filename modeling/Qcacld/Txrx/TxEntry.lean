import Mathlib.Data.List.Perm.Basic
import Mathlib.Data.List.Sublists
import Qcacld.Support.Threaded
import Qcacld.Txrx.TxResource

/-!
# Txrx — TxEntry

The entry functions of the tx path: `ol_tx_ll` and `ol_tx_non_std_ll`, which hand each frame of a list to the target, and `ol_tx_hl_base`, which stores each in a tx queue.  A function returns the frames it does not accept; the low latency ones return the rest of their list, the high latency one threads a list of its own.

Each frame comes with what decides what becomes of it.  `tx_entry_iff` says that none is lost, but for one exit of `ol_tx_hl_base`: when the header of a frame cannot be built its descriptor is freed, and the frame is neither freed nor put on the list.
-/

namespace Qcacld.Txrx
open Qcacld.Adf Qcacld.Support Function List Option

/-- The `next` pointers, and where the frames are. -/
structure TxEntry where
  heap : NbufHeap
  /-- in a tx queue or with the target, in the order they got there -/
  taken : List AdfNbuf
  /-- freed, or given back to a client that frees them itself -/
  freed : List AdfNbuf

namespace TxEntry
variable (s : TxEntry)

/-- A frame is handed over, and linked into a list of those who have it now. -/
def take (msdu : AdfNbuf) (relink : Option AdfNbuf) : TxEntry :=
  { s with
    heap := adfNbufSetNext s.heap msdu relink
    taken := s.taken ++ [msdu] }

/-- `ol_tx_desc_frame_free_nonstd`: a single frame is freed, with its descriptor. -/
def frameFree (msdu : AdfNbuf) : TxEntry :=
  { s with
    heap := adfNbufSetNext s.heap msdu none
    freed := s.freed ++ [msdu] }

/-- Some of the frames taken are freed by those who have them. -/
def discard (gone : AdfNbuf → Bool) : TxEntry :=
  { s with
    taken := s.taken.filter fun m => !gone m
    freed := s.freed ++ s.taken.filter gone }

/-- `adf_nbuf_tx_free`, which frees a list. -/
def adfNbufTxFree : Nat → TxEntry → Option AdfNbuf → Option TxEntry
  | _, s, none => some s
  | 0, _, some _ => none
  | n + 1, s, some buf =>
    let next := adfNbufNext s.heap buf
    adfNbufTxFree n { s with freed := s.freed ++ [buf] } next

end TxEntry

/-! ### Low latency -/

/-- What a frame meets in `ol_tx_ll` and `ol_tx_non_std_ll`. -/
structure LlFrame where
  /-- `adf_nbuf_is_ipa_nbuf` -/
  ipa : Bool
  /-- `adf_nbuf_map_single` fails. -/
  mapFails : Bool
  /-- `ol_tx_desc_ll` has no descriptor. -/
  noDesc : Bool
  /-- `htt_tx_send_std` fails. -/
  sendFails : Bool
  /-- its `next` after `ol_tx_send` -/
  relink : Option AdfNbuf

def TxEntry.olTxSend (s : TxEntry) (f : LlFrame) (msdu : AdfNbuf) : TxEntry :=
  if f.sendFails then s.frameFree msdu else s.take msdu f.relink

section Ll
variable (frm : AdfNbuf → LlFrame)

/-- The loop of `ol_tx_ll`: the frames, and the list of those that are not accepted. -/
def olTxLlLoop : Nat → TxEntry → Option AdfNbuf → Option (TxEntry × Option AdfNbuf)
  | _, s, none => some (s, none)
  | 0, _, some _ => none
  | n + 1, s, some msdu =>
    if ¬ (frm msdu).ipa ∧ (frm msdu).mapFails then
      -- the frame is freed as a list, with all that follow
      (s.adfNbufTxFree (n + 1) (some msdu)).map fun s => (s, none)
    else if (frm msdu).noDesc then some (s, some msdu)
    else
      let next := adfNbufNext s.heap msdu
      olTxLlLoop n (s.olTxSend (frm msdu) msdu) next

def olTxLl (hasAdfCtx : Bool) (n : Nat) (s : TxEntry) (msduList : Option AdfNbuf) :
    Option (TxEntry × Option AdfNbuf) :=
  if hasAdfCtx then olTxLlLoop frm n s msduList else some (s, msduList)

def olTxNonStdLl : Nat → TxEntry → Option AdfNbuf → Option (TxEntry × Option AdfNbuf)
  | _, s, none => some (s, none)
  | 0, _, some _ => none
  | n + 1, s, some msdu =>
    if (frm msdu).noDesc then some (s, some msdu)
    else
      let next := adfNbufNext s.heap msdu
      olTxNonStdLl n (s.olTxSend (frm msdu) msdu) next

end Ll

/-! ### High latency -/

def maxRadiotapLen : Nat := 64
def ethertypeOcbTx : Nat := 0x8151
def ocbHeaderVersion : Nat := 1
def dot11pControlChannel : Nat := 5890
def ethertypePae : Nat := 0x888e
def ethertypeWai : Nat := 0x88b4
/-- `sizeof(struct ieee80211_qosframe)` -/
def sizeofQosframe : Nat := 26
def etherHdrLen : Nat := 14
/-- `enum ol_txrx_peer_state` -/
inductive OlTxrxPeerState where
  | invalid
  | disc
  | conn
  | auth

structure HlEntryCfg where
  /-- `VOS_MONITOR_MODE` -/
  monitorMode : Bool
  /-- `CONFIG_TX_DESC_HI_PRIO_RESERVE` -/
  hiPrioReserve : Bool
  /-- `WLAN_FEATURE_DSRC` -/
  dsrc : Bool
  /-- `vdev->opmode` is `wlan_op_mode_ocb`. -/
  ocb : Bool
  /-- `OCB_CONFIG_FLAG_80211_FRAME_MODE` is set in `vdev->ocb_config_flags`. -/
  frameMode80211 : Bool
  /-- the frequencies of `vdev->ocb_channel_info` -/
  ocbChannels : List Nat

/-- What a frame meets in `ol_tx_hl_base`. -/
structure HlFrame where
  /-- `rthdr->it_len` -/
  rtapLen : Nat
  /-- `tx_queue.rsrc_cnt`, when the frame comes -/
  rsrcCnt : Int
  /-- It is a DHCP or EAPOL frame. -/
  hiPrio : Bool
  /-- `ol_tx_desc_hl` has a descriptor. -/
  descHl : Bool
  /-- the `ether_type` of its first header -/
  etherType : Nat
  /-- the version of its OCB tx control header, if there is one -/
  ocbVersion : Nat
  headroom : Nat
  cloned : Bool
  /-- `adf_nbuf_expand` fails. -/
  expandFails : Bool
  /-- `ol_tx_classify` has a queue for it. -/
  txq : Bool
  /-- the state of the peer that `ol_tx_classify` finds, and the ethertype it reads -/
  peer : Option (OlTxrxPeerState × Nat)
  /-- the queued frames that `ol_tx_enqueue` discards to make room -/
  discards : AdfNbuf → Bool
  /-- its `next` in the queue -/
  relink : Option AdfNbuf

namespace HlFrame
variable (cfg : HlEntryCfg) (f : HlFrame)

/-- A descriptor is asked for, and there is one. -/
def GetsDesc : Prop :=
  (cfg.hiPrioReserve = true → txrxHlTxDescHiPrioReserved < f.rsrcCnt ∨ f.hiPrio = true) ∧ f.descHl = true
deriving Decidable

/-- `parse_ocb_tx_header`: whether a header is found, or none if it is invalid. -/
def parseOcbTxHeader : Option Bool :=
  if f.etherType ≠ ethertypeOcbTx then some false
  else if f.ocbVersion = ocbHeaderVersion then some true
  else none

def olBuildIeee80211Header : Bool :=
  let needHdrLen : Int := sizeofQosframe + 2 - etherHdrLen - f.headroom
  !((decide (0 < needHdrLen) || f.cloned) && f.expandFails)

def PeerOk : Prop :=
  match f.peer with
  | none => True
  | some (.disc, _) => False
  | some (.auth, _) => True
  | some (_, ethertype) => ethertype = ethertypePae ∨ ethertype = ethertypeWai

instance : Decidable f.PeerOk := by
  unfold PeerOk
  split <;> infer_instance

end HlFrame

def HlEntryCfg.olTxSelectSchForIpPkt (cfg : HlEntryCfg) : Bool :=
  cfg.dsrc && cfg.ocbChannels.any fun freq => freq != dot11pControlChannel

/-- The frames, and `msdu_drop_list` with its tail. -/
structure HlLoop extends TxEntry where
  dropList : Option AdfNbuf
  dropTail : Option AdfNbuf

open HlLoop

namespace HlLoop
variable (s : HlLoop)

def olTxDropListAdd (msdu : AdfNbuf) : HlLoop :=
  let heap := adfNbufSetNext s.heap msdu none
  match s.dropList, s.dropTail with
  | some list, some tail =>
    { s with
      heap := adfNbufSetNext heap tail (some msdu)
      dropList := some list
      dropTail := some msdu }
  | _, _ =>
    { s with
      heap := heap
      dropList := some msdu
      dropTail := some msdu }

/-- The frame and all that follow it are put on the list as they are. -/
def dropRest (msdu : AdfNbuf) : HlLoop :=
  match s.dropList, s.dropTail with
  | some list, some tail =>
    { s with
      heap := adfNbufSetNext s.heap tail (some msdu)
      dropList := some list }
  | _, _ => { s with dropList := some msdu }

end HlLoop

/-- What `ol_tx_hl_base` does with a frame that goes to `ol_tx_classify`. -/
def HlLoop.classify (s : HlLoop) (f : HlFrame) (msdu : AdfNbuf) : HlLoop :=
  if ¬ f.txq then { s with toTxEntry := s.frameFree msdu }
  else if ¬ f.PeerOk then { s with toTxEntry := s.frameFree msdu }
  else { s with toTxEntry := (s.discard f.discards).take msdu f.relink }

section Hl
variable (cfg : HlEntryCfg) (frm : AdfNbuf → HlFrame)

/-- What `ol_tx_hl_base` does with a frame that has its descriptor. -/
def HlLoop.descTurn (s : HlLoop) (f : HlFrame) (msdu : AdfNbuf) : HlLoop :=
  if ¬ cfg.ocb then s.classify f msdu
  else match f.parseOcbTxHeader with
    | none => s.olTxDropListAdd msdu
    | some true => s.classify f msdu
    | some false =>
      -- the frame is not put on the list here
      if cfg.frameMode80211 ∧ ¬ f.olBuildIeee80211Header then s
      else if ¬ cfg.olTxSelectSchForIpPkt then s.olTxDropListAdd msdu
      else s.classify f msdu

/-- The loop of `ol_tx_hl_base`. -/
def olTxHlLoop : Nat → HlLoop → Option AdfNbuf → Option (HlLoop × Bool)
  | _, s, none => some (s, true)
  | 0, _, some _ => none
  | n + 1, s, some msdu =>
    let next := adfNbufNext s.heap msdu
    if cfg.monitorMode ∧ maxRadiotapLen < (frm msdu).rtapLen then
      olTxHlLoop n (s.olTxDropListAdd msdu) next
    else if ¬ (frm msdu).GetsDesc cfg then some (s.dropRest msdu, false)
    else olTxHlLoop n (s.descTurn cfg (frm msdu) msdu) next

/-- `ol_tx_hl_base`; `schedRejects` are the queued frames that `ol_tx_sched`, when it is called, takes and HTT rejects. -/
def olTxHlBaseList (schedRejects : AdfNbuf → Bool) (callSched : Bool) (n : Nat) (s : TxEntry)
    (msduList : Option AdfNbuf) : Option (TxEntry × Option AdfNbuf) :=
  (olTxHlLoop cfg frm n ⟨s, none, none⟩ msduList).map fun (s, atEnd) =>
    (if atEnd ∧ callSched then s.discard schedRejects else s.toTxEntry, s.dropList)

end Hl

/-! ### What is claimed -/

/-- **No frame is lost**: each of `l` is in one place, once, and those that were accepted are in the order of the list. -/
structure EntryRight (l : List AdfNbuf) (r : TxEntry × Option AdfNbuf) : Prop where
  once : ∃ ret, Threaded r.1.heap r.2 ret ∧ ∀ m ∈ l, (r.1.taken ++ r.1.freed ++ ret).count m = 1
  order : (r.1.taken.filter (· ∈ l)).Sublist l

section
variable (cfg : HlEntryCfg) (frm : AdfNbuf → HlFrame)

/-- The exit at which a frame is lost: its header is to be built, and cannot be. -/
def HlFrame.HeaderFails (f : HlFrame) : Prop :=
  cfg.ocb = true ∧ f.parseOcbTxHeader = some false ∧ cfg.frameMode80211 = true ∧
    f.olBuildIeee80211Header = false
deriving Decidable

/-- The frames whose headers cannot be built, of those before the first one for which there is no descriptor. -/
def headerFailures : List AdfNbuf → List AdfNbuf
  | [] => []
  | m :: ms =>
    if cfg.monitorMode ∧ maxRadiotapLen < (frm m).rtapLen then headerFailures ms
    else if ¬ (frm m).GetsDesc cfg then []
    else if (frm m).HeaderFails cfg then m :: headerFailures ms
    else headerFailures ms

end

/-! ### What becomes of a list -/

/-- What a function has done with the frames of `r`: each has moved to one place, `lost` to none. -/
structure Passed (s s' : TxEntry) (r ret lost : List AdfNbuf) : Prop where
  perm : (s'.taken ++ s'.freed ++ ret ++ lost).Perm (s.taken ++ s.freed ++ r)
  taken : s'.taken.Sublist (s.taken ++ r)

section Passed
variable {s s₁ s' : TxEntry} {l r ret lost : List AdfNbuf} {m : AdfNbuf} {p : Option AdfNbuf}

theorem Passed.refl (s : TxEntry) (r : List AdfNbuf) : Passed s s r r [] :=
  ⟨by rw [append_nil], sublist_append_left _ _⟩

theorem Passed.cons {d₁ : List AdfNbuf} (h₁ : Passed s s₁ [m] [] d₁)
    (h : Passed s₁ s' r ret lost) : Passed s s' (m :: r) ret (d₁ ++ lost) where
  perm := by
    have hp := h.perm.append_right d₁
    have hp₁ := h₁.perm.append_right r
    refine List.Perm.trans ?_ (hp.trans (List.Perm.trans ?_ (hp₁.trans ?_)))
    · simp only [append_assoc]
      exact ((perm_append_comm.append_left _).append_left _).append_left _
    · simp only [append_nil, append_assoc]
      exact (perm_append_comm.append_left _).append_left _
    · simp only [append_assoc, cons_append, nil_append]
      exact .refl _
  taken := by
    refine h.taken.trans ?_
    have := h₁.taken.append_right r
    simpa using this

theorem Passed.trans (h₁ : Passed s s₁ [] [] []) (h : Passed s₁ s' r ret lost) :
    Passed s s' r ret lost where
  perm := by
    have hp₁ := h₁.perm.append_right r
    simp only [append_nil] at hp₁
    exact h.perm.trans hp₁
  taken := by
    have := h₁.taken.append_right r
    rw [append_nil] at this
    exact h.taken.trans this

/-- **Frames that have moved are lost exactly if one is in no place.** -/
theorem Passed.right_iff (h : Passed s s' l ret lost) (hret : Threaded s'.heap p ret)
    (hl : l.Nodup) (hlost : lost.Sublist l) (hnew : ∀ m ∈ l, m ∉ s.taken ++ s.freed) :
    EntryRight l (s', p) ↔ lost = [] := by
  have hcount : ∀ m ∈ l, (s'.taken ++ s'.freed ++ ret).count m + lost.count m = 1 := by
    intro m hm
    rw [← count_append, h.perm.count_eq, count_append,
      count_eq_zero_of_not_mem (hnew m hm), Nat.zero_add, count_eq_one_of_mem hl hm]
  constructor
  · rintro ⟨⟨ret', hret', honce⟩, -⟩
    obtain rfl := hret'.unique hret
    refine eq_nil_iff_forall_not_mem.2 fun m hm => ?_
    have hml := hlost.subset hm
    have := hcount m hml
    rw [honce m hml] at this
    have := count_pos_iff.2 hm
    omega
  · rintro rfl
    refine ⟨⟨ret, hret, fun m hm => by simpa using hcount m hm⟩, ?_⟩
    have ho := h.taken.filter (· ∈ l)
    rwa [filter_append, filter_eq_nil_iff.2 fun m hm hml =>
      hnew m (of_decide_eq_true hml) (mem_append_left _ hm), nil_append,
      filter_eq_self.2 fun m hm => decide_eq_true hm] at ho

theorem passed_take (s : TxEntry) (m : AdfNbuf) (relink : Option AdfNbuf) :
    Passed s (s.take m relink) [m] [] [] where
  perm := by
    simp only [TxEntry.take, append_nil, append_assoc]
    exact perm_append_comm.append_left _
  taken := .refl _

theorem passed_frameFree (s : TxEntry) (m : AdfNbuf) : Passed s (s.frameFree m) [m] [] [] where
  perm := by
    simp only [TxEntry.frameFree, append_nil, append_assoc]
    exact .refl _
  taken := sublist_append_left _ _

theorem passed_discard (s : TxEntry) (gone : AdfNbuf → Bool) : Passed s (s.discard gone) [] [] [] where
  perm := by
    have hp : (s.taken.filter (fun m => !gone m) ++ s.taken.filter gone).Perm s.taken :=
      perm_append_comm.trans (filter_append_perm gone s.taken)
    simp only [TxEntry.discard, append_nil]
    refine List.Perm.trans ?_ (hp.append_right s.freed)
    rw [append_assoc]
    exact perm_append_comm.append_left _
  taken := by
    rw [append_nil]
    exact filter_sublist

theorem adfNbufTxFree_eq {n : ℕ} (h : Threaded s.heap p r) (hn : r.length ≤ n) :
    TxEntry.adfNbufTxFree n s p = some { s with freed := s.freed ++ r } := by
  induction r generalizing s p n with
  | nil =>
    obtain rfl : p = none := h
    rw [append_nil]
    cases n <;> rfl
  | cons m r ih =>
    obtain ⟨rfl, h⟩ := h
    obtain ⟨n, rfl⟩ := Nat.exists_eq_add_one_of_ne_zero (Nat.ne_zero_of_lt hn)
    have hrest := @ih { s with freed := s.freed ++ [m] } (s.heap m) n h (Nat.le_of_succ_le_succ hn)
    rw [TxEntry.adfNbufTxFree]
    refine hrest.trans ?_
    rw [append_assoc, singleton_append]

end Passed

/-! ### Low latency lists -/

section Ll
variable {frm : AdfNbuf → LlFrame} {s : TxEntry} {r : List AdfNbuf} {p : Option AdfNbuf}
  {m : AdfNbuf} {n : ℕ}

theorem passed_olTxSend (s : TxEntry) (f : LlFrame) (m : AdfNbuf) :
    Passed s (s.olTxSend f m) [m] [] [] := by
  rw [TxEntry.olTxSend]
  split
  · exact passed_frameFree s m
  · exact passed_take s m f.relink

theorem threaded_olTxSend (f : LlFrame) (h : Threaded s.heap p r) (hm : m ∉ r) :
    Threaded (s.olTxSend f m).heap p r := by
  rw [TxEntry.olTxSend]
  split
  · exact h.update_of_notMem hm
  · exact h.update_of_notMem hm

theorem olTxLlLoop_spec (h : Threaded s.heap p r) (hn : r.length ≤ n) :
    ∃ s' p' ret, olTxLlLoop frm n s p = some (s', p') ∧ Threaded s'.heap p' ret ∧
      Passed s s' r ret [] := by
  induction r generalizing s p n with
  | nil =>
    obtain rfl : p = none := h
    exact ⟨s, none, [], by cases n <;> rfl, threaded_nil.2 rfl, .refl s []⟩
  | cons m r ih =>
    have hnd := nodup_cons.1 h.nodup
    have hall := h
    obtain ⟨rfl, h⟩ := h
    obtain ⟨n, rfl⟩ := Nat.exists_eq_add_one_of_ne_zero (Nat.ne_zero_of_lt hn)
    rw [olTxLlLoop]
    split
    · -- what is left of the list is freed
      refine ⟨_, none, [], by rw [adfNbufTxFree_eq hall hn]; rfl, threaded_nil.2 rfl, ?_, ?_⟩
      · simp only [append_nil, append_assoc]
        exact .refl _
      · exact sublist_append_left _ _
    · split
      · exact ⟨s, some m, m :: r, rfl, hall, .refl s (m :: r)⟩
      · obtain ⟨s', p', ret, hs, hret, hp⟩ := ih (threaded_olTxSend (frm m) h hnd.1)
          (Nat.le_of_succ_le_succ hn)
        exact ⟨s', p', ret, hs, hret, (passed_olTxSend s (frm m) m).cons hp⟩

theorem olTxNonStdLl_spec (h : Threaded s.heap p r) (hn : r.length ≤ n) :
    ∃ s' p' ret, olTxNonStdLl frm n s p = some (s', p') ∧ Threaded s'.heap p' ret ∧
      Passed s s' r ret [] := by
  induction r generalizing s p n with
  | nil =>
    obtain rfl : p = none := h
    exact ⟨s, none, [], by cases n <;> rfl, threaded_nil.2 rfl, .refl s []⟩
  | cons m r ih =>
    have hnd := nodup_cons.1 h.nodup
    have hall := h
    obtain ⟨rfl, h⟩ := h
    obtain ⟨n, rfl⟩ := Nat.exists_eq_add_one_of_ne_zero (Nat.ne_zero_of_lt hn)
    rw [olTxNonStdLl]
    split
    · exact ⟨s, some m, m :: r, rfl, hall, .refl s (m :: r)⟩
    · obtain ⟨s', p', ret, hs, hret, hp⟩ := ih (threaded_olTxSend (frm m) h hnd.1)
        (Nat.le_of_succ_le_succ hn)
      exact ⟨s', p', ret, hs, hret, (passed_olTxSend s (frm m) m).cons hp⟩

end Ll

/-! ### High latency lists -/

/-- `msdu_drop_list` and its tail are those of `d`. -/
def HlLoop.Drops (s : HlLoop) (d : List AdfNbuf) : Prop :=
  Threaded s.heap s.dropList d ∧ s.dropTail = d.getLast?

section Hl
variable {cfg : HlEntryCfg} {frm : AdfNbuf → HlFrame} {s s' : HlLoop} {d r : List AdfNbuf}
  {p : Option AdfNbuf} {m : AdfNbuf} {n : ℕ}

theorem HlLoop.Drops.congr (h : s.Drops d) (hm : m ∉ d) {v : Option AdfNbuf} {t : TxEntry}
    (ht : t.heap = adfNbufSetNext s.heap m v) : HlLoop.Drops { s with toTxEntry := t } d :=
  ⟨by rw [show (HlLoop.mk t s.dropList s.dropTail).heap = _ from ht]
      exact h.1.update_of_notMem hm, h.2⟩

theorem HlLoop.Drops.add (h : s.Drops d) (hm : m ∉ d) : (s.olTxDropListAdd m).Drops (d ++ [m]) := by
  obtain ⟨hth, htail⟩ := h
  rcases eq_nil_or_concat d with rfl | ⟨d, c, rfl⟩
  · have hlist : s.dropList = none := hth
    rw [olTxDropListAdd, hlist]
    exact ⟨⟨rfl, adfNbufSetNext_self s.heap m none⟩, rfl⟩
  · rw [concat_eq_append] at *
    rw [getLast?_concat] at htail
    have hcm : c ≠ m := fun e => hm (e ▸ mem_append_right d (mem_singleton_self c))
    obtain ⟨x, hlist⟩ : ∃ x, s.dropList = some x :=
      isSome_iff_exists.1 (by rw [hth.head]; simp)
    have happ := hth.append hm
    rw [← update_comm hcm.symm] at happ
    rw [olTxDropListAdd, hlist, htail]
    refine ⟨?_, by simp⟩
    rw [hlist] at happ
    rw [append_assoc]
    exact happ

theorem HlLoop.Drops.rest (h : s.Drops d) (hr : Threaded s.heap (some m) (m :: r))
    (hd : (d ++ m :: r).Nodup) :
    Threaded (s.dropRest m).heap (s.dropRest m).dropList (d ++ m :: r) := by
  obtain ⟨hth, htail⟩ := h
  rcases eq_nil_or_concat d with rfl | ⟨d, c, rfl⟩
  · have hlist : s.dropList = none := hth
    rw [dropRest, hlist]
    exact hr
  · rw [concat_eq_append] at *
    rw [getLast?_concat] at htail
    obtain ⟨x, hlist⟩ : ∃ x, s.dropList = some x :=
      isSome_iff_exists.1 (by rw [hth.head]; simp)
    rw [append_assoc, singleton_append] at hd ⊢
    rw [dropRest, hlist, htail]
    rw [hlist] at hth
    exact hth.hook hr hd

/-- What a turn leaves: the frame has moved, or is lost. -/
structure HlTurned (s s' : HlLoop) (m : AdfNbuf) (d d' : List AdfNbuf) (r lost : List AdfNbuf) :
    Prop where
  drops : s'.Drops d'
  rest : ∀ p, Threaded s.heap p r → Threaded s'.heap p r
  perm : (s'.taken ++ s'.freed ++ d' ++ lost).Perm (s.taken ++ s.freed ++ d ++ [m])
  taken : s'.taken.Sublist (s.taken ++ [m])
  nodup : (d' ++ r).Nodup

theorem heap_olTxDropListAdd (h : s.Drops d) {x : AdfNbuf} (hm : x ≠ m) (hx : x ∉ d) :
    (s.olTxDropListAdd m).heap x = s.heap x := by
  rw [olTxDropListAdd]
  split
  · next list tail hlist htail =>
    have hxt : x ≠ tail := by
      rintro rfl
      exact hx (mem_of_getLast? (h.2.symm.trans htail))
    exact (adfNbufSetNext_of_ne hxt).trans (adfNbufSetNext_of_ne hm)
  · exact adfNbufSetNext_of_ne hm

theorem taken_olTxDropListAdd (s : HlLoop) (m : AdfNbuf) :
    (s.olTxDropListAdd m).taken = s.taken := by
  rw [olTxDropListAdd]
  split <;> rfl

theorem freed_olTxDropListAdd (s : HlLoop) (m : AdfNbuf) :
    (s.olTxDropListAdd m).freed = s.freed := by
  rw [olTxDropListAdd]
  split <;> rfl

theorem taken_dropRest (s : HlLoop) (m : AdfNbuf) : (s.dropRest m).taken = s.taken := by
  rw [dropRest]
  split <;> rfl

theorem freed_dropRest (s : HlLoop) (m : AdfNbuf) : (s.dropRest m).freed = s.freed := by
  rw [dropRest]
  split <;> rfl

theorem HlTurned.listed (h : s.Drops d) (hd : (d ++ m :: r).Nodup) :
    HlTurned s (s.olTxDropListAdd m) m d (d ++ [m]) r [] := by
  obtain ⟨-, hmr, hdis⟩ := nodup_append.1 hd
  have hm : m ∉ d := fun hm => hdis m hm m mem_cons_self rfl
  refine ⟨h.add hm, fun p hp => hp.congr fun x hx => ?_, ?_, ?_, ?_⟩
  · refine heap_olTxDropListAdd h ?_ fun hxd => hdis x hxd x (mem_cons_of_mem m hx) rfl
    rintro rfl
    exact (nodup_cons.1 hmr).1 hx
  · rw [taken_olTxDropListAdd, freed_olTxDropListAdd, append_nil, ← append_assoc]
  · rw [taken_olTxDropListAdd]
    exact sublist_append_left _ _
  · rwa [append_assoc, singleton_append]

theorem HlTurned.moved (h : s.Drops d) (hd : (d ++ m :: r).Nodup) {t : TxEntry}
    {v : Option AdfNbuf} (ht : t.heap = adfNbufSetNext s.heap m v)
    (hp : Passed s.toTxEntry t [m] [] []) :
    HlTurned s { s with toTxEntry := t } m d d r [] := by
  obtain ⟨-, hmr, hdis⟩ := nodup_append.1 hd
  have hm : m ∉ d := fun hm => hdis m hm m mem_cons_self rfl
  refine ⟨h.congr hm ht, fun p hp => ?_, ?_, hp.taken, ?_⟩
  · rw [show (HlLoop.mk t s.dropList s.dropTail).heap = _ from ht]
    exact hp.update_of_notMem (nodup_cons.1 hmr).1
  · have hp' := hp.perm.append_right d
    simp only [append_nil, append_assoc] at hp' ⊢
    exact hp'.trans ((perm_append_comm.append_left _).append_left _)
  · exact hd.sublist ((sublist_cons_self m r).append_left d)

theorem HlTurned.lost (h : s.Drops d) (hd : (d ++ m :: r).Nodup) : HlTurned s s m d d r [m] :=
  ⟨h, fun _ hp => hp, .refl _, sublist_append_left _ _,
    hd.sublist ((sublist_cons_self m r).append_left d)⟩

theorem HlTurned.classify (h : s.Drops d) (hd : (d ++ m :: r).Nodup) (f : HlFrame) :
    HlTurned s (s.classify f m) m d d r [] := by
  have hfree := passed_frameFree s.toTxEntry m
  rw [HlLoop.classify]
  split
  · exact .moved h hd rfl hfree
  · split
    · exact .moved h hd rfl hfree
    · refine .moved h hd rfl ?_
      exact (passed_discard s.toTxEntry f.discards).trans (passed_take _ m f.relink)

/-- **A turn** loses the frame exactly if its header cannot be built. -/
theorem descTurn_spec (h : s.Drops d) (hd : (d ++ m :: r).Nodup) (f : HlFrame) :
    ∃ d', HlTurned s (s.descTurn cfg f m) m d d' r (if f.HeaderFails cfg then [m] else []) := by
  have hlisted : ∃ d', HlTurned s (s.olTxDropListAdd m) m d d' r [] := ⟨_, .listed h hd⟩
  have hclassify : ∃ d', HlTurned s (s.classify f m) m d d' r [] := ⟨_, .classify h hd f⟩
  have hkept : (∃ d', HlTurned s (s.descTurn cfg f m) m d d' r []) → ¬ f.HeaderFails cfg →
      ∃ d', HlTurned s (s.descTurn cfg f m) m d d' r (if f.HeaderFails cfg then [m] else []) := by
    intro ht hno
    rwa [if_neg hno]
  by_cases hocb : cfg.ocb = true
  · cases hparse : f.parseOcbTxHeader with
    | none =>
      refine hkept ?_ fun hf => nomatch hparse.symm.trans hf.2.1
      rw [descTurn, if_neg (not_not.2 hocb), hparse]
      exact hlisted
    | some found =>
      cases found with
      | true =>
        refine hkept ?_ fun hf => nomatch hparse.symm.trans hf.2.1
        rw [descTurn, if_neg (not_not.2 hocb), hparse]
        exact hclassify
      | false =>
        by_cases hb : cfg.frameMode80211 = true ∧ ¬ f.olBuildIeee80211Header = true
        · have hf : f.HeaderFails cfg := ⟨hocb, hparse, hb.1, Bool.eq_false_iff.2 hb.2⟩
          rw [if_pos hf, descTurn, if_neg (not_not.2 hocb), hparse]
          dsimp only
          rw [if_pos hb]
          exact ⟨d, .lost h hd⟩
        · refine hkept ?_ fun hf => hb ⟨hf.2.2.1, Bool.eq_false_iff.1 hf.2.2.2⟩
          rw [descTurn, if_neg (not_not.2 hocb), hparse]
          dsimp only
          rw [if_neg hb]
          split
          · exact hlisted
          · exact hclassify
  · refine hkept ?_ fun hf => hocb hf.1
    rw [descTurn, if_pos hocb]
    exact hclassify

theorem olTxHlLoop_spec (h : Threaded s.heap p r) (hs : s.Drops d) (hd : (d ++ r).Nodup)
    (hn : r.length ≤ n) :
    ∃ s' atEnd ret, olTxHlLoop cfg frm n s p = some (s', atEnd) ∧ Threaded s'.heap s'.dropList ret ∧
      (s'.taken ++ s'.freed ++ ret ++ headerFailures cfg frm r).Perm
        (s.taken ++ s.freed ++ d ++ r) ∧
      s'.taken.Sublist (s.taken ++ r) := by
  induction r generalizing s d p n with
  | nil =>
    obtain rfl : p = none := h
    refine ⟨s, true, d, by cases n <;> rfl, hs.1, .refl _, ?_⟩
    exact sublist_append_left _ _
  | cons m r ih =>
    have hall := h
    obtain ⟨rfl, h⟩ := h
    obtain ⟨n, rfl⟩ := Nat.exists_eq_add_one_of_ne_zero (Nat.ne_zero_of_lt hn)
    -- a turn, and then the rest
    have hturn : ∀ (s₁ : HlLoop) (d₁ lost : List AdfNbuf), HlTurned s s₁ m d d₁ r lost →
        ∃ s' atEnd ret, olTxHlLoop cfg frm n s₁ (s.heap m) = some (s', atEnd) ∧
          Threaded s'.heap s'.dropList ret ∧
          (s'.taken ++ s'.freed ++ ret ++ (lost ++ headerFailures cfg frm r)).Perm
            (s.taken ++ s.freed ++ d ++ m :: r) ∧
          s'.taken.Sublist (s.taken ++ m :: r) := by
      intro s₁ d₁ lost ht
      obtain ⟨s', atEnd, ret, hrun, hret, hperm, htaken⟩ :=
        ih (ht.rest _ h) ht.drops ht.nodup (Nat.le_of_succ_le_succ hn)
      refine ⟨s', atEnd, ret, hrun, hret, ?_, ?_⟩
      · have hp := hperm.append_right lost
        have hp₁ := ht.perm.append_right r
        simp only [append_assoc, singleton_append] at hp hp₁ ⊢
        refine List.Perm.trans ?_ (hp.trans (List.Perm.trans ?_ hp₁))
        · exact ((perm_append_comm.append_left _).append_left _).append_left _
        · exact ((perm_append_comm.append_left _).append_left _).append_left _
      · have := htaken.trans (ht.taken.append_right r)
        simpa using this
    rw [olTxHlLoop, headerFailures]
    split
    · next hlong => exact hturn _ _ [] (.listed hs hd)
    · split
      · refine ⟨_, false, d ++ m :: r, rfl, hs.rest hall hd, ?_, ?_⟩
        · rw [taken_dropRest, freed_dropRest, append_nil, ← append_assoc]
        · rw [taken_dropRest]
          exact sublist_append_left _ _
      · obtain ⟨d₁, ht⟩ := @descTurn_spec cfg s d r m hs hd (frm m)
        have hrest := hturn _ _ _ ht
        by_cases hf : (frm m).HeaderFails cfg
        · rw [if_pos hf] at hrest ⊢
          exact hrest
        · rw [if_neg hf] at hrest ⊢
          exact hrest

theorem headerFailures_sublist (r : List AdfNbuf) : (headerFailures cfg frm r).Sublist r := by
  induction r with
  | nil => exact .refl _
  | cons m r ih =>
    rw [headerFailures]
    split
    · exact ih.cons m
    · split
      · exact nil_sublist _
      · split
        · exact ih.cons_cons m
        · exact ih.cons m

theorem olTxHlBaseList_spec {s : TxEntry} {schedRejects : AdfNbuf → Bool} {callSched : Bool}
    (h : Threaded s.heap p r) (hn : r.length ≤ n) :
    ∃ s' p' ret, olTxHlBaseList cfg frm schedRejects callSched n s p = some (s', p') ∧
      Threaded s'.heap p' ret ∧ Passed s s' r ret (headerFailures cfg frm r) := by
  obtain ⟨s', atEnd, ret, hrun, hret, hperm, htaken⟩ :=
    @olTxHlLoop_spec cfg frm ⟨s, none, none⟩ [] r p n h ⟨threaded_nil.2 rfl, rfl⟩ h.nodup hn
  have hp : Passed s s'.toTxEntry r ret (headerFailures cfg frm r) :=
    ⟨by simpa using hperm, htaken⟩
  rw [olTxHlBaseList, hrun, map_some]
  by_cases hsched : atEnd = true ∧ callSched = true
  · refine ⟨_, _, ret, rfl, ?_⟩
    rw [if_pos hsched]
    have hd := (passed_discard s'.toTxEntry schedRejects).perm
    simp only [append_nil] at hd
    have hd' := (hd.append_right ret).append_right (headerFailures cfg frm r)
    exact ⟨hret, hd'.trans hp.perm, filter_sublist.trans htaken⟩
  · refine ⟨_, _, ret, rfl, ?_⟩
    rw [if_neg hsched]
    exact ⟨hret, hp⟩

end Hl

def threeFrames : TxEntry where
  heap := linkNbufs (fun _ => none) [1, 2, 3]
  taken := []
  freed := []

theorem threeFrames_threaded : Threaded threeFrames.heap (some 1) [1, 2, 3] := by
  decide

/-- A vdev in OCB mode that sends 802.11 frames. -/
def ocbVdev : HlEntryCfg where
  monitorMode := false
  hiPrioReserve := false
  dsrc := true
  ocb := true
  frameMode80211 := true
  ocbChannels := [5860]

def ipFrame (expandFails : Bool) : HlFrame where
  rtapLen := 0
  rsrcCnt := 0
  hiPrio := false
  descHl := true
  etherType := 0x0800
  ocbVersion := 0
  headroom := 0
  cloned := false
  expandFails := expandFails
  txq := true
  peer := none
  discards := fun _ => false
  relink := none

end Qcacld.Txrx

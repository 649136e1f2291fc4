import Qcacld.Cfg.CfgApi
import Qcacld.Support.Buffer
import Qcacld.Support.Bytes

/-!
# Cfg — CfgProcMsg

Messages that set and read configuration parameters.  `ProcSetReqInternal` takes a message apart into TLVs, each with its value padded to whole words, and sets the parameters; `ProcGetReq` answers a list of ids.  What is read outside of a message has no result.

`tlvs` is what the message says.  `cfg_msg_iff` says for which messages exactly the TLVs are applied and confirmed as they should be, and which values a request that follows gets back.
-/

namespace Qcacld.Cfg
open Qcacld.Support Function List Option Nat Store

def cfgCtlRe : BitVec 32 := 0x00020000#32
def cfgCtlWe : BitVec 32 := 0x00040000#32
def cfgCtlRestart : BitVec 32 := 0x00200000#32
def cfgCtlReload : BitVec 32 := 0x00400000#32
def cfgMaxStrLen : Nat := 256

/-- `WNI_CFG_SUCCESS` and the codes that follow it. -/
inductive WniCfg where
  | success
  | notReady
  | invalidPid
  | invalidLen
  | roParam
  | woParam
  | otherError
  | needRestart
  | needReload
deriving DecidableEq

/-- What is handed to `cfgSendHostMsg` for `WNI_CFG_SET_CNF`. -/
structure SetCnf where
  res : WniCfg
  pid : Nat

/-- What is handed to it for `WNI_CFG_GET_RSP`. -/
structure GetRsp where
  res : WniCfg
  pid : Nat
  plen : Nat
  data : List UInt8

/-- The store, and the buffer through which strings pass. -/
structure CfgMsg where
  cfg : AniSirCfg
  gSBuffer : Nat → UInt8

/-- The word at `i`. -/
def word (b : List UInt8) (i : Nat) : Nat := littleEndian (slice b i 4)

def checkParam (t : CfgTable) (s : AniSirCfg) (cfgId : Nat) (flag : BitVec 32)
    (failedResult : WniCfg) : Except WniCfg Unit :=
  if t.wniCfgMax ≤ cfgId then .error .invalidPid
  else if !isValid (s.gCfgEntry cfgId) then .error .invalidPid
  else if s.gCfgEntry cfgId &&& flag = 0#32 then .error failedResult
  else .ok ()

/-! ### Setting -/

/-- The result of a parameter that has been set, or not: whether it needs a restart or a reload. -/
def confirm (control : BitVec 32) (ret : SirRetStatus) : WniCfg :=
  if ret ≠ .success then .otherError
  else if control &&& cfgCtlRestart ≠ 0#32 then .needRestart
  else if control &&& cfgCtlReload ≠ 0#32 then .needReload
  else .success

/-- The 16-bit variable `valueLenRoundedUp4` -/
def valueLenRoundedUp4 (valueLen : Nat) : Nat := ((valueLen + 3) >>> 2 <<< 2) % 2 ^ 16

/-- One TLV in `ProcSetReqInternal`, whose value begins at `pParam`. -/
def setParam (t : CfgTable) (m : CfgMsg) (cfgId valueLen : Nat) (pParam : List UInt8) :
    Option (WniCfg × CfgMsg) :=
  match checkParam t m.cfg cfgId cfgCtlWe .roParam with
  | .error _ => some (.invalidLen, m)
  | .ok _ =>
    let control := m.cfg.gCfgEntry cfgId
    if isInt control then
      if valueLen ≠ 4 then some (.invalidLen, m)
      else do
        let value ← load pParam 0 4
        let (ret, cfg) := cfgSetInt t m.cfg cfgId (UInt32.ofNat (littleEndian value))
        return (confirm control ret, { m with cfg })
    else if pParam.length < valueLenRoundedUp4 valueLen ∨ cfgMaxStrLen < valueLen then
      some (.invalidLen, m)
    else do
      let value ← load pParam 0 valueLen
      let (ret, cfg) := cfgSetStr t m.cfg cfgId value
      return (confirm control ret, ⟨cfg, blit m.gSBuffer 0 value⟩)

/-- What is left of the message behind the value that begins at `pParam`. -/
def behindValue (valueLen : Nat) (pParam : List UInt8) : List UInt8 :=
  if pParam.length < valueLenRoundedUp4 valueLen then []
  else pParam.drop (valueLenRoundedUp4 valueLen)

theorem length_behindValue_le (valueLen : Nat) (pParam : List UInt8) :
    (behindValue valueLen pParam).length ≤ pParam.length := by
  rw [behindValue]
  split
  · exact zero_le _
  · rw [length_drop]
    exact sub_le _ _

def setLoop (t : CfgTable) (fRsp : Bool) (m : CfgMsg) (pParam : List UInt8) :
    Option (List SetCnf × CfgMsg) :=
  if 8 ≤ pParam.length then do
    let cfgId := word pParam 0 % 2 ^ 16
    let valueLen := word pParam 4 % 2 ^ 16
    let (result, m) ← setParam t m cfgId valueLen (pParam.drop 8)
    let (cnfs, m) ← setLoop t fRsp m (behindValue valueLen (pParam.drop 8))
    return (if fRsp then ⟨result, cfgId⟩ :: cnfs else cnfs, m)
  else some ([], m)
termination_by pParam.length
decreasing_by
  have hle := length_behindValue_le (word pParam 4 % 2 ^ 16) (pParam.drop 8)
  rw [List.length_drop] at hle
  omega

/-- `gCfgStatus` says whether the store has been downloaded. -/
def procSetReqInternal (t : CfgTable) (gCfgStatus : Bool) (m : CfgMsg) (msg : List UInt8)
    (fRsp : Bool) : Option (List SetCnf × CfgMsg) :=
  if !gCfgStatus then do
    let pid ← load msg 0 4
    return (if fRsp then [⟨.notReady, littleEndian pid % 2 ^ 16⟩] else [], m)
  else setLoop t fRsp m msg

def procSetReq (t : CfgTable) (gCfgStatus : Bool) (m : CfgMsg) (msg : List UInt8) :
    Option (List SetCnf × CfgMsg) :=
  procSetReqInternal t gCfgStatus m msg true

/-! ### Reading -/

/-- One id in `ProcGetReq`.  `value` is its local variable, and `sizeofGSBuffer` the size of the pointer `gSBuffer`. -/
def getParam (t : CfgTable) (sizeofGSBuffer : Nat) (m : CfgMsg) (value : UInt32) (cfgId : Nat) :
    GetRsp × CfgMsg × UInt32 :=
  match checkParam t m.cfg cfgId cfgCtlRe .woParam with
  | .error _ => (⟨.invalidLen, cfgId, 0, []⟩, m, value)
  | .ok _ =>
    if isInt (m.cfg.gCfgEntry cfgId) then
      match wlanCfgGetInt t m.cfg cfgId with
      | .ok value => (⟨.success, cfgId, 4, toLittleEndian 4 value.toNat⟩, m, value)
      | .error _ => (⟨.otherError, cfgId, 4, toLittleEndian 4 value.toNat⟩, m, value)
    else
      match wlanCfgGetStr t m.cfg cfgId sizeofGSBuffer with
      | .ok str =>
        let gSBuffer := blit m.gSBuffer 0 str
        (⟨.success, cfgId, str.length, span gSBuffer 0 ((str.length + 3) >>> 2 <<< 2)⟩,
          { m with gSBuffer }, value)
      | .error _ =>
        (⟨.otherError, cfgId, sizeofGSBuffer,
          span m.gSBuffer 0 ((sizeofGSBuffer + 3) >>> 2 <<< 2)⟩, m, value)

def getLoop (t : CfgTable) (sizeofGSBuffer : Nat) (m : CfgMsg) (value : UInt32)
    (pParam : List UInt8) : List GetRsp × CfgMsg :=
  if 4 ≤ pParam.length then
    let (rsp, m, value) := getParam t sizeofGSBuffer m value (word pParam 0 % 2 ^ 16)
    let (rsps, m) := getLoop t sizeofGSBuffer m value (pParam.drop 4)
    (rsp :: rsps, m)
  else ([], m)
termination_by pParam.length
decreasing_by
  simp only [List.length_drop]
  omega

def procGetReq (t : CfgTable) (sizeofGSBuffer : Nat) (gCfgStatus : Bool) (m : CfgMsg)
    (value : UInt32) (msg : List UInt8) : Option (List GetRsp × CfgMsg) :=
  if !gCfgStatus then do
    let pid ← load msg 0 4
    return ([⟨.notReady, littleEndian pid % 2 ^ 16, 0, []⟩], m)
  else some (getLoop t sizeofGSBuffer m value msg)

/-! ### What a message says -/

/-- A TLV: the id, the length of the value, and all that is behind the two. -/
structure Tlv where
  cfgId : Nat
  valueLen : Nat
  behind : List UInt8

open Tlv

namespace Tlv

def padded (x : Tlv) : Nat := (x.valueLen + 3) / 4 * 4

def value (x : Tlv) : List UInt8 := slice x.behind 0 x.valueLen

def ofBytes (b : List UInt8) : Tlv := ⟨word b 0 % 2 ^ 16, word b 4 % 2 ^ 16, b.drop 8⟩

/-- What a TLV asks to be set, if it is well-formed: an integer of four bytes, or a string, with its padding in the message. -/
def call (x : Tlv) (control : BitVec 32) : Option Call :=
  if x.behind.length < x.padded then none
  else if isInt control then
    if x.valueLen = 4 then some (.setInt x.cfgId (UInt32.ofNat (littleEndian x.value))) else none
  else if x.valueLen ≤ cfgMaxStrLen then some (.setStr x.cfgId x.value) else none

end Tlv

/-- The TLVs of a message, up to the first that is not whole. -/
def tlvs (msg : List UInt8) : List Tlv :=
  if 8 ≤ msg.length then
    .ofBytes msg :: tlvs ((Tlv.ofBytes msg).behind.drop (Tlv.ofBytes msg).padded)
  else []
termination_by msg.length
decreasing_by
  simp only [Tlv.ofBytes, List.length_drop]
  omega

def Store.ret (t : CfgTable) (s : Store) : Call → SirRetStatus
  | .setInt cfgId value => (cfgSetInt t s.cfg cfgId value).1
  | .setStr cfgId pStr => (cfgSetStr t s.cfg cfgId pStr).1
  | _ => .success

/-- Apply a TLV and confirm it.  `refusal` is what is confirmed where the check of the parameter fails. -/
def Store.apply (t : CfgTable) (refusal : WniCfg → WniCfg) (s : Store) (x : Tlv) : SetCnf × Store :=
  match checkParam t s.cfg x.cfgId cfgCtlWe .roParam with
  | .error result => (⟨refusal result, x.cfgId⟩, s)
  | .ok _ =>
    let control := s.cfg.gCfgEntry x.cfgId
    match x.call control with
    | none => (⟨.invalidLen, x.cfgId⟩, s)
    | some c => (⟨confirm control (s.ret t c), x.cfgId⟩, s.after t c)

def Store.applyAll (t : CfgTable) (refusal : WniCfg → WniCfg) (s : Store) :
    List Tlv → List SetCnf × Store
  | [] => ([], s)
  | x :: xs =>
    let (cnf, s) := s.apply t refusal x
    let (cnfs, s) := s.applyAll t refusal xs
    (cnf :: cnfs, s)

/-- **What is to hold of a message that sets.**  It is read inside; if the store has not been downloaded nothing is set, and else its TLVs are applied in order, with one confirmation for each. -/
def SetReqRight (t : CfgTable) (refusal : WniCfg → WniCfg) (gCfgStatus : Bool) (s : Store)
    (gSBuffer : Nat → UInt8) (msg : List UInt8) : Prop :=
  (procSetReq t gCfgStatus ⟨s.cfg, gSBuffer⟩ msg).map (fun r => (r.1, r.2.cfg)) =
    if gCfgStatus then
      let r := s.applyAll t refusal (tlvs msg)
      some (r.1, r.2.cfg)
    else some ([⟨.notReady, word msg 0 % 2 ^ 16⟩], s.cfg)

/-- **The condition on a TLV.**  Behind a header whose length is within three of `2 ^ 16` there is no other header; and the four bytes of an integer that may be set are in the message. -/
structure Tlv.Ok (t : CfgTable) (s : AniSirCfg) (x : Tlv) : Prop where
  noWrap : 2 ^ 16 < x.valueLen + 4 → x.behind.length < 8
  intWhole : checkParam t s x.cfgId cfgCtlWe .roParam = .ok () → isInt (s.gCfgEntry x.cfgId) →
    x.valueLen = 4 → 4 ≤ x.behind.length

/-- The code that is confirmed for a TLV whose check fails is the one for an invalid length. -/
def Tlv.Confirmed (t : CfgTable) (s : AniSirCfg) (refusal : WniCfg → WniCfg) (x : Tlv) : Prop :=
  ∀ r, checkParam t s x.cfgId cfgCtlWe .roParam = .error r → refusal r = .invalidLen

/-- **The condition on a message that sets.** -/
def SetReqOk (t : CfgTable) (refusal : WniCfg → WniCfg) (gCfgStatus : Bool) (s : AniSirCfg)
    (msg : List UInt8) : Prop :=
  if gCfgStatus then ∀ x ∈ tlvs msg, x.Ok t s ∧ x.Confirmed t s refusal else 4 ≤ msg.length

def ids (msg : List UInt8) : List Nat :=
  if 4 ≤ msg.length then word msg 0 % 2 ^ 16 :: ids (msg.drop 4) else []
termination_by msg.length
decreasing_by
  simp only [List.length_drop]
  omega

/-- A response carries a value: its length, and its bytes before what pads them. -/
def GetRsp.Carries (rsp : GetRsp) : Value → Prop
  | .int v => rsp.res = .success ∧ rsp.plen = 4 ∧ rsp.data = toLittleEndian 4 v.toNat
  | .str w => rsp.res = .success ∧ rsp.plen = w.length ∧ rsp.data.take w.length = w

/-- Every id of a request is answered, and `cfgId` with `v`. -/
def GetReqRight (t : CfgTable) (sizeofGSBuffer : Nat) (s : AniSirCfg) (msg : List UInt8)
    (cfgId : Nat) (v : Value) : Prop :=
  ∀ gSBuffer value, ∃ rsps m,
    procGetReq t sizeofGSBuffer true ⟨s, gSBuffer⟩ value msg = some (rsps, m) ∧
      rsps.map GetRsp.pid = ids msg ∧ ∀ rsp ∈ rsps, rsp.pid = cfgId → rsp.Carries v

/-- **The condition on a value that is read**: a string is no longer than a pointer. -/
def Value.Short (sizeofGSBuffer : Nat) : Value → Prop
  | .int _ => True
  | .str w => w.length ≤ sizeofGSBuffer

/-- What has been set, and may be read, is returned by a request just if it is short. -/
def ReturnsSet (t : CfgTable) (sizeofGSBuffer : Nat) (s : Store) : Prop :=
  ∀ cfgId v msg, s.lastSet cfgId = some v →
    checkParam t s.cfg cfgId cfgCtlRe .woParam = .ok () → cfgId ∈ ids msg →
    (GetReqRight t sizeofGSBuffer s.cfg msg cfgId v ↔ v.Short sizeofGSBuffer)

/-! ### A turn -/

section
variable {t : CfgTable} {s s' : Store} {u u' : AniSirCfg} {m m' : CfgMsg} {x : Tlv} {r : WniCfg}
  {refusal : WniCfg → WniCfg} {msg b : List UInt8} {cfgId valueLen : Nat} {flag : BitVec 32}

theorem valueLenRoundedUp4_eq (h : valueLen < 2 ^ 16) : valueLenRoundedUp4 valueLen =
    if 2 ^ 16 < valueLen + 4 then 0 else (valueLen + 3) / 4 * 4 := by
  rw [valueLenRoundedUp4, shiftRight_eq_div_pow, shiftLeft_eq]
  split <;> omega

theorem checkParam_congr (h : u.gCfgEntry = u'.gCfgEntry) :
    checkParam t u cfgId flag r = checkParam t u' cfgId flag r := by
  rw [checkParam, checkParam, h]

theorem Tlv.ok_congr (h : u.gCfgEntry = u'.gCfgEntry) : x.Ok t u ↔ x.Ok t u' := by
  constructor
  · rintro ⟨hwrap, hint⟩
    exact ⟨hwrap, by rwa [← checkParam_congr h, ← h]⟩
  · rintro ⟨hwrap, hint⟩
    exact ⟨hwrap, by rwa [checkParam_congr h, h]⟩

theorem Tlv.confirmed_congr (h : u.gCfgEntry = u'.gCfgEntry) :
    x.Confirmed t u refusal ↔ x.Confirmed t u' refusal := by
  rw [Tlv.Confirmed, Tlv.Confirmed, checkParam_congr h]

theorem entry_apply : (s.apply t refusal x).2.cfg.gCfgEntry = s.cfg.gCfgEntry := by
  rw [apply]
  split
  · rfl
  · dsimp only
    split
    · rfl
    · exact entry_after

theorem pid_apply : (s.apply t refusal x).1.pid = x.cfgId := by
  rw [apply]
  split
  · rfl
  · dsimp only
    split <;> rfl

theorem apply_refused (h : checkParam t s.cfg x.cfgId cfgCtlWe .roParam = .error r) :
    s.apply t refusal x = (⟨refusal r, x.cfgId⟩, s) := by
  rw [apply, h]

theorem setParam_refused (h : checkParam t m.cfg cfgId cfgCtlWe .roParam = .error r) :
    setParam t m cfgId valueLen b = some (.invalidLen, m) := by
  rw [setParam, h]

theorem setParam_short (h : checkParam t m.cfg cfgId cfgCtlWe .roParam = .ok ())
    (hint : isInt (m.cfg.gCfgEntry cfgId) = true) (hb : b.length < 4) :
    setParam t m cfgId 4 b = none := by
  rw [setParam, h]
  simp only [hint, if_true, ne_eq, not_true, if_false]
  rw [load, if_neg (by omega)]
  rfl

theorem refused_iff (hlen : x.valueLen < 2 ^ 16) :
    (x.behind.length < valueLenRoundedUp4 x.valueLen ∨ cfgMaxStrLen < x.valueLen) ↔
      (x.behind.length < x.padded ∨ cfgMaxStrLen < x.valueLen) := by
  rw [valueLenRoundedUp4_eq hlen, padded, cfgMaxStrLen]
  split
  · next h =>
    constructor <;> intro _ <;> right <;> omega
  · rfl

/-- **A turn** applies the TLV and has its result, if the check of the parameter does not fail. -/
theorem setParam_eq (refusal : WniCfg → WniCfg) (hm : m.cfg = s.cfg) (hx : x.Ok t s.cfg)
    (hlen : x.valueLen < 2 ^ 16) (hcheck : checkParam t s.cfg x.cfgId cfgCtlWe .roParam = .ok ()) :
    (setParam t m x.cfgId x.valueLen x.behind).map (fun r => (r.1, r.2.cfg)) =
      some ((s.apply t refusal x).1.res, (s.apply t refusal x).2.cfg) := by
  rw [setParam, apply, hm, hcheck]
  dsimp only
  by_cases hint : isInt (s.cfg.gCfgEntry x.cfgId) = true
  · rw [if_pos hint]
    by_cases hfour : x.valueLen = 4
    · have hwhole : 4 ≤ x.behind.length := hx.intWhole hcheck hint hfour
      have hcall : x.call (s.cfg.gCfgEntry x.cfgId)
          = some (.setInt x.cfgId (UInt32.ofNat (littleEndian (slice x.behind 0 4)))) := by
        rw [call, padded, value, hfour, if_neg (by omega), if_pos hint, if_pos rfl]
      rw [if_neg (not_not.2 hfour), load_of_le (by omega), hcall]
      rfl
    · have hcall : x.call (s.cfg.gCfgEntry x.cfgId) = none := by
        rw [call, if_pos hint, if_neg hfour, ite_self]
      rw [if_pos hfour, hcall]
      exact congrArg (fun u => some (WniCfg.invalidLen, u)) hm
  · rw [if_neg hint]
    by_cases hlong : x.behind.length < x.padded ∨ cfgMaxStrLen < x.valueLen
    · have hcall : x.call (s.cfg.gCfgEntry x.cfgId) = none := by
        rw [call, if_neg hint]
        rcases hlong with hlong | hlong
        · rw [if_pos hlong]
        · rw [if_neg (not_le.2 hlong), ite_self]
      rw [if_pos ((refused_iff hlen).2 hlong), hcall]
      exact congrArg (fun u => some (WniCfg.invalidLen, u)) hm
    · obtain ⟨hwhole, hmax⟩ := not_or.1 hlong
      have hpadded : x.valueLen ≤ x.padded := by
        rw [padded]
        omega
      have hcall : x.call (s.cfg.gCfgEntry x.cfgId) = some (.setStr x.cfgId x.value) := by
        rw [call, if_neg hwhole, if_neg hint, if_pos (not_lt.1 hmax)]
      rw [if_neg (mt (refused_iff hlen).1 hlong), load_of_le (by omega), hcall]
      rfl

/-! ### A message -/

theorem valueLen_ofBytes : (Tlv.ofBytes msg).valueLen < 2 ^ 16 := mod_lt _ (by decide)

theorem setLoop_of_lt {fRsp : Bool} (h : msg.length < 8) : setLoop t fRsp m msg = some ([], m) := by
  rw [setLoop, if_neg (not_le.2 h)]

theorem tlvs_of_lt (h : msg.length < 8) : tlvs msg = [] := by
  rw [tlvs, if_neg (not_le.2 h)]

theorem tlvs_of_le (h : 8 ≤ msg.length) : tlvs msg = .ofBytes msg ::
    tlvs ((Tlv.ofBytes msg).behind.drop (Tlv.ofBytes msg).padded) := by
  rw [tlvs, if_pos h]

theorem setLoop_of_le (h : 8 ≤ msg.length) : setLoop t true m msg =
    (setParam t m (Tlv.ofBytes msg).cfgId (Tlv.ofBytes msg).valueLen (Tlv.ofBytes msg).behind).bind
      fun r => (setLoop t true r.2
        (behindValue (Tlv.ofBytes msg).valueLen (Tlv.ofBytes msg).behind)).map
          fun q => (⟨r.1, (Tlv.ofBytes msg).cfgId⟩ :: q.1, q.2) := by
  rw [setLoop, if_pos h]
  simp only [map_eq_bind]
  rfl

theorem ne_nil_of_setLoop {cnfs : List SetCnf} (h : 8 ≤ msg.length)
    (hrun : setLoop t true m msg = some (cnfs, m')) : cnfs ≠ [] := by
  rw [setLoop_of_le h] at hrun
  obtain ⟨r, -, hrun⟩ := bind_eq_some_iff.1 hrun
  obtain ⟨q, -, hq⟩ := map_eq_some_iff.1 hrun
  cases hq
  exact cons_ne_nil _ _

/-- What the loop goes on with is what is behind the value, but for a length that is rounded up to nothing. -/
theorem behindValue_eq (hlen : x.valueLen < 2 ^ 16) (h : ¬2 ^ 16 < x.valueLen + 4) :
    behindValue x.valueLen x.behind = x.behind.drop x.padded := by
  rw [behindValue, valueLenRoundedUp4_eq hlen, if_neg h, ← padded]
  split
  · next hshort => rw [drop_of_length_le (le_of_lt hshort)]
  · rfl

theorem behindValue_wrap (hlen : x.valueLen < 2 ^ 16) (h : 2 ^ 16 < x.valueLen + 4) :
    behindValue x.valueLen x.behind = x.behind := by
  rw [behindValue, valueLenRoundedUp4_eq hlen, if_pos h, if_neg (not_lt_zero _), drop_zero]

theorem setLoop_behindValue (hlen : x.valueLen < 2 ^ 16) (hmax : x.behind.length < 2 ^ 16)
    (hx : x.Ok t u) :
    setLoop t true m (behindValue x.valueLen x.behind) =
      setLoop t true m (x.behind.drop x.padded) := by
  by_cases h : 2 ^ 16 < x.valueLen + 4
  · have hshort : x.behind.length < 8 := hx.noWrap h
    rw [behindValue_wrap hlen h, setLoop_of_lt hshort, setLoop_of_lt]
    rw [length_drop]
    omega
  · rw [behindValue_eq hlen h]

/-- **A turn**, whether the check fails or not. -/
theorem setParam_turn (refusal : WniCfg → WniCfg) (hm : m.cfg = s.cfg) (hx : x.Ok t s.cfg)
    (hlen : x.valueLen < 2 ^ 16) :
    ∃ res m', setParam t m x.cfgId x.valueLen x.behind = some (res, m') ∧
      m'.cfg = (s.apply t refusal x).2.cfg ∧
      (res = (s.apply t refusal x).1.res ↔ x.Confirmed t s.cfg refusal) := by
  cases hcheck : checkParam t s.cfg x.cfgId cfgCtlWe .roParam with
  | error r =>
    have hcheck' := hcheck
    rw [← hm] at hcheck'
    refine ⟨_, _, setParam_refused hcheck', ?_, ?_⟩
    · rw [apply_refused hcheck, hm]
    · rw [apply_refused hcheck]
      constructor
      · intro h r' hr'
        cases hcheck.symm.trans hr'
        exact h.symm
      · intro h
        exact (h r hcheck).symm
  | ok _ =>
    obtain ⟨⟨res, m'⟩, hrun, heq⟩ := map_eq_some_iff.1 (setParam_eq refusal hm hx hlen hcheck)
    obtain ⟨hres, hcfg⟩ := Prod.mk.inj heq
    refine ⟨res, m', hrun, hcfg, ?_⟩
    constructor
    · intro _ r hr
      cases hcheck.symm.trans hr
    · intro _
      exact hres

/-- A TLV that does not meet the condition is read outside of the message, or what is behind its header is taken for more of them. -/
theorem setLoop_not_ok (hle : 8 ≤ msg.length) (hlen : msg.length < 2 ^ 16) (hm : m.cfg = s.cfg)
    (hx : ¬(Tlv.ofBytes msg).Ok t s.cfg) {cnfs : List SetCnf}
    (hrun : setLoop t true m msg = some (cnfs, m')) :
    (Tlv.ofBytes msg).behind.drop (Tlv.ofBytes msg).padded = [] ∧ 2 ≤ cnfs.length := by
  rw [setLoop_of_le hle] at hrun
  obtain ⟨⟨res, m₁⟩, hturn, hrun⟩ := bind_eq_some_iff.1 hrun
  obtain ⟨⟨cnfs', m₂⟩, hrest, hcnfs⟩ := map_eq_some_iff.1 hrun
  obtain ⟨rfl, rfl⟩ := Prod.mk.inj hcnfs
  by_cases hwrap : 2 ^ 16 < (ofBytes msg).valueLen + 4
  · have hlong : 8 ≤ (ofBytes msg).behind.length := by
      by_contra hshort
      refine hx ⟨fun _ => not_le.1 hshort, fun _ _ hfour => ?_⟩
      rw [hfour] at hwrap
      omega
    rw [behindValue_wrap valueLen_ofBytes hwrap] at hrest
    refine ⟨drop_of_length_le ?_, ?_⟩
    · have hbehind : (ofBytes msg).behind.length = msg.length - 8 := length_drop
      rw [padded]
      omega
    · exact succ_le_succ (length_pos_of_ne_nil (ne_nil_of_setLoop hlong hrest))
  · refine absurd ⟨fun h => absurd h hwrap, fun hcheck hint hfour => ?_⟩ hx
    by_contra hshort
    rw [← hm] at hcheck hint
    rw [hfour, setParam_short hcheck hint (not_le.1 hshort)] at hturn
    cases hturn

/-- **A message that sets, exactly.** -/
theorem setLoop_right_iff (hlen : msg.length < 2 ^ 16) (hm : m.cfg = s.cfg) :
    (setLoop t true m msg).map (fun r => (r.1, r.2.cfg)) =
        some ((s.applyAll t refusal (tlvs msg)).1, (s.applyAll t refusal (tlvs msg)).2.cfg) ↔
      ∀ x ∈ tlvs msg, x.Ok t s.cfg ∧ x.Confirmed t s.cfg refusal := by
  induction msg using tlvs.induct generalizing s m with
  | case2 msg hshort =>
    rw [tlvs_of_lt (not_le.1 hshort), setLoop_of_lt (not_le.1 hshort)]
    simp [applyAll, hm]
  | case1 msg hle ih =>
    have hbehind : (ofBytes msg).behind.length = msg.length - 8 := length_drop
    rw [tlvs_of_le hle, forall_mem_cons]
    by_cases hx : (ofBytes msg).Ok t s.cfg
    · obtain ⟨res, m', hturn, hcfg, hres⟩ := setParam_turn refusal hm hx valueLen_ofBytes
      have hrest := ih (s := (s.apply t refusal (ofBytes msg)).2) (m := m')
        (by rw [length_drop]; omega) hcfg
      have hentry : (s.apply t refusal (ofBytes msg)).2.cfg.gCfgEntry = s.cfg.gCfgEntry :=
        entry_apply
      simp only [ok_congr hentry, confirmed_congr hentry] at hrest
      rw [← hrest, setLoop_of_le hle, hturn, bind_some,
        setLoop_behindValue valueLen_ofBytes (by omega) hx, and_iff_right hx, ← hres]
      cases setLoop t true m' ((ofBytes msg).behind.drop (ofBytes msg).padded) with
      | none => simp
      | some q =>
        have hpid : (s.apply t refusal (ofBytes msg)).1.pid = (ofBytes msg).cfgId :=
          pid_apply
        have hcnf : (⟨res, (ofBytes msg).cfgId⟩ : SetCnf) = (s.apply t refusal (ofBytes msg)).1 ↔
              res = (s.apply t refusal (ofBytes msg)).1.res := by
          rw [← hpid]
          exact ⟨fun h => congrArg SetCnf.res h, fun h => by rw [h]⟩
        simp only [map_some, some.injEq, Prod.mk.injEq, applyAll, cons.injEq, hcnf]
        exact and_assoc
    · refine iff_of_false (fun h => ?_) fun h => hx h.1.1
      obtain ⟨⟨cnfs, m'⟩, hrun, heq⟩ := map_eq_some_iff.1 h
      obtain ⟨hnil, htwo⟩ := setLoop_not_ok hle hlen hm hx hrun
      rw [hnil, tlvs_of_lt (by decide)] at heq
      obtain ⟨rfl, -⟩ := Prod.mk.inj heq
      exact absurd htwo (by simp [applyAll])

/-- **What a message sets, exactly.** -/
theorem setReqRight_iff {gCfgStatus : Bool} {gSBuffer : Nat → UInt8} (hlen : msg.length < 2 ^ 16) :
    SetReqRight t refusal gCfgStatus s gSBuffer msg ↔ SetReqOk t refusal gCfgStatus s.cfg msg := by
  cases gCfgStatus with
  | true => exact setLoop_right_iff hlen rfl
  | false =>
    rw [SetReqRight, SetReqOk, procSetReq, procSetReqInternal]
    simp only [Bool.not_false, if_true, Bool.false_eq_true, if_false]
    by_cases h : 4 ≤ msg.length
    · rw [load_of_le (by omega)]
      exact iff_of_true rfl h
    · rw [load, if_neg (by omega)]
      refine iff_of_false (fun hnone => ?_) h
      cases hnone

/-! ### A request -/

variable {sizeofGSBuffer : Nat} {value : UInt32} {v : Value}

theorem cfg_getParam : (getParam t sizeofGSBuffer m value cfgId).2.1.cfg = m.cfg := by
  rw [getParam]
  split
  · rfl
  · split
    · split <;> rfl
    · split <;> rfl

theorem pid_getParam : (getParam t sizeofGSBuffer m value cfgId).1.pid = cfgId := by
  rw [getParam]
  split
  · rfl
  · split
    · split <;> rfl
    · split <;> rfl

theorem getLoop_of_le (h : 4 ≤ msg.length) : (getLoop t sizeofGSBuffer m value msg).1 =
    (getParam t sizeofGSBuffer m value (word msg 0 % 2 ^ 16)).1 ::
      (getLoop t sizeofGSBuffer (getParam t sizeofGSBuffer m value (word msg 0 % 2 ^ 16)).2.1
        (getParam t sizeofGSBuffer m value (word msg 0 % 2 ^ 16)).2.2 (msg.drop 4)).1 := by
  rw [getLoop, if_pos h]

theorem getLoop_spec : (getLoop t sizeofGSBuffer m value msg).1.map GetRsp.pid = ids msg ∧
    ∀ rsp ∈ (getLoop t sizeofGSBuffer m value msg).1, ∃ m₁ value₁, m₁.cfg = m.cfg ∧
      rsp = (getParam t sizeofGSBuffer m₁ value₁ rsp.pid).1 := by
  induction msg using ids.induct generalizing m value with
  | case2 msg hshort =>
    rw [getLoop, ids, if_neg hshort, if_neg hshort]
    exact ⟨rfl, fun _ h => absurd h not_mem_nil⟩
  | case1 msg hle ih =>
    obtain ⟨hpids, hrsps⟩ := @ih (getParam t sizeofGSBuffer m value (word msg 0 % 2 ^ 16)).2.1
      (getParam t sizeofGSBuffer m value (word msg 0 % 2 ^ 16)).2.2
    rw [getLoop_of_le hle, ids, if_pos hle, map_cons, hpids, pid_getParam]
    refine ⟨rfl, forall_mem_cons.2 ⟨⟨m, value, rfl, ?_⟩, ?_⟩⟩
    · rw [pid_getParam]
    · intro rsp hrsp
      obtain ⟨m₁, value₁, hm₁, heq⟩ := hrsps rsp hrsp
      exact ⟨m₁, value₁, hm₁.trans cfg_getParam, heq⟩

theorem getReqRight_iff (hid : cfgId ∈ ids msg) (hread : ∀ m₁ : CfgMsg, ∀ value₁, m₁.cfg = u →
      ((getParam t sizeofGSBuffer m₁ value₁ cfgId).1.Carries v ↔ v.Short sizeofGSBuffer)) :
    GetReqRight t sizeofGSBuffer u msg cfgId v ↔ v.Short sizeofGSBuffer := by
  constructor
  · intro h
    obtain ⟨rsps, m, hrun, hpids, hall⟩ := h (fun _ => 0) 0
    obtain rfl : (getLoop t sizeofGSBuffer ⟨u, fun _ => 0⟩ 0 msg).1 = rsps :=
      congrArg Prod.fst (some.inj hrun)
    rw [← hpids] at hid
    obtain ⟨rsp, hrsp, hpid⟩ := mem_map.1 hid
    obtain ⟨m₁, value₁, hm₁, heq⟩ := getLoop_spec.2 rsp hrsp
    rw [hpid] at heq
    rw [← hread m₁ value₁ hm₁, ← heq]
    exact hall rsp hrsp hpid
  · intro h gSBuffer value
    refine ⟨_, _, rfl, getLoop_spec.1, fun rsp hrsp hpid => ?_⟩
    obtain ⟨m₁, value₁, hm₁, heq⟩ := getLoop_spec.2 rsp hrsp
    rw [hpid] at heq
    rw [heq]
    exact (hread m₁ value₁ hm₁).2 h

/-- What `cfgId` has been set to can be read: by the function for its kind, a string into as much room as it needs. -/
def ReadsBack (t : CfgTable) (u : AniSirCfg) (cfgId : Nat) : Value → Prop
  | .int w => isInt (u.gCfgEntry cfgId) = true ∧ wlanCfgGetInt t u cfgId = .ok w
  | .str w => isInt (u.gCfgEntry cfgId) = false ∧ ∀ room, wlanCfgGetStr t u cfgId room =
      if room < w.length then .error .cfgInvalidLen else .ok w

/-- **A response** carries the value just if it is short. -/
theorem getParam_carries_iff (hread : ReadsBack t m.cfg cfgId v)
    (hcheck : checkParam t m.cfg cfgId cfgCtlRe .woParam = .ok ()) :
    (getParam t sizeofGSBuffer m value cfgId).1.Carries v ↔ v.Short sizeofGSBuffer := by
  rw [getParam, hcheck]
  cases v with
  | int w =>
    obtain ⟨hint, hget⟩ := hread
    rw [if_pos hint, hget]
    exact iff_of_true ⟨rfl, rfl, rfl⟩ trivial
  | str w =>
    obtain ⟨hint, hget⟩ := hread
    rw [if_neg (by rw [hint]; decide), hget]
    by_cases h : sizeofGSBuffer < w.length
    · rw [if_pos h]
      refine iff_of_false (fun hc => ?_) (not_le.2 h)
      cases hc.1
    · rw [if_neg h]
      refine iff_of_true ⟨rfl, rfl, ?_⟩ (not_lt.1 h)
      have hpad : w.length ≤ (w.length + 3) >>> 2 <<< 2 := by
        rw [shiftRight_eq_div_pow, shiftLeft_eq]
        omega
      rw [span_take, min_eq_left hpad, span_blit]

theorem getReqRight_iff_short (hread : ReadsBack t u cfgId v)
    (hcheck : checkParam t u cfgId cfgCtlRe .woParam = .ok ()) (hid : cfgId ∈ ids msg) :
    GetReqRight t sizeofGSBuffer u msg cfgId v ↔ v.Short sizeofGSBuffer := by
  refine getReqRight_iff hid ?_
  rintro m₁ value₁ rfl
  exact getParam_carries_iff hread hcheck

/-! ### After a message -/

theorem readsBack_setInt {w : UInt32} (hacc : IntAccepted t u cfgId w)
    (hint : isInt (u.gCfgEntry cfgId) = true) :
    ReadsBack t (u.setIBuf (bufIndx (u.gCfgEntry cfgId)) w) cfgId (.int w) := by
  obtain ⟨hi, hv, hidx, -, -⟩ := hacc
  have hget := wlanCfgGetInt_ok (u := u.setIBuf (bufIndx (u.gCfgEntry cfgId)) w) hi hv hidx
  exact ⟨hint, hget.trans (congrArg Except.ok (update_self _ _ _))⟩

theorem readsBack_setStr {w : List UInt8} (hacc : StrAccepted t u cfgId w)
    (hint : isInt (u.gCfgEntry cfgId) = false) :
    ReadsBack t (u.blitSBuf (bufIndx (u.gCfgEntry cfgId) + 1) (UInt8.ofNat w.length :: w)) cfgId
      (.str w) := by
  obtain ⟨hi, hv, hidx, hlen⟩ := hacc
  have hbyte : w.length < 256 := lt_of_le_of_lt hlen (UInt8.toNat_lt _)
  have hlenByte : (blit u.gCfgSBuf (bufIndx (u.gCfgEntry cfgId) + 1) (UInt8.ofNat w.length :: w)
      (bufIndx (u.gCfgEntry cfgId) + 1)).toNat = w.length := by
    rw [blit_cons_self, UInt8.toNat_ofNat_of_lt' hbyte]
  have hval : span (blit (update u.gCfgSBuf (bufIndx (u.gCfgEntry cfgId) + 1)
      (UInt8.ofNat w.length)) (bufIndx (u.gCfgEntry cfgId) + 2) w)
        (bufIndx (u.gCfgEntry cfgId) + 2) w.length = w := span_blit
  refine ⟨hint, fun room => ?_⟩
  refine (wlanCfgGetStr_ok (u := u.blitSBuf (bufIndx (u.gCfgEntry cfgId) + 1)
    (UInt8.ofNat w.length :: w)) hi hv hidx).trans ?_
  rw [AniSirCfg.blitSBuf]
  rw [hlenByte]
  exact congrArg (fun l => if room < w.length then _ else Except.ok l) hval

theorem checkParam_ok (h : checkParam t u cfgId flag r = .ok ()) :
    cfgId < t.wniCfgMax ∧ isValid (u.gCfgEntry cfgId) = true := by
  rw [checkParam] at h
  split at h
  · cases h
  · next hi =>
    split at h
    · cases h
    · next hv => exact ⟨not_le.1 hi, by simpa using hv⟩

/-- How a TLV changes the store: not at all, or by the call it is for, on a parameter of its kind. -/
theorem apply_cases (t : CfgTable) (refusal : WniCfg → WniCfg) (s : Store) (x : Tlv) :
    (s.apply t refusal x).2 = s ∨ checkParam t s.cfg x.cfgId cfgCtlWe .roParam = .ok () ∧
      ((∃ w, isInt (s.cfg.gCfgEntry x.cfgId) = true ∧
          (s.apply t refusal x).2 = s.after t (.setInt x.cfgId w)) ∨
        ∃ w, isInt (s.cfg.gCfgEntry x.cfgId) = false ∧
          (s.apply t refusal x).2 = s.after t (.setStr x.cfgId w)) := by
  rw [apply]
  cases hcheck : checkParam t s.cfg x.cfgId cfgCtlWe .roParam with
  | error r => exact .inl rfl
  | ok _ =>
    dsimp only
    rw [call]
    by_cases hwhole : x.behind.length < x.padded
    · rw [if_pos hwhole]
      exact .inl rfl
    rw [if_neg hwhole]
    cases hint : isInt (s.cfg.gCfgEntry x.cfgId) with
    | true =>
      rw [if_pos rfl]
      by_cases hfour : x.valueLen = 4
      · rw [if_pos hfour]
        exact .inr ⟨rfl, .inl ⟨_, rfl, rfl⟩⟩
      · rw [if_neg hfour]
        exact .inl rfl
    | false =>
      rw [if_neg Bool.false_ne_true]
      by_cases hmax : x.valueLen ≤ cfgMaxStrLen
      · rw [if_pos hmax]
        exact .inr ⟨rfl, .inr ⟨_, rfl, rfl⟩⟩
      · rw [if_neg hmax]
        exact .inl rfl

theorem eq_of_lastSet_update {i : Nat} {w : Value}
    (h : update (fun _ => none) i (some w) cfgId = some v) : cfgId = i ∧ v = w := by
  by_cases hi : cfgId = i
  · rw [hi, update_self] at h
    exact ⟨hi, (some.inj h).symm⟩
  · rw [update_of_ne hi] at h
    cases h

/-- **What a TLV sets** can be read back. -/
theorem readsBack_apply (h : (Store.apply t refusal ⟨u, fun _ => none⟩ x).2.lastSet cfgId = some v) :
    ReadsBack t (Store.apply t refusal ⟨u, fun _ => none⟩ x).2.cfg cfgId v := by
  rcases apply_cases t refusal ⟨u, fun _ => none⟩ x with
    hsame | ⟨-, ⟨w, hint, hafter⟩ | ⟨w, hint, hafter⟩⟩
  · rw [hsame] at h
    cases h
  · rw [hafter, Store.after] at h ⊢
    by_cases hacc : IntAccepted t u x.cfgId w
    · rw [cfgSetInt_accepted hacc, record_success] at h ⊢
      obtain ⟨rfl, rfl⟩ := eq_of_lastSet_update h
      exact readsBack_setInt hacc hint
    · rw [cfgSetInt_refused hacc] at h
      cases h
  · rw [hafter, Store.after] at h ⊢
    by_cases hacc : StrAccepted t u x.cfgId w
    · rw [cfgSetStr_accepted hacc, record_success] at h ⊢
      obtain ⟨rfl, rfl⟩ := eq_of_lastSet_update h
      exact readsBack_setStr hacc hint
    · obtain ⟨ret, hne, href⟩ := cfgSetStr_refused hacc
      rw [href, record, if_neg hne] at h
      cases h

theorem readsBack_of_law (hp : Placed t s.cfg.gCfgEntry t.wniCfgMax) (hf : t.Fits) (h : Law t s)
    (hi : cfgId < t.wniCfgMax) (hv : isValid (s.cfg.gCfgEntry cfgId) = true)
    (hset : s.lastSet cfgId = some v) : ReadsBack t s.cfg cfgId v := by
  rcases kinds t cfgId with hat | ⟨d, hd⟩ | ⟨hat, hd⟩
  · obtain ⟨-, hint, hidx⟩ := hp.int cfgId hi hat
    have hheld := held_int hp h hat
    rw [held, declared_int hat, hset] at hheld
    cases v with
    | str w => cases hheld
    | int w =>
      have hw : w = s.cfg.gCfgIBuf (offset t.intSize cfgId) :=
        (Param.int.inj (some.inj hheld)).2.2
      refine ⟨hint, ?_⟩
      rw [wlanCfgGetInt_ok hi hv (by rw [hidx]; exact hf.int_lt hat), hidx, hw]
  · obtain ⟨-, hint, hidx⟩ := hp.str cfgId hi d hd
    have hheld := held_str hp h hd
    rw [held, declared_str hd, hset] at hheld
    cases v with
    | int w => cases hheld
    | str w =>
      have hw : w = span s.cfg.gCfgSBuf (offset t.strSize cfgId + 2)
          (s.cfg.gCfgSBuf (offset t.strSize cfgId + 1)).toNat :=
        (Param.str.inj (some.inj hheld)).2
      have hlt : bufIndx (s.cfg.gCfgEntry cfgId) < cfgStaSbufMaxSize := by
        rw [hidx]
        exact lt_of_lt_of_le (by omega) (hf.str_le hd)
      refine ⟨hint, fun room => ?_⟩
      rw [wlanCfgGetStr_ok hi hv hlt, hidx, hw, length_span]
  · rcases hp.unknown hat hd with hge | hinv
    · exact absurd hi (not_lt.2 hge)
    · rw [hv] at hinv
      cases hinv

theorem reach_apply {s₀ : AniSirCfg} (hf : t.Fits) (hb : t.Blank s₀) (hk : t.Keeps)
    (h : (cfgMachine t s₀).Reach (CallOk t) s) :
    (cfgMachine t s₀).Reach (CallOk t) (s.apply t refusal x).2 := by
  obtain ⟨hp, -⟩ := reach_law hf hb hk h
  rcases apply_cases t refusal s x with hsame | ⟨hcheck, ⟨w, hint, hafter⟩ | ⟨w, hint, hafter⟩⟩
  · rwa [hsame]
  · obtain ⟨hi, -⟩ := checkParam_ok hcheck
    have hok : CallOk t s (.setInt x.cfgId w) := by
      intro hne
      obtain ⟨d, hd⟩ := ne_none_iff_exists'.1 hne
      rw [(hp.str x.cfgId hi d hd).2.1] at hint
      cases hint
    rw [hafter]
    exact h.step hok rfl
  · obtain ⟨hi, -⟩ := checkParam_ok hcheck
    have hok : CallOk t s (.setStr x.cfgId w) := by
      intro hat
      rw [(hp.int x.cfgId hi hat).2.1] at hint
      cases hint
    rw [hafter]
    exact h.step hok rfl

theorem reach_applyAll {s₀ : AniSirCfg} (hf : t.Fits) (hb : t.Blank s₀) (hk : t.Keeps)
    (xs : List Tlv) (h : (cfgMachine t s₀).Reach (CallOk t) s) :
    (cfgMachine t s₀).Reach (CallOk t) (s.applyAll t refusal xs).2 := by
  induction xs generalizing s with
  | nil => exact h
  | cons x xs ih => exact ih (reach_apply hf hb hk h)

theorem returnsSet_apply :
    ReturnsSet t sizeofGSBuffer (Store.apply t refusal ⟨u, fun _ => none⟩ x).2 := by
  intro cfgId v msg hset hcheck hid
  exact getReqRight_iff_short (readsBack_apply hset) hcheck hid

theorem returnsSet_of_reach {s₀ : AniSirCfg} (hf : t.Fits) (hb : t.Blank s₀) (hk : t.Keeps)
    (h : (cfgMachine t s₀).Reach (CallOk t) s) : ReturnsSet t sizeofGSBuffer s := by
  intro cfgId v msg hset hcheck hid
  obtain ⟨hp, hl⟩ := reach_law hf hb hk h
  obtain ⟨hi, hv⟩ := checkParam_ok hcheck
  exact getReqRight_iff_short (readsBack_of_law hp hf hl hi hv hset) hcheck hid

theorem confirmed_id : x.Confirmed t u id ↔ checkParam t u x.cfgId cfgCtlWe .roParam = .ok () := by
  rw [Tlv.Confirmed]
  constructor
  · intro h
    cases hcheck : checkParam t u x.cfgId cfgCtlWe .roParam with
    | ok _ => rfl
    | error r =>
      obtain rfl : r = .invalidLen := h r hcheck
      rw [checkParam] at hcheck
      split at hcheck
      · cases hcheck
      · split at hcheck
        · cases hcheck
        · split at hcheck
          · cases hcheck
          · cases hcheck
  · intro h r hr
    cases h.symm.trans hr

end

def msgString : CfgstaticString := ⟨0, 16, 0, List.replicate 255 0, List.length_replicate⟩

/-- A string and an integer between 0 and 255, which may both be read and set. -/
def msgTable : CfgTable where
  wniCfgMax := 2
  cfgStatic
    | 0 => ⟨cfgCtlValid ||| cfgCtlRe ||| cfgCtlWe, 0, 0, 0, by decide⟩
    | _ => ⟨cfgCtlValid ||| cfgCtlRe ||| cfgCtlWe ||| cfgCtlInt, 0, 255, 100, by decide⟩
  cfgStaticString := [msgString]

def msgStore : Store := ⟨processCfgDownloadReq msgTable zeroCfg, fun _ => none⟩

def header (cfgId valueLen : Nat) : List UInt8 := toLittleEndian 4 cfgId ++ toLittleEndian 4 valueLen

theorem check_one : checkParam msgTable msgStore.cfg 1 cfgCtlWe .roParam = .ok () := by
  decide +kernel

theorem tlvs_one {b : List UInt8} (h : 8 ≤ b.length)
    (hend : ((Tlv.ofBytes b).behind.drop (Tlv.ofBytes b).padded).length < 8) :
    tlvs b = [Tlv.ofBytes b] := by
  rw [tlvs_of_le h, tlvs_of_lt hend]

/-- The string that is set: nine bytes, one more than a pointer has. -/
def nineBytes : List UInt8 := [1, 2, 3, 4, 5, 6, 7, 8, 9]

end Qcacld.Cfg

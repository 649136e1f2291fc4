import Qcacld.Lim.LimAdmitControl

/-!
# Lim — LimSvcInt

The service interval of a traffic stream.  `limCalculateSvcInt` takes the one the request gives; otherwise it divides the size of an MSDU by the rate, in whole Mbps.  `limAdmitControlAddTS` goes on with a request when it succeeds.

`SvcIntRight` says what it is to do with a valid request, and that the request is not refused on account of its interval.  `svcInt_right_iff` says for which requests it does: the computed interval is returned with `eSIR_FAILURE`.
-/

namespace Qcacld.Lim
open Qcacld.Dph

/-- The bits of a nominal MSDU, without the flag for a fixed size. -/
def SirMacTspecIE.msduBits (pTspec : SirMacTspecIE) : Nat :=
  (pTspec.nomMsduSz &&& 0x7fff).toNat * 8

/-- The service interval: the given one, the maximum before the minimum, or the microseconds an MSDU takes at the mean rate. -/
def SirMacTspecIE.svcInterval (pTspec : SirMacTspecIE) : Nat :=
  if pTspec.maxSvcInterval ≠ 0 then pTspec.maxSvcInterval.toNat
  else if pTspec.minSvcInterval ≠ 0 then pTspec.minSvcInterval.toNat
  else pTspec.msduBits * 1000000 / pTspec.meanDataRate.toNat

/-- The request passes all checks of `limAdmitControlAddTS` but that of its interval. -/
def PassesOthers (s : LimAdmit) (pAddr : SirMacAddr) (tspec : SirMacTspecIE) (assocId : UInt16)
    (alloc : Bool) : Prop :=
  Offered s pAddr tspec assocId alloc ∧ limAdmitPolicy s tspec = true ∧
    (alloc = true → limValidateAccessPolicy s tspec.tsinfo.accessPolicy assocId = true ∧
      (limTspecAdd s pAddr assocId tspec).isSome)

/-- What is to become of the interval of a valid request. -/
structure SvcIntRight (s : LimAdmit) (tspec : SirMacTspecIE) : Prop where
  interval : ∃ i, limCalculateSvcInt tspec = some (true, i) ∧ i.toNat = tspec.svcInterval
  admitted : ∀ pAddr assocId alloc, PassesOthers s pAddr tspec assocId alloc →
    ∃ r s', limAdmitControlAddTS s pAddr tspec assocId alloc = some (r, s') ∧ r ≠ .failure

section
variable {s : LimAdmit} {t : SirMacTspecIE} {a : SirMacAddr} {d : UInt16} {alloc : Bool}

theorem limCalculateSvcInt_svcInterval (hg : GivesInterval t) :
    ∃ i, limCalculateSvcInt t = some (true, i) ∧ i.toNat = t.svcInterval := by
  rw [GivesInterval] at hg
  rw [limCalculateSvcInt, if_pos hg, SirMacTspecIE.svcInterval]
  refine ⟨_, rfl, ?_⟩
  split
  · rfl
  · next hmax => rw [if_pos (hg.resolve_right hmax)]

theorem PassesOthers.addTS (h : PassesOthers s a t d alloc) (hg : GivesInterval t) :
    ∃ r s', limAdmitControlAddTS s a t d alloc = some (r, s') ∧ r ≠ .failure := by
  obtain ⟨ho, hpol, halloc⟩ := h
  have hdup := ho.1
  obtain ⟨i, hi⟩ := limCalculateSvcInt_given hg
  cases alloc with
  | false =>
    refine ⟨.success, s, ?_, TsOutcome.noConfusion⟩
    rw [limAdmitControlAddTS, hdup]
    simp [ho.2, hi, hpol]
  | true =>
    obtain ⟨hacc, hadd⟩ := halloc rfl
    obtain ⟨⟨j, u⟩, hadd⟩ := Option.isSome_iff_exists.1 hadd
    refine ⟨.entry (u.tspecInfo j).idx, u, ?_, TsOutcome.noConfusion⟩
    rw [limAdmitControlAddTS, hdup]
    simp [ho.2, hi, hpol, hacc, hadd]

/-- Without one `limCalculateSvcInt` does not succeed. -/
theorem limCalculateSvcInt_not_success (hv : limValidateTspecEdca s t = true)
    (hg : ¬ GivesInterval t) (i : UInt32) : limCalculateSvcInt t ≠ some (true, i) := by
  obtain ⟨hzero, hfail⟩ := limCalculateSvcInt_computed hg hv
  rcases UInt32.lt_or_le t.meanDataRate 1000000 with hlt | hle
  · rw [hzero hlt]
    intro h
    cases h
  · obtain ⟨n, hn⟩ := hfail hle
    rw [hn]
    intro h
    cases h

/-- **The service interval.**  `limCalculateSvcInt` does what it is to do with a valid request just if
the request gives its interval. -/
theorem svcInt_right_iff (s : LimAdmit) (tspec : SirMacTspecIE)
    (hv : limValidateTspecEdca s tspec = true) : SvcIntRight s tspec ↔ GivesInterval tspec := by
  constructor
  · intro h
    by_contra hg
    obtain ⟨i, hi, -⟩ := h.interval
    exact limCalculateSvcInt_not_success hv hg i hi
  · intro hg
    exact ⟨limCalculateSvcInt_svcInterval hg, fun _ _ _ hp => hp.addTS hg⟩

end

theorem svcInt_right_uplink : SvcIntRight emptyTspecs (uplink 0 1000000) :=
  (svcInt_right_iff emptyTspecs (uplink 0 1000000) (by decide)).2 (by decide)

def uplinkNoInterval (meanDataRate : UInt32) : SirMacTspecIE :=
  { uplink 0 meanDataRate with
    minSvcInterval := 0
    maxSvcInterval := 0 }

/-- Half a Mbps makes `limCalculateSvcInt` divide by zero.  At 2 Mbps the interval of 6 ms is computed and the request is refused, which passes all other checks. -/
theorem uplinkNoInterval_refused :
    (limValidateTspecEdca emptyTspecs (uplinkNoInterval 500000) = true ∧
      limCalculateSvcInt (uplinkNoInterval 500000) = none) ∧
    limValidateTspecEdca emptyTspecs (uplinkNoInterval 2000000) = true ∧
      limCalculateSvcInt (uplinkNoInterval 2000000) = some (false, 6000) ∧
      PassesOthers emptyTspecs .zero (uplinkNoInterval 2000000) 1 true ∧
      (limAdmitControlAddTS emptyTspecs .zero (uplinkNoInterval 2000000) 1 true).map (·.1)
        = some .failure ∧
      ¬ SvcIntRight emptyTspecs (uplinkNoInterval 2000000) := by
  refine ⟨⟨by decide, by decide⟩, by decide, by decide, ⟨by decide +kernel, by decide +kernel, fun _ =>
    ⟨by decide, by decide +kernel⟩⟩, by decide +kernel, fun h => ?_⟩
  obtain ⟨i, hi, -⟩ := h.interval
  rw [show limCalculateSvcInt (uplinkNoInterval 2000000) = some (false, 6000) by decide] at hi
  cases hi

end Qcacld.Lim

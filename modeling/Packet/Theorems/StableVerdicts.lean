/-
# Verdicts are stable while bytes arrive

Each validator is a checklist that looks only at bytes it has asked for. So more
bytes change a verdict in one way only: where the slice was too short, and then not
before it has the length that was asked for. A chain of extension headers that has
been walked to its end is walked the same whatever comes after it.
-/

import Packet.Math.Checklist
import Packet.Model.Ipv4
import Packet.Model.Ipv6
import Packet.Model.Tcp
import Packet.Model.Udp

namespace Packet

open Rust Math

/-- What bytes after a slice can do to its verdict. -/
structure StableAt (validate : Bytes → Exec (Result Unit)) (bytes trailing : Bytes) : Prop where
  returns : Returns (validate bytes)
  accepts : validate bytes = .ok (.ok ()) → validate (bytes ++ trailing) = .ok (.ok ())
  rejects : ∀ error, validate bytes = .ok (.error error) →
    (∀ needed actual, error ≠ .tooShort needed actual) →
    validate (bytes ++ trailing) = .ok (.error error)
  waits : ∀ needed actual, validate bytes = .ok (.error (.tooShort needed actual)) →
    actual = bytes.length ∧ bytes.length < needed ∧
      ((bytes ++ trailing).length < needed → validate (bytes ++ trailing) ≠ .ok (.ok ()))

/-- The result a verdict on a slice is returned as. -/
def reported (bytes : Bytes) : Verdict PacketError → Exec (Result Unit)
  | .accept => .ok (.ok ())
  | .refuse error => .ok (.error error)
  | .wait needed => .ok (.error (.tooShort needed bytes.length))

theorem reported_returns (bytes : Bytes) (verdict : Verdict PacketError) :
    Returns (reported bytes verdict) := by
  cases verdict <;> exact returns_ok _

theorem reported_eq_ok_iff {bytes : Bytes} {verdict : Verdict PacketError} :
    reported bytes verdict = .ok (.ok ()) ↔ verdict = .accept := by
  cases verdict <;> simp [reported]

theorem reported_eq_error_iff {bytes : Bytes} {verdict : Verdict PacketError}
    {error : PacketError} :
    reported bytes verdict = .ok (.error error) ↔
      verdict = .refuse error ∨
        ∃ needed, verdict = .wait needed ∧ error = .tooShort needed bytes.length := by
  cases verdict <;> simp [reported, eq_comm]

/-- An error that does not say that the slice is too short. -/
def NotTooShort (error : PacketError) : Prop := ∀ needed actual, error ≠ .tooShort needed actual

/-- A validator is stable when it runs a guarded checklist, none of whose own errors
says that the slice is too short. -/
theorem stableAt_of_checklist {validate : Bytes → Exec (Result Unit)}
    {checks : List (Check UInt8 PacketError)} (guarded : Guarded 0 checks)
    (run : ∀ bytes, validate bytes = reported bytes (runChecks checks bytes))
    (errors : ∀ check ∈ checks, check.Reports NotTooShort) (bytes trailing : Bytes) :
    StableAt validate bytes trailing := by
  have grows := guarded.grows (Nat.zero_le bytes.length) trailing
  have own : ∀ needed actual, runChecks checks bytes ≠ .refuse (.tooShort needed actual) := by
    intro needed actual refused
    exact reports_of_refuse errors refused needed actual rfl
  have before := run bytes
  have later := run (bytes ++ trailing)
  generalize runChecks checks bytes = verdict at grows own before
  generalize runChecks checks (bytes ++ trailing) = verdict' at grows later
  exact {
    returns := before ▸ reported_returns bytes verdict
    accepts := by
      intro accepted
      rw [before, reported_eq_ok_iff] at accepted
      subst accepted
      cases grows
      exact later
    rejects := by
      intro error rejected other
      rw [before, reported_eq_error_iff] at rejected
      rcases rejected with rfl | ⟨needed, _, short⟩
      · cases grows
        exact later
      · exact absurd short (other needed bytes.length)
    waits := by
      intro needed actual rejected
      rw [before, reported_eq_error_iff] at rejected
      -- No check reports this error of its own, so the checklist was waiting.
      rcases rejected with refused | ⟨needed', rfl, same⟩
      · exact absurd refused (own needed actual)
      · cases same
        cases grows with
        | wait short still =>
          refine ⟨rfl, short, fun longer accepted => ?_⟩
          rw [later, reported_eq_ok_iff] at accepted
          exact still longer accepted }

/-! ## The four validators as checklists -/

namespace Ipv4

/-- The checks of `validate`. -/
def checks : List (Check UInt8 PacketError) :=
  [.need fun _ => 20,
    .forbid (fun bytes => byteAt bytes 0 >>> 4 ≠ 4)
      (fun bytes => .invalidVersion 4 (byteAt bytes 0 >>> 4)),
    .forbid (fun bytes => byteAt bytes 0 &&& 0x0f < 5)
      (fun bytes => .invalidIpv4HeaderLength (byteAt bytes 0 &&& 0x0f)),
    .need headerLength,
    .forbid (fun bytes => (wordAt bytes 2).toNat < headerLength bytes)
      (fun bytes => .invalidIpv4TotalLength (headerLength bytes) (wordAt bytes 2).toNat)]

theorem validate_eq_reported (bytes : Bytes) :
    validate bytes = reported bytes (runChecks checks bytes) := by
  simp only [validate_eq, checks, runChecks, decide_eq_true_eq, apply_ite (reported bytes)]
  rfl

theorem checks_guarded : Guarded 0 checks := by
  have first (xs ys : Bytes) (long : 20 ≤ xs.length) : byteAt (xs ++ ys) 0 = byteAt xs 0 :=
    byteAt_append (by omega) ys
  have header (xs ys : Bytes) (long : 20 ≤ xs.length) :
      headerLength (xs ++ ys) = headerLength xs := by
    rw [headerLength, first xs ys long, headerLength]
  have total (xs ys : Bytes) (long : 20 ≤ xs.length) : wordAt (xs ++ ys) 2 = wordAt xs 2 :=
    wordAt_append (by omega) ys
  refine .need (m := 20) (looksAt_const 0 20) (fun _ _ there => there) ?_
  refine .forbid ?_ ?_ (.forbid ?_ ?_ (.need (m := 20) header (fun _ there _ => there)
    (.forbid ?_ ?_ (.nil 20))))
  all_goals
    intro xs ys long
    simp only [first xs ys long, header xs ys long, total xs ys long]

theorem checks_report : ∀ check ∈ checks, check.Reports NotTooShort := by
  simp [checks, Check.Reports, NotTooShort]

end Ipv4

namespace Ipv6

/-- The checks of `validate`. -/
def checks : List (Check UInt8 PacketError) :=
  [.need fun _ => 40,
    .forbid (fun bytes => byteAt bytes 0 >>> 4 ≠ 6)
      (fun bytes => .invalidVersion 6 (byteAt bytes 0 >>> 4))]

theorem validate_eq_reported (bytes : Bytes) :
    validate bytes = reported bytes (runChecks checks bytes) := by
  simp only [validate_eq, checks, runChecks, decide_eq_true_eq, apply_ite (reported bytes)]
  rfl

theorem checks_guarded : Guarded 0 checks := by
  have first (xs ys : Bytes) (long : 40 ≤ xs.length) : byteAt (xs ++ ys) 0 = byteAt xs 0 :=
    byteAt_append (by omega) ys
  refine .need (m := 40) (looksAt_const 0 40) (fun _ _ there => there) ?_
  refine .forbid ?_ ?_ (.nil 40)
  all_goals
    intro xs ys long
    simp only [first xs ys long]

theorem checks_report : ∀ check ∈ checks, check.Reports NotTooShort := by
  simp [checks, Check.Reports, NotTooShort]

end Ipv6

namespace Tcp

/-- The checks of `validate`. -/
def checks : List (Check UInt8 PacketError) :=
  [.need fun _ => 20,
    .forbid (fun bytes => byteAt bytes 12 >>> 4 < 5)
      (fun bytes => .invalidTcpHeaderLength (byteAt bytes 12 >>> 4)),
    .need headerLength]

theorem validate_eq_reported (bytes : Bytes) :
    validate bytes = reported bytes (runChecks checks bytes) := by
  simp only [validate_eq, checks, runChecks, decide_eq_true_eq, apply_ite (reported bytes)]
  rfl

theorem checks_guarded : Guarded 0 checks := by
  have offset (xs ys : Bytes) (long : 20 ≤ xs.length) : byteAt (xs ++ ys) 12 = byteAt xs 12 :=
    byteAt_append (by omega) ys
  have header (xs ys : Bytes) (long : 20 ≤ xs.length) :
      headerLength (xs ++ ys) = headerLength xs := by
    rw [headerLength, offset xs ys long, headerLength]
  refine .need (m := 20) (looksAt_const 0 20) (fun _ _ there => there) ?_
  refine .forbid ?_ ?_ (.need (m := 20) header (fun _ there _ => there) (.nil 20))
  all_goals
    intro xs ys long
    simp only [offset xs ys long]

theorem checks_report : ∀ check ∈ checks, check.Reports NotTooShort := by
  simp [checks, Check.Reports, NotTooShort]

end Tcp

namespace Udp

/-- The checks of `validate`. -/
def checks : List (Check UInt8 PacketError) :=
  [.need fun _ => 8,
    .forbid (fun bytes => (wordAt bytes 4).toNat < 8)
      (fun bytes => .invalidUdpLength 8 (wordAt bytes 4).toNat),
    .need fun bytes => (wordAt bytes 4).toNat]

theorem validate_eq_reported (bytes : Bytes) :
    validate bytes = reported bytes (runChecks checks bytes) := by
  simp only [validate_eq, checks, runChecks, decide_eq_true_eq, apply_ite (reported bytes)]
  rfl

theorem checks_guarded : Guarded 0 checks := by
  have field (xs ys : Bytes) (long : 8 ≤ xs.length) : wordAt (xs ++ ys) 4 = wordAt xs 4 :=
    wordAt_append (by omega) ys
  refine .need (m := 8) (looksAt_const 0 8) (fun _ _ there => there) ?_
  refine .forbid ?_ ?_ (.need (m := 8) ?_ (fun _ there _ => there) (.nil 8))
  all_goals
    intro xs ys long
    simp only [field xs ys long]

theorem checks_report : ∀ check ∈ checks, check.Reports NotTooShort := by
  simp [checks, Check.Reports, NotTooShort]

end Udp

/-- A checked packet stays accepted, with the same headers. -/
theorem Ipv6.newChecked_append {bytes : Bytes} (accepted : Accepts (newChecked bytes))
    (trailing : Bytes) :
    Accepts (newChecked (bytes ++ trailing)) ∧
      headerItems (bytes ++ trailing) = headerItems bytes := by
  obtain ⟨wellFormed, items, t, walk⟩ := exists_walk_of_accepts accepted
  have wellFormed' : WellFormed (bytes ++ trailing) := wellFormed.append trailing
  have walk' := NextHeaders.reads_append walk trailing
  rw [← start_append wellFormed.fixed] at walk'
  refine ⟨(accepts_newChecked_iff wellFormed' walk').mpr rfl, ?_⟩
  rw [headerItems_eq wellFormed'.fixed walk', headerItems_eq wellFormed.fixed walk]

/-- The verdicts of the four validators are stable under more bytes, and so is what
the checking constructor finds. -/
theorem verdicts_stable (bytes trailing : Bytes) :
    StableAt Ipv4.validate bytes trailing ∧ StableAt Ipv6.validate bytes trailing ∧
      StableAt Tcp.validate bytes trailing ∧ StableAt Udp.validate bytes trailing ∧
      (Accepts (Ipv6.newChecked bytes) → Accepts (Ipv6.newChecked (bytes ++ trailing)) ∧
        Ipv6.headerItems (bytes ++ trailing) = Ipv6.headerItems bytes) := by
  refine ⟨?_, ?_, ?_, ?_, fun accepted => Ipv6.newChecked_append accepted trailing⟩
  · exact stableAt_of_checklist Ipv4.checks_guarded Ipv4.validate_eq_reported
      Ipv4.checks_report bytes trailing
  · exact stableAt_of_checklist Ipv6.checks_guarded Ipv6.validate_eq_reported
      Ipv6.checks_report bytes trailing
  · exact stableAt_of_checklist Tcp.checks_guarded Tcp.validate_eq_reported
      Tcp.checks_report bytes trailing
  · exact stableAt_of_checklist Udp.checks_guarded Udp.validate_eq_reported
      Udp.checks_report bytes trailing

end Packet

/-
# Verification of the IPv4 header and its error report

The verdict comes from one summation, of all words of the header; the checksum in
the error report comes from another, by index and without the field. They agree:
the verdict is a comparison of the stored checksum with the reported one, up to the
two representations of zero, and storing the reported one repairs the header.
-/

import Packet.Model.Ipv4

namespace Packet.Ipv4

open Rust

/-- What verification decides and reports for a slice whose header bytes are
`header`, whose computed checksum is `expected` and whose field holds `stored`. -/
structure VerifiesExactly (bytes header : Bytes) (expected stored : UInt16) : Prop where
  computed : Checksum.compute header 10 = .ok expected
  field : Ipv4Packet.checksum bytes = .ok stored
  accepts : Accepts (newVerified bytes) ↔ stored = expected ∨ stored = 0xffff ∧ expected = 0
  reports : ¬ Accepts (newVerified bytes) →
    newVerified bytes = .ok (.error (.invalidChecksum expected stored))
  differs : ¬ Accepts (newVerified bytes) → expected ≠ stored
  repairs : ∃ repaired, computeAndSetChecksum ⟨bytes⟩ = .ok ⟨repaired⟩ ∧
    copyFromSlice bytes 10 12 (u16ToBeBytes expected) = .ok repaired ∧
    Accepts (newVerified repaired)

section Exact

variable {bytes : Bytes}

/-- Storing the checksum of the header makes it verify. -/
theorem repaired_accepts (wellFormed : WellFormed bytes) :
    Accepts (newVerified
      (splice bytes 10 (u16ToBeBytes (Checksum.checksumOf (headerTotal bytes))))) := by
  have fixed := wellFormed.fixed
  refine accepts_newVerified_iff.mpr ⟨wellFormed.splice_checksum _, .inl ?_⟩
  rw [wordAt_splice_self (by omega), headerTotal_splice wellFormed]

theorem verifiesExactly_of_wellFormed (wellFormed : WellFormed bytes) :
    VerifiesExactly bytes (bytes.take (headerLength bytes))
      (Checksum.checksumOf (headerTotal bytes)) (wordAt bytes 10) := by
  have fixed := wellFormed.fixed
  have accepts : Accepts (newVerified bytes) ↔
      wordAt bytes 10 = Checksum.checksumOf (headerTotal bytes) ∨
        wordAt bytes 10 = 0xffff ∧ Checksum.checksumOf (headerTotal bytes) = 0 :=
    accepts_newVerified_iff.trans (and_iff_right wellFormed)
  exact {
    computed := compute_header_eq wellFormed
    field := readU16_eq_ok (by omega)
    accepts
    reports := by
      intro refused
      exact (newVerified_eq wellFormed).trans (if_neg (mt accepts.mpr refused))
    differs := by
      -- A header that stores the reported checksum is accepted.
      intro refused same
      exact refused (accepts.mpr (.inl same.symm))
    repairs := by
      refine ⟨_, ?_, copyFromSlice_eq_ok (by decide) (by omega) rfl, repaired_accepts wellFormed⟩
      rw [computeAndSetChecksum_eq _ wellFormed]
      exact PacketViewMut.copyFromSlice_u16 (show 10 + 2 ≤ bytes.length by omega) _ }

end Exact

/-- Verification of every accepted slice is exact: it accepts up to the two
representations of zero, and otherwise reports the checksum that repairs it. -/
theorem newVerified_exact {bytes : Bytes} (accepted : Accepts (PacketView.new Ipv4 bytes)) :
    ∃ view header expected stored, PacketView.new Ipv4 bytes = .ok (.ok view) ∧
      view.headerBytes = .ok header ∧ VerifiesExactly bytes header expected stored := by
  have valid := accepts_new_iff.mp accepted
  have wellFormed : WellFormed bytes := validate_eq_ok_iff.mp valid
  exact ⟨⟨bytes, valid⟩, _, _, _, PacketView.new_of_valid valid, headerBytes_eq_ok wellFormed,
    verifiesExactly_of_wellFormed wellFormed⟩

/-- A header with options whose checksum field is zero. -/
theorem newVerified_exact_zeroField :
    let bytes : Bytes := [0x46, 0, 0, 24, 0, 1, 0, 0, 64, 6, 0, 0, 10, 0, 0, 1, 10, 0, 0, 2,
      1, 1, 1, 0]
    ∃ view header expected stored, PacketView.new Ipv4 bytes = .ok (.ok view) ∧
      view.headerBytes = .ok header ∧ VerifiesExactly bytes header expected stored :=
  newVerified_exact (by decide)

end Packet.Ipv4

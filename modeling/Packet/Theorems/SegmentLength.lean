/-
# The TCP checksum binds the length of a segment

Zeros after a segment add nothing to the sum of its words. What changes is the
length in the pseudo-header: it is part of the sum, and two lengths that both fit in
16 bits differ by less than 65535.
-/

import Packet.Theorems.ChecksumExact

namespace Packet.Tcp

open Rust Checksum

section Zeros

variable {bytes src dst : Bytes} {k : ℕ}

theorem wordSum_zeros : ∀ k : ℕ, wordSum (List.replicate k 0) = 0
  | 0 => rfl
  | 1 => rfl
  | k + 2 => by
    rw [List.replicate_succ, List.replicate_succ, wordSum_cons_cons, wordSum_zeros k]
    rfl

/-- After an odd number of bytes the first zero completes a word. -/
theorem trailingSum_zeros (bytes : Bytes) (k : ℕ) :
    trailingSum bytes (List.replicate k 0) = 0 := by
  unfold trailingSum
  split
  · exact wordSum_zeros k
  · exact wordSum_zeros (k + 1)

/-- Zeros count by their number alone. -/
theorem exactTotal_append_zeros (fixed : 20 ≤ bytes.length) :
    exactTotal src dst (bytes ++ List.replicate k 0) = exactTotal src dst bytes + k := by
  have words : sumOutside (bytes ++ List.replicate k 0) 16 = sumOutside bytes 16 := by
    rw [sumOutside_append rfl (by omega), trailingSum_zeros, Nat.add_zero]
  rw [exactTotal, exactTotal, words, List.length_append, List.length_replicate]
  omega

/-- A checksum of the exact sum distinguishes a segment from the same with zeros after
it. -/
theorem rejects_append_zeros {checksum : Bytes → Exec UInt16}
    (value : ∀ segment : Bytes, 20 ≤ segment.length → segment.length ≤ 65535 →
      checksum segment = .ok (checksumOf (exactTotal src dst segment)))
    (accepted : Accepts (newVerifiedWith Tcp TcpPacket.checksum checksum bytes))
    (positive : 1 ≤ k) (short : bytes.length + k ≤ 65535) :
    ∃ expected actual,
      newVerifiedWith Tcp TcpPacket.checksum checksum (bytes ++ List.replicate k 0) =
        .ok (.error (.invalidChecksum expected actual)) := by
  obtain ⟨valid, stored⟩ := (accepts_newVerifiedWith_iff checksum_of_valid).mp accepted
  have wellFormed : WellFormed bytes := validate_eq_ok_iff.mp valid
  have fixed := wellFormed.fixed
  have longer : (bytes ++ List.replicate k 0).length = bytes.length + k := by
    rw [List.length_append, List.length_replicate]
  have field : TcpPacket.checksum (bytes ++ List.replicate k 0) = .ok (wordAt bytes 16) := by
    rw [checksum_eq_ok (by omega), wordAt_append (by omega)]
  -- Both checksums are of exact sums, and these differ by the number of zeros.
  have computed := value (bytes ++ List.replicate k 0) (by omega) (by omega)
  rw [value bytes fixed (by omega), Except.ok.injEq] at stored
  rw [exactTotal_append_zeros fixed] at computed
  have nonzero : 0 < exactTotal src dst bytes := by
    unfold exactTotal
    omega
  -- The number of zeros would have to be a multiple of 65535.
  have differs : checksumOf (exactTotal src dst bytes + k) ≠ wordAt bytes 16 := by
    rw [← stored, ne_eq, checksumOf_add_eq_iff nonzero]
    intro divides
    have large := Nat.le_of_dvd positive divides
    omega
  have valid' : PacketSpec.validate Tcp (bytes ++ List.replicate k 0) = .ok (.ok ()) :=
    validate_eq_ok_iff.mpr (wellFormed.append _)
  exact ⟨_, _, (newVerifiedWith_of_valid valid' field computed).trans (if_neg differs)⟩

end Zeros

/-- An accepted segment with zeros after it, up to 65535 bytes in all, is rejected for
its checksum. -/
theorem appendedZeros_invalidChecksum {bytes : Bytes} {k : ℕ} (positive : 1 ≤ k)
    (short : bytes.length + k ≤ 65535) :
    (∀ src dst, Accepts (newVerifiedIpv4 bytes src dst) → ∃ expected actual,
      newVerifiedIpv4 (bytes ++ List.replicate k 0) src dst =
        .ok (.error (.invalidChecksum expected actual))) ∧
    (∀ src dst, Accepts (newVerifiedIpv6 bytes src dst) → ∃ expected actual,
      newVerifiedIpv6 (bytes ++ List.replicate k 0) src dst =
        .ok (.error (.invalidChecksum expected actual))) := by
  constructor
  · intro src dst accepted
    have value (segment : Bytes) (fixed : 20 ≤ segment.length) (within : segment.length ≤ 65535) :
        tcpChecksumIpv4 src dst segment =
          .ok (checksumOf (exactTotal src.toList dst.toList segment)) :=
      ((exactIpv4_iff src dst fixed).mpr (Nat.lt_succ_of_le within)).value
    exact rejects_append_zeros value accepted positive short
  · intro src dst accepted
    have value (segment : Bytes) (fixed : 20 ≤ segment.length) (within : segment.length ≤ 65535) :
        tcpChecksumIpv6 src dst segment =
          .ok (checksumOf (exactTotal src.toList dst.toList segment)) :=
      ((exactIpv6_iff src dst fixed (by omega)).mpr (sumOutside_lt within 16)).value
    exact rejects_append_zeros value accepted positive short

/-- A bare header with its checksum, and one zero after it. -/
theorem appendedZeros_invalidChecksum_one :
    let bytes : Bytes := List.replicate 12 (0 : UInt8) ++ [0x50, 0, 0, 0, 0xaf, 0xe5, 0, 0]
    ∃ expected actual,
      newVerifiedIpv4 (bytes ++ List.replicate 1 0) (.replicate 4 0) (.replicate 4 0) =
        .ok (.error (.invalidChecksum expected actual)) :=
  (appendedZeros_invalidChecksum (by decide) (by decide)).1 _ _ (by decide)

end Packet.Tcp

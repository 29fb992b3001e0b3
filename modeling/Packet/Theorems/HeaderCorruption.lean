/-
# Verified IPv4 headers detect a corrupted byte

The first byte says how long the header is. Any other byte of it replaced by a
different value leaves the words that are summed where they are and makes their sum
another one modulo 65535, so the header is refused: by the checks, if it is a length
that no longer fits, and by verification otherwise.
-/

import Packet.Model.Ipv4
import Packet.Theorems.Corruption

namespace Packet.Ipv4

open Rust

section Corrupted

variable {bytes : Bytes}

/-- The header of what verification accepts adds up to a multiple of 65535. -/
theorem dvd_wordSum_of_accepts (accepted : Accepts (newVerified bytes)) :
    65535 ∣ Checksum.wordSum (bytes.take (headerLength bytes)) := by
  obtain ⟨wellFormed, holds⟩ := accepts_newVerified_iff.mp accepted
  have words := wellFormed.words
  have room : 10 + 2 ≤ (bytes.take (headerLength bytes)).length := by
    rw [header_length wellFormed]
    omega
  have total := Checksum.wordSum_eq_add_field rfl room
  rw [header_field wellFormed] at total
  rw [total]
  exact (Checksum.completes_iff.mpr holds).2

/-- A byte after the first one does not say how long the header is. -/
theorem headerLength_set {i n : ℕ} (after : 1 ≤ i) (long : 20 ≤ n) (within : n ≤ bytes.length)
    (value : UInt8) (trailing : Bytes) :
    headerLength ((bytes.take n).set i value ++ trailing) = headerLength bytes := by
  have size : ((bytes.take n).set i value).length = n := by
    rw [List.length_set, List.length_take, Nat.min_eq_left within]
  rw [headerLength, byteAt_append (by omega), byteAt_set_ne (by omega), byteAt_take (by omega),
    headerLength]

end Corrupted

/-- Any other value for a byte of a verified header after its first makes
verification reject, whatever bytes follow the header. -/
theorem newVerified_detects_byte {bytes : Bytes} {headerLen i : ℕ} {value : UInt8}
    (accepted : Accepts (newVerified bytes))
    (length : Ipv4Packet.headerLen bytes = .ok headerLen) (after : 1 ≤ i) (inside : i < headerLen)
    (changed : index bytes i ≠ .ok value) (trailing : Bytes) :
    Rejects (newVerified ((bytes.take headerLen).set i value ++ trailing)) := by
  obtain ⟨wellFormed, _⟩ := accepts_newVerified_iff.mp accepted
  have fixed := wellFormed.fixed
  have words := wellFormed.words
  have header := wellFormed.header
  rw [packet_headerLen_eq_ok (by omega), Except.ok.injEq] at length
  subst length
  refine rejects_of_returns (newVerified_returns _) fun accepted' => ?_
  -- Both headers would add up to a multiple of 65535.
  have zero := dvd_wordSum_of_accepts accepted
  have zero' := dvd_wordSum_of_accepts accepted'
  have size : ((bytes.take (headerLength bytes)).set i value).length = headerLength bytes := by
    rw [List.length_set, header_length wellFormed]
  rw [headerLength_set after words header, List.take_left' size] at zero'
  have differs : value ≠ byteAt (bytes.take (headerLength bytes)) i := by
    rw [byteAt_take inside]
    rintro rfl
    exact changed (index_byteAt (by omega))
  have corrupted := corrupts_set (by rw [header_length wellFormed]; exact inside) differs
  exact corrupted.wordSum_ne ((Nat.modEq_zero_iff_dvd.mpr zero').trans
    (Nat.modEq_zero_iff_dvd.mpr zero).symm)

/-- The low byte of the checksum of a minimal header. -/
theorem newVerified_detects_byte_checksum :
    let bytes : Bytes := [0x45, 0, 0, 20, 0, 1, 0, 0, 64, 6, 0x66, 0xe1, 10, 0, 0, 1, 10, 0, 0, 2]
    Rejects (newVerified ((bytes.take 20).set 11 0xe0 ++ [1, 2, 3])) :=
  newVerified_detects_byte (by decide) (by decide) (by decide) (by decide) (by decide) [1, 2, 3]

end Packet.Ipv4

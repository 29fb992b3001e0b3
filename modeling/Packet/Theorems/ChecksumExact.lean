/-
# When TCP checksums are exact

Nothing limits the length of a slice that the validator accepts. Over IPv4 the
pseudo-header has 16 bits for the segment length; over IPv6 it has 32, which are
enough for every slice considered here. The words of the segment are added up in
32 bits. So over IPv4 the length decides, and below 65536 the sum always fits; over
IPv6 the sum does.
-/

import Packet.Model.Tcp

namespace Packet.Tcp

open Rust Checksum

/-- The sum a checksum stands for: addresses, protocol number, true length, and the
words of the segment outside its checksum field. -/
def exactTotal (src dst bytes : Bytes) : ℕ :=
  wordSum src + wordSum dst + tcpProtocol.toNat + bytes.length + sumOutside bytes 16

/-- The IPv4 checksum is computed with a pseudo-header that has the true length in it, and
from the exact sum. -/
structure ExactIpv4 (src dst : Ipv4Addr) (bytes : Bytes) : Prop where
  length : ∃ pseudo length,
    buildPseudoIpv4 src dst tcpProtocol (.ofNat bytes.length) = .ok pseudo ∧
    readU16 pseudo 10 = .ok length ∧ length.toNat = bytes.length
  value : tcpChecksumIpv4 src dst bytes =
    .ok (checksumOf (exactTotal src.toList dst.toList bytes))

/-- The IPv6 checksum is computed with a pseudo-header that has the true length in it, and
from the exact sum. -/
structure ExactIpv6 (src dst : Ipv6Addr) (bytes : Bytes) : Prop where
  length : ∃ pseudo length,
    buildPseudoIpv6 src dst tcpProtocol (.ofNat bytes.length) = .ok pseudo ∧
    readU32 pseudo 32 = .ok length ∧ length.toNat = bytes.length
  value : tcpChecksumIpv6 src dst bytes =
    .ok (checksumOf (exactTotal src.toList dst.toList bytes))

section Length

variable {bytes : Bytes}

/-- The value alone is exact also where what the length loses is a multiple of 65535. -/
theorem tcpChecksumIpv4_exact_iff (src dst : Ipv4Addr) (fixed : 20 ≤ bytes.length) :
    tcpChecksumIpv4 src dst bytes = .ok (checksumOf (exactTotal src.toList dst.toList bytes)) ↔
      sumOutside bytes 16 < 2 ^ 32 ∧ 65535 ∣ bytes.length / 65536 := by
  have truncated : (UInt16.ofNat bytes.length).toNat = bytes.length % 65536 := UInt16.toNat_ofNat'
  have total : exactTotal src.toList dst.toList bytes =
      totalIpv4 src dst bytes + 65536 * (bytes.length / 65536) := by
    rw [exactTotal, totalIpv4, wordSum_pseudoIpv4, truncated]
    omega
  rw [tcpChecksumIpv4_eq src dst fixed, checked_eq_ok, total, eq_comm,
    checksumOf_add_eq_iff (totalIpv4_pos src dst bytes)]
  refine and_congr_right fun _ => ?_
  omega

theorem exactIpv4_iff (src dst : Ipv4Addr) (fixed : 20 ≤ bytes.length) :
    ExactIpv4 src dst bytes ↔ bytes.length < 65536 := by
  constructor
  · -- A length that is kept in 16 bits is below 65536.
    intro exact
    obtain ⟨_, length, _, _, same⟩ := exact.length
    rw [← same]
    exact length.toNat_lt
  · intro short
    -- Fewer than 32768 words of 16 bits each.
    have fits : sumOutside bytes 16 < 2 ^ 32 := sumOutside_lt (Nat.le_of_lt_succ short) 16
    refine ⟨⟨_, _, buildPseudoIpv4_eq src dst tcpProtocol _, readU16_pseudoIpv4 src dst _ _,
      UInt16.toNat_ofNat_of_lt' short⟩, (tcpChecksumIpv4_exact_iff src dst fixed).mpr ⟨fits, ?_⟩⟩
    rw [Nat.div_eq_of_lt short]
    exact Nat.dvd_zero 65535

/-- A 32-bit length counts as its two words, which differ from it by a multiple of
65535. -/
theorem checksumOf_totalIpv6 (src dst : Ipv6Addr) (short : bytes.length < 2 ^ 32) :
    checksumOf (totalIpv6 src dst bytes) =
      checksumOf (exactTotal src.toList dst.toList bytes) := by
  have length : (UInt32.ofNat bytes.length).toNat = bytes.length :=
    UInt32.toNat_ofNat_of_lt' short
  have total : exactTotal src.toList dst.toList bytes =
      totalIpv6 src dst bytes + 65535 * (bytes.length / 65536) := by
    rw [totalIpv6, wordSum_pseudoIpv6, wordSum_u32ToBeBytes, length, exactTotal]
    omega
  rw [total, checksumOf_add_eq_iff (totalIpv6_pos src dst bytes) |>.mpr (Nat.dvd_mul_right _ _)]

theorem exactIpv6_iff (src dst : Ipv6Addr) (fixed : 20 ≤ bytes.length)
    (short : bytes.length < 2 ^ 32) :
    ExactIpv6 src dst bytes ↔ sumOutside bytes 16 < 2 ^ 32 := by
  constructor
  · -- A value is returned only if the accumulator has held the sum.
    intro exact
    have computed := exact.value
    rw [tcpChecksumIpv6_eq src dst fixed] at computed
    exact (checked_eq_ok.mp computed).1
  · intro fits
    refine ⟨⟨_, _, buildPseudoIpv6_eq src dst tcpProtocol _, readU32_pseudoIpv6 src dst _ _,
      UInt32.toNat_ofNat_of_lt' short⟩, ?_⟩
    rw [tcpChecksumIpv6_eq src dst fixed, if_pos fits, checksumOf_totalIpv6 src dst short]

end Length

/-- The IPv4 checksum is exact exactly for segments shorter than 65536 bytes, the
IPv6 checksum exactly for those whose words add up to less than 2 ^ 32. With a truncated
length the IPv4 value comes out right only by a coincidence of the lengths. -/
theorem checksums_exact_iff {bytes : Bytes} (accepted : Accepts (PacketView.new Tcp bytes))
    (short : bytes.length < 2 ^ 32) :
    (∀ src dst, ExactIpv4 src dst bytes ↔ bytes.length < 65536) ∧
    (∀ src dst, ExactIpv6 src dst bytes ↔ sumOutside bytes 16 < 2 ^ 32) ∧
    (∀ src dst, tcpChecksumIpv4 src dst bytes =
        .ok (checksumOf (exactTotal src.toList dst.toList bytes)) ↔
      sumOutside bytes 16 < 2 ^ 32 ∧ 65535 ∣ bytes.length / 65536) := by
  have fixed : 20 ≤ bytes.length := (validate_eq_ok_iff.mp (accepts_new_iff.mp accepted)).fixed
  exact ⟨fun src dst => exactIpv4_iff src dst fixed,
    fun src dst => exactIpv6_iff src dst fixed short,
    fun src dst => tcpChecksumIpv4_exact_iff src dst fixed⟩

/-- A segment with one byte of payload. -/
theorem checksums_exact_iff_bareHeader :
    ExactIpv4 (.replicate 4 1) (.replicate 4 2) (bareHeader 0x50 ++ [7]) ∧
      ExactIpv6 (.replicate 16 1) (.replicate 16 2) (bareHeader 0x50 ++ [7]) := by
  have accepted : Accepts (PacketView.new Tcp (bareHeader 0x50 ++ [7])) := by decide
  have exact := checksums_exact_iff accepted (by decide)
  exact ⟨(exact.1 _ _).mpr (by decide), (exact.2.1 _ _).mpr (by decide)⟩

/-! ## Long segments -/

theorem accepts_append_bareHeader (trailing : Bytes) :
    Accepts (PacketView.new Tcp (bareHeader 0x50 ++ trailing)) := by
  have header : WellFormed (bareHeader 0x50) := ⟨by decide, by decide, by decide⟩
  exact accepts_new_iff.mpr (validate_eq_ok_iff.mpr (header.append trailing))

/-- The sum of a header and one byte repeated. -/
theorem sumOutside_append_replicate (k : ℕ) (byte : UInt8) :
    sumOutside (bareHeader 0x50 ++ List.replicate (2 * k) byte) 16 =
      0x5000 + k * (byte.toNat * 257) := by
  have header : sumOutside (bareHeader 0x50) 16 = 0x5000 := by decide
  have even : (bareHeader 0x50).length % 2 = 0 := by decide
  rw [sumOutside_append rfl (by decide), header, trailingSum, if_pos even, wordSum_replicate]

/-- At 65536 bytes the IPv4 pseudo-header carries the length 0, and the checksum is
that of another sum. At 131094 bytes the accumulator of the IPv6 checksum
overflows. -/
theorem longSegments_inexact :
    Accepts (PacketView.new Tcp (bareHeader 0x50 ++ List.replicate (2 * 32758) 0)) ∧
    (bareHeader 0x50 ++ List.replicate (2 * 32758) 0).length = 65536 ∧
    tcpChecksumIpv4 (.replicate 4 0) (.replicate 4 0)
      (bareHeader 0x50 ++ List.replicate (2 * 32758) 0) ≠
      .ok (checksumOf (exactTotal (Vector.replicate 4 0).toList (Vector.replicate 4 0).toList
        (bareHeader 0x50 ++ List.replicate (2 * 32758) 0))) ∧
    Accepts (PacketView.new Tcp (bareHeader 0x50 ++ List.replicate (2 * 65537) 0xff)) ∧
    tcpChecksumIpv6 (.replicate 16 0) (.replicate 16 0)
      (bareHeader 0x50 ++ List.replicate (2 * 65537) 0xff) = .error .overflow := by
  have header : (bareHeader 0x50).length = 20 := rfl
  have size : (bareHeader 0x50 ++ List.replicate (2 * 32758) 0).length = 65536 := by
    rw [List.length_append, List.length_replicate, header]
  have fixed : 20 ≤ (bareHeader 0x50 ++ List.replicate (2 * 65537) 0xff).length := by
    rw [List.length_append, header]
    exact Nat.le_add_right 20 _
  refine ⟨accepts_append_bareHeader _, size, fun exact => ?_, accepts_append_bareHeader _, ?_⟩
  · have lost := ((tcpChecksumIpv4_exact_iff _ _ (by omega)).mp exact).2
    rw [size] at lost
    exact absurd lost (by decide)
  rw [tcpChecksumIpv6_eq _ _ fixed, sumOutside_append_replicate]
  exact if_neg (by decide)

end Packet.Tcp

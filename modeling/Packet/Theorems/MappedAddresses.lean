/-
# IPv4-mapped addresses

The prefix of an IPv4-mapped address adds a single word of ones to a sum, which is
a zero of the one's-complement sum. The two pseudo-headers hold the same words in
another order otherwise, as long as the length fits in 16 bits. So over mapped
addresses the IPv6 checksum is the IPv4 checksum, and verification over one family
is verification over the other.
-/

import Packet.Model.Tcp
import Packet.Model.Udp

namespace Packet

open Rust Checksum

/-- The address `::ffff:a.b.c.d`. -/
def Ipv4Addr.toIpv6Mapped (addr : Ipv4Addr) : Ipv6Addr :=
  ⟨(List.replicate 10 0 ++ [0xff, 0xff] ++ addr.toList).toArray, by simp⟩

/-- The prefix adds one word of ones. -/
theorem wordSum_toIpv6Mapped (addr : Ipv4Addr) :
    wordSum addr.toIpv6Mapped.toList = 65535 + wordSum addr.toList := by
  have ones : wordSum (List.replicate 10 0 ++ [0xff, 0xff]) = 65535 := rfl
  have split : addr.toIpv6Mapped.toList = List.replicate 10 0 ++ [0xff, 0xff] ++ addr.toList := rfl
  rw [split, wordSum_append addr.toList rfl, ones]

section Pseudo

variable (src dst : Ipv4Addr) (protocol : UInt8) {len : UInt16} {wideLen : UInt32}

/-- With mapped addresses the longer pseudo-header adds the words of the shorter one and
two words of ones. -/
theorem wordSum_pseudoIpv6_mapped (same : wideLen.toNat = len.toNat) :
    wordSum (pseudoIpv6 src.toIpv6Mapped dst.toIpv6Mapped protocol wideLen) =
      wordSum (pseudoIpv4 src dst protocol len) + 2 * 65535 := by
  have bound := len.toNat_lt
  rw [wordSum_pseudoIpv6, wordSum_toIpv6Mapped, wordSum_toIpv6Mapped, wordSum_u32ToBeBytes, same,
    wordSum_pseudoIpv4]
  -- The upper word of the length is zero.
  omega

/-- The words of ones do not show in the checksum of a message that is not all zeros. -/
theorem checksumOf_pseudoIpv6_mapped (same : wideLen.toNat = len.toNat) {rest : ℕ}
    (nonzero : 0 < wordSum (pseudoIpv4 src dst protocol len) + rest) :
    checksumOf (wordSum (pseudoIpv6 src.toIpv6Mapped dst.toIpv6Mapped protocol wideLen) + rest) =
      checksumOf (wordSum (pseudoIpv4 src dst protocol len) + rest) := by
  rw [wordSum_pseudoIpv6_mapped src dst protocol same, Nat.add_right_comm,
    checksumOf_add_eq_iff nonzero]
  exact Nat.dvd_mul_left _ _

end Pseudo

/-- Verification looks at a checksum function on the bytes verified only. -/
theorem newVerifiedWith_congr {P : Type} [PacketSpec P]
    {stored checksum checksum' : Bytes → Exec UInt16} {bytes : Bytes}
    (same : checksum' bytes = checksum bytes) :
    newVerifiedWith P stored checksum' bytes = newVerifiedWith P stored checksum bytes := by
  rw [newVerifiedWith, same, newVerifiedWith]

/-! ## TCP -/

namespace Tcp

theorem tcpChecksumIpv6_mapped (src dst : Ipv4Addr) {bytes : Bytes} (fixed : 20 ≤ bytes.length)
    (short : bytes.length ≤ 65535) :
    tcpChecksumIpv6 src.toIpv6Mapped dst.toIpv6Mapped bytes = tcpChecksumIpv4 src dst bytes := by
  have narrow : (UInt16.ofNat bytes.length).toNat = bytes.length :=
    UInt16.toNat_ofNat_of_lt' (Nat.lt_succ_of_le short)
  have wide : (UInt32.ofNat bytes.length).toNat = bytes.length :=
    UInt32.toNat_ofNat_of_lt' (Nat.lt_of_le_of_lt short (by decide))
  rw [tcpChecksumIpv6_eq _ _ fixed, totalIpv6, tcpChecksumIpv4_eq src dst fixed, totalIpv4,
    checksumOf_pseudoIpv6_mapped src dst tcpProtocol (wide.trans narrow.symm)
      (totalIpv4_pos src dst bytes)]

/-- Both families compute and verify the same over mapped addresses. -/
structure MappedAgrees (src dst : Ipv4Addr) (bytes : Bytes) : Prop where
  checksums : ∃ sum, tcpChecksumIpv4 src dst bytes = .ok sum ∧
    tcpChecksumIpv6 src.toIpv6Mapped dst.toIpv6Mapped bytes = .ok sum
  verified : newVerifiedIpv6 bytes src.toIpv6Mapped dst.toIpv6Mapped =
    newVerifiedIpv4 bytes src dst

theorem mappedAgrees (src dst : Ipv4Addr) {bytes : Bytes} (wellFormed : WellFormed bytes)
    (short : bytes.length ≤ 65535) : MappedAgrees src dst bytes := by
  have same := tcpChecksumIpv6_mapped src dst wellFormed.fixed short
  refine ⟨?_, newVerifiedWith_congr same⟩
  have computed := (segmentChecksumIpv4 src dst wellFormed.fixed).eq_ok short
  exact ⟨_, computed, same.trans computed⟩

end Tcp

/-! ## UDP -/

namespace Udp

theorem udpChecksumIpv6_mapped (src dst : Ipv4Addr) {bytes : Bytes} (fixed : 8 ≤ bytes.length) :
    udpChecksumIpv6 src.toIpv6Mapped dst.toIpv6Mapped bytes = udpChecksumIpv4 src dst bytes := by
  have bound := (wordAt bytes 4).toNat_lt
  have wide : (UInt32.ofNat (wordAt bytes 4).toNat).toNat = (wordAt bytes 4).toNat :=
    UInt32.toNat_ofNat_of_lt' (Nat.lt_trans bound (by decide))
  rw [udpChecksumIpv6_eq _ _ fixed, totalIpv6, udpChecksumIpv4_eq src dst fixed, totalIpv4,
    checksumOf_pseudoIpv6_mapped src dst udpProtocol wide (totalIpv4_pos src dst bytes)]

/-- Both families compute the same over mapped addresses, and verify the same unless the
datagram says that its checksum was not computed, which only IPv4 lets pass unchecked. -/
structure MappedAgrees (src dst : Ipv4Addr) (bytes : Bytes) : Prop where
  checksums : ∃ sum, udpChecksumIpv4 src dst bytes = .ok sum ∧
    udpChecksumIpv6 src.toIpv6Mapped dst.toIpv6Mapped bytes = .ok sum
  verified : UdpPacket.checksum bytes ≠ .ok 0 →
    newVerifiedIpv6 bytes src.toIpv6Mapped dst.toIpv6Mapped = newVerifiedIpv4 bytes src dst
  accepts_iff : Accepts (newVerifiedIpv4 bytes src dst) ↔ UdpPacket.checksum bytes = .ok 0 ∨
    Accepts (newVerifiedIpv6 bytes src.toIpv6Mapped dst.toIpv6Mapped)

theorem mappedAgrees (src dst : Ipv4Addr) {bytes : Bytes} (wellFormed : WellFormed bytes)
    (short : bytes.length ≤ 65535) : MappedAgrees src dst bytes := by
  have same := udpChecksumIpv6_mapped src dst wellFormed.fixed
  have field : UdpPacket.checksum bytes = .ok 0 ↔ wordAt bytes 6 = 0 := by
    rw [checksum_eq_ok wellFormed.fixed, Except.ok.injEq]
  refine ⟨?_, ?_, ?_⟩
  · have computed := (segmentChecksumIpv4 src dst wellFormed.fixed).eq_ok short
    exact ⟨_, computed, same.trans computed⟩
  · intro computed
    rw [newVerifiedIpv4_eq wellFormed, if_neg fun zero => computed (field.mpr zero)]
    exact newVerifiedWith_congr same
  · rw [accepts_newVerifiedIpv4_iff, accepts_newVerifiedIpv6_iff, same, field]
    simp only [wellFormed, true_and]

end Udp

/-- On accepted slices of at most 65535 bytes the two families agree over mapped
addresses, for TCP and for UDP. -/
theorem mappedAddresses_agree {bytes : Bytes} (short : bytes.length ≤ 65535)
    (src dst : Ipv4Addr) :
    (Accepts (PacketView.new Tcp bytes) → Tcp.MappedAgrees src dst bytes) ∧
    (Accepts (PacketView.new Udp bytes) → Udp.MappedAgrees src dst bytes) := by
  constructor
  · intro accepted
    exact Tcp.mappedAgrees src dst (Tcp.validate_eq_ok_iff.mp (accepts_new_iff.mp accepted)) short
  · intro accepted
    exact Udp.mappedAgrees src dst (Udp.validate_eq_ok_iff.mp (accepts_new_iff.mp accepted)) short

/-- A bare header, and a datagram without payload. -/
theorem mappedAddresses_agree_headers :
    Tcp.MappedAgrees (.replicate 4 1) (.replicate 4 2) (Tcp.bareHeader 0x50) ∧
    Udp.MappedAgrees (.replicate 4 1) (.replicate 4 2) [0, 0, 0, 0, 0, 8, 0, 0] :=
  ⟨(mappedAddresses_agree (by decide) _ _).1 (by decide),
    (mappedAddresses_agree (by decide) _ _).2 (by decide)⟩

end Packet

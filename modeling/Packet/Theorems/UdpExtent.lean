/-
# What a UDP checksum covers

The length field delimits the datagram for `payload()` and in the pseudo-header,
while the sum runs over the whole slice. Bytes after the datagram, such as link
padding, are therefore part of what is checksummed. They go unnoticed exactly
when their own words add up to a multiple of 65535.
-/

import Packet.Model.Udp

namespace Packet.Udp

open Rust Checksum

section Trailing

variable {datagram trailing : Bytes}

theorem totalIpv4_append (src dst : Ipv4Addr) (fixed : 8 ≤ datagram.length) :
    totalIpv4 src dst (datagram ++ trailing) =
      totalIpv4 src dst datagram + trailingSum datagram trailing := by
  rw [totalIpv4, wordAt_append (by omega), sumOutside_append rfl (by omega), totalIpv4,
    Nat.add_assoc]

theorem totalIpv6_append (src dst : Ipv6Addr) (fixed : 8 ≤ datagram.length) :
    totalIpv6 src dst (datagram ++ trailing) =
      totalIpv6 src dst datagram + trailingSum datagram trailing := by
  rw [totalIpv6, wordAt_append (by omega), sumOutside_append rfl (by omega), totalIpv6,
    Nat.add_assoc]

/-- A datagram the length field delimits is short enough to be summed. -/
theorem sumOutside_lt_of_delimited (delimited : (wordAt datagram 4).toNat = datagram.length) :
    sumOutside datagram 6 < 2 ^ 32 := by
  have bound := (wordAt datagram 4).toNat_lt
  exact sumOutside_lt (by omega) 6

theorem udpChecksumIpv4_append_iff (src dst : Ipv4Addr) (fixed : 8 ≤ datagram.length)
    (small : sumOutside datagram 6 < 2 ^ 32) :
    udpChecksumIpv4 src dst (datagram ++ trailing) = udpChecksumIpv4 src dst datagram ↔
      sumOutside (datagram ++ trailing) 6 < 2 ^ 32 ∧ 65535 ∣ trailingSum datagram trailing := by
  have fixed' : 8 ≤ (datagram ++ trailing).length := by
    rw [List.length_append]
    omega
  rw [udpChecksumIpv4_eq src dst fixed', udpChecksumIpv4_eq src dst fixed, if_pos small,
    checked_eq_ok, totalIpv4_append src dst fixed,
    checksumOf_add_eq_iff (totalIpv4_pos src dst datagram)]

theorem udpChecksumIpv6_append_iff (src dst : Ipv6Addr) (fixed : 8 ≤ datagram.length)
    (small : sumOutside datagram 6 < 2 ^ 32) :
    udpChecksumIpv6 src dst (datagram ++ trailing) = udpChecksumIpv6 src dst datagram ↔
      sumOutside (datagram ++ trailing) 6 < 2 ^ 32 ∧ 65535 ∣ trailingSum datagram trailing := by
  have fixed' : 8 ≤ (datagram ++ trailing).length := by
    rw [List.length_append]
    omega
  rw [udpChecksumIpv6_eq src dst fixed', udpChecksumIpv6_eq src dst fixed, if_pos small,
    checked_eq_ok, totalIpv6_append src dst fixed,
    checksumOf_add_eq_iff (totalIpv6_pos src dst datagram)]

/-- Verification of a datagram with bytes after it goes as that of the datagram
when the checksum does. -/
theorem accepts_append_iff_ipv4 {src dst : Ipv4Addr} (wellFormed : WellFormed datagram)
    (same : udpChecksumIpv4 src dst (datagram ++ trailing) = udpChecksumIpv4 src dst datagram) :
    Accepts (newVerifiedIpv4 (datagram ++ trailing) src dst) ↔
      Accepts (newVerifiedIpv4 datagram src dst) := by
  have fixed := wellFormed.fixed
  rw [accepts_newVerifiedIpv4_iff, accepts_newVerifiedIpv4_iff, same, wordAt_append (by omega)]
  exact and_congr_left' (iff_of_true (wellFormed.append trailing) wellFormed)

theorem accepts_append_iff_ipv6 {src dst : Ipv6Addr} (wellFormed : WellFormed datagram)
    (same : udpChecksumIpv6 src dst (datagram ++ trailing) = udpChecksumIpv6 src dst datagram) :
    Accepts (newVerifiedIpv6 (datagram ++ trailing) src dst) ↔
      Accepts (newVerifiedIpv6 datagram src dst) := by
  have fixed := wellFormed.fixed
  rw [accepts_newVerifiedIpv6_iff, accepts_newVerifiedIpv6_iff, same, wordAt_append (by omega)]
  exact and_congr_left' (iff_of_true (wellFormed.append trailing) wellFormed)

end Trailing

/-- The bytes after a datagram change neither checksum and neither verdict. -/
def IgnoresTrailing (datagram trailing : Bytes) (src₄ dst₄ : Ipv4Addr) (src₆ dst₆ : Ipv6Addr) :
    Prop :=
  udpChecksumIpv4 src₄ dst₄ (datagram ++ trailing) = udpChecksumIpv4 src₄ dst₄ datagram ∧
  udpChecksumIpv6 src₆ dst₆ (datagram ++ trailing) = udpChecksumIpv6 src₆ dst₆ datagram ∧
  (Accepts (newVerifiedIpv4 (datagram ++ trailing) src₄ dst₄) ↔
    Accepts (newVerifiedIpv4 datagram src₄ dst₄)) ∧
  (Accepts (newVerifiedIpv6 (datagram ++ trailing) src₆ dst₆) ↔
    Accepts (newVerifiedIpv6 datagram src₆ dst₆))

/-- Trailing bytes are ignored exactly when their words add up to a multiple of
65535, in a slice whose sum does not overflow. -/
theorem ignoresTrailing_iff {datagram trailing : Bytes} {length : UInt16}
    (accepted : Accepts (PacketView.new Udp datagram))
    (field : UdpPacket.length datagram = .ok length)
    (delimited : length.toNat = datagram.length) (src₄ dst₄ : Ipv4Addr) (src₆ dst₆ : Ipv6Addr) :
    IgnoresTrailing datagram trailing src₄ dst₄ src₆ dst₆ ↔
      sumOutside (datagram ++ trailing) 6 < 2 ^ 32 ∧ 65535 ∣ trailingSum datagram trailing := by
  have wellFormed : WellFormed datagram := validate_eq_ok_iff.mp (accepts_new_iff.mp accepted)
  have fixed := wellFormed.fixed
  -- The length field delimits the datagram, so it can be summed.
  obtain rfl : wordAt datagram 4 = length := by
    rw [length_eq_ok fixed] at field
    exact Except.ok.inj field
  have small := sumOutside_lt_of_delimited delimited
  constructor
  · -- Either checksum alone already tells.
    rintro ⟨same, _⟩
    exact (udpChecksumIpv4_append_iff src₄ dst₄ fixed small).mp same
  · intro unnoticed
    have same₄ := (udpChecksumIpv4_append_iff src₄ dst₄ fixed small).mpr unnoticed
    have same₆ := (udpChecksumIpv6_append_iff src₆ dst₆ fixed small).mpr unnoticed
    exact ⟨same₄, same₆, accepts_append_iff_ipv4 wellFormed same₄,
      accepts_append_iff_ipv6 wellFormed same₆⟩

/-- Four bytes of padding that add up to 65535. -/
theorem ignoresTrailing_padding :
    IgnoresTrailing [0, 0, 0, 0, 0, 8, 0xff, 0xde] [0xff, 0xfe, 0, 1] (.replicate 4 0)
        (.replicate 4 0) (.replicate 16 0) (.replicate 16 0) ↔
      sumOutside ([0, 0, 0, 0, 0, 8, 0xff, 0xde] ++ [0xff, 0xfe, 0, 1]) 6 < 2 ^ 32 ∧
        65535 ∣ trailingSum [0, 0, 0, 0, 0, 8, 0xff, 0xde] [0xff, 0xfe, 0, 1] :=
  ignoresTrailing_iff (by decide) rfl rfl _ _ _ _

/-- Two bytes of padding change both checksums, and the datagram is rejected. -/
theorem padding_rejected :
    Accepts (PacketView.new Udp [0, 0, 0, 0, 0, 8, 0xff, 0xde]) ∧
    UdpPacket.length [0, 0, 0, 0, 0, 8, 0xff, 0xde] = .ok 8 ∧
    Accepts (newVerifiedIpv4 [0, 0, 0, 0, 0, 8, 0xff, 0xde] (.replicate 4 0) (.replicate 4 0)) ∧
    ¬ Accepts (newVerifiedIpv4 ([0, 0, 0, 0, 0, 8, 0xff, 0xde] ++ [0, 1]) (.replicate 4 0)
      (.replicate 4 0)) ∧
    ¬ IgnoresTrailing [0, 0, 0, 0, 0, 8, 0xff, 0xde] [0, 1] (.replicate 4 0) (.replicate 4 0)
      (.replicate 16 0) (.replicate 16 0) := by
  refine ⟨by decide, by decide, by decide, by decide, ?_⟩
  rintro ⟨same, _⟩
  exact absurd same (by decide)

end Packet.Udp

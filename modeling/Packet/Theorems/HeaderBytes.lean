/-
# The header a view hands out

The header length is computed twice per protocol, once while validating and once
for `header_bytes()`. The two agree. The assertion on the way to the second is
stated apart from what validation guarantees: the one for TCP asks for more than
20 bytes, where a segment of exactly 20 is accepted.
-/

import Packet.Model.Ipv4
import Packet.Model.Ipv6
import Packet.Model.Tcp
import Packet.Model.Udp

namespace Packet

open Rust

/-- Both views of an accepted slice hand out its first `n` bytes. -/
structure HandsOut (P : Type) [PacketSpec P] (bytes : Bytes) (n : ℕ) : Prop where
  within : n ≤ bytes.length
  shared : ∀ view, PacketView.new P bytes = .ok (.ok view) →
    view.headerBytes = .ok (bytes.take n)
  mutable : ∀ view, PacketViewMut.new P bytes = .ok (.ok view) →
    view.headerBytes = .ok (bytes.take n)

section Views

variable {P : Type} [PacketSpec P] {bytes : Bytes} {n : ℕ}

theorem handsOut_of_headerLen (within : n ≤ bytes.length)
    (headerLen : PacketSpec.headerLen P bytes = .ok n) : HandsOut P bytes n where
  within := within
  shared := by
    intro view accepted
    rw [PacketView.headerBytes, PacketView.bytes_of_new accepted, headerLen, ok_bind,
      rangeTo_eq_ok within]
  mutable := by
    intro view accepted
    obtain ⟨_, rfl⟩ := PacketViewMut.new_eq_ok_iff.mp accepted
    rw [PacketViewMut.headerBytes, headerLen, ok_bind, rangeTo_eq_ok within]

/-- A header is handed out only when its length is computed. -/
theorem HandsOut.headerLen_returns (handsOut : HandsOut P bytes n)
    (valid : PacketSpec.validate P bytes = .ok (.ok ())) :
    Returns (PacketSpec.headerLen P bytes) := by
  have header := handsOut.mutable ⟨bytes⟩ (PacketViewMut.new_eq_ok_iff.mpr ⟨valid, rfl⟩)
  obtain ⟨headerLen, computed, _⟩ := bind_eq_ok.mp header
  exact ⟨headerLen, computed⟩

end Views

namespace Tcp

theorem headerLen_eq_ok {bytes : Bytes} (long : 20 < bytes.length) :
    headerLen bytes = .ok (headerLength bytes) := by
  have holds : decide (bytes.length > minHeaderLen) = true := decide_eq_true long
  rw [headerLen, holds, debugAssert_true, ok_bind, index_byteAt (by omega)]
  rfl

/-- The assertion fails on a header without options and payload. -/
theorem headerLen_returns_iff {bytes : Bytes} :
    Returns (headerLen bytes) ↔ 20 < bytes.length := by
  constructor
  · intro returns
    by_contra short
    have fails : decide (bytes.length > minHeaderLen) = false := decide_eq_false short
    rw [headerLen, fails] at returns
    exact not_returns_error _ returns
  · intro long
    exact .of_eq_ok (headerLen_eq_ok long)

end Tcp

/-- Header bytes are the validated header for every accepted slice of IPv4, IPv6
and UDP. For TCP they are exactly when the slice is longer than 20 bytes. -/
theorem headerBytes_sound_iff (bytes : Bytes) :
    (Accepts (PacketView.new Ipv4 bytes) →
      HandsOut Ipv4 bytes (Ipv4.headerLength bytes) ∧
        Ipv4Packet.headerLen bytes = .ok (Ipv4.headerLength bytes)) ∧
    (Accepts (PacketView.new Ipv6 bytes) → HandsOut Ipv6 bytes 40) ∧
    (Accepts (PacketView.new Udp bytes) → HandsOut Udp bytes 8) ∧
    (Accepts (PacketView.new Tcp bytes) →
      (HandsOut Tcp bytes (Tcp.headerLength bytes) ∧
        TcpPacket.headerLen bytes = .ok (Tcp.headerLength bytes) ↔ 20 < bytes.length)) := by
  refine ⟨?_, ?_, ?_, ?_⟩
  · intro accepted
    have wellFormed : Ipv4.WellFormed bytes :=
      Ipv4.validate_eq_ok_iff.mp (accepts_new_iff.mp accepted)
    have nonempty : 0 < bytes.length := Nat.lt_of_lt_of_le (by decide) wellFormed.fixed
    exact ⟨handsOut_of_headerLen wellFormed.header (Ipv4.headerLen_eq_ok nonempty),
      Ipv4.packet_headerLen_eq_ok nonempty⟩
  · intro accepted
    have wellFormed : Ipv6.WellFormed bytes :=
      Ipv6.validate_eq_ok_iff.mp (accepts_new_iff.mp accepted)
    exact handsOut_of_headerLen wellFormed.fixed rfl
  · intro accepted
    have wellFormed : Udp.WellFormed bytes :=
      Udp.validate_eq_ok_iff.mp (accepts_new_iff.mp accepted)
    exact handsOut_of_headerLen wellFormed.fixed rfl
  · intro accepted
    have valid := accepts_new_iff.mp accepted
    have wellFormed : Tcp.WellFormed bytes := Tcp.validate_eq_ok_iff.mp valid
    constructor
    · -- Handing out the header has passed the assertion.
      rintro ⟨handsOut, _⟩
      exact Tcp.headerLen_returns_iff.mp (handsOut.headerLen_returns valid)
    · intro long
      exact ⟨handsOut_of_headerLen wellFormed.header (Tcp.headerLen_eq_ok long),
        Tcp.packet_headerLen_eq_ok wellFormed.fixed⟩

/-- A segment with one byte of payload. -/
theorem headerBytes_sound_iff_segment :
    let bytes := Tcp.bareHeader 0x50 ++ [7]
    HandsOut Tcp bytes (Tcp.headerLength bytes) ∧
      TcpPacket.headerLen bytes = .ok (Tcp.headerLength bytes) ↔ 20 < bytes.length :=
  (headerBytes_sound_iff _).2.2.2 (by decide)

/-- A segment of 20 bytes is accepted, and its header bytes trip the assertion. -/
theorem bareHeader_asserts :
    let bytes := Tcp.bareHeader 0x50
    Accepts (PacketView.new Tcp bytes) ∧
    (⟨bytes⟩ : PacketViewMut Tcp).headerBytes = .error .assertion ∧
    ¬ HandsOut Tcp bytes (Tcp.headerLength bytes) := by
  refine ⟨by decide, by decide, ?_⟩
  intro handsOut
  have returns : Returns (Tcp.headerLen _) := handsOut.headerLen_returns (by decide)
  exact absurd (Tcp.headerLen_returns_iff.mp returns) (by decide)

end Packet

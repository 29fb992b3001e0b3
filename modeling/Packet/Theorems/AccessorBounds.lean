/-
# Accepted slices can be read

What `validate` checks is enough for every accessor: each slice bound built from
the packet's own fields lies in order and in range, and both iterators run to
their end. The parts a packet is split into are consecutive and leave nothing
out up to where the packet ends.
-/

import Packet.Model.Ipv4
import Packet.Model.Ipv6
import Packet.Model.Tcp
import Packet.Model.Udp

namespace Packet

open Rust

/-- Views never panic and split the packet exactly, for every accepted slice of
each protocol. -/
theorem acceptedViews_readable :
    (∀ bytes, Accepts (PacketView.new Ipv4 bytes) → Readable Ipv4 bytes ∧
      ∃ totalLen options payload, Ipv4Packet.totalLen bytes = .ok totalLen ∧
        Ipv4Packet.options bytes = .ok options ∧ Ipv4Packet.payload bytes = .ok payload ∧
        bytes.take 20 ++ options ++ payload = bytes.take (min totalLen.toNat bytes.length)) ∧
    (∀ bytes, Accepts (PacketView.new Tcp bytes) → Readable Tcp bytes ∧
      ∃ optionsRaw payload, TcpPacket.optionsRaw bytes = .ok optionsRaw ∧
        TcpPacket.payload bytes = .ok payload ∧
        bytes.take 20 ++ optionsRaw ++ payload = bytes) ∧
    (∀ bytes, Accepts (PacketView.new Udp bytes) → Readable Udp bytes ∧
      ∃ length payload, UdpPacket.length bytes = .ok length ∧
        UdpPacket.payload bytes = .ok payload ∧
        bytes.take 8 ++ payload = bytes.take length.toNat) ∧
    (∀ bytes, Accepts (PacketView.new Ipv6 bytes) → Readable Ipv6 bytes ∧
      ∃ payloadLen payload, Ipv6Packet.payloadLen bytes = .ok payloadLen ∧
        Ipv6Packet.payload bytes = .ok payload ∧
        bytes.take 40 ++ payload = bytes.take (min (40 + payloadLen.toNat) bytes.length)) := by
  refine ⟨?_, ?_, ?_, ?_⟩
  · intro bytes accepted
    have wellFormed : Ipv4.WellFormed bytes :=
      Ipv4.validate_eq_ok_iff.mp (accepts_new_iff.mp accepted)
    have fixed := wellFormed.fixed
    have total : Ipv4.headerLength bytes ≤ min (wordAt bytes 2).toNat bytes.length :=
      Nat.le_min.mpr ⟨wellFormed.total, wellFormed.header⟩
    refine ⟨wellFormed.readable, wordAt bytes 2, _, _, readU16_eq_ok (by omega),
      Ipv4.options_eq_ok wellFormed, Ipv4.payload_eq_ok wellFormed, ?_⟩
    rw [← take_append_range bytes wellFormed.words, ← take_append_range bytes total]
  · intro bytes accepted
    have wellFormed : Tcp.WellFormed bytes :=
      Tcp.validate_eq_ok_iff.mp (accepts_new_iff.mp accepted)
    refine ⟨(Tcp.readable_iff wellFormed.fixed).mpr wellFormed, _, _,
      Tcp.optionsRaw_eq_ok wellFormed, Tcp.payload_eq_ok wellFormed, ?_⟩
    rw [← take_append_range bytes wellFormed.words, List.take_append_drop]
  · intro bytes accepted
    have wellFormed : Udp.WellFormed bytes :=
      Udp.validate_eq_ok_iff.mp (accepts_new_iff.mp accepted)
    have fixed := wellFormed.fixed
    refine ⟨(Udp.readable_iff fixed).mpr wellFormed.header, wordAt bytes 4, _,
      Udp.length_eq_ok fixed, Udp.payload_eq_ok fixed wellFormed.header, ?_⟩
    -- The validator checked that the datagram ends inside the slice.
    rw [Nat.min_eq_left wellFormed.fits, ← take_append_range bytes wellFormed.header]
  · intro bytes accepted
    have wellFormed : Ipv6.WellFormed bytes :=
      Ipv6.validate_eq_ok_iff.mp (accepts_new_iff.mp accepted)
    have fixed := wellFormed.fixed
    refine ⟨wellFormed.readable, wordAt bytes 4, _, readU16_eq_ok (by omega),
      Ipv6.payload_eq_ok fixed, (take_append_range bytes ?_).symm⟩
    exact Nat.le_min.mpr ⟨Nat.le_add_right _ _, fixed⟩

/-- A datagram with one byte of payload and one after it. -/
theorem acceptedViews_readable_datagram :
    let bytes : Bytes := [0, 0, 0, 0, 0, 9, 0, 0, 7, 8]
    Readable Udp bytes ∧ ∃ length payload, UdpPacket.length bytes = .ok length ∧
      UdpPacket.payload bytes = .ok payload ∧ bytes.take 8 ++ payload = bytes.take length.toNat :=
  acceptedViews_readable.2.2.1 _ (by decide)

end Packet

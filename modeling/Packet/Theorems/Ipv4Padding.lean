/-
# Padding after an IPv4 packet

A packet that is all there ends at its total length. Everything that is read from it
is read from the bytes up to there: two slices that agree on them, be they padded or
cut, get the same verdicts and give the same options, payload and header, and so
does whatever is made of the payload.
-/

import Packet.Model.Ipv4
import Packet.Model.Tcp
import Packet.Model.Udp

namespace Packet

open Rust

/-- A constructor of a transport header, with or without verification. -/
inductive TransportConstructor
  | new
  | newVerifiedIpv4 (src dst : Ipv4Addr)
  | newVerifiedIpv6 (src dst : Ipv6Addr)

/-- The call of a constructor for TCP. -/
def TransportConstructor.tcp : TransportConstructor → Bytes → Exec (Result (PacketView Tcp))
  | .new, bytes => PacketView.new Tcp bytes
  | .newVerifiedIpv4 src dst, bytes => Tcp.newVerifiedIpv4 bytes src dst
  | .newVerifiedIpv6 src dst, bytes => Tcp.newVerifiedIpv6 bytes src dst

/-- The call of a constructor for UDP. -/
def TransportConstructor.udp : TransportConstructor → Bytes → Exec (Result (PacketView Udp))
  | .new, bytes => PacketView.new Udp bytes
  | .newVerifiedIpv4 src dst, bytes => Udp.newVerifiedIpv4 bytes src dst
  | .newVerifiedIpv6 src dst, bytes => Udp.newVerifiedIpv6 bytes src dst

namespace Ipv4

/-- The header bytes of the view of a slice. -/
def headerOf (bytes : Bytes) : Exec (Result Bytes) := do
  match ← PacketView.new Ipv4 bytes with
  | .error error => return .error error
  | .ok view => return .ok (← view.headerBytes)

/-- Two slices that cannot be told apart by reading them as IPv4 packets. -/
structure ReadAlike (bytes bytes' : Bytes) : Prop where
  created : verdict (PacketView.new Ipv4 bytes') = verdict (PacketView.new Ipv4 bytes)
  verified : verdict (newVerified bytes') = verdict (newVerified bytes)
  header : headerOf bytes' = headerOf bytes
  options : Ipv4Packet.options bytes' = Ipv4Packet.options bytes
  payload : Ipv4Packet.payload bytes' = Ipv4Packet.payload bytes
  tcp : ∀ constructor : TransportConstructor,
    (do constructor.tcp (← Ipv4Packet.payload bytes')) =
      (do constructor.tcp (← Ipv4Packet.payload bytes))
  udp : ∀ constructor : TransportConstructor,
    (do constructor.udp (← Ipv4Packet.payload bytes')) =
      (do constructor.udp (← Ipv4Packet.payload bytes))

section Prefix

variable {bytes bytes' : Bytes}

theorem headerOf_eq (wellFormed : WellFormed bytes) :
    headerOf bytes = .ok (.ok (bytes.take (headerLength bytes))) := by
  have valid : PacketSpec.validate Ipv4 bytes = .ok (.ok ()) := validate_eq_ok_iff.mpr wellFormed
  rw [headerOf, PacketView.new_of_valid valid, ok_bind]
  dsimp only
  rw [headerBytes_eq_ok wellFormed]
  rfl

theorem verdict_new_eq (wellFormed : WellFormed bytes) :
    verdict (PacketView.new Ipv4 bytes) = .ok (.ok ()) := by
  have valid : PacketSpec.validate Ipv4 bytes = .ok (.ok ()) := validate_eq_ok_iff.mpr wellFormed
  rw [PacketView.new_of_valid valid]
  rfl

theorem verdict_newVerified_eq (wellFormed : WellFormed bytes) :
    verdict (newVerified bytes) =
      if wordAt bytes 10 = Checksum.checksumOf (headerTotal bytes) ∨
        wordAt bytes 10 = 0xffff ∧ Checksum.checksumOf (headerTotal bytes) = 0
      then .ok (.ok ())
      else .ok (.error (.invalidChecksum (Checksum.checksumOf (headerTotal bytes))
        (wordAt bytes 10))) := by
  rw [newVerified_eq wellFormed]
  split <;> rfl

variable (wellFormed : WellFormed bytes) (complete : (wordAt bytes 2).toNat ≤ bytes.length)
  (same : bytes'.take (wordAt bytes 2).toNat = bytes.take (wordAt bytes 2).toNat)

include wellFormed same

/-- The bytes of the header are among those that agree. -/
theorem byteAt_of_same {i : ℕ} (inside : i < headerLength bytes) :
    byteAt bytes' i = byteAt bytes i := by
  have within : i < (wordAt bytes 2).toNat := Nat.lt_of_lt_of_le inside wellFormed.total
  rw [← byteAt_take within, same, byteAt_take within]

theorem wordAt_of_same {i : ℕ} (inside : i + 1 < headerLength bytes) :
    wordAt bytes' i = wordAt bytes i := by
  rw [wordAt, byteAt_of_same wellFormed same (by omega), byteAt_of_same wellFormed same inside,
    wordAt]

theorem headerLength_of_same : headerLength bytes' = headerLength bytes := by
  have words := wellFormed.words
  rw [headerLength, byteAt_of_same wellFormed same (by omega), headerLength]

theorem header_of_same :
    bytes'.take (headerLength bytes') = bytes.take (headerLength bytes) := by
  have total := wellFormed.total
  have cut := congrArg (List.take (headerLength bytes)) same
  rw [List.take_take, List.take_take, Nat.min_eq_left total] at cut
  rw [headerLength_of_same wellFormed same, cut]

theorem headerTotal_of_same : headerTotal bytes' = headerTotal bytes := by
  rw [headerTotal, header_of_same wellFormed same, headerTotal]

include complete

omit wellFormed in

/-- A slice that has the bytes of the packet is as long as it, at least. -/
theorem complete_of_same : (wordAt bytes 2).toNat ≤ bytes'.length := by
  have lengths := congrArg List.length same
  rw [List.length_take, List.length_take] at lengths
  omega

theorem wellFormed_of_same : WellFormed bytes' := by
  have words := wellFormed.words
  have total := wellFormed.total
  have long := complete_of_same complete same
  have length := headerLength_of_same wellFormed same
  refine ⟨by omega, ?_, length ▸ words, by omega, ?_⟩
  · rw [byteAt_of_same wellFormed same (by omega)]
    exact wellFormed.version
  · rwa [length, wordAt_of_same wellFormed same (by omega)]

/-- The payload ends with the packet in both slices. -/
theorem payload_of_same : Ipv4Packet.payload bytes' = Ipv4Packet.payload bytes := by
  have words := wellFormed.words
  have long := complete_of_same complete same
  -- The minimum with the length of the slice is the total length in both.
  rw [payload_eq_ok (wellFormed_of_same wellFormed complete same), payload_eq_ok wellFormed,
    wordAt_of_same wellFormed same (by omega), Nat.min_eq_left long, Nat.min_eq_left complete,
    same, headerLength_of_same wellFormed same]

/-- Slices that agree up to the total length are read alike. -/
theorem readAlike_of_same : ReadAlike bytes bytes' := by
  have words := wellFormed.words
  have wellFormed' := wellFormed_of_same wellFormed complete same
  have payload := payload_of_same wellFormed complete same
  exact {
    created := by rw [verdict_new_eq wellFormed, verdict_new_eq wellFormed']
    verified := by
      rw [verdict_newVerified_eq wellFormed, verdict_newVerified_eq wellFormed',
        headerTotal_of_same wellFormed same, wordAt_of_same wellFormed same (by omega)]
    header := by
      rw [headerOf_eq wellFormed, headerOf_eq wellFormed', header_of_same wellFormed same]
    options := by
      rw [options_eq_ok wellFormed, options_eq_ok wellFormed', header_of_same wellFormed same]
    payload
    -- A transport constructor is given the payload and nothing else.
    tcp := fun constructor => by rw [payload]
    udp := fun constructor => by rw [payload] }

end Prefix

/-- A packet that is all there is read alike with bytes after it and cut to its total
length. -/
theorem padding_unread {packet : Bytes} {total : UInt16}
    (accepted : Accepts (PacketView.new Ipv4 packet))
    (field : Ipv4Packet.totalLen packet = .ok total) (complete : total.toNat ≤ packet.length)
    (trailing : Bytes) :
    ReadAlike packet (packet ++ trailing) ∧ ReadAlike packet (packet.take total.toNat) := by
  have wellFormed : WellFormed packet := validate_eq_ok_iff.mp (accepts_new_iff.mp accepted)
  obtain rfl : wordAt packet 2 = total := wordAt_of_readU16 field
  constructor
  · exact readAlike_of_same wellFormed complete (List.take_append_of_le_length complete)
  · refine readAlike_of_same wellFormed complete ?_
    rw [List.take_take, Nat.min_self]

/-- A 20-byte packet in a frame padded to 24 bytes, with one more byte after it. -/
theorem padding_unread_frame :
    let packet : Bytes := [0x45, 0, 0, 20, 0, 1, 0, 0, 64, 6, 0x66, 0xe1, 10, 0, 0, 1, 10, 0, 0,
      2, 0, 0, 0, 0]
    ReadAlike packet (packet ++ [7]) ∧ ReadAlike packet (packet.take (20 : UInt16).toNat) :=
  padding_unread (by decide) (by decide) (by decide) [7]

end Ipv4

end Packet

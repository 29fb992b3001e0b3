/-
# Messages behind extension headers

An IPv6 packet is built from values: a fixed header, a chain of Hop-by-Hop Options,
Routing, Destination Options, Mobility and first Fragment headers, and a transport segment
whose checksum is stored over the addresses of the header. The packet's payload starts
with the chain, so a reader drains the chain and drops as many bytes as its items say;
what is left verifies and gives the values back.
-/

import Packet.Theorems.BuiltPackets
import Packet.Theorems.ChainSurgery

namespace Packet

open Rust NextHeaders
open NextHeaderType (ofByte)

/-- The lengths of the items are those of the encoded headers. -/
theorem encodeChain_length (headers : List ChainHeader) (protocol : UInt8) :
    (encodeChain headers protocol).length =
      ((chainItems headers protocol).map NextHeader.lenBytes).sum := by
  induction headers with
  | nil => rfl
  | cons header headers ih =>
    obtain ⟨_, _, length, _⟩ := carries_of_spans (header.spans (firstCode headers protocol))
    rw [encodeChain, chainItems, List.length_append, List.map_cons, List.sum_cons, length, ih]

/-- A payload in a transport segment behind a chain in an IPv6 packet, as values that fit:
what the fields of both headers hold, and what their lengths count. -/
structure ChainedMessage {P : Type} (format : TransportFormat P) where
  outer : Ipv6.HeaderValues
  headers : List ChainHeader
  protocol : UInt8
  inner : format.Values
  payload : Bytes
  fits : Ipv6.Fits outer
  next : outer.nextHeaderRaw = firstCode headers protocol
  upper : (ofByte protocol).isExtension = false
  segment : format.Fits inner payload
  total : outer.payloadLen.toNat =
    (encodeChain headers protocol).length + (format.encode inner ++ payload).length

/-- The packet of a message: its segment on the wire, and what comes after the packet. -/
def ChainedMessage.packet {P : Type} {format : TransportFormat P}
    (message : ChainedMessage format) (segment trailing : Bytes) : Bytes :=
  Ipv6.packetOf (Ipv6.encodeHeader message.outer) message.headers message.protocol
    (segment ++ trailing)

namespace Ipv6

variable {values : HeaderValues} {headers : List ChainHeader} {protocol : UInt8}

theorem announces_encodeHeader (fits : Fits values)
    (next : values.nextHeaderRaw = firstCode headers protocol) :
    Announces (encodeHeader values) headers protocol where
  length := by
    have size := encodeHeader_length [] values
    rwa [List.append_nil] at size
  version := by
    have version := version_encodeHeader [] fits
    rw [List.append_nil] at version
    exact version.trans fits.version
  first := by
    rw [← next]
    rfl

/-- The payload of a packet is its chain and what the payload length counts behind it. -/
theorem payload_packetOf {segment trailing : Bytes}
    (total : values.payloadLen.toNat = (encodeChain headers protocol).length + segment.length) :
    Ipv6Packet.payload (packetOf (encodeHeader values) headers protocol (segment ++ trailing)) =
      .ok (encodeChain headers protocol ++ segment) := by
  have size := encodeHeader_length [] values
  rw [List.append_nil, List.length_nil, Nat.add_zero] at size
  have field : wordAt (encodeHeader values ++
      (encodeChain headers protocol ++ (segment ++ trailing))) 4 = values.payloadLen := by
    rw [encodeHeader_append]
    exact u16FromBeBytes_toBeBytes values.payloadLen
  have end_ : (encodeHeader values ++ (encodeChain headers protocol ++ segment)).length =
      40 + values.payloadLen.toNat := by
    rw [List.length_append, List.length_append, size, total]
  have shape : encodeHeader values ++ (encodeChain headers protocol ++ (segment ++ trailing)) =
      encodeHeader values ++ (encodeChain headers protocol ++ segment) ++ trailing := by
    simp only [List.append_assoc]
  have within : 40 + values.payloadLen.toNat ≤
      (encodeHeader values ++ (encodeChain headers protocol ++ (segment ++ trailing))).length := by
    rw [shape, List.length_append, end_]
    exact Nat.le_add_right _ _
  have fixed := encodeHeader_length (encodeChain headers protocol ++ (segment ++ trailing)) values
  rw [packetOf, payload_eq_ok (by omega), field, Nat.min_eq_left within, shape,
    List.take_left' end_, List.drop_left' size]

end Ipv6

section Messages

variable {P S : Type} [PacketSpec P] {format : TransportFormat P}

/-- What a reader finds in a packet that was built. -/
structure ReadsThrough (message : ChainedMessage format)
    (transport : Bytes → Ipv6Addr → Ipv6Addr → Exec (Result (PacketView P)))
    (packet : Bytes) : Prop where
  checked : Accepts (Ipv6.newChecked packet)
  outer : Ipv6.headerValues packet = .ok message.outer
  items : Ipv6.headerItems packet =
    .ok ((chainItems message.headers message.protocol).map .ok)
  protocol : Ipv6Packet.upperLayerProtocol packet = .ok (some message.protocol)
  segment : ∃ payload segment checksum, Ipv6Packet.payload packet = .ok payload ∧
    segment = payload.drop
      ((chainItems message.headers message.protocol).map NextHeader.lenBytes).sum ∧
    Accepts (transport segment message.outer.src message.outer.dst) ∧
    format.getters segment = .ok (format.withChecksum message.inner checksum) ∧
    format.payload segment = .ok message.payload
  layered : message.headers = [] →
    Accepts (verifyOver (PacketView.new Ipv6) Ipv6.enclosed transport packet)

/-- Every message, with anything after it, is built and read through its chain. -/
def ReadThrough (format : TransportFormat P)
    (applySegment : S → PacketViewMut P → Exec (PacketViewMut P))
    (computeAndSet : Ipv6Addr → Ipv6Addr → S)
    (transport : Bytes → Ipv6Addr → Ipv6Addr → Exec (Result (PacketView P))) : Prop :=
  ∀ (message : ChainedMessage format) (trailing : Bytes), ∃ out : PacketViewMut P,
    applySegment (computeAndSet message.outer.src message.outer.dst)
      ⟨format.encode message.inner ++ message.payload⟩ = .ok out ∧
    ReadsThrough message transport (message.packet out.bytes trailing)

/-- Storing the checksum of a built segment changes the checksum value. -/
theorem stored_encoded {computeAndSet : PacketViewMut P → Exec (PacketViewMut P)}
    {newVerified : Bytes → Exec (Result (PacketView P))} (laws : StoresChecksum format)
    {inner : format.Values} {payload : Bytes} {out : PacketViewMut P}
    (stored : Stored computeAndSet newVerified format.checksumAt
      ⟨format.encode inner ++ payload⟩ out) :
    ∃ checksum, out.bytes = format.encode (format.withChecksum inner checksum) ++ payload := by
  have written := eq_splice_of_outside stored.length (laws.room inner payload) stored.outside
  rw [laws.stores] at written
  exact ⟨_, written⟩

theorem readThrough_of_stores {applySegment : S → PacketViewMut P → Exec (PacketViewMut P)}
    {computeAndSet : Ipv6Addr → Ipv6Addr → S}
    {transport : Bytes → Ipv6Addr → Ipv6Addr → Exec (Result (PacketView P))}
    (laws : StoresChecksum format)
    (stores : ∀ src dst, StoresVerified applySegment (applySegment (computeAndSet src dst))
      (fun bytes => transport bytes src dst) format.checksumAt) :
    ReadThrough format applySegment computeAndSet transport := by
  intro message trailing
  have bound := message.outer.payloadLen.toNat_lt
  have total := message.total
  have valid : PacketSpec.validate P (format.encode message.inner ++ message.payload) =
      .ok (.ok ()) := accepts_new_iff.mp (laws.decodes _ _ message.segment).1
  obtain ⟨out, stored⟩ := stores message.outer.src message.outer.dst _ _ _ [] (by omega)
    (PacketViewMut.new_eq_ok_iff.mpr ⟨valid, rfl⟩) rfl valid
  refine ⟨out, stored.returns, ?_⟩
  obtain ⟨checksum, written⟩ := stored_encoded laws stored
  have segment := laws.keeps _ checksum _ message.segment
  have length : out.bytes.length = (format.encode message.inner ++ message.payload).length :=
    stored.length
  have announces := Ipv6.announces_encodeHeader message.fits message.next
  have wellFormed : Ipv6.WellFormed (message.packet out.bytes trailing) :=
    Ipv6.wellFormed_packetOf announces
  have walk : Reads readHeader (Ipv6.start (message.packet out.bytes trailing)) _ _ none :=
    Ipv6.reads_packetOf announces message.upper
  have payload : Ipv6Packet.payload (message.packet out.bytes trailing) =
      .ok (encodeChain message.headers message.protocol ++ out.bytes) :=
    Ipv6.payload_packetOf (by rw [length]; exact total)
  have values : Ipv6.valuesAt (message.packet out.bytes trailing) = message.outer :=
    Ipv6.valuesAt_encodeHeader _ message.fits
  refine ⟨?_, ?_, ?_, ?_, ⟨_, _, checksum, payload, rfl, ?_, ?_, ?_⟩, ?_⟩
  · rw [Ipv6.newChecked_eq wellFormed walk]
    exact accepts_ok_ok _
  · rw [Ipv6.headerValues_eq_ok wellFormed, values]
  · rw [Ipv6.headerItems_eq wellFormed.fixed walk]
    exact congrArg Except.ok (List.append_nil _)
  · exact Ipv6.upperLayerProtocol_eq wellFormed.fixed walk
  · rw [List.drop_left' (encodeChain_length _ _)]
    exact stored.accepted
  · rw [List.drop_left' (encodeChain_length _ _), written]
    exact (laws.decodes _ _ segment).2
  · rw [List.drop_left' (encodeChain_length _ _), written]
    exact laws.payload _ _ segment
  · -- Without a chain the payload is the segment itself.
    intro bare
    refine (Ipv6.networkLayer.accepts_iff _).mpr ⟨accepts_new_iff.mpr
      (Ipv6.validate_eq_ok_iff.mpr wellFormed), ?_⟩
    have whole : Ipv6.payloadOf (message.packet out.bytes trailing) = out.bytes := by
      rw [bare] at payload
      exact Except.ok.inj ((Ipv6.payload_eq_ok wellFormed.fixed).symm.trans payload)
    have src : addressAt 16 (message.packet out.bytes trailing) 8 = message.outer.src :=
      congrArg Ipv6.HeaderValues.src values
    have dst : addressAt 16 (message.packet out.bytes trailing) 24 = message.outer.dst :=
      congrArg Ipv6.HeaderValues.dst values
    rw [Ipv6.inside, whole, src, dst]
    exact stored.accepted

end Messages

/-- Every TCP and every UDP message behind any chain of Hop-by-Hop Options, Routing,
Destination Options, Mobility and first Fragment headers in an IPv6 packet, its checksum
stored, is read back through the chain. -/
theorem chainedMessages_readThrough :
    ReadThrough Tcp.transportFormat Tcp.Setter.apply Tcp.Setter.computeAndSetChecksumIpv6
      Tcp.newVerifiedIpv6 ∧
    ReadThrough Udp.transportFormat Udp.Setter.apply Udp.Setter.computeAndSetChecksumIpv6
      Udp.newVerifiedIpv6 :=
  ⟨readThrough_of_stores Tcp.storesChecksum Tcp.storesVerifiedIpv6,
    readThrough_of_stores Udp.storesChecksum Udp.storesVerifiedIpv6⟩

/-- A datagram behind a Hop-by-Hop Options header and a Routing header. -/
def chainedDatagram : ChainedMessage Udp.transportFormat where
  outer := {
    version := 6, trafficClass := 0, flowLabel := 0, payloadLen := 26, nextHeaderRaw := 0,
    hopLimit := 64, src := Vector.replicate 16 1, dst := Vector.replicate 16 2 }
  headers := [.units .hopByHopOptions 0 [5, 2, 0, 0, 1, 0] rfl,
    .units .routingHeader 0 [4, 0, 0, 0, 0, 0] rfl]
  protocol := 17
  inner := ({ srcPort := 53, dstPort := 1234, length := 10, checksum := 0 } : Udp.HeaderValues)
  payload := [7, 7]
  fits := by constructor <;> decide
  next := rfl
  upper := rfl
  segment := rfl
  total := rfl

/-- The datagram in a frame with two bytes of padding. -/
theorem chainedMessages_readThrough_datagram : ∃ out : PacketViewMut Udp,
    Udp.Setter.apply (.computeAndSetChecksumIpv6 (.replicate 16 1) (.replicate 16 2))
      ⟨Udp.encodeHeader chainedDatagram.inner ++ [7, 7]⟩ = .ok out ∧
    ReadsThrough chainedDatagram Udp.newVerifiedIpv6 (chainedDatagram.packet out.bytes [0, 0]) :=
  chainedMessages_readThrough.2 chainedDatagram [0, 0]

end Packet

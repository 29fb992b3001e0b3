/-
# Packets built layer by layer

A packet is built from values: a header in front of a header in front of a payload,
with both checksums then stored through the mutable views. Whatever the values are,
if they fit their fields the packet verifies at both layers, and reading it layer by
layer gives the values back, the checksums apart.
-/

import Packet.Theorems.LayeredEdits
import Packet.Theorems.TcpFormat
import Packet.Theorems.TypedOptions

namespace Packet

open Rust

/-! ## Words written into a buffer -/

section Splice

variable {bytes out front back : Bytes} {offset : ℕ}

theorem u16ToBeBytes_wordAt (bytes : Bytes) (offset : ℕ) :
    u16ToBeBytes (wordAt bytes offset) = [byteAt bytes offset, byteAt bytes (offset + 1)] :=
  u16ToBeBytes_fromBeBytes _ _

/-- What agrees with a buffer outside two bytes is that buffer with a word written. -/
theorem eq_splice_of_outside (length : out.length = bytes.length)
    (inside : offset + 2 ≤ bytes.length)
    (same : ∀ i, i < offset ∨ offset + 2 ≤ i → out[i]? = bytes[i]?) :
    out = splice bytes offset (u16ToBeBytes (wordAt out offset)) := by
  apply List.ext_getElem?
  intro i
  rw [splice_getElem? inside, u16ToBeBytes_length, u16ToBeBytes_wordAt]
  split
  · rename_i within
    -- One of the two bytes of the word.
    have present (j : ℕ) (short : j < out.length) : out[j]? = some (byteAt out j) := by
      rw [byteAt, List.getD_eq_getElem?_getD, List.getElem?_eq_getElem short, Option.getD_some]
    obtain rfl | rfl : i = offset ∨ i = offset + 1 := by omega
    · rw [Nat.sub_self, present i (by omega)]
      rfl
    · rw [Nat.add_sub_cancel_left, present _ (by omega)]
      rfl
  · exact same i (by omega)

/-- The same for two words, the second after the first. -/
theorem eq_splice_splice_of_outside (position : ℕ) (length : out.length = bytes.length)
    (order : offset + 2 ≤ position) (inside : position + 2 ≤ bytes.length)
    (same : ∀ i, i < offset ∨ offset + 2 ≤ i → i < position ∨ position + 2 ≤ i →
      out[i]? = bytes[i]?) :
    out = splice (splice bytes offset (u16ToBeBytes (wordAt out offset))) position
      (u16ToBeBytes (wordAt out position)) := by
  have size : (splice bytes offset (u16ToBeBytes (wordAt out offset))).length = bytes.length :=
    splice_length (by rw [u16ToBeBytes_length]; omega)
  -- Up to the second word it is the buffer with the first word written.
  have front : out.take position =
      (splice bytes offset (u16ToBeBytes (wordAt out offset))).take position := by
    rw [splice_take position order (by omega), ← wordAt_take (show offset + 1 < position by omega)]
    refine eq_splice_of_outside ?_ ?_ fun i outside => ?_
    · rw [List.length_take, List.length_take, length]
    · rw [List.length_take]
      omega
    · rw [List.getElem?_take, List.getElem?_take]
      split
      · exact same i outside (by omega)
      · rfl
  refine eq_splice_of_outside (length.trans size.symm) (by omega) fun i outside => ?_
  rcases outside with below | above
  · rw [← List.getElem?_take_of_lt below, front, List.getElem?_take_of_lt below]
  · rw [splice_getElem?_of_outside (by omega) (by rw [u16ToBeBytes_length]; omega)]
    exact same i (by omega) (.inr above)

theorem splice_append_right (values : Bytes) :
    splice (front ++ back) (front.length + offset) values = front ++ splice back offset values := by
  rw [splice, List.take_length_add_append, Nat.add_assoc, List.drop_length_add_append, splice,
    List.append_assoc, List.append_assoc, List.append_assoc]

end Splice

namespace Ipv4

variable {outer : HeaderValues} {segment trailing : Bytes}

/-- A checksum written into an encoded header. -/
theorem splice_encodeHeader (values : HeaderValues) (checksum : UInt16) :
    splice (encodeHeader values) 10 (u16ToBeBytes checksum) =
      encodeHeader { values with checksum } := by
  have whole := encodeHeader_append [] values
  have whole' := encodeHeader_append [] { values with checksum }
  have inside : 10 + (u16ToBeBytes checksum).length ≤ (front values).length := Nat.le_refl 12
  rw [List.append_nil, List.append_nil] at whole whole'
  rw [whole, whole', splice_append_left inside]
  rfl

theorem Fits.with_checksum (fits : Fits outer) (checksum : UInt16) :
    Fits { outer with checksum } :=
  ⟨fits.version, fits.words, fits.ihl, fits.dscp, fits.ecn, fits.flags, fits.fragmentOffset,
    fits.total⟩

theorem payloadOf_encodeHeader (fits : Fits outer)
    (total : outer.totalLen.toNat = 20 + outer.options.length + segment.length) :
    payloadOf (encodeHeader outer ++ (segment ++ trailing)) = segment := by
  have size := encodeHeader_length [] outer
  rw [List.append_nil, List.length_nil, Nat.add_zero] at size
  have end_ : (encodeHeader outer ++ segment).length = outer.totalLen.toNat := by
    rw [List.length_append, size, total]
  have within : outer.totalLen.toNat ≤ (encodeHeader outer ++ segment ++ trailing).length := by
    rw [List.length_append, end_]
    exact Nat.le_add_right _ _
  rw [payloadOf, headerLength_encodeHeader _ fits, wordAt_two_encodeHeader, ← List.append_assoc,
    Nat.min_eq_left within, List.take_left' end_, List.drop_left' size]

section Build

variable {P S : Type} [PacketSpec P]
  {applySegment : S → PacketViewMut P → Exec (PacketViewMut P)}
  {computeAndSet : Ipv4Addr → Ipv4Addr → S}
  {transport : Bytes → Ipv4Addr → Ipv4Addr → Exec (Result (PacketView P))} {offset : ℕ}

/-- Storing both checksums in a packet that was built changes the two checksum values. -/
theorem seal_encoded (trailing : Bytes)
    (seals : Seals applySegment computeAndSet transport offset) (fits : Fits outer)
    (total : outer.totalLen.toNat = 20 + outer.options.length + segment.length)
    (valid : PacketSpec.validate P segment = .ok (.ok ())) (room : offset + 2 ≤ segment.length) :
    ∃ (out : PacketViewMut Ipv4) (checksum checksum' : UInt16),
      runOps (editPacket applySegment)
        [.inr (computeAndSet outer.src outer.dst), .inl .computeAndSetChecksum]
        ⟨encodeHeader outer ++ (segment ++ trailing)⟩ = .ok out ∧
      out.bytes = encodeHeader { outer with checksum } ++
        (splice segment offset (u16ToBeBytes checksum') ++ trailing) ∧
      Accepts (verifyOver newVerified enclosed transport out.bytes) := by
  have wellFormed := wellFormed_encodeHeader (segment ++ trailing) fits
  have values := valuesAt_encodeHeader (segment ++ trailing) fits
  have src := congrArg HeaderValues.src values
  have dst := congrArg HeaderValues.dst values
  obtain ⟨out, run, _, sealed⟩ := seals _ [] _ outer.src outer.dst
    (validate_eq_ok_iff.mpr wellFormed) rfl
    (by rw [payloadOf_encodeHeader fits total]; exact valid)
    ((src_eq_ok wellFormed.fixed).trans (congrArg Except.ok src))
    ((dst_eq_ok wellFormed.fixed).trans (congrArg Except.ok dst))
  refine ⟨out, wordAt out.bytes 10, wordAt out.bytes ((encodeHeader outer).length + offset), run,
    ?_, sealed.accepted⟩
  have size := encodeHeader_length [] outer
  rw [List.append_nil, List.length_nil, Nat.add_zero] at size
  have size' : (encodeHeader { outer with checksum := wordAt out.bytes 10 }).length =
      (encodeHeader outer).length := by
    rw [← splice_encodeHeader]
    exact splice_length (by rw [size, u16ToBeBytes_length]; omega)
  have length := headerLength_encodeHeader (segment ++ trailing) fits
  have outside := sealed.outside
  rw [length, ← size] at outside
  -- The two words are in the header and in the segment.
  have written := eq_splice_splice_of_outside ((encodeHeader outer).length + offset)
    sealed.length (by rw [size]; omega)
    (by rw [List.length_append, List.length_append]; omega) outside
  rw [splice_append_left (by rw [size, u16ToBeBytes_length]; omega), splice_encodeHeader,
    ← size', splice_append_right, splice_append_left room] at written
  exact written

end Build

end Ipv4

/-! ## Messages -/

/-- The format of a transport protocol: that of its header, which values fit in front of a
payload, how the payload is read, and where the checksum is stored. -/
structure TransportFormat (P : Type) extends HeaderFormat P where
  Fits : Values → Bytes → Prop
  payload : Bytes → Exec Bytes
  checksumAt : ℕ
  withChecksum : Values → UInt16 → Values

/-- A payload in a transport segment in an IPv4 packet, as values that fit: what the fields
of both headers hold, and what their lengths count. -/
structure Message {P : Type} (format : TransportFormat P) where
  outer : Ipv4.HeaderValues
  inner : format.Values
  payload : Bytes
  fits : Ipv4.Fits outer
  segment : format.Fits inner payload
  total : outer.totalLen.toNat =
    20 + outer.options.length + (format.encode inner ++ payload).length

section Messages

variable {P S : Type} [PacketSpec P] {format : TransportFormat P}

/-- A segment of values that fit reads back, and writing a checksum into it changes that
value and nothing else. -/
structure StoresChecksum (format : TransportFormat P) : Prop where
  room : ∀ values rest, format.checksumAt + 2 ≤ (format.encode values ++ rest).length
  stores : ∀ values checksum rest,
    splice (format.encode values ++ rest) format.checksumAt (u16ToBeBytes checksum) =
      format.encode (format.withChecksum values checksum) ++ rest
  keeps : ∀ values checksum rest, format.Fits values rest →
    format.Fits (format.withChecksum values checksum) rest
  decodes : ∀ values rest, format.Fits values rest → Decodes format.toHeaderFormat values rest
  payload : ∀ values rest, format.Fits values rest →
    format.payload (format.encode values ++ rest) = .ok rest

/-- A message that was built and sealed verifies at both layers and reads back. -/
structure ReadsBack (message : Message format)
    (verify : Bytes → Exec (Result (PacketView Ipv4 × PacketView P))) (out : Bytes) : Prop where
  accepted : Accepts (verify out)
  values : ∃ checksum checksum' segment,
    Ipv4.headerValues out = .ok { message.outer with checksum } ∧
    Ipv4Packet.payload out = .ok segment ∧
    format.getters segment = .ok (format.withChecksum message.inner checksum') ∧
    format.payload segment = .ok message.payload

/-- Every message, with anything after it, is built and read back. -/
def RoundTrips (format : TransportFormat P)
    (applySegment : S → PacketViewMut P → Exec (PacketViewMut P))
    (computeAndSet : Ipv4Addr → Ipv4Addr → S)
    (transport : Bytes → Ipv4Addr → Ipv4Addr → Exec (Result (PacketView P))) : Prop :=
  ∀ (message : Message format) (trailing : Bytes), ∃ out : PacketViewMut Ipv4,
    runOps (Ipv4.editPacket applySegment)
      [.inr (computeAndSet message.outer.src message.outer.dst), .inl .computeAndSetChecksum]
      ⟨Ipv4.encodeHeader message.outer ++
        (format.encode message.inner ++ message.payload ++ trailing)⟩ = .ok out ∧
    ReadsBack message (verifyOver Ipv4.newVerified Ipv4.enclosed transport) out.bytes

theorem roundTrips_of_seals {applySegment : S → PacketViewMut P → Exec (PacketViewMut P)}
    {computeAndSet : Ipv4Addr → Ipv4Addr → S}
    {transport : Bytes → Ipv4Addr → Ipv4Addr → Exec (Result (PacketView P))}
    (laws : StoresChecksum format)
    (seals : Ipv4.Seals applySegment computeAndSet transport format.checksumAt) :
    RoundTrips format applySegment computeAndSet transport := by
  intro message trailing
  have decodes := laws.decodes message.inner message.payload message.segment
  obtain ⟨out, checksum, checksum', run, written, accepted⟩ :=
    Ipv4.seal_encoded trailing seals message.fits message.total
      (accepts_new_iff.mp decodes.1) (laws.room message.inner message.payload)
  have fits := message.fits.with_checksum checksum
  have size : (format.encode (format.withChecksum message.inner checksum') ++
      message.payload).length = (format.encode message.inner ++ message.payload).length := by
    rw [← laws.stores]
    exact splice_length (laws.room _ _)
  rw [laws.stores] at written
  have wellFormed : Ipv4.WellFormed out.bytes := by
    rw [written]
    exact Ipv4.wellFormed_encodeHeader _ fits
  have segment := laws.keeps _ checksum' _ message.segment
  refine ⟨out, run, accepted, checksum, checksum', _, ?_, ?_, (laws.decodes _ _ segment).2,
    laws.payload _ _ segment⟩
  · rw [Ipv4.headerValues_eq_ok wellFormed, written, Ipv4.valuesAt_encodeHeader _ fits]
  · have payload : Ipv4Packet.payload out.bytes = .ok (Ipv4.payloadOf out.bytes) :=
      Ipv4.payload_eq_ok wellFormed
    rw [payload, written, Ipv4.payloadOf_encodeHeader fits (by rw [size]; exact message.total)]

end Messages

/-! ## The two transports -/

namespace Tcp

/-- The data offset counts the options, so that any payload fits behind them. -/
def transportFormat : TransportFormat Tcp where
  toHeaderFormat := headerFormat
  Fits := fun values _ => Fits values
  payload := TcpPacket.payload
  checksumAt := 16
  withChecksum := fun values checksum => { values with checksum }

theorem Fits.with_checksum {values : HeaderValues} (fits : Fits values) (checksum : UInt16) :
    Fits { values with checksum } := ⟨fits.words, fits.dataOffset, fits.flagsRaw⟩

/-- The payload of an encoded segment is what follows the header. -/
theorem payload_encodeHeader {values : HeaderValues} (fits : Fits values) (rest : Bytes) :
    TcpPacket.payload (encodeHeader values ++ rest) = .ok rest := by
  have size := encodeHeader_length [] values
  rw [List.append_nil, List.length_nil, Nat.add_zero] at size
  rw [payload_eq_ok (wellFormed_encodeHeader rest fits), headerLength_encodeHeader rest fits,
    List.drop_left' size]

theorem storesChecksum : StoresChecksum transportFormat where
  room := by
    intro values rest
    have size : (encodeHeader values ++ rest).length = _ := encodeHeader_length rest values
    exact size ▸ show 18 ≤ 20 + _ + _ by omega
  stores := by
    intro values checksum rest
    have inside : 16 + (u16ToBeBytes checksum).length ≤ (fixedPart values).length :=
      Nat.le_add_right 18 2
    have whole := encodeHeader_append rest values
    have whole' := encodeHeader_append rest { values with checksum }
    have written : splice (encodeHeader values ++ rest) 16 (u16ToBeBytes checksum) =
        encodeHeader { values with checksum } ++ rest := by
      rw [whole, whole', Ipv4.splice_append_left inside]
      rfl
    exact written
  keeps := fun _ checksum _ fits => fits.with_checksum checksum
  decodes := fun values rest fits => (decodes_iff rest values).mpr fits
  payload := fun _ rest fits => payload_encodeHeader fits rest

end Tcp

namespace Udp

/-- The length field counts the header and the whole payload. -/
def transportFormat : TransportFormat Udp where
  toHeaderFormat := headerFormat
  Fits := fun values payload => values.length.toNat = 8 + payload.length
  payload := UdpPacket.payload
  checksumAt := 6
  withChecksum := fun values checksum => { values with checksum }

/-- The payload of an encoded datagram ends where its length field says. -/
theorem payload_encodeHeader {values : HeaderValues} {rest : Bytes} (fits : Fits values rest) :
    UdpPacket.payload (encodeHeader values ++ rest) =
      .ok (rest.take (values.length.toNat - 8)) := by
  have wellFormed := (wellFormed_encodeHeader_iff values rest).mpr fits
  have length : wordAt (encodeHeader values ++ rest) 4 = values.length :=
    u16FromBeBytes_toBeBytes values.length
  have within := wellFormed.fits
  have width : (encodeHeader values).length = 8 := rfl
  rw [length] at within
  rw [payload_eq_ok wellFormed.fixed wellFormed.header, length, Nat.min_eq_left within,
    List.drop_take, List.drop_left' width]

theorem fits_of_counts {values : HeaderValues} {rest : Bytes}
    (counts : values.length.toNat = 8 + rest.length) : Fits values rest :=
  ⟨(Nat.le_add_right 8 _).trans counts.ge, counts.le⟩

theorem storesChecksum : StoresChecksum transportFormat where
  room := by
    intro values rest
    have size : (encodeHeader values ++ rest).length = 8 + rest.length := List.length_append
    exact size ▸ Nat.le_add_right 8 _
  stores := fun _ _ _ => rfl
  keeps := fun _ _ _ counts => counts
  decodes := fun values rest counts => (decodes_iff values rest).mpr (fits_of_counts counts)
  payload := by
    intro values rest counts
    have length : values.length.toNat = 8 + rest.length := counts
    refine (payload_encodeHeader (fits_of_counts length)).trans ?_
    rw [length, Nat.add_sub_cancel_left, List.take_length]

end Udp

/-- Every TCP and every UDP message in an IPv4 packet, its checksums stored, verifies and
reads back; the options of a segment are yielded as they were encoded. -/
theorem messages_roundTrip :
    RoundTrips Tcp.transportFormat Tcp.Setter.apply Tcp.Setter.computeAndSetChecksumIpv4
      Tcp.newVerifiedIpv4 ∧
    RoundTrips Udp.transportFormat Udp.Setter.apply Udp.Setter.computeAndSetChecksumIpv4
      Udp.newVerifiedIpv4 ∧
    ∀ (message : Message Tcp.transportFormat) (options : List WireOption) (rest : Bytes),
      OptionRegion message.inner.optionsRaw options rest →
      (do (← TcpPacket.options (Tcp.encodeHeader message.inner ++ message.payload)).collect) =
        .ok ((options.map WireOption.item ++ eolItems rest).map .ok) := by
  refine ⟨roundTrips_of_seals Tcp.storesChecksum
    (Ipv4.seals_of_storesVerified (fun _ _ _ => Tcp.Setter.apply_length) Tcp.storesVerifiedIpv4),
    roundTrips_of_seals Udp.storesChecksum
    (Ipv4.seals_of_storesVerified (fun _ _ _ => Udp.Setter.apply_length) Udp.storesVerifiedIpv4),
    ?_⟩
  intro message options rest parsed
  have fits : Tcp.Fits message.inner := message.segment
  have wellFormed := Tcp.wellFormed_encodeHeader message.payload fits
  have values := Tcp.valuesAt_encodeHeader message.payload fits
  have raw := Tcp.optionsRaw_eq_ok wellFormed
  have region : ((Tcp.encodeHeader message.inner ++ message.payload).take
      (Tcp.headerLength (Tcp.encodeHeader message.inner ++ message.payload))).drop 20 =
      message.inner.optionsRaw := congrArg Tcp.HeaderValues.optionsRaw values
  rw [region] at raw
  rw [Tcp.options_eq raw, ok_bind, TcpOptions.collect_eq parsed.reads]
  exact congrArg Except.ok (List.append_nil _)

/-- A connection request with a maximum segment size. -/
def request : Message Tcp.transportFormat where
  outer := {
    version := 4, ihlWords := 5, dscp := 0, ecn := 0, totalLen := 44, identification := 1,
    flags := 2, fragmentOffset := 0, ttl := 64, protocol := 6, checksum := 0,
    src := #v[10, 0, 0, 1], dst := #v[10, 0, 0, 2], options := [] }
  inner := ({
    srcPort := 1234, dstPort := 80, seqNumber := 7, ackNumber := 0, dataOffset := 6,
    flagsRaw := 2, windowSize := 512, checksum := 0, urgentPointer := 0,
    optionsRaw := [2, 4, 5, 180] } : Tcp.HeaderValues)
  payload := []
  fits := by constructor <;> decide
  segment := show Tcp.Fits _ by constructor <;> decide
  total := rfl

/-- The request in a frame with two bytes of padding. -/
theorem messages_roundTrip_request : ∃ out : PacketViewMut Ipv4,
    runOps (Ipv4.editPacket Tcp.Setter.apply)
      [.inr (.computeAndSetChecksumIpv4 request.outer.src request.outer.dst),
        .inl .computeAndSetChecksum]
      ⟨Ipv4.encodeHeader request.outer ++
        (Tcp.encodeHeader request.inner ++ [] ++ [0, 0])⟩ = .ok out ∧
    ReadsBack request Ipv4.verifyTcp out.bytes :=
  messages_roundTrip.1 request [0, 0]

end Packet

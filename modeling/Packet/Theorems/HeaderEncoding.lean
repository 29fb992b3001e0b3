/-
# Getters decode the fixed headers without loss

Several fields share bytes: halves of a byte, the flags and the fragment offset in a
word, the version, traffic class and flow label in four bytes. Each getter has its
own shifts and masks. Putting the values back in their places gives the header
again, so no bit of it is lost and none is read for another.
-/

import Packet.Model.Ipv4
import Packet.Model.Ipv6
import Packet.Model.Udp
import Packet.Rust.Bits

namespace Packet

open Rust

/-- The values that the getters of a header read, and their layout on the wire. -/
structure HeaderFormat (P : Type) where
  Values : Type
  getters : Bytes → Exec Values
  encode : Values → Bytes

section Format

variable {P : Type} [PacketSpec P] (format : HeaderFormat P) {bytes bytes' : Bytes}

/-- The header of an accepted slice is the encoding of what the getters read, and any
other accepted slice with the same values has the same header. -/
structure Lossless (format : HeaderFormat P) (bytes : Bytes) : Prop where
  encodes : ∃ view values, PacketView.new P bytes = .ok (.ok view) ∧
    format.getters bytes = .ok values ∧ view.headerBytes = .ok (format.encode values)
  determines : ∀ bytes' view view', PacketView.new P bytes = .ok (.ok view) →
    PacketView.new P bytes' = .ok (.ok view') → format.getters bytes' = format.getters bytes →
    view'.headerBytes = view.headerBytes

variable {format}

/-- A format is lossless when the encoded values are the header, for every accepted
slice. -/
theorem lossless_of_encodes
    (encodes : ∀ view : PacketView P, ∃ values, format.getters view.bytes = .ok values ∧
      view.headerBytes = .ok (format.encode values))
    (accepted : Accepts (PacketView.new P bytes)) : Lossless format bytes := by
  constructor
  · obtain ⟨view, created⟩ := accepted
    obtain ⟨values, read, header⟩ := encodes view
    rw [PacketView.bytes_of_new created] at read
    exact ⟨view, values, created, read, header⟩
  · -- Both headers are the encoding of the one list of values.
    intro bytes' view view' created created' agree
    obtain ⟨values, read, header⟩ := encodes view
    obtain ⟨values', read', header'⟩ := encodes view'
    rw [PacketView.bytes_of_new created] at read
    rw [PacketView.bytes_of_new created', agree, read, Except.ok.injEq] at read'
    rw [header, header', read']

end Format

/-! ## UDP -/

namespace Udp

/-- What the getters read of a UDP header. -/
structure HeaderValues where
  srcPort : UInt16
  dstPort : UInt16
  length : UInt16
  checksum : UInt16

/-- The getters, called in their order. -/
def headerValues (bytes : Bytes) : Exec HeaderValues := do
  return {
    srcPort := ← UdpPacket.srcPort bytes
    dstPort := ← UdpPacket.dstPort bytes
    length := ← UdpPacket.length bytes
    checksum := ← UdpPacket.checksum bytes }

/-- Four words. -/
def encodeHeader (values : HeaderValues) : Bytes :=
  u16ToBeBytes values.srcPort ++ u16ToBeBytes values.dstPort ++ u16ToBeBytes values.length ++
    u16ToBeBytes values.checksum

/-- The format of UDP headers. -/
def headerFormat : HeaderFormat Udp := ⟨HeaderValues, headerValues, encodeHeader⟩

theorem encodes_header (view : PacketView Udp) :
    ∃ values, headerFormat.getters view.bytes = .ok values ∧
      view.headerBytes = .ok (headerFormat.encode values) := by
  obtain ⟨bytes, valid⟩ := view
  have fixed : 8 ≤ bytes.length := (validate_eq_ok_iff.mp valid).fixed
  refine ⟨⟨wordAt bytes 0, wordAt bytes 2, wordAt bytes 4, wordAt bytes 6⟩, ?_, ?_⟩
  · simp (disch := omega) only [headerFormat, headerValues, UdpPacket.srcPort, UdpPacket.dstPort,
      UdpPacket.length, UdpPacket.checksum, readU16_eq_ok, ok_bind, pure_eq_ok]
  · have header : bytes.take 8 = u16ToBeBytes (wordAt bytes 0) ++ u16ToBeBytes (wordAt bytes 2) ++
        u16ToBeBytes (wordAt bytes 4) ++ u16ToBeBytes (wordAt bytes 6) := by
      rw [take_add_word 6 (by omega), take_add_word 4 (by omega), take_add_word 2 (by omega),
        take_add_word 0 (by omega), List.take_zero, List.nil_append]
    exact (rangeTo_eq_ok fixed).trans (congrArg Except.ok header)

end Udp

/-! ## IPv4 -/

namespace Ipv4

/-- What the getters read of an IPv4 header. -/
structure HeaderValues where
  version : UInt8
  ihlWords : UInt8
  dscp : UInt8
  ecn : UInt8
  totalLen : UInt16
  identification : UInt16
  flags : UInt8
  fragmentOffset : UInt16
  ttl : UInt8
  protocol : UInt8
  checksum : UInt16
  src : Vector UInt8 4
  dst : Vector UInt8 4
  options : Bytes

/-- The getters, called in their order. -/
def headerValues (bytes : Bytes) : Exec HeaderValues := do
  return {
    version := ← Ipv4Packet.version bytes
    ihlWords := ← Ipv4Packet.ihlWords bytes
    dscp := ← Ipv4Packet.dscp bytes
    ecn := ← Ipv4Packet.ecn bytes
    totalLen := ← Ipv4Packet.totalLen bytes
    identification := ← Ipv4Packet.identification bytes
    flags := ← Ipv4Packet.flags bytes
    fragmentOffset := ← Ipv4Packet.fragmentOffset bytes
    ttl := ← Ipv4Packet.ttl bytes
    protocol := ← Ipv4Packet.protocol bytes
    checksum := ← Ipv4Packet.checksum bytes
    src := ← Ipv4Packet.src bytes
    dst := ← Ipv4Packet.dst bytes
    options := ← Ipv4Packet.options bytes }

/-- The version and the header length share a byte, so do DSCP and ECN; the flags are
the upper three bits of a word with the fragment offset. -/
def encodeHeader (values : HeaderValues) : Bytes :=
  [(values.version <<< 4) ||| values.ihlWords] ++ [(values.dscp <<< 2) ||| values.ecn] ++
    u16ToBeBytes values.totalLen ++ u16ToBeBytes values.identification ++
    u16ToBeBytes ((values.flags.toUInt16 <<< 13) ||| values.fragmentOffset) ++
    [values.ttl] ++ [values.protocol] ++ u16ToBeBytes values.checksum ++ values.src.toList ++
    values.dst.toList ++ values.options

/-- The format of IPv4 headers. -/
def headerFormat : HeaderFormat Ipv4 := ⟨HeaderValues, headerValues, encodeHeader⟩

/-- The flags are the upper three bits of the word at 6. -/
theorem pack_flags (bytes : Bytes) :
    ((byteAt bytes 6 >>> 5).toUInt16 <<< 13) ||| (wordAt bytes 6 &&& 0x1fff) = wordAt bytes 6 := by
  have bound := (byteAt bytes 6).toNat_lt
  have bound' := (byteAt bytes 7).toNat_lt
  have word : (wordAt bytes 6).toNat = (byteAt bytes 6).toNat * 256 + (byteAt bytes 7).toNat := by
    rw [wordAt, u16FromBeBytes_toNat]
  have flags : (byteAt bytes 6 >>> 5).toUInt16.toNat = (byteAt bytes 6).toNat / 32 := by
    rw [UInt8.toNat_toUInt16]
    exact toNat_shiftRight8 _ (by decide)
  have offset : (wordAt bytes 6 &&& 0x1fff).toNat = (wordAt bytes 6).toNat % 8192 :=
    toNat_and_mask16 _ 13 rfl
  have shift : (13 : UInt16).toNat = 13 := rfl
  -- The lower five bits of the first byte belong to the offset.
  apply UInt16.toNat_inj.mp
  rw [toNat_pack16 (by decide) (by rw [flags, shift]; omega) (by rw [offset, shift]; omega), flags,
    offset, shift]
  omega

/-- The fixed part of a header, field by field. -/
theorem take_twenty {bytes : Bytes} (fixed : 20 ≤ bytes.length) :
    bytes.take 20 =
      [byteAt bytes 0] ++ [byteAt bytes 1] ++ u16ToBeBytes (wordAt bytes 2) ++
        u16ToBeBytes (wordAt bytes 4) ++ u16ToBeBytes (wordAt bytes 6) ++ [byteAt bytes 8] ++
        [byteAt bytes 9] ++ u16ToBeBytes (wordAt bytes 10) ++
        [byteAt bytes 12, byteAt bytes 13, byteAt bytes 14, byteAt bytes 15] ++
        [byteAt bytes 16, byteAt bytes 17, byteAt bytes 18, byteAt bytes 19] := by
  rw [take_add_byte 19 (by omega), take_add_byte 18 (by omega), take_add_byte 17 (by omega),
    take_add_byte 16 (by omega), take_add_byte 15 (by omega), take_add_byte 14 (by omega),
    take_add_byte 13 (by omega), take_add_byte 12 (by omega), take_add_word 10 (by omega),
    take_add_byte 9 (by omega), take_add_byte 8 (by omega), take_add_word 6 (by omega),
    take_add_word 4 (by omega), take_add_word 2 (by omega), take_add_byte 1 (by omega),
    take_add_byte 0 (by omega), List.take_zero]
  simp only [List.append_assoc, List.cons_append, List.nil_append]

theorem encodes_header (view : PacketView Ipv4) :
    ∃ values, headerFormat.getters view.bytes = .ok values ∧
      view.headerBytes = .ok (headerFormat.encode values) := by
  obtain ⟨bytes, valid⟩ := view
  have wellFormed : WellFormed bytes := validate_eq_ok_iff.mp valid
  have fixed := wellFormed.fixed
  let values : HeaderValues := {
    version := byteAt bytes 0 >>> 4
    ihlWords := byteAt bytes 0 &&& 0x0f
    dscp := byteAt bytes 1 >>> 2
    ecn := byteAt bytes 1 &&& 0b11
    totalLen := wordAt bytes 2
    identification := wordAt bytes 4
    flags := byteAt bytes 6 >>> 5
    fragmentOffset := wordAt bytes 6 &&& 0x1fff
    ttl := byteAt bytes 8
    protocol := byteAt bytes 9
    checksum := wordAt bytes 10
    src := #v[byteAt bytes 12, byteAt bytes 13, byteAt bytes 14, byteAt bytes 15]
    dst := #v[byteAt bytes 16, byteAt bytes 17, byteAt bytes 18, byteAt bytes 19]
    options := (bytes.take (headerLength bytes)).drop 20 }
  refine ⟨values, ?_, ?_⟩
  · simp (disch := omega) only [headerFormat, headerValues, Ipv4Packet.version,
      Ipv4Packet.ihlWords, Ipv4Packet.dscp, Ipv4Packet.ecn, Ipv4Packet.totalLen,
      Ipv4Packet.identification, Ipv4Packet.flags, Ipv4Packet.fragmentOffset, Ipv4Packet.ttl,
      Ipv4Packet.protocol, Ipv4Packet.checksum, Ipv4Packet.src, Ipv4Packet.dst, index_byteAt,
      readU16_eq_ok, options_eq_ok wellFormed, ok_bind, pure_eq_ok, values]
  · -- The two fields of a shared byte make up the byte.
    have first : ((byteAt bytes 0 >>> 4) <<< 4) ||| (byteAt bytes 0 &&& 0x0f) = byteAt bytes 0 :=
      pack_split8 _ (by decide) rfl
    have second : ((byteAt bytes 1 >>> 2) <<< 2) ||| (byteAt bytes 1 &&& 0b11) = byteAt bytes 1 :=
      pack_split8 _ (by decide) rfl
    have encoded : encodeHeader values = bytes.take (headerLength bytes) := by
      rw [take_append_range bytes wellFormed.words, take_twenty fixed]
      simp only [encodeHeader, values, first, second, pack_flags]
      rfl
    exact (headerBytes_eq_ok wellFormed).trans (congrArg Except.ok encoded.symm)

end Ipv4

/-! ## IPv6 -/

namespace Ipv6

/-- What the getters read of the fixed header. -/
structure HeaderValues where
  version : UInt8
  trafficClass : UInt8
  flowLabel : UInt32
  payloadLen : UInt16
  nextHeaderRaw : UInt8
  hopLimit : UInt8
  src : Vector UInt8 16
  dst : Vector UInt8 16

/-- The getters, called in their order. -/
def headerValues (bytes : Bytes) : Exec HeaderValues := do
  return {
    version := ← Ipv6Packet.version bytes
    trafficClass := ← Ipv6Packet.trafficClass bytes
    flowLabel := ← Ipv6Packet.flowLabel bytes
    payloadLen := ← Ipv6Packet.payloadLen bytes
    nextHeaderRaw := ← Ipv6Packet.nextHeaderRaw bytes
    hopLimit := ← Ipv6Packet.hopLimit bytes
    src := ← Ipv6Packet.src bytes
    dst := ← Ipv6Packet.dst bytes }

/-- The version has the upper 4 bits of the first 32, the traffic class the next 8 and
the flow label the lower 20. -/
def encodeHeader (values : HeaderValues) : Bytes :=
  u32ToBeBytes ((values.version.toUInt32 <<< 28) |||
      ((values.trafficClass.toUInt32 <<< 20) ||| values.flowLabel)) ++
    u16ToBeBytes values.payloadLen ++ [values.nextHeaderRaw] ++ [values.hopLimit] ++
    values.src.toList ++ values.dst.toList

/-- The format of the fixed header. -/
def headerFormat : HeaderFormat Ipv6 := ⟨HeaderValues, headerValues, encodeHeader⟩

section First

variable (b0 b1 b2 b3 : UInt8)

/-- The traffic class straddles two bytes. -/
theorem trafficClass_toNat :
    (((b0 &&& 0x0f) <<< 4) ||| (b1 >>> 4)).toNat = b0.toNat % 16 * 16 + b1.toNat / 16 := by
  have h1 := b1.toNat_lt
  have shift : (4 : UInt8).toNat = 4 := rfl
  have low : (b0 &&& 0x0f).toNat = b0.toNat % 16 := toNat_and_mask8 b0 4 rfl
  have high : (b1 >>> 4).toNat = b1.toNat / 16 := toNat_shiftRight8 b1 (by decide)
  rw [toNat_pack8 (by decide) (by rw [low, shift]; omega) (by rw [high, shift]; omega), low, high,
    shift]
  rfl

theorem flowLabel_toNat :
    (((b1 &&& 0x0f).toUInt32 <<< 16) ||| (b2.toUInt32 <<< 8) ||| b3.toUInt32).toNat =
      (b1.toNat % 16 * 256 + b2.toNat) * 256 + b3.toNat := by
  have h2 := b2.toNat_lt
  have h3 := b3.toNat_lt
  have shift : (8 : UInt32).toNat = 8 := rfl
  have shift' : (16 : UInt32).toNat = 16 := rfl
  have first : (b1 &&& 0x0f).toUInt32.toNat = b1.toNat % 16 := by
    rw [UInt8.toNat_toUInt32]
    exact toNat_and_mask8 b1 4 rfl
  have rest : ((b2.toUInt32 <<< 8) ||| b3.toUInt32).toNat = b2.toNat * 256 + b3.toNat := by
    rw [toNat_pack32 (by decide) (by rw [UInt8.toNat_toUInt32, shift]; omega)
      (by rw [UInt8.toNat_toUInt32, shift]; omega), UInt8.toNat_toUInt32, UInt8.toNat_toUInt32,
      shift]
    rfl
  -- Each shift clears the bits of the byte below it.
  rw [UInt32.or_assoc, toNat_pack32 (by decide) (by rw [first, shift']; omega)
    (by rw [rest, shift']; omega), first, rest, shift']
  omega

/-- The three fields of the first four bytes make up their 32 bits. -/
theorem pack_first :
    ((b0 >>> 4).toUInt32 <<< 28) ||| (((((b0 &&& 0x0f) <<< 4) ||| (b1 >>> 4)).toUInt32 <<< 20) |||
      (((b1 &&& 0x0f).toUInt32 <<< 16) ||| (b2.toUInt32 <<< 8) ||| b3.toUInt32)) =
      u32FromBeBytes b0 b1 b2 b3 := by
  have h0 := b0.toNat_lt
  have h1 := b1.toNat_lt
  have h2 := b2.toNat_lt
  have h3 := b3.toNat_lt
  have shift : (20 : UInt32).toNat = 20 := rfl
  have shift' : (28 : UInt32).toNat = 28 := rfl
  have version : (b0 >>> 4).toUInt32.toNat = b0.toNat / 16 := by
    rw [UInt8.toNat_toUInt32]
    exact toNat_shiftRight8 b0 (by decide)
  have flow := flowLabel_toNat b1 b2 b3
  have class_ : (((b0 &&& 0x0f) <<< 4) ||| (b1 >>> 4)).toUInt32.toNat =
      b0.toNat % 16 * 16 + b1.toNat / 16 := by
    rw [UInt8.toNat_toUInt32, trafficClass_toNat]
  -- The class above the flow label, and the version above both.
  have rest := toNat_pack32 (show (20 : UInt32).toNat < 32 by decide)
    (by rw [class_, shift]; omega) (by rw [flow, shift]; omega)
  rw [class_, flow, shift] at rest
  apply UInt32.toNat_inj.mp
  rw [toNat_pack32 (by decide) (by rw [version, shift']; omega) (by rw [rest, shift']; omega),
    version, rest, shift', u32FromBeBytes_toNat]
  omega

end First

/-- The fixed header, field by field. -/
theorem take_forty {bytes : Bytes} (fixed : 40 ≤ bytes.length) :
    bytes.take 40 =
      [byteAt bytes 0, byteAt bytes 1, byteAt bytes 2, byteAt bytes 3] ++
        u16ToBeBytes (wordAt bytes 4) ++ [byteAt bytes 6] ++ [byteAt bytes 7] ++
        (bytes.take 24).drop 8 ++ (bytes.take 40).drop 24 := by
  have front : bytes.take 8 = [byteAt bytes 0, byteAt bytes 1, byteAt bytes 2, byteAt bytes 3] ++
      u16ToBeBytes (wordAt bytes 4) ++ [byteAt bytes 6] ++ [byteAt bytes 7] := by
    rw [take_add_byte 7 (by omega), take_add_byte 6 (by omega), take_add_word 4 (by omega),
      take_add_byte 3 (by omega), take_add_byte 2 (by omega), take_add_byte 1 (by omega),
      take_add_byte 0 (by omega), List.take_zero]
    rfl
  have addresses : bytes.take 24 = bytes.take 8 ++ (bytes.take 24).drop 8 :=
    take_append_range bytes (by decide)
  rw [← front, ← addresses]
  exact take_append_range bytes (by decide)

theorem encodes_header (view : PacketView Ipv6) :
    ∃ values, headerFormat.getters view.bytes = .ok values ∧
      view.headerBytes = .ok (headerFormat.encode values) := by
  obtain ⟨bytes, valid⟩ := view
  have fixed : 40 ≤ bytes.length := (validate_eq_ok_iff.mp valid).fixed
  obtain ⟨src, readSrc, srcBytes⟩ :=
    Ipv6Packet.address_eq_ok (show 24 = 8 + 16 from rfl) (show 24 ≤ bytes.length by omega)
  obtain ⟨dst, readDst, dstBytes⟩ := Ipv6Packet.address_eq_ok (show 40 = 24 + 16 from rfl) fixed
  let values : HeaderValues := {
    version := byteAt bytes 0 >>> 4
    trafficClass := ((byteAt bytes 0 &&& 0x0f) <<< 4) ||| (byteAt bytes 1 >>> 4)
    flowLabel := ((byteAt bytes 1 &&& 0x0f).toUInt32 <<< 16) |||
      ((byteAt bytes 2).toUInt32 <<< 8) ||| (byteAt bytes 3).toUInt32
    payloadLen := wordAt bytes 4
    nextHeaderRaw := byteAt bytes 6
    hopLimit := byteAt bytes 7
    src, dst }
  refine ⟨values, ?_, ?_⟩
  · have readSrc : Ipv6Packet.src bytes = .ok src := readSrc
    have readDst : Ipv6Packet.dst bytes = .ok dst := readDst
    simp (disch := omega) only [headerFormat, headerValues, Ipv6Packet.version,
      Ipv6Packet.trafficClass, Ipv6Packet.flowLabel, Ipv6Packet.payloadLen,
      Ipv6Packet.nextHeaderRaw, Ipv6Packet.hopLimit, readSrc, readDst, index_byteAt,
      readU16_eq_ok, ok_bind, pure_eq_ok, values]
  · have encoded : encodeHeader values = bytes.take 40 := by
      rw [take_forty fixed]
      simp only [encodeHeader, values, pack_first, u32ToBeBytes_fromBeBytes, srcBytes, dstBytes]
    exact (rangeTo_eq_ok fixed).trans (congrArg Except.ok encoded.symm)

end Ipv6

/-- The getters of the fixed formats lose nothing: encoding the values read from an
accepted slice gives back its header, and the values determine it. -/
theorem headers_lossless (bytes : Bytes) :
    (Accepts (PacketView.new Ipv4 bytes) → Lossless Ipv4.headerFormat bytes) ∧
    (Accepts (PacketView.new Ipv6 bytes) → Lossless Ipv6.headerFormat bytes) ∧
    (Accepts (PacketView.new Udp bytes) → Lossless Udp.headerFormat bytes) :=
  ⟨lossless_of_encodes Ipv4.encodes_header, lossless_of_encodes Ipv6.encodes_header,
    lossless_of_encodes Udp.encodes_header⟩

/-- A header whose options and shared bytes are not zero. -/
theorem headers_lossless_options :
    Lossless Ipv4.headerFormat [0x46, 0xb9, 0, 24, 0, 1, 0x5f, 0xff, 64, 6, 0, 0, 10, 0, 0, 1, 10,
      0, 0, 2, 1, 1, 1, 0] :=
  (headers_lossless _).1 (by decide)

end Packet

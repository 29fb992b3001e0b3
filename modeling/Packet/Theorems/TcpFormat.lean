/-
# The TCP header format

The nine flags are spread over two bytes, and between the first of them and the data
offset are three reserved bits. No getter reads these and no value holds them, so the
getters see a header up to its reserved bits, and exactly that.
-/

import Packet.Theorems.FormatRoundTrips

namespace Packet

open Rust

namespace Tcp

/-- What the getters read of a TCP header, the options as bytes. -/
structure HeaderValues where
  srcPort : UInt16
  dstPort : UInt16
  seqNumber : UInt32
  ackNumber : UInt32
  dataOffset : UInt8
  flagsRaw : UInt16
  windowSize : UInt16
  checksum : UInt16
  urgentPointer : UInt16
  optionsRaw : Bytes

/-- The getters, called in their order. -/
def headerValues (bytes : Bytes) : Exec HeaderValues := do
  return {
    srcPort := ← TcpPacket.srcPort bytes
    dstPort := ← TcpPacket.dstPort bytes
    seqNumber := ← TcpPacket.seqNumber bytes
    ackNumber := ← TcpPacket.ackNumber bytes
    dataOffset := ← TcpPacket.dataOffset bytes
    flagsRaw := ← TcpPacket.flagsRaw bytes
    windowSize := ← TcpPacket.windowSize bytes
    checksum := ← TcpPacket.checksum bytes
    urgentPointer := ← TcpPacket.urgentPointer bytes
    optionsRaw := ← TcpPacket.optionsRaw bytes }

/-- An encoded header without its options. The reserved bits are zeros. -/
def fixedPart (values : HeaderValues) : Bytes :=
  u16ToBeBytes values.srcPort ++ u16ToBeBytes values.dstPort ++ u32ToBeBytes values.seqNumber ++
    u32ToBeBytes values.ackNumber ++
    [(values.dataOffset <<< 4) ||| ((values.flagsRaw >>> 8).toUInt8 &&& 0x01),
      (values.flagsRaw &&& 0xff).toUInt8] ++
    u16ToBeBytes values.windowSize ++ u16ToBeBytes values.checksum ++
    u16ToBeBytes values.urgentPointer

/-- The fixed part and the options. -/
def encodeHeader (values : HeaderValues) : Bytes := fixedPart values ++ values.optionsRaw

/-- The format of TCP headers. -/
def headerFormat : HeaderFormat Tcp := ⟨HeaderValues, headerValues, encodeHeader⟩

/-- The values in the header of a segment, byte by byte. -/
def valuesAt (bytes : Bytes) : HeaderValues where
  srcPort := wordAt bytes 0
  dstPort := wordAt bytes 2
  seqNumber := u32FromBeBytes (byteAt bytes 4) (byteAt bytes 5) (byteAt bytes 6) (byteAt bytes 7)
  ackNumber := u32FromBeBytes (byteAt bytes 8) (byteAt bytes 9) (byteAt bytes 10) (byteAt bytes 11)
  dataOffset := byteAt bytes 12 >>> 4
  flagsRaw := ((byteAt bytes 12 &&& 0x01).toUInt16 <<< 8) ||| (byteAt bytes 13).toUInt16
  windowSize := wordAt bytes 14
  checksum := wordAt bytes 16
  urgentPointer := wordAt bytes 18
  optionsRaw := (bytes.take (headerLength bytes)).drop 20

theorem headerValues_eq_ok {bytes : Bytes} (wellFormed : WellFormed bytes) :
    headerValues bytes = .ok (valuesAt bytes) := by
  have fixed := wellFormed.fixed
  simp (disch := omega) only [headerValues, TcpPacket.srcPort, TcpPacket.dstPort,
    TcpPacket.seqNumber, TcpPacket.ackNumber, TcpPacket.dataOffset, TcpPacket.flagsRaw,
    TcpPacket.windowSize, TcpPacket.checksum, TcpPacket.urgentPointer,
    optionsRaw_eq_ok wellFormed, readU32, readU16_eq_ok, index_byteAt, ok_bind, pure_eq_ok,
    Nat.reduceAdd, valuesAt]

/-- The data offset counts the options, and there are nine flags. -/
structure Fits (values : HeaderValues) : Prop where
  words : values.dataOffset.toNat * 4 = 20 + values.optionsRaw.length
  dataOffset : values.dataOffset.toNat < 16
  flagsRaw : values.flagsRaw.toNat < 512

/-! ## The bytes of the flags -/

theorem flagsRaw_toNat (high low : UInt8) :
    (((high &&& 0x01).toUInt16 <<< 8) ||| low.toUInt16).toNat =
      high.toNat % 2 * 256 + low.toNat := by
  have bound := low.toNat_lt
  have shift : (8 : UInt16).toNat = 8 := rfl
  have ns : (high &&& 0x01).toUInt16.toNat = high.toNat % 2 := by
    rw [UInt8.toNat_toUInt16]
    exact toNat_and_mask8 high 1 rfl
  rw [toNat_pack16 (by decide) (by rw [ns, shift]; omega)
    (by rw [UInt8.toNat_toUInt16, shift]; exact bound), ns, UInt8.toNat_toUInt16, shift]
  rfl

theorem high_toNat {flags : UInt16} (nine : flags.toNat < 512) :
    ((flags >>> 8).toUInt8 &&& 0x01).toNat = flags.toNat / 256 := by
  have shift : (8 : UInt16).toNat = 8 := rfl
  have quotient : (flags >>> 8).toNat = flags.toNat / 256 := by
    rw [UInt16.toNat_shiftRight, shift, Nat.shiftRight_eq_div_pow]
  rw [toNat_and_mask8 _ 1 rfl, UInt16.toNat_toUInt8, quotient]
  omega

theorem low_toNat (flags : UInt16) : (flags &&& 0xff).toUInt8.toNat = flags.toNat % 256 := by
  rw [UInt16.toNat_toUInt8, toNat_and_mask16 flags 8 rfl]
  omega

section Encoded

variable {values : HeaderValues} (rest : Bytes)

theorem encodeHeader_append (values : HeaderValues) :
    encodeHeader values ++ rest = fixedPart values ++ (values.optionsRaw ++ rest) := by
  rw [encodeHeader, List.append_assoc]

theorem encodeHeader_length (values : HeaderValues) :
    (encodeHeader values ++ rest).length = 20 + values.optionsRaw.length + rest.length := by
  rw [encodeHeader_append, List.length_append, List.length_append, Nat.add_assoc]
  rfl

/-- A word of the fixed part reads back. -/
theorem word_encoded (value : UInt32) :
    u32FromBeBytes ((u32ToBeBytes value).getD 0 0) ((u32ToBeBytes value).getD 1 0)
      ((u32ToBeBytes value).getD 2 0) ((u32ToBeBytes value).getD 3 0) = value := by
  rw [← u32ToBeBytes_inj, u32ToBeBytes_fromBeBytes]
  rfl

theorem dataOffset_encodeHeader (fits : Fits values) :
    byteAt (encodeHeader values ++ rest) 12 >>> 4 = values.dataOffset := by
  have flags := fits.flagsRaw
  have offset : byteAt (encodeHeader values ++ rest) 12 =
      (values.dataOffset <<< 4) ||| ((values.flagsRaw >>> 8).toUInt8 &&& 0x01) := by
    rw [encodeHeader_append]
    rfl
  have shift : (4 : UInt8).toNat = 4 := rfl
  rw [offset]
  exact upper_of_packed (by decide) fits.dataOffset (by rw [high_toNat flags, shift]; omega)

theorem headerLength_encodeHeader (fits : Fits values) :
    headerLength (encodeHeader values ++ rest) = 20 + values.optionsRaw.length := by
  rw [headerLength, dataOffset_encodeHeader rest fits]
  exact fits.words

theorem wellFormed_encodeHeader (fits : Fits values) :
    WellFormed (encodeHeader values ++ rest) := by
  have length := headerLength_encodeHeader rest fits
  have size := encodeHeader_length rest values
  refine ⟨?_, ?_, ?_⟩ <;> omega

theorem valuesAt_encodeHeader (fits : Fits values) :
    valuesAt (encodeHeader values ++ rest) = values := by
  have flags := fits.flagsRaw
  have srcPort : wordAt (encodeHeader values ++ rest) 0 = values.srcPort := by
    rw [encodeHeader_append]
    exact u16FromBeBytes_toBeBytes values.srcPort
  have dstPort : wordAt (encodeHeader values ++ rest) 2 = values.dstPort := by
    rw [encodeHeader_append]
    exact u16FromBeBytes_toBeBytes values.dstPort
  have seqNumber : u32FromBeBytes (byteAt (encodeHeader values ++ rest) 4)
      (byteAt (encodeHeader values ++ rest) 5) (byteAt (encodeHeader values ++ rest) 6)
      (byteAt (encodeHeader values ++ rest) 7) = values.seqNumber := by
    rw [encodeHeader_append]
    exact word_encoded values.seqNumber
  have ackNumber : u32FromBeBytes (byteAt (encodeHeader values ++ rest) 8)
      (byteAt (encodeHeader values ++ rest) 9) (byteAt (encodeHeader values ++ rest) 10)
      (byteAt (encodeHeader values ++ rest) 11) = values.ackNumber := by
    rw [encodeHeader_append]
    exact word_encoded values.ackNumber
  have high : byteAt (encodeHeader values ++ rest) 12 =
      (values.dataOffset <<< 4) ||| ((values.flagsRaw >>> 8).toUInt8 &&& 0x01) := by
    rw [encodeHeader_append]
    rfl
  have low : byteAt (encodeHeader values ++ rest) 13 = (values.flagsRaw &&& 0xff).toUInt8 := by
    rw [encodeHeader_append]
    rfl
  have flagsRaw : ((byteAt (encodeHeader values ++ rest) 12 &&& 0x01).toUInt16 <<< 8) |||
      (byteAt (encodeHeader values ++ rest) 13).toUInt16 = values.flagsRaw := by
    -- The lowest bit of the byte is that of the flags put there.
    have packed : (byteAt (encodeHeader values ++ rest) 12).toNat =
        values.dataOffset.toNat * 16 + values.flagsRaw.toNat / 256 := by
      have shift : (4 : UInt8).toNat = 4 := rfl
      rw [high, toNat_shiftLeft_or8 (by decide) fits.dataOffset
        (by rw [high_toNat flags, shift]; omega), high_toNat flags, shift]
      rfl
    apply UInt16.toNat_inj.mp
    rw [flagsRaw_toNat, packed, low, low_toNat]
    omega
  have windowSize : wordAt (encodeHeader values ++ rest) 14 = values.windowSize := by
    rw [encodeHeader_append]
    exact u16FromBeBytes_toBeBytes values.windowSize
  have checksum : wordAt (encodeHeader values ++ rest) 16 = values.checksum := by
    rw [encodeHeader_append]
    exact u16FromBeBytes_toBeBytes values.checksum
  have urgentPointer : wordAt (encodeHeader values ++ rest) 18 = values.urgentPointer := by
    rw [encodeHeader_append]
    exact u16FromBeBytes_toBeBytes values.urgentPointer
  have optionsRaw : ((encodeHeader values ++ rest).take
      (headerLength (encodeHeader values ++ rest))).drop 20 = values.optionsRaw := by
    have width : (fixedPart values).length = 20 := rfl
    rw [headerLength_encodeHeader rest fits, encodeHeader_append, ← List.append_assoc,
      List.take_left' (by rw [List.length_append, width]), List.drop_left' width]
  rw [valuesAt, srcPort, dstPort, seqNumber, ackNumber, dataOffset_encodeHeader rest fits,
    flagsRaw, windowSize, checksum, urgentPointer, optionsRaw]

/-- What the getters read fits its fields. -/
theorem fits_valuesAt {bytes : Bytes} (wellFormed : WellFormed bytes) :
    Fits (valuesAt bytes) where
  words := by
    have words := wellFormed.words
    have header := wellFormed.header
    have size : ((bytes.take (headerLength bytes)).drop 20).length = headerLength bytes - 20 := by
      rw [List.length_drop, List.length_take]
      omega
    rw [valuesAt, size, Nat.add_sub_cancel' words]
    rfl
  dataOffset := toNat_shiftRight_lt _ (by decide)
  flagsRaw := by
    have bound := (byteAt bytes 13).toNat_lt
    rw [valuesAt, flagsRaw_toNat]
    omega

theorem decodes_iff (values : HeaderValues) : Decodes headerFormat values rest ↔ Fits values := by
  refine (decodes_iff_read headerFormat (fun _ => validate_eq_ok_iff)
    (fun _ => headerValues_eq_ok) values rest).trans ⟨?_, fun fits => ?_⟩
  · rintro ⟨wellFormed, same⟩
    exact same ▸ fits_valuesAt wellFormed
  · exact ⟨wellFormed_encodeHeader rest fits, valuesAt_encodeHeader rest fits⟩

end Encoded

/-! ## The reserved bits -/

/-- A header with its reserved bits cleared. -/
def clearReserved (header : Bytes) : Bytes := header.set 12 (byteAt header 12 &&& 0xf1)

theorem pack_dataOffset (high low : UInt8) :
    ((high >>> 4) <<< 4) |||
      (((((high &&& 0x01).toUInt16 <<< 8) ||| low.toUInt16) >>> 8).toUInt8 &&& 0x01) =
      high &&& 0xf1 := by
  have bound := low.toNat_lt
  have raw := flagsRaw_toNat high low
  -- The flag is the lowest bit of the byte.
  have flag : (((((high &&& 0x01).toUInt16 <<< 8) ||| low.toUInt16) >>> 8).toUInt8 &&& 0x01) =
      high &&& 0x01 := by
    apply UInt8.toNat_inj.mp
    rw [high_toNat (by rw [raw]; omega), raw, toNat_and_mask8 high 1 rfl]
    omega
  have mask (k : Fin 8) : bit 0xf1 k = decide (4 ≤ k.val ∨ k.val = 0) := by
    revert k
    decide
  rw [flag]
  apply bit_ext
  intro k
  simp only [bit_or, bit_and, bit_shiftLeft_four, bit_shiftRight_four, bit_one, mask]
  by_cases upper : 4 ≤ k.val
  · have inside : k.val - 4 + 4 < 8 := by omega
    have same : (⟨k.val - 4 + 4, inside⟩ : Fin 8) = k := Fin.ext (Nat.sub_add_cancel upper)
    have notLow : k.val ≠ 0 := by omega
    rw [if_pos upper, dif_pos inside, same]
    simp [upper, notLow]
  · rw [if_neg upper]
    simp [upper]

/-- The fixed part of a header, field by field. -/
theorem take_twenty {bytes : Bytes} (fixed : 20 ≤ bytes.length) :
    bytes.take 20 =
      u16ToBeBytes (wordAt bytes 0) ++ u16ToBeBytes (wordAt bytes 2) ++
        [byteAt bytes 4, byteAt bytes 5, byteAt bytes 6, byteAt bytes 7] ++
        [byteAt bytes 8, byteAt bytes 9, byteAt bytes 10, byteAt bytes 11] ++
        [byteAt bytes 12, byteAt bytes 13] ++ u16ToBeBytes (wordAt bytes 14) ++
        u16ToBeBytes (wordAt bytes 16) ++ u16ToBeBytes (wordAt bytes 18) := by
  rw [take_add_word 18 (by omega), take_add_word 16 (by omega), take_add_word 14 (by omega),
    take_add_byte 13 (by omega), take_add_byte 12 (by omega), take_add_byte 11 (by omega),
    take_add_byte 10 (by omega), take_add_byte 9 (by omega), take_add_byte 8 (by omega),
    take_add_byte 7 (by omega), take_add_byte 6 (by omega), take_add_byte 5 (by omega),
    take_add_byte 4 (by omega), take_add_word 2 (by omega), take_add_word 0 (by omega),
    List.take_zero]
  simp only [List.append_assoc, List.cons_append, List.nil_append]

theorem encodeHeader_valuesAt {bytes : Bytes} (wellFormed : WellFormed bytes) :
    encodeHeader (valuesAt bytes) = clearReserved (bytes.take (headerLength bytes)) := by
  have fixed := wellFormed.fixed
  have words := wellFormed.words
  have front : fixedPart (valuesAt bytes) = (bytes.take 20).set 12 (byteAt bytes 12 &&& 0xf1) := by
    have low : ((valuesAt bytes).flagsRaw &&& 0xff).toUInt8 = byteAt bytes 13 := by
      have bound := (byteAt bytes 13).toNat_lt
      apply UInt8.toNat_inj.mp
      rw [low_toNat, valuesAt, flagsRaw_toNat]
      omega
    have high : ((valuesAt bytes).dataOffset <<< 4) |||
        (((valuesAt bytes).flagsRaw >>> 8).toUInt8 &&& 0x01) = byteAt bytes 12 &&& 0xf1 :=
      pack_dataOffset (byteAt bytes 12) (byteAt bytes 13)
    rw [fixedPart, low, high, take_twenty fixed]
    simp only [valuesAt, u32ToBeBytes_fromBeBytes]
    rfl
  have inside : 12 < (bytes.take 20).length := by
    rw [List.length_take]
    omega
  rw [clearReserved, byteAt_take (by omega), take_append_range bytes words,
    List.set_append_left _ _ inside, ← front]
  rfl

/-- What the getters see of a segment: the header they read encodes to the header with
its reserved bits cleared, and they agree on two segments exactly when the headers do
up to these bits. -/
structure SeesHeader (bytes : Bytes) : Prop where
  encodes : ∃ values, headerValues bytes = .ok values ∧
    encodeHeader values = clearReserved (bytes.take (headerLength bytes))
  determines : ∀ bytes', Accepts (PacketView.new Tcp bytes') →
    (headerValues bytes' = headerValues bytes ↔
      clearReserved (bytes'.take (headerLength bytes')) =
        clearReserved (bytes.take (headerLength bytes)))

theorem seesHeader {bytes : Bytes} (accepted : Accepts (PacketView.new Tcp bytes)) :
    SeesHeader bytes := by
  have wellFormed : WellFormed bytes := validate_eq_ok_iff.mp (accepts_new_iff.mp accepted)
  have encoded := encodeHeader_valuesAt wellFormed
  refine ⟨⟨_, headerValues_eq_ok wellFormed, encoded⟩, fun bytes' accepted' => ?_⟩
  have wellFormed' : WellFormed bytes' := validate_eq_ok_iff.mp (accepts_new_iff.mp accepted')
  have encoded' := encodeHeader_valuesAt wellFormed'
  rw [headerValues_eq_ok wellFormed, headerValues_eq_ok wellFormed', Except.ok.injEq, ← encoded,
    ← encoded']
  constructor
  · exact congrArg encodeHeader
  · -- The values are read back from their encoding.
    intro same
    have back := valuesAt_encodeHeader [] (fits_valuesAt wellFormed)
    have back' := valuesAt_encodeHeader [] (fits_valuesAt wellFormed')
    rw [← back, ← back', same]

/-- A segment with all three reserved bits set. -/
theorem seesHeader_reserved : SeesHeader (bareHeader 0x5e) := seesHeader (by decide)

end Tcp

/-- A header made of values is accepted and read back as these values, in front of any
bytes, exactly when the values fit their fields. -/
theorem headers_decode :
    (∀ values rest, Decodes Ipv4.headerFormat values rest ↔ Ipv4.Fits values) ∧
    (∀ values rest, Decodes Ipv6.headerFormat values rest ↔ Ipv6.Fits values) ∧
    (∀ values rest, Decodes Udp.headerFormat values rest ↔ Udp.Fits values rest) ∧
    (∀ values rest, Decodes Tcp.headerFormat values rest ↔ Tcp.Fits values) :=
  ⟨fun values rest => Ipv4.decodes_iff rest values, fun values rest => Ipv6.decodes_iff rest values,
    Udp.decodes_iff, fun values rest => Tcp.decodes_iff rest values⟩

end Packet

/-
# Encoded headers decode

Encoding what the getters read gives a header back. The converse holds of the values
that fit their fields: an encoded header in front of any bytes is accepted and the
getters read the values it was made of, exactly when each value fits its field and
the length fields agree with the header. TCP has three bits that no getter reads;
its header comes back with these cleared.
-/

import Packet.Model.Stack
import Packet.Theorems.HeaderEncoding

namespace Packet

open Rust

/-- A header made of these values is accepted in front of these bytes, and its getters
read the values. -/
def Decodes {P : Type} [PacketSpec P] (format : HeaderFormat P) (values : format.Values)
    (rest : Bytes) : Prop :=
  Accepts (PacketView.new P (format.encode values ++ rest)) ∧
    format.getters (format.encode values ++ rest) = .ok values

/-- When every accepted slice has its values read, a header decodes when it is accepted
and those are the values. -/
theorem decodes_iff_read {P : Type} [PacketSpec P] (format : HeaderFormat P)
    {valuesAt : Bytes → format.Values} {wellFormed : Bytes → Prop}
    (accepts : ∀ bytes, PacketSpec.validate P bytes = .ok (.ok ()) ↔ wellFormed bytes)
    (reads : ∀ bytes, wellFormed bytes → format.getters bytes = .ok (valuesAt bytes))
    (values : format.Values) (rest : Bytes) :
    Decodes format values rest ↔
      wellFormed (format.encode values ++ rest) ∧
        valuesAt (format.encode values ++ rest) = values := by
  rw [Decodes, accepts_new_iff, accepts]
  refine and_congr_right fun accepted => ?_
  rw [reads _ accepted, Except.ok.injEq]

/-! ## Fields in a byte -/

section Fields

theorem toNat_shiftLeft_or8 {a b shift : UInt8} (small : shift.toNat < 8)
    (fits : a.toNat < 2 ^ (8 - shift.toNat)) (low : b.toNat < 2 ^ shift.toNat) :
    ((a <<< shift) ||| b).toNat = a.toNat * 2 ^ shift.toNat + b.toNat := by
  refine toNat_pack8 small ?_ low
  have split : 2 ^ (8 - shift.toNat) * 2 ^ shift.toNat = 2 ^ 8 := by
    rw [← Nat.pow_add, Nat.sub_add_cancel small.le]
  exact split ▸ Nat.mul_lt_mul_of_pos_right fits (Nat.two_pow_pos _)

/-- The upper field of a byte reads back. -/
theorem upper_of_packed {a b shift : UInt8} (small : shift.toNat < 8)
    (fits : a.toNat < 2 ^ (8 - shift.toNat)) (low : b.toNat < 2 ^ shift.toNat) :
    ((a <<< shift) ||| b) >>> shift = a := by
  apply UInt8.toNat_inj.mp
  rw [toNat_shiftRight8 _ small, toNat_shiftLeft_or8 small fits low, Nat.add_comm,
    Nat.add_mul_div_right _ _ (Nat.two_pow_pos _), Nat.div_eq_of_lt low, Nat.zero_add]

/-- The lower field of a byte reads back. -/
theorem lower_of_packed {a b shift mask : UInt8} (small : shift.toNat < 8)
    (ones : mask.toNat = 2 ^ shift.toNat - 1) (fits : a.toNat < 2 ^ (8 - shift.toNat))
    (low : b.toNat < 2 ^ shift.toNat) : ((a <<< shift) ||| b) &&& mask = b := by
  apply UInt8.toNat_inj.mp
  rw [toNat_and_mask8 _ _ ones, toNat_shiftLeft_or8 small fits low, Nat.mul_add_mod_self_right,
    Nat.mod_eq_of_lt low]

theorem toNat_shiftRight_lt (a : UInt8) {shift : UInt8} (small : shift.toNat < 8) :
    (a >>> shift).toNat < 2 ^ (8 - shift.toNat) := by
  rw [toNat_shiftRight8 a small]
  refine Nat.div_lt_of_lt_mul ?_
  rw [← Nat.pow_add, Nat.add_sub_cancel' small.le]
  exact a.toNat_lt

theorem toNat_and_mask_lt (a : UInt8) {mask : UInt8} (n : ℕ) (ones : mask.toNat = 2 ^ n - 1) :
    (a &&& mask).toNat < 2 ^ n := by
  rw [toNat_and_mask8 a n ones]
  exact Nat.mod_lt _ (Nat.two_pow_pos n)

end Fields

/-! ## UDP -/

namespace Udp

/-- The values in the header of a datagram. -/
def valuesAt (bytes : Bytes) : HeaderValues :=
  ⟨wordAt bytes 0, wordAt bytes 2, wordAt bytes 4, wordAt bytes 6⟩

theorem headerValues_of_fixed {bytes : Bytes} (fixed : 8 ≤ bytes.length) :
    headerValues bytes = .ok (valuesAt bytes) := by
  simp (disch := omega) only [headerValues, UdpPacket.srcPort, UdpPacket.dstPort,
    UdpPacket.length, UdpPacket.checksum, readU16_eq_ok, ok_bind, pure_eq_ok, valuesAt]

theorem headerValues_eq_ok {bytes : Bytes} (wellFormed : WellFormed bytes) :
    headerValues bytes = .ok (valuesAt bytes) := headerValues_of_fixed wellFormed.fixed

/-- The length field counts the header and at most the bytes that follow. -/
structure Fits (values : HeaderValues) (rest : Bytes) : Prop where
  header : 8 ≤ values.length.toNat
  inside : values.length.toNat ≤ 8 + rest.length

section Encoded

variable (values : HeaderValues) (rest : Bytes)

theorem valuesAt_encodeHeader : valuesAt (encodeHeader values ++ rest) = values := by
  have srcPort : wordAt (encodeHeader values ++ rest) 0 = values.srcPort :=
    u16FromBeBytes_toBeBytes values.srcPort
  have dstPort : wordAt (encodeHeader values ++ rest) 2 = values.dstPort :=
    u16FromBeBytes_toBeBytes values.dstPort
  have length : wordAt (encodeHeader values ++ rest) 4 = values.length :=
    u16FromBeBytes_toBeBytes values.length
  have checksum : wordAt (encodeHeader values ++ rest) 6 = values.checksum :=
    u16FromBeBytes_toBeBytes values.checksum
  rw [valuesAt, srcPort, dstPort, length, checksum]

theorem wellFormed_encodeHeader_iff :
    WellFormed (encodeHeader values ++ rest) ↔ Fits values rest := by
  have size : (encodeHeader values ++ rest).length = 8 + rest.length := List.length_append
  have length : wordAt (encodeHeader values ++ rest) 4 = values.length :=
    u16FromBeBytes_toBeBytes values.length
  constructor
  · rintro ⟨_, header, inside⟩
    rw [length] at header inside
    exact ⟨header, size ▸ inside⟩
  · rintro ⟨header, inside⟩
    refine ⟨?_, ?_, ?_⟩
    · rw [size]
      exact Nat.le_add_right _ _
    · rwa [length]
    · rwa [length, size]

theorem decodes_iff : Decodes headerFormat values rest ↔ Fits values rest := by
  refine (decodes_iff_read headerFormat (fun _ => validate_eq_ok_iff)
    (fun _ => headerValues_eq_ok) values rest).trans ?_
  exact (and_iff_left (valuesAt_encodeHeader values rest)).trans
    (wellFormed_encodeHeader_iff values rest)

end Encoded

end Udp

/-! ## IPv4 -/

namespace Ipv4

/-- The values in the header of a packet, byte by byte. -/
def valuesAt (bytes : Bytes) : HeaderValues where
  version := byteAt bytes 0 >>> 4
  ihlWords := byteAt bytes 0 &&& 0x0f
  dscp := byteAt bytes 1 >>> 2
  ecn := byteAt bytes 1 &&& 0b11
  totalLen := wordAt bytes 2
  identification := wordAt bytes 4
  flags := byteAt bytes 6 >>> 5
  fragmentOffset := wordAt bytes 6 &&& 0x1fff
  ttl := byteAt bytes 8
  protocol := byteAt bytes 9
  checksum := wordAt bytes 10
  src := addressAt 4 bytes 12
  dst := addressAt 4 bytes 16
  options := (bytes.take (headerLength bytes)).drop 20

theorem headerValues_eq_ok {bytes : Bytes} (wellFormed : WellFormed bytes) :
    headerValues bytes = .ok (valuesAt bytes) := by
  have fixed := wellFormed.fixed
  simp (disch := omega) only [headerValues, Ipv4Packet.version, Ipv4Packet.ihlWords,
    Ipv4Packet.dscp, Ipv4Packet.ecn, Ipv4Packet.totalLen, Ipv4Packet.identification,
    Ipv4Packet.flags, Ipv4Packet.fragmentOffset, Ipv4Packet.ttl, Ipv4Packet.protocol,
    Ipv4Packet.checksum, src_eq_ok, dst_eq_ok, index_byteAt, readU16_eq_ok,
    options_eq_ok wellFormed, ok_bind, pure_eq_ok, valuesAt]

/-- Each value fits its field; the header length counts the options, the total length
the header. Nothing is asked of the bytes that follow. -/
structure Fits (values : HeaderValues) : Prop where
  version : values.version = 4
  words : values.ihlWords.toNat * 4 = 20 + values.options.length
  ihl : values.ihlWords.toNat < 16
  dscp : values.dscp.toNat < 64
  ecn : values.ecn.toNat < 4
  flags : values.flags.toNat < 8
  fragmentOffset : values.fragmentOffset.toNat < 8192
  total : values.ihlWords.toNat * 4 ≤ values.totalLen.toNat

section Encoded

variable {values : HeaderValues} (rest : Bytes)

/-- The word that the flags share with the fragment offset. -/
def flagsWord (values : HeaderValues) : UInt16 :=
  (values.flags.toUInt16 <<< 13) ||| values.fragmentOffset

theorem flagsWord_toNat (fits : Fits values) :
    (flagsWord values).toNat = values.flags.toNat * 8192 + values.fragmentOffset.toNat := by
  have flags := fits.flags
  have offset := fits.fragmentOffset
  have shift : (13 : UInt16).toNat = 13 := rfl
  rw [flagsWord, toNat_pack16 (by decide) (by rw [UInt8.toNat_toUInt16, shift]; omega)
    (by rw [shift]; omega), UInt8.toNat_toUInt16, shift]
  rfl

/-- The bytes in front of the addresses. -/
def front (values : HeaderValues) : Bytes :=
  [(values.version <<< 4) ||| values.ihlWords, (values.dscp <<< 2) ||| values.ecn] ++
    u16ToBeBytes values.totalLen ++ u16ToBeBytes values.identification ++
    u16ToBeBytes (flagsWord values) ++ [values.ttl, values.protocol] ++
    u16ToBeBytes values.checksum

theorem encodeHeader_append (values : HeaderValues) :
    encodeHeader values ++ rest =
      front values ++ (values.src.toList ++ (values.dst.toList ++ (values.options ++ rest))) := by
  rw [encodeHeader, front]
  simp only [List.append_assoc, List.cons_append, List.nil_append, flagsWord]

theorem encodeHeader_length (values : HeaderValues) :
    (encodeHeader values ++ rest).length = 20 + values.options.length + rest.length := by
  have width : (front values).length = 12 := rfl
  simp only [encodeHeader_append, List.length_append, Vector.length_toList, width]
  omega

theorem byteAt_zero_encodeHeader :
    byteAt (encodeHeader values ++ rest) 0 = (values.version <<< 4) ||| values.ihlWords := by
  rw [encodeHeader_append]
  rfl

theorem wordAt_two_encodeHeader : wordAt (encodeHeader values ++ rest) 2 = values.totalLen := by
  rw [encodeHeader_append]
  exact u16FromBeBytes_toBeBytes values.totalLen

theorem ihl_encodeHeader (fits : Fits values) :
    byteAt (encodeHeader values ++ rest) 0 &&& 0x0f = values.ihlWords := by
  rw [byteAt_zero_encodeHeader]
  exact lower_of_packed (by decide) rfl (by rw [fits.version]; decide) fits.ihl

theorem headerLength_encodeHeader (fits : Fits values) :
    headerLength (encodeHeader values ++ rest) = 20 + values.options.length := by
  rw [headerLength, ihl_encodeHeader rest fits]
  exact fits.words

theorem wellFormed_encodeHeader (fits : Fits values) :
    WellFormed (encodeHeader values ++ rest) := by
  have length := headerLength_encodeHeader rest fits
  have size := encodeHeader_length rest values
  refine ⟨?_, ?_, ?_, ?_, ?_⟩
  · rw [size]
    omega
  · rw [byteAt_zero_encodeHeader,
      upper_of_packed (by decide) (by rw [fits.version]; decide) fits.ihl]
    exact fits.version
  · rw [length]
    exact Nat.le_add_right _ _
  · rw [length, size]
    exact Nat.le_add_right _ _
  · rw [length, wordAt_two_encodeHeader, ← fits.words]
    exact fits.total

theorem valuesAt_encodeHeader (fits : Fits values) :
    valuesAt (encodeHeader values ++ rest) = values := by
  have packed := flagsWord_toNat fits
  have flagsFit := fits.flags
  have offsetFit := fits.fragmentOffset
  have first : byteAt (encodeHeader values ++ rest) 0 >>> 4 = values.version := by
    rw [byteAt_zero_encodeHeader]
    exact upper_of_packed (by decide) (by rw [fits.version]; decide) fits.ihl
  have second : byteAt (encodeHeader values ++ rest) 1 = (values.dscp <<< 2) ||| values.ecn := by
    rw [encodeHeader_append]
    rfl
  have dscp : byteAt (encodeHeader values ++ rest) 1 >>> 2 = values.dscp := by
    rw [second]
    exact upper_of_packed (by decide) fits.dscp fits.ecn
  have ecn : byteAt (encodeHeader values ++ rest) 1 &&& 0b11 = values.ecn := by
    rw [second]
    exact lower_of_packed (by decide) rfl fits.dscp fits.ecn
  have identification : wordAt (encodeHeader values ++ rest) 4 = values.identification := by
    rw [encodeHeader_append]
    exact u16FromBeBytes_toBeBytes values.identification
  have word : wordAt (encodeHeader values ++ rest) 6 = flagsWord values := by
    rw [encodeHeader_append]
    exact u16FromBeBytes_toBeBytes (flagsWord values)
  have high : byteAt (encodeHeader values ++ rest) 6 = .ofNat ((flagsWord values).toNat / 256) := by
    rw [encodeHeader_append]
    rfl
  have flags : byteAt (encodeHeader values ++ rest) 6 >>> 5 = values.flags := by
    have shift : (5 : UInt8).toNat = 5 := rfl
    apply UInt8.toNat_inj.mp
    rw [toNat_shiftRight8 _ (by decide), high, UInt8.toNat_ofNat', packed, shift]
    omega
  have fragmentOffset :
      wordAt (encodeHeader values ++ rest) 6 &&& 0x1fff = values.fragmentOffset := by
    apply UInt16.toNat_inj.mp
    rw [toNat_and_mask16 _ 13 rfl, word, packed]
    omega
  have ttl : byteAt (encodeHeader values ++ rest) 8 = values.ttl := by
    rw [encodeHeader_append]
    rfl
  have protocol : byteAt (encodeHeader values ++ rest) 9 = values.protocol := by
    rw [encodeHeader_append]
    rfl
  have checksum : wordAt (encodeHeader values ++ rest) 10 = values.checksum := by
    rw [encodeHeader_append]
    exact u16FromBeBytes_toBeBytes values.checksum
  have size := encodeHeader_length rest values
  have width : (front values).length = 12 := rfl
  have behindSrc : (front values ++ values.src.toList).length = 16 := by
    rw [List.length_append, width, Vector.length_toList]
  have behindDst : (front values ++ values.src.toList ++ values.dst.toList).length = 20 := by
    rw [List.length_append, behindSrc, Vector.length_toList]
  have src : addressAt 4 (encodeHeader values ++ rest) 12 = values.src := by
    rw [← Vector.toList_inj, addressAt_toList (by omega), encodeHeader_append,
      ← List.append_assoc, List.take_left' behindSrc, List.drop_left' width]
  have dst : addressAt 4 (encodeHeader values ++ rest) 16 = values.dst := by
    rw [← Vector.toList_inj, addressAt_toList (by omega), encodeHeader_append,
      ← List.append_assoc, ← List.append_assoc, List.take_left' behindDst,
      List.drop_left' behindSrc]
  have options : ((encodeHeader values ++ rest).take
      (headerLength (encodeHeader values ++ rest))).drop 20 = values.options := by
    rw [headerLength_encodeHeader rest fits, encodeHeader_append, ← List.append_assoc,
      ← List.append_assoc, ← List.append_assoc,
      List.take_left' (by rw [List.length_append, behindDst]), List.drop_left' behindDst]
  rw [valuesAt, first, ihl_encodeHeader rest fits, dscp, ecn, wordAt_two_encodeHeader,
    identification, flags, fragmentOffset, ttl, protocol, checksum, src, dst, options]

/-- What the getters read fits its fields. -/
theorem fits_valuesAt {bytes : Bytes} (wellFormed : WellFormed bytes) :
    Fits (valuesAt bytes) where
  version := wellFormed.version
  words := by
    have words := wellFormed.words
    have header := wellFormed.header
    have size : ((bytes.take (headerLength bytes)).drop 20).length = headerLength bytes - 20 := by
      rw [List.length_drop, List.length_take]
      omega
    rw [valuesAt, size, Nat.add_sub_cancel' words]
    rfl
  ihl := toNat_and_mask_lt _ 4 rfl
  dscp := toNat_shiftRight_lt _ (by decide)
  ecn := toNat_and_mask_lt _ 2 rfl
  flags := toNat_shiftRight_lt _ (by decide)
  fragmentOffset := by
    rw [valuesAt, toNat_and_mask16 _ 13 rfl]
    exact Nat.mod_lt _ (by decide)
  total := wellFormed.total

theorem decodes_iff (values : HeaderValues) : Decodes headerFormat values rest ↔ Fits values := by
  refine (decodes_iff_read headerFormat (fun _ => validate_eq_ok_iff)
    (fun _ => headerValues_eq_ok) values rest).trans ⟨?_, fun fits => ?_⟩
  · rintro ⟨wellFormed, same⟩
    exact same ▸ fits_valuesAt wellFormed
  · exact ⟨wellFormed_encodeHeader rest fits, valuesAt_encodeHeader rest fits⟩

end Encoded

end Ipv4

/-! ## IPv6 -/

namespace Ipv6

/-- The values in the fixed header of a packet, byte by byte. -/
def valuesAt (bytes : Bytes) : HeaderValues where
  version := byteAt bytes 0 >>> 4
  trafficClass := ((byteAt bytes 0 &&& 0x0f) <<< 4) ||| (byteAt bytes 1 >>> 4)
  flowLabel := ((byteAt bytes 1 &&& 0x0f).toUInt32 <<< 16) |||
    ((byteAt bytes 2).toUInt32 <<< 8) ||| (byteAt bytes 3).toUInt32
  payloadLen := wordAt bytes 4
  nextHeaderRaw := byteAt bytes 6
  hopLimit := byteAt bytes 7
  src := addressAt 16 bytes 8
  dst := addressAt 16 bytes 24

theorem headerValues_eq_ok {bytes : Bytes} (wellFormed : WellFormed bytes) :
    headerValues bytes = .ok (valuesAt bytes) := by
  have fixed := wellFormed.fixed
  simp (disch := omega) only [headerValues, Ipv6Packet.version, Ipv6Packet.trafficClass,
    Ipv6Packet.flowLabel, Ipv6Packet.payloadLen, Ipv6Packet.nextHeaderRaw, Ipv6Packet.hopLimit,
    src_eq_ok, dst_eq_ok, index_byteAt, readU16_eq_ok, ok_bind, pure_eq_ok, valuesAt]

/-- Of the fields that share bytes only the flow label can be too large for its own. -/
structure Fits (values : HeaderValues) : Prop where
  version : values.version = 6
  flowLabel : values.flowLabel.toNat < 1048576

section Encoded

variable {values : HeaderValues} (rest : Bytes)

/-- The four bytes that the version, the traffic class and the flow label share. -/
def firstWord (values : HeaderValues) : UInt32 :=
  (values.version.toUInt32 <<< 28) |||
    ((values.trafficClass.toUInt32 <<< 20) ||| values.flowLabel)

theorem firstWord_toNat (fits : Fits values) :
    (firstWord values).toNat =
      (6 * 256 + values.trafficClass.toNat) * 1048576 + values.flowLabel.toNat := by
  have class_ := values.trafficClass.toNat_lt
  have flow := fits.flowLabel
  have version : values.version.toUInt32.toNat = 6 := by
    rw [UInt8.toNat_toUInt32, fits.version]
    rfl
  have shift : (20 : UInt32).toNat = 20 := rfl
  have shift' : (28 : UInt32).toNat = 28 := rfl
  have low := toNat_pack32 (a := values.trafficClass.toUInt32) (b := values.flowLabel)
    (show (20 : UInt32).toNat < 32 by decide) (by rw [UInt8.toNat_toUInt32, shift]; omega)
    (by rw [shift]; omega)
  rw [UInt8.toNat_toUInt32, shift] at low
  rw [firstWord, toNat_pack32 (by decide) (by rw [version, shift']; omega)
    (by rw [low, shift']; omega), low, version, shift']
  omega

/-- The bytes in front of the addresses. -/
def front (values : HeaderValues) : Bytes :=
  u32ToBeBytes (firstWord values) ++ u16ToBeBytes values.payloadLen ++
    [values.nextHeaderRaw, values.hopLimit]

theorem encodeHeader_append (values : HeaderValues) :
    encodeHeader values ++ rest =
      front values ++ (values.src.toList ++ (values.dst.toList ++ rest)) := by
  rw [encodeHeader, front]
  simp only [List.append_assoc, List.cons_append, List.nil_append, firstWord]

theorem encodeHeader_length (values : HeaderValues) :
    (encodeHeader values ++ rest).length = 40 + rest.length := by
  rw [encodeHeader_append, List.length_append, List.length_append, List.length_append,
    Vector.length_toList, Vector.length_toList, ← Nat.add_assoc, ← Nat.add_assoc]
  rfl

/-- The bytes of the first word, as numbers. -/
theorem first_toNat (fits : Fits values) :
    (byteAt (encodeHeader values ++ rest) 0).toNat = 96 + values.trafficClass.toNat / 16 ∧
    (byteAt (encodeHeader values ++ rest) 1).toNat =
      values.trafficClass.toNat % 16 * 16 + values.flowLabel.toNat / 65536 ∧
    (byteAt (encodeHeader values ++ rest) 2).toNat = values.flowLabel.toNat / 256 % 256 ∧
    (byteAt (encodeHeader values ++ rest) 3).toNat = values.flowLabel.toNat % 256 := by
  have packed := firstWord_toNat fits
  have flow := fits.flowLabel
  have class_ := values.trafficClass.toNat_lt
  have b0 : byteAt (encodeHeader values ++ rest) 0 =
      .ofNat ((firstWord values).toNat / 2 ^ 24) := by
    rw [encodeHeader_append]
    rfl
  have b1 : byteAt (encodeHeader values ++ rest) 1 =
      .ofNat ((firstWord values).toNat / 2 ^ 16) := by
    rw [encodeHeader_append]
    rfl
  have b2 : byteAt (encodeHeader values ++ rest) 2 =
      .ofNat ((firstWord values).toNat / 2 ^ 8) := by
    rw [encodeHeader_append]
    rfl
  have b3 : byteAt (encodeHeader values ++ rest) 3 = .ofNat (firstWord values).toNat := by
    rw [encodeHeader_append]
    rfl
  rw [b0, b1, b2, b3, packed]
  simp only [UInt8.toNat_ofNat']
  refine ⟨?_, ?_, ?_, ?_⟩ <;> omega

theorem version_encodeHeader (fits : Fits values) :
    byteAt (encodeHeader values ++ rest) 0 >>> 4 = values.version := by
  obtain ⟨first, _, _, _⟩ := first_toNat rest fits
  have class_ := values.trafficClass.toNat_lt
  have shift : (4 : UInt8).toNat = 4 := rfl
  have six : values.version.toNat = 6 := by
    rw [fits.version]
    rfl
  apply UInt8.toNat_inj.mp
  rw [toNat_shiftRight8 _ (by decide), first, shift, six]
  omega

theorem valuesAt_encodeHeader (fits : Fits values) :
    valuesAt (encodeHeader values ++ rest) = values := by
  obtain ⟨first, second, third, fourth⟩ := first_toNat rest fits
  have flow := fits.flowLabel
  have class_ := values.trafficClass.toNat_lt
  have size := encodeHeader_length rest values
  have trafficClass : ((byteAt (encodeHeader values ++ rest) 0 &&& 0x0f) <<< 4) |||
      (byteAt (encodeHeader values ++ rest) 1 >>> 4) = values.trafficClass := by
    apply UInt8.toNat_inj.mp
    rw [trafficClass_toNat, first, second]
    omega
  have flowLabel : ((byteAt (encodeHeader values ++ rest) 1 &&& 0x0f).toUInt32 <<< 16) |||
      ((byteAt (encodeHeader values ++ rest) 2).toUInt32 <<< 8) |||
      (byteAt (encodeHeader values ++ rest) 3).toUInt32 = values.flowLabel := by
    apply UInt32.toNat_inj.mp
    rw [flowLabel_toNat, second, third, fourth]
    omega
  have payloadLen : wordAt (encodeHeader values ++ rest) 4 = values.payloadLen := by
    rw [encodeHeader_append]
    exact u16FromBeBytes_toBeBytes values.payloadLen
  have nextHeaderRaw : byteAt (encodeHeader values ++ rest) 6 = values.nextHeaderRaw := by
    rw [encodeHeader_append]
    rfl
  have hopLimit : byteAt (encodeHeader values ++ rest) 7 = values.hopLimit := by
    rw [encodeHeader_append]
    rfl
  have width : (front values).length = 8 := rfl
  have src : addressAt 16 (encodeHeader values ++ rest) 8 = values.src := by
    have end_ : (front values ++ values.src.toList).length = 8 + 16 := by
      rw [List.length_append, width, Vector.length_toList]
    rw [← Vector.toList_inj, addressAt_toList (by omega), encodeHeader_append,
      ← List.append_assoc, List.take_left' end_, List.drop_left' width]
  have dst : addressAt 16 (encodeHeader values ++ rest) 24 = values.dst := by
    have start : (front values ++ values.src.toList).length = 24 := by
      rw [List.length_append, width, Vector.length_toList]
    have end_ : (front values ++ values.src.toList ++ values.dst.toList).length = 24 + 16 := by
      rw [List.length_append, start, Vector.length_toList]
    rw [← Vector.toList_inj, addressAt_toList (by omega), encodeHeader_append,
      ← List.append_assoc, ← List.append_assoc, List.take_left' end_, List.drop_left' start]
  rw [valuesAt, version_encodeHeader rest fits, trafficClass, flowLabel, payloadLen,
    nextHeaderRaw, hopLimit, src, dst]

theorem wellFormed_encodeHeader (fits : Fits values) :
    WellFormed (encodeHeader values ++ rest) where
  fixed := by
    rw [encodeHeader_length]
    exact Nat.le_add_right _ _
  version := (version_encodeHeader rest fits).trans fits.version

/-- What the getters read fits its fields. -/
theorem fits_valuesAt {bytes : Bytes} (wellFormed : WellFormed bytes) :
    Fits (valuesAt bytes) where
  version := wellFormed.version
  flowLabel := by
    have bound := (byteAt bytes 2).toNat_lt
    have bound' := (byteAt bytes 3).toNat_lt
    rw [valuesAt, flowLabel_toNat]
    omega

theorem decodes_iff (values : HeaderValues) : Decodes headerFormat values rest ↔ Fits values := by
  refine (decodes_iff_read headerFormat (fun _ => validate_eq_ok_iff)
    (fun _ => headerValues_eq_ok) values rest).trans ⟨?_, fun fits => ?_⟩
  · rintro ⟨wellFormed, same⟩
    exact same ▸ fits_valuesAt wellFormed
  · exact ⟨wellFormed_encodeHeader rest fits, valuesAt_encodeHeader rest fits⟩

end Encoded

end Ipv6

end Packet

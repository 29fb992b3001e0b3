/-
# TCP setters as updates

The data offset shares a byte with the reserved bits and the first flag, and its setter
and that of the flags each keep one half of that byte. On the record behind the buffer
one sets the offset and the other the flags, and clears the reserved bits. Where the
options end changes with the data offset, so the record counts them to what follows.
-/

import Packet.Theorems.RecordEdits
import Packet.Theorems.TcpFormat

namespace Packet

open Rust Checksum

/-! ## Halves of a byte -/

section Halves

variable (old : UInt8) {low : UInt8} (value : UInt8)

theorem lower_of_keepUpper : ((old &&& 0xf0) ||| low) &&& 0x0f = low &&& 0x0f := by
  apply bit_ext
  intro k
  simp only [bit_and, bit_or, bit_highMask, bit_lowMask]
  by_cases inside : k.val < 4
  · simp [inside]
  · simp [inside]

theorem lower_of_keepLower : ((value <<< 4) ||| (old &&& 0x0f)) &&& 0x0f = old &&& 0x0f := by
  apply bit_ext
  intro k
  simp only [bit_and, bit_or, bit_lowMask, bit_shiftLeft_four]
  by_cases inside : k.val < 4
  · simp [inside]
  · simp [inside]

theorem toNat_halves (byte : UInt8) :
    byte.toNat = (byte >>> 4).toNat * 16 + (byte &&& 0x0f).toNat := by
  have upper : (byte >>> 4).toNat = byte.toNat / 16 := toNat_shiftRight8 byte (by decide)
  have lower : (byte &&& 0x0f).toNat = byte.toNat % 16 := toNat_and_mask8 byte 4 rfl
  omega

/-- A byte that keeps its upper half. -/
theorem keepUpper_toNat (small : low.toNat < 16) :
    ((old &&& 0xf0) ||| low).toNat = old.toNat / 16 * 16 + low.toNat := by
  have none : low >>> 4 = 0 := by
    apply UInt8.toNat_inj.mp
    rw [toNat_shiftRight8 low (by decide)]
    exact Nat.div_eq_of_lt small
  have upper : (old >>> 4).toNat = old.toNat / 16 := toNat_shiftRight8 old (by decide)
  have lower : (low &&& 0x0f).toNat = low.toNat % 16 := toNat_and_mask8 low 4 rfl
  rw [toNat_halves, upper_of_keepUpper none, lower_of_keepUpper, upper, lower,
    Nat.mod_eq_of_lt small]

/-- A byte that keeps its lower half. -/
theorem keepLower_toNat :
    ((value <<< 4) ||| (old &&& 0x0f)).toNat = value.toNat % 16 * 16 + old.toNat % 16 := by
  have upper : (value &&& 0x0f).toNat = value.toNat % 16 := toNat_and_mask8 value 4 rfl
  have lower : (old &&& 0x0f).toNat = old.toNat % 16 := toNat_and_mask8 old 4 rfl
  rw [toNat_halves, upper_of_keepLower, lower_of_keepLower, upper, lower]

end Halves

/-! ## Segments -/

namespace Tcp

/-- What the getters read of the fixed part of a header. -/
structure FixedValues where
  srcPort : UInt16
  dstPort : UInt16
  seqNumber : UInt32
  ackNumber : UInt32
  dataOffset : UInt8
  flagsRaw : UInt16
  windowSize : UInt16
  checksum : UInt16
  urgentPointer : UInt16

/-- The getters of the fixed part, called in their order. -/
def fixedValues (bytes : Bytes) : Exec FixedValues := do
  return {
    srcPort := ← TcpPacket.srcPort bytes
    dstPort := ← TcpPacket.dstPort bytes
    seqNumber := ← TcpPacket.seqNumber bytes
    ackNumber := ← TcpPacket.ackNumber bytes
    dataOffset := ← TcpPacket.dataOffset bytes
    flagsRaw := ← TcpPacket.flagsRaw bytes
    windowSize := ← TcpPacket.windowSize bytes
    checksum := ← TcpPacket.checksum bytes
    urgentPointer := ← TcpPacket.urgentPointer bytes }

/-- The fixed part with the three bits that no getter reads. The options are counted to
what follows: where they end changes with the data offset. -/
structure SegmentValues extends FixedValues where
  reserved : UInt8

/-- The byte of the data offset, the reserved bits and the first flag. -/
def offsetByte (values : SegmentValues) : UInt8 :=
  (values.dataOffset <<< 4) |||
    ((values.reserved <<< 1) ||| ((values.flagsRaw >>> 8).toUInt8 &&& 0x01))

/-- The fixed part on the wire, reserved bits included. -/
def encodeFixed (values : SegmentValues) : Bytes :=
  u16ToBeBytes values.srcPort ++ u16ToBeBytes values.dstPort ++ u32ToBeBytes values.seqNumber ++
    u32ToBeBytes values.ackNumber ++ [offsetByte values, (values.flagsRaw &&& 0xff).toUInt8] ++
    u16ToBeBytes values.windowSize ++ u16ToBeBytes values.checksum ++
    u16ToBeBytes values.urgentPointer

/-- The values a fixed part can hold. -/
structure FixedFits (values : SegmentValues) : Prop where
  dataOffset : values.dataOffset.toNat < 16
  reserved : values.reserved.toNat < 8
  flagsRaw : values.flagsRaw.toNat < 512

/-- The words of the header outside the checksum field. -/
def headerSum (values : SegmentValues) : ℕ :=
  values.srcPort.toNat + values.dstPort.toNat +
    (values.seqNumber.toNat / 65536 + values.seqNumber.toNat % 65536) +
    (values.ackNumber.toNat / 65536 + values.ackNumber.toNat % 65536) +
    (values.dataOffset.toNat * 4096 + values.reserved.toNat * 512 + values.flagsRaw.toNat) +
    values.windowSize.toNat + values.urgentPointer.toNat

/-- Storing the flags clears the reserved bits. -/
def withFlags (values : SegmentValues) (value : UInt16) : SegmentValues :=
  { values with flagsRaw := value &&& 0x1ff, reserved := 0 }

/-- What a setter does to the values of a fixed part in front of `rest`. -/
def update (rest : Bytes) : Setter → SegmentValues → Exec SegmentValues
  | .srcPort value, values => .ok { values with srcPort := value }
  | .dstPort value, values => .ok { values with dstPort := value }
  | .seqNumber value, values => .ok { values with seqNumber := value }
  | .ackNumber value, values => .ok { values with ackNumber := value }
  | .flags value, values => .ok (withFlags values value)
  -- Of a data offset the lower four bits are stored.
  | .dataOffset value, values => do
    debugAssert (value ≥ 5)
    return { values with dataOffset := value &&& 0x0f }
  | .windowSize value, values => .ok { values with windowSize := value }
  | .checksum value, values => .ok { values with checksum := value }
  | .urgentPointer value, values => .ok { values with urgentPointer := value }
  | .computeAndSetChecksumIpv4 src dst, values => do
    let checksum ← exactChecksum
      (wordSum (pseudoIpv4 src dst tcpProtocol (.ofNat (20 + rest.length))))
      (headerSum values + wordSum rest)
    return { values with checksum }
  | .computeAndSetChecksumIpv6 src dst, values => do
    let checksum ← exactChecksum
      (wordSum (pseudoIpv6 src dst tcpProtocol (.ofNat (20 + rest.length))))
      (headerSum values + wordSum rest)
    return { values with checksum }

section Encoded

variable {values : SegmentValues} (rest : Bytes)

theorem offsetByte_toNat (fits : FixedFits values) :
    (offsetByte values).toNat = values.dataOffset.toNat * 16 + values.reserved.toNat * 2 +
      values.flagsRaw.toNat / 256 := by
  have reserved := fits.reserved
  have flags := fits.flagsRaw
  have offset := fits.dataOffset
  have four : (4 : UInt8).toNat = 4 := rfl
  have one : (1 : UInt8).toNat = 1 := rfl
  have ns := high_toNat flags
  have low : ((values.reserved <<< 1) ||| ((values.flagsRaw >>> 8).toUInt8 &&& 0x01)).toNat =
      values.reserved.toNat * 2 + values.flagsRaw.toNat / 256 := by
    rw [toNat_pack8 (by decide) (by rw [one]; omega) (by rw [ns, one]; omega), ns, one]
    rfl
  rw [offsetByte, toNat_pack8 (by decide) (by rw [four]; omega) (by rw [low, four]; omega), low,
    four]
  omega

/-- A record laid out in a mutable view. -/
def laid (rest : Bytes) (values : SegmentValues) : PacketViewMut Tcp := ⟨encodeFixed values ++ rest⟩

theorem encodeFixed_length (values : SegmentValues) :
    (encodeFixed values ++ rest).length = 20 + rest.length := List.length_append

theorem laid_length : (laid rest values).bytes.length = 20 + rest.length :=
  encodeFixed_length rest values

theorem sumOutside_encodeFixed (fits : FixedFits values) :
    sumOutside (encodeFixed values ++ rest) 16 = headerSum values + wordSum rest := by
  have before : (encodeFixed values ++ rest).take 16 = u16ToBeBytes values.srcPort ++
      u16ToBeBytes values.dstPort ++ u32ToBeBytes values.seqNumber ++
      u32ToBeBytes values.ackNumber ++ [offsetByte values, (values.flagsRaw &&& 0xff).toUInt8] ++
      u16ToBeBytes values.windowSize := rfl
  have behind : (encodeFixed values ++ rest).drop (16 + 2) =
      u16ToBeBytes values.urgentPointer ++ rest := rfl
  rw [sumOutside, before, behind, wordSum_append _ (by simp), wordSum_append _ (by simp),
    wordSum_append _ (by simp), wordSum_append _ (by simp), wordSum_append _ (by simp),
    wordSum_append _ (by simp), wordSum_u16ToBeBytes, wordSum_u16ToBeBytes, wordSum_u16ToBeBytes,
    wordSum_u16ToBeBytes, wordSum_u32ToBeBytes, wordSum_u32ToBeBytes, wordSum_cons_cons,
    wordSum_nil, offsetByte_toNat fits, low_toNat, headerSum]
  omega

theorem index_offsetByte : index (laid rest values).bytes 12 = .ok (offsetByte values) :=
  index_byteAt (by rw [laid_length]; omega)

theorem assign_laid {i : ℕ} (inside : i < 20) {value : UInt8} {values' : SegmentValues}
    (written : (encodeFixed values ++ rest).set i value = encodeFixed values' ++ rest) :
    (laid rest values).assign i value = .ok (laid rest values') := by
  rw [PacketViewMut.assign_eq_ok (by rw [laid_length]; omega), laid, written, laid]

theorem FixedFits.withFlags (fits : FixedFits values) (value : UInt16) :
    FixedFits (withFlags values value) := by
  refine ⟨fits.dataOffset, show (0 : UInt8).toNat < 8 by decide, ?_⟩
  have nine : (value &&& 0x1ff).toNat = value.toNat % 512 := toNat_and_mask16 value 9 rfl
  exact nine ▸ Nat.mod_lt _ (by decide)

theorem setFlags_laid (fits : FixedFits values) (value : UInt16) :
    setFlags (laid rest values) value =
      .ok (laid rest (withFlags values value)) := by
  have nine : (value &&& 0x1ff).toNat = value.toNat % 512 := toNat_and_mask16 value 9 rfl
  have ns : ((value >>> 8).toUInt8 &&& 0x01).toNat = value.toNat / 256 % 2 := by
    have quotient : (value >>> 8).toNat = value.toNat / 256 := by
      rw [UInt16.toNat_shiftRight, Nat.shiftRight_eq_div_pow]
      rfl
    rw [toNat_and_mask8 _ 1 rfl, UInt16.toNat_toUInt8, quotient]
    omega
  have kept := fits.withFlags value
  -- The upper half of the byte stays; of the lower only the flag is left.
  have high : (offsetByte values &&& (0xf0 : UInt8)) ||| ((value >>> 8).toUInt8 &&& 0x01) =
      offsetByte (withFlags values value) := by
    have reserved := fits.reserved
    have flags := fits.flagsRaw
    have cleared : (offsetByte (withFlags values value)).toNat =
        values.dataOffset.toNat * 16 + 0 * 2 + (value &&& 0x1ff).toNat / 256 :=
      offsetByte_toNat kept
    apply UInt8.toNat_inj.mp
    rw [keepUpper_toNat _ (by rw [ns]; omega), cleared, offsetByte_toNat fits, ns, nine]
    omega
  have low : value.toUInt8 = ((value &&& 0x1ff) &&& 0xff).toUInt8 := by
    apply UInt8.toNat_inj.mp
    rw [low_toNat, nine, UInt16.toNat_toUInt8]
    omega
  have size : (laid rest values).bytes.length = 20 + rest.length := laid_length rest
  rw [setFlags, index_offsetByte, ok_bind]
  dsimp only
  rw [PacketViewMut.assign_eq_ok (by omega), ok_bind, high, low,
    PacketViewMut.assign_eq_ok (by rw [List.length_set]; omega)]
  rfl

theorem setDataOffset_laid (fits : FixedFits values) {value : UInt8} (five : value ≥ 5) :
    setDataOffset (laid rest values) value =
      .ok (laid rest { values with dataOffset := value &&& 0x0f }) := by
  have offset := fits.dataOffset
  have bytes := offsetByte_toNat fits
  have kept : FixedFits { values with dataOffset := value &&& 0x0f } :=
    ⟨toNat_and_mask_lt value 4 rfl, fits.reserved, fits.flagsRaw⟩
  have mask : (value &&& 0x0f).toNat = value.toNat % 16 := toNat_and_mask8 value 4 rfl
  have packed : (value <<< 4) ||| (offsetByte values &&& 0x0f) =
      offsetByte { values with dataOffset := value &&& 0x0f } := by
    have reserved := fits.reserved
    have flags := fits.flagsRaw
    have replaced : (offsetByte { values with dataOffset := value &&& 0x0f }).toNat =
        (value &&& 0x0f).toNat * 16 + values.reserved.toNat * 2 + values.flagsRaw.toNat / 256 :=
      offsetByte_toNat kept
    apply UInt8.toNat_inj.mp
    rw [keepLower_toNat, replaced, bytes, mask]
    omega
  rw [setDataOffset, decide_eq_true five, debugAssert_true, ok_bind, index_offsetByte, ok_bind,
    packed]
  exact assign_laid rest (by decide) rfl

theorem apply_laid (fits : FixedFits values) (setter : Setter) :
    setter.apply (laid rest values) = (update rest setter values).map (laid rest) := by
  have size := encodeFixed_length rest values
  have size' : (laid rest values).bytes.length = 20 + rest.length := laid_length rest
  have fixed : 20 ≤ (encodeFixed values ++ rest).length := by omega
  have stores (value : UInt16) : setChecksum (laid rest values) value =
      .ok (laid rest { values with checksum := value }) :=
    PacketViewMut.copyFromSlice_u16 (by omega) value
  cases setter with
  | srcPort value => exact PacketViewMut.copyFromSlice_u16 (by omega) value
  | dstPort value => exact PacketViewMut.copyFromSlice_u16 (by omega) value
  | seqNumber value =>
    exact PacketViewMut.copyFromSlice_eq_of_splice (by decide) (by omega) (by simp) rfl
  | ackNumber value =>
    exact PacketViewMut.copyFromSlice_eq_of_splice (by decide) (by omega) (by simp) rfl
  | flags value => exact setFlags_laid rest fits value
  | dataOffset value =>
    by_cases five : value ≥ 5
    · rw [Setter.apply, setDataOffset_laid rest fits five, update, decide_eq_true five]
      rfl
    · rw [Setter.apply, setDataOffset, update, decide_eq_false five]
      rfl
  | windowSize value => exact PacketViewMut.copyFromSlice_u16 (by omega) value
  | checksum value => exact stores value
  | urgentPointer value => exact PacketViewMut.copyFromSlice_u16 (by omega) value
  | computeAndSetChecksumIpv4 src dst =>
    refine Eq.trans ?_ (bind_store stores _)
    rw [Setter.apply, computeAndSetChecksumIpv4, laid, tcpChecksumIpv4_eq src dst fixed,
      totalIpv4, sumOutside_encodeFixed rest fits, size, exactChecksum]
  | computeAndSetChecksumIpv6 src dst =>
    refine Eq.trans ?_ (bind_store stores _)
    rw [Setter.apply, computeAndSetChecksumIpv6, laid, tcpChecksumIpv6_eq src dst fixed,
      totalIpv6, sumOutside_encodeFixed rest fits, size, exactChecksum]

theorem FixedFits.of_update {setter : Setter} {values values' : SegmentValues}
    (updated : update rest setter values = .ok values') (fits : FixedFits values) :
    FixedFits values' := by
  cases setter with
  | flags value => exact Except.ok.inj updated ▸ fits.withFlags value
  | dataOffset value =>
    obtain ⟨_, _, updated⟩ := bind_eq_ok.mp updated
    exact Except.ok.inj updated ▸ ⟨toNat_and_mask_lt value 4 rfl, fits.reserved, fits.flagsRaw⟩
  | computeAndSetChecksumIpv4 src dst =>
    obtain ⟨checksum, _, updated⟩ := bind_eq_ok.mp updated
    exact Except.ok.inj updated ▸ ⟨fits.dataOffset, fits.reserved, fits.flagsRaw⟩
  | computeAndSetChecksumIpv6 src dst =>
    obtain ⟨checksum, _, updated⟩ := bind_eq_ok.mp updated
    exact Except.ok.inj updated ▸ ⟨fits.dataOffset, fits.reserved, fits.flagsRaw⟩
  | _ => exact Except.ok.inj updated ▸ ⟨fits.dataOffset, fits.reserved, fits.flagsRaw⟩

end Encoded

/-- The record behind a buffer. -/
def valuesOf (bytes : Bytes) : SegmentValues where
  srcPort := wordAt bytes 0
  dstPort := wordAt bytes 2
  seqNumber := u32FromBeBytes (byteAt bytes 4) (byteAt bytes 5) (byteAt bytes 6) (byteAt bytes 7)
  ackNumber := u32FromBeBytes (byteAt bytes 8) (byteAt bytes 9) (byteAt bytes 10) (byteAt bytes 11)
  dataOffset := byteAt bytes 12 >>> 4
  flagsRaw := ((byteAt bytes 12 &&& 0x01).toUInt16 <<< 8) ||| (byteAt bytes 13).toUInt16
  windowSize := wordAt bytes 14
  checksum := wordAt bytes 16
  urgentPointer := wordAt bytes 18
  reserved := (byteAt bytes 12 >>> 1) &&& 0x07

theorem fixedValues_eq_ok {bytes : Bytes} (fixed : 20 ≤ bytes.length) :
    fixedValues bytes = .ok (valuesOf bytes).toFixedValues := by
  simp (disch := omega) only [fixedValues, TcpPacket.srcPort, TcpPacket.dstPort,
    TcpPacket.seqNumber, TcpPacket.ackNumber, TcpPacket.dataOffset, TcpPacket.flagsRaw,
    TcpPacket.windowSize, TcpPacket.checksum, TcpPacket.urgentPointer, readU32, readU16_eq_ok,
    index_byteAt, ok_bind, pure_eq_ok, Nat.reduceAdd, valuesOf]

theorem reserved_toNat (byte : UInt8) :
    ((byte >>> 1) &&& 0x07).toNat = byte.toNat / 2 % 8 := by
  rw [toNat_and_mask8 _ 3 rfl, toNat_shiftRight8 byte (by decide)]
  rfl

theorem fixedFits_valuesOf (bytes : Bytes) : FixedFits (valuesOf bytes) where
  dataOffset := toNat_shiftRight_lt _ (by decide)
  reserved := toNat_and_mask_lt _ 3 rfl
  flagsRaw := by
    have bound := (byteAt bytes 13).toNat_lt
    rw [valuesOf, flagsRaw_toNat]
    omega

theorem encodeFixed_valuesOf {bytes : Bytes} (fixed : 20 ≤ bytes.length) :
    encodeFixed (valuesOf bytes) ++ bytes.drop 20 = bytes := by
  have fits := fixedFits_valuesOf bytes
  have flags : (valuesOf bytes).flagsRaw.toNat = _ := flagsRaw_toNat (byteAt bytes 12) _
  have reserved : (valuesOf bytes).reserved.toNat = _ := reserved_toNat (byteAt bytes 12)
  have offset : (valuesOf bytes).dataOffset.toNat = (byteAt bytes 12).toNat / 2 ^ 4 :=
    toNat_shiftRight8 (byteAt bytes 12) (by decide)
  have bound := (byteAt bytes 13).toNat_lt
  have high : offsetByte (valuesOf bytes) = byteAt bytes 12 := by
    apply UInt8.toNat_inj.mp
    rw [offsetByte_toNat fits, flags, reserved, offset]
    omega
  have low : ((valuesOf bytes).flagsRaw &&& 0xff).toUInt8 = byteAt bytes 13 := by
    apply UInt8.toNat_inj.mp
    rw [low_toNat, flags]
    omega
  have header : encodeFixed (valuesOf bytes) = bytes.take 20 := by
    rw [encodeFixed, high, low, take_twenty fixed]
    simp only [valuesOf, u32ToBeBytes_fromBeBytes]
  rw [header, List.take_append_drop]

theorem valuesOf_encodeFixed {values : SegmentValues} (rest : Bytes) (fits : FixedFits values) :
    valuesOf (encodeFixed values ++ rest) = values := by
  have offset := fits.dataOffset
  have reserved := fits.reserved
  have flags := fits.flagsRaw
  have packed := offsetByte_toNat fits
  have high : byteAt (encodeFixed values ++ rest) 12 = offsetByte values := rfl
  have low : byteAt (encodeFixed values ++ rest) 13 = (values.flagsRaw &&& 0xff).toUInt8 := rfl
  have srcPort : wordAt (encodeFixed values ++ rest) 0 = values.srcPort :=
    u16FromBeBytes_toBeBytes values.srcPort
  have dstPort : wordAt (encodeFixed values ++ rest) 2 = values.dstPort :=
    u16FromBeBytes_toBeBytes values.dstPort
  have seqNumber : u32FromBeBytes (byteAt (encodeFixed values ++ rest) 4)
      (byteAt (encodeFixed values ++ rest) 5) (byteAt (encodeFixed values ++ rest) 6)
      (byteAt (encodeFixed values ++ rest) 7) = values.seqNumber := word_encoded values.seqNumber
  have ackNumber : u32FromBeBytes (byteAt (encodeFixed values ++ rest) 8)
      (byteAt (encodeFixed values ++ rest) 9) (byteAt (encodeFixed values ++ rest) 10)
      (byteAt (encodeFixed values ++ rest) 11) = values.ackNumber := word_encoded values.ackNumber
  have windowSize : wordAt (encodeFixed values ++ rest) 14 = values.windowSize :=
    u16FromBeBytes_toBeBytes values.windowSize
  have checksum : wordAt (encodeFixed values ++ rest) 16 = values.checksum :=
    u16FromBeBytes_toBeBytes values.checksum
  have urgentPointer : wordAt (encodeFixed values ++ rest) 18 = values.urgentPointer :=
    u16FromBeBytes_toBeBytes values.urgentPointer
  -- The three fields of the shared byte.
  have dataOffset : offsetByte values >>> 4 = values.dataOffset := by
    apply UInt8.toNat_inj.mp
    have shift : (4 : UInt8).toNat = 4 := rfl
    rw [toNat_shiftRight8 _ (by decide), packed, shift]
    omega
  have flagsRaw : ((offsetByte values &&& 0x01).toUInt16 <<< 8) |||
      ((values.flagsRaw &&& 0xff).toUInt8).toUInt16 = values.flagsRaw := by
    apply UInt16.toNat_inj.mp
    rw [flagsRaw_toNat, packed, low_toNat]
    omega
  have unread : (offsetByte values >>> 1) &&& 0x07 = values.reserved := by
    apply UInt8.toNat_inj.mp
    rw [reserved_toNat, packed]
    omega
  rw [valuesOf, srcPort, dstPort, seqNumber, ackNumber, high, low, dataOffset, flagsRaw, unread,
    windowSize, checksum, urgentPointer]

theorem fixedValues_encodeFixed {values : SegmentValues} (rest : Bytes) (fits : FixedFits values) :
    fixedValues (encodeFixed values ++ rest) = .ok values.toFixedValues := by
  rw [fixedValues_eq_ok (by rw [encodeFixed_length]; omega), valuesOf_encodeFixed rest fits]

/-- The fixed parts of TCP headers as records. -/
def recordModel : RecordModel Tcp where
  Setter := Setter
  apply := Setter.apply
  Values := SegmentValues
  encode := encodeFixed
  Fits := FixedFits
  Seen := FixedValues
  seen := SegmentValues.toFixedValues
  getters := fixedValues
  update := update

theorem refined : recordModel.Refined where
  covers := fun bytes valid => ⟨valuesOf bytes, bytes.drop 20, fixedFits_valuesOf bytes,
    encodeFixed_valuesOf (validate_eq_ok_iff.mp valid).fixed⟩
  determined := by
    intro values values' rest rest' fits fits' same
    have read := valuesOf_encodeFixed rest fits
    have read' := valuesOf_encodeFixed rest' fits'
    exact read.symm.trans ((congrArg valuesOf same).trans read')
  reads := fun _ rest fits => fixedValues_encodeFixed rest fits
  step := fun setter _ rest fits => apply_laid rest fits setter
  keeps := fun _ _ _ rest updated fits => fits.of_update rest updated

end Tcp

/-- Behind every accepted view stands a record, and a run of the view's setters is a run of
updates of it. -/
theorem setters_update_records (bytes : Bytes) :
    (Accepts (PacketView.new Ipv4 bytes) → ∃ values rest,
      Ipv4.Fits values ∧ Ipv4.recordModel.Governs bytes values rest) ∧
    (Accepts (PacketView.new Ipv6 bytes) → ∃ values rest,
      Ipv6.Fits values ∧ Ipv6.recordModel.Governs bytes values rest) ∧
    (Accepts (PacketView.new Tcp bytes) → ∃ values rest,
      Tcp.FixedFits values ∧ Tcp.recordModel.Governs bytes values rest) ∧
    (Accepts (PacketView.new Udp bytes) → ∃ values rest,
      Udp.recordModel.Governs bytes values rest) := by
  refine ⟨fun accepted => ?_, fun accepted => ?_, fun accepted => ?_, fun accepted => ?_⟩
  · exact Ipv4.refined.governs (accepts_new_iff.mp accepted)
  · exact Ipv6.refined.governs (accepts_new_iff.mp accepted)
  · exact Tcp.refined.governs (accepts_new_iff.mp accepted)
  · obtain ⟨values, rest, _, governs⟩ := Udp.refined.governs (accepts_new_iff.mp accepted)
    exact ⟨values, rest, governs⟩

/-- The record behind a header without options, under a run that returns and one that
asserts. -/
theorem setters_update_records_bareHeader :
    ∃ values rest, Tcp.encodeFixed values ++ rest = Tcp.bareHeader 0x50 ∧
      runOps Tcp.Setter.apply [.flags 0x12, .srcPort 80] ⟨Tcp.bareHeader 0x50⟩ =
        .ok (Tcp.laid rest { Tcp.withFlags values 0x12 with srcPort := 80 }) ∧
      runOps Tcp.Setter.apply [.srcPort 80, .dataOffset 4] ⟨Tcp.bareHeader 0x50⟩ =
        .error .assertion := by
  have accepted : Accepts (PacketView.new Tcp (Tcp.bareHeader 0x50)) := by decide
  obtain ⟨values, rest, _, governs⟩ := (setters_update_records (Tcp.bareHeader 0x50)).2.2.1 accepted
  exact ⟨values, rest, governs.laid, governs.runs [.flags 0x12, .srcPort 80],
    governs.runs [.srcPort 80, .dataOffset 4]⟩

end Packet

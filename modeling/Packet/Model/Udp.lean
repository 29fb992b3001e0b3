/-
# UDP

The length field delimits the datagram inside the slice. It bounds the payload
and goes into the pseudo-header; the checksum itself runs over the whole slice.
-/

import Packet.Model.Transport

namespace Packet

open Rust Checksum

/-- The protocol marker. -/
inductive Udp

namespace Udp

/-- The length of the header. -/
abbrev headerLength : ℕ := 8

/-- The length field is tested against the header and against the slice. -/
def validate (bytes : Bytes) : Exec (Result Unit) := do
  if bytes.length < headerLength then
    return .error (.tooShort headerLength bytes.length)
  let length := (← readU16 bytes 4).toNat
  if length < headerLength then
    return .error (.invalidUdpLength headerLength length)
  -- The slice may go on after the datagram, but must hold all of it.
  if length > bytes.length then
    return .error (.tooShort length bytes.length)
  return .ok ()

/-- Every header is as long. -/
def headerLen (_ : Bytes) : Exec ℕ := return headerLength

/-- `impl PacketSpec for Udp` -/
instance : PacketSpec Udp where
  validate := validate
  headerLen := headerLen

end Udp

/-! ## The `UdpPacket` trait -/

namespace UdpPacket

/-- The source port. -/
def srcPort (bytes : Bytes) : Exec UInt16 := readU16 bytes 0

/-- The destination port. -/
def dstPort (bytes : Bytes) : Exec UInt16 := readU16 bytes 2

/-- The length of the datagram, header included, as it gives it. -/
def length (bytes : Bytes) : Exec UInt16 := readU16 bytes 4

/-- The stored checksum of the datagram. -/
def checksum (bytes : Bytes) : Exec UInt16 := readU16 bytes 6

/-- What follows the header, up to the length field. -/
def payload (bytes : Bytes) : Exec Bytes := do
  -- The field may have been set since it was validated.
  let end_ := min (← length bytes).toNat bytes.length
  range bytes Udp.headerLength end_

/-- The header fields the trait reads. -/
inductive Field
  | srcPort
  | dstPort
  | length
  | checksum
  deriving DecidableEq

/-- The getter of a field. -/
def Field.get : Field → Bytes → Exec UInt16
  | .srcPort => UdpPacket.srcPort
  | .dstPort => UdpPacket.dstPort
  | .length => UdpPacket.length
  | .checksum => UdpPacket.checksum

/-- The methods of the trait, the getters of the fields among them. -/
inductive Accessor
  | field (f : Field)
  | payload

/-- The type a method returns. -/
abbrev Accessor.Value : Accessor → Type
  | .field _ => UInt16
  | .payload => Bytes

/-- The call of a method. -/
def Accessor.get : (accessor : Accessor) → Bytes → Exec accessor.Value
  | .field f => f.get
  | .payload => UdpPacket.payload

/-- The methods of the trait, for every protocol to be spoken of alike. -/
instance : PacketTrait Udp where
  Accessor := Accessor
  Value := Accessor.Value
  get := Accessor.get

/-- Every field lies in the first 8 bytes. -/
theorem Field.get_returns (field : Field) {bytes : Bytes} (fixed : 8 ≤ bytes.length) :
    Returns (field.get bytes) := by
  cases field <;> exact .of_eq_ok (readU16_eq_ok (by omega))

end UdpPacket

namespace Udp

/-! ## Checksums -/

/-- The protocol number in the pseudo-header. -/
abbrev udpProtocol : UInt8 := 17

/-- Where the checksum is in the datagram. -/
abbrev udpChecksumOffset : ℕ := 6

/-- The length that goes into the pseudo-header. -/
def udpLenFromHeader (udpBytes : Bytes) : Exec ℕ := do
  return (← readU16 udpBytes 4).toNat

/-- The checksum over an IPv4 pseudo-header. -/
def udpChecksumIpv4 (src dst : Ipv4Addr) (udpBytes : Bytes) : Exec UInt16 := do
  -- The length is that of the field; the sum runs over all of `udpBytes`.
  let udpLen ← udpLenFromHeader udpBytes
  let pseudo ← buildPseudoIpv4 src dst udpProtocol (.ofNat udpLen)
  transportChecksumWithPseudoHeader pseudo udpBytes udpChecksumOffset

/-- The checksum over an IPv6 pseudo-header. -/
def udpChecksumIpv6 (src dst : Ipv6Addr) (udpBytes : Bytes) : Exec UInt16 := do
  let udpLen ← udpLenFromHeader udpBytes
  let pseudo ← buildPseudoIpv6 src dst udpProtocol (.ofNat udpLen)
  transportChecksumWithPseudoHeader pseudo udpBytes udpChecksumOffset

/-- A stored checksum of `0` means "not computed" over IPv4 and is not checked. -/
def newVerifiedIpv4 (bytes : Bytes) (src dst : Ipv4Addr) : Exec (Result (PacketView Udp)) := do
  match ← PacketView.new Udp bytes with
  | .error error => return .error error
  | .ok view =>
    if (← UdpPacket.checksum view.bytes) = 0 then
      return .ok view
    let expected ← udpChecksumIpv4 src dst bytes
    if expected ≠ (← UdpPacket.checksum view.bytes) then
      return .error (.invalidChecksum expected (← UdpPacket.checksum view.bytes))
    return .ok view

/-- Over IPv6 a stored zero is compared like any other value. -/
def newVerifiedIpv6 (bytes : Bytes) (src dst : Ipv6Addr) : Exec (Result (PacketView Udp)) :=
  newVerifiedWith Udp UdpPacket.checksum (udpChecksumIpv6 src dst) bytes

/-! ## Setters -/

/-- Stores the source port. -/
def setSrcPort (view : PacketViewMut Udp) (value : UInt16) : Exec (PacketViewMut Udp) :=
  view.copyFromSlice 0 2 (u16ToBeBytes value)

/-- Stores the destination port. -/
def setDstPort (view : PacketViewMut Udp) (value : UInt16) : Exec (PacketViewMut Udp) :=
  view.copyFromSlice 2 4 (u16ToBeBytes value)

/-- Stores any length, whatever the slice holds. -/
def setLength (view : PacketViewMut Udp) (value : UInt16) : Exec (PacketViewMut Udp) :=
  view.copyFromSlice 4 6 (u16ToBeBytes value)

/-- Stores any checksum, zero included. -/
def setChecksum (view : PacketViewMut Udp) (value : UInt16) : Exec (PacketViewMut Udp) :=
  view.copyFromSlice 6 8 (u16ToBeBytes value)

/-- Stores the checksum over IPv4 of the datagram as it is now, whatever comes out. -/
def computeAndSetChecksumIpv4 (view : PacketViewMut Udp) (src dst : Ipv4Addr) :
    Exec (PacketViewMut Udp) := do
  let cksum ← udpChecksumIpv4 src dst view.bytes
  setChecksum view cksum

/-- Stores the checksum over IPv6 of the datagram as it is now, whatever comes out. -/
def computeAndSetChecksumIpv6 (view : PacketViewMut Udp) (src dst : Ipv6Addr) :
    Exec (PacketViewMut Udp) := do
  let cksum ← udpChecksumIpv6 src dst view.bytes
  setChecksum view cksum

/-- A call of one of the view's setters. -/
inductive Setter
  | srcPort (value : UInt16)
  | dstPort (value : UInt16)
  | length (value : UInt16)
  | checksum (value : UInt16)
  | computeAndSetChecksumIpv4 (src dst : Ipv4Addr)
  | computeAndSetChecksumIpv6 (src dst : Ipv6Addr)

/-- The method a call is of. -/
def Setter.apply : Setter → PacketViewMut Udp → Exec (PacketViewMut Udp)
  | .srcPort value, view => setSrcPort view value
  | .dstPort value, view => setDstPort view value
  | .length value, view => setLength view value
  | .checksum value, view => setChecksum view value
  | .computeAndSetChecksumIpv4 src dst, view => Udp.computeAndSetChecksumIpv4 view src dst
  | .computeAndSetChecksumIpv6 src dst, view => Udp.computeAndSetChecksumIpv6 view src dst

/-- The field a setter is on. -/
def Setter.field : Setter → UdpPacket.Field
  | .srcPort _ => .srcPort
  | .dstPort _ => .dstPort
  | .length _ => .length
  | .checksum _ => .checksum
  | .computeAndSetChecksumIpv4 _ _ => .checksum
  | .computeAndSetChecksumIpv6 _ _ => .checksum

/-- The setters that store their argument. -/
def Setter.Plain : Setter → Prop
  | .computeAndSetChecksumIpv4 _ _ => False
  | .computeAndSetChecksumIpv6 _ _ => False
  | _ => True

/-- Setters never change the length of the buffer. -/
theorem Setter.apply_length {setter : Setter} {view view' : PacketViewMut Udp}
    (written : setter.apply view = .ok view') : view'.bytes.length = view.bytes.length := by
  cases setter with
  | srcPort value => exact PacketViewMut.copyFromSlice_length written
  | dstPort value => exact PacketViewMut.copyFromSlice_length written
  | length value => exact PacketViewMut.copyFromSlice_length written
  | checksum value => exact PacketViewMut.copyFromSlice_length written
  | computeAndSetChecksumIpv4 src dst =>
    obtain ⟨cksum, _, written⟩ := bind_eq_ok.mp written
    exact PacketViewMut.copyFromSlice_length written
  | computeAndSetChecksumIpv6 src dst =>
    obtain ⟨cksum, _, written⟩ := bind_eq_ok.mp written
    exact PacketViewMut.copyFromSlice_length written

/-! ## What the validator accepts -/

/-- The slices the validator accepts. -/
structure WellFormed (bytes : Bytes) : Prop where
  fixed : 8 ≤ bytes.length
  header : 8 ≤ (wordAt bytes 4).toNat
  fits : (wordAt bytes 4).toNat ≤ bytes.length

/-- The checks of the validator, in their order. -/
theorem validate_eq (bytes : Bytes) :
    validate bytes =
      if bytes.length < 8 then .ok (.error (.tooShort 8 bytes.length))
      else if (wordAt bytes 4).toNat < 8 then
        .ok (.error (.invalidUdpLength 8 (wordAt bytes 4).toNat))
      else if bytes.length < (wordAt bytes 4).toNat then
        .ok (.error (.tooShort (wordAt bytes 4).toNat bytes.length))
      else .ok (.ok ()) := by
  by_cases short : bytes.length < 8
  · rw [if_pos short]
    exact if_pos short
  · rw [if_neg short, validate, if_neg short, readU16_eq_ok (by omega)]
    rfl

theorem validate_returns (bytes : Bytes) : Returns (validate bytes) := by
  rw [validate_eq]
  exact check_returns (check_returns (check_returns (returns_ok _)))

theorem validate_eq_ok_iff {bytes : Bytes} :
    validate bytes = .ok (.ok ()) ↔ WellFormed bytes := by
  simp only [validate_eq, check_eq_ok, Nat.not_lt, and_true]
  constructor
  · rintro ⟨fixed, header, fits⟩
    exact ⟨fixed, header, fits⟩
  · rintro ⟨fixed, header, fits⟩
    exact ⟨fixed, header, fits⟩

/-- Trailing bytes keep a datagram well-formed. -/
theorem WellFormed.append {bytes : Bytes} (wellFormed : WellFormed bytes) (trailing : Bytes) :
    WellFormed (bytes ++ trailing) := by
  have fixed := wellFormed.fixed
  have field : wordAt (bytes ++ trailing) 4 = wordAt bytes 4 := wordAt_append (by omega) trailing
  have fits := wellFormed.fits
  refine ⟨?_, ?_, ?_⟩
  · rw [List.length_append]
    omega
  · rw [field]
    exact wellFormed.header
  · rw [field, List.length_append]
    omega

theorem length_eq_ok {bytes : Bytes} (fixed : 8 ≤ bytes.length) :
    UdpPacket.length bytes = .ok (wordAt bytes 4) := readU16_eq_ok (by omega)

theorem checksum_eq_ok {bytes : Bytes} (fixed : 8 ≤ bytes.length) :
    UdpPacket.checksum bytes = .ok (wordAt bytes 6) := readU16_eq_ok (by omega)

theorem payload_eq_ok {bytes : Bytes} (fixed : 8 ≤ bytes.length)
    (header : 8 ≤ (wordAt bytes 4).toNat) :
    UdpPacket.payload bytes =
      .ok ((bytes.take (min (wordAt bytes 4).toNat bytes.length)).drop 8) := by
  rw [UdpPacket.payload, length_eq_ok fixed, ok_bind]
  exact range_eq_ok (Nat.le_min.mpr ⟨header, fixed⟩) (Nat.min_le_right _ _)

/-- A datagram is readable exactly when its length field covers the header: the
payload ends at the length field or where the slice does, whichever is first. -/
theorem readable_iff {bytes : Bytes} (fixed : 8 ≤ bytes.length) :
    Readable Udp bytes ↔ 8 ≤ (wordAt bytes 4).toNat := by
  constructor
  · -- A length below 8 ends the payload before its start.
    intro readable
    by_contra short
    have payload : UdpPacket.payload bytes = .error .index := by
      rw [UdpPacket.payload, length_eq_ok fixed, ok_bind, range, if_neg]
      rintro ⟨order, _⟩
      exact short (Nat.le_trans order (Nat.min_le_left _ _))
    have returns : Returns (UdpPacket.payload bytes) := readable .payload
    rw [payload] at returns
    exact not_returns_error _ returns
  · intro header accessor
    cases accessor with
    | field f => exact f.get_returns fixed
    | payload => exact .of_eq_ok (payload_eq_ok fixed header)

/-! ## Values of the checksums -/

/-- The exact sum the IPv4 checksum is computed from. -/
def totalIpv4 (src dst : Ipv4Addr) (bytes : Bytes) : ℕ :=
  wordSum (pseudoIpv4 src dst udpProtocol (wordAt bytes 4)) + sumOutside bytes 6

/-- The exact sum the IPv6 checksum is computed from. -/
def totalIpv6 (src dst : Ipv6Addr) (bytes : Bytes) : ℕ :=
  wordSum (pseudoIpv6 src dst udpProtocol (.ofNat (wordAt bytes 4).toNat)) + sumOutside bytes 6

theorem totalIpv4_pos (src dst : Ipv4Addr) (bytes : Bytes) : 0 < totalIpv4 src dst bytes := by
  rw [totalIpv4, wordSum_pseudoIpv4, show udpProtocol.toNat = 17 from rfl]
  omega

theorem totalIpv6_pos (src dst : Ipv6Addr) (bytes : Bytes) : 0 < totalIpv6 src dst bytes := by
  rw [totalIpv6, wordSum_pseudoIpv6, show udpProtocol.toNat = 17 from rfl]
  omega

theorem udpChecksumIpv4_eq (src dst : Ipv4Addr) {bytes : Bytes} (fixed : 8 ≤ bytes.length) :
    udpChecksumIpv4 src dst bytes =
      if sumOutside bytes 6 < 2 ^ 32 then .ok (checksumOf (totalIpv4 src dst bytes))
      else .error .overflow := by
  have length : UInt16.ofNat (wordAt bytes 4).toNat = wordAt bytes 4 := UInt16.ofNat_toNat
  rw [udpChecksumIpv4, udpLenFromHeader, readU16_eq_ok (by omega)]
  simp only [ok_bind, pure_eq_ok, buildPseudoIpv4_eq, length]
  exact transportChecksum_eq (wordSum_lt (by simp)) (by simp only [udpChecksumOffset]; omega) rfl

theorem udpChecksumIpv6_eq (src dst : Ipv6Addr) {bytes : Bytes} (fixed : 8 ≤ bytes.length) :
    udpChecksumIpv6 src dst bytes =
      if sumOutside bytes 6 < 2 ^ 32 then .ok (checksumOf (totalIpv6 src dst bytes))
      else .error .overflow := by
  rw [udpChecksumIpv6, udpLenFromHeader, readU16_eq_ok (by omega)]
  simp only [ok_bind, pure_eq_ok, buildPseudoIpv6_eq]
  exact transportChecksum_eq (wordSum_lt (by simp)) (by simp only [udpChecksumOffset]; omega) rfl

section Stored

variable {bytes : Bytes}

/-- Overwriting the checksum field keeps a datagram well-formed. -/
theorem WellFormed.splice_checksum (wellFormed : WellFormed bytes) (value : UInt16) :
    WellFormed (splice bytes 6 (u16ToBeBytes value)) := by
  have fixed := wellFormed.fixed
  have size : (splice bytes 6 (u16ToBeBytes value)).length = bytes.length :=
    length_splice_word (by omega) value
  have field : wordAt (splice bytes 6 (u16ToBeBytes value)) 4 = wordAt bytes 4 :=
    wordAt_splice_of_outside (by omega) (by omega)
  refine ⟨?_, ?_, ?_⟩
  · rwa [size]
  · rw [field]
    exact wellFormed.header
  · rw [field, size]
    exact wellFormed.fits

/-- The length field is not the one overwritten. -/
theorem udpLenFromHeader_splice (fixed : 8 ≤ bytes.length) (value : UInt16) :
    udpLenFromHeader (splice bytes 6 (u16ToBeBytes value)) = udpLenFromHeader bytes := by
  have size : (splice bytes 6 (u16ToBeBytes value)).length = bytes.length :=
    length_splice_word (by omega) value
  rw [udpLenFromHeader, readU16_eq_ok (by omega),
    wordAt_splice_of_outside (by omega) (by omega), udpLenFromHeader, readU16_eq_ok (by omega)]

/-- The computed checksum does not depend on the stored one. -/
theorem udpChecksumIpv4_splice (src dst : Ipv4Addr) (fixed : 8 ≤ bytes.length)
    (value : UInt16) : udpChecksumIpv4 src dst (splice bytes 6 (u16ToBeBytes value)) =
      udpChecksumIpv4 src dst bytes := by
  have inside : udpChecksumOffset + 2 ≤ bytes.length := by
    simp only [udpChecksumOffset]
    omega
  simp only [udpChecksumIpv4, udpLenFromHeader_splice fixed,
    transportChecksum_splice _ inside rfl]

theorem udpChecksumIpv6_splice (src dst : Ipv6Addr) (fixed : 8 ≤ bytes.length)
    (value : UInt16) : udpChecksumIpv6 src dst (splice bytes 6 (u16ToBeBytes value)) =
      udpChecksumIpv6 src dst bytes := by
  have inside : udpChecksumOffset + 2 ≤ bytes.length := by
    simp only [udpChecksumOffset]
    omega
  simp only [udpChecksumIpv6, udpLenFromHeader_splice fixed,
    transportChecksum_splice _ inside rfl]

theorem segmentChecksumIpv4 (src dst : Ipv4Addr) (fixed : 8 ≤ bytes.length) :
    SegmentChecksum (udpChecksumIpv4 src dst)
      (pseudoIpv4 src dst udpProtocol (wordAt bytes 4)) bytes 6 where
  aligned := by simp
  small := by simp
  even := rfl
  inside := fixed
  nonzero := totalIpv4_pos src dst bytes
  value := udpChecksumIpv4_eq src dst fixed
  unread := udpChecksumIpv4_splice src dst fixed

theorem segmentChecksumIpv6 (src dst : Ipv6Addr) (fixed : 8 ≤ bytes.length) :
    SegmentChecksum (udpChecksumIpv6 src dst)
      (pseudoIpv6 src dst udpProtocol (.ofNat (wordAt bytes 4).toNat)) bytes 6 where
  aligned := by simp
  small := by simp
  even := rfl
  inside := fixed
  nonzero := totalIpv6_pos src dst bytes
  value := udpChecksumIpv6_eq src dst fixed
  unread := udpChecksumIpv6_splice src dst fixed

end Stored

/-! ## Verification -/

/-- The checksum field lies inside accepted slices. -/
theorem checksum_inside (bytes : Bytes)
    (valid : PacketSpec.validate Udp bytes = .ok (.ok ())) : 6 + 2 ≤ bytes.length :=
  (validate_eq_ok_iff.mp valid).fixed

/-- The checksum getter returns on accepted slices. -/
theorem checksum_of_valid {bytes : Bytes}
    (valid : PacketSpec.validate Udp bytes = .ok (.ok ())) :
    UdpPacket.checksum bytes = .ok (wordAt bytes 6) :=
  checksum_eq_ok (validate_eq_ok_iff.mp valid).fixed

/-- Over IPv4 verification recomputes unless the field says "not computed". -/
theorem newVerifiedIpv4_eq {bytes : Bytes} (wellFormed : WellFormed bytes) (src dst : Ipv4Addr) :
    newVerifiedIpv4 bytes src dst =
      if wordAt bytes 6 = 0 then .ok (.ok ⟨bytes, validate_eq_ok_iff.mpr wellFormed⟩)
      else newVerifiedWith Udp UdpPacket.checksum (udpChecksumIpv4 src dst) bytes := by
  have valid : PacketSpec.validate Udp bytes = .ok (.ok ()) := validate_eq_ok_iff.mpr wellFormed
  rw [newVerifiedIpv4, newVerifiedWith, PacketView.new_of_valid valid, ok_bind, ok_bind]
  dsimp only
  rw [checksum_eq_ok wellFormed.fixed, ok_bind]
  rfl

theorem accepts_newVerifiedIpv4_iff {bytes : Bytes} {src dst : Ipv4Addr} :
    Accepts (newVerifiedIpv4 bytes src dst) ↔
      WellFormed bytes ∧
        (wordAt bytes 6 = 0 ∨ udpChecksumIpv4 src dst bytes = .ok (wordAt bytes 6)) := by
  have verified (wellFormed : WellFormed bytes) : Accepts (newVerifiedIpv4 bytes src dst) ↔
      wordAt bytes 6 = 0 ∨ udpChecksumIpv4 src dst bytes = .ok (wordAt bytes 6) := by
    rw [newVerifiedIpv4_eq wellFormed]
    -- A zero field ends verification before anything is computed.
    by_cases absent : wordAt bytes 6 = 0
    · rw [if_pos absent]
      exact iff_of_true (accepts_ok_ok _) (.inl absent)
    · rw [if_neg absent, accepts_newVerifiedWith_iff checksum_of_valid, or_iff_right absent]
      exact and_iff_right (validate_eq_ok_iff.mpr wellFormed)
  constructor
  · intro accepted
    have wellFormed : WellFormed bytes :=
      validate_eq_ok_iff.mp (valid_of_accepts accepted fun _ => rfl)
    exact ⟨wellFormed, (verified wellFormed).mp accepted⟩
  · rintro ⟨wellFormed, checks⟩
    exact (verified wellFormed).mpr checks

theorem accepts_newVerifiedIpv6_iff {bytes : Bytes} {src dst : Ipv6Addr} :
    Accepts (newVerifiedIpv6 bytes src dst) ↔
      WellFormed bytes ∧ udpChecksumIpv6 src dst bytes = .ok (wordAt bytes 6) := by
  rw [newVerifiedIpv6, accepts_newVerifiedWith_iff checksum_of_valid]
  exact and_congr_left' validate_eq_ok_iff

end Udp

end Packet

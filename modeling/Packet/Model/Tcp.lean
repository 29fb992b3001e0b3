/-
# TCP

Validation, the getters and setters of the header, and the checksum over the
segment. The segment length of the pseudo-header is the length of the slice, as
a `u16` over IPv4 and as a `u32` over IPv6.
-/

import Packet.Model.TcpOptions
import Packet.Model.Transport

namespace Packet

open Rust Checksum

/-- The protocol marker. -/
inductive Tcp

namespace Tcp

/-- The length of a header without options. -/
abbrev minHeaderLen : ℕ := 20

/-- The slice is tested against the least length and the one the data offset gives. -/
def validate (bytes : Bytes) : Exec (Result Unit) := do
  if bytes.length < minHeaderLen then
    return .error (.tooShort minHeaderLen bytes.length)
  let dataOffset := (← index bytes 12) >>> 4
  if dataOffset < 5 then
    return .error (.invalidTcpHeaderLength dataOffset)
  let headerLen := dataOffset.toNat * 4
  if bytes.length < headerLen then
    return .error (.tooShort headerLen bytes.length)
  return .ok ()

/-- The assertion asks for more than the minimum header, which a header without
options and payload is not. -/
def headerLen (bytes : Bytes) : Exec ℕ := do
  debugAssert (bytes.length > minHeaderLen)
  return ((← index bytes 12) >>> 4).toNat * 4

/-- `impl PacketSpec for Tcp` -/
instance : PacketSpec Tcp where
  validate := validate
  headerLen := headerLen

/-! ## Flags -/

/-- The flag that is in byte 12. -/
abbrev ns : UInt16 := 0b100000000

/-- The congestion window was reduced; this and the flags below are the bits of byte 13. -/
abbrev cwr : UInt16 := 0b010000000

/-- The echo of a congestion mark. -/
abbrev ece : UInt16 := 0b001000000

/-- The urgent pointer counts. -/
abbrev urg : UInt16 := 0b000100000

/-- The acknowledgment number counts. -/
abbrev ack : UInt16 := 0b000010000

/-- The data is to be handed on. -/
abbrev psh : UInt16 := 0b000001000

/-- The connection is reset. -/
abbrev rst : UInt16 := 0b000000100

/-- The connection is opened. -/
abbrev syn : UInt16 := 0b000000010

/-- The sender has no more data. -/
abbrev fin : UInt16 := 0b000000001

end Tcp

/-! ## The `TcpPacket` trait -/

namespace TcpPacket

/-- The source port. -/
def srcPort (bytes : Bytes) : Exec UInt16 := readU16 bytes 0

/-- The destination port. -/
def dstPort (bytes : Bytes) : Exec UInt16 := readU16 bytes 2

/-- The sequence number. -/
def seqNumber (bytes : Bytes) : Exec UInt32 := readU32 bytes 4

/-- The acknowledgment number. -/
def ackNumber (bytes : Bytes) : Exec UInt32 := readU32 bytes 8

/-- The upper half of byte 12: the header length in units of four bytes. -/
def dataOffset (bytes : Bytes) : Exec UInt8 := do
  return (← index bytes 12) >>> 4

/-- The header length in bytes; nothing is asserted here. -/
def headerLen (bytes : Bytes) : Exec ℕ := do
  return (← dataOffset bytes).toNat * 4

/-- The nine flags. -/
def flagsRaw (bytes : Bytes) : Exec UInt16 := do
  -- NS is in byte 12, below the reserved bits; the other eight flags are byte 13.
  let high := ((← index bytes 12) &&& 0x01).toUInt16
  let low := (← index bytes 13).toUInt16
  return (high <<< 8) ||| low

/-- `self.flags_raw() & mask != 0` -/
def hasFlag (mask : UInt16) (bytes : Bytes) : Exec Bool := do
  return (← flagsRaw bytes) &&& mask != 0

/-- Whether NS is set. -/
def isNs : Bytes → Exec Bool := hasFlag Tcp.ns

/-- Whether CWR is set. -/
def isCwr : Bytes → Exec Bool := hasFlag Tcp.cwr

/-- Whether ECE is set. -/
def isEce : Bytes → Exec Bool := hasFlag Tcp.ece

/-- Whether URG is set. -/
def isUrg : Bytes → Exec Bool := hasFlag Tcp.urg

/-- Whether ACK is set. -/
def isAck : Bytes → Exec Bool := hasFlag Tcp.ack

/-- Whether PSH is set. -/
def isPsh : Bytes → Exec Bool := hasFlag Tcp.psh

/-- Whether RST is set. -/
def isRst : Bytes → Exec Bool := hasFlag Tcp.rst

/-- Whether SYN is set. -/
def isSyn : Bytes → Exec Bool := hasFlag Tcp.syn

/-- Whether FIN is set. -/
def isFin : Bytes → Exec Bool := hasFlag Tcp.fin

/-- The window, not scaled. -/
def windowSize (bytes : Bytes) : Exec UInt16 := readU16 bytes 14

/-- The stored checksum of the segment. -/
def checksum (bytes : Bytes) : Exec UInt16 := readU16 bytes 16

/-- The urgent pointer. -/
def urgentPointer (bytes : Bytes) : Exec UInt16 := readU16 bytes 18

/-- The iterator over the options, before its first call. -/
def options (bytes : Bytes) : Exec TcpOptions := do
  let remaining ← range bytes Tcp.minHeaderLen (← headerLen bytes)
  return { remaining, errored := false, done := false }

/-- The options as bytes. -/
def optionsRaw (bytes : Bytes) : Exec Bytes := do
  range bytes Tcp.minHeaderLen (← headerLen bytes)

/-- What follows the header. -/
def payload (bytes : Bytes) : Exec Bytes := do
  -- A segment carries no length of its own; it ends with the slice.
  rangeFrom bytes (← headerLen bytes)

/-- The header fields the trait reads. -/
inductive Field
  | srcPort
  | dstPort
  | seqNumber
  | ackNumber
  | dataOffset
  | flagsRaw
  | windowSize
  | checksum
  | urgentPointer
  deriving DecidableEq

/-- The type a field is read as. -/
abbrev Field.Value : Field → Type
  | .seqNumber => UInt32
  | .ackNumber => UInt32
  | .dataOffset => UInt8
  | _ => UInt16

/-- The getter of a field. -/
def Field.get : (field : Field) → Bytes → Exec field.Value
  | .srcPort => TcpPacket.srcPort
  | .dstPort => TcpPacket.dstPort
  | .seqNumber => TcpPacket.seqNumber
  | .ackNumber => TcpPacket.ackNumber
  | .dataOffset => TcpPacket.dataOffset
  | .flagsRaw => TcpPacket.flagsRaw
  | .windowSize => TcpPacket.windowSize
  | .checksum => TcpPacket.checksum
  | .urgentPointer => TcpPacket.urgentPointer

/-- The methods of the trait, the getters of the fields among them. -/
inductive Accessor
  | field (f : Field)
  | headerLen
  | isNs
  | isCwr
  | isEce
  | isUrg
  | isAck
  | isPsh
  | isRst
  | isSyn
  | isFin
  | options
  | optionsRaw
  | payload

/-- The type a method returns; the iterator is drained. -/
abbrev Accessor.Value : Accessor → Type
  | .field f => f.Value
  | .headerLen => ℕ
  | .options => List (Result TcpOption)
  | .optionsRaw => Bytes
  | .payload => Bytes
  | _ => Bool

/-- The call of a method. -/
def Accessor.get : (accessor : Accessor) → Bytes → Exec accessor.Value
  | .field f => f.get
  | .headerLen => TcpPacket.headerLen
  | .isNs => TcpPacket.isNs
  | .isCwr => TcpPacket.isCwr
  | .isEce => TcpPacket.isEce
  | .isUrg => TcpPacket.isUrg
  | .isAck => TcpPacket.isAck
  | .isPsh => TcpPacket.isPsh
  | .isRst => TcpPacket.isRst
  | .isSyn => TcpPacket.isSyn
  | .isFin => TcpPacket.isFin
  | .options => fun bytes => do (← TcpPacket.options bytes).collect
  | .optionsRaw => TcpPacket.optionsRaw
  | .payload => TcpPacket.payload

/-- The methods of the trait, for every protocol to be spoken of alike. -/
instance : PacketTrait Tcp where
  Accessor := Accessor
  Value := Accessor.Value
  get := Accessor.get

theorem flagsRaw_returns {bytes : Bytes} (fixed : 20 ≤ bytes.length) :
    Returns (flagsRaw bytes) := by
  rw [flagsRaw, index_byteAt (by omega), ok_bind, index_byteAt (by omega), ok_bind]
  exact returns_ok _

theorem hasFlag_returns (mask : UInt16) {bytes : Bytes} (fixed : 20 ≤ bytes.length) :
    Returns (hasFlag mask bytes) :=
  (flagsRaw_returns fixed).bind fun _ _ => returns_ok _

/-- Every field lies in the first 20 bytes. -/
theorem Field.get_returns (field : Field) {bytes : Bytes} (fixed : 20 ≤ bytes.length) :
    Returns (field.get bytes) := by
  cases field with
  | srcPort => exact .of_eq_ok (readU16_eq_ok (by omega))
  | dstPort => exact .of_eq_ok (readU16_eq_ok (by omega))
  | seqNumber => exact readU32_returns (by omega)
  | ackNumber => exact readU32_returns (by omega)
  | dataOffset =>
    have read : Returns (index bytes 12) := .of_eq_ok (index_byteAt (by omega))
    exact read.bind fun _ _ => returns_ok _
  | flagsRaw => exact flagsRaw_returns fixed
  | windowSize => exact .of_eq_ok (readU16_eq_ok (by omega))
  | checksum => exact .of_eq_ok (readU16_eq_ok (by omega))
  | urgentPointer => exact .of_eq_ok (readU16_eq_ok (by omega))

end TcpPacket

namespace Tcp

/-! ## Checksums -/

/-- The protocol number in the pseudo-header. -/
abbrev tcpProtocol : UInt8 := 6

/-- Where the checksum is in the segment. -/
abbrev tcpChecksumOffset : ℕ := 16

/-- The checksum over an IPv4 pseudo-header. -/
def tcpChecksumIpv4 (src dst : Ipv4Addr) (tcpBytes : Bytes) : Exec UInt16 := do
  -- `as u16` keeps the low 16 bits of the length.
  let tcpLen := UInt16.ofNat tcpBytes.length
  let pseudo ← buildPseudoIpv4 src dst tcpProtocol tcpLen
  transportChecksumWithPseudoHeader pseudo tcpBytes tcpChecksumOffset

/-- The checksum over an IPv6 pseudo-header. -/
def tcpChecksumIpv6 (src dst : Ipv6Addr) (tcpBytes : Bytes) : Exec UInt16 := do
  -- `as u32` keeps the low 32 bits.
  let tcpLen := UInt32.ofNat tcpBytes.length
  let pseudo ← buildPseudoIpv6 src dst tcpProtocol tcpLen
  transportChecksumWithPseudoHeader pseudo tcpBytes tcpChecksumOffset

/-- Validation, and then the checksum between IPv4 addresses. -/
def newVerifiedIpv4 (bytes : Bytes) (src dst : Ipv4Addr) : Exec (Result (PacketView Tcp)) :=
  newVerifiedWith Tcp TcpPacket.checksum (tcpChecksumIpv4 src dst) bytes

/-- Validation, and then the checksum between IPv6 addresses. -/
def newVerifiedIpv6 (bytes : Bytes) (src dst : Ipv6Addr) : Exec (Result (PacketView Tcp)) :=
  newVerifiedWith Tcp TcpPacket.checksum (tcpChecksumIpv6 src dst) bytes

/-! ## Setters -/

/-- Stores the source port. -/
def setSrcPort (view : PacketViewMut Tcp) (value : UInt16) : Exec (PacketViewMut Tcp) :=
  view.copyFromSlice 0 2 (u16ToBeBytes value)

/-- Stores the destination port. -/
def setDstPort (view : PacketViewMut Tcp) (value : UInt16) : Exec (PacketViewMut Tcp) :=
  view.copyFromSlice 2 4 (u16ToBeBytes value)

/-- Stores the sequence number. -/
def setSeqNumber (view : PacketViewMut Tcp) (value : UInt32) : Exec (PacketViewMut Tcp) :=
  view.copyFromSlice 4 8 (u32ToBeBytes value)

/-- Stores the acknowledgment number. -/
def setAckNumber (view : PacketViewMut Tcp) (value : UInt32) : Exec (PacketViewMut Tcp) :=
  view.copyFromSlice 8 12 (u32ToBeBytes value)

/-- Stores the nine flags, of which one is in the byte of the data offset. -/
def setFlags (view : PacketViewMut Tcp) (value : UInt16) : Exec (PacketViewMut Tcp) := do
  let ns := (value >>> 8).toUInt8 &&& 0x01
  -- Of byte 12 only the data offset is kept; the three reserved bits are cleared.
  let dataOffset := (← index view.bytes 12) &&& 0xf0
  let view ← view.assign 12 (dataOffset ||| ns)
  view.assign 13 value.toUInt8

/-- Stores the data offset, in the byte of that flag. -/
def setDataOffset (view : PacketViewMut Tcp) (value : UInt8) : Exec (PacketViewMut Tcp) := do
  debugAssert (value ≥ 5)
  -- The shift drops the upper four bits of `value`.
  view.assign 12 ((value <<< 4) ||| ((← index view.bytes 12) &&& 0x0f))

/-- Stores the window. -/
def setWindowSize (view : PacketViewMut Tcp) (value : UInt16) : Exec (PacketViewMut Tcp) :=
  view.copyFromSlice 14 16 (u16ToBeBytes value)

/-- Stores any checksum, a wrong one too. -/
def setChecksum (view : PacketViewMut Tcp) (value : UInt16) : Exec (PacketViewMut Tcp) :=
  view.copyFromSlice 16 18 (u16ToBeBytes value)

/-- Stores the urgent pointer. -/
def setUrgentPointer (view : PacketViewMut Tcp) (value : UInt16) : Exec (PacketViewMut Tcp) :=
  view.copyFromSlice 18 20 (u16ToBeBytes value)

/-- Stores the checksum over IPv4 of the segment as it is now. -/
def computeAndSetChecksumIpv4 (view : PacketViewMut Tcp) (src dst : Ipv4Addr) :
    Exec (PacketViewMut Tcp) := do
  let cksum ← tcpChecksumIpv4 src dst view.bytes
  setChecksum view cksum

/-- Stores the checksum over IPv6 of the segment as it is now. -/
def computeAndSetChecksumIpv6 (view : PacketViewMut Tcp) (src dst : Ipv6Addr) :
    Exec (PacketViewMut Tcp) := do
  let cksum ← tcpChecksumIpv6 src dst view.bytes
  setChecksum view cksum

/-- A call of one of the view's setters. -/
inductive Setter
  | srcPort (value : UInt16)
  | dstPort (value : UInt16)
  | seqNumber (value : UInt32)
  | ackNumber (value : UInt32)
  | flags (value : UInt16)
  | dataOffset (value : UInt8)
  | windowSize (value : UInt16)
  | checksum (value : UInt16)
  | urgentPointer (value : UInt16)
  | computeAndSetChecksumIpv4 (src dst : Ipv4Addr)
  | computeAndSetChecksumIpv6 (src dst : Ipv6Addr)

/-- The method a call is of. -/
def Setter.apply : Setter → PacketViewMut Tcp → Exec (PacketViewMut Tcp)
  | .srcPort value, view => setSrcPort view value
  | .dstPort value, view => setDstPort view value
  | .seqNumber value, view => setSeqNumber view value
  | .ackNumber value, view => setAckNumber view value
  | .flags value, view => setFlags view value
  | .dataOffset value, view => setDataOffset view value
  | .windowSize value, view => setWindowSize view value
  | .checksum value, view => setChecksum view value
  | .urgentPointer value, view => setUrgentPointer view value
  | .computeAndSetChecksumIpv4 src dst, view => Tcp.computeAndSetChecksumIpv4 view src dst
  | .computeAndSetChecksumIpv6 src dst, view => Tcp.computeAndSetChecksumIpv6 view src dst

/-- The field a setter is on. -/
def Setter.field : Setter → TcpPacket.Field
  | .srcPort _ => .srcPort
  | .dstPort _ => .dstPort
  | .seqNumber _ => .seqNumber
  | .ackNumber _ => .ackNumber
  | .flags _ => .flagsRaw
  | .dataOffset _ => .dataOffset
  | .windowSize _ => .windowSize
  | .checksum _ => .checksum
  | .urgentPointer _ => .urgentPointer
  | .computeAndSetChecksumIpv4 _ _ => .checksum
  | .computeAndSetChecksumIpv6 _ _ => .checksum

/-- The setters that store their argument. -/
def Setter.Plain : Setter → Prop
  | .computeAndSetChecksumIpv4 _ _ => False
  | .computeAndSetChecksumIpv6 _ _ => False
  | _ => True

/-- Setters never change the length of the buffer. -/
theorem Setter.apply_length {setter : Setter} {view view' : PacketViewMut Tcp}
    (written : setter.apply view = .ok view') : view'.bytes.length = view.bytes.length := by
  cases setter with
  | srcPort value => exact PacketViewMut.copyFromSlice_length written
  | dstPort value => exact PacketViewMut.copyFromSlice_length written
  | seqNumber value => exact PacketViewMut.copyFromSlice_length written
  | ackNumber value => exact PacketViewMut.copyFromSlice_length written
  | flags value =>
    obtain ⟨old, _, written⟩ := bind_eq_ok.mp written
    obtain ⟨between, first, second⟩ := bind_eq_ok.mp written
    exact (PacketViewMut.assign_length second).trans (PacketViewMut.assign_length first)
  | dataOffset value =>
    obtain ⟨_, _, written⟩ := bind_eq_ok.mp written
    obtain ⟨old, _, written⟩ := bind_eq_ok.mp written
    exact PacketViewMut.assign_length written
  | windowSize value => exact PacketViewMut.copyFromSlice_length written
  | checksum value => exact PacketViewMut.copyFromSlice_length written
  | urgentPointer value => exact PacketViewMut.copyFromSlice_length written
  | computeAndSetChecksumIpv4 src dst =>
    obtain ⟨cksum, _, written⟩ := bind_eq_ok.mp written
    exact PacketViewMut.copyFromSlice_length written
  | computeAndSetChecksumIpv6 src dst =>
    obtain ⟨cksum, _, written⟩ := bind_eq_ok.mp written
    exact PacketViewMut.copyFromSlice_length written

/-! ## What the validator accepts -/

/-- The header length the data offset announces. -/
def headerLength (bytes : Bytes) : ℕ := (byteAt bytes 12 >>> 4).toNat * 4

/-- The slices the validator accepts. -/
structure WellFormed (bytes : Bytes) : Prop where
  fixed : 20 ≤ bytes.length
  words : 20 ≤ headerLength bytes
  header : headerLength bytes ≤ bytes.length

/-- The checks of the validator, in their order. -/
theorem validate_eq (bytes : Bytes) :
    validate bytes =
      if bytes.length < 20 then .ok (.error (.tooShort 20 bytes.length))
      else if byteAt bytes 12 >>> 4 < 5 then
        .ok (.error (.invalidTcpHeaderLength (byteAt bytes 12 >>> 4)))
      else if bytes.length < headerLength bytes then
        .ok (.error (.tooShort (headerLength bytes) bytes.length))
      else .ok (.ok ()) := by
  by_cases short : bytes.length < 20
  · rw [if_pos short]
    exact if_pos short
  · rw [if_neg short, validate, if_neg short, index_byteAt (by omega)]
    rfl

theorem validate_returns (bytes : Bytes) : Returns (validate bytes) := by
  rw [validate_eq]
  exact check_returns (check_returns (check_returns (returns_ok _)))

theorem validate_eq_ok_iff {bytes : Bytes} :
    validate bytes = .ok (.ok ()) ↔ WellFormed bytes := by
  -- The source compares words where the condition compares bytes.
  have words : byteAt bytes 12 >>> 4 < 5 ↔ headerLength bytes < 20 := by
    rw [UInt8.lt_iff_toNat_lt, headerLength]
    simp only [UInt8.reduceToNat]
    omega
  simp only [validate_eq, check_eq_ok, words, Nat.not_lt, and_true]
  constructor
  · rintro ⟨fixed, enough, header⟩
    exact ⟨fixed, enough, header⟩
  · rintro ⟨fixed, enough, header⟩
    exact ⟨fixed, enough, header⟩

/-- Trailing bytes keep a segment well-formed. -/
theorem WellFormed.append {bytes : Bytes} (wellFormed : WellFormed bytes) (trailing : Bytes) :
    WellFormed (bytes ++ trailing) := by
  obtain ⟨fixed, words, header⟩ := wellFormed
  have same : headerLength (bytes ++ trailing) = headerLength bytes := by
    rw [headerLength, byteAt_append (by omega), headerLength]
  refine ⟨?_, same ▸ words, ?_⟩
  · rw [List.length_append]
    omega
  · rw [same, List.length_append]
    omega

/-- A segment of 20 bytes, all zero but the one with the data offset. -/
def bareHeader (offsetByte : UInt8) : Bytes :=
  List.replicate 12 (0 : UInt8) ++ offsetByte :: List.replicate 7 0

theorem checksum_eq_ok {bytes : Bytes} (fixed : 20 ≤ bytes.length) :
    TcpPacket.checksum bytes = .ok (wordAt bytes 16) := readU16_eq_ok (by omega)

theorem packet_headerLen_eq_ok {bytes : Bytes} (fixed : 20 ≤ bytes.length) :
    TcpPacket.headerLen bytes = .ok (headerLength bytes) := by
  rw [TcpPacket.headerLen, TcpPacket.dataOffset, index_byteAt (by omega)]
  rfl

/-- The options region of an accepted segment. -/
theorem optionsRaw_eq_ok {bytes : Bytes} (wellFormed : WellFormed bytes) :
    TcpPacket.optionsRaw bytes = .ok ((bytes.take (headerLength bytes)).drop 20) := by
  rw [TcpPacket.optionsRaw, packet_headerLen_eq_ok wellFormed.fixed, ok_bind]
  exact range_eq_ok wellFormed.words wellFormed.header

theorem payload_eq_ok {bytes : Bytes} (wellFormed : WellFormed bytes) :
    TcpPacket.payload bytes = .ok (bytes.drop (headerLength bytes)) := by
  rw [TcpPacket.payload, packet_headerLen_eq_ok wellFormed.fixed, ok_bind]
  exact rangeFrom_eq_ok wellFormed.header

/-- The iterator starts on the options region, with no error and no `EOL` seen. -/
theorem options_eq {bytes : Bytes} {region : Bytes}
    (raw : TcpPacket.optionsRaw bytes = .ok region) :
    TcpPacket.options bytes = .ok (TcpOptions.live (region, false)) := by
  obtain ⟨headerLen, read, sliced⟩ := bind_eq_ok.mp raw
  rw [TcpPacket.options, read, ok_bind, sliced, ok_bind]
  rfl

theorem accessor_returns {bytes : Bytes} (wellFormed : WellFormed bytes)
    (accessor : TcpPacket.Accessor) : Returns (accessor.get bytes) := by
  have fixed := wellFormed.fixed
  have raw := optionsRaw_eq_ok wellFormed
  cases accessor with
  | field f => exact f.get_returns fixed
  | headerLen => exact .of_eq_ok (packet_headerLen_eq_ok fixed)
  | isNs => exact TcpPacket.hasFlag_returns ns fixed
  | isCwr => exact TcpPacket.hasFlag_returns cwr fixed
  | isEce => exact TcpPacket.hasFlag_returns ece fixed
  | isUrg => exact TcpPacket.hasFlag_returns urg fixed
  | isAck => exact TcpPacket.hasFlag_returns ack fixed
  | isPsh => exact TcpPacket.hasFlag_returns psh fixed
  | isRst => exact TcpPacket.hasFlag_returns rst fixed
  | isSyn => exact TcpPacket.hasFlag_returns syn fixed
  | isFin => exact TcpPacket.hasFlag_returns fin fixed
  | options =>
    have started : Returns (TcpPacket.options bytes) := .of_eq_ok (options_eq raw)
    -- The accessor drains the iterator that is handed out.
    refine started.bind fun iterator same => ?_
    obtain rfl := Except.ok.inj ((options_eq raw).symm.trans same)
    obtain ⟨items, t, result, walk⟩ := TcpOptions.exists_walk
      ((bytes.take (headerLength bytes)).drop 20, false)
    exact .of_eq_ok (TcpOptions.collect_eq walk)
  | optionsRaw => exact .of_eq_ok raw
  | payload => exact .of_eq_ok (payload_eq_ok wellFormed)

/-- A segment is readable exactly when its data offset covers the fixed header and
ends inside the slice. -/
theorem readable_iff {bytes : Bytes} (fixed : 20 ≤ bytes.length) :
    Readable Tcp bytes ↔ WellFormed bytes := by
  constructor
  · -- Slicing the options checks both ends of their range.
    intro readable
    have returns : Returns (TcpPacket.optionsRaw bytes) := readable .optionsRaw
    rw [TcpPacket.optionsRaw, packet_headerLen_eq_ok fixed, ok_bind] at returns
    obtain ⟨region, sliced⟩ := returns
    obtain ⟨⟨words, header⟩, _⟩ := checked_eq_ok.mp sliced
    exact ⟨fixed, words, header⟩
  · exact accessor_returns

/-! ## Values of the checksums -/

/-- The exact sum the IPv4 checksum is computed from. -/
def totalIpv4 (src dst : Ipv4Addr) (bytes : Bytes) : ℕ :=
  wordSum (pseudoIpv4 src dst tcpProtocol (.ofNat bytes.length)) + sumOutside bytes 16

/-- The exact sum the IPv6 checksum is computed from. -/
def totalIpv6 (src dst : Ipv6Addr) (bytes : Bytes) : ℕ :=
  wordSum (pseudoIpv6 src dst tcpProtocol (.ofNat bytes.length)) + sumOutside bytes 16

theorem totalIpv4_pos (src dst : Ipv4Addr) (bytes : Bytes) : 0 < totalIpv4 src dst bytes := by
  rw [totalIpv4, wordSum_pseudoIpv4, show tcpProtocol.toNat = 6 from rfl]
  omega

theorem totalIpv6_pos (src dst : Ipv6Addr) (bytes : Bytes) : 0 < totalIpv6 src dst bytes := by
  rw [totalIpv6, wordSum_pseudoIpv6, show tcpProtocol.toNat = 6 from rfl]
  omega

theorem tcpChecksumIpv4_eq (src dst : Ipv4Addr) {bytes : Bytes} (fixed : 20 ≤ bytes.length) :
    tcpChecksumIpv4 src dst bytes =
      if sumOutside bytes 16 < 2 ^ 32 then .ok (checksumOf (totalIpv4 src dst bytes))
      else .error .overflow := by
  rw [tcpChecksumIpv4, buildPseudoIpv4_eq, ok_bind]
  exact transportChecksum_eq (wordSum_lt (by simp)) (by simp only [tcpChecksumOffset]; omega) rfl

theorem tcpChecksumIpv6_eq (src dst : Ipv6Addr) {bytes : Bytes} (fixed : 20 ≤ bytes.length) :
    tcpChecksumIpv6 src dst bytes =
      if sumOutside bytes 16 < 2 ^ 32 then .ok (checksumOf (totalIpv6 src dst bytes))
      else .error .overflow := by
  rw [tcpChecksumIpv6, buildPseudoIpv6_eq, ok_bind]
  exact transportChecksum_eq (wordSum_lt (by simp)) (by simp only [tcpChecksumOffset]; omega) rfl

section Stored

variable {bytes : Bytes}

/-- Overwriting the checksum field keeps a segment well-formed. -/
theorem WellFormed.splice_checksum (wellFormed : WellFormed bytes) (value : UInt16) :
    WellFormed (splice bytes 16 (u16ToBeBytes value)) := by
  have fixed := wellFormed.fixed
  have size : (splice bytes 16 (u16ToBeBytes value)).length = bytes.length :=
    length_splice_word (by omega) value
  have words : headerLength (splice bytes 16 (u16ToBeBytes value)) = headerLength bytes := by
    rw [headerLength, byteAt_splice_of_outside (by omega) (by omega), headerLength]
  refine ⟨?_, ?_, ?_⟩
  · rwa [size]
  · rw [words]
    exact wellFormed.words
  · rw [words, size]
    exact wellFormed.header

/-- The computed checksum does not depend on the stored one. -/
theorem tcpChecksumIpv4_splice (src dst : Ipv4Addr) (fixed : 20 ≤ bytes.length)
    (value : UInt16) : tcpChecksumIpv4 src dst (splice bytes 16 (u16ToBeBytes value)) =
      tcpChecksumIpv4 src dst bytes := by
  have inside : tcpChecksumOffset + 2 ≤ bytes.length := by
    simp only [tcpChecksumOffset]
    omega
  simp only [tcpChecksumIpv4, length_splice_word inside, transportChecksum_splice _ inside rfl]

theorem tcpChecksumIpv6_splice (src dst : Ipv6Addr) (fixed : 20 ≤ bytes.length)
    (value : UInt16) : tcpChecksumIpv6 src dst (splice bytes 16 (u16ToBeBytes value)) =
      tcpChecksumIpv6 src dst bytes := by
  have inside : tcpChecksumOffset + 2 ≤ bytes.length := by
    simp only [tcpChecksumOffset]
    omega
  simp only [tcpChecksumIpv6, length_splice_word inside, transportChecksum_splice _ inside rfl]

theorem segmentChecksumIpv4 (src dst : Ipv4Addr) (fixed : 20 ≤ bytes.length) :
    SegmentChecksum (tcpChecksumIpv4 src dst)
      (pseudoIpv4 src dst tcpProtocol (.ofNat bytes.length)) bytes 16 where
  aligned := by simp
  small := by simp
  even := rfl
  inside := by omega
  nonzero := totalIpv4_pos src dst bytes
  value := tcpChecksumIpv4_eq src dst fixed
  unread := tcpChecksumIpv4_splice src dst fixed

theorem segmentChecksumIpv6 (src dst : Ipv6Addr) (fixed : 20 ≤ bytes.length) :
    SegmentChecksum (tcpChecksumIpv6 src dst)
      (pseudoIpv6 src dst tcpProtocol (.ofNat bytes.length)) bytes 16 where
  aligned := by simp
  small := by simp
  even := rfl
  inside := by omega
  nonzero := totalIpv6_pos src dst bytes
  value := tcpChecksumIpv6_eq src dst fixed
  unread := tcpChecksumIpv6_splice src dst fixed

end Stored

/-! ## Verification -/

/-- The checksum field lies inside accepted slices. -/
theorem checksum_inside (bytes : Bytes)
    (valid : PacketSpec.validate Tcp bytes = .ok (.ok ())) : 16 + 2 ≤ bytes.length :=
  Nat.le_trans (by decide) (validate_eq_ok_iff.mp valid).fixed

/-- The checksum getter returns on accepted slices. -/
theorem checksum_of_valid {bytes : Bytes}
    (valid : PacketSpec.validate Tcp bytes = .ok (.ok ())) :
    TcpPacket.checksum bytes = .ok (wordAt bytes 16) :=
  checksum_eq_ok (validate_eq_ok_iff.mp valid).fixed

theorem accepts_newVerifiedIpv4_iff {bytes : Bytes} {src dst : Ipv4Addr} :
    Accepts (newVerifiedIpv4 bytes src dst) ↔
      WellFormed bytes ∧ tcpChecksumIpv4 src dst bytes = .ok (wordAt bytes 16) := by
  rw [newVerifiedIpv4, accepts_newVerifiedWith_iff checksum_of_valid]
  exact and_congr_left' validate_eq_ok_iff

theorem accepts_newVerifiedIpv6_iff {bytes : Bytes} {src dst : Ipv6Addr} :
    Accepts (newVerifiedIpv6 bytes src dst) ↔
      WellFormed bytes ∧ tcpChecksumIpv6 src dst bytes = .ok (wordAt bytes 16) := by
  rw [newVerifiedIpv6, accepts_newVerifiedWith_iff checksum_of_valid]
  exact and_congr_left' validate_eq_ok_iff

end Tcp

end Packet

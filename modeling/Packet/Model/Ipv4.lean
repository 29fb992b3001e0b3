/-
# IPv4

Validation, the getters and setters of the header, and verification of the
header checksum. The error report of a failed verification recomputes the
checksum with a summation of its own, by index and with folding until nothing
is left to fold.
-/

import Packet.Model.Checksum
import Packet.Rust.Loop

namespace Packet

open Rust

/-- The protocol marker. -/
inductive Ipv4

namespace Ipv4

/-- The length of a header without options. -/
abbrev minPacketLen : ℕ := 20

/-- The version the validator asks for. -/
abbrev version : UInt8 := 4

/-- The header is tested for its least length, its version and its two length fields. -/
def validate (bytes : Bytes) : Exec (Result Unit) := do
  if bytes.length < minPacketLen then
    return .error (.tooShort minPacketLen bytes.length)
  let version := (← index bytes 0) >>> 4
  if version ≠ Ipv4.version then
    return .error (.invalidVersion Ipv4.version version)
  let ihlWords := (← index bytes 0) &&& 0x0f
  if ihlWords < 5 then
    return .error (.invalidIpv4HeaderLength ihlWords)
  -- The slice is measured again, now against the length the packet gives.
  let headerLen := ihlWords.toNat * 4
  if bytes.length < headerLen then
    return .error (.tooShort headerLen bytes.length)
  let totalLen := (← readU16 bytes 2).toNat
  if totalLen < headerLen then
    return .error (.invalidIpv4TotalLength headerLen totalLen)
  -- A total length beyond the end of the slice is let pass.
  return .ok ()

/-- The header length, for a view to cut its header off. -/
def headerLen (bytes : Bytes) : Exec ℕ := do
  debugAssert (!bytes.isEmpty)
  return ((← index bytes 0) &&& 0x0f).toNat * 4

/-- `impl PacketSpec for Ipv4` -/
instance : PacketSpec Ipv4 where
  validate := validate
  headerLen := headerLen

end Ipv4

/-! ## The `Ipv4Packet` trait

The trait reads `self.bytes()` only, so its methods take the bytes. -/

namespace Ipv4Packet

/-- The upper half of the first byte. -/
def version (bytes : Bytes) : Exec UInt8 := do
  return (← index bytes 0) >>> 4

/-- The header length in units of four bytes. -/
def ihlWords (bytes : Bytes) : Exec UInt8 := do
  return (← index bytes 0) &&& 0x0f

/-- The header length in bytes. -/
def headerLen (bytes : Bytes) : Exec ℕ := do
  return (← ihlWords bytes).toNat * 4

/-- The upper six bits of the second byte. -/
def dscp (bytes : Bytes) : Exec UInt8 := do
  return (← index bytes 1) >>> 2

/-- The lower two bits of the second byte. -/
def ecn (bytes : Bytes) : Exec UInt8 := do
  return (← index bytes 1) &&& 0b11

/-- The length of the packet, header included, as it gives it. -/
def totalLen (bytes : Bytes) : Exec UInt16 := readU16 bytes 2

/-- The word the fragments of a packet share. -/
def identification (bytes : Bytes) : Exec UInt16 := readU16 bytes 4

/-- The upper three bits of the word at 6. -/
def flags (bytes : Bytes) : Exec UInt8 := do
  return (← index bytes 6) >>> 5

/-- The lower 13 bits of the word at 6, in units of eight bytes. -/
def fragmentOffset (bytes : Bytes) : Exec UInt16 := do
  let raw ← readU16 bytes 6
  return raw &&& 0x1fff

/-- The time to live. -/
def ttl (bytes : Bytes) : Exec UInt8 := index bytes 8

/-- What the payload is. -/
def protocol (bytes : Bytes) : Exec UInt8 := index bytes 9

/-- The stored checksum of the header. -/
def checksum (bytes : Bytes) : Exec UInt16 := readU16 bytes 10

/-- The source address. -/
def src (bytes : Bytes) : Exec (Vector UInt8 4) := do
  return #v[← index bytes 12, ← index bytes 13, ← index bytes 14, ← index bytes 15]

/-- The destination address. -/
def dst (bytes : Bytes) : Exec (Vector UInt8 4) := do
  return #v[← index bytes 16, ← index bytes 17, ← index bytes 18, ← index bytes 19]

/-- The header after its first 20 bytes. -/
def options (bytes : Bytes) : Exec Bytes := do
  range bytes Ipv4.minPacketLen (← headerLen bytes)

/-- What follows the header, up to the total length. -/
def payload (bytes : Bytes) : Exec Bytes := do
  let headerLen ← headerLen bytes
  let totalLen := (← totalLen bytes).toNat
  -- A slice that was cut short cuts the payload short.
  let end_ := min totalLen bytes.length
  range bytes headerLen end_

/-- The header fields the trait reads. -/
inductive Field
  | version
  | ihlWords
  | dscp
  | ecn
  | totalLen
  | identification
  | flags
  | fragmentOffset
  | ttl
  | protocol
  | checksum
  | src
  | dst
  deriving DecidableEq

/-- The type a field is read as. -/
abbrev Field.Value : Field → Type
  | .totalLen => UInt16
  | .identification => UInt16
  | .fragmentOffset => UInt16
  | .checksum => UInt16
  | .src => Vector UInt8 4
  | .dst => Vector UInt8 4
  | _ => UInt8

/-- The getter of a field. -/
def Field.get : (field : Field) → Bytes → Exec field.Value
  | .version => Ipv4Packet.version
  | .ihlWords => Ipv4Packet.ihlWords
  | .dscp => Ipv4Packet.dscp
  | .ecn => Ipv4Packet.ecn
  | .totalLen => Ipv4Packet.totalLen
  | .identification => Ipv4Packet.identification
  | .flags => Ipv4Packet.flags
  | .fragmentOffset => Ipv4Packet.fragmentOffset
  | .ttl => Ipv4Packet.ttl
  | .protocol => Ipv4Packet.protocol
  | .checksum => Ipv4Packet.checksum
  | .src => Ipv4Packet.src
  | .dst => Ipv4Packet.dst

/-- The methods of the trait, the getters of the fields among them. -/
inductive Accessor
  | field (f : Field)
  | headerLen
  | options
  | payload

/-- The type a method returns. -/
abbrev Accessor.Value : Accessor → Type
  | .field f => f.Value
  | .headerLen => ℕ
  | .options => Bytes
  | .payload => Bytes

/-- The call of a method. -/
def Accessor.get : (accessor : Accessor) → Bytes → Exec accessor.Value
  | .field f => f.get
  | .headerLen => Ipv4Packet.headerLen
  | .options => Ipv4Packet.options
  | .payload => Ipv4Packet.payload

/-- The methods of the trait, for every protocol to be spoken of alike. -/
instance : PacketTrait Ipv4 where
  Accessor := Accessor
  Value := Accessor.Value
  get := Accessor.get

/-- Every field lies in the first 20 bytes. -/
theorem Field.get_returns (field : Field) {bytes : Bytes} (fixed : 20 ≤ bytes.length) :
    Returns (field.get bytes) := by
  cases field <;>
    simp (disch := omega) only [Field.get, Ipv4Packet.version, Ipv4Packet.ihlWords,
      Ipv4Packet.dscp, Ipv4Packet.ecn, Ipv4Packet.totalLen, Ipv4Packet.identification,
      Ipv4Packet.flags, Ipv4Packet.fragmentOffset, Ipv4Packet.ttl, Ipv4Packet.protocol,
      Ipv4Packet.checksum, Ipv4Packet.src, Ipv4Packet.dst, index_byteAt, readU16_eq_ok, ok_bind,
      pure_eq_ok] <;>
    exact returns_ok _

end Ipv4Packet

namespace Ipv4

/-! ## Verification -/

/-- One turn of `while i + 1 < h.len()`. -/
def sumTurn (h : Bytes) : UInt32 × ℕ → Exec (Turn (UInt32 × ℕ) UInt32)
  | (sum, i) => do
    if i + 1 < h.length then
      -- The checksum field counts as zero.
      let word ← if i = 10 then pure 0 else readU16 h i
      let sum ← addU32 sum word.toUInt32
      return .proceed (sum, i + 2)
    return .leave sum

/-- One turn of `while sum >> 16 != 0`. -/
def foldTurn (sum : UInt32) : Exec (Turn UInt32 UInt32) := do
  if sum >>> 16 ≠ 0 then
    return .proceed (← addU32 (sum &&& 0xffff) (sum >>> 16))
  return .leave sum

/-- The `expected` value of the error report. -/
def expectedChecksum (h : Bytes) : Exec UInt16 := do
  let sum ← loop (sumTurn h) (h.length + 1) (0, 0)
  -- Nothing is left to fold after two rounds.
  let sum ← loop foldTurn 3 sum
  return ~~~sum.toUInt16

/-- Validation, and then the sum of the header. -/
def newVerified (bytes : Bytes) : Exec (Result (PacketView Ipv4)) := do
  match ← PacketView.new Ipv4 bytes with
  | .error error => return .error error
  | .ok view =>
    let h ← view.headerBytes
    if !(← Checksum.verify h) then
      -- Only the report of a failure computes what was expected.
      let stored ← Ipv4Packet.checksum view.bytes
      let expected ← expectedChecksum h
      return .error (.invalidChecksum expected stored)
    return .ok view

/-! ## Setters -/

/-- Stores the time to live. -/
def setTtl (view : PacketViewMut Ipv4) (value : UInt8) : Exec (PacketViewMut Ipv4) :=
  view.assign 8 value

/-- Stores the protocol. -/
def setProtocol (view : PacketViewMut Ipv4) (value : UInt8) : Exec (PacketViewMut Ipv4) :=
  view.assign 9 value

/-- Stores any checksum, a wrong one too. -/
def setChecksum (view : PacketViewMut Ipv4) (value : UInt16) : Exec (PacketViewMut Ipv4) :=
  view.copyFromSlice 10 12 (u16ToBeBytes value)

/-- Stores the source address. -/
def setSrc (view : PacketViewMut Ipv4) (value : Vector UInt8 4) : Exec (PacketViewMut Ipv4) :=
  view.copyFromSlice 12 16 value.toList

/-- Stores the destination address. -/
def setDst (view : PacketViewMut Ipv4) (value : Vector UInt8 4) : Exec (PacketViewMut Ipv4) :=
  view.copyFromSlice 16 20 value.toList

/-- Stores the checksum of the header as it is now. -/
def computeAndSetChecksum (view : PacketViewMut Ipv4) : Exec (PacketViewMut Ipv4) := do
  let headerLen ← Ipv4Packet.headerLen view.bytes
  -- The field is left out of the sum, so what it holds does not matter.
  let checksum ← Checksum.compute (← rangeTo view.bytes headerLen) 10
  setChecksum view checksum

/-- A call of one of the view's setters. -/
inductive Setter
  | ttl (value : UInt8)
  | protocol (value : UInt8)
  | checksum (value : UInt16)
  | src (value : Vector UInt8 4)
  | dst (value : Vector UInt8 4)
  | computeAndSetChecksum

/-- The method a call is of. -/
def Setter.apply : Setter → PacketViewMut Ipv4 → Exec (PacketViewMut Ipv4)
  | .ttl value, view => setTtl view value
  | .protocol value, view => setProtocol view value
  | .checksum value, view => setChecksum view value
  | .src value, view => setSrc view value
  | .dst value, view => setDst view value
  | .computeAndSetChecksum, view => Ipv4.computeAndSetChecksum view

/-- The field a setter is on. -/
def Setter.field : Setter → Ipv4Packet.Field
  | .ttl _ => .ttl
  | .protocol _ => .protocol
  | .checksum _ => .checksum
  | .src _ => .src
  | .dst _ => .dst
  | .computeAndSetChecksum => .checksum

/-- The setters that store their argument. -/
def Setter.Plain (setter : Setter) : Prop := setter ≠ .computeAndSetChecksum

/-- Setters never change the length of the buffer. -/
theorem Setter.apply_length {setter : Setter} {view view' : PacketViewMut Ipv4}
    (written : setter.apply view = .ok view') : view'.bytes.length = view.bytes.length := by
  cases setter with
  | ttl value => exact PacketViewMut.assign_length written
  | protocol value => exact PacketViewMut.assign_length written
  | checksum value => exact PacketViewMut.copyFromSlice_length written
  | src value => exact PacketViewMut.copyFromSlice_length written
  | dst value => exact PacketViewMut.copyFromSlice_length written
  | computeAndSetChecksum =>
    obtain ⟨headerLen, _, written⟩ := bind_eq_ok.mp written
    obtain ⟨header, _, written⟩ := bind_eq_ok.mp written
    obtain ⟨checksum, _, written⟩ := bind_eq_ok.mp written
    exact PacketViewMut.copyFromSlice_length written

/-! ## What the validator accepts -/

/-- The header length the first byte announces. -/
def headerLength (bytes : Bytes) : ℕ := (byteAt bytes 0 &&& 0x0f).toNat * 4

/-- The slices the validator accepts. -/
structure WellFormed (bytes : Bytes) : Prop where
  fixed : 20 ≤ bytes.length
  version : byteAt bytes 0 >>> 4 = 4
  words : 20 ≤ headerLength bytes
  header : headerLength bytes ≤ bytes.length
  total : headerLength bytes ≤ (wordAt bytes 2).toNat

/-- The checks of the validator, in their order. -/
theorem validate_eq (bytes : Bytes) :
    validate bytes =
      if bytes.length < 20 then .ok (.error (.tooShort 20 bytes.length))
      else if byteAt bytes 0 >>> 4 ≠ 4 then
        .ok (.error (.invalidVersion 4 (byteAt bytes 0 >>> 4)))
      else if byteAt bytes 0 &&& 0x0f < 5 then
        .ok (.error (.invalidIpv4HeaderLength (byteAt bytes 0 &&& 0x0f)))
      else if bytes.length < headerLength bytes then
        .ok (.error (.tooShort (headerLength bytes) bytes.length))
      else if (wordAt bytes 2).toNat < headerLength bytes then
        .ok (.error (.invalidIpv4TotalLength (headerLength bytes) (wordAt bytes 2).toNat))
      else .ok (.ok ()) := by
  by_cases short : bytes.length < 20
  · rw [if_pos short]
    exact if_pos short
  · -- Past the first check, the bytes that the others read are there.
    rw [if_neg short, validate, if_neg short, index_byteAt (by omega), ok_bind, ok_bind,
      readU16_eq_ok (by omega)]
    rfl

theorem validate_returns (bytes : Bytes) : Returns (validate bytes) := by
  rw [validate_eq]
  exact check_returns (check_returns (check_returns (check_returns (check_returns
    (returns_ok _)))))

theorem validate_eq_ok_iff {bytes : Bytes} :
    validate bytes = .ok (.ok ()) ↔ WellFormed bytes := by
  -- The source compares words where the condition compares bytes.
  have words : byteAt bytes 0 &&& 0x0f < 5 ↔ headerLength bytes < 20 := by
    rw [UInt8.lt_iff_toNat_lt, headerLength]
    simp only [UInt8.reduceToNat]
    omega
  simp only [validate_eq, check_eq_ok, words, Nat.not_lt, ne_eq, not_not, and_true]
  constructor
  · rintro ⟨fixed, version, enough, header, total⟩
    exact ⟨fixed, version, enough, header, total⟩
  · rintro ⟨fixed, version, enough, header, total⟩
    exact ⟨fixed, version, enough, header, total⟩

theorem headerLen_eq_ok {bytes : Bytes} (nonempty : 0 < bytes.length) :
    headerLen bytes = .ok (headerLength bytes) := by
  have : bytes.isEmpty = false := by
    rw [List.isEmpty_eq_false_iff]
    exact List.ne_nil_of_length_pos nonempty
  rw [headerLen, this, Bool.not_false, debugAssert_true, ok_bind, index_byteAt nonempty, ok_bind]
  rfl

theorem packet_headerLen_eq_ok {bytes : Bytes} (nonempty : 0 < bytes.length) :
    Ipv4Packet.headerLen bytes = .ok (headerLength bytes) := by
  rw [Ipv4Packet.headerLen, Ipv4Packet.ihlWords, index_byteAt nonempty]
  rfl

theorem options_eq_ok {bytes : Bytes} (wellFormed : WellFormed bytes) :
    Ipv4Packet.options bytes = .ok ((bytes.take (headerLength bytes)).drop 20) := by
  have fixed := wellFormed.fixed
  rw [Ipv4Packet.options, packet_headerLen_eq_ok (by omega), ok_bind]
  exact range_eq_ok wellFormed.words wellFormed.header

/-- The payload ends at the total length or where the slice does. -/
theorem payload_eq_ok {bytes : Bytes} (wellFormed : WellFormed bytes) :
    Ipv4Packet.payload bytes =
      .ok ((bytes.take (min (wordAt bytes 2).toNat bytes.length)).drop (headerLength bytes)) := by
  have fixed := wellFormed.fixed
  rw [Ipv4Packet.payload, packet_headerLen_eq_ok (by omega), ok_bind, Ipv4Packet.totalLen,
    readU16_eq_ok (by omega), ok_bind]
  exact range_eq_ok (Nat.le_min.mpr ⟨wellFormed.total, wellFormed.header⟩) (Nat.min_le_right _ _)

theorem accessor_returns {bytes : Bytes} (wellFormed : WellFormed bytes)
    (accessor : Ipv4Packet.Accessor) : Returns (accessor.get bytes) := by
  have fixed := wellFormed.fixed
  cases accessor with
  | field f => exact f.get_returns fixed
  | headerLen => exact .of_eq_ok (packet_headerLen_eq_ok (by omega))
  | options => exact .of_eq_ok (options_eq_ok wellFormed)
  | payload => exact .of_eq_ok (payload_eq_ok wellFormed)

theorem WellFormed.readable {bytes : Bytes} (wellFormed : WellFormed bytes) :
    Readable Ipv4 bytes := accessor_returns wellFormed

theorem headerLength_le (bytes : Bytes) : headerLength bytes ≤ 60 := by
  have nibble : (byteAt bytes 0 &&& 0x0f).toNat ≤ 15 := by
    rw [UInt8.toNat_and]
    exact Nat.and_le_right
  rw [headerLength]
  omega

/-! ## The stored checksum -/

section Stored

variable {bytes : Bytes}

theorem headerLength_splice (fixed : 20 ≤ bytes.length) (value : UInt16) :
    headerLength (splice bytes 10 (u16ToBeBytes value)) = headerLength bytes := by
  rw [headerLength, byteAt_splice_of_outside (by omega) (by omega), headerLength]

/-- Overwriting the checksum field keeps a packet well-formed. -/
theorem WellFormed.splice_checksum (wellFormed : WellFormed bytes) (value : UInt16) :
    WellFormed (splice bytes 10 (u16ToBeBytes value)) := by
  have fixed := wellFormed.fixed
  have size : (splice bytes 10 (u16ToBeBytes value)).length = bytes.length :=
    length_splice_word (by omega) value
  have words : headerLength (splice bytes 10 (u16ToBeBytes value)) = headerLength bytes :=
    headerLength_splice fixed value
  refine ⟨?_, ?_, ?_, ?_, ?_⟩
  · rwa [size]
  · rw [byteAt_splice_of_outside (by omega) (by omega)]
    exact wellFormed.version
  · rw [words]
    exact wellFormed.words
  · rw [words, size]
    exact wellFormed.header
  · rw [words, wordAt_splice_of_outside (by omega) (by omega)]
    exact wellFormed.total

theorem header_length (wellFormed : WellFormed bytes) :
    (bytes.take (headerLength bytes)).length = headerLength bytes := by
  rw [List.length_take, Nat.min_eq_left wellFormed.header]

theorem header_field (wellFormed : WellFormed bytes) :
    wordAt (bytes.take (headerLength bytes)) 10 = wordAt bytes 10 := by
  have words := wellFormed.words
  rw [wordAt, byteAt_take (by omega), byteAt_take (by omega), wordAt]

/-- The exact sum the header checksum is computed from. -/
def headerTotal (bytes : Bytes) : ℕ :=
  Checksum.sumOutside (bytes.take (headerLength bytes)) 10

theorem headerTotal_splice (wellFormed : WellFormed bytes) (value : UInt16) :
    headerTotal (splice bytes 10 (u16ToBeBytes value)) = headerTotal bytes := by
  have fixed := wellFormed.fixed
  have words := wellFormed.words
  have header := wellFormed.header
  have inside : 10 + (u16ToBeBytes value).length ≤ headerLength bytes := by
    rw [u16ToBeBytes_length]
    omega
  rw [headerTotal, headerLength_splice fixed, splice_take _ inside (by omega),
    Checksum.sumOutside_splice (by rw [List.length_take]; omega) rfl, headerTotal]

theorem headerTotal_lt (bytes : Bytes) : headerTotal bytes < 2 ^ 32 := by
  have short := headerLength_le bytes
  exact Checksum.sumOutside_lt (by rw [List.length_take]; omega) 10

/-- `compute` on the header gives the checksum of its words outside the field. -/
theorem compute_header_eq (wellFormed : WellFormed bytes) :
    Checksum.compute (bytes.take (headerLength bytes)) 10 =
      .ok (Checksum.checksumOf (headerTotal bytes)) := by
  have words := wellFormed.words
  rw [Checksum.compute_eq (by rw [header_length wellFormed]; omega) rfl]
  exact if_pos (headerTotal_lt bytes)

/-- `compute_and_set_checksum` stores the checksum of the header. -/
theorem computeAndSetChecksum_eq (view : PacketViewMut Ipv4) (wellFormed : WellFormed view.bytes) :
    computeAndSetChecksum view =
      setChecksum view (Checksum.checksumOf (headerTotal view.bytes)) := by
  have fixed := wellFormed.fixed
  rw [computeAndSetChecksum, packet_headerLen_eq_ok (by omega), ok_bind,
    rangeTo_eq_ok wellFormed.header, ok_bind, compute_header_eq wellFormed, ok_bind]

theorem headerBytes_eq_ok (wellFormed : WellFormed bytes) :
    (⟨bytes, validate_eq_ok_iff.mpr wellFormed⟩ : PacketView Ipv4).headerBytes =
      .ok (bytes.take (headerLength bytes)) := by
  have fixed := wellFormed.fixed
  have length : PacketSpec.headerLen Ipv4 bytes = .ok (headerLength bytes) :=
    headerLen_eq_ok (by omega)
  rw [PacketView.headerBytes, length, ok_bind]
  exact rangeTo_eq_ok wellFormed.header

/-- A header passes verification when it stores its checksum, or the other
representation of a checksum of zero. -/
theorem verify_header_eq (wellFormed : WellFormed bytes) :
    Checksum.verify (bytes.take (headerLength bytes)) =
      .ok (decide (wordAt bytes 10 = Checksum.checksumOf (headerTotal bytes) ∨
        wordAt bytes 10 = 0xffff ∧ Checksum.checksumOf (headerTotal bytes) = 0)) := by
  have words := wellFormed.words
  have short := headerLength_le bytes
  have size := header_length wellFormed
  rw [Checksum.verify_eq_stored (show 10 % 2 = 0 from rfl) (by omega)
    (Checksum.wordSum_lt (by omega)), header_field wellFormed, headerTotal]

end Stored

/-! ## Two summations -/

section Report

variable {h : Bytes}

/-- What the index loop reads: the words of the header with a zeroed field. -/
theorem wordAt_zeroed (field : 10 + 2 ≤ h.length) {i : ℕ} (even : i % 2 = 0) :
    wordAt (splice h 10 (u16ToBeBytes 0)) i = if i = 10 then 0 else wordAt h i := by
  split
  · rename_i here
    subst here
    exact wordAt_splice_self (by omega) 0
  · rename_i elsewhere
    exact wordAt_splice_of_outside (by omega) (by rw [u16ToBeBytes_length]; omega)

/-- The index loop adds up the words outside the checksum field. What it has added
and what it has still to read make up the whole sum. -/
theorem sumLoop_eq (field : 10 + 2 ≤ h.length) (even : h.length % 2 = 0)
    (fits : Checksum.sumOutside h 10 < 2 ^ 32) :
    ∃ sum, loop (sumTurn h) (h.length + 1) (0, 0) = .ok sum ∧
      sum.toNat = Checksum.sumOutside h 10 := by
  have size : (splice h 10 (u16ToBeBytes 0)).length = h.length := length_splice_word field 0
  have whole : Checksum.wordSum (splice h 10 (u16ToBeBytes 0)) = Checksum.sumOutside h 10 := by
    rw [Checksum.wordSum_eq_add_field (show 10 % 2 = 0 from rfl) (by omega),
      Checksum.sumOutside_splice field rfl, wordAt_splice_self (by omega)]
    rfl
  refine loop_rule (fun s => s.2 % 2 = 0 ∧ s.2 ≤ h.length ∧
    s.1.toNat + Checksum.wordSum ((splice h 10 (u16ToBeBytes 0)).drop s.2) =
      Checksum.sumOutside h 10) (fun s => h.length - s.2) _ ?_ ⟨rfl, Nat.zero_le _, ?_⟩ (by simp)
  · rintro ⟨sum, i⟩ ⟨aligned, within, sums⟩
    dsimp only at aligned within sums
    by_cases more : i + 1 < h.length
    · right
      have turn : sumTurn h (sum, i) = (do
          let sum ← addU32 sum (wordAt (splice h 10 (u16ToBeBytes 0)) i).toUInt32
          return .proceed (sum, i + 2)) := by
        rw [sumTurn, if_pos more, wordAt_zeroed field aligned, readU16_eq_ok more]
        split <;> rfl
      -- The word that is added now is the first of those still to read.
      rw [Checksum.wordSum_drop (by omega)] at sums
      obtain ⟨added, total⟩ := addU32_eq_ok (a := sum)
        (b := (wordAt (splice h 10 (u16ToBeBytes 0)) i).toUInt32)
        (by rw [UInt16.toNat_toUInt32]; omega)
      rw [added] at turn
      refine ⟨_, turn, ⟨?_, ?_, ?_⟩, ?_⟩
      · omega
      · dsimp only
        omega
      · rw [total, UInt16.toNat_toUInt32, Nat.add_assoc]
        exact sums
      · dsimp only
        omega
    · -- The header has an even length, so the index stops at its end.
      left
      obtain rfl : i = h.length := by omega
      refine ⟨sum, by rw [sumTurn, if_neg more]; rfl, ?_⟩
      rwa [List.drop_eq_nil_of_le (by omega), Checksum.wordSum_nil, Nat.add_zero] at sums
  · rw [List.drop_zero, whole]
    exact Nat.zero_add _

/-- Folding until nothing is left reaches the canonical representative. The first
round leaves less than twice the modulus, the second nothing to fold. -/
theorem foldLoop_eq (sum : UInt32) :
    ∃ folded, loop foldTurn 3 sum = .ok folded ∧
      folded.toNat = Math.residue 65535 sum.toNat := by
  refine loop_rule (fun s => Math.residue 65535 s.toNat = Math.residue 65535 sum.toNat)
    (fun s => if s.toNat < 65536 then 0 else if s.toNat ≤ 131070 then 1 else 2) _ ?_ rfl
    (by split <;> [decide; split <;> decide])
  intro s same
  have bound := s.toNat_lt
  have high : s >>> 16 = 0 ↔ s.toNat < 65536 := by
    rw [← UInt32.toNat_inj, UInt32.toNat_shiftRight]
    simp only [UInt32.reduceToNat, Nat.reduceMod, Nat.shiftRight_eq_div_pow, UInt32.toNat_zero]
    omega
  by_cases done : s.toNat < 65536
  · -- A value of 16 bits is its own representative.
    left
    refine ⟨s, by rw [foldTurn, if_neg (not_not.mpr (high.mpr done))]; rfl, ?_⟩
    rw [← same, Math.residue_of_le (by decide) (by omega)]
  · -- A round of carrying keeps the class modulo 65535.
    right
    refine ⟨.ofNat (Math.carryAround 65536 s.toNat), ?_, ?_, ?_⟩
    · rw [foldTurn, if_pos (mt high.mp done), Checksum.carry_eq]
      rfl
    · rw [UInt32.toNat_ofNat_of_lt' (Checksum.carryAround_lt s), ← same]
      exact Math.residue_carryAround (by decide)
    · rw [UInt32.toNat_ofNat_of_lt' (Checksum.carryAround_lt s), Math.carryAround]
      grind

/-- The error report recomputes the checksum of the header. -/
theorem expectedChecksum_eq (field : 10 + 2 ≤ h.length) (even : h.length % 2 = 0)
    (fits : Checksum.sumOutside h 10 < 2 ^ 32) :
    expectedChecksum h = .ok (Checksum.checksumOf (Checksum.sumOutside h 10)) := by
  obtain ⟨sum, added, total⟩ := sumLoop_eq field even fits
  obtain ⟨folded, reduced, canonical⟩ := foldLoop_eq sum
  obtain rfl : folded = .ofNat (Math.residue 65535 (Checksum.sumOutside h 10)) := by
    rw [← total, ← canonical, UInt32.ofNat_toNat]
  rw [expectedChecksum, added, ok_bind, reduced, ok_bind, Checksum.toUInt16_ofNat_residue]
  rfl

end Report

/-- Verification of the header, with the report of its failure. -/
theorem newVerified_eq {bytes : Bytes} (wellFormed : WellFormed bytes) :
    newVerified bytes =
      if wordAt bytes 10 = Checksum.checksumOf (headerTotal bytes) ∨
        wordAt bytes 10 = 0xffff ∧ Checksum.checksumOf (headerTotal bytes) = 0
      then .ok (.ok ⟨bytes, validate_eq_ok_iff.mpr wellFormed⟩)
      else .ok (.error (.invalidChecksum (Checksum.checksumOf (headerTotal bytes))
        (wordAt bytes 10))) := by
  have fixed := wellFormed.fixed
  have words := wellFormed.words
  have size := header_length wellFormed
  have valid : PacketSpec.validate Ipv4 bytes = .ok (.ok ()) := validate_eq_ok_iff.mpr wellFormed
  -- What the report of a failure is made of.
  have stored : Ipv4Packet.checksum bytes = .ok (wordAt bytes 10) := readU16_eq_ok (by omega)
  have expected : expectedChecksum (bytes.take (headerLength bytes)) =
      .ok (Checksum.checksumOf (headerTotal bytes)) :=
    expectedChecksum_eq (by omega) (by rw [size, headerLength]; omega) (headerTotal_lt bytes)
  rw [newVerified, PacketView.new_of_valid valid, ok_bind]
  dsimp only
  rw [headerBytes_eq_ok wellFormed, ok_bind, verify_header_eq wellFormed, ok_bind]
  by_cases matches_ : wordAt bytes 10 = Checksum.checksumOf (headerTotal bytes) ∨
      wordAt bytes 10 = 0xffff ∧ Checksum.checksumOf (headerTotal bytes) = 0
  · rw [decide_eq_true matches_, if_pos matches_]
    rfl
  · rw [decide_eq_false matches_, if_neg matches_, stored, expected]
    rfl

theorem newVerified_returns (bytes : Bytes) : Returns (newVerified bytes) := by
  obtain ⟨result, outcome⟩ := validate_returns bytes
  cases result with
  | error error =>
    have invalid : PacketSpec.validate Ipv4 bytes = .ok (.error error) := outcome
    rw [newVerified, PacketView.new_of_invalid invalid]
    exact returns_ok _
  | ok _ =>
    rw [newVerified_eq (validate_eq_ok_iff.mp outcome)]
    split <;> exact returns_ok _

/-- Verification accepts the well-formed slices whose field holds the checksum of the
header, or the other representation of a checksum of zero. -/
theorem accepts_newVerified_iff {bytes : Bytes} :
    Accepts (newVerified bytes) ↔ WellFormed bytes ∧
      (wordAt bytes 10 = Checksum.checksumOf (headerTotal bytes) ∨
        wordAt bytes 10 = 0xffff ∧ Checksum.checksumOf (headerTotal bytes) = 0) := by
  constructor
  · intro accepted
    have wellFormed : WellFormed bytes :=
      validate_eq_ok_iff.mp (valid_of_accepts accepted fun _ => rfl)
    refine ⟨wellFormed, ?_⟩
    by_contra differs
    rw [newVerified_eq wellFormed, if_neg differs] at accepted
    exact not_accepts_ok_error _ accepted
  · rintro ⟨wellFormed, holds⟩
    rw [newVerified_eq wellFormed, if_pos holds]
    exact accepts_ok_ok _

end Ipv4

end Packet

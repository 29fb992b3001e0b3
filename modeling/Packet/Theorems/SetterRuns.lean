/-
# Typed setters keep IPv4 and IPv6 views valid

What the validators read is in no field that a setter writes, so an accepted
buffer stays accepted whatever is set. The laws of the setters are checked one
setter at a time; every run of them then follows.
-/

import Packet.Model.Ipv4
import Packet.Model.Ipv6
import Packet.Model.Setters

namespace Packet

open Rust

namespace Ipv4

open Ipv4Packet (Field)

/-- Where a field begins and ends. -/
def extent : Field → ℕ × ℕ
  | .version => (0, 1)
  | .ihlWords => (0, 1)
  | .dscp => (1, 2)
  | .ecn => (1, 2)
  | .totalLen => (2, 4)
  | .identification => (4, 6)
  | .flags => (6, 7)
  | .fragmentOffset => (6, 8)
  | .ttl => (8, 9)
  | .protocol => (9, 10)
  | .checksum => (10, 12)
  | .src => (12, 16)
  | .dst => (16, 20)

namespace Setter

/-- What a setter stores, given the bytes it finds. -/
def value : (setter : Setter) → Bytes → Exec setter.field.Value
  | .ttl value, _ => .ok value
  | .protocol value, _ => .ok value
  | .checksum value, _ => .ok value
  | .src value, _ => .ok value
  | .dst value, _ => .ok value
  | .computeAndSetChecksum, bytes => do
    let headerLen ← Ipv4Packet.headerLen bytes
    Checksum.compute (← rangeTo bytes headerLen) 10

end Setter

/-- The setters are on the fields from the TTL on. -/
theorem Setter.eight_le_extent (setter : Setter) : 8 ≤ (extent setter.field).1 := by
  cases setter <;> simp [Setter.field, extent]

/-- From the TTL on the fields do not overlap any other. -/
theorem extent_apart {field other : Field} (late : 8 ≤ (extent field).1)
    (different : field ≠ other) :
    (extent field).2 ≤ (extent other).1 ∨ (extent other).2 ≤ (extent field).1 := by
  revert late different
  cases field <;> cases other <;> decide

/-- The setters of an IPv4 header, on the fields they store in. -/
def typedSetters : TypedSetters Ipv4 where
  Setter := Setter
  apply := Setter.apply
  Field := Field
  Value := Field.Value
  get := Field.get
  extent := extent
  field := Setter.field
  value := Setter.value
  Plain := Setter.Plain

theorem get_congr (field : Field) {bytes bytes' : Bytes}
    (same : ∀ i, (extent field).1 ≤ i ∧ i < (extent field).2 → bytes'[i]? = bytes[i]?) :
    field.get bytes' = field.get bytes := by
  have byte (i : ℕ) (inside : (extent field).1 ≤ i ∧ i < (extent field).2) :
      index bytes' i = index bytes i := index_congr (same i inside)
  -- One case per getter: the positions it reads lie in its extent.
  cases field with
  | version => simp only [Field.get, Ipv4Packet.version, byte 0 (by decide)]
  | ihlWords => simp only [Field.get, Ipv4Packet.ihlWords, byte 0 (by decide)]
  | dscp => simp only [Field.get, Ipv4Packet.dscp, byte 1 (by decide)]
  | ecn => simp only [Field.get, Ipv4Packet.ecn, byte 1 (by decide)]
  | totalLen => exact readU16_congr (same 2 (by decide)) (same 3 (by decide))
  | identification => exact readU16_congr (same 4 (by decide)) (same 5 (by decide))
  | flags => simp only [Field.get, Ipv4Packet.flags, byte 6 (by decide)]
  | fragmentOffset =>
    have raw : readU16 bytes' 6 = readU16 bytes 6 :=
      readU16_congr (same 6 (by decide)) (same 7 (by decide))
    simp only [Field.get, Ipv4Packet.fragmentOffset, raw]
  | ttl => exact byte 8 (by decide)
  | protocol => exact byte 9 (by decide)
  | checksum => exact readU16_congr (same 10 (by decide)) (same 11 (by decide))
  | src =>
    simp only [Field.get, Ipv4Packet.src, byte 12 (by decide), byte 13 (by decide),
      byte 14 (by decide), byte 15 (by decide)]
  | dst =>
    simp only [Field.get, Ipv4Packet.dst, byte 16 (by decide), byte 17 (by decide),
      byte 18 (by decide), byte 19 (by decide)]

section Step

variable {setter : Setter} {view view' : PacketViewMut Ipv4}

/-- A setter leaves the positions outside its field as they were. -/
theorem look_of_setter (written : setter.apply view = .ok view') {i : ℕ}
    (outside : i ∉ typedSetters.span setter.field) : view'.look i = view.look i := by
  cases setter with
  | ttl value => exact PacketViewMut.look_of_assign written outside
  | protocol value => exact PacketViewMut.look_of_assign written outside
  | checksum value => exact PacketViewMut.look_of_copyFromSlice written outside
  | src value => exact PacketViewMut.look_of_copyFromSlice written outside
  | dst value => exact PacketViewMut.look_of_copyFromSlice written outside
  | computeAndSetChecksum =>
    obtain ⟨headerLen, _, written⟩ := bind_eq_ok.mp written
    obtain ⟨header, _, written⟩ := bind_eq_ok.mp written
    obtain ⟨checksum, _, written⟩ := bind_eq_ok.mp written
    exact PacketViewMut.look_of_copyFromSlice written outside

/-- No setter writes what the validator reads. -/
theorem wellFormed_of_setter (wellFormed : WellFormed view.bytes)
    (written : setter.apply view = .ok view') : WellFormed view'.bytes := by
  have fixed := wellFormed.fixed
  have length := setter.apply_length written
  -- The validator reads bytes 0, 2 and 3.
  have front (i : ℕ) (first : i < 4) : byteAt view'.bytes i = byteAt view.bytes i := by
    have outside : i ∉ typedSetters.span setter.field := by
      rintro ⟨lower, _⟩
      exact absurd (Nat.le_trans setter.eight_le_extent lower) (by omega)
    exact PacketViewMut.byteAt_of_look (look_of_setter written outside)
  have words : headerLength view'.bytes = headerLength view.bytes := by
    rw [headerLength, front 0 (by decide), headerLength]
  have total : wordAt view'.bytes 2 = wordAt view.bytes 2 := by
    rw [wordAt, front 2 (by decide), front 3 (by decide), wordAt]
  refine ⟨length ▸ fixed, ?_, words ▸ wellFormed.words, ?_, ?_⟩
  · rw [front 0 (by decide)]
    exact wellFormed.version
  · rw [words, length]
    exact wellFormed.header
  · rw [words, total]
    exact wellFormed.total

theorem setter_returns (setter : Setter) (wellFormed : WellFormed view.bytes) :
    ∃ view', setter.apply view = .ok view' := by
  have fixed := wellFormed.fixed
  cases setter with
  | ttl value => exact ⟨_, PacketViewMut.assign_eq_ok (by omega) value⟩
  | protocol value => exact ⟨_, PacketViewMut.assign_eq_ok (by omega) value⟩
  | checksum value => exact ⟨_, PacketViewMut.copyFromSlice_u16 (by omega) value⟩
  | src value =>
    exact ⟨_, PacketViewMut.copyFromSlice_eq_ok (by decide) (by omega) value.length_toList⟩
  | dst value =>
    exact ⟨_, PacketViewMut.copyFromSlice_eq_ok (by decide) (by omega) value.length_toList⟩
  | computeAndSetChecksum =>
    exact ⟨_, (computeAndSetChecksum_eq view wellFormed).trans
      (PacketViewMut.copyFromSlice_u16 (by omega) _)⟩

/-- Four bytes read one by one. -/
private theorem address_eq (value : Vector UInt8 4) :
    #v[value[0], value[1], value[2], value[3]] = value := by
  ext i inside
  match i, inside with
  | 0, _ => rfl
  | 1, _ => rfl
  | 2, _ => rfl
  | 3, _ => rfl

/-- The field a setter is on reads back what it stores. -/
theorem get_of_setter (written : setter.apply view = .ok view') :
    setter.field.get view'.bytes = setter.value view.bytes := by
  cases setter with
  | ttl value => exact PacketViewMut.index_of_assign written
  | protocol value => exact PacketViewMut.index_of_assign written
  | checksum value => exact PacketViewMut.readU16_of_copyFromSlice written
  | src value =>
    have byte (i : ℕ) (inside : i < 4) : index view'.bytes (12 + i) = .ok value[i] :=
      PacketViewMut.index_of_copyFromSlice written (by omega) (by simp [inside])
    rw [Setter.value, ← address_eq value]
    simp only [Setter.field, Field.get, Ipv4Packet.src, byte 0 (by decide), byte 1 (by decide),
      byte 2 (by decide), byte 3 (by decide), ok_bind, pure_eq_ok]
  | dst value =>
    have byte (i : ℕ) (inside : i < 4) : index view'.bytes (16 + i) = .ok value[i] :=
      PacketViewMut.index_of_copyFromSlice written (by omega) (by simp [inside])
    rw [Setter.value, ← address_eq value]
    simp only [Setter.field, Field.get, Ipv4Packet.dst, byte 0 (by decide), byte 1 (by decide),
      byte 2 (by decide), byte 3 (by decide), ok_bind, pure_eq_ok]
  | computeAndSetChecksum =>
    -- It stores the checksum of the header as it stood before the call.
    obtain ⟨headerLen, length, written⟩ := bind_eq_ok.mp written
    obtain ⟨header, sliced, written⟩ := bind_eq_ok.mp written
    obtain ⟨checksum, computed, written⟩ := bind_eq_ok.mp written
    rw [Setter.value, length, ok_bind, sliced, ok_bind, computed]
    exact PacketViewMut.readU16_of_copyFromSlice written

end Step

theorem lawful : typedSetters.Lawful where
  readable := fun _ valid => (validate_eq_ok_iff.mp valid).readable
  returns := by
    intro setter view valid
    have wellFormed : WellFormed view.bytes := validate_eq_ok_iff.mp valid
    obtain ⟨view', written⟩ := setter_returns setter wellFormed
    exact ⟨view', written, validate_eq_ok_iff.mpr (wellFormed_of_setter wellFormed written)⟩
  length := fun _ _ _ written => Setter.apply_length written
  stores := fun _ _ _ _ written => get_of_setter written
  frames := fun _ _ _ written _ outside => look_of_setter written outside
  reads := fun field _ _ same => get_congr field same
  apart := fun setter _ different => extent_apart setter.eight_le_extent different
  puts := by
    intro setter plain
    cases setter with
    | ttl value => exact puts_of_assign (fun _ _ written => written) fun _ inside => inside
    | protocol value => exact puts_of_assign (fun _ _ written => written) fun _ inside => inside
    | checksum value =>
      exact puts_of_copyFromSlice (fun _ _ written => written) fun _ inside => inside
    | src value => exact puts_of_copyFromSlice (fun _ _ written => written) fun _ inside => inside
    | dst value => exact puts_of_copyFromSlice (fun _ _ written => written) fun _ inside => inside
    | computeAndSetChecksum => exact absurd rfl plain

end Ipv4

namespace Ipv6

open Ipv6Packet (Field)

/-- Where a field begins and ends. -/
def extent : Field → ℕ × ℕ
  | .version => (0, 1)
  | .trafficClass => (0, 2)
  | .flowLabel => (1, 4)
  | .payloadLen => (4, 6)
  | .nextHeaderRaw => (6, 7)
  | .hopLimit => (7, 8)
  | .src => (8, 24)
  | .dst => (24, 40)

namespace Setter

/-- What a setter stores: its argument, whatever the bytes it finds. -/
def value : (setter : Setter) → Bytes → Exec setter.field.Value
  | .payloadLen value, _ => .ok value
  | .nextHeader value, _ => .ok value
  | .hopLimit value, _ => .ok value
  | .src value, _ => .ok value
  | .dst value, _ => .ok value

/-- The setters are on the fields from the payload length on. -/
theorem four_le_extent (setter : Setter) : 4 ≤ (extent setter.field).1 := by
  cases setter <;> simp [field, extent]

end Setter

/-- From the payload length on the fields do not overlap any other. -/
theorem extent_apart {field other : Field} (late : 4 ≤ (extent field).1)
    (different : field ≠ other) :
    (extent field).2 ≤ (extent other).1 ∨ (extent other).2 ≤ (extent field).1 := by
  revert late different
  cases field <;> cases other <;> decide

/-- The setters of the fixed header, on the fields they store in. -/
def typedSetters : TypedSetters Ipv6 where
  Setter := Setter
  apply := Setter.apply
  Field := Field
  Value := Field.Value
  get := Field.get
  extent := extent
  field := Setter.field
  value := Setter.value
  Plain := fun _ => True

theorem get_congr (field : Field) {bytes bytes' : Bytes}
    (same : ∀ i, (extent field).1 ≤ i ∧ i < (extent field).2 → bytes'[i]? = bytes[i]?) :
    field.get bytes' = field.get bytes := by
  have byte (i : ℕ) (inside : (extent field).1 ≤ i ∧ i < (extent field).2) :
      index bytes' i = index bytes i := index_congr (same i inside)
  cases field with
  | version => simp only [Field.get, Ipv6Packet.version, byte 0 (by decide)]
  | trafficClass =>
    simp only [Field.get, Ipv6Packet.trafficClass, byte 0 (by decide), byte 1 (by decide)]
  | flowLabel =>
    simp only [Field.get, Ipv6Packet.flowLabel, byte 1 (by decide), byte 2 (by decide),
      byte 3 (by decide)]
  | payloadLen => exact readU16_congr (same 4 (by decide)) (same 5 (by decide))
  | nextHeaderRaw => exact byte 6 (by decide)
  | hopLimit => exact byte 7 (by decide)
  | src =>
    have slice : range bytes' 8 24 = range bytes 8 24 :=
      range_congr (by decide) fun i lower upper => same i ⟨lower, upper⟩
    simp only [Field.get, Ipv6Packet.src, slice]
  | dst =>
    have slice : range bytes' 24 40 = range bytes 24 40 :=
      range_congr (by decide) fun i lower upper => same i ⟨lower, upper⟩
    simp only [Field.get, Ipv6Packet.dst, slice]

section Step

variable {setter : Setter} {view view' : PacketViewMut Ipv6}

/-- A setter leaves the positions outside its field as they were. -/
theorem look_of_setter (written : setter.apply view = .ok view') {i : ℕ}
    (outside : i ∉ typedSetters.span setter.field) : view'.look i = view.look i := by
  cases setter with
  | payloadLen value => exact PacketViewMut.look_of_copyFromSlice written outside
  | nextHeader value => exact PacketViewMut.look_of_assign written outside
  | hopLimit value => exact PacketViewMut.look_of_assign written outside
  | src value => exact PacketViewMut.look_of_copyFromSlice written outside
  | dst value => exact PacketViewMut.look_of_copyFromSlice written outside

/-- No setter writes the version. -/
theorem wellFormed_of_setter (wellFormed : WellFormed view.bytes)
    (written : setter.apply view = .ok view') : WellFormed view'.bytes := by
  have length := setter.apply_length written
  refine wellFormed.congr (length ▸ wellFormed.fixed) ?_
  have outside : 0 ∉ typedSetters.span setter.field := by
    rintro ⟨lower, _⟩
    exact absurd (Nat.le_trans setter.four_le_extent lower) (by decide)
  exact PacketViewMut.byteAt_of_look (look_of_setter written outside)

theorem setter_returns (setter : Setter) (wellFormed : WellFormed view.bytes) :
    ∃ view', setter.apply view = .ok view' := by
  have fixed := wellFormed.fixed
  cases setter with
  | payloadLen value => exact ⟨_, PacketViewMut.copyFromSlice_u16 (by omega) value⟩
  | nextHeader value => exact ⟨_, PacketViewMut.assign_eq_ok (by omega) value⟩
  | hopLimit value => exact ⟨_, PacketViewMut.assign_eq_ok (by omega) value⟩
  | src value =>
    exact ⟨_, PacketViewMut.copyFromSlice_eq_ok (by decide) (by omega) value.length_toList⟩
  | dst value =>
    exact ⟨_, PacketViewMut.copyFromSlice_eq_ok (by decide) (by omega) value.length_toList⟩

/-- The field a setter is on reads back what it stores. -/
theorem get_of_setter (written : setter.apply view = .ok view') :
    setter.field.get view'.bytes = setter.value view.bytes := by
  cases setter with
  | payloadLen value => exact PacketViewMut.readU16_of_copyFromSlice written
  | nextHeader value => exact PacketViewMut.index_of_assign written
  | hopLimit value => exact PacketViewMut.index_of_assign written
  | src value =>
    have slice : range view'.bytes 8 24 = .ok value.toList :=
      PacketViewMut.range_of_copyFromSlice written
    simp only [Setter.field, Field.get, Ipv6Packet.src, slice, ok_bind]
    exact Ipv6Packet.copyOut_eq value.length_toList
  | dst value =>
    have slice : range view'.bytes 24 40 = .ok value.toList :=
      PacketViewMut.range_of_copyFromSlice written
    simp only [Setter.field, Field.get, Ipv6Packet.dst, slice, ok_bind]
    exact Ipv6Packet.copyOut_eq value.length_toList

end Step

theorem lawful : typedSetters.Lawful where
  readable := fun _ valid => (validate_eq_ok_iff.mp valid).readable
  returns := by
    intro setter view valid
    have wellFormed : WellFormed view.bytes := validate_eq_ok_iff.mp valid
    obtain ⟨view', written⟩ := setter_returns setter wellFormed
    exact ⟨view', written, validate_eq_ok_iff.mpr (wellFormed_of_setter wellFormed written)⟩
  length := fun _ _ _ written => Setter.apply_length written
  stores := fun _ _ _ _ written => get_of_setter written
  frames := fun _ _ _ written _ outside => look_of_setter written outside
  reads := fun field _ _ same => get_congr field same
  apart := fun setter _ different => extent_apart setter.four_le_extent different
  puts := by
    intro setter _
    cases setter with
    | payloadLen value =>
      exact puts_of_copyFromSlice (fun _ _ written => written) fun _ inside => inside
    | nextHeader value => exact puts_of_assign (fun _ _ written => written) fun _ inside => inside
    | hopLimit value => exact puts_of_assign (fun _ _ written => written) fun _ inside => inside
    | src value => exact puts_of_copyFromSlice (fun _ _ written => written) fun _ inside => inside
    | dst value => exact puts_of_copyFromSlice (fun _ _ written => written) fun _ inside => inside

end Ipv6

/-- Runs of typed setters keep every accepted IPv4 and IPv6 view, and plain setters
of different fields commute on it. -/
theorem typedSetters_keepView :
    (∀ bytes view, PacketViewMut.new Ipv4 bytes = .ok (.ok view) →
      Ipv4.typedSetters.KeepsView view) ∧
    (∀ bytes view, PacketViewMut.new Ipv6 bytes = .ok (.ok view) →
      Ipv6.typedSetters.KeepsView view) := by
  constructor
  · intro bytes view accepted
    obtain ⟨valid, rfl⟩ := PacketViewMut.new_eq_ok_iff.mp accepted
    exact Ipv4.lawful.keepsView valid
  · intro bytes view accepted
    obtain ⟨valid, rfl⟩ := PacketViewMut.new_eq_ok_iff.mp accepted
    exact Ipv6.lawful.keepsView valid

/-- A fixed IPv6 header alone. -/
theorem typedSetters_keepView_fixedHeader :
    Ipv6.typedSetters.KeepsView ⟨Ipv6.fixedHeader 0 17⟩ :=
  typedSetters_keepView.2 (Ipv6.fixedHeader 0 17) _ (by decide)

end Packet

/-
# Setters of lengths

Validation checks a length field against the slice once. The setters of the UDP
length and of the TCP data offset may write any value later, and the getters that
slice by the field trust it. After a run of setters only the last length written
counts.
-/

import Packet.Model.Setters
import Packet.Model.Tcp
import Packet.Model.Udp
import Packet.Rust.Bits

namespace Packet

open Rust

namespace Udp

/-- The length a setter writes. -/
def Setter.length? : Setter → Option UInt16
  | .length value => some value
  | _ => none

section Step

variable {setter : Setter} {view view' : PacketViewMut Udp}

/-- The length field holds what `set_length` writes, and no other setter is on it. -/
theorem length_of_setter (written : setter.apply view = .ok view') :
    wordAt view'.bytes 4 = setter.length?.elim (wordAt view.bytes 4) id := by
  -- Ports lie in front of the length field, checksums behind it.
  cases setter with
  | srcPort value => exact PacketViewMut.wordAt_of_copyFromSlice written (.inr (by decide))
  | dstPort value => exact PacketViewMut.wordAt_of_copyFromSlice written (.inr (by decide))
  | length value => exact wordAt_of_readU16 (PacketViewMut.readU16_of_copyFromSlice written)
  | checksum value => exact PacketViewMut.wordAt_of_copyFromSlice written (.inl (by decide))
  | computeAndSetChecksumIpv4 src dst =>
    obtain ⟨cksum, _, written⟩ := bind_eq_ok.mp written
    exact PacketViewMut.wordAt_of_copyFromSlice written (.inl (by decide))
  | computeAndSetChecksumIpv6 src dst =>
    obtain ⟨cksum, _, written⟩ := bind_eq_ok.mp written
    exact PacketViewMut.wordAt_of_copyFromSlice written (.inl (by decide))

end Step

/-- A run leaves a datagram readable exactly when the last length it has written, if
any, covers the header. -/
theorem readable_run_iff {bytes : Bytes} (wellFormed : WellFormed bytes) {setters : List Setter}
    {out : PacketViewMut Udp} (run : runOps Setter.apply setters ⟨bytes⟩ = .ok out) :
    Readable Udp out.bytes ↔
      ∀ value, (setters.filterMap Setter.length?).getLast? = some value → 8 ≤ value.toNat := by
  have fixed := wellFormed.fixed
  have size : out.bytes.length = bytes.length :=
    length_of_runOps (fun _ _ _ => Setter.apply_length) run
  have field : wordAt out.bytes 4 =
      ((setters.filterMap Setter.length?).getLast?).elim (wordAt bytes 4) id := by
    have step (setter : Setter) (state next : PacketViewMut Udp)
        (written : setter.apply state = .ok next) :
        wordAt next.bytes 4 = setter.length?.elim (wordAt state.bytes 4) id :=
      length_of_setter written
    exact runOps_last step setters run
  rw [readable_iff (by omega), field]
  cases (setters.filterMap Setter.length?).getLast? with
  | none => simpa using wellFormed.header
  | some value => simp

/-- A UDP view stays readable in every state of a run exactly when every length
written covers the header. -/
theorem setters_readable_iff {bytes : Bytes} {view out : PacketViewMut Udp}
    {setters : List Setter} (accepted : PacketViewMut.new Udp bytes = .ok (.ok view))
    (run : runOps Setter.apply setters view = .ok out) :
    (Readable Udp out.bytes ↔
      ∀ value, (setters.filterMap Setter.length?).getLast? = some value → 8 ≤ value.toNat) ∧
    ((∀ before mid, before <+: setters → runOps Setter.apply before view = .ok mid →
      Readable Udp mid.bytes) ↔
      ∀ value ∈ setters.filterMap Setter.length?, 8 ≤ value.toNat) := by
  obtain ⟨valid, rfl⟩ := PacketViewMut.new_eq_ok_iff.mp accepted
  have wellFormed : WellFormed bytes := validate_eq_ok_iff.mp valid
  exact ⟨readable_run_iff wellFormed run,
    runOps_every_iff run fun _ _ _ reached => readable_run_iff wellFormed reached⟩

/-- A length set to 8, after a port. -/
theorem setters_readable_iff_header :
    Readable Udp [0, 53, 0, 0, 0, 8, 0, 0, 7] ↔
      ∀ value, ([Setter.srcPort 53, .length 8].filterMap Setter.length?).getLast? = some value →
        8 ≤ value.toNat := by
  have accepted : PacketViewMut.new Udp [0, 0, 0, 0, 0, 9, 0, 0, 7] =
      .ok (.ok ⟨[0, 0, 0, 0, 0, 9, 0, 0, 7]⟩) := by decide
  have run : runOps Setter.apply [.srcPort 53, .length 8] ⟨[0, 0, 0, 0, 0, 9, 0, 0, 7]⟩ =
      .ok ⟨[0, 53, 0, 0, 0, 8, 0, 0, 7]⟩ := by decide
  exact (setters_readable_iff accepted run).1

/-- A length set to 7 makes `payload()` panic. -/
theorem setLength_unreadable :
    let bytes : Bytes := [0, 0, 0, 0, 0, 8, 0, 0]
    PacketViewMut.new Udp bytes = .ok (.ok ⟨bytes⟩) ∧
    runOps Setter.apply [.length 7] ⟨bytes⟩ = .ok ⟨[0, 0, 0, 0, 0, 7, 0, 0]⟩ ∧
    UdpPacket.payload [0, 0, 0, 0, 0, 7, 0, 0] = .error .index ∧
    ¬ Readable Udp [0, 0, 0, 0, 0, 7, 0, 0] := by
  refine ⟨by decide, by decide, by decide, ?_⟩
  rw [readable_iff (by decide)]
  decide

end Udp

namespace Tcp

/-- The data offset a setter writes. -/
def Setter.dataOffset? : Setter → Option UInt8
  | .dataOffset value => some value
  | _ => none

section Step

variable {setter : Setter} {view view' : PacketViewMut Tcp}

/-- `set_flags` keeps the data offset. -/
theorem upper_of_setFlags {value : UInt16} (written : setFlags view value = .ok view') :
    byteAt view'.bytes 12 >>> 4 = byteAt view.bytes 12 >>> 4 := by
  obtain ⟨old, read, written⟩ := bind_eq_ok.mp written
  obtain ⟨between, first, second⟩ := bind_eq_ok.mp written
  have apart : 12 ∉ Set.Ico 13 (13 + 1) := fun inside => absurd inside.1 (by decide)
  rw [PacketViewMut.byteAt_of_look (PacketViewMut.look_of_assign second apart),
    byteAt_of_index (PacketViewMut.index_of_assign first), byteAt_of_index read]
  exact upper_of_keepUpper (upper_and_one _)

/-- `set_data_offset` keeps the lower four bits of its argument, which it asserts to
be at least 5. -/
theorem upper_of_setDataOffset {value : UInt8} (written : setDataOffset view value = .ok view') :
    5 ≤ value.toNat ∧ byteAt view'.bytes 12 >>> 4 = value &&& 0x0f := by
  obtain ⟨_, asserted, written⟩ := bind_eq_ok.mp written
  obtain ⟨old, _, written⟩ := bind_eq_ok.mp written
  refine ⟨?_, ?_⟩
  · have holds : decide (value ≥ 5) = true := (checked_eq_ok.mp asserted).1
    exact UInt8.le_iff_toNat_le.mp (of_decide_eq_true holds)
  · rw [byteAt_of_index (PacketViewMut.index_of_assign written)]
    exact upper_of_keepLower old value

/-- The data offset is what `set_data_offset` writes of its argument, and no other
setter changes it. -/
theorem upper_of_setter (written : setter.apply view = .ok view') :
    byteAt view'.bytes 12 >>> 4 =
      setter.dataOffset?.elim (byteAt view.bytes 12 >>> 4) (· &&& 0x0f) := by
  have kept {lo hi : ℕ} {values : Bytes} (copied : view.copyFromSlice lo hi values = .ok view')
      (apart : 12 < lo ∨ hi ≤ 12) : byteAt view'.bytes 12 >>> 4 = byteAt view.bytes 12 >>> 4 := by
    rw [PacketViewMut.byteAt_of_copyFromSlice copied apart]
  cases setter with
  | srcPort value => exact kept written (.inr (by decide))
  | dstPort value => exact kept written (.inr (by decide))
  | seqNumber value => exact kept written (.inr (by decide))
  | ackNumber value => exact kept written (.inr (by decide))
  | flags value => exact upper_of_setFlags written
  | dataOffset value => exact (upper_of_setDataOffset written).2
  | windowSize value => exact kept written (.inl (by decide))
  | checksum value => exact kept written (.inl (by decide))
  | urgentPointer value => exact kept written (.inl (by decide))
  | computeAndSetChecksumIpv4 src dst =>
    obtain ⟨cksum, _, written⟩ := bind_eq_ok.mp written
    exact kept written (.inl (by decide))
  | computeAndSetChecksumIpv6 src dst =>
    obtain ⟨cksum, _, written⟩ := bind_eq_ok.mp written
    exact kept written (.inl (by decide))

end Step

/-- What is asked of the view a run of setters has come to. -/
structure Sound (setters : List Setter) (view : PacketViewMut Tcp) : Prop where
  readsBack : ∀ value, (setters.filterMap Setter.dataOffset?).getLast? = some value →
    TcpPacket.dataOffset view.bytes = .ok value
  valid : PacketSpec.validate Tcp view.bytes = .ok (.ok ())
  readable : Readable Tcp view.bytes

theorem dataOffset_eq_ok {bytes : Bytes} (fixed : 20 ≤ bytes.length) :
    TcpPacket.dataOffset bytes = .ok (byteAt bytes 12 >>> 4) := by
  rw [TcpPacket.dataOffset, index_byteAt (by omega)]
  rfl

/-- A run leaves a segment sound exactly when the last data offset it has set, if
any, has four bits and ends inside the buffer. -/
theorem sound_run_iff {bytes : Bytes} (wellFormed : WellFormed bytes) {setters : List Setter}
    {out : PacketViewMut Tcp} (run : runOps Setter.apply setters ⟨bytes⟩ = .ok out) :
    Sound setters out ↔
      ∀ value, (setters.filterMap Setter.dataOffset?).getLast? = some value →
        value.toNat ≤ 15 ∧ 4 * value.toNat ≤ bytes.length := by
  have fixed := wellFormed.fixed
  have size : out.bytes.length = bytes.length :=
    length_of_runOps (fun _ _ _ => Setter.apply_length) run
  have field : byteAt out.bytes 12 >>> 4 =
      ((setters.filterMap Setter.dataOffset?).getLast?).elim (byteAt bytes 12 >>> 4)
        (· &&& 0x0f) := by
    have step (setter : Setter) (state next : PacketViewMut Tcp)
        (written : setter.apply state = .ok next) :
        byteAt next.bytes 12 >>> 4 =
          setter.dataOffset?.elim (byteAt state.bytes 12 >>> 4) (· &&& 0x0f) :=
      upper_of_setter written
    exact runOps_last step setters run
  have fixed' : 20 ≤ out.bytes.length := by omega
  cases last : (setters.filterMap Setter.dataOffset?).getLast? with
  | none =>
    -- The data offset is still the one that was validated.
    rw [last] at field
    have words : headerLength out.bytes = headerLength bytes :=
      congrArg (fun upper : UInt8 => upper.toNat * 4) field
    have wellFormed' : WellFormed out.bytes :=
      ⟨fixed', words ▸ wellFormed.words, by rw [words, size]; exact wellFormed.header⟩
    simp only [reduceCtorEq, false_implies, implies_true, iff_true]
    exact ⟨fun value set => by simp [last] at set, validate_eq_ok_iff.mpr wellFormed',
      (readable_iff fixed').mpr wellFormed'⟩
  | some value =>
    rw [last] at field
    -- The assertion has let the value through.
    have enough : 5 ≤ value.toNat := by
      obtain ⟨setter, member, set⟩ := List.mem_filterMap.mp (List.mem_of_getLast? last)
      obtain ⟨mid, next, written⟩ := runOps_applied run member
      cases setter with
      | dataOffset argument =>
        obtain rfl := Option.some.inj set
        exact (upper_of_setDataOffset written).1
      | _ => simp [Setter.dataOffset?] at set
    have kept : (byteAt out.bytes 12 >>> 4).toNat = value.toNat % 16 := by
      rw [field]
      exact (UInt8.toNat_and value 0x0f).trans (Nat.and_two_pow_sub_one_eq_mod value.toNat 4)
    have words : headerLength out.bytes = value.toNat % 16 * 4 := by rw [headerLength, kept]
    simp only [Option.some.injEq, forall_eq']
    constructor
    · intro sound
      -- What reads back has lost all but its lower four bits.
      have read := sound.readsBack value last
      rw [dataOffset_eq_ok fixed'] at read
      have same := congrArg UInt8.toNat (Except.ok.inj read)
      have header := (validate_eq_ok_iff.mp sound.valid).header
      omega
    · rintro ⟨nibble, inside⟩
      have wellFormed' : WellFormed out.bytes := ⟨fixed', by omega, by omega⟩
      refine ⟨?_, validate_eq_ok_iff.mpr wellFormed', (readable_iff fixed').mpr wellFormed'⟩
      intro value' set
      obtain rfl : value = value' := Option.some.inj (last.symm.trans set)
      rw [dataOffset_eq_ok fixed']
      congr 1
      apply UInt8.toNat_inj.mp
      omega

/-- A TCP view stays sound in every state of a run exactly when every data offset
set has four bits and ends inside the buffer. -/
theorem setters_sound_iff {bytes : Bytes} {view out : PacketViewMut Tcp} {setters : List Setter}
    (accepted : PacketViewMut.new Tcp bytes = .ok (.ok view))
    (run : runOps Setter.apply setters view = .ok out) :
    (Sound setters out ↔
      ∀ value, (setters.filterMap Setter.dataOffset?).getLast? = some value →
        value.toNat ≤ 15 ∧ 4 * value.toNat ≤ bytes.length) ∧
    ((∀ before mid, before <+: setters → runOps Setter.apply before view = .ok mid →
      Sound before mid) ↔
      ∀ value ∈ setters.filterMap Setter.dataOffset?,
        value.toNat ≤ 15 ∧ 4 * value.toNat ≤ bytes.length) := by
  obtain ⟨valid, rfl⟩ := PacketViewMut.new_eq_ok_iff.mp accepted
  have wellFormed : WellFormed bytes := validate_eq_ok_iff.mp valid
  exact ⟨sound_run_iff wellFormed run,
    runOps_every_iff run fun _ _ _ reached => sound_run_iff wellFormed reached⟩

/-- A data offset of 5, set again. -/
theorem setters_sound_iff_five :
    Sound [.dataOffset 5] ⟨bareHeader 0x50⟩ ↔
      ∀ value, ([Setter.dataOffset 5].filterMap Setter.dataOffset?).getLast? = some value →
        value.toNat ≤ 15 ∧ 4 * value.toNat ≤ (bareHeader 0x50).length := by
  have accepted : PacketViewMut.new Tcp (bareHeader 0x50) = .ok (.ok ⟨bareHeader 0x50⟩) := by decide
  have run : runOps Setter.apply [.dataOffset 5] ⟨bareHeader 0x50⟩ =
      .ok ⟨bareHeader 0x50⟩ := by decide
  exact (setters_sound_iff accepted run).1

/-- A data offset of 6 in a buffer of 20 bytes makes the options panic, and one of
16 reads back as 0. -/
theorem setDataOffset_unsound :
    PacketViewMut.new Tcp (bareHeader 0x50) = .ok (.ok ⟨bareHeader 0x50⟩) ∧
    runOps Setter.apply [.dataOffset 6] ⟨bareHeader 0x50⟩ = .ok ⟨bareHeader 0x60⟩ ∧
    TcpPacket.optionsRaw (bareHeader 0x60) = .error .index ∧
    runOps Setter.apply [.dataOffset 16] ⟨bareHeader 0x50⟩ = .ok ⟨bareHeader 0⟩ ∧
    TcpPacket.dataOffset (bareHeader 0) = .ok 0 ∧
    ¬ Sound [.dataOffset 6] ⟨bareHeader 0x60⟩ := by
  refine ⟨by decide, by decide, by decide, by decide, by decide, ?_⟩
  intro sound
  exact absurd sound.valid (by decide)

end Tcp

end Packet

/-
# Writing past the setters

A mutable view lends out its bytes, and what is written through that slice is checked by
nothing. The slice cannot change its length, so what rests on the length alone survives
any writes: every fixed field can be read. What rests on fields of the header does not.
For each protocol this says exactly which bytes leave the view readable, which calls
panic on the others, and what a fresh validation asks on top.
-/

import Packet.Model.Setters
import Packet.Theorems.HeaderBytes

namespace Packet

open Rust Checksum

/-! ## Calls and raw writes -/

/-- A use of a mutable view: a call of a setter, or writes through the slice that
`as_slice_mut` lends out. -/
inductive Use (S : Type)
  | call (setter : S)
  | asSliceMut (write : ℕ → UInt8 → UInt8)

variable {P S : Type}

/-- Any byte of the slice may be replaced by any other. -/
def Use.apply (applySetter : S → PacketViewMut P → Exec (PacketViewMut P)) :
    Use S → PacketViewMut P → Exec (PacketViewMut P)
  | .call setter, view => applySetter setter view
  | .asSliceMut write, view => .ok ⟨view.bytes.mapIdx write⟩

/-- A buffer of the same length can be written in one go. -/
theorem exists_write {bytes contents : Bytes} (same : contents.length = bytes.length) :
    ∃ write : ℕ → UInt8 → UInt8, bytes.mapIdx write = contents := by
  refine ⟨fun i _ => byteAt contents i, ?_⟩
  apply List.ext_getElem
  · rw [List.length_mapIdx, same]
  · intro i left right
    rw [List.getElem_mapIdx, byteAt, List.getD_eq_getElem _ _ right]

theorem length_of_use {applySetter : S → PacketViewMut P → Exec (PacketViewMut P)}
    (keeps : ∀ setter view view', applySetter setter view = .ok view' →
      view'.bytes.length = view.bytes.length)
    (use : Use S) (view view' : PacketViewMut P) (used : use.apply applySetter view = .ok view') :
    view'.bytes.length = view.bytes.length := by
  cases use with
  | call setter => exact keeps setter view view' used
  | asSliceMut write =>
    obtain rfl := Except.ok.inj used
    exact List.length_mapIdx

/-- A view that some uses of an accepted buffer have led to. -/
def Reached [PacketSpec P] (applySetter : S → PacketViewMut P → Exec (PacketViewMut P))
    (bytes : Bytes) (out : PacketViewMut P) : Prop :=
  ∃ view uses, PacketViewMut.new P bytes = .ok (.ok view) ∧
    runOps (Use.apply applySetter) uses view = .ok out

/-- What is left of the guarantees of an accepted view after raw writes. -/
structure AfterWrites (P : Type) [PacketSpec P] [PacketTrait P]
    (applySetter : S → PacketViewMut P → Exec (PacketViewMut P))
    (headed readable revalidated : Bytes → Prop) (settable : S → Bytes → Prop) : Prop where
  reaches : ∀ bytes contents, Accepts (PacketViewMut.new P bytes) →
    (Reached applySetter bytes ⟨contents⟩ ↔ contents.length = bytes.length)
  header : ∀ bytes out, Reached applySetter bytes out →
    (Returns out.headerBytes ↔ headed out.bytes)
  accessors : ∀ bytes out, Reached applySetter bytes out →
    (Readable P out.bytes ↔ readable out.bytes)
  setters : ∀ bytes out setter, Reached applySetter bytes out →
    (Returns (applySetter setter out) ↔ settable setter out.bytes)
  validation : ∀ bytes out, Reached applySetter bytes out →
    (Accepts (PacketView.new P out.bytes) ↔ Readable P out.bytes ∧ revalidated out.bytes)

/-- The length is all that is known of a buffer after raw writes, so it is enough to look
at buffers of at least the minimal length. -/
theorem afterWrites_of_length [PacketSpec P] [PacketTrait P]
    {applySetter : S → PacketViewMut P → Exec (PacketViewMut P)}
    {headed readable revalidated : Bytes → Prop} {settable : S → Bytes → Prop} (least : ℕ)
    (fixed : ∀ bytes, PacketSpec.validate P bytes = .ok (.ok ()) → least ≤ bytes.length)
    (keeps : ∀ setter view view', applySetter setter view = .ok view' →
      view'.bytes.length = view.bytes.length)
    (header : ∀ view : PacketViewMut P, least ≤ view.bytes.length →
      (Returns view.headerBytes ↔ headed view.bytes))
    (accessors : ∀ bytes, least ≤ bytes.length → (Readable P bytes ↔ readable bytes))
    (setters : ∀ setter (view : PacketViewMut P), least ≤ view.bytes.length →
      (Returns (applySetter setter view) ↔ settable setter view.bytes))
    (validation : ∀ bytes, least ≤ bytes.length →
      (PacketSpec.validate P bytes = .ok (.ok ()) ↔ readable bytes ∧ revalidated bytes)) :
    AfterWrites P applySetter headed readable revalidated settable := by
  have length {bytes : Bytes} {out : PacketViewMut P} (reached : Reached applySetter bytes out) :
      least ≤ bytes.length ∧ out.bytes.length = bytes.length := by
    obtain ⟨view, uses, created, run⟩ := reached
    obtain ⟨valid, rfl⟩ := PacketViewMut.new_eq_ok_iff.mp created
    exact ⟨fixed bytes valid, length_of_runOps (length_of_use keeps) run⟩
  have long {bytes : Bytes} {out : PacketViewMut P} (reached : Reached applySetter bytes out) :
      least ≤ out.bytes.length := (length reached).2.symm ▸ (length reached).1
  refine ⟨?_, ?_, ?_, ?_, ?_⟩
  · rintro bytes contents ⟨view, created⟩
    refine ⟨fun reached => (length reached).2, fun same => ?_⟩
    obtain ⟨write, written⟩ := exists_write same
    refine ⟨view, [.asSliceMut write], created, ?_⟩
    obtain ⟨_, rfl⟩ := PacketViewMut.new_eq_ok_iff.mp created
    exact congrArg Except.ok (PacketViewMut.ext written)
  · exact fun _ out reached => header out (long reached)
  · exact fun _ out reached => accessors out.bytes (long reached)
  · exact fun _ out setter reached => setters setter out (long reached)
  · intro _ out reached
    rw [accepts_new_iff, validation out.bytes (long reached), accessors out.bytes (long reached)]

/-! ## The protocols -/

namespace Ipv4

/-- The header holds its fixed part and ends inside the packet. -/
def Splits (bytes : Bytes) : Prop :=
  20 ≤ headerLength bytes ∧ headerLength bytes ≤ min (wordAt bytes 2).toNat bytes.length

/-- A computed checksum needs a header that contains the field. -/
def Settable : Setter → Bytes → Prop
  | .computeAndSetChecksum, bytes => 12 ≤ headerLength bytes ∧ headerLength bytes ≤ bytes.length
  | _, _ => True

variable {bytes : Bytes}

theorem readable_iff (fixed : 20 ≤ bytes.length) : Readable Ipv4 bytes ↔ Splits bytes := by
  have options : Ipv4Packet.options bytes = range bytes 20 (headerLength bytes) := by
    rw [Ipv4Packet.options, packet_headerLen_eq_ok (by omega), ok_bind, minPacketLen]
  have payload : Ipv4Packet.payload bytes =
      range bytes (headerLength bytes) (min (wordAt bytes 2).toNat bytes.length) := by
    rw [Ipv4Packet.payload, packet_headerLen_eq_ok (by omega), ok_bind, Ipv4Packet.totalLen,
      readU16_eq_ok (by omega), ok_bind]
  constructor
  · intro readable
    have first : Returns (Ipv4Packet.options bytes) := readable .options
    have second : Returns (Ipv4Packet.payload bytes) := readable .payload
    rw [options, returns_range_iff] at first
    rw [payload, returns_range_iff] at second
    exact ⟨first.1, second.1⟩
  · rintro ⟨words, header⟩ accessor
    have inside := header.trans (Nat.min_le_right _ _)
    cases accessor with
    | field f => exact f.get_returns fixed
    | headerLen => exact .of_eq_ok (packet_headerLen_eq_ok (by omega))
    | options =>
      have returns : Returns (range bytes 20 (headerLength bytes)) :=
        returns_range_iff.mpr ⟨words, inside⟩
      rwa [← options] at returns
    | payload =>
      have returns := returns_range_iff.mpr ⟨header, Nat.min_le_right _ bytes.length⟩
      rwa [← payload] at returns

theorem computeAndSetChecksum_returns_iff {view : PacketViewMut Ipv4}
    (fixed : 20 ≤ view.bytes.length) : Returns (computeAndSetChecksum view) ↔
      12 ≤ headerLength view.bytes ∧ headerLength view.bytes ≤ view.bytes.length := by
  obtain ⟨bytes⟩ := view
  have size := headerLength_le bytes
  rw [computeAndSetChecksum, packet_headerLen_eq_ok (by omega), ok_bind]
  by_cases inside : headerLength bytes ≤ bytes.length
  · have length : (bytes.take (headerLength bytes)).length = headerLength bytes := by
      rw [List.length_take, Nat.min_eq_left inside]
    rw [rangeTo_eq_ok inside, ok_bind, and_iff_left inside]
    by_cases field : 12 ≤ headerLength bytes
    · refine iff_of_true ?_ field
      rw [compute_eq (by omega) rfl, if_pos (sumOutside_lt (by omega) 10), ok_bind]
      exact .of_eq_ok (PacketViewMut.copyFromSlice_u16 (by dsimp only at *; omega) _)
    · -- The assertion on the field's position fails.
      have outside : ¬ 10 + 1 < (bytes.take (headerLength bytes)).length := by omega
      have faults : compute (bytes.take (headerLength bytes)) 10 = .error .assertion := by
        simp only [compute, onesComplementSum, Option.map_some, Option.getD_some,
          decide_eq_false outside, Bool.false_and]
        rfl
      refine iff_of_false ?_ field
      rw [faults, error_bind]
      exact not_returns_error _
  · refine iff_of_false ?_ fun both => inside both.2
    rw [rangeTo, if_neg inside, error_bind]
    exact not_returns_error _

theorem setter_returns_iff (setter : Setter) {view : PacketViewMut Ipv4}
    (fixed : 20 ≤ view.bytes.length) :
    Returns (setter.apply view) ↔ Settable setter view.bytes := by
  cases setter with
  | ttl value => exact iff_of_true (.of_eq_ok (PacketViewMut.assign_eq_ok (by omega) value)) trivial
  | protocol value =>
    exact iff_of_true (.of_eq_ok (PacketViewMut.assign_eq_ok (by omega) value)) trivial
  | checksum value =>
    exact iff_of_true (.of_eq_ok (PacketViewMut.copyFromSlice_u16 (by omega) value)) trivial
  | src value =>
    exact iff_of_true (.of_eq_ok
      (PacketViewMut.copyFromSlice_eq_ok (by decide) (by omega) value.length_toList)) trivial
  | dst value =>
    exact iff_of_true (.of_eq_ok
      (PacketViewMut.copyFromSlice_eq_ok (by decide) (by omega) value.length_toList)) trivial
  | computeAndSetChecksum => exact computeAndSetChecksum_returns_iff fixed

theorem afterWrites : AfterWrites Ipv4 Setter.apply
    (fun bytes => headerLength bytes ≤ bytes.length) Splits
    (fun bytes => byteAt bytes 0 >>> 4 = 4) Settable := by
  refine afterWrites_of_length 20 (fun _ valid => (validate_eq_ok_iff.mp valid).fixed)
    (fun _ _ _ => Setter.apply_length) ?_ (fun _ => readable_iff)
    (fun setter _ => setter_returns_iff setter) ?_
  · intro view long
    have length : PacketSpec.headerLen Ipv4 view.bytes = .ok (headerLength view.bytes) :=
      headerLen_eq_ok (by omega)
    rw [PacketViewMut.headerBytes, length, ok_bind, returns_rangeTo_iff]
  · intro bytes long
    refine validate_eq_ok_iff.trans ⟨?_, ?_⟩
    · rintro ⟨_, version, words, header, total⟩
      exact ⟨⟨words, Nat.le_min.mpr ⟨total, header⟩⟩, version⟩
    · rintro ⟨⟨words, header⟩, version⟩
      obtain ⟨total, inside⟩ := Nat.le_min.mp header
      exact ⟨long, version, words, inside, total⟩

end Ipv4

namespace Ipv6

theorem afterWrites : AfterWrites Ipv6 Setter.apply (fun _ => True) (fun _ => True)
    (fun bytes => byteAt bytes 0 >>> 4 = 6) (fun _ _ => True) := by
  refine afterWrites_of_length 40 (fun _ valid => (validate_eq_ok_iff.mp valid).fixed)
    (fun _ _ _ => Setter.apply_length) ?_
    (fun _ long => iff_of_true (accessor_returns long) trivial) ?_ ?_
  · intro view long
    exact iff_of_true (.of_eq_ok (rangeTo_eq_ok long)) trivial
  · intro setter view long
    refine iff_of_true ?_ trivial
    cases setter with
    | payloadLen value => exact .of_eq_ok (PacketViewMut.copyFromSlice_u16 (by omega) value)
    | nextHeader value => exact .of_eq_ok (PacketViewMut.assign_eq_ok (by omega) value)
    | hopLimit value => exact .of_eq_ok (PacketViewMut.assign_eq_ok (by omega) value)
    | src value =>
      exact .of_eq_ok (PacketViewMut.copyFromSlice_eq_ok (by decide) (by omega) value.length_toList)
    | dst value =>
      exact .of_eq_ok (PacketViewMut.copyFromSlice_eq_ok (by decide) (by omega) value.length_toList)
  · intro bytes long
    refine validate_eq_ok_iff.trans ⟨fun wellFormed => ⟨trivial, wellFormed.version⟩, ?_⟩
    rintro ⟨_, version⟩
    exact ⟨long, version⟩

end Ipv6

namespace Tcp

/-- A data offset below 5 trips an assertion, and a sum that overflows panics. -/
def Settable : Setter → Bytes → Prop
  | .dataOffset value, _ => value ≥ 5
  | .computeAndSetChecksumIpv4 _ _, bytes => sumOutside bytes 16 < 2 ^ 32
  | .computeAndSetChecksumIpv6 _ _, bytes => sumOutside bytes 16 < 2 ^ 32
  | _, _ => True

theorem setter_returns_iff (setter : Setter) {view : PacketViewMut Tcp}
    (fixed : 20 ≤ view.bytes.length) :
    Returns (setter.apply view) ↔ Settable setter view.bytes := by
  have word (offset : ℕ) (inside : offset + 2 ≤ 20) (value : UInt16) :
      Returns (view.copyFromSlice offset (offset + 2) (u16ToBeBytes value)) :=
    .of_eq_ok (PacketViewMut.copyFromSlice_u16 (by omega) value)
  have stored (value : UInt16) : Returns (setChecksum view value) := word 16 (by decide) value
  cases setter with
  | srcPort value => exact iff_of_true (word 0 (by decide) value) trivial
  | dstPort value => exact iff_of_true (word 2 (by decide) value) trivial
  | seqNumber value =>
    exact iff_of_true (.of_eq_ok (PacketViewMut.copyFromSlice_eq_ok (by decide) (by omega) rfl))
      trivial
  | ackNumber value =>
    exact iff_of_true (.of_eq_ok (PacketViewMut.copyFromSlice_eq_ok (by decide) (by omega) rfl))
      trivial
  | flags value =>
    refine iff_of_true ?_ trivial
    have first : 12 < view.bytes.length := by omega
    rw [Setter.apply, setFlags, index_byteAt first, ok_bind]
    dsimp only
    rw [PacketViewMut.assign_eq_ok first, ok_bind]
    exact .of_eq_ok (PacketViewMut.assign_eq_ok (by rw [List.length_set]; omega) _)
  | dataOffset value =>
    by_cases five : value ≥ 5
    · refine iff_of_true ?_ five
      have inside : 12 < view.bytes.length := by omega
      rw [Setter.apply, setDataOffset, decide_eq_true five, debugAssert_true, ok_bind,
        index_byteAt inside, ok_bind]
      exact .of_eq_ok (PacketViewMut.assign_eq_ok inside _)
    · refine iff_of_false ?_ five
      rw [Setter.apply, setDataOffset, decide_eq_false five]
      exact not_returns_error _
  | windowSize value => exact iff_of_true (word 14 (by decide) value) trivial
  | checksum value => exact iff_of_true (stored value) trivial
  | urgentPointer value => exact iff_of_true (word 18 (by decide) value) trivial
  | computeAndSetChecksumIpv4 src dst =>
    exact (returns_bind_iff stored).trans
      (tcpChecksumIpv4_eq src dst fixed ▸ returns_ite_iff)
  | computeAndSetChecksumIpv6 src dst =>
    exact (returns_bind_iff stored).trans
      (tcpChecksumIpv6_eq src dst fixed ▸ returns_ite_iff)

theorem afterWrites : AfterWrites Tcp Setter.apply
    (fun bytes => 20 < bytes.length ∧ headerLength bytes ≤ bytes.length)
    (fun bytes => 20 ≤ headerLength bytes ∧ headerLength bytes ≤ bytes.length)
    (fun _ => True) Settable := by
  have readable (bytes : Bytes) (long : 20 ≤ bytes.length) : WellFormed bytes ↔
      20 ≤ headerLength bytes ∧ headerLength bytes ≤ bytes.length :=
    ⟨fun wellFormed => ⟨wellFormed.words, wellFormed.header⟩, fun split => ⟨long, split.1, split.2⟩⟩
  refine afterWrites_of_length 20 (fun _ valid => (validate_eq_ok_iff.mp valid).fixed)
    (fun _ _ _ => Setter.apply_length) ?_
    (fun bytes long => (readable_iff long).trans (readable bytes long))
    (fun setter _ => setter_returns_iff setter) ?_
  · intro view long
    by_cases more : 20 < view.bytes.length
    · have length : PacketSpec.headerLen Tcp view.bytes = .ok (headerLength view.bytes) :=
        headerLen_eq_ok more
      rw [PacketViewMut.headerBytes, length, ok_bind, returns_rangeTo_iff, and_iff_right more]
    · -- The assertion asks for more than the fixed header.
      refine iff_of_false ?_ fun headed => more headed.1
      rintro ⟨header, prefixed⟩
      obtain ⟨headerLen, length, _⟩ := bind_eq_ok.mp prefixed
      exact more (headerLen_returns_iff.mp ⟨headerLen, length⟩)
  · intro bytes long
    rw [and_true]
    exact validate_eq_ok_iff.trans (readable bytes long)

end Tcp

namespace Udp

/-- A sum that overflows panics. -/
def Settable : Setter → Bytes → Prop
  | .computeAndSetChecksumIpv4 _ _, bytes => sumOutside bytes 6 < 2 ^ 32
  | .computeAndSetChecksumIpv6 _ _, bytes => sumOutside bytes 6 < 2 ^ 32
  | _, _ => True

theorem setter_returns_iff (setter : Setter) {view : PacketViewMut Udp}
    (fixed : 8 ≤ view.bytes.length) :
    Returns (setter.apply view) ↔ Settable setter view.bytes := by
  have word (offset : ℕ) (inside : offset + 2 ≤ 8) (value : UInt16) :
      Returns (view.copyFromSlice offset (offset + 2) (u16ToBeBytes value)) :=
    .of_eq_ok (PacketViewMut.copyFromSlice_u16 (by omega) value)
  have stored (value : UInt16) : Returns (setChecksum view value) := word 6 (by decide) value
  cases setter with
  | srcPort value => exact iff_of_true (word 0 (by decide) value) trivial
  | dstPort value => exact iff_of_true (word 2 (by decide) value) trivial
  | length value => exact iff_of_true (word 4 (by decide) value) trivial
  | checksum value => exact iff_of_true (stored value) trivial
  | computeAndSetChecksumIpv4 src dst =>
    exact (returns_bind_iff stored).trans
      (udpChecksumIpv4_eq src dst fixed ▸ returns_ite_iff)
  | computeAndSetChecksumIpv6 src dst =>
    exact (returns_bind_iff stored).trans
      (udpChecksumIpv6_eq src dst fixed ▸ returns_ite_iff)

theorem afterWrites : AfterWrites Udp Setter.apply (fun _ => True)
    (fun bytes => 8 ≤ (wordAt bytes 4).toNat)
    (fun bytes => (wordAt bytes 4).toNat ≤ bytes.length) Settable := by
  refine afterWrites_of_length 8 (fun _ valid => (validate_eq_ok_iff.mp valid).fixed)
    (fun _ _ _ => Setter.apply_length) ?_ (fun _ => readable_iff)
    (fun setter _ => setter_returns_iff setter) ?_
  · intro view long
    exact iff_of_true (.of_eq_ok (rangeTo_eq_ok long)) trivial
  · intro bytes long
    refine validate_eq_ok_iff.trans ⟨fun wellFormed => ⟨wellFormed.header, wellFormed.fits⟩, ?_⟩
    rintro ⟨header, fits⟩
    exact ⟨long, header, fits⟩

end Udp

/-- What is written through the slice of a mutable view can be anything of its length.
IPv6 views stay readable all the same; the others do exactly if the lengths in the header
still split the buffer. -/
theorem rawWrites_exact :
    AfterWrites Ipv4 Ipv4.Setter.apply
        (fun bytes => Ipv4.headerLength bytes ≤ bytes.length) Ipv4.Splits
        (fun bytes => byteAt bytes 0 >>> 4 = 4) Ipv4.Settable ∧
      AfterWrites Ipv6 Ipv6.Setter.apply (fun _ => True) (fun _ => True)
        (fun bytes => byteAt bytes 0 >>> 4 = 6) (fun _ _ => True) ∧
      AfterWrites Tcp Tcp.Setter.apply
        (fun bytes => 20 < bytes.length ∧ Tcp.headerLength bytes ≤ bytes.length)
        (fun bytes => 20 ≤ Tcp.headerLength bytes ∧ Tcp.headerLength bytes ≤ bytes.length)
        (fun _ => True) Tcp.Settable ∧
      AfterWrites Udp Udp.Setter.apply (fun _ => True)
        (fun bytes => 8 ≤ (wordAt bytes 4).toNat)
        (fun bytes => (wordAt bytes 4).toNat ≤ bytes.length) Udp.Settable :=
  ⟨Ipv4.afterWrites, Ipv6.afterWrites, Tcp.afterWrites, Udp.afterWrites⟩

/-- An accepted datagram written over with zeros, its length field among them. -/
theorem rawWrites_exact_zeros :
    let out : PacketViewMut Udp := ⟨List.replicate 8 0⟩
    Reached Udp.Setter.apply [0, 53, 4, 210, 0, 8, 0, 0] out ∧ Returns out.headerBytes ∧
      ¬ Readable Udp out.bytes ∧ Returns (Udp.Setter.apply (.length 8) out) ∧
      ¬ Accepts (PacketView.new Udp out.bytes) := by
  intro out
  have laws := rawWrites_exact.2.2.2
  have reached : Reached Udp.Setter.apply [0, 53, 4, 210, 0, 8, 0, 0] out :=
    (laws.reaches [0, 53, 4, 210, 0, 8, 0, 0] _ (by decide)).mpr rfl
  have unreadable : ¬ Readable Udp out.bytes := fun readable =>
    absurd ((laws.accessors _ out reached).mp readable) (by decide)
  exact ⟨reached, (laws.header _ out reached).mpr trivial, unreadable,
    (laws.setters _ out (.length 8) reached).mpr trivial,
    fun accepted => unreadable ((laws.validation _ out reached).mp accepted).1⟩

end Packet

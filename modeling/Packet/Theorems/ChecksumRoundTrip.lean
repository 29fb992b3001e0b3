/-
# Stored checksums verify

Five calls compute a checksum and store it; five constructors verify one. IPv4
verifies by summing the field in, TCP and UDP by recomputing, and UDP over IPv4
also accepts a zero field unchecked. Each call is proved to satisfy the
constructor it belongs to, after any history of setters.
-/

import Packet.Model.Ipv4
import Packet.Model.Setters
import Packet.Model.Tcp
import Packet.Model.Udp

namespace Packet

open Rust Checksum

section Contract

variable {P ω : Type} [PacketSpec P]

/-- The words of a buffer that was short at first still add up without overflow. -/
theorem sumOutside_lt_of_run {apply : ω → PacketViewMut P → Exec (PacketViewMut P)}
    (keeps : ∀ setter view view', apply setter view = .ok view' →
      view'.bytes.length = view.bytes.length)
    {bytes : Bytes} {view view' : PacketViewMut P} {setters : List ω}
    (short : bytes.length ≤ 65535) (opened : PacketViewMut.new P bytes = .ok (.ok view))
    (run : runOps apply setters view = .ok view') (offset : ℕ) :
    sumOutside view'.bytes offset < 2 ^ 32 := by
  have size := length_of_runOps keeps run
  rw [(PacketViewMut.new_eq_ok_iff.mp opened).2] at size
  exact sumOutside_lt (size ▸ short) offset

/-- A call has stored a checksum: it returns, the constructor accepts what it
leaves, no byte outside the checksum field has changed, and a second call changes
nothing. -/
structure Stored (computeAndSet : PacketViewMut P → Exec (PacketViewMut P))
    (newVerified : Bytes → Exec (Result (PacketView P))) (offset : ℕ)
    (view out : PacketViewMut P) : Prop where
  returns : computeAndSet view = .ok out
  accepted : Accepts (newVerified out.bytes)
  length : out.bytes.length = view.bytes.length
  outside : ∀ i, i < offset ∨ offset + 2 ≤ i → out.bytes[i]? = view.bytes[i]?
  again : computeAndSet out = .ok out

/-- The contract between a call that stores a checksum and the constructor that
verifies it: the call does so from an accepted buffer of at most 65535 bytes,
after any run of setters that leaves the buffer accepted. -/
def StoresVerified (apply : ω → PacketViewMut P → Exec (PacketViewMut P))
    (computeAndSet : PacketViewMut P → Exec (PacketViewMut P))
    (newVerified : Bytes → Exec (Result (PacketView P))) (offset : ℕ) : Prop :=
  ∀ (bytes : Bytes) (view view' : PacketViewMut P) (setters : List ω),
    bytes.length ≤ 65535 →
    PacketViewMut.new P bytes = .ok (.ok view) →
    runOps apply setters view = .ok view' →
    PacketSpec.validate P view'.bytes = .ok (.ok ()) →
    ∃ out, Stored computeAndSet newVerified offset view' out

/-- Storing a value that does not depend on the stored one meets the contract. -/
theorem stored_of_fixed {computeAndSet : PacketViewMut P → Exec (PacketViewMut P)}
    {newVerified : Bytes → Exec (Result (PacketView P))} {view : PacketViewMut P} {offset : ℕ}
    (value : UInt16) (inside : offset + 2 ≤ view.bytes.length)
    (first : computeAndSet view = view.copyFromSlice offset (offset + 2) (u16ToBeBytes value))
    (second : computeAndSet ⟨splice view.bytes offset (u16ToBeBytes value)⟩ =
      PacketViewMut.copyFromSlice ⟨splice view.bytes offset (u16ToBeBytes value)⟩ offset
        (offset + 2) (u16ToBeBytes value))
    (verified : Accepts (newVerified (splice view.bytes offset (u16ToBeBytes value)))) :
    Stored computeAndSet newVerified offset view
      ⟨splice view.bytes offset (u16ToBeBytes value)⟩ where
  returns := by rw [first, PacketViewMut.copyFromSlice_u16 inside]
  accepted := verified
  length := splice_length inside
  outside := fun _ outside => splice_getElem?_of_outside (by omega) outside
  again := by
    have size : (splice view.bytes offset (u16ToBeBytes value)).length = view.bytes.length :=
      splice_length inside
    rw [second, PacketViewMut.copyFromSlice_u16 (by rw [size]; exact inside),
      splice_splice rfl (by omega)]

/-- A call that stores a checksum of the whole buffer meets the contract, when the
constructor accepts an accepted buffer that stores its own checksum. -/
theorem storesVerified_of_recomputed {apply : ω → PacketViewMut P → Exec (PacketViewMut P)}
    {newVerified : Bytes → Exec (Result (PacketView P))} {checksum : Bytes → Exec UInt16}
    {offset : ℕ} (keeps : ∀ setter view view', apply setter view = .ok view' →
      view'.bytes.length = view.bytes.length)
    (computes : ∀ bytes, PacketSpec.validate P bytes = .ok (.ok ()) →
      ∃ pseudo, SegmentChecksum checksum pseudo bytes offset)
    (verified : ∀ bytes value, PacketSpec.validate P bytes = .ok (.ok ()) →
      checksum (splice bytes offset (u16ToBeBytes value)) =
        .ok (wordAt (splice bytes offset (u16ToBeBytes value)) offset) →
      Accepts (newVerified (splice bytes offset (u16ToBeBytes value)))) :
    StoresVerified apply (fun view => do
      let cksum ← checksum view.bytes
      view.copyFromSlice offset (offset + 2) (u16ToBeBytes cksum)) newVerified offset := by
  intro bytes view view' setters short opened run valid
  have fits : sumOutside view'.bytes offset < 2 ^ 32 :=
    sumOutside_lt_of_run keeps short opened run offset
  obtain ⟨pseudo, sums⟩ := computes _ valid
  have room := sums.inside
  let value := checksumOf (wordSum pseudo + sumOutside view'.bytes offset)
  have first : checksum view'.bytes = .ok value := by
    rw [sums.value, if_pos fits]
  -- The value stored is the one computed again over it.
  have second : checksum (splice view'.bytes offset (u16ToBeBytes value)) = .ok value :=
    (sums.unread value).trans first
  refine ⟨_, stored_of_fixed value room ?_ ?_ (verified _ _ valid ?_)⟩
  · rw [first, ok_bind]
  · rw [second, ok_bind]
  · rw [second, wordAt_splice_self (by omega)]

end Contract

namespace Ipv4

theorem storesVerified :
    StoresVerified Setter.apply computeAndSetChecksum newVerified 10 := by
  intro bytes view view' setters _ _ _ valid
  have wellFormed : WellFormed view'.bytes := validate_eq_ok_iff.mp valid
  have fixed := wellFormed.fixed
  -- The header is still well-formed with its checksum stored, and its sum outside
  -- the field is the same.
  let value := checksumOf (headerTotal view'.bytes)
  have stored := wellFormed.splice_checksum value
  have total := headerTotal_splice wellFormed value
  refine ⟨_, stored_of_fixed value (by omega) (computeAndSetChecksum_eq view' wellFormed) ?_ ?_⟩
  · rw [computeAndSetChecksum_eq ⟨splice view'.bytes 10 (u16ToBeBytes value)⟩ stored, total]
    rfl
  · refine accepts_newVerified_iff.mpr ⟨stored, .inl ?_⟩
    rw [wordAt_splice_self (by omega), total]

end Ipv4

namespace Tcp

theorem storesVerifiedIpv4 (src dst : Ipv4Addr) :
    StoresVerified Setter.apply (fun view => computeAndSetChecksumIpv4 view src dst)
      (fun bytes => newVerifiedIpv4 bytes src dst) 16 := by
  refine storesVerified_of_recomputed (fun _ _ _ => Setter.apply_length) ?_ ?_
  · intro bytes valid
    exact ⟨_, segmentChecksumIpv4 src dst (validate_eq_ok_iff.mp valid).fixed⟩
  · intro bytes value valid checks
    exact accepts_newVerifiedIpv4_iff.mpr
      ⟨(validate_eq_ok_iff.mp valid).splice_checksum value, checks⟩

theorem storesVerifiedIpv6 (src dst : Ipv6Addr) :
    StoresVerified Setter.apply (fun view => computeAndSetChecksumIpv6 view src dst)
      (fun bytes => newVerifiedIpv6 bytes src dst) 16 := by
  refine storesVerified_of_recomputed (fun _ _ _ => Setter.apply_length) ?_ ?_
  · intro bytes valid
    exact ⟨_, segmentChecksumIpv6 src dst (validate_eq_ok_iff.mp valid).fixed⟩
  · intro bytes value valid checks
    exact accepts_newVerifiedIpv6_iff.mpr
      ⟨(validate_eq_ok_iff.mp valid).splice_checksum value, checks⟩

end Tcp

namespace Udp

/-- A computed zero is stored as it is, and accepted as "not computed". -/
theorem storesVerifiedIpv4 (src dst : Ipv4Addr) :
    StoresVerified Setter.apply (fun view => computeAndSetChecksumIpv4 view src dst)
      (fun bytes => newVerifiedIpv4 bytes src dst) 6 := by
  refine storesVerified_of_recomputed (fun _ _ _ => Setter.apply_length) ?_ ?_
  · intro bytes valid
    exact ⟨_, segmentChecksumIpv4 src dst (validate_eq_ok_iff.mp valid).fixed⟩
  · intro bytes value valid checks
    -- The recomputation succeeds whether or not the stored value is skipped.
    exact accepts_newVerifiedIpv4_iff.mpr
      ⟨(validate_eq_ok_iff.mp valid).splice_checksum value, .inr checks⟩

theorem storesVerifiedIpv6 (src dst : Ipv6Addr) :
    StoresVerified Setter.apply (fun view => computeAndSetChecksumIpv6 view src dst)
      (fun bytes => newVerifiedIpv6 bytes src dst) 6 := by
  refine storesVerified_of_recomputed (fun _ _ _ => Setter.apply_length) ?_ ?_
  · intro bytes valid
    exact ⟨_, segmentChecksumIpv6 src dst (validate_eq_ok_iff.mp valid).fixed⟩
  · intro bytes value valid checks
    exact accepts_newVerifiedIpv6_iff.mpr
      ⟨(validate_eq_ok_iff.mp valid).splice_checksum value, checks⟩

end Udp

/-- Every call that stores a checksum meets its contract. -/
theorem storedChecksums_verify :
    StoresVerified Ipv4.Setter.apply Ipv4.computeAndSetChecksum Ipv4.newVerified 10 ∧
    (∀ src dst, StoresVerified Tcp.Setter.apply
      (fun view => Tcp.computeAndSetChecksumIpv4 view src dst)
      (fun bytes => Tcp.newVerifiedIpv4 bytes src dst) 16) ∧
    (∀ src dst, StoresVerified Tcp.Setter.apply
      (fun view => Tcp.computeAndSetChecksumIpv6 view src dst)
      (fun bytes => Tcp.newVerifiedIpv6 bytes src dst) 16) ∧
    (∀ src dst, StoresVerified Udp.Setter.apply
      (fun view => Udp.computeAndSetChecksumIpv4 view src dst)
      (fun bytes => Udp.newVerifiedIpv4 bytes src dst) 6) ∧
    (∀ src dst, StoresVerified Udp.Setter.apply
      (fun view => Udp.computeAndSetChecksumIpv6 view src dst)
      (fun bytes => Udp.newVerifiedIpv6 bytes src dst) 6) :=
  ⟨Ipv4.storesVerified, Tcp.storesVerifiedIpv4, Tcp.storesVerifiedIpv6, Udp.storesVerifiedIpv4,
    Udp.storesVerifiedIpv6⟩

/-- A header without options, its source address set after the fact. -/
theorem storedChecksums_verify_header :
    ∃ out, Stored Ipv4.computeAndSetChecksum Ipv4.newVerified 10
      ⟨[0x45, 0, 0, 20, 0, 0, 0, 0, 64, 6, 0, 0, 10, 0, 0, 1, 0, 0, 0, 0]⟩ out :=
  storedChecksums_verify.1 [0x45, 0, 0, 20, 0, 0, 0, 0, 64, 6, 0, 0, 0, 0, 0, 0, 0, 0, 0, 0] _ _
    [.src #v[10, 0, 0, 1]] (by decide) rfl rfl rfl

end Packet

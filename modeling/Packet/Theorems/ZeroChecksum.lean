/-
# The two representations of zero

A one's-complement sum has two zeros, `0x0000` and `0xffff`. Verification by
summing the stored field in takes either; verification by recomputing and
comparing takes only `0x0000`, which is what a checksum of zero is computed to.
Over UDP that value stands for "not computed". All three results below turn on
the one class of messages whose words add up to a multiple of 65535.
-/

import Packet.Model.Tcp
import Packet.Model.Udp

namespace Packet

open Rust Checksum

/-! ## Recomputing against summing -/

/-- Recomputing and summing agree on a message unless it stores `0xffff` and sums
to zero. -/
theorem recompute_agrees_iff {accepts : Prop} {checksum : Bytes → Exec UInt16}
    {pseudo segment : Bytes} {offset : ℕ} (sums : SegmentChecksum checksum pseudo segment offset)
    (short : segment.length ≤ 65535)
    (recomputes : accepts ↔ checksum segment = .ok (wordAt segment offset)) :
    (accepts ↔ verify (pseudo ++ segment) = .ok true) ↔
      ¬ (wordAt segment offset = 0xffff ∧ 65535 ∣ wordSum (pseudo ++ segment)) := by
  have parts : wordSum (pseudo ++ segment) =
      wordSum pseudo + sumOutside segment offset + (wordAt segment offset).toNat :=
    wordSum_message sums.aligned sums.even sums.inside
  have nonzero := sums.nonzero
  have positive : wordSum (pseudo ++ segment) ≠ 0 := by omega
  have small := sums.small
  have fits : wordSum (pseudo ++ segment) < 2 ^ 32 :=
    wordSum_lt (by rw [List.length_append]; omega)
  -- Both accept the multiples of 65535; recomputing leaves out those that store `0xffff`.
  rw [recomputes, sums.eq_ok short, Except.ok.injEq, checksumOf_eq_iff nonzero,
    verify_eq_true_iff fits, ← parts]
  tauto

namespace Tcp

variable {bytes : Bytes}

theorem newVerifiedIpv4_agrees_iff (src dst : Ipv4Addr)
    (accepted : Accepts (PacketView.new Tcp bytes)) (short : bytes.length ≤ 65535) :
    (Accepts (newVerifiedIpv4 bytes src dst) ↔
      verify (pseudoIpv4 src dst tcpProtocol (.ofNat bytes.length) ++ bytes) = .ok true) ↔
    ¬ (TcpPacket.checksum bytes = .ok 0xffff ∧
      65535 ∣ wordSum (pseudoIpv4 src dst tcpProtocol (.ofNat bytes.length) ++ bytes)) := by
  have wellFormed : WellFormed bytes := validate_eq_ok_iff.mp (accepts_new_iff.mp accepted)
  have fixed := wellFormed.fixed
  rw [checksum_eq_ok fixed, Except.ok.injEq]
  exact recompute_agrees_iff (segmentChecksumIpv4 src dst fixed) short
    (accepts_newVerifiedIpv4_iff.trans (and_iff_right wellFormed))

theorem newVerifiedIpv6_agrees_iff (src dst : Ipv6Addr)
    (accepted : Accepts (PacketView.new Tcp bytes)) (short : bytes.length ≤ 65535) :
    (Accepts (newVerifiedIpv6 bytes src dst) ↔
      verify (pseudoIpv6 src dst tcpProtocol (.ofNat bytes.length) ++ bytes) = .ok true) ↔
    ¬ (TcpPacket.checksum bytes = .ok 0xffff ∧
      65535 ∣ wordSum (pseudoIpv6 src dst tcpProtocol (.ofNat bytes.length) ++ bytes)) := by
  have wellFormed : WellFormed bytes := validate_eq_ok_iff.mp (accepts_new_iff.mp accepted)
  have fixed := wellFormed.fixed
  rw [checksum_eq_ok fixed, Except.ok.injEq]
  exact recompute_agrees_iff (segmentChecksumIpv6 src dst fixed) short
    (accepts_newVerifiedIpv6_iff.trans (and_iff_right wellFormed))

end Tcp

namespace Udp

variable {bytes : Bytes} {length : UInt16}

/-- The length field of a datagram it delimits. -/
private theorem wordAt_of_delimited (fixed : 8 ≤ bytes.length)
    (field : UdpPacket.length bytes = .ok length) (delimited : length.toNat = bytes.length) :
    wordAt bytes 4 = .ofNat bytes.length ∧ (wordAt bytes 4).toNat = bytes.length := by
  rw [length_eq_ok fixed] at field
  obtain rfl := Except.ok.inj field
  rw [← delimited]
  exact ⟨UInt16.ofNat_toNat.symm, rfl⟩

theorem newVerifiedIpv4_agrees_iff (src dst : Ipv4Addr)
    (accepted : Accepts (PacketView.new Udp bytes))
    (field : UdpPacket.length bytes = .ok length) (delimited : length.toNat = bytes.length)
    (present : UdpPacket.checksum bytes ≠ .ok 0) :
    (Accepts (newVerifiedIpv4 bytes src dst) ↔
      verify (pseudoIpv4 src dst udpProtocol (.ofNat bytes.length) ++ bytes) = .ok true) ↔
    ¬ (UdpPacket.checksum bytes = .ok 0xffff ∧
      65535 ∣ wordSum (pseudoIpv4 src dst udpProtocol (.ofNat bytes.length) ++ bytes)) := by
  have wellFormed : WellFormed bytes := validate_eq_ok_iff.mp (accepts_new_iff.mp accepted)
  have fixed := wellFormed.fixed
  obtain ⟨word, size⟩ := wordAt_of_delimited fixed field delimited
  have bound := (wordAt bytes 4).toNat_lt
  rw [checksum_eq_ok fixed, ne_eq, Except.ok.injEq] at present
  rw [checksum_eq_ok fixed, Except.ok.injEq, ← word]
  refine recompute_agrees_iff (segmentChecksumIpv4 src dst fixed) (by omega) ?_
  rw [accepts_newVerifiedIpv4_iff, or_iff_right present]
  exact and_iff_right wellFormed

theorem newVerifiedIpv6_agrees_iff (src dst : Ipv6Addr)
    (accepted : Accepts (PacketView.new Udp bytes))
    (field : UdpPacket.length bytes = .ok length) (delimited : length.toNat = bytes.length) :
    (Accepts (newVerifiedIpv6 bytes src dst) ↔
      verify (pseudoIpv6 src dst udpProtocol (.ofNat bytes.length) ++ bytes) = .ok true) ↔
    ¬ (UdpPacket.checksum bytes = .ok 0xffff ∧
      65535 ∣ wordSum (pseudoIpv6 src dst udpProtocol (.ofNat bytes.length) ++ bytes)) := by
  have wellFormed : WellFormed bytes := validate_eq_ok_iff.mp (accepts_new_iff.mp accepted)
  have fixed := wellFormed.fixed
  obtain ⟨_, size⟩ := wordAt_of_delimited fixed field delimited
  have bound := (wordAt bytes 4).toNat_lt
  rw [checksum_eq_ok fixed, Except.ok.injEq, ← size]
  exact recompute_agrees_iff (segmentChecksumIpv6 src dst fixed) (by omega)
    (accepts_newVerifiedIpv6_iff.trans (and_iff_right wellFormed))

end Udp

/-- Verification by recomputation agrees with `checksum::verify` of the whole
message unless the message stores `0xffff` and sums to zero. -/
theorem recomputed_agrees_with_summed {bytes : Bytes} (short : bytes.length ≤ 65535)
    (src₄ dst₄ : Ipv4Addr) (src₆ dst₆ : Ipv6Addr) :
    (Accepts (PacketView.new Tcp bytes) →
      ((Accepts (Tcp.newVerifiedIpv4 bytes src₄ dst₄) ↔
          verify (pseudoIpv4 src₄ dst₄ 6 (.ofNat bytes.length) ++ bytes) = .ok true) ↔
        ¬ (TcpPacket.checksum bytes = .ok 0xffff ∧
          65535 ∣ wordSum (pseudoIpv4 src₄ dst₄ 6 (.ofNat bytes.length) ++ bytes))) ∧
      ((Accepts (Tcp.newVerifiedIpv6 bytes src₆ dst₆) ↔
          verify (pseudoIpv6 src₆ dst₆ 6 (.ofNat bytes.length) ++ bytes) = .ok true) ↔
        ¬ (TcpPacket.checksum bytes = .ok 0xffff ∧
          65535 ∣ wordSum (pseudoIpv6 src₆ dst₆ 6 (.ofNat bytes.length) ++ bytes)))) ∧
    (∀ length, Accepts (PacketView.new Udp bytes) → UdpPacket.length bytes = .ok length →
      length.toNat = bytes.length →
      (UdpPacket.checksum bytes ≠ .ok 0 →
        ((Accepts (Udp.newVerifiedIpv4 bytes src₄ dst₄) ↔
            verify (pseudoIpv4 src₄ dst₄ 17 (.ofNat bytes.length) ++ bytes) = .ok true) ↔
          ¬ (UdpPacket.checksum bytes = .ok 0xffff ∧
            65535 ∣ wordSum (pseudoIpv4 src₄ dst₄ 17 (.ofNat bytes.length) ++ bytes)))) ∧
      ((Accepts (Udp.newVerifiedIpv6 bytes src₆ dst₆) ↔
          verify (pseudoIpv6 src₆ dst₆ 17 (.ofNat bytes.length) ++ bytes) = .ok true) ↔
        ¬ (UdpPacket.checksum bytes = .ok 0xffff ∧
          65535 ∣ wordSum (pseudoIpv6 src₆ dst₆ 17 (.ofNat bytes.length) ++ bytes)))) := by
  constructor
  · intro accepted
    exact ⟨Tcp.newVerifiedIpv4_agrees_iff src₄ dst₄ accepted short,
      Tcp.newVerifiedIpv6_agrees_iff src₆ dst₆ accepted short⟩
  · intro length accepted field delimited
    exact ⟨Udp.newVerifiedIpv4_agrees_iff src₄ dst₄ accepted field delimited,
      Udp.newVerifiedIpv6_agrees_iff src₆ dst₆ accepted field delimited⟩

/-- An empty segment with its checksum in place. -/
theorem recomputed_agrees_with_summed_segment :
    let segment : Bytes := [0, 0, 0, 0, 0, 0, 0, 0, 0, 0, 0, 0, 0x50, 0, 0, 0, 0xaf, 0xe5, 0, 0]
    let address : Ipv4Addr := .replicate 4 0
    (Accepts (Tcp.newVerifiedIpv4 segment address address) ↔
        verify (pseudoIpv4 address address 6 20 ++ segment) = .ok true) ↔
      ¬ (TcpPacket.checksum segment = .ok 0xffff ∧
        65535 ∣ wordSum (pseudoIpv4 address address 6 20 ++ segment)) :=
  ((recomputed_agrees_with_summed (by decide) _ _ (.replicate 16 0) (.replicate 16 0)).1
    (by decide)).1

/-- A segment that sums to zero and is sent with `0xffff`: correct as a message,
rejected by the constructor. -/
theorem sent_as_ffff_rejected :
    let segment : Bytes :=
      [0xaf, 0xe5, 0, 0, 0, 0, 0, 0, 0, 0, 0, 0, 0x50, 0, 0, 0, 0xff, 0xff, 0, 0]
    let address : Ipv4Addr := .replicate 4 0
    Accepts (PacketView.new Tcp segment) ∧ segment.length ≤ 65535 ∧
    verify (pseudoIpv4 address address 6 20 ++ segment) = .ok true ∧
    ¬ Accepts (Tcp.newVerifiedIpv4 segment address address) := by
  decide

namespace Udp

/-! ## Zero checksums over UDP -/

section Store

variable {view : PacketViewMut Udp} {value : UInt16}

/-- The value a completed call stores is the value it computed. -/
theorem checksum_of_setChecksum {out : PacketViewMut Udp} (fixed : 8 ≤ view.bytes.length)
    (stored : setChecksum view value = .ok out) : UdpPacket.checksum out.bytes = .ok value := by
  have written : setChecksum view value = .ok ⟨splice view.bytes 6 (u16ToBeBytes value)⟩ :=
    PacketViewMut.copyFromSlice_u16 (by omega) value
  obtain rfl := Except.ok.inj (written.symm.trans stored)
  have size : (splice view.bytes 6 (u16ToBeBytes value)).length = view.bytes.length :=
    length_splice_word (by omega) value
  rw [checksum_eq_ok (by rw [size]; exact fixed), wordAt_splice_self (by omega)]

/-- Storing a checksum computed from a total never stores zero exactly when the
total overflows or is not a multiple of 65535. -/
theorem stores_nonzero_iff {checksum : Exec UInt16} {total : ℕ} {fits : Prop} [Decidable fits]
    (fixed : 8 ≤ view.bytes.length) (nonzero : 0 < total)
    (computed : checksum = if fits then .ok (checksumOf total) else .error .overflow) :
    (∀ out, (checksum >>= fun cksum => setChecksum view cksum) = .ok out →
      UdpPacket.checksum out.bytes ≠ .ok 0) ↔ ¬ (fits ∧ 65535 ∣ total) := by
  have zero : checksumOf total = 0 ↔ 65535 ∣ total := by
    rw [checksumOf_eq_zero_iff]
    exact and_iff_right nonzero.ne'
  rw [computed]
  by_cases h : fits
  · rw [if_pos h, ok_bind, ← zero]
    constructor
    · -- The call returns, and the zero it stores is read back.
      rintro never ⟨_, vanishes⟩
      have written : setChecksum view (checksumOf total) =
          .ok ⟨splice view.bytes 6 (u16ToBeBytes (checksumOf total))⟩ :=
        PacketViewMut.copyFromSlice_u16 (by omega) _
      exact never _ written (vanishes ▸ checksum_of_setChecksum fixed written)
    · intro condition out stored vanishes
      rw [checksum_of_setChecksum fixed stored, Except.ok.injEq] at vanishes
      exact condition ⟨h, vanishes⟩
  · rw [if_neg h, error_bind]
    simp [h]

end Store

/-- A call that computes and stores a checksum stores zero exactly when the words it
sums add up to a multiple of 65535, short of overflow. -/
theorem computeAndSet_nonzero_iff {bytes : Bytes} {view : PacketViewMut Udp}
    (opened : PacketViewMut.new Udp bytes = .ok (.ok view)) (src₄ dst₄ : Ipv4Addr)
    (src₆ dst₆ : Ipv6Addr) :
    ((∀ out, computeAndSetChecksumIpv4 view src₄ dst₄ = .ok out →
        UdpPacket.checksum out.bytes ≠ .ok 0) ↔
      ¬ (sumOutside bytes 6 < 2 ^ 32 ∧ 65535 ∣ totalIpv4 src₄ dst₄ bytes)) ∧
    ((∀ out, computeAndSetChecksumIpv6 view src₆ dst₆ = .ok out →
        UdpPacket.checksum out.bytes ≠ .ok 0) ↔
      ¬ (sumOutside bytes 6 < 2 ^ 32 ∧ 65535 ∣ totalIpv6 src₆ dst₆ bytes)) := by
  obtain ⟨valid, rfl⟩ := PacketViewMut.new_eq_ok_iff.mp opened
  have fixed := (validate_eq_ok_iff.mp valid).fixed
  constructor
  · exact stores_nonzero_iff fixed (totalIpv4_pos src₄ dst₄ bytes)
      (udpChecksumIpv4_eq src₄ dst₄ fixed)
  · exact stores_nonzero_iff fixed (totalIpv6_pos src₆ dst₆ bytes)
      (udpChecksumIpv6_eq src₆ dst₆ fixed)

/-- A datagram with a payload, between two hosts. -/
theorem computeAndSet_nonzero_iff_payload :
    let bytes : Bytes := [0, 53, 4, 210, 0, 10, 0, 0, 7, 7]
    (∀ out, computeAndSetChecksumIpv4 ⟨bytes⟩ (.replicate 4 10) (.replicate 4 20) = .ok out →
      UdpPacket.checksum out.bytes ≠ .ok 0) ∧
    (∀ out, computeAndSetChecksumIpv6 ⟨bytes⟩ (.replicate 16 1) (.replicate 16 2) = .ok out →
      UdpPacket.checksum out.bytes ≠ .ok 0) := by
  intro bytes
  have opened : PacketViewMut.new Udp bytes = .ok (.ok ⟨bytes⟩) := by decide
  obtain ⟨four, six⟩ := computeAndSet_nonzero_iff opened (.replicate 4 10) (.replicate 4 20)
    (.replicate 16 1) (.replicate 16 2)
  exact ⟨four.mpr (by decide), six.mpr (by decide)⟩

/-- A datagram for which both calls store `0x0000`. -/
theorem computeAndSet_stores_zero :
    PacketViewMut.new Udp [0xff, 0xde, 0, 0, 0, 8, 0, 1] =
      .ok (.ok ⟨[0xff, 0xde, 0, 0, 0, 8, 0, 1]⟩) ∧
    computeAndSetChecksumIpv4 ⟨[0xff, 0xde, 0, 0, 0, 8, 0, 1]⟩ (.replicate 4 0)
      (.replicate 4 0) = .ok ⟨[0xff, 0xde, 0, 0, 0, 8, 0, 0]⟩ ∧
    computeAndSetChecksumIpv6 ⟨[0xff, 0xde, 0, 0, 0, 8, 0, 1]⟩ (.replicate 16 0)
      (.replicate 16 0) = .ok ⟨[0xff, 0xde, 0, 0, 0, 8, 0, 0]⟩ ∧
    UdpPacket.checksum [0xff, 0xde, 0, 0, 0, 8, 0, 0] = .ok 0 := by
  decide

/-- Over IPv6 a zero checksum is rejected unless it is the computed one. -/
theorem newVerifiedIpv6_nonzero_iff (bytes : Bytes) (src dst : Ipv6Addr) :
    (Accepts (newVerifiedIpv6 bytes src dst) → UdpPacket.checksum bytes ≠ .ok 0) ↔
      ¬ (Accepts (PacketView.new Udp bytes) ∧ UdpPacket.checksum bytes = .ok 0 ∧
        sumOutside bytes 6 < 2 ^ 32 ∧ 65535 ∣ totalIpv6 src dst bytes) := by
  have valid : Accepts (PacketView.new Udp bytes) ↔ WellFormed bytes :=
    accepts_new_iff.trans validate_eq_ok_iff
  rw [accepts_newVerifiedIpv6_iff, valid]
  by_cases wellFormed : WellFormed bytes
  · have fixed := wellFormed.fixed
    rw [checksum_eq_ok fixed, udpChecksumIpv6_eq src dst fixed, checked_eq_ok, ne_eq,
      Except.ok.injEq]
    have zero : wordAt bytes 6 = 0 → (checksumOf (totalIpv6 src dst bytes) = wordAt bytes 6 ↔
        65535 ∣ totalIpv6 src dst bytes) := by
      intro vanishes
      rw [vanishes, checksumOf_eq_zero_iff]
      exact and_iff_right (totalIpv6_pos src dst bytes).ne'
    tauto
  · tauto

/-- A datagram accepted over IPv6 with a stored checksum of `0x0000`. -/
theorem newVerifiedIpv6_accepts_zero :
    Accepts (newVerifiedIpv6 [0xff, 0xde, 0, 0, 0, 8, 0, 0] (.replicate 16 0)
      (.replicate 16 0)) ∧
    UdpPacket.checksum [0xff, 0xde, 0, 0, 0, 8, 0, 0] = .ok 0 := by
  decide

end Udp

end Packet

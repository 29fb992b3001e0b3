/-
# What checksums do not depend on

The sum of a message depends neither on the order of its words nor on the order of
the bytes in them, save that the second exchanges the bytes of the sum, and it can be
put together from sums of parts. So verification cannot tell all packets apart: a
constructor that recomputes accepts a changed packet exactly when it is well-formed,
its sum is congruent to that of the packet it accepted, and its checksum field is not
the representation of zero that is never computed.
-/

import Packet.Math.WordOrder
import Packet.Model.Tcp
import Packet.Model.Udp

namespace Packet

open Rust Math Checksum

/-! ## Sums -/

namespace Checksum

/-- A word with its bytes exchanged. -/
def swapBytes (value : UInt16) : UInt16 :=
  u16FromBeBytes (.ofNat value.toNat) (.ofNat (value.toNat / 256))

theorem swapBytes_toNat (value : UInt16) :
    (swapBytes value).toNat = swapDigits 256 value.toNat := by
  have bound := value.toNat_lt
  rw [swapBytes, u16FromBeBytes_toNat, UInt8.toNat_ofNat', UInt8.toNat_ofNat', swapDigits]
  omega

/-- The words of at most 131074 bytes fit the accumulator: 65537 times 65535 is one less
than 2 ^ 32. -/
theorem wordSum_lt_of_le {bytes : Bytes} (short : bytes.length ≤ 131074) :
    wordSum bytes < 2 ^ 32 := by
  have bound := pairSum_le UInt8.toNat 256 (fun b => b.toNat_lt) bytes
  simp only [wordSum]
  omega

/-- The sum of a message, when it fits. -/
def sumOf (bytes : Bytes) : UInt16 := .ofNat (residue 65535 (wordSum bytes))

theorem sumOf_toNat (bytes : Bytes) : (sumOf bytes).toNat = residue 65535 (wordSum bytes) :=
  UInt16.toNat_ofNat_of_lt' (residue_lt_u16 _)

theorem onesComplementSum_of_fits {bytes : Bytes} (fits : wordSum bytes < 2 ^ 32) :
    onesComplementSum bytes none = .ok (sumOf bytes) := by
  rw [onesComplementSum_none_eq, if_pos fits, sumOf]

theorem sumOf_swapPairs (bytes : Bytes) : sumOf (swapPairs 0 bytes) = swapBytes (sumOf bytes) := by
  apply UInt16.toNat_inj.mp
  rw [swapBytes_toNat, sumOf_toNat, sumOf_toNat]
  exact @residue_swapPairs UInt8 UInt8.toNat 256 0 rfl (by decide) bytes

/-- The words of the sums of some messages. -/
theorem wordSum_flatMap_sums (parts : List Bytes) :
    wordSum ((parts.map sumOf).flatMap u16ToBeBytes) =
      ((parts.map wordSum).map (residue 65535)).sum := by
  induction parts with
  | nil => rfl
  | cons part parts ih =>
    rw [List.map_cons, List.flatMap_cons, wordSum_append _ (by simp), ih, wordSum_u16ToBeBytes,
      sumOf_toNat, List.map_cons, List.map_cons, List.sum_cons]

/-- Messages of even length add up part by part. -/
theorem wordSum_flatten {parts : List Bytes} (even : ∀ part ∈ parts, part.length % 2 = 0)
    (last : Bytes) :
    wordSum (parts.flatten ++ last) = ((parts ++ [last]).map wordSum).sum := by
  induction parts with
  | nil => simp
  | cons part parts ih =>
    have first := even part List.mem_cons_self
    have rest := ih fun later mem => even later (List.mem_cons_of_mem part mem)
    rw [List.flatten_cons, List.append_assoc, wordSum_append _ first, rest, List.cons_append,
      List.map_cons, List.sum_cons]

/-- The laws of the sum of a message: the order of the words is immaterial, exchanging
the bytes of every word exchanges those of the sum, and the sum of the parts' sums is
the sum of the whole. -/
structure SumLaws (bytes : Bytes) : Prop where
  order : ∀ bytes' : Bytes,
    (wordsOf UInt8.toNat 256 bytes').Perm (wordsOf UInt8.toNat 256 bytes) →
    onesComplementSum bytes' none = onesComplementSum bytes none
  byteOrder : ∃ sum, onesComplementSum bytes none = .ok sum ∧
    onesComplementSum (swapPairs 0 bytes) none = .ok (swapBytes sum)
  parts : ∀ (parts : List Bytes) (last : Bytes), (∀ part ∈ parts, part.length % 2 = 0) →
    parts.flatten ++ last = bytes →
    ∃ sums, List.Forall₂ (fun part sum => onesComplementSum part none = .ok sum)
        (parts ++ [last]) sums ∧
      onesComplementSum (sums.flatMap u16ToBeBytes) none = onesComplementSum bytes none

theorem sumLaws {bytes : Bytes} (short : bytes.length ≤ 131074) : SumLaws bytes where
  order := by
    intro bytes' same
    have total : wordSum bytes' = wordSum bytes := pairSum_of_perm UInt8.toNat 256 same
    rw [onesComplementSum_none_eq, onesComplementSum_none_eq, total]
  byteOrder := by
    have size : (swapPairs 0 bytes).length ≤ 131074 := by
      rw [swapPairs_length]
      omega
    refine ⟨sumOf bytes, onesComplementSum_of_fits (wordSum_lt_of_le short), ?_⟩
    rw [onesComplementSum_of_fits (wordSum_lt_of_le size), sumOf_swapPairs]
  parts := by
    intro parts last even whole
    have total := wordSum_flatten even last
    have fits := wordSum_lt_of_le short
    have sums := wordSum_flatMap_sums (parts ++ [last])
    rw [whole] at total
    refine ⟨(parts ++ [last]).map sumOf, ?_, ?_⟩
    · -- No part is larger than the whole.
      rw [List.forall₂_map_right_iff, List.forall₂_same]
      intro part mem
      refine onesComplementSum_of_fits (Nat.lt_of_le_of_lt ?_ fits)
      rw [total]
      exact List.single_le_sum (fun _ _ => Nat.zero_le _) _ (List.mem_map_of_mem mem)
    · have smaller := sum_residues_le (m := 65535) ((parts ++ [last]).map wordSum)
      rw [onesComplementSum_of_fits (by omega), onesComplementSum_of_fits fits, sumOf, sumOf, sums,
        total, residue_sum_residues (by decide)]

/-- Two words and a last odd byte. -/
theorem sumLaws_three : SumLaws [1, 2, 0xff, 0xfe, 3] := sumLaws (by decide)

end Checksum

/-! ## Packets that verification cannot tell apart -/

section Verified

variable {P : Type} [PacketSpec P] {n : ℕ}

/-- The words that verification adds up, the protocol number apart: those of the
addresses, the length in the pseudo-header, and those of the packet. -/
def messageSum (length : Bytes → ℕ) (src dst : Vector UInt8 n) (bytes : Bytes) : ℕ :=
  wordSum src.toList + wordSum dst.toList + length bytes + wordSum bytes

/-- Of the packets it is given after one it has accepted, with these addresses or others,
a constructor accepts exactly the well-formed ones with a congruent sum and a checksum
other than the second representation of zero. -/
def ResolvesSums
    (newVerified : Bytes → Vector UInt8 n → Vector UInt8 n → Exec (Result (PacketView P)))
    (length : Bytes → ℕ) (offset : ℕ) : Prop :=
  ∀ (bytes bytes' : Bytes) (src dst src' dst' : Vector UInt8 n),
    bytes.length ≤ 65535 → bytes'.length ≤ 65535 → Accepts (newVerified bytes src dst) →
    (Accepts (newVerified bytes' src' dst') ↔
      PacketSpec.validate P bytes' = .ok (.ok ()) ∧ wordAt bytes' offset ≠ 0xffff ∧
        messageSum length src' dst' bytes' ≡ messageSum length src dst bytes [MOD 65535])

/-- The stored checksum is the computed one when it completes the sum. -/
theorem SegmentChecksum.stored_iff {checksum : Bytes → Exec UInt16} {pseudo bytes : Bytes}
    {offset : ℕ} (sums : SegmentChecksum checksum pseudo bytes offset)
    (short : bytes.length ≤ 65535) :
    checksum bytes = .ok (wordAt bytes offset) ↔
      wordAt bytes offset ≠ 0xffff ∧ 65535 ∣ wordSum pseudo + wordSum bytes := by
  rw [sums.eq_ok short, Except.ok.injEq, checksumOf_eq_iff sums.nonzero,
    wordSum_eq_add_field sums.even sums.inside, Nat.add_assoc, and_comm]

/-- Two sums that are both completed by the same protocol number are congruent. -/
theorem dvd_add_iff_modEq {m c a b : ℕ} (divides : m ∣ c + a) : m ∣ c + b ↔ b ≡ a [MOD m] := by
  have zero := Nat.modEq_zero_iff_dvd.mpr divides
  constructor
  · intro divides'
    exact Nat.ModEq.add_left_cancel' c ((Nat.modEq_zero_iff_dvd.mpr divides').trans zero.symm)
  · intro same
    exact Nat.modEq_zero_iff_dvd.mp ((same.add_left c).trans zero)

theorem resolvesSums_of_accepts
    {newVerified : Bytes → Vector UInt8 n → Vector UInt8 n → Exec (Result (PacketView P))}
    {length : Bytes → ℕ} {offset : ℕ} (protocol : ℕ)
    (accepts : ∀ bytes src dst, bytes.length ≤ 65535 →
      (Accepts (newVerified bytes src dst) ↔
        PacketSpec.validate P bytes = .ok (.ok ()) ∧ wordAt bytes offset ≠ 0xffff ∧
          65535 ∣ protocol + messageSum length src dst bytes)) :
    ResolvesSums newVerified length offset := by
  intro bytes bytes' src dst src' dst' short short' accepted
  obtain ⟨_, _, divides⟩ := (accepts bytes src dst short).mp accepted
  rw [accepts bytes' src' dst' short', dvd_add_iff_modEq divides]

end Verified

namespace Tcp

theorem newVerifiedIpv4_resolvesSums : ResolvesSums newVerifiedIpv4 List.length 16 := by
  refine resolvesSums_of_accepts tcpProtocol.toNat fun bytes src dst short => ?_
  have length : (UInt16.ofNat bytes.length).toNat = bytes.length :=
    UInt16.toNat_ofNat_of_lt' (Nat.lt_succ_of_le short)
  rw [accepts_newVerifiedIpv4_iff]
  refine (and_congr_left' validate_eq_ok_iff.symm).trans (and_congr_right fun valid => ?_)
  have total : wordSum (pseudoIpv4 src dst tcpProtocol (.ofNat bytes.length)) + wordSum bytes =
      tcpProtocol.toNat + messageSum List.length src dst bytes := by
    rw [wordSum_pseudoIpv4, length, messageSum]
    omega
  rw [(segmentChecksumIpv4 src dst (validate_eq_ok_iff.mp valid).fixed).stored_iff short, total]

theorem newVerifiedIpv6_resolvesSums : ResolvesSums newVerifiedIpv6 List.length 16 := by
  refine resolvesSums_of_accepts tcpProtocol.toNat fun bytes src dst short => ?_
  have length : wordSum (u32ToBeBytes (.ofNat bytes.length)) = bytes.length := by
    rw [wordSum_u32ToBeBytes, UInt32.toNat_ofNat_of_lt' (by simp only [UInt32.size]; omega)]
    omega
  rw [accepts_newVerifiedIpv6_iff]
  refine (and_congr_left' validate_eq_ok_iff.symm).trans (and_congr_right fun valid => ?_)
  have total : wordSum (pseudoIpv6 src dst tcpProtocol (.ofNat bytes.length)) + wordSum bytes =
      tcpProtocol.toNat + messageSum List.length src dst bytes := by
    rw [wordSum_pseudoIpv6, length, messageSum]
    omega
  rw [(segmentChecksumIpv6 src dst (validate_eq_ok_iff.mp valid).fixed).stored_iff short, total]

end Tcp

namespace Udp

/-- The length in the pseudo-header is that of the length field. -/
def lengthField (bytes : Bytes) : ℕ := (wordAt bytes 4).toNat

theorem newVerifiedIpv6_resolvesSums : ResolvesSums newVerifiedIpv6 lengthField 6 := by
  refine resolvesSums_of_accepts udpProtocol.toNat fun bytes src dst short => ?_
  have bound := (wordAt bytes 4).toNat_lt
  have length : wordSum (u32ToBeBytes (.ofNat (wordAt bytes 4).toNat)) = lengthField bytes := by
    rw [wordSum_u32ToBeBytes, UInt32.toNat_ofNat_of_lt' (by simp only [UInt32.size]; omega),
      lengthField]
    omega
  rw [accepts_newVerifiedIpv6_iff]
  refine (and_congr_left' validate_eq_ok_iff.symm).trans (and_congr_right fun valid => ?_)
  have total : wordSum (pseudoIpv6 src dst udpProtocol (.ofNat (wordAt bytes 4).toNat)) +
      wordSum bytes = udpProtocol.toNat + messageSum lengthField src dst bytes := by
    rw [wordSum_pseudoIpv6, length, messageSum]
    omega
  rw [(segmentChecksumIpv6 src dst (validate_eq_ok_iff.mp valid).fixed).stored_iff short, total]

/-- Over IPv4 a zero field is accepted too, whatever the sum. -/
theorem newVerifiedIpv4_resolvesSums {bytes bytes' : Bytes} {src dst src' dst' : Ipv4Addr}
    (short : bytes.length ≤ 65535) (short' : bytes'.length ≤ 65535)
    (accepted : Accepts (newVerifiedIpv4 bytes src dst)) (checked : wordAt bytes 6 ≠ 0) :
    Accepts (newVerifiedIpv4 bytes' src' dst') ↔
      PacketSpec.validate Udp bytes' = .ok (.ok ()) ∧
        (wordAt bytes' 6 = 0 ∨ wordAt bytes' 6 ≠ 0xffff ∧
          messageSum lengthField src' dst' bytes' ≡ messageSum lengthField src dst bytes
            [MOD 65535]) := by
  have total (bytes : Bytes) (src dst : Ipv4Addr) :
      wordSum (pseudoIpv4 src dst udpProtocol (wordAt bytes 4)) + wordSum bytes =
        udpProtocol.toNat + messageSum lengthField src dst bytes := by
    rw [wordSum_pseudoIpv4, messageSum, lengthField]
    omega
  obtain ⟨wellFormed, stored⟩ := accepts_newVerifiedIpv4_iff.mp accepted
  have sums := segmentChecksumIpv4 src dst wellFormed.fixed
  obtain ⟨_, divides⟩ := (sums.stored_iff short).mp (stored.resolve_left checked)
  rw [total] at divides
  rw [accepts_newVerifiedIpv4_iff]
  refine (and_congr_left' validate_eq_ok_iff.symm).trans (and_congr_right fun valid => ?_)
  rw [(segmentChecksumIpv4 src' dst' (validate_eq_ok_iff.mp valid).fixed).stored_iff short',
    total, dvd_add_iff_modEq divides]

end Udp

/-- Exactly what verification cannot tell from a packet it has accepted. -/
theorem verified_resolveSums :
    ResolvesSums Tcp.newVerifiedIpv4 List.length 16 ∧
    ResolvesSums Tcp.newVerifiedIpv6 List.length 16 ∧
    ResolvesSums Udp.newVerifiedIpv6 Udp.lengthField 6 ∧
    ∀ (bytes bytes' : Bytes) (src dst src' dst' : Ipv4Addr),
      bytes.length ≤ 65535 → bytes'.length ≤ 65535 →
      Accepts (Udp.newVerifiedIpv4 bytes src dst) → wordAt bytes 6 ≠ 0 →
      (Accepts (Udp.newVerifiedIpv4 bytes' src' dst') ↔
        PacketSpec.validate Udp bytes' = .ok (.ok ()) ∧
          (wordAt bytes' 6 = 0 ∨ wordAt bytes' 6 ≠ 0xffff ∧
            messageSum Udp.lengthField src' dst' bytes' ≡
              messageSum Udp.lengthField src dst bytes [MOD 65535])) :=
  ⟨Tcp.newVerifiedIpv4_resolvesSums, Tcp.newVerifiedIpv6_resolvesSums,
    Udp.newVerifiedIpv6_resolvesSums, fun _ _ _ _ _ _ short short' accepted checked =>
      Udp.newVerifiedIpv4_resolvesSums short short' accepted checked⟩

/-- A datagram with two words of its payload exchanged is accepted like the datagram. -/
theorem verified_resolveSums_exchanged :
    Accepts (Udp.newVerifiedIpv6 [0, 53, 4, 210, 0, 12, 246, 201, 3, 4, 1, 2]
      (.replicate 16 0) (.replicate 16 0)) := by
  have accepted : Accepts (Udp.newVerifiedIpv6
      [0, 53, 4, 210, 0, 12, 246, 201, 1, 2, 3, 4] (.replicate 16 0) (.replicate 16 0)) := by
    decide
  exact (verified_resolveSums.2.2.1 _ _ _ _ _ _ (by decide) (by decide) accepted).mpr
    ⟨by decide, by decide, by decide⟩

end Packet

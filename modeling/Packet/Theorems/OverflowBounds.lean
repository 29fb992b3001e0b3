/-
# How long a message can be before its sum overflows

The accumulator has 32 bits, which 65537 words of ones fill and nothing more fits.
So 131074 bytes can be summed whatever they are, two more where a checksum field is
skipped, and of every greater length some bytes cannot: the constructors that
recompute a checksum take every slice up to this length and panic on some slice of
every length past it.
-/

import Packet.Theorems.CanonicalSum
import Packet.Theorems.ChecksumAlgebra
import Packet.Theorems.Layers

namespace Packet

open Rust Checksum

/-! ## Sums -/

namespace Checksum

/-- Without its checksum field a message is two bytes shorter. -/
theorem sumOutside_eq_wordSum {bytes : Bytes} {offset : ℕ} (even : offset % 2 = 0)
    (inside : offset + 2 ≤ bytes.length) :
    sumOutside bytes offset = wordSum (bytes.take offset ++ bytes.drop (offset + 2)) := by
  have aligned : (bytes.take offset).length % 2 = 0 := by
    rw [List.length_take]
    omega
  rw [sumOutside, wordSum_append _ aligned]

theorem sumOutside_lt_of_le {bytes : Bytes} {offset : ℕ} (even : offset % 2 = 0)
    (inside : offset + 2 ≤ bytes.length) (short : bytes.length ≤ 131076) :
    sumOutside bytes offset < 2 ^ 32 := by
  rw [sumOutside_eq_wordSum even inside]
  refine wordSum_lt_of_le ?_
  rw [List.length_append, List.length_take, List.length_drop]
  omega

/-- More than 131074 ones do not fit. -/
theorem le_wordSum_ones {n : ℕ} (long : 131074 < n) :
    2 ^ 32 ≤ wordSum (List.replicate n 0xff) := by
  obtain ⟨m, rfl⟩ : ∃ m, n = 2 * 65537 + (m + 1) := ⟨n - 131075, by omega⟩
  have full : wordSum (List.replicate (2 * 65537) 0xff) = 65537 * 65535 := wordSum_replicate _ _
  have more : wordSum (List.replicate (m + 1) 0xff) ≠ 0 := by
    rw [ne_eq, wordSum_eq_zero_iff]
    intro zeros
    exact absurd (zeros 0xff (by simp)) (by decide)
  have aligned : (List.replicate (2 * 65537) (0xff : UInt8)).length % 2 = 0 := by
    rw [List.length_replicate, Nat.mul_mod_right]
  rw [List.replicate_add, wordSum_append _ aligned, full]
  omega

theorem le_sumOutside_ones {n offset : ℕ} (even : offset % 2 = 0) (inside : offset + 2 ≤ n)
    (long : 131076 < n) : 2 ^ 32 ≤ sumOutside (List.replicate n 0xff) offset := by
  have rest : (List.replicate n (0xff : UInt8)).take offset ++
      (List.replicate n 0xff).drop (offset + 2) = List.replicate (n - 2) 0xff := by
    rw [List.take_replicate, List.drop_replicate, ← List.replicate_add]
    congr 1
    omega
  rw [sumOutside_eq_wordSum even (by simpa using inside), rest]
  exact le_wordSum_ones (by omega)

theorem sums_return_iff (n : ℕ) :
    (∀ bytes : Bytes, bytes.length = n → Returns (onesComplementSum bytes none)) ↔
      n ≤ 131074 := by
  constructor
  · intro returns
    by_contra long
    have sum := returns (List.replicate n 0xff) List.length_replicate
    have large := le_wordSum_ones (Nat.lt_of_not_le long)
    rw [onesComplementSum_none_eq, if_neg (by omega)] at sum
    exact not_returns_error _ sum
  · rintro short bytes rfl
    exact .of_eq_ok (onesComplementSum_of_fits (wordSum_lt_of_le short))

theorem computes_return_iff {n offset : ℕ} (even : offset % 2 = 0) (inside : offset + 2 ≤ n) :
    (∀ bytes : Bytes, bytes.length = n → Returns (compute bytes offset)) ↔ n ≤ 131076 := by
  constructor
  · intro returns
    by_contra long
    have sum := returns (List.replicate n 0xff) List.length_replicate
    have large := le_sumOutside_ones even inside (Nat.lt_of_not_le long)
    have within : offset + 1 < (List.replicate n (0xff : UInt8)).length := by
      rw [List.length_replicate]
      omega
    rw [compute_eq within even, if_neg (by omega)] at sum
    exact not_returns_error _ sum
  · rintro short bytes rfl
    rw [compute_eq inside even, if_pos (sumOutside_lt_of_le even inside short)]
    exact returns_ok _

end Checksum

/-! ## Constructors -/

section Constructors

variable {P : Type} [PacketSpec P] {stored checksum : Bytes → Exec UInt16} {offset : ℕ}

/-- A checksum that overflows ends the constructor. -/
theorem newVerifiedWith_of_fault {bytes : Bytes} {fault : Fault}
    (valid : PacketSpec.validate P bytes = .ok (.ok ())) (panics : checksum bytes = .error fault) :
    newVerifiedWith P stored checksum bytes = .error fault := by
  rw [newVerifiedWith, PacketView.new_of_valid valid, ok_bind]
  dsimp only
  rw [panics, error_bind]

/-- The words of a long slice of ones overflow, whatever the pseudo-header. -/
theorem newVerifiedWith_ones {n : ℕ} {pseudo : Bytes} (long : 131076 < n)
    (valid : PacketSpec.validate P (List.replicate n 0xff) = .ok (.ok ()))
    (sum : SegmentChecksum checksum pseudo (List.replicate n 0xff) offset) :
    newVerifiedWith P stored checksum (List.replicate n 0xff) = .error .overflow := by
  have inside := sum.inside
  rw [List.length_replicate] at inside
  have large := le_sumOutside_ones sum.even inside long
  refine newVerifiedWith_of_fault valid ?_
  rw [sum.value, if_neg (by omega)]

/-- The slices a constructor takes, for a checksum of pseudo-header and segment: all up to
131076 bytes, and past that not the one of ones. -/
theorem newVerifiedWith_returns_iff (validated : ∀ bytes, Returns (PacketSpec.validate P bytes))
    (field : ∀ bytes, PacketSpec.validate P bytes = .ok (.ok ()) →
      stored bytes = .ok (wordAt bytes offset))
    (sums : ∀ bytes, PacketSpec.validate P bytes = .ok (.ok ()) →
      ∃ pseudo, SegmentChecksum checksum pseudo bytes offset)
    (ones : ∀ n, 131076 < n → PacketSpec.validate P (List.replicate n 0xff) = .ok (.ok ()))
    (n : ℕ) :
    (∀ bytes : Bytes, bytes.length = n → Returns (newVerifiedWith P stored checksum bytes)) ↔
      n ≤ 131076 := by
  constructor
  · intro returns
    by_contra long
    have valid := ones n (Nat.lt_of_not_le long)
    obtain ⟨pseudo, sum⟩ := sums _ valid
    have accepted := returns (List.replicate n 0xff) List.length_replicate
    rw [newVerifiedWith_ones (Nat.lt_of_not_le long) valid sum] at accepted
    exact not_returns_error _ accepted
  · rintro short bytes rfl
    refine newVerifiedWith_returns (validated bytes) (fun valid => .of_eq_ok (field bytes valid))
      fun valid => ?_
    obtain ⟨pseudo, sum⟩ := sums bytes valid
    rw [sum.value, if_pos (sumOutside_lt_of_le sum.even sum.inside short)]
    exact returns_ok _

end Constructors

/-! ## A slice of ones -/

theorem byteAt_ones {n i : ℕ} (inside : i < n) : byteAt (List.replicate n 0xff) i = 0xff := by
  rw [byteAt, List.getD_eq_getElem _ _ (by rwa [List.length_replicate]), List.getElem_replicate]

theorem wordAt_ones {n i : ℕ} (inside : i + 1 < n) :
    wordAt (List.replicate n 0xff) i = 0xffff := by
  rw [wordAt, byteAt_ones (by omega), byteAt_ones inside]
  decide

/-- Its data offset says fifteen words. -/
theorem Tcp.valid_ones {n : ℕ} (long : 131076 < n) :
    PacketSpec.validate Tcp (List.replicate n 0xff) = .ok (.ok ()) := by
  have header : headerLength (List.replicate n 0xff) = 60 := by
    rw [headerLength, byteAt_ones (by omega)]
    decide
  refine validate_eq_ok_iff.mpr ⟨?_, ?_, ?_⟩
  · rw [List.length_replicate]
    omega
  · omega
  · rw [List.length_replicate]
    omega

/-- Its length field says 65535 bytes. -/
theorem Udp.valid_ones {n : ℕ} (long : 131076 < n) :
    PacketSpec.validate Udp (List.replicate n 0xff) = .ok (.ok ()) := by
  have field : (wordAt (List.replicate n 0xff) 4).toNat = 65535 := by
    rw [wordAt_ones (by omega)]
    decide
  refine validate_eq_ok_iff.mpr ⟨?_, ?_, ?_⟩
  · rw [List.length_replicate]
    omega
  · omega
  · rw [List.length_replicate]
    omega

theorem Tcp.newVerifiedIpv4_returns_iff (src dst : Ipv4Addr) (n : ℕ) :
    (∀ bytes : Bytes, bytes.length = n → Returns (newVerifiedIpv4 bytes src dst)) ↔
      n ≤ 131076 :=
  newVerifiedWith_returns_iff validate_returns (fun _ => checksum_of_valid)
    (fun _ valid => ⟨_, segmentChecksumIpv4 src dst (validate_eq_ok_iff.mp valid).fixed⟩)
    (fun _ => valid_ones) n

theorem Tcp.newVerifiedIpv6_returns_iff (src dst : Ipv6Addr) (n : ℕ) :
    (∀ bytes : Bytes, bytes.length = n → Returns (newVerifiedIpv6 bytes src dst)) ↔
      n ≤ 131076 :=
  newVerifiedWith_returns_iff validate_returns (fun _ => checksum_of_valid)
    (fun _ valid => ⟨_, segmentChecksumIpv6 src dst (validate_eq_ok_iff.mp valid).fixed⟩)
    (fun _ => valid_ones) n

theorem Udp.newVerifiedIpv6_returns_iff (src dst : Ipv6Addr) (n : ℕ) :
    (∀ bytes : Bytes, bytes.length = n → Returns (newVerifiedIpv6 bytes src dst)) ↔
      n ≤ 131076 :=
  newVerifiedWith_returns_iff validate_returns (fun _ => checksum_of_valid)
    (fun _ valid => ⟨_, segmentChecksumIpv6 src dst (validate_eq_ok_iff.mp valid).fixed⟩)
    (fun _ => valid_ones) n

/-- A zero checksum field is accepted whatever the length, any other is recomputed, and
the field of a slice of ones is not zero. -/
theorem Udp.newVerifiedIpv4_returns_iff (src dst : Ipv4Addr) (n : ℕ) :
    (∀ bytes : Bytes, bytes.length = n → Returns (newVerifiedIpv4 bytes src dst)) ↔
      n ≤ 131076 := by
  have recomputed := newVerifiedWith_returns_iff validate_returns (fun _ => checksum_of_valid)
    (fun _ valid => ⟨_, segmentChecksumIpv4 src dst (validate_eq_ok_iff.mp valid).fixed⟩)
    (fun _ => valid_ones) n
  constructor
  · intro returns
    by_contra long
    have valid := valid_ones (Nat.lt_of_not_le long)
    have wellFormed := validate_eq_ok_iff.mp valid
    have field : wordAt (List.replicate n 0xff) 6 ≠ 0 := by
      rw [wordAt_ones (by omega)]
      decide
    have accepted := returns (List.replicate n 0xff) List.length_replicate
    rw [newVerifiedIpv4_eq wellFormed, if_neg field, newVerifiedWith_ones
      (Nat.lt_of_not_le long) valid (segmentChecksumIpv4 src dst wellFormed.fixed)] at accepted
    exact not_returns_error _ accepted
  · intro short bytes size
    exact newVerifiedIpv4_returns_of_recomputed (recomputed.mpr short bytes size)

/-- The exact lengths up to which nothing overflows, for a sum over a whole message, for a
checksum with its field skipped and for every constructor that recomputes one. -/
theorem overflowBounds (n : ℕ) :
    ((∀ bytes : Bytes, bytes.length = n → Returns (onesComplementSum bytes none)) ↔
        n ≤ 131074) ∧
      (∀ offset, offset % 2 = 0 → offset + 2 ≤ n →
        ((∀ bytes : Bytes, bytes.length = n → Returns (compute bytes offset)) ↔ n ≤ 131076)) ∧
      (∀ src dst : Ipv4Addr,
        ((∀ bytes : Bytes, bytes.length = n → Returns (Tcp.newVerifiedIpv4 bytes src dst)) ↔
            n ≤ 131076) ∧
          ((∀ bytes : Bytes, bytes.length = n → Returns (Udp.newVerifiedIpv4 bytes src dst)) ↔
            n ≤ 131076)) ∧
      (∀ src dst : Ipv6Addr,
        ((∀ bytes : Bytes, bytes.length = n → Returns (Tcp.newVerifiedIpv6 bytes src dst)) ↔
            n ≤ 131076) ∧
          ((∀ bytes : Bytes, bytes.length = n → Returns (Udp.newVerifiedIpv6 bytes src dst)) ↔
            n ≤ 131076)) :=
  ⟨sums_return_iff n, fun _ even inside => computes_return_iff even inside,
    fun src dst => ⟨Tcp.newVerifiedIpv4_returns_iff src dst n,
      Udp.newVerifiedIpv4_returns_iff src dst n⟩,
    fun src dst => ⟨Tcp.newVerifiedIpv6_returns_iff src dst n,
      Udp.newVerifiedIpv6_returns_iff src dst n⟩⟩

end Packet

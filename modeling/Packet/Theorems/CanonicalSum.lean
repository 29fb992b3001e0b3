/-
# The canonical one's-complement sum

The accumulator holds the exact sum of the words, and folding takes it to its
representative: `0` for a message of zeros, and otherwise the one number in
`1..65535` that is congruent to the sum. Skipping the checksum field is summing
the message with zeros in the field.
-/

import Packet.Model.Checksum
import Mathlib.Algebra.BigOperators.Intervals

namespace Packet.Checksum

open Rust Math

/-- The words of a message by position. The position past a last odd byte reads as
`0`, so that byte is a high byte. -/
def positionSum (bytes : Bytes) : ℕ :=
  ∑ i ∈ Finset.range ((bytes.length + 1) / 2), (wordAt bytes (2 * i)).toNat

/-- The exact sum adds up the words at the even positions. -/
theorem wordSum_eq_positionSum : ∀ bytes : Bytes, wordSum bytes = positionSum bytes
  | [] => rfl
  | [last] => by
    have head : (wordAt [last] (2 * 0)).toNat = last.toNat * 256 + 0 :=
      u16FromBeBytes_toNat last 0
    rw [wordSum_singleton, positionSum]
    simpa using head.symm
  | high :: low :: rest => by
    have words : ((high :: low :: rest).length + 1) / 2 = (rest.length + 1) / 2 + 1 := by
      simp only [List.length_cons]
      omega
    have head : (wordAt (high :: low :: rest) (2 * 0)).toNat = high.toNat * 256 + low.toNat :=
      u16FromBeBytes_toNat high low
    -- The words after the first are those of the rest, one word further on.
    rw [wordSum_cons_cons, wordSum_eq_positionSum rest, positionSum, positionSum, words,
      Finset.sum_range_succ', head, Nat.add_comm]
    rfl

theorem wordSum_eq_zero_iff {bytes : Bytes} : wordSum bytes = 0 ↔ ∀ byte ∈ bytes, byte = 0 := by
  rw [wordSum, pairSum_eq_zero_iff UInt8.toNat 256 (by decide)]
  simp only [← UInt8.toNat_inj, UInt8.toNat_zero]

/-- The one's-complement sum of a message: `0` for zeros only, and otherwise the number
in `1..65535` that is congruent to the sum of its words. -/
structure CanonicalSum (bytes : Bytes) (sum : UInt16) : Prop where
  zero : (∀ byte ∈ bytes, byte = 0) → sum = 0
  nonzero : (∃ byte ∈ bytes, byte ≠ 0) → ∀ n : ℕ,
    n = sum.toNat ↔ 1 ≤ n ∧ n ≤ 65535 ∧ n ≡ positionSum bytes [MOD 65535]

theorem canonicalSum_residue (bytes : Bytes) :
    CanonicalSum bytes (.ofNat (residue 65535 (wordSum bytes))) where
  zero := by
    intro zeros
    rw [wordSum_eq_zero_iff.mpr zeros]
    rfl
  nonzero := by
    rintro ⟨byte, mem, nonzero⟩ n
    have positive : 0 < wordSum bytes := by
      rw [Nat.pos_iff_ne_zero, ne_eq, wordSum_eq_zero_iff]
      intro zeros
      exact nonzero (zeros byte mem)
    rw [UInt16.toNat_ofNat_of_lt' (residue_lt_u16 _), eq_residue_iff (by decide) positive,
      wordSum_eq_positionSum]

/-- On a message of at most 65535 bytes the sum is returned and canonical, and skipping
the checksum field returns the sum of the message with the field zeroed. -/
theorem onesComplementSum_canonical {bytes : Bytes} (short : bytes.length ≤ 65535) :
    (∃ sum, onesComplementSum bytes none = .ok sum ∧ CanonicalSum bytes sum) ∧
    ∀ offset, offset % 2 = 0 → offset + 2 ≤ bytes.length →
      ∃ sum, onesComplementSum bytes (some offset) = .ok sum ∧
        onesComplementSum (splice bytes offset [0, 0]) none = .ok sum := by
  constructor
  · refine ⟨_, ?_, canonicalSum_residue bytes⟩
    rw [onesComplementSum_none_eq, if_pos (wordSum_lt (by omega))]
  · intro offset even inside
    have fits : sumOutside bytes offset < 2 ^ 32 := sumOutside_lt short offset
    refine ⟨.ofNat (residue 65535 (sumOutside bytes offset)), ?_, ?_⟩
    · rw [onesComplementSum_some_eq (by omega) even, if_pos fits]
    · rw [onesComplementSum_none_eq, wordSum_splice_zeros even inside, if_pos fits]

/-- Two words and an odd byte whose sum carries, with the second word skipped. -/
theorem onesComplementSum_canonical_carry :
    (∃ sum, onesComplementSum [0xff, 0xff, 0x12, 0x34, 0x56] none = .ok sum ∧
      CanonicalSum [0xff, 0xff, 0x12, 0x34, 0x56] sum) ∧
    ∃ sum, onesComplementSum [0xff, 0xff, 0x12, 0x34, 0x56] (some 2) = .ok sum ∧
      onesComplementSum (splice [0xff, 0xff, 0x12, 0x34, 0x56] 2 [0, 0]) none = .ok sum := by
  have short : ([0xff, 0xff, 0x12, 0x34, 0x56] : Bytes).length ≤ 65535 := by decide
  obtain ⟨whole, skipping⟩ := onesComplementSum_canonical short
  exact ⟨whole, skipping 2 rfl (by decide)⟩

end Packet.Checksum

/-
# Verifying and computing a checksum

`verify` sums a message with its checksum field and asks for the second
representation of zero; `compute` sums it without the field and complements. A
message verifies when the field holds what is computed. Where that is zero the
field may also hold the other zero, which adds nothing to a sum that is not empty.
-/

import Packet.Model.Checksum

namespace Packet.Checksum

open Rust

/-- On a message of at most 65535 bytes, `compute` returns and does not look at the
field. -/
theorem compute_eq_ok {bytes : Bytes} {offset : ℕ} (short : bytes.length ≤ 65535)
    (inside : offset + 2 ≤ bytes.length) (even : offset % 2 = 0) :
    compute bytes offset = .ok (checksumOf (sumOutside bytes offset)) := by
  rw [compute_eq (by omega) even, if_pos (sumOutside_lt short offset)]

/-- A message verifies exactly when its field holds the computed checksum, or
`0xffff` where that is zero; so it verifies once the computed checksum is written. -/
theorem verify_iff_compute {bytes : Bytes} {offset : ℕ} (short : bytes.length ≤ 65535)
    (even : offset % 2 = 0) (inside : offset + 2 ≤ bytes.length) :
    ∃ stored computed, readU16 bytes offset = .ok stored ∧
      compute bytes offset = .ok computed ∧
      (verify bytes = .ok true ↔ stored = computed ∨ stored = 0xffff ∧ computed = 0) ∧
      (verify bytes = .ok false ↔ ¬ (stored = computed ∨ stored = 0xffff ∧ computed = 0)) ∧
      ∃ written, copyFromSlice bytes offset (offset + 2) (u16ToBeBytes computed) = .ok written ∧
        verify written = .ok true := by
  -- Neither summation overflows, also after the checksum is written.
  have fits {message : Bytes} (size : message.length = bytes.length) :
      wordSum message < 2 ^ 32 := wordSum_lt (by omega)
  have read : readU16 bytes offset = .ok (wordAt bytes offset) := readU16_eq_ok (by omega)
  refine ⟨_, _, read, compute_eq_ok short inside even, ?_, ?_, ?_⟩
  · rw [verify_eq_stored even inside (fits rfl), Except.ok.injEq, decide_eq_true_iff]
  · rw [verify_eq_stored even inside (fits rfl), Except.ok.injEq, decide_eq_false_iff_not]
  · let value := checksumOf (sumOutside bytes offset)
    have size : (splice bytes offset (u16ToBeBytes value)).length = bytes.length :=
      length_splice_word inside value
    refine ⟨_, copyFromSlice_eq_ok (by omega) inside (by simp), ?_⟩
    -- The sum outside the field is the same, and the field holds its checksum.
    rw [verify_eq_stored even (size.symm ▸ inside) (fits size), wordAt_splice_self (by omega),
      sumOutside_splice inside rfl]
    exact congrArg Except.ok (decide_eq_true (.inl rfl))

/-- The message of zeros: the field of zeros is not its checksum. -/
theorem verify_iff_compute_zeros :
    ∃ stored computed, readU16 [0, 0, 0, 0, 0] 2 = .ok stored ∧
      compute [0, 0, 0, 0, 0] 2 = .ok computed ∧
      (verify [0, 0, 0, 0, 0] = .ok true ↔
        stored = computed ∨ stored = 0xffff ∧ computed = 0) ∧
      (verify [0, 0, 0, 0, 0] = .ok false ↔
        ¬ (stored = computed ∨ stored = 0xffff ∧ computed = 0)) ∧
      ∃ written, copyFromSlice [0, 0, 0, 0, 0] 2 (2 + 2) (u16ToBeBytes computed) = .ok written ∧
        verify written = .ok true :=
  verify_iff_compute (by decide) rfl (by decide)

end Packet.Checksum

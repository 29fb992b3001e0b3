/-
# The bits of a byte

A byte is determined by its eight bits, and the bitwise operators act bit by bit.
Two half-byte fields that share a byte are told apart by masks and shifts of four.
-/

import Packet.Rust.Exec

namespace Packet.Rust

/-- Bit `k` of a byte, counted from the low end. -/
def bit (byte : UInt8) (k : Fin 8) : Bool := byte.toNat.testBit k

/-- Bytes with the same bits are the same. -/
theorem bit_ext {a b : UInt8} (same : ∀ k, bit a k = bit b k) : a = b := by
  apply UInt8.toNat_inj.mp
  apply Nat.eq_of_testBit_eq
  intro k
  by_cases low : k < 8
  · exact same ⟨k, low⟩
  · -- Neither byte has a bit that high.
    have high : 2 ^ 8 ≤ 2 ^ k := Nat.pow_le_pow_right (by decide) (Nat.le_of_not_lt low)
    rw [Nat.testBit_lt_two_pow (Nat.lt_of_lt_of_le a.toNat_lt high),
      Nat.testBit_lt_two_pow (Nat.lt_of_lt_of_le b.toNat_lt high)]

section Operators

variable (a b : UInt8) (k : Fin 8)

@[simp] theorem bit_and : bit (a &&& b) k = (bit a k && bit b k) := by
  rw [bit, UInt8.toNat_and, Nat.testBit_and, bit, bit]

@[simp] theorem bit_or : bit (a ||| b) k = (bit a k || bit b k) := by
  rw [bit, UInt8.toNat_or, Nat.testBit_or, bit, bit]

@[simp] theorem bit_zero : bit 0 k = false := Nat.zero_testBit k

private theorem shift_four : (4 : UInt8).toNat % 8 = 4 := rfl

/-- Shifting down by four brings the upper half to the lower. -/
theorem bit_shiftRight_four :
    bit (a >>> 4) k = if high : k.val + 4 < 8 then bit a ⟨k + 4, high⟩ else false := by
  rw [bit, UInt8.toNat_shiftRight, shift_four, Nat.testBit_shiftRight]
  split
  · rw [bit, Nat.add_comm]
  · -- No bits are shifted in from above.
    rename_i low
    have high : 2 ^ 8 ≤ 2 ^ (4 + k.val) := Nat.pow_le_pow_right (by decide) (by omega)
    exact Nat.testBit_lt_two_pow (Nat.lt_of_lt_of_le a.toNat_lt high)

/-- Shifting up by four brings the lower half to the upper. -/
theorem bit_shiftLeft_four :
    bit (a <<< 4) k = if 4 ≤ k.val then bit a ⟨k - 4, by omega⟩ else false := by
  rw [bit, UInt8.toNat_shiftLeft, shift_four, Nat.testBit_mod_two_pow, Nat.testBit_shiftLeft,
    decide_eq_true k.isLt, Bool.true_and]
  split
  · rename_i high
    rw [decide_eq_true high, Bool.true_and]
    rfl
  · -- The bits below the shift are zeros.
    rename_i low
    rw [decide_eq_false low, Bool.false_and]

theorem bit_one : bit 0x01 k = decide (k.val = 0) := by
  revert k
  decide

theorem bit_lowMask : bit 0x0f k = decide (k.val < 4) := by
  revert k
  decide

theorem bit_highMask : bit 0xf0 k = decide (4 ≤ k.val) := by
  revert k
  decide

/-- The bits between the lowest one and the upper half. -/
theorem bit_middleMask : bit 0x0e k = decide (1 ≤ k.val ∧ k.val < 4) := by
  revert k
  decide

end Operators

/-! ## Two halves of a byte -/

theorem upper_and_one (a : UInt8) : (a &&& 0x01) >>> 4 = 0 := by
  apply bit_ext
  intro k
  simp [bit_shiftRight_four, bit_one]

/-- The upper half of a byte that keeps it and takes its lower half from elsewhere. -/
theorem upper_of_keepUpper {old low : UInt8} (small : low >>> 4 = 0) :
    ((old &&& 0xf0) ||| low) >>> 4 = old >>> 4 := by
  apply bit_ext
  intro k
  have none := congrArg (bit · k) small
  simp only [bit_shiftRight_four, bit_zero] at none
  simp only [bit_shiftRight_four, bit_or, bit_and, bit_highMask]
  split
  · rename_i high
    rw [dif_pos high] at none
    simp [none]
  · rfl

/-- The upper half of a byte that keeps its lower half and takes the upper from a
value: the value's own lower half. -/
theorem upper_of_keepLower (old value : UInt8) :
    ((value <<< 4) ||| (old &&& 0x0f)) >>> 4 = value &&& 0x0f := by
  apply bit_ext
  intro k
  simp only [bit_shiftRight_four, bit_or, bit_and, bit_lowMask, bit_shiftLeft_four]
  split
  · rename_i high
    have low : k.val < 4 := by omega
    simp [low]
  · rename_i high
    have notLow : ¬ k.val < 4 := by omega
    simp [notLow]

/-! ## Fields packed into a word

A mask of ones takes the remainder by a power of two, a shift down the quotient. Two
fields that share a word are put together by a shift up and an or, which adds them
when they do not overlap. -/

theorem shiftLeft_or_eq_add {a b i : ℕ} (low : b < 2 ^ i) : a <<< i ||| b = a * 2 ^ i + b := by
  rw [← Nat.shiftLeft_add_eq_or_of_lt low, Nat.shiftLeft_eq]

theorem toNat_and_mask8 (a : UInt8) {mask : UInt8} (n : ℕ) (ones : mask.toNat = 2 ^ n - 1) :
    (a &&& mask).toNat = a.toNat % 2 ^ n := by
  rw [UInt8.toNat_and, ones, Nat.and_two_pow_sub_one_eq_mod]

theorem toNat_and_mask16 (a : UInt16) {mask : UInt16} (n : ℕ) (ones : mask.toNat = 2 ^ n - 1) :
    (a &&& mask).toNat = a.toNat % 2 ^ n := by
  rw [UInt16.toNat_and, ones, Nat.and_two_pow_sub_one_eq_mod]

theorem toNat_shiftRight8 (a : UInt8) {shift : UInt8} (small : shift.toNat < 8) :
    (a >>> shift).toNat = a.toNat / 2 ^ shift.toNat := by
  rw [UInt8.toNat_shiftRight, Nat.mod_eq_of_lt small, Nat.shiftRight_eq_div_pow]

theorem toNat_pack8 {a b shift : UInt8} (small : shift.toNat < 8)
    (fits : a.toNat * 2 ^ shift.toNat < 2 ^ 8) (low : b.toNat < 2 ^ shift.toNat) :
    ((a <<< shift) ||| b).toNat = a.toNat * 2 ^ shift.toNat + b.toNat := by
  rw [UInt8.toNat_or, UInt8.toNat_shiftLeft, Nat.mod_eq_of_lt small,
    Nat.mod_eq_of_lt (by rwa [Nat.shiftLeft_eq]), shiftLeft_or_eq_add low]

theorem toNat_pack16 {a b shift : UInt16} (small : shift.toNat < 16)
    (fits : a.toNat * 2 ^ shift.toNat < 2 ^ 16) (low : b.toNat < 2 ^ shift.toNat) :
    ((a <<< shift) ||| b).toNat = a.toNat * 2 ^ shift.toNat + b.toNat := by
  rw [UInt16.toNat_or, UInt16.toNat_shiftLeft, Nat.mod_eq_of_lt small,
    Nat.mod_eq_of_lt (by rwa [Nat.shiftLeft_eq]), shiftLeft_or_eq_add low]

theorem toNat_pack32 {a b shift : UInt32} (small : shift.toNat < 32)
    (fits : a.toNat * 2 ^ shift.toNat < 2 ^ 32) (low : b.toNat < 2 ^ shift.toNat) :
    ((a <<< shift) ||| b).toNat = a.toNat * 2 ^ shift.toNat + b.toNat := by
  rw [UInt32.toNat_or, UInt32.toNat_shiftLeft, Nat.mod_eq_of_lt small,
    Nat.mod_eq_of_lt (by rwa [Nat.shiftLeft_eq]), shiftLeft_or_eq_add low]

/-- The upper and the lower bits of a byte make up the byte. -/
theorem pack_split8 (a : UInt8) {shift mask : UInt8} (small : shift.toNat < 8)
    (ones : mask.toNat = 2 ^ shift.toNat - 1) :
    ((a >>> shift) <<< shift) ||| (a &&& mask) = a := by
  have bound := a.toNat_lt
  have split := Nat.div_add_mod' a.toNat (2 ^ shift.toNat)
  have lower := toNat_and_mask8 a shift.toNat ones
  have upper := toNat_shiftRight8 a small
  apply UInt8.toNat_inj.mp
  rw [toNat_pack8 small (by rw [upper]; omega) (by rw [lower]; exact Nat.mod_lt _ (by simp)),
    upper, lower, split]

end Packet.Rust

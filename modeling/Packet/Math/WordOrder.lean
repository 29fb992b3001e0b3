/-
# The order of words, and of the digits in them

A sum of two-digit words does not depend on the order of the words. Exchanging the
digits of every word multiplies the sum by the base, up to a multiple of the largest
word, so the canonical sum of the exchanged words is the exchanged canonical sum: a
sum may be taken in either digit order. Lists may be summed one after the other and
the canonical sums added up.
-/

import Packet.Math.OnesComplement
import Mathlib.Algebra.BigOperators.Group.List.Basic

namespace Packet.Math

/-! ## Digits exchanged -/

/-- A two-digit number with its digits exchanged. -/
def swapDigits (B n : ℕ) : ℕ := n % B * B + n / B

section Digits

variable {B n : ℕ}

/-- The base squared leaves one. -/
theorem base_mul_base (base : 1 < B) : B * B ≡ 1 [MOD B * B - 1] := by
  have positive : 1 ≤ B * B := Nat.mul_pos (by omega) (by omega)
  have shifted := Nat.add_modEq_left (n := B * B - 1) (a := 1)
  rwa [Nat.sub_add_cancel positive] at shifted

/-- A word with its digits exchanged is the base times the word. -/
theorem swapped_modEq (base : 1 < B) (high low : ℕ) :
    low * B + high ≡ B * (high * B + low) [MOD B * B - 1] := by
  have expand : B * (high * B + low) = low * B + high * (B * B) := by ring
  rw [expand]
  have carried := ((base_mul_base base).mul_left high).symm.add_left (low * B)
  rwa [Nat.mul_one] at carried

theorem swapDigits_modEq (base : 1 < B) (n : ℕ) :
    swapDigits B n ≡ B * n [MOD B * B - 1] := by
  have split : n / B * B + n % B = n := Nat.div_add_mod' n B
  have swapped := swapped_modEq base (n / B) (n % B)
  rwa [split] at swapped

theorem swapDigits_eq_zero_iff (positive : 0 < B) : swapDigits B n = 0 ↔ n = 0 := by
  have split : n / B * B + n % B = n := Nat.div_add_mod' n B
  rw [swapDigits, Nat.add_eq_zero_iff, Nat.mul_eq_zero, or_iff_left positive.ne']
  constructor
  · rintro ⟨low, high⟩
    rw [low, high] at split
    simpa using split.symm
  · rintro rfl
    simp

theorem swapDigits_le (base : 1 < B) (small : n < B * B) : swapDigits B n ≤ B * B - 1 := by
  have low : n % B < B := Nat.mod_lt n (by omega)
  have high : n / B < B := Nat.div_lt_of_lt_mul small
  have rows : n % B * B + B ≤ B * B := by
    rw [← Nat.succ_mul]
    exact Nat.mul_le_mul_right B low
  rw [swapDigits]
  omega

end Digits

/-! ## Lists of digits -/

section Words

variable {α : Type} (value : α → ℕ) (B : ℕ)

/-- The words a digit list spells. -/
def wordsOf : List α → List ℕ
  | [] => []
  | [last] => [value last * B]
  | high :: low :: rest => (value high * B + value low) :: wordsOf rest

theorem sum_wordsOf : ∀ xs : List α, (wordsOf value B xs).sum = pairSum value B xs
  | [] => rfl
  | [last] => by rw [wordsOf, pairSum_singleton, List.sum_singleton]
  | high :: low :: rest => by
    rw [wordsOf, List.sum_cons, sum_wordsOf rest, pairSum_cons_cons]

/-- Words in another order have the same sum. -/
theorem pairSum_of_perm {xs ys : List α} (same : (wordsOf value B xs).Perm (wordsOf value B ys)) :
    pairSum value B xs = pairSum value B ys := by
  rw [← sum_wordsOf, ← sum_wordsOf, same.sum_eq]

/-- The digits of every word exchanged. A last odd digit, which was a high one, gets a
zero in front. -/
def swapPairs (zero : α) : List α → List α
  | [] => []
  | [last] => [zero, last]
  | high :: low :: rest => low :: high :: swapPairs zero rest

theorem swapPairs_length (zero : α) : ∀ xs : List α,
    (swapPairs zero xs).length = (xs.length + 1) / 2 * 2
  | [] => by simp [swapPairs]
  | [last] => by simp [swapPairs]
  | high :: low :: rest => by
    simp only [swapPairs, List.length_cons, swapPairs_length zero rest]
    omega

variable {value B}

theorem pairSum_swapPairs {zero : α} (vanishes : value zero = 0) (base : 1 < B) :
    ∀ xs : List α,
      pairSum value B (swapPairs zero xs) ≡ B * pairSum value B xs [MOD B * B - 1]
  | [] => by simp [swapPairs, Nat.ModEq]
  | [last] => by
    have word := swapped_modEq base (value last) 0
    rw [Nat.zero_mul, Nat.zero_add, Nat.add_zero] at word
    rw [swapPairs, pairSum_cons_cons, vanishes, pairSum_nil, pairSum_singleton]
    simpa using word
  | high :: low :: rest => by
    rw [swapPairs, pairSum_cons_cons, pairSum_cons_cons, Nat.mul_add]
    exact (swapped_modEq base (value high) (value low)).add
      (pairSum_swapPairs vanishes base rest)

theorem pairSum_swapPairs_eq_zero_iff {zero : α} (vanishes : value zero = 0) (positive : 0 < B) :
    ∀ xs : List α, pairSum value B (swapPairs zero xs) = 0 ↔ pairSum value B xs = 0
  | [] => Iff.rfl
  | [last] => by
    simp [swapPairs, vanishes, pairSum_singleton, positive.ne']
  | high :: low :: rest => by
    have tail := pairSum_swapPairs_eq_zero_iff vanishes positive rest
    simp only [swapPairs, pairSum_cons_cons, Nat.add_eq_zero_iff, Nat.mul_eq_zero,
      positive.ne', or_false, tail]
    tauto

/-- The canonical sum of the exchanged words is the exchanged canonical sum. -/
theorem residue_swapPairs {zero : α} (vanishes : value zero = 0) (base : 1 < B) (xs : List α) :
    residue (B * B - 1) (pairSum value B (swapPairs zero xs)) =
      swapDigits B (residue (B * B - 1) (pairSum value B xs)) := by
  have modulus : 0 < B * B - 1 := by
    have square : B * 2 ≤ B * B := Nat.mul_le_mul_left B base
    omega
  have within : residue (B * B - 1) (pairSum value B xs) ≤ B * B - 1 := residue_le modulus
  refine residue_unique ?_ (residue_le modulus) (swapDigits_le base (by omega)) ?_
  · rw [residue_eq_zero_iff, pairSum_swapPairs_eq_zero_iff vanishes (by omega),
      swapDigits_eq_zero_iff (by omega), residue_eq_zero_iff]
  · calc residue (B * B - 1) (pairSum value B (swapPairs zero xs))
        ≡ pairSum value B (swapPairs zero xs) [MOD B * B - 1] := residue_modEq
      _ ≡ B * pairSum value B xs [MOD B * B - 1] := pairSum_swapPairs vanishes base xs
      _ ≡ B * residue (B * B - 1) (pairSum value B xs) [MOD B * B - 1] :=
        (residue_modEq.mul_left B).symm
      _ ≡ swapDigits B (residue (B * B - 1) (pairSum value B xs)) [MOD B * B - 1] :=
        (swapDigits_modEq base _).symm

end Words

/-! ## Sums of sums -/

section Partial

variable {m : ℕ}

/-- Canonical sums may be taken of parts, and then of the sums of the parts. -/
theorem residue_sum_residues (positive : 0 < m) (sums : List ℕ) :
    residue m (sums.map (residue m)).sum = residue m sums.sum := by
  induction sums with
  | nil => rfl
  | cons first sums ih =>
    rw [List.map_cons, List.sum_cons, List.sum_cons]
    calc residue m (residue m first + (sums.map (residue m)).sum)
        = residue m (residue m (residue m first) + residue m (sums.map (residue m)).sum) :=
          (residue_add_residue positive).symm
      _ = residue m (residue m first + residue m sums.sum) := by
          rw [ih, residue_of_le positive (residue_le positive)]
      _ = residue m (first + sums.sum) := residue_add_residue positive

theorem residue_le_self (n : ℕ) : residue m n ≤ n := by
  unfold residue
  split
  · exact Nat.zero_le n
  · have smaller := Nat.mod_le (n - 1) m
    omega

theorem sum_residues_le (sums : List ℕ) : (sums.map (residue m)).sum ≤ sums.sum := by
  induction sums with
  | nil => exact Nat.le_refl _
  | cons first sums ih =>
    rw [List.map_cons, List.sum_cons, List.sum_cons]
    exact Nat.add_le_add (residue_le_self first) ih

end Partial

end Packet.Math

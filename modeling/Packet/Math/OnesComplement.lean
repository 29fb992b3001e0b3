/-
# One's-complement sums

One's-complement addition of `m`-valued words counts modulo `m` and has two
representations of zero. A sum of words is `0` only when every word is `0`;
any other sum lies in `1..m`. `residue m` is this canonical representative of a
natural number.

Carrying the overflow of a `B`-ary word around to its low end preserves the
residue modulo `B - 1`, and two rounds of carrying reach it from anything below
`B * B`. Words are read from digit lists in pairs, high digit first, a last odd
digit standing for a high digit.
-/

import Mathlib.Data.Nat.ModEq
import Mathlib.Algebra.Order.Ring.Nat
import Mathlib.Tactic.Ring
import Mathlib.Tactic.Linarith

namespace Packet.Math

/-! ## The canonical representative -/

/-- The value a one's-complement sum with exact total `n` has: `0` for `0`, and
otherwise the number in `1..m` congruent to `n`. -/
def residue (m n : ℕ) : ℕ := if n = 0 then 0 else (n - 1) % m + 1

section Residue

variable {m n a b : ℕ}

@[simp] theorem residue_zero : residue m 0 = 0 := rfl

@[simp] theorem residue_eq_zero_iff : residue m n = 0 ↔ n = 0 := by
  unfold residue
  split <;> simp [*]

theorem residue_pos (nonzero : 0 < n) : 0 < residue m n := by
  rw [Nat.pos_iff_ne_zero, ne_eq, residue_eq_zero_iff]
  exact nonzero.ne'

theorem residue_le (positive : 0 < m) : residue m n ≤ m := by
  unfold residue
  split
  · exact Nat.zero_le m
  · exact Nat.mod_lt _ positive

theorem residue_modEq : residue m n ≡ n [MOD m] := by
  unfold residue
  split
  · rename_i zero
    rw [zero]
  · rename_i nonzero
    have shifted := (Nat.mod_modEq (n - 1) m).add_right 1
    rwa [Nat.sub_add_cancel (Nat.pos_of_ne_zero nonzero)] at shifted

/-- The representative is unique: being zero and the class modulo `m` fix it. -/
theorem residue_unique (zero : a = 0 ↔ b = 0) (ha : a ≤ m) (hb : b ≤ m)
    (same : a ≡ b [MOD m]) : a = b := by
  -- Below the modulus congruent numbers are equal; the modulus itself is congruent
  -- to zero only, which is where `zero` decides.
  rcases Nat.lt_or_ge a m with below | top
  · rcases Nat.lt_or_ge b m with below' | top'
    · exact same.eq_of_lt_of_lt below below'
    · obtain rfl : b = m := le_antisymm hb top'
      have divides : b ∣ a := (Nat.modEq_zero_iff_dvd).mp (same.trans (by simp [Nat.ModEq]))
      have vanishes := Nat.eq_zero_of_dvd_of_lt divides below
      exact vanishes.trans (zero.mp vanishes).symm
  · obtain rfl : a = m := le_antisymm ha top
    rcases Nat.lt_or_ge b a with below' | top'
    · have divides : a ∣ b :=
        (Nat.modEq_zero_iff_dvd).mp (same.symm.trans (by simp [Nat.ModEq]))
      have vanishes := Nat.eq_zero_of_dvd_of_lt divides below'
      exact (zero.mpr vanishes).trans vanishes.symm
    · exact le_antisymm top' hb

theorem residue_eq_iff (positive : 0 < m) :
    residue m a = residue m b ↔ (a = 0 ↔ b = 0) ∧ a ≡ b [MOD m] := by
  constructor
  · intro same
    refine ⟨?_, ?_⟩
    · rw [← residue_eq_zero_iff (m := m) (n := a), same, residue_eq_zero_iff]
    · exact (residue_modEq.symm.trans (same ▸ Nat.ModEq.refl _)).trans residue_modEq
  · rintro ⟨zero, same⟩
    refine residue_unique ?_ (residue_le positive) (residue_le positive)
      ((residue_modEq.trans same).trans residue_modEq.symm)
    rw [residue_eq_zero_iff, residue_eq_zero_iff, zero]

/-- A number already in canonical range is its own representative. -/
theorem residue_of_le (positive : 0 < m) (within : n ≤ m) : residue m n = n :=
  residue_unique residue_eq_zero_iff (residue_le positive) within residue_modEq

/-- Partial sums may be reduced before they are added. -/
theorem residue_add_residue (positive : 0 < m) :
    residue m (residue m a + residue m b) = residue m (a + b) := by
  refine (residue_eq_iff positive).mpr ⟨?_, residue_modEq.add residue_modEq⟩
  simp only [Nat.add_eq_zero_iff, residue_eq_zero_iff]

/-- A summand disappears from a nonzero sum exactly when the modulus divides it. -/
theorem residue_add_eq_iff (positive : 0 < m) (nonzero : 0 < a) :
    residue m (a + b) = residue m a ↔ m ∣ b := by
  rw [residue_eq_iff positive]
  constructor
  · rintro ⟨_, same⟩
    have cancelled : b ≡ 0 [MOD m] := Nat.ModEq.add_left_cancel' a same
    exact Nat.modEq_zero_iff_dvd.mp cancelled
  · intro divides
    refine ⟨by omega, ?_⟩
    exact (Nat.modEq_zero_iff_dvd.mpr divides).add_left a

/-- The second representation of zero: the sums that reach the modulus are the
nonzero multiples of it. -/
theorem residue_eq_modulus_iff (positive : 0 < m) : residue m n = m ↔ n ≠ 0 ∧ m ∣ n := by
  constructor
  · intro top
    refine ⟨?_, ?_⟩
    · rintro rfl
      exact positive.ne top
    · exact (Nat.modEq_zero_iff_dvd).mp
        (residue_modEq.symm.trans (by rw [top]; simp [Nat.ModEq]))
  · rintro ⟨nonzero, divides⟩
    refine residue_unique (by simp [nonzero, positive.ne']) (residue_le positive) le_rfl ?_
    exact residue_modEq.trans (((Nat.modEq_zero_iff_dvd).mpr divides).trans (by simp [Nat.ModEq]))

/-- A nonzero sum's representative is the one number in `1..m` of its class. -/
theorem eq_residue_iff (positive : 0 < m) (nonzero : 0 < n) :
    a = residue m n ↔ 1 ≤ a ∧ a ≤ m ∧ a ≡ n [MOD m] := by
  have lower : 0 < residue m n := residue_pos nonzero
  constructor
  · rintro rfl
    exact ⟨lower, residue_le positive, residue_modEq⟩
  · rintro ⟨inside, within, same⟩
    -- Neither of the two is zero, so the class decides.
    have zero : a = 0 ↔ residue m n = 0 := by omega
    exact residue_unique zero within (residue_le positive) (same.trans residue_modEq.symm)

/-- Adding the complement of a sum completes it to the modulus. -/
theorem residue_add_complement (positive : 0 < m) :
    residue m (n + (m - residue m n)) = m := by
  have within : residue m n ≤ m := residue_le positive
  refine (residue_eq_modulus_iff positive).mpr ⟨?_, ?_⟩
  · rcases Nat.eq_zero_or_pos n with rfl | nonzero
    · simpa using positive.ne'
    · omega
  · have complete : residue m n + (m - residue m n) = m := by omega
    have same := (residue_modEq (m := m) (n := n)).symm.add_right (m - residue m n)
    rw [complete] at same
    exact (Nat.modEq_zero_iff_dvd).mp (same.trans (by simp [Nat.ModEq]))

/-- A nonzero sum has one complement below the modulus, and the modulus itself,
which also completes the multiples of the modulus, is not it. -/
theorem sub_residue_eq_iff {c : ℕ} (positive : 0 < m) (nonzero : 0 < n) (within : c ≤ m) :
    m - residue m n = c ↔ m ∣ n + c ∧ c ≠ m := by
  have upper : residue m n ≤ m := residue_le positive
  have lower : 0 < residue m n := residue_pos nonzero
  constructor
  · rintro rfl
    have completed := residue_add_complement (n := n) positive
    exact ⟨((residue_eq_modulus_iff positive).mp completed).2, by omega⟩
  · rintro ⟨divides, proper⟩
    have same : residue m n + c ≡ n + c [MOD m] := residue_modEq.add_right c
    obtain ⟨k, multiple⟩ : m ∣ residue m n + c :=
      Nat.modEq_zero_iff_dvd.mp (same.trans (Nat.modEq_zero_iff_dvd.mpr divides))
    -- The sum lies strictly between 0 and 2m.
    match k with
    | 0 => omega
    | 1 => omega
    | k + 2 =>
      have large : m * 2 ≤ m * (k + 2) := Nat.mul_le_mul_left m (Nat.le_add_left 2 k)
      omega

end Residue

/-! ## End-around carry -/

/-- One round of carrying the overflow of a `B`-ary word around. -/
def carryAround (B n : ℕ) : ℕ := n % B + n / B

section Carry

variable {B n : ℕ}

theorem residue_carryAround (base : 1 < B) :
    residue (B - 1) (carryAround B n) = residue (B - 1) n := by
  have split := Nat.mod_add_div n B
  refine (residue_eq_iff (by omega)).mpr ⟨?_, ?_⟩
  · unfold carryAround
    constructor
    · intro vanishes
      obtain ⟨low, high⟩ := Nat.add_eq_zero_iff.mp vanishes
      rw [low, high] at split
      simpa using split.symm
    · rintro rfl
      simp
  · -- Carrying trades a factor of `B` for a factor of `1`.
    have base_one : B ≡ 1 [MOD B - 1] := by
      have := Nat.add_modEq_left (n := B - 1) (a := 1)
      rwa [Nat.sub_add_cancel base.le] at this
    have carried : n % B + n / B ≡ n % B + B * (n / B) [MOD B - 1] := by
      simpa using (base_one.symm.mul_right (n / B)).add_left (n % B)
    rwa [split] at carried

/-- Two rounds of carrying reach the canonical representative. -/
theorem carryAround_twice (base : 1 < B) (small : n < B * B) :
    carryAround B (carryAround B n) = residue (B - 1) n := by
  have low : n % B < B := Nat.mod_lt _ (by omega)
  have high : n / B < B := Nat.div_lt_of_lt_mul small
  have within : carryAround B (carryAround B n) ≤ B - 1 := by
    unfold carryAround
    generalize n % B = l at low ⊢
    generalize n / B = h at high ⊢
    -- The first round leaves less than `2 * B`, so the second carries at most one.
    rcases Nat.lt_or_ge (l + h) B with fits | carries
    · rw [Nat.mod_eq_of_lt fits, Nat.div_eq_of_lt fits]
      omega
    · have rest : l + h = (l + h - B) + B := by omega
      rw [rest, Nat.add_mod_right, Nat.add_div_right _ (by omega),
        Nat.mod_eq_of_lt (by omega), Nat.div_eq_of_lt (by omega)]
      omega
  rw [← residue_of_le (by omega) within, residue_carryAround base, residue_carryAround base]

end Carry

/-! ## Sums of two-digit words -/

section PairSum

variable {α : Type} (value : α → ℕ) (B : ℕ)

/-- The exact sum of the words a digit list spells, high digit first. A last odd
digit is a high digit with a low digit of `0`. -/
def pairSum : List α → ℕ
  | [] => 0
  | [last] => value last * B
  | high :: low :: rest => value high * B + value low + pairSum rest

@[simp] theorem pairSum_nil : pairSum value B [] = 0 := rfl

@[simp] theorem pairSum_cons_cons (high low : α) (rest : List α) :
    pairSum value B (high :: low :: rest) = value high * B + value low + pairSum value B rest :=
  rfl

theorem pairSum_singleton (last : α) : pairSum value B [last] = value last * B := rfl

/-- Sums split at word boundaries. -/
theorem pairSum_append_of_even : ∀ {xs : List α} (ys : List α), xs.length % 2 = 0 →
    pairSum value B (xs ++ ys) = pairSum value B xs + pairSum value B ys
  | [], ys, _ => by simp
  | [_], ys, even => by simp at even
  | high :: low :: rest, ys, even => by
    have even' : rest.length % 2 = 0 := by
      simp only [List.length_cons] at even
      omega
    rw [List.cons_append, List.cons_append, pairSum_cons_cons, pairSum_cons_cons,
      pairSum_append_of_even ys even', ← Nat.add_assoc]

/-- After an odd number of digits the next digit completes a word, as if a zero
digit stood before it. -/
theorem pairSum_append_of_odd (zero : α) (vanishes : value zero = 0) :
    ∀ {xs : List α} (ys : List α), xs.length % 2 = 1 →
      pairSum value B (xs ++ ys) = pairSum value B xs + pairSum value B (zero :: ys)
  | [], ys, odd => by simp at odd
  -- The odd last digit is a word of its own or takes the next digit as its low one.
  | [last], [], _ => by simp [pairSum, vanishes]
  | [last], low :: rest, _ => by simp [pairSum, vanishes, Nat.add_assoc]
  | high :: low :: rest, ys, odd => by
    have odd' : rest.length % 2 = 1 := by
      simp only [List.length_cons] at odd
      omega
    rw [List.cons_append, List.cons_append, pairSum_cons_cons, pairSum_cons_cons,
      pairSum_append_of_odd zero vanishes ys odd', ← Nat.add_assoc]

/-- A sum vanishes only when every digit does. -/
theorem pairSum_eq_zero_iff (positive : 0 < B) : ∀ xs : List α,
    pairSum value B xs = 0 ↔ ∀ a ∈ xs, value a = 0
  | [] => by simp
  | [last] => by simp [pairSum_singleton, positive.ne']
  | high :: low :: rest => by
    simp only [pairSum_cons_cons, Nat.add_eq_zero_iff, pairSum_eq_zero_iff positive rest,
      List.forall_mem_cons, Nat.mul_eq_zero, positive.ne', or_false, and_assoc]

/-- A list of `n` digits spells at most `(n + 1) / 2` words, each below `B * B`. -/
theorem pairSum_le (digit : ∀ a, value a < B) : ∀ xs : List α,
    pairSum value B xs ≤ (B * B - 1) * ((xs.length + 1) / 2)
  | [] => by simp
  | [last] => by
    have bound := digit last
    have : value last * B ≤ (B - 1) * B := Nat.mul_le_mul_right B (by omega)
    rw [pairSum_singleton]
    simp only [List.length_singleton, Nat.reduceAdd, Nat.reduceDiv, Nat.mul_one]
    rw [Nat.sub_mul] at this
    omega
  | high :: low :: rest => by
    have bound := digit high
    have bound' := digit low
    -- The largest word has both of its digits at `B - 1`.
    have step : value high * B + value low ≤ B * B - 1 := by
      have : value high * B ≤ (B - 1) * B := Nat.mul_le_mul_right B (by omega)
      rw [Nat.sub_mul] at this
      have : B ≤ B * B := Nat.le_mul_self B
      omega
    have words : (rest.length + 1 + 1 + 1) / 2 = (rest.length + 1) / 2 + 1 := by omega
    rw [pairSum_cons_cons, List.length_cons, List.length_cons, words, Nat.mul_add, Nat.mul_one]
    have := pairSum_le digit rest
    omega

end PairSum

end Packet.Math

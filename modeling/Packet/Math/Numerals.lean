/-
# Texts with numerals in them

A numeral can be read back from the text it stands in when what follows it does not
begin with a digit, or when it is padded to a fixed width. So two texts with the same
words around their numerals are the same text only if the numerals are the same.
-/

import Mathlib.Data.List.Basic
import Mathlib.Data.Nat.Notation
import Mathlib.Tactic.IntervalCases

namespace Packet.Math

section Values

variable {b : ℕ}

/-- The value of a digit in a base up to 16. -/
def digitValue (c : Char) : ℕ := if c.isDigit then c.toNat - 48 else c.toNat - 87

theorem digitValue_digitChar {d : ℕ} (small : d < 16) : digitValue d.digitChar = d := by
  interval_cases d <;> rfl

/-- The number a numeral stands for. -/
def readNumeral (b : ℕ) (digits : List Char) : ℕ :=
  digits.foldl (fun n c => b * n + digitValue c) 0

/-- The last digit counts once, those before it `b` times. -/
theorem readNumeral_concat (digits : List Char) (c : Char) :
    readNumeral b (digits ++ [c]) = b * readNumeral b digits + digitValue c := by
  rw [readNumeral, List.foldl_append]
  rfl

/-- A numeral stands for the number it was written for. -/
theorem readNumeral_toDigits (base : 1 < b) (small : b ≤ 16) (n : ℕ) :
    readNumeral b (Nat.toDigits b n) = n := by
  induction n using Nat.strongRecOn with
  | ind n ih =>
    by_cases single : n < b
    · rw [Nat.toDigits_of_lt_base single, ← List.nil_append [n.digitChar], readNumeral_concat,
        digitValue_digitChar (by omega)]
      exact Nat.zero_add n
    · -- All digits but the last are those of the quotient.
      have last : n % b < 16 := Nat.lt_of_lt_of_le (Nat.mod_lt n (by omega)) small
      rw [Nat.toDigits_of_base_le base (by omega), readNumeral_concat,
        ih _ (Nat.div_lt_self (by omega) base), digitValue_digitChar last]
      exact Nat.div_add_mod n b

/-- Numbers with the same numeral are the same. -/
theorem eq_of_toDigits_eq (base : 1 < b) (small : b ≤ 16) {m n : ℕ}
    (same : Nat.toDigits b m = Nat.toDigits b n) : m = n := by
  rw [← readNumeral_toDigits base small m, same, readNumeral_toDigits base small n]

/-- Leading zeros do not count. -/
theorem readNumeral_leftpad (width : ℕ) (digits : List Char) :
    readNumeral b (digits.leftpad width '0') = readNumeral b digits := by
  have zeros (k : ℕ) : readNumeral b (List.replicate k '0') = 0 := by
    induction k with
    | zero => rfl
    | succ k ih =>
      rw [List.replicate_succ', readNumeral_concat, ih]
      rfl
  have padding := zeros (width - digits.length)
  rw [readNumeral] at padding
  rw [List.leftpad, readNumeral, List.foldl_append, padding]
  rfl

end Values

section Texts

variable {m n : ℕ} {rest rest' : List Char}

/-- A text that does not go on with a digit. -/
def Stops (rest : List Char) : Prop := rest.head?.any Char.isDigit = false

theorem stops_nil : Stops [] := rfl

theorem stops_append {words : List Char} (stops : Stops words) (nonempty : words ≠ [])
    (rest : List Char) : Stops (words ++ rest) := by
  cases words with
  | nil => exact absurd rfl nonempty
  | cons c words => exact stops

/-- A numeral is the digits at the head of its text. -/
theorem takeWhile_numeral (n : ℕ) (stops : Stops rest) :
    (Nat.toDigits 10 n ++ rest).takeWhile Char.isDigit = Nat.toDigits 10 n := by
  have digits : ∀ c ∈ Nat.toDigits 10 n, c.isDigit := fun c mem =>
    Nat.isDigit_of_mem_toDigits (by decide) (by decide) mem
  rw [List.takeWhile_append_of_pos digits]
  cases rest with
  | nil => exact List.append_nil _
  | cons c rest =>
    have other : c.isDigit = false := stops
    rw [List.takeWhile_cons_of_neg (by simp [other])]
    exact List.append_nil _

/-- A numeral and what follows it are determined by the text they make. -/
theorem numeral_append_inj (stops : Stops rest) (stops' : Stops rest')
    (same : Nat.toDigits 10 m ++ rest = Nat.toDigits 10 n ++ rest') : m = n ∧ rest = rest' := by
  have digits : Nat.toDigits 10 m = Nat.toDigits 10 n := by
    rw [← takeWhile_numeral m stops, same, takeWhile_numeral n stops']
  exact ⟨eq_of_toDigits_eq (by decide) (by decide) digits,
    List.append_cancel_left (digits ▸ same)⟩

/-- The same for numerals padded to a width that they fit in. -/
theorem padded_append_inj {b width : ℕ} (base : 1 < b) (small : b ≤ 16) (wide : 0 < width)
    (fits : m < b ^ width) (fits' : n < b ^ width)
    (same : (Nat.toDigits b m).leftpad width '0' ++ rest =
      (Nat.toDigits b n).leftpad width '0' ++ rest') : m = n ∧ rest = rest' := by
  have size (k : ℕ) (short : k < b ^ width) :
      ((Nat.toDigits b k).leftpad width '0').length = width := by
    rw [List.length_leftpad, Nat.max_eq_left ((Nat.length_toDigits_le_iff base wide).mpr short)]
  obtain ⟨digits, rests⟩ := List.append_inj same ((size m fits).trans (size n fits').symm)
  refine ⟨?_, rests⟩
  rw [← readNumeral_toDigits base small m, ← readNumeral_leftpad width, digits,
    readNumeral_leftpad, readNumeral_toDigits base small n]

/-- A text with one numeral determines it. -/
theorem numeral_inj (words : List Char) {after : List Char} (stops : Stops after)
    (same : words ++ (Nat.toDigits 10 m ++ after) = words ++ (Nat.toDigits 10 n ++ after)) :
    m = n := (numeral_append_inj stops stops (List.append_cancel_left same)).1

/-- A text with two numerals and words between them determines both. -/
theorem numerals_inj (words : List Char) {between after : List Char} {m' n' : ℕ}
    (stops : Stops between) (nonempty : between ≠ []) (stops' : Stops after)
    (same : words ++ (Nat.toDigits 10 m ++ (between ++ (Nat.toDigits 10 n ++ after))) =
      words ++ (Nat.toDigits 10 m' ++ (between ++ (Nat.toDigits 10 n' ++ after)))) :
    m = m' ∧ n = n' := by
  obtain ⟨first, rests⟩ := numeral_append_inj (stops_append stops nonempty _)
    (stops_append stops nonempty _) (List.append_cancel_left same)
  exact ⟨first, numeral_inj between stops' rests⟩

/-- The same for a text that ends with its second numeral. -/
theorem numerals_inj_end (words : List Char) {between : List Char} {m' n' : ℕ}
    (stops : Stops between) (nonempty : between ≠ [])
    (same : words ++ (Nat.toDigits 10 m ++ (between ++ Nat.toDigits 10 n)) =
      words ++ (Nat.toDigits 10 m' ++ (between ++ Nat.toDigits 10 n'))) : m = m' ∧ n = n' := by
  rw [← List.append_nil (Nat.toDigits 10 n), ← List.append_nil (Nat.toDigits 10 n')] at same
  exact numerals_inj words stops nonempty stops_nil same

/-- The words two equal texts begin with do not part. -/
theorem prefix_of_append_eq {words words' : List Char} (same : words ++ rest = words' ++ rest') :
    words <+: words' ∨ words' <+: words :=
  List.prefix_or_prefix_of_prefix (List.prefix_append words rest)
    (same ▸ List.prefix_append words' rest')

end Texts

end Packet.Math

/-
# The Internet checksum

The accumulator is a checked `u32`, so a sum either equals the exact sum of the
message's words or panics; the two folding rounds at the end are then enough for
every accumulator value. Each function has one equation that gives its value in
terms of exact sums.
-/

import Packet.Math.OnesComplement
import Packet.Model.View

namespace Packet.Checksum

open Rust Math

/-! ## The functions of the module -/

/-- `bytes.as_chunks::<2>()` -/
def asChunks : Bytes → List (UInt8 × UInt8) × Bytes
  | high :: low :: rest => ((high, low) :: (asChunks rest).1, (asChunks rest).2)
  | remainder => ([], remainder)

/-- One turn of the word loop of `sum_words`. -/
def addWord (acc : UInt32) (word : UInt8 × UInt8) : Exec UInt32 :=
  addU32 acc (u16FromBeBytes word.1 word.2).toUInt32

/-- The words of a slice, summed. -/
def sumWords (bytes : Bytes) : Exec UInt32 := do
  let (words, rem) := asChunks bytes
  let sum ← words.foldlM addWord 0
  -- A last odd byte is the high byte of a word.
  match rem with
  | [last] => addU32 sum (last.toUInt32 <<< 8)
  | _ => return sum

/-- The carries of a sum, added back in until 16 bits are left. -/
def fold (sum : UInt32) : Exec UInt16 := do
  -- The first round may carry once more, the second does not.
  let sum ← addU32 (sum &&& 0xffff) (sum >>> 16)
  let sum ← addU32 (sum &&& 0xffff) (sum >>> 16)
  return sum.toUInt16

/-- The ones' complement sum of a slice, without the checksum field if its offset is given. -/
def onesComplementSum (bytes : Bytes) (checksumOffset : Option ℕ) : Exec UInt16 := do
  debugAssert ((checksumOffset.map fun offset =>
    decide (offset + 1 < bytes.length) && offset % 2 == 0).getD true)
  let sum ← match checksumOffset with
    -- The two sides of the checksum field are summed apart, so the assertion asks
    -- for a field on a word boundary.
    | some offset => do
      let before ← sumWords (← rangeTo bytes offset)
      let after ← sumWords (← rangeFrom bytes (offset + 2))
      addU32 before after
    | none => sumWords bytes
  fold sum

/-- All header bytes go in, the stored checksum field included; a correct header
sums to `0xffff`. -/
def verify (bytes : Bytes) : Exec Bool := do
  return (← onesComplementSum bytes none) == 0xffff

/-- The checksum to store at an offset. -/
def compute (bytes : Bytes) (checksumOffset : ℕ) : Exec UInt16 := do
  return ~~~(← onesComplementSum bytes (some checksumOffset))

/-- The sums of the pseudo-header and of the segment, added up and complemented. -/
def transportChecksumWithPseudoHeader (pseudoHeader segment : Bytes) (checksumOffset : ℕ) :
    Exec UInt16 := do
  let pseudoSum ← onesComplementSum pseudoHeader none
  let segmentSum ← onesComplementSum segment (some checksumOffset)
  let total ← addU32 pseudoSum.toUInt32 segmentSum.toUInt32
  return ~~~(← fold total)

/-! ## Exact sums -/

/-- The exact sum of the big-endian words of a message. -/
def wordSum (bytes : Bytes) : ℕ := pairSum UInt8.toNat 256 bytes

@[simp] theorem wordSum_nil : wordSum [] = 0 := rfl

@[simp] theorem wordSum_cons_cons (high low : UInt8) (rest : Bytes) :
    wordSum (high :: low :: rest) = high.toNat * 256 + low.toNat + wordSum rest := rfl

theorem wordSum_singleton (last : UInt8) : wordSum [last] = last.toNat * 256 := rfl

theorem wordSum_append {front : Bytes} (back : Bytes) (even : front.length % 2 = 0) :
    wordSum (front ++ back) = wordSum front + wordSum back :=
  pairSum_append_of_even _ _ back even

theorem wordSum_append_of_odd {front : Bytes} (back : Bytes) (odd : front.length % 2 = 1) :
    wordSum (front ++ back) = wordSum front + wordSum (0 :: back) :=
  pairSum_append_of_odd _ _ (0 : UInt8) rfl back odd

/-- A message of one byte repeated. -/
theorem wordSum_replicate (k : ℕ) (byte : UInt8) :
    wordSum (List.replicate (2 * k) byte) = k * (byte.toNat * 257) := by
  induction k with
  | zero => rw [Nat.mul_zero, List.replicate_zero, wordSum_nil, Nat.zero_mul]
  | succ k ih =>
    rw [Nat.mul_succ, List.replicate_succ, List.replicate_succ, wordSum_cons_cons, ih,
      Nat.succ_mul]
    omega

/-- The exact sum of the words of a message outside its checksum field. -/
def sumOutside (bytes : Bytes) (offset : ℕ) : ℕ :=
  wordSum (bytes.take offset) + wordSum (bytes.drop (offset + 2))

theorem wordSum_lt {bytes : Bytes} (short : bytes.length ≤ 131072) : wordSum bytes < 2 ^ 32 := by
  have bound := pairSum_le UInt8.toNat 256 (fun b => b.toNat_lt) bytes
  simp only [wordSum]
  omega

theorem sumOutside_lt {bytes : Bytes} (short : bytes.length ≤ 65535) (offset : ℕ) :
    sumOutside bytes offset < 2 ^ 32 := by
  have front := pairSum_le UInt8.toNat 256 (fun b => b.toNat_lt) (bytes.take offset)
  have back := pairSum_le UInt8.toNat 256 (fun b => b.toNat_lt) (bytes.drop (offset + 2))
  rw [List.length_take] at front
  rw [List.length_drop] at back
  simp only [sumOutside, wordSum]
  omega

/-- The checksum of a message whose words outside the checksum field add up to
`total`. -/
def checksumOf (total : ℕ) : UInt16 := ~~~UInt16.ofNat (residue 65535 total)

theorem residue_lt_u16 (total : ℕ) : residue 65535 total < 2 ^ 16 :=
  Nat.lt_succ_of_le (residue_le (by decide))

theorem checksumOf_toNat (total : ℕ) :
    (checksumOf total).toNat = 65535 - residue 65535 total := by
  rw [checksumOf, UInt16.toNat_not, UInt16.toNat_ofNat_of_lt' (residue_lt_u16 total)]
  rfl

theorem checksumOf_inj {a b : ℕ} :
    checksumOf a = checksumOf b ↔ residue 65535 a = residue 65535 b := by
  have ha := residue_lt_u16 a
  have hb := residue_lt_u16 b
  rw [← UInt16.toNat_inj, checksumOf_toNat, checksumOf_toNat]
  omega

/-- The checksum is `0` exactly for the messages whose sum is the second
representation of zero. -/
theorem checksumOf_eq_zero_iff {total : ℕ} :
    checksumOf total = 0 ↔ total ≠ 0 ∧ 65535 ∣ total := by
  have bound := residue_lt_u16 total
  rw [← residue_eq_modulus_iff (by decide), ← UInt16.toNat_inj, checksumOf_toNat]
  simp only [UInt16.toNat_zero]
  omega

/-- More words leave a nonzero sum's checksum alone exactly when they add up to a
multiple of 65535. -/
theorem checksumOf_add_eq_iff {total extra : ℕ} (nonzero : 0 < total) :
    checksumOf (total + extra) = checksumOf total ↔ 65535 ∣ extra := by
  rw [checksumOf_inj, residue_add_eq_iff (by decide) nonzero]

/-- A stored value is the checksum of a nonzero sum exactly when it completes the
sum and is not the second representation of zero. -/
theorem checksumOf_eq_iff {total : ℕ} {stored : UInt16} (nonzero : 0 < total) :
    checksumOf total = stored ↔ 65535 ∣ total + stored.toNat ∧ stored ≠ 0xffff := by
  have within : stored.toNat ≤ 65535 := Nat.le_of_lt_succ stored.toNat_lt
  rw [← UInt16.toNat_inj, checksumOf_toNat, sub_residue_eq_iff (by decide) nonzero within,
    ne_eq, ne_eq, ← UInt16.toNat_inj]
  rfl

/-- A stored value completes a sum to the second representation of zero when it is
the checksum of the sum, or is that representation where the checksum is the first. -/
theorem completes_iff {total : ℕ} {stored : UInt16} :
    total + stored.toNat ≠ 0 ∧ 65535 ∣ total + stored.toNat ↔
      stored = checksumOf total ∨ stored = 0xffff ∧ checksumOf total = 0 := by
  rcases Nat.eq_zero_or_pos total with rfl | nonzero
  · -- The checksum of nothing but zeros is `0xffff`.
    have within := stored.toNat_lt
    have ones : checksumOf 0 = 0xffff := rfl
    rw [ones, ← UInt16.toNat_inj, show (0xffff : UInt16).toNat = 65535 from rfl]
    simp only [show (0xffff : UInt16) ≠ 0 by decide, and_false, or_false]
    omega
  · -- Where the sum is a multiple of 65535 both zeros complete it.
    rw [eq_comm, checksumOf_eq_iff nonzero, checksumOf_eq_zero_iff]
    by_cases second : stored = 0xffff
    · subst second
      rw [show (0xffff : UInt16).toNat = 65535 from rfl, Nat.dvd_add_self_right]
      simp [nonzero.ne']
    · simp [second, nonzero.ne']

/-! ### The checksum field -/

section Field

variable {bytes : Bytes} {offset : ℕ}

/-- From a word on, the words are that one and those after it. -/
theorem wordSum_drop (inside : offset + 2 ≤ bytes.length) :
    wordSum (bytes.drop offset) =
      (wordAt bytes offset).toNat + wordSum (bytes.drop (offset + 2)) := by
  have word : bytes.drop offset =
      byteAt bytes offset :: byteAt bytes (offset + 1) :: bytes.drop (offset + 2) := by
    rw [List.drop_eq_getElem_cons (by omega), List.drop_eq_getElem_cons (by omega), byteAt, byteAt,
      List.getD_eq_getElem _ _ (by omega), List.getD_eq_getElem _ _ (by omega)]
  rw [word, wordSum_cons_cons, wordAt, u16FromBeBytes_toNat]

/-- A message is its words outside the checksum field and the field's own word. -/
theorem wordSum_eq_add_field (even : offset % 2 = 0) (inside : offset + 2 ≤ bytes.length) :
    wordSum bytes = sumOutside bytes offset + (wordAt bytes offset).toNat := by
  have aligned : (bytes.take offset).length % 2 = 0 := by
    rw [List.length_take]
    omega
  have parts := wordSum_append (bytes.drop offset) aligned
  rw [List.take_append_drop, wordSum_drop inside] at parts
  rw [parts, sumOutside]
  omega

/-- What bytes after a message add to its sum. After an odd number of bytes the
first of them completes a word. -/
def trailingSum (bytes trailing : Bytes) : ℕ :=
  if bytes.length % 2 = 0 then wordSum trailing else wordSum (0 :: trailing)

theorem sumOutside_append (even : offset % 2 = 0) (inside : offset + 2 ≤ bytes.length)
    (trailing : Bytes) :
    sumOutside (bytes ++ trailing) offset =
      sumOutside bytes offset + trailingSum bytes trailing := by
  have size : (bytes.drop (offset + 2)).length = bytes.length - (offset + 2) := List.length_drop
  rw [sumOutside, List.take_append_of_le_length (by omega), List.drop_append_of_le_length inside,
    sumOutside, trailingSum, Nat.add_assoc]
  congr 1
  -- The field ends on a word boundary, so what is left has the parity of the message.
  by_cases aligned : bytes.length % 2 = 0
  · rw [if_pos aligned, wordSum_append trailing (by omega)]
  · rw [if_neg aligned, wordSum_append_of_odd trailing (by omega)]

/-- What the checksum field holds does not enter the sum outside it. -/
theorem sumOutside_splice (inside : offset + 2 ≤ bytes.length) {values : Bytes}
    (width : values.length = 2) :
    sumOutside (splice bytes offset values) offset = sumOutside bytes offset := by
  have after : (splice bytes offset values).drop (offset + values.length) =
      bytes.drop (offset + values.length) := splice_drop_end (by omega)
  rw [width] at after
  rw [sumOutside, splice_take_offset (by omega), after, sumOutside]

/-- Zeros in the checksum field leave the sum of the words outside it. -/
theorem wordSum_splice_zeros (even : offset % 2 = 0) (inside : offset + 2 ≤ bytes.length) :
    wordSum (splice bytes offset [0, 0]) = sumOutside bytes offset := by
  have size : (splice bytes offset [0, 0]).length = bytes.length := splice_length inside
  have field : wordAt (splice bytes offset [0, 0]) offset = 0 := wordAt_splice_self (by omega) 0
  rw [wordSum_eq_add_field even (size.symm ▸ inside), field, sumOutside_splice inside rfl]
  rfl

/-- Replacing a word changes the sum by the difference. -/
theorem wordSum_splice (even : offset % 2 = 0) (inside : offset + 2 ≤ bytes.length)
    (value : UInt16) :
    wordSum (splice bytes offset (u16ToBeBytes value)) + (wordAt bytes offset).toNat =
      wordSum bytes + value.toNat := by
  have size := length_splice_word inside value
  rw [wordSum_eq_add_field even (size.symm ▸ inside), sumOutside_splice inside rfl,
    wordAt_splice_self (by omega), wordSum_eq_add_field even inside]
  omega

end Field

/-! ## Values of the functions -/

private theorem addWord_ofNat {acc : ℕ} (small : acc < 2 ^ 32) (high low : UInt8) :
    addWord (.ofNat acc) (high, low) =
      if acc + (high.toNat * 256 + low.toNat) < 2 ^ 32 then
        .ok (.ofNat (acc + (high.toNat * 256 + low.toNat)))
      else .error .overflow := by
  have word : (u16FromBeBytes high low).toUInt32 = .ofNat (high.toNat * 256 + low.toNat) := by
    have hhigh := high.toNat_lt
    have hlow := low.toNat_lt
    apply UInt32.toNat_inj.mp
    rw [UInt16.toNat_toUInt32, u16FromBeBytes_toNat,
      UInt32.toNat_ofNat_of_lt' (by simp only [UInt32.size]; omega)]
  have hhigh := high.toNat_lt
  have hlow := low.toNat_lt
  rw [addWord, word, addU32_ofNat small (by omega)]

private theorem addLast_ofNat {acc : ℕ} (small : acc < 2 ^ 32) (last : UInt8) :
    addU32 (.ofNat acc) (last.toUInt32 <<< 8) =
      if acc + last.toNat * 256 < 2 ^ 32 then .ok (.ofNat (acc + last.toNat * 256))
      else .error .overflow := by
  have hlast := last.toNat_lt
  have word : last.toUInt32 <<< 8 = .ofNat (last.toNat * 256) := by
    apply UInt32.toNat_inj.mp
    rw [UInt32.toNat_shiftLeft, UInt8.toNat_toUInt32,
      UInt32.toNat_ofNat_of_lt' (by simp only [UInt32.size]; omega)]
    simp only [UInt32.reduceToNat, Nat.reduceMod, Nat.shiftLeft_eq, Nat.reducePow]
    omega
  rw [word, addU32_ofNat small (by omega)]

/-- The word loop and the odd tail, started from any accumulator. The induction
takes two bytes at a time, as `asChunks` does. -/
private theorem sumFrom_eq (bytes : Bytes) (acc : ℕ) (small : acc < 2 ^ 32) :
    ((asChunks bytes).1.foldlM addWord (.ofNat acc) >>= fun sum =>
      match (asChunks bytes).2 with
      | [last] => addU32 sum (last.toUInt32 <<< 8)
      | _ => return sum) =
      if acc + wordSum bytes < 2 ^ 32 then .ok (.ofNat (acc + wordSum bytes))
      else .error .overflow := by
  induction bytes using asChunks.induct generalizing acc with
  | case1 high low rest ih =>
    simp only [asChunks, List.foldlM_cons, addWord_ofNat small, wordSum_cons_cons,
      ← Nat.add_assoc]
    split
    · rename_i fits
      rw [ok_bind]
      simpa only [← Nat.add_assoc] using ih (acc + high.toNat * 256 + low.toNat) fits
    · -- A sum that does not fit is not made smaller by later words.
      rw [if_neg (by omega), error_bind, error_bind]
  | case2 remainder short =>
    match remainder, short with
    | [], _ => simpa [asChunks] using small
    | [last], _ => simpa [asChunks, wordSum_singleton] using addLast_ofNat small last
    | high :: low :: rest, short => exact absurd rfl (short high low rest)

/-- The accumulator holds the exact sum, or the sum does not fit and the
computation panics. -/
theorem sumWords_eq (bytes : Bytes) :
    sumWords bytes =
      if wordSum bytes < 2 ^ 32 then .ok (.ofNat (wordSum bytes)) else .error .overflow := by
  have total := sumFrom_eq bytes 0 (by decide)
  rw [Nat.zero_add] at total
  exact total

/-- One round of folding never overflows. -/
theorem carry_eq (sum : UInt32) :
    addU32 (sum &&& 0xffff) (sum >>> 16) = .ok (.ofNat (carryAround 65536 sum.toNat)) := by
  have bound := sum.toNat_lt
  have low : (sum &&& 0xffff).toNat = sum.toNat % 65536 := by
    rw [UInt32.toNat_and]
    exact Nat.and_two_pow_sub_one_eq_mod sum.toNat 16
  have high : (sum >>> 16).toNat = sum.toNat / 65536 := by
    rw [UInt32.toNat_shiftRight]
    exact Nat.shiftRight_eq_div_pow sum.toNat 16
  -- Two halves of 16 bits each.
  rw [addU32, low, high, if_pos (by omega), carryAround]
  congr 1
  apply UInt32.toNat_inj.mp
  rw [UInt32.toNat_add, low, high, UInt32.toNat_ofNat']

theorem carryAround_lt (sum : UInt32) : carryAround 65536 sum.toNat < 2 ^ 32 := by
  have bound := sum.toNat_lt
  unfold carryAround
  omega

/-- The low half of an accumulator that is a canonical representative. -/
theorem toUInt16_ofNat_residue (total : ℕ) :
    (UInt32.ofNat (residue 65535 total)).toUInt16 = .ofNat (residue 65535 total) := by
  apply UInt16.toNat_inj.mp
  rw [UInt32.toNat_toUInt16, UInt32.toNat_ofNat', UInt16.toNat_ofNat']
  exact Nat.mod_mod_of_dvd _ (by decide)

/-- Two rounds reach the canonical representative from every accumulator. -/
theorem fold_eq (sum : UInt32) : fold sum = .ok (.ofNat (residue 65535 sum.toNat)) := by
  have bound := sum.toNat_lt
  rw [fold, carry_eq, ok_bind, carry_eq, ok_bind, UInt32.toNat_ofNat_of_lt' (carryAround_lt sum),
    carryAround_twice (by decide) (by omega), pure_eq_ok, toUInt16_ofNat_residue]

theorem onesComplementSum_none_eq (bytes : Bytes) :
    onesComplementSum bytes none =
      if wordSum bytes < 2 ^ 32 then .ok (.ofNat (residue 65535 (wordSum bytes)))
      else .error .overflow := by
  unfold onesComplementSum
  simp only [Option.map_none, Option.getD_none, debugAssert_true, ok_bind, sumWords_eq]
  split
  · rename_i fits
    rw [ok_bind, fold_eq, UInt32.toNat_ofNat_of_lt' fits]
  · rfl

theorem onesComplementSum_some_eq {bytes : Bytes} {offset : ℕ} (inside : offset + 1 < bytes.length)
    (even : offset % 2 = 0) :
    onesComplementSum bytes (some offset) =
      if sumOutside bytes offset < 2 ^ 32 then
        .ok (.ofNat (residue 65535 (sumOutside bytes offset)))
      else .error .overflow := by
  unfold onesComplementSum
  simp only [Option.map_some, Option.getD_some, inside, even, decide_true, beq_self_eq_true,
    Bool.and_self, debugAssert_true, ok_bind, rangeTo_eq_ok (show offset ≤ bytes.length by omega),
    rangeFrom_eq_ok (show offset + 2 ≤ bytes.length by omega), sumWords_eq]
  have parts : sumOutside bytes offset =
    wordSum (bytes.take offset) + wordSum (bytes.drop (offset + 2)) := rfl
  -- The three additions overflow exactly when the exact sum does.
  by_cases fits : sumOutside bytes offset < 2 ^ 32
  · rw [if_pos (by omega), if_pos (by omega), if_pos fits, ok_bind, ok_bind,
      addU32_ofNat (by omega) (by omega), ← parts, if_pos fits, ok_bind, fold_eq,
      UInt32.toNat_ofNat_of_lt' fits]
  · rw [if_neg fits]
    split
    · split
      · rw [ok_bind, ok_bind, addU32_ofNat (by omega) (by omega), ← parts, if_neg fits,
          error_bind]
      · rfl
    · rfl

theorem verify_eq {bytes : Bytes} (fits : wordSum bytes < 2 ^ 32) :
    verify bytes = .ok (decide (wordSum bytes ≠ 0 ∧ 65535 ∣ wordSum bytes)) := by
  rw [verify, onesComplementSum_none_eq, if_pos fits, ok_bind, pure_eq_ok]
  congr 1
  rw [Bool.eq_iff_iff, beq_iff_eq, decide_eq_true_eq, ← residue_eq_modulus_iff (by decide),
    ← UInt16.toNat_inj, UInt16.toNat_ofNat_of_lt' (residue_lt_u16 _)]
  rfl

theorem verify_eq_true_iff {bytes : Bytes} (fits : wordSum bytes < 2 ^ 32) :
    verify bytes = .ok true ↔ wordSum bytes ≠ 0 ∧ 65535 ∣ wordSum bytes := by
  rw [verify_eq fits, Except.ok.injEq, decide_eq_true_eq]

theorem compute_eq {bytes : Bytes} {offset : ℕ} (inside : offset + 1 < bytes.length)
    (even : offset % 2 = 0) :
    compute bytes offset =
      if sumOutside bytes offset < 2 ^ 32 then .ok (checksumOf (sumOutside bytes offset))
      else .error .overflow := by
  rw [compute, onesComplementSum_some_eq inside even]
  split <;> rfl

/-- A message verifies when its field stores the checksum of the rest, or the other
representation of a checksum of zero. -/
theorem verify_eq_stored {bytes : Bytes} {offset : ℕ} (even : offset % 2 = 0)
    (inside : offset + 2 ≤ bytes.length) (fits : wordSum bytes < 2 ^ 32) :
    verify bytes = .ok (decide (wordAt bytes offset = checksumOf (sumOutside bytes offset) ∨
      wordAt bytes offset = 0xffff ∧ checksumOf (sumOutside bytes offset) = 0)) := by
  rw [verify_eq fits]
  congr 1
  rw [decide_eq_decide, wordSum_eq_add_field even inside, completes_iff]

/-- What the checksum field holds does not enter the transport checksum. -/
theorem transportChecksum_splice (pseudo : Bytes) {segment : Bytes} {offset : ℕ}
    (inside : offset + 2 ≤ segment.length) (even : offset % 2 = 0) (value : UInt16) :
    transportChecksumWithPseudoHeader pseudo (splice segment offset (u16ToBeBytes value)) offset =
      transportChecksumWithPseudoHeader pseudo segment offset := by
  have size := length_splice_word inside value
  have same : onesComplementSum (splice segment offset (u16ToBeBytes value)) (some offset) =
      onesComplementSum segment (some offset) := by
    rw [onesComplementSum_some_eq (by omega) even, onesComplementSum_some_eq (by omega) even,
      sumOutside_splice inside rfl]
  rw [transportChecksumWithPseudoHeader, same, transportChecksumWithPseudoHeader]

/-- The transport checksum is the checksum of the pseudo-header and the segment
as one message. -/
theorem transportChecksum_eq {pseudo segment : Bytes} {offset : ℕ}
    (small : wordSum pseudo < 2 ^ 32) (inside : offset + 1 < segment.length)
    (even : offset % 2 = 0) :
    transportChecksumWithPseudoHeader pseudo segment offset =
      if sumOutside segment offset < 2 ^ 32 then
        .ok (checksumOf (wordSum pseudo + sumOutside segment offset))
      else .error .overflow := by
  rw [transportChecksumWithPseudoHeader, onesComplementSum_none_eq, if_pos small, ok_bind,
    onesComplementSum_some_eq inside even]
  split
  · -- Two partial sums of 16 bits each, which a `u32` always holds.
    have left := residue_lt_u16 (wordSum pseudo)
    have right := residue_lt_u16 (sumOutside segment offset)
    have widen : ∀ n, n < 2 ^ 16 → (UInt16.ofNat n).toUInt32 = UInt32.ofNat n := by
      intro n small
      apply UInt32.toNat_inj.mp
      rw [UInt16.toNat_toUInt32, UInt16.toNat_ofNat_of_lt' small,
        UInt32.toNat_ofNat_of_lt' (by simp only [UInt32.size]; omega)]
    rw [ok_bind, widen _ left, widen _ right, addU32_ofNat (by omega) (by omega),
      if_pos (by omega), ok_bind, fold_eq, UInt32.toNat_ofNat_of_lt' (by
        simp only [UInt32.size]; omega), ok_bind, residue_add_residue (by decide)]
    rfl
  · rfl

end Packet.Checksum

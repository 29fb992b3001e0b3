/-
# Executions that may panic

A Rust computation returns a value or panics. Slices are lists, `usize` is `ℕ`,
and the fixed-width integers are Lean's own. Overflow checks and debug
assertions are on, so an addition that does not fit panics instead of wrapping;
a computation that returns here returns the same value with the checks off.

Indexing and slicing are checked operations. Each has a lemma that gives its
value when its bound holds, so later proofs never unfold one.
-/

import Mathlib.Algebra.Order.BigOperators.Group.List
import Mathlib.Algebra.Order.Ring.Nat
import Mathlib.Data.List.GetD
import Mathlib.Tactic.Common

namespace Packet.Rust

/-- Why an execution ends without a value. All but the last are panics of the
program. `fuel` is the model's own: a loop was not given enough turns. -/
inductive Fault
  | index
  | overflow
  | assertion
  | length
  | expect
  | fuel
  deriving DecidableEq, Repr

/-- A computation that returns a value or faults. -/
abbrev Exec (α : Type) := Except Fault α

section Bind

variable {α β : Type}

@[simp] theorem ok_bind (a : α) (f : α → Exec β) : ((.ok a : Exec α) >>= f) = f a := rfl

@[simp] theorem error_bind (fault : Fault) (f : α → Exec β) :
    ((.error fault : Exec α) >>= f) = .error fault := rfl

@[simp] theorem pure_eq_ok (a : α) : (pure a : Exec α) = .ok a := rfl

/-- A bind returns only when both of its halves do. -/
theorem bind_eq_ok {x : Exec α} {f : α → Exec β} {b : β} :
    (x >>= f) = .ok b ↔ ∃ a, x = .ok a ∧ f a = .ok b := by
  cases x with
  | error fault => simp
  | ok a => simp

/-- A value behind a check is returned exactly when the check holds. -/
theorem checked_eq_ok {p : Prop} [Decidable p] {a b : α} {fault : Fault} :
    (if p then .ok a else .error fault : Exec α) = .ok b ↔ p ∧ a = b := by
  by_cases h : p <;> simp [h]

/-- The computation neither panics nor runs out of budget. -/
def Returns (x : Exec α) : Prop := ∃ a, x = .ok a

theorem returns_ok (a : α) : Returns (.ok a : Exec α) := ⟨a, rfl⟩

theorem Returns.of_eq_ok {x : Exec α} {a : α} (h : x = .ok a) : Returns x := ⟨a, h⟩

@[simp] theorem not_returns_error (fault : Fault) : ¬ Returns (.error fault : Exec α) := by
  rintro ⟨a, same⟩
  simp at same

/-- A bind returns when both of its halves do. -/
theorem Returns.bind {x : Exec α} {f : α → Exec β} (first : Returns x)
    (second : ∀ a, x = .ok a → Returns (f a)) : Returns (x >>= f) := by
  obtain ⟨a, rfl⟩ := first
  exact second a rfl

theorem returns_bind_iff {x : Exec α} {f : α → Exec β} (total : ∀ a, Returns (f a)) :
    Returns (x >>= f) ↔ Returns x := by
  refine ⟨fun ⟨b, outcome⟩ => ?_, fun first => first.bind fun a _ => total a⟩
  obtain ⟨a, first, _⟩ := bind_eq_ok.mp outcome
  exact .of_eq_ok first

/-- A check that faults where it fails. -/
theorem returns_ite_iff {p : Prop} [Decidable p] {a : α} {fault : Fault} :
    Returns (if p then .ok a else .error fault : Exec α) ↔ p := by
  by_cases holds : p <;> simp [holds, returns_ok]

end Bind

/-- `debug_assert!(condition)` -/
def debugAssert (condition : Bool) : Exec Unit :=
  if condition then .ok () else .error .assertion

@[simp] theorem debugAssert_true : debugAssert true = .ok () := rfl

/-! ## Slices -/

section Slice

variable {α : Type}

/-- `xs[i]` -/
def index (xs : List α) (i : ℕ) : Exec α :=
  match xs[i]? with
  | some x => .ok x
  | none => .error .index

/-- `&xs[lo..hi]` -/
def range (xs : List α) (lo hi : ℕ) : Exec (List α) :=
  if lo ≤ hi ∧ hi ≤ xs.length then .ok ((xs.take hi).drop lo) else .error .index

/-- `&xs[lo..]` -/
def rangeFrom (xs : List α) (lo : ℕ) : Exec (List α) :=
  if lo ≤ xs.length then .ok (xs.drop lo) else .error .index

/-- `&xs[..hi]` -/
def rangeTo (xs : List α) (hi : ℕ) : Exec (List α) :=
  if hi ≤ xs.length then .ok (xs.take hi) else .error .index

/-- `xs[i] = value` -/
def assign (xs : List α) (i : ℕ) (value : α) : Exec (List α) :=
  if i < xs.length then .ok (xs.set i value) else .error .index

/-- The list with `values` written over it from position `offset` on. -/
def splice (xs : List α) (offset : ℕ) (values : List α) : List α :=
  xs.take offset ++ values ++ xs.drop (offset + values.length)

/-- `xs[lo..hi].copy_from_slice(values)` -/
def copyFromSlice (xs : List α) (lo hi : ℕ) (values : List α) : Exec (List α) :=
  -- The range is taken first; only then are the two lengths compared.
  if lo ≤ hi ∧ hi ≤ xs.length then
    if values.length = hi - lo then .ok (splice xs lo values) else .error .length
  else .error .index

/-- Out of bounds is the only way indexing faults. -/
theorem index_eq_ok (default : α) {xs : List α} {i : ℕ} (h : i < xs.length) :
    index xs i = .ok (xs.getD i default) := by
  simp [index, h]

theorem range_eq_ok {xs : List α} {lo hi : ℕ} (order : lo ≤ hi) (fits : hi ≤ xs.length) :
    range xs lo hi = .ok ((xs.take hi).drop lo) := if_pos ⟨order, fits⟩

theorem rangeFrom_eq_ok {xs : List α} {lo : ℕ} (fits : lo ≤ xs.length) :
    rangeFrom xs lo = .ok (xs.drop lo) := if_pos fits

theorem rangeTo_eq_ok {xs : List α} {hi : ℕ} (fits : hi ≤ xs.length) :
    rangeTo xs hi = .ok (xs.take hi) := if_pos fits

theorem returns_range_iff {xs : List α} {lo hi : ℕ} :
    Returns (range xs lo hi) ↔ lo ≤ hi ∧ hi ≤ xs.length := returns_ite_iff

theorem returns_rangeTo_iff {xs : List α} {hi : ℕ} : Returns (rangeTo xs hi) ↔ hi ≤ xs.length :=
  returns_ite_iff

theorem assign_eq_ok {xs : List α} {i : ℕ} (value : α) (h : i < xs.length) :
    assign xs i value = .ok (xs.set i value) := if_pos h

theorem copyFromSlice_eq_ok {xs : List α} {lo hi : ℕ} {values : List α} (order : lo ≤ hi)
    (fits : hi ≤ xs.length) (same : values.length = hi - lo) :
    copyFromSlice xs lo hi values = .ok (splice xs lo values) := by
  rw [copyFromSlice, if_pos ⟨order, fits⟩, if_pos same]

/-- Indexing looks at one position. -/
theorem index_congr {xs ys : List α} {i : ℕ} (same : ys[i]? = xs[i]?) :
    index ys i = index xs i := by
  rw [index, same, index]

theorem index_eq_ok_iff {xs : List α} {i : ℕ} {a : α} : index xs i = .ok a ↔ xs[i]? = some a := by
  unfold index
  cases xs[i]? <;> simp

theorem index_append_right (front back : List α) (i : ℕ) :
    index (front ++ back) (front.length + i) = index back i := by
  rw [index, index, List.getElem?_append_right (Nat.le_add_right _ _), Nat.add_sub_cancel_left]

/-- A nonempty range looks at its own positions only. -/
theorem range_congr {xs ys : List α} {lo hi : ℕ} (order : lo < hi)
    (same : ∀ i, lo ≤ i → i < hi → ys[i]? = xs[i]?) : range ys lo hi = range xs lo hi := by
  -- Whether the range fits shows at its last position.
  have last := same (hi - 1) (by omega) (by omega)
  have fits : hi ≤ ys.length ↔ hi ≤ xs.length := by
    have ends : ys[hi - 1]? = none ↔ xs[hi - 1]? = none := by rw [last]
    rw [List.getElem?_eq_none_iff, List.getElem?_eq_none_iff] at ends
    omega
  have part : (ys.take hi).drop lo = (xs.take hi).drop lo := by
    apply List.ext_getElem?
    intro j
    rw [List.getElem?_drop, List.getElem?_drop, List.getElem?_take, List.getElem?_take]
    split
    · rename_i inside
      exact same (lo + j) (Nat.le_add_right lo j) inside
    · rfl
  simp only [range, fits, part]

theorem assign_length {xs ys : List α} {i : ℕ} {value : α}
    (written : assign xs i value = .ok ys) : ys.length = xs.length := by
  unfold assign at written
  split at written
  · obtain rfl := Except.ok.inj written
    exact List.length_set
  · simp at written

/-- `<[α; n]>::try_from(xs)` -/
def tryIntoArray (n : ℕ) (xs : List α) : Option (Vector α n) :=
  if same : xs.length = n then some ⟨xs.toArray, same⟩ else none

/-- `.expect(..)` -/
def expect : Option α → Exec α
  | some a => .ok a
  | none => .error .expect

theorem tryIntoArray_eq_some {n : ℕ} {xs : List α} (same : xs.length = n) :
    tryIntoArray n xs = some ⟨xs.toArray, same⟩ := dif_pos same

/-! ### Overwriting part of a list -/

variable {xs values : List α} {offset : ℕ}

theorem splice_length (fits : offset + values.length ≤ xs.length) :
    (splice xs offset values).length = xs.length := by
  simp only [splice, List.length_append, List.length_take, List.length_drop]
  omega

theorem splice_take_offset (fits : offset ≤ xs.length) :
    (splice xs offset values).take offset = xs.take offset := by
  rw [splice, List.append_assoc, List.take_append_of_le_length (by simp [fits]),
    List.take_take, Nat.min_self]

theorem splice_drop_end (fits : offset ≤ xs.length) :
    (splice xs offset values).drop (offset + values.length) =
      xs.drop (offset + values.length) := by
  have written : (xs.take offset ++ values).length = offset + values.length := by
    simp [fits]
  rw [splice, ← written, List.drop_append_length]

theorem splice_take (end_ : ℕ) (inside : offset + values.length ≤ end_)
    (fits : offset ≤ xs.length) :
    (splice xs offset values).take end_ = splice (xs.take end_) offset values := by
  have written : (xs.take offset ++ values).length = offset + values.length := by
    simp [fits]
  rw [splice, splice, List.take_append,
    List.take_of_length_le (Nat.le_trans (Nat.le_of_eq written) inside), List.take_take,
    Nat.min_eq_left (Nat.le_of_add_right_le inside), written, List.drop_take]

/-- Positions outside the written range keep their values. -/
theorem splice_getElem?_of_outside (fits : offset ≤ xs.length) {i : ℕ}
    (outside : i < offset ∨ offset + values.length ≤ i) :
    (splice xs offset values)[i]? = xs[i]? := by
  rcases outside with below | above
  · -- Below the write the position is in the part kept in front.
    rw [splice, List.append_assoc, List.getElem?_append_left (by simp; omega),
      List.getElem?_take_of_lt below]
  · -- Above it the write is as long as what it replaces, so the index is the same.
    rw [splice, List.getElem?_append_right (by simp; omega), List.getElem?_drop]
    congr 1
    simp only [List.length_append, List.length_take]
    omega

/-- What stands at a position after a write. -/
theorem splice_getElem? (fits : offset + values.length ≤ xs.length) (i : ℕ) :
    (splice xs offset values)[i]? =
      if offset ≤ i ∧ i < offset + values.length then values[i - offset]? else xs[i]? := by
  split
  · rename_i inside
    have start : (xs.take offset).length = offset := by
      rw [List.length_take, Nat.min_eq_left (by omega)]
    rw [splice, List.append_assoc, List.getElem?_append_right (by omega), start,
      List.getElem?_append_left (by omega)]
  · rename_i outside
    exact splice_getElem?_of_outside (by omega) (by omega)

theorem splice_getD_of_outside (default : α) (fits : offset ≤ xs.length) {i : ℕ}
    (outside : i < offset ∨ offset + values.length ≤ i) :
    (splice xs offset values).getD i default = xs.getD i default := by
  rw [List.getD_eq_getElem?_getD, List.getD_eq_getElem?_getD,
    splice_getElem?_of_outside fits outside]

theorem splice_getD_inside (default : α) (fits : offset ≤ xs.length) {i : ℕ}
    (inside : i < values.length) :
    (splice xs offset values).getD (offset + i) default = values.getD i default := by
  have start : (xs.take offset).length = offset := by simp [fits]
  rw [splice, List.append_assoc, List.getD_append_right _ _ _ _ (by omega), start,
    Nat.add_sub_cancel_left, List.getD_append _ _ _ _ inside]

/-- Writing over a middle part replaces it. -/
theorem splice_append {front old back : List α} (same : old.length = values.length) :
    splice (front ++ old ++ back) front.length values = front ++ values ++ back := by
  rw [splice, List.append_assoc front old back, List.take_left' rfl, ← List.drop_drop,
    List.drop_left' rfl, List.drop_left' same]

/-- Writing over a whole list replaces it. -/
theorem splice_all (same : values.length = xs.length) : splice xs 0 values = values := by
  rw [splice, List.take_zero, List.nil_append, Nat.zero_add, same, List.drop_length,
    List.append_nil]

/-- Assigning one position is writing a list of one value there. -/
theorem set_eq_splice {i : ℕ} {value : α} (inside : i < xs.length) :
    xs.set i value = splice xs i [value] := by
  rw [splice, List.set_eq_take_append_cons_drop, if_pos inside, List.append_assoc]
  rfl

/-- A second write over the same range hides the first. -/
theorem splice_splice {other : List α} (same : values.length = other.length)
    (fits : offset ≤ xs.length) :
    splice (splice xs offset values) offset other = splice xs offset other := by
  rw [splice, splice_take_offset fits, ← same, splice_drop_end fits, splice, same]

/-- Everything a copy that returns says about its arguments. -/
theorem copyFromSlice_eq_ok_iff {ys : List α} {lo hi : ℕ} :
    copyFromSlice xs lo hi values = .ok ys ↔
      (lo ≤ hi ∧ hi ≤ xs.length) ∧ values.length = hi - lo ∧ ys = splice xs lo values := by
  unfold copyFromSlice
  by_cases bounds : lo ≤ hi ∧ hi ≤ xs.length
  · rw [if_pos bounds, checked_eq_ok]
    simp [bounds, eq_comm]
  · simp [bounds]

/-- What stands at a position after `copy_from_slice`. -/
theorem copyFromSlice_getElem? {ys : List α} {lo hi : ℕ}
    (written : copyFromSlice xs lo hi values = .ok ys) (i : ℕ) :
    ys[i]? = if lo ≤ i ∧ i < hi then values[i - lo]? else xs[i]? := by
  obtain ⟨⟨order, fits⟩, width, rfl⟩ := copyFromSlice_eq_ok_iff.mp written
  obtain rfl : hi = lo + values.length := by omega
  exact splice_getElem? fits i

theorem copyFromSlice_length {ys : List α} {lo hi : ℕ}
    (written : copyFromSlice xs lo hi values = .ok ys) : ys.length = xs.length := by
  obtain ⟨⟨order, fits⟩, width, rfl⟩ := copyFromSlice_eq_ok_iff.mp written
  exact splice_length (by omega)

/-- Copied values read back as a range. -/
theorem range_of_copyFromSlice {ys : List α} {lo hi : ℕ}
    (written : copyFromSlice xs lo hi values = .ok ys) : range ys lo hi = .ok values := by
  obtain ⟨⟨order, fits⟩, width, rfl⟩ := copyFromSlice_eq_ok_iff.mp written
  have start : (xs.take lo).length = lo := by
    rw [List.length_take, Nat.min_eq_left (Nat.le_trans order fits)]
  -- The values end where the range does.
  have span : (xs.take lo ++ values).length = hi := by
    rw [List.length_append, start, width]
    omega
  have size : (splice xs lo values).length = xs.length := splice_length (by omega)
  rw [range_eq_ok order (size ▸ fits), splice, List.take_left' span, List.drop_left' start]

end Slice

/-! ## Machine integers -/

/-- Checked `u32` addition. -/
def addU32 (a b : UInt32) : Exec UInt32 :=
  if a.toNat + b.toNat < 2 ^ 32 then .ok (a + b) else .error .overflow

/-- A sum that fits is returned, and is exact. -/
theorem addU32_eq_ok {a b : UInt32} (fits : a.toNat + b.toNat < 2 ^ 32) :
    addU32 a b = .ok (a + b) ∧ (a + b).toNat = a.toNat + b.toNat := by
  refine ⟨if_pos fits, ?_⟩
  rw [UInt32.toNat_add, Nat.mod_eq_of_lt fits]

/-- Addition of two words is exact exactly when it returns. -/
theorem addU32_ofNat {a b : ℕ} (ha : a < 2 ^ 32) (hb : b < 2 ^ 32) :
    addU32 (.ofNat a) (.ofNat b) =
      if a + b < 2 ^ 32 then .ok (.ofNat (a + b)) else .error .overflow := by
  rw [addU32, UInt32.toNat_ofNat_of_lt' ha, UInt32.toNat_ofNat_of_lt' hb, UInt32.ofNat_add]

/-- `u16::from_be_bytes` -/
def u16FromBeBytes (hi lo : UInt8) : UInt16 := .ofNat (hi.toNat * 256 + lo.toNat)

/-- `u16::to_be_bytes` -/
def u16ToBeBytes (value : UInt16) : List UInt8 :=
  [.ofNat (value.toNat / 256), .ofNat value.toNat]

/-- `u32::from_be_bytes` -/
def u32FromBeBytes (b0 b1 b2 b3 : UInt8) : UInt32 :=
  .ofNat (((b0.toNat * 256 + b1.toNat) * 256 + b2.toNat) * 256 + b3.toNat)

/-- `u32::to_be_bytes` -/
def u32ToBeBytes (value : UInt32) : List UInt8 :=
  [.ofNat (value.toNat / 2 ^ 24), .ofNat (value.toNat / 2 ^ 16), .ofNat (value.toNat / 2 ^ 8),
    .ofNat value.toNat]

@[simp] theorem u16ToBeBytes_length (value : UInt16) : (u16ToBeBytes value).length = 2 := rfl

@[simp] theorem u32ToBeBytes_length (value : UInt32) : (u32ToBeBytes value).length = 4 := rfl

@[simp] theorem u16FromBeBytes_toNat (hi lo : UInt8) :
    (u16FromBeBytes hi lo).toNat = hi.toNat * 256 + lo.toNat := by
  have hhi := hi.toNat_lt
  have hlo := lo.toNat_lt
  exact UInt16.toNat_ofNat_of_lt' (by simp only [UInt16.size]; omega)

theorem u32FromBeBytes_toNat (b0 b1 b2 b3 : UInt8) :
    (u32FromBeBytes b0 b1 b2 b3).toNat =
      ((b0.toNat * 256 + b1.toNat) * 256 + b2.toNat) * 256 + b3.toNat := by
  have h0 := b0.toNat_lt
  have h1 := b1.toNat_lt
  have h2 := b2.toNat_lt
  have h3 := b3.toNat_lt
  exact UInt32.toNat_ofNat_of_lt' (by simp only [UInt32.size]; omega)

/-- Encoding the decoding of four bytes gives the bytes back. -/
theorem u32ToBeBytes_fromBeBytes (b0 b1 b2 b3 : UInt8) :
    u32ToBeBytes (u32FromBeBytes b0 b1 b2 b3) = [b0, b1, b2, b3] := by
  have h0 := b0.toNat_lt
  have h1 := b1.toNat_lt
  have h2 := b2.toNat_lt
  have h3 := b3.toNat_lt
  simp only [u32ToBeBytes, u32FromBeBytes_toNat, List.cons.injEq, and_true, ← UInt8.toNat_inj,
    UInt8.toNat_ofNat']
  omega

/-- A word is determined by its bytes. -/
theorem u32ToBeBytes_inj {a b : UInt32} : u32ToBeBytes a = u32ToBeBytes b ↔ a = b := by
  refine ⟨fun same => ?_, fun same => congrArg u32ToBeBytes same⟩
  have bound := a.toNat_lt
  have bound' := b.toNat_lt
  simp only [u32ToBeBytes, List.cons.injEq, and_true, ← UInt8.toNat_inj,
    UInt8.toNat_ofNat'] at same
  apply UInt32.toNat_inj.mp
  omega

/-- Encoding the decoding of two bytes gives the bytes back. -/
@[simp] theorem u16ToBeBytes_fromBeBytes (hi lo : UInt8) :
    u16ToBeBytes (u16FromBeBytes hi lo) = [hi, lo] := by
  have hhi := hi.toNat_lt
  have hlo := lo.toNat_lt
  rw [u16ToBeBytes, u16FromBeBytes_toNat]
  congr 1
  · apply UInt8.toNat_inj.mp
    rw [UInt8.toNat_ofNat']
    omega
  · congr 1
    apply UInt8.toNat_inj.mp
    rw [UInt8.toNat_ofNat']
    omega

/-- Decoding the encoding of a word gives the word back. -/
@[simp] theorem u16FromBeBytes_toBeBytes (value : UInt16) :
    u16FromBeBytes ((u16ToBeBytes value).getD 0 0) ((u16ToBeBytes value).getD 1 0) = value := by
  have bound := value.toNat_lt
  apply UInt16.toNat_inj.mp
  rw [u16FromBeBytes_toNat]
  simp only [u16ToBeBytes, List.getD_cons_zero, List.getD_cons_succ, UInt8.toNat_ofNat']
  omega

end Packet.Rust

/-
# Typed views of a byte slice

A protocol is a validator and a header length. A shared view exists only for
bytes the validator accepts, and carries that fact. A mutable view was validated
once; its bytes may be overwritten afterwards, so it carries nothing.
-/

import Packet.Rust.Exec

namespace Packet

open Rust

/-- A byte slice. -/
abbrev Bytes := List UInt8

/-- Why a packet is not accepted. -/
inductive PacketError
  | tooShort (needed actual : ℕ)
  | invalidVersion (expected actual : UInt8)
  | invalidIpv4HeaderLength (ihlWords : UInt8)
  | invalidIpv4TotalLength (headerLen totalLen : ℕ)
  | fragmentedPacket
  | invalidChecksum (expected actual : UInt16)
  | invalidUdpLength (headerLen actual : ℕ)
  | invalidTcpOptionLength (kind length : UInt8)
  | invalidTcpHeaderLength (dataOffset : UInt8)
  deriving DecidableEq, Repr

/-- `Result<α, PacketError>` -/
abbrev Result (α : Type) := Except PacketError α

variable {α : Type}

/-- The call returned `Ok`. -/
def Accepts (outcome : Exec (Result α)) : Prop := ∃ value, outcome = .ok (.ok value)

@[simp] theorem accepts_ok_ok (value : α) : Accepts (.ok (.ok value) : Exec (Result α)) :=
  ⟨value, rfl⟩

@[simp] theorem not_accepts_ok_error (error : PacketError) :
    ¬ Accepts (.ok (.error error) : Exec (Result α)) := by
  rintro ⟨value, same⟩
  simp at same

@[simp] theorem not_accepts_error (fault : Fault) :
    ¬ Accepts (.error fault : Exec (Result α)) := by
  rintro ⟨value, same⟩
  simp at same

/-- Whether a call accepted can be computed. -/
instance (outcome : Exec (Result α)) : Decidable (Accepts outcome) :=
  match outcome with
  | .ok (.ok value) => .isTrue (accepts_ok_ok value)
  | .ok (.error error) => .isFalse (not_accepts_ok_error error)
  | .error fault => .isFalse (not_accepts_error fault)

/-- The call returned `Err`. -/
def Rejects (outcome : Exec (Result α)) : Prop := ∃ error, outcome = .ok (.error error)

/-- A call that returns and does not accept rejects. -/
theorem rejects_of_returns {outcome : Exec (Result α)} (returns : Returns outcome)
    (notAccepts : ¬ Accepts outcome) : Rejects outcome := by
  obtain ⟨result, rfl⟩ := returns
  cases result with
  | error error => exact ⟨error, rfl⟩
  | ok value => exact absurd (accepts_ok_ok value) notAccepts

/-- The outcome of a call without the value it returns. -/
def verdict : Exec (Result α) → Exec (Result Unit)
  | .ok (.ok _) => .ok (.ok ())
  | .ok (.error error) => .ok (.error error)
  | .error fault => .error fault

/-! ## Checks

A validator is a sequence of checks, each of which refuses with an error or lets
the next one look. -/

section Check

variable {p : Prop} [Decidable p] {error : PacketError} {rest : Exec (Result α)}

theorem check_eq_ok {value : α} :
    (if p then .ok (.error error) else rest) = .ok (.ok value) ↔ ¬ p ∧ rest = .ok (.ok value) := by
  by_cases h : p <;> simp [h]

theorem check_returns (returns : Returns rest) :
    Returns (if p then .ok (.error error) else rest) := by
  split
  · exact returns_ok _
  · exact returns

end Check

/-! ## Protocols and views -/

/-- The `PacketSpec` trait. -/
class PacketSpec (P : Type) where
  validate : Bytes → Exec (Result Unit)
  headerLen : Bytes → Exec ℕ

/-- Bytes the protocol's validator accepts. -/
structure PacketView (P : Type) [PacketSpec P] where
  bytes : Bytes
  valid : PacketSpec.validate P bytes = .ok (.ok ())

/-- A byte buffer seen as a packet of the protocol, open to writes. -/
@[ext]
structure PacketViewMut (P : Type) where
  bytes : Bytes

/-- Views are compared by their bytes. -/
instance (P : Type) : DecidableEq (PacketViewMut P) := fun view view' =>
  decidable_of_iff (view.bytes = view'.bytes) PacketViewMut.ext_iff.symm

section View

variable (P : Type) [PacketSpec P]

/-- `PacketView::new` -/
def PacketView.new (bytes : Bytes) : Exec (Result (PacketView P)) :=
  match valid : PacketSpec.validate P bytes with
  | .ok (.ok ()) => .ok (.ok ⟨bytes, valid⟩)
  | .ok (.error error) => .ok (.error error)
  | .error fault => .error fault

/-- `PacketViewMut::new` -/
def PacketViewMut.new (bytes : Bytes) : Exec (Result (PacketViewMut P)) :=
  match PacketSpec.validate P bytes with
  | .ok (.ok ()) => .ok (.ok ⟨bytes⟩)
  | .ok (.error error) => .ok (.error error)
  | .error fault => .error fault

variable {P}

/-- `PacketView::header_bytes` -/
def PacketView.headerBytes (view : PacketView P) : Exec Bytes := do
  let headerLen ← PacketSpec.headerLen P view.bytes
  rangeTo view.bytes headerLen

/-- `PacketViewMut::header_bytes` -/
def PacketViewMut.headerBytes (view : PacketViewMut P) : Exec Bytes := do
  let headerLen ← PacketSpec.headerLen P view.bytes
  rangeTo view.bytes headerLen

theorem PacketView.new_of_valid {bytes : Bytes}
    (valid : PacketSpec.validate P bytes = .ok (.ok ())) :
    PacketView.new P bytes = .ok (.ok ⟨bytes, valid⟩) := by
  unfold PacketView.new
  split <;> simp_all

/-- A view is of the bytes it was made from. -/
theorem PacketView.bytes_of_new {bytes : Bytes} {view : PacketView P}
    (created : PacketView.new P bytes = .ok (.ok view)) : view.bytes = bytes := by
  unfold PacketView.new at created
  split at created
  · obtain rfl := Except.ok.inj (Except.ok.inj created)
    rfl
  · simp at created
  · simp at created

theorem PacketView.new_of_invalid {bytes : Bytes} {error : PacketError}
    (invalid : PacketSpec.validate P bytes = .ok (.error error)) :
    PacketView.new P bytes = .ok (.error error) := by
  unfold PacketView.new
  split <;> simp_all

/-- A view is returned exactly for the bytes the validator accepts. -/
theorem accepts_new_iff {bytes : Bytes} :
    Accepts (PacketView.new P bytes) ↔ PacketSpec.validate P bytes = .ok (.ok ()) := by
  constructor
  · rintro ⟨view, same⟩
    unfold PacketView.new at same
    split at same <;> simp_all
  · intro valid
    rw [PacketView.new_of_valid valid]
    exact accepts_ok_ok _

/-- A constructor that goes on from a view accepts only what the validator does. -/
theorem valid_of_accepts {bytes : Bytes} {next : Result (PacketView P) → Exec (Result α)}
    (accepted : Accepts (PacketView.new P bytes >>= next))
    (refuses : ∀ error, next (.error error) = .ok (.error error)) :
    PacketSpec.validate P bytes = .ok (.ok ()) := by
  obtain ⟨value, same⟩ := accepted
  obtain ⟨result, created, continued⟩ := bind_eq_ok.mp same
  cases result with
  | error error =>
    rw [refuses] at continued
    cases continued
  | ok view => exact accepts_new_iff.mp ⟨view, created⟩

theorem PacketViewMut.new_eq_ok_iff {bytes : Bytes} {view : PacketViewMut P} :
    PacketViewMut.new P bytes = .ok (.ok view) ↔
      PacketSpec.validate P bytes = .ok (.ok ()) ∧ view = ⟨bytes⟩ := by
  unfold PacketViewMut.new
  split <;> rename_i validated <;> rw [validated] <;> simp [eq_comm]

end View

/-- The methods of a packet trait. The traits read `self.bytes()` only, so a method
is a function of the bytes; one that returns an iterator is taken to drain it. -/
class PacketTrait (P : Type) where
  Accessor : Type
  Value : Accessor → Type
  get : (accessor : Accessor) → Bytes → Exec (Value accessor)

/-- No accessor panics on the bytes. -/
def Readable (P : Type) [PacketTrait P] (bytes : Bytes) : Prop :=
  ∀ accessor : PacketTrait.Accessor P, Returns (PacketTrait.get accessor bytes)

/-! ## Reading and writing fields -/

/-- The byte at a position, `0` past the end. -/
def byteAt (bytes : Bytes) (i : ℕ) : UInt8 := bytes.getD i 0

/-- The big-endian word at a position. -/
def wordAt (bytes : Bytes) (i : ℕ) : UInt16 :=
  u16FromBeBytes (byteAt bytes i) (byteAt bytes (i + 1))

/-- `u16::from_be_bytes([bytes[i], bytes[i + 1]])` -/
def readU16 (bytes : Bytes) (i : ℕ) : Exec UInt16 := do
  return u16FromBeBytes (← index bytes i) (← index bytes (i + 1))

/-- `u32::from_be_bytes([bytes[i], bytes[i + 1], bytes[i + 2], bytes[i + 3]])` -/
def readU32 (bytes : Bytes) (i : ℕ) : Exec UInt32 := do
  return u32FromBeBytes (← index bytes i) (← index bytes (i + 1)) (← index bytes (i + 2))
    (← index bytes (i + 3))

theorem index_byteAt {bytes : Bytes} {i : ℕ} (inside : i < bytes.length) :
    index bytes i = .ok (byteAt bytes i) := index_eq_ok 0 inside

theorem readU16_eq_ok {bytes : Bytes} {i : ℕ} (inside : i + 1 < bytes.length) :
    readU16 bytes i = .ok (wordAt bytes i) := by
  rw [readU16, index_byteAt (by omega), ok_bind, index_byteAt inside, ok_bind]
  rfl

theorem byteAt_of_index {bytes : Bytes} {i : ℕ} {value : UInt8}
    (read : index bytes i = .ok value) : byteAt bytes i = value := by
  rw [byteAt, List.getD_eq_getElem?_getD, index_eq_ok_iff.mp read]
  rfl

theorem wordAt_of_readU16 {bytes : Bytes} {i : ℕ} {value : UInt16}
    (read : readU16 bytes i = .ok value) : wordAt bytes i = value := by
  obtain ⟨high, first, read⟩ := bind_eq_ok.mp read
  obtain ⟨low, second, same⟩ := bind_eq_ok.mp read
  rw [wordAt, byteAt_of_index first, byteAt_of_index second]
  exact Except.ok.inj same

theorem readU16_congr {bytes bytes' : Bytes} {i : ℕ} (high : bytes'[i]? = bytes[i]?)
    (low : bytes'[i + 1]? = bytes[i + 1]?) : readU16 bytes' i = readU16 bytes i := by
  rw [readU16, index_congr high, index_congr low, readU16]

theorem readU32_returns {bytes : Bytes} {i : ℕ} (inside : i + 3 < bytes.length) :
    Returns (readU32 bytes i) := by
  rw [readU32, index_byteAt (by omega), ok_bind, index_byteAt (by omega), ok_bind,
    index_byteAt (by omega), ok_bind, index_byteAt inside, ok_bind]
  exact returns_ok _

theorem byteAt_append {bytes : Bytes} {i : ℕ} (inside : i < bytes.length) (trailing : Bytes) :
    byteAt (bytes ++ trailing) i = byteAt bytes i := List.getD_append _ _ _ _ inside

theorem wordAt_append {bytes : Bytes} {i : ℕ} (inside : i + 1 < bytes.length)
    (trailing : Bytes) : wordAt (bytes ++ trailing) i = wordAt bytes i := by
  rw [wordAt, byteAt_append (by omega), byteAt_append inside, wordAt]

theorem byteAt_take {bytes : Bytes} {i n : ℕ} (inside : i < n) :
    byteAt (bytes.take n) i = byteAt bytes i := by
  rw [byteAt, List.getD_eq_getElem?_getD, List.getElem?_take_of_lt inside,
    ← List.getD_eq_getElem?_getD, byteAt]

theorem wordAt_take {bytes : Bytes} {i n : ℕ} (inside : i + 1 < n) :
    wordAt (bytes.take n) i = wordAt bytes i := by
  rw [wordAt, byteAt_take (by omega), byteAt_take inside, wordAt]

/-- A front part extended by a byte, by a word, and up to a later position. -/
theorem take_add_byte {bytes : Bytes} (i : ℕ) (inside : i < bytes.length) :
    bytes.take (i + 1) = bytes.take i ++ [byteAt bytes i] := by
  rw [List.take_succ_eq_append_getElem inside, byteAt, List.getD_eq_getElem _ _ inside]

theorem take_add_word {bytes : Bytes} (i : ℕ) (inside : i + 1 < bytes.length) :
    bytes.take (i + 2) = bytes.take i ++ u16ToBeBytes (wordAt bytes i) := by
  rw [take_add_byte (i + 1) inside, take_add_byte i (by omega), List.append_assoc, wordAt,
    u16ToBeBytes_fromBeBytes]
  rfl

theorem take_append_range (bytes : Bytes) {lo hi : ℕ} (order : lo ≤ hi) :
    bytes.take hi = bytes.take lo ++ (bytes.take hi).drop lo := by
  have front : (bytes.take hi).take lo = bytes.take lo := by
    rw [List.take_take, Nat.min_eq_left order]
  rw [← front, List.take_append_drop]

theorem byteAt_set_ne {bytes : Bytes} {i j : ℕ} (distinct : i ≠ j) (value : UInt8) :
    byteAt (bytes.set i value) j = byteAt bytes j := by
  rw [byteAt, List.getD_eq_getElem?_getD, List.getElem?_set_ne distinct,
    ← List.getD_eq_getElem?_getD, byteAt]

theorem byteAt_set_self {bytes : Bytes} {i : ℕ} (inside : i < bytes.length) (value : UInt8) :
    byteAt (bytes.set i value) i = value := by
  rw [byteAt, List.getD_eq_getElem?_getD, List.getElem?_set_self inside, Option.getD_some]

/-- Collecting the bytes of a list of the right length gives the list. -/
theorem ofFn_byteAt {n : ℕ} {bytes : Bytes} (size : bytes.length = n) :
    Vector.ofFn (fun i : Fin n => byteAt bytes i) = ⟨bytes.toArray, size⟩ := by
  ext i inside
  have bound : i < bytes.length := by omega
  simp [byteAt, List.getD_eq_getElem?_getD, bound]

/-- A write leaves the bytes outside its range as they were. -/
theorem byteAt_splice_of_outside {bytes values : Bytes} {offset i : ℕ}
    (fits : offset ≤ bytes.length) (outside : i < offset ∨ offset + values.length ≤ i) :
    byteAt (splice bytes offset values) i = byteAt bytes i :=
  splice_getD_of_outside 0 fits outside

theorem wordAt_splice_of_outside {bytes values : Bytes} {offset i : ℕ}
    (fits : offset ≤ bytes.length) (outside : i + 1 < offset ∨ offset + values.length ≤ i) :
    wordAt (splice bytes offset values) i = wordAt bytes i := by
  rw [wordAt, byteAt_splice_of_outside fits (by omega), byteAt_splice_of_outside fits (by omega),
    wordAt]

theorem length_splice_word {bytes : Bytes} {offset : ℕ} (inside : offset + 2 ≤ bytes.length)
    (value : UInt16) : (splice bytes offset (u16ToBeBytes value)).length = bytes.length :=
  splice_length inside

/-- A word written to a field reads back. -/
theorem wordAt_splice_self {bytes : Bytes} {offset : ℕ} (fits : offset ≤ bytes.length)
    (value : UInt16) : wordAt (splice bytes offset (u16ToBeBytes value)) offset = value := by
  have high : (splice bytes offset (u16ToBeBytes value)).getD (offset + 0) 0 =
      (u16ToBeBytes value).getD 0 0 := splice_getD_inside 0 fits (by simp)
  have low : (splice bytes offset (u16ToBeBytes value)).getD (offset + 1) 0 =
      (u16ToBeBytes value).getD 1 0 := splice_getD_inside 0 fits (by simp)
  rw [Nat.add_zero] at high
  rw [wordAt, byteAt, byteAt, high, low, u16FromBeBytes_toBeBytes]

section Write

variable {P : Type}

/-- `self.as_slice_mut()[i] = value` -/
def PacketViewMut.assign (view : PacketViewMut P) (i : ℕ) (value : UInt8) :
    Exec (PacketViewMut P) := do
  return ⟨← Rust.assign view.bytes i value⟩

/-- `self.as_slice_mut()[lo..hi].copy_from_slice(values)` -/
def PacketViewMut.copyFromSlice (view : PacketViewMut P) (lo hi : ℕ) (values : Bytes) :
    Exec (PacketViewMut P) := do
  return ⟨← Rust.copyFromSlice view.bytes lo hi values⟩

theorem PacketViewMut.assign_length {view view' : PacketViewMut P} {i : ℕ} {value : UInt8}
    (written : view.assign i value = .ok view') : view'.bytes.length = view.bytes.length := by
  obtain ⟨bytes, assigned, same⟩ := bind_eq_ok.mp written
  obtain rfl := Except.ok.inj same
  exact Rust.assign_length assigned

theorem PacketViewMut.copyFromSlice_length {view view' : PacketViewMut P} {lo hi : ℕ}
    {values : Bytes} (written : view.copyFromSlice lo hi values = .ok view') :
    view'.bytes.length = view.bytes.length := by
  obtain ⟨bytes, copied, same⟩ := bind_eq_ok.mp written
  obtain rfl := Except.ok.inj same
  exact Rust.copyFromSlice_length copied

/-- What stands at a position after a byte is assigned. -/
theorem PacketViewMut.assign_getElem? {view view' : PacketViewMut P} {i : ℕ} {value : UInt8}
    (written : view.assign i value = .ok view') (j : ℕ) :
    view'.bytes[j]? = if j = i then some value else view.bytes[j]? := by
  obtain ⟨bytes, assigned, same⟩ := bind_eq_ok.mp written
  obtain rfl := Except.ok.inj same
  obtain ⟨inside, rfl⟩ := checked_eq_ok.mp assigned
  split
  · rename_i here
    subst here
    exact List.getElem?_set_self inside
  · rename_i elsewhere
    exact List.getElem?_set_ne (Ne.symm elsewhere)

/-- What stands at a position after bytes are copied in. -/
theorem PacketViewMut.copyFromSlice_getElem? {view view' : PacketViewMut P} {lo hi : ℕ}
    {values : Bytes} (written : view.copyFromSlice lo hi values = .ok view') (j : ℕ) :
    view'.bytes[j]? = if lo ≤ j ∧ j < hi then values[j - lo]? else view.bytes[j]? := by
  obtain ⟨bytes, copied, same⟩ := bind_eq_ok.mp written
  obtain rfl := Except.ok.inj same
  exact Rust.copyFromSlice_getElem? copied j

theorem PacketViewMut.assign_eq_ok {view : PacketViewMut P} {i : ℕ}
    (inside : i < view.bytes.length) (value : UInt8) :
    view.assign i value = .ok ⟨view.bytes.set i value⟩ := by
  rw [PacketViewMut.assign, Rust.assign_eq_ok value inside]
  rfl

theorem PacketViewMut.copyFromSlice_eq_ok {view : PacketViewMut P} {lo hi : ℕ} {values : Bytes}
    (order : lo ≤ hi) (inside : hi ≤ view.bytes.length) (same : values.length = hi - lo) :
    view.copyFromSlice lo hi values = .ok ⟨splice view.bytes lo values⟩ := by
  rw [PacketViewMut.copyFromSlice, Rust.copyFromSlice_eq_ok order inside same]
  rfl

/-- Writing a word to a field inside the buffer succeeds. -/
theorem PacketViewMut.copyFromSlice_u16 {view : PacketViewMut P} {offset : ℕ}
    (inside : offset + 2 ≤ view.bytes.length) (value : UInt16) :
    view.copyFromSlice offset (offset + 2) (u16ToBeBytes value) =
      .ok ⟨splice view.bytes offset (u16ToBeBytes value)⟩ :=
  PacketViewMut.copyFromSlice_eq_ok (by omega) inside (by simp)

end Write

end Packet

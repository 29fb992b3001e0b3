/-
# The TCP options iterator

Options are parsed one at a time. `EOL` and `NOP` are single bytes; every other
option has a length byte that counts the kind and length bytes too. After an
error or an `EOL` the iterator yields nothing more.
-/

import Packet.Model.View
import Packet.Rust.Reader

namespace Packet

open Rust

/-- The kinds the crate knows by name. -/
inductive TcpOptionKind
  | eol
  | nop
  | mss
  | windowScale
  | sackPermitted
  | sack
  | timestamp
  | unknown (kind : UInt8)
  deriving DecidableEq, Repr

/-- `From<u8>` -/
def TcpOptionKind.ofByte : UInt8 → TcpOptionKind
  | 0 => .eol
  | 1 => .nop
  | 2 => .mss
  | 3 => .windowScale
  | 4 => .sackPermitted
  | 5 => .sack
  | 8 => .timestamp
  | kind => .unknown kind

/-- An option as the iterator yields it: the data is without the kind and the length. -/
structure TcpOption where
  kind : TcpOptionKind
  data : Bytes
  deriving DecidableEq, Repr

namespace TcpOption

/-- The shape the decoders share: a kind and a data length that are looked for, and a
value read out of the data. -/
def decode {α : Type} (kind : TcpOptionKind) (size : ℕ) (read : Bytes → Exec α)
    (option : TcpOption) : Exec (Option α) := do
  if option.kind = kind && option.data.length = size then
    return some (← read option.data)
  else
    return none

/-- The maximum segment size. -/
def mss : TcpOption → Exec (Option UInt16) :=
  decode .mss 2 fun data => do
    return u16FromBeBytes (← index data 0) (← index data 1)

/-- The shift count. -/
def windowScale : TcpOption → Exec (Option UInt8) :=
  decode .windowScale 1 fun data => index data 0

/-- The timestamp and the echo. -/
def timestamp : TcpOption → Exec (Option (UInt32 × UInt32)) :=
  decode .timestamp 8 fun data => do
    let val := u32FromBeBytes (← index data 0) (← index data 1) (← index data 2) (← index data 3)
    let ecr := u32FromBeBytes (← index data 4) (← index data 5) (← index data 6) (← index data 7)
    return (val, ecr)

end TcpOption

/-- The iterator: the bytes left, whether an error was met, and whether the list has ended. -/
structure TcpOptions where
  remaining : Bytes
  errored : Bool
  done : Bool
  deriving DecidableEq

namespace TcpOptions

/-- The part of `next` after the single-byte kinds. -/
def nextSized (it : TcpOptions) (kind : TcpOptionKind) :
    Exec (Option (Result TcpOption) × TcpOptions) := do
  if it.remaining.length < 2 then
    return (some (.error (.tooShort 2 it.remaining.length)), { it with errored := true })
  let length := (← index it.remaining 1).toNat
  -- The length counts the kind and length bytes.
  if length < 2 then
    return (some (.error (.invalidTcpOptionLength (← index it.remaining 0)
      (← index it.remaining 1))), { it with errored := true })
  if it.remaining.length < length then
    return (some (.error (.tooShort length it.remaining.length)), { it with errored := true })
  let data ← range it.remaining 2 length
  let rest ← rangeFrom it.remaining length
  return (some (.ok ⟨kind, data⟩), { it with remaining := rest })

/-- `Iterator::next` -/
def next (it : TcpOptions) : Exec (Option (Result TcpOption) × TcpOptions) := do
  if it.errored || it.done || it.remaining.isEmpty then
    return (none, it)
  let kind := TcpOptionKind.ofByte (← index it.remaining 0)
  match kind with
  | .eol =>
    -- The `EOL` is yielded; what follows it stays in `remaining`.
    let rest ← rangeFrom it.remaining 1
    return (some (.ok ⟨kind, []⟩), { it with done := true, remaining := rest })
  | .nop =>
    let rest ← rangeFrom it.remaining 1
    return (some (.ok ⟨kind, []⟩), { it with remaining := rest })
  -- Any other kind has a length byte, the unknown ones included.
  | _ => it.nextSized kind

/-- `collect()` -/
def collect (it : TcpOptions) : Exec (List (Result TcpOption)) := do
  let (items, _) ← drain next (it.remaining.length + 2) it
  return items

/-! ## The reader behind the iterator -/

/-- What stands at the head of an option list of a kind other than `EOL` and
`NOP`, after its kind byte. -/
def readSized (kind : UInt8) : Bytes → Reading (Bytes × Bool) TcpOption PacketError
  | [] => .fail (.tooShort 2 1)
  | length :: body =>
    if length.toNat < 2 then .fail (.invalidTcpOptionLength kind length)
    else if body.length + 2 < length.toNat then
      .fail (.tooShort length.toNat (body.length + 2))
    else .item ⟨.ofByte kind, body.take (length.toNat - 2)⟩ (body.drop (length.toNat - 2), false)

/-- What stands at the head of an option list. The position is the bytes left and
whether an `EOL` has been read. -/
def readOption : Bytes × Bool → Reading (Bytes × Bool) TcpOption PacketError
  | (_, true) => .stop
  | ([], false) => .stop
  | (kind :: rest, false) =>
    if kind = 0 then .item ⟨.eol, []⟩ (rest, true)
    else if kind = 1 then .item ⟨.nop, []⟩ (rest, false)
    else readSized kind rest

/-- The iterator state at a position. -/
abbrev live (position : Bytes × Bool) : TcpOptions := ⟨position.1, false, position.2⟩

/-- The iterator state after an error at a position. -/
abbrev failed (position : Bytes × Bool) : TcpOptions := ⟨position.1, true, position.2⟩

/-- The reader stops after an `EOL` and at the end of the bytes only. -/
theorem readOption_eq_stop_iff {s : Bytes × Bool} :
    readOption s = .stop ↔ s.2 = true ∨ s.1 = [] := by
  obtain ⟨rest, done⟩ := s
  cases done with
  | true => simp [readOption]
  | false =>
    cases rest with
    | nil => simp [readOption]
    | cons kind rest =>
      simp only [readOption, Bool.false_eq_true, reduceCtorEq, or_self, iff_false]
      split_ifs
      · simp
      · simp
      · cases rest with
        | nil => simp [readSized]
        | cons length body =>
          simp only [readSized]
          split_ifs <;> simp

/-- What is read from an option list, and what is left of it. -/
theorem readOption_item_cases {s u : Bytes × Bool} {option : TcpOption}
    (found : readOption s = .item option u) :
    (∃ rest, s = (0 :: rest, false) ∧ option = ⟨.eol, []⟩ ∧ u = (rest, true)) ∨
    (∃ rest, s = (1 :: rest, false) ∧ option = ⟨.nop, []⟩ ∧ u = (rest, false)) ∨
    ∃ kind length body, kind ≠ 0 ∧ kind ≠ 1 ∧ s = (kind :: length :: body, false) ∧
      2 ≤ length.toNat ∧ length.toNat ≤ body.length + 2 ∧
      option = ⟨.ofByte kind, body.take (length.toNat - 2)⟩ ∧
      u = (body.drop (length.toNat - 2), false) := by
  obtain ⟨rest, done⟩ := s
  cases done with
  | true => simp [readOption] at found
  | false =>
    cases rest with
    | nil => simp [readOption] at found
    | cons kind rest =>
      simp only [readOption] at found
      split_ifs at found with eol nop
      · cases found
        exact .inl ⟨rest, by rw [eol], rfl, rfl⟩
      · cases found
        exact .inr (.inl ⟨rest, by rw [nop], rfl, rfl⟩)
      · cases rest with
        | nil => simp [readSized] at found
        | cons length body =>
          simp only [readSized] at found
          split_ifs at found with short overrun
          cases found
          exact .inr (.inr ⟨kind, length, body, eol, nop, rfl, Nat.le_of_not_lt short,
            Nat.le_of_not_lt overrun, rfl, rfl⟩)

/-- The ways an option list is malformed: its length byte is missing, leaves out the two
bytes in front of the data, or runs over the end. -/
theorem readOption_fail_cases {s : Bytes × Bool} {error : PacketError}
    (fails : readOption s = .fail error) :
    (∃ kind, s.1 = [kind] ∧ error = .tooShort 2 1) ∨
    ∃ kind length body, s.1 = kind :: length :: body ∧
      (length.toNat < 2 ∧ error = .invalidTcpOptionLength kind length ∨
        body.length + 2 < length.toNat ∧
          error = .tooShort length.toNat (body.length + 2)) := by
  obtain ⟨rest, done⟩ := s
  cases done with
  | true => simp [readOption] at fails
  | false =>
    cases rest with
    | nil => simp [readOption] at fails
    | cons kind rest =>
      simp only [readOption] at fails
      split_ifs at fails with eol nop
      cases rest with
      | nil =>
        cases fails
        exact .inl ⟨kind, rfl, rfl⟩
      | cons length body =>
        refine .inr ⟨kind, length, body, rfl, ?_⟩
        simp only [readSized] at fails
        split_ifs at fails with short overrun
        · cases fails
          exact .inl ⟨short, rfl⟩
        · cases fails
          exact .inr ⟨overrun, rfl⟩

private theorem ofByte_sized {kind : UInt8} (notEol : kind ≠ 0) (notNop : kind ≠ 1) :
    TcpOptionKind.ofByte kind ≠ .eol ∧ TcpOptionKind.ofByte kind ≠ .nop := by
  unfold TcpOptionKind.ofByte
  constructor <;> split <;> simp_all

private theorem next_livesized {kind : UInt8} {rest : Bytes} (notEol : kind ≠ 0)
    (notNop : kind ≠ 1) :
    next (live (kind :: rest, false)) =
      nextSized (live (kind :: rest, false)) (.ofByte kind) := by
  obtain ⟨kindNotEol, kindNotNop⟩ := ofByte_sized notEol notNop
  have head : index (kind :: rest) 0 = .ok kind := rfl
  simp only [next, Bool.or_self, List.isEmpty_cons, Bool.false_eq_true, if_false, head, ok_bind]

private theorem nextSized_at {kind : UInt8} {rest : Bytes} :
    nextSized (live (kind :: rest, false)) (.ofByte kind) =
      match readSized kind rest with
      | .stop => .ok (none, live (kind :: rest, false))
      | .fail error => .ok (some (.error error), failed (kind :: rest, false))
      | .item option position => .ok (some (.ok option), live position) := by
  cases rest with
  | nil => rfl
  | cons length body =>
    have second : index (kind :: length :: body) 1 = .ok length := rfl
    have size : (kind :: length :: body).length = body.length + 2 := rfl
    have enough : ¬ body.length + 2 < 2 := by omega
    simp only [nextSized, size, if_neg enough, second, ok_bind, readSized]
    by_cases short : length.toNat < 2
    · -- The length leaves out the two bytes in front of the data.
      simp only [if_pos short]
      rfl
    · simp only [if_neg short]
      by_cases overrun : body.length + 2 < length.toNat
      · -- The option runs over the end of the region.
        simp only [if_pos overrun]
        rfl
      · simp only [if_neg overrun]
        rw [range_eq_ok (by omega) (by rw [size]; omega), rangeFrom_eq_ok (by rw [size]; omega)]
        obtain ⟨n, two⟩ : ∃ n, length.toNat = n + 2 := ⟨length.toNat - 2, by omega⟩
        simp [two]

/-- The iterator yields what the reader finds. -/
theorem next_follows : IteratorFollows next readOption live failed where
  stop := by
    rintro ⟨rest, done⟩ stops
    rcases readOption_eq_stop_iff.mp stops with rfl | rfl
    · rfl
    · cases done <;> rfl
  fail := by
    rintro ⟨rest, done⟩ error fails
    cases done with
    | true => simp [readOption] at fails
    | false =>
      cases rest with
      | nil => simp [readOption] at fails
      | cons kind rest =>
        simp only [readOption] at fails
        split_ifs at fails with eol nop
        rw [next_livesized eol nop, nextSized_at, fails]
  item := by
    intro s option position found
    rcases readOption_item_cases found with ⟨rest, rfl, rfl, rfl⟩ | ⟨rest, rfl, rfl, rfl⟩ | sized
    · rfl
    · rfl
    · obtain ⟨kind, length, body, notEol, notNop, rfl, _⟩ := sized
      simp only [readOption, if_neg notEol, if_neg notNop] at found
      rw [next_livesized notEol notNop, nextSized_at, found]
  exhausted := fun _ => rfl

/-- Nothing is read after an `EOL`. -/
theorem done_of_eol {s u : Bytes × Bool} {option : TcpOption}
    (found : readOption s = .item option u) (eol : option.kind = .eol) : u.2 = true := by
  rcases readOption_item_cases found with ⟨rest, rfl, rfl, rfl⟩ | ⟨rest, rfl, rfl, rfl⟩ | sized
  · rfl
  · simp at eol
  · -- A kind with a length byte is not read as an `EOL`.
    obtain ⟨kind, length, body, notEol, notNop, _, _, _, rfl, _⟩ := sized
    exact absurd eol (ofByte_sized notEol notNop).1

/-- Every option uses up at least one byte. -/
theorem readOption_consumes (s : Bytes × Bool) (option : TcpOption) (u : Bytes × Bool)
    (found : readOption s = .item option u) : u.1.length + 1 ≤ s.1.length := by
  rcases readOption_item_cases found with ⟨rest, rfl, rfl, rfl⟩ | ⟨rest, rfl, rfl, rfl⟩ | sized
  · exact Nat.le_refl _
  · exact Nat.le_refl _
  · obtain ⟨kind, length, body, _, _, rfl, _, _, _, rfl⟩ := sized
    simp only [List.length_drop, List.length_cons]
    omega

/-- A walk has at most one option for every byte it uses up. -/
theorem length_items_le {s t : Bytes × Bool} {items : List TcpOption}
    (walk : Passes readOption s items t) : items.length + t.1.length ≤ s.1.length := by
  have few := walk.length_mul_le (fun s => s.1.length) 1 readOption_consumes
  rwa [Nat.mul_one] at few

theorem drain_eq {s t : Bytes × Bool} {items : List TcpOption} {result : Option PacketError}
    (walk : Reads readOption s items t result) :
    drain next (s.1.length + 2) (live s) =
      .ok (yielded items result, if result.isSome then failed t else live t) := by
  have few := length_items_le walk.passes
  have size := yielded_length_le items result
  exact next_follows.drain_eq walk (by omega)

/-- Collecting yields the reader's walk. -/
theorem collect_eq {s t : Bytes × Bool} {items : List TcpOption} {result : Option PacketError}
    (walk : Reads readOption s items t result) :
    collect (live s) = .ok (yielded items result) := by
  rw [collect, drain_eq walk, ok_bind]
  rfl

/-- Every option list is walked to an end. -/
theorem exists_walk (s : Bytes × Bool) : ∃ items t result, Reads readOption s items t result :=
  exists_reads (fun s => s.1.length)
    (fun s option u found => Nat.lt_of_succ_le (readOption_consumes s option u found)) s

end TcpOptions

end Packet

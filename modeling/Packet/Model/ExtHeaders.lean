/-
# IPv6 extension headers

The chain is linked by next-header bytes: the byte before a header says what the
header is. The Fragment header is 8 bytes long; every other extension header,
whatever its kind, is read with its length in 8-byte units in its second byte.
-/

import Packet.Model.View
import Packet.Rust.Reader

namespace Packet

open Rust

/-- The length of a Fragment header, and the least length of any other. -/
abbrev hdrExtLen : ℕ := 8

/-- The next headers the crate knows by name. -/
inductive NextHeaderType
  | hopByHopOptions
  | routingHeader
  | fragmentHeader
  | authenticationHeader
  | encapsulationSecurityPayloadHeader
  | destinationOptions
  | mobilityHeader
  | noNextHeader
  | tcp
  | udp
  | icmpv6
  | unknown (n : UInt8)
  deriving DecidableEq, Repr

namespace NextHeaderType

/-- `From<u8>` -/
def ofByte : UInt8 → NextHeaderType
  | 0 => .hopByHopOptions
  | 6 => .tcp
  | 17 => .udp
  | 43 => .routingHeader
  | 44 => .fragmentHeader
  | 50 => .encapsulationSecurityPayloadHeader
  | 51 => .authenticationHeader
  | 58 => .icmpv6
  | 59 => .noNextHeader
  | 60 => .destinationOptions
  | 135 => .mobilityHeader
  | n => .unknown n

/-- Whether the walk goes on with a header of the kind; ESP and Authentication are included. -/
def isExtension : NextHeaderType → Bool
  | .hopByHopOptions => true
  | .routingHeader => true
  | .fragmentHeader => true
  | .authenticationHeader => true
  | .encapsulationSecurityPayloadHeader => true
  | .destinationOptions => true
  | .mobilityHeader => true
  | _ => false

theorem ofByte_eq_fragmentHeader_iff {n : UInt8} : ofByte n = .fragmentHeader ↔ n = 44 := by
  constructor
  · intro fragment
    unfold ofByte at fragment
    split at fragment <;> simp_all
  · rintro rfl
    rfl

end NextHeaderType

/-- The eight bytes of a Fragment header. -/
structure FragmentHeader where
  bytes : Vector UInt8 8
  deriving DecidableEq, Repr

namespace FragmentHeader

/-- What the fragment continues with. -/
def nextHeader (header : FragmentHeader) : UInt8 := header.bytes[0]

/-- The upper 13 bits of the second word, in units of eight bytes. -/
def fragmentOffset (header : FragmentHeader) : UInt16 :=
  u16FromBeBytes header.bytes[2] header.bytes[3] >>> 3

/-- The lowest bit of the second word. -/
def moreFragments (header : FragmentHeader) : Bool := header.bytes[3] &&& 0x01 != 0

/-- The flag the other way round. -/
def isLastFragment (header : FragmentHeader) : Bool := !header.moreFragments

/-- The four bytes that the fragments of a packet share. -/
def identification (header : FragmentHeader) : UInt32 :=
  u32FromBeBytes header.bytes[4] header.bytes[5] header.bytes[6] header.bytes[7]

end FragmentHeader

/-- What a header carries beside its next-header byte: a Fragment header whole, any other from its
third byte on. -/
inductive NextHeaderData
  | fragment (header : FragmentHeader)
  | other (bytes : Bytes)
  deriving DecidableEq, Repr

/-- An extension header as the iterator yields it. -/
structure NextHeader where
  kind : NextHeaderType
  nextHeader : UInt8
  lenBytes : ℕ
  data : NextHeaderData
  deriving DecidableEq, Repr

/-- The iterator: the bytes left, the kind announced for them, and whether an error was met. -/
structure NextHeaders where
  remaining : Bytes
  next : UInt8
  errored : Bool
  deriving DecidableEq

namespace NextHeaders

open NextHeaderType (ofByte)

/-- `Iterator::next` -/
def iterNext (it : NextHeaders) : Exec (Option (Result NextHeader) × NextHeaders) := do
  if it.errored then
    return (none, it)
  let kind := ofByte it.next
  if !kind.isExtension then
    return (none, it)
  -- No byte of the header is read before 8 of them are there.
  if it.remaining.length < hdrExtLen then
    return (some (.error (.tooShort hdrExtLen it.remaining.length)), { it with errored := true })
  -- One length rule for all kinds but Fragment, Authentication and ESP included.
  let len ← if kind = .fragmentHeader then pure hdrExtLen
    else pure (((← index it.remaining 1).toNat + 1) * 8)
  if it.remaining.length < len then
    return (some (.error (.tooShort len it.remaining.length)), { it with errored := true })
  let data ← if kind = .fragmentHeader then do
      let arr ← expect (tryIntoArray 8 (← rangeTo it.remaining 8))
      pure (NextHeaderData.fragment ⟨arr⟩)
    else pure (NextHeaderData.other (← range it.remaining 2 len))
  let nextHeader ← index it.remaining 0
  -- The byte read here says what the next call will find.
  let header := { kind, nextHeader, lenBytes := len, data }
  let rest ← rangeFrom it.remaining len
  return (some (.ok header), { it with next := nextHeader, remaining := rest })

/-- The budget of a walk over the headers: one call for each 8 bytes, one for an
error, one for the end. -/
def budget (it : NextHeaders) : ℕ := it.remaining.length / 8 + 2

/-- `collect()` -/
def collect (it : NextHeaders) : Exec (List (Result NextHeader)) := do
  let (items, _) ← drain iterNext it.budget it
  return items

/-! ## The reader behind the iterator

A position in the chain is the next-header byte and the bytes left. -/

/-- The length of the header at a position. -/
def lengthAt (s : UInt8 × Bytes) : ℕ :=
  if ofByte s.1 = .fragmentHeader then 8 else ((byteAt s.2 1).toNat + 1) * 8

/-- The header at a position. -/
def headerAt (s : UInt8 × Bytes) : NextHeader where
  kind := ofByte s.1
  nextHeader := byteAt s.2 0
  lenBytes := lengthAt s
  data :=
    if ofByte s.1 = .fragmentHeader then .fragment ⟨Vector.ofFn fun i => byteAt s.2 i⟩
    else .other ((s.2.take (lengthAt s)).drop 2)

/-- What stands at a position of the chain. -/
def readHeader (s : UInt8 × Bytes) : Reading (UInt8 × Bytes) NextHeader PacketError :=
  if (ofByte s.1).isExtension = false then .stop
  else if s.2.length < 8 then .fail (.tooShort 8 s.2.length)
  else if s.2.length < lengthAt s then .fail (.tooShort (lengthAt s) s.2.length)
  else .item (headerAt s) (byteAt s.2 0, s.2.drop (lengthAt s))

/-- The iterator state at a position. -/
abbrev live (s : UInt8 × Bytes) : NextHeaders := ⟨s.2, s.1, false⟩

/-- The iterator state after an error at a position. -/
abbrev failed (s : UInt8 × Bytes) : NextHeaders := ⟨s.2, s.1, true⟩

theorem eight_le_lengthAt (s : UInt8 × Bytes) : 8 ≤ lengthAt s := by
  unfold lengthAt
  split <;> omega

section Reader

variable {s u : UInt8 × Bytes} {header : NextHeader} {error : PacketError}

/-- A Fragment header is no longer than the 8 bytes every header is asked for. -/
theorem not_fragment_of_overrun (enough : 8 ≤ s.2.length) (overrun : s.2.length < lengthAt s) :
    ofByte s.1 ≠ .fragmentHeader := by
  intro fragment
  rw [lengthAt, if_pos fragment] at overrun
  omega

theorem readHeader_eq_stop_iff : readHeader s = .stop ↔ (ofByte s.1).isExtension = false := by
  unfold readHeader
  split
  · simp_all
  · split
    · simp_all
    · split <;> simp_all

/-- Everything a header read from the chain says about its position. -/
theorem readHeader_eq_item_iff :
    readHeader s = .item header u ↔
      (ofByte s.1).isExtension = true ∧ lengthAt s ≤ s.2.length ∧ header = headerAt s ∧
        u = (byteAt s.2 0, s.2.drop (lengthAt s)) := by
  have enough := eight_le_lengthAt s
  unfold readHeader
  split
  · rename_i upper
    simp [upper]
  · rename_i extension
    rw [Bool.not_eq_false] at extension
    split
    · simp only [reduceCtorEq, false_iff, not_and]
      omega
    · split
      · simp only [reduceCtorEq, false_iff, not_and]
        omega
      · rename_i fits
        simp only [Reading.item.injEq, extension, Nat.not_lt.mp fits, true_and]
        exact ⟨fun h => ⟨h.1.symm, h.2.symm⟩, fun h => ⟨h.1.symm, h.2.symm⟩⟩

/-- A header hands its next-header byte on. -/
theorem next_of_item (found : readHeader s = .item header u) : u.1 = header.nextHeader := by
  obtain ⟨_, _, rfl, rfl⟩ := readHeader_eq_item_iff.mp found
  rfl

/-- A chain breaks off where an extension header does not fit in the bytes left. -/
theorem readHeader_eq_fail_iff :
    readHeader s = .fail error ↔
      (ofByte s.1).isExtension = true ∧
        (s.2.length < 8 ∧ error = .tooShort 8 s.2.length ∨
          8 ≤ s.2.length ∧ s.2.length < lengthAt s ∧
            error = .tooShort (lengthAt s) s.2.length) := by
  unfold readHeader
  split
  · rename_i upper
    simp [upper]
  · rename_i extension
    rw [Bool.not_eq_false] at extension
    split
    · rename_i short
      simp [extension, short, eq_comm, Nat.not_le.mpr short]
    · rename_i enough
      split
      · rename_i overrun
        simp [extension, enough, Nat.not_lt.mp enough, overrun, eq_comm]
      · rename_i fits
        simp [enough, fits]

/-- Every header uses up at least 8 bytes. -/
theorem readHeader_consumes (s : UInt8 × Bytes) (header : NextHeader) (u : UInt8 × Bytes)
    (found : readHeader s = .item header u) : u.2.length + 8 ≤ s.2.length := by
  obtain ⟨_, fits, _, rfl⟩ := readHeader_eq_item_iff.mp found
  have enough := eight_le_lengthAt s
  rw [List.length_drop]
  omega

/-- Every chain is walked to an end. -/
theorem exists_walk (s : UInt8 × Bytes) : ∃ items t result, Reads readHeader s items t result := by
  refine exists_reads (fun s => s.2.length) ?_ s
  intro s header u found
  have used := readHeader_consumes s header u found
  omega

end Reader

/-! ## The iterator follows the reader -/

/-- The eight bytes of a Fragment header. -/
private theorem fragmentBytes {remaining : Bytes} (enough : 8 ≤ remaining.length) :
    tryIntoArray 8 (remaining.take 8) = some (Vector.ofFn fun i => byteAt remaining i) := by
  have size : (remaining.take 8).length = 8 := by
    rw [List.length_take, Nat.min_eq_left enough]
  have same : (fun i : Fin 8 => byteAt (remaining.take 8) i) =
      fun i : Fin 8 => byteAt remaining i := by
    funext i
    exact byteAt_take i.isLt
  rw [tryIntoArray_eq_some size, ← ofFn_byteAt size, same]

theorem iterNext_follows : IteratorFollows iterNext readHeader live failed where
  stop := by
    intro s stops
    have upper := readHeader_eq_stop_iff.mp stops
    simp [iterNext, upper]
  fail := by
    intro s error fails
    obtain ⟨extension, short | overrun⟩ := readHeader_eq_fail_iff.mp fails
    · obtain ⟨short, rfl⟩ := short
      simp [iterNext, extension, short]
    · obtain ⟨enough, overrun, rfl⟩ := overrun
      have second : index s.2 1 = .ok (byteAt s.2 1) := index_byteAt (by omega)
      have fragment := not_fragment_of_overrun enough overrun
      simp only [lengthAt, if_neg fragment] at overrun ⊢
      simp [iterNext, extension, Nat.not_lt.mpr enough, fragment, second, overrun]
  item := by
    intro s header u found
    obtain ⟨extension, fits, rfl, rfl⟩ := readHeader_eq_item_iff.mp found
    have enough : 8 ≤ s.2.length := Nat.le_trans (eight_le_lengthAt s) fits
    have first : index s.2 0 = .ok (byteAt s.2 0) := index_byteAt (by omega)
    have second : index s.2 1 = .ok (byteAt s.2 1) := index_byteAt (by omega)
    have rest := rangeFrom_eq_ok fits
    -- The two representations of the data.
    by_cases fragment : ofByte s.1 = .fragmentHeader
    · have length : lengthAt s = 8 := if_pos fragment
      rw [length] at rest
      simp [iterNext, headerAt, fragment, first, rest, length, Nat.not_lt.mpr enough,
        fragmentBytes enough, rangeTo_eq_ok enough]
      rfl
    · have length : lengthAt s = ((byteAt s.2 1).toNat + 1) * 8 := if_neg fragment
      rw [length] at rest fits
      have data := range_eq_ok (show 2 ≤ ((byteAt s.2 1).toNat + 1) * 8 by omega) fits
      simp [iterNext, headerAt, extension, fragment, first, rest, length, Nat.not_lt.mpr enough,
        second, Nat.not_lt.mpr fits, data]
  exhausted := fun _ => rfl

section Walk

variable {s t u : UInt8 × Bytes} {header : NextHeader} {items : List NextHeader}
  {result : Option PacketError}

/-- A walk has at most one header for every 8 bytes. -/
theorem length_items_le (walk : Passes readHeader s items t) : items.length ≤ s.2.length / 8 := by
  have few := walk.length_mul_le (fun s => s.2.length) 8 readHeader_consumes
  rw [Nat.le_div_iff_mul_le (by decide)]
  omega

theorem drain_eq (walk : Reads readHeader s items t result) :
    drain iterNext (live s).budget (live s) =
      .ok (yielded items result, if result.isSome then failed t else live t) := by
  have few := length_items_le walk.passes
  have size := yielded_length_le items result
  exact iterNext_follows.drain_eq walk (by simp only [budget]; omega)

/-- Collecting yields the reader's walk. -/
theorem collect_eq (walk : Reads readHeader s items t result) :
    collect (live s) = .ok (yielded items result) := by
  rw [collect, drain_eq walk, ok_bind]
  rfl

/-- Nothing is yielded after a header exactly when the walk stops there. -/
theorem yielded_eq_nil_iff_upper (walk : Reads readHeader s items t result) :
    yielded items result = [] ↔ (ofByte s.1).isExtension = false := by
  rw [yielded_eq_nil_iff]
  constructor
  · -- Nothing was passed and no error met, so the walk has stopped at once.
    rintro ⟨rfl, rfl⟩
    obtain ⟨passes, ends⟩ := walk
    cases passes
    exact readHeader_eq_stop_iff.mp ends
  · intro upper
    have stops : Reads readHeader s [] s none := .of_stop (readHeader_eq_stop_iff.mpr upper)
    obtain ⟨none, _, ended⟩ := Reads.unique walk stops
    exact ⟨none, ended⟩

/-- The next-header byte a walk ends with is that of its last header. -/
theorem next_of_passes (walk : Passes readHeader s items t) :
    t.1 = items.getLast?.elim s.1 NextHeader.nextHeader := by
  induction walk with
  | nil s => rfl
  | @cons s u t header items found _ ih =>
    rw [ih, next_of_item found, List.getLast?_cons]
    cases items.getLast? <;> rfl

/-! ### Spans

The bytes of one header: read alone, they give the header and leave nothing. -/

/-- The bytes that encode a header of the kind a next-header byte announces. -/
def Spans (next : UInt8) (header : NextHeader) (span : Bytes) : Prop :=
  readHeader (next, span) = .item header (header.nextHeader, [])

/-- A header and its length are read from the bytes the header covers. -/
theorem headerAt_congr (next : UInt8) {bytes bytes' : Bytes}
    (same : bytes'.take (lengthAt (next, bytes)) = bytes.take (lengthAt (next, bytes))) :
    lengthAt (next, bytes') = lengthAt (next, bytes) ∧
      headerAt (next, bytes') = headerAt (next, bytes) := by
  have enough := eight_le_lengthAt (next, bytes)
  have within : ∀ i < 8, byteAt bytes' i = byteAt bytes i := by
    intro i small
    have covered : i < lengthAt (next, bytes) := Nat.lt_of_lt_of_le small enough
    rw [← byteAt_take covered, same, byteAt_take covered]
  -- The length byte is among the first eight, so the lengths agree before the data do.
  have length : lengthAt (next, bytes') = lengthAt (next, bytes) := by
    rw [lengthAt, within 1 (by decide), lengthAt]
  have array : (Vector.ofFn fun i : Fin 8 => byteAt bytes' i) =
      Vector.ofFn fun i : Fin 8 => byteAt bytes i := by
    congr 1
    funext i
    exact within i i.isLt
  refine ⟨length, ?_⟩
  rw [headerAt, headerAt, length, same, within 0 (by decide), array]

/-- Bytes after a header do not change how it is read. -/
theorem readHeader_append (found : readHeader s = .item header u) (trailing : Bytes) :
    readHeader (s.1, s.2 ++ trailing) = .item header (u.1, u.2 ++ trailing) := by
  obtain ⟨extension, fits, rfl, rfl⟩ := readHeader_eq_item_iff.mp found
  have enough := eight_le_lengthAt s
  have covered : (s.2 ++ trailing).take (lengthAt s) = s.2.take (lengthAt s) :=
    List.take_append_of_le_length fits
  obtain ⟨length, same⟩ := headerAt_congr s.1 covered
  refine readHeader_eq_item_iff.mpr ⟨extension, ?_, same.symm, ?_⟩
  · rw [length, List.length_append]
    exact Nat.le_add_right_of_le fits
  · rw [byteAt_append (by omega), length, List.drop_append_of_le_length fits]

/-- Bytes after a walk leave the headers it passes as they are. -/
theorem passes_append (walk : Passes readHeader s items t) (trailing : Bytes) :
    Passes readHeader (s.1, s.2 ++ trailing) items (t.1, t.2 ++ trailing) :=
  walk.transport fun _ _ _ found => readHeader_append found trailing

/-- A walk that has come to its end ends there with bytes after it, too. -/
theorem reads_append (walk : Reads readHeader s items t none) (trailing : Bytes) :
    Reads readHeader (s.1, s.2 ++ trailing) items (t.1, t.2 ++ trailing) none := by
  have upper := readHeader_eq_stop_iff.mp walk.ends
  exact ⟨passes_append walk.passes trailing, readHeader_eq_stop_iff.mpr upper⟩

/-- A header read from a chain is read from its own bytes alone, and those bytes
stand at the front of the chain. -/
theorem exists_span (found : readHeader s = .item header u) :
    ∃ span, s.2 = span ++ u.2 ∧ span.length = header.lenBytes ∧ Spans s.1 header span := by
  obtain ⟨extension, fits, rfl, rfl⟩ := readHeader_eq_item_iff.mp found
  have enough := eight_le_lengthAt s
  have size : (s.2.take (lengthAt s)).length = lengthAt s := by
    rw [List.length_take, Nat.min_eq_left fits]
  have alone : (s.2.take (lengthAt s)).take (lengthAt s) = s.2.take (lengthAt s) := by
    rw [List.take_take, Nat.min_self]
  obtain ⟨length, same⟩ := headerAt_congr s.1 alone
  refine ⟨s.2.take (lengthAt s), (List.take_append_drop _ _).symm, size,
    readHeader_eq_item_iff.mpr ⟨extension, Nat.le_of_eq (length.trans size.symm), same.symm, ?_⟩⟩
  -- The header covers all of its span, so nothing is left of it.
  rw [byteAt_take (by omega), length, List.drop_eq_nil_of_le (Nat.le_of_eq size)]
  rfl

/-- The bytes that encode a header are those as long as they say they are. -/
theorem spans_iff {next : UInt8} {span : Bytes} :
    Spans next header span ↔
      (ofByte next).isExtension = true ∧ lengthAt (next, span) = span.length ∧
        header = headerAt (next, span) := by
  constructor
  · intro spans
    obtain ⟨extension, fits, rfl, same⟩ := readHeader_eq_item_iff.mp spans
    have rest : span.drop (lengthAt (next, span)) = [] := (congrArg Prod.snd same).symm
    exact ⟨extension, Nat.le_antisymm fits (List.drop_eq_nil_iff.mp rest), rfl⟩
  · rintro ⟨extension, length, rfl⟩
    refine readHeader_eq_item_iff.mpr ⟨extension, Nat.le_of_eq length, rfl, ?_⟩
    rw [length, List.drop_length]
    rfl

theorem Spans.read {next : UInt8} {span : Bytes} (spans : Spans next header span)
    (rest : Bytes) : readHeader (next, span ++ rest) = .item header (header.nextHeader, rest) :=
  readHeader_append spans rest

/-- Eight bytes with the length byte 0 are a header of any kind, and a protocol in
their first byte ends the walk after it. -/
theorem reads_minimal {kind protocol : UInt8} (extension : (ofByte kind).isExtension = true)
    (upper : (ofByte protocol).isExtension = false) :
    Reads readHeader (kind, [protocol, 0, 0, 0, 0, 0, 0, 0])
      [headerAt (kind, [protocol, 0, 0, 0, 0, 0, 0, 0])] (protocol, []) none := by
  have spans : Spans kind (headerAt (kind, [protocol, 0, 0, 0, 0, 0, 0, 0]))
      [protocol, 0, 0, 0, 0, 0, 0, 0] := by
    refine spans_iff.mpr ⟨extension, ?_, rfl⟩
    -- Either length rule gives 8.
    unfold lengthAt
    split <;> rfl
  exact .of_item spans (.of_stop (readHeader_eq_stop_iff.mpr upper))

/-- The bytes of a walk's headers stand at the front of the chain, and the walk
is the same over them whatever comes after. -/
theorem exists_spans (walk : Passes readHeader s items t) :
    ∃ front, s.2 = front ++ t.2 ∧ front.length = (items.map NextHeader.lenBytes).sum ∧
      ∀ rest, Passes readHeader (s.1, front ++ rest) items (t.1, rest) := by
  induction walk with
  | nil s => exact ⟨[], rfl, rfl, fun rest => .nil _⟩
  | @cons s u t header items found _ ih =>
    obtain ⟨span, split, size, spans⟩ := exists_span found
    obtain ⟨front, tail, length, again⟩ := ih
    -- The bytes of the first header, then those of the others.
    refine ⟨span ++ front, by rw [List.append_assoc, ← tail, ← split], ?_, ?_⟩
    · rw [List.length_append, size, length, List.map_cons, List.sum_cons]
    · intro rest
      rw [List.append_assoc]
      exact .cons (spans.read _) (next_of_item found ▸ again rest)

end Walk

end NextHeaders

end Packet

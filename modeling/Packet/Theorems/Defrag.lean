/-
# The defragmenting constructor

`new_checked_defrag` is a gate: it lets through the packets whose chain is walked
without an error and has no Fragment header. The chain is walked twice, once to
check it and once to search it, and the search passes errors over in silence; it
is only run where there are none. On a view that was not checked it still finds
the first Fragment header before the error.
-/

import Packet.Model.Chain
import Packet.Model.Ipv6

namespace Packet.Ipv6

open Rust NextHeaders
open NextHeaderType (ofByte)

section Search

variable {s u t : UInt8 × Bytes} {header : NextHeader} {items : List NextHeader}
  {result : Option PacketError} {bytes : Bytes}

/-- A header has Fragment data exactly when it is a Fragment header. -/
theorem fragment?_eq_none_iff (found : readHeader s = .item header u) :
    fragment? header = none ↔ header.kind ≠ .fragmentHeader := by
  obtain ⟨_, _, rfl, _⟩ := readHeader_eq_item_iff.mp found
  by_cases fragment : ofByte s.1 = .fragmentHeader
  · simp [fragment?, headerAt, fragment]
  · simp [fragment?, headerAt, fragment]

theorem fragment?_eq_none_iff_of_mem (walk : Passes readHeader s items t)
    (member : header ∈ items) : fragment? header = none ↔ header.kind ≠ .fragmentHeader := by
  induction walk with
  | nil s => exact absurd member List.not_mem_nil
  | cons found _ ih =>
    rcases List.mem_cons.mp member with rfl | later
    · exact fragment?_eq_none_iff found
    · exact ih later

/-- The data of a Fragment header are the eight bytes it is read from. -/
theorem fragment?_eq_some_iff (found : readHeader s = .item header u) {frag : FragmentHeader} :
    fragment? header = some frag ↔
      header.kind = .fragmentHeader ∧ frag.bytes.toList = s.2.take 8 := by
  obtain ⟨_, fits, same, _⟩ := readHeader_eq_item_iff.mp found
  have enough : 8 ≤ s.2.length := Nat.le_trans (eight_le_lengthAt s) fits
  have size : (s.2.take 8).length = 8 := by rw [List.length_take, Nat.min_eq_left enough]
  have collected : Vector.ofFn (fun i : Fin 8 => byteAt s.2 i) = ⟨(s.2.take 8).toArray, size⟩ := by
    rw [← ofFn_byteAt size]
    congr 1
    funext i
    exact (byteAt_take i.isLt).symm
  subst same
  by_cases fragment : ofByte s.1 = .fragmentHeader
  · have data : fragment? (headerAt s) = some ⟨⟨(s.2.take 8).toArray, size⟩⟩ := by
      rw [← collected]
      simp [fragment?, headerAt, fragment]
    rw [data, Option.some.injEq]
    constructor
    · rintro rfl
      exact ⟨fragment, rfl⟩
    · -- Eight bytes determine the header they are collected into.
      rintro ⟨_, bytes⟩
      obtain ⟨⟨array, width⟩⟩ := frag
      congr 2
      exact (congrArg List.toArray bytes).symm
  · have data : fragment? (headerAt s) = none := by simp [fragment?, headerAt, fragment]
    rw [data]
    exact iff_of_false (by simp) fun both => fragment both.1

/-- The header a search stops at. -/
def FirstFragment (bytes : Bytes) (items : List NextHeader) (frag : FragmentHeader) : Prop :=
  ∃ before header after, items = before ++ header :: after ∧
    (∀ earlier ∈ before, earlier.kind ≠ .fragmentHeader) ∧ header.kind = .fragmentHeader ∧
    frag.bytes.toList = (bytes.drop (reach before)).take 8

theorem findSome?_fragment_eq_none_iff (walk : Passes readHeader s items t) :
    items.findSome? fragment? = none ↔ ∀ header ∈ items, header.kind ≠ .fragmentHeader := by
  rw [List.findSome?_eq_none_iff]
  constructor
  · intro none header member
    exact (fragment?_eq_none_iff_of_mem walk member).mp (none header member)
  · intro others header member
    exact (fragment?_eq_none_iff_of_mem walk member).mpr (others header member)

theorem findSome?_fragment_eq_some_iff (walk : Passes readHeader (start bytes) items t)
    {frag : FragmentHeader} :
    items.findSome? fragment? = some frag ↔ FirstFragment bytes items frag := by
  rw [List.findSome?_eq_some_iff, FirstFragment]
  refine exists_congr fun before => exists_congr fun header => exists_congr fun after => ?_
  refine and_congr_right fun split => ?_
  subst split
  -- The search stops where the walk has passed the headers before.
  obtain ⟨u, reaches, continues⟩ := walk.split
  cases continues with
  | cons found _ =>
    rw [fragment?_eq_some_iff found, rest_of_passes reaches, and_comm]
    refine and_congr_left' (forall₂_congr fun earlier member => ?_)
    exact fragment?_eq_none_iff_of_mem reaches member

/-- The chain is walked to its end over these headers. -/
def Walked (bytes : Bytes) (headers : List NextHeader) : Prop :=
  headerItems bytes = .ok (headers.map .ok)

theorem walked_iff (fixed : 40 ≤ bytes.length)
    (walk : Reads readHeader (start bytes) items t result) {headers : List NextHeader} :
    Walked bytes headers ↔ headers = items ∧ result = none := by
  have ended : headers.map Except.ok = yielded headers (none : Option PacketError) :=
    (List.append_nil _).symm
  rw [Walked, headerItems_eq fixed walk, Except.ok.injEq, ended]
  constructor
  · intro same
    obtain ⟨rfl, rfl⟩ := yielded_inj same
    exact ⟨rfl, rfl⟩
  · rintro ⟨rfl, rfl⟩
    rfl

end Search

/-! ## Outcomes of the constructors -/

section Outcomes

variable {bytes : Bytes} {items : List NextHeader} {t : UInt8 × Bytes}
  {result : Option PacketError}

/-- The validator has an error of its own for what it does not accept. -/
theorem validate_outcome (bytes : Bytes) :
    validate bytes = .ok (.ok ()) ∨
      ∃ error, error ≠ .fragmentedPacket ∧ validate bytes = .ok (.error error) := by
  by_cases fixed : bytes.length < 40
  · exact .inr ⟨.tooShort 40 bytes.length, by simp, (validate_eq bytes).trans (if_pos fixed)⟩
  · by_cases version : byteAt bytes 0 >>> 4 = 6
    · exact .inl (validate_eq_ok_iff.mpr ⟨Nat.le_of_not_lt fixed, version⟩)
    · refine .inr ⟨.invalidVersion 6 (byteAt bytes 0 >>> 4), by simp, ?_⟩
      rw [validate_eq, if_neg fixed, if_pos version]

/-- What the validator does not accept, the checking constructors reject with its
error. -/
theorem constructors_of_invalid {error : PacketError}
    (invalid : validate bytes = .ok (.error error)) :
    newChecked bytes = .ok (.error error) ∧ newCheckedDefrag bytes = .ok (.error error) := by
  have rejected : PacketView.new Ipv6 bytes = .ok (.error error) :=
    PacketView.new_of_invalid invalid
  have checked : newChecked bytes = .ok (.error error) := by
    rw [newChecked, rejected]
    rfl
  refine ⟨checked, ?_⟩
  rw [newCheckedDefrag, checked]
  rfl

/-- A walk that breaks off is not reported as a fragmented packet. -/
theorem ne_fragmentedPacket_of_ends {error : PacketError}
    (broken : Ends readHeader t (some error)) : error ≠ .fragmentedPacket := by
  obtain ⟨_, ⟨_, rfl⟩ | ⟨_, _, rfl⟩⟩ := readHeader_eq_fail_iff.mp broken
  · simp
  · simp

section Gate

variable (wellFormed : WellFormed bytes) (walk : Reads readHeader (start bytes) items t result)

include wellFormed walk

theorem accepts_newCheckedDefrag_iff :
    Accepts (newCheckedDefrag bytes) ↔
      result = none ∧ ∀ header ∈ items, header.kind ≠ .fragmentHeader := by
  rw [newCheckedDefrag_eq wellFormed walk, ← findSome?_fragment_eq_none_iff walk.passes]
  cases result with
  | some error => simp
  | none => cases items.findSome? fragment? <;> simp

theorem newCheckedDefrag_fragmented_iff :
    newCheckedDefrag bytes = .ok (.error .fragmentedPacket) ↔
      result = none ∧ ∃ header ∈ items, header.kind = .fragmentHeader := by
  have some_iff : (items.findSome? fragment?).isSome = true ↔
      ∃ header ∈ items, header.kind = .fragmentHeader := by
    rw [← Option.ne_none_iff_isSome, ne_eq, findSome?_fragment_eq_none_iff walk.passes]
    simp
  rw [newCheckedDefrag_eq wellFormed walk, ← some_iff]
  cases result with
  | some error => simpa using ne_fragmentedPacket_of_ends walk.ends
  | none => cases items.findSome? fragment? <;> simp

theorem newCheckedDefrag_error_iff {error : PacketError} (other : error ≠ .fragmentedPacket) :
    newCheckedDefrag bytes = .ok (.error error) ↔ newChecked bytes = .ok (.error error) := by
  rw [newCheckedDefrag_eq wellFormed walk, newChecked_eq wellFormed walk]
  cases result with
  | some error => rfl
  | none => cases items.findSome? fragment? <;> simp [Ne.symm other]

end Gate

end Outcomes

/-- `new_checked_defrag` returns `Ok` for the packets that are accepted, walked
without an error and have no Fragment header, and `FragmentedPacket` for those that
have one. Any other error is that of `new_checked`. On every accepted view
`fragment_header()` is the first Fragment header among the `Ok` items. -/
theorem newCheckedDefrag_gates (bytes : Bytes) :
    (Accepts (newCheckedDefrag bytes) ↔ Accepts (PacketView.new Ipv6 bytes) ∧
      ∃ headers, Walked bytes headers ∧ ∀ header ∈ headers, header.kind ≠ .fragmentHeader) ∧
    (newCheckedDefrag bytes = .ok (.error .fragmentedPacket) ↔
      Accepts (PacketView.new Ipv6 bytes) ∧
      ∃ headers, Walked bytes headers ∧ ∃ header ∈ headers, header.kind = .fragmentHeader) ∧
    (∀ error, error ≠ .fragmentedPacket →
      (newCheckedDefrag bytes = .ok (.error error) ↔ newChecked bytes = .ok (.error error))) ∧
    Returns (newCheckedDefrag bytes) ∧
    (Accepts (PacketView.new Ipv6 bytes) → ∃ items, headerItems bytes = .ok items ∧
      (Ipv6Packet.fragmentHeader bytes = .ok none ↔
        ∀ header ∈ okItems items, header.kind ≠ .fragmentHeader) ∧
      ∀ frag, Ipv6Packet.fragmentHeader bytes = .ok (some frag) ↔
        FirstFragment bytes (okItems items) frag) := by
  rcases validate_outcome bytes with valid | ⟨error, other, invalid⟩
  · -- Every statement is about the one walk the bytes determine.
    have wellFormed : WellFormed bytes := validate_eq_ok_iff.mp valid
    have accepted : Accepts (PacketView.new Ipv6 bytes) := accepts_new_iff.mpr valid
    obtain ⟨items, t, result, walk⟩ := exists_walk (start bytes)
    simp only [accepted, walked_iff wellFormed.fixed walk, true_and]
    refine ⟨?_, ?_, fun error => newCheckedDefrag_error_iff wellFormed walk,
      ⟨_, newCheckedDefrag_eq wellFormed walk⟩, fun _ => ?_⟩
    · rw [accepts_newCheckedDefrag_iff wellFormed walk]
      constructor
      · rintro ⟨ended, others⟩
        exact ⟨items, ⟨rfl, ended⟩, others⟩
      · rintro ⟨_, ⟨rfl, ended⟩, others⟩
        exact ⟨ended, others⟩
    · rw [newCheckedDefrag_fragmented_iff wellFormed walk]
      constructor
      · rintro ⟨ended, fragment⟩
        exact ⟨items, ⟨rfl, ended⟩, fragment⟩
      · rintro ⟨_, ⟨rfl, ended⟩, fragment⟩
        exact ⟨ended, fragment⟩
    · refine ⟨yielded items result, headerItems_eq wellFormed.fixed walk, ?_, fun frag => ?_⟩
      · rw [fragmentHeader_eq wellFormed.fixed walk, Except.ok.injEq, okItems_yielded,
          findSome?_fragment_eq_none_iff walk.passes]
      · rw [fragmentHeader_eq wellFormed.fixed walk, Except.ok.injEq, okItems_yielded,
          findSome?_fragment_eq_some_iff walk.passes]
  · -- Both constructors pass on the validator's error before any walk.
    obtain ⟨checked, gated⟩ := constructors_of_invalid invalid
    have rejected : ¬ Accepts (PacketView.new Ipv6 bytes) := by
      intro accepted
      have valid : validate bytes = .ok (.ok ()) := accepts_new_iff.mp accepted
      rw [invalid] at valid
      simp at valid
    rw [gated, checked]
    refine ⟨iff_of_false (not_accepts_ok_error error) fun both => rejected both.1,
      iff_of_false ?_ fun both => rejected both.1, fun _ _ => Iff.rfl, returns_ok _,
      fun accepted => absurd accepted rejected⟩
    intro same
    exact other (Except.error.inj (Except.ok.inj same))

end Packet.Ipv6

/-
# Typed decoders of TCP options

The iterator yields a kind and raw data. Three decoders read values out of them:
each looks for its kind and its length. Whatever the options region is, an item
decodes to a value exactly when the bytes it was read from are the encoding of that
value, so an item of the right kind with another length is no value at all.
-/

import Packet.Theorems.OptionGrammar

namespace Packet

open Rust TcpOptions

/-! ## The bytes of an item -/

/-- The item of an option, if `EOL` is counted as one. -/
inductive ReadItem : TcpOption → Prop
  | eol : ReadItem ⟨.eol, []⟩
  | wire (option : WireOption) : ReadItem option.item

/-- Every item of a walk has been read off the bytes in front of it, and re-encoding
the items gives those bytes back. -/
theorem reencode_of_passes {s t : Bytes × Bool} {items : List TcpOption}
    (walk : Passes readOption s items t) :
    s.1 = items.flatMap TcpOption.reencode ++ t.1 ∧ ∀ option ∈ items, ReadItem option := by
  induction walk with
  | nil s => exact ⟨rfl, by simp⟩
  | @cons s u t option items found _ ih =>
    obtain ⟨split, read⟩ := ih
    refine ⟨?_, ?_⟩
    · rw [reencode_of_item found, split, List.flatMap_cons, List.append_assoc]
    · intro option' mem
      rcases List.mem_cons.mp mem with rfl | later
      · rcases exists_encode found with ⟨_, rfl, _⟩ | ⟨wire, _, rfl, _⟩
        · exact .eol
        · exact .wire wire
      · exact read option' later

theorem ofByte_eq_iff {kind : UInt8} {expected : TcpOptionKind}
    (known : TcpOptionKind.ofByte expected.code = expected) :
    TcpOptionKind.ofByte kind = expected ↔ kind = expected.code := by
  constructor
  · intro same
    rw [← TcpOptionKind.code_ofByte kind, same]
  · rintro rfl
    exact known

/-! ## The decoders -/

/-- A decoder reads exactly the encodings: it returns, and with a value if and only if
the option was read from the bytes that encode the value. -/
structure DecodesExactly {α : Type} (decode : TcpOption → Exec (Option α)) (encode : α → Bytes)
    (option : TcpOption) : Prop where
  returns : Returns (decode option)
  exact_ : ∀ value, decode option = .ok (some value) ↔ option.reencode = encode value

section Decode

variable {α : Type} {kind : TcpOptionKind} {size : ℕ} {read : Bytes → Exec α}
  {encodeData : α → Bytes} {option : TcpOption}

theorem decode_of_matches (sameKind : option.kind = kind) (sameSize : option.data.length = size) :
    TcpOption.decode kind size read option = (read option.data).map some := by
  rw [TcpOption.decode, if_pos (by simp [sameKind, sameSize])]
  cases read option.data <;> rfl

theorem decode_of_other (other : ¬ (option.kind = kind ∧ option.data.length = size)) :
    TcpOption.decode kind size read option = .ok none := by
  rw [TcpOption.decode, if_neg (by simpa using other)]
  rfl

/-- An item of the grammar is encoded as the value's bytes only if its kind and its data
are those of the value. -/
theorem reencode_eq_iff (item : ReadItem option)
    (known : TcpOptionKind.ofByte kind.code = kind) (sized : kind ≠ .eol ∧ kind ≠ .nop)
    {data : Bytes} :
    option.reencode = kind.code :: .ofNat (2 + data.length) :: data ↔
      option.kind = kind ∧ option.data = data := by
  have notEol : kind.code ≠ 0 := by
    intro zero
    rw [zero] at known
    exact sized.1 known.symm
  have notNop : kind.code ≠ 1 := by
    intro one
    rw [one] at known
    exact sized.2 known.symm
  cases item with
  | eol =>
    refine iff_of_false ?_ ?_
    · intro same
      simp [TcpOption.reencode] at same
    · rintro ⟨same, _⟩
      exact sized.1 same.symm
  | wire wire =>
    rw [wire.reencode_item]
    cases wire with
    | nop =>
      refine iff_of_false ?_ ?_
      · intro same
        simp [WireOption.encode] at same
      · rintro ⟨same, _⟩
        exact sized.2 same.symm
    | sized code payload _ _ short =>
      simp only [WireOption.encode, WireOption.item, List.cons.injEq, ofByte_eq_iff known]
      constructor
      · rintro ⟨rfl, _, rfl⟩
        exact ⟨rfl, rfl⟩
      · rintro ⟨rfl, rfl⟩
        exact ⟨rfl, rfl, rfl⟩

/-- A decoder whose reading of data of the right length inverts an encoding of it. -/
theorem decodesExactly (item : ReadItem option)
    (known : TcpOptionKind.ofByte kind.code = kind) (sized : kind ≠ .eol ∧ kind ≠ .nop)
    (width : ∀ value, (encodeData value).length = size)
    (inverts : ∀ data, data.length = size →
      ∃ value, read data = .ok value ∧ ∀ other, value = other ↔ data = encodeData other) :
    DecodesExactly (TcpOption.decode kind size read)
      (fun value => kind.code :: .ofNat (2 + size) :: encodeData value) option := by
  by_cases found : option.kind = kind ∧ option.data.length = size
  · obtain ⟨value, readValue, unique⟩ := inverts option.data found.2
    have decoded : TcpOption.decode kind size read option = .ok (some value) := by
      rw [decode_of_matches found.1 found.2, readValue]
      rfl
    refine ⟨.of_eq_ok decoded, fun other => ?_⟩
    rw [decoded, Except.ok.injEq, Option.some.injEq, unique, ← width other,
      reencode_eq_iff item known sized]
    exact (and_iff_right found.1).symm
  · have refused : TcpOption.decode kind size read option = .ok none := decode_of_other found
    refine ⟨.of_eq_ok refused, fun other => ?_⟩
    rw [refused, ← width other, reencode_eq_iff item known sized]
    refine iff_of_false (by simp) ?_
    rintro ⟨sameKind, sameData⟩
    exact found ⟨sameKind, by rw [sameData, width]⟩

end Decode

variable {option : TcpOption}

theorem u16ToBeBytes_inj {a b : UInt16} : u16ToBeBytes a = u16ToBeBytes b ↔ a = b := by
  refine ⟨fun same => ?_, congrArg u16ToBeBytes⟩
  rw [← u16FromBeBytes_toBeBytes a, same, u16FromBeBytes_toBeBytes]

theorem mss_decodesExactly (item : ReadItem option) :
    DecodesExactly TcpOption.mss (fun value => 2 :: 4 :: u16ToBeBytes value) option := by
  refine decodesExactly item rfl (by decide) (fun _ => rfl) fun data width => ?_
  obtain ⟨high, low, rfl⟩ := List.length_eq_two.mp width
  refine ⟨u16FromBeBytes high low, rfl, fun other => ?_⟩
  rw [← u16ToBeBytes_fromBeBytes high low, u16ToBeBytes_inj]

theorem windowScale_decodesExactly (item : ReadItem option) :
    DecodesExactly TcpOption.windowScale (fun value => [3, 3, value]) option := by
  change DecodesExactly _ (fun value => 3 :: .ofNat (2 + 1) :: [value]) option
  refine decodesExactly item rfl (by decide) (fun _ => rfl) fun data width => ?_
  obtain ⟨shift, rfl⟩ := List.length_eq_one_iff.mp width
  exact ⟨shift, rfl, fun other => by simp⟩

/-- Eight bytes are two words. -/
theorem exists_words {data : Bytes} (width : data.length = 8) :
    ∃ val ecr, data = u32ToBeBytes val ++ u32ToBeBytes ecr ∧
      val = u32FromBeBytes (byteAt data 0) (byteAt data 1) (byteAt data 2) (byteAt data 3) ∧
      ecr = u32FromBeBytes (byteAt data 4) (byteAt data 5) (byteAt data 6) (byteAt data 7) := by
  refine ⟨_, _, ?_, rfl, rfl⟩
  rw [u32ToBeBytes_fromBeBytes, u32ToBeBytes_fromBeBytes]
  refine (List.take_of_length_le width.le).symm.trans ?_
  rw [take_add_byte 7 (by omega), take_add_byte 6 (by omega), take_add_byte 5 (by omega),
    take_add_byte 4 (by omega), take_add_byte 3 (by omega), take_add_byte 2 (by omega),
    take_add_byte 1 (by omega), take_add_byte 0 (by omega), List.take_zero]
  rfl

theorem timestamp_decodesExactly (item : ReadItem option) :
    DecodesExactly TcpOption.timestamp
      (fun value => 8 :: 10 :: (u32ToBeBytes value.1 ++ u32ToBeBytes value.2)) option := by
  refine decodesExactly item rfl (by decide) (fun _ => rfl) fun data width => ?_
  obtain ⟨val, ecr, split, readVal, readEcr⟩ := exists_words width
  refine ⟨(val, ecr), ?_, ?_⟩
  · simp (disch := omega) only [index_byteAt, ok_bind, pure_eq_ok, ← readVal, ← readEcr]
  · intro other
    -- The two halves have the same width on both sides.
    have halves : (u32ToBeBytes val).length = (u32ToBeBytes other.1).length := rfl
    rw [split, List.append_eq_append_iff_of_size_eq_left halves, u32ToBeBytes_inj,
      u32ToBeBytes_inj, Prod.ext_iff]

/-! ## Every item of every region -/

/-- An item where the iterator found it: the bytes it was read from stand between those
of the items before it and what follows, and the decoders read them exactly. -/
structure Decoded (region : Bytes) (before : List TcpOption) (option : TcpOption) : Prop where
  place : ∃ back, region = before.flatMap TcpOption.reencode ++ option.reencode ++ back
  mss : DecodesExactly TcpOption.mss (fun value => 2 :: 4 :: u16ToBeBytes value) option
  windowScale : DecodesExactly TcpOption.windowScale (fun value => [3, 3, value]) option
  timestamp : DecodesExactly TcpOption.timestamp
    (fun value => 8 :: 10 :: (u32ToBeBytes value.1 ++ u32ToBeBytes value.2)) option

/-- Draining the iterator on any region: every item that is yielded is decoded exactly,
those in front of an error included. -/
theorem typedOptions_exact (region : Bytes) :
    ∃ items last, drain next (region.length + 2) ⟨region, false, false⟩ = .ok (items, last) ∧
      ∀ before option after, okItems items = before ++ option :: after →
        Decoded region before option := by
  obtain ⟨items, t, result, walk⟩ := exists_walk (region, false)
  refine ⟨_, _, drain_eq walk, fun before option after found => ?_⟩
  rw [okItems_yielded] at found
  obtain ⟨split, read⟩ := reencode_of_passes walk.passes
  have item : ReadItem option := by
    refine read option ?_
    rw [found]
    exact List.mem_append_right before List.mem_cons_self
  refine ⟨⟨after.flatMap TcpOption.reencode ++ t.1, ?_⟩, mss_decodesExactly item,
    windowScale_decodesExactly item, timestamp_decodesExactly item⟩
  rw [show region = _ from split, found, List.flatMap_append, List.flatMap_cons]
  simp only [List.append_assoc]

end Packet

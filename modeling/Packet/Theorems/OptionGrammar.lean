/-
# The TCP options grammar

An options region is a list of encoded options, followed by nothing or by an
`EOL` byte and whatever comes after it. The iterator yields no error exactly on
such regions, and yields the options of the list, then one `EOL` item if there is
an `EOL` byte. Encoding the items again gives back the bytes it consumed.
-/

import Packet.Model.Tcp

namespace Packet

open Rust TcpOptions

/-! ## The grammar -/

/-- An option other than `EOL` on the wire: a single `NOP` byte, or a kind and a
length byte followed by data. -/
inductive WireOption
  | nop
  | sized (kind : UInt8) (data : Bytes) (notEol : kind ≠ 0) (notNop : kind ≠ 1)
      (short : data.length ≤ 253)

namespace WireOption

/-- The bytes of an option: the kind alone, or the kind, the length and the data. -/
def encode : WireOption → Bytes
  | .nop => [1]
  | .sized kind data _ _ _ => kind :: .ofNat (2 + data.length) :: data

/-- The item the option is read as. -/
def item : WireOption → TcpOption
  | .nop => ⟨.nop, []⟩
  | .sized kind data _ _ _ => ⟨.ofByte kind, data⟩

end WireOption

/-- A region of options, then nothing or an `EOL` byte and anything. -/
structure OptionRegion (region : Bytes) (options : List WireOption) (rest : Bytes) : Prop where
  split : region = options.flatMap WireOption.encode ++ rest
  ends : rest = [] ∨ rest.head? = some 0

/-- The items the bytes after the options are read as. -/
def eolItems (rest : Bytes) : List TcpOption := if rest = [] then [] else [⟨.eol, []⟩]

/-- The kind byte of an option kind. -/
def TcpOptionKind.code : TcpOptionKind → UInt8
  | .eol => 0
  | .nop => 1
  | .mss => 2
  | .windowScale => 3
  | .sackPermitted => 4
  | .sack => 5
  | .timestamp => 8
  | .unknown kind => kind

/-- The bytes an item is read from. -/
def TcpOption.reencode (option : TcpOption) : Bytes :=
  match option.kind with
  | .eol => [0]
  | .nop => [1]
  | kind => kind.code :: .ofNat (2 + option.data.length) :: option.data

theorem TcpOptionKind.code_ofByte (kind : UInt8) : (TcpOptionKind.ofByte kind).code = kind := by
  unfold TcpOptionKind.ofByte
  split <;> rfl

/-- Encoding the item of an option gives the option back. -/
theorem WireOption.reencode_item (option : WireOption) :
    option.item.reencode = option.encode := by
  cases option with
  | nop => rfl
  | sized kind data notEol notNop short =>
    have code := TcpOptionKind.code_ofByte kind
    rw [item, encode, TcpOption.reencode]
    -- Only the bytes 0 and 1 are read as the kinds without a length byte.
    split
    · rename_i eol
      rw [show TcpOptionKind.ofByte kind = .eol from eol] at code
      exact absurd code.symm notEol
    · rename_i nop
      rw [show TcpOptionKind.ofByte kind = .nop from nop] at code
      exact absurd code.symm notNop
    · rw [code]

/-! ## Reading what was encoded -/

theorem readOption_encode (option : WireOption) (rest : Bytes) :
    readOption (option.encode ++ rest, false) = .item option.item (rest, false) := by
  cases option with
  | nop => rfl
  | sized kind data notEol notNop short =>
    have length : (UInt8.ofNat (2 + data.length)).toNat = 2 + data.length :=
      UInt8.toNat_ofNat_of_lt' (by simp only [UInt8.size]; omega)
    have enough : ¬ (data ++ rest).length + 2 < 2 + data.length := by
      rw [List.length_append]
      omega
    simp only [WireOption.encode, List.cons_append, readOption, if_neg notEol, if_neg notNop,
      readSized, length, if_neg enough, WireOption.item]
    rw [if_neg (by omega), Nat.add_sub_cancel_left, List.take_left, List.drop_left]

theorem passes_encode (options : List WireOption) (rest : Bytes) :
    Passes readOption (options.flatMap WireOption.encode ++ rest, false)
      (options.map WireOption.item) (rest, false) := by
  induction options with
  | nil => exact .nil _
  | cons option options ih =>
    rw [List.flatMap_cons, List.append_assoc]
    exact .cons (readOption_encode option _) ih

/-- A region of the grammar is read to its end. -/
theorem OptionRegion.reads {region rest : Bytes} {options : List WireOption}
    (parsed : OptionRegion region options rest) :
    Reads readOption (region, false) (options.map WireOption.item ++ eolItems rest)
      (rest.tail, !rest.isEmpty) none := by
  rw [parsed.split]
  refine .after (passes_encode options rest) ?_
  rcases parsed.ends with rfl | eol
  · exact .of_stop rfl
  · cases rest with
    | nil => simp at eol
    | cons first tail =>
      obtain rfl := Option.some.inj eol
      exact .of_item rfl (.of_stop rfl)

/-! ## What is read was encoded -/

/-- What is read is an `EOL`, or is read from the encoding of an option. -/
theorem exists_encode {s u : Bytes × Bool} {option : TcpOption}
    (found : readOption s = .item option u) :
    (s = (0 :: u.1, false) ∧ option = ⟨.eol, []⟩ ∧ u.2 = true) ∨
      ∃ wire : WireOption, s = (wire.encode ++ u.1, false) ∧ option = wire.item ∧
        u.2 = false := by
  rcases readOption_item_cases found with ⟨rest, rfl, rfl, rfl⟩ | ⟨rest, rfl, rfl, rfl⟩ | sized
  · exact .inl ⟨rfl, rfl, rfl⟩
  · exact .inr ⟨.nop, rfl, rfl, rfl⟩
  · obtain ⟨kind, length, body, notEol, notNop, rfl, two, fits, rfl, rfl⟩ := sized
    have bound := length.toNat_lt
    have size : (body.take (length.toNat - 2)).length = length.toNat - 2 := by
      rw [List.length_take]
      omega
    refine .inr ⟨.sized kind (body.take (length.toNat - 2)) notEol notNop (by omega), ?_, rfl, rfl⟩
    -- The length byte is the one the encoding puts there.
    have same : UInt8.ofNat (2 + (length.toNat - 2)) = length := by
      rw [show 2 + (length.toNat - 2) = length.toNat by omega, UInt8.ofNat_toNat]
    rw [WireOption.encode, size, same, List.cons_append, List.cons_append,
      List.take_append_drop]

/-- An item is read from its own encoding. -/
theorem reencode_of_item {s u : Bytes × Bool} {option : TcpOption}
    (found : readOption s = .item option u) : s.1 = option.reencode ++ u.1 := by
  rcases exists_encode found with ⟨rfl, rfl, _⟩ | ⟨wire, rfl, rfl, _⟩
  · rfl
  · rw [wire.reencode_item]

/-- A walk that ends without an error runs over a region of the grammar. -/
theorem optionRegion_of_passes {s t : Bytes × Bool} {items : List TcpOption}
    (walk : Passes readOption s items t) (stops : readOption t = .stop) (open_ : s.2 = false) :
    ∃ options rest, OptionRegion s.1 options rest := by
  induction walk with
  | nil s =>
    obtain ⟨region, done⟩ := s
    obtain rfl : done = false := open_
    rcases readOption_eq_stop_iff.mp stops with ended | empty
    · simp at ended
    · exact ⟨[], [], empty, .inl rfl⟩
  | @cons s u t option items found _ ih =>
    rcases exists_encode found with ⟨rfl, _, _⟩ | ⟨wire, rfl, _, still⟩
    · -- An `EOL` byte ends the options, whatever was read after it.
      exact ⟨[], 0 :: u.1, rfl, .inr rfl⟩
    · obtain ⟨options, rest, parsed⟩ := ih stops still
      refine ⟨wire :: options, rest, ?_, parsed.ends⟩
      rw [List.flatMap_cons, List.append_assoc, ← parsed.split]

/-- A walk yields no error exactly when it runs over a region of the grammar. -/
theorem noError_iff {region : Bytes} {items : List TcpOption} {t : Bytes × Bool}
    {result : Option PacketError} (walk : Reads readOption (region, false) items t result) :
    (∀ error, .error error ∉ yielded items result) ↔
      ∃ options rest, OptionRegion region options rest := by
  constructor
  · -- No error among the items, so the walk has come to a stop.
    intro clean
    cases result with
    | some error => exact absurd (error_mem_yielded.mpr rfl) (clean error)
    | none => exact optionRegion_of_passes walk.passes walk.ends rfl
  · -- The region of the grammar is read without an error, and there is one walk.
    rintro ⟨options, rest, parsed⟩ error
    obtain ⟨_, _, rfl⟩ := Reads.unique walk parsed.reads
    simp

/-- Encoding the items of a region again gives the bytes before those left. -/
theorem OptionRegion.reencode {region rest : Bytes} {options : List WireOption}
    (parsed : OptionRegion region options rest) :
    region = (options.map WireOption.item ++ eolItems rest).flatMap TcpOption.reencode ++
      rest.tail := by
  have wire : (options.map WireOption.item).flatMap TcpOption.reencode =
      options.flatMap WireOption.encode := by
    rw [List.flatMap_map]
    exact congrArg (options.flatMap ·) (funext WireOption.reencode_item)
  -- The `EOL` item stands for its byte; the bytes after it are what is left.
  have eol : (eolItems rest).flatMap TcpOption.reencode ++ rest.tail = rest := by
    rcases parsed.ends with rfl | eol
    · rfl
    · cases rest with
      | nil => rfl
      | cons first tail =>
        obtain rfl := Option.some.inj eol
        rfl
  rw [List.flatMap_append, wire, List.append_assoc, eol, parsed.split]

/-- The options iterator accepts exactly the grammar and loses nothing: on any
region, and so on the options of any accepted segment. -/
theorem options_grammar :
    (∀ region : Bytes, ∃ items last,
      drain next (region.length + 2) ⟨region, false, false⟩ = .ok (items, last) ∧
      ((∀ error, .error error ∉ items) ↔ ∃ options rest, OptionRegion region options rest) ∧
      ∀ options rest, OptionRegion region options rest →
        items = (options.map WireOption.item ++ eolItems rest).map .ok ∧
        region = (okItems items).flatMap TcpOption.reencode ++ last.remaining) ∧
    (∀ bytes : Bytes, Accepts (PacketView.new Tcp bytes) →
      ∃ region, TcpPacket.optionsRaw bytes = .ok region ∧
        TcpPacket.options bytes = .ok ⟨region, false, false⟩) := by
  constructor
  · intro region
    obtain ⟨items, t, result, walk⟩ := exists_walk (region, false)
    refine ⟨_, _, drain_eq walk, noError_iff walk, ?_⟩
    intro options rest parsed
    obtain ⟨rfl, rfl, rfl⟩ := Reads.unique walk parsed.reads
    refine ⟨List.append_nil _, ?_⟩
    rw [okItems_yielded]
    exact parsed.reencode
  · intro bytes accepted
    have wellFormed : Tcp.WellFormed bytes :=
      Tcp.validate_eq_ok_iff.mp (accepts_new_iff.mp accepted)
    exact ⟨_, Tcp.optionsRaw_eq_ok wellFormed, Tcp.options_eq (Tcp.optionsRaw_eq_ok wellFormed)⟩

/-- A maximum segment size, a `NOP`, and an `EOL` with a byte after it. -/
theorem options_grammar_mss :
    OptionRegion [2, 4, 5, 180, 1, 0, 9]
        [.sized 2 [5, 180] (by decide) (by decide) (by decide), .nop] [0, 9] ∧
      ∃ items last, drain next 9 ⟨[2, 4, 5, 180, 1, 0, 9], false, false⟩ = .ok (items, last) ∧
        items = [.ok ⟨.mss, [5, 180]⟩, .ok ⟨.nop, []⟩, .ok ⟨.eol, []⟩] ∧
        [2, 4, 5, 180, 1, 0, 9] = (okItems items).flatMap TcpOption.reencode ++ last.remaining := by
  have region : OptionRegion [2, 4, 5, 180, 1, 0, 9]
      [.sized 2 [5, 180] (by decide) (by decide) (by decide), .nop] [0, 9] := ⟨rfl, .inr rfl⟩
  obtain ⟨items, last, drained, _, decoded⟩ := options_grammar.1 [2, 4, 5, 180, 1, 0, 9]
  exact ⟨region, items, last, drained, decoded _ _ region⟩

end Packet

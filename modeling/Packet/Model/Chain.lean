/-
# Chains of extension headers on the wire

What the walks are for, said without them. A chain is a list of headers, each
of which announces the next; it is encoded by writing the headers one after the
other. A chain is complete in a region when all of its headers fit there. The
headers found in a region tile it when each is the decoding of its own stretch
of bytes and the stretches follow one another.
-/

import Packet.Model.ExtHeaders

namespace Packet

open Rust NextHeaders
open NextHeaderType (ofByte)

/-! ## Encoding -/

/-- The extension headers with a length byte in 8-byte units. -/
inductive UnitsKind
  | hopByHopOptions
  | routingHeader
  | destinationOptions
  | mobilityHeader
  deriving DecidableEq, Repr

/-- The byte that announces a header of the kind. -/
def UnitsKind.code : UnitsKind → UInt8
  | .hopByHopOptions => 0
  | .routingHeader => 43
  | .destinationOptions => 60
  | .mobilityHeader => 135

/-- An extension header without its next-header byte. A header with a length
byte occupies `8 * (hdrExtLen + 1)` bytes, two of them before its body; a
Fragment header occupies 8 and starts its packet. -/
inductive ChainHeader
  | units (kind : UnitsKind) (hdrExtLen : UInt8) (body : Bytes)
      (width : body.length + 2 = (hdrExtLen.toNat + 1) * 8)
  | fragment (body : Vector UInt8 7) (first : u16FromBeBytes body[1] body[2] >>> 3 = 0)

namespace ChainHeader

/-- The next-header byte that announces the header. -/
def code : ChainHeader → UInt8
  | .units kind _ _ _ => kind.code
  | .fragment _ _ => 44

/-- The header on the wire, with the next-header byte it carries. -/
def encode (next : UInt8) : ChainHeader → Bytes
  | .units _ hdrExtLen body _ => next :: hdrExtLen :: body
  | .fragment body _ => next :: body.toList

/-- The item the header is read as. -/
def item (next : UInt8) : ChainHeader → NextHeader
  | .units kind hdrExtLen body _ =>
    { kind := ofByte kind.code, nextHeader := next, lenBytes := 8 * (hdrExtLen.toNat + 1),
      data := .other body }
  | .fragment body _ =>
    { kind := .fragmentHeader, nextHeader := next, lenBytes := 8,
      data := .fragment ⟨⟨(next :: body.toList).toArray, by simp⟩⟩ }

end ChainHeader

/-- The first next-header byte of a chain that ends in a protocol. -/
def firstCode : List ChainHeader → UInt8 → UInt8
  | [], protocol => protocol
  | header :: _, _ => header.code

/-- The headers one after the other, each linked to the next. -/
def encodeChain : List ChainHeader → UInt8 → Bytes
  | [], _ => []
  | header :: headers, protocol =>
    header.encode (firstCode headers protocol) ++ encodeChain headers protocol

/-- The items the headers are read as. -/
def chainItems : List ChainHeader → UInt8 → List NextHeader
  | [], _ => []
  | header :: headers, protocol =>
    header.item (firstCode headers protocol) :: chainItems headers protocol

theorem UnitsKind.isExtension_code (kind : UnitsKind) :
    (ofByte kind.code).isExtension = true ∧ ofByte kind.code ≠ .fragmentHeader := by
  cases kind <;> exact ⟨rfl, by decide⟩

/-- The encoding of a header is read as its item. -/
theorem ChainHeader.spans (header : ChainHeader) (next : UInt8) :
    Spans header.code (header.item next) (header.encode next) := by
  cases header with
  | units kind hdrExtLen body width =>
    -- The width of the body makes the length byte tell the truth.
    obtain ⟨extension, notFragment⟩ := kind.isExtension_code
    have length : lengthAt (kind.code, next :: hdrExtLen :: body) = 8 * (hdrExtLen.toNat + 1) := by
      rw [lengthAt, if_neg notFragment, Nat.mul_comm]
      rfl
    have size : (next :: hdrExtLen :: body).length = 8 * (hdrExtLen.toNat + 1) := by
      rw [List.length_cons, List.length_cons, width, Nat.mul_comm]
    have read := spans_iff.mpr ⟨extension, length.trans size.symm, rfl⟩
    rw [headerAt, length, ← size, List.take_length, if_neg notFragment] at read
    rw [item, ← size]
    exact read
  | fragment body first =>
    have size : (next :: body.toList).length = 8 := by simp
    have fragment : ofByte 44 = .fragmentHeader := rfl
    have length : lengthAt (44, next :: body.toList) = (next :: body.toList).length := size.symm
    have read := spans_iff.mpr ⟨rfl, length, rfl⟩
    rw [headerAt, if_pos fragment, ofFn_byteAt size] at read
    exact read

/-- The walk over an encoded chain passes its items and ends before what follows it. -/
theorem passes_encodeChain (headers : List ChainHeader) (protocol : UInt8) (payload : Bytes) :
    Passes readHeader (firstCode headers protocol, encodeChain headers protocol ++ payload)
      (chainItems headers protocol) (protocol, payload) := by
  induction headers with
  | nil => exact .nil _
  | cons header headers ih =>
    rw [encodeChain, List.append_assoc]
    refine .cons ((header.spans _).read _) ?_
    -- The header announces the first of those after it.
    have next : (header.item (firstCode headers protocol)).nextHeader =
        firstCode headers protocol := by
      cases header <;> rfl
    rw [next]
    exact ih

/-! ## Completeness in a region -/

/-- The chain announced by a next-header byte is complete in a region: the
region starts with its headers, whatever comes after them. -/
inductive CompleteChain : UInt8 → Bytes → Prop
  | upper {next : UInt8} (rest : Bytes) (notExtension : (ofByte next).isExtension = false) :
      CompleteChain next rest
  | fragment {next : UInt8} {body rest : Bytes} (width : body.length = 7)
      (tail : CompleteChain next rest) : CompleteChain 44 (next :: body ++ rest)
  | units {kind next hdrExtLen : UInt8} {body rest : Bytes}
      (extension : (ofByte kind).isExtension = true) (notFragment : kind ≠ 44)
      (width : body.length + 2 = (hdrExtLen.toNat + 1) * 8) (tail : CompleteChain next rest) :
      CompleteChain kind (next :: hdrExtLen :: body ++ rest)

/-- A chain is complete exactly when the walk over it ends without an error. -/
theorem CompleteChain.exists_reads {next : UInt8} {region : Bytes}
    (complete : CompleteChain next region) :
    ∃ items t, Reads readHeader (next, region) items t none := by
  induction complete with
  | upper rest notExtension =>
    exact ⟨[], _, .of_stop (readHeader_eq_stop_iff.mpr notExtension)⟩
  | @fragment next body rest width tail ih =>
    obtain ⟨items, t, walk⟩ := ih
    have length : lengthAt (44, next :: body) = (next :: body).length := by
      rw [List.length_cons, width]
      rfl
    have spans := spans_iff.mpr ⟨rfl, length, rfl⟩
    exact ⟨_, t, .of_item (spans.read rest) walk⟩
  | @units kind next hdrExtLen body rest extension notFragment width tail ih =>
    obtain ⟨items, t, walk⟩ := ih
    have length : lengthAt (kind, next :: hdrExtLen :: body) =
        (next :: hdrExtLen :: body).length := by
      rw [lengthAt, if_neg (mt NextHeaderType.ofByte_eq_fragmentHeader_iff.mp notFragment),
        List.length_cons, List.length_cons, width]
      rfl
    have spans := spans_iff.mpr ⟨extension, length, rfl⟩
    exact ⟨_, t, .of_item (spans.read rest) walk⟩

theorem completeChain_of_passes {s t : UInt8 × Bytes} {items : List NextHeader}
    (walk : Passes readHeader s items t) (stops : readHeader t = .stop) :
    CompleteChain s.1 s.2 := by
  induction walk with
  | nil s => exact .upper _ (readHeader_eq_stop_iff.mp stops)
  | @cons s u t header items found _ ih =>
    obtain ⟨span, split, _, spans⟩ := exists_span found
    have link := next_of_item found
    obtain ⟨extension, length, rfl⟩ := spans_iff.mp spans
    have enough := eight_le_lengthAt (s.1, span)
    rw [split]
    match span with
    | [] | [_] =>
      -- A header has at least eight bytes.
      simp only [List.length_nil, List.length_singleton] at length
      omega
    | next :: hdrExtLen :: body =>
      have tail : CompleteChain next u.2 := by
        rw [show next = u.1 from link.symm]
        exact ih stops
      -- The next-header byte before a header says which length rule it follows.
      by_cases fragment : ofByte s.1 = .fragmentHeader
      · have width : (hdrExtLen :: body).length = 7 := by
          rw [lengthAt, if_pos fragment, List.length_cons] at length
          omega
        rw [NextHeaderType.ofByte_eq_fragmentHeader_iff.mp fragment]
        exact .fragment width tail
      · have width : body.length + 2 = (hdrExtLen.toNat + 1) * 8 := by
          rw [lengthAt, if_neg fragment] at length
          exact length.symm
        exact .units extension (mt NextHeaderType.ofByte_eq_fragmentHeader_iff.mpr fragment) width
          tail

/-! ## Tilings -/

/-- The data of an item are the bytes of its stretch: all eight of a Fragment
header, those after the length byte of any other. -/
def Carries (header : NextHeader) (span : Bytes) : Prop :=
  match header.data with
  | .fragment frag => header.kind = .fragmentHeader ∧ frag.bytes.toList = span
  | .other data => header.kind ≠ .fragmentHeader ∧ data = span.drop 2

/-- The headers tile the front of a region: each is decoded from the stretch
where the one before it ends, and has the kind the one before it announces. -/
inductive Tiles : UInt8 → List NextHeader → Bytes → Prop
  | nil (next : UInt8) (rest : Bytes) : Tiles next [] rest
  | cons {next : UInt8} {header : NextHeader} {span rest : Bytes} {headers : List NextHeader}
      (kind : header.kind = ofByte next) (first : span.head? = some header.nextHeader)
      (length : span.length = header.lenBytes) (data : Carries header span)
      (tail : Tiles header.nextHeader headers rest) : Tiles next (header :: headers) (span ++ rest)

/-- The bytes that encode a header are its stretch. -/
theorem carries_of_spans {next : UInt8} {header : NextHeader} {span : Bytes}
    (spans : Spans next header span) :
    header.kind = ofByte next ∧ span.head? = some header.nextHeader ∧
      span.length = header.lenBytes ∧ Carries header span := by
  obtain ⟨_, length, rfl⟩ := spans_iff.mp spans
  have enough := eight_le_lengthAt (next, span)
  refine ⟨rfl, ?_, length.symm, ?_⟩
  · cases span with
    | nil =>
      rw [List.length_nil] at length
      omega
    | cons first rest => rfl
  · by_cases fragment : ofByte next = .fragmentHeader
    · -- A Fragment header keeps all of its bytes.
      have size : span.length = 8 := by
        rw [← length]
        exact if_pos fragment
      simp only [Carries, headerAt, if_pos fragment]
      refine ⟨fragment, ?_⟩
      rw [ofFn_byteAt size]
      rfl
    · simp only [Carries, headerAt, if_neg fragment, length, List.take_length]
      exact ⟨fragment, trivial⟩

/-- The headers of a walk tile the region it runs over. -/
theorem tiles_of_passes {s t : UInt8 × Bytes} {items : List NextHeader}
    (walk : Passes readHeader s items t) : Tiles s.1 items s.2 := by
  induction walk with
  | nil s => exact .nil _ _
  | @cons s u t header items found _ ih =>
    obtain ⟨span, split, _, spans⟩ := exists_span found
    obtain ⟨kind, first, length, data⟩ := carries_of_spans spans
    rw [split]
    exact .cons kind first length data (next_of_item found ▸ ih)

end Packet

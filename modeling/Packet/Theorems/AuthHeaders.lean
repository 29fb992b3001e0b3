/-
# Chains with Authentication Headers

An Authentication Header counts its length in 4-byte units, less two, while the
walks read it with the rule of the other headers, in 8-byte units, less one. The
two lengths agree for the length byte 0 alone. So a chain is read as it was
written exactly when that is the length byte of each of its Authentication
Headers; at the first other one the walk goes astray.
-/

import Packet.Model.Chain
import Packet.Model.Ipv6

namespace Packet.Ipv6

open Rust NextHeaders
open NextHeaderType (ofByte)

/-- An extension header, Authentication Headers included. One of these occupies
`4 * (payloadLen + 2)` bytes, two of them before its body. -/
inductive LinkedHeader
  | plain (header : ChainHeader)
  | auth (payloadLen : UInt8) (body : Bytes)
      (width : body.length + 2 = 4 * (payloadLen.toNat + 2))

namespace LinkedHeader

/-- The next-header byte that announces the header. -/
def code : LinkedHeader → UInt8
  | .plain header => header.code
  | .auth _ _ _ => 51

/-- The header on the wire, with the next-header byte it carries. -/
def encode (next : UInt8) : LinkedHeader → Bytes
  | .plain header => header.encode next
  | .auth payloadLen body _ => next :: payloadLen :: body

/-- The item the header should be read as. -/
def item (next : UInt8) : LinkedHeader → NextHeader
  | .plain header => header.item next
  | .auth payloadLen body _ =>
    { kind := .authenticationHeader, nextHeader := next, lenBytes := 4 * (payloadLen.toNat + 2),
      data := .other body }

/-- The length byte of the header is one that both length rules read alike. -/
def Agrees : LinkedHeader → Prop
  | .plain _ => True
  | .auth payloadLen _ _ => payloadLen = 0

/-- The first next-header byte of a chain that ends in a protocol. -/
def firstLinked : List LinkedHeader → UInt8 → UInt8
  | [], protocol => protocol
  | header :: _, _ => header.code

/-- The headers one after the other, each linked to the next. -/
def encodeLinked : List LinkedHeader → UInt8 → Bytes
  | [], _ => []
  | header :: headers, protocol =>
    header.encode (firstLinked headers protocol) ++ encodeLinked headers protocol

/-- The items the headers should be read as. -/
def linkedItems : List LinkedHeader → UInt8 → List NextHeader
  | [], _ => []
  | header :: headers, protocol =>
    header.item (firstLinked headers protocol) :: linkedItems headers protocol

theorem nextHeader_item (header : LinkedHeader) (next : UInt8) :
    (header.item next).nextHeader = next := by
  cases header with
  | plain header => cases header <;> rfl
  | auth payloadLen body width => rfl

/-- The encoding of a header is read as its item exactly when both length rules
agree on it. -/
theorem read_iff (header : LinkedHeader) (next : UInt8) (rest : Bytes) {u : UInt8 × Bytes} :
    readHeader (header.code, header.encode next ++ rest) = .item (header.item next) u ↔
      header.Agrees ∧ u = (next, rest) := by
  cases header with
  | plain header =>
    have link : (header.item next).nextHeader = next := nextHeader_item (.plain header) next
    have read : readHeader (header.code, header.encode next ++ rest) =
        .item (header.item next) ((header.item next).nextHeader, rest) :=
      (header.spans next).read rest
    rw [link] at read
    simp only [code, encode, item, Agrees, read, Reading.item.injEq, true_and, eq_comm]
  | auth payloadLen body width =>
    have length : lengthAt (51, next :: payloadLen :: body ++ rest) =
        (payloadLen.toNat + 1) * 8 := rfl
    constructor
    · -- The item read has the length of the other rule.
      intro read
      obtain ⟨_, _, same, rfl⟩ := readHeader_eq_item_iff.mp read
      have sizes : 4 * (payloadLen.toNat + 2) = (payloadLen.toNat + 1) * 8 :=
        congrArg NextHeader.lenBytes same
      have zero : payloadLen = 0 := UInt8.toNat_inj.mp (show payloadLen.toNat = 0 by omega)
      refine ⟨zero, ?_⟩
      have size : (next :: payloadLen :: body).length = (payloadLen.toNat + 1) * 8 := by
        rw [List.length_cons, List.length_cons, width]
        exact sizes
      rw [code, encode, length, List.drop_left' size]
      rfl
    · -- With the length byte 0 either rule gives 8.
      rintro ⟨zero, rfl⟩
      obtain rfl : payloadLen = 0 := zero
      have size : (next :: (0 : UInt8) :: body).length = 8 := by
        rw [List.length_cons, List.length_cons, width]
        rfl
      have spans : Spans 51 (headerAt (51, next :: 0 :: body)) (next :: 0 :: body) :=
        spans_iff.mpr ⟨rfl, size.symm, rfl⟩
      have decoded : headerAt (51, next :: 0 :: body) =
          (auth 0 body width).item next := by
        have whole : (next :: (0 : UInt8) :: body).take 8 = next :: 0 :: body :=
          List.take_of_length_le (Nat.le_of_eq size)
        exact congrArg (fun front : Bytes =>
          (⟨.authenticationHeader, next, 8, .other (front.drop 2)⟩ : NextHeader)) whole
      have read := spans.read rest
      rw [decoded] at read
      exact read

/-- The walk over an encoded chain passes its items exactly when the length rules
agree on all headers. -/
theorem passes_iff (headers : List LinkedHeader) (protocol : UInt8) (payload : Bytes)
    (t : UInt8 × Bytes) :
    Passes readHeader (firstLinked headers protocol, encodeLinked headers protocol ++ payload)
      (linkedItems headers protocol) t ↔
      (∀ header ∈ headers, header.Agrees) ∧ t = (protocol, payload) := by
  induction headers with
  | nil =>
    constructor
    · intro walk
      cases walk
      exact ⟨fun _ mem => absurd mem List.not_mem_nil, rfl⟩
    · rintro ⟨_, rfl⟩
      exact .nil _
  | cons header headers ih =>
    -- The first header says whether the walk comes to the others where they begin.
    rw [encodeLinked, List.append_assoc, List.forall_mem_cons, and_assoc, ← ih]
    constructor
    · intro walk
      cases walk with
      | cons found rest =>
        obtain ⟨agrees, rfl⟩ := (header.read_iff _ _).mp found
        exact ⟨agrees, rest⟩
    · rintro ⟨agrees, rest⟩
      exact .cons ((header.read_iff _ _).mpr ⟨agrees, rfl⟩) rest

end LinkedHeader

open LinkedHeader

/-- A packet: a fixed header, a chain that ends in a protocol, and a payload. -/
def linkedPacket (fixed : Bytes) (headers : List LinkedHeader) (protocol : UInt8)
    (payload : Bytes) : Bytes :=
  fixed ++ (encodeLinked headers protocol ++ payload)

/-- The walks give back the headers of the chain and the protocol at its end. -/
def ReadsBack (fixed : Bytes) (headers : List LinkedHeader) (protocol : UInt8)
    (payload : Bytes) : Prop :=
  headerItems (linkedPacket fixed headers protocol payload) =
      .ok ((linkedItems headers protocol).map .ok) ∧
    Ipv6Packet.upperLayerProtocol (linkedPacket fixed headers protocol payload) =
      .ok (some protocol)

/-- A chain is read back exactly when its Authentication Headers, if any, have the
length byte 0. -/
theorem readsBack_iff {fixed : Bytes} {headers : List LinkedHeader} {protocol : UInt8}
    (length : fixed.length = 40) (version : byteAt fixed 0 >>> 4 = 6)
    (first : byteAt fixed 6 = firstLinked headers protocol)
    (upper : (ofByte protocol).isExtension = false) (payload : Bytes) :
    ReadsBack fixed headers protocol payload ↔ ∀ header ∈ headers, header.Agrees := by
  have wellFormed : WellFormed (linkedPacket fixed headers protocol payload) :=
    WellFormed.append ⟨Nat.le_of_eq length.symm, version⟩ _
  have begins : start (linkedPacket fixed headers protocol payload) =
      (firstLinked headers protocol, encodeLinked headers protocol ++ payload) := by
    rw [start, linkedPacket, byteAt_append (by omega), first, ← length, List.drop_left]
  constructor
  · -- The drained items fix the walk, and it has passed each header at its length.
    rintro ⟨drained, _⟩
    obtain ⟨items, t, result, walk⟩ :=
      exists_walk (start (linkedPacket fixed headers protocol payload))
    have none : (linkedItems headers protocol).map Except.ok =
        yielded (linkedItems headers protocol) (Option.none : Option PacketError) :=
      (List.append_nil _).symm
    rw [headerItems_eq wellFormed.fixed walk, Except.ok.injEq, none] at drained
    obtain ⟨rfl, rfl⟩ := yielded_inj drained
    rw [begins] at walk
    exact ((passes_iff headers protocol payload t).mp walk.passes).1
  · intro agree
    have walk : Reads readHeader (start (linkedPacket fixed headers protocol payload))
        (linkedItems headers protocol) (protocol, payload) none := by
      rw [begins]
      exact ⟨(passes_iff headers protocol payload _).mpr ⟨agree, rfl⟩,
        readHeader_eq_stop_iff.mpr upper⟩
    refine ⟨?_, upperLayerProtocol_eq wellFormed.fixed walk⟩
    rw [headerItems_eq wellFormed.fixed walk]
    exact congrArg Except.ok (List.append_nil _)

/-- An Authentication Header between two others, of 8 bytes and of 24. -/
theorem readsBack_iff_chain :
    let hopByHop : LinkedHeader := .plain (.units .hopByHopOptions 0 [1, 4, 0, 0, 0, 0] rfl)
    let options : LinkedHeader := .plain (.units .destinationOptions 0 [1, 4, 0, 0, 0, 0] rfl)
    let short : LinkedHeader := .auth 0 [0, 0, 0, 0, 0, 1] rfl
    let long : LinkedHeader :=
      .auth 4 ([0, 0, 0, 0, 0, 1, 0, 0, 0, 1] ++ List.replicate 12 9) rfl
    ReadsBack (fixedHeader 26 0) [hopByHop, short, options] 17 [7, 7] ∧
      ¬ ReadsBack (fixedHeader 42 0) [hopByHop, long, options] 17 [7, 7] := by
  intro hopByHop options short long
  constructor
  · refine (readsBack_iff rfl (by decide) rfl (by decide) [7, 7]).mpr ?_
    simp [hopByHop, short, options, Agrees]
  · intro readsBack
    have agree := (readsBack_iff rfl (by decide) rfl (by decide) [7, 7]).mp readsBack
    exact absurd (agree long (by simp)) (show (4 : UInt8) ≠ 0 by decide)

/-- An Authentication Header with 12 bytes of authentication data, 24 bytes long,
before a UDP datagram: it is taken for 40 bytes, which are not there. -/
theorem authHeader_overrun :
    let auth : LinkedHeader :=
      .auth 4 ([0, 0, 0, 0, 0, 1, 0, 0, 0, 1] ++ List.replicate 12 9) rfl
    let datagram : Bytes := [0, 53, 0, 53, 0, 8, 0, 0]
    headerItems (linkedPacket (fixedHeader 32 51) [auth] 17 datagram) =
        .ok [.error (.tooShort 40 32)] ∧
      Ipv6Packet.upperLayerProtocol (linkedPacket (fixedHeader 32 51) [auth] 17 datagram) =
        .ok none ∧
      ¬ ReadsBack (fixedHeader 32 51) [auth] 17 datagram := by
  refine ⟨by decide, by decide, ?_⟩
  rintro ⟨_, protocol⟩
  exact absurd protocol (by decide)

end Packet.Ipv6

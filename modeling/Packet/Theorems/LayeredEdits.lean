/-
# Editing both layers of a packet

The header of an IPv4 packet and the transport segment in its payload are disjoint
parts of one buffer, and no setter moves the border between them. So setters of
either layer can be called in any order: what they leave is what the calls on each
layer, made on that part alone, leave of it.
-/

import Packet.Model.Stack
import Packet.Rust.Interleave
import Packet.Theorems.ChecksumRoundTrip
import Packet.Theorems.SetterRuns

namespace Packet.Ipv4

open Rust

/-! ## A header in front of other bytes -/

section Front

variable {header rest : Bytes} {view : PacketViewMut Ipv4}

theorem splice_append_left {xs ys values : Bytes} {offset : ℕ}
    (inside : offset + values.length ≤ xs.length) :
    splice (xs ++ ys) offset values = splice xs offset values ++ ys := by
  rw [splice, List.take_append_of_le_length (by omega), List.drop_append_of_le_length inside,
    ← List.append_assoc, splice]

/-- A header that is all there, on its own. -/
structure Alone (header : Bytes) : Prop where
  wellFormed : WellFormed header
  whole : headerLength header = header.length

theorem headerLength_append (alone : Alone header) (rest : Bytes) :
    headerLength (header ++ rest) = header.length := by
  have fixed := alone.wellFormed.fixed
  rw [headerLength, byteAt_append (by omega)]
  exact alone.whole

theorem Alone.append (alone : Alone header) (rest : Bytes) : WellFormed (header ++ rest) := by
  obtain ⟨fixed, version, words, _, total⟩ := alone.wellFormed
  have length := headerLength_append alone rest
  refine ⟨?_, ?_, ?_, ?_, ?_⟩
  · rw [List.length_append]
    omega
  · rwa [byteAt_append (by omega)]
  · rw [length]
    exact fixed
  · rw [length, List.length_append]
    omega
  · rw [length, wordAt_append (by omega), ← alone.whole]
    exact total

theorem headerTotal_append (alone : Alone header) (rest : Bytes) :
    headerTotal (header ++ rest) = headerTotal header := by
  rw [headerTotal, headerLength_append alone, List.take_left' rfl, headerTotal, alone.whole,
    List.take_length]

/-- Verification looks at the header only. -/
theorem accepts_newVerified_append (alone : Alone header) (rest : Bytes) :
    Accepts (newVerified (header ++ rest)) ↔ Accepts (newVerified header) := by
  have fixed := alone.wellFormed.fixed
  rw [accepts_newVerified_iff, accepts_newVerified_iff, headerTotal_append alone,
    wordAt_append (by omega)]
  exact and_congr_left' (iff_of_true (alone.append rest) alone.wellFormed)

/-- A view of a buffer that goes on with other bytes. -/
def withTail (view : PacketViewMut Ipv4) (rest : Bytes) : PacketViewMut Ipv4 :=
  ⟨view.bytes ++ rest⟩

/-- A setter does to a header in front of other bytes what it does to the header. -/
theorem apply_withTail (setter : Setter) (alone : Alone view.bytes) (rest : Bytes) :
    setter.apply (withTail view rest) = (setter.apply view).map (withTail · rest) := by
  have fixed := alone.wellFormed.fixed
  have long : view.bytes.length ≤ (withTail view rest).bytes.length := by simp [withTail]
  have assigned (i : ℕ) (value : UInt8) (inside : i < 20) :
      (withTail view rest).assign i value = (view.assign i value).map (withTail · rest) := by
    rw [PacketViewMut.assign_eq_ok (by omega), PacketViewMut.assign_eq_ok (by omega), Except.map,
      withTail, withTail, List.set_append_left _ _ (by omega)]
  have copied (lo hi : ℕ) (values : Bytes) (order : lo ≤ hi) (inside : hi ≤ 20)
      (width : values.length = hi - lo) :
      (withTail view rest).copyFromSlice lo hi values =
        (view.copyFromSlice lo hi values).map (withTail · rest) := by
    rw [PacketViewMut.copyFromSlice_eq_ok order (by omega) width,
      PacketViewMut.copyFromSlice_eq_ok order (by omega) width, Except.map, withTail, withTail,
      splice_append_left (by omega)]
  cases setter with
  | ttl value => exact assigned 8 value (by decide)
  | protocol value => exact assigned 9 value (by decide)
  | checksum value => exact copied 10 12 _ (by decide) (by decide) (by simp)
  | src value => exact copied 12 16 _ (by decide) (by decide) (by simp)
  | dst value => exact copied 16 20 _ (by decide) (by decide) (by simp)
  | computeAndSetChecksum =>
    -- The checksum is computed from the header, which is the same.
    have total : headerTotal (withTail view rest).bytes = headerTotal view.bytes :=
      headerTotal_append alone rest
    rw [Setter.apply, Setter.apply,
      computeAndSetChecksum_eq (withTail view rest) (alone.append rest),
      computeAndSetChecksum_eq view alone.wellFormed, total]
    exact copied 10 12 _ (by decide) (by decide) (by simp)

/-- The bytes in front of the TTL are in no field that has a setter. -/
theorem byteAt_of_setter {setter : Setter} {view view' : PacketViewMut Ipv4}
    (written : setter.apply view = .ok view') {i : ℕ} (front : i < 8) :
    byteAt view'.bytes i = byteAt view.bytes i := by
  refine PacketViewMut.byteAt_of_look (look_of_setter written ?_)
  rintro ⟨lower, _⟩
  exact absurd (Nat.le_trans setter.eight_le_extent lower) (by omega)

theorem alone_of_setter {setter : Setter} {view view' : PacketViewMut Ipv4}
    (alone : Alone view.bytes) (written : setter.apply view = .ok view') :
    Alone view'.bytes := by
  refine ⟨wellFormed_of_setter alone.wellFormed written, ?_⟩
  rw [headerLength, byteAt_of_setter written (by decide), Setter.apply_length written]
  exact alone.whole

end Front

/-! ## The two parts -/

/-- A header, and the segment its total length delimits in front of what follows. -/
structure Parts (trailing : Bytes) (parts : Bytes × Bytes) : Prop where
  alone : Alone parts.1
  ends : min (wordAt parts.1 2).toNat (parts.1 ++ parts.2 ++ trailing).length =
    (parts.1 ++ parts.2).length

/-- The buffer the parts make up. -/
def join {P : Type} (trailing : Bytes) (parts : PacketViewMut Ipv4 × PacketViewMut P) :
    PacketViewMut Ipv4 :=
  ⟨parts.1.bytes ++ parts.2.bytes ++ trailing⟩

section Join

variable {P S : Type} {applySegment : S → PacketViewMut P → Exec (PacketViewMut P)}
  {trailing : Bytes} {parts : PacketViewMut Ipv4 × PacketViewMut P}

theorem headerLength_join (holds : Parts trailing (parts.1.bytes, parts.2.bytes)) :
    headerLength (join trailing parts).bytes = parts.1.bytes.length := by
  rw [join, List.append_assoc]
  exact headerLength_append holds.alone _

theorem totalLen_join (holds : Parts trailing (parts.1.bytes, parts.2.bytes)) :
    wordAt (join trailing parts).bytes 2 = wordAt parts.1.bytes 2 := by
  have fixed : 20 ≤ parts.1.bytes.length := holds.alone.wellFormed.fixed
  rw [join, List.append_assoc, wordAt_append (by omega)]

theorem payloadOf_join (holds : Parts trailing (parts.1.bytes, parts.2.bytes)) :
    payloadOf (join trailing parts).bytes = parts.2.bytes := by
  have ends : min _ _ = _ := holds.ends
  rw [payloadOf, headerLength_join holds, totalLen_join holds, join, ends, List.take_left' rfl,
    List.drop_left' rfl]

/-- A setter of the segment's view writes to the segment's part of the buffer. -/
theorem editSegment_join (keeps : ∀ setter view view', applySegment setter view = .ok view' →
      view'.bytes.length = view.bytes.length)
    (holds : Parts trailing (parts.1.bytes, parts.2.bytes)) (setter : S) :
    editPacket applySegment (.inr setter) (join trailing parts) =
      (applySegment setter parts.2).map fun segment => join trailing (parts.1, segment) := by
  have fixed : 20 ≤ parts.1.bytes.length := holds.alone.wellFormed.fixed
  have ends : min (wordAt parts.1.bytes 2).toNat
      (parts.1.bytes ++ parts.2.bytes ++ trailing).length =
      (parts.1.bytes ++ parts.2.bytes).length := holds.ends
  have whole : (join trailing parts).bytes = parts.1.bytes ++ parts.2.bytes ++ trailing := rfl
  have long : (parts.1.bytes ++ parts.2.bytes).length ≤ (join trailing parts).bytes.length := by
    simp only [whole, List.length_append]
    exact Nat.le_add_right _ _
  have order : parts.1.bytes.length ≤ (parts.1.bytes ++ parts.2.bytes).length := by
    rw [List.length_append]
    exact Nat.le_add_right _ _
  have slice : range (join trailing parts).bytes parts.1.bytes.length
      (parts.1.bytes ++ parts.2.bytes).length = .ok parts.2.bytes := by
    rw [range_eq_ok order long, whole, List.take_left' rfl, List.drop_left' rfl]
  have total : Ipv4Packet.totalLen (join trailing parts).bytes = .ok (wordAt parts.1.bytes 2) := by
    rw [← totalLen_join holds]
    exact readU16_eq_ok (by omega)
  rw [editPacket, packet_headerLen_eq_ok (by omega), ok_bind, headerLength_join holds, total,
    ok_bind, whole, ends, ← whole]
  dsimp only
  rw [slice, ok_bind]
  cases applied : applySegment setter ⟨parts.2.bytes⟩ with
  | error fault => rfl
  | ok segment =>
    have size : segment.bytes.length = parts.2.bytes.length := keeps _ _ _ applied
    have width : segment.bytes.length =
        (parts.1.bytes ++ parts.2.bytes).length - parts.1.bytes.length := by
      rw [size, List.length_append]
      omega
    rw [ok_bind, PacketViewMut.copyFromSlice_eq_ok order long width, whole,
      splice_append size.symm]
    rfl

/-- One edit of the packet is one edit of one of its parts. -/
theorem editPacket_join (keeps : ∀ setter view view', applySegment setter view = .ok view' →
      view'.bytes.length = view.bytes.length)
    (holds : Parts trailing (parts.1.bytes, parts.2.bytes)) (edit : Setter ⊕ S) :
    editPacket applySegment edit (join trailing parts) =
      (onEither Setter.apply applySegment edit parts).map (join trailing) := by
  obtain ⟨header, segment⟩ := parts
  cases edit with
  | inl setter =>
    have applied := apply_withTail setter holds.alone (segment.bytes ++ trailing)
    rw [editPacket, onEither, join, List.append_assoc]
    refine applied.trans ?_
    cases setter.apply header with
    | error fault => rfl
    | ok header' =>
      simp only [Except.map, ok_bind, pure_eq_ok, join, withTail, List.append_assoc]
  | inr setter =>
    rw [editSegment_join keeps holds, onEither]
    cases applySegment setter segment <;> rfl

/-- No edit moves the border between the parts. -/
theorem parts_of_edit (keeps : ∀ setter view view', applySegment setter view = .ok view' →
      view'.bytes.length = view.bytes.length)
    {edit : Setter ⊕ S} {parts' : PacketViewMut Ipv4 × PacketViewMut P}
    (edited : onEither Setter.apply applySegment edit parts = .ok parts')
    (holds : Parts trailing (parts.1.bytes, parts.2.bytes)) :
    Parts trailing (parts'.1.bytes, parts'.2.bytes) := by
  obtain ⟨alone, ends⟩ := holds
  cases edit with
  | inl setter =>
    obtain ⟨header, written, same⟩ := bind_eq_ok.mp edited
    obtain rfl := Except.ok.inj same
    have total : wordAt header.bytes 2 = wordAt parts.1.bytes 2 := by
      rw [wordAt, byteAt_of_setter written (by decide), byteAt_of_setter written (by decide),
        wordAt]
    have size : header.bytes.length = parts.1.bytes.length := Setter.apply_length written
    refine ⟨alone_of_setter alone written, ?_⟩
    simpa only [total, size, List.length_append] using ends
  | inr setter =>
    obtain ⟨segment, written, same⟩ := bind_eq_ok.mp edited
    obtain rfl := Except.ok.inj same
    have size : segment.bytes.length = parts.2.bytes.length := keeps _ _ _ written
    refine ⟨alone, ?_⟩
    simpa only [size, List.length_append] using ends

end Join

/-! ## Every interleaving -/

/-- The header of a packet. -/
def headerPart (packet : Bytes) : Bytes := packet.take (headerLength packet)

/-- What follows the bytes that the total length delimits. -/
def trailingPart (packet : Bytes) : Bytes :=
  packet.drop (min (wordAt packet 2).toNat packet.length)

section Split

variable {packet : Bytes}

/-- A packet is its parts. -/
theorem parts_append (wellFormed : WellFormed packet) :
    headerPart packet ++ payloadOf packet ++ trailingPart packet = packet := by
  have header := wellFormed.header
  have total := wellFormed.total
  have order : headerLength packet ≤ min (wordAt packet 2).toNat packet.length := by omega
  have front : headerPart packet =
      (packet.take (min (wordAt packet 2).toNat packet.length)).take (headerLength packet) := by
    rw [headerPart, List.take_take, Nat.min_eq_left order]
  rw [front, payloadOf, List.take_append_drop, trailingPart, List.take_append_drop]

theorem headerPart_length (wellFormed : WellFormed packet) :
    (headerPart packet).length = headerLength packet := by
  rw [headerPart, List.length_take, Nat.min_eq_left wellFormed.header]

theorem alone_headerPart (wellFormed : WellFormed packet) : Alone (headerPart packet) := by
  have words := wellFormed.words
  have size := headerPart_length wellFormed
  have first : byteAt (headerPart packet) 0 = byteAt packet 0 := byteAt_take (by omega)
  have length : headerLength (headerPart packet) = headerLength packet := by
    rw [headerLength, first, headerLength]
  refine ⟨⟨?_, ?_, ?_, ?_, ?_⟩, ?_⟩
  · rw [size]
    exact words
  · rw [first]
    exact wellFormed.version
  · rw [length]
    exact words
  · rw [length, size]
  · rw [length, headerPart, wordAt_take (by omega)]
    exact wellFormed.total
  · rw [length, size]

theorem parts_self (wellFormed : WellFormed packet) :
    Parts (trailingPart packet) (headerPart packet, payloadOf packet) := by
  have words := wellFormed.words
  have header := wellFormed.header
  have total := wellFormed.total
  have same : wordAt (headerPart packet) 2 = wordAt packet 2 := wordAt_take (by omega)
  refine ⟨alone_headerPart wellFormed, ?_⟩
  dsimp only
  rw [same, parts_append wellFormed, List.length_append, headerPart_length wellFormed, payloadOf,
    List.length_drop, List.length_take]
  omega

end Split

/-- Runs of setters of both layers come apart: a run of them on the packet returns
exactly when the setters of each layer, run on its part, do, and what it leaves is what
they leave. The packet stays accepted, and the order across the layers is immaterial. -/
structure EditsApart {P S : Type} (applySegment : S → PacketViewMut P → Exec (PacketViewMut P)) :
    Prop where
  splits : ∀ packet edits (out : PacketViewMut Ipv4), validate packet = .ok (.ok ()) →
    (runOps (editPacket applySegment) edits ⟨packet⟩ = .ok out ↔
      ∃ (header : PacketViewMut Ipv4) (segment : PacketViewMut P),
        runOps Setter.apply (lefts edits) ⟨headerPart packet⟩ = .ok header ∧
        runOps applySegment (rights edits) ⟨payloadOf packet⟩ = .ok segment ∧
        out.bytes = header.bytes ++ segment.bytes ++ trailingPart packet)
  accepted : ∀ packet edits (out : PacketViewMut Ipv4), validate packet = .ok (.ok ()) →
    runOps (editPacket applySegment) edits ⟨packet⟩ = .ok out →
    validate out.bytes = .ok (.ok ()) ∧ headerLength out.bytes = headerLength packet ∧
      (payloadOf out.bytes).length = (payloadOf packet).length ∧
      trailingPart out.bytes = trailingPart packet
  order : ∀ packet edits edits' (out : PacketViewMut Ipv4), validate packet = .ok (.ok ()) →
    lefts edits = lefts edits' → rights edits = rights edits' →
    (runOps (editPacket applySegment) edits ⟨packet⟩ = .ok out ↔
      runOps (editPacket applySegment) edits' ⟨packet⟩ = .ok out)

section Runs

variable {P S : Type} {applySegment : S → PacketViewMut P → Exec (PacketViewMut P)}
  {trailing : Bytes} {parts parts' : PacketViewMut Ipv4 × PacketViewMut P}

/-- A run of edits of the packet is a run of edits of its parts. -/
theorem runOps_join (keeps : ∀ setter view view', applySegment setter view = .ok view' →
      view'.bytes.length = view.bytes.length)
    (holds : Parts trailing (parts.1.bytes, parts.2.bytes)) (edits : List (Setter ⊕ S)) :
    runOps (editPacket applySegment) edits (join trailing parts) =
      (runOps (onEither Setter.apply applySegment) edits parts).map (join trailing) :=
  runOps_image (join trailing)
    (fun parts : PacketViewMut Ipv4 × PacketViewMut P =>
      Parts trailing (parts.1.bytes, parts.2.bytes))
    (fun edit _ holds => editPacket_join keeps holds edit)
    (fun _ _ _ edited holds => parts_of_edit keeps edited holds) edits holds

theorem parts_of_run (keeps : ∀ setter view view', applySegment setter view = .ok view' →
      view'.bytes.length = view.bytes.length) {edits : List (Setter ⊕ S)}
    (run : runOps (onEither Setter.apply applySegment) edits parts = .ok parts')
    (holds : Parts trailing (parts.1.bytes, parts.2.bytes)) :
    Parts trailing (parts'.1.bytes, parts'.2.bytes) :=
  runOps_preserves
    (fun parts : PacketViewMut Ipv4 × PacketViewMut P =>
      Parts trailing (parts.1.bytes, parts.2.bytes))
    (fun _ _ _ edited holds => parts_of_edit keeps edited holds) edits run holds

/-- What a run leaves of a packet, as the parts it leaves. -/
theorem runOps_editPacket_iff (keeps : ∀ setter view view', applySegment setter view = .ok view' →
      view'.bytes.length = view.bytes.length) {packet : Bytes} (wellFormed : WellFormed packet)
    (edits : List (Setter ⊕ S)) (out : PacketViewMut Ipv4) :
    runOps (editPacket applySegment) edits ⟨packet⟩ = .ok out ↔
      ∃ parts' : PacketViewMut Ipv4 × PacketViewMut P,
        runOps (onEither Setter.apply applySegment) edits
          (⟨headerPart packet⟩, ⟨payloadOf packet⟩) = .ok parts' ∧
        join (trailingPart packet) parts' = out := by
  have whole : (⟨packet⟩ : PacketViewMut Ipv4) =
      join (trailingPart packet) (⟨headerPart packet⟩, (⟨payloadOf packet⟩ : PacketViewMut P)) := by
    rw [join, parts_append wellFormed]
  rw [whole, runOps_join keeps (parts_self wellFormed)]
  cases runOps (onEither Setter.apply applySegment) edits _ with
  | error fault => simp [Except.map]
  | ok parts' => simp [Except.map]

theorem editsApart_of_keeps (keeps : ∀ setter view view', applySegment setter view = .ok view' →
      view'.bytes.length = view.bytes.length) : EditsApart applySegment where
  splits := by
    intro packet edits out valid
    rw [runOps_editPacket_iff keeps (validate_eq_ok_iff.mp valid)]
    constructor
    · rintro ⟨⟨header, segment⟩, run, rfl⟩
      obtain ⟨first, second⟩ := runOps_onEither_iff.mp run
      exact ⟨header, segment, first, second, rfl⟩
    · rintro ⟨header, segment, first, second, same⟩
      refine ⟨(header, segment), runOps_onEither_iff.mpr ⟨first, second⟩, ?_⟩
      rw [join, ← same]
  accepted := by
    intro packet edits out valid run
    have wellFormed := validate_eq_ok_iff.mp valid
    obtain ⟨⟨header, segment⟩, edited, rfl⟩ :=
      (runOps_editPacket_iff keeps wellFormed edits out).mp run
    have holds := parts_of_run keeps edited (parts_self wellFormed)
    obtain ⟨first, second⟩ := runOps_onEither_iff.mp edited
    have size := length_of_runOps (fun _ _ _ => Setter.apply_length) first
    have ends : min (wordAt header.bytes 2).toNat
        (header.bytes ++ segment.bytes ++ trailingPart packet).length =
        (header.bytes ++ segment.bytes).length := holds.ends
    refine ⟨validate_eq_ok_iff.mpr ?_, ?_, ?_, ?_⟩
    · rw [join, List.append_assoc]
      exact holds.alone.append _
    · rw [headerLength_join holds, size, headerPart_length wellFormed]
    · rw [payloadOf_join holds, length_of_runOps keeps second]
    · rw [trailingPart, totalLen_join holds, join, ends, List.drop_left' rfl]
  order := by
    intro packet edits edits' out valid left right
    simp only [runOps_editPacket_iff keeps (validate_eq_ok_iff.mp valid), Prod.exists,
      runOps_onEither_iff, left, right]

/-- Setters of the IPv4 header and of the TCP or UDP header inside it, in any order. -/
theorem edits_apart : EditsApart Tcp.Setter.apply ∧ EditsApart Udp.Setter.apply :=
  ⟨editsApart_of_keeps fun _ _ _ => Tcp.Setter.apply_length,
    editsApart_of_keeps fun _ _ _ => Udp.Setter.apply_length⟩

theorem validate_captured : validate ParseIpv4Tcp.captured = .ok (.ok ()) := by decide

/-- An edit of either layer of the captured packet. -/
theorem edited_captured :
    runOps (editPacket Tcp.Setter.apply) [.inl (.ttl 63), .inr (.srcPort 80)]
        ⟨ParseIpv4Tcp.captured⟩ =
      .ok ⟨((ParseIpv4Tcp.captured.set 8 63).set 20 0).set 21 80⟩ := rfl

/-- The TTL of a captured packet and the source port of its segment, in either order. -/
theorem edits_apart_captured :
    ∃ (out header : PacketViewMut Ipv4) (segment : PacketViewMut Tcp),
      runOps (editPacket Tcp.Setter.apply) [.inl (.ttl 63), .inr (.srcPort 80)]
        ⟨ParseIpv4Tcp.captured⟩ = .ok out ∧
      runOps (editPacket Tcp.Setter.apply) [.inr (.srcPort 80), .inl (.ttl 63)]
        ⟨ParseIpv4Tcp.captured⟩ = .ok out ∧
      Setter.apply (.ttl 63) ⟨headerPart ParseIpv4Tcp.captured⟩ = .ok header ∧
      Tcp.Setter.apply (.srcPort 80) ⟨payloadOf ParseIpv4Tcp.captured⟩ = .ok segment ∧
      out.bytes = header.bytes ++ segment.bytes ++ trailingPart ParseIpv4Tcp.captured ∧
      validate out.bytes = .ok (.ok ()) := by
  obtain ⟨header, segment, first, second, parts⟩ :=
    (edits_apart.1.splits _ _ _ validate_captured).mp edited_captured
  have backwards := (edits_apart.1.order _ _ _ _ validate_captured rfl rfl).mp edited_captured
  exact ⟨_, header, segment, edited_captured, backwards, first, second, parts,
    (edits_apart.1.accepted _ _ _ validate_captured edited_captured).1⟩

end Runs

/-! ## Storing both checksums -/

section Seal

variable {P S : Type} [PacketSpec P]
  {applySegment : S → PacketViewMut P → Exec (PacketViewMut P)}
  {transport : Bytes → Ipv4Addr → Ipv4Addr → Exec (Result (PacketView P))} {offset : ℕ}

/-- A packet whose two checksums have been stored: both layers verify, and no byte
outside the two fields has changed. -/
structure Sealed (transport : Bytes → Ipv4Addr → Ipv4Addr → Exec (Result (PacketView P)))
    (offset : ℕ) (packet out : Bytes) : Prop where
  accepted : Accepts (verifyOver newVerified enclosed transport out)
  length : out.length = packet.length
  outside : ∀ i, i < 10 ∨ 12 ≤ i →
    i < headerLength packet + offset ∨ headerLength packet + offset + 2 ≤ i → out[i]? = packet[i]?

/-- After any edits that leave the segment accepted, the checksum of the segment is
computed with the addresses the header then has, and that of the header: in either
order the two calls seal the packet. -/
def Seals (applySegment : S → PacketViewMut P → Exec (PacketViewMut P))
    (computeAndSet : Ipv4Addr → Ipv4Addr → S)
    (transport : Bytes → Ipv4Addr → Ipv4Addr → Exec (Result (PacketView P))) (offset : ℕ) : Prop :=
  ∀ (packet : Bytes) (edits : List (Setter ⊕ S)) (view : PacketViewMut Ipv4) (src dst : Ipv4Addr),
    validate packet = .ok (.ok ()) →
    runOps (editPacket applySegment) edits ⟨packet⟩ = .ok view →
    PacketSpec.validate P (payloadOf view.bytes) = .ok (.ok ()) →
    Ipv4Packet.src view.bytes = .ok src → Ipv4Packet.dst view.bytes = .ok dst →
    ∃ out : PacketViewMut Ipv4,
      runOps (editPacket applySegment)
        [.inr (computeAndSet src dst), .inl .computeAndSetChecksum] view = .ok out ∧
      runOps (editPacket applySegment)
        [.inl .computeAndSetChecksum, .inr (computeAndSet src dst)] view = .ok out ∧
      Sealed transport offset view.bytes out.bytes

/-- Positions outside a field of the header and a field of the segment behind it. -/
theorem getElem?_append_outside {header header' segment segment' rest : Bytes} {lo hi lo' hi' : ℕ}
    (size : header'.length = header.length) (size' : segment'.length = segment.length)
    (kept : ∀ i, i < lo ∨ hi ≤ i → header'[i]? = header[i]?)
    (kept' : ∀ i, i < lo' ∨ hi' ≤ i → segment'[i]? = segment[i]?) {i : ℕ}
    (outside : i < lo ∨ hi ≤ i) (outside' : i < header.length + lo' ∨ header.length + hi' ≤ i) :
    (header' ++ segment' ++ rest)[i]? = (header ++ segment ++ rest)[i]? := by
  rw [List.append_assoc, List.append_assoc]
  by_cases front : i < header.length
  · rw [List.getElem?_append_left (by omega), List.getElem?_append_left front, kept i outside]
  · have behind : header.length ≤ i := Nat.le_of_not_lt front
    rw [List.getElem?_append_right (size.le.trans behind), List.getElem?_append_right behind, size]
    by_cases inside : i - header.length < segment.length
    · rw [List.getElem?_append_left (by omega), List.getElem?_append_left inside,
        kept' _ (by omega)]
    · have behind' : segment.length ≤ i - header.length := Nat.le_of_not_lt inside
      rw [List.getElem?_append_right (size'.le.trans behind'),
        List.getElem?_append_right behind', size']

/-- An address that lies outside the changes reads as it did. -/
theorem addressAt_congr {n position : ℕ} {bytes bytes' : Bytes}
    (same : ∀ i, position ≤ i → i < position + n → bytes'[i]? = bytes[i]?) :
    addressAt n bytes' position = addressAt n bytes position := by
  ext k inside
  simp only [addressAt, Vector.getElem_ofFn, byteAt, List.getD_eq_getElem?_getD,
    same (position + k) (by omega) (by omega)]

/-- Sealing one accepted packet. -/
theorem sealed_of_stored (keeps : ∀ setter view view', applySegment setter view = .ok view' →
      view'.bytes.length = view.bytes.length) {packet : Bytes} (wellFormed : WellFormed packet)
    {setter : S} {segment : PacketViewMut P}
    (stored : Stored (applySegment setter)
      (fun bytes => transport bytes (addressAt 4 packet 12) (addressAt 4 packet 16)) offset
      ⟨payloadOf packet⟩ segment) :
    ∃ out : PacketViewMut Ipv4,
      runOps (editPacket applySegment) [.inr setter, .inl .computeAndSetChecksum] ⟨packet⟩ =
        .ok out ∧
      runOps (editPacket applySegment) [.inl .computeAndSetChecksum, .inr setter] ⟨packet⟩ =
        .ok out ∧
      Sealed transport offset packet out.bytes := by
  have alone := alone_headerPart wellFormed
  have valid : PacketSpec.validate Ipv4 (headerPart packet) = .ok (.ok ()) :=
    validate_eq_ok_iff.mpr alone.wellFormed
  have size := headerPart_length wellFormed
  have words := wellFormed.words
  have short : (headerPart packet).length ≤ 65535 := by
    have nibble := (byteAt packet 0 &&& 0x0f).toNat_lt
    rw [size, headerLength]
    omega
  obtain ⟨header, storedHeader⟩ := storesVerified (headerPart packet) ⟨headerPart packet⟩ _ [] short
    (PacketViewMut.new_eq_ok_iff.mpr ⟨valid, rfl⟩) rfl valid
  have left : runOps Setter.apply [.computeAndSetChecksum] ⟨headerPart packet⟩ = .ok header := by
    rw [runOps, Setter.apply, storedHeader.returns]
    rfl
  have right : runOps applySegment [setter] ⟨payloadOf packet⟩ = .ok segment := by
    rw [runOps, stored.returns]
    rfl
  -- The calls are on different parts, so their order does not matter.
  have run (edits : List (Setter ⊕ S)) (lefts : lefts edits = [.computeAndSetChecksum])
      (rights : rights edits = [setter]) :
      runOps (onEither Setter.apply applySegment) edits
        (⟨headerPart packet⟩, ⟨payloadOf packet⟩) = .ok (header, segment) :=
    runOps_onEither_iff.mpr ⟨lefts ▸ left, rights ▸ right⟩
  have holds : Parts (trailingPart packet) (header.bytes, segment.bytes) :=
    parts_of_run keeps (run [.inl .computeAndSetChecksum, .inr setter] rfl rfl)
      (parts_self wellFormed)
  have outside (i : ℕ) (apart : i < 10 ∨ 12 ≤ i)
      (apart' : i < headerLength packet + offset ∨ headerLength packet + offset + 2 ≤ i) :
      (header.bytes ++ segment.bytes ++ trailingPart packet)[i]? = packet[i]? := by
    rw [← size, Nat.add_assoc _ offset 2] at apart'
    refine (getElem?_append_outside storedHeader.length stored.length storedHeader.outside
      stored.outside apart apart').trans ?_
    rw [parts_append wellFormed]
  refine ⟨join (trailingPart packet) (header, segment),
    (runOps_editPacket_iff keeps wellFormed _ _).mpr ⟨_, run _ rfl rfl, rfl⟩,
    (runOps_editPacket_iff keeps wellFormed _ _).mpr ⟨_, run _ rfl rfl, rfl⟩, ?_, ?_, outside⟩
  · -- The addresses are those the segment's checksum was computed with.
    have src : addressAt 4 (join (trailingPart packet) (header, segment)).bytes 12 =
        addressAt 4 packet 12 :=
      addressAt_congr fun i _ _ => outside i (by omega) (by omega)
    have dst : addressAt 4 (join (trailingPart packet) (header, segment)).bytes 16 =
        addressAt 4 packet 16 :=
      addressAt_congr fun i _ _ => outside i (by omega) (by omega)
    refine (networkLayer.accepts_iff _).mpr ⟨?_, ?_⟩
    · rw [join, List.append_assoc, accepts_newVerified_append holds.alone]
      exact storedHeader.accepted
    · rw [inside, src, dst, payloadOf_join holds]
      exact stored.accepted
  · have whole : (join (trailingPart packet) (header, segment)).bytes =
        header.bytes ++ segment.bytes ++ trailingPart packet := rfl
    rw [whole, List.length_append, List.length_append, storedHeader.length, stored.length,
      ← List.length_append, ← List.length_append, parts_append wellFormed]

theorem seals_of_storesVerified (keeps : ∀ setter view view',
      applySegment setter view = .ok view' → view'.bytes.length = view.bytes.length)
    {computeAndSet : Ipv4Addr → Ipv4Addr → S}
    (stores : ∀ src dst, StoresVerified applySegment (applySegment (computeAndSet src dst))
      (fun bytes => transport bytes src dst) offset) :
    Seals applySegment computeAndSet transport offset := by
  intro packet edits view src dst valid run segment readSrc readDst
  have accepted := ((editsApart_of_keeps keeps).accepted packet edits view valid run).1
  have wellFormed : WellFormed view.bytes := validate_eq_ok_iff.mp accepted
  rw [src_eq_ok wellFormed.fixed, Except.ok.injEq] at readSrc
  rw [dst_eq_ok wellFormed.fixed, Except.ok.injEq] at readDst
  subst readSrc readDst
  obtain ⟨stored, holds⟩ := stores _ _ (payloadOf view.bytes) ⟨payloadOf view.bytes⟩ _ []
    (payloadOf_length_le _) (PacketViewMut.new_eq_ok_iff.mpr ⟨segment, rfl⟩) rfl segment
  exact sealed_of_stored keeps wellFormed holds

/-- Both transports over IPv4. -/
theorem edits_seal :
    Seals Tcp.Setter.apply Tcp.Setter.computeAndSetChecksumIpv4 Tcp.newVerifiedIpv4 16 ∧
    Seals Udp.Setter.apply Udp.Setter.computeAndSetChecksumIpv4 Udp.newVerifiedIpv4 6 :=
  ⟨seals_of_storesVerified (fun _ _ _ => Tcp.Setter.apply_length) Tcp.storesVerifiedIpv4,
    seals_of_storesVerified (fun _ _ _ => Udp.Setter.apply_length) Udp.storesVerifiedIpv4⟩

/-- A captured packet whose TTL and source port are set, and then both checksums. -/
theorem edits_seal_captured :
    ∃ view out : PacketViewMut Ipv4,
      runOps (editPacket Tcp.Setter.apply) [.inl (.ttl 63), .inr (.srcPort 80)]
        ⟨ParseIpv4Tcp.captured⟩ = .ok view ∧
      runOps (editPacket Tcp.Setter.apply)
        [.inl .computeAndSetChecksum, .inr (.computeAndSetChecksumIpv4
          (addressAt 4 ParseIpv4Tcp.captured 12) (addressAt 4 ParseIpv4Tcp.captured 16))]
        view = .ok out ∧
      Accepts (verifyTcp out.bytes) := by
  obtain ⟨out, _, stored, sealed⟩ := edits_seal.1 _ _ _ (addressAt 4 ParseIpv4Tcp.captured 12)
    (addressAt 4 ParseIpv4Tcp.captured 16) validate_captured edited_captured (by decide)
    (by decide) (by decide)
  exact ⟨_, out, edited_captured, stored, sealed.accepted⟩

end Seal

end Packet.Ipv4

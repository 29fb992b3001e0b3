/-
# How far the walk over the extension headers reaches

`payload()` stops at the payload-length field; the walk starts from the bytes
after the fixed header and stops only at the end of the slice. Bytes after the
packet are invisible to it exactly when the chain is complete before them.
-/

import Packet.Model.Chain
import Packet.Model.Ipv6

namespace Packet.Ipv6

open Rust NextHeaders

/-- Two slices with the same items, protocol, Fragment header and verdicts. -/
def SameWalk (bytes bytes' : Bytes) : Prop :=
  headerItems bytes' = headerItems bytes ∧
  Ipv6Packet.upperLayerProtocol bytes' = Ipv6Packet.upperLayerProtocol bytes ∧
  Ipv6Packet.fragmentHeader bytes' = Ipv6Packet.fragmentHeader bytes ∧
  verdict (newChecked bytes') = verdict (newChecked bytes) ∧
  verdict (newCheckedDefrag bytes') = verdict (newCheckedDefrag bytes)

section Same

variable {bytes bytes' : Bytes} {s t t' : UInt8 × Bytes} {items : List NextHeader}
  {result : Option PacketError}

/-- Walks over the same headers to the same next-header byte and result return
the same everywhere. -/
theorem sameWalk_of_reads (wellFormed : WellFormed bytes) (wellFormed' : WellFormed bytes')
    (walk : Reads readHeader (start bytes) items t result)
    (walk' : Reads readHeader (start bytes') items t' result) (same : t'.1 = t.1) :
    SameWalk bytes bytes' := by
  refine ⟨?_, ?_, ?_, ?_, ?_⟩
  · rw [headerItems_eq wellFormed.fixed walk, headerItems_eq wellFormed'.fixed walk']
  · rw [upperLayerProtocol_eq wellFormed.fixed walk, upperLayerProtocol_eq wellFormed'.fixed walk',
      same]
  · rw [fragmentHeader_eq wellFormed.fixed walk, fragmentHeader_eq wellFormed'.fixed walk']
  · rw [newChecked_eq wellFormed walk, newChecked_eq wellFormed' walk']
    cases result <;> rfl
  · rw [newCheckedDefrag_eq wellFormed walk, newCheckedDefrag_eq wellFormed' walk']
    cases result with
    | some error => rfl
    | none =>
      simp only [Option.elim]
      split <;> rfl

/-- Where a chain breaks off, any further byte changes what is reported. -/
theorem readHeader_append_ne_fail {error : PacketError} (fails : readHeader s = .fail error)
    {trailing : Bytes} (more : trailing ≠ []) :
    readHeader (s.1, s.2 ++ trailing) ≠ .fail error := by
  intro fails'
  have longer : s.2.length < (s.2 ++ trailing).length := by
    have := List.length_pos_iff.mpr more
    rw [List.length_append]
    omega
  obtain ⟨_, reported⟩ := readHeader_eq_fail_iff.mp fails
  obtain ⟨_, reported'⟩ := readHeader_eq_fail_iff.mp fails'
  -- The report carries the number of bytes left.
  have actual : ∃ needed, error = .tooShort needed s.2.length := by
    rcases reported with ⟨_, report⟩ | ⟨_, _, report⟩ <;> exact ⟨_, report⟩
  have actual' : ∃ needed, error = .tooShort needed (s.2 ++ trailing).length := by
    rcases reported' with ⟨_, report⟩ | ⟨_, _, report⟩ <;> exact ⟨_, report⟩
  obtain ⟨needed, rfl⟩ := actual
  obtain ⟨needed', same⟩ := actual'
  injection same with _ lengths
  omega

/-- A chain that breaks off in the packet yields other items with bytes after it. -/
theorem headerItems_append_ne_of_fail {packet trailing : Bytes} {error : PacketError}
    (wellFormed : WellFormed packet) (walk : Reads readHeader (start packet) items t (some error))
    (more : trailing ≠ []) : headerItems (packet ++ trailing) ≠ headerItems packet := by
  intro sameItems
  have wellFormed' : WellFormed (packet ++ trailing) := wellFormed.append trailing
  -- The headers of the packet are passed again; after them the same error is due.
  obtain ⟨items', t', result', walk'⟩ := exists_walk (t.1, t.2 ++ trailing)
  have again : Reads readHeader (start (packet ++ trailing)) (items ++ items') t' result' := by
    rw [start_append wellFormed.fixed]
    exact .after (passes_append walk.passes trailing) walk'
  rw [headerItems_eq wellFormed'.fixed again, headerItems_eq wellFormed.fixed walk,
    Except.ok.injEq] at sameItems
  obtain ⟨none, rfl⟩ := yielded_inj sameItems
  obtain rfl : items' = [] := List.append_right_eq_self.mp none
  cases walk'.passes
  exact readHeader_append_ne_fail walk.ends more walk'.ends

/-- A complete chain is walked to the same end, with more bytes left there. -/
theorem sameWalk_append_of_complete {packet : Bytes} (wellFormed : WellFormed packet)
    (complete : CompleteChain (byteAt packet 6) (packet.drop 40)) (trailing : Bytes) :
    SameWalk packet (packet ++ trailing) := by
  obtain ⟨items, t, walk⟩ := complete.exists_reads
  have walk' : Reads readHeader (start (packet ++ trailing)) items (t.1, t.2 ++ trailing)
      none := by
    rw [start_append wellFormed.fixed]
    exact reads_append walk trailing
  exact sameWalk_of_reads wellFormed (wellFormed.append trailing) walk walk' rfl

end Same

/-- Trailing bytes are invisible to the walk exactly when there are none or the
chain is complete before them, whatever the payload-length field says. -/
theorem sameWalk_append_iff {packet trailing : Bytes}
    (accepted : Accepts (PacketView.new Ipv6 packet)) :
    SameWalk packet (packet ++ trailing) ↔
      trailing = [] ∨ CompleteChain (byteAt packet 6) (packet.drop 40) := by
  have wellFormed : WellFormed packet := validate_eq_ok_iff.mp (accepts_new_iff.mp accepted)
  constructor
  · rintro ⟨sameItems, _⟩
    obtain ⟨items, t, result, walk⟩ := exists_walk (start packet)
    cases result with
    | none => exact .inr (completeChain_of_passes walk.passes walk.ends)
    | some error =>
      by_contra contrary
      obtain ⟨more, _⟩ := not_or.mp contrary
      exact headerItems_append_ne_of_fail wellFormed walk more sameItems
  · rintro (rfl | complete)
    · rw [List.append_nil]
      exact ⟨rfl, rfl, rfl, rfl, rfl⟩
    · exact sameWalk_append_of_complete wellFormed complete trailing

/-- Padding after a packet that carries UDP. -/
theorem sameWalk_append_udp :
    SameWalk (fixedHeader 0 17) (fixedHeader 0 17 ++ [1, 2, 3]) ↔
      ([1, 2, 3] : Bytes) = [] ∨
        CompleteChain (byteAt (fixedHeader 0 17) 6) ((fixedHeader 0 17).drop 40) :=
  sameWalk_append_iff (by decide)

/-- A packet whose payload is empty by its length field and by its length, but
which announces a Hop-by-Hop header: the padding is read as that header. -/
theorem padding_read_as_header :
    Accepts (PacketView.new Ipv6 (fixedHeader 0 0)) ∧
    Ipv6Packet.payloadLen (fixedHeader 0 0) = .ok 0 ∧
    (fixedHeader 0 0).length = 40 + (0 : UInt16).toNat ∧
    Ipv6Packet.upperLayerProtocol (fixedHeader 0 0) = .ok none ∧
    Ipv6Packet.upperLayerProtocol (fixedHeader 0 0 ++ [17, 0, 0, 0, 0, 0, 0, 0]) =
      .ok (some 17) ∧
    ¬ SameWalk (fixedHeader 0 0) (fixedHeader 0 0 ++ [17, 0, 0, 0, 0, 0, 0, 0]) := by
  refine ⟨by decide, by decide, rfl, by decide, by decide, ?_⟩
  rintro ⟨_, upper, _⟩
  exact absurd upper (by decide)

end Packet.Ipv6

/-
# Extension headers put in front and taken off

The walk over the extension headers is compositional: behind any header it is the walk
that starts there. A chain of the headers that can be encoded, put in front of a packet,
is read before whatever the packet was read as, broken chains included, and taking headers
of any kind off the front leaves the rest. The setters reach the walk through the next
header alone.
-/

import Packet.Theorems.HeaderChains
import Packet.Theorems.RecordEdits
import Packet.Theorems.WalkExtent

namespace Packet.Ipv6

open Rust NextHeaders
open NextHeaderType (ofByte)

/-- A slice is read as some headers, and then as another slice is. -/
structure ReadsBehind (before : List NextHeader) (whole behind : Bytes) : Prop where
  items : ∃ items, headerItems behind = .ok items ∧
    headerItems whole = .ok (before.map .ok ++ items)
  protocol : Ipv6Packet.upperLayerProtocol whole = Ipv6Packet.upperLayerProtocol behind
  fragment : ∃ found, Ipv6Packet.fragmentHeader behind = .ok found ∧
    Ipv6Packet.fragmentHeader whole = .ok ((before.findSome? fragment?).or found)
  checked : verdict (newChecked whole) = verdict (newChecked behind)
  defrag : Accepts (newCheckedDefrag whole) ↔
    Accepts (newCheckedDefrag behind) ∧ before.findSome? fragment? = none

section Behind

variable {whole behind : Bytes} {before : List NextHeader} {t : UInt8 × Bytes}

/-- The defragmenting constructor accepts chains without an error and a Fragment header. -/
theorem accepts_newCheckedDefrag_iff_reads {bytes : Bytes} {items : List NextHeader}
    {result : Option PacketError} (wellFormed : WellFormed bytes)
    (walk : Reads readHeader (start bytes) items t result) :
    Accepts (newCheckedDefrag bytes) ↔ result = none ∧ items.findSome? fragment? = none := by
  rw [newCheckedDefrag_eq wellFormed walk]
  cases result with
  | some error => simp
  | none =>
    cases found : items.findSome? fragment? with
    | none => simp
    | some frag => simp

/-- Where the walk has come to is where the walk of the other slice starts. -/
theorem readsBehind_of_passes (wellFormed : WellFormed whole) (wellFormed' : WellFormed behind)
    (reaches : Passes readHeader (start whole) before (start behind)) :
    ReadsBehind before whole behind := by
  obtain ⟨items, t, result, walk⟩ := exists_walk (start behind)
  have through := Reads.after reaches walk
  refine ⟨⟨_, headerItems_eq wellFormed'.fixed walk, ?_⟩, ?_,
    ⟨_, fragmentHeader_eq wellFormed'.fixed walk, ?_⟩, ?_, ?_⟩
  · rw [headerItems_eq wellFormed.fixed through, yielded, List.map_append, List.append_assoc,
      yielded]
  · rw [upperLayerProtocol_eq wellFormed.fixed through,
      upperLayerProtocol_eq wellFormed'.fixed walk]
  · rw [fragmentHeader_eq wellFormed.fixed through, List.findSome?_append]
  · rw [newChecked_eq wellFormed through, newChecked_eq wellFormed' walk]
    cases result <;> rfl
  · rw [accepts_newCheckedDefrag_iff_reads wellFormed through,
      accepts_newCheckedDefrag_iff_reads wellFormed' walk, List.findSome?_append,
      Option.or_eq_none_iff, and_assoc, and_comm (a := before.findSome? fragment? = none)]

/-- A slice whose walk starts where that of another has come to after some headers. -/
structure Stripped (before : List NextHeader) (whole behind : Bytes) : Prop where
  accepted : Accepts (PacketView.new Ipv6 behind)
  next : byteAt behind 6 = before.getLast?.elim (byteAt whole 6) NextHeader.nextHeader
  rest : behind.drop 40 = whole.drop (reach before)

/-- Headers taken off the front leave a slice that is read as what came behind them. -/
theorem readsBehind_of_stripped {after : List (Result NextHeader)}
    (accepted : Accepts (PacketView.new Ipv6 whole))
    (yields : headerItems whole = .ok (before.map .ok ++ after))
    (stripped : Stripped before whole behind) : ReadsBehind before whole behind := by
  have wellFormed : WellFormed whole := validate_eq_ok_iff.mp (accepts_new_iff.mp accepted)
  have wellFormed' : WellFormed behind :=
    validate_eq_ok_iff.mp (accepts_new_iff.mp stripped.accepted)
  obtain ⟨items, t, result, walk⟩ := exists_walk (start whole)
  rw [headerItems_eq wellFormed.fixed walk, Except.ok.injEq] at yields
  obtain ⟨second, rfl, _⟩ := split_of_yielded_map yields
  obtain ⟨u, reaches, _⟩ := walk.passes.split
  -- The announced kind and the bytes left are those of the other slice.
  have position : u = start behind := by
    rw [start, stripped.next, stripped.rest, ← rest_of_passes reaches]
    exact Prod.ext (next_of_passes reaches) rfl
  exact readsBehind_of_passes wellFormed wellFormed' (position ▸ reaches)

theorem start_packetOf {fixed payload : Bytes} {headers : List ChainHeader} {protocol : UInt8}
    (announces : Announces fixed headers protocol) :
    start (packetOf fixed headers protocol payload) =
      (firstCode headers protocol, encodeChain headers protocol ++ payload) := by
  have length := announces.length
  rw [start, packetOf, byteAt_append (by omega), announces.first, ← length, List.drop_left]

/-- A chain of Hop-by-Hop Options, Routing, Destination Options, Mobility and first Fragment
headers, put between a fixed header that announces it and what another slice has behind its
own. -/
theorem readsBehind_of_pushed {fixed : Bytes} {headers : List ChainHeader}
    (accepted : Accepts (PacketView.new Ipv6 behind))
    (announces : Announces fixed headers (byteAt behind 6)) :
    ReadsBehind (chainItems headers (byteAt behind 6))
      (packetOf fixed headers (byteAt behind 6) (behind.drop 40)) behind := by
  have wellFormed : WellFormed behind := validate_eq_ok_iff.mp (accepts_new_iff.mp accepted)
  refine readsBehind_of_passes (wellFormed_packetOf announces) wellFormed ?_
  rw [start_packetOf announces]
  exact passes_encodeChain headers (byteAt behind 6) (behind.drop 40)

end Behind

/-! ## Setters -/

/-- What the next header is after a setter. -/
def Setter.announce (code : UInt8) : Setter → UInt8
  | .nextHeader value => value
  | _ => code

/-- What the next header is after a run of setters. -/
def announced (setters : List Setter) (code : UInt8) : UInt8 :=
  setters.foldl Setter.announce code

section Setters

variable {setters : List Setter} {bytes : Bytes}

/-- A run of setters leaves the bytes behind the header, and of what the walk starts with
it changes the next header. -/
theorem start_of_run (setters : List Setter) (values : HeaderValues) (rest : Bytes)
    (fits : Fits values) :
    ∃ values', runOps Setter.apply setters (laid rest values) = .ok (laid rest values') ∧
      Fits values' ∧ values'.nextHeaderRaw = announced setters values.nextHeaderRaw := by
  induction setters generalizing values with
  | nil => exact ⟨values, rfl, fits, rfl⟩
  | cons setter setters ih =>
    obtain ⟨values', run, fits', next⟩ := ih (update setter values) (fits.update setter)
    refine ⟨values', ?_, fits', next.trans ?_⟩
    · rw [runOps, apply_laid, ok_bind, run]
    · cases setter <;> rfl

theorem start_laid (values : HeaderValues) (rest : Bytes) :
    start (laid rest values).bytes = (values.nextHeaderRaw, rest) := by
  have next : byteAt (encodeHeader values ++ rest) 6 = values.nextHeaderRaw := by
    rw [encodeHeader_append]
    rfl
  have width : (encodeHeader values).length = 40 := by
    have size := encodeHeader_length [] values
    rwa [List.append_nil] at size
  rw [laid, start, next, List.drop_left' width]

/-- Slices in which the walk starts alike have the same walk. -/
theorem sameWalk_of_start {bytes bytes' : Bytes} (wellFormed : WellFormed bytes)
    (wellFormed' : WellFormed bytes') (same : start bytes' = start bytes) :
    SameWalk bytes bytes' := by
  obtain ⟨items, t, result, walk⟩ := exists_walk (start bytes)
  exact sameWalk_of_reads wellFormed wellFormed' walk (same ▸ walk) rfl

/-- A run of setters has the walk of any slice with the next header it leaves and the bytes
it found behind the fixed header. -/
theorem sameWalk_of_run (accepted : Accepts (PacketView.new Ipv6 bytes))
    (setters : List Setter) :
    ∃ out, runOps Setter.apply setters ⟨bytes⟩ = .ok out ∧
      ∀ other, Accepts (PacketView.new Ipv6 other) →
        byteAt other 6 = announced setters (byteAt bytes 6) → other.drop 40 = bytes.drop 40 →
        SameWalk other out.bytes := by
  have wellFormed : WellFormed bytes := validate_eq_ok_iff.mp (accepts_new_iff.mp accepted)
  obtain ⟨values', run, fits', next⟩ := start_of_run setters (valuesAt bytes) (bytes.drop 40)
    (fits_valuesAt wellFormed)
  rw [laid, encodeHeader_valuesAt wellFormed] at run
  refine ⟨_, run, fun other accepted' code rest => ?_⟩
  have wellFormed' : WellFormed other := validate_eq_ok_iff.mp (accepts_new_iff.mp accepted')
  refine sameWalk_of_start wellFormed' (wellFormed_encodeHeader _ fits') ?_
  rw [start_laid, next, start, code, rest]
  rfl

/-- The checking constructor of a mutable view validates twice, to the same effect. -/
theorem verdict_newCheckedMut (bytes : Bytes) :
    verdict (newCheckedMut bytes) = verdict (newChecked bytes) := by
  cases checked : newChecked bytes with
  | error fault =>
    rw [newCheckedMut, checked]
    rfl
  | ok result =>
    cases result with
    | error error =>
      rw [newCheckedMut, checked]
      rfl
    | ok view =>
      have valid : PacketSpec.validate Ipv6 bytes = .ok (.ok ()) :=
        valid_of_accepts ⟨view, checked⟩ fun _ => rfl
      have made : PacketViewMut.new Ipv6 bytes = .ok (.ok ⟨bytes⟩) :=
        PacketViewMut.new_eq_ok_iff.mpr ⟨valid, rfl⟩
      rw [newCheckedMut, checked, ok_bind]
      dsimp only
      rw [made]
      rfl

end Setters

/-- Headers taken off the front, and a chain of Hop-by-Hop Options, Routing, Destination
Options, Mobility and first Fragment headers put there, are read before the rest and change
nothing behind them; a run of setters has the walk its last next header announces. -/
theorem headers_compose :
    (∀ (whole behind : Bytes) (before : List NextHeader) (after : List (Result NextHeader)),
      Accepts (PacketView.new Ipv6 whole) → headerItems whole = .ok (before.map .ok ++ after) →
      Stripped before whole behind → ReadsBehind before whole behind) ∧
    (∀ (behind fixed : Bytes) (headers : List ChainHeader),
      Accepts (PacketView.new Ipv6 behind) → Announces fixed headers (byteAt behind 6) →
      ReadsBehind (chainItems headers (byteAt behind 6))
        (packetOf fixed headers (byteAt behind 6) (behind.drop 40)) behind) ∧
    (∀ (bytes : Bytes) (setters : List Setter), Accepts (PacketView.new Ipv6 bytes) →
      ∃ out, runOps Setter.apply setters ⟨bytes⟩ = .ok out ∧
        ∀ other, Accepts (PacketView.new Ipv6 other) →
          byteAt other 6 = announced setters (byteAt bytes 6) → other.drop 40 = bytes.drop 40 →
          SameWalk other out.bytes ∧
            verdict (newCheckedMut out.bytes) = verdict (newChecked other)) := by
  refine ⟨fun _ _ _ _ => readsBehind_of_stripped, fun _ _ _ => readsBehind_of_pushed,
    fun bytes setters accepted => ?_⟩
  obtain ⟨out, run, same⟩ := sameWalk_of_run accepted setters
  refine ⟨out, run, fun other accepted' code rest => ?_⟩
  have walks := same other accepted' code rest
  exact ⟨walks, (verdict_newCheckedMut out.bytes).trans walks.2.2.2.1⟩

/-- A Hop-by-Hop header pushed in front of a datagram whose Routing header is cut off, and
the next header of it set. -/
theorem headers_compose_hopByHop :
    let behind : Bytes := fixedHeader 4 43 ++ [17, 0, 0, 0]
    let headers : List ChainHeader := [.units .hopByHopOptions 0 [1, 4, 0, 0, 0, 0] rfl]
    let whole := packetOf (fixedHeader 12 0) headers 43 (behind.drop 40)
    ReadsBehind (chainItems headers 43) whole behind ∧
      ∃ out, Setter.apply (.nextHeader 17) ⟨behind⟩ = .ok out ∧
        SameWalk (fixedHeader 4 17 ++ [17, 0, 0, 0]) out.bytes := by
  intro behind headers whole
  have accepted : Accepts (PacketView.new Ipv6 behind) := by decide
  have pushed : ReadsBehind (chainItems headers 43) whole behind :=
    headers_compose.2.1 behind (fixedHeader 12 0) headers accepted ⟨rfl, by decide, rfl⟩
  obtain ⟨out, run, same⟩ := headers_compose.2.2 behind [.nextHeader 17] accepted
  have walks := same (fixedHeader 4 17 ++ [17, 0, 0, 0]) (by decide) (by decide) (by decide)
  exact ⟨pushed, out, run, walks.1⟩

end Packet.Ipv6

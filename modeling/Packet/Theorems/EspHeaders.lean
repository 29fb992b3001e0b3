/-
# What follows the start of an ESP header

ESP starts with an index and a sequence number and has neither a next-header byte
nor a length byte. The walk counts it among the headers that have both and reads
them from the first two bytes of the index. So it ends at an ESP header only when
what it reads there ends it, and whatever stands before, some bytes make the
protocol found 6 and others 17.
-/

import Packet.Model.Ipv6

namespace Packet.Ipv6

open Rust NextHeaders
open NextHeaderType (ofByte)

/-- The protocol and the checking constructor's verdict are the same for every slice
that agrees up to a position and has 8 bytes from there on. -/
def OpaqueFrom (bytes : Bytes) (position : ℕ) : Prop :=
  ∀ other : Bytes, other.take position = bytes.take position →
    position + 8 ≤ bytes.length → position + 8 ≤ other.length →
    Ipv6Packet.upperLayerProtocol other = Ipv6Packet.upperLayerProtocol bytes ∧
      verdict (newChecked other) = verdict (newChecked bytes)

/-- The bytes of an ESP header, read like other headers: they hold a header of the
length that the second byte gives, and the first byte announces another one. -/
def ReadsOn (esp : Bytes) : Prop :=
  ((byteAt esp 1).toNat + 1) * 8 ≤ esp.length ∧ (ofByte (byteAt esp 0)).isExtension = true

section Esp

variable {bytes : Bytes} {u t : UInt8 × Bytes} {items : List NextHeader}
  {result : Option PacketError}

/-- After an ESP header the walk goes on exactly when its bytes say so. -/
theorem tail_yielded_eq_nil_iff (esp : u.1 = 50) (walk : Reads readHeader u items t result) :
    (yielded items result).tail = [] ↔ ¬ ReadsOn u.2 := by
  have length : lengthAt u = ((byteAt u.2 1).toNat + 1) * 8 := by
    rw [lengthAt, esp]
    rfl
  obtain ⟨passes, ends⟩ := walk
  cases passes with
  | nil _ =>
    -- The header is not complete, and the error is the last item.
    cases result with
    | none =>
      have upper := readHeader_eq_stop_iff.mp ends
      rw [esp] at upper
      cases upper
    | some error =>
      refine iff_of_true rfl fun on => ?_
      obtain ⟨_, ⟨short, _⟩ | ⟨_, overrun, _⟩⟩ := readHeader_eq_fail_iff.mp ends
      · have complete := on.1
        omega
      · have complete := on.1
        omega
  | @cons _ w _ header items found rest =>
    -- The header is complete, and its first byte decides what comes next.
    obtain ⟨_, fits, rfl, rfl⟩ := readHeader_eq_item_iff.mp found
    have after : (yielded (headerAt u :: items) result).tail = yielded items result := rfl
    rw [after, yielded_eq_nil_iff_upper ⟨rest, ends⟩, ReadsOn, ← length, and_iff_right fits,
      Bool.not_eq_true]

/-- With 8 bytes from the ESP header on, another 8 bytes there show. -/
theorem not_opaqueFrom (wellFormed : WellFormed bytes)
    (walk : Passes readHeader (start bytes) items u) (esp : u.1 = 50)
    (long : reach items + 8 ≤ bytes.length) : ¬ OpaqueFrom bytes (reach items) := by
  intro same
  have front : (bytes.take (reach items)).length = reach items := by
    rw [List.length_take, Nat.min_eq_left (by omega)]
  have extension : (ofByte u.1).isExtension = true := by
    rw [esp]
    rfl
  -- Whatever the protocol of the packet is, it is not both 6 and 17.
  have protocol {value : UInt8} (upper : (ofByte value).isExtension = false) :
      Ipv6Packet.upperLayerProtocol bytes = .ok (some value) := by
    have replaced := same (bytes.take (reach items) ++ [value, 0, 0, 0, 0, 0, 0, 0])
      (List.take_left' front) long (by simp [front])
    rw [← replaced.1]
    exact upperLayerProtocol_minimal wellFormed walk extension upper
  have tcp := protocol (show (ofByte 6).isExtension = false from rfl)
  have udp := protocol (show (ofByte 17).isExtension = false from rfl)
  rw [tcp] at udp
  exact absurd udp (by decide)

end Esp

/-- What the walk does at an ESP header. It yields nothing after it, and everything
from there on is opaque, exactly when there are fewer than 8 bytes to read. That
nothing is yielded after it, alone, holds exactly when its own bytes, read as a
length and a next-header byte, do not lead on. -/
theorem esp_opaque_iff {bytes : Bytes} {before : List NextHeader}
    {rest : List (Result NextHeader)} (accepted : Accepts (PacketView.new Ipv6 bytes))
    (drained : headerItems bytes = .ok (before.map .ok ++ rest))
    (esp : before.getLast?.elim (byteAt bytes 6) NextHeader.nextHeader = 50) :
    (rest.tail = [] ∧ OpaqueFrom bytes (reach before) ↔ bytes.length < reach before + 8) ∧
    (rest.tail = [] ↔ ¬ ReadsOn (bytes.drop (reach before))) := by
  have wellFormed : WellFormed bytes := validate_eq_ok_iff.mp (accepts_new_iff.mp accepted)
  obtain ⟨items, t, result, walk⟩ := exists_walk (start bytes)
  rw [headerItems_eq wellFormed.fixed walk, Except.ok.injEq] at drained
  obtain ⟨second, rfl, rfl⟩ := split_of_yielded_map drained
  obtain ⟨u, reaches, continues⟩ := walk.passes.split
  have next : u.1 = 50 := (next_of_passes reaches).trans esp
  have tail := tail_yielded_eq_nil_iff next ⟨continues, walk.ends⟩
  rw [rest_of_passes reaches] at tail
  refine ⟨?_, tail⟩
  constructor
  · -- Eight bytes are enough for two continuations with different protocols.
    rintro ⟨_, same⟩
    by_contra long
    exact not_opaqueFrom wellFormed reaches next (Nat.le_of_not_lt long) same
  · -- With fewer there is no header to yield, and no slice to compare with.
    intro short
    refine ⟨tail.mpr fun on => ?_, fun _ _ long => by omega⟩
    have fits := on.1
    rw [List.length_drop] at fits
    omega

/-- An ESP header behind Hop-by-Hop options, with 16 bytes from there on: nothing is yielded
after it, and still its bytes decide what the packet is taken for. -/
theorem esp_opaque_iff_hopByHop :
    let bytes : Bytes := fixedHeader 24 0 ++ [50, 0, 1, 4, 0, 0, 0, 0] ++
      [17, 0, 0, 1, 0, 0, 0, 1] ++ List.replicate 8 9
    let before : List NextHeader :=
      [{ kind := .hopByHopOptions, nextHeader := 50, lenBytes := 8,
         data := .other [1, 4, 0, 0, 0, 0] }]
    ¬ ReadsOn (bytes.drop (reach before)) ∧ ¬ OpaqueFrom bytes (reach before) := by
  intro bytes before
  have accepted : Accepts (PacketView.new Ipv6 bytes) := by decide
  have drained : headerItems bytes = .ok (before.map .ok ++
      [.ok { kind := .encapsulationSecurityPayloadHeader, nextHeader := 17, lenBytes := 8,
             data := .other [0, 1, 0, 0, 0, 1] }]) := by decide
  obtain ⟨both, alone⟩ := esp_opaque_iff accepted drained rfl
  exact ⟨alone.mp rfl, fun same => absurd (both.mp ⟨rfl, same⟩) (by decide)⟩

/-- Two packets that differ in one byte of the ESP header: the byte is taken for the
protocol. With 60 there, a header is read from the encrypted bytes; with 255 in the
next byte, the packet is refused. -/
theorem esp_read :
    let packet (first second : UInt8) : Bytes :=
      fixedHeader 16 50 ++ [first, second, 0, 0, 0, 0, 0, 1] ++ [17, 0, 0, 0, 0, 0, 0, 0]
    Accepts (PacketView.new Ipv6 (packet 17 0)) ∧
    Ipv6Packet.upperLayerProtocol (packet 17 0) = .ok (some 17) ∧
    Ipv6Packet.upperLayerProtocol (packet 6 0) = .ok (some 6) ∧
    headerItems (packet 60 0) = .ok
      [.ok { kind := .encapsulationSecurityPayloadHeader, nextHeader := 60, lenBytes := 8,
             data := .other [0, 0, 0, 0, 0, 1] },
        .ok { kind := .destinationOptions, nextHeader := 17, lenBytes := 8,
              data := .other [0, 0, 0, 0, 0, 0] }] ∧
    verdict (newChecked (packet 17 0)) = .ok (.ok ()) ∧
    verdict (newChecked (packet 17 255)) = .ok (.error (.tooShort 2048 16)) ∧
    ¬ OpaqueFrom (packet 17 0) (reach []) := by
  refine ⟨by decide, by decide, by decide, by decide, by decide, by decide, ?_⟩
  intro same
  have protocols := (same (fixedHeader 16 50 ++ [6, 0, 0, 0, 0, 0, 0, 1] ++
    [17, 0, 0, 0, 0, 0, 0, 0]) (by decide) (by decide) (by decide)).1
  exact absurd protocols (by decide)

end Packet.Ipv6

/-
# What follows a non-first fragment's header

The walk is driven by next-header bytes alone and does not look at the fragment
offset. A Fragment header ends it exactly when its next-header byte is not an
extension kind; otherwise the fragment's data are read as the next header. The
defragmenting constructor rejects the packet whatever the data are.
-/

import Packet.Model.Chain
import Packet.Model.Ipv6

namespace Packet.Ipv6

open Rust NextHeaders
open NextHeaderType (ofByte)

section Cut

variable {bytes : Bytes} {u : UInt8 × Bytes} {items : List NextHeader}

/-- The defragmenting constructor refuses whatever comes after a Fragment header. -/
theorem rejects_newCheckedDefrag_cut (wellFormed : WellFormed bytes)
    (walk : Passes readHeader (start bytes) items u) {header : NextHeader} {frag : FragmentHeader}
    (member : header ∈ items) (fragment : header.data = .fragment frag) (rest : Bytes) :
    Rejects (newCheckedDefrag (bytes.take (reach items) ++ rest)) := by
  obtain ⟨wellFormed', walk'⟩ := passes_of_cut wellFormed walk rest
  obtain ⟨items', t, result, continued⟩ := exists_walk (u.1, rest)
  have found : ((items ++ items').findSome? fragment?).isSome = true := by
    rw [List.findSome?_isSome_iff]
    refine ⟨header, List.mem_append_left _ member, ?_⟩
    rw [fragment?, fragment]
    rfl
  rw [newCheckedDefrag_eq wellFormed' (Reads.after walk' continued), found]
  cases result with
  | none => exact ⟨_, rfl⟩
  | some error => exact ⟨_, rfl⟩

end Cut

/-- The protocol and the checking constructor's verdict do not depend on the bytes
from a position on. -/
def UnreadFrom (bytes : Bytes) (position : ℕ) : Prop :=
  ∀ rest : Bytes,
    Ipv6Packet.upperLayerProtocol (bytes.take position ++ rest) =
      Ipv6Packet.upperLayerProtocol bytes ∧
    verdict (newChecked (bytes.take position ++ rest)) = verdict (newChecked bytes)

section Data

variable {bytes : Bytes} {u t : UInt8 × Bytes} {items : List NextHeader}
  {result : Option PacketError}

/-- A chain whose last header announces a protocol is read no further. -/
theorem unreadFrom_of_upper (wellFormed : WellFormed bytes)
    (walk : Passes readHeader (start bytes) items u)
    (upper : (ofByte u.1).isExtension = false) : UnreadFrom bytes (reach items) := by
  intro rest
  have ends (rest : Bytes) : Reads readHeader (u.1, rest) [] (u.1, rest) none :=
    .of_stop (readHeader_eq_stop_iff.mpr upper)
  obtain ⟨protocol, checked⟩ := upperLayerProtocol_cut wellFormed walk (ends rest)
  obtain ⟨protocol', checked'⟩ :=
    upperLayerProtocol_cut wellFormed walk (ends (bytes.drop (reach items)))
  rw [List.take_append_drop] at protocol' checked'
  exact ⟨protocol.trans protocol'.symm, checked.trans checked'.symm⟩

/-- A chain whose last header announces another is read on: without bytes after it
the chain breaks off, with a header there it goes on. -/
theorem not_unreadFrom_of_extension (wellFormed : WellFormed bytes)
    (walk : Passes readHeader (start bytes) items u)
    (extension : (ofByte u.1).isExtension = true) : ¬ UnreadFrom bytes (reach items) := by
  intro unread
  have broken : readHeader (u.1, []) = .fail (.tooShort 8 0) :=
    readHeader_eq_fail_iff.mpr ⟨extension, .inl ⟨Nat.zero_lt_succ 7, rfl⟩⟩
  -- Cut off there the chain leads to no protocol, with a minimal header to UDP.
  have short := (upperLayerProtocol_cut wellFormed walk (.of_fail broken)).1
  have long := upperLayerProtocol_minimal wellFormed walk extension
    (show (ofByte 17).isExtension = false from rfl)
  rw [(unread _).1] at short long
  rw [short] at long
  simp at long

end Data

/-- What the walk does at a Fragment header, whatever its offset. It is the last
item, and the data after it are unread, exactly when its next-header byte is not
an extension kind. The defragmenting constructor rejects the packet in any case. -/
theorem fragmentData_unread_iff {bytes : Bytes} {before after : List (Result NextHeader)}
    {header : NextHeader} {frag : FragmentHeader} (accepted : Accepts (PacketView.new Ipv6 bytes))
    (drained : headerItems bytes = .ok (before ++ .ok header :: after))
    (fragment : header.data = .fragment frag) :
    (after = [] ↔ (ofByte header.nextHeader).isExtension = false) ∧
    (UnreadFrom bytes (reach (okItems before ++ [header])) ↔
      (ofByte header.nextHeader).isExtension = false) ∧
    ∀ rest, Rejects
      (newCheckedDefrag (bytes.take (reach (okItems before ++ [header])) ++ rest)) := by
  have wellFormed : WellFormed bytes := validate_eq_ok_iff.mp (accepts_new_iff.mp accepted)
  obtain ⟨items, t, result, walk⟩ := exists_walk (start bytes)
  rw [headerItems_eq wellFormed.fixed walk, Except.ok.injEq] at drained
  obtain ⟨first, second, rfl, rfl, rfl⟩ := split_of_yielded drained
  rw [List.append_cons] at walk
  obtain ⟨u, reaches, continues⟩ := walk.passes.split
  have next : u.1 = header.nextHeader := by
    rw [next_of_passes reaches, List.getLast?_concat]
    rfl
  rw [okItems_map_ok, ← next]
  refine ⟨yielded_eq_nil_iff_upper ⟨continues, walk.ends⟩, ?_, ?_⟩
  · constructor
    · intro unread
      by_contra extension
      rw [Bool.not_eq_false] at extension
      exact not_unreadFrom_of_extension wellFormed reaches extension unread
    · exact unreadFrom_of_upper wellFormed reaches
  · intro rest
    exact rejects_newCheckedDefrag_cut wellFormed reaches (List.mem_append_right _ (by simp))
      fragment rest

/-- The second fragment of a UDP datagram. -/
theorem fragmentData_unread_iff_udp :
    let bytes : Bytes := fixedHeader 10 44 ++ [17, 0, 0, 8, 0, 0, 0, 1, 7, 7]
    let before : List (Result NextHeader) := []
    let header : NextHeader :=
      { kind := .fragmentHeader, nextHeader := 17, lenBytes := 8,
        data := .fragment ⟨#v[17, 0, 0, 8, 0, 0, 0, 1]⟩ }
    (before = [] ↔ (ofByte header.nextHeader).isExtension = false) ∧
    (UnreadFrom bytes (reach (okItems before ++ [header])) ↔
      (ofByte header.nextHeader).isExtension = false) ∧
    ∀ rest, Rejects
      (newCheckedDefrag (bytes.take (reach (okItems before ++ [header])) ++ rest)) :=
  fragmentData_unread_iff (by decide) (by decide) rfl

/-- A second fragment that announces Destination Options: its data are read as
that header, and their first byte is taken for the protocol. -/
theorem fragmentData_read :
    let packet (first : UInt8) : Bytes :=
      fixedHeader 16 44 ++ [60, 0, 0, 8, 0, 0, 0, 1] ++ [first, 0, 0, 0, 0, 0, 0, 0]
    let frag : FragmentHeader := ⟨#v[60, 0, 0, 8, 0, 0, 0, 1]⟩
    Accepts (PacketView.new Ipv6 (packet 17)) ∧ frag.fragmentOffset ≠ 0 ∧
    headerItems (packet 17) = .ok
      [.ok { kind := .fragmentHeader, nextHeader := 60, lenBytes := 8, data := .fragment frag },
        .ok { kind := .destinationOptions, nextHeader := 17, lenBytes := 8,
              data := .other [0, 0, 0, 0, 0, 0] }] ∧
    Ipv6Packet.upperLayerProtocol (packet 17) = .ok (some 17) ∧
    Ipv6Packet.upperLayerProtocol (packet 6) = .ok (some 6) := by
  decide

end Packet.Ipv6

/-
# The walks over the extension headers agree

The iterator keeps a state and an error flag; the loop of `upper_layer_protocol`
repeats its tests by hand; the checking constructor runs the iterator. All three
follow one reader, so one walk of it says what each of them returns and after
how many steps.
-/

import Packet.Model.Ipv6

namespace Packet.Ipv6

open Rust NextHeaders

/-- The protocol that the items of a drained chain lead to. -/
def leadsTo (nextHeaderRaw : UInt8) (items : List (Result NextHeader)) : Option UInt8 :=
  match items.getLast? with
  | none => some nextHeaderRaw
  | some (.ok header) => some header.nextHeader
  | some (.error _) => none

section Walk

variable {bytes : Bytes} {s t : UInt8 × Bytes} {items : List NextHeader}
  {result : Option PacketError}

/-- The items of a walk lead to the next-header byte it ends with. -/
theorem leadsTo_yielded (walk : Reads readHeader s items t result) :
    leadsTo s.1 (yielded items result) = result.elim (some t.1) fun _ => none := by
  cases result with
  | some error =>
    simp [leadsTo, yielded]
  | none =>
    -- Without an error the last item, if any, is the last header passed.
    rw [next_of_passes walk.passes]
    cases last : items.getLast? with
    | none => simp [leadsTo, yielded, last]
    | some header => simp [leadsTo, yielded, last]

theorem nextHeaderRaw_eq_ok (fixed : 40 ≤ bytes.length) :
    Ipv6Packet.nextHeaderRaw bytes = .ok (start bytes).1 := index_byteAt (by omega)

/-- The yielded items are few, and so are the steps of both walks. -/
theorem length_yielded_le (walk : Reads readHeader (start bytes) items t result) :
    (yielded items result).length ≤ (bytes.length - 40) / 8 + 1 := by
  have few := length_items_le walk.passes
  have size := yielded_length_le items result
  have region : (start bytes).2.length = bytes.length - 40 := List.length_drop
  rw [region] at few
  omega

end Walk

/-- What the iterator, the loop and the checking constructor return on a slice,
and how they agree. -/
structure WalksAgree (bytes : Bytes) (headers : NextHeaders) (raw : UInt8)
    (items : List (Result NextHeader)) (upper : Option UInt8) : Prop where
  opened : Ipv6Packet.extensionHeaders bytes = .ok headers
  first : Ipv6Packet.nextHeaderRaw bytes = .ok raw
  drained : headers.collect = .ok items
  looped : Ipv6Packet.upperLayerProtocol bytes = .ok upper
  none_iff : upper = none ↔ ∃ error, .error error ∈ items
  protocol : upper = leadsTo raw items
  checked : Accepts (newChecked bytes) ↔ ∃ protocol, upper = some protocol
  passed : (okItems items).length ≤ (bytes.length - 40) / 8
  few : items.length ≤ (bytes.length - 40) / 8 + 1
  drain_ends : ∀ calls, items.length + 1 ≤ calls →
    ∃ last, drain iterNext calls headers = .ok (items, last)
  loop_ends : ∀ turns, (bytes.length - 40) / 8 + 1 ≤ turns →
    loop Ipv6Packet.upperTurn turns (raw, bytes.drop 40) = .ok upper

/-- The walks agree on every accepted slice, and both end. -/
theorem walks_agree {bytes : Bytes} (accepted : Accepts (PacketView.new Ipv6 bytes)) :
    ∃ headers raw items upper, WalksAgree bytes headers raw items upper := by
  have wellFormed : WellFormed bytes := validate_eq_ok_iff.mp (accepts_new_iff.mp accepted)
  have fixed := wellFormed.fixed
  have region : (start bytes).2.length = bytes.length - 40 := List.length_drop
  obtain ⟨items, t, result, walk⟩ := exists_walk (start bytes)
  refine ⟨live (start bytes), (start bytes).1, yielded items result,
    result.elim (some t.1) fun _ => none, ?_⟩
  exact {
    opened := extensionHeaders_eq_ok fixed
    first := nextHeaderRaw_eq_ok fixed
    drained := collect_eq walk
    looped := upperLayerProtocol_eq fixed walk
    none_iff := by
      cases result with
      | none => simp
      | some error => simp
    protocol := (leadsTo_yielded walk).symm
    checked := by
      rw [accepts_newChecked_iff wellFormed walk]
      cases result with
      | none => simp
      | some error => simp
    passed := by
      rw [okItems_yielded, ← region]
      exact length_items_le walk.passes
    few := length_yielded_le walk
    drain_ends := by
      intro calls enough
      exact ⟨_, iterNext_follows.drain_eq walk enough⟩
    -- A turn that passes a header uses up eight bytes; one more ends the loop.
    loop_ends := by
      intro turns enough
      have few := length_items_le walk.passes
      rw [region] at few
      exact upperTurn_follows.loop_eq walk (Nat.le_trans (Nat.add_le_add_right few 1) enough) }

/-- A Hop-by-Hop header before UDP. -/
theorem walks_agree_hopByHop :
    ∃ headers raw items upper,
      WalksAgree (fixedHeader 8 0 ++ [17, 0, 0, 0, 0, 0, 0, 0]) headers raw items upper :=
  walks_agree (by decide)

end Packet.Ipv6

/-
# Extension-header chains round-trip

Encoding a chain after a fixed header and draining the iterator gives the chain
back, whatever the payload. In the other direction, the headers yielded for any
accepted slice are the decodings of consecutive stretches of it.
-/

import Packet.Model.Chain
import Packet.Model.Ipv6

namespace Packet.Ipv6

open Rust NextHeaders
open NextHeaderType (ofByte)

/-- A packet: a fixed header, a chain that ends in a protocol, and a payload. -/
def packetOf (fixed : Bytes) (headers : List ChainHeader) (protocol : UInt8) (payload : Bytes) :
    Bytes :=
  fixed ++ (encodeChain headers protocol ++ payload)

/-- A fixed header that announces the chain after it. -/
structure Announces (fixed : Bytes) (headers : List ChainHeader) (protocol : UInt8) : Prop where
  length : fixed.length = 40
  version : byteAt fixed 0 >>> 4 = 6
  first : byteAt fixed 6 = firstCode headers protocol

section Encode

variable {fixed payload : Bytes} {headers : List ChainHeader} {protocol : UInt8}

theorem wellFormed_packetOf (announces : Announces fixed headers protocol) :
    WellFormed (packetOf fixed headers protocol payload) := by
  have length := announces.length
  have header : WellFormed fixed := ⟨Nat.le_of_eq length.symm, announces.version⟩
  exact header.append _

/-- The walk over a packet passes the items of its chain. -/
theorem reads_packetOf (announces : Announces fixed headers protocol)
    (upper : (ofByte protocol).isExtension = false) :
    Reads readHeader (start (packetOf fixed headers protocol payload))
      (chainItems headers protocol) (protocol, payload) none := by
  have length := announces.length
  have begins : start (packetOf fixed headers protocol payload) =
      (firstCode headers protocol, encodeChain headers protocol ++ payload) := by
    rw [start, packetOf, byteAt_append (by omega), announces.first, ← length, List.drop_left]
  rw [begins]
  exact ⟨passes_encodeChain headers protocol payload, readHeader_eq_stop_iff.mpr upper⟩

end Encode

/-- Chains round-trip: decoding an encoded chain gives its items, its protocol and
acceptance, and the items decoded from any accepted slice tile it. -/
theorem chains_roundTrip :
    (∀ (fixed payload : Bytes) (headers : List ChainHeader) (protocol : UInt8),
      Announces fixed headers protocol → (ofByte protocol).isExtension = false →
      headerItems (packetOf fixed headers protocol payload) =
        .ok ((chainItems headers protocol).map .ok) ∧
      Ipv6Packet.upperLayerProtocol (packetOf fixed headers protocol payload) =
        .ok (some protocol) ∧
      Accepts (newChecked (packetOf fixed headers protocol payload))) ∧
    (∀ bytes : Bytes, Accepts (PacketView.new Ipv6 bytes) →
      ∃ items, headerItems bytes = .ok items ∧
        Tiles (byteAt bytes 6) (okItems items) (bytes.drop 40)) := by
  constructor
  · intro fixed payload headers protocol announces upper
    have wellFormed : WellFormed (packetOf fixed headers protocol payload) :=
      wellFormed_packetOf announces
    have walk : Reads readHeader (start (packetOf fixed headers protocol payload))
        (chainItems headers protocol) (protocol, payload) none := reads_packetOf announces upper
    refine ⟨?_, ?_, ?_⟩
    · rw [headerItems_eq wellFormed.fixed walk]
      exact congrArg Except.ok (List.append_nil _)
    · exact upperLayerProtocol_eq wellFormed.fixed walk
    · rw [newChecked_eq wellFormed walk]
      exact accepts_ok_ok _
  · -- A chain that breaks off tiles the region up to there.
    intro bytes accepted
    have wellFormed : WellFormed bytes := validate_eq_ok_iff.mp (accepts_new_iff.mp accepted)
    obtain ⟨items, t, result, walk⟩ := exists_walk (start bytes)
    refine ⟨yielded items result, headerItems_eq wellFormed.fixed walk, ?_⟩
    rw [okItems_yielded]
    exact tiles_of_passes walk.passes

/-- A Routing header, then a Fragment header, then UDP. -/
theorem chains_roundTrip_routing_fragment :
    let headers : List ChainHeader :=
      [.units .routingHeader 0 [1, 2, 3, 4, 5, 6] rfl,
        .fragment #v[0, 0, 1, 9, 9, 9, 9] (by decide)]
    headerItems (packetOf (fixedHeader 18 43) headers 17 [7, 7]) =
        .ok ((chainItems headers 17).map .ok) ∧
      ∃ items, headerItems (packetOf (fixedHeader 18 43) headers 17 [7, 7]) = .ok items ∧
        Tiles 43 (okItems items) ((packetOf (fixedHeader 18 43) headers 17 [7, 7]).drop 40) :=
  ⟨(chains_roundTrip.1 (fixedHeader 18 43) [7, 7] _ 17 ⟨rfl, by decide, rfl⟩ (by decide)).1,
    chains_roundTrip.2 _ (by decide)⟩

end Packet.Ipv6

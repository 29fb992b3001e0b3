/-
# What verified layers detect

Over IPv4 the header has a checksum and the segment another: between them every
byte after the first is covered. Over IPv6 only the segment and the two addresses
are summed. Of the other bytes of the fixed header some can change unnoticed; the
packet is then accepted with the segment it had.
-/

import Packet.Theorems.HeaderCorruption
import Packet.Theorems.Layers

namespace Packet

open Rust

section Set

variable {bytes : Bytes} {i : ℕ}

/-- Replacing a byte in a slice of a buffer. -/
theorem slice_set (value : UInt8) (lo hi : ℕ) :
    ((bytes.set i value).take hi).drop lo =
      if i < lo then (bytes.take hi).drop lo
      else ((bytes.take hi).drop lo).set (i - lo) value := by
  rw [List.take_set, List.drop_set]

theorem wordAt_set_of_ne (value : UInt8) {offset : ℕ} (high : i ≠ offset) (low : i ≠ offset + 1) :
    wordAt (bytes.set i value) offset = wordAt bytes offset := by
  rw [wordAt, byteAt_set_ne high, byteAt_set_ne low, wordAt]

/-- An address that does not contain the byte replaced. -/
theorem addressAt_set_of_outside (value : UInt8) {n offset : ℕ}
    (outside : i < offset ∨ offset + n ≤ i) :
    addressAt n (bytes.set i value) offset = addressAt n bytes offset := by
  ext k inside
  have apart : i ≠ offset + k := by omega
  simp only [addressAt, Vector.getElem_ofFn, byteAt_set_ne apart]

end Set

/-! ## IPv4 -/

namespace Ipv4

variable {packet : Bytes} {i : ℕ} {value : UInt8}

/-- A byte of the header after the first is covered by the header checksum. -/
theorem not_accepts_newVerified_set (accepted : Accepts (newVerified packet)) (after : 1 ≤ i)
    (inside : i < headerLength packet) (changed : value ≠ byteAt packet i) :
    ¬ Accepts (newVerified (packet.set i value)) := by
  intro accepted'
  obtain ⟨wellFormed, _⟩ := accepts_newVerified_iff.mp accepted
  have zero := dvd_wordSum_of_accepts accepted
  have zero' := dvd_wordSum_of_accepts accepted'
  have length : headerLength (packet.set i value) = headerLength packet := by
    rw [headerLength, byteAt_set_ne (by omega), headerLength]
  rw [length, List.take_set] at zero'
  -- Both headers would add up to a multiple of 65535.
  have corrupted : Corrupts (packet.take (headerLength packet))
      ((packet.take (headerLength packet)).set i value) := by
    refine corrupts_set (by rwa [header_length wellFormed]) ?_
    rwa [byteAt_take inside]
  exact corrupted.wordSum_ne ((Nat.modEq_zero_iff_dvd.mpr zero').trans
    (Nat.modEq_zero_iff_dvd.mpr zero).symm)

/-- A byte after the header changes the payload and nothing else that is read. -/
theorem inside_set (wellFormed : WellFormed packet) (after : headerLength packet ≤ i) :
    inside (packet.set i value) =
      { inside packet with payload := (payloadOf packet).set (i - headerLength packet) value } := by
  have words := wellFormed.words
  have length : headerLength (packet.set i value) = headerLength packet := by
    rw [headerLength, byteAt_set_ne (by omega), headerLength]
  have total : wordAt (packet.set i value) 2 = wordAt packet 2 :=
    wordAt_set_of_ne value (by omega) (by omega)
  have src : addressAt 4 (packet.set i value) 12 = addressAt 4 packet 12 :=
    addressAt_set_of_outside value (by omega)
  have dst : addressAt 4 (packet.set i value) 16 = addressAt 4 packet 16 :=
    addressAt_set_of_outside value (by omega)
  rw [inside, payloadOf, length, total, List.length_set, slice_set, if_neg (by omega), src, dst]
  rfl

/-- Any other value for one byte of a verified packet, from the second to the last of
its payload, makes one of the two layers refuse it. -/
theorem verifyTcp_detects_byte (accepted : Accepts (verifyTcp packet)) (after : 1 ≤ i)
    (within : i < min (wordAt packet 2).toNat packet.length)
    (changed : value ≠ byteAt packet i) : Rejects (verifyTcp (packet.set i value)) := by
  have returns := networkLayer.verifyOver_returns
    (fun _ src dst short => Tcp.newVerifiedIpv4_returns short src dst) (packet.set i value)
  refine rejects_of_returns returns fun accepted' => ?_
  obtain ⟨header, segment⟩ := (networkLayer.accepts_iff packet).mp accepted
  obtain ⟨header', segment'⟩ := (networkLayer.accepts_iff (packet.set i value)).mp accepted'
  obtain ⟨wellFormed, _⟩ := accepts_newVerified_iff.mp header
  by_cases before : i < headerLength packet
  · exact not_accepts_newVerified_set header after before changed header'
  · -- The addresses are the same, and one byte of the segment is not.
    rw [inside_set wellFormed (Nat.le_of_not_lt before)] at segment'
    have position : headerLength packet + (i - headerLength packet) = i := by omega
    have corrupted : Corrupts (payloadOf packet)
        ((payloadOf packet).set (i - headerLength packet) value) := by
      refine corrupts_set ?_ ?_
      · rw [payloadOf, List.length_drop, List.length_take]
        omega
      · rw [payloadOf, byteAt, List.getD_eq_getElem?_getD, List.getElem?_drop, position,
          List.getElem?_take_of_lt within, ← List.getD_eq_getElem?_getD]
        exact changed
    obtain ⟨error, refused⟩ := Tcp.newVerifiedIpv4_detectsCorruption.packet
      (payloadOf_length_le packet) segment corrupted
    rw [show Tcp.newVerifiedIpv4 _ _ _ = _ from refused] at segment'
    exact not_accepts_ok_error error segment'

/-- The last byte of the captured packet, another one in its place. -/
theorem verifyTcp_detects_byte_captured :
    Rejects (verifyTcp (ParseIpv4Tcp.captured.set 63 0)) :=
  verifyTcp_detects_byte accepts_captured (by decide) (by decide) (by decide)

end Ipv4

/-! ## IPv6 -/

namespace Ipv6

variable {P : Type} [PacketSpec P] {packet : Bytes} {i : ℕ} {value : UInt8}
  {transport : Bytes → Ipv6Addr → Ipv6Addr → Exec (Result (PacketView P))}

/-- The bytes the transport checksum is summed over: the addresses and the payload. -/
def Covered (packet : Bytes) (i : ℕ) : Prop := 8 ≤ i ∧ i < 40 + (payloadOf packet).length

/-- Changes of a byte that neither the validator nor a checksum looks at: the traffic
class and flow label, the next header, the hop limit, and what follows the payload. -/
def Unprotected (packet : Bytes) (i : ℕ) (value : UInt8) : Prop :=
  i = 0 ∧ value >>> 4 = 6 ∨ 1 ≤ i ∧ i ≤ 3 ∨ i = 6 ∨ i = 7 ∨ 40 + (payloadOf packet).length ≤ i

theorem payloadOf_length (fixed : 40 ≤ packet.length) :
    40 + (payloadOf packet).length = min (40 + (wordAt packet 4).toNat) packet.length := by
  rw [payloadOf, List.length_drop, List.length_take]
  omega

/-- The payload with a byte of the packet replaced that is not in its length field. -/
theorem payloadOf_set (high : i ≠ 4) (low : i ≠ 5) :
    payloadOf (packet.set i value) =
      if i < 40 then payloadOf packet else (payloadOf packet).set (i - 40) value := by
  rw [payloadOf, wordAt_set_of_ne value (by omega) (by omega), List.length_set, slice_set]
  rfl

theorem inside_set_of_unprotected (wellFormed : WellFormed packet)
    (unprotected : Unprotected packet i value) :
    WellFormed (packet.set i value) ∧ inside (packet.set i value) = inside packet := by
  have fixed := wellFormed.fixed
  have size := payloadOf_length fixed
  have src : addressAt 16 (packet.set i value) 8 = addressAt 16 packet 8 :=
    addressAt_set_of_outside value (by unfold Unprotected at unprotected; omega)
  have dst : addressAt 16 (packet.set i value) 24 = addressAt 16 packet 24 :=
    addressAt_set_of_outside value (by unfold Unprotected at unprotected; omega)
  have payload : payloadOf (packet.set i value) = payloadOf packet := by
    rw [payloadOf_set (by unfold Unprotected at unprotected; omega)
      (by unfold Unprotected at unprotected; omega)]
    split
    · rfl
    · -- Only a byte after the payload is left.
      exact List.set_eq_of_length_le (by unfold Unprotected at unprotected; omega)
  refine ⟨?_, by rw [inside, payload, src, dst, inside]⟩
  by_cases first : i = 0
  · subst first
    rcases unprotected with ⟨_, version⟩ | after
    · refine ⟨by rwa [List.length_set], ?_⟩
      rw [byteAt_set_self (by omega), version]
    · omega
  · exact wellFormed.congr (by rwa [List.length_set]) (byteAt_set_ne first value)

/-- A transport constructor that detects corruption refuses a change of a covered byte,
be it in an address or in the payload. -/
theorem not_accepts_set (detects : DetectsCorruption transport) (wellFormed : WellFormed packet)
    (accepted : Accepts (transport (inside packet).payload (inside packet).src
      (inside packet).dst)) (covered : Covered packet i) (changed : value ≠ byteAt packet i) :
    ¬ Accepts (transport (inside (packet.set i value)).payload (inside (packet.set i value)).src
      (inside (packet.set i value)).dst) := by
  obtain ⟨lower, upper⟩ := covered
  have fixed := wellFormed.fixed
  have size := payloadOf_length fixed
  have short := payloadOf_length_le packet
  have payload := @payloadOf_set packet i value (by omega) (by omega)
  -- An address with the byte in it is corrupted where the byte is.
  have address (offset : ℕ) (start : offset ≤ i) (end_ : i < offset + 16) (room : offset ≤ 24) :
      Corrupts (addressAt 16 packet offset).toList
        (addressAt 16 (packet.set i value) offset).toList := by
    have bytes : (addressAt 16 (packet.set i value) offset).toList =
        (addressAt 16 packet offset).toList.set (i - offset) value := by
      rw [addressAt_toList (by rw [List.length_set]; omega), addressAt_toList (by omega), slice_set,
        if_neg (by omega)]
    rw [bytes]
    refine corrupts_set (by rw [Vector.length_toList]; omega) ?_
    have inside : byteAt (addressAt 16 packet offset).toList (i - offset) = byteAt packet i := by
      rw [addressAt_toList (by omega), byteAt, List.getD_eq_getElem?_getD, List.getElem?_drop,
        show offset + (i - offset) = i by omega, List.getElem?_take_of_lt end_,
        ← List.getD_eq_getElem?_getD, byteAt]
    rwa [inside]
  have refuse {outcome : Exec (Result (PacketView P))} (rejected : Rejects outcome) :
      ¬ Accepts outcome := by
    obtain ⟨error, refused⟩ := rejected
    rw [refused]
    exact not_accepts_ok_error error
  apply refuse
  by_cases front : i < 40
  · rw [if_pos front] at payload
    by_cases source : i < 24
    · have dst : addressAt 16 (packet.set i value) 24 = addressAt 16 packet 24 :=
        addressAt_set_of_outside value (by omega)
      simp only [inside, payload, dst] at accepted ⊢
      exact detects.source short accepted (address 8 lower source (by decide))
    · have src : addressAt 16 (packet.set i value) 8 = addressAt 16 packet 8 :=
        addressAt_set_of_outside value (by omega)
      simp only [inside, payload, src] at accepted ⊢
      exact detects.destination short accepted (address 24 (by omega) front (by decide))
  · rw [if_neg front] at payload
    have src : addressAt 16 (packet.set i value) 8 = addressAt 16 packet 8 :=
      addressAt_set_of_outside value (by omega)
    have dst : addressAt 16 (packet.set i value) 24 = addressAt 16 packet 24 :=
      addressAt_set_of_outside value (by omega)
    simp only [inside, payload, src, dst] at accepted ⊢
    refine detects.packet short accepted (corrupts_set (by omega) ?_)
    rw [payloadOf, byteAt, List.getD_eq_getElem?_getD, List.getElem?_drop,
      show 40 + (i - 40) = i by omega, List.getElem?_take_of_lt (by omega),
      ← List.getD_eq_getElem?_getD]
    exact changed

/-- The validator does not let another version pass. -/
theorem not_wellFormed_set (wellFormed : WellFormed packet) (other : value >>> 4 ≠ 6) :
    ¬ WellFormed (packet.set 0 value) := by
  intro wellFormed'
  have fixed := wellFormed.fixed
  have stored : byteAt (packet.set 0 value) 0 = value := byteAt_set_self (by omega) value
  exact other (stored ▸ wellFormed'.version)

/-- A verified stack refuses every change of a covered byte and of the version, and goes on
accepting every change of an unprotected byte. The payload length, which decides what is
covered, is in neither class. -/
structure Guards (verify : Bytes → Exec (Result (PacketView Ipv6 × PacketView P))) : Prop where
  covered : ∀ packet i value, Accepts (verify packet) → Covered packet i →
    value ≠ byteAt packet i → Rejects (verify (packet.set i value))
  version : ∀ (packet : Bytes) (value : UInt8), Accepts (verify packet) → value >>> 4 ≠ 6 →
    Rejects (verify (packet.set 0 value))
  unprotected : ∀ packet i value, Accepts (verify packet) → Unprotected packet i value →
    Accepts (verify (packet.set i value))

theorem guards_of_detects (detects : DetectsCorruption transport)
    (total : ∀ payload src dst, payload.length ≤ 65535 → Returns (transport payload src dst)) :
    Guards (verifyOver (PacketView.new Ipv6) enclosed transport) where
  covered := by
    intro packet i value accepted covered changed
    obtain ⟨created, segment⟩ := (networkLayer.accepts_iff packet).mp accepted
    have wellFormed : WellFormed packet := validate_eq_ok_iff.mp (accepts_new_iff.mp created)
    refine rejects_of_returns (networkLayer.verifyOver_returns total _) fun accepted' => ?_
    exact not_accepts_set detects wellFormed segment covered changed
      ((networkLayer.accepts_iff _).mp accepted').2
  version := by
    intro packet value accepted other
    have created := ((networkLayer.accepts_iff packet).mp accepted).1
    have wellFormed : WellFormed packet := validate_eq_ok_iff.mp (accepts_new_iff.mp created)
    refine rejects_of_returns (networkLayer.verifyOver_returns total _) fun accepted' => ?_
    have created' := ((networkLayer.accepts_iff _).mp accepted').1
    exact not_wellFormed_set wellFormed other
      (validate_eq_ok_iff.mp (accepts_new_iff.mp created'))
  unprotected := by
    intro packet i value accepted unprotected
    obtain ⟨created, segment⟩ := (networkLayer.accepts_iff packet).mp accepted
    have wellFormed : WellFormed packet := validate_eq_ok_iff.mp (accepts_new_iff.mp created)
    obtain ⟨wellFormed', same⟩ := inside_set_of_unprotected wellFormed unprotected
    refine (networkLayer.accepts_iff _).mpr ⟨accepts_new_iff.mpr ?_, ?_⟩
    · exact validate_eq_ok_iff.mpr wellFormed'
    · rwa [same]

/-- What verification over IPv6 protects, for both transports. -/
theorem verify_guards : Guards verifyTcp ∧ Guards verifyUdp := by
  constructor
  · exact guards_of_detects Tcp.newVerifiedIpv6_detectsCorruption
      fun _ _ _ short => Tcp.newVerifiedIpv6_returns short _ _
  · exact guards_of_detects Udp.newVerifiedIpv6_detectsCorruption
      fun _ _ _ short => Udp.newVerifiedIpv6_returns short _ _

/-- A datagram whose last byte, version and hop limit are changed. -/
theorem verify_guards_datagram :
    let packet := fixedHeader 10 17 ++ [0, 53, 4, 210, 0, 10, 243, 204, 7, 7]
    Rejects (verifyUdp (packet.set 49 8)) ∧ Rejects (verifyUdp (packet.set 0 0x45)) ∧
      Accepts (verifyUdp (packet.set 7 63)) := by
  intro packet
  have accepted : Accepts (verifyUdp packet) := by decide +kernel
  have covered : Covered packet 49 := ⟨by decide, by decide⟩
  exact ⟨verify_guards.2.covered packet 49 8 accepted covered (by decide),
    verify_guards.2.version packet 0x45 accepted (by decide),
    verify_guards.2.unprotected packet 7 63 accepted (.inr (.inr (.inr (.inl rfl))))⟩

end Ipv6

end Packet

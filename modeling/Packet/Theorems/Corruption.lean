/-
# Verified packets detect a corrupted word

An accepted packet, its pseudo-header and its stored checksum add up to a multiple
of 65535. One word replaced by another that is not congruent to it spoils this: it
counts once, or twice if it is the length field of a datagram, which is in the
pseudo-header too, and two is invertible modulo 65535.
-/

import Packet.Model.Tcp
import Packet.Model.Udp

namespace Packet

open Rust Checksum

/-- One aligned word, or the last byte if it is in no word, replaced by a value that
is not congruent to it. -/
inductive Corrupts : Bytes → Bytes → Prop
  | word {bytes offset} {value : UInt16} (even : offset % 2 = 0)
      (inside : offset + 2 ≤ bytes.length)
      (changed : ¬ value.toNat ≡ (wordAt bytes offset).toNat [MOD 65535]) :
      Corrupts bytes (splice bytes offset (u16ToBeBytes value))
  | lastByte {front : Bytes} {old value : UInt8} (even : front.length % 2 = 0)
      (changed : value ≠ old) :
      Corrupts (front ++ [old]) (front ++ [value])

/-- A constructor that takes a packet and two addresses, and accepts only packets of
which it would reject every corruption, be it of the packet or of an address. -/
structure DetectsCorruption {P : Type} [PacketSpec P] {n : ℕ}
    (newVerified : Bytes → Vector UInt8 n → Vector UInt8 n → Exec (Result (PacketView P))) :
    Prop where
  packet : ∀ {bytes bytes' src dst}, bytes.length ≤ 65535 →
    Accepts (newVerified bytes src dst) → Corrupts bytes bytes' →
      Rejects (newVerified bytes' src dst)
  source : ∀ {bytes src src' dst}, bytes.length ≤ 65535 →
    Accepts (newVerified bytes src dst) → Corrupts src.toList src'.toList →
      Rejects (newVerified bytes src' dst)
  destination : ∀ {bytes src dst dst'}, bytes.length ≤ 65535 →
    Accepts (newVerified bytes src dst) → Corrupts dst.toList dst'.toList →
      Rejects (newVerified bytes src dst')

section Corrupted

variable {bytes bytes' : Bytes}

theorem Corrupts.length (corrupted : Corrupts bytes bytes') :
    bytes'.length = bytes.length := by
  cases corrupted with
  | word even inside changed => exact splice_length inside
  | lastByte even changed => simp

/-- The byte past the last word counts 256 times itself, which no other byte is
congruent to. -/
private theorem lastByte_ne {old value : UInt8} (changed : value ≠ old) :
    ¬ value.toNat * 256 ≡ old.toNat * 256 [MOD 65535] := by
  intro same
  have hold := old.toNat_lt
  have hvalue := value.toNat_lt
  have equal : value.toNat * 256 = old.toNat * 256 :=
    Nat.ModEq.eq_of_lt_of_lt same (by omega) (by omega)
  exact changed (UInt8.toNat_inj.mp (by omega))

/-- A corrupted message has another sum. -/
theorem Corrupts.wordSum_ne (corrupted : Corrupts bytes bytes') :
    ¬ wordSum bytes' ≡ wordSum bytes [MOD 65535] := by
  intro same
  cases corrupted with
  | @word _ offset value even inside changed =>
    have difference := wordSum_splice even inside value
    have shifted := same.add_right (wordAt bytes offset).toNat
    rw [difference] at shifted
    exact changed (Nat.ModEq.add_left_cancel' _ shifted)
  | @lastByte front old value even changed =>
    rw [wordSum_append _ even, wordSum_append _ even, wordSum_singleton, wordSum_singleton]
      at same
    exact lastByte_ne changed (Nat.ModEq.add_left_cancel' _ same)

/-- Another first word. -/
private theorem corrupts_cons_cons {high low high' low' : UInt8} (rest : Bytes)
    (changed : ¬ high'.toNat * 256 + low'.toNat ≡ high.toNat * 256 + low.toNat [MOD 65535]) :
    Corrupts (high :: low :: rest) (high' :: low' :: rest) := by
  have written : splice (high :: low :: rest) 0 (u16ToBeBytes (u16FromBeBytes high' low')) =
      high' :: low' :: rest := by
    rw [u16ToBeBytes_fromBeBytes]
    rfl
  rw [← written]
  refine .word rfl (by simp) ?_
  rwa [u16FromBeBytes_toNat, wordAt, u16FromBeBytes_toNat]

/-- A corrupted message is corrupted with two more bytes in front. -/
private theorem Corrupts.cons_cons (corrupted : Corrupts bytes bytes') (high low : UInt8) :
    Corrupts (high :: low :: bytes) (high :: low :: bytes') := by
  cases corrupted with
  | @word _ offset value even inside changed =>
    have room : offset + 2 + 2 ≤ (high :: low :: bytes).length := by
      simp only [List.length_cons]
      omega
    exact @Corrupts.word _ (offset + 2) value (by omega) room changed
  | @lastByte front old value even changed =>
    exact @Corrupts.lastByte (high :: low :: front) old value (by simp; omega) changed

/-- Any other value for one byte corrupts a message. The induction takes two bytes
at a time: within a word the head weighs 256 and the end 1, and neither weight times
the difference of two bytes is a multiple of 65535. -/
theorem corrupts_set {i : ℕ} {value : UInt8} (inside : i < bytes.length)
    (changed : value ≠ byteAt bytes i) : Corrupts bytes (bytes.set i value) := by
  have bound := value.toNat_lt
  have differs : ∀ old : UInt8, value ≠ old → value.toNat ≠ old.toNat :=
    fun old distinct same => distinct (UInt8.toNat_inj.mp same)
  induction bytes using asChunks.induct generalizing i with
  | case1 high low rest ih =>
    have hhigh := high.toNat_lt
    have hlow := low.toNat_lt
    rcases i with _ | _ | i
    · -- The high byte of the first word.
      refine corrupts_cons_cons rest fun same => ?_
      have other := differs high changed
      unfold Nat.ModEq at same
      omega
    · -- The low byte of the first word.
      refine corrupts_cons_cons rest fun same => ?_
      have other := differs low changed
      unfold Nat.ModEq at same
      omega
    · -- A byte of a later word.
      exact (ih (by simpa using inside) changed).cons_cons high low
  | case2 remainder short =>
    rcases remainder with _ | ⟨last, _ | ⟨low, rest⟩⟩
    · simp at inside
    · -- The last byte of a message of odd length.
      have first : i = 0 := by simpa using inside
      subst first
      exact @Corrupts.lastByte [] last value rfl changed
    · exact absurd rfl (short last low rest)

end Corrupted

section Recomputed

variable {P : Type} [PacketSpec P] {n : ℕ}

/-- A constructor detects corruption when it returns, when what it accepts adds up
to a multiple of 65535, and when a corrupted packet adds up to something else. -/
theorem detectsCorruption_of_sum
    {newVerified : Bytes → Vector UInt8 n → Vector UInt8 n → Exec (Result (PacketView P))}
    (total : Bytes → ℕ)
    (returns : ∀ bytes src dst, bytes.length ≤ 65535 → Returns (newVerified bytes src dst))
    (sums : ∀ bytes src dst, Accepts (newVerified bytes src dst) →
      65535 ∣ wordSum src.toList + wordSum dst.toList + total bytes)
    (changes : ∀ bytes bytes' src dst, Accepts (newVerified bytes src dst) →
      Corrupts bytes bytes' → ¬ total bytes' ≡ total bytes [MOD 65535]) :
    DetectsCorruption newVerified := by
  -- Two accepted packets add up to congruent sums, whatever they are.
  have agree : ∀ {bytes bytes' src src' dst dst'}, Accepts (newVerified bytes src dst) →
      Accepts (newVerified bytes' src' dst') →
      wordSum src'.toList + wordSum dst'.toList + total bytes' ≡
        wordSum src.toList + wordSum dst.toList + total bytes [MOD 65535] := by
    intro bytes bytes' src src' dst dst' accepted accepted'
    have zero := Nat.modEq_zero_iff_dvd.mpr (sums bytes src dst accepted)
    exact (Nat.modEq_zero_iff_dvd.mpr (sums bytes' src' dst' accepted')).trans zero.symm
  constructor
  · intro bytes bytes' src dst short accepted corrupted
    refine rejects_of_returns (returns _ _ _ (corrupted.length ▸ short)) fun accepted' => ?_
    exact changes bytes bytes' src dst accepted corrupted
      (Nat.ModEq.add_left_cancel' _ (agree accepted accepted'))
  · intro bytes src src' dst short accepted corrupted
    refine rejects_of_returns (returns _ _ _ short) fun accepted' => ?_
    have same := Nat.ModEq.add_right_cancel' _ (agree accepted accepted')
    exact corrupted.wordSum_ne (Nat.ModEq.add_right_cancel' _ same)
  · intro bytes src dst dst' short accepted corrupted
    refine rejects_of_returns (returns _ _ _ short) fun accepted' => ?_
    have same := Nat.ModEq.add_right_cancel' _ (agree accepted accepted')
    exact corrupted.wordSum_ne (Nat.ModEq.add_left_cancel' _ same)

/-- Verification by recomputation detects corruption when the checksum is computed
from the words of the addresses, of `extra`, and of the packet outside its checksum
field, and a corrupted packet has another sum with its own `extra`. -/
theorem detectsCorruption_of_recomputed {stored : Bytes → Exec UInt16}
    {checksum : Vector UInt8 n → Vector UInt8 n → Bytes → Exec UInt16} (extra : Bytes → ℕ)
    {offset : ℕ} (even : offset % 2 = 0)
    (validated : ∀ bytes, Returns (PacketSpec.validate P bytes))
    (inside : ∀ bytes, PacketSpec.validate P bytes = .ok (.ok ()) → offset + 2 ≤ bytes.length)
    (field : ∀ bytes, PacketSpec.validate P bytes = .ok (.ok ()) →
      stored bytes = .ok (wordAt bytes offset))
    (positive : ∀ bytes, 0 < extra bytes)
    (computed : ∀ src dst bytes, PacketSpec.validate P bytes = .ok (.ok ()) →
      checksum src dst bytes = if sumOutside bytes offset < 2 ^ 32 then
        .ok (checksumOf (wordSum src.toList + wordSum dst.toList + extra bytes +
          sumOutside bytes offset)) else .error .overflow)
    (changes : ∀ bytes bytes', PacketSpec.validate P bytes = .ok (.ok ()) →
      Corrupts bytes bytes' →
        ¬ extra bytes' + wordSum bytes' ≡ extra bytes + wordSum bytes [MOD 65535]) :
    DetectsCorruption fun bytes src dst => newVerifiedWith P stored (checksum src dst) bytes := by
  have accepts_iff {bytes : Bytes} {src dst : Vector UInt8 n} :
      Accepts (newVerifiedWith P stored (checksum src dst) bytes) ↔
        PacketSpec.validate P bytes = .ok (.ok ()) ∧
          checksum src dst bytes = .ok (wordAt bytes offset) :=
    accepts_newVerifiedWith_iff (field bytes)
  refine detectsCorruption_of_sum (fun bytes => extra bytes + wordSum bytes) ?_ ?_ ?_
  · intro bytes src dst short
    refine newVerifiedWith_returns (validated bytes) (fun valid => .of_eq_ok (field bytes valid)) ?_
    intro valid
    rw [computed src dst bytes valid, if_pos (sumOutside_lt short offset)]
    exact returns_ok _
  · -- The stored checksum completes the sum it is the checksum of.
    intro bytes src dst accepted
    obtain ⟨valid, checks⟩ := accepts_iff.mp accepted
    rw [computed src dst bytes valid] at checks
    have nonzero : 0 < wordSum src.toList + wordSum dst.toList + extra bytes +
        sumOutside bytes offset := Nat.add_pos_left (Nat.add_pos_right _ (positive bytes)) _
    have total := ((checksumOf_eq_iff nonzero).mp (checked_eq_ok.mp checks).2).1
    rwa [Nat.add_assoc _ (sumOutside bytes offset),
      ← wordSum_eq_add_field even (inside bytes valid), Nat.add_assoc] at total
  · intro bytes bytes' src dst accepted corrupted
    exact changes bytes bytes' (accepts_iff.mp accepted).1 corrupted

end Recomputed

namespace Tcp

/-- The length is in the pseudo-header too, and no corruption changes it. -/
private theorem add_wordSum_ne {bytes bytes' : Bytes} (corrupted : Corrupts bytes bytes')
    (extra : ℕ → ℕ) :
    ¬ extra bytes'.length + wordSum bytes' ≡ extra bytes.length + wordSum bytes [MOD 65535] := by
  rw [corrupted.length]
  exact fun same => corrupted.wordSum_ne (Nat.ModEq.add_left_cancel' _ same)

theorem newVerifiedIpv4_detectsCorruption : DetectsCorruption newVerifiedIpv4 := by
  refine detectsCorruption_of_recomputed
    (fun bytes => tcpProtocol.toNat + (UInt16.ofNat bytes.length).toNat) rfl validate_returns
    checksum_inside (fun _ => checksum_of_valid) (fun _ => Nat.add_pos_left (by decide) _)
    ?_ ?_
  · intro src dst bytes valid
    rw [tcpChecksumIpv4_eq src dst (validate_eq_ok_iff.mp valid).fixed, totalIpv4,
      wordSum_pseudoIpv4, Nat.add_assoc _ tcpProtocol.toNat]
  · exact fun _ _ _ corrupted =>
      add_wordSum_ne corrupted fun length => tcpProtocol.toNat + (UInt16.ofNat length).toNat

theorem newVerifiedIpv6_detectsCorruption : DetectsCorruption newVerifiedIpv6 := by
  refine detectsCorruption_of_recomputed
    (fun bytes => wordSum (u32ToBeBytes (.ofNat bytes.length)) + tcpProtocol.toNat) rfl
    validate_returns checksum_inside (fun _ => checksum_of_valid)
    (fun _ => Nat.add_pos_right _ (by decide)) ?_ ?_
  · intro src dst bytes valid
    rw [tcpChecksumIpv6_eq src dst (validate_eq_ok_iff.mp valid).fixed, totalIpv6,
      wordSum_pseudoIpv6, Nat.add_assoc _ _ tcpProtocol.toNat]
  · exact fun _ _ _ corrupted => add_wordSum_ne corrupted fun length =>
      wordSum (u32ToBeBytes (.ofNat length)) + tcpProtocol.toNat

end Tcp

namespace Udp

/-- A length of 16 bits fills one of the two words it has in the pseudo-header. -/
private theorem wordSum_length (length : UInt16) :
    wordSum (u32ToBeBytes (.ofNat length.toNat)) = length.toNat := by
  have bound := length.toNat_lt
  rw [wordSum_u32ToBeBytes, UInt32.toNat_ofNat_of_lt' (by simp only [UInt32.size]; omega)]
  omega

/-- A word that counts twice moves a sum by twice the difference, and 2 is coprime to
65535. -/
private theorem modEq_of_counted_twice {sum sum' old value : ℕ}
    (moved : sum' + old = sum + value) (same : value + sum' ≡ old + sum [MOD 65535]) :
    value ≡ old [MOD 65535] := by
  have shifted := same.add_right old
  have left : value + sum' + old = sum + 2 * value := by omega
  have right : old + sum + old = sum + 2 * old := by omega
  rw [left, right] at shifted
  have odd : Nat.gcd 65535 2 = 1 := by decide
  exact Nat.ModEq.cancel_left_of_coprime odd (Nat.ModEq.add_left_cancel' sum shifted)

/-- Corruption changes the sum of a datagram and its length field, also where the
length field is the word replaced. -/
theorem wordSum_add_length_ne {bytes bytes' : Bytes} (fixed : 8 ≤ bytes.length)
    (corrupted : Corrupts bytes bytes') :
    ¬ (wordAt bytes' 4).toNat + wordSum bytes' ≡
      (wordAt bytes 4).toNat + wordSum bytes [MOD 65535] := by
  by_cases kept : wordAt bytes' 4 = wordAt bytes 4
  · rw [kept]
    exact fun same => corrupted.wordSum_ne (Nat.ModEq.add_left_cancel' _ same)
  · intro same
    cases corrupted with
    | @word _ offset value even inside changed =>
      -- Only a write over the length field changes it.
      have field : offset = 4 := by
        by_contra elsewhere
        exact kept (wordAt_splice_of_outside (by omega) (by simp only [u16ToBeBytes_length]; omega))
      subst field
      have difference := wordSum_splice even inside value
      rw [wordAt_splice_self (by omega)] at same
      exact changed (modEq_of_counted_twice difference same)
    | @lastByte front old value even changed =>
      rw [List.length_append, List.length_singleton] at fixed
      rw [wordAt_append (by omega), wordAt_append (by omega)] at kept
      exact kept rfl

theorem newVerifiedIpv6_detectsCorruption : DetectsCorruption newVerifiedIpv6 := by
  refine detectsCorruption_of_recomputed
    (fun bytes => udpProtocol.toNat + (wordAt bytes 4).toNat) (show 6 % 2 = 0 from rfl)
    validate_returns checksum_inside (fun _ => checksum_of_valid)
    (fun _ => Nat.add_pos_left (by decide) _) ?_ ?_
  · intro src dst bytes valid
    rw [udpChecksumIpv6_eq src dst (validate_eq_ok_iff.mp valid).fixed, totalIpv6,
      wordSum_pseudoIpv6, wordSum_length, Nat.add_assoc _ _ udpProtocol.toNat,
      Nat.add_comm _ udpProtocol.toNat]
  · intro bytes bytes' valid corrupted same
    rw [Nat.add_assoc, Nat.add_assoc] at same
    exact wordSum_add_length_ne (validate_eq_ok_iff.mp valid).fixed corrupted
      (Nat.ModEq.add_left_cancel' _ same)

end Udp

/-- The constructors that always recompute the checksum detect every corruption of a
word, and so every change of a byte. -/
theorem verifiedPackets_detectCorruption :
    DetectsCorruption Tcp.newVerifiedIpv4 ∧ DetectsCorruption Tcp.newVerifiedIpv6 ∧
      DetectsCorruption Udp.newVerifiedIpv6 ∧
      ∀ {bytes : Bytes} {i : ℕ} {value : UInt8}, i < bytes.length → value ≠ byteAt bytes i →
        Corrupts bytes (bytes.set i value) :=
  ⟨Tcp.newVerifiedIpv4_detectsCorruption, Tcp.newVerifiedIpv6_detectsCorruption,
    Udp.newVerifiedIpv6_detectsCorruption, corrupts_set⟩

/-- An empty datagram, the first byte of its source port changed in flight. -/
theorem verifiedPackets_detectCorruption_port :
    Rejects (Udp.newVerifiedIpv6 ([0, 0, 0, 0, 0, 8, 0xff, 0xde].set 0 1) (.replicate 16 0)
      (.replicate 16 0)) :=
  verifiedPackets_detectCorruption.2.2.1.packet (by decide) (by decide)
    (verifiedPackets_detectCorruption.2.2.2 (by decide) (by decide))

end Packet

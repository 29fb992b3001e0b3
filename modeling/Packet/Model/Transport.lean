/-
# Checksums of transport segments

TCP and UDP checksum their bytes together with a pseudo-header made of the
addresses, the protocol number and a length. The two pseudo-header layouts are
built in place in a zeroed array; what comes out is the concatenation of the
fields.
-/

import Packet.Model.Checksum

namespace Packet

open Rust Math Checksum

/-- An IPv4 address as it is on the wire. -/
abbrev Ipv4Addr := Vector UInt8 4

/-- An IPv6 address as it is on the wire. -/
abbrev Ipv6Addr := Vector UInt8 16

/-! ## Pseudo-headers -/

/-- The 12-byte array filled in by `tcp_checksum_ipv4` and `udp_checksum_ipv4`. -/
def buildPseudoIpv4 (src dst : Ipv4Addr) (protocol : UInt8) (len : UInt16) : Exec Bytes := do
  let pseudo := List.replicate 12 0
  let pseudo ← copyFromSlice pseudo 0 4 src.toList
  let pseudo ← copyFromSlice pseudo 4 8 dst.toList
  -- The byte is zero already; the source writes it all the same.
  let pseudo ← assign pseudo 8 0
  let pseudo ← assign pseudo 9 protocol
  copyFromSlice pseudo 10 12 (u16ToBeBytes len)

/-- The 40-byte array filled in by `tcp_checksum_ipv6` and `udp_checksum_ipv6`. -/
def buildPseudoIpv6 (src dst : Ipv6Addr) (protocol : UInt8) (len : UInt32) : Exec Bytes := do
  let pseudo := List.replicate 40 0
  let pseudo ← copyFromSlice pseudo 0 16 src.toList
  let pseudo ← copyFromSlice pseudo 16 32 dst.toList
  let pseudo ← copyFromSlice pseudo 32 36 (u32ToBeBytes len)
  -- These three are zero already, too.
  let pseudo ← copyFromSlice pseudo 36 39 (List.replicate 3 0)
  assign pseudo 39 protocol

/-- Addresses, zero, protocol, length. -/
def pseudoIpv4 (src dst : Ipv4Addr) (protocol : UInt8) (len : UInt16) : Bytes :=
  src.toList ++ dst.toList ++ [0, protocol] ++ u16ToBeBytes len

/-- Addresses, length, zeros, protocol. -/
def pseudoIpv6 (src dst : Ipv6Addr) (protocol : UInt8) (len : UInt32) : Bytes :=
  src.toList ++ dst.toList ++ u32ToBeBytes len ++ [0, 0, 0, protocol]

/-- One in-place write of a field, over zeros between what is already written and
what is still zero. -/
private theorem write_field (front old back values : Bytes) (lo hi : ℕ)
    (start : front.length = lo) (width : values.length = hi - lo) (order : lo ≤ hi)
    (same : old.length = hi - lo) :
    copyFromSlice (front ++ old ++ back) lo hi values = .ok (front ++ values ++ back) := by
  rw [copyFromSlice_eq_ok order (by simp; omega) width]
  subst start
  rw [splice_append (by omega)]

private theorem write_byte (front back : Bytes) (old value : UInt8) (i : ℕ)
    (start : front.length = i) :
    assign (front ++ [old] ++ back) i value = .ok (front ++ [value] ++ back) := by
  rw [assign_eq_ok value (by simp; omega), set_eq_splice (by simp; omega)]
  subst start
  rw [splice_append (by simp)]

theorem buildPseudoIpv4_eq (src dst : Ipv4Addr) (protocol : UInt8) (len : UInt16) :
    buildPseudoIpv4 src dst protocol len = .ok (pseudoIpv4 src dst protocol len) := by
  -- Each write extends what is filled in and takes the bytes from the zeros after it.
  have first : copyFromSlice (List.replicate 12 0) 0 4 src.toList =
      .ok (src.toList ++ List.replicate 8 0) :=
    write_field [] (List.replicate 4 0) (List.replicate 8 0) src.toList 0 4 rfl (by simp)
      (by decide) rfl
  have second : copyFromSlice (src.toList ++ List.replicate 8 0) 4 8 dst.toList =
      .ok (src.toList ++ dst.toList ++ [0, 0, 0, 0]) := by
    have := write_field src.toList (List.replicate 4 0) [0, 0, 0, 0] dst.toList 4 8 (by simp)
      (by simp) (by decide) rfl
    rwa [List.append_assoc] at this
  have third : assign (src.toList ++ dst.toList ++ [0, 0, 0, 0]) 8 0 =
      .ok (src.toList ++ dst.toList ++ [0, 0, 0, 0]) := by
    have := write_byte (src.toList ++ dst.toList) [0, 0, 0] 0 0 8 (by simp)
    rwa [List.append_assoc _ [0]] at this
  have fourth : assign (src.toList ++ dst.toList ++ [0, 0, 0, 0]) 9 protocol =
      .ok (src.toList ++ dst.toList ++ [0, protocol] ++ [0, 0]) := by
    have := write_byte (src.toList ++ dst.toList ++ [0]) [0, 0] 0 protocol 9 (by simp)
    simpa only [List.append_assoc, List.cons_append, List.nil_append] using this
  have last : copyFromSlice (src.toList ++ dst.toList ++ [0, protocol] ++ [0, 0]) 10 12
      (u16ToBeBytes len) = .ok (pseudoIpv4 src dst protocol len) := by
    have := write_field (src.toList ++ dst.toList ++ [0, protocol]) [0, 0] [] (u16ToBeBytes len)
      10 12 (by simp) (by simp) (by decide) rfl
    simpa only [pseudoIpv4, List.append_nil] using this
  simp only [buildPseudoIpv4, first, second, third, fourth, last, ok_bind]

theorem buildPseudoIpv6_eq (src dst : Ipv6Addr) (protocol : UInt8) (len : UInt32) :
    buildPseudoIpv6 src dst protocol len = .ok (pseudoIpv6 src dst protocol len) := by
  have first : copyFromSlice (List.replicate 40 0) 0 16 src.toList =
      .ok (src.toList ++ List.replicate 24 0) :=
    write_field [] (List.replicate 16 0) (List.replicate 24 0) src.toList 0 16 rfl (by simp)
      (by decide) rfl
  have second : copyFromSlice (src.toList ++ List.replicate 24 0) 16 32 dst.toList =
      .ok (src.toList ++ dst.toList ++ List.replicate 8 0) := by
    have := write_field src.toList (List.replicate 16 0) (List.replicate 8 0) dst.toList 16 32
      (by simp) (by simp) (by decide) rfl
    rwa [List.append_assoc] at this
  have third : copyFromSlice (src.toList ++ dst.toList ++ List.replicate 8 0) 32 36
      (u32ToBeBytes len) = .ok (src.toList ++ dst.toList ++ u32ToBeBytes len ++ [0, 0, 0, 0]) := by
    have := write_field (src.toList ++ dst.toList) (List.replicate 4 0) [0, 0, 0, 0]
      (u32ToBeBytes len) 32 36 (by simp) (by simp) (by decide) rfl
    rwa [List.append_assoc _ (List.replicate 4 0)] at this
  have fourth : copyFromSlice (src.toList ++ dst.toList ++ u32ToBeBytes len ++ [0, 0, 0, 0]) 36 39
      (List.replicate 3 0) =
        .ok (src.toList ++ dst.toList ++ u32ToBeBytes len ++ [0, 0, 0, 0]) := by
    have := write_field (src.toList ++ dst.toList ++ u32ToBeBytes len) (List.replicate 3 0) [0]
      (List.replicate 3 0) 36 39 (by simp) (by simp) (by decide) rfl
    rwa [List.append_assoc _ (List.replicate 3 0)] at this
  have last : assign (src.toList ++ dst.toList ++ u32ToBeBytes len ++ [0, 0, 0, 0]) 39 protocol =
      .ok (pseudoIpv6 src dst protocol len) := by
    have := write_byte (src.toList ++ dst.toList ++ u32ToBeBytes len ++ [0, 0, 0]) [] 0 protocol 39
      (by simp)
    simpa only [pseudoIpv6, List.append_assoc, List.cons_append, List.nil_append] using this
  simp only [buildPseudoIpv6, first, second, third, fourth, last, ok_bind]

/-- The length field of an IPv4 pseudo-header. -/
theorem readU16_pseudoIpv4 (src dst : Ipv4Addr) (protocol : UInt8) (len : UInt16) :
    readU16 (pseudoIpv4 src dst protocol len) 10 = .ok len := by
  have front : (src.toList ++ dst.toList ++ [0, protocol]).length = 10 := by simp
  have byte := index_append_right (src.toList ++ dst.toList ++ [0, protocol]) (u16ToBeBytes len)
  rw [front] at byte
  rw [readU16, pseudoIpv4, byte 0, byte 1]
  exact congrArg Except.ok (u16FromBeBytes_toBeBytes len)

/-- The length field of an IPv6 pseudo-header. -/
theorem readU32_pseudoIpv6 (src dst : Ipv6Addr) (protocol : UInt8) (len : UInt32) :
    readU32 (pseudoIpv6 src dst protocol len) 32 = .ok len := by
  have front : (src.toList ++ dst.toList).length = 32 := by simp
  have byte := index_append_right (src.toList ++ dst.toList)
    (u32ToBeBytes len ++ [0, 0, 0, protocol])
  rw [front] at byte
  rw [readU32, pseudoIpv6, List.append_assoc, byte 0, byte 1, byte 2, byte 3]
  exact congrArg Except.ok (u32ToBeBytes_inj.mp (u32ToBeBytes_fromBeBytes _ _ _ _))

/-! ### Their sums -/

@[simp] theorem pseudoIpv4_length (src dst : Ipv4Addr) (protocol : UInt8) (len : UInt16) :
    (pseudoIpv4 src dst protocol len).length = 12 := by
  simp [pseudoIpv4]

@[simp] theorem pseudoIpv6_length (src dst : Ipv6Addr) (protocol : UInt8) (len : UInt32) :
    (pseudoIpv6 src dst protocol len).length = 40 := by
  simp [pseudoIpv6]

theorem wordSum_u16ToBeBytes (value : UInt16) : wordSum (u16ToBeBytes value) = value.toNat := by
  have bound := value.toNat_lt
  simp only [u16ToBeBytes, wordSum_cons_cons, wordSum_nil, UInt8.toNat_ofNat']
  omega

/-- The two words of a 32-bit value. -/
theorem wordSum_u32ToBeBytes (value : UInt32) :
    wordSum (u32ToBeBytes value) = value.toNat / 65536 + value.toNat % 65536 := by
  have bound := value.toNat_lt
  simp only [u32ToBeBytes, wordSum_cons_cons, wordSum_nil, UInt8.toNat_ofNat']
  omega

theorem wordSum_pseudoIpv4 (src dst : Ipv4Addr) (protocol : UInt8) (len : UInt16) :
    wordSum (pseudoIpv4 src dst protocol len) =
      wordSum src.toList + wordSum dst.toList + protocol.toNat + len.toNat := by
  have addresses : (src.toList ++ dst.toList).length % 2 = 0 := by simp
  have fields : (src.toList ++ dst.toList ++ [0, protocol]).length % 2 = 0 := by simp
  rw [pseudoIpv4, wordSum_append _ fields, wordSum_append _ addresses, wordSum_append _ (by simp),
    wordSum_u16ToBeBytes]
  simp

theorem wordSum_pseudoIpv6 (src dst : Ipv6Addr) (protocol : UInt8) (len : UInt32) :
    wordSum (pseudoIpv6 src dst protocol len) =
      wordSum src.toList + wordSum dst.toList + wordSum (u32ToBeBytes len) + protocol.toNat := by
  have addresses : (src.toList ++ dst.toList).length % 2 = 0 := by simp
  have fields : (src.toList ++ dst.toList ++ u32ToBeBytes len).length % 2 = 0 := by simp
  rw [pseudoIpv6, wordSum_append _ fields, wordSum_append _ addresses, wordSum_append _ (by simp)]
  simp

/-- The words of a pseudo-header and a segment as one message. -/
theorem wordSum_message {pseudo segment : Bytes} {offset : ℕ} (aligned : pseudo.length % 2 = 0)
    (even : offset % 2 = 0) (inside : offset + 2 ≤ segment.length) :
    wordSum (pseudo ++ segment) =
      wordSum pseudo + sumOutside segment offset + (wordAt segment offset).toNat := by
  rw [wordSum_append segment aligned, wordSum_eq_add_field even inside, Nat.add_assoc]

/-! ## Checksums of a segment -/

/-- A checksum function on a segment: its value is the checksum of a pseudo-header and
the words of the segment outside the checksum field, and it does not read the field. -/
structure SegmentChecksum (checksum : Bytes → Exec UInt16) (pseudo segment : Bytes)
    (offset : ℕ) : Prop where
  aligned : pseudo.length % 2 = 0
  small : pseudo.length ≤ 40
  even : offset % 2 = 0
  inside : offset + 2 ≤ segment.length
  nonzero : 0 < wordSum pseudo + sumOutside segment offset
  value : checksum segment = if sumOutside segment offset < 2 ^ 32 then
    .ok (checksumOf (wordSum pseudo + sumOutside segment offset)) else .error .overflow
  unread : ∀ stored : UInt16,
    checksum (splice segment offset (u16ToBeBytes stored)) = checksum segment

/-- On a segment of at most 65535 bytes nothing overflows. -/
theorem SegmentChecksum.eq_ok {checksum : Bytes → Exec UInt16} {pseudo segment : Bytes}
    {offset : ℕ} (sums : SegmentChecksum checksum pseudo segment offset)
    (short : segment.length ≤ 65535) :
    checksum segment = .ok (checksumOf (wordSum pseudo + sumOutside segment offset)) := by
  rw [sums.value, if_pos (sumOutside_lt short offset)]

/-! ## Verification by recomputation -/

/-- `new_verified_*`, for a stored checksum and a checksum function. -/
def newVerifiedWith (P : Type) [PacketSpec P] (stored checksum : Bytes → Exec UInt16)
    (bytes : Bytes) : Exec (Result (PacketView P)) := do
  match ← PacketView.new P bytes with
  | .error error => return .error error
  | .ok view =>
    let expected ← checksum bytes
    if expected ≠ (← stored view.bytes) then
      return .error (.invalidChecksum expected (← stored view.bytes))
    return .ok view

variable {P : Type} [PacketSpec P]

theorem newVerifiedWith_of_valid {stored checksum : Bytes → Exec UInt16} {bytes : Bytes}
    {actual expected : UInt16} (valid : PacketSpec.validate P bytes = .ok (.ok ()))
    (field : stored bytes = .ok actual) (computed : checksum bytes = .ok expected) :
    newVerifiedWith P stored checksum bytes =
      if expected = actual then .ok (.ok ⟨bytes, valid⟩)
      else .ok (.error (.invalidChecksum expected actual)) := by
  rw [newVerifiedWith, PacketView.new_of_valid valid]
  simp only [ok_bind, computed, field, pure_eq_ok]
  by_cases same : expected = actual <;> simp [same]

theorem newVerifiedWith_returns {stored checksum : Bytes → Exec UInt16} {bytes : Bytes}
    (validated : Returns (PacketSpec.validate P bytes))
    (field : PacketSpec.validate P bytes = .ok (.ok ()) → Returns (stored bytes))
    (computed : PacketSpec.validate P bytes = .ok (.ok ()) → Returns (checksum bytes)) :
    Returns (newVerifiedWith P stored checksum bytes) := by
  obtain ⟨result, outcome⟩ := validated
  cases result with
  | error error =>
    rw [newVerifiedWith, PacketView.new_of_invalid outcome]
    exact returns_ok _
  | ok _ =>
    obtain ⟨actual, read⟩ := field outcome
    obtain ⟨expected, sum⟩ := computed outcome
    rw [newVerifiedWith_of_valid outcome read sum]
    split <;> exact returns_ok _

/-- Verification by recomputation accepts exactly the valid slices whose stored
checksum is the computed one. -/
theorem accepts_newVerifiedWith_iff {stored checksum : Bytes → Exec UInt16} {bytes : Bytes}
    {actual : UInt16} (field : PacketSpec.validate P bytes = .ok (.ok ()) →
      stored bytes = .ok actual) :
    Accepts (newVerifiedWith P stored checksum bytes) ↔
      PacketSpec.validate P bytes = .ok (.ok ()) ∧ checksum bytes = .ok actual := by
  constructor
  · intro accepted
    have valid : PacketSpec.validate P bytes = .ok (.ok ()) :=
      valid_of_accepts accepted fun _ => rfl
    obtain ⟨view, verified⟩ := accepted
    rw [newVerifiedWith, PacketView.new_of_valid valid, ok_bind] at verified
    dsimp only at verified
    obtain ⟨expected, computed, verified⟩ := bind_eq_ok.mp verified
    rw [field valid, ok_bind] at verified
    -- A value that differs from the stored one is reported, not accepted.
    by_cases same : expected = actual
    · exact ⟨valid, same ▸ computed⟩
    · simp [same] at verified
  · rintro ⟨valid, computed⟩
    rw [newVerifiedWith_of_valid valid (field valid) computed, if_pos rfl]
    exact accepts_ok_ok _

end Packet

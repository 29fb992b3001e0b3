/-
# Transport checksums in one pass

The code adds up a pseudo-header, the bytes before the checksum field and those
after it, folding in between. The value is that of one summation over the
pseudo-header followed by the segment with its field zeroed: folding keeps the
canonical representative of a sum, and a pseudo-header ends on a word boundary.
-/

import Packet.Model.Tcp
import Packet.Model.Udp

namespace Packet

open Rust Checksum

/-- A segment with its checksum field zeroed. -/
def zeroedField (segment : Bytes) (offset : ℕ) : Bytes := splice segment offset [0, 0]

/-- The checksum of the concatenation, summed in one pass. -/
def onePassChecksum (pseudo segment : Bytes) (offset : ℕ) : Exec UInt16 := do
  return ~~~(← onesComplementSum (pseudo ++ zeroedField segment offset) none)

/-- A checksum of a segment is returned, is that of one pass after a pseudo-header,
and does not depend on the two bytes of the field. -/
structure OnePass (checksum : Bytes → Exec UInt16) (pseudo segment : Bytes) (offset : ℕ) :
    Prop where
  returns : Returns (checksum segment)
  value : checksum segment = onePassChecksum pseudo segment offset
  unread : ∀ high low, checksum (splice segment offset [high, low]) = checksum segment

section Sums

variable {pseudo segment : Bytes} {offset : ℕ}

/-- A zeroed field adds nothing. -/
theorem wordSum_append_zeroedField (aligned : pseudo.length % 2 = 0) (even : offset % 2 = 0)
    (inside : offset + 2 ≤ segment.length) :
    wordSum (pseudo ++ zeroedField segment offset) =
      wordSum pseudo + sumOutside segment offset := by
  -- The pseudo-header ends on a word boundary, so the words of the segment stay whole.
  rw [wordSum_append _ aligned, zeroedField, wordSum_splice_zeros even inside]

theorem onePassChecksum_eq (aligned : pseudo.length % 2 = 0) (even : offset % 2 = 0)
    (inside : offset + 2 ≤ segment.length) (short : pseudo.length + segment.length ≤ 131072) :
    onePassChecksum pseudo segment offset =
      .ok (checksumOf (wordSum pseudo + sumOutside segment offset)) := by
  have size : (zeroedField segment offset).length = segment.length := length_splice_word inside 0
  have fits : wordSum (pseudo ++ zeroedField segment offset) < 2 ^ 32 :=
    wordSum_lt (by rw [List.length_append, size]; exact short)
  rw [onePassChecksum, onesComplementSum_none_eq, if_pos fits,
    wordSum_append_zeroedField aligned even inside]
  rfl

/-- A checksum of a segment is a checksum of one pass. -/
theorem onePass_of_segmentChecksum {checksum : Bytes → Exec UInt16}
    (sums : SegmentChecksum checksum pseudo segment offset) (short : segment.length ≤ 65535) :
    OnePass checksum pseudo segment offset where
  returns := .of_eq_ok (sums.eq_ok short)
  value := by
    have small := sums.small
    rw [sums.eq_ok short, onePassChecksum_eq sums.aligned sums.even sums.inside (by omega)]
  unread := by
    intro high low
    rw [← u16ToBeBytes_fromBeBytes high low]
    exact sums.unread _

end Sums

/-- The four transport checksums of accepted slices of at most 65535 bytes, a
datagram's with the length field equal to the length of the slice. -/
theorem transportChecksums_onePass {bytes : Bytes} (short : bytes.length ≤ 65535) :
    (Accepts (PacketView.new Tcp bytes) →
      (∀ src dst, OnePass (Tcp.tcpChecksumIpv4 src dst)
        (pseudoIpv4 src dst 6 (.ofNat bytes.length)) bytes 16) ∧
      (∀ src dst, OnePass (Tcp.tcpChecksumIpv6 src dst)
        (pseudoIpv6 src dst 6 (.ofNat bytes.length)) bytes 16)) ∧
    (Accepts (PacketView.new Udp bytes) →
      (∀ length, UdpPacket.length bytes = .ok length → length.toNat = bytes.length) →
      (∀ src dst, OnePass (Udp.udpChecksumIpv4 src dst)
        (pseudoIpv4 src dst 17 (.ofNat bytes.length)) bytes 6) ∧
      (∀ src dst, OnePass (Udp.udpChecksumIpv6 src dst)
        (pseudoIpv6 src dst 17 (.ofNat bytes.length)) bytes 6)) := by
  constructor
  · intro accepted
    have fixed : 20 ≤ bytes.length :=
      (Tcp.validate_eq_ok_iff.mp (accepts_new_iff.mp accepted)).fixed
    exact ⟨fun src dst => onePass_of_segmentChecksum (Tcp.segmentChecksumIpv4 src dst fixed) short,
      fun src dst => onePass_of_segmentChecksum (Tcp.segmentChecksumIpv6 src dst fixed) short⟩
  · intro accepted field
    have fixed : 8 ≤ bytes.length :=
      (Udp.validate_eq_ok_iff.mp (accepts_new_iff.mp accepted)).fixed
    -- The pseudo-header takes its length from the field, which is that of the slice.
    have length := field _ (Udp.length_eq_ok fixed)
    have word : wordAt bytes 4 = .ofNat bytes.length := by
      rw [← length, UInt16.ofNat_toNat]
    constructor <;> intro src dst
    · have sums := Udp.segmentChecksumIpv4 src dst fixed
      rw [word] at sums
      exact onePass_of_segmentChecksum sums short
    · have sums := Udp.segmentChecksumIpv6 src dst fixed
      rw [length] at sums
      exact onePass_of_segmentChecksum sums short

/-- A segment with one byte of payload, over IPv4. -/
theorem transportChecksums_onePass_segment :
    OnePass (Tcp.tcpChecksumIpv4 (.replicate 4 1) (.replicate 4 2))
      (pseudoIpv4 (.replicate 4 1) (.replicate 4 2) 6
        (.ofNat (Tcp.bareHeader 0x50 ++ [7]).length))
      (Tcp.bareHeader 0x50 ++ [7]) 16 :=
  ((transportChecksums_onePass (by decide)).1 (by decide)).1 _ _

end Packet

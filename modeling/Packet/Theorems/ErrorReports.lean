/-
# What errors tell

An error carries values and is displayed as a text. The values are read from the slice
the error is about and are related as the text has it, a checksum error names the value
that repairs the packet, and the text tells the error.
-/

import Packet.Model.Display
import Packet.Model.Ipv4
import Packet.Model.Ipv6
import Packet.Model.Tcp
import Packet.Model.Udp

namespace Packet

open Rust Checksum

/-! ## Reports -/

/-- What a format fixes of its slices: the version, the least length, and the length that
the bytes of a slice announce once it has that much. -/
structure Layout where
  version : Option UInt8
  least : ℕ
  announced : Bytes → ℕ

/-- The length a slice asks for. -/
def Layout.asked (layout : Layout) (bytes : Bytes) : ℕ :=
  if bytes.length < layout.least then layout.least else layout.announced bytes

/-- The header length is in the first byte. -/
def Ipv4.layout : Layout := ⟨some 4, 20, headerLength⟩

/-- The header announces no length of its own. -/
def Ipv6.layout : Layout := ⟨some 6, 40, fun _ => 40⟩

/-- The header length is in the data offset. -/
def Tcp.layout : Layout := ⟨none, 20, headerLength⟩

/-- The length field. -/
def Udp.layout : Layout := ⟨none, 8, fun bytes => (wordAt bytes 4).toNat⟩

/-- The second byte of a TCP option is its length. -/
def TcpOptions.layout : Layout := ⟨none, 2, fun bytes => (byteAt bytes 1).toNat⟩

/-- A Fragment header has eight bytes; the second byte of the others counts units of eight
bytes after the first. -/
def NextHeaders.layout (code : UInt8) : Layout :=
  ⟨none, 8, fun bytes => if code = 44 then 8 else ((byteAt bytes 1).toNat + 1) * 8⟩

/-- What a constructor reports on beside the bytes of a slice: what the format fixes, the
presence of a Fragment header, and two checksums it compares. -/
structure Subject where
  layout : Layout
  fragment : Prop
  checksums : UInt16 → UInt16 → Prop

/-- Only the bytes, and what the format fixes. -/
def Subject.plain (layout : Layout) : Subject := ⟨layout, False, fun _ _ => False⟩

/-- An error describes a slice: where its values are from, and how they are related. -/
def PacketError.Describes (subject : Subject) (bytes : Bytes) : PacketError → Prop
  | .tooShort needed actual =>
    needed = subject.layout.asked bytes ∧ actual = bytes.length ∧ actual < needed
  | .invalidVersion expected actual =>
    subject.layout.version = some expected ∧ actual = byteAt bytes 0 >>> 4 ∧ actual ≠ expected
  | .invalidIpv4HeaderLength ihlWords => ihlWords = byteAt bytes 0 &&& 0x0f ∧ ihlWords < 5
  | .invalidIpv4TotalLength headerLen totalLen =>
    headerLen = Ipv4.headerLength bytes ∧ totalLen = (wordAt bytes 2).toNat ∧ totalLen < headerLen
  | .fragmentedPacket => subject.fragment
  | .invalidChecksum expected actual => subject.checksums expected actual ∧ actual ≠ expected
  | .invalidUdpLength headerLen actual =>
    headerLen = Udp.headerLength ∧ actual = (wordAt bytes 4).toNat ∧ actual < headerLen
  | .invalidTcpOptionLength kind length =>
    kind = byteAt bytes 0 ∧ length = byteAt bytes 1 ∧ length < 2
  | .invalidTcpHeaderLength dataOffset => dataOffset = byteAt bytes 12 >>> 4 ∧ dataOffset < 5

variable {α : Type}

/-- Every error a constructor returns describes the slice it was given. -/
def Tells (construct : Bytes → Exec (Result α)) (subject : Bytes → Subject) : Prop :=
  ∀ bytes error, construct bytes = .ok (.error error) → error.Describes (subject bytes) bytes

theorem check_eq_error {p : Prop} [Decidable p] {error error' : PacketError}
    {rest : Exec (Result α)} :
    (if p then .ok (.error error) else rest) = .ok (.error error') ↔
      p ∧ error = error' ∨ ¬ p ∧ rest = .ok (.error error') := by
  by_cases h : p <;> simp [h]

/-- What needs no more than the bytes is so of any subject. -/
theorem PacketError.Describes.of_plain {error : PacketError} {layout : Layout}
    {bytes : Bytes} (described : error.Describes (.plain layout) bytes) (fragment : Prop)
    (checksums : UInt16 → UInt16 → Prop) : error.Describes ⟨layout, fragment, checksums⟩ bytes := by
  cases error with
  | fragmentedPacket => exact described.elim
  | invalidChecksum expected actual => exact described.1.elim
  | _ => exact described

/-! ## Validators -/

section Lengths

variable {layout : Layout} {bytes : Bytes}

/-- A slice shorter than the least length asks for that. -/
theorem describes_short (short : bytes.length < layout.least) :
    (PacketError.tooShort layout.least bytes.length).Describes (.plain layout) bytes :=
  ⟨(if_pos short).symm, rfl, short⟩

/-- A longer one asks for what it announces. -/
theorem describes_cut (long : ¬ bytes.length < layout.least)
    (cut : bytes.length < layout.announced bytes) :
    (PacketError.tooShort (layout.announced bytes) bytes.length).Describes (.plain layout) bytes :=
  ⟨(if_neg long).symm, rfl, cut⟩

end Lengths

theorem Ipv4.validate_tells : Tells (PacketSpec.validate Ipv4) fun _ => .plain layout := by
  intro bytes error rejected
  change validate bytes = .ok (.error error) at rejected
  simp only [validate_eq, check_eq_error] at rejected
  rcases rejected with
    ⟨short, rfl⟩ | ⟨long, ⟨other, rfl⟩ | ⟨_, ⟨few, rfl⟩ | ⟨_, ⟨cut, rfl⟩ |
      ⟨_, ⟨total, rfl⟩ | end_⟩⟩⟩⟩
  · exact describes_short short
  · exact ⟨rfl, rfl, other⟩
  · exact ⟨rfl, few⟩
  · exact describes_cut long cut
  · exact ⟨rfl, rfl, total⟩
  · simp at end_

theorem Ipv6.validate_tells : Tells (PacketSpec.validate Ipv6) fun _ => .plain layout := by
  intro bytes error rejected
  change validate bytes = .ok (.error error) at rejected
  simp only [validate_eq, check_eq_error] at rejected
  rcases rejected with ⟨short, rfl⟩ | ⟨_, ⟨other, rfl⟩ | end_⟩
  · exact describes_short short
  · exact ⟨rfl, rfl, other⟩
  · simp at end_

theorem Tcp.validate_tells : Tells (PacketSpec.validate Tcp) fun _ => .plain layout := by
  intro bytes error rejected
  change validate bytes = .ok (.error error) at rejected
  simp only [validate_eq, check_eq_error] at rejected
  rcases rejected with ⟨short, rfl⟩ | ⟨long, ⟨few, rfl⟩ | ⟨_, ⟨cut, rfl⟩ | end_⟩⟩
  · exact describes_short short
  · exact ⟨rfl, few⟩
  · exact describes_cut long cut
  · simp at end_

theorem Udp.validate_tells : Tells (PacketSpec.validate Udp) fun _ => .plain layout := by
  intro bytes error rejected
  change validate bytes = .ok (.error error) at rejected
  simp only [validate_eq, check_eq_error] at rejected
  rcases rejected with ⟨short, rfl⟩ | ⟨long, ⟨few, rfl⟩ | ⟨_, ⟨cut, rfl⟩ | end_⟩⟩
  · exact describes_short short
  · exact ⟨rfl, rfl, few⟩
  · exact describes_cut long cut
  · simp at end_

/-! ## Constructors -/

section Constructors

variable {P : Type} [PacketSpec P]

/-- Both constructors of views return the validator's errors. -/
theorem PacketView.new_eq_error_iff {bytes : Bytes} {error : PacketError} :
    PacketView.new P bytes = .ok (.error error) ↔
      PacketSpec.validate P bytes = .ok (.error error) := by
  unfold PacketView.new
  split <;> rename_i validated <;> simp [validated]

theorem PacketViewMut.new_eq_error_iff {bytes : Bytes} {error : PacketError} :
    PacketViewMut.new P bytes = .ok (.error error) ↔
      PacketSpec.validate P bytes = .ok (.error error) := by
  unfold PacketViewMut.new
  split <;> rename_i validated <;> simp [validated]

/-- A constructor that goes on from a view passes on the validator's errors; any other
error of it is about a valid slice. -/
theorem invalid_or_valid_of_error {bytes : Bytes} {error : PacketError}
    {next : Result (PacketView P) → Exec (Result α)}
    (rejected : (PacketView.new P bytes >>= next) = .ok (.error error))
    (refuses : ∀ error, next (.error error) = .ok (.error error)) :
    PacketSpec.validate P bytes = .ok (.error error) ∨
      PacketSpec.validate P bytes = .ok (.ok ()) := by
  obtain ⟨result, created, continued⟩ := bind_eq_ok.mp rejected
  cases result with
  | error invalid =>
    rw [refuses] at continued
    cases continued
    exact .inl (PacketView.new_eq_error_iff.mp created)
  | ok view => exact .inr (accepts_new_iff.mp ⟨view, created⟩)

/-- The two checksums of a report: the stored one, and the one whose storing the
verifying constructor accepts, which is the one the mutable view stores. -/
structure NamesRepair (verify : Bytes → Exec (Result (PacketView P)))
    (computeAndSet : PacketViewMut P → Exec (PacketViewMut P)) (offset : ℕ) (bytes : Bytes)
    (expected actual : UInt16) : Prop where
  stored : readU16 bytes offset = .ok actual
  repairs : ∃ repaired, computeAndSet ⟨bytes⟩ = .ok ⟨repaired⟩ ∧
    copyFromSlice bytes offset (offset + 2) (u16ToBeBytes expected) = .ok repaired ∧
    Accepts (verify repaired)

/-- The subject of a verifying constructor. -/
def Subject.verified (layout : Layout) (verify : Bytes → Exec (Result (PacketView P)))
    (computeAndSet : PacketViewMut P → Exec (PacketViewMut P)) (offset : ℕ) (bytes : Bytes) :
    Subject := ⟨layout, False, NamesRepair verify computeAndSet offset bytes⟩

/-- A constructor that verifies by recomputation reports the checksum it recomputed,
which does not depend on the stored one. -/
theorem tells_of_recomputed {layout : Layout} {checksum stored : Bytes → Exec UInt16}
    {verify : Bytes → Exec (Result (PacketView P))} {offset : ℕ}
    (plain : Tells (PacketSpec.validate P) fun _ => .plain layout)
    (recomputes : ∀ bytes error, verify bytes = .ok (.error error) →
      newVerifiedWith P stored checksum bytes = .ok (.error error))
    (field : ∀ bytes, PacketSpec.validate P bytes = .ok (.ok ()) →
      stored bytes = .ok (wordAt bytes offset))
    (computes : ∀ bytes, PacketSpec.validate P bytes = .ok (.ok ()) →
      ∃ pseudo, SegmentChecksum checksum pseudo bytes offset)
    (verified : ∀ bytes value, PacketSpec.validate P bytes = .ok (.ok ()) →
      checksum (splice bytes offset (u16ToBeBytes value)) =
        .ok (wordAt (splice bytes offset (u16ToBeBytes value)) offset) →
      Accepts (verify (splice bytes offset (u16ToBeBytes value)))) :
    Tells verify (.verified layout verify (fun view => do
      let cksum ← checksum view.bytes
      view.copyFromSlice offset (offset + 2) (u16ToBeBytes cksum)) offset) := by
  intro bytes error rejected
  have compared := recomputes bytes error rejected
  rw [newVerifiedWith] at compared
  obtain ⟨result, created, compared⟩ := bind_eq_ok.mp compared
  cases result with
  | error invalid =>
    -- The validator's errors are passed on.
    cases compared
    exact (plain bytes _ (PacketView.new_eq_error_iff.mp created)).of_plain _ _
  | ok view =>
    have valid : PacketSpec.validate P bytes = .ok (.ok ()) := accepts_new_iff.mp ⟨view, created⟩
    obtain ⟨pseudo, sums⟩ := computes bytes valid
    have room := sums.inside
    obtain ⟨expected, computed, compared⟩ := bind_eq_ok.mp compared
    rw [PacketView.bytes_of_new created, field bytes valid, ok_bind] at compared
    by_cases same : expected = wordAt bytes offset
    · simp [same] at compared
    · obtain rfl : error = .invalidChecksum expected (wordAt bytes offset) := by
        simpa [same, eq_comm] using compared
      have width : (u16ToBeBytes expected).length = offset + 2 - offset := by
        rw [u16ToBeBytes_length]
        omega
      refine ⟨⟨readU16_eq_ok (by omega), _, ?_, copyFromSlice_eq_ok (by omega) room width,
        verified bytes expected valid ?_⟩, Ne.symm same⟩
      · rw [computed, ok_bind]
        exact PacketViewMut.copyFromSlice_u16 room expected
      · rw [sums.unread, computed, wordAt_splice_self (by omega)]

end Constructors

theorem Ipv4.newVerified_tells :
    Tells newVerified (.verified layout newVerified computeAndSetChecksum 10) := by
  intro bytes error rejected
  rcases invalid_or_valid_of_error rejected fun _ => rfl with invalid | valid
  · exact (validate_tells bytes error invalid).of_plain _ _
  · have wellFormed : WellFormed bytes := validate_eq_ok_iff.mp valid
    have fixed := wellFormed.fixed
    rw [newVerified_eq wellFormed] at rejected
    split at rejected
    · simp at rejected
    · rename_i differs
      cases rejected
      refine ⟨⟨readU16_eq_ok (by omega), _, ?_,
        copyFromSlice_eq_ok (by decide) (by omega) rfl, ?_⟩, fun same => differs (.inl same)⟩
      · rw [computeAndSetChecksum_eq _ wellFormed]
        exact PacketViewMut.copyFromSlice_u16 (show 10 + 2 ≤ bytes.length by omega) _
      · refine accepts_newVerified_iff.mpr ⟨wellFormed.splice_checksum _, .inl ?_⟩
        rw [wordAt_splice_self (by omega), headerTotal_splice wellFormed]

theorem Tcp.newVerifiedIpv4_tells (src dst : Ipv4Addr) :
    Tells (fun bytes => newVerifiedIpv4 bytes src dst)
      (.verified layout (fun bytes => newVerifiedIpv4 bytes src dst)
        (fun view => computeAndSetChecksumIpv4 view src dst) 16) := by
  refine tells_of_recomputed validate_tells (fun _ _ rejected => rejected)
    (fun _ => checksum_of_valid) ?_ ?_
  · intro bytes valid
    exact ⟨_, segmentChecksumIpv4 src dst (validate_eq_ok_iff.mp valid).fixed⟩
  · intro bytes value valid checks
    exact accepts_newVerifiedIpv4_iff.mpr
      ⟨(validate_eq_ok_iff.mp valid).splice_checksum value, checks⟩

theorem Tcp.newVerifiedIpv6_tells (src dst : Ipv6Addr) :
    Tells (fun bytes => newVerifiedIpv6 bytes src dst)
      (.verified layout (fun bytes => newVerifiedIpv6 bytes src dst)
        (fun view => computeAndSetChecksumIpv6 view src dst) 16) := by
  refine tells_of_recomputed validate_tells (fun _ _ rejected => rejected)
    (fun _ => checksum_of_valid) ?_ ?_
  · intro bytes valid
    exact ⟨_, segmentChecksumIpv6 src dst (validate_eq_ok_iff.mp valid).fixed⟩
  · intro bytes value valid checks
    exact accepts_newVerifiedIpv6_iff.mpr
      ⟨(validate_eq_ok_iff.mp valid).splice_checksum value, checks⟩

/-- Over IPv4 an error comes from a recomputation, as a zero field is accepted. -/
theorem Udp.recomputes_of_error {src dst : Ipv4Addr} {bytes : Bytes} {error : PacketError}
    (rejected : newVerifiedIpv4 bytes src dst = .ok (.error error)) :
    newVerifiedWith Udp UdpPacket.checksum (udpChecksumIpv4 src dst) bytes =
      .ok (.error error) := by
  rcases invalid_or_valid_of_error rejected fun _ => rfl with invalid | valid
  · rw [newVerifiedWith, PacketView.new_of_invalid invalid]
    rfl
  · rw [newVerifiedIpv4_eq (validate_eq_ok_iff.mp valid)] at rejected
    split at rejected
    · simp at rejected
    · exact rejected

theorem Udp.newVerifiedIpv4_tells (src dst : Ipv4Addr) :
    Tells (fun bytes => newVerifiedIpv4 bytes src dst)
      (.verified layout (fun bytes => newVerifiedIpv4 bytes src dst)
        (fun view => computeAndSetChecksumIpv4 view src dst) 6) := by
  refine tells_of_recomputed validate_tells (fun _ _ => recomputes_of_error)
    (fun _ => checksum_of_valid) ?_ ?_
  · intro bytes valid
    exact ⟨_, segmentChecksumIpv4 src dst (validate_eq_ok_iff.mp valid).fixed⟩
  · intro bytes value valid checks
    exact accepts_newVerifiedIpv4_iff.mpr
      ⟨(validate_eq_ok_iff.mp valid).splice_checksum value, .inr checks⟩

theorem Udp.newVerifiedIpv6_tells (src dst : Ipv6Addr) :
    Tells (fun bytes => newVerifiedIpv6 bytes src dst)
      (.verified layout (fun bytes => newVerifiedIpv6 bytes src dst)
        (fun view => computeAndSetChecksumIpv6 view src dst) 6) := by
  refine tells_of_recomputed validate_tells (fun _ _ rejected => rejected)
    (fun _ => checksum_of_valid) ?_ ?_
  · intro bytes valid
    exact ⟨_, segmentChecksumIpv6 src dst (validate_eq_ok_iff.mp valid).fixed⟩
  · intro bytes value valid checks
    exact accepts_newVerifiedIpv6_iff.mpr
      ⟨(validate_eq_ok_iff.mp valid).splice_checksum value, checks⟩

/-! ## Walks -/

namespace TcpOptions

/-- The reader fails for want of bytes, or at a length byte that is too small. -/
theorem describes_of_fail {s : Bytes × Bool} {error : PacketError}
    (fails : readOption s = .fail error) : error.Describes (.plain TcpOptions.layout) s.1 := by
  obtain ⟨remaining, done⟩ := s
  cases done with
  | true => simp [readOption] at fails
  | false =>
    cases remaining with
    | nil => simp [readOption] at fails
    | cons kind rest =>
      simp only [readOption] at fails
      split_ifs at fails with eol nop
      cases rest with
      | nil =>
        cases fails
        exact describes_short (show 1 < 2 by decide)
      | cons length body =>
        simp only [readSized] at fails
        split_ifs at fails with short overrun
        · cases fails
          exact ⟨rfl, rfl, UInt8.lt_iff_toNat_lt.mpr short⟩
        · cases fails
          exact describes_cut (by simp [TcpOptions.layout]) overrun

/-- An error of the iterator describes the bytes it has left. -/
theorem next_tells {it it' : TcpOptions} {error : PacketError}
    (rejected : it.next = .ok (some (.error error), it')) :
    error.Describes (.plain TcpOptions.layout) it.remaining := by
  obtain ⟨remaining, errored, done⟩ := it
  cases errored with
  | true => cases rejected
  | false =>
    exact describes_of_fail (s := (remaining, done)) (next_follows.fail_of_error rejected)

end TcpOptions

namespace NextHeaders

/-- The announced length is the length the reader takes. -/
theorem announced_eq (s : UInt8 × Bytes) : (layout s.1).announced s.2 = lengthAt s := by
  simp only [layout, lengthAt, NextHeaderType.ofByte_eq_fragmentHeader_iff]

/-- The reader fails for want of bytes only. -/
theorem describes_of_fail {s : UInt8 × Bytes} {error : PacketError}
    (fails : readHeader s = .fail error) : error.Describes (.plain (layout s.1)) s.2 := by
  obtain ⟨_, ⟨short, rfl⟩ | ⟨enough, overrun, rfl⟩⟩ := readHeader_eq_fail_iff.mp fails
  · exact describes_short short
  · rw [← announced_eq]
    exact describes_cut (Nat.not_lt.mpr enough) ((announced_eq s).symm ▸ overrun)

/-- An error of the iterator describes the bytes it has left. -/
theorem iterNext_tells {it it' : NextHeaders} {error : PacketError}
    (rejected : it.iterNext = .ok (some (.error error), it')) :
    error.Describes (.plain (layout it.next)) it.remaining := by
  obtain ⟨remaining, code, errored⟩ := it
  cases errored with
  | true => cases rejected
  | false =>
    exact describes_of_fail (s := (code, remaining)) (iterNext_follows.fail_of_error rejected)

end NextHeaders

namespace Ipv6

open NextHeaders

/-- The next-header byte after some of a packet's extension headers: the last one's, or
that of the fixed header. -/
def codeAfter (bytes : Bytes) (headers : List NextHeader) : UInt8 :=
  headers.getLast?.elim (byteAt bytes 6) NextHeader.nextHeader

/-- The walk over the extension headers of a packet passes some, and then comes to bytes
that an error describes as a header of the kind the last next-header byte names. -/
def BreaksOff (bytes : Bytes) (error : PacketError) : Prop :=
  ∃ headers, headerItems bytes = .ok (headers.map .ok ++ [.error error]) ∧
    error.Describes (.plain (NextHeaders.layout (codeAfter bytes headers)))
      (bytes.drop (reach headers))

theorem newChecked_tells {bytes : Bytes} {error : PacketError}
    (rejected : newChecked bytes = .ok (.error error)) :
    error.Describes (.plain layout) bytes ∨ BreaksOff bytes error := by
  rcases invalid_or_valid_of_error rejected fun _ => rfl with invalid | valid
  · exact .inl (validate_tells bytes error invalid)
  · have wellFormed : WellFormed bytes := validate_eq_ok_iff.mp valid
    obtain ⟨items, t, result, walk⟩ := exists_walk (start bytes)
    rw [newChecked_eq wellFormed walk] at rejected
    cases result with
    | none => cases rejected
    | some error' =>
      cases rejected
      refine .inr ⟨items, headerItems_eq wellFormed.fixed walk, ?_⟩
      have code : t.1 = codeAfter bytes items := next_of_passes walk.passes
      rw [← rest_of_passes walk.passes, ← code]
      exact describes_of_fail walk.ends

/-- The second validation of the buffer finds no other error than the first. -/
theorem newChecked_of_newCheckedMut {bytes : Bytes} {error : PacketError}
    (rejected : newCheckedMut bytes = .ok (.error error)) :
    newChecked bytes = .ok (.error error) := by
  rw [newCheckedMut] at rejected
  obtain ⟨result, checked, continued⟩ := bind_eq_ok.mp rejected
  cases result with
  | error error' =>
    cases continued
    exact checked
  | ok view =>
    have valid : PacketSpec.validate Ipv6 bytes = .ok (.ok ()) :=
      valid_of_accepts ⟨view, checked⟩ fun _ => rfl
    rw [PacketViewMut.new_eq_error_iff.mp continued] at valid
    cases valid

/-- The error that is not `new_checked`'s is that the packet is a fragment, which it is. -/
theorem newCheckedDefrag_tells {bytes : Bytes} {error : PacketError}
    (rejected : newCheckedDefrag bytes = .ok (.error error)) :
    error.Describes ⟨layout, Ipv6Packet.isFragment bytes = .ok true, fun _ _ => False⟩ bytes ∨
      BreaksOff bytes error := by
  rw [newCheckedDefrag] at rejected
  obtain ⟨result, checked, continued⟩ := bind_eq_ok.mp rejected
  cases result with
  | error error' =>
    cases continued
    exact (newChecked_tells checked).imp_left fun described => described.of_plain _ _
  | ok view =>
    obtain ⟨wellFormed, items, t, walk⟩ := exists_walk_of_accepts ⟨view, checked⟩
    rw [newChecked_eq wellFormed walk] at checked
    cases checked
    obtain ⟨found, searched, continued⟩ := bind_eq_ok.mp continued
    cases found with
    | false => cases continued
    | true =>
      cases continued
      exact .inl searched

end Ipv6

/-! ## All reports -/

/-- The errors of a protocol's two constructors of views describe the slice. -/
structure ViewsTell (P : Type) [PacketSpec P] (layout : Layout) : Prop where
  shared : Tells (PacketView.new P) fun _ => .plain layout
  mutable_ : Tells (PacketViewMut.new P) fun _ => .plain layout

theorem viewsTell {P : Type} [PacketSpec P] {layout : Layout}
    (validator : Tells (PacketSpec.validate P) fun _ => .plain layout) :
    ViewsTell P layout where
  shared := fun bytes error rejected =>
    validator bytes error (PacketView.new_eq_error_iff.mp rejected)
  mutable_ := fun bytes error rejected =>
    validator bytes error (PacketViewMut.new_eq_error_iff.mp rejected)

/-- The errors of a verifying constructor describe the slice, and name the repair. -/
def VerificationTells {P : Type} [PacketSpec P] (layout : Layout)
    (verify : Bytes → Exec (Result (PacketView P)))
    (computeAndSet : PacketViewMut P → Exec (PacketViewMut P)) (offset : ℕ) : Prop :=
  Tells verify (.verified layout verify computeAndSet offset)

/-- Errors with the same text are the same, and every error a constructor or an iterator
returns describes the bytes it is about. -/
theorem errors_tell :
    (∀ error error' : PacketError, error.display = error'.display ↔ error = error') ∧
    (ViewsTell Ipv4 Ipv4.layout ∧ ViewsTell Ipv6 Ipv6.layout ∧ ViewsTell Tcp Tcp.layout ∧
      ViewsTell Udp Udp.layout) ∧
    VerificationTells Ipv4.layout Ipv4.newVerified Ipv4.computeAndSetChecksum 10 ∧
    (∀ src dst, VerificationTells Tcp.layout (fun bytes => Tcp.newVerifiedIpv4 bytes src dst)
      (fun view => Tcp.computeAndSetChecksumIpv4 view src dst) 16) ∧
    (∀ src dst, VerificationTells Tcp.layout (fun bytes => Tcp.newVerifiedIpv6 bytes src dst)
      (fun view => Tcp.computeAndSetChecksumIpv6 view src dst) 16) ∧
    (∀ src dst, VerificationTells Udp.layout (fun bytes => Udp.newVerifiedIpv4 bytes src dst)
      (fun view => Udp.computeAndSetChecksumIpv4 view src dst) 6) ∧
    (∀ src dst, VerificationTells Udp.layout (fun bytes => Udp.newVerifiedIpv6 bytes src dst)
      (fun view => Udp.computeAndSetChecksumIpv6 view src dst) 6) ∧
    (∀ bytes error, Ipv6.newChecked bytes = .ok (.error error) →
      error.Describes (.plain Ipv6.layout) bytes ∨ Ipv6.BreaksOff bytes error) ∧
    (∀ bytes error, Ipv6.newCheckedMut bytes = .ok (.error error) →
      error.Describes (.plain Ipv6.layout) bytes ∨ Ipv6.BreaksOff bytes error) ∧
    (∀ bytes error, Ipv6.newCheckedDefrag bytes = .ok (.error error) →
      error.Describes
          ⟨Ipv6.layout, Ipv6Packet.isFragment bytes = .ok true, fun _ _ => False⟩ bytes ∨
        Ipv6.BreaksOff bytes error) ∧
    (∀ it it' error, TcpOptions.next it = .ok (some (.error error), it') →
      error.Describes (.plain TcpOptions.layout) it.remaining) ∧
    (∀ it it' error, NextHeaders.iterNext it = .ok (some (.error error), it') →
      error.Describes (.plain (NextHeaders.layout it.next)) it.remaining) := by
  refine ⟨fun _ _ => ⟨PacketError.eq_of_display_eq, congrArg _⟩,
    ⟨viewsTell Ipv4.validate_tells, viewsTell Ipv6.validate_tells, viewsTell Tcp.validate_tells,
      viewsTell Udp.validate_tells⟩, Ipv4.newVerified_tells, Tcp.newVerifiedIpv4_tells,
    Tcp.newVerifiedIpv6_tells, Udp.newVerifiedIpv4_tells, Udp.newVerifiedIpv6_tells,
    fun _ _ => Ipv6.newChecked_tells, fun _ _ rejected => ?_,
    fun _ _ => Ipv6.newCheckedDefrag_tells, fun _ _ _ => TcpOptions.next_tells,
    fun _ _ _ => NextHeaders.iterNext_tells⟩
  exact Ipv6.newChecked_tells (Ipv6.newChecked_of_newCheckedMut rejected)

/-- A datagram that is shorter than it says, and a Routing header that is. -/
theorem errors_tell_cut :
    (PacketError.tooShort 20 8).Describes (.plain Udp.layout) [0, 53, 4, 210, 0, 20, 0, 0] ∧
      Ipv6.BreaksOff (Ipv6.fixedHeader 8 43 ++ [17, 2, 0, 0, 0, 0, 0, 0])
        (.tooShort 24 8) := by
  obtain ⟨_, ⟨_, _, _, udp⟩, _, _, _, _, _, checked, _⟩ := errors_tell
  refine ⟨udp.shared _ _ (PacketView.new_eq_error_iff.mpr (by decide)), ?_⟩
  have rejected : Ipv6.newChecked (Ipv6.fixedHeader 8 43 ++ [17, 2, 0, 0, 0, 0, 0, 0]) =
      .ok (.error (.tooShort 24 8)) := rfl
  refine (checked _ _ rejected).resolve_left fun described => ?_
  exact absurd described.1 (by decide)

end Packet

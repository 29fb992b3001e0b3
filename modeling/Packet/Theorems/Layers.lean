/-
# Parsing layer by layer

Read on its own a transport segment can be of any length, and summing a very long
one overflows. Read as the payload of a packet it is bounded by a 16-bit length
field, so no packet, whatever its length and its bytes, makes a layered parse panic.
-/

import Packet.Model.Stack
import Packet.Theorems.Ipv4Padding
import Packet.Theorems.SetterRuns

namespace Packet

open Rust

section Transport

variable {bytes : Bytes}

/-- Recomputing a checksum of at most 65535 bytes never panics. -/
theorem newVerifiedWith_returns_of_short {P : Type} [PacketSpec P]
    {stored checksum : Bytes → Exec UInt16} {offset : ℕ}
    (validated : Returns (PacketSpec.validate P bytes))
    (field : PacketSpec.validate P bytes = .ok (.ok ()) →
      stored bytes = .ok (wordAt bytes offset))
    (sums : PacketSpec.validate P bytes = .ok (.ok ()) →
      ∃ pseudo, SegmentChecksum checksum pseudo bytes offset)
    (short : bytes.length ≤ 65535) : Returns (newVerifiedWith P stored checksum bytes) := by
  refine newVerifiedWith_returns validated (fun valid => .of_eq_ok (field valid)) fun valid => ?_
  obtain ⟨pseudo, sum⟩ := sums valid
  exact .of_eq_ok (sum.eq_ok short)

theorem Tcp.newVerifiedIpv4_returns (short : bytes.length ≤ 65535) (src dst : Ipv4Addr) :
    Returns (newVerifiedIpv4 bytes src dst) :=
  newVerifiedWith_returns_of_short (validate_returns bytes) checksum_of_valid
    (fun valid => ⟨_, segmentChecksumIpv4 src dst (validate_eq_ok_iff.mp valid).fixed⟩) short

theorem Tcp.newVerifiedIpv6_returns (short : bytes.length ≤ 65535) (src dst : Ipv6Addr) :
    Returns (newVerifiedIpv6 bytes src dst) :=
  newVerifiedWith_returns_of_short (validate_returns bytes) checksum_of_valid
    (fun valid => ⟨_, segmentChecksumIpv6 src dst (validate_eq_ok_iff.mp valid).fixed⟩) short

theorem Udp.newVerifiedIpv6_returns (short : bytes.length ≤ 65535) (src dst : Ipv6Addr) :
    Returns (newVerifiedIpv6 bytes src dst) :=
  newVerifiedWith_returns_of_short (validate_returns bytes) checksum_of_valid
    (fun valid => ⟨_, segmentChecksumIpv6 src dst (validate_eq_ok_iff.mp valid).fixed⟩) short

/-- Over IPv4 a zero field is let pass; any other is recomputed. -/
theorem Udp.newVerifiedIpv4_returns_of_recomputed {src dst : Ipv4Addr}
    (recomputed :
      Returns (newVerifiedWith Udp UdpPacket.checksum (udpChecksumIpv4 src dst) bytes)) :
    Returns (newVerifiedIpv4 bytes src dst) := by
  obtain ⟨result, outcome⟩ := validate_returns bytes
  cases result with
  | error error =>
    have invalid : PacketSpec.validate Udp bytes = .ok (.error error) := outcome
    rw [newVerifiedIpv4, PacketView.new_of_invalid invalid]
    exact returns_ok _
  | ok _ =>
    rw [newVerifiedIpv4_eq (validate_eq_ok_iff.mp outcome)]
    split
    · exact returns_ok _
    · exact recomputed

theorem Udp.newVerifiedIpv4_returns (short : bytes.length ≤ 65535) (src dst : Ipv4Addr) :
    Returns (newVerifiedIpv4 bytes src dst) :=
  newVerifiedIpv4_returns_of_recomputed <|
    newVerifiedWith_returns_of_short (validate_returns bytes) checksum_of_valid
      (fun valid => ⟨_, segmentChecksumIpv4 src dst (validate_eq_ok_iff.mp valid).fixed⟩) short

end Transport

theorem inspect_returns (packet : Bytes) : Returns (inspect packet) := by
  refine (PacketView.new_returns (Ipv4.validate_returns packet)).bind fun result created => ?_
  cases result with
  | error error => exact returns_ok _
  | ok ipv4 =>
    have wellFormed : Ipv4.WellFormed ipv4.bytes := Ipv4.validate_eq_ok_iff.mp ipv4.valid
    have payload : Returns (Ipv4Packet.payload ipv4.bytes) :=
      .of_eq_ok (Ipv4.payload_eq_ok wellFormed)
    refine payload.bind fun segment _ => ?_
    refine (PacketView.new_returns (Tcp.validate_returns segment)).bind fun result _ => ?_
    cases result <;> exact returns_ok _

/-- No packet makes a layered parse panic, be it without verification or with it. -/
theorem layers_return (packet : Bytes) :
    Returns (inspect packet) ∧
      Returns (Ipv4.verifyTcp packet) ∧ Returns (Ipv4.verifyUdp packet) ∧
      Returns (Ipv6.verifyTcp packet) ∧ Returns (Ipv6.verifyUdp packet) :=
  ⟨inspect_returns packet,
    Ipv4.networkLayer.verifyOver_returns (fun _ src dst short =>
      Tcp.newVerifiedIpv4_returns short src dst) packet,
    Ipv4.networkLayer.verifyOver_returns (fun _ src dst short =>
      Udp.newVerifiedIpv4_returns short src dst) packet,
    Ipv6.networkLayer.verifyOver_returns (fun _ src dst short =>
      Tcp.newVerifiedIpv6_returns short src dst) packet,
    Ipv6.networkLayer.verifyOver_returns (fun _ src dst short =>
      Udp.newVerifiedIpv6_returns short src dst) packet⟩

/-! ## The example program -/

namespace ParseIpv4Tcp

open Printing

variable {packet packet' : Bytes}

/-- What the program prints about an accepted packet is a report of its values, and the
lengths among them are those the view was validated with. -/
theorem printIpv4_eq {ipv4 : Bytes} (wellFormed : Ipv4.WellFormed ipv4) :
    ∃ report, reportIpv4 ipv4 = .ok report ∧ printIpv4 ipv4 = ⟨report.lines, .ok ()⟩ ∧
      report.headerLen = Ipv4.headerLength ipv4 ∧ report.totalLen = wordAt ipv4 2 ∧
      report.payloadLen = (Ipv4.payloadOf ipv4).length := by
  have fixed := wellFormed.fixed
  have payload : Ipv4Packet.payload ipv4 = .ok (Ipv4.payloadOf ipv4) :=
    Ipv4.payload_eq_ok wellFormed
  simp (disch := omega) only [reportIpv4, printIpv4, Ipv4Packet.version,
    Ipv4.packet_headerLen_eq_ok, Ipv4Packet.totalLen, Ipv4Packet.ttl, Ipv4Packet.protocol,
    Ipv4.src_eq_ok, Ipv4.dst_eq_ok, payload, index_byteAt, readU16_eq_ok, ok_bind, pure_eq_ok,
    println_bind, lift_ok_bind]
  exact ⟨_, rfl, rfl, rfl, rfl, rfl⟩

/-- The same for a segment. -/
theorem printTcp_eq {tcp : Bytes} (wellFormed : Tcp.WellFormed tcp) :
    ∃ report, reportTcp tcp = .ok report ∧ printTcp tcp = ⟨report.lines, .ok ()⟩ ∧
      report.headerLen = Tcp.headerLength tcp := by
  have fixed := wellFormed.fixed
  obtain ⟨seq, readSeq⟩ := readU32_returns (show 4 + 3 < tcp.length by omega)
  obtain ⟨ackNumber, readAck⟩ := readU32_returns (show 8 + 3 < tcp.length by omega)
  obtain ⟨syn, readSyn⟩ := TcpPacket.hasFlag_returns Tcp.syn fixed
  obtain ⟨ack, readAckFlag⟩ := TcpPacket.hasFlag_returns Tcp.ack fixed
  obtain ⟨fin, readFin⟩ := TcpPacket.hasFlag_returns Tcp.fin fixed
  simp (disch := omega) only [reportTcp, printTcp, TcpPacket.srcPort, TcpPacket.dstPort,
    TcpPacket.seqNumber, TcpPacket.ackNumber, Tcp.packet_headerLen_eq_ok, TcpPacket.isSyn,
    TcpPacket.isAck, TcpPacket.isFin, readU16_eq_ok, readSeq, readAck, readSyn, readAckFlag,
    readFin, ok_bind, pure_eq_ok, println_bind, lift_ok_bind]
  exact ⟨_, rfl, rfl, rfl⟩

/-- Without the IPv4 view nothing is printed. -/
theorem main_of_refused (refused : ¬ Accepts (Ipv4.newVerified packet)) :
    main packet = ⟨[], .error .expect⟩ := by
  obtain ⟨result, created⟩ := Ipv4.newVerified_returns packet
  cases result with
  | error error =>
    rw [main, created]
    rfl
  | ok ipv4 => exact absurd ⟨ipv4, created⟩ refused

/-- With it, its lines are printed before the second view is made. -/
theorem main_of_accepted (accepted : Accepts (Ipv4.newVerified packet)) :
    main packet = (do
      printIpv4 packet
      let tcp ← expect (← PacketView.new Tcp (Ipv4.payloadOf packet)).toOption
      printTcp tcp.bytes) := by
  obtain ⟨ipv4, created⟩ := accepted
  obtain ⟨wellFormed, rfl⟩ := Ipv4.bytes_of_newVerified created
  have payload : Ipv4Packet.payload ipv4.bytes = .ok (Ipv4.payloadOf ipv4.bytes) :=
    Ipv4.payload_eq_ok wellFormed
  rw [main, created]
  simp only [Except.toOption, expect, lift_ok_bind, payload]

section Padding

variable (wellFormed : Ipv4.WellFormed packet) (complete : (wordAt packet 2).toNat ≤ packet.length)
  (same : packet'.take (wordAt packet 2).toNat = packet.take (wordAt packet 2).toNat)

include wellFormed complete same

theorem payloadOf_of_same : Ipv4.payloadOf packet' = Ipv4.payloadOf packet := by
  have wellFormed' := Ipv4.wellFormed_of_same wellFormed complete same
  have payload := Ipv4.payload_of_same wellFormed complete same
  rw [Ipv4.payload_eq_ok wellFormed, Ipv4.payload_eq_ok wellFormed', Except.ok.injEq] at payload
  exact payload

/-- What the program prints is printed from the bytes up to the total length. -/
theorem main_of_same : main packet' = main packet := by
  have fixed := wellFormed.fixed
  have words := wellFormed.words
  have total := wellFormed.total
  have payload := payloadOf_of_same wellFormed complete same
  have alike := Ipv4.readAlike_of_same wellFormed complete same
  have verified := accepts_iff_of_verdict alike.verified
  by_cases accepted : Accepts (Ipv4.newVerified packet)
  · rw [main_of_accepted (verified.mpr accepted), main_of_accepted accepted, payload]
    have headerLen : Ipv4Packet.headerLen packet' = Ipv4Packet.headerLen packet := by
      have long := Ipv4.complete_of_same complete same
      rw [Ipv4.packet_headerLen_eq_ok (by omega), Ipv4.packet_headerLen_eq_ok (by omega),
        Ipv4.headerLength_of_same wellFormed same]
    -- Every getter that is called reads the first 20 bytes.
    have get (field : Ipv4Packet.Field) : field.get packet' = field.get packet := by
      refine Ipv4.get_congr field fun i inside => ?_
      have within : i < (wordAt packet 2).toNat := by
        have front : (Ipv4.extent field).2 ≤ 20 := by cases field <;> decide
        omega
      rw [← List.getElem?_take_of_lt within, same, List.getElem?_take_of_lt within]
    have version : Ipv4Packet.version packet' = Ipv4Packet.version packet := get .version
    have totalLen : Ipv4Packet.totalLen packet' = Ipv4Packet.totalLen packet := get .totalLen
    have ttl : Ipv4Packet.ttl packet' = Ipv4Packet.ttl packet := get .ttl
    have protocol : Ipv4Packet.protocol packet' = Ipv4Packet.protocol packet := get .protocol
    have src : Ipv4Packet.src packet' = Ipv4Packet.src packet := get .src
    have dst : Ipv4Packet.dst packet' = Ipv4Packet.dst packet := get .dst
    have lines : printIpv4 packet' = printIpv4 packet := by
      simp only [printIpv4, version, headerLen, totalLen, ttl, protocol, src, dst, alike.payload]
    rw [lines]
  · rw [main_of_refused (mt verified.mp accepted), main_of_refused accepted]

end Padding

/-- The example program, on every packet. Without a header that verifies it prints
nothing and panics; else it prints the IPv4 lines, whose lengths split the packet, and
panics after them unless the payload is an accepted segment, whose lines then follow.
Bytes after the total length change nothing of this. -/
theorem main_exact (packet : Bytes) :
    (¬ Accepts (Ipv4.newVerified packet) → main packet = ⟨[], .error .expect⟩) ∧
    (Accepts (Ipv4.newVerified packet) → ∃ outer segment,
      reportIpv4 packet = .ok outer ∧ Ipv4Packet.payload packet = .ok segment ∧
      outer.headerLen + outer.payloadLen = min outer.totalLen.toNat packet.length ∧
      (¬ Accepts (PacketView.new Tcp segment) → main packet = ⟨outer.lines, .error .expect⟩) ∧
      (Accepts (PacketView.new Tcp segment) → ∃ inner, reportTcp segment = .ok inner ∧
        inner.headerLen ≤ outer.payloadLen ∧
        main packet = ⟨outer.lines ++ inner.lines, .ok ()⟩) ∧
      (outer.totalLen.toNat ≤ packet.length → ∀ trailing,
        main (packet ++ trailing) = main packet ∧
          main (packet.take outer.totalLen.toNat) = main packet)) := by
  refine ⟨main_of_refused, fun accepted => ?_⟩
  obtain ⟨wellFormed, _⟩ := Ipv4.accepts_newVerified_iff.mp accepted
  obtain ⟨outer, read, prints, headerLen, totalLen, payloadLen⟩ := printIpv4_eq wellFormed
  have whole := main_of_accepted accepted
  rw [prints, mk_ok_bind] at whole
  obtain ⟨result, created⟩ :=
    PacketView.new_returns (P := Tcp) (Tcp.validate_returns (Ipv4.payloadOf packet))
  rw [created] at whole
  refine ⟨outer, _, read, Ipv4.payload_eq_ok wellFormed, ?_, fun refused => ?_,
    fun accepted' => ?_, fun complete trailing => ?_⟩
  · have header := wellFormed.header
    have total := wellFormed.total
    rw [headerLen, totalLen, payloadLen, Ipv4.payloadOf, List.length_drop, List.length_take]
    omega
  · cases result with
    | error error =>
      simpa only [Except.toOption, expect, lift_ok_bind, lift_error_bind, List.append_nil]
        using whole
    | ok tcp => exact absurd ⟨tcp, created⟩ refused
  · have segment : Tcp.WellFormed (Ipv4.payloadOf packet) :=
      Tcp.validate_eq_ok_iff.mp (accepts_new_iff.mp accepted')
    obtain ⟨inner, read', prints', length⟩ := printTcp_eq segment
    refine ⟨inner, read', ?_, ?_⟩
    · rw [length, payloadLen]
      exact segment.header
    · obtain ⟨tcp, opened⟩ := accepted'
      have same : tcp.bytes = Ipv4.payloadOf packet := PacketView.bytes_of_new opened
      obtain rfl : result = .ok tcp := Except.ok.inj (created.symm.trans opened)
      simpa only [Except.toOption, expect, same, prints', lift_ok_bind] using whole
  · rw [totalLen] at complete ⊢
    constructor
    · exact main_of_same wellFormed complete (List.take_append_of_le_length complete)
    · exact main_of_same wellFormed complete (by rw [List.take_take, Nat.min_self])

/-- The captured packet with a frame's padding after it, and with a data offset that the
second `expect` finds too small. -/
theorem main_exact_captured :
    (∃ outer inner : List String, main (captured ++ [0, 0]) = ⟨outer ++ inner, .ok ()⟩ ∧
      outer.getLast? = some "payload len: 44 bytes" ∧ inner.getLast? = some "FIN: false") ∧
    ∃ outer : List String, main (captured.set 32 0x40) = ⟨outer, .error .expect⟩ ∧
      outer.length = 9 := by
  constructor
  · have verified : Accepts (Ipv4.newVerified captured) := by decide +kernel
    obtain ⟨outer, segment, read, payload, _, _, prints, padded⟩ := (main_exact captured).2 verified
    obtain rfl : captured.drop 20 = segment :=
      Except.ok.inj
        ((show Ipv4Packet.payload captured = .ok _ by decide +kernel).symm.trans payload)
    have accepted : Accepts (PacketView.new Tcp (captured.drop 20)) := by decide +kernel
    obtain ⟨inner, read', _, whole⟩ := prints accepted
    have values : reportIpv4 captured = .ok ⟨4, 20, 64, 242, 6, #v[18, 208, 91, 13],
        #v[192, 168, 0, 101], 44⟩ := by decide +kernel
    have values' : reportTcp (captured.drop 20) =
        .ok ⟨8884, 61224, 0x6c607b94, 0xd0c2aaa4, 20, false, true, false⟩ := by decide +kernel
    obtain rfl := Except.ok.inj (values.symm.trans read)
    obtain rfl := Except.ok.inj (values'.symm.trans read')
    exact ⟨_, _, ((padded (by decide) [0, 0]).1).trans whole, by decide +kernel, by decide +kernel⟩
  · have verified : Accepts (Ipv4.newVerified (captured.set 32 0x40)) := by decide +kernel
    obtain ⟨outer, segment, _, payload, _, panics, _⟩ := (main_exact _).2 verified
    obtain rfl : (captured.set 32 0x40).drop 20 = segment :=
      Except.ok.inj ((show Ipv4Packet.payload (captured.set 32 0x40) = .ok _ by
        decide +kernel).symm.trans payload)
    have refused : ¬ Accepts (PacketView.new Tcp ((captured.set 32 0x40).drop 20)) := by
      decide +kernel
    exact ⟨outer.lines, panics refused, rfl⟩

end ParseIpv4Tcp

end Packet

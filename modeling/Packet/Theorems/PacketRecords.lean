/-
# A packet is two records

The header of an IPv4 packet and the segment inside it each stand for a record. Edits of
both layers, in whatever order, are updates of the pair, and a packet verifies exactly
when the numbers in its two records add up. So whether a packet can be sent as it is
after a run of edits is decided on the records, without summing a byte again.
-/

import Packet.Theorems.LayeredEdits
import Packet.Theorems.TcpRecords

namespace Packet

open Rust Checksum

/-! ## Headers that add up -/

namespace Ipv4

variable {values : HeaderValues}

theorem headerSum_pos (fits : Fits values) : 0 < headerSum values := by
  have version : values.version.toNat = 4 := by
    rw [fits.version]
    rfl
  rw [headerSum, version]
  omega

/-- A header laid out on its own. -/
theorem alone_laid (fits : Fits values) : Alone (laid [] values).bytes where
  wellFormed := wellFormed_encodeHeader [] fits
  whole := (headerLength_encodeHeader [] fits).trans (encodeHeader_length [] values).symm

/-- A header verifies when its sum, the checksum included, is divisible by 65535: both
representations of a zero checksum are accepted. -/
theorem accepts_newVerified_laid (fits : Fits values) :
    Accepts (newVerified (laid [] values).bytes) ↔
      65535 ∣ headerSum values + values.checksum.toNat := by
  have read : wordAt (laid [] values).bytes 10 = values.checksum :=
    congrArg HeaderValues.checksum (valuesAt_encodeHeader [] fits)
  have total : headerTotal (laid [] values).bytes = headerSum values :=
    headerTotal_encodeHeader [] fits
  have positive := headerSum_pos fits
  have ones : (0xffff : UInt16).toNat = 65535 := rfl
  have zero : (0 : UInt16).toNat = 0 := rfl
  rw [accepts_newVerified_iff, read, total, and_iff_right (alone_laid fits).wellFormed,
    eq_comm, checksumOf_eq_iff positive, checksumOf_eq_iff positive]
  constructor
  · rintro (⟨divides, _⟩ | ⟨full, divides, _⟩)
    · exact divides
    · rw [zero, Nat.add_zero] at divides
      rw [full, ones]
      exact Nat.dvd_add divides (Nat.dvd_refl 65535)
  · intro divides
    by_cases full : values.checksum = 0xffff
    · rw [full, ones] at divides
      refine .inr ⟨full, ?_, by decide⟩
      rw [zero, Nat.add_zero]
      exact (Nat.dvd_add_left (Nat.dvd_refl 65535)).mp divides
    · exact .inl ⟨divides, full⟩

end Ipv4

/-- A segment of some protocol adds up with the addresses of the header around it: its
words, its checksum, and what the pseudo-header counts are divisible by 65535. -/
def AddsUp (outer : Ipv4.HeaderValues) (protocol : UInt8) (length words : ℕ)
    (checksum : UInt16) : Prop :=
  65535 ∣ wordSum outer.src.toList + wordSum outer.dst.toList + protocol.toNat + length + words +
    checksum.toNat

namespace Tcp

/-- The record of a segment that verification accepts. -/
structure Verifies (rest : Bytes) (outer : Ipv4.HeaderValues) (inner : SegmentValues) : Prop where
  words : 5 ≤ inner.dataOffset.toNat
  options : inner.dataOffset.toNat * 4 ≤ 20 + rest.length
  canonical : inner.checksum ≠ 0xffff
  adds : AddsUp outer tcpProtocol (20 + rest.length) (headerSum inner + wordSum rest)
    inner.checksum

variable {values : SegmentValues} {rest : Bytes}

theorem headerLength_encodeFixed (fits : FixedFits values) :
    headerLength (encodeFixed values ++ rest) = values.dataOffset.toNat * 4 := by
  have offset : byteAt (encodeFixed values ++ rest) 12 >>> 4 = values.dataOffset :=
    congrArg (·.dataOffset) (valuesOf_encodeFixed rest fits)
  rw [headerLength, offset]

theorem wellFormed_encodeFixed_iff (fits : FixedFits values) :
    WellFormed (encodeFixed values ++ rest) ↔
      5 ≤ values.dataOffset.toNat ∧ values.dataOffset.toNat * 4 ≤ 20 + rest.length := by
  have length : headerLength (encodeFixed values ++ rest) = values.dataOffset.toNat * 4 :=
    headerLength_encodeFixed fits
  have size := encodeFixed_length rest values
  constructor
  · rintro ⟨_, words, header⟩
    omega
  · rintro ⟨words, header⟩
    exact ⟨by omega, by omega, by omega⟩

theorem accepts_newVerifiedIpv4_laid {outer : Ipv4.HeaderValues} (fits : FixedFits values)
    (short : 20 + rest.length ≤ 65535) :
    Accepts (newVerifiedIpv4 (laid rest values).bytes outer.src outer.dst) ↔
      Verifies rest outer values := by
  have size : (laid rest values).bytes.length = 20 + rest.length := laid_length rest
  have read : wordAt (laid rest values).bytes 16 = values.checksum :=
    congrArg (·.checksum) (valuesOf_encodeFixed rest fits)
  have sums := segmentChecksumIpv4 outer.src outer.dst
    (show 20 ≤ (laid rest values).bytes.length by omega)
  have words : sumOutside (laid rest values).bytes 16 = headerSum values + wordSum rest :=
    sumOutside_encodeFixed rest fits
  have length : (UInt16.ofNat (20 + rest.length)).toNat = 20 + rest.length :=
    UInt16.toNat_ofNat_of_lt' (Nat.lt_succ_of_le short)
  have positive := sums.nonzero
  rw [accepts_newVerifiedIpv4_iff, sums.eq_ok (size.trans_le short), Except.ok.injEq,
    checksumOf_eq_iff positive, read, words, size, wordSum_pseudoIpv4, length]
  constructor
  · rintro ⟨wellFormed, divides, canonical⟩
    obtain ⟨enough, inside⟩ := (wellFormed_encodeFixed_iff fits).mp wellFormed
    exact ⟨enough, inside, canonical, divides⟩
  · rintro ⟨enough, inside, canonical, divides⟩
    exact ⟨(wellFormed_encodeFixed_iff fits).mpr ⟨enough, inside⟩, divides, canonical⟩

end Tcp

namespace Udp

/-- The record of a datagram that verification accepts: over IPv4 a zero checksum is not
checked. -/
structure Verifies (rest : Bytes) (outer : Ipv4.HeaderValues) (inner : HeaderValues) : Prop where
  fits : Fits inner rest
  adds : inner.checksum ≠ 0 → inner.checksum ≠ 0xffff ∧
    AddsUp outer udpProtocol inner.length.toNat (headerSum inner + wordSum rest) inner.checksum

variable {values : HeaderValues} {rest : Bytes}

theorem accepts_newVerifiedIpv4_laid {outer : Ipv4.HeaderValues}
    (short : 8 + rest.length ≤ 65535) :
    Accepts (newVerifiedIpv4 (laid rest values).bytes outer.src outer.dst) ↔
      Verifies rest outer values := by
  have size : (laid rest values).bytes.length = 8 + rest.length := laid_length values rest
  have read : wordAt (laid rest values).bytes 6 = values.checksum :=
    congrArg HeaderValues.checksum (valuesAt_encodeHeader values rest)
  have length : wordAt (laid rest values).bytes 4 = values.length :=
    congrArg HeaderValues.length (valuesAt_encodeHeader values rest)
  have sums := segmentChecksumIpv4 outer.src outer.dst
    (show 8 ≤ (laid rest values).bytes.length by omega)
  have words : sumOutside (laid rest values).bytes 6 = headerSum values + wordSum rest :=
    sumOutside_encodeHeader values rest
  have positive := sums.nonzero
  rw [accepts_newVerifiedIpv4_iff, sums.eq_ok (size.trans_le short), Except.ok.injEq,
    checksumOf_eq_iff positive, read, words, length, wordSum_pseudoIpv4]
  constructor
  · rintro ⟨wellFormed, zero | ⟨divides, canonical⟩⟩
    · exact ⟨(wellFormed_encodeHeader_iff values rest).mp wellFormed,
        fun checked => absurd zero checked⟩
    · exact ⟨(wellFormed_encodeHeader_iff values rest).mp wellFormed,
        fun _ => ⟨canonical, divides⟩⟩
  · rintro ⟨fits, adds⟩
    refine ⟨(wellFormed_encodeHeader_iff values rest).mpr fits, ?_⟩
    by_cases zero : values.checksum = 0
    · exact .inl zero
    · exact .inr (adds zero).symm

end Udp

/-! ## Both layers -/

namespace Ipv4

/-! ### A packet laid out -/

section Laid

variable {P : Type} {model : RecordModel P} {rest trailing : Bytes}
  {records : HeaderValues × model.Values}

/-- The header and the segment laid out. -/
def layBoth (model : RecordModel P) (rest : Bytes) :
    HeaderValues × model.Values → PacketViewMut Ipv4 × PacketViewMut P :=
  Prod.map (laid []) (model.lay rest)

/-- The packet laid out, in front of the bytes its total length leaves out. -/
def layPacket (model : RecordModel P) (rest trailing : Bytes)
    (records : HeaderValues × model.Values) : PacketViewMut Ipv4 :=
  join trailing (layBoth model rest records)

theorem layPacket_bytes : (layPacket model rest trailing records).bytes =
    (laid [] records.1).bytes ++ ((model.lay rest records.2).bytes ++ trailing) :=
  List.append_assoc _ _ _

/-- The header in front of the segment reads as its record. -/
theorem valuesAt_layPacket (fits : Fits records.1) :
    valuesAt (layPacket model rest trailing records).bytes = records.1 := by
  have header : (laid [] records.1).bytes = encodeHeader records.1 := List.append_nil _
  rw [layPacket_bytes, header]
  exact valuesAt_encodeHeader _ fits

variable
  (holds : Parts trailing ((laid [] records.1).bytes, (model.lay rest records.2).bytes))

include holds

theorem wellFormed_layPacket : WellFormed (layPacket model rest trailing records).bytes := by
  have alone : Alone (laid [] records.1).bytes := holds.alone
  rw [layPacket_bytes]
  exact alone.append _

theorem payloadOf_layPacket :
    payloadOf (layPacket model rest trailing records).bytes =
      (model.lay rest records.2).bytes := by
  have parted : Parts trailing
      ((layBoth model rest records).1.bytes, (layBoth model rest records).2.bytes) := holds
  exact payloadOf_join parted

end Laid

/-! ### Updates of both records -/

section Layers

variable {P : Type} [PacketSpec P] {model : RecordModel P} {rest trailing : Bytes}
  {records : HeaderValues × model.Values}
  {transport : Bytes → Ipv4Addr → Ipv4Addr → Exec (Result (PacketView P))}
  {sound : Bytes → HeaderValues → model.Values → Prop}

/-- Records that stand behind a header and a segment. -/
def FitsBoth (model : RecordModel P) (records : HeaderValues × model.Values) : Prop :=
  Fits records.1 ∧ model.Fits records.2

/-- An edit of either layer, on the records. -/
def updateEither (model : RecordModel P) (rest : Bytes) :
    Setter ⊕ model.Setter → HeaderValues × model.Values → Exec (HeaderValues × model.Values) :=
  onEither update (model.update rest)

theorem fitsBoth_of_update (refined : model.Refined) (edit : Setter ⊕ model.Setter)
    (records records' : HeaderValues × model.Values)
    (updated : updateEither model rest edit records = .ok records')
    (fits : FitsBoth model records) : FitsBoth model records' :=
  onEither_keeps (fun _ _ _ updated fits => fits.of_update updated)
    (fun setter values values' => refined.keeps setter values values' rest) edit records records'
    updated fits

/-- Edits of both parts are updates of both records. -/
theorem runOps_layBoth (refined : model.Refined) (fits : FitsBoth model records)
    (edits : List (Setter ⊕ model.Setter)) :
    runOps (onEither Setter.apply model.apply) edits (layBoth model rest records) =
      (runOps (updateEither model rest) edits records).map (layBoth model rest) :=
  runOps_image (layBoth model rest) (FitsBoth model)
    (fun edit records fits => onEither_image (fun setter => apply_laid [] fits.1 setter)
      (fun setter => refined.step setter records.2 rest fits.2) edit)
    (fitsBoth_of_update refined) edits fits

/-- A packet is two records laid out, and edits of its layers, in any order and with any
panic, are updates of the records. What they leave reads as its records, and it is
verified exactly when these are sound. -/
structure GovernsPacket (model : RecordModel P)
    (transport : Bytes → Ipv4Addr → Ipv4Addr → Exec (Result (PacketView P)))
    (sound : Bytes → HeaderValues → model.Values → Prop) (packet rest trailing : Bytes)
    (records : HeaderValues × model.Values) : Prop where
  laid : (layPacket model rest trailing records).bytes = packet
  runs : ∀ edits, runOps (editPacket model.apply) edits ⟨packet⟩ =
    (runOps (updateEither model rest) edits records).map (layPacket model rest trailing)
  reads : ∀ edits records', runOps (updateEither model rest) edits records = .ok records' →
    headerValues (layPacket model rest trailing records').bytes = .ok records'.1 ∧
    Ipv4Packet.payload (layPacket model rest trailing records').bytes =
      .ok (model.lay rest records'.2).bytes ∧
    model.getters (model.lay rest records'.2).bytes = .ok (model.seen records'.2)
  verified : ∀ edits records', runOps (updateEither model rest) edits records = .ok records' →
    (Accepts (verifyOver newVerified enclosed transport
        (layPacket model rest trailing records').bytes) ↔
      65535 ∣ headerSum records'.1 + records'.1.checksum.toNat ∧
        sound rest records'.1 records'.2)

/-- A run can be taken up where another has left the packet. -/
theorem GovernsPacket.runs_from {packet : Bytes} {records' : HeaderValues × model.Values}
    (governs : GovernsPacket model transport sound packet rest trailing records)
    {edits : List (Setter ⊕ model.Setter)}
    (run : runOps (updateEither model rest) edits records = .ok records')
    (edits' : List (Setter ⊕ model.Setter)) :
    runOps (editPacket model.apply) edits' (layPacket model rest trailing records') =
      (runOps (updateEither model rest) edits' records').map (layPacket model rest trailing) := by
  have whole := governs.runs (edits ++ edits')
  rw [runOps_append, governs.runs, runOps_append, run] at whole
  exact whole

/-- Verification of a packet, on its records. -/
theorem accepts_layPacket (fits : FitsBoth model records)
    (holds : Parts trailing ((laid [] records.1).bytes, (model.lay rest records.2).bytes))
    (law : ∀ outer inner, model.Fits inner → (model.lay rest inner).bytes.length ≤ 65535 →
      (Accepts (transport (model.lay rest inner).bytes outer.src outer.dst) ↔
        sound rest outer inner)) :
    Accepts (verifyOver newVerified enclosed transport
        (layPacket model rest trailing records).bytes) ↔
      65535 ∣ headerSum records.1 + records.1.checksum.toNat ∧ sound rest records.1 records.2 := by
  have alone : Alone (laid [] records.1).bytes := holds.alone
  have segment := payloadOf_layPacket holds
  have short : (model.lay rest records.2).bytes.length ≤ 65535 := segment ▸ payloadOf_length_le _
  have src : addressAt 4 (layPacket model rest trailing records).bytes 12 = records.1.src :=
    congrArg HeaderValues.src (valuesAt_layPacket fits.1)
  have dst : addressAt 4 (layPacket model rest trailing records).bytes 16 = records.1.dst :=
    congrArg HeaderValues.dst (valuesAt_layPacket fits.1)
  rw [networkLayer.accepts_iff, inside, segment, src, dst, law records.1 records.2 fits.2 short,
    layPacket_bytes, accepts_newVerified_append alone, accepts_newVerified_laid fits.1]

/-- Behind every packet with an accepted segment stand two records. -/
def RecordsGovern (model : RecordModel P)
    (transport : Bytes → Ipv4Addr → Ipv4Addr → Exec (Result (PacketView P)))
    (sound : Bytes → HeaderValues → model.Values → Prop) : Prop :=
  ∀ packet segment, Accepts (PacketView.new Ipv4 packet) →
    Ipv4Packet.payload packet = .ok segment → Accepts (PacketView.new P segment) →
    ∃ rest trailing records, GovernsPacket model transport sound packet rest trailing records

/-- Every packet with an accepted segment is two records laid out. -/
theorem exists_layPacket (refined : model.Refined) {packet : Bytes} (wellFormed : WellFormed packet)
    (segment : PacketSpec.validate P (payloadOf packet) = .ok (.ok ())) :
    ∃ rest records, FitsBoth model records ∧
      Parts (trailingPart packet) ((laid [] records.1).bytes, (model.lay rest records.2).bytes) ∧
      (layPacket model rest (trailingPart packet) records).bytes = packet := by
  have alone := alone_headerPart wellFormed
  obtain ⟨inner, rest, fits', laid'⟩ := refined.covers (payloadOf packet) segment
  have fits : Fits (valuesAt (headerPart packet)) := fits_valuesAt alone.wellFormed
  -- Nothing follows the header in its part.
  have header : (laid [] (valuesAt (headerPart packet))).bytes = headerPart packet := by
    have covered := encodeHeader_valuesAt alone.wellFormed
    rwa [alone.whole, List.drop_length] at covered
  have body : (model.lay rest inner).bytes = payloadOf packet := laid'
  refine ⟨rest, (valuesAt (headerPart packet), inner), ⟨fits, fits'⟩, ?_, ?_⟩
  · dsimp only
    rw [header, body]
    exact parts_self wellFormed
  · rw [layPacket_bytes, header, body, ← List.append_assoc]
    exact parts_append wellFormed

section Governed

variable (refined : model.Refined)
  (keeps : ∀ setter view view', model.apply setter view = .ok view' →
    view'.bytes.length = view.bytes.length)
  (law : ∀ rest outer inner, model.Fits inner → (model.lay rest inner).bytes.length ≤ 65535 →
    (Accepts (transport (model.lay rest inner).bytes outer.src outer.dst) ↔
      sound rest outer inner))

include refined keeps law

theorem governs_layPacket (fits : FitsBoth model records)
    (holds : Parts trailing ((laid [] records.1).bytes, (model.lay rest records.2).bytes)) :
    GovernsPacket model transport sound (layPacket model rest trailing records).bytes rest trailing
      records := by
  have parted : Parts trailing
      ((layBoth model rest records).1.bytes, (layBoth model rest records).2.bytes) := holds
  -- What a run reaches is a packet laid out again.
  have reached {edits : List (Setter ⊕ model.Setter)} {records' : HeaderValues × model.Values}
      (run : runOps (updateEither model rest) edits records = .ok records') :
      FitsBoth model records' ∧
        Parts trailing ((laid [] records'.1).bytes, (model.lay rest records'.2).bytes) := by
    have edited : runOps (onEither Setter.apply model.apply) edits (layBoth model rest records) =
        .ok (layBoth model rest records') := by
      rw [runOps_layBoth refined fits, run]
      rfl
    exact ⟨runOps_preserves (FitsBoth model) (fitsBoth_of_update refined) edits run fits,
      parts_of_run keeps edited parted⟩
  refine ⟨rfl, ?_, ?_, ?_⟩
  · intro edits
    refine (runOps_join keeps parted edits).trans ?_
    rw [runOps_layBoth refined fits]
    cases runOps (updateEither model rest) edits records <;> rfl
  · intro edits records' run
    obtain ⟨kept, parted'⟩ := reached run
    have wellFormed := wellFormed_layPacket parted'
    refine ⟨?_, ?_, refined.reads records'.2 rest kept.2⟩
    · rw [headerValues_eq_ok wellFormed, valuesAt_layPacket kept.1]
    · exact (payload_eq_ok wellFormed).trans (congrArg _ (payloadOf_layPacket parted'))
  · intro edits records' run
    obtain ⟨kept, parted'⟩ := reached run
    exact accepts_layPacket kept parted' (law rest)

theorem recordsGovern : RecordsGovern model transport sound := by
  intro packet segment outer payload segmented
  have wellFormed : WellFormed packet := validate_eq_ok_iff.mp (accepts_new_iff.mp outer)
  obtain rfl : payloadOf packet = segment :=
    Except.ok.inj ((payload_eq_ok wellFormed).symm.trans payload)
  obtain ⟨rest, records, fits, holds, laid⟩ :=
    exists_layPacket refined wellFormed (accepts_new_iff.mp segmented)
  have governs := governs_layPacket refined keeps law fits holds
  rw [laid] at governs
  exact ⟨rest, trailingPart packet, records, governs⟩

end Governed

end Layers

theorem recordsGovern_tcp : RecordsGovern Tcp.recordModel Tcp.newVerifiedIpv4 Tcp.Verifies := by
  refine recordsGovern Tcp.refined (fun _ _ _ => Tcp.Setter.apply_length) ?_
  intro rest outer inner fits short
  exact Tcp.accepts_newVerifiedIpv4_laid fits ((Tcp.laid_length rest).ge.trans short)

theorem recordsGovern_udp : RecordsGovern Udp.recordModel Udp.newVerifiedIpv4 Udp.Verifies := by
  refine recordsGovern Udp.refined (fun _ _ _ => Udp.Setter.apply_length) ?_
  intro rest outer inner _ short
  exact Udp.accepts_newVerifiedIpv4_laid ((Udp.laid_length inner rest).ge.trans short)

/-- Both transports over IPv4: the records decide what edits of a packet leave, and
whether that verifies. -/
theorem packets_are_records :
    RecordsGovern Tcp.recordModel Tcp.newVerifiedIpv4 Tcp.Verifies ∧
      RecordsGovern Udp.recordModel Udp.newVerifiedIpv4 Udp.Verifies :=
  ⟨recordsGovern_tcp, recordsGovern_udp⟩

/-- The records of a captured packet: edits of both layers update them, and what they leave
verifies if the numbers in them add up. -/
theorem packets_are_records_captured :
    ∃ rest trailing records,
      (layPacket Tcp.recordModel rest trailing records).bytes = ParseIpv4Tcp.captured ∧
      runOps (editPacket Tcp.Setter.apply) [.inr (.srcPort 80), .inl (.ttl 63)]
          ⟨ParseIpv4Tcp.captured⟩ =
        .ok (layPacket Tcp.recordModel rest trailing
          ({ records.1 with ttl := 63 }, { records.2 with srcPort := 80 })) ∧
      65535 ∣ headerSum records.1 + records.1.checksum.toNat ∧
      Tcp.Verifies rest records.1 records.2 := by
  obtain ⟨rest, trailing, records, governs⟩ := packets_are_records.1 ParseIpv4Tcp.captured
    (payloadOf ParseIpv4Tcp.captured) (by decide) (by decide) (by decide)
  refine ⟨rest, trailing, records, governs.laid,
    governs.runs [.inr (.srcPort 80), .inl (.ttl 63)], ?_⟩
  exact (governs.verified [] records rfl).mp (governs.laid.symm ▸ accepts_captured)

end Ipv4

end Packet

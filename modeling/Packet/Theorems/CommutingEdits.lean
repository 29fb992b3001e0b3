/-
# Edits in any order

Setters of different layers, and setters that store their arguments in different fields,
are not in each other's way. So a run of such edits can be reordered, be it one that
returns or one that an assertion ends. Swapping the two ends of a packet is such a run,
and it only moves terms around in what the checksums add up: a packet is answered
without computing either of them.
-/

import Packet.Theorems.PacketRecords
import Packet.Theorems.TcpFrames

namespace Packet

open Rust Checksum

/-! ## Setters that commute -/

/-- Two setters that store their arguments, in different fields. -/
def StoreApart {S F : Type} (plain : S → Prop) (field : S → F) (first second : S) : Prop :=
  plain first ∧ plain second ∧ field first ≠ field second

theorem StoreApart.symm {S F : Type} {plain : S → Prop} {field : S → F} {first second : S}
    (apart : StoreApart plain field first second) : StoreApart plain field second first :=
  ⟨apart.2.1, apart.1, apart.2.2.symm⟩

namespace Ipv4

/-- Two setters that commute: both store their argument, in different fields. -/
def Setter.Apart : Setter → Setter → Prop := StoreApart Setter.Plain Setter.field

theorem update_comm {first second : Setter} (apart : first.Apart second) (values : HeaderValues) :
    runOps update [first, second] values = runOps update [second, first] values := by
  obtain ⟨plain, plain', different⟩ := apart
  -- Two setters of one field are the same up to their arguments.
  cases first <;> cases second <;>
    first
    | exact absurd rfl different
    | exact absurd rfl plain
    | exact absurd rfl plain'
    | rfl

theorem update_returns (setter : Setter) (values : HeaderValues) :
    ∃ values', update setter values = .ok values' := by
  cases setter <;> exact ⟨_, rfl⟩

end Ipv4

namespace Tcp

/-- Two setters that commute: both store their argument, in different fields. -/
def Setter.Apart : Setter → Setter → Prop := StoreApart Setter.Plain Setter.field

/-- An assertion that fails does so before anything is written, in either order. -/
theorem update_dataOffset_comm {setter : Setter} (plain : setter.Plain)
    (different : setter.field ≠ .dataOffset) (rest : Bytes) (value : UInt8)
    (values : SegmentValues) :
    runOps (update rest) [.dataOffset value, setter] values =
      runOps (update rest) [setter, .dataOffset value] values := by
  rw [runOps_pair, runOps_pair]
  cases setter with
  | computeAndSetChecksumIpv4 src dst => exact absurd plain id
  | computeAndSetChecksumIpv6 src dst => exact absurd plain id
  | dataOffset _ => exact absurd rfl different
  | _ =>
    cases asserted : debugAssert (decide (value ≥ 5)) <;>
      simp only [update, withFlags, asserted, ok_bind, error_bind, pure_eq_ok]

theorem update_comm {first second : Setter} (apart : first.Apart second) (rest : Bytes)
    (values : SegmentValues) :
    runOps (update rest) [first, second] values = runOps (update rest) [second, first] values := by
  obtain ⟨plain, plain', different⟩ := apart
  cases first with
  | computeAndSetChecksumIpv4 src dst => exact absurd plain id
  | computeAndSetChecksumIpv6 src dst => exact absurd plain id
  | dataOffset value => exact update_dataOffset_comm plain' different.symm rest value values
  | _ =>
    cases second with
    | computeAndSetChecksumIpv4 src dst => exact absurd plain' id
    | computeAndSetChecksumIpv6 src dst => exact absurd plain' id
    | dataOffset value => exact (update_dataOffset_comm plain different rest value values).symm
    | _ =>
      first
      | exact absurd rfl different
      | rfl

end Tcp

namespace Udp

/-- Two setters that commute: both store their argument, in different fields. -/
def Setter.Apart : Setter → Setter → Prop := StoreApart Setter.Plain Setter.field

theorem update_comm {first second : Setter} (apart : first.Apart second) (rest : Bytes)
    (values : HeaderValues) :
    runOps (update rest) [first, second] values = runOps (update rest) [second, first] values := by
  obtain ⟨plain, plain', different⟩ := apart
  cases first <;> cases second <;>
    first
    | exact absurd rfl different
    | exact absurd plain id
    | exact absurd plain' id
    | rfl

end Udp

/-! ## Reordering a run -/

namespace Ipv4

/-- Edits of different layers, and edits of one layer that are apart. -/
def Independent {S : Type} (apart : S → S → Prop) : Setter ⊕ S → Setter ⊕ S → Prop
  | .inl first, .inl second => first.Apart second
  | .inr first, .inr second => apart first second
  | _, _ => True

theorem Independent.symm {S : Type} {apart : S → S → Prop}
    (symmetric : ∀ first second, apart first second → apart second first)
    (first second : Setter ⊕ S) (independent : Independent apart first second) :
    Independent apart second first := by
  cases first with
  | inl first =>
    cases second with
    | inl second => exact StoreApart.symm independent
    | inr second => trivial
  | inr first =>
    cases second with
    | inl second => trivial
    | inr second => exact symmetric first second independent

section Runs

variable {P : Type} {model : RecordModel P} {apart : model.Setter → model.Setter → Prop}

/-- Setters of a transport header that are apart commute on its records. -/
structure Commuting (model : RecordModel P) (apart : model.Setter → model.Setter → Prop) :
    Prop where
  symm : ∀ first second, apart first second → apart second first
  comm : ∀ first second, apart first second → ∀ rest values,
    runOps (model.update rest) [first, second] values =
      runOps (model.update rest) [second, first] values

theorem updateEither_comm (commuting : Commuting model apart) {rest : Bytes}
    {first second : Setter ⊕ model.Setter} (independent : Independent apart first second)
    (records : HeaderValues × model.Values) :
    runOps (updateEither model rest) [first, second] records =
      runOps (updateEither model rest) [second, first] records := by
  obtain ⟨outer, inner⟩ := records
  cases first with
  | inl first =>
    cases second with
    | inl second =>
      have alone (edits : List Setter) : runOps (updateEither model rest) (edits.map .inl)
          (outer, inner) = (runOps update edits outer).map (·, inner) :=
        runOps_onEither_inl edits outer inner
      have same := update_comm independent outer
      exact (alone [first, second]).trans (same ▸ (alone [second, first]).symm)
    | inr second => exact runOps_onEither_comm first second (update_returns first outer)
  | inr first =>
    cases second with
    | inl second => exact (runOps_onEither_comm second first (update_returns second outer)).symm
    | inr second =>
      have alone (edits : List model.Setter) : runOps (updateEither model rest) (edits.map .inr)
          (outer, inner) = (runOps (model.update rest) edits inner).map (outer, ·) :=
        runOps_onEither_inr edits outer inner
      have same := commuting.comm first second independent rest inner
      exact (alone [first, second]).trans (same ▸ (alone [second, first]).symm)

/-- Independent updates of both records can be reordered. -/
theorem runOps_updateEither_perm (commuting : Commuting model apart) {rest : Bytes}
    {edits edits' : List (Setter ⊕ model.Setter)} (reordered : edits.Perm edits')
    (independent : edits.Pairwise (Independent apart)) (records : HeaderValues × model.Values) :
    runOps (updateEither model rest) edits records =
      runOps (updateEither model rest) edits' records :=
  runOps_perm (fun _ => True) (fun _ _ _ _ _ => trivial) (Independent.symm commuting.symm)
    (fun _ _ records independent _ => updateEither_comm commuting independent records)
    reordered independent trivial

variable [PacketSpec P] {transport : Bytes → Ipv4Addr → Ipv4Addr → Exec (Result (PacketView P))}
  {sound : Bytes → HeaderValues → model.Values → Prop}

/-- Independent edits of a packet with an accepted segment can be made in any order: the
outcome, be it a buffer or a panic, is the same. -/
def EditsReorder {S : Type} (applySegment : S → PacketViewMut P → Exec (PacketViewMut P))
    (apart : S → S → Prop) : Prop :=
  ∀ packet segment (edits edits' : List (Setter ⊕ S)),
    Accepts (PacketView.new Ipv4 packet) → Ipv4Packet.payload packet = .ok segment →
    Accepts (PacketView.new P segment) → edits.Pairwise (Independent apart) → edits.Perm edits' →
    runOps (editPacket applySegment) edits ⟨packet⟩ =
      runOps (editPacket applySegment) edits' ⟨packet⟩

theorem editsReorder (commuting : Commuting model apart)
    (govern : RecordsGovern model transport sound) : EditsReorder model.apply apart := by
  intro packet segment edits edits' outer payload segmented independent reordered
  obtain ⟨rest, trailing, records, governs⟩ := govern packet segment outer payload segmented
  rw [governs.runs, governs.runs, runOps_updateEither_perm commuting reordered independent]

end Runs

theorem commuting_tcp : Commuting Tcp.recordModel Tcp.Setter.Apart where
  symm := fun _ _ => StoreApart.symm
  comm := fun _ _ => Tcp.update_comm

theorem commuting_udp : Commuting Udp.recordModel Udp.Setter.Apart where
  symm := fun _ _ => StoreApart.symm
  comm := fun _ _ => Udp.update_comm

/-- Edits of the IPv4 header and of the TCP or UDP header inside it. -/
theorem edits_reorder :
    EditsReorder Tcp.Setter.apply Tcp.Setter.Apart ∧
      EditsReorder Udp.Setter.apply Udp.Setter.Apart :=
  ⟨editsReorder commuting_tcp recordsGovern_tcp, editsReorder commuting_udp recordsGovern_udp⟩

/-- Three edits of a captured packet, the other way round. -/
theorem edits_reorder_captured :
    runOps (editPacket Tcp.Setter.apply) [.inl (.ttl 63), .inr (.srcPort 80), .inr (.flags 0x12)]
        ⟨ParseIpv4Tcp.captured⟩ =
      runOps (editPacket Tcp.Setter.apply)
        [.inr (.flags 0x12), .inr (.srcPort 80), .inl (.ttl 63)] ⟨ParseIpv4Tcp.captured⟩ := by
  have apart : Tcp.Setter.Apart (.srcPort 80) (.flags 0x12) :=
    ⟨trivial, trivial, TcpPacket.Field.noConfusion⟩
  have independent : [.inl (.ttl 63), .inr (.srcPort 80), .inr (.flags 0x12)].Pairwise
      (Independent (S := Tcp.Setter) Tcp.Setter.Apart) := by
    simp [Independent, apart]
  exact edits_reorder.1 _ (payloadOf ParseIpv4Tcp.captured) _ _ (by decide) (by decide) (by decide)
    independent (List.reverse_perm _).symm

/-! ## Answering a packet -/

/-- The two ends of a header, swapped. -/
def swapAddresses (values : HeaderValues) : HeaderValues :=
  { values with src := values.dst, dst := values.src }

theorem headerSum_swapAddresses (values : HeaderValues) :
    headerSum (swapAddresses values) = headerSum values := by
  simp only [headerSum, swapAddresses]
  omega

theorem addsUp_swapAddresses {outer : HeaderValues} {protocol : UInt8} {length words : ℕ}
    {checksum : UInt16} (adds : AddsUp outer protocol length words checksum) :
    AddsUp (swapAddresses outer) protocol length words checksum := by
  rw [AddsUp, Ipv4.swapAddresses, Nat.add_comm (wordSum outer.dst.toList)]
  exact adds

/-- The setters of an answer: each end becomes the other. -/
def answer {S : Type} (setSrcPort setDstPort : UInt16 → S) (src dst : Ipv4Addr)
    (srcPort dstPort : UInt16) : List (Setter ⊕ S) :=
  [.inl (.src dst), .inl (.dst src), .inr (setSrcPort dstPort), .inr (setDstPort srcPort)]

/-- The ports in the records of a transport protocol. -/
structure Ports {P : Type} (model : RecordModel P) where
  setSrcPort : UInt16 → model.Setter
  setDstPort : UInt16 → model.Setter
  srcPort : model.Values → UInt16
  dstPort : model.Values → UInt16
  swap : model.Values → model.Values

/-- The ports can be swapped, which leaves a sound record sound. -/
structure Ports.Lawful {P : Type} {model : RecordModel P} (ports : Ports model)
    (apart : model.Setter → model.Setter → Prop) (readSrc readDst : Bytes → Exec UInt16)
    (sound : Bytes → HeaderValues → model.Values → Prop) : Prop where
  apart : ∀ srcPort dstPort, apart (ports.setSrcPort srcPort) (ports.setDstPort dstPort)
  reads : ∀ rest values, readSrc (model.lay rest values).bytes = .ok (ports.srcPort values) ∧
    readDst (model.lay rest values).bytes = .ok (ports.dstPort values)
  swaps : ∀ rest values, runOps (model.update rest)
    [ports.setSrcPort (ports.dstPort values), ports.setDstPort (ports.srcPort values)] values =
      .ok (ports.swap values)
  back : ∀ values, ports.swap (ports.swap values) = values ∧
    ports.srcPort (ports.swap values) = ports.dstPort values ∧
    ports.dstPort (ports.swap values) = ports.srcPort values
  sound : ∀ rest outer inner, sound rest outer inner →
    sound rest (swapAddresses outer) (ports.swap inner)

/-- A verified packet is answered by four setters, in any order: what they leave verifies
with the checksums it has, and answering the answer restores the packet. -/
def Answers {P S : Type} [PacketSpec P]
    (transport : Bytes → Ipv4Addr → Ipv4Addr → Exec (Result (PacketView P)))
    (applySegment : S → PacketViewMut P → Exec (PacketViewMut P))
    (setSrcPort setDstPort : UInt16 → S) (readSrc readDst : Bytes → Exec UInt16) : Prop :=
  ∀ packet inside srcPort dstPort,
    Accepts (verifyOver newVerified enclosed transport packet) → enclosed packet = .ok inside →
    readSrc inside.payload = .ok srcPort → readDst inside.payload = .ok dstPort →
    ∃ out : PacketViewMut Ipv4,
      (∀ edits, edits.Perm (answer setSrcPort setDstPort inside.src inside.dst srcPort dstPort) →
        runOps (editPacket applySegment) edits ⟨packet⟩ = .ok out) ∧
      Accepts (verifyOver newVerified enclosed transport out.bytes) ∧
      ∀ edits, edits.Perm (answer setSrcPort setDstPort inside.dst inside.src dstPort srcPort) →
        runOps (editPacket applySegment) edits out = .ok ⟨packet⟩

section Records

variable {P : Type} {model : RecordModel P} {apart : model.Setter → model.Setter → Prop}
  {ports : Ports model} {readSrc readDst : Bytes → Exec UInt16}
  {sound : Bytes → HeaderValues → model.Values → Prop}
  (lawful : ports.Lawful apart readSrc readDst sound)

include lawful

theorem pairwise_answer (src dst : Ipv4Addr) (srcPort dstPort : UInt16) :
    (answer ports.setSrcPort ports.setDstPort src dst srcPort dstPort).Pairwise
      (Independent apart) := by
  have addresses : Setter.Apart (.src dst) (.dst src) :=
    ⟨Setter.noConfusion, Setter.noConfusion, Ipv4Packet.Field.noConfusion⟩
  have numbers := lawful.apart dstPort srcPort
  simp [answer, Independent, addresses, numbers]

/-- Answering, on the records. -/
theorem runOps_answer (rest : Bytes) (records : HeaderValues × model.Values) :
    runOps (updateEither model rest) (answer ports.setSrcPort ports.setDstPort records.1.src
        records.1.dst (ports.srcPort records.2) (ports.dstPort records.2)) records =
      .ok (swapAddresses records.1, ports.swap records.2) :=
  runOps_onEither_iff.mpr ⟨rfl, lawful.swaps rest records.2⟩

end Records

/-- Answering on the buffer follows answering on the records. -/
theorem answers {P : Type} [PacketSpec P] {model : RecordModel P}
    {apart : model.Setter → model.Setter → Prop} {ports : Ports model}
    {readSrc readDst : Bytes → Exec UInt16} {sound : Bytes → HeaderValues → model.Values → Prop}
    {transport : Bytes → Ipv4Addr → Ipv4Addr → Exec (Result (PacketView P))}
    (lawful : ports.Lawful apart readSrc readDst sound) (commuting : Commuting model apart)
    (govern : RecordsGovern model transport sound)
    (valid : ∀ bytes src dst, Accepts (transport bytes src dst) →
      Accepts (PacketView.new P bytes)) :
    Answers transport model.apply ports.setSrcPort ports.setDstPort readSrc readDst := by
  intro packet enclosing srcPort dstPort accepted read readSrcPort readDstPort
  obtain ⟨verified, verified'⟩ := (networkLayer.accepts_iff packet).mp accepted
  have wellFormed := (accepts_newVerified_iff.mp verified).1
  obtain rfl : inside packet = enclosing :=
    Except.ok.inj ((enclosed_eq_ok wellFormed).symm.trans read)
  obtain ⟨rest, trailing, records, governs⟩ := govern packet _
    (accepts_new_iff.mpr (validate_eq_ok_iff.mpr wellFormed)) (payload_eq_ok wellFormed)
    (valid _ _ _ verified')
  -- The addresses and the ports are those of the records.
  obtain ⟨header, payload, _⟩ := governs.reads [] records rfl
  rw [governs.laid] at header payload
  have values : valuesAt packet = records.1 :=
    Except.ok.inj ((headerValues_eq_ok wellFormed).symm.trans header)
  have segment : (inside packet).payload = (model.lay rest records.2).bytes :=
    Except.ok.inj ((payload_eq_ok wellFormed).symm.trans payload)
  have src : (inside packet).src = records.1.src := congrArg HeaderValues.src values
  have dst : (inside packet).dst = records.1.dst := congrArg HeaderValues.dst values
  obtain ⟨first, second⟩ := lawful.reads rest records.2
  rw [segment] at readSrcPort readDstPort
  obtain rfl := Except.ok.inj (first.symm.trans readSrcPort)
  obtain rfl := Except.ok.inj (second.symm.trans readDstPort)
  obtain ⟨restored, srcBack, dstBack⟩ := lawful.back records.2
  have run := runOps_answer lawful rest records
  have back : runOps (updateEither model rest) (answer ports.setSrcPort ports.setDstPort
      records.1.dst records.1.src (ports.dstPort records.2) (ports.srcPort records.2))
      (swapAddresses records.1, ports.swap records.2) = .ok records := by
    have again := runOps_answer lawful rest (swapAddresses records.1, ports.swap records.2)
    rw [restored, srcBack, dstBack] at again
    exact again
  have reorder {edits edits' : List (Setter ⊕ model.Setter)} (reordered : edits.Perm edits')
      (independent : edits'.Pairwise (Independent apart)) (records : HeaderValues × model.Values) :
      runOps (updateEither model rest) edits records =
        runOps (updateEither model rest) edits' records :=
    (runOps_updateEither_perm commuting reordered.symm independent records).symm
  rw [src, dst]
  refine ⟨layPacket model rest trailing (swapAddresses records.1, ports.swap records.2),
    ?_, ?_, ?_⟩
  · intro edits reordered
    rw [governs.runs, reorder reordered (pairwise_answer lawful _ _ _ _), run]
    rfl
  · obtain ⟨divides, sound⟩ := (governs.verified [] records rfl).mp (governs.laid.symm ▸ accepted)
    refine (governs.verified _ _ run).mpr ⟨?_, lawful.sound rest records.1 records.2 sound⟩
    rw [headerSum_swapAddresses]
    exact divides
  · intro edits reordered
    rw [governs.runs_from run, reorder reordered (pairwise_answer lawful _ _ _ _), back]
    exact congrArg Except.ok (PacketViewMut.ext governs.laid)

/-- The ports of a header laid out in front of other bytes. -/
theorem reads_ports {bytes : Bytes} {srcPort dstPort : UInt16} (long : 4 ≤ bytes.length)
    (first : wordAt bytes 0 = srcPort) (second : wordAt bytes 2 = dstPort) :
    readU16 bytes 0 = .ok srcPort ∧ readU16 bytes 2 = .ok dstPort := by
  rw [readU16_eq_ok (by omega), readU16_eq_ok (by omega), first, second]
  exact ⟨rfl, rfl⟩

/-- The ports of a segment. -/
def tcpPorts : Ports Tcp.recordModel where
  setSrcPort := Tcp.Setter.srcPort
  setDstPort := Tcp.Setter.dstPort
  srcPort := fun values => values.srcPort
  dstPort := fun values => values.dstPort
  swap := fun values => { values with srcPort := values.dstPort, dstPort := values.srcPort }

theorem tcpPorts_lawful :
    tcpPorts.Lawful Tcp.Setter.Apart TcpPacket.srcPort TcpPacket.dstPort Tcp.Verifies where
  apart := fun _ _ => ⟨trivial, trivial, TcpPacket.Field.noConfusion⟩
  reads := fun rest values =>
    reads_ports ((Nat.le_add_right_of_le (by decide)).trans (Tcp.laid_length rest).ge)
      (u16FromBeBytes_toBeBytes _) (u16FromBeBytes_toBeBytes _)
  swaps := fun _ _ => rfl
  back := fun _ => ⟨rfl, rfl, rfl⟩
  sound := by
    rintro rest outer inner ⟨words, options, canonical, adds⟩
    have same : Tcp.headerSum (tcpPorts.swap inner) = Tcp.headerSum inner := by
      simp only [Tcp.headerSum, tcpPorts]
      omega
    exact ⟨words, options, canonical, same.symm ▸ addsUp_swapAddresses adds⟩

/-- The ports of a datagram. -/
def udpPorts : Ports Udp.recordModel where
  setSrcPort := Udp.Setter.srcPort
  setDstPort := Udp.Setter.dstPort
  srcPort := fun values => values.srcPort
  dstPort := fun values => values.dstPort
  swap := fun values => { values with srcPort := values.dstPort, dstPort := values.srcPort }

theorem udpPorts_lawful :
    udpPorts.Lawful Udp.Setter.Apart UdpPacket.srcPort UdpPacket.dstPort Udp.Verifies where
  apart := fun _ _ => ⟨trivial, trivial, UdpPacket.Field.noConfusion⟩
  reads := fun rest values =>
    reads_ports ((Nat.le_add_right_of_le (by decide)).trans (Udp.laid_length values rest).ge)
      (u16FromBeBytes_toBeBytes _) (u16FromBeBytes_toBeBytes _)
  swaps := fun _ _ => rfl
  back := fun _ => ⟨rfl, rfl, rfl⟩
  sound := by
    rintro rest outer inner ⟨⟨header, inside⟩, adds⟩
    have same : Udp.headerSum (udpPorts.swap inner) = Udp.headerSum inner := by
      simp only [Udp.headerSum, udpPorts]
      omega
    refine ⟨⟨header, inside⟩, fun checked => ?_⟩
    obtain ⟨canonical, adds⟩ := adds checked
    exact ⟨canonical, same.symm ▸ addsUp_swapAddresses adds⟩

/-- Verified packets of both transports are answered without computing a checksum. -/
theorem packets_answered :
    Answers Tcp.newVerifiedIpv4 Tcp.Setter.apply Tcp.Setter.srcPort Tcp.Setter.dstPort
        TcpPacket.srcPort TcpPacket.dstPort ∧
      Answers Udp.newVerifiedIpv4 Udp.Setter.apply Udp.Setter.srcPort Udp.Setter.dstPort
        UdpPacket.srcPort UdpPacket.dstPort := by
  refine ⟨answers tcpPorts_lawful commuting_tcp recordsGovern_tcp ?_,
    answers udpPorts_lawful commuting_udp recordsGovern_udp ?_⟩
  · intro bytes src dst accepted
    exact accepts_new_iff.mpr (Tcp.validate_eq_ok_iff.mpr
      (Tcp.accepts_newVerifiedIpv4_iff.mp accepted).1)
  · intro bytes src dst accepted
    exact accepts_new_iff.mpr (Udp.validate_eq_ok_iff.mpr
      (Udp.accepts_newVerifiedIpv4_iff.mp accepted).1)

/-- A captured packet is answered, from the last setter to the first, and the answer in
turn. -/
theorem packets_answered_captured :
    ∃ out : PacketViewMut Ipv4,
      runOps (editPacket Tcp.Setter.apply)
        [.inr (.dstPort 8884), .inr (.srcPort 61224),
          .inl (.dst (inside ParseIpv4Tcp.captured).src),
          .inl (.src (inside ParseIpv4Tcp.captured).dst)] ⟨ParseIpv4Tcp.captured⟩ = .ok out ∧
      Accepts (verifyTcp out.bytes) ∧
      runOps (editPacket Tcp.Setter.apply)
        [.inl (.src (inside ParseIpv4Tcp.captured).src),
          .inl (.dst (inside ParseIpv4Tcp.captured).dst), .inr (.srcPort 8884),
          .inr (.dstPort 61224)] out = .ok ⟨ParseIpv4Tcp.captured⟩ := by
  have wellFormed : WellFormed ParseIpv4Tcp.captured := validate_eq_ok_iff.mp (by decide)
  obtain ⟨out, answered, verified, restored⟩ := packets_answered.1 ParseIpv4Tcp.captured _ 8884
    61224 accepts_captured (enclosed_eq_ok wellFormed) (by decide) (by decide)
  have backwards := List.reverse_perm (answer Tcp.Setter.srcPort Tcp.Setter.dstPort
    (inside ParseIpv4Tcp.captured).src (inside ParseIpv4Tcp.captured).dst 8884 61224)
  exact ⟨out, answered _ backwards, verified, restored _ (List.Perm.refl _)⟩

end Ipv4

end Packet

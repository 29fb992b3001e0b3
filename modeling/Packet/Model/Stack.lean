/-
# Layers of a packet

A packet is read one layer after the other. The transport constructors are given
the payload of the network layer and, where they verify a checksum, the addresses
of the header around it. Modelled are the two compositions the repository shows,
one that only validates and the example program, and the one its constructors are
made for, in which both layers are verified.
-/

import Packet.Model.Ipv4
import Packet.Model.Ipv6
import Packet.Model.Tcp
import Packet.Model.Udp
import Packet.Rust.Print

namespace Packet

open Rust

/-- The parsing example of the introduction: a TCP segment in an IPv4 packet. -/
def inspect (packet : Bytes) : Exec (Result Unit) := do
  match ← PacketView.new Ipv4 packet with
  | .error error => return .error error
  | .ok ipv4 =>
    match ← PacketView.new Tcp (← Ipv4Packet.payload ipv4.bytes) with
    | .error error => return .error error
    | .ok _ => return .ok ()

/-! ## The example program -/

namespace ParseIpv4Tcp

open Printing (println)

/-- `{:?}` of an address. -/
def debugAddress (address : Ipv4Addr) : String :=
  "[" ++ ", ".intercalate (address.toList.map fun byte => toString byte.toNat) ++ "]"

/-- The lines the program prints about the IPv4 packet. -/
def printIpv4 (ipv4 : Bytes) : Printing Unit := do
  println "IPv4 packet"
  println ("version: " ++ toString (← Ipv4Packet.version ipv4).toNat)
  println ("header length: " ++ toString (← Ipv4Packet.headerLen ipv4) ++ " bytes")
  println ("total length: " ++ toString (← Ipv4Packet.totalLen ipv4).toNat ++ " bytes")
  println ("ttl: " ++ toString (← Ipv4Packet.ttl ipv4).toNat)
  println ("protocol: " ++ toString (← Ipv4Packet.protocol ipv4).toNat)
  println ("source: " ++ debugAddress (← Ipv4Packet.src ipv4))
  println ("destination: " ++ debugAddress (← Ipv4Packet.dst ipv4))
  println ("payload len: " ++ toString (← Ipv4Packet.payload ipv4).length ++ " bytes")

/-- The lines the program prints about the TCP segment. -/
def printTcp (tcp : Bytes) : Printing Unit := do
  println ""
  println "TCP segment"
  println ("source port: " ++ toString (← TcpPacket.srcPort tcp).toNat)
  println ("destination port: " ++ toString (← TcpPacket.dstPort tcp).toNat)
  println ("sequence: " ++ toString (← TcpPacket.seqNumber tcp).toNat)
  println ("acknowledgment: " ++ toString (← TcpPacket.ackNumber tcp).toNat)
  println ("header length: " ++ toString (← TcpPacket.headerLen tcp) ++ " bytes")
  println ("SYN: " ++ toString (← TcpPacket.isSyn tcp))
  println ("ACK: " ++ toString (← TcpPacket.isAck tcp))
  println ("FIN: " ++ toString (← TcpPacket.isFin tcp))

/-- `main`, with the packet for an argument. -/
def main (packet : Bytes) : Printing Unit := do
  let ipv4 ← expect (← Ipv4.newVerified packet).toOption
  printIpv4 ipv4.bytes
  -- The protocol number has been printed, but is not looked at.
  let tcp ← expect (← PacketView.new Tcp (← Ipv4Packet.payload ipv4.bytes)).toOption
  printTcp tcp.bytes

/-- What the getters of the IPv4 view return of what is printed. -/
structure Ipv4Report where
  version : UInt8
  headerLen : ℕ
  totalLen : UInt16
  ttl : UInt8
  protocol : UInt8
  src : Ipv4Addr
  dst : Ipv4Addr
  payloadLen : ℕ
  deriving DecidableEq

/-- The values the getters return. -/
def reportIpv4 (ipv4 : Bytes) : Exec Ipv4Report := do
  return {
    version := ← Ipv4Packet.version ipv4
    headerLen := ← Ipv4Packet.headerLen ipv4
    totalLen := ← Ipv4Packet.totalLen ipv4
    ttl := ← Ipv4Packet.ttl ipv4
    protocol := ← Ipv4Packet.protocol ipv4
    src := ← Ipv4Packet.src ipv4
    dst := ← Ipv4Packet.dst ipv4
    payloadLen := (← Ipv4Packet.payload ipv4).length }

/-- The report, line by line. -/
def Ipv4Report.lines (report : Ipv4Report) : List String :=
  ["IPv4 packet",
    "version: " ++ toString report.version.toNat,
    "header length: " ++ toString report.headerLen ++ " bytes",
    "total length: " ++ toString report.totalLen.toNat ++ " bytes",
    "ttl: " ++ toString report.ttl.toNat,
    "protocol: " ++ toString report.protocol.toNat,
    "source: " ++ debugAddress report.src,
    "destination: " ++ debugAddress report.dst,
    "payload len: " ++ toString report.payloadLen ++ " bytes"]

/-- What the getters of the TCP view return of what is printed. -/
structure TcpReport where
  srcPort : UInt16
  dstPort : UInt16
  seqNumber : UInt32
  ackNumber : UInt32
  headerLen : ℕ
  syn : Bool
  ack : Bool
  fin : Bool
  deriving DecidableEq

/-- The values the getters return. -/
def reportTcp (tcp : Bytes) : Exec TcpReport := do
  return {
    srcPort := ← TcpPacket.srcPort tcp
    dstPort := ← TcpPacket.dstPort tcp
    seqNumber := ← TcpPacket.seqNumber tcp
    ackNumber := ← TcpPacket.ackNumber tcp
    headerLen := ← TcpPacket.headerLen tcp
    syn := ← TcpPacket.isSyn tcp
    ack := ← TcpPacket.isAck tcp
    fin := ← TcpPacket.isFin tcp }

/-- The report, line by line, after an empty line. -/
def TcpReport.lines (report : TcpReport) : List String :=
  ["", "TCP segment",
    "source port: " ++ toString report.srcPort.toNat,
    "destination port: " ++ toString report.dstPort.toNat,
    "sequence: " ++ toString report.seqNumber.toNat,
    "acknowledgment: " ++ toString report.ackNumber.toNat,
    "header length: " ++ toString report.headerLen ++ " bytes",
    "SYN: " ++ toString report.syn,
    "ACK: " ++ toString report.ack,
    "FIN: " ++ toString report.fin]

/-- The captured packet the program is run on. -/
def captured : Bytes :=
  [69, 0, 0, 64, 180, 50, 64, 0, 242, 6, 165, 154, 18, 208, 91, 13, 192, 168, 0, 101, 34, 180,
    239, 40, 108, 96, 123, 148, 208, 194, 170, 164, 80, 24, 0, 8, 185, 26, 0, 0, 23, 3, 3, 0, 19,
    125, 221, 91, 190, 241, 199, 245, 159, 22, 198, 29, 196, 172, 194, 151, 156, 183, 55, 122]

end ParseIpv4Tcp

/-! ## Editing layer by layer -/

/-- A mutable view is made over some bytes and setters run on it; a view that is refused
ends the program, as with `expect`. -/
def applyOpened {P S : Type} [PacketSpec P]
    (applySetter : S → PacketViewMut P → Exec (PacketViewMut P)) (setters : List S)
    (bytes : Bytes) : Exec Bytes := do
  let view ← expect (← PacketViewMut.new P bytes).toOption
  return (← runOps applySetter setters view).bytes

/-! ## Verification layer by layer -/

/-- What a network layer hands to the layer inside it. -/
structure Enclosed (n : ℕ) where
  payload : Bytes
  src : Vector UInt8 n
  dst : Vector UInt8 n

/-- The payload and the addresses of an IPv4 packet. -/
def Ipv4.enclosed (bytes : Bytes) : Exec (Enclosed 4) := do
  return {
    payload := ← Ipv4Packet.payload bytes
    src := ← Ipv4Packet.src bytes
    dst := ← Ipv4Packet.dst bytes }

/-- The payload and the addresses of an IPv6 packet. -/
def Ipv6.enclosed (bytes : Bytes) : Exec (Enclosed 16) := do
  return {
    payload := ← Ipv6Packet.payload bytes
    src := ← Ipv6Packet.src bytes
    dst := ← Ipv6Packet.dst bytes }

section Over

variable {N P : Type} [PacketSpec N] [PacketSpec P] {n : ℕ}

/-- A network constructor, then a transport constructor on what the packet encloses. -/
def verifyOver (network : Bytes → Exec (Result (PacketView N)))
    (enclosed : Bytes → Exec (Enclosed n))
    (transport : Bytes → Vector UInt8 n → Vector UInt8 n → Exec (Result (PacketView P)))
    (packet : Bytes) : Exec (Result (PacketView N × PacketView P)) := do
  match ← network packet with
  | .error error => return .error error
  | .ok outer =>
    let inside ← enclosed outer.bytes
    match ← transport inside.payload inside.src inside.dst with
    | .error error => return .error error
    | .ok inner => return .ok (outer, inner)

variable {network : Bytes → Exec (Result (PacketView N))} {enclosed : Bytes → Exec (Enclosed n)}
  {transport : Bytes → Vector UInt8 n → Vector UInt8 n → Exec (Result (PacketView P))}
  {packet : Bytes}

/-- An error of the network layer ends the parse. -/
theorem verifyOver_of_error {error : PacketError}
    (refused : network packet = .ok (.error error)) :
    verifyOver network enclosed transport packet = .ok (.error error) := by
  rw [verifyOver, refused]
  rfl

/-- Past the network layer the verdict is that of the transport layer. -/
theorem verdict_verifyOver {outer : PacketView N} {inside : Enclosed n}
    (opened : network packet = .ok (.ok outer)) (read : enclosed outer.bytes = .ok inside) :
    verdict (verifyOver network enclosed transport packet) =
      verdict (transport inside.payload inside.src inside.dst) := by
  rw [verifyOver, opened, ok_bind]
  dsimp only
  rw [read, ok_bind]
  cases transport inside.payload inside.src inside.dst with
  | error fault => rfl
  | ok result => cases result <;> rfl

end Over

theorem accepts_iff_of_verdict {α β : Type} {x : Exec (Result α)} {y : Exec (Result β)}
    (same : verdict x = verdict y) : Accepts x ↔ Accepts y := by
  rcases x with _ | _ | _ <;> rcases y with _ | _ | _ <;> simp_all [verdict]

theorem returns_iff_of_verdict {α β : Type} {x : Exec (Result α)} {y : Exec (Result β)}
    (same : verdict x = verdict y) : Returns x ↔ Returns y := by
  rcases x with _ | _ | _ <;> rcases y with _ | _ | _ <;> simp_all [verdict, returns_ok]

/-- A view is made, or refused with an error, wherever the validator returns. -/
theorem PacketView.new_returns {P : Type} [PacketSpec P] {bytes : Bytes}
    (validated : Returns (PacketSpec.validate P bytes)) : Returns (PacketView.new P bytes) := by
  obtain ⟨result, outcome⟩ := validated
  cases result with
  | error error => exact .of_eq_ok (PacketView.new_of_invalid outcome)
  | ok _ => exact .of_eq_ok (PacketView.new_of_valid outcome)

/-! ### The interface of a network layer -/

/-- The bytes of an address. -/
def addressAt (n : ℕ) (bytes : Bytes) (offset : ℕ) : Vector UInt8 n :=
  Vector.ofFn fun i => byteAt bytes (offset + i)

theorem addressAt_toList {n offset : ℕ} {bytes : Bytes} (inside : offset + n ≤ bytes.length) :
    (addressAt n bytes offset).toList = (bytes.take (offset + n)).drop offset := by
  apply List.ext_getElem
  · rw [Vector.length_toList, List.length_drop, List.length_take]
    omega
  · intro i left right
    rw [Vector.length_toList] at left
    simp [addressAt, byteAt, List.getD_eq_getElem?_getD,
      List.getElem?_eq_getElem (show offset + i < bytes.length by omega)]

/-- What a network constructor and the getters behind it make of a packet: the
constructor returns, and what it accepts encloses at most 65535 bytes. -/
structure NetworkLayer {N : Type} [PacketSpec N] {n : ℕ}
    (network : Bytes → Exec (Result (PacketView N))) (enclosed : Bytes → Exec (Enclosed n))
    (inside : Bytes → Enclosed n) : Prop where
  returns : ∀ packet, Returns (network packet)
  opened : ∀ packet outer, network packet = .ok (.ok outer) →
    outer.bytes = packet ∧ enclosed packet = .ok (inside packet) ∧
      (inside packet).payload.length ≤ 65535

namespace NetworkLayer

variable {N P : Type} [PacketSpec N] [PacketSpec P] {n : ℕ}
  {network : Bytes → Exec (Result (PacketView N))} {enclosed : Bytes → Exec (Enclosed n)}
  {inside : Bytes → Enclosed n}
  {transport : Bytes → Vector UInt8 n → Vector UInt8 n → Exec (Result (PacketView P))}

/-- A packet is accepted when its network layer is, and then what that encloses. -/
theorem accepts_iff (layer : NetworkLayer network enclosed inside) (packet : Bytes) :
    Accepts (verifyOver network enclosed transport packet) ↔
      Accepts (network packet) ∧
        Accepts (transport (inside packet).payload (inside packet).src (inside packet).dst) := by
  obtain ⟨result, returned⟩ := layer.returns packet
  cases result with
  | error error =>
    rw [verifyOver_of_error returned, returned]
    simp
  | ok outer =>
    obtain ⟨rfl, read, _⟩ := layer.opened packet outer returned
    rw [accepts_iff_of_verdict (verdict_verifyOver returned read), returned]
    simp

/-- No packet makes either layer panic, if the transport layer takes every payload the
network layer can hand on. -/
theorem verifyOver_returns (layer : NetworkLayer network enclosed inside)
    (total : ∀ payload src dst, payload.length ≤ 65535 → Returns (transport payload src dst))
    (packet : Bytes) : Returns (verifyOver network enclosed transport packet) := by
  obtain ⟨result, returned⟩ := layer.returns packet
  cases result with
  | error error =>
    rw [verifyOver_of_error returned]
    exact returns_ok _
  | ok outer =>
    obtain ⟨rfl, read, short⟩ := layer.opened packet outer returned
    rw [returns_iff_of_verdict (verdict_verifyOver returned read)]
    exact total _ _ _ short

end NetworkLayer

namespace Ipv4

variable {bytes : Bytes}

/-- The payload of a well-formed packet. -/
def payloadOf (bytes : Bytes) : Bytes :=
  (bytes.take (min (wordAt bytes 2).toNat bytes.length)).drop (headerLength bytes)

/-- What an IPv4 packet encloses, in terms of its bytes. -/
def inside (bytes : Bytes) : Enclosed 4 :=
  ⟨payloadOf bytes, addressAt 4 bytes 12, addressAt 4 bytes 16⟩

private theorem quadruple_eq (offset : ℕ) :
    #v[byteAt bytes offset, byteAt bytes (offset + 1), byteAt bytes (offset + 2),
      byteAt bytes (offset + 3)] = addressAt 4 bytes offset := rfl

theorem src_eq_ok (fixed : 20 ≤ bytes.length) :
    Ipv4Packet.src bytes = .ok (addressAt 4 bytes 12) := by
  simp (disch := omega) only [Ipv4Packet.src, index_byteAt, ok_bind, pure_eq_ok,
    ← quadruple_eq 12, Nat.reduceAdd]

theorem dst_eq_ok (fixed : 20 ≤ bytes.length) :
    Ipv4Packet.dst bytes = .ok (addressAt 4 bytes 16) := by
  simp (disch := omega) only [Ipv4Packet.dst, index_byteAt, ok_bind, pure_eq_ok,
    ← quadruple_eq 16, Nat.reduceAdd]

theorem enclosed_eq_ok (wellFormed : WellFormed bytes) :
    enclosed bytes = .ok (inside bytes) := by
  rw [enclosed, payload_eq_ok wellFormed, ok_bind, src_eq_ok wellFormed.fixed, ok_bind,
    dst_eq_ok wellFormed.fixed]
  rfl

theorem payloadOf_length_le (bytes : Bytes) : (payloadOf bytes).length ≤ 65535 := by
  have bound := (wordAt bytes 2).toNat_lt
  rw [payloadOf, List.length_drop, List.length_take]
  omega

/-- The verifying constructor hands out a view of the packet it was given. -/
theorem bytes_of_newVerified {view : PacketView Ipv4}
    (created : newVerified bytes = .ok (.ok view)) : WellFormed bytes ∧ view.bytes = bytes := by
  have wellFormed : WellFormed bytes := (accepts_newVerified_iff.mp ⟨view, created⟩).1
  rw [newVerified_eq wellFormed] at created
  split at created
  · obtain rfl := Except.ok.inj (Except.ok.inj created)
    exact ⟨wellFormed, rfl⟩
  · simp at created

theorem networkLayer : NetworkLayer newVerified enclosed inside where
  returns := newVerified_returns
  opened := by
    intro packet outer created
    obtain ⟨wellFormed, same⟩ := bytes_of_newVerified created
    exact ⟨same, enclosed_eq_ok wellFormed, payloadOf_length_le packet⟩

/-- A TCP segment in an IPv4 packet, the checksums of both layers verified. -/
def verifyTcp : Bytes → Exec (Result (PacketView Ipv4 × PacketView Tcp)) :=
  verifyOver newVerified enclosed Tcp.newVerifiedIpv4

/-- The captured packet verifies at both layers. -/
theorem accepts_captured : Accepts (verifyTcp ParseIpv4Tcp.captured) := by decide +kernel

/-- A UDP datagram in an IPv4 packet, the checksums of both layers verified. -/
def verifyUdp : Bytes → Exec (Result (PacketView Ipv4 × PacketView Udp)) :=
  verifyOver newVerified enclosed Udp.newVerifiedIpv4

/-- A setter of the header, or a setter of a transport view over the payload. That view is
made once, validated, over bytes borrowed from the buffer, and stays in use: no setter of
the header moves the payload. What it writes is in the packet. -/
def editPacket {P S : Type} (applySegment : S → PacketViewMut P → Exec (PacketViewMut P)) :
    Setter ⊕ S → PacketViewMut Ipv4 → Exec (PacketViewMut Ipv4)
  | .inl setter, view => setter.apply view
  | .inr setter, view => do
    let headerLen ← Ipv4Packet.headerLen view.bytes
    let end_ := min (← Ipv4Packet.totalLen view.bytes).toNat view.bytes.length
    let segment ← applySegment setter ⟨← range view.bytes headerLen end_⟩
    view.copyFromSlice headerLen end_ segment.bytes

end Ipv4

namespace Ipv6

variable {bytes : Bytes}

/-- The payload of a well-formed packet. -/
def payloadOf (bytes : Bytes) : Bytes :=
  (bytes.take (min (40 + (wordAt bytes 4).toNat) bytes.length)).drop 40

/-- What an IPv6 packet encloses, in terms of its bytes. -/
def inside (bytes : Bytes) : Enclosed 16 :=
  ⟨payloadOf bytes, addressAt 16 bytes 8, addressAt 16 bytes 24⟩

private theorem address_eq {lo hi : ℕ} (width : hi = lo + 16) (inside : hi ≤ bytes.length) : (do
      let out ← copyFromSlice (List.replicate 16 0) 0 16 (← range bytes lo hi)
      return Vector.ofFn fun i : Fin 16 => out.getD i 0) = .ok (addressAt 16 bytes lo) := by
  obtain ⟨address, copied, taken⟩ := Ipv6Packet.address_eq_ok width inside
  subst width
  rw [copied, ← Vector.toList_inj.mp (taken.trans (addressAt_toList inside).symm)]

theorem src_eq_ok (fixed : 40 ≤ bytes.length) :
    Ipv6Packet.src bytes = .ok (addressAt 16 bytes 8) := address_eq rfl (by omega)

theorem dst_eq_ok (fixed : 40 ≤ bytes.length) :
    Ipv6Packet.dst bytes = .ok (addressAt 16 bytes 24) := address_eq rfl (by omega)

theorem enclosed_eq_ok (fixed : 40 ≤ bytes.length) : enclosed bytes = .ok (inside bytes) := by
  rw [enclosed, payload_eq_ok fixed, ok_bind, src_eq_ok fixed, ok_bind, dst_eq_ok fixed]
  rfl

theorem payloadOf_length_le (bytes : Bytes) : (payloadOf bytes).length ≤ 65535 := by
  have bound := (wordAt bytes 4).toNat_lt
  rw [payloadOf, List.length_drop, List.length_take]
  omega

theorem networkLayer : NetworkLayer (PacketView.new Ipv6) enclosed inside where
  returns := fun packet => PacketView.new_returns (validate_returns packet)
  opened := by
    intro packet outer created
    have wellFormed : WellFormed packet :=
      validate_eq_ok_iff.mp (accepts_new_iff.mp ⟨outer, created⟩)
    exact ⟨PacketView.bytes_of_new created, enclosed_eq_ok wellFormed.fixed,
      payloadOf_length_le packet⟩

/-- A TCP segment in an IPv6 packet; the network layer has no checksum of its own. -/
def verifyTcp : Bytes → Exec (Result (PacketView Ipv6 × PacketView Tcp)) :=
  verifyOver (PacketView.new Ipv6) enclosed Tcp.newVerifiedIpv6

/-- A UDP datagram in an IPv6 packet. -/
def verifyUdp : Bytes → Exec (Result (PacketView Ipv6 × PacketView Udp)) :=
  verifyOver (PacketView.new Ipv6) enclosed Udp.newVerifiedIpv6

/-- A setter of the header, or the life of a transport view: it is made over what the
payload length counts at the time, which may be refused, and some of its setters run. -/
def editPacket {P S : Type} [PacketSpec P]
    (applySegment : S → PacketViewMut P → Exec (PacketViewMut P)) :
    Setter ⊕ List S → PacketViewMut Ipv6 → Exec (PacketViewMut Ipv6)
  | .inl setter, view => setter.apply view
  | .inr setters, view => do
    let start := Ipv6.minPacketLen
    let end_ := min (start + (← Ipv6Packet.payloadLen view.bytes).toNat) view.bytes.length
    let segment ← applyOpened applySegment setters (← range view.bytes start end_)
    view.copyFromSlice start end_ segment

end Ipv6

end Packet

/-
# Editing both layers of an IPv6 packet

The fixed header of an IPv6 packet always has 40 bytes, but its payload length says how
many of the bytes behind it a transport view borrows, and that field has a setter. So a
run of edits is a run of the header's setters on the header, and a run on the bytes
behind it in which setters of the payload length and the lives of transport views
alternate. The other setters of the header do not matter to the second run.
-/

import Packet.Model.Stack
import Packet.Rust.Interleave
import Packet.Theorems.ChecksumRoundTrip
import Packet.Theorems.LayeredEdits
import Packet.Theorems.SetterRuns

namespace Packet.Ipv6

open Rust

/-- The payload length a setter stores, if it is the one that does. -/
def Setter.size? : Setter → Option UInt16
  | .payloadLen value => some value
  | _ => none

/-- The bytes behind the header, and how many of them the payload length counts. -/
structure Region where
  size : UInt16
  bytes : Bytes

namespace Region

/-- The bytes that are payload. -/
def payload (region : Region) : Bytes := region.bytes.take region.size.toNat

/-- The region with other bytes for its payload. -/
def write (region : Region) (segment : Bytes) : Region :=
  { region with bytes := segment ++ region.bytes.drop region.size.toNat }

variable {region : Region}

/-- Bytes as long as the payload are the payload of the region they are written to. -/
theorem payload_write {segment : Bytes} (width : segment.length = region.payload.length) :
    (region.write segment).payload = segment := by
  rw [payload, List.length_take] at width
  rw [write, payload]
  rcases Nat.le_total region.size.toNat region.bytes.length with fits | short
  · exact List.take_left' (width.trans (Nat.min_eq_left fits))
  · rw [List.drop_of_length_le short, List.append_nil]
    exact List.take_of_length_le (width.le.trans (Nat.min_le_left _ _))

theorem length_write {segment : Bytes} (width : segment.length = region.payload.length) :
    (region.write segment).bytes.length = region.bytes.length := by
  rw [write, List.length_append, width, ← List.length_append, payload, List.take_append_drop]

/-- What the size does not count is kept. -/
theorem getElem?_write {segment : Bytes} (width : segment.length = region.payload.length) {i : ℕ}
    (outside : region.size.toNat ≤ i) : (region.write segment).bytes[i]? = region.bytes[i]? := by
  have short : region.payload.length ≤ i := (List.length_take_le _ _).trans outside
  rw [write, List.getElem?_append_right (width.le.trans short), width,
    ← List.getElem?_append_right short, payload, List.take_append_drop]

end Region

/-- A new size, or the life of a transport view over the payload. -/
def editRegion {P S : Type} [PacketSpec P]
    (applySegment : S → PacketViewMut P → Exec (PacketViewMut P)) :
    UInt16 ⊕ List S → Region → Exec Region
  | .inl size, region => return { region with size }
  | .inr setters, region => do
    return region.write (← applyOpened applySegment setters region.payload)

/-- What an edit of the packet is to the bytes behind the header. -/
def sizeOrSegment {T : Type} : Setter ⊕ T → Option (UInt16 ⊕ T)
  | .inl setter => setter.size?.map .inl
  | .inr segment => some (.inr segment)

/-- A view that is made is of the bytes it is made over. -/
theorem applyOpened_eq_ok_iff {P S : Type} [PacketSpec P]
    {applySegment : S → PacketViewMut P → Exec (PacketViewMut P)} {setters : List S}
    {bytes out : Bytes} :
    applyOpened applySegment setters bytes = .ok out ↔
      PacketSpec.validate P bytes = .ok (.ok ()) ∧
        ∃ view, runOps applySegment setters ⟨bytes⟩ = .ok view ∧ view.bytes = out := by
  rw [applyOpened]
  constructor
  · intro applied
    obtain ⟨result, created, continued⟩ := bind_eq_ok.mp applied
    cases result with
    | error error => cases continued
    | ok view =>
      obtain ⟨valid, rfl⟩ := PacketViewMut.new_eq_ok_iff.mp created
      obtain ⟨view, run, same⟩ := bind_eq_ok.mp ((ok_bind _ _).symm.trans continued)
      exact ⟨valid, view, run, Except.ok.inj same⟩
  · rintro ⟨valid, view, run, rfl⟩
    rw [PacketViewMut.new_eq_ok_iff.mpr ⟨valid, rfl⟩, ok_bind, Except.toOption, expect, ok_bind,
      run, ok_bind, pure_eq_ok]

/-- What lives of a view leave of its bytes is as long. -/
theorem length_of_applyOpened {P S : Type} [PacketSpec P]
    {applySegment : S → PacketViewMut P → Exec (PacketViewMut P)}
    (keeps : ∀ setter view view', applySegment setter view = .ok view' →
      view'.bytes.length = view.bytes.length) {setters : List S} {bytes out : Bytes}
    (applied : applyOpened applySegment setters bytes = .ok out) : out.length = bytes.length := by
  obtain ⟨_, view, run, rfl⟩ := applyOpened_eq_ok_iff.mp applied
  exact length_of_runOps keeps run

/-! ## The two parts -/

section Parts

variable {P S : Type} [PacketSpec P]
  {applySegment : S → PacketViewMut P → Exec (PacketViewMut P)}
  {header header' : PacketViewMut Ipv6} {region : Region}

/-- A setter writes to the header, whatever is behind it. -/
theorem apply_append (setter : Setter) (fixed : header.bytes.length = 40) (rest : Bytes) :
    setter.apply ⟨header.bytes ++ rest⟩ =
      (setter.apply header).map fun header => ⟨header.bytes ++ rest⟩ := by
  have long : 40 ≤ (header.bytes ++ rest).length := by
    rw [List.length_append]
    omega
  have assigned (i : ℕ) (value : UInt8) (inside : i < 40) :
      (⟨header.bytes ++ rest⟩ : PacketViewMut Ipv6).assign i value =
        (header.assign i value).map fun header => ⟨header.bytes ++ rest⟩ := by
    rw [PacketViewMut.assign_eq_ok (Nat.lt_of_lt_of_le inside long),
      PacketViewMut.assign_eq_ok (by omega), Except.map, List.set_append_left _ _ (by omega)]
  have copied (lo hi : ℕ) (values : Bytes) (order : lo ≤ hi) (inside : hi ≤ 40)
      (width : values.length = hi - lo) :
      (⟨header.bytes ++ rest⟩ : PacketViewMut Ipv6).copyFromSlice lo hi values =
        (header.copyFromSlice lo hi values).map fun header => ⟨header.bytes ++ rest⟩ := by
    rw [PacketViewMut.copyFromSlice_eq_ok order (Nat.le_trans inside long) width,
      PacketViewMut.copyFromSlice_eq_ok order (by omega) width, Except.map,
      Ipv4.splice_append_left (by omega)]
  cases setter with
  | payloadLen value => exact copied 4 6 _ (by decide) (by decide) (by simp)
  | nextHeader value => exact assigned 6 value (by decide)
  | hopLimit value => exact assigned 7 value (by decide)
  | src value => exact copied 8 24 _ (by decide) (by decide) (by simp)
  | dst value => exact copied 24 40 _ (by decide) (by decide) (by simp)

/-- The payload length behind a setter. -/
theorem size_of_setter {setter : Setter} (written : setter.apply header = .ok header')
    (fixed : header.bytes.length = 40) :
    wordAt header'.bytes 4 = setter.size?.getD (wordAt header.bytes 4) := by
  have size : header'.bytes.length = header.bytes.length := setter.apply_length written
  by_cases field : setter.field = .payloadLen
  · cases setter with
    | payloadLen value =>
      have read : Ipv6Packet.payloadLen header'.bytes = .ok value := get_of_setter written
      rw [Ipv6Packet.payloadLen, readU16_eq_ok (by omega)] at read
      exact Except.ok.inj read
    | _ => cases field
  · have kept (i : ℕ) (lower : 4 ≤ i) (upper : i < 6) :
        byteAt header'.bytes i = byteAt header.bytes i := by
      refine PacketViewMut.byteAt_of_look (look_of_setter written ?_)
      rintro ⟨inside, inside'⟩
      rcases extent_apart setter.four_le_extent field with apart | apart
      · exact absurd inside' (Nat.not_lt.mpr (apart.trans lower))
      · exact absurd (upper.trans_le apart) (Nat.not_lt.mpr inside)
    rw [wordAt, kept 4 (by decide) (by decide), kept 5 (by decide) (by decide), ← wordAt]
    cases setter with
    | payloadLen value => exact absurd rfl field
    | _ => rfl

/-- The parts of one packet: a whole header, and the region its payload length divides. -/
structure Divided (header : PacketViewMut Ipv6) (region : Region) : Prop where
  fixed : header.bytes.length = 40
  size : wordAt header.bytes 4 = region.size

/-- The packet the parts make up. -/
def joinRegion (parts : PacketViewMut Ipv6 × Region) : PacketViewMut Ipv6 :=
  ⟨parts.1.bytes ++ parts.2.bytes⟩

@[simp] theorem bytes_joinRegion :
    (joinRegion (header, region)).bytes = header.bytes ++ region.bytes := rfl

theorem length_joinRegion (divided : Divided header region) :
    (joinRegion (header, region)).bytes.length = 40 + region.bytes.length := by
  rw [bytes_joinRegion, List.length_append, divided.fixed]

theorem wordAt_joinRegion (divided : Divided header region) :
    wordAt (joinRegion (header, region)).bytes 4 = region.size := by
  rw [bytes_joinRegion, wordAt_append (by rw [divided.fixed]; decide), divided.size]

theorem payloadLen_joinRegion (divided : Divided header region) :
    Ipv6Packet.payloadLen (joinRegion (header, region)).bytes = .ok region.size := by
  have length := length_joinRegion divided
  rw [← wordAt_joinRegion divided]
  exact readU16_eq_ok (by omega)

theorem payloadOf_joinRegion (divided : Divided header region) :
    payloadOf (joinRegion (header, region)).bytes = region.payload := by
  rw [payloadOf, wordAt_joinRegion divided, bytes_joinRegion, List.take_eq_take_min,
    Nat.min_assoc, Nat.min_self, ← List.take_eq_take_min, ← divided.fixed,
    List.take_length_add_append, List.drop_left, Region.payload]

/-- The setters of a segment's view write to the payload. -/
theorem editSegment_joinRegion (keeps : ∀ setter view view',
      applySegment setter view = .ok view' → view'.bytes.length = view.bytes.length)
    (divided : Divided header region) (setters : List S) :
    editPacket applySegment (.inr setters) (joinRegion (header, region)) =
      (editRegion applySegment (.inr setters) region).map fun region =>
        joinRegion (header, region) := by
  have fixed := divided.fixed
  have whole : (joinRegion (header, region)).bytes =
      header.bytes ++ region.payload ++ region.bytes.drop region.size.toNat := by
    rw [List.append_assoc, Region.payload, List.take_append_drop, joinRegion]
  have length := length_joinRegion divided
  have order : 40 ≤ min (40 + region.size.toNat) (joinRegion (header, region)).bytes.length := by
    omega
  have slice : range (joinRegion (header, region)).bytes 40
      (min (40 + region.size.toNat) (joinRegion (header, region)).bytes.length) =
      .ok region.payload := by
    rw [range_eq_ok order (Nat.min_le_right _ _), ← payloadOf_joinRegion divided, payloadOf,
      wordAt_joinRegion divided]
  rw [editPacket, payloadLen_joinRegion divided, ok_bind]
  dsimp only [minPacketLen]
  rw [slice, ok_bind, editRegion]
  cases applied : applyOpened applySegment setters region.payload with
  | error fault => rfl
  | ok segment =>
    have same := length_of_applyOpened keeps applied
    have width : segment.length =
        min (40 + region.size.toNat) (joinRegion (header, region)).bytes.length - 40 := by
      rw [same, Region.payload, List.length_take, length]
      omega
    rw [ok_bind, PacketViewMut.copyFromSlice_eq_ok order (Nat.min_le_right _ _) width, whole,
      ← fixed, splice_append same.symm, List.append_assoc]
    rfl

theorem editRegion_size (setter : Setter) (region : Region) :
    runOps (editRegion applySegment) (setter.size?.map .inl).toList region =
      .ok ⟨setter.size?.getD region.size, region.bytes⟩ := by
  cases setter <;> rfl

/-- One edit of the packet is one edit of its parts. -/
theorem editPacket_joinRegion (keeps : ∀ setter view view',
      applySegment setter view = .ok view' → view'.bytes.length = view.bytes.length)
    (divided : Divided header region) (edit : Setter ⊕ List S) :
    editPacket applySegment edit (joinRegion (header, region)) =
      (onBoth Setter.apply (editRegion applySegment) Sum.getLeft? sizeOrSegment edit
        (header, region)).map joinRegion := by
  cases edit with
  | inl setter =>
    have applied := apply_append setter divided.fixed region.bytes
    rw [onBoth, sizeOrSegment, editRegion_size]
    refine applied.trans ?_
    rw [Sum.getLeft?_inl, Option.toList_some, runOps_singleton]
    cases setter.apply header <;> rfl
  | inr setters =>
    rw [editSegment_joinRegion keeps divided, onBoth, sizeOrSegment, Option.toList_some,
      runOps_singleton]
    cases editRegion applySegment (.inr setters) region <;> rfl

/-- The parts an edit leaves are again the parts of a packet. -/
theorem divided_of_edit {edit : Setter ⊕ List S} {region' : Region}
    (edited : onBoth Setter.apply (editRegion applySegment) Sum.getLeft? sizeOrSegment edit
      (header, region) = .ok (header', region'))
    (divided : Divided header region) : Divided header' region' := by
  cases edit with
  | inl setter =>
    obtain ⟨first, second⟩ := onBoth_eq_ok_iff.mp edited
    have written : setter.apply header = .ok header' :=
      (runOps_singleton setter header).symm.trans first
    obtain rfl := Except.ok.inj ((editRegion_size setter region).symm.trans second)
    refine ⟨(setter.apply_length written).trans divided.fixed, ?_⟩
    rw [size_of_setter written divided.fixed, divided.size]
  | inr setters =>
    obtain ⟨first, second⟩ := onBoth_eq_ok_iff.mp edited
    obtain rfl : header = header' := Except.ok.inj first
    obtain ⟨segment, _, same⟩ := bind_eq_ok.mp
      ((runOps_singleton (Sum.inr setters) region).symm.trans second)
    obtain rfl := Except.ok.inj same
    exact ⟨divided.fixed, divided.size⟩

end Parts

/-! ## Every interleaving -/

/-- The header of a packet. -/
def headerOf (packet : Bytes) : PacketViewMut Ipv6 := ⟨packet.take 40⟩

/-- What is behind the header of a packet. -/
def regionOf (packet : Bytes) : Region := ⟨wordAt packet 4, packet.drop 40⟩

/-- Runs of edits of both layers come apart: a run of them on the packet returns exactly
when the header's setters, run on the header, do and the region's edits, run on what is
behind it. The packet stays accepted, only bytes that some payload length counts can
change behind the header, and the setters of the header that do not set the payload
length can be moved across the lives of transport views. -/
structure EditsDivide {P S : Type} [PacketSpec P]
    (applySegment : S → PacketViewMut P → Exec (PacketViewMut P)) : Prop where
  splits : ∀ packet edits (out : PacketViewMut Ipv6), validate packet = .ok (.ok ()) →
    (runOps (editPacket applySegment) edits ⟨packet⟩ = .ok out ↔
      ∃ (header : PacketViewMut Ipv6) (region : Region),
        runOps Setter.apply (lefts edits) (headerOf packet) = .ok header ∧
        runOps (editRegion applySegment) (edits.filterMap sizeOrSegment)
          (regionOf packet) = .ok region ∧
        out.bytes = header.bytes ++ region.bytes)
  accepted : ∀ packet edits (out : PacketViewMut Ipv6), validate packet = .ok (.ok ()) →
    runOps (editPacket applySegment) edits ⟨packet⟩ = .ok out →
    validate out.bytes = .ok (.ok ()) ∧ out.bytes.length = packet.length
  beyond : ∀ packet edits (out : PacketViewMut Ipv6) i, validate packet = .ok (.ok ()) →
    runOps (editPacket applySegment) edits ⟨packet⟩ = .ok out →
    40 + (wordAt packet 4).toNat ≤ i →
    (∀ value, .inl (.payloadLen value) ∈ edits → 40 + value.toNat ≤ i) →
    out.bytes[i]? = packet[i]?
  order : ∀ packet edits edits' (out : PacketViewMut Ipv6), validate packet = .ok (.ok ()) →
    lefts edits = lefts edits' →
    edits.filterMap sizeOrSegment = edits'.filterMap sizeOrSegment →
    (runOps (editPacket applySegment) edits ⟨packet⟩ = .ok out ↔
      runOps (editPacket applySegment) edits' ⟨packet⟩ = .ok out)

section Runs

variable {P S : Type} [PacketSpec P]
  {applySegment : S → PacketViewMut P → Exec (PacketViewMut P)}

theorem joinRegion_self (packet : Bytes) :
    joinRegion (headerOf packet, regionOf packet) = ⟨packet⟩ :=
  congrArg PacketViewMut.mk (List.take_append_drop 40 packet)

theorem divided_self {packet : Bytes} (wellFormed : WellFormed packet) :
    Divided (headerOf packet) (regionOf packet) :=
  ⟨List.length_take_of_le wellFormed.fixed, wordAt_take (by decide)⟩

theorem payloadOf_eq {packet : Bytes} (wellFormed : WellFormed packet) :
    payloadOf packet = (regionOf packet).payload := by
  have parts := payloadOf_joinRegion (divided_self wellFormed)
  rwa [joinRegion_self] at parts

/-- A run of edits of the packet is a run of edits of its parts. -/
theorem runOps_joinRegion (keeps : ∀ setter view view', applySegment setter view = .ok view' →
      view'.bytes.length = view.bytes.length) (edits : List (Setter ⊕ List S))
    {parts : PacketViewMut Ipv6 × Region} (divided : Divided parts.1 parts.2) :
    runOps (editPacket applySegment) edits (joinRegion parts) =
      (runOps (onBoth Setter.apply (editRegion applySegment) Sum.getLeft? sizeOrSegment) edits
        parts).map joinRegion :=
  runOps_image joinRegion (fun parts => Divided parts.1 parts.2)
    (fun edit _ divided => editPacket_joinRegion keeps divided edit)
    (fun _ _ _ edited divided => divided_of_edit edited divided) edits divided

/-- What a run leaves of a packet, as the parts it leaves. -/
theorem runOps_editPacket_iff (keeps : ∀ setter view view', applySegment setter view = .ok view' →
      view'.bytes.length = view.bytes.length) {packet : Bytes} (wellFormed : WellFormed packet)
    (edits : List (Setter ⊕ List S)) (out : PacketViewMut Ipv6) :
    runOps (editPacket applySegment) edits ⟨packet⟩ = .ok out ↔
      ∃ (header : PacketViewMut Ipv6) (region : Region),
        runOps Setter.apply (lefts edits) (headerOf packet) = .ok header ∧
        runOps (editRegion applySegment) (edits.filterMap sizeOrSegment)
          (regionOf packet) = .ok region ∧
        joinRegion (header, region) = out := by
  rw [← joinRegion_self packet, runOps_joinRegion keeps edits (divided_self wellFormed)]
  constructor
  · intro run
    cases edited : runOps (onBoth Setter.apply (editRegion applySegment) Sum.getLeft?
        sizeOrSegment) edits (headerOf packet, regionOf packet) with
    | error fault =>
      rw [edited] at run
      cases run
    | ok parts =>
      rw [edited] at run
      obtain ⟨first, second⟩ := runOps_onBoth_iff.mp edited
      exact ⟨parts.1, parts.2, first, second, Except.ok.inj run⟩
  · rintro ⟨header, region, first, second, rfl⟩
    rw [runOps_onBoth_iff.mpr ⟨first, second⟩]
    rfl

/-- The parts the two runs leave belong together. -/
theorem divided_of_runs {packet : Bytes} (wellFormed : WellFormed packet)
    {edits : List (Setter ⊕ List S)} {header : PacketViewMut Ipv6} {region : Region}
    (first : runOps Setter.apply (lefts edits) (headerOf packet) = .ok header)
    (second : runOps (editRegion applySegment) (edits.filterMap sizeOrSegment)
      (regionOf packet) = .ok region) : Divided header region :=
  runOps_preserves (fun parts : PacketViewMut Ipv6 × Region => Divided parts.1 parts.2)
    (fun _ _ _ edited divided => divided_of_edit edited divided) edits
    (runOps_onBoth_iff.mpr ⟨first, second⟩) (divided_self wellFormed)

/-- What a run of edits leaves of the region: its length, and what no size counted. -/
theorem region_of_run (keeps : ∀ setter view view', applySegment setter view = .ok view' →
      view'.bytes.length = view.bytes.length) {edits : List (UInt16 ⊕ List S)}
    {region region' : Region} (run : runOps (editRegion applySegment) edits region = .ok region') :
    region'.bytes.length = region.bytes.length ∧
      ∀ i, region.size.toNat ≤ i → (∀ size, .inl size ∈ edits → size.toNat ≤ i) →
        region'.bytes[i]? = region.bytes[i]? := by
  induction edits generalizing region with
  | nil =>
    obtain rfl := Except.ok.inj run
    exact ⟨rfl, fun _ _ _ => rfl⟩
  | cons edit edits ih =>
    obtain ⟨next, edited, rest⟩ := bind_eq_ok.mp run
    obtain ⟨length, beyond⟩ := ih rest
    cases edit with
    | inl size =>
      obtain rfl := Except.ok.inj edited
      refine ⟨length, fun i _ sizes => beyond i (sizes size List.mem_cons_self) ?_⟩
      exact fun size mem => sizes size (List.mem_cons_of_mem _ mem)
    | inr setters =>
      obtain ⟨segment, written, same⟩ := bind_eq_ok.mp edited
      obtain rfl := Except.ok.inj same
      have width := length_of_applyOpened keeps written
      refine ⟨length.trans (Region.length_write width), fun i outside sizes => ?_⟩
      exact (beyond i outside fun size mem => sizes size (List.mem_cons_of_mem _ mem)).trans
        (Region.getElem?_write width outside)

theorem sizeOrSegment_inl_mem {T : Type} {edits : List (Setter ⊕ T)} {size : UInt16}
    (mem : .inl size ∈ edits.filterMap sizeOrSegment) : .inl (.payloadLen size) ∈ edits := by
  obtain ⟨edit, member, read⟩ := List.mem_filterMap.mp mem
  cases edit with
  | inl setter =>
    cases setter with
    | payloadLen value =>
      obtain rfl := Sum.inl.inj (Option.some.inj read)
      exact member
    | _ => cases read
  | inr segment => cases Option.some.inj read

/-- The version stays what it was. -/
theorem wellFormed_of_header_run {packet : Bytes} (wellFormed : WellFormed packet)
    {setters : List Setter} {header : PacketViewMut Ipv6}
    (run : runOps Setter.apply setters (headerOf packet) = .ok header) : WellFormed header.bytes :=
  runOps_preserves (fun view : PacketViewMut Ipv6 => WellFormed view.bytes)
    (fun _ _ _ written wellFormed => wellFormed_of_setter wellFormed written) setters run
    (wellFormed.congr (List.length_take_of_le wellFormed.fixed).ge (byteAt_take (by decide)))

theorem editsDivide_of_keeps (keeps : ∀ setter view view', applySegment setter view = .ok view' →
      view'.bytes.length = view.bytes.length) : EditsDivide applySegment where
  splits := by
    intro packet edits out valid
    rw [runOps_editPacket_iff keeps (validate_eq_ok_iff.mp valid)]
    constructor
    · rintro ⟨header, region, first, second, rfl⟩
      exact ⟨header, region, first, second, rfl⟩
    · rintro ⟨header, region, first, second, same⟩
      refine ⟨header, region, first, second, ?_⟩
      rw [joinRegion, ← same]
  accepted := by
    intro packet edits out valid run
    have wellFormed := validate_eq_ok_iff.mp valid
    obtain ⟨header, region, first, second, rfl⟩ :=
      (runOps_editPacket_iff keeps wellFormed edits out).mp run
    refine ⟨validate_eq_ok_iff.mpr ((wellFormed_of_header_run wellFormed first).append _), ?_⟩
    have size : header.bytes.length = 40 := (divided_of_runs wellFormed first second).fixed
    rw [bytes_joinRegion, List.length_append, size, (region_of_run keeps second).1,
      regionOf, List.length_drop, Nat.add_sub_cancel' wellFormed.fixed]
  beyond := by
    intro packet edits out i valid run counted sizes
    have wellFormed := validate_eq_ok_iff.mp valid
    obtain ⟨header, region, first, second, rfl⟩ :=
      (runOps_editPacket_iff keeps wellFormed edits out).mp run
    have size : header.bytes.length = 40 := (divided_of_runs wellFormed first second).fixed
    have behind : 40 ≤ i := (Nat.le_add_right _ _).trans counted
    rw [bytes_joinRegion, List.getElem?_append_right (size.le.trans behind), size,
      (region_of_run keeps second).2 (i - 40) (Nat.le_sub_of_add_le' counted) fun size mem =>
        Nat.le_sub_of_add_le' (sizes size (sizeOrSegment_inl_mem mem)),
      regionOf, List.getElem?_drop, Nat.add_sub_cancel' behind]
  order := by
    intro packet edits edits' out valid left right
    simp only [runOps_editPacket_iff keeps (validate_eq_ok_iff.mp valid), left, right]

end Runs

/-! ## Storing the checksum -/

section Seal

variable {P S : Type} [PacketSpec P]
  {applySegment : S → PacketViewMut P → Exec (PacketViewMut P)}
  {transport : Bytes → Ipv6Addr → Ipv6Addr → Exec (Result (PacketView P))} {offset : ℕ}

/-- A packet whose segment's checksum has been stored: it verifies, and no byte outside
the field has changed. -/
structure Sealed (transport : Bytes → Ipv6Addr → Ipv6Addr → Exec (Result (PacketView P)))
    (offset : ℕ) (packet out : Bytes) : Prop where
  accepted : Accepts (verifyOver (PacketView.new Ipv6) enclosed transport out)
  length : out.length = packet.length
  outside : ∀ i, i < 40 + offset ∨ 40 + offset + 2 ≤ i → out[i]? = packet[i]?

/-- After any edits that leave the segment accepted at the length it then has, one call
on a view of it, with the addresses the header then has, seals the packet. -/
def Seals (applySegment : S → PacketViewMut P → Exec (PacketViewMut P))
    (computeAndSet : Ipv6Addr → Ipv6Addr → S)
    (transport : Bytes → Ipv6Addr → Ipv6Addr → Exec (Result (PacketView P))) (offset : ℕ) : Prop :=
  ∀ (packet : Bytes) (edits : List (Setter ⊕ List S)) (view : PacketViewMut Ipv6)
    (src dst : Ipv6Addr),
    validate packet = .ok (.ok ()) →
    runOps (editPacket applySegment) edits ⟨packet⟩ = .ok view →
    PacketSpec.validate P (payloadOf view.bytes) = .ok (.ok ()) →
    Ipv6Packet.src view.bytes = .ok src → Ipv6Packet.dst view.bytes = .ok dst →
    ∃ out : PacketViewMut Ipv6,
      editPacket applySegment (.inr [computeAndSet src dst]) view = .ok out ∧
      Sealed transport offset view.bytes out.bytes

/-- Positions outside a field of the segment that is written to the payload. -/
theorem getElem?_joinRegion_write {header : PacketViewMut Ipv6} {region : Region}
    (divided : Divided header region) {segment : Bytes}
    (width : segment.length = region.payload.length)
    (kept : ∀ i, i < offset ∨ offset + 2 ≤ i → segment[i]? = region.payload[i]?) {i : ℕ}
    (apart : i < 40 + offset ∨ 40 + offset + 2 ≤ i) :
    (joinRegion (header, region.write segment)).bytes[i]? =
      (joinRegion (header, region)).bytes[i]? := by
  have front (i : ℕ) (_ : i < 0 ∨ 0 ≤ i) : header.bytes[i]? = header.bytes[i]? := rfl
  rw [← divided.fixed, Nat.add_assoc _ offset 2] at apart
  have outside : (header.bytes ++ segment ++ region.bytes.drop region.size.toNat)[i]? =
      (header.bytes ++ region.payload ++ region.bytes.drop region.size.toNat)[i]? :=
    Ipv4.getElem?_append_outside rfl width front kept (Or.inr (Nat.zero_le i)) apart
  rw [List.append_assoc, List.append_assoc] at outside
  refine outside.trans ?_
  rw [Region.payload, List.take_append_drop, bytes_joinRegion]

/-- Sealing one accepted packet. -/
theorem sealed_of_stored (keeps : ∀ setter view view', applySegment setter view = .ok view' →
      view'.bytes.length = view.bytes.length) {packet : Bytes} (wellFormed : WellFormed packet)
    (valid : PacketSpec.validate P (payloadOf packet) = .ok (.ok ()))
    {setter : S} {segment : PacketViewMut P}
    (stored : Stored (applySegment setter)
      (fun bytes => transport bytes (addressAt 16 packet 8) (addressAt 16 packet 24)) offset
      ⟨payloadOf packet⟩ segment) :
    ∃ out : PacketViewMut Ipv6,
      editPacket applySegment (.inr [setter]) ⟨packet⟩ = .ok out ∧
      Sealed transport offset packet out.bytes := by
  have divided := divided_self wellFormed
  have payload := payloadOf_eq wellFormed
  have width : segment.bytes.length = (regionOf packet).payload.length :=
    stored.length.trans (congrArg List.length payload)
  have applied : applyOpened applySegment [setter] (regionOf packet).payload =
      .ok segment.bytes := by
    rw [← payload]
    exact applyOpened_eq_ok_iff.mpr
      ⟨valid, segment, (runOps_singleton _ _).trans stored.returns, rfl⟩
  have written : editPacket applySegment (.inr [setter]) ⟨packet⟩ =
      .ok (joinRegion (headerOf packet, (regionOf packet).write segment.bytes)) := by
    rw [← joinRegion_self packet, editSegment_joinRegion keeps divided, editRegion, applied]
    rfl
  have divided' : Divided (headerOf packet) ((regionOf packet).write segment.bytes) :=
    ⟨divided.fixed, divided.size⟩
  obtain ⟨kept, length⟩ := (editsDivide_of_keeps keeps).accepted packet [.inr [setter]] _
    (validate_eq_ok_iff.mpr wellFormed) ((runOps_singleton _ _).trans written)
  have outside (i : ℕ) (apart : i < 40 + offset ∨ 40 + offset + 2 ≤ i) :
      (joinRegion (headerOf packet, (regionOf packet).write segment.bytes)).bytes[i]? =
        packet[i]? := by
    have kept := stored.outside
    dsimp only at kept
    rw [payload] at kept
    rw [getElem?_joinRegion_write divided width kept apart, joinRegion_self]
  -- The addresses are those the segment's checksum was computed with.
  have addresses {position : ℕ} (front : position + 16 ≤ 40) :
      addressAt 16 (joinRegion (headerOf packet, (regionOf packet).write segment.bytes)).bytes
        position = addressAt 16 packet position :=
    Ipv4.addressAt_congr fun i _ _ => outside i (by omega)
  refine ⟨_, written, ?_, length, outside⟩
  refine (networkLayer.accepts_iff _).mpr ⟨accepts_new_iff.mpr kept, ?_⟩
  rw [inside, addresses (by decide), addresses (by decide), payloadOf_joinRegion divided',
    Region.payload_write width]
  exact stored.accepted

theorem seals_of_storesVerified (keeps : ∀ setter view view',
      applySegment setter view = .ok view' → view'.bytes.length = view.bytes.length)
    {computeAndSet : Ipv6Addr → Ipv6Addr → S}
    (stores : ∀ src dst, StoresVerified applySegment (applySegment (computeAndSet src dst))
      (fun bytes => transport bytes src dst) offset) :
    Seals applySegment computeAndSet transport offset := by
  intro packet edits view src dst valid run segment readSrc readDst
  have accepted := ((editsDivide_of_keeps keeps).accepted packet edits view valid run).1
  have wellFormed : WellFormed view.bytes := validate_eq_ok_iff.mp accepted
  rw [src_eq_ok wellFormed.fixed, Except.ok.injEq] at readSrc
  rw [dst_eq_ok wellFormed.fixed, Except.ok.injEq] at readDst
  subst readSrc readDst
  obtain ⟨stored, holds⟩ := stores _ _ (payloadOf view.bytes) ⟨payloadOf view.bytes⟩ _ []
    (payloadOf_length_le _) (PacketViewMut.new_eq_ok_iff.mpr ⟨segment, rfl⟩) rfl segment
  exact sealed_of_stored keeps wellFormed segment holds

/-- Setters of the IPv6 header and of the TCP or UDP header inside it: their runs come
apart, and a checksum stored after them verifies. -/
theorem edits_divide :
    (EditsDivide Tcp.Setter.apply ∧
      Seals Tcp.Setter.apply Tcp.Setter.computeAndSetChecksumIpv6 Tcp.newVerifiedIpv6 16) ∧
    EditsDivide Udp.Setter.apply ∧
      Seals Udp.Setter.apply Udp.Setter.computeAndSetChecksumIpv6 Udp.newVerifiedIpv6 6 :=
  ⟨⟨editsDivide_of_keeps fun _ _ _ => Tcp.Setter.apply_length,
      seals_of_storesVerified (fun _ _ _ => Tcp.Setter.apply_length) Tcp.storesVerifiedIpv6⟩,
    editsDivide_of_keeps fun _ _ _ => Udp.Setter.apply_length,
      seals_of_storesVerified (fun _ _ _ => Udp.Setter.apply_length) Udp.storesVerifiedIpv6⟩

/-- A datagram that is made longer: the payload length is set between two views. -/
theorem edits_divide_longer :
    ∃ view out : PacketViewMut Ipv6,
      runOps (editPacket Udp.Setter.apply)
        [.inr [.srcPort 99], .inl (.payloadLen 10), .inl (.hopLimit 63), .inr [.length 10]]
        ⟨fixedHeader 8 17 ++ [0, 53, 4, 210, 0, 8, 0, 0, 7, 7]⟩ = .ok view ∧
      view.bytes.length = 50 ∧
      editPacket Udp.Setter.apply
        (.inr [.computeAndSetChecksumIpv6 (.replicate 16 0) (.replicate 16 0)]) view = .ok out ∧
      Accepts (verifyUdp out.bytes) := by
  have valid : validate (fixedHeader 8 17 ++ [0, 53, 4, 210, 0, 8, 0, 0, 7, 7]) =
      .ok (.ok ()) := by decide
  have run : runOps (editPacket Udp.Setter.apply)
      [.inr [.srcPort 99], .inl (.payloadLen 10), .inl (.hopLimit 63), .inr [.length 10]]
      ⟨fixedHeader 8 17 ++ [0, 53, 4, 210, 0, 8, 0, 0, 7, 7]⟩ =
      .ok ⟨(fixedHeader 10 17).set 7 63 ++ [0, 99, 4, 210, 0, 10, 0, 0, 7, 7]⟩ := rfl
  obtain ⟨_, length⟩ := edits_divide.2.1.accepted _ _ _ valid run
  obtain ⟨out, stored, sealed⟩ := edits_divide.2.2 _ _ _ (.replicate 16 0) (.replicate 16 0) valid
    run (by decide) (by decide) (by decide)
  exact ⟨_, out, run, length, stored, sealed.accepted⟩

end Seal

end Packet.Ipv6

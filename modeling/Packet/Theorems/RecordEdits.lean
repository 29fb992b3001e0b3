/-
# Setters are updates of a record

A mutable view is edited in place, byte by byte. Behind the bytes of an accepted view
stands a record: the values of the header's fields, and what follows the header. Each
setter updates the record, and the checksum setters sum its values as numbers. A run
of setters, panics included, is that run of updates, laid out again.
-/

import Packet.Theorems.FormatRoundTrips
import Packet.Rust.Interleave

namespace Packet

open Rust Checksum

/-- Records for the buffers of a mutable view: how their values are laid out in front of
the bytes behind the header, what the getters see of them, and what each setter makes of
them. -/
structure RecordModel (P : Type) where
  Setter : Type
  apply : Setter → PacketViewMut P → Exec (PacketViewMut P)
  Values : Type
  encode : Values → Bytes
  Fits : Values → Prop
  Seen : Type
  seen : Values → Seen
  getters : Bytes → Exec Seen
  update : Bytes → Setter → Values → Exec Values

namespace RecordModel

variable {P : Type} [PacketSpec P]

/-- The view of a record and the bytes behind the header. -/
def lay (model : RecordModel P) (rest : Bytes) (values : model.Values) : PacketViewMut P :=
  ⟨model.encode values ++ rest⟩

/-- Accepted buffers are records laid out, the getters read the record, and a setter does
to the buffer what its update does to the record. -/
structure Refined (model : RecordModel P) : Prop where
  covers : ∀ bytes, PacketSpec.validate P bytes = .ok (.ok ()) →
    ∃ values rest, model.Fits values ∧ model.encode values ++ rest = bytes
  determined : ∀ values values' rest rest', model.Fits values → model.Fits values' →
    model.encode values ++ rest = model.encode values' ++ rest' → values = values'
  reads : ∀ values rest, model.Fits values →
    model.getters (model.encode values ++ rest) = .ok (model.seen values)
  step : ∀ setter values rest, model.Fits values →
    model.apply setter (model.lay rest values) =
      (model.update rest setter values).map (model.lay rest)
  keeps : ∀ setter values values' rest, model.update rest setter values = .ok values' →
    model.Fits values → model.Fits values'

omit [PacketSpec P] in

/-- Where the getters see the whole record, the buffer determines it. -/
theorem determined_of_reads {model : RecordModel P} (whole : Function.Injective model.seen)
    (reads : ∀ values rest, model.Fits values →
      model.getters (model.encode values ++ rest) = .ok (model.seen values))
    (values values' : model.Values) (rest rest' : Bytes) (fits : model.Fits values)
    (fits' : model.Fits values')
    (same : model.encode values ++ rest = model.encode values' ++ rest') : values = values' := by
  have read := reads values rest fits
  rw [same, reads values' rest' fits'] at read
  exact whole (Except.ok.inj read).symm

/-- A buffer is one record laid out, and runs of setters on it are runs of updates. -/
structure Governs (model : RecordModel P) (bytes : Bytes) (values : model.Values)
    (rest : Bytes) : Prop where
  laid : model.encode values ++ rest = bytes
  only : ∀ values' rest', model.Fits values' → model.encode values' ++ rest' = bytes →
    values' = values ∧ rest' = rest
  runs : ∀ setters, runOps model.apply setters ⟨bytes⟩ =
    (runOps (model.update rest) setters values).map (model.lay rest)
  reads : ∀ setters values', runOps (model.update rest) setters values = .ok values' →
    model.getters (model.lay rest values').bytes = .ok (model.seen values')

theorem Refined.governs {model : RecordModel P} (refined : model.Refined) {bytes : Bytes}
    (valid : PacketSpec.validate P bytes = .ok (.ok ())) :
    ∃ values rest, model.Fits values ∧ model.Governs bytes values rest := by
  obtain ⟨values, rest, fits, rfl⟩ := refined.covers bytes valid
  refine ⟨values, rest, fits, rfl, fun values' rest' fits' same => ?_, fun setters => ?_,
    fun setters values' run => ?_⟩
  · obtain rfl := refined.determined values' values rest' rest fits' fits same
    exact ⟨rfl, List.append_cancel_left same⟩
  · exact runOps_image (model.lay rest) model.Fits
      (fun setter values fits => refined.step setter values rest fits)
      (fun setter values values' => refined.keeps setter values values' rest) setters fits
  · exact refined.reads values' rest (runOps_preserves model.Fits
      (fun setter values values' => refined.keeps setter values values' rest) setters run fits)

end RecordModel

/-- The header of a view is the encoding of the values its getters read. -/
theorem encode_eq_header {P : Type} [PacketSpec P] {format : HeaderFormat P} {view : PacketView P}
    {values : format.Values} {header : Bytes}
    (encodes : ∃ values, format.getters view.bytes = .ok values ∧
      view.headerBytes = .ok (format.encode values))
    (read : format.getters view.bytes = .ok values) (prefixed : view.headerBytes = .ok header) :
    format.encode values = header := by
  obtain ⟨values', read', encoded⟩ := encodes
  obtain rfl := Except.ok.inj (read.symm.trans read')
  exact Except.ok.inj (encoded.symm.trans prefixed)

/-- A checksum as arithmetic: the complement of what the words of the pseudo-header and the
other words add up to, if these do not overflow the accumulator. -/
def exactChecksum (pseudo words : ℕ) : Exec UInt16 :=
  if words < 2 ^ 32 then .ok (checksumOf (pseudo + words)) else .error .overflow

/-- A field of a laid out header is replaced. -/
theorem splice_field {front old back values : Bytes} {offset : ℕ} (start : front.length = offset)
    (same : old.length = values.length) :
    splice (front ++ (old ++ back)) offset values = front ++ (values ++ back) := by
  subst start
  rw [← List.append_assoc, splice_append same, List.append_assoc]

theorem PacketViewMut.copyFromSlice_eq_of_splice {P : Type} {bytes out values : Bytes} {lo hi : ℕ}
    (order : lo ≤ hi) (inside : hi ≤ bytes.length) (same : values.length = hi - lo)
    (written : splice bytes lo values = out) :
    (⟨bytes⟩ : PacketViewMut P).copyFromSlice lo hi values = .ok ⟨out⟩ := by
  rw [PacketViewMut.copyFromSlice_eq_ok order inside same, written]

/-- A computed value is stored where its update puts it. -/
theorem bind_store {τ α : Type} {store : UInt16 → Exec τ} {put : UInt16 → α} {image : α → τ}
    (stores : ∀ value, store value = .ok (image (put value))) (computed : Exec UInt16) :
    computed >>= store = (computed >>= fun value => return put value).map image := by
  cases computed with
  | error fault => rfl
  | ok value => exact stores value

/-! ## UDP -/

namespace Udp

/-- The words of the header outside the checksum field. -/
def headerSum (values : HeaderValues) : ℕ :=
  values.srcPort.toNat + values.dstPort.toNat + values.length.toNat

/-- What a setter does to the values of a header in front of `rest`. -/
def update (rest : Bytes) : Setter → HeaderValues → Exec HeaderValues
  | .srcPort value, values => .ok { values with srcPort := value }
  | .dstPort value, values => .ok { values with dstPort := value }
  | .length value, values => .ok { values with length := value }
  | .checksum value, values => .ok { values with checksum := value }
  | .computeAndSetChecksumIpv4 src dst, values => do
    let checksum ← exactChecksum (wordSum (pseudoIpv4 src dst udpProtocol values.length))
      (headerSum values + wordSum rest)
    return { values with checksum }
  | .computeAndSetChecksumIpv6 src dst, values => do
    let checksum ← exactChecksum
      (wordSum (pseudoIpv6 src dst udpProtocol (.ofNat values.length.toNat)))
      (headerSum values + wordSum rest)
    return { values with checksum }

section Encoded

variable (values : HeaderValues) (rest : Bytes)

/-- A record laid out in a mutable view. -/
def laid (rest : Bytes) (values : HeaderValues) : PacketViewMut Udp := ⟨encodeHeader values ++ rest⟩

theorem encodeHeader_length : (encodeHeader values ++ rest).length = 8 + rest.length :=
  List.length_append

theorem laid_length : (laid rest values).bytes.length = 8 + rest.length :=
  encodeHeader_length values rest

theorem sumOutside_encodeHeader :
    sumOutside (encodeHeader values ++ rest) 6 = headerSum values + wordSum rest := by
  have front : (encodeHeader values ++ rest).take 6 = u16ToBeBytes values.srcPort ++
      u16ToBeBytes values.dstPort ++ u16ToBeBytes values.length := rfl
  have back : (encodeHeader values ++ rest).drop (6 + 2) = rest := rfl
  rw [sumOutside, front, back, wordSum_append _ (by simp), wordSum_append _ (by simp),
    wordSum_u16ToBeBytes, wordSum_u16ToBeBytes, wordSum_u16ToBeBytes, headerSum]

theorem udpChecksumIpv4_encodeHeader (src dst : Ipv4Addr) :
    udpChecksumIpv4 src dst (encodeHeader values ++ rest) =
      exactChecksum (wordSum (pseudoIpv4 src dst udpProtocol values.length))
        (headerSum values + wordSum rest) := by
  have length : wordAt (encodeHeader values ++ rest) 4 = values.length :=
    u16FromBeBytes_toBeBytes values.length
  rw [udpChecksumIpv4_eq src dst (by rw [encodeHeader_length]; omega), totalIpv4,
    sumOutside_encodeHeader, length, exactChecksum]

theorem udpChecksumIpv6_encodeHeader (src dst : Ipv6Addr) :
    udpChecksumIpv6 src dst (encodeHeader values ++ rest) =
      exactChecksum (wordSum (pseudoIpv6 src dst udpProtocol (.ofNat values.length.toNat)))
        (headerSum values + wordSum rest) := by
  have length : wordAt (encodeHeader values ++ rest) 4 = values.length :=
    u16FromBeBytes_toBeBytes values.length
  rw [udpChecksumIpv6_eq src dst (by rw [encodeHeader_length]; omega), totalIpv6,
    sumOutside_encodeHeader, length, exactChecksum]

theorem apply_laid (setter : Setter) :
    setter.apply (laid rest values) = (update rest setter values).map (laid rest) := by
  have word (offset : ℕ) (inside : offset + 2 ≤ 8) :
      offset + 2 ≤ (laid rest values).bytes.length := by
    rw [laid_length]
    omega
  have stores (value : UInt16) : setChecksum (laid rest values) value =
      .ok (laid rest { values with checksum := value }) :=
    PacketViewMut.copyFromSlice_u16 (word 6 (by decide)) value
  cases setter with
  | srcPort value => exact PacketViewMut.copyFromSlice_u16 (word 0 (by decide)) value
  | dstPort value => exact PacketViewMut.copyFromSlice_u16 (word 2 (by decide)) value
  | length value => exact PacketViewMut.copyFromSlice_u16 (word 4 (by decide)) value
  | checksum value => exact stores value
  | computeAndSetChecksumIpv4 src dst =>
    refine Eq.trans ?_ (bind_store stores _)
    rw [Setter.apply, computeAndSetChecksumIpv4, laid, udpChecksumIpv4_encodeHeader]
  | computeAndSetChecksumIpv6 src dst =>
    refine Eq.trans ?_ (bind_store stores _)
    rw [Setter.apply, computeAndSetChecksumIpv6, laid, udpChecksumIpv6_encodeHeader]

end Encoded

/-- Nothing is asked of the values: a length field may say anything. -/
def recordModel : RecordModel Udp where
  Setter := Setter
  apply := Setter.apply
  Values := HeaderValues
  encode := encodeHeader
  Fits := fun _ => True
  Seen := HeaderValues
  seen := id
  getters := headerValues
  update := update

theorem encodeHeader_valuesAt {bytes : Bytes} (wellFormed : WellFormed bytes) :
    encodeHeader (valuesAt bytes) ++ bytes.drop 8 = bytes := by
  have header : encodeHeader (valuesAt bytes) = bytes.take 8 :=
    encode_eq_header (encodes_header ⟨bytes, validate_eq_ok_iff.mpr wellFormed⟩)
      (headerValues_eq_ok wellFormed) (rangeTo_eq_ok wellFormed.fixed)
  rw [header, List.take_append_drop]

theorem headerValues_encodeHeader (values : HeaderValues) (rest : Bytes) :
    headerValues (encodeHeader values ++ rest) = .ok values := by
  rw [headerValues_of_fixed (by rw [encodeHeader_length]; omega), valuesAt_encodeHeader]

theorem refined : recordModel.Refined where
  covers := fun bytes valid =>
    ⟨valuesAt bytes, bytes.drop 8, trivial, encodeHeader_valuesAt (validate_eq_ok_iff.mp valid)⟩
  determined := RecordModel.determined_of_reads (fun _ _ same => same)
    fun values rest _ => headerValues_encodeHeader values rest
  reads := fun values rest _ => headerValues_encodeHeader values rest
  step := fun setter values rest _ => apply_laid values rest setter
  keeps := fun _ _ _ _ _ _ => trivial

end Udp

/-! ## IPv4 -/

namespace Ipv4

/-- The words of the header outside the checksum field. -/
def headerSum (values : HeaderValues) : ℕ :=
  (values.version.toNat * 16 + values.ihlWords.toNat) * 256 +
    (values.dscp.toNat * 4 + values.ecn.toNat) + values.totalLen.toNat +
    values.identification.toNat + (values.flags.toNat * 8192 + values.fragmentOffset.toNat) +
    (values.ttl.toNat * 256 + values.protocol.toNat) + wordSum values.src.toList +
    wordSum values.dst.toList + wordSum values.options

/-- What a setter does to the values of a header. -/
def update : Setter → HeaderValues → Exec HeaderValues
  | .ttl value, values => .ok { values with ttl := value }
  | .protocol value, values => .ok { values with protocol := value }
  | .checksum value, values => .ok { values with checksum := value }
  | .src value, values => .ok { values with src := value }
  | .dst value, values => .ok { values with dst := value }
  | .computeAndSetChecksum, values =>
    .ok { values with checksum := checksumOf (headerSum values) }

section Encoded

variable {values : HeaderValues} (rest : Bytes)

/-- A record laid out in a mutable view. -/
def laid (rest : Bytes) (values : HeaderValues) : PacketViewMut Ipv4 :=
  ⟨encodeHeader values ++ rest⟩

theorem headerTotal_encodeHeader (fits : Fits values) :
    headerTotal (encodeHeader values ++ rest) = headerSum values := by
  have header : (encodeHeader values ++ rest).take (headerLength (encodeHeader values ++ rest)) =
      encodeHeader values := by
    have size := encodeHeader_length [] values
    rw [List.append_nil, List.length_nil, Nat.add_zero] at size
    rw [headerLength_encodeHeader rest fits, List.take_left' size]
  have whole := encodeHeader_append [] values
  rw [List.append_nil, List.append_nil] at whole
  have before : (encodeHeader values).take 10 =
      [(values.version <<< 4) ||| values.ihlWords, (values.dscp <<< 2) ||| values.ecn] ++
        u16ToBeBytes values.totalLen ++ u16ToBeBytes values.identification ++
        u16ToBeBytes (flagsWord values) ++ [values.ttl, values.protocol] := rfl
  have behind : (encodeHeader values).drop (10 + 2) =
      values.src.toList ++ (values.dst.toList ++ values.options) := by
    rw [whole]
    exact List.drop_left' rfl
  have first : ((values.version <<< 4) ||| values.ihlWords).toNat =
      values.version.toNat * 16 + values.ihlWords.toNat :=
    toNat_shiftLeft_or8 (by decide) (by rw [fits.version]; decide) fits.ihl
  have second : ((values.dscp <<< 2) ||| values.ecn).toNat =
      values.dscp.toNat * 4 + values.ecn.toNat :=
    toNat_shiftLeft_or8 (by decide) fits.dscp fits.ecn
  rw [headerTotal, header, sumOutside, before, behind, wordSum_append _ (by simp),
    wordSum_append _ (by simp), wordSum_append _ (by simp), wordSum_append _ (by simp),
    wordSum_append _ (by simp), wordSum_append _ (by simp), wordSum_u16ToBeBytes,
    wordSum_u16ToBeBytes, wordSum_u16ToBeBytes, wordSum_cons_cons, wordSum_cons_cons, wordSum_nil,
    first, second, flagsWord_toNat fits, headerSum]
  omega

theorem apply_laid (fits : Fits values) (setter : Setter) :
    setter.apply (laid rest values) = (update setter values).map (laid rest) := by
  have size := encodeHeader_length rest values
  have size' : (laid rest values).bytes.length = 20 + values.options.length + rest.length := size
  have stores (value : UInt16) : setChecksum (laid rest values) value =
      .ok (laid rest { values with checksum := value }) :=
    PacketViewMut.copyFromSlice_u16 (by omega) value
  cases setter with
  | ttl value => exact PacketViewMut.assign_eq_ok (by omega) value
  | protocol value => exact PacketViewMut.assign_eq_ok (by omega) value
  | checksum value => exact stores value
  | src value =>
    have same : values.src.toList.length = value.toList.length := by
      rw [Vector.length_toList, Vector.length_toList]
    have written : splice (encodeHeader values ++ rest) 12 value.toList =
        encodeHeader { values with src := value } ++ rest := by
      have start : (front values).length = 12 := rfl
      rw [encodeHeader_append, encodeHeader_append, splice_field start same]
      rfl
    exact PacketViewMut.copyFromSlice_eq_of_splice (by decide) (by omega) value.length_toList
      written
  | dst value =>
    have same : values.dst.toList.length = value.toList.length := by
      rw [Vector.length_toList, Vector.length_toList]
    have written : splice (encodeHeader values ++ rest) 16 value.toList =
        encodeHeader { values with dst := value } ++ rest := by
      have start : (front values ++ values.src.toList).length = 16 := by
        rw [List.length_append, Vector.length_toList]
        rfl
      rw [encodeHeader_append, encodeHeader_append, ← List.append_assoc (front values),
        splice_field start same, List.append_assoc]
      rfl
    exact PacketViewMut.copyFromSlice_eq_of_splice (by decide) (by omega) value.length_toList
      written
  | computeAndSetChecksum =>
    have computed := computeAndSetChecksum_eq (laid rest values) (wellFormed_encodeHeader rest fits)
    have total : headerTotal (laid rest values).bytes = _ := headerTotal_encodeHeader rest fits
    rw [total] at computed
    exact computed.trans (stores _)

end Encoded

/-- An update is of a value that any header may have. -/
theorem Fits.of_update {setter : Setter} {values values' : HeaderValues}
    (updated : update setter values = .ok values') (fits : Fits values) : Fits values' := by
  cases setter <;>
    exact Except.ok.inj updated ▸ ⟨fits.version, fits.words, fits.ihl, fits.dscp, fits.ecn,
      fits.flags, fits.fragmentOffset, fits.total⟩

theorem encodeHeader_valuesAt {bytes : Bytes} (wellFormed : WellFormed bytes) :
    encodeHeader (valuesAt bytes) ++ bytes.drop (headerLength bytes) = bytes := by
  have header : encodeHeader (valuesAt bytes) = bytes.take (headerLength bytes) :=
    encode_eq_header (encodes_header ⟨bytes, validate_eq_ok_iff.mpr wellFormed⟩)
      (headerValues_eq_ok wellFormed) (headerBytes_eq_ok wellFormed)
  rw [header, List.take_append_drop]

theorem headerValues_encodeHeader {values : HeaderValues} (rest : Bytes) (fits : Fits values) :
    headerValues (encodeHeader values ++ rest) = .ok values := by
  rw [headerValues_eq_ok (wellFormed_encodeHeader rest fits), valuesAt_encodeHeader rest fits]

/-- IPv4 headers as records. -/
def recordModel : RecordModel Ipv4 where
  Setter := Setter
  apply := Setter.apply
  Values := HeaderValues
  encode := encodeHeader
  Fits := Fits
  Seen := HeaderValues
  seen := id
  getters := headerValues
  update := fun _ => update

theorem refined : recordModel.Refined where
  covers := by
    intro bytes valid
    have wellFormed : WellFormed bytes := validate_eq_ok_iff.mp valid
    exact ⟨valuesAt bytes, _, fits_valuesAt wellFormed, encodeHeader_valuesAt wellFormed⟩
  determined := RecordModel.determined_of_reads (fun _ _ same => same)
    fun _ rest fits => headerValues_encodeHeader rest fits
  reads := fun _ rest fits => headerValues_encodeHeader rest fits
  step := fun setter _ rest fits => apply_laid rest fits setter
  keeps := fun _ _ _ _ updated fits => fits.of_update updated

end Ipv4

/-! ## IPv6 -/

namespace Ipv6

/-- What a setter does to the values of the fixed header. -/
def update : Setter → HeaderValues → HeaderValues
  | .payloadLen value, values => { values with payloadLen := value }
  | .nextHeader value, values => { values with nextHeaderRaw := value }
  | .hopLimit value, values => { values with hopLimit := value }
  | .src value, values => { values with src := value }
  | .dst value, values => { values with dst := value }

section Encoded

variable (values : HeaderValues) (rest : Bytes)

/-- A record laid out in a mutable view. -/
def laid (rest : Bytes) (values : HeaderValues) : PacketViewMut Ipv6 :=
  ⟨encodeHeader values ++ rest⟩

theorem apply_laid (setter : Setter) :
    setter.apply (laid rest values) = .ok (laid rest (update setter values)) := by
  have size := encodeHeader_length rest values
  have size' : (laid rest values).bytes.length = 40 + rest.length := size
  cases setter with
  | payloadLen value => exact PacketViewMut.copyFromSlice_u16 (by omega) value
  | nextHeader value => exact PacketViewMut.assign_eq_ok (by omega) value
  | hopLimit value => exact PacketViewMut.assign_eq_ok (by omega) value
  | src value =>
    have same : values.src.toList.length = value.toList.length := by
      rw [Vector.length_toList, Vector.length_toList]
    have written : splice (encodeHeader values ++ rest) 8 value.toList =
        encodeHeader { values with src := value } ++ rest := by
      have start : (front values).length = 8 := rfl
      rw [encodeHeader_append, encodeHeader_append, splice_field start same]
      rfl
    exact PacketViewMut.copyFromSlice_eq_of_splice (by decide) (by omega) value.length_toList
      written
  | dst value =>
    have same : values.dst.toList.length = value.toList.length := by
      rw [Vector.length_toList, Vector.length_toList]
    have written : splice (encodeHeader values ++ rest) 24 value.toList =
        encodeHeader { values with dst := value } ++ rest := by
      have start : (front values ++ values.src.toList).length = 24 := by
        rw [List.length_append, Vector.length_toList]
        rfl
      rw [encodeHeader_append, encodeHeader_append, ← List.append_assoc (front values),
        splice_field start same, List.append_assoc]
      rfl
    exact PacketViewMut.copyFromSlice_eq_of_splice (by decide) (by omega) value.length_toList
      written

end Encoded

theorem Fits.update {values : HeaderValues} (fits : Fits values) (setter : Setter) :
    Fits (update setter values) := by
  cases setter <;> exact ⟨fits.version, fits.flowLabel⟩

theorem encodeHeader_valuesAt {bytes : Bytes} (wellFormed : WellFormed bytes) :
    encodeHeader (valuesAt bytes) ++ bytes.drop 40 = bytes := by
  have header : encodeHeader (valuesAt bytes) = bytes.take 40 :=
    encode_eq_header (encodes_header ⟨bytes, validate_eq_ok_iff.mpr wellFormed⟩)
      (headerValues_eq_ok wellFormed) (rangeTo_eq_ok wellFormed.fixed)
  rw [header, List.take_append_drop]

theorem headerValues_encodeHeader {values : HeaderValues} (rest : Bytes) (fits : Fits values) :
    headerValues (encodeHeader values ++ rest) = .ok values := by
  rw [headerValues_eq_ok (wellFormed_encodeHeader rest fits), valuesAt_encodeHeader rest fits]

/-- Fixed headers as records. -/
def recordModel : RecordModel Ipv6 where
  Setter := Setter
  apply := Setter.apply
  Values := HeaderValues
  encode := encodeHeader
  Fits := Fits
  Seen := HeaderValues
  seen := id
  getters := headerValues
  update := fun _ setter values => .ok (update setter values)

theorem refined : recordModel.Refined where
  covers := by
    intro bytes valid
    have wellFormed : WellFormed bytes := validate_eq_ok_iff.mp valid
    exact ⟨valuesAt bytes, _, fits_valuesAt wellFormed, encodeHeader_valuesAt wellFormed⟩
  determined := RecordModel.determined_of_reads (fun _ _ same => same)
    fun _ rest fits => headerValues_encodeHeader rest fits
  reads := fun _ rest fits => headerValues_encodeHeader rest fits
  step := fun setter values rest _ => apply_laid values rest setter
  keeps := fun setter _ _ _ updated fits => Except.ok.inj updated ▸ fits.update setter

end Ipv6

end Packet

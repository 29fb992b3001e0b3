/-
# The fields of a Fragment header

The eight bytes of a Fragment header are six fields, two of them reserved. The getters
read the four others, also behind headers whose length is a count of units, and whatever
comes after it.
-/

import Mathlib.Logic.Equiv.Defs
import Packet.Theorems.Defrag
import Packet.Theorems.HeaderChains

namespace Packet

open Rust NextHeaders

/-- The fields of a Fragment header. The offset counts units of eight bytes. -/
@[ext] structure FragmentFields where
  nextHeader : UInt8
  reserved : UInt8
  offset : Fin 8192
  reservedBits : Fin 4
  more : Bool
  identification : UInt32

namespace FragmentFields

/-- The word that holds the offset, the reserved bits and the flag. -/
def word (fields : FragmentFields) : UInt16 :=
  .ofNat (fields.offset * 8 + fields.reservedBits * 2 + fields.more.toNat)

/-- The header on the wire. -/
def encode (fields : FragmentFields) : Bytes :=
  [fields.nextHeader, fields.reserved] ++ u16ToBeBytes fields.word ++
    u32ToBeBytes fields.identification

@[simp] theorem length_encode (fields : FragmentFields) : fields.encode.length = 8 := rfl

/-- The header made of the fields. -/
def header (fields : FragmentFields) : FragmentHeader := ⟨⟨fields.encode.toArray, rfl⟩⟩

theorem word_toNat (fields : FragmentFields) :
    fields.word.toNat = fields.offset * 8 + fields.reservedBits * 2 + fields.more.toNat := by
  have offset := fields.offset.isLt
  have bits := fields.reservedBits.isLt
  have flag := fields.more.toNat_lt
  exact UInt16.toNat_ofNat_of_lt' (by simp only [UInt16.size]; omega)

end FragmentFields

namespace FragmentHeader

variable (header : FragmentHeader)

theorem getElem_eq_byteAt {i : ℕ} (inside : i < 8) :
    header.bytes[i] = byteAt header.bytes.toList i := by
  rw [byteAt, List.getD_eq_getElem _ _ (by simpa using inside), Vector.getElem_toList]

theorem fragmentOffset_toNat : header.fragmentOffset.toNat =
    ((byteAt header.bytes.toList 2).toNat * 256 + (byteAt header.bytes.toList 3).toNat) / 8 := by
  rw [fragmentOffset, UInt16.toNat_shiftRight, u16FromBeBytes_toNat, Nat.shiftRight_eq_div_pow,
    header.getElem_eq_byteAt, header.getElem_eq_byteAt]
  rfl

theorem fragmentOffset_lt : header.fragmentOffset.toNat < 8192 := by
  have high := (byteAt header.bytes.toList 2).toNat_lt
  have low := (byteAt header.bytes.toList 3).toNat_lt
  rw [fragmentOffset_toNat]
  omega

theorem moreFragments_toNat :
    header.moreFragments.toNat = (byteAt header.bytes.toList 3).toNat % 2 := by
  have low : (header.bytes[3] &&& 0x01).toNat = header.bytes[3].toNat % 2 := by
    rw [UInt8.toNat_and]
    exact Nat.and_one_is_mod _
  rw [moreFragments, ← header.getElem_eq_byteAt (by decide), ← low]
  by_cases last : header.bytes[3] &&& 0x01 = 0
  · rw [last]
    rfl
  · have bit : (header.bytes[3] &&& 0x01).toNat ≠ 0 := fun zero => last (UInt8.toNat_inj.mp zero)
    rw [bne_iff_ne.mpr last, Bool.toNat_true]
    omega

/-- The fields the bytes of a header are. -/
def fields : FragmentFields where
  nextHeader := header.nextHeader
  reserved := byteAt header.bytes.toList 1
  offset := ⟨header.fragmentOffset.toNat, header.fragmentOffset_lt⟩
  reservedBits := ⟨(byteAt header.bytes.toList 3).toNat / 2 % 4, Nat.mod_lt _ (by decide)⟩
  more := header.moreFragments
  identification := header.identification

/-- Eight bytes, one by one. -/
theorem eight_bytes {bytes : Bytes} (length : bytes.length = 8) :
    [byteAt bytes 0, byteAt bytes 1, byteAt bytes 2, byteAt bytes 3, byteAt bytes 4,
      byteAt bytes 5, byteAt bytes 6, byteAt bytes 7] = bytes := by
  match bytes, length with
  | [_, _, _, _, _, _, _, _], _ => rfl

/-- The fields are encoded as the bytes they are read from. -/
theorem encode_fields : header.fields.encode = header.bytes.toList := by
  have word : header.fields.word =
      u16FromBeBytes (byteAt header.bytes.toList 2) (byteAt header.bytes.toList 3) := by
    apply UInt16.toNat_inj.mp
    rw [FragmentFields.word_toNat, u16FromBeBytes_toNat]
    simp only [fields, fragmentOffset_toNat, moreFragments_toNat]
    omega
  have identification : u32ToBeBytes header.fields.identification =
      [header.bytes[4], header.bytes[5], header.bytes[6], header.bytes[7]] :=
    u32ToBeBytes_fromBeBytes _ _ _ _
  have first : header.fields.nextHeader = byteAt header.bytes.toList 0 :=
    header.getElem_eq_byteAt (by decide)
  simp only [header.getElem_eq_byteAt] at identification
  rw [FragmentFields.encode, word, u16ToBeBytes_fromBeBytes, identification, first]
  exact eight_bytes header.bytes.length_toList

end FragmentHeader

/-- The fields read from an encoding are those encoded. -/
theorem FragmentFields.fields_header (fields : FragmentFields) : fields.header.fields = fields := by
  have offset := fields.offset.isLt
  have bits := fields.reservedBits.isLt
  have flag := fields.more.toNat_lt
  have total := fields.word_toNat
  have high : (byteAt fields.header.bytes.toList 2).toNat = fields.word.toNat / 256 := by
    have bound := fields.word.toNat_lt
    rw [show byteAt fields.header.bytes.toList 2 = .ofNat (fields.word.toNat / 256) from rfl,
      UInt8.toNat_ofNat']
    omega
  have low : (byteAt fields.header.bytes.toList 3).toNat = fields.word.toNat % 256 := by
    rw [show byteAt fields.header.bytes.toList 3 = .ofNat fields.word.toNat from rfl,
      UInt8.toNat_ofNat']
  have more : fields.header.moreFragments = fields.more := by
    have read := fields.header.moreFragments_toNat
    have same : fields.header.moreFragments.toNat = fields.more.toNat := by omega
    revert same
    cases fields.header.moreFragments <;> cases fields.more <;> decide
  have identification : fields.header.identification = fields.identification :=
    u32ToBeBytes_inj.mp (u32ToBeBytes_fromBeBytes _ _ _ _)
  ext
  · rfl
  · rfl
  · simp only [FragmentHeader.fields, FragmentHeader.fragmentOffset_toNat]
    omega
  · simp only [FragmentHeader.fields]
    omega
  · rw [FragmentHeader.fields, more]
  · rw [FragmentHeader.fields, identification]

/-- Fields and headers correspond. -/
def fragmentWire : FragmentFields ≃ FragmentHeader where
  toFun := FragmentFields.header
  invFun := FragmentHeader.fields
  left_inv := FragmentFields.fields_header
  right_inv := by
    intro header
    have same : header.fields.header.bytes = header.bytes :=
      Vector.toList_inj.mp header.encode_fields
    obtain ⟨bytes⟩ := header
    exact congrArg FragmentHeader.mk same

namespace Ipv6

open NextHeaderType (ofByte)

/-- The item a Fragment header with these fields is read as. -/
def fragmentItem (fields : FragmentFields) : NextHeader where
  kind := .fragmentHeader
  nextHeader := fields.nextHeader
  lenBytes := 8
  data := .fragment fields.header

theorem spans_fragmentItem (fields : FragmentFields) :
    Spans 44 (fragmentItem fields) fields.encode := by
  have fragment : ofByte 44 = .fragmentHeader := rfl
  have read := spans_iff.mpr ⟨rfl, show lengthAt (44, fields.encode) = _ from rfl, rfl⟩
  rw [headerAt, if_pos fragment, ofFn_byteAt fields.length_encode] at read
  exact read

/-- No header with a length in units carries a Fragment header. -/
theorem findSome?_chainItems {before : List ChainHeader}
    (others : ∀ header ∈ before, header.code ≠ 44) (protocol : UInt8) :
    (chainItems before protocol).findSome? fragment? = none := by
  induction before with
  | nil => rfl
  | cons header before ih =>
    obtain ⟨own, rest⟩ := List.forall_mem_cons.mp others
    cases header with
    | units kind hdrExtLen body width => exact ih rest
    | fragment body first => exact absurd rfl own

section Packets

variable {fixed : Bytes} {before : List ChainHeader} (fields : FragmentFields) (rest : Bytes)

/-- The walk passes the headers before the Fragment header, the Fragment header, and
whatever it finds behind it. -/
theorem exists_walk_fragment (announces : Announces fixed before 44) :
    ∃ items t result, Reads readHeader
      (start (packetOf fixed before 44 (fields.encode ++ rest)))
      (chainItems before 44 ++ fragmentItem fields :: items) t result := by
  have length := announces.length
  have begins : start (packetOf fixed before 44 (fields.encode ++ rest)) =
      (firstCode before 44, encodeChain before 44 ++ (fields.encode ++ rest)) := by
    rw [start, packetOf, byteAt_append (by omega), announces.first, ← length, List.drop_left]
  obtain ⟨items, t, result, behind⟩ := exists_walk (fields.nextHeader, rest)
  refine ⟨items, t, result, begins ▸ ?_⟩
  exact Reads.after (passes_encodeChain before 44 _)
    (.of_item ((spans_fragmentItem fields).read rest) behind)

/-- The first Fragment header is found, and has the packet refused as a fragment or for
what comes after. -/
theorem fragmentHeader_packetOf (announces : Announces fixed before 44)
    (others : ∀ header ∈ before, header.code ≠ 44) :
    Ipv6Packet.fragmentHeader (packetOf fixed before 44 (fields.encode ++ rest)) =
        .ok (some fields.header) ∧
      Ipv6Packet.isFragment (packetOf fixed before 44 (fields.encode ++ rest)) = .ok true ∧
      Rejects (newCheckedDefrag (packetOf fixed before 44 (fields.encode ++ rest))) := by
  have wellFormed : WellFormed (packetOf fixed before 44 (fields.encode ++ rest)) :=
    wellFormed_packetOf announces
  obtain ⟨items, t, result, walk⟩ := exists_walk_fragment fields rest announces
  have first : (chainItems before 44 ++ fragmentItem fields :: items).findSome? fragment? =
      some fields.header := by
    rw [List.findSome?_append, findSome?_chainItems others]
    rfl
  have found := fragmentHeader_eq wellFormed.fixed walk
  rw [first] at found
  refine ⟨found, ?_, ?_⟩
  · rw [Ipv6Packet.isFragment, found]
    rfl
  · rw [newCheckedDefrag_eq wellFormed walk, first]
    cases result with
    | none => exact ⟨_, rfl⟩
    | some error => exact ⟨_, rfl⟩

end Packets

end Ipv6

/-- The eight bytes of Fragment headers and their six fields correspond one to one, the
getters read the fields. The first Fragment header behind Hop-by-Hop Options, Routing,
Destination Options and Mobility headers is found and read as its fields, whatever comes
after it. -/
theorem fragments_read :
    (∃ wire : FragmentFields ≃ FragmentHeader, ∀ fields,
      (wire fields).bytes.toList = fields.encode ∧
      (wire fields).nextHeader = fields.nextHeader ∧
      (wire fields).fragmentOffset.toNat = fields.offset ∧
      (wire fields).moreFragments = fields.more ∧
      (wire fields).isLastFragment = !fields.more ∧
      (wire fields).identification = fields.identification) ∧
    ∀ (fixed rest : Bytes) (before : List ChainHeader) (fields : FragmentFields),
      Ipv6.Announces fixed before 44 → (∀ header ∈ before, header.code ≠ 44) →
      let packet := Ipv6.packetOf fixed before 44 (fields.encode ++ rest)
      Accepts (PacketView.new Ipv6 packet) ∧
        (∃ header, Ipv6Packet.fragmentHeader packet = .ok (some header) ∧
          header.fields = fields) ∧
        Ipv6Packet.isFragment packet = .ok true ∧ Rejects (Ipv6.newCheckedDefrag packet) := by
  refine ⟨⟨fragmentWire, fun fields => ?_⟩, ?_⟩
  · have read : fields.header.fields = fields := fields.fields_header
    have more : fields.header.moreFragments = fields.more := congrArg FragmentFields.more read
    refine ⟨rfl, rfl, ?_, more, congrArg not more, congrArg FragmentFields.identification read⟩
    exact congrArg (fun fields => fields.offset.val) read
  · intro fixed rest before fields announces others
    have wellFormed : Ipv6.WellFormed (Ipv6.packetOf fixed before 44 (fields.encode ++ rest)) :=
      Ipv6.wellFormed_packetOf announces
    obtain ⟨found, fragment, gated⟩ := Ipv6.fragmentHeader_packetOf fields rest announces others
    exact ⟨accepts_new_iff.mpr (Ipv6.validate_eq_ok_iff.mpr wellFormed),
      ⟨_, found, fields.fields_header⟩, fragment, gated⟩

/-- A Fragment header behind a Hop-by-Hop header. -/
theorem fragments_read_hopByHop :
    let before : List ChainHeader := [.units .hopByHopOptions 0 [1, 4, 0, 0, 0, 0] rfl]
    let fields : FragmentFields := ⟨17, 0, 185, 0, true, 7⟩
    let packet := Ipv6.packetOf (Ipv6.fixedHeader 24 0) before 44 (fields.encode ++ [7, 7])
    (∃ header, Ipv6Packet.fragmentHeader packet = .ok (some header) ∧ header.fields = fields) ∧
      Rejects (Ipv6.newCheckedDefrag packet) := by
  intro before fields packet
  obtain ⟨_, found, _, gated⟩ := fragments_read.2 (Ipv6.fixedHeader 24 0) [7, 7] before fields
    ⟨rfl, by decide, rfl⟩ (by decide)
  exact ⟨found, gated⟩

end Packet

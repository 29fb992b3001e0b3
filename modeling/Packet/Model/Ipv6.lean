/-
# IPv6

Only the fixed header is validated. The extension headers are walked three
times over, each time from the bytes after the fixed header: by the iterator, by
the loop of `upper_layer_protocol`, and by the checking constructors, which run
the iterator. One reader carries all of them.
-/

import Packet.Model.ExtHeaders

namespace Packet

open Rust

/-- The protocol marker. -/
inductive Ipv6

namespace Ipv6

/-- The length of the fixed header. -/
abbrev minPacketLen : ℕ := 40

/-- The version the validator asks for. -/
abbrev version : UInt8 := 6

/-- Only the length and the version of the fixed header are tested. -/
def validate (bytes : Bytes) : Exec (Result Unit) := do
  if bytes.length < minPacketLen then
    return .error (.tooShort minPacketLen bytes.length)
  let version := (← index bytes 0) >>> 4
  if version ≠ Ipv6.version then
    return .error (.invalidVersion Ipv6.version version)
  return .ok ()

/-- The header of a view is the fixed header. -/
def headerLen (_ : Bytes) : Exec ℕ := return minPacketLen

/-- `impl PacketSpec for Ipv6` -/
instance : PacketSpec Ipv6 where
  validate := validate
  headerLen := headerLen

end Ipv6

/-! ## The `Ipv6Packet` trait -/

namespace Ipv6Packet

open NextHeaderType (ofByte)

/-- The upper half of the first byte. -/
def version (bytes : Bytes) : Exec UInt8 := do
  return (← index bytes 0) >>> 4

/-- Eight bits across the first two bytes. -/
def trafficClass (bytes : Bytes) : Exec UInt8 := do
  return (((← index bytes 0) &&& 0x0f) <<< 4) ||| ((← index bytes 1) >>> 4)

/-- The twenty bits after the traffic class. -/
def flowLabel (bytes : Bytes) : Exec UInt32 := do
  let b1 := ((← index bytes 1) &&& 0x0f).toUInt32
  let b2 := (← index bytes 2).toUInt32
  let b3 := (← index bytes 3).toUInt32
  return (b1 <<< 16) ||| (b2 <<< 8) ||| b3

/-- The length of what follows the fixed header, as the packet gives it. -/
def payloadLen (bytes : Bytes) : Exec UInt16 := readU16 bytes 4

/-- The byte that announces what follows the fixed header. -/
def nextHeaderRaw (bytes : Bytes) : Exec UInt8 := index bytes 6

/-- The iterator over the extension headers, before its first call. -/
def extensionHeaders (bytes : Bytes) : Exec NextHeaders := do
  -- The region ends with the slice; the payload length is not consulted.
  let remaining ← rangeFrom bytes Ipv6.minPacketLen
  let next ← nextHeaderRaw bytes
  return { remaining, next, errored := false }

/-- The pattern of the `if let` in `fragment_header`. -/
def fragmentOf : Result NextHeader → Option FragmentHeader
  | .ok { data := .fragment frag, .. } => some frag
  -- Errors are passed over like the other headers.
  | _ => none

/-- The first Fragment header the iterator yields. -/
def fragmentHeader (bytes : Bytes) : Exec (Option FragmentHeader) := do
  let headers ← extensionHeaders bytes
  firstReturn NextHeaders.iterNext fragmentOf headers.budget headers

/-- Whether there is one. -/
def isFragment (bytes : Bytes) : Exec Bool := do
  return (← fragmentHeader bytes).isSome

/-- One turn of the loop in `upper_layer_protocol`. -/
def upperTurn : UInt8 × Bytes → Exec (Turn (UInt8 × Bytes) (Option UInt8))
  | (next, remaining) => do
    let kind := ofByte next
    if !kind.isExtension then
      return .leave (some next)
    -- From here on the iterator's tests, written again.
    if remaining.length < 8 then
      return .leave none
    let len ← if kind = .fragmentHeader then pure hdrExtLen
      else pure (((← index remaining 1).toNat + 1) * 8)
    if remaining.length < len then
      return .leave none
    let next ← index remaining 0
    let remaining ← rangeFrom remaining len
    return .proceed (next, remaining)

/-- The budget of the loop is one turn for each 8 bytes and one for the end. -/
def upperLayerProtocol (bytes : Bytes) : Exec (Option UInt8) := do
  let next ← nextHeaderRaw bytes
  let remaining ← rangeFrom bytes Ipv6.minPacketLen
  loop upperTurn (remaining.length / 8 + 1) (next, remaining)

/-- The hop limit. -/
def hopLimit (bytes : Bytes) : Exec UInt8 := index bytes 7

/-- The source address. -/
def src (bytes : Bytes) : Exec (Vector UInt8 16) := do
  let out ← copyFromSlice (List.replicate 16 0) 0 16 (← range bytes 8 24)
  return Vector.ofFn fun i => out.getD i 0

/-- The destination address. -/
def dst (bytes : Bytes) : Exec (Vector UInt8 16) := do
  let out ← copyFromSlice (List.replicate 16 0) 0 16 (← range bytes 24 40)
  return Vector.ofFn fun i => out.getD i 0

/-- What follows the fixed header, extension headers included. -/
def payload (bytes : Bytes) : Exec Bytes := do
  let start := Ipv6.minPacketLen
  -- Here the payload length counts, up to the end of the slice.
  let end_ := min (start + (← payloadLen bytes).toNat) bytes.length
  range bytes start end_

/-- The fields of the fixed header. -/
inductive Field
  | version
  | trafficClass
  | flowLabel
  | payloadLen
  | nextHeaderRaw
  | hopLimit
  | src
  | dst
  deriving DecidableEq

/-- The type a field is read as. -/
abbrev Field.Value : Field → Type
  | .flowLabel => UInt32
  | .payloadLen => UInt16
  | .src => Vector UInt8 16
  | .dst => Vector UInt8 16
  | _ => UInt8

/-- The getter of a field. -/
def Field.get : (field : Field) → Bytes → Exec field.Value
  | .version => Ipv6Packet.version
  | .trafficClass => Ipv6Packet.trafficClass
  | .flowLabel => Ipv6Packet.flowLabel
  | .payloadLen => Ipv6Packet.payloadLen
  | .nextHeaderRaw => Ipv6Packet.nextHeaderRaw
  | .hopLimit => Ipv6Packet.hopLimit
  | .src => Ipv6Packet.src
  | .dst => Ipv6Packet.dst

/-- The methods of the trait, the getters of the fields among them. -/
inductive Accessor
  | field (f : Field)
  | extensionHeaders
  | fragmentHeader
  | isFragment
  | upperLayerProtocol
  | payload

/-- The type a method returns; the iterator is drained. -/
abbrev Accessor.Value : Accessor → Type
  | .field f => f.Value
  | .extensionHeaders => List (Result NextHeader)
  | .fragmentHeader => Option FragmentHeader
  | .isFragment => Bool
  | .upperLayerProtocol => Option UInt8
  | .payload => Bytes

/-- The call of a method. -/
def Accessor.get : (accessor : Accessor) → Bytes → Exec accessor.Value
  | .field f => f.get
  | .extensionHeaders => fun bytes => do (← Ipv6Packet.extensionHeaders bytes).collect
  | .fragmentHeader => Ipv6Packet.fragmentHeader
  | .isFragment => Ipv6Packet.isFragment
  | .upperLayerProtocol => Ipv6Packet.upperLayerProtocol
  | .payload => Ipv6Packet.payload

/-- The methods of the trait, for every protocol to be spoken of alike. -/
instance : PacketTrait Ipv6 where
  Accessor := Accessor
  Value := Accessor.Value
  get := Accessor.get

/-- Sixteen bytes copied into a zeroed array make up the array. -/
theorem copyOut_eq {values : Bytes} (size : values.length = 16) : (do
      let out ← copyFromSlice (List.replicate 16 0) 0 16 values
      return Vector.ofFn fun i : Fin 16 => out.getD i 0) = .ok ⟨values.toArray, size⟩ := by
  have whole : splice (List.replicate 16 0) 0 values = values :=
    splice_all (by rw [size, List.length_replicate])
  rw [copyFromSlice_eq_ok (by decide) (by simp) size, whole, ok_bind, pure_eq_ok]
  exact congrArg Except.ok (ofFn_byteAt size)

/-- An address copied out of the fixed header. -/
theorem address_eq_ok {bytes : Bytes} {lo hi : ℕ} (width : hi = lo + 16)
    (inside : hi ≤ bytes.length) : ∃ address : Vector UInt8 16, (do
      let out ← copyFromSlice (List.replicate 16 0) 0 16 (← range bytes lo hi)
      return Vector.ofFn fun i : Fin 16 => out.getD i 0) = .ok address ∧
        address.toList = (bytes.take hi).drop lo := by
  have size : ((bytes.take hi).drop lo).length = 16 := by
    rw [List.length_drop, List.length_take]
    omega
  refine ⟨⟨((bytes.take hi).drop lo).toArray, size⟩, ?_, rfl⟩
  rw [range_eq_ok (by omega) inside, ok_bind]
  exact copyOut_eq size

theorem address_returns {bytes : Bytes} {lo hi : ℕ} (width : hi = lo + 16)
    (inside : hi ≤ bytes.length) : Returns (do
      let out ← copyFromSlice (List.replicate 16 0) 0 16 (← range bytes lo hi)
      return Vector.ofFn fun i : Fin 16 => out.getD i 0) := by
  obtain ⟨address, copied, _⟩ := address_eq_ok width inside
  exact .of_eq_ok copied

/-- Every field lies in the first 40 bytes. -/
theorem Field.get_returns (field : Field) {bytes : Bytes} (fixed : 40 ≤ bytes.length) :
    Returns (field.get bytes) := by
  have read (i : ℕ) (inside : i < 40) : Returns (index bytes i) :=
    .of_eq_ok (index_byteAt (by omega))
  cases field with
  | version => exact (read 0 (by decide)).bind fun _ _ => returns_ok _
  | trafficClass =>
    exact (read 0 (by decide)).bind fun _ _ => (read 1 (by decide)).bind fun _ _ => returns_ok _
  | flowLabel =>
    exact (read 1 (by decide)).bind fun _ _ => (read 2 (by decide)).bind fun _ _ =>
      (read 3 (by decide)).bind fun _ _ => returns_ok _
  | payloadLen => exact .of_eq_ok (readU16_eq_ok (by omega))
  | nextHeaderRaw => exact read 6 (by decide)
  | hopLimit => exact read 7 (by decide)
  | src => exact address_returns rfl (by omega)
  | dst => exact address_returns rfl (by omega)

end Ipv6Packet

namespace Ipv6

/-! ## Checking constructors -/

/-- The error `next?` returns. -/
def errorOf : Result NextHeader → Option PacketError
  | .ok _ => none
  | .error error => some error

/-- Validation, and then a walk over the extension headers for an error. -/
def newChecked (bytes : Bytes) : Exec (Result (PacketView Ipv6)) := do
  match ← PacketView.new Ipv6 bytes with
  | .error error => return .error error
  | .ok view =>
    let headers ← Ipv6Packet.extensionHeaders view.bytes
    -- The headers are dropped; only an error leaves the loop early.
    match ← firstReturn NextHeaders.iterNext errorOf headers.budget headers with
    | some error => return .error error
    | none => return .ok view

/-- A packet with a Fragment header is turned away, too. -/
def newCheckedDefrag (bytes : Bytes) : Exec (Result (PacketView Ipv6)) := do
  match ← newChecked bytes with
  | .error error => return .error error
  | .ok view =>
    -- A second walk, over a chain that is known to have no error.
    if ← Ipv6Packet.isFragment view.bytes then
      return .error .fragmentedPacket
    return .ok view

/-- The checks of the shared view, for a mutable one. -/
def newCheckedMut (bytes : Bytes) : Exec (Result (PacketViewMut Ipv6)) := do
  match ← newChecked bytes with
  | .error error => return .error error
  -- The shared view is given up and the buffer validated again.
  | .ok _ => PacketViewMut.new Ipv6 bytes

/-! ## Setters -/

/-- Stores any payload length, whatever the buffer holds. -/
def setPayloadLen (view : PacketViewMut Ipv6) (value : UInt16) : Exec (PacketViewMut Ipv6) :=
  view.copyFromSlice 4 6 (u16ToBeBytes value)

/-- Stores the byte the walk over the extension headers starts with. -/
def setNextHeader (view : PacketViewMut Ipv6) (value : UInt8) : Exec (PacketViewMut Ipv6) :=
  view.assign 6 value

/-- Stores the hop limit. -/
def setHopLimit (view : PacketViewMut Ipv6) (value : UInt8) : Exec (PacketViewMut Ipv6) :=
  view.assign 7 value

/-- Stores the source address. -/
def setSrc (view : PacketViewMut Ipv6) (value : Vector UInt8 16) : Exec (PacketViewMut Ipv6) :=
  view.copyFromSlice 8 24 value.toList

/-- Stores the destination address. -/
def setDst (view : PacketViewMut Ipv6) (value : Vector UInt8 16) : Exec (PacketViewMut Ipv6) :=
  view.copyFromSlice 24 40 value.toList

/-- A call of one of the view's setters. -/
inductive Setter
  | payloadLen (value : UInt16)
  | nextHeader (value : UInt8)
  | hopLimit (value : UInt8)
  | src (value : Vector UInt8 16)
  | dst (value : Vector UInt8 16)

/-- The method a call is of. -/
def Setter.apply : Setter → PacketViewMut Ipv6 → Exec (PacketViewMut Ipv6)
  | .payloadLen value, view => setPayloadLen view value
  | .nextHeader value, view => setNextHeader view value
  | .hopLimit value, view => setHopLimit view value
  | .src value, view => setSrc view value
  | .dst value, view => setDst view value

/-- The field a setter is on. -/
def Setter.field : Setter → Ipv6Packet.Field
  | .payloadLen _ => .payloadLen
  | .nextHeader _ => .nextHeaderRaw
  | .hopLimit _ => .hopLimit
  | .src _ => .src
  | .dst _ => .dst

/-- Setters never change the length of the buffer. -/
theorem Setter.apply_length {setter : Setter} {view view' : PacketViewMut Ipv6}
    (written : setter.apply view = .ok view') : view'.bytes.length = view.bytes.length := by
  cases setter with
  | payloadLen value => exact PacketViewMut.copyFromSlice_length written
  | nextHeader value => exact PacketViewMut.assign_length written
  | hopLimit value => exact PacketViewMut.assign_length written
  | src value => exact PacketViewMut.copyFromSlice_length written
  | dst value => exact PacketViewMut.copyFromSlice_length written

/-! ## What the validator accepts -/

/-- The slices the validator accepts. -/
structure WellFormed (bytes : Bytes) : Prop where
  fixed : 40 ≤ bytes.length
  version : byteAt bytes 0 >>> 4 = 6

/-- The checks of the validator, in their order. -/
theorem validate_eq (bytes : Bytes) :
    validate bytes =
      if bytes.length < 40 then .ok (.error (.tooShort 40 bytes.length))
      else if byteAt bytes 0 >>> 4 ≠ 6 then
        .ok (.error (.invalidVersion 6 (byteAt bytes 0 >>> 4)))
      else .ok (.ok ()) := by
  by_cases short : bytes.length < 40
  · rw [if_pos short]
    exact if_pos short
  · rw [if_neg short, validate, if_neg short, index_byteAt (by omega)]
    rfl

theorem validate_returns (bytes : Bytes) : Returns (validate bytes) := by
  rw [validate_eq]
  exact check_returns (check_returns (returns_ok _))

theorem validate_eq_ok_iff {bytes : Bytes} :
    validate bytes = .ok (.ok ()) ↔ WellFormed bytes := by
  simp only [validate_eq, check_eq_ok, Nat.not_lt, ne_eq, not_not, and_true]
  constructor
  · rintro ⟨fixed, version⟩
    exact ⟨fixed, version⟩
  · rintro ⟨fixed, version⟩
    exact ⟨fixed, version⟩

/-- The fixed header of a packet between unspecified addresses. -/
def fixedHeader (payloadLen : UInt16) (nextHeader : UInt8) : Bytes :=
  [0x60, 0, 0, 0] ++ u16ToBeBytes payloadLen ++ [nextHeader, 64] ++ List.replicate 32 0

/-- The validator reads only the fixed header. -/
theorem WellFormed.congr {bytes bytes' : Bytes} (wellFormed : WellFormed bytes)
    (long : 40 ≤ bytes'.length) (same : byteAt bytes' 0 = byteAt bytes 0) :
    WellFormed bytes' := ⟨long, same ▸ wellFormed.version⟩

theorem WellFormed.append {bytes : Bytes} (wellFormed : WellFormed bytes) (trailing : Bytes) :
    WellFormed (bytes ++ trailing) := by
  have fixed := wellFormed.fixed
  refine wellFormed.congr ?_ (byteAt_append (by omega) trailing)
  rw [List.length_append]
  omega

/-! ## The walk over the extension headers -/

open NextHeaders

/-- Where the walk starts. -/
def start (bytes : Bytes) : UInt8 × Bytes := (byteAt bytes 6, bytes.drop 40)

theorem start_append {bytes : Bytes} (fixed : 40 ≤ bytes.length) (trailing : Bytes) :
    start (bytes ++ trailing) = ((start bytes).1, (start bytes).2 ++ trailing) := by
  rw [start, byteAt_append (by omega), List.drop_append_of_le_length fixed]
  rfl

/-- The items a drain of `extension_headers()` yields. -/
def headerItems (bytes : Bytes) : Exec (List (Result NextHeader)) := do
  (← Ipv6Packet.extensionHeaders bytes).collect

theorem extensionHeaders_eq_ok {bytes : Bytes} (fixed : 40 ≤ bytes.length) :
    Ipv6Packet.extensionHeaders bytes = .ok (live (start bytes)) := by
  rw [Ipv6Packet.extensionHeaders, rangeFrom_eq_ok fixed, ok_bind, Ipv6Packet.nextHeaderRaw,
    index_byteAt (by omega)]
  rfl

/-- The loop takes the same turns as the iterator. -/
theorem upperTurn_follows :
    LoopFollows Ipv6Packet.upperTurn readHeader id (fun s => some s.1)
      (fun _ _ => none) where
  stop := by
    intro s stops
    have upper := readHeader_eq_stop_iff.mp stops
    simp [Ipv6Packet.upperTurn, upper]
  fail := by
    intro s error fails
    obtain ⟨extension, short | overrun⟩ := readHeader_eq_fail_iff.mp fails
    · obtain ⟨short, rfl⟩ := short
      simp [Ipv6Packet.upperTurn, extension, short]
    · obtain ⟨enough, overrun, rfl⟩ := overrun
      have second : index s.2 1 = .ok (byteAt s.2 1) := index_byteAt (by omega)
      have fragment := not_fragment_of_overrun enough overrun
      simp only [lengthAt, if_neg fragment] at overrun
      simp [Ipv6Packet.upperTurn, extension, Nat.not_lt.mpr enough, fragment, second, overrun]
  item := by
    intro s header u found
    obtain ⟨extension, fits, rfl, rfl⟩ := readHeader_eq_item_iff.mp found
    have enough : 8 ≤ s.2.length := Nat.le_trans (eight_le_lengthAt s) fits
    have first : index s.2 0 = .ok (byteAt s.2 0) := index_byteAt (by omega)
    have second : index s.2 1 = .ok (byteAt s.2 1) := index_byteAt (by omega)
    have rest := rangeFrom_eq_ok fits
    by_cases fragment : NextHeaderType.ofByte s.1 = .fragmentHeader
    · have length : lengthAt s = 8 := if_pos fragment
      rw [length] at rest
      simp [Ipv6Packet.upperTurn, fragment, first, rest, length, Nat.not_lt.mpr enough]
      rfl
    · have length : lengthAt s = ((byteAt s.2 1).toNat + 1) * 8 := if_neg fragment
      rw [length] at rest fits
      simp [Ipv6Packet.upperTurn, extension, fragment, first, rest, length,
        Nat.not_lt.mpr enough, second, Nat.not_lt.mpr fits]

section Walk

variable {bytes : Bytes} {t : UInt8 × Bytes} {items : List NextHeader}
  {result : Option PacketError}

theorem headerItems_eq (fixed : 40 ≤ bytes.length)
    (walk : Reads readHeader (start bytes) items t result) :
    headerItems bytes = .ok (yielded items result) := by
  rw [headerItems, extensionHeaders_eq_ok fixed, ok_bind, collect_eq walk]

theorem upperLayerProtocol_eq (fixed : 40 ≤ bytes.length)
    (walk : Reads readHeader (start bytes) items t result) :
    Ipv6Packet.upperLayerProtocol bytes = .ok (result.elim (some t.1) fun _ => none) := by
  have few := length_items_le walk.passes
  rw [Ipv6Packet.upperLayerProtocol, Ipv6Packet.nextHeaderRaw, index_byteAt (by omega), ok_bind,
    rangeFrom_eq_ok fixed, ok_bind]
  exact upperTurn_follows.loop_eq walk (Nat.add_le_add_right few 1)

theorem firstReturn_eq {β : Type} (body : Result NextHeader → Option β)
    (walk : Reads readHeader (start bytes) items t result) :
    firstReturn iterNext body (live (start bytes)).budget (live (start bytes)) =
      .ok ((yielded items result).findSome? body) :=
  firstReturn_of_drain body (drain_eq walk)

/-- The Fragment header a header item carries. -/
def fragment? (header : NextHeader) : Option FragmentHeader :=
  match header.data with
  | .fragment frag => some frag
  | .other _ => none

theorem fragmentHeader_eq (fixed : 40 ≤ bytes.length)
    (walk : Reads readHeader (start bytes) items t result) :
    Ipv6Packet.fragmentHeader bytes = .ok (items.findSome? fragment?) := by
  rw [Ipv6Packet.fragmentHeader, extensionHeaders_eq_ok fixed, ok_bind, firstReturn_eq _ walk]
  congr 1
  have onItems : (items.map Except.ok).findSome? Ipv6Packet.fragmentOf =
      items.findSome? fragment? := by
    rw [List.findSome?_map]
    congr 1
    funext header
    obtain ⟨_, _, _, data⟩ := header
    cases data <;> rfl
  rw [yielded, List.findSome?_append, onItems]
  -- The error of a chain that breaks off is no Fragment header.
  cases result with
  | none => simp
  | some error => simp [Ipv6Packet.fragmentOf]

theorem newChecked_eq (wellFormed : WellFormed bytes)
    (walk : Reads readHeader (start bytes) items t result) :
    newChecked bytes =
      .ok (result.elim (.ok ⟨bytes, validate_eq_ok_iff.mpr wellFormed⟩) .error) := by
  have valid : PacketSpec.validate Ipv6 bytes = .ok (.ok ()) := validate_eq_ok_iff.mpr wellFormed
  rw [newChecked, PacketView.new_of_valid valid, ok_bind]
  dsimp only
  rw [extensionHeaders_eq_ok wellFormed.fixed, ok_bind, firstReturn_eq _ walk, ok_bind]
  have noError : (items.map Except.ok).findSome? errorOf = none := by
    rw [List.findSome?_map, List.findSome?_eq_none_iff]
    intro header _
    rfl
  rw [yielded, List.findSome?_append, noError]
  cases result <;> rfl

/-- The checking constructor accepts exactly the chains that end without an error. -/
theorem accepts_newChecked_iff (wellFormed : WellFormed bytes)
    (walk : Reads readHeader (start bytes) items t result) :
    Accepts (newChecked bytes) ↔ result = none := by
  rw [newChecked_eq wellFormed walk]
  cases result with
  | none => exact iff_of_true (accepts_ok_ok _) rfl
  | some error => simp

/-- A packet the checking constructor accepts is walked to the end of its chain. -/
theorem exists_walk_of_accepts (accepted : Accepts (newChecked bytes)) :
    WellFormed bytes ∧ ∃ items t, Reads readHeader (start bytes) items t none := by
  have wellFormed : WellFormed bytes :=
    validate_eq_ok_iff.mp (valid_of_accepts accepted fun _ => rfl)
  obtain ⟨items, t, result, walk⟩ := exists_walk (start bytes)
  obtain rfl := (accepts_newChecked_iff wellFormed walk).mp accepted
  exact ⟨wellFormed, items, t, walk⟩

theorem newCheckedDefrag_eq (wellFormed : WellFormed bytes)
    (walk : Reads readHeader (start bytes) items t result) :
    newCheckedDefrag bytes =
      .ok (result.elim
        (if (items.findSome? fragment?).isSome then .error .fragmentedPacket
          else .ok ⟨bytes, validate_eq_ok_iff.mpr wellFormed⟩) .error) := by
  rw [newCheckedDefrag, newChecked_eq wellFormed walk, ok_bind]
  cases result with
  | some error => rfl
  | none =>
    simp only [Option.elim, Ipv6Packet.isFragment, fragmentHeader_eq wellFormed.fixed walk,
      ok_bind, pure_eq_ok]
    split <;> rfl

end Walk

/-! ## Positions in the packet -/

/-- The bytes up to the end of the last of these headers. -/
def reach (headers : List NextHeader) : ℕ := 40 + (headers.map NextHeader.lenBytes).sum

section Reach

variable {bytes : Bytes} {u : UInt8 × Bytes} {items : List NextHeader}

theorem reach_le (wellFormed : WellFormed bytes) (walk : Passes readHeader (start bytes) items u) :
    reach items ≤ bytes.length := by
  have fixed := wellFormed.fixed
  obtain ⟨front, split, size, _⟩ := exists_spans walk
  have length := congrArg List.length split
  rw [start, List.length_drop, List.length_append] at length
  rw [reach]
  omega

/-- After some headers of the walk, what is left starts where they end. -/
theorem rest_of_passes (walk : Passes readHeader (start bytes) items u) :
    u.2 = bytes.drop (reach items) := by
  obtain ⟨front, split, size, _⟩ := exists_spans walk
  rw [reach, ← List.drop_drop, show bytes.drop 40 = front ++ u.2 from split, List.drop_left' size]

/-- The headers of a partial walk are passed whatever comes after them. -/
theorem passes_of_cut (wellFormed : WellFormed bytes)
    (walk : Passes readHeader (start bytes) items u) (rest : Bytes) :
    WellFormed (bytes.take (reach items) ++ rest) ∧
      Passes readHeader (start (bytes.take (reach items) ++ rest)) items (u.1, rest) := by
  have fixed := wellFormed.fixed
  have inside := reach_le wellFormed walk
  obtain ⟨front, split, size, again⟩ := exists_spans walk
  have beyond : 40 ≤ reach items := Nat.le_add_right 40 _
  have cut : (bytes.take (reach items)).length = reach items := by
    rw [List.length_take, Nat.min_eq_left inside]
  have header : WellFormed (bytes.take (reach items)) :=
    wellFormed.congr (by omega) (byteAt_take (by omega))
  refine ⟨header.append rest, ?_⟩
  -- Up to `reach` the region is the bytes of the headers, and nothing else.
  have region : (bytes.take (reach items)).drop 40 = front := by
    rw [List.drop_take, show bytes.drop 40 = front ++ u.2 from split,
      List.take_left' (by rw [size, reach]; omega)]
  rw [start_append header.fixed, start, byteAt_take (by omega), region]
  exact again rest

theorem upperLayerProtocol_cut (wellFormed : WellFormed bytes)
    (walk : Passes readHeader (start bytes) items u) {rest : Bytes} {items' : List NextHeader}
    {t : UInt8 × Bytes} {result : Option PacketError}
    (continued : Reads readHeader (u.1, rest) items' t result) :
    Ipv6Packet.upperLayerProtocol (bytes.take (reach items) ++ rest) =
        .ok (result.elim (some t.1) fun _ => none) ∧
      verdict (newChecked (bytes.take (reach items) ++ rest)) =
        .ok (result.elim (.ok ()) .error) := by
  obtain ⟨wellFormed', walk'⟩ := passes_of_cut wellFormed walk rest
  have whole := Reads.after walk' continued
  refine ⟨upperLayerProtocol_eq wellFormed'.fixed whole, ?_⟩
  rw [newChecked_eq wellFormed' whole]
  cases result <;> rfl

/-- Where a header is due, eight bytes can be put that lead to any protocol. -/
theorem upperLayerProtocol_minimal (wellFormed : WellFormed bytes)
    (walk : Passes readHeader (start bytes) items u)
    (extension : (NextHeaderType.ofByte u.1).isExtension = true) {protocol : UInt8}
    (upper : (NextHeaderType.ofByte protocol).isExtension = false) :
    Ipv6Packet.upperLayerProtocol
      (bytes.take (reach items) ++ [protocol, 0, 0, 0, 0, 0, 0, 0]) = .ok (some protocol) :=
  (upperLayerProtocol_cut wellFormed walk (reads_minimal extension upper)).1

end Reach

/-! ## What an accepted packet can be asked -/

/-- The payload ends after the payload length or where the slice does. -/
theorem payload_eq_ok {bytes : Bytes} (fixed : 40 ≤ bytes.length) :
    Ipv6Packet.payload bytes =
      .ok ((bytes.take (min (40 + (wordAt bytes 4).toNat) bytes.length)).drop 40) := by
  rw [Ipv6Packet.payload, Ipv6Packet.payloadLen, readU16_eq_ok (by omega), ok_bind]
  exact range_eq_ok (Nat.le_min.mpr ⟨Nat.le_add_right _ _, fixed⟩) (Nat.min_le_right _ _)

theorem accessor_returns {bytes : Bytes} (fixed : 40 ≤ bytes.length)
    (accessor : Ipv6Packet.Accessor) : Returns (accessor.get bytes) := by
  obtain ⟨items, t, result, walk⟩ := exists_walk (start bytes)
  have searched : Returns (Ipv6Packet.fragmentHeader bytes) :=
    .of_eq_ok (fragmentHeader_eq fixed walk)
  cases accessor with
  | field f => exact f.get_returns fixed
  | extensionHeaders => exact .of_eq_ok (headerItems_eq fixed walk)
  | fragmentHeader => exact searched
  | isFragment => exact searched.bind fun _ _ => returns_ok _
  | upperLayerProtocol => exact .of_eq_ok (upperLayerProtocol_eq fixed walk)
  | payload => exact .of_eq_ok (payload_eq_ok fixed)

theorem WellFormed.readable {bytes : Bytes} (wellFormed : WellFormed bytes) :
    Readable Ipv6 bytes := accessor_returns wellFormed.fixed

end Ipv6

end Packet

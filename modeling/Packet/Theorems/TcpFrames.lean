/-
# What TCP setters leave alone

Byte 12 is shared: the data offset is its upper half, the lowest bit is a flag, and
the three bits between are reserved. So the footprint of a setter is a set of
bits. Every setter writes its own field only, except that `set_flags` also clears
the reserved bits, which `set_data_offset` keeps. Nothing else writes those, so
setters of different fields commute all the same.
-/

import Packet.Model.Setters
import Packet.Model.Tcp
import Packet.Rust.Bits

namespace Packet.Tcp

open Rust
open TcpPacket (Field)

/-- The bit at a position of a view, if the buffer reaches that far. -/
def lookBit (view : PacketViewMut Tcp) (p : ℕ × Fin 8) : Option Bool :=
  (view.look p.1).map (bit · p.2)

/-- The bits of a field. -/
def bits : Field → Set (ℕ × Fin 8)
  | .srcPort => {p | p.1 ∈ Set.Ico 0 2}
  | .dstPort => {p | p.1 ∈ Set.Ico 2 4}
  | .seqNumber => {p | p.1 ∈ Set.Ico 4 8}
  | .ackNumber => {p | p.1 ∈ Set.Ico 8 12}
  | .dataOffset => {p | p.1 = 12 ∧ 4 ≤ p.2.val}
  | .flagsRaw => {p | p.1 = 12 ∧ p.2.val = 0 ∨ p.1 = 13}
  | .windowSize => {p | p.1 ∈ Set.Ico 14 16}
  | .checksum => {p | p.1 ∈ Set.Ico 16 18}
  | .urgentPointer => {p | p.1 ∈ Set.Ico 18 20}

/-- The reserved bits, which belong to no field. -/
def reserved : Set (ℕ × Fin 8) := {p | p.1 = 12 ∧ 1 ≤ p.2.val ∧ p.2.val < 4}

/-- The bits the setters of a field write: its own, and for the flags the reserved
ones too. -/
def written : Field → Set (ℕ × Fin 8)
  | .flagsRaw => bits .flagsRaw ∪ reserved
  | field => bits field

/-- The field whose setters write a bit of the fixed header. -/
def owner (p : ℕ × Fin 8) : Field :=
  if p.1 < 2 then .srcPort
  else if p.1 < 4 then .dstPort
  else if p.1 < 8 then .seqNumber
  else if p.1 < 12 then .ackNumber
  else if p.1 = 12 ∧ 4 ≤ p.2.val then .dataOffset
  else if p.1 < 14 then .flagsRaw
  else if p.1 < 16 then .windowSize
  else if p.1 < 18 then .checksum
  else .urgentPointer

theorem owner_of_mem {field : Field} {p : ℕ × Fin 8} (inside : p ∈ written field) :
    owner p = field := by
  obtain ⟨i, k⟩ := p
  cases field with
  | dataOffset =>
    have upper : i = 12 ∧ 4 ≤ k.val := inside
    grind [owner]
  | flagsRaw =>
    have lower : (i = 12 ∧ k.val = 0 ∨ i = 13) ∨ i = 12 ∧ 1 ≤ k.val ∧ k.val < 4 := inside
    grind [owner]
  | _ =>
    obtain ⟨lo, hi⟩ := inside
    grind [owner]

/-- Byte 12 is the only one that fields share, and there each has its own bits. -/
theorem written_disjoint {field other : Field} (different : field ≠ other) :
    Disjoint (written field) (written other) := by
  rw [Set.disjoint_left]
  intro p here there
  exact different ((owner_of_mem here).symm.trans (owner_of_mem there))

section Step

variable {setter : Setter} {view view' : PacketViewMut Tcp}

theorem lookBit_of_look {p : ℕ × Fin 8} (same : view'.look p.1 = view.look p.1) :
    lookBit view' p = lookBit view p := by
  rw [lookBit, same, lookBit]

/-- `set_flags` rewrites two bytes, and of the first keeps the upper half. -/
theorem look_of_setFlags {value : UInt16} (set : setFlags view value = .ok view') :
    ∃ old : UInt8, view.look 12 = some old ∧
      view'.look 12 = some ((old &&& (0xf0 : UInt8)) ||| ((value >>> 8).toUInt8 &&& 0x01)) ∧
      view'.look 13 = some value.toUInt8 ∧
      ∀ i, i ≠ 12 → i ≠ 13 → view'.look i = view.look i := by
  obtain ⟨old, read, set⟩ := bind_eq_ok.mp set
  obtain ⟨between, first, second⟩ := bind_eq_ok.mp set
  refine ⟨old, index_eq_ok_iff.mp read, ?_, ?_, ?_⟩
  · rw [PacketViewMut.look, PacketViewMut.assign_getElem? second, if_neg (by decide)]
    exact index_eq_ok_iff.mp (PacketViewMut.index_of_assign first)
  · exact index_eq_ok_iff.mp (PacketViewMut.index_of_assign second)
  · intro i notFirst notSecond
    rw [PacketViewMut.look, PacketViewMut.assign_getElem? second, if_neg notSecond,
      PacketViewMut.assign_getElem? first, if_neg notFirst, PacketViewMut.look]

/-- `set_data_offset` rewrites one byte and keeps its lower half. -/
theorem look_of_setDataOffset {value : UInt8} (set : setDataOffset view value = .ok view') :
    ∃ old : UInt8, view.look 12 = some old ∧
      view'.look 12 = some ((value <<< 4) ||| (old &&& (0x0f : UInt8))) ∧
      ∀ i, i ≠ 12 → view'.look i = view.look i := by
  obtain ⟨_, _, set⟩ := bind_eq_ok.mp set
  obtain ⟨old, read, set⟩ := bind_eq_ok.mp set
  refine ⟨old, index_eq_ok_iff.mp read,
    index_eq_ok_iff.mp (PacketViewMut.index_of_assign set), ?_⟩
  intro i elsewhere
  rw [PacketViewMut.look, PacketViewMut.assign_getElem? set, if_neg elsewhere,
    PacketViewMut.look]

/-- A setter that copies bytes in leaves the bits of all others alone. -/
theorem lookBit_of_copyFromSlice {lo hi : ℕ} {values : Bytes}
    (copied : view.copyFromSlice lo hi values = .ok view') {p : ℕ × Fin 8}
    (outside : p ∉ {p : ℕ × Fin 8 | p.1 ∈ Set.Ico lo hi}) : lookBit view' p = lookBit view p :=
  lookBit_of_look (PacketViewMut.look_of_copyFromSlice copied outside)

theorem lookBit_of_setFlags {value : UInt16} (set : setFlags view value = .ok view')
    {p : ℕ × Fin 8} (outside : p ∉ written .flagsRaw) : lookBit view' p = lookBit view p := by
  obtain ⟨old, before, after, _, others⟩ := look_of_setFlags set
  obtain ⟨i, k⟩ := p
  by_cases shared : i = 12
  · subst shared
    have upper : 4 ≤ k.val := by
      by_contra low
      by_cases lowest : k.val = 0
      · exact outside (.inl (.inl ⟨rfl, lowest⟩))
      · exact outside (.inr ⟨rfl, Nat.one_le_iff_ne_zero.mpr lowest, Nat.lt_of_not_le low⟩)
    have notLow : ¬ k.val = 0 := by omega
    rw [lookBit, after, lookBit, before]
    simp [bit_highMask, bit_one, upper, notLow]
  · refine lookBit_of_look (others i shared ?_)
    rintro rfl
    exact outside (.inl (.inr rfl))

theorem lookBit_of_setDataOffset {value : UInt8} (set : setDataOffset view value = .ok view')
    {p : ℕ × Fin 8} (outside : p ∉ written .dataOffset) : lookBit view' p = lookBit view p := by
  obtain ⟨old, before, after, others⟩ := look_of_setDataOffset set
  obtain ⟨i, k⟩ := p
  by_cases shared : i = 12
  · -- Outside the field, in byte 12, is the half that is kept.
    subst shared
    have lower : ¬ 4 ≤ k.val := fun upper => outside ⟨rfl, upper⟩
    have low : k.val < 4 := Nat.lt_of_not_le lower
    rw [lookBit, after, lookBit, before]
    simp [bit_lowMask, bit_shiftLeft_four, lower, low]
  · exact lookBit_of_look (others i shared)

end Step

/-- A setter changes only the bits it is said to write. -/
theorem frames : Frames Setter.apply lookBit (written ∘ Setter.field) := by
  intro setter view view' set p outside
  cases setter with
  | srcPort value => exact lookBit_of_copyFromSlice set outside
  | dstPort value => exact lookBit_of_copyFromSlice set outside
  | seqNumber value => exact lookBit_of_copyFromSlice set outside
  | ackNumber value => exact lookBit_of_copyFromSlice set outside
  | flags value => exact lookBit_of_setFlags set outside
  | dataOffset value => exact lookBit_of_setDataOffset set outside
  | windowSize value => exact lookBit_of_copyFromSlice set outside
  | checksum value => exact lookBit_of_copyFromSlice set outside
  | urgentPointer value => exact lookBit_of_copyFromSlice set outside
  | computeAndSetChecksumIpv4 src dst =>
    obtain ⟨cksum, _, set⟩ := bind_eq_ok.mp set
    exact lookBit_of_copyFromSlice set outside
  | computeAndSetChecksumIpv6 src dst =>
    obtain ⟨cksum, _, set⟩ := bind_eq_ok.mp set
    exact lookBit_of_copyFromSlice set outside

theorem puts_of_copyFromSlice {setter : Setter} {lo hi : ℕ} {values : Bytes}
    (writes : ∀ view view', setter.apply view = .ok view' →
      view.copyFromSlice lo hi values = .ok view')
    (within : written setter.field ⊆ {p | p.1 ∈ Set.Ico lo hi}) :
    Puts Setter.apply lookBit (written ∘ Setter.field) setter := by
  refine ⟨fun p => (values[p.1 - lo]?).map (bit · p.2), fun view view' set p inside => ?_⟩
  have here : lo ≤ p.1 ∧ p.1 < hi := within inside
  rw [lookBit, PacketViewMut.look,
    PacketViewMut.copyFromSlice_getElem? (writes view view' set) p.1, if_pos here]

/-- Of byte 12 `set_flags` writes the flag bit and zeros under it, whatever is there. -/
theorem puts_flags (value : UInt16) :
    Puts Setter.apply lookBit (written ∘ Setter.field) (.flags value) := by
  refine ⟨fun p => some (bit (if p.1 = 12 then (value >>> 8).toUInt8 &&& 0x01
    else value.toUInt8) p.2), ?_⟩
  rintro view view' set ⟨i, k⟩ inside
  obtain ⟨old, before, after, second, _⟩ := look_of_setFlags set
  by_cases shared : i = 12
  · subst shared
    -- Both the flag and the reserved bits are outside the half that is kept.
    have lower : ¬ 4 ≤ k.val := by
      rcases inside with (⟨_, lowest⟩ | other) | ⟨_, _, low⟩
      · have lowest : k.val = 0 := lowest
        omega
      · have other : 12 = 13 := other
        omega
      · exact Nat.not_le.mpr low
    rw [lookBit, after]
    simp [bit_highMask, lower]
  · have here : i = 13 := by
      rcases inside with (⟨other, _⟩ | here) | ⟨other, _⟩
      · exact absurd other shared
      · exact here
      · exact absurd other shared
    subst here
    rw [lookBit, second]
    rfl

theorem puts_dataOffset (value : UInt8) :
    Puts Setter.apply lookBit (written ∘ Setter.field) (.dataOffset value) := by
  refine ⟨fun p => some (bit (value <<< 4) p.2), ?_⟩
  rintro view view' set ⟨i, k⟩ ⟨here, upper⟩
  have here : i = 12 := here
  have upper : ¬ k.val < 4 := Nat.not_lt.mpr upper
  obtain ⟨old, before, after, _⟩ := look_of_setDataOffset set
  subst here
  rw [lookBit, after]
  simp [bit_lowMask, upper]

/-- A plain setter writes the same bits whatever the buffer. -/
theorem puts {setter : Setter} (plain : setter.Plain) :
    Puts Setter.apply lookBit (written ∘ Setter.field) setter := by
  cases setter with
  | srcPort value => exact puts_of_copyFromSlice (fun _ _ set => set) fun _ inside => inside
  | dstPort value => exact puts_of_copyFromSlice (fun _ _ set => set) fun _ inside => inside
  | seqNumber value => exact puts_of_copyFromSlice (fun _ _ set => set) fun _ inside => inside
  | ackNumber value => exact puts_of_copyFromSlice (fun _ _ set => set) fun _ inside => inside
  | flags value => exact puts_flags value
  | dataOffset value => exact puts_dataOffset value
  | windowSize value => exact puts_of_copyFromSlice (fun _ _ set => set) fun _ inside => inside
  | checksum value => exact puts_of_copyFromSlice (fun _ _ set => set) fun _ inside => inside
  | urgentPointer value =>
    exact puts_of_copyFromSlice (fun _ _ set => set) fun _ inside => inside
  | computeAndSetChecksumIpv4 src dst => exact absurd plain id
  | computeAndSetChecksumIpv6 src dst => exact absurd plain id

/-- A buffer is determined by its bits. -/
theorem view_ext {view view' : PacketViewMut Tcp} (same : ∀ p, lookBit view p = lookBit view' p) :
    view = view' := by
  apply PacketViewMut.ext
  apply List.ext_getElem?
  intro i
  have bitwise (k : Fin 8) : (view.look i).map (bit · k) = (view'.look i).map (bit · k) :=
    same (i, k)
  change view.look i = view'.look i
  -- Bit 0 alone tells whether the buffer reaches that far.
  cases here : view.look i with
  | none =>
    have ends := bitwise 0
    rw [here] at ends
    exact (Option.map_eq_none_iff.mp ends.symm).symm
  | some byte =>
    cases there : view'.look i with
    | none =>
      have ends := bitwise 0
      rw [here, there] at ends
      simp at ends
    | some byte' =>
      congr 1
      apply bit_ext
      intro k
      have agree := bitwise k
      rw [here, there] at agree
      exact Option.some.inj agree

/-! ## The reserved bits -/

section Reserved

variable {setter : Setter} {view view' : PacketViewMut Tcp}

/-- Setters of other fields than the flags write their own bits only. -/
theorem lookBit_of_not_flags (notFlags : ¬ ∃ value, setter = .flags value)
    (set : setter.apply view = .ok view') {p : ℕ × Fin 8} (outside : p ∉ bits setter.field) :
    lookBit view' p = lookBit view p := by
  refine frames setter view view' set p ?_
  cases setter with
  | flags value => exact absurd ⟨value, rfl⟩ notFlags
  | _ => exact outside

/-- `set_flags` clears the reserved bits. -/
theorem reserved_cleared {value : UInt16} (set : setFlags view value = .ok view') {k : Fin 8}
    (inside : (12, k) ∈ reserved) : lookBit view' (12, k) = some false := by
  obtain ⟨_, positive, low⟩ := inside
  have notUpper : ¬ 4 ≤ k.val := Nat.not_le.mpr low
  have notLowest : ¬ k.val = 0 := Nat.one_le_iff_ne_zero.mp positive
  obtain ⟨old, _, after, _⟩ := look_of_setFlags set
  rw [lookBit, after]
  simp [bit_highMask, bit_one, notUpper, notLowest]

/-- A setter leaves the bits outside its field alone exactly when it is not one that
sets the flags over reserved bits that are set. -/
theorem lookBit_unchanged_iff (set : setter.apply view = .ok view') :
    (∀ p, p ∉ bits setter.field → lookBit view' p = lookBit view p) ↔
      ¬ ((∃ value, setter = .flags value) ∧ byteAt view.bytes 12 &&& 0x0e ≠ 0) := by
  by_cases flags : ∃ value, setter = .flags value
  · -- The reserved bits come out clear, so they are unchanged if they were clear.
    obtain ⟨value, rfl⟩ := flags
    obtain ⟨old, before, _⟩ := look_of_setFlags set
    have byte : byteAt view.bytes 12 = old := byteAt_of_index (index_eq_ok_iff.mpr before)
    rw [byte, not_and_not_right]
    constructor
    · intro unchanged _
      apply bit_ext
      intro k
      rw [bit_and, bit_middleMask, bit_zero]
      by_cases inside : (12, k) ∈ reserved
      · have outside : (12, k) ∉ bits .flagsRaw := by
          rintro (⟨_, lowest⟩ | other)
          · exact absurd inside.2.1 (by rw [show k.val = 0 from lowest]; decide)
          · have other : 12 = 13 := other
            omega
        have same := unchanged (12, k) outside
        rw [reserved_cleared set inside, lookBit, before] at same
        have clear : false = bit old k := Option.some.inj same
        rw [← clear, Bool.false_and]
      · have elsewhere : ¬ (1 ≤ k.val ∧ k.val < 4) := fun inside' => inside ⟨rfl, inside'⟩
        rw [decide_eq_false elsewhere, Bool.and_false]
    · intro clear p outside
      by_cases inside : p ∈ reserved
      · -- A reserved bit is clear before and after.
        obtain ⟨i, k⟩ := p
        obtain rfl : i = 12 := inside.1
        have middle : 1 ≤ k.val ∧ k.val < 4 := inside.2
        have none := congrArg (bit · k) (clear ⟨value, rfl⟩)
        simp only [bit_and, bit_middleMask, middle, and_self, decide_true, Bool.and_true,
          bit_zero] at none
        rw [reserved_cleared set inside, lookBit, before, Option.map_some, none]
      · exact frames (.flags value) view view' set p fun written => written.elim outside inside
  · exact iff_of_true (fun p outside => lookBit_of_not_flags flags set outside)
      fun fails => flags fails.1

end Reserved

/-! ## Commuting setters -/

/-- A plain setter returns on every buffer of 20 bytes or trips its assertion on
every one. -/
theorem plain_returns_or_asserts {setter : Setter} (plain : setter.Plain) :
    (∀ view : PacketViewMut Tcp, 20 ≤ view.bytes.length → ∃ view', setter.apply view = .ok view') ∨
    (∀ view : PacketViewMut Tcp, setter.apply view = .error .assertion) := by
  cases setter with
  | srcPort value =>
    exact .inl fun view fixed => ⟨_, PacketViewMut.copyFromSlice_u16 (by omega) value⟩
  | dstPort value =>
    exact .inl fun view fixed => ⟨_, PacketViewMut.copyFromSlice_u16 (by omega) value⟩
  | seqNumber value =>
    exact .inl fun view fixed => ⟨_, PacketViewMut.copyFromSlice_eq_ok (by decide) (by omega) rfl⟩
  | ackNumber value =>
    exact .inl fun view fixed => ⟨_, PacketViewMut.copyFromSlice_eq_ok (by decide) (by omega) rfl⟩
  | flags value =>
    refine .inl fun view fixed => ?_
    have first : 12 < view.bytes.length := by omega
    simp only [Setter.apply, setFlags, index_byteAt first, ok_bind,
      PacketViewMut.assign_eq_ok first]
    exact ⟨_, PacketViewMut.assign_eq_ok (by rw [List.length_set]; omega) _⟩
  | dataOffset value =>
    by_cases enough : value ≥ 5
    · refine .inl fun view fixed => ?_
      have inside : 12 < view.bytes.length := by omega
      simp only [Setter.apply, setDataOffset, decide_eq_true enough, debugAssert_true,
        index_byteAt inside, ok_bind]
      exact ⟨_, PacketViewMut.assign_eq_ok inside _⟩
    · refine .inr fun view => ?_
      simp only [Setter.apply, setDataOffset, decide_eq_false enough]
      rfl
  | windowSize value =>
    exact .inl fun view fixed => ⟨_, PacketViewMut.copyFromSlice_u16 (by omega) value⟩
  | checksum value =>
    exact .inl fun view fixed => ⟨_, PacketViewMut.copyFromSlice_u16 (by omega) value⟩
  | urgentPointer value =>
    exact .inl fun view fixed => ⟨_, PacketViewMut.copyFromSlice_u16 (by omega) value⟩
  | computeAndSetChecksumIpv4 src dst => exact absurd plain id
  | computeAndSetChecksumIpv6 src dst => exact absurd plain id

/-- Plain setters of different fields commute on every buffer of 20 bytes. -/
theorem runOps_comm {first second : Setter} (plain : first.Plain) (plain' : second.Plain)
    (different : first.field ≠ second.field) {view : PacketViewMut Tcp}
    (fixed : 20 ≤ view.bytes.length) :
    runOps Setter.apply [first, second] view = runOps Setter.apply [second, first] view := by
  rw [runOps_pair, runOps_pair]
  rcases plain_returns_or_asserts plain with returns | asserts
  · obtain ⟨left, done⟩ := returns view fixed
    have fixed₁ : 20 ≤ left.bytes.length := (Setter.apply_length done).symm ▸ fixed
    rcases plain_returns_or_asserts plain' with returns' | asserts'
    · obtain ⟨right, done'⟩ := returns' view fixed
      have fixed₂ : 20 ≤ right.bytes.length := (Setter.apply_length done').symm ▸ fixed
      obtain ⟨out, last⟩ := returns' left fixed₁
      obtain ⟨out', last'⟩ := returns right fixed₂
      have same := frames.commute (fun _ _ => view_ext) (puts plain) (puts plain')
        (written_disjoint different) done last done' last'
      rw [done, ok_bind, last, done', ok_bind, last', same]
    · rw [done, ok_bind, asserts', asserts', error_bind]
  · -- The assertion trips whenever it is the first setter's turn.
    rw [asserts, error_bind]
    rcases plain_returns_or_asserts plain' with returns' | asserts'
    · obtain ⟨right, done'⟩ := returns' view fixed
      rw [done', ok_bind, asserts]
    · rw [asserts', error_bind]

/-- TCP setters change only their own field, except that setting the flags clears
reserved bits that are set. Plain setters of different fields commute in any case. -/
theorem setters_frame_iff {bytes : Bytes} {view : PacketViewMut Tcp}
    (accepted : PacketViewMut.new Tcp bytes = .ok (.ok view)) :
    (∀ (setter : Setter) view', setter.apply view = .ok view' →
      ((∀ p, p ∉ bits setter.field → lookBit view' p = lookBit view p) ↔
        ¬ ((∃ value, setter = .flags value) ∧ byteAt bytes 12 &&& 0x0e ≠ 0))) ∧
    (∀ first second : Setter, first.Plain → second.Plain → first.field ≠ second.field →
      runOps Setter.apply [first, second] view = runOps Setter.apply [second, first] view) := by
  obtain ⟨valid, rfl⟩ := PacketViewMut.new_eq_ok_iff.mp accepted
  have wellFormed : WellFormed bytes := validate_eq_ok_iff.mp valid
  exact ⟨fun _ _ set => lookBit_unchanged_iff set,
    fun _ _ plain plain' different => runOps_comm plain plain' different wellFormed.fixed⟩

/-- The flags of a header without reserved bits are set and nothing else; with one of these
bits it is lost. The data offset can be set before or after. -/
theorem setters_frame_iff_bareHeader :
    (∀ view', Setter.apply (.flags 0x12) ⟨bareHeader 0x50⟩ = .ok view' →
      ∀ p, p ∉ bits .flagsRaw → lookBit view' p = lookBit ⟨bareHeader 0x50⟩ p) ∧
    (∀ view', Setter.apply (.flags 0x12) ⟨bareHeader 0x52⟩ = .ok view' →
      ¬ ∀ p, p ∉ bits .flagsRaw → lookBit view' p = lookBit ⟨bareHeader 0x52⟩ p) ∧
    runOps Setter.apply [.flags 0x12, .dataOffset 5] ⟨bareHeader 0x52⟩ =
      runOps Setter.apply [.dataOffset 5, .flags 0x12] ⟨bareHeader 0x52⟩ := by
  have clear : PacketViewMut.new Tcp (bareHeader 0x50) = .ok (.ok ⟨bareHeader 0x50⟩) := by decide
  have reserved : PacketViewMut.new Tcp (bareHeader 0x52) = .ok (.ok ⟨bareHeader 0x52⟩) := by
    decide
  refine ⟨fun view' set => ?_, fun view' set kept => ?_,
    (setters_frame_iff reserved).2 _ _ trivial trivial (by decide)⟩
  · exact ((setters_frame_iff clear).1 (.flags 0x12) view' set).mpr
      fun lost => absurd lost.2 (by decide)
  · exact ((setters_frame_iff reserved).1 (.flags 0x12) view' set).mp kept
      ⟨⟨0x12, rfl⟩, by decide⟩

/-- Setting the flags of a segment with a reserved bit clears that bit. -/
theorem setFlags_clears_reserved :
    PacketViewMut.new Tcp (bareHeader 0x52) = .ok (.ok ⟨bareHeader 0x52⟩) ∧
    setFlags ⟨bareHeader 0x52⟩ 0 = .ok ⟨bareHeader 0x50⟩ ∧
    ¬ ∀ p, p ∉ bits .flagsRaw →
      lookBit ⟨bareHeader 0x50⟩ p = lookBit ⟨bareHeader 0x52⟩ p := by
  refine ⟨by decide, by decide, ?_⟩
  intro unchanged
  have outside : (12, 1) ∉ bits .flagsRaw := by simp [bits]
  exact absurd (unchanged (12, 1) outside) (by decide)

end Packet.Tcp

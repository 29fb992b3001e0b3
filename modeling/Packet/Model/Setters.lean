/-
# Typed setters of a mutable view

A mutable view offers setters, each on one field of the header, and the getters
of the packet trait. What a single setter does is a short list of laws. What any
run of them does follows from these alone: the view stays valid and readable,
every field reads back what was last written to it, and nothing else changes.
-/

import Packet.Model.View
import Packet.Rust.Footprint
import Mathlib.Order.Interval.Set.Basic

namespace Packet

open Rust

/-- The byte at a position of a view, if the buffer reaches that far. -/
def PacketViewMut.look {P : Type} (view : PacketViewMut P) (i : ℕ) : Option UInt8 :=
  view.bytes[i]?

section Write

variable {P : Type} {view view' : PacketViewMut P} {lo hi i : ℕ} {values : Bytes}

theorem PacketViewMut.byteAt_of_look (same : view'.look i = view.look i) :
    byteAt view'.bytes i = byteAt view.bytes i := by
  have same : view'.bytes[i]? = view.bytes[i]? := same
  rw [byteAt, List.getD_eq_getElem?_getD, same, ← List.getD_eq_getElem?_getD, byteAt]

theorem PacketViewMut.look_of_assign {value : UInt8} (written : view.assign lo value = .ok view')
    (outside : i ∉ Set.Ico lo (lo + 1)) : view'.look i = view.look i := by
  refine (PacketViewMut.assign_getElem? written i).trans (if_neg ?_)
  rintro rfl
  exact outside ⟨Nat.le_refl i, Nat.lt_succ_self i⟩

theorem PacketViewMut.look_of_copyFromSlice
    (written : view.copyFromSlice lo hi values = .ok view') (outside : i ∉ Set.Ico lo hi) :
    view'.look i = view.look i :=
  (PacketViewMut.copyFromSlice_getElem? written i).trans (if_neg outside)

theorem PacketViewMut.byteAt_of_copyFromSlice
    (written : view.copyFromSlice lo hi values = .ok view') (outside : i < lo ∨ hi ≤ i) :
    byteAt view'.bytes i = byteAt view.bytes i := by
  refine PacketViewMut.byteAt_of_look (PacketViewMut.look_of_copyFromSlice written ?_)
  rintro ⟨lower, upper⟩
  omega

theorem PacketViewMut.wordAt_of_copyFromSlice
    (written : view.copyFromSlice lo hi values = .ok view') (outside : i + 1 < lo ∨ hi ≤ i) :
    wordAt view'.bytes i = wordAt view.bytes i := by
  rw [wordAt, PacketViewMut.byteAt_of_copyFromSlice written (by omega),
    PacketViewMut.byteAt_of_copyFromSlice written (by omega), wordAt]

/-- A byte assigned reads back. -/
theorem PacketViewMut.index_of_assign {value : UInt8} (written : view.assign i value = .ok view') :
    index view'.bytes i = .ok value :=
  index_eq_ok_iff.mpr ((PacketViewMut.assign_getElem? written i).trans (if_pos rfl))

/-- Bytes copied in read back one by one. -/
theorem PacketViewMut.index_of_copyFromSlice
    (written : view.copyFromSlice lo hi values = .ok view') {value : UInt8}
    (inside : lo + i < hi) (stored : values[i]? = some value) :
    index view'.bytes (lo + i) = .ok value := by
  rw [index_eq_ok_iff, PacketViewMut.copyFromSlice_getElem? written,
    if_pos ⟨Nat.le_add_right lo i, inside⟩, Nat.add_sub_cancel_left, stored]

/-- A word copied in reads back. -/
theorem PacketViewMut.readU16_of_copyFromSlice {value : UInt16}
    (written : view.copyFromSlice lo (lo + 2) (u16ToBeBytes value) = .ok view') :
    readU16 view'.bytes lo = .ok value := by
  have high : index view'.bytes lo = .ok ((u16ToBeBytes value).getD 0 0) :=
    PacketViewMut.index_of_copyFromSlice (i := 0) written (Nat.lt_add_of_pos_right (by decide)) rfl
  have low : index view'.bytes (lo + 1) = .ok ((u16ToBeBytes value).getD 1 0) :=
    PacketViewMut.index_of_copyFromSlice written (Nat.lt_succ_self (lo + 1)) rfl
  rw [readU16, high, low, ok_bind, ok_bind, u16FromBeBytes_toBeBytes]
  rfl

/-- Bytes copied in read back as a range. -/
theorem PacketViewMut.range_of_copyFromSlice
    (written : view.copyFromSlice lo hi values = .ok view') :
    range view'.bytes lo hi = .ok values := by
  obtain ⟨bytes, copied, same⟩ := bind_eq_ok.mp written
  obtain rfl := Except.ok.inj same
  exact Rust.range_of_copyFromSlice copied

end Write

/-- Setters that keep the length keep it over a run. -/
theorem length_of_runOps {P ω : Type} {apply : ω → PacketViewMut P → Exec (PacketViewMut P)}
    (keeps : ∀ setter view view', apply setter view = .ok view' →
      view'.bytes.length = view.bytes.length)
    {setters : List ω} {view view' : PacketViewMut P}
    (run : runOps apply setters view = .ok view') : view'.bytes.length = view.bytes.length :=
  runOps_preserves (fun v => v.bytes.length = view.bytes.length)
    (fun setter v v' applied same => (keeps setter v v' applied).trans same) setters run rfl

section Puts

variable {P ω : Type} {apply : ω → PacketViewMut P → Exec (PacketViewMut P)}
  {footprint : ω → Set ℕ} {op : ω}

/-- An operation that assigns a byte puts it there. -/
theorem puts_of_assign {value : UInt8} {lo : ℕ}
    (writes : ∀ view view', apply op view = .ok view' → view.assign lo value = .ok view')
    (within : footprint op ⊆ Set.Ico lo (lo + 1)) :
    Puts apply PacketViewMut.look footprint op := by
  refine ⟨fun _ => some value, fun view view' written i inside => ?_⟩
  obtain ⟨lower, upper⟩ := within inside
  exact (PacketViewMut.assign_getElem? (writes view view' written) i).trans
    (if_pos (Nat.le_antisymm (Nat.le_of_lt_succ upper) lower))

/-- An operation that copies bytes in puts them there. -/
theorem puts_of_copyFromSlice {values : Bytes} {lo hi : ℕ}
    (writes : ∀ view view', apply op view = .ok view' →
      view.copyFromSlice lo hi values = .ok view')
    (within : footprint op ⊆ Set.Ico lo hi) : Puts apply PacketViewMut.look footprint op := by
  refine ⟨fun i => values[i - lo]?, fun view view' written i inside => ?_⟩
  exact (PacketViewMut.copyFromSlice_getElem? (writes view view' written) i).trans
    (if_pos (within inside))

end Puts

/-- The typed setters of a protocol's mutable view. A setter is on a field, which
extends from one position of the header to another, and stores a value that may
depend on the bytes it finds. The plain setters store their argument. -/
structure TypedSetters (P : Type) where
  Setter : Type
  apply : Setter → PacketViewMut P → Exec (PacketViewMut P)
  Field : Type
  Value : Field → Type
  get : (field : Field) → Bytes → Exec (Value field)
  extent : Field → ℕ × ℕ
  field : Setter → Field
  value : (setter : Setter) → Bytes → Exec (Value (field setter))
  Plain : Setter → Prop

namespace TypedSetters

/-- The positions of a field. -/
def span {P : Type} (typed : TypedSetters P) (field : typed.Field) : Set ℕ :=
  Set.Ico (typed.extent field).1 (typed.extent field).2

variable {P : Type} [PacketSpec P] [PacketTrait P]

/-- What one setter does to an accepted buffer. -/
structure Lawful (typed : TypedSetters P) : Prop where
  readable : ∀ bytes, PacketSpec.validate P bytes = .ok (.ok ()) → Readable P bytes
  returns : ∀ setter (view : PacketViewMut P), PacketSpec.validate P view.bytes = .ok (.ok ()) →
    ∃ view', typed.apply setter view = .ok view' ∧
      PacketSpec.validate P view'.bytes = .ok (.ok ())
  length : ∀ setter view view', typed.apply setter view = .ok view' →
    view'.bytes.length = view.bytes.length
  stores : ∀ setter view view', PacketSpec.validate P view.bytes = .ok (.ok ()) →
    typed.apply setter view = .ok view' →
    typed.get (typed.field setter) view'.bytes = typed.value setter view.bytes
  frames : Frames typed.apply PacketViewMut.look (typed.span ∘ typed.field)
  reads : ∀ field (bytes bytes' : Bytes),
    (∀ i, (typed.extent field).1 ≤ i ∧ i < (typed.extent field).2 → bytes'[i]? = bytes[i]?) →
    typed.get field bytes' = typed.get field bytes
  apart : ∀ setter field, typed.field setter ≠ field →
    (typed.extent (typed.field setter)).2 ≤ (typed.extent field).1 ∨
      (typed.extent field).2 ≤ (typed.extent (typed.field setter)).1
  puts : ∀ setter, typed.Plain setter →
    Puts typed.apply PacketViewMut.look (typed.span ∘ typed.field) setter

/-- What a run of setters leaves of a view. -/
structure Kept (typed : TypedSetters P) (view : PacketViewMut P) (setters : List typed.Setter)
    (out : PacketViewMut P) : Prop where
  length : out.bytes.length = view.bytes.length
  valid : PacketSpec.validate P out.bytes = .ok (.ok ())
  readable : Readable P out.bytes
  untouched : ∀ field, (∀ setter ∈ setters, typed.field setter ≠ field) →
    typed.get field out.bytes = typed.get field view.bytes
  written : ∀ before setter after, setters = before ++ setter :: after →
    (∀ later ∈ after, typed.field later ≠ typed.field setter) →
    ∃ mid, runOps typed.apply before view = .ok mid ∧
      typed.get (typed.field setter) out.bytes = typed.value setter mid.bytes
  outside : ∀ i, (∀ setter ∈ setters, i ∉ typed.span (typed.field setter)) →
    out.bytes[i]? = view.bytes[i]?

/-- Every run of setters returns and keeps the view, and plain setters of different
fields commute. -/
structure KeepsView (typed : TypedSetters P) (view : PacketViewMut P) : Prop where
  runs : ∀ setters, ∃ out, runOps typed.apply setters view = .ok out ∧ Kept typed view setters out
  commute : ∀ first second, typed.Plain first → typed.Plain second →
    typed.field first ≠ typed.field second →
    ∃ out, runOps typed.apply [first, second] view = .ok out ∧
      runOps typed.apply [second, first] view = .ok out

namespace Lawful

variable {typed : TypedSetters P} {view : PacketViewMut P}

theorem readsOnly (laws : Lawful typed) :
    ReadsOnly (fun field (view : PacketViewMut P) => typed.get field view.bytes)
      PacketViewMut.look typed.span :=
  fun field s s' same =>
    laws.reads field s.bytes s'.bytes same

theorem disjoint (laws : Lawful typed) {setter : typed.Setter} {field : typed.Field}
    (different : typed.field setter ≠ field) :
    Disjoint (typed.span (typed.field setter)) (typed.span field) := by
  rw [Set.disjoint_left]
  rintro i ⟨lower, upper⟩ ⟨lower', upper'⟩
  rcases laws.apart setter field different with before | behind
  · exact absurd (Nat.lt_of_lt_of_le upper before) (Nat.not_lt.mpr lower')
  · exact absurd (Nat.lt_of_lt_of_le upper' behind) (Nat.not_lt.mpr lower)

theorem runs_valid (laws : Lawful typed) (setters : List typed.Setter)
    (valid : PacketSpec.validate P view.bytes = .ok (.ok ())) :
    ∃ out, runOps typed.apply setters view = .ok out ∧
      PacketSpec.validate P out.bytes = .ok (.ok ()) :=
  runOps_returns (fun state : PacketViewMut P => PacketSpec.validate P state.bytes = .ok (.ok ()))
    laws.returns setters valid

theorem kept (laws : Lawful typed) {setters : List typed.Setter} {out : PacketViewMut P}
    (valid : PacketSpec.validate P view.bytes = .ok (.ok ()))
    (run : runOps typed.apply setters view = .ok out)
    (valid' : PacketSpec.validate P out.bytes = .ok (.ok ())) :
    Kept typed view setters out where
  length := length_of_runOps laws.length run
  valid := valid'
  readable := laws.readable out.bytes valid'
  untouched := by
    intro field others
    exact laws.frames.get_run laws.readsOnly
      (fun setter mem => laws.disjoint (others setter mem)) run
  written := by
    rintro before setter after rfl last
    obtain ⟨mid, next, reached, written, read⟩ := laws.frames.get_run_last laws.readsOnly
      (fun later mem => laws.disjoint (last later mem)) run
    -- The setter found the valid bytes that the run up to it had left.
    obtain ⟨_, reached', validMid⟩ := laws.runs_valid before valid
    obtain rfl := Except.ok.inj (reached.symm.trans reached')
    exact ⟨mid, reached, read.trans (laws.stores setter mid next validMid written)⟩
  outside := fun _ apart => laws.frames.run run apart

/-- Setters of different fields that store contents of their own commute. -/
theorem commute (laws : Lawful typed) (valid : PacketSpec.validate P view.bytes = .ok (.ok ()))
    {first second : typed.Setter} (plain : typed.Plain first) (plain' : typed.Plain second)
    (different : typed.field first ≠ typed.field second) :
    ∃ out, runOps typed.apply [first, second] view = .ok out ∧
      runOps typed.apply [second, first] view = .ok out := by
  obtain ⟨left, written, validLeft⟩ := laws.returns first view valid
  obtain ⟨out, done, _⟩ := laws.returns second left validLeft
  obtain ⟨right, written', validRight⟩ := laws.returns second view valid
  obtain ⟨out', done', _⟩ := laws.returns first right validRight
  have extensional (s t : PacketViewMut P) (same : ∀ i, s.look i = t.look i) : s = t :=
    PacketViewMut.ext (List.ext_getElem? same)
  -- Both orders return, and what they leave looks the same everywhere.
  obtain rfl := laws.frames.commute extensional (laws.puts first plain) (laws.puts second plain')
    (laws.disjoint different) written done written' done'
  refine ⟨out, ?_, ?_⟩
  · rw [runOps_pair, written, ok_bind, done]
  · rw [runOps_pair, written', ok_bind, done']

/-- Lawful setters keep every accepted view. -/
theorem keepsView (laws : Lawful typed)
    (valid : PacketSpec.validate P view.bytes = .ok (.ok ())) : KeepsView typed view where
  runs := by
    intro setters
    obtain ⟨out, run, valid'⟩ := laws.runs_valid setters valid
    exact ⟨out, run, laws.kept valid run valid'⟩
  commute := fun _ _ => laws.commute valid

end Lawful

end TypedSetters

end Packet

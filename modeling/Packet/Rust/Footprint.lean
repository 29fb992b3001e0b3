/-
# What an operation may touch

A state is looked at position by position. The footprint of an operation is a
set of positions it may change. A run changes nothing outside the footprints of
its operations. Two operations that write contents of their own commute when
their footprints are disjoint.

A field is something read from the state at positions of its own only. After a
run it reads as it did before the first operation on it, or as the last one left
it.
-/

import Packet.Rust.Loop
import Mathlib.Data.Set.Lattice
import Mathlib.Order.CompletePartialOrder

namespace Packet.Rust

variable {σ ω ι β φ : Type}

/-- Operations leave the positions outside their footprints as they were. -/
def Frames (apply : ω → σ → Exec σ) (look : σ → ι → β) (footprint : ω → Set ι) : Prop :=
  ∀ op s s', apply op s = .ok s' → ∀ i, i ∉ footprint op → look s' i = look s i

/-- The operation writes the same contents all over its footprint whatever the
state. -/
def Puts (apply : ω → σ → Exec σ) (look : σ → ι → β) (footprint : ω → Set ι) (op : ω) : Prop :=
  ∃ contents : ι → β, ∀ s s', apply op s = .ok s' → ∀ i ∈ footprint op, look s' i = contents i

/-- A field is read at the positions of its span only. -/
def ReadsOnly {Value : φ → Type} (get : (f : φ) → σ → Exec (Value f)) (look : σ → ι → β)
    (span : φ → Set ι) : Prop :=
  ∀ f s s', (∀ i ∈ span f, look s' i = look s i) → get f s' = get f s

section Run

variable {apply : ω → σ → Exec σ} {look : σ → ι → β} {footprint : ω → Set ι}

/-- A run leaves the positions outside every footprint as they were. -/
theorem Frames.run (frames : Frames apply look footprint) {ops : List ω} {s s' : σ}
    (run : runOps apply ops s = .ok s') {i : ι} (outside : ∀ op ∈ ops, i ∉ footprint op) :
    look s' i = look s i := by
  induction ops generalizing s with
  | nil =>
    obtain rfl := Except.ok.inj run
    rfl
  | cons op ops ih =>
    obtain ⟨next, applied, rest⟩ := bind_eq_ok.mp run
    calc look s' i = look next i := ih rest fun later mem => outside later (.tail op mem)
      _ = look s i := frames op s next applied i (outside op (.head ops))

/-- Two operations with disjoint footprints, run in either order, end in the same
state. -/
theorem Frames.commute (frames : Frames apply look footprint)
    (extensional : ∀ s t, (∀ i, look s i = look t i) → s = t) {a b : ω}
    (putsA : Puts apply look footprint a) (putsB : Puts apply look footprint b)
    (disjoint : Disjoint (footprint a) (footprint b)) {s sa sb t t' : σ}
    (first : apply a s = .ok sa) (second : apply b sa = .ok t)
    (first' : apply b s = .ok sb) (second' : apply a sb = .ok t') : t = t' := by
  obtain ⟨contentsA, putsA⟩ := putsA
  obtain ⟨contentsB, putsB⟩ := putsB
  apply extensional
  intro i
  by_cases ina : i ∈ footprint a
  · -- Where `a` writes, `b` does not, and `a` puts the same there in either order.
    have notb : i ∉ footprint b := Set.disjoint_left.mp disjoint ina
    calc look t i = look sa i := frames b sa t second i notb
      _ = contentsA i := putsA s sa first i ina
      _ = look t' i := (putsA sb t' second' i ina).symm
  · by_cases inb : i ∈ footprint b
    · -- The same for `b`.
      calc look t i = contentsB i := putsB sa t second i inb
        _ = look sb i := (putsB s sb first' i inb).symm
        _ = look t' i := (frames a sb t' second' i ina).symm
    · -- Elsewhere neither of them writes.
      calc look t i = look sa i := frames b sa t second i inb
        _ = look s i := frames a s sa first i ina
        _ = look sb i := (frames b s sb first' i inb).symm
        _ = look t' i := (frames a sb t' second' i ina).symm

end Run

section Fields

variable {apply : ω → σ → Exec σ} {look : σ → ι → β} {span : φ → Set ι} {field : ω → φ}
  {Value : φ → Type} {get : (f : φ) → σ → Exec (Value f)}

/-- A field no operation of the run is on reads as it did. -/
theorem Frames.get_run (frames : Frames apply look (span ∘ field))
    (reads : ReadsOnly get look span) {f : φ} {ops : List ω}
    (apart : ∀ op ∈ ops, Disjoint (span (field op)) (span f)) {s s' : σ}
    (run : runOps apply ops s = .ok s') : get f s' = get f s := by
  apply reads
  intro i inside
  exact frames.run run fun op mem => Set.disjoint_right.mp (apart op mem) inside

/-- A field reads as the last operation on it left it. -/
theorem Frames.get_run_last (frames : Frames apply look (span ∘ field))
    (reads : ReadsOnly get look span) {before after : List ω} {op : ω}
    (apart : ∀ later ∈ after, Disjoint (span (field later)) (span (field op))) {s s' : σ}
    (run : runOps apply (before ++ op :: after) s = .ok s') :
    ∃ mid written, runOps apply before s = .ok mid ∧ apply op mid = .ok written ∧
      get (field op) s' = get (field op) written := by
  obtain ⟨mid, reached, rest⟩ := runOps_split run
  obtain ⟨written, applied, rest⟩ := bind_eq_ok.mp rest
  exact ⟨mid, written, reached, applied, frames.get_run reads apart rest⟩

end Fields

end Packet.Rust

/-
# Sequence numbers are ordered inside a window

Comparison by distance is no order on the whole circle: it runs around. Inside a
window, the half of the circle that starts at some base, it is the order of the
distances from the base. Where the numbers wrap does not matter, because only
differences are compared. Half the circle apart, two numbers are not in one window
and no comparison holds between them.
-/

import Packet.Model.Seq

namespace Packet.Seq

/-- A sequence number in the half of the circle that starts at a base. -/
structure Window (base : UInt32) where
  number : UInt32
  within : (wrappingDistance base number).toNat < 2 ^ 31

namespace Window

variable {base : UInt32}

/-- How far into the window a number is. -/
def offset (x : Window base) : ℕ := (wrappingDistance base x.number).toNat

theorem offset_injective : Function.Injective (@offset base) := by
  rintro ⟨a, _⟩ ⟨b, _⟩ same
  obtain rfl : a = b := wrappingDistance_inj.mp (UInt32.toNat_inj.mp same)
  rfl

/-- Numbers in a window are ordered by how far into it they are. -/
instance : LinearOrder (Window base) := LinearOrder.lift' offset offset_injective

theorem le_iff {x y : Window base} : x ≤ y ↔ x.offset ≤ y.offset := Iff.rfl

theorem number_inj {x y : Window base} : x.number = y.number ↔ x = y := by
  constructor
  · intro same
    apply offset_injective
    rw [offset, same, offset]
  · rintro rfl
    rfl

/-- One number is after or equal to another when it is as far into the window. The
other way round the distance passes through the half outside the window. -/
theorem wrappingAfterOrEq_iff (x y : Window base) :
    wrappingAfterOrEq x.number y.number = true ↔ y ≤ x := by
  have hx : x.offset < 2 ^ 31 := x.within
  have hy : y.offset < 2 ^ 31 := y.within
  rw [Seq.wrappingAfterOrEq_iff, wrappingDistance_toNat base, le_iff]
  -- Both offsets are below half the circle, so their difference wraps at most once.
  change (2 ^ 32 - y.offset + x.offset) % 2 ^ 32 < 2 ^ 31 ↔ y.offset ≤ x.offset
  omega

theorem wrappingAfter_iff (x y : Window base) :
    wrappingAfter x.number y.number = true ↔ y < x := by
  rw [Seq.wrappingAfter_iff, wrappingAfterOrEq_iff, ne_eq, number_inj, lt_iff_le_and_ne, and_comm,
    ne_comm]

end Window

/-- The comparisons are one linear order on these numbers: each is the converse of
one and the negation of another, and they are total, antisymmetric and transitive. -/
structure OrderedOn (numbers : UInt32 → Prop) : Prop where
  converse : ∀ {x y}, numbers x → numbers y →
    (wrappingBefore x y ↔ wrappingAfter y x) ∧ (wrappingBeforeOrEq x y ↔ wrappingAfterOrEq y x)
  negation : ∀ {x y}, numbers x → numbers y →
    (wrappingAfter x y ↔ ¬ wrappingBeforeOrEq x y) ∧
      (wrappingBefore x y ↔ ¬ wrappingAfterOrEq x y)
  strict : ∀ {x y}, numbers x → numbers y →
    (wrappingAfterOrEq x y ↔ wrappingAfter x y ∨ x = y) ∧
      (wrappingBeforeOrEq x y ↔ wrappingBefore x y ∨ x = y)
  total : ∀ {x y}, numbers x → numbers y → wrappingAfterOrEq x y ∨ wrappingBeforeOrEq x y
  antisymm : ∀ {x y}, numbers x → numbers y → wrappingAfterOrEq x y → wrappingBeforeOrEq x y →
    x = y
  trans : ∀ {x y z}, numbers x → numbers y → numbers z →
    wrappingAfterOrEq x y → wrappingAfterOrEq y z → wrappingAfterOrEq x z
  strictTrans : ∀ {x y z}, numbers x → numbers y → numbers z →
    wrappingAfter x y → wrappingAfter y z → wrappingAfter x z

/-- The order of the window, read off the numbers in it. -/
theorem orderedOn_window (base : UInt32) :
    OrderedOn fun x => (wrappingDistance base x).toNat < 2 ^ 31 := by
  have orEq {x y : UInt32} (hx : (wrappingDistance base x).toNat < 2 ^ 31)
      (hy : (wrappingDistance base y).toNat < 2 ^ 31) :
      wrappingAfterOrEq x y = true ↔ (⟨y, hy⟩ : Window base) ≤ ⟨x, hx⟩ :=
    Window.wrappingAfterOrEq_iff ⟨x, hx⟩ ⟨y, hy⟩
  have after {x y : UInt32} (hx : (wrappingDistance base x).toNat < 2 ^ 31)
      (hy : (wrappingDistance base y).toNat < 2 ^ 31) :
      wrappingAfter x y = true ↔ (⟨y, hy⟩ : Window base) < ⟨x, hx⟩ :=
    Window.wrappingAfter_iff ⟨x, hx⟩ ⟨y, hy⟩
  have equal {x y : UInt32} (hx : (wrappingDistance base x).toNat < 2 ^ 31)
      (hy : (wrappingDistance base y).toNat < 2 ^ 31) :
      x = y ↔ (⟨x, hx⟩ : Window base) = ⟨y, hy⟩ := Window.number_inj (x := ⟨x, hx⟩) (y := ⟨y, hy⟩)
  exact {
    converse := fun _ _ => ⟨Iff.rfl, Iff.rfl⟩
    negation := by
      intro x y hx hy
      rw [wrappingBeforeOrEq, wrappingBefore, orEq hx hy, orEq hy hx, after hx hy, after hy hx]
      exact ⟨not_le.symm, not_le.symm⟩
    strict := by
      intro x y hx hy
      rw [wrappingBeforeOrEq, wrappingBefore, orEq hx hy, orEq hy hx, after hx hy, after hy hx,
        equal hx hy]
      -- Here the equation stands the other way round.
      refine ⟨?_, le_iff_lt_or_eq⟩
      rw [le_iff_lt_or_eq, eq_comm]
    total := by
      intro x y hx hy
      rw [wrappingBeforeOrEq, orEq hx hy, orEq hy hx]
      exact le_total _ _
    antisymm := by
      intro x y hx hy afterOrEq beforeOrEq
      rw [equal hx hy]
      exact le_antisymm ((orEq hy hx).mp beforeOrEq) ((orEq hx hy).mp afterOrEq)
    trans := by
      intro x y z hx hy hz first second
      exact (orEq hx hz).mpr (le_trans ((orEq hy hz).mp second) ((orEq hx hy).mp first))
    strictTrans := by
      intro x y z hx hy hz first second
      exact (after hx hz).mpr (lt_trans ((after hy hz).mp second) ((after hx hy).mp first)) }

/-- In every window the comparisons are those of the distances from its base, and so
a linear order; half the circle apart none of them holds. -/
theorem wrapping_window (base : UInt32) :
    (∀ x y, (wrappingDistance base x).toNat < 2 ^ 31 →
      (wrappingDistance base y).toNat < 2 ^ 31 →
      (wrappingAfter x y ↔
        (wrappingDistance base x).toNat > (wrappingDistance base y).toNat) ∧
      (wrappingAfterOrEq x y ↔
        (wrappingDistance base x).toNat ≥ (wrappingDistance base y).toNat) ∧
      (wrappingBefore x y ↔
        (wrappingDistance base x).toNat < (wrappingDistance base y).toNat) ∧
      (wrappingBeforeOrEq x y ↔
        (wrappingDistance base x).toNat ≤ (wrappingDistance base y).toNat)) ∧
    (OrderedOn fun x => (wrappingDistance base x).toNat < 2 ^ 31) ∧
    (∀ x y, (wrappingDistance x y).toNat = 2 ^ 31 →
      ¬ wrappingAfter x y ∧ ¬ wrappingAfterOrEq x y ∧ ¬ wrappingBefore x y ∧
        ¬ wrappingBeforeOrEq x y) := by
  refine ⟨?_, orderedOn_window base, ?_⟩
  · intro x y hx hy
    let first : Window base := ⟨x, hx⟩
    let second : Window base := ⟨y, hy⟩
    exact ⟨first.wrappingAfter_iff second, first.wrappingAfterOrEq_iff second,
      second.wrappingAfter_iff first, second.wrappingAfterOrEq_iff first⟩
  · intro x y half
    -- At half the circle `AfterOrEq` fails either way, and with it the other three.
    have apart {a b : UInt32} (half : (wrappingDistance b a).toNat = 2 ^ 31) :
        ¬ wrappingAfterOrEq a b = true := by
      rw [wrappingAfterOrEq_iff, half]
      exact lt_irrefl _
    have forth := apart half
    have back := apart (wrappingDistance_half half)
    exact ⟨fun after => back (wrappingAfter_iff.mp after).2, back,
      fun before => forth (wrappingAfter_iff.mp before).2, forth⟩

/-- Across the wrap point: 500 is 596 after 4294967200. -/
theorem wrapping_window_wrapPoint :
    wrappingAfter 500 4294967200 ↔
      (wrappingDistance 4294967200 500).toNat >
        (wrappingDistance 4294967200 4294967200).toNat :=
  ((wrapping_window 4294967200).1 500 4294967200 (by decide) (by decide)).1

end Packet.Seq

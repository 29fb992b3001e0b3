/-
# Sequence numbers

TCP sequence numbers count modulo 2 ^ 32. One is after another when the distance
forward from the other to it is short of half the circle.
-/

import Mathlib.Algebra.Order.Ring.Nat

namespace Packet.Seq

/-- `a` is after `b` when it is not `b` and ahead of it by less than half the circle. -/
def wrappingAfter (a b : UInt32) : Bool := a != b && a - b < 0x80000000

/-- `a` is before `b` when `b` is after `a`. -/
def wrappingBefore (a b : UInt32) : Bool := wrappingAfter b a

/-- A number counts as after itself here. -/
def wrappingAfterOrEq (a b : UInt32) : Bool := a - b < 0x80000000

/-- The same, the other way round. -/
def wrappingBeforeOrEq (a b : UInt32) : Bool := wrappingAfterOrEq b a

/-- The way forward from `start` to `end_`. -/
def wrappingDistance (start end_ : UInt32) : UInt32 := end_ - start

section Distance

variable {a b base : UInt32}

theorem wrappingAfterOrEq_iff :
    wrappingAfterOrEq a b = true ↔ (wrappingDistance b a).toNat < 2 ^ 31 := by
  rw [wrappingAfterOrEq, decide_eq_true_iff, UInt32.lt_iff_toNat_lt, wrappingDistance]
  rfl

theorem wrappingAfter_iff : wrappingAfter a b = true ↔ a ≠ b ∧ wrappingAfterOrEq a b = true := by
  rw [wrappingAfter, Bool.and_eq_true, bne_iff_ne, wrappingAfterOrEq]

/-- No other number is at the same distance. -/
theorem wrappingDistance_inj : wrappingDistance base a = wrappingDistance base b ↔ a = b := by
  constructor
  · intro same
    have restored := congrArg (· + base) same
    simpa only [wrappingDistance, UInt32.sub_add_cancel] using restored
  · rintro rfl
    rfl

/-- The distance between two numbers is the difference of their distances from a
third, around the circle. -/
theorem wrappingDistance_toNat (base a b : UInt32) :
    (wrappingDistance b a).toNat =
      (2 ^ 32 - (wrappingDistance base b).toNat + (wrappingDistance base a).toNat) % 2 ^ 32 := by
  have shifted : wrappingDistance b a = wrappingDistance base a - wrappingDistance base b := by
    apply UInt32.toNat_inj.mp
    have ha := a.toNat_lt
    have hb := b.toNat_lt
    have hbase := base.toNat_lt
    -- Subtraction wraps around at 2 ^ 32.
    simp only [wrappingDistance, UInt32.toNat_sub]
    omega
  rw [shifted, UInt32.toNat_sub]

/-- Half the circle away in one direction is half the circle away in the other. -/
theorem wrappingDistance_half (half : (wrappingDistance a b).toNat = 2 ^ 31) :
    (wrappingDistance b a).toNat = 2 ^ 31 := by
  have ha := a.toNat_lt
  have hb := b.toNat_lt
  simp only [wrappingDistance, UInt32.toNat_sub] at half ⊢
  omega

end Distance

end Packet.Seq

/-
# Programs that print

A program prints lines and returns a value or panics. What it has printed by the time
it panics stays printed, and nothing is printed after that.
-/

import Packet.Rust.Exec

namespace Packet.Rust

/-- The lines a program prints, and how it ends. -/
structure Printing (α : Type) where
  printed : List String
  outcome : Exec α
  deriving DecidableEq

namespace Printing

variable {α β : Type}

/-- A computation that prints nothing. -/
def silent (x : Exec α) : Printing α := ⟨[], x⟩

/-- `println!` -/
def println (line : String) : Printing Unit := ⟨[line], .ok ()⟩

/-- One program after the other, unless the first panics. -/
def andThen (first : Printing α) (next : α → Printing β) : Printing β :=
  match first.outcome with
  | .error fault => ⟨first.printed, .error fault⟩
  | .ok a => ⟨first.printed ++ (next a).printed, (next a).outcome⟩

/-- Programs are run one after the other. -/
instance : Monad Printing where
  pure a := silent (.ok a)
  bind := andThen

/-- What a program computes without printing is part of it. -/
instance : MonadLift Exec Printing := ⟨silent⟩

@[simp] theorem println_bind (line : String) (next : Unit → Printing β) :
    (println line >>= next) = ⟨line :: (next ()).printed, (next ()).outcome⟩ := rfl

@[simp] theorem lift_ok_bind (a : α) (next : α → Printing β) :
    ((liftM (.ok a : Exec α) : Printing α) >>= next) = next a := rfl

@[simp] theorem lift_error_bind (fault : Fault) (next : α → Printing β) :
    ((liftM (.error fault : Exec α) : Printing α) >>= next) = ⟨[], .error fault⟩ := rfl

/-- A program that returns, and one that runs after it. -/
theorem mk_ok_bind (lines : List String) (a : α) (next : α → Printing β) :
    ((⟨lines, .ok a⟩ : Printing α) >>= next) =
      ⟨lines ++ (next a).printed, (next a).outcome⟩ := rfl

end Printing

end Packet.Rust

/-
  Slideshow.Scalar

  Numbers in which times and progress are computed. Playback computes in floats; the same
  definitions on the rationals are exact, so that laws about them can be stated.
-/

namespace Slideshow

/-- The operations that timing needs. `floorNat` is the whole part of a number, and zero for
    what is negative or not a number. -/
class Scalar (α : Type) extends Add α, Sub α, Mul α, Div α, LT α, LE α where
  ofNat : Nat → α
  floorNat : α → Nat
  [decLt : DecidableLT α]
  [decLe : DecidableLE α]

attribute [reducible, instance] Scalar.decLt Scalar.decLe

instance : Scalar Float where
  ofNat := Float.ofNat
  floorNat x := x.toUInt64.toNat

instance : Scalar Rat where
  ofNat n := n
  floorNat x := x.floor.toNat

namespace Scalar

variable {α : Type} [Scalar α]

/-- Zero. -/
def zero : α := ofNat 0

/-- One. -/
def one : α := ofNat 1

/-- The later of two times. If one of them is not a number, the other one. -/
def later (a b : α) : α :=
  if a ≤ b then b else if a ≤ a then a else b

/-- The earlier of two times. If one of them is not a number, the other one. -/
def earlier (a b : α) : α :=
  if a ≤ b then a else if b ≤ b then b else a

/-- Moves what lies outside `[0, 1]` to the nearer end. -/
def clampUnit (t : α) : α :=
  if t < zero then zero else if one < t then one else t

end Scalar

end Slideshow

/-
  Slideshow.Decimal.Shortest

  The fewest digits that read back as a float. The reals that round to a float form an
  interval around it, whose ends belong to it exactly when its significand is even. For
  one, two, … seventeen digits the two decimals next to the value are tried; the first
  count with a decimal inside the interval wins, and of two such decimals the nearer one.
  If both are equally near, the format that is written decides.
-/
import Slideshow.Decimal.Binary
import Slideshow.Decimal.Layout

namespace Slideshow.Decimal

/-- Which of two equally near decimals is written. -/
inductive Tie where
  /-- The one whose last digit is even. -/
  | even
  /-- The one farther from zero. -/
  | away
  deriving DecidableEq, Repr

/-- The decimal that is written in place of `below` and a half. -/
def Tie.pick (below : Nat) : Tie → Nat
  | even => below + below % 2
  | away => below + 1

/-! ## The interval of a float -/

/-- The reals that round to a float, in quarters of its unit: `low / den` to `high / den`
    around `value / den`. -/
structure Interval where
  low : Nat
  value : Nat
  high : Nat
  den : Nat
  closed : Bool
  deriving Repr

/-- The interval of a float. Below a power of two the next float is only half as far, except
    at the least exponent. -/
def Interval.of (b : Binary) : Interval :=
  let m := b.significand
  let scale := Nat.pow 2 (b.exponent - 2).toNat
  let below := if m = Nat.pow 2 52 ∧ -1074 < b.exponent then 1 else 2
  { low := (4 * m - below) * scale
    value := 4 * m * scale
    high := (4 * m + 2) * scale
    den := Nat.pow 2 (2 - b.exponent).toNat
    closed := m % 2 == 0 }

namespace Interval

/-- The decimal `n * 10 ^ k` lies in the interval. -/
def holds (i : Interval) (n : Nat) (k : Int) : Bool :=
  let p := n * Nat.pow 10 k.toNat * i.den
  let q := Nat.pow 10 (-k).toNat
  if i.closed then i.low * q ≤ p && p ≤ i.high * q
  else i.low * q < p && p < i.high * q

/-- How far `n * 10 ^ k` is from the value, in units common to all `n`. -/
def distance (i : Interval) (n : Nat) (k : Int) : Nat :=
  let p := n * Nat.pow 10 k.toNat * i.den
  let v := i.value * Nat.pow 10 (-k).toNat
  (p - v) + (v - p)

/-- The decimal with unit `10 ^ k` that stands for the value, if one lies in the interval:
    the nearer neighbour. -/
def neighbour? (tie : Tie) (i : Interval) (k : Int) : Option Nat :=
  let below := i.value * Nat.pow 10 (-k).toNat / (i.den * Nat.pow 10 k.toNat)
  let above := below + 1
  match i.holds below k, i.holds above k with
  | false, false => none
  | true, false => some below
  | false, true => some above
  | true, true =>
    let a := i.distance below k
    let b := i.distance above k
    if a < b then some below
    else if b < a then some above
    else some (tie.pick below)

/-- The place of the value's first digit: `10 ^ place ≤ value < 10 ^ (place + 1)`. -/
def place (i : Interval) : Int :=
  ((digitsOf (i.value * Nat.pow 10 350 / i.den)).length : Int) - 351

end Interval

/-! ## The digits -/

/-- Drops zeros at the end of the digits, raising the power of ten. -/
def stripZeros (ds : List Char) (scale : Int) : List Char × Int :=
  let kept := (ds.reverse.dropWhile (· == '0')).reverse
  (kept, scale + (ds.length - kept.length : Nat))

/-- The fewest digits that read back as the magnitude, with their power of ten. -/
def Binary.shortest (tie : Tie) (b : Binary) : List Char × Int :=
  if b.significand = 0 then (['0'], 0)
  else
    let i := Interval.of b
    let units := (List.range 17).map fun (n : Nat) => i.place - (n : Int)
    let found := units.findSome? fun k => (i.neighbour? tie k).map fun n => (n, k)
    match found with
    | some (n, k) => stripZeros (digitsOf n) k
    | none => (digitsOf (b.numerator / b.denominator), 0)

end Slideshow.Decimal

/-
  Slideshow.Json.Numeral

  The numerals of JSON text. Whole numbers of 64 bits stay exact. For every other numeral
  the leading digits that fit 64 bits are its significand; later digits only move the point.
  The significand, as a float, is multiplied or divided by a power of ten, so the last bit
  may differ from the correctly rounded value. A numeral beyond the range of floats reads
  as an infinity.
-/
import Slideshow.Decimal.Numeral
import Slideshow.Json.Basic

namespace Slideshow.Json

open Slideshow.Decimal

/-! ## The parts of a numeral -/

/-- A numeral taken apart. `part` holds the digits behind a point, `power` the exponent. -/
structure Numeral where
  negative : Bool
  whole : List Char
  part : Option (List Char)
  power : Option Int

/-- The exponent of a numeral: `e`, an optional sign and at least one digit. -/
def power? : List Char → Option (Option Int)
  | [] => some none
  | cs => (exponent? cs).map some

/-- The fraction and exponent of a numeral, given its whole digits. -/
def Numeral.tail? (negative : Bool) (whole : List Char) : List Char → Option Numeral
  | '.' :: cs =>
    let (part, rest) := spanDigits cs
    if part.isEmpty then none
    else (power? rest).map fun e => ⟨negative, whole, some part, e⟩
  | rest => (power? rest).map fun e => ⟨negative, whole, none, e⟩

/-- An unsigned numeral; a zero in front must stand alone. -/
def Numeral.unsigned? (negative : Bool) (cs : List Char) : Option Numeral :=
  let (whole, rest) := spanDigits cs
  match whole with
  | [] => none
  | ['0'] => Numeral.tail? negative whole rest
  | '0' :: _ => none
  | _ => Numeral.tail? negative whole rest

/-- The parts of a whole text, if it is a numeral. -/
def Numeral.ofText? : List Char → Option Numeral
  | '-' :: cs => Numeral.unsigned? true cs
  | cs => Numeral.unsigned? false cs

/-! ## Its value -/

/-- Appends digits to a significand as long as it fits 64 bits. Answers the significand and
    the number of digits left over. -/
def fill (n : Nat) : List Char → Nat × Nat
  | [] => (n, 0)
  | c :: cs =>
    let m := 10 * n + (c.toNat - '0'.toNat)
    if m < Nat.pow 2 64 then fill m cs else (n, cs.length + 1)

/-- A power of ten as a float. -/
def tenTo (k : Nat) : Float :=
  Float.ofScientific 1 false k

/-- Divides by `10 ^ k`, in steps that are powers of ten themselves. -/
def divideDown (x : Float) (k : Nat) : Float :=
  if k ≤ 308 then x / tenTo k
  else if x == 0 then x
  else divideDown (x / tenTo 308) (k - 308)
termination_by k

/-- The significand times `10 ^ e`, computed in floats. -/
def scaleBy (n : Nat) (e : Int) : Float :=
  let x := Float.ofNat n
  if e < 0 then divideDown x e.natAbs
  else if e ≤ 308 then x * tenTo e.toNat
  else if n = 0 then x
  else 1 / 0

/-- The greatest exponent that is told apart from greater ones. -/
def exponentLimit : Int := 2147483647

/-- The value of a significand with a written exponent. One beyond the limit gives zero or an
    infinity at once. -/
def withPower (n : Nat) (start : Int) : Option Int → Float
  | none => scaleBy n start
  | some e =>
    if exponentLimit < e then if n = 0 then 0 else 1 / 0
    else if e < -exponentLimit then 0
    else scaleBy n (start + e)

/-- The number that a numeral stands for. -/
def Numeral.value (t : Numeral) : Number :=
  let (n, left) := fill 0 t.whole
  match t.part, t.power with
  | none, none =>
    if 0 < left then
      let x := scaleBy n left
      .float (if t.negative then -x else x)
    else if !t.negative then .int n
    else if 0 < n ∧ n ≤ Nat.pow 2 63 then .int (-(n : Int))
    else .float (-Float.ofNat n)
  | part, power =>
    let ds := part.getD []
    let (m, rest) := fill n ds
    let x := withPower m ((left : Int) - ((ds.length - rest : Nat) : Int)) power
    .float (if t.negative then -x else x)

/-- The number that a whole text stands for. -/
def number? (cs : List Char) : Option Number :=
  (Numeral.ofText? cs).map Numeral.value

end Slideshow.Json

/-
  Slideshow.Decimal.Numeral

  Reading decimal numbers: digits with an optional point and an optional exponent, rounded
  correctly to the nearest float. `number?` reads a whole text and also knows the names of
  the infinities and of the value that is not a number.
-/
import Slideshow.Text.Blank

namespace Slideshow.Decimal

/-! ## Digits -/

/-- The digits at the front of a text, and the rest. -/
def spanDigits (cs : List Char) : List Char × List Char :=
  (cs.takeWhile Char.isDigit, cs.dropWhile Char.isDigit)

/-- The whole number that digits stand for. -/
def natOf (ds : List Char) : Nat :=
  ds.foldl (fun n c => 10 * n + (c.toNat - '0'.toNat)) 0

/-- A whole number with an optional sign, which has at least one digit. -/
def int? : List Char → Option Int
  | '-' :: ds => if ds.isEmpty || !ds.all Char.isDigit then none else some (-(natOf ds : Int))
  | '+' :: ds => if ds.isEmpty || !ds.all Char.isDigit then none else some (natOf ds)
  | ds => if ds.isEmpty || !ds.all Char.isDigit then none else some (natOf ds)

/-! ## Values -/

/-- The float nearest to the digits `ds` times `10 ^ scale`. Far outside the range of floats
    the answer is known from the place of the first digit alone. -/
def scaled (ds : List Char) (scale : Int) : Float :=
  let n := natOf ds
  let place := scale + (ds.dropWhile (· == '0')).length
  if n = 0 then 0
  else if 400 < place then 1 / 0
  else if place < -400 then 0
  else Float.ofScientific n (decide (scale < 0)) scale.natAbs

/-- The exponent behind the digits of a number: absent, or `e` and a whole number. -/
def exponent? : List Char → Option Int
  | [] => some 0
  | 'e' :: cs => int? cs
  | 'E' :: cs => int? cs
  | _ => none

/-- An unsigned number. Digits may be missing before or after the point, but not on both
    sides. -/
def unsigned? (cs : List Char) : Option Float :=
  let (whole, rest) := spanDigits cs
  let (part, rest) :=
    match rest with
    | '.' :: rest => spanDigits rest
    | rest => ([], rest)
  if whole.isEmpty && part.isEmpty then none
  else (exponent? rest).map fun e => scaled (whole ++ part) (e - part.length)

/-- The special values, whose names may be written in any letter case. -/
def special? (cs : List Char) : Option Float :=
  let name := String.ofList (Text.lower cs)
  if name == "inf" || name == "infinity" then some (1 / 0)
  else if name == "nan" then some (0 / 0)
  else none

/-- A magnitude: a special value or an unsigned number. -/
def magnitude? (cs : List Char) : Option Float :=
  (special? cs).or (unsigned? cs)

/-- The float that a whole text stands for, if it is a number with an optional sign. -/
def number? : List Char → Option Float
  | '-' :: cs => (magnitude? cs).map fun x => -x
  | '+' :: cs => magnitude? cs
  | cs => magnitude? cs

/-- The float that a string stands for. -/
def float? (s : String) : Option Float :=
  number? s.toList

end Slideshow.Decimal

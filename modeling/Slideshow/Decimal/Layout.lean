/-
  Slideshow.Decimal.Layout

  Where the point goes. A decimal is a string of digits and a power of ten; `positional`
  writes it out with a point and zeros, `exponential` with one digit before the point and a
  marked exponent, `fixed` with a given number of places.
-/
import Slideshow.Decimal.Binary

namespace Slideshow.Decimal

/-! ## Digits -/

/-- The decimal digits of a whole number. -/
def digitsOf (n : Nat) : List Char :=
  Nat.toDigits 10 n

/-- Zeros in front until the text has at least `width` characters. -/
def padZeros (width : Nat) (ds : List Char) : List Char :=
  List.replicate (width - ds.length) '0' ++ ds

/-- Puts a point before the last `places` digits; with no places there is no point. -/
def withPoint (places : Nat) (ds : List Char) : List Char :=
  let ds := padZeros (places + 1) ds
  let whole := ds.take (ds.length - places)
  let part := ds.drop (ds.length - places)
  if part.isEmpty then whole else whole ++ '.' :: part

/-- A minus sign in front of what is negative. -/
def signed (negative : Bool) (cs : List Char) : List Char :=
  if negative then '-' :: cs else cs

/-! ## Layouts -/

/-- The digits `ds` times `10 ^ scale`, written out with zeros and, for a fraction, a point. -/
def positional (ds : List Char) (scale : Int) : List Char :=
  if 0 ≤ scale then ds ++ List.replicate scale.toNat '0'
  else withPoint (-scale).toNat ds

/-- The digits `ds` times `10 ^ scale` with one digit before the point. A positive exponent
    is marked with `plus`. -/
def exponential (plus : List Char) (ds : List Char) (scale : Int) : List Char :=
  let e := scale + ds.length - 1
  let mark := if e < 0 then '-' :: digitsOf (-e).toNat else plus ++ digitsOf e.toNat
  match ds with
  | [] => '0' :: 'e' :: mark
  | [d] => d :: 'e' :: mark
  | d :: rest => d :: '.' :: rest ++ 'e' :: mark

/-- The value with `places` digits after the point, rounded from the exact value; a half
    goes to the even neighbour, and the sign is kept even in front of zeros. -/
def Binary.fixed (places : Nat) (b : Binary) : List Char :=
  let n := nearestEven (b.numerator * Nat.pow 10 places) b.denominator
  signed b.negative (withPoint places (digitsOf n))

end Slideshow.Decimal

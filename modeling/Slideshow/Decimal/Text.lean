/-
  Slideshow.Decimal.Text

  The spellings of floats that appear in diagrams and messages: `plain` never uses an
  exponent and drops no digit, `compact` is the short form of attribute values.
-/
import Slideshow.Decimal.Layout
import Slideshow.Decimal.Shortest

namespace Slideshow.Decimal

/-- The shortest digits that read back, written out without an exponent. -/
def plain (x : Float) : String :=
  match Binary.ofFloat? x with
  | some b =>
    let (ds, scale) := b.shortest .away
    String.ofList (signed b.negative (positional ds scale))
  | none => if x.isNaN then "NaN" else if x < 0 then "-inf" else "inf"

/-- The text without zeros at its end, and without a point they leave behind. -/
def dropTail (cs : List Char) : List Char :=
  ((cs.reverse.dropWhile (· == '0')).dropWhile (· == '.')).reverse

/-- The number as an attribute value: what is within `1e-9` of a whole number prints as that
    number, everything else with at most four places. Zero has no sign, and what is not
    finite prints as zero. -/
def compact (x : Float) : String :=
  match Binary.ofFloat? x with
  | none => "0"
  | some b =>
    let r := roundAway x
    if (x - r).abs < 1e-9 then
      if r == 0 then "0" else plain r
    else
      let s := String.ofList (dropTail (b.fixed 4))
      if s == "-0" then "0" else s

end Slideshow.Decimal

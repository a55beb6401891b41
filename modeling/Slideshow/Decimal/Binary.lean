/-
  Slideshow.Decimal.Binary

  The exact value of a finite float, `± significand * 2 ^ exponent`, and rounding of exact
  quotients. Every decimal text of a number is computed from this value in whole-number
  arithmetic.
-/

namespace Slideshow.Decimal

/-! ## The exact value -/

/-- A finite float taken apart: its value is `significand * 2 ^ exponent`, negated when
    `negative`. -/
structure Binary where
  negative : Bool
  significand : Nat
  exponent : Int
  deriving DecidableEq, Repr

/-- The value of a float; infinities and the value that is not a number have none. -/
def Binary.ofFloat? (x : Float) : Option Binary :=
  let bits := x.toBits.toNat
  let negative := decide (Nat.pow 2 63 ≤ bits)
  let biased : Nat := bits / Nat.pow 2 52 % 2048
  let fraction : Nat := bits % Nat.pow 2 52
  if biased = 2047 then none
  else if biased = 0 then some ⟨negative, fraction, -1074⟩
  else some ⟨negative, Nat.pow 2 52 + fraction, (biased : Int) - 1075⟩

namespace Binary

/-- Numerator of the magnitude. -/
def numerator (b : Binary) : Nat :=
  b.significand * Nat.pow 2 b.exponent.toNat

/-- Denominator of the magnitude, a power of two. -/
def denominator (b : Binary) : Nat :=
  Nat.pow 2 (-b.exponent).toNat

theorem denominator_pos (b : Binary) : 0 < b.denominator :=
  Nat.two_pow_pos _

end Binary

/-! ## Rounding quotients -/

/-- The whole number nearest to `n / d`; a half goes to the even neighbour. -/
def nearestEven (n d : Nat) : Nat :=
  let q := n / d
  let r := n % d
  if 2 * r < d then q else if d < 2 * r then q + 1 else q + q % 2

/-- The whole number nearest to `n / d`; a half goes up. -/
def nearestUp (n d : Nat) : Nat :=
  (2 * n + d) / (2 * d)

/-- The nearest whole number of a float; a half goes away from zero, and what is not
    finite stays as it is. -/
def roundAway (x : Float) : Float :=
  match Binary.ofFloat? x with
  | none => x
  | some b =>
    if 0 ≤ b.exponent then x
    else
      let n := Float.ofNat (nearestUp b.numerator b.denominator)
      if b.negative then -n else n

end Slideshow.Decimal

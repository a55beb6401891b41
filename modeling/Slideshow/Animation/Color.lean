/-
  Slideshow.Animation.Color

  Colors with eight bits per channel. They are read from hexadecimal notation with three,
  six or eight digits and from the word `transparent`, and written with six digits, or with
  eight when they are not opaque.
-/
import Slideshow.Decimal.Binary
import Slideshow.Text.Pieces

namespace Slideshow

/-- A color with red, green, blue and opacity channels. -/
structure Color where
  r : UInt8
  g : UInt8
  b : UInt8
  a : UInt8
  deriving DecidableEq, Repr

namespace Color

/-! ## Reading -/

/-- The value of a hexadecimal digit. -/
def digit? (c : Char) : Option Nat :=
  if '0' ≤ c ∧ c ≤ '9' then some (c.toNat - '0'.toNat)
  else if 'a' ≤ c ∧ c ≤ 'f' then some (c.toNat - 'a'.toNat + 10)
  else if 'A' ≤ c ∧ c ≤ 'F' then some (c.toNat - 'A'.toNat + 10)
  else none

/-- A channel of one digit, which stands for itself doubled. -/
def single? (c : Char) : Option UInt8 :=
  (digit? c).map fun n => UInt8.ofNat (n * 17)

/-- A channel of two digits. A plus sign may stand in place of the first one. -/
def double? (c d : Char) : Option UInt8 :=
  match digit? c, digit? d with
  | some m, some n => some (UInt8.ofNat (m * 16 + n))
  | none, some n => if c = '+' then some (UInt8.ofNat n) else none
  | _, none => none

/-- The color of the digits behind the number sign. -/
def ofDigits? : List Char → Option Color
  | [r, g, b] => do
    return ⟨← single? r, ← single? g, ← single? b, 255⟩
  | [r, r', g, g', b, b'] => do
    return ⟨← double? r r', ← double? g g', ← double? b b', 255⟩
  | [r, r', g, g', b, b', a, a'] => do
    return ⟨← double? r r', ← double? g g', ← double? b b', ← double? a a'⟩
  | _ => none

/-- The color that characters without blank ends stand for. -/
def ofChars? (cs : List Char) : Option Color :=
  if Text.lower cs = "transparent".toList then some ⟨0, 0, 0, 0⟩
  else
    match cs with
    | '#' :: ds => ofDigits? ds
    | _ => none

/-- The color that a text stands for; blanks around it do not matter. -/
def parse? (text : String) : Option Color :=
  ofChars? (Text.trim text.toList)

/-! ## Writing -/

/-- A channel as two digits. -/
def hexPair (n : UInt8) : List Char :=
  [Nat.digitChar (n.toNat / 16), Nat.digitChar (n.toNat % 16)]

/-- The color in hexadecimal notation; full opacity is left out. -/
def hex (c : Color) : String :=
  String.ofList ('#' :: hexPair c.r ++ hexPair c.g ++ hexPair c.b ++
    if c.a = 255 then [] else hexPair c.a)

/-! ## Mixing -/

/-- The channel a fraction `t` of the way from `p` to `q`, kept within the channel's range. -/
def mixChannel (p q : UInt8) (t : Float) : UInt8 :=
  let a := p.toFloat
  let b := q.toFloat
  (Decimal.roundAway (a + (b - a) * t)).toUInt8

/-- The color a fraction `t` of the way from `p` to `q`, channel by channel. -/
def lerp (p q : Color) (t : Float) : Color :=
  ⟨mixChannel p.r q.r t, mixChannel p.g q.g t, mixChannel p.b q.b t, mixChannel p.a q.a t⟩

end Color

end Slideshow

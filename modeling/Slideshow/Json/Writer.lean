/-
  Slideshow.Json.Writer

  JSON text of values: `line` without white space, `pretty` with one member or item per line
  and an indentation of two spaces. Floats always show a point or an exponent, so that they
  read back as floats.
-/
import Slideshow.Decimal.Layout
import Slideshow.Decimal.Shortest
import Slideshow.Json.Basic

namespace Slideshow.Json

open Slideshow.Decimal

/-! ## Numbers -/

/-- A finite float: the fewest digits that read back, written out from `1e-5` up to `1e16`
    with at least one place, and with an exponent beyond. -/
def floatText (b : Binary) : List Char :=
  let (ds, scale) := b.shortest .even
  let point : Int := ds.length + scale
  let body :=
    if b.significand = 0 then ['0', '.', '0']
    else if -5 < point ∧ point ≤ 16 then
      if 0 ≤ scale then positional ds scale ++ ['.', '0'] else positional ds scale
    else exponential ['+'] ds scale
  signed b.negative body

/-- The text of a number; what is not finite has none. -/
def numberText? : Number → Option (List Char)
  | .int i => some (signed (i < 0) (digitsOf i.natAbs))
  | .float x => (Binary.ofFloat? x).map floatText

/-! ## Strings -/

/-- A hexadecimal digit. -/
def hexChar (n : Nat) : Char :=
  Nat.digitChar n

/-- A character inside a string. Quotes, backslashes and control characters are escaped. -/
def escapeChar (c : Char) : List Char :=
  if c = '"' then ['\\', '"']
  else if c = '\\' then ['\\', '\\']
  else if c = '\n' then ['\\', 'n']
  else if c = '\r' then ['\\', 'r']
  else if c = '\t' then ['\\', 't']
  else if c = '\x08' then ['\\', 'b']
  else if c = '\x0c' then ['\\', 'f']
  else if c.toNat < 0x20 then
    ['\\', 'u', '0', '0', hexChar (c.toNat / 16), hexChar (c.toNat % 16)]
  else [c]

/-- A string in quotes. -/
def quoted (s : String) : List Char :=
  '"' :: s.toList.flatMap escapeChar ++ ['"']

/-- The text of a scalar. -/
def scalarText : Json → List Char
  | .null => ['n', 'u', 'l', 'l']
  | .bool true => ['t', 'r', 'u', 'e']
  | .bool false => ['f', 'a', 'l', 's', 'e']
  | .num n => (numberText? n).getD ['n', 'u', 'l', 'l']
  | .str s => quoted s
  | .arr _ => []
  | .obj _ => []

/-! ## On one line -/

mutual

/-- The value without white space. -/
def lineChars : Json → List Char
  | .arr xs => '[' :: lineItems xs ++ [']']
  | .obj ms => '\x7b' :: lineMembers ms ++ ['\x7d']
  | j => scalarText j

def lineItems : List Json → List Char
  | [] => []
  | [x] => lineChars x
  | x :: xs => lineChars x ++ ',' :: lineItems xs

def lineMembers : List (String × Json) → List Char
  | [] => []
  | [(k, x)] => quoted k ++ ':' :: lineChars x
  | (k, x) :: ms => quoted k ++ ':' :: lineChars x ++ ',' :: lineMembers ms

end

/-- The value as text without white space. -/
def line (j : Json) : String :=
  String.ofList (lineChars j)

/-! ## One entry per line -/

/-- A line break and the indentation of a level. -/
def newLine (level : Nat) : List Char :=
  '\n' :: List.replicate (2 * level) ' '

mutual

/-- The value with one entry per line, from a given level of indentation. -/
def prettyChars (level : Nat) : Json → List Char
  | .arr [] => ['[', ']']
  | .arr (x :: xs) => '[' :: prettyItems (level + 1) (x :: xs) ++ newLine level ++ [']']
  | .obj [] => ['\x7b', '\x7d']
  | .obj (m :: ms) =>
    '\x7b' :: prettyMembers (level + 1) (m :: ms) ++ newLine level ++ ['\x7d']
  | j => scalarText j

def prettyItems (level : Nat) : List Json → List Char
  | [] => []
  | [x] => newLine level ++ prettyChars level x
  | x :: xs => newLine level ++ prettyChars level x ++ ',' :: prettyItems level xs

def prettyMembers (level : Nat) : List (String × Json) → List Char
  | [] => []
  | [(k, x)] => newLine level ++ quoted k ++ ':' :: ' ' :: prettyChars level x
  | (k, x) :: ms =>
    newLine level ++ quoted k ++ ':' :: ' ' :: prettyChars level x ++
      ',' :: prettyMembers level ms

end

/-- The value as text with one entry per line. -/
def pretty (j : Json) : String :=
  String.ofList (prettyChars 0 j)

end Slideshow.Json

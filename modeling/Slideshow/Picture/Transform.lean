/-
  Slideshow.Picture.Transform

  Transforms of a drawing's plane. A point `(x, y)` goes to
  `(a * x + c * y + e, b * x + d * y + f)`. The text of a transform is a list of moves,
  scalings, turns and slants, of which the last one is made first.
-/
import Slideshow.Picture.Length

namespace Slideshow.Picture

open Text (isSpace skip skipComma length_skip_le length_skipComma_le)

/-! ## Points -/

/-- A point in single precision. -/
structure Spot where
  x : Float32
  y : Float32

namespace Spot

def ofPoint (p : Point) : Spot := ⟨p.x.toFloat32, p.y.toFloat32⟩

def toPoint (p : Spot) : Point := ⟨p.x.toFloat, p.y.toFloat⟩

end Spot

/-! ## Transforms as they are read -/

/-- A transform in double precision. -/
structure Affine where
  a : Float
  b : Float
  c : Float
  d : Float
  e : Float
  f : Float

namespace Affine

def identity : Affine := ⟨1, 0, 0, 1, 0, 0⟩

/-- First `t`, then `s`. -/
def after (s t : Affine) : Affine where
  a := s.a * t.a + s.c * t.b
  b := s.b * t.a + s.d * t.b
  c := s.a * t.c + s.c * t.d
  d := s.b * t.c + s.d * t.d
  e := s.a * t.e + s.c * t.f + s.e
  f := s.b * t.e + s.d * t.f + s.f

def move (x y : Float) : Affine := ⟨1, 0, 0, 1, x, y⟩

/-- An angle in degrees. -/
def radians (degrees : Float) : Float := degrees * (3.141592653589793 / 180)

def turn (degrees : Float) : Affine :=
  let v := radians degrees
  ⟨v.cos, v.sin, -v.sin, v.cos, 0, 0⟩

/-- The transforms of a name with its numbers. A turn around a point takes three. -/
def ofCall? (name : String) (xs : List Float) : Option (List Affine) :=
  match name, xs with
  | "matrix", [a, b, c, d, e, f] => some [⟨a, b, c, d, e, f⟩]
  | "translate", [x] => some [move x 0]
  | "translate", [x, y] => some [move x y]
  | "scale", [x] => some [⟨x, 0, 0, x, 0, 0⟩]
  | "scale", [x, y] => some [⟨x, 0, 0, y, 0, 0⟩]
  | "rotate", [v] => some [turn v]
  | "rotate", [v, x, y] => some [move x y, turn v, move (-x) (-y)]
  | "skewX", [v] => some [⟨1, 0, (radians v).tan, 1, 0, 0⟩]
  | "skewY", [v] => some [⟨1, (radians v).tan, 0, 1, 0, 0⟩]
  | _, _ => none

/-- The numbers up to a closing bracket, and what follows it. -/
def numbers? (cs : List Char) : Option (List Float × List Char) :=
  match skip isSpace cs with
  | ')' :: rest => some ([], rest)
  | _ =>
    match h : listed? cs with
    | none => none
    | some (x, rest) =>
      have : rest.length < cs.length := length_of_listed? h
      (numbers? rest).map fun p => (x :: p.1, p.2)
termination_by cs.length

theorem length_of_numbers? {cs rest : List Char} {xs : List Float}
    (h : numbers? cs = some (xs, rest)) : rest.length < cs.length := by
  fun_induction numbers? cs generalizing xs rest with
  | case1 cs r heq =>
    have := length_skip_le isSpace cs
    cases h
    rw [heq, List.length_cons] at this
    omega
  | case2 => cases h
  | case3 =>
    rename_i ih
    simp only [Option.map_eq_some_iff, Prod.mk.injEq] at h
    obtain ⟨p, hp, _, rfl⟩ := h
    exact Nat.lt_trans (ih hp) (by assumption)

/-- The transforms of one call at the front of a text, and what follows it. -/
def call? (cs : List Char) : Option (List Affine × List Char) :=
  match skip isSpace (cs.dropWhile Char.isAlphanum) with
  | '(' :: inside =>
    (numbers? inside).bind fun p =>
      (ofCall? (String.ofList (cs.takeWhile Char.isAlphanum)) p.1).map fun ts =>
        (ts, skipComma isSpace p.2)
  | _ => none

theorem length_of_call? {cs rest : List Char} {ts : List Affine}
    (h : call? cs = some (ts, rest)) : rest.length < cs.length := by
  have hname : (cs.dropWhile Char.isAlphanum).length ≤ cs.length :=
    (List.dropWhile_suffix _).length_le
  have hskip := length_skip_le isSpace (cs.dropWhile Char.isAlphanum)
  unfold call? at h
  split at h
  · rename_i heq
    obtain ⟨p, hp, h⟩ := Option.bind_eq_some_iff.1 h
    simp only [Option.map_eq_some_iff, Prod.mk.injEq] at h
    obtain ⟨_, _, _, rfl⟩ := h
    have := length_of_numbers? hp
    have := length_skipComma_le isSpace p.2
    rw [heq, List.length_cons] at hskip
    omega
  · cases h

/-- The transforms of a text in the order in which they are written. -/
def calls? (cs : List Char) : Option (List Affine) :=
  if (skip isSpace cs).isEmpty then some []
  else
    match h : call? (skip isSpace cs) with
    | none => none
    | some (ts, rest) =>
      have : rest.length < cs.length :=
        Nat.lt_of_lt_of_le (length_of_call? h) (length_skip_le isSpace cs)
      (calls? rest).map (ts ++ ·)
termination_by cs.length

/-- The transform of a text. -/
def ofChars? (cs : List Char) : Option Affine :=
  (calls? cs).map fun ts => ts.foldl after identity

end Affine

/-! ## Transforms as they are made -/

/-- A transform in single precision. -/
structure Transform where
  a : Float32
  b : Float32
  c : Float32
  d : Float32
  e : Float32
  f : Float32

namespace Transform

def identity : Transform := ⟨1, 0, 0, 1, 0, 0⟩

def move (x y : Float32) : Transform := ⟨1, 0, 0, 1, x, y⟩

/-- The sum of two products, rounded once. -/
def products (a b c d : Float32) : Float32 :=
  (a.toFloat * b.toFloat + c.toFloat * d.toFloat).toFloat32

/-- First `t`, then `s`. -/
def after (s t : Transform) : Transform where
  a := products s.a t.a s.c t.b
  b := products s.b t.a s.d t.b
  c := products s.a t.c s.c t.d
  d := products s.b t.c s.d t.d
  e := products s.a t.e s.c t.f + s.e
  f := products s.b t.e s.d t.f + s.f

/-- Where a point goes. -/
def apply (t : Transform) (p : Spot) : Spot :=
  ⟨p.x * t.a + p.y * t.c + t.e, p.x * t.b + p.y * t.d + t.f⟩

/-- Upright rectangles stay upright. -/
def isUpright (t : Transform) : Bool := t.b == 0 && t.c == 0

/-- Nothing is flattened: both axes keep a length. -/
def isProper (t : Transform) : Bool :=
  let finite := t.a.isFinite && t.b.isFinite && t.c.isFinite && t.d.isFinite &&
    t.e.isFinite && t.f.isFinite
  let least : Float32 := 1.1920929e-7
  finite && least < (t.a * t.a + t.c * t.c).sqrt && least < (t.b * t.b + t.d * t.d).sqrt

/-- The transform of a text; a text that is none leaves all in place. -/
def ofText (text : String) : Transform :=
  match Affine.ofChars? text.toList with
  | none => identity
  | some t => ⟨t.a.toFloat32, t.b.toFloat32, t.c.toFloat32, t.d.toFloat32, t.e.toFloat32,
      t.f.toFloat32⟩

end Transform

end Slideshow.Picture

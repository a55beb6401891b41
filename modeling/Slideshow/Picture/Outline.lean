/-
  Slideshow.Picture.Outline

  Outlines and the boxes around them. A box is tight: a curve counts with the places where it
  turns back, not with its control points. All is computed in single precision.
-/
import Slideshow.Picture.Transform

namespace Slideshow.Picture

/-! ## Boxes -/

/-- An upright rectangle. -/
structure Box where
  left : Float32
  top : Float32
  right : Float32
  bottom : Float32

namespace Box

/-- The lesser of two numbers. -/
def least (x y : Float32) : Float32 := if y < x then y else x

/-- The greater of two numbers. -/
def greatest (x y : Float32) : Float32 := if x < y then y else x

/-- The box of one point. -/
def ofSpot (p : Spot) : Box := ⟨p.x, p.y, p.x, p.y⟩

/-- The box around two boxes. -/
def union (s t : Box) : Box :=
  ⟨least s.left t.left, least s.top t.top, greatest s.right t.right,
    greatest s.bottom t.bottom⟩

/-- The box around some points, if there are any. -/
def around? : List Spot → Option Box
  | [] => none
  | p :: ps => some (ps.foldl (fun b q => b.union (ofSpot q)) (ofSpot p))

/-- The box has a place and a size. -/
def isFinite (b : Box) : Bool :=
  b.left.isFinite && b.top.isFinite && b.right.isFinite && b.bottom.isFinite &&
    (b.right - b.left).isFinite && (b.bottom - b.top).isFinite

def corners (b : Box) : List Spot :=
  [⟨b.left, b.top⟩, ⟨b.right, b.top⟩, ⟨b.right, b.bottom⟩, ⟨b.left, b.bottom⟩]

/-- The box around both, where one may be missing. -/
def join? : Option Box → Option Box → Option Box
  | some s, some t => some (s.union t)
  | s, t => s.or t

end Box

/-! ## Where curves turn back -/

/-- A quotient strictly between zero and one. -/
def properQuotient? (n d : Float32) : Option Float32 :=
  let (n, d) := if n < 0 then (-n, -d) else (n, d)
  if d == 0 || n == 0 || d ≤ n then none
  else
    let r := n / d
    if 0 < r && r < 1 then some r else none

/-- The zeros of `a * t * t + b * t + c` strictly between zero and one. -/
def properZeros (a b c : Float32) : List Float32 :=
  if a == 0 then (properQuotient? (-c) b).toList
  else
    let r := b.toFloat * b.toFloat - 4 * a.toFloat * c.toFloat
    if r < 0 then []
    else
      let r := r.sqrt.toFloat32
      let q := if b < 0 then -(b - r) / 2 else -(b + r) / 2
      if r.isFinite then (properQuotient? q a).toList ++ (properQuotient? c q).toList else []

/-- The parameter at which one coordinate of a quadratic curve turns back. -/
def quadTurn? (a b c : Float32) : Option Float32 :=
  properQuotient? (a - b) (a - b - b + c)

/-- The parameters at which one coordinate of a cubic curve turns back. -/
def cubicTurns (a b c d : Float32) : List Float32 :=
  properZeros (d - a + 3 * (b - c)) (2 * (a - b - b + c)) (b - a)

/-- One coordinate of a quadratic curve. -/
def quadAt (a b c t : Float32) : Float32 :=
  let v := 2 * (b - a)
  let u := c - 2 * b + a
  (u * t + v) * t + a

/-- One coordinate of a cubic curve. -/
def cubicAt (a b c d t : Float32) : Float32 :=
  let u := d + 3 * (b - c) - a
  let v := 3 * (c - 2 * b + a)
  let w := 3 * (b - a)
  ((u * t + v) * t + w) * t + a

/-! ## Outlines -/

/-- A step of an outline. -/
inductive Stroke where
  /-- A point where the outline begins, or to which it goes straight. -/
  | point (p : Spot)
  | quad (p₀ p₁ p₂ : Spot)
  | cubic (p₀ p₁ p₂ p₃ : Spot)

/-- The steps of a drawn line, in order. -/
abbrev Outline : Type := List Stroke

namespace Stroke

/-- The step after a transform. -/
def map (t : Transform) : Stroke → Stroke
  | point p => point (t.apply p)
  | quad p₀ p₁ p₂ => quad (t.apply p₀) (t.apply p₁) (t.apply p₂)
  | cubic p₀ p₁ p₂ p₃ => cubic (t.apply p₀) (t.apply p₁) (t.apply p₂) (t.apply p₃)

/-- All points that a step is given by. -/
def points : Stroke → List Spot
  | point p => [p]
  | quad p₀ p₁ p₂ => [p₀, p₁, p₂]
  | cubic p₀ p₁ p₂ p₃ => [p₀, p₁, p₂, p₃]

/-- The points that decide about the box of a step: its end and where it turns back. -/
def extremes : Stroke → List Spot
  | point p => [p]
  | quad p₀ p₁ p₂ =>
    let turns := (quadTurn? p₀.x p₁.x p₂.x).toList ++ (quadTurn? p₀.y p₁.y p₂.y).toList
    turns.map (fun t => Spot.mk (quadAt p₀.x p₁.x p₂.x t) (quadAt p₀.y p₁.y p₂.y t)) ++ [p₂]
  | cubic p₀ p₁ p₂ p₃ =>
    let turns := cubicTurns p₀.x p₁.x p₂.x p₃.x ++ cubicTurns p₀.y p₁.y p₂.y p₃.y
    turns.map (fun t => Spot.mk (cubicAt p₀.x p₁.x p₂.x p₃.x t)
      (cubicAt p₀.y p₁.y p₂.y p₃.y t)) ++ [p₃]

end Stroke

namespace Outline

/-- The box around an outline, which has to stay within the range of numbers. -/
def box? (o : Outline) : Option Box :=
  match Box.around? (o.flatMap Stroke.points) with
  | none => none
  | some b =>
    if b.isFinite then (Box.around? (o.flatMap Stroke.extremes)).filter Box.isFinite else none

/-- The box around an outline after a transform. If upright rectangles stay upright, it is
    the box around the moved box. -/
def boxAfter? (t : Transform) (o : Outline) : Option Box :=
  o.box?.bind fun b =>
    if t.isUpright then (Box.around? (b.corners.map t.apply)).filter Box.isFinite
    else Outline.box? (o.map (Stroke.map t))

end Outline

end Slideshow.Picture

/-
  Slideshow.Geometry.Rect

  Points, and rectangles given by two corners. A rectangle is written as a view box: the
  corner with the least coordinates, then width and height.
-/
import Slideshow.Decimal.Numeral
import Slideshow.Decimal.Text
import Slideshow.Text.Pieces

namespace Slideshow

/-! ## Points -/

/-- A point of the drawing plane; also used for the step from one point to another. -/
structure Point where
  x : Float
  y : Float
  deriving DecidableEq

namespace Point

def add (p q : Point) : Point := ⟨p.x + q.x, p.y + q.y⟩

def sub (p q : Point) : Point := ⟨p.x - q.x, p.y - q.y⟩

def scale (k : Float) (p : Point) : Point := ⟨k * p.x, k * p.y⟩

/-- The squared length of a step. -/
def norm2 (p : Point) : Float := p.x * p.x + p.y * p.y

/-- The length of a step. -/
def norm (p : Point) : Float := p.norm2.sqrt

def dot (p q : Point) : Float := p.x * q.x + p.y * q.y

/-- The point a fraction `t` of the way from `p` to `q`. -/
def lerp (p q : Point) (t : Float) : Point := p.add (scale t (q.sub p))

/-- The same place; zero of either sign counts as one. -/
def same (p q : Point) : Bool := p.x == q.x && p.y == q.y

/-- The transform that moves the origin to the point. -/
def shift (p : Point) : String :=
  "translate(" ++ Decimal.compact p.x ++ ", " ++ Decimal.compact p.y ++ ")"

end Point

/-! ## Rectangles -/

/-- A rectangle with the corners `(x0, y0)` and `(x1, y1)`. -/
structure Rect where
  x0 : Float
  y0 : Float
  x1 : Float
  y1 : Float
  deriving DecidableEq

/-- A frame as scripts give it: a corner and a size. -/
structure Frame where
  x : Float
  y : Float
  width : Float
  height : Float
  deriving DecidableEq

/-- The rectangle of a frame. -/
def Frame.rect (f : Frame) : Rect :=
  ⟨f.x, f.y, f.x + f.width, f.y + f.height⟩

namespace Rect

def width (r : Rect) : Float := r.x1 - r.x0

def height (r : Rect) : Float := r.y1 - r.y0

/-- The rectangle a fraction `t` of the way from `a` to `b`, coordinate by coordinate. -/
def lerp (a b : Rect) (t : Float) : Rect :=
  let mix (p q : Float) : Float := p + (q - p) * t
  ⟨mix a.x0 b.x0, mix a.y0 b.y0, mix a.x1 b.x1, mix a.y1 b.y1⟩

/-! ## View boxes -/

/-- The view box of a rectangle. -/
def viewBox (r : Rect) : String :=
  Decimal.compact r.x0 ++ " " ++ Decimal.compact r.y0 ++ " " ++
    Decimal.compact r.width ++ " " ++ Decimal.compact r.height

/-- What separates the numbers of a view box. -/
def isSeparator (c : Char) : Bool :=
  Text.isAsciiBlank c || c == ','

/-- The rectangle of a view box: four numbers, of which the last two are finite and not
    negative. -/
def ofViewBox? (text : String) : Option Rect :=
  match (Text.words isSeparator text.toList).mapM Decimal.number? with
  | some [x, y, w, h] =>
    if w.isFinite && h.isFinite && 0 ≤ w && 0 ≤ h then some (Frame.rect ⟨x, y, w, h⟩) else none
  | _ => none

end Rect

end Slideshow

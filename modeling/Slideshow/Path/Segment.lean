/-
  Slideshow.Path.Segment

  Straight lines and Bézier curves: points on them, and their lengths. The length of a cubic
  curve is computed by Gauss–Legendre quadrature; the curve is halved until the estimated
  error is small enough.
-/
import Slideshow.Geometry.Rect
import Slideshow.Scalar

namespace Slideshow

/-! ## Lines -/

/-- A straight line. -/
structure Line where
  p₀ : Point
  p₁ : Point
  deriving DecidableEq

namespace Line

/-- The point at parameter `t`. -/
def eval (l : Line) (t : Float) : Point := l.p₀.lerp l.p₁ t

/-- The length of the line. -/
def length (l : Line) : Float := (l.p₁.sub l.p₀).norm

end Line

/-! ## Quadratic curves -/

/-- A quadratic curve. -/
structure Quad where
  p₀ : Point
  p₁ : Point
  p₂ : Point
  deriving DecidableEq

namespace Quad

/-- The point at parameter `t`. -/
def eval (q : Quad) (t : Float) : Point :=
  let m := 1 - t
  ((q.p₀.scale (m * m)).add ((((q.p₁.scale (m * 2)).add (q.p₂.scale t))).scale t))

/-- The part of the curve between two parameters. -/
def part (q : Quad) (t₀ t₁ : Float) : Quad :=
  let p₀ := q.eval t₀
  let p₂ := q.eval t₁
  let direction := (q.p₁.sub q.p₀).lerp (q.p₂.sub q.p₁) t₀
  ⟨p₀, p₀.add (direction.scale (t₁ - t₀)), p₂⟩

/-- The length of a nearly straight curve, by quadrature with three nodes. -/
def flatLength (q : Quad) : Float :=
  let mix (a b c : Float) : Float :=
    (((q.p₀.scale a).add (q.p₁.scale b)).add (q.p₂.scale c)).norm
  mix (-0.492943519233745) 0.430331482911935 0.0626120363218102 +
    ((q.p₂.sub q.p₀).scale 0.4444444444444444).norm +
    mix (-0.0626120363218102) (-0.430331482911935) 0.492943519233745

/-- The length of the curve. -/
def length (q : Quad) : Float :=
  let d2 := (q.p₀.sub (q.p₁.scale 2)).add q.p₂
  let d1 := q.p₁.sub q.p₀
  let a := d2.norm2
  let c := d1.norm2
  if a < 5e-4 * c then q.flatLength
  else
    let b := 2 * d2.dot d1
    let sabc := (a + b + c).sqrt
    let a2 := a.pow (-0.5)
    let a32 := a2 * a2 * a2
    let c2 := 2 * c.sqrt
    let bend := b * a2 + c2
    let v := 0.25 * a2 * a2 * b * (2 * sabc - c2) + sabc
    if bend < 1e-13 then v
    else v + 0.25 * a32 * (4 * c * a - b * b) * (((2 * a + b) * a2 + 2 * sabc) / bend).log

end Quad

/-! ## Quadrature -/

/-- Weights and nodes of Gauss–Legendre quadrature on `[-1, 1]`, of which only the positive
    nodes are listed. -/
abbrev Rule : Type := List (Float × Float)

def Rule.eight : Rule :=
  [(0.362683783378362, 0.1834346424956498), (0.31370664587788727, 0.525532409916329),
    (0.22238103445337448, 0.7966664774136267), (0.10122853629037626, 0.9602898564975363)]

def Rule.sixteen : Rule :=
  [(0.1894506104550685, 0.09501250983763744), (0.18260341504492358, 0.2816035507792589),
    (0.16915651939500254, 0.45801677765722737), (0.14959598881657674, 0.6178762444026438),
    (0.12462897125553388, 0.755404408355003), (0.09515851168249279, 0.8656312023878318),
    (0.062253523938647894, 0.9445750230732326), (0.027152459411754096, 0.9894009349916499)]

def Rule.twentyFour : Rule :=
  [(0.12793819534675216, 0.06405689286260563), (0.1258374563468283, 0.1911188674736163),
    (0.12167047292780339, 0.3150426796961634), (0.1155056680537256, 0.4337935076260451),
    (0.10744427011596563, 0.5454214713888396), (0.09761865210411388, 0.6480936519369755),
    (0.08619016153195327, 0.7401241915785544), (0.0733464814110803, 0.820001985973903),
    (0.05929858491543678, 0.8864155270044011), (0.04427743881741981, 0.9382745520027328),
    (0.028531388628933663, 0.9747285559713095), (0.0123412297999872, 0.9951872199970213)]

/-- The sum of the weighted values of a function at all nodes. -/
def Rule.sum (r : Rule) (f : Float → Float) : Float :=
  r.foldl (fun s e => s + e.1 * (f e.2 + f (-e.2))) 0

/-! ## Cubic curves -/

/-- A cubic curve. -/
structure Cubic where
  p₀ : Point
  p₁ : Point
  p₂ : Point
  p₃ : Point
  deriving DecidableEq

namespace Cubic

/-- The point at parameter `t`. -/
def eval (c : Cubic) (t : Float) : Point :=
  let m := 1 - t
  let tail := (c.p₂.scale (m * 3)).add (c.p₃.scale t)
  (c.p₀.scale (m * m * m)).add (((c.p₁.scale (m * m * 3)).add (tail.scale t)).scale t)

/-- The curve of derivatives. -/
def derivative (c : Cubic) : Quad :=
  ⟨(c.p₁.sub c.p₀).scale 3, (c.p₂.sub c.p₁).scale 3, (c.p₃.sub c.p₂).scale 3⟩

/-- The part of the curve between two parameters. -/
def part (c : Cubic) (t₀ t₁ : Float) : Cubic :=
  let p₀ := c.eval t₀
  let p₃ := c.eval t₁
  let k := (t₁ - t₀) * (1 / 3)
  ⟨p₀, p₀.add ((c.derivative.eval t₀).scale k), p₃.sub ((c.derivative.eval t₁).scale k), p₃⟩

/-- The two halves of the curve. -/
def halves (c : Cubic) : Cubic × Cubic :=
  let m := c.eval 0.5
  let a := (c.p₀.add (c.p₁.scale 2)).add c.p₂
  let b := (c.p₁.add (c.p₂.scale 2)).add c.p₃
  (⟨c.p₀, (c.p₀.add c.p₁).scale 0.5, a.scale 0.25, m⟩,
    ⟨m, b.scale 0.25, (c.p₂.add c.p₃).scale 0.5, c.p₃⟩)

/-- A third of the derivative in the middle, and its first and second change. -/
def middle (c : Cubic) : Point × Point × Point :=
  let d01 := c.p₁.sub c.p₀
  let d12 := c.p₂.sub c.p₁
  let d23 := c.p₃.sub c.p₂
  let dd1 := d12.sub d01
  let dd2 := d23.sub d12
  (((d01.add d23).scale 0.25).add (d12.scale 0.5), (dd2.add dd1).scale 0.5,
    (dd2.sub dd1).scale 0.25)

/-- The length by a rule of quadrature. -/
def lengthBy (c : Cubic) (r : Rule) : Float :=
  let (d, d1, d2) := c.middle
  r.sum (fun x => ((d.add (d2.scale (x * x))).add (d1.scale x)).norm) * 1.5

/-- How much the control polygon is longer than the chord. -/
def excess (c : Cubic) : Float :=
  (c.p₁.sub c.p₀).norm + (c.p₂.sub c.p₁).norm + (c.p₃.sub c.p₂).norm - (c.p₃.sub c.p₀).norm

/-- How unevenly the curve is passed through. -/
def unevenness (c : Cubic) : Float :=
  let (d, d1, d2) := c.middle
  Rule.eight.sum fun x =>
    (d1.add (d2.scale (2 * x))).norm2 /
      ((d.add (d1.scale x)).add (d2.scale (x * x))).norm2

/-- The length to a given accuracy; the curve may be halved `depth` times. -/
def lengthTo (c : Cubic) (accuracy : Float) : Nat → Float
  | 0 =>
    let e := c.unevenness
    let e3 := e * e * e
    if Scalar.earlier (e3 * 2.5e-6) 3e-2 * c.excess < accuracy then c.lengthBy .eight
    else if Scalar.earlier (e3 * e3 * 1.5e-11) 9e-3 * c.excess < accuracy then
      c.lengthBy .sixteen
    else c.lengthBy .twentyFour
  | depth + 1 =>
    let e := c.unevenness
    let e3 := e * e * e
    if Scalar.earlier (e3 * 2.5e-6) 3e-2 * c.excess < accuracy then c.lengthBy .eight
    else if Scalar.earlier (e3 * e3 * 1.5e-11) 9e-3 * c.excess < accuracy then
      c.lengthBy .sixteen
    else if Scalar.earlier (e3 * e3 * e3 * 3.5e-16) 3.5e-3 * c.excess < accuracy then
      c.lengthBy .twentyFour
    else
      c.halves.1.lengthTo (accuracy * 0.5) depth + c.halves.2.lengthTo (accuracy * 0.5) depth

/-- The length to a given accuracy. -/
def length (c : Cubic) (accuracy : Float) : Float :=
  c.lengthTo accuracy 20

end Cubic

/-! ## Segments -/

/-- A piece of a path. -/
inductive Segment where
  | line (l : Line)
  | quad (q : Quad)
  | cubic (c : Cubic)
  deriving DecidableEq

namespace Segment

/-- The point at parameter `t`. -/
def eval : Segment → Float → Point
  | line l, t => l.eval t
  | quad q, t => q.eval t
  | cubic c, t => c.eval t

/-- The length to a given accuracy. -/
def length (accuracy : Float) : Segment → Float
  | line l => l.length
  | quad q => q.length
  | cubic c => c.length accuracy

/-- The length of the part between two parameters. -/
def partLength (accuracy t₀ t₁ : Float) : Segment → Float
  | line l => (l.eval t₁).sub (l.eval t₀) |>.norm
  | quad q => (q.part t₀ t₁).length
  | cubic c => (c.part t₀ t₁).length accuracy

end Segment

end Slideshow

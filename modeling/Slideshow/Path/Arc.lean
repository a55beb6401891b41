/-
  Slideshow.Path.Arc

  Elliptical arcs between two points, drawn as a row of cubic curves. Radii that are too
  small for the two points are enlarged; without radii the arc is a straight line.
-/
import Slideshow.Decimal.Binary
import Slideshow.Path.Segment

namespace Slideshow

/-! ## Angles -/

/-- A full turn. -/
def turn : Float := 2 * 3.141592653589793

/-- A quarter turn. -/
def quarterTurn : Float := 1.5707963267948966

/-- The remainder of an angle after full turns, with the sign of the angle. It is exact,
    however many turns there are. -/
def withinTurn (x : Float) : Float :=
  if x.abs < turn then x
  else
    match Decimal.Binary.ofFloat? x, Decimal.Binary.ofFloat? turn with
    | some a, some t =>
      let shift := (a.exponent - t.exponent).toNat
      let rest := Float.scaleB (Float.ofNat (a.significand * Nat.pow 2 shift % t.significand))
        t.exponent
      if a.negative then -rest else rest
    | _, _ => 0 / 0

/-- A point turned around the origin. -/
def Point.rotate (p : Point) (angle : Float) : Point :=
  ⟨p.x * angle.cos - p.y * angle.sin, p.x * angle.sin + p.y * angle.cos⟩

/-- The angle of a point, seen from the origin. -/
def Point.angle (p : Point) : Float := Float.atan2 p.y p.x

/-! ## Arcs -/

/-- An arc as path data describe it. The rotation of the ellipse is an angle in degrees. -/
structure ArcData where
  start : Point
  goal : Point
  radii : Point
  rotation : Float
  large : Bool
  sweep : Bool

/-- An arc of an ellipse around a center. -/
structure Arc where
  center : Point
  radii : Point
  rotation : Float
  startAngle : Float
  sweepAngle : Float

/-- There is no ellipse to follow. -/
def ArcData.isStraight (a : ArcData) : Bool :=
  a.radii.x.abs ≤ 1e-5 || a.radii.y.abs ≤ 1e-5 || a.start.same a.goal

/-- The arc that data describe, unless it is a straight line. -/
def Arc.ofData? (a : ArcData) : Option Arc :=
  if a.isStraight then none
  else
    let rotation := a.rotation * (3.141592653589793 / 180)
    let phi := withinTurn rotation
    let half := (a.start.sub a.goal).scale 0.5
    let middle := (a.start.add a.goal).scale 0.5
    let p : Point :=
      ⟨phi.cos * half.x + phi.sin * half.y, phi.cos * half.y - phi.sin * half.x⟩
    let rx := a.radii.x.abs
    let ry := a.radii.y.abs
    let ratio := p.x * p.x / (rx * rx) + p.y * p.y / (ry * ry)
    let growth := if 1 < ratio then ratio.sqrt else 1
    let rx := rx * growth
    let ry := ry * growth
    let sum := rx * p.y * (rx * p.y) + ry * p.x * (ry * p.x)
    let size := ((rx * ry * (rx * ry) - sum) / sum).abs.sqrt
    let coefficient := if a.large == a.sweep then -size else size
    let c : Point := ⟨coefficient * (rx * p.y) / ry, -coefficient * (ry * p.x) / rx⟩
    let first : Point := ⟨(p.x - c.x) / rx, (p.y - c.y) / ry⟩
    let last : Point := ⟨(-p.x - c.x) / rx, (-p.y - c.y) / ry⟩
    let sweepAngle := withinTurn (last.angle - first.angle)
    some {
      center := ⟨phi.cos * c.x - phi.sin * c.y + middle.x, phi.sin * c.x + phi.cos * c.y + middle.y⟩
      radii := ⟨rx, ry⟩
      rotation
      startAngle := first.angle
      sweepAngle :=
        if a.sweep && sweepAngle < 0 then sweepAngle + turn
        else if !a.sweep && 0 < sweepAngle then sweepAngle - turn
        else sweepAngle }

namespace Arc

/-- The point of the ellipse at an angle, seen from the center. -/
def sample (a : Arc) (angle : Float) : Point :=
  (Point.mk (a.radii.x * angle.cos) (a.radii.y * angle.sin)).rotate a.rotation

/-- The number of cubic curves that follow the arc closely enough. -/
def pieces (a : Arc) : Float :=
  let error := Scalar.later a.radii.x a.radii.y / 0.1
  let perTurn := Scalar.later ((1.1163 * error).pow (1 / 6)) 3.999999
  (perTurn * a.sweepAngle.abs * (1 / turn)).ceil

/-- Cubic curves along the arc, `count` of them, each over an angle of `step`. -/
def curvesFrom (a : Arc) (step arm : Float) : Nat → Float → Point → List Cubic
  | 0, _, _ => []
  | count + 1, angle, p₀ =>
    let next := angle + step
    let p₃ := a.sample next
    let p₁ := p₀.add ((a.sample (angle + quarterTurn)).scale arm)
    let p₂ := p₃.sub ((a.sample (next + quarterTurn)).scale arm)
    ⟨a.center.add p₀, a.center.add p₁, a.center.add p₂, a.center.add p₃⟩ ::
      a.curvesFrom step arm count next p₃

/-- The cubic curves that follow the arc. -/
def curves (a : Arc) : List Cubic :=
  let n := a.pieces
  let step := a.sweepAngle / n
  let arm := 4 / 3 * (0.25 * step).abs.tan
  let arm := if a.sweepAngle < 0 then -arm else arm
  a.curvesFrom step arm n.toUInt64.toNat a.startAngle (a.sample a.startAngle)

end Arc

end Slideshow

/-
  Slideshow.Picture.Shape

  The outlines of shapes. Round corners, circles and ellipses are drawn with arcs, each over
  a quarter turn.
-/
import Slideshow.Picture.Style
import Slideshow.Picture.Trace

namespace Slideshow.Picture

/-! ## Round corners -/

/-- An arc to a point, with radii along the axes. Without radii it is a straight line. -/
def arcTo (rx ry : Float32) (start goal : Spot) : Outline :=
  let data : ArcData := ⟨start.toPoint, goal.toPoint, ⟨rx.toFloat, ry.toFloat⟩, 0, false, true⟩
  match Arc.ofData? data with
  | none => [.point goal]
  | some arc => follow start arc.curves
where
  /-- Curves one after another, each from the point that was reached. -/
  follow (tip : Spot) : List Cubic → Outline
    | [] => []
    | c :: cs =>
      let next := Spot.ofPoint c.p₃
      .cubic tip (.ofPoint c.p₁) (.ofPoint c.p₂) next :: follow next cs

/-- Where an outline ends. -/
def Outline.tip (o : Outline) (start : Spot) : Spot :=
  ((o.getLast?.bind fun s => s.points.getLast?)).getD start

/-- Arcs and lines from a point to others; a line stands for an arc without radii. -/
def Outline.rounded (rx ry : Float32) (start : Spot) (goals : List (Bool × Spot)) : Outline :=
  goals.foldl
    (fun o g => o ++ if g.1 then arcTo rx ry (o.tip start) g.2 else [.point g.2])
    [.point start]

/-- An ellipse around a center. -/
def Outline.ellipse (cx cy rx ry : Float32) : Outline :=
  .rounded rx ry ⟨cx + rx, cy⟩
    [(true, ⟨cx, cy + ry⟩), (true, ⟨cx - rx, cy⟩), (true, ⟨cx, cy - ry⟩), (true, ⟨cx + rx, cy⟩)]

/-- A rectangle with round corners. -/
def Outline.roundRect (x y w h rx ry : Float32) : Outline :=
  .rounded rx ry ⟨x + rx, y⟩
    [(false, ⟨x + w - rx, y⟩), (true, ⟨x + w, y + ry⟩),
      (false, ⟨x + w, y + h - ry⟩), (true, ⟨x + w - rx, y + h⟩),
      (false, ⟨x + rx, y + h⟩), (true, ⟨x, y + h - ry⟩),
      (false, ⟨x, y + ry⟩), (true, ⟨x + rx, y⟩)]

/-! ## Shapes -/

/-- A length that something can have. -/
def isExtent (x : Float32) : Bool := 0 < x && x.isFinite

/-- The radii of an ellipse or of round corners. One that is absent or negative is the same
    as the other. -/
def radii (s : Surroundings) (a : Attributes) : Float32 × Float32 :=
  let given (name : String) : Option Length := (a.length? name).filter fun l => !l.isNegative
  match given "rx", given "ry" with
  | none, none => (0, 0)
  | some l, none => let r := s.measure .across l; (r, r)
  | none, some l => let r := s.measure .down l; (r, r)
  | some l, some m => (s.measure .across l, s.measure .down m)

/-- The outline of a rectangle. Its corners are at most as round as its sides are long. -/
def rectangle (s : Surroundings) (a : Attributes) : Outline :=
  let w := s.pixels a .across "width"
  let h := s.pixels a .down "height"
  if isExtent w && isExtent h then
    let x := s.pixels a .across "x"
    let y := s.pixels a .down "y"
    let (rx, ry) := radii s a
    let rx := Box.least rx (w / 2)
    let ry := Box.least ry (h / 2)
    if rx == 0 && ry == 0 then
      (Box.mk x y (x + w) (y + h)).corners.map .point
    else .roundRect x y w h rx ry
  else []

/-- The outline of an ellipse with given radii, which has to have both. -/
def oval (s : Surroundings) (a : Attributes) (rx ry : Float32) : Outline :=
  if isExtent rx && isExtent ry then
    .ellipse (s.pixels a .across "cx") (s.pixels a .down "cy") rx ry
  else []

/-- The point at the front of a list of numbers, and the rest of the list. -/
def spot? (cs : List Char) : Option (Spot × List Char) :=
  (listed? cs).bind fun p =>
    (listed? p.2).map fun q => (⟨p.1.toFloat32, q.1.toFloat32⟩, q.2)

theorem length_of_spot? {cs rest : List Char} {p : Spot} (h : spot? cs = some (p, rest)) :
    rest.length < cs.length := by
  obtain ⟨x, hx, h⟩ := Option.bind_eq_some_iff.1 h
  simp only [Option.map_eq_some_iff, Prod.mk.injEq] at h
  obtain ⟨y, hy, _, rfl⟩ := h
  exact Nat.lt_trans (length_of_listed? hy) (length_of_listed? hx)

/-- The points of a list of numbers, up to the first fault. -/
def listedSpots (cs : List Char) : List Spot :=
  match h : spot? cs with
  | none => []
  | some (p, rest) =>
    have : rest.length < cs.length := length_of_spot? h
    p :: listedSpots rest
termination_by cs.length

/-- The outline of a row of points, of which there must be two. -/
def polygon (a : Attributes) : Outline :=
  let spots := listedSpots ((a.get? "points").getD "").toList
  if spots.length < 2 then [] else spots.map .point

/-- The outline of a shape, by the name of its element. What is no shape has none. -/
def Outline.ofShape (s : Surroundings) (name : String) (a : Attributes) : Outline :=
  match name with
  | "rect" => rectangle s a
  | "circle" => let r := s.pixels a .any "r"; oval s a r r
  | "ellipse" => let (rx, ry) := radii s a; oval s a rx ry
  | "line" =>
    [.point ⟨s.pixels a .across "x1", s.pixels a .down "y1"⟩,
      .point ⟨s.pixels a .across "x2", s.pixels a .down "y2"⟩]
  | "polyline" => polygon a
  | "polygon" => polygon a
  | "path" => .ofPathData ((a.get? "d").getD "")
  | _ => []

end Slideshow.Picture

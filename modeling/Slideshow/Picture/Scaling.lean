/-
  Slideshow.Picture.Scaling

  Pictures of scenes. A picture has the size of its drawing in whole pixels; one of some
  other width keeps the proportions.
-/
import Slideshow.Picture.Drawing

namespace Slideshow

/-- A picture: how many pixels it has in each direction. -/
structure Picture where
  width : Nat
  height : Nat
  deriving DecidableEq

namespace Picture

/-- A number of pixels: the nearest whole number, but at least one. -/
def pixelCount (x : Float32) : Nat :=
  let rounded := x.round
  (if 1 ≤ rounded then rounded else 1).toUInt32.toNat

/-- How much a drawing is enlarged to get a given width. -/
def scale (size : Size) : Option Nat → Float32
  | some width => width.toUInt32.toFloat32 / size.width
  | none => 1

/-- The picture of a drawing that is enlarged. -/
def ofSize (size : Size) (scale : Float32) : Picture :=
  ⟨pixelCount (size.width * scale), pixelCount (size.height * scale)⟩

/-- A picture, unless it is too large. -/
def limited (p : Picture) : Except SceneFault Picture :=
  if maxPixels < p.width ∨ maxPixels < p.height then .error (.tooLarge p.width p.height)
  else .ok p

theorem limited_eq_ok_iff {p q : Picture} :
    p.limited = .ok q ↔ p = q ∧ p.width ≤ maxPixels ∧ p.height ≤ maxPixels := by
  unfold limited
  split
  · simp only [reduceCtorEq, false_iff]
    omega
  · simp only [Except.ok.injEq, iff_self_and]
    omega

end Picture

/-- The picture of a scene, in its own size or in a given width. -/
def Scene.picture (s : Scene) (width : Option Nat) : Except SceneFault Picture :=
  match Markup.Document.ofText? s.text with
  | none => .error .noPicture
  | some d =>
    if d.name = ⟨some svgSpace, "svg"⟩ then
      match Picture.drawingSize? d with
      | some size => (Picture.ofSize size (Picture.scale size width)).limited
      | none => .error .noPicture
    else .error .noPicture

end Slideshow

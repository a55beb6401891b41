/-
  Slideshow.Picture.Size

  Sizes in pixels, and view boxes: four numbers, which stand for a place and a size.
-/
import Slideshow.Picture.Transform

namespace Slideshow.Picture

/-! ## Sizes -/

/-- A width and a height in pixels. -/
structure Size where
  width : Float32
  height : Float32

namespace Size

/-- A size that something can be drawn in. -/
def isProper (s : Size) : Bool :=
  s.width.isFinite && s.height.isFinite && 0 < s.width && 0 < s.height

/-- The size of a drawing that gives none. -/
def usual : Size := ⟨100, 100⟩

end Size

/-! ## View boxes -/

/-- The part of the plane that is shown. -/
structure ViewBox where
  corner : Spot
  size : Size

namespace ViewBox

/-- The view box with a corner and a size. Its size is what is left of the place of the far
    corner. -/
def ofCorner? (x y w h : Float32) : Option ViewBox :=
  let right := x + w
  let bottom := y + h
  let size : Size := ⟨right - x, bottom - y⟩
  if x.isFinite && y.isFinite && right.isFinite && bottom.isFinite && size.isProper then
    some ⟨⟨x, y⟩, size⟩
  else none

/-- The view box of a text. -/
def ofText? (text : String) : Option ViewBox := do
  let (x, rest) ← listed? text.toList
  let (y, rest) ← listed? rest
  let (w, rest) ← listed? rest
  let (h, _) ← listed? rest
  if 0 < w && 0 < h then ofCorner? x.toFloat32 y.toFloat32 w.toFloat32 h.toFloat32 else none

end ViewBox

end Slideshow.Picture

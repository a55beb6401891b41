/-
  Slideshow.Picture.Style

  What the attributes of an element say about its drawing. A property may be given by an
  attribute of its own or, which counts more, in the attribute `style`. Lengths depend on the
  size of the font and on the whole that shares are shares of.
-/
import Slideshow.Picture.Size
import Slideshow.Picture.Transform
import Slideshow.Scene.Document

namespace Slideshow.Picture

open Markup (Name)

/-! ## Attributes -/

/-- Attributes by their names without namespaces; the first of a name counts. -/
abbrev Attributes : Type := List (String × String)

/-- Properties that may be given in a style. -/
def styleNames : List String := ["display", "font-size", "transform"]

/-- The declarations of a style, such as `display: none`. -/
def declarations (style : String) : List (String × String) :=
  (Text.pieces (· == ';') style.toList).filterMap fun part =>
    (Text.splitAt? [':'] part).map fun p =>
      (String.ofList (Text.trim p.1), String.ofList (Text.trim p.2))

namespace Attributes

/-- The attributes of an element in a namespace that drawings know, behind the properties of
    its style. Of two declarations the later one counts. -/
def ofElement (attrs : List (Name × String)) : Attributes :=
  let own := attrs.filterMap fun a =>
    match a.1.space with
    | none => some (a.1.name, a.2)
    | some space =>
      if space == svgSpace || space == xlinkSpace || space == Markup.xmlSpace then
        some (a.1.name, a.2)
      else none
  let style := ((attrs.find? fun a => a.1 == ⟨none, "style"⟩).map (·.2)).getD ""
  let styled := (declarations style).filter fun d => styleNames.contains d.1
  styled.reverse ++ own

def get? (a : Attributes) (name : String) : Option String :=
  (a.find? fun e => e.1 == name).map (·.2)

/-- The length that an attribute gives. -/
def length? (a : Attributes) (name : String) : Option Length :=
  (a.get? name).bind Length.ofText?

/-- The transform of the element. -/
def transform (a : Attributes) : Transform :=
  ((a.get? "transform").map Transform.ofText).getD .identity

/-- One of the languages is the one that pictures are made for. -/
def speaks (languages : String) : Bool :=
  (Text.pieces (· == ',') languages.toList).any fun part =>
    let language := Text.trim part
    language.takeWhile (· != '-') == ['e', 'n']

/-- The element is drawn: it is not switched off, its conditions hold, and its transform
    flattens nothing. -/
def isShown (a : Attributes) : Bool :=
  a.get? "display" != some "none" && a.transform.isProper &&
    (a.get? "requiredExtensions").isNone &&
    ((a.get? "systemLanguage").map speaks).getD true

end Attributes

/-! ## Fonts -/

/-- How many steps a named size is above the size around. -/
def fontSteps : String → Int
  | "xx-small" => -3
  | "x-small" => -2
  | "small" => -1
  | "smaller" => -1
  | "large" => 1
  | "larger" => 1
  | "x-large" => 2
  | "xx-large" => 3
  | _ => 0

/-- A size of a font that is some steps larger, each by a fifth. -/
def stepped (size : Float32) (steps : Int) : Float32 :=
  let factor := (List.replicate steps.natAbs (1.2 : Float32)).foldl (· * ·) 1
  if steps < 0 then size * (1 / factor) else size * factor

/-- The size of the usual font. -/
def usualFont : Float32 := 12

/-- The size of an element's font, inside of an element with a font of size `around`. -/
def fontSize (around : Float32) (a : Attributes) : Float32 :=
  match a.get? "font-size" with
  | none => around
  | some "inherit" => around
  | some text =>
    match Length.ofText? text with
    | some l => if l.isShare then l.number.toFloat32 * around * 0.01 else l.pixels 0 around
    | none => stepped around (fontSteps text)

/-! ## Measuring -/

/-- What an element is drawn in. -/
structure Surroundings where
  /-- The size that shares are shares of. -/
  whole : Size
  /-- The size of the font. -/
  font : Float32
  /-- The transforms of all elements around. -/
  placement : Transform

/-- The direction of a length. -/
inductive Direction where
  | across
  | down
  /-- Neither of both, such as a radius. -/
  | any

namespace Surroundings

/-- The whole of a direction. -/
def total (s : Surroundings) : Direction → Float32
  | .across => s.whole.width
  | .down => s.whole.height
  | .any => ((s.whole.width * s.whole.width + s.whole.height * s.whole.height) / 2).sqrt

/-- The pixels of a length. -/
def measure (s : Surroundings) (d : Direction) (l : Length) : Float32 :=
  l.pixels (s.total d) s.font

/-- The pixels that an attribute gives, which are none if it is absent. -/
def pixels (s : Surroundings) (a : Attributes) (d : Direction) (name : String) : Float32 :=
  ((a.length? name).map (s.measure d)).getD 0

/-- The surroundings inside an element, whose transform is made before those around. -/
def enter (s : Surroundings) (a : Attributes) : Surroundings :=
  { s with font := fontSize s.font a, placement := s.placement.after a.transform }

end Surroundings

end Slideshow.Picture

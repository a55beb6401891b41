/-
  Slideshow.Picture.Drawing

  How large a drawing is. It has the size that its root element gives; a view box stands in
  for what is missing, and without one the drawing ends where its shapes end. Texts count for
  nothing, as fonts differ. Main definition: `drawingSize?`.
-/
import Slideshow.Picture.Shape

namespace Slideshow.Picture

open Markup (Name Tree Document)

/-! ## Elements by name and id -/

/-- The kind of an element that can be part of a drawing. A link is a group. -/
def kind? (name : Name) : Option String :=
  if name.space == some svgSpace then some (if name.name == "a" then "g" else name.name)
  else none

/-- The id of an element. -/
def id? (attrs : List (Name × String)) : Option String :=
  (attrs.find? fun a => a.1 == ⟨none, "id"⟩).map (·.2)

/-- The id that a reference names. -/
def referenceId? (text : String) : Option String :=
  match Text.trim text.toList with
  | '#' :: id => if id.isEmpty then none else some (String.ofList id)
  | _ => none

/-- The id of the element that an element uses. -/
def usedId? (attrs : List (Name × String)) : Option String :=
  let get? (space : Option String) : Option String :=
    (attrs.find? fun a => a.1 == ⟨space, "href"⟩).map (·.2)
  ((get? (some xlinkSpace)).or (get? none)).bind referenceId?

/-- Elements under their ids, of which the first one in the document counts. -/
abbrev Elements : Type := List (String × Tree)

mutual

/-- The elements inside a tree that have an id. -/
def identified : Tree → Elements
  | .text _ => []
  | .element name attrs children =>
    ((id? attrs).map fun id => (id, Tree.element name attrs children)).toList ++
      identifiedAmong children

def identifiedAmong : List Tree → Elements
  | [] => []
  | t :: ts => identified t ++ identifiedAmong ts

end

/-- The element of an id. -/
def Elements.get? (es : Elements) (id : String) : Option Tree :=
  (es.find? fun e => e.1 == id).map (·.2)

mutual

/-- The ids that are used inside a tree. -/
def usedIds : Tree → List String
  | .text _ => []
  | .element name attrs children =>
    (if kind? name == some "use" then (usedId? attrs).toList else []) ++ usedIdsAmong children

def usedIdsAmong : List Tree → List String
  | [] => []
  | t :: ts => usedIds t ++ usedIdsAmong ts

end

/-- The children of an element. -/
def childrenOf : Tree → List Tree
  | .text _ => []
  | .element _ _ children => children

/-! ## View boxes inside of drawings -/

/-- How a view box is placed where the proportions differ. -/
structure Aspect where
  /-- The share of the room that is left over before the drawing; none if it is stretched. -/
  align : Option (Float32 × Float32)
  /-- It covers all of the room, and is cut. -/
  slice : Bool

/-- The placement of a text such as `xMidYMid meet`. -/
def Aspect.ofText? (text : String) : Option Aspect :=
  let share : String → Option Float32
    | "Min" => some 0
    | "Mid" => some 0.5
    | "Max" => some 1
    | _ => none
  let align? (word : List Char) : Option (Option (Float32 × Float32)) :=
    match word with
    | ['n', 'o', 'n', 'e'] => some none
    | ['x', a, b, c, 'Y', d, e, f] => do
      return some (← share (String.ofList [a, b, c]), ← share (String.ofList [d, e, f]))
    | _ => none
  match Text.words Text.isSpace text.toList with
  | [word] => (align? word).map fun a => ⟨a, false⟩
  | [word, ['m', 'e', 'e', 't']] => (align? word).map fun a => ⟨a, false⟩
  | [word, ['s', 'l', 'i', 'c', 'e']] => (align? word).map fun a => ⟨a, true⟩
  | _ => none

def Aspect.usual : Aspect := ⟨some (0.5, 0.5), false⟩

/-- The transform that puts a view box into a room. -/
def ViewBox.placedIn (v : ViewBox) (aspect : Aspect) (room : Size) : Transform :=
  let sx := room.width / v.size.width
  let sy := room.height / v.size.height
  match aspect.align with
  | none => ⟨sx, 0, 0, sy, -v.corner.x * sx, -v.corner.y * sy⟩
  | some (px, py) =>
    let scale := if aspect.slice then Box.greatest sx sy else Box.least sx sy
    ⟨scale, 0, 0, scale,
      -v.corner.x * scale + (room.width - v.size.width * scale) * px,
      -v.corner.y * scale + (room.height - v.size.height * scale) * py⟩

namespace Surroundings

/-- The size of a nested drawing or symbol, which without one fills the whole. -/
def room (s : Surroundings) (a : Attributes) : Size :=
  ⟨s.measure .across ((a.length? "width").getD .whole),
    s.measure .down ((a.length? "height").getD .whole)⟩

/-- The surroundings behind a move by the place of an element. -/
def movedTo (s : Surroundings) (a : Attributes) : Surroundings :=
  { s with placement := s.placement.after (.move (s.pixels a .across "x") (s.pixels a .down "y")) }

/-- The surroundings in the view box of an element that has got some room. -/
def fitted (s : Surroundings) (a : Attributes) (room : Size) : Surroundings :=
  match (a.get? "viewBox").bind ViewBox.ofText? with
  | some v =>
    if room.isProper then
      let aspect := ((a.get? "preserveAspectRatio").bind Aspect.ofText?).getD .usual
      { s with placement := s.placement.after (v.placedIn aspect room) }
    else s
  | none => s

/-- The surroundings inside a nested drawing. `used` is the size that the element gives which
    uses it. -/
def nested (s : Surroundings) (a : Attributes) (used : Option Length × Option Length) :
    Surroundings :=
  let own := s.room a
  let room : Size :=
    ⟨(used.1.map (s.measure .across)).getD own.width,
      (used.2.map (s.measure .down)).getD own.height⟩
  let whole :=
    match (a.get? "viewBox").bind ViewBox.ofText? with
    | some v => v.size
    | none => if room.isProper then room else s.whole
  { (s.movedTo a).fitted a room with whole }

end Surroundings

/-! ## Boxes of trees -/

/-- The box around what is drawn, if anything is; no answer if elements use one another
    without an end. -/
abbrev Extent : Type := Option (Option Box)

mutual

/-- The box around a tree. `linked` gives the box around the element that another one uses,
    in the surroundings of the latter. -/
def extentWith (linked : Surroundings → List (Name × String) → Extent) (s : Surroundings) :
    Tree → Extent
  | .text _ => some none
  | .element name attrs children =>
    let a := Attributes.ofElement attrs
    match kind? name with
    | none => some none
    | some kind =>
      if !a.isShown then some none
      else
        let inside := s.enter a
        match kind with
        | "g" => extentsWith linked inside children
        | "switch" => firstExtentWith linked inside children
        | "svg" => extentsWith linked (inside.nested a (none, none)) children
        | "use" => linked inside attrs
        | kind => some ((Outline.ofShape inside kind a).boxAfter? inside.placement)

/-- The box around some trees. -/
def extentsWith (linked : Surroundings → List (Name × String) → Extent) (s : Surroundings) :
    List Tree → Extent
  | [] => some none
  | t :: ts => do
    let b ← extentWith linked s t
    let c ← extentsWith linked s ts
    return Box.join? b c

/-- The box around the first element whose conditions hold. -/
def firstExtentWith (linked : Surroundings → List (Name × String) → Extent)
    (s : Surroundings) : List Tree → Extent
  | [] => some none
  | .text _ :: ts => firstExtentWith linked s ts
  | .element name attrs children :: ts =>
    let a := Attributes.ofElement attrs
    if (kind? name).isSome && (a.get? "requiredExtensions").isNone &&
        ((a.get? "systemLanguage").map Attributes.speaks).getD true then
      extentWith linked s (.element name attrs children)
    else firstExtentWith linked s ts

end

/-- The box around the element that another one uses. `outer` is the id of the element by
    which that one was used in turn. An element that would contain itself is not drawn. -/
def linkedExtent (es : Elements) : Nat → Option String → Surroundings →
    List (Name × String) → Extent
  | 0, _, _, _ => none
  | levels + 1, outer, s, attrs =>
    let a := Attributes.ofElement attrs
    match (usedId? attrs).bind fun id => (es.get? id).map fun t => (id, t) with
    | some (id, .element name inner children) =>
      let inward := usedIdsAmong children
      let own := id? attrs
      let among (i : Option String) : Bool := (i.map inward.contains).getD false
      if own == some id || outer == some id || among own || among (some id) then some none
      else
        let next := linkedExtent es levels own
        let b := Attributes.ofElement inner
        let here := s.movedTo a
        match kind? name with
        | some "symbol" =>
          if b.isShown then
            extentsWith next ((here.fitted b (s.room a)).enter b) children
          else some none
        | some "svg" =>
          if b.isShown then
            extentsWith next ((here.enter b).nested b (a.length? "width", a.length? "height"))
              children
          else some none
        | _ => extentWith next here (.element name inner children)
    | _ => some none

/-- Elements may use one another this deep. -/
def maxLevels : Nat := 340

/-! ## Drawings -/

/-- The size that the root element gives, before its shapes are looked at. Shares are shares
    of the view box or, without one, of the usual size. -/
def givenSize? (s : Surroundings) (a : Attributes) (view : Option ViewBox) : Option Size :=
  let width := (a.length? "width").getD .whole
  let height := (a.length? "height").getD .whole
  let share (total : Float32) (l : Length) : Float32 :=
    if l.isShare then total * (l.number.toFloat32 / 100) else l.pixels total s.font
  let total := (view.map (·.size)).getD .usual
  some (Size.mk (share total.width width) (share total.height height)) |>.filter Size.isProper

/-- A size is missing that the shapes have to give. -/
def isOpen (a : Attributes) (view : Option ViewBox) : Bool :=
  view.isNone &&
    (((a.length? "width").getD .whole).isShare || ((a.length? "height").getD .whole).isShare)

/-- The size up to where a box ends, if something can be drawn in it. -/
def sizeTo? (b : Box) : Option Size :=
  some (Size.mk b.right b.bottom) |>.filter Size.isProper

/-- The size of a drawing. -/
def drawingSize? (d : Document) : Option Size := do
  let a := Attributes.ofElement d.attrs
  let view := (a.get? "viewBox").bind ViewBox.ofText?
  let start : Surroundings := ⟨.usual, usualFont, .identity⟩
  let size ← givenSize? (start.enter a) a view
  let elements := identified (.element d.name d.attrs d.children)
  let extent ←
    if a.isShown then
      extentsWith (linkedExtent elements maxLevels none)
        ({ start with whole := size }.enter a) d.children
    else some none
  return if isOpen a view then (extent.bind sizeTo?).getD size else size

end Slideshow.Picture

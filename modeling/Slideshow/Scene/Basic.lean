/-
  Slideshow.Scene.Basic

  Diagrams that can be changed. A scene is a tree of elements and texts. Elements are
  addressed by keys: an element's handle, which it gets from its id, or the handle of an
  owner followed by `::shape` for the first shape inside the owner. Handles are unique.
  Elements that were taken out of the tree stay addressable as long as they have a handle.
-/
import Slideshow.Geometry.Rect

namespace Slideshow

/-! ## Tags -/

/-- An element without its children. -/
structure Tag where
  /-- The key by which the element is found, if there is one. -/
  handle : Option String
  name : String
  attrs : List (String × String)
  deriving DecidableEq, Repr

namespace Tag

/-- The value of an attribute; of two with the same name, the first one. -/
def get? (t : Tag) (name : String) : Option String :=
  (t.attrs.find? fun a => a.1 == name).map (·.2)

/-- Sets the first attribute of a name, or adds one. -/
def setIn (name value : String) : List (String × String) → List (String × String)
  | [] => [(name, value)]
  | a :: rest => if a.1 = name then (name, value) :: rest else a :: setIn name value rest

/-- Sets an attribute. -/
def set (t : Tag) (name value : String) : Tag :=
  { t with attrs := setIn name value t.attrs }

/-- Removes all attributes of a name. -/
def erase (t : Tag) (name : String) : Tag :=
  { t with attrs := t.attrs.filter fun a => a.1 != name }

/-- The id that stands in the element. -/
def id? (t : Tag) : Option String := t.get? "id"

/-- The element is found under the id that stands in it. -/
def isIndexed (t : Tag) : Bool := t.handle.isSome && t.handle == t.id?

/-- The names of shapes. -/
def shapeNames : List String := ["rect", "path", "circle", "ellipse", "polygon", "polyline"]

/-- The element is a shape. -/
def isShape (t : Tag) : Bool := shapeNames.contains t.name

/-- The element without its handle, if that is the id that stands in it. -/
def release (t : Tag) : Tag :=
  if t.isIndexed then { t with handle := none } else t

end Tag

/-! ## Nodes -/

/-- A node of a scene. -/
inductive Node where
  | text (s : String)
  | element (tag : Tag) (children : List Node)

namespace Node

mutual

/-- All text inside a node. -/
def textChars : Node → List Char
  | text s => s.toList
  | element _ children => listTextChars children

/-- All text inside some nodes. -/
def listTextChars : List Node → List Char
  | [] => []
  | n :: ns => n.textChars ++ listTextChars ns

end

mutual

/-- The tags of all elements in a node, in document order. -/
def tags : Node → List Tag
  | text _ => []
  | element tag children => tag :: listTags children

/-- The tags of all elements in some nodes. -/
def listTags : List Node → List Tag
  | [] => []
  | n :: ns => n.tags ++ listTags ns

end

mutual

/-- The node with a change made to every tag in it. -/
def mapTags (f : Tag → Tag) : Node → Node
  | text s => text s
  | element tag children => element (f tag) (listMapTags f children)

/-- Some nodes with a change made to every tag in them. -/
def listMapTags (f : Tag → Tag) : List Node → List Node
  | [] => []
  | n :: ns => n.mapTags f :: listMapTags f ns

end

/-- The node is an element. -/
def tag? : Node → Option Tag
  | text _ => none
  | element tag _ => some tag

/-- The children of a node. -/
def children : Node → List Node
  | text _ => []
  | element _ children => children

/-! ## Addresses -/

/-- A place among nodes: the index of a node, then that of one of its children, and so on. -/
abbrev Address : Type := List Nat

/-- The address behind one more node. -/
def behind : Address → Address
  | [] => []
  | i :: is => (i + 1) :: is

mutual

/-- The first element in document order that has a property, looked for in a node. -/
def find? (p : Tag → Bool) : Node → Option Address
  | text _ => none
  | element tag children =>
    if p tag then some [] else listFind? p children

/-- The first element in document order that has a property, looked for in some nodes. -/
def listFind? (p : Tag → Bool) : List Node → Option Address
  | [] => none
  | n :: ns =>
    match n.find? p with
    | some a => some (0 :: a)
    | none => (listFind? p ns).map behind

end

/-- The node at an address inside a node. -/
def at? : Node → Address → Option Node
  | n, [] => some n
  | n, i :: is => (n.children[i]?).bind fun c => c.at? is

/-- Makes a change to the element at an address inside a node. -/
def modify (f : Tag → List Node → Node) : Address → Node → Node
  | _, text s => text s
  | [], element tag children => f tag children
  | i :: is, element tag children => element tag (children.modify i (modify f is))

end Node

/-! ## Scenes -/

/-- A diagram. -/
structure Scene where
  /-- The namespaces that the root element declares, with their shorthands. -/
  namespaces : List (Option String × String)
  /-- The root element. -/
  tag : Tag
  children : List Node
  /-- Nodes that were taken out of the tree. -/
  detached : List Node

namespace Scene

/-- The root element with everything inside. -/
def root (s : Scene) : Node := .element s.tag s.children

/-- The tree and the nodes that were taken out of it. -/
def forest (s : Scene) : Node := .element ⟨none, "", []⟩ (s.root :: s.detached)

/-- The scene with a changed element. -/
def modify (s : Scene) (a : Node.Address) (f : Tag → List Node → Node) : Scene :=
  match s.forest.modify f a with
  | .element _ (.element tag children :: detached) => { s with tag, children, detached }
  | _ => s

/-! ## Keys -/

/-- What a key ends in that names the first shape inside an element. -/
def shapeEnding : String := "::shape"

/-- The element with a handle. -/
def handleAddress? (s : Scene) (handle : String) : Option Node.Address :=
  s.forest.find? fun t => t.handle == some handle

/-- The first shape strictly inside an element. -/
def shapeInside? (s : Scene) (a : Node.Address) : Option Node.Address :=
  (s.forest.at? a).bind fun n =>
    (Node.listFind? Tag.isShape n.children).map fun b => a ++ b

/-- The element that a key names. -/
def resolve? (s : Scene) (key : String) : Option Node.Address :=
  match s.handleAddress? key with
  | some a => some a
  | none =>
    (Text.stripEnding? shapeEnding key).bind fun owner =>
      (s.handleAddress? owner).bind s.shapeInside?

/-- The tag of the element that a key names. -/
def tag? (s : Scene) (key : String) : Option Tag :=
  ((s.resolve? key).bind s.forest.at?).bind Node.tag?

/-! ## Looking -/

/-- The ids of all elements that are found under them, in document order. -/
def ids (s : Scene) : List String :=
  (s.root.tags.filter Tag.isIndexed).filterMap (·.handle)

/-- A key names an element. -/
def contains (s : Scene) (key : String) : Bool := (s.resolve? key).isSome

/-- All text inside an element. -/
def text? (s : Scene) (key : String) : Option String :=
  ((s.resolve? key).bind s.forest.at?).map fun n => String.ofList n.textChars

/-- An attribute of an element. -/
def attribute? (s : Scene) (key name : String) : Option String :=
  (s.tag? key).bind fun t => t.get? name

/-- A length given by an attribute of the root element, in pixels. -/
def length? (s : Scene) (name : String) : Option Float :=
  (s.tag.get? name).bind fun v =>
    Decimal.number? (Text.stripAll ['p', 'x'] (Text.trim v.toList))

/-- What the camera shows: the view box of the root element, or else its size. -/
def viewport? (s : Scene) : Option Rect :=
  match (s.tag.get? "viewBox").bind Rect.ofViewBox? with
  | some r => some r
  | none => do
    let w ← s.length? "width"
    let h ← s.length? "height"
    return Frame.rect ⟨0, 0, w, h⟩

/-- The key of what is emphasized when an element is: the element itself if it is a shape,
    or else the first shape inside. -/
def emphasisTarget? (s : Scene) (key : String) : Option String := do
  let a ← s.resolve? key
  let t ← (s.forest.at? a).bind Node.tag?
  if t.isShape then return key
  let b ← s.shapeInside? a
  let shape ← (s.forest.at? b).bind Node.tag?
  return if shape.isIndexed then shape.handle.getD key else key ++ shapeEnding

/-! ## Changing -/

/-- Some element of a node has a handle. -/
def hasHandle (n : Node) : Bool := n.tags.any fun t => t.handle.isSome

/-- Puts a text in place of everything inside an element. Elements that were found under the
    ids that stand in them are not found any more. -/
def setText (s : Scene) (key value : String) : Scene :=
  match s.resolve? key with
  | none => s
  | some a =>
    let inside := ((s.forest.at? a).map Node.children).getD []
    let kept := (Node.listMapTags Tag.release inside).filter hasHandle
    let s := s.modify a fun tag _ => .element tag [.text value]
    { s with detached := s.detached ++ kept }

/-- Sets an attribute of an element. A new id becomes its handle, unless another element has
    that handle. -/
def setAttribute (s : Scene) (key name value : String) : Scene :=
  match s.resolve? key with
  | none => s
  | some a =>
    let holder := s.handleAddress? value
    let handle := if holder.isNone || holder == some a then some value else none
    s.modify a fun tag children =>
      let tag := tag.set name value
      .element (if name = "id" then { tag with handle } else tag) children

/-- Removes an attribute of an element; its handle stays. -/
def removeAttribute (s : Scene) (key name : String) : Scene :=
  match s.resolve? key with
  | none => s
  | some a => s.modify a fun tag children => .element (tag.erase name) children

/-- Moves the camera. -/
def setViewport (s : Scene) (r : Rect) : Scene :=
  { s with tag := s.tag.set "viewBox" r.viewBox }

end Scene

end Slideshow

/-
  Slideshow.Scene.Document

  Scenes from documents and back. Names lose their namespace: elements of diagrams have no
  shorthand, other names get the one that the root element declares. An element without
  children is written as one closed tag.
-/
import Slideshow.Failure
import Slideshow.Markup.Document
import Slideshow.Scene.Basic

namespace Slideshow

open Markup (Name Tree Document)

/-! ## Names -/

/-- The namespace of diagrams. -/
def svgSpace : String := "http://www.w3.org/2000/svg"

/-- The namespace of links. -/
def xlinkSpace : String := "http://www.w3.org/1999/xlink"

/-- The shorthand under which names of a namespace are written. -/
def shorthand? (namespaces : List (Option String × String)) (space : String) :
    Option String :=
  if space == xlinkSpace then some "xlink"
  else if space == Markup.xmlSpace then some "xml"
  else (namespaces.find? fun d => d.2 == space && d.1.isSome).bind (·.1)

/-- A name as it is written. -/
def qualified (namespaces : List (Option String × String)) (n : Name) : String :=
  match n.space.bind (shorthand? namespaces) with
  | some p => p ++ ":" ++ n.name
  | none => n.name

/-- The name of an element as it is written. -/
def elementText (namespaces : List (Option String × String)) (n : Name) : String :=
  if n.space == some svgSpace then n.name else qualified namespaces n

/-! ## From documents -/

/-- The tag of an element, which does not have its handle yet. -/
def Tag.ofElement (namespaces : List (Option String × String)) (name : Name)
    (attrs : List (Name × String)) : Tag :=
  ⟨none, elementText namespaces name, attrs.map fun a => (qualified namespaces a.1, a.2)⟩

/-- The id of an element: its attribute `id` in no namespace. -/
def elementKey? (attrs : List (Name × String)) : Option String :=
  (attrs.find? fun a => a.1 == ⟨none, "id"⟩).map (·.2)

/-- The handle for an id, unless it is taken. -/
def freeHandle? (taken : List String) (id : Option String) : Option String :=
  id.filter fun k => !taken.contains k

namespace Node

mutual

/-- The node of a tree, given the handles that are taken, and the handles taken afterwards.
    The elements inside get their handles before the element itself. -/
def ofTree (namespaces : List (Option String × String)) (taken : List String) :
    Tree → Node × List String
  | .text s => (.text s, taken)
  | .element name attrs children =>
    let (nodes, taken) := ofTrees namespaces taken children
    let handle := freeHandle? taken (elementKey? attrs)
    (.element { Tag.ofElement namespaces name attrs with handle } nodes,
      handle.toList ++ taken)

/-- The nodes of some trees. -/
def ofTrees (namespaces : List (Option String × String)) (taken : List String) :
    List Tree → List Node × List String
  | [] => ([], taken)
  | t :: ts =>
    let (n, taken) := ofTree namespaces taken t
    let (ns, taken) := ofTrees namespaces taken ts
    (n :: ns, taken)

end

end Node

/-- The scene of a document. -/
def Scene.ofDocument (d : Document) : Scene :=
  let (children, taken) := Node.ofTrees d.declared [] d.children
  let handle := freeHandle? taken (elementKey? d.attrs)
  { namespaces := d.declared
    tag := { Tag.ofElement d.declared d.name d.attrs with handle }
    children
    detached := [] }

/-- The scene of a text. -/
def Scene.load (text : String) : Except LoadFault Scene :=
  match Document.ofText? text with
  | none => .error .markup
  | some d => if d.name.name == "svg" then .ok (ofDocument d) else .error (.rootName d.name.name)

/-! ## To text -/

/-- A character of running text. -/
def escapeText (c : Char) : List Char :=
  if c = '&' then ['&', 'a', 'm', 'p', ';']
  else if c = '<' then ['&', 'l', 't', ';']
  else if c = '>' then ['&', 'g', 't', ';']
  else [c]

/-- A character of an attribute value. -/
def escapeValue (c : Char) : List Char :=
  if c = '"' then ['&', 'q', 'u', 'o', 't', ';'] else escapeText c

/-- An attribute with the space before it. -/
def attributeText (name value : String) : List Char :=
  ' ' :: name.toList ++ '=' :: '"' :: value.toList.flatMap escapeValue ++ ['"']

/-- The name of the attribute that declares a namespace. -/
def declarationName : Option String → String
  | some p => "xmlns:" ++ p
  | none => "xmlns"

namespace Node

mutual

/-- The text of a node. -/
def chars : Node → List Char
  | text s => s.toList.flatMap escapeText
  | element tag [] =>
    '<' :: tag.name.toList ++ (tag.attrs.flatMap fun a => attributeText a.1 a.2) ++ ['/', '>']
  | element tag (n :: ns) =>
    '<' :: tag.name.toList ++ (tag.attrs.flatMap fun a => attributeText a.1 a.2) ++
      '>' :: listChars (n :: ns) ++ '<' :: '/' :: tag.name.toList ++ ['>']

/-- The text of some nodes. -/
def listChars : List Node → List Char
  | [] => []
  | n :: ns => n.chars ++ listChars ns

end

end Node

/-- The root element as it is written, with its namespaces. -/
def Scene.written (s : Scene) : Node :=
  let declared := s.namespaces.map fun d => (declarationName d.1, d.2)
  .element { s.tag with attrs := declared ++ s.tag.attrs } s.children

/-- The text of a scene. -/
def Scene.text (s : Scene) : String :=
  String.ofList s.written.chars

end Slideshow

/-
  Slideshow.Markup.Tree

  The tree of a document. Elements and attributes have full names, in which a namespace
  stands in place of its shorthand. Neighbouring texts are one text, unless a tag, a comment
  or an instruction stands between them.
-/
import Slideshow.Markup.Token

namespace Slideshow.Markup

/-! ## Full names -/

/-- A name in a namespace, or in none. -/
structure Name where
  space : Option String
  name : String
  deriving DecidableEq, Repr

/-- Namespaces with their shorthands; a default namespace has none. The innermost
    declarations come first. -/
abbrev Scope : Type := List (Option String × String)

def xmlSpace : String := "http://www.w3.org/XML/1998/namespace"

def xmlnsSpace : String := "http://www.w3.org/2000/xmlns/"

/-- The namespace of a shorthand. -/
def Scope.find? (scope : Scope) (shorthand : Option String) : Option String :=
  (List.find? (fun d => d.1 == shorthand) scope).map (·.2)

/-- The full name of an element. Without a shorthand it is in the default namespace. The
    shorthand `xml` is for attributes only, and never declared. -/
def elementName? (scope : Scope) (q : QName) : Option Name :=
  if q.shorthand == "" then some ⟨scope.find? none, q.name⟩
  else (scope.find? (some q.shorthand)).map fun space => ⟨some space, q.name⟩

/-- The full name of an attribute. Without a shorthand it is in no namespace. -/
def attributeName? (scope : Scope) (q : QName) : Option Name :=
  if q.shorthand == "" then some ⟨none, q.name⟩
  else if q.shorthand == "xml" then some ⟨some xmlSpace, q.name⟩
  else (scope.find? (some q.shorthand)).map fun space => ⟨some space, q.name⟩

/-! ## Declarations -/

/-- Sorts the attributes of a tag into the namespaces that they declare and other
    attributes. Reserved namespaces may not be declared under other shorthands, and no
    shorthand twice. -/
def declarations? :
    List (QName × String) → Scope → Option (Scope × List (QName × String))
  | [], declared => some (declared, [])
  | (q, value) :: rest, declared =>
    if q.shorthand == "xmlns" then
      if value == xmlnsSpace then none
      else if (q.name == "xml") != (value == xmlSpace) then none
      else if (declared.find? (some q.name)).isSome then none
      else if value == xmlSpace then declarations? rest declared
      else declarations? rest (declared ++ [(some q.name, value)])
    else if q.name == "xmlns" then
      if value == xmlSpace || value == xmlnsSpace then none
      else declarations? rest (declared ++ [(none, value)])
    else
      (declarations? rest declared).map fun p => (p.1, (q, value) :: p.2)

/-- Attributes with full names, of which no two are equal. -/
def attributesIn? (scope : Scope) (attrs : List (QName × String)) :
    Option (List (Name × String)) := do
  let named ← attrs.mapM fun a => (attributeName? scope a.1).map fun n => (n, a.2)
  if (named.map (·.1)).Nodup then some named else none

/-! ## Trees -/

/-- A node of a document: a text, or an element with attributes and children. -/
inductive Tree where
  | text (s : String)
  | element (name : Name) (attrs : List (Name × String)) (children : List Tree)

/-- An element that is still open. -/
structure Open where
  tag : QName
  name : Name
  attrs : List (Name × String)
  /-- The namespaces that the element itself declares. -/
  declared : Scope
  scope : Scope
  /-- The children so far, the last one first. -/
  done : List Tree
  /-- A text would continue the last child. -/
  afterText : Bool

/-- A document: the root element, and the namespaces that it declares. -/
structure Document where
  declared : Scope
  name : Name
  attrs : List (Name × String)
  children : List Tree

/-- Opens an element inside a scope. -/
def Open.ofTag? (scope : Scope) (q : QName) (attrs : List (QName × String)) : Option Open := do
  if q.shorthand == "xmlns" then none
  let (declared, rest) ← declarations? attrs []
  let scope := declared ++ scope
  let name ← elementName? scope q
  let attrs ← attributesIn? scope rest
  return { tag := q, name, attrs, declared, scope, done := [], afterText := false }

/-- Adds a child. -/
def Open.add (o : Open) (t : Tree) : Open :=
  { o with done := t :: o.done, afterText := false }

/-- Adds text, which continues a text right before it. -/
def Open.addText (o : Open) (s : String) : Open :=
  match o.afterText, o.done with
  | true, .text r :: done => { o with done := .text (r ++ s) :: done }
  | _, done => { o with done := .text s :: done, afterText := true }

/-- The element that has been closed. -/
def Open.tree (o : Open) : Tree := .element o.name o.attrs o.done.reverse

def Open.document (o : Open) : Document := ⟨o.declared, o.name, o.attrs, o.done.reverse⟩

/-- A document that is being built. -/
structure Builder where
  /-- The open elements, the innermost one first. -/
  stack : List Open
  /-- Attributes of tags that were cut off. -/
  pending : List (QName × String)
  /-- The first element that was closed with no other around it. -/
  root : Option Document

namespace Builder

/-- The namespaces in scope. -/
def scope (b : Builder) : Scope := (b.stack.head?.map (·.scope)).getD []

/-- Adds an element that is closed to the one around it. -/
def close (b : Builder) (o : Open) : Builder :=
  match b.stack with
  | [] => { b with root := b.root.or (some o.document) }
  | p :: stack => { b with stack := p.add o.tree :: stack }

/-- Makes a change to the innermost open element. -/
def change (b : Builder) (f : Open → Open) : Builder :=
  match b.stack with
  | [] => b
  | o :: stack => { b with stack := f o :: stack }

/-- Takes a token. Pending attributes have to be proper also at an end tag, where they are
    lost. -/
def step? (b : Builder) : Token → Option Builder
  | .start q attrs closed => do
    let o ← Open.ofTag? b.scope q (b.pending ++ attrs)
    let b := { b with pending := [] }.change fun p => { p with afterText := false }
    return if closed then b.close o else { b with stack := o :: b.stack }
  | .stop q =>
    match b.stack with
    | [] => none
    | o :: stack => do
      if o.tag ≠ q then none
      let (declared, rest) ← declarations? b.pending []
      let _ ← attributesIn? (declared ++ o.scope) rest
      return { b with stack, pending := [] }.close o
  | .cut q attrs => do
    let pending := b.pending ++ attrs
    let _ ← declarations? pending []
    if q.shorthand == "xmlns" then none
    return { b with pending }.change fun o => { o with afterText := false }
  | .text s => some (b.change fun o => o.addText s)
  | .gap => some (b.change fun o => { o with afterText := false })

end Builder

/-- The document of a row of tokens, after which no element may be open. -/
def build? (tokens : List Token) : Option Document := do
  let b ← tokens.foldlM Builder.step? ⟨[], [], none⟩
  if b.stack.isEmpty then b.root else none

end Slideshow.Markup

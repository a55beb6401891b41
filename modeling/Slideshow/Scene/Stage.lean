/-
  Slideshow.Scene.Stage

  What a presentation does to a diagram: it looks elements up by key, reads and writes their
  texts and attributes, and moves the camera. Writing to a key that names no element changes
  nothing.
-/
import Slideshow.Scene.Basic
import Slideshow.Settings

namespace Slideshow

/-- A diagram that can be looked at and changed. -/
class Stage (S : Type) where
  /-- The ids of all elements, in document order. -/
  ids : S → List String
  contains : S → String → Bool
  text? : S → String → Option String
  setText : S → String → String → S
  attribute? : S → String → String → Option String
  setAttribute : S → String → String → String → S
  removeAttribute : S → String → String → S
  viewport? : S → Option Rect
  setViewport : S → Rect → S
  /-- The key of what is emphasized when an element is. -/
  emphasisTarget? : S → String → Option String

instance : Stage Scene where
  ids := Scene.ids
  contains := Scene.contains
  text? := Scene.text?
  setText := Scene.setText
  attribute? := Scene.attribute?
  setAttribute := Scene.setAttribute
  removeAttribute := Scene.removeAttribute
  viewport? := Scene.viewport?
  setViewport := Scene.setViewport
  emphasisTarget? := Scene.emphasisTarget?

namespace Stage

variable {S : Type} [Stage S]

/-- An element has a class. -/
def hasClass (s : S) (key className : String) : Bool :=
  match attribute? s key "class" with
  | none => false
  | some v => (Text.words Text.isAsciiBlank v.toList).contains className.toList

/-- Sets several attributes of an element. -/
def setAttributes (s : S) (key : String) (values : Dict String) : S :=
  values.entries.foldl (fun s e => setAttribute s key e.1 e.2) s

end Stage

/-! ## Phases -/

namespace PhaseIndicator

variable {S : Type} [Stage S]

/-- Marks one phase as active or inactive. -/
def mark (p : PhaseIndicator) (active : Option PhaseKind) (s : S) (phase : PhaseKind) : S :=
  let isActive := active == some phase
  let background := if isActive then p.activeBackground else p.inactiveBackground
  let text := if isActive then p.activeText else p.inactiveText
  let set (s : S) (key : String) (values : Dict String) : S :=
    if Stage.contains s key then Stage.setAttributes s key values else s
  set (set s (p.background ++ phase.name) background) (p.text ++ phase.name) text

/-- Marks the active phase and unmarks the others. -/
def apply (p : PhaseIndicator) (active : Option PhaseKind) (s : S) : S :=
  PhaseKind.all.foldl (p.mark active) s

end PhaseIndicator

end Slideshow

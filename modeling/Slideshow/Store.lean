/-
  Slideshow.Store

  A diagram that remembers how it was. Writes go through the store, which keeps what each
  slot held before the first write, and the texts of all dynamic elements. So the diagram can
  be put back, and the state before or after any step be built on it.
-/
import Slideshow.Scene.Stage
import Slideshow.Topic.Basic

namespace Slideshow

/-! ## Component values before a step -/

/-- The values of a slide's components after its first `count` steps: what a later step
    leaves behind replaces what was there. -/
def Slide.overrides (s : Slide) (count : Nat) : Dict ComponentValue :=
  (s.steps.take count).foldl (fun d step => d.insertMany step.finalState.entries) s.components

/-! ## The store -/

/-- A place that can be written: the text of an element or one of its attributes. -/
inductive Slot where
  | text (key : String)
  | attribute (key name : String)
  deriving DecidableEq

/-- A diagram with the means to put it back. -/
structure Store where
  scene : Scene
  rule : DynamicRule
  /-- The texts of the dynamic elements when the diagram was captured. -/
  baseline : Dict String
  /-- What written slots held before, the last slot first. -/
  journal : List (Slot × Option String)

namespace Store

/-- An element is dynamic. -/
def isDynamic (rule : DynamicRule) (s : Scene) (key : String) : Bool :=
  (rule.idStart != "" && rule.idStart.toList.isPrefixOf key.toList) ||
    (rule.markerClass != "" && Stage.hasClass s key rule.markerClass)

/-- The texts of all dynamic elements. -/
def dynamicTexts (rule : DynamicRule) (s : Scene) : Dict String :=
  .ofList ((s.ids.filter (isDynamic rule s)).filterMap fun key =>
    (s.text? key).map fun t => (key, t))

/-- Takes a diagram as it is. -/
def capture (rule : DynamicRule) (scene : Scene) : Store :=
  ⟨scene, rule, dynamicTexts rule scene, []⟩

/-- Puts another diagram in place. -/
def replace (s : Store) (scene : Scene) : Store := capture s.rule scene

/-! ## Writing -/

/-- What a slot holds. -/
def slotValue? (s : Store) : Slot → Option String
  | .text key => s.scene.text? key
  | .attribute key name => s.scene.attribute? key name

/-- Keeps what a slot holds, unless that was done before. -/
def remember (s : Store) (slot : Slot) : Store :=
  if s.journal.any fun e => e.1 == slot then s
  else { s with journal := (slot, s.slotValue? slot) :: s.journal }

def setText (s : Store) (key value : String) : Store :=
  if s.scene.contains key then
    let s := s.remember (.text key)
    { s with scene := s.scene.setText key value }
  else s

def setAttribute (s : Store) (key name value : String) : Store :=
  if s.scene.contains key then
    let s := s.remember (.attribute key name)
    { s with scene := s.scene.setAttribute key name value }
  else s

def removeAttribute (s : Store) (key name : String) : Store :=
  if s.scene.contains key then
    let s := s.remember (.attribute key name)
    { s with scene := s.scene.removeAttribute key name }
  else s

instance : Stage Store where
  ids s := s.scene.ids
  contains s := s.scene.contains
  text? s := s.scene.text?
  setText := setText
  attribute? s := s.scene.attribute?
  setAttribute := setAttribute
  removeAttribute := removeAttribute
  viewport? s := s.scene.viewport?
  setViewport s r := { s with scene := s.scene.setViewport r }
  emphasisTarget? s := s.scene.emphasisTarget?

/-! ## Putting back -/

/-- Gives a slot what it held before. -/
def undo (s : Scene) : Slot × Option String → Scene
  | (.text key, some t) => s.setText key t
  | (.text _, none) => s
  | (.attribute key name, some v) => s.setAttribute key name v
  | (.attribute key name, none) => s.removeAttribute key name

/-- Undoes all writes, the last slot first, and gives dynamic elements their texts. -/
def reset (s : Store) : Store :=
  let scene := s.journal.foldl undo s.scene
  let scene := s.baseline.entries.foldl (fun c e => c.setText e.1 e.2) scene
  { s with scene, journal := [] }

/-! ## Component values -/

/-- Gives a component its value, if the diagram has it. -/
def applyOne (s : Store) (target : String) (value : ComponentValue) : Store :=
  let key := elementId target
  if s.scene.contains key then
    match value with
    | .text t => s.setText key t
    | .attributes values => Stage.setAttributes s key values
  else s

/-- Gives components their values. -/
def apply (s : Store) (values : Dict ComponentValue) : Store :=
  values.entries.foldl (fun s e => s.applyOne e.1 e.2) s

/-- The state of a slide after its first `count` steps. -/
def restore (s : Store) (slide : Slide) (count : Nat) : Store :=
  s.reset.apply (slide.overrides count)

/-- The texts of the dynamic elements as they are now. -/
def dynamicValues (s : Store) : Dict String :=
  .ofList (s.baseline.keys.filterMap fun key => (s.scene.text? key).map fun t => (key, t))

end Store

end Slideshow

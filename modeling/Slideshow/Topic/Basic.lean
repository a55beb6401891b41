/-
  Slideshow.Topic.Basic

  A topic is a presentation: slides, each with a diagram and the steps shown on it. A step
  has a caption, a list of animation directives, and the values that it leaves behind.
-/
import Slideshow.Geometry.Rect
import Slideshow.Topic.Component
import Slideshow.Topic.PathSpec
import Slideshow.Topic.Phase

namespace Slideshow

/-! ## Directives -/

/-- An instruction to animate the diagram. Times are of type `τ`; a directive that leaves one
    out gets the default. -/
inductive Directive (τ : Type) where
  /-- Moves the camera to a frame. -/
  | camera (frame : Frame) (duration : Option τ) (ease : Option Ease)
  /-- Sends a packet along paths, one after another. -/
  | packet (label : Option String) (start : Option Point) (paths : List (PathSpec τ))
  /-- Sets the text of an element. -/
  | setValue (target value : String)
  /-- Lets an element blink. -/
  | pulse (target : String) (duration : Option τ) (repetitions : Option Nat)
  /-- Lets time pass. -/
  | wait (duration : Option τ)
  /-- Moves attributes of an element to new values. -/
  | attributes (target : String) (values : Dict String) (duration : Option τ)
      (ease : Option Ease)
  /-- Runs directives at the same time. -/
  | parallel (directives : List (Directive τ))

namespace Directive

/-- The kinds of directives. -/
inductive Kind where
  | camera
  | packet
  | setValue
  | pulse
  | wait
  | attributes
  | parallel
  deriving DecidableEq

/-- All kinds, in the order in which they are numbered. -/
def Kind.all : List Kind :=
  [camera, packet, setValue, pulse, wait, attributes, parallel]

/-- The name of a kind in scripts. -/
def Kind.name : Kind → String
  | camera => "camera"
  | packet => "packet"
  | setValue => "setValue"
  | pulse => "pulse"
  | wait => "wait"
  | attributes => "attributeTransition"
  | parallel => "parallel"

/-- The kind of a name. -/
def Kind.ofName? (name : String) : Option Kind :=
  all.find? fun k => k.name == name

/-- A pulse may be repeated this many times. -/
def maxRepetitions : Nat := 1000

/-- The kind of a directive. -/
def kind {τ : Type} : Directive τ → Kind
  | camera .. => .camera
  | packet .. => .packet
  | setValue .. => .setValue
  | pulse .. => .pulse
  | wait .. => .wait
  | attributes .. => .attributes
  | parallel .. => .parallel

end Directive

/-! ## Steps, slides, topics -/

/-- One step of a slide. -/
structure Step where
  id : String
  caption : Caption
  animations : List (Directive Float)
  /-- The values that components have after the step. -/
  finalState : Dict ComponentValue

/-- A slide: a diagram and the steps shown on it. -/
structure Slide where
  id : String
  title : String
  /-- The name of the diagram. -/
  diagram : String
  /-- The values that components have before the first step. -/
  components : Dict ComponentValue
  steps : List Step

/-- A presentation. -/
structure Topic where
  id : String
  title : String
  slides : List Slide

namespace Topic

/-- A slide by its place. -/
def slide? (t : Topic) (slide : Nat) : Option Slide := t.slides[slide]?

/-- A step by its place. -/
def step? (t : Topic) (slide step : Nat) : Option Step :=
  (t.slide? slide).bind fun s => s.steps[step]?

end Topic

end Slideshow

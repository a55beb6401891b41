/-
  Slideshow.Topic.Problem

  What can be wrong with a topic document, and where. A place is a path of fields and
  indices, written as in `slides[1].steps[0].ui`.
-/
import Slideshow.Topic.Basic

namespace Slideshow

/-! ## Places -/

/-- A step into a document. -/
inductive Place where
  | field (name : String)
  | index (i : Nat)
  deriving DecidableEq

/-- A path as text: a point stands before each field but the first. -/
def Place.pathText (path : List Place) : String :=
  path.foldl (fun s p =>
    match p with
    | field name => if s.isEmpty then name else s ++ "." ++ name
    | index i => s ++ "[" ++ toString i ++ "]") ""

/-- The value at the end of a path. -/
def Json.at? : Json → List Place → Option Json
  | j, [] => some j
  | j, .field name :: path => (j.get? name).bind fun k => k.at? path
  | j, .index i :: path => (j.arr?.bind fun xs => xs[i]?).bind fun k => k.at? path

namespace Topic

/-! ## Causes -/

/-- What can be wrong at a place. -/
inductive Cause where
  | topicNotObject
  | slideNotObject
  | stepNotObject
  | directiveNotObject
  /-- A text is absent or blank, or something else that is required is absent. -/
  | missing (name : String)
  | notString (name : String)
  | notArray (name : String)
  /-- An optional list is something else. -/
  | notList (name : String)
  | noSlides
  | noSteps
  | repeatedSlide (id : String)
  | repeatedStep (id : String)
  | notMapping (name : String)
  | component (name id : String) (problem : ComponentValue.Problem)
  | unknownKind (name : String)
  | timeNotNumber (name : String)
  | timeNegative (name : String)
  | easeNotString
  | unknownEase (text : String)
  | cameraFrame
  | packetStart
  | noPaths
  | notCount
  | tooManyRepetitions
  | noAttributes
  | attributeValue (problem : ComponentValue.Problem)
  | pathNotNumber (what : String)
  | pathOutside (what : String)
  | pathTime
  | pathText (problem : PathSpec.Problem)
  | pathForm
  deriving DecidableEq

/-- The wording of a cause. -/
def Cause.message : Cause → String
  | topicNotObject => "topic must be a JSON object"
  | slideNotObject => "slide must be an object"
  | stepNotObject => "step must be an object"
  | directiveNotObject => "animation must be an object"
  | missing name => "missing field: " ++ name
  | notString name => "invalid field: " ++ name ++ " (must be a string)"
  | notArray name => "missing or invalid field: " ++ name ++ " (must be array)"
  | notList name => "invalid field: " ++ name ++ " (must be array)"
  | noSlides => "topic must have at least one slide"
  | noSteps => "slide must have at least one step"
  | repeatedSlide id => "duplicate slide id '" ++ id ++ "'"
  | repeatedStep id => "duplicate step id '" ++ id ++ "'"
  | notMapping name => "invalid field: " ++ name ++ " (must be an object)"
  | component name id problem => name ++ "." ++ id ++ ": " ++ problem.message
  | unknownKind name => "invalid animation type: " ++ name
  | timeNotNumber name => name ++ " must be a number"
  | timeNegative name => name ++ " must be a finite number >= 0"
  | easeNotString => "ease must be a string"
  | unknownEase text => Ease.unknown text
  | cameraFrame => "camera.to must be an array of 4 numbers"
  | packetStart => "packet.from must be an array of 2 numbers"
  | noPaths => "packet must have at least one path"
  | notCount => "repeat must be a non-negative integer"
  | tooManyRepetitions => "repeat must be <= " ++ toString Directive.maxRepetitions
  | noAttributes => "attributes must not be empty"
  | attributeValue problem => problem.message
  | pathNotNumber what => "path " ++ what ++ " must be a number"
  | pathOutside what => "path " ++ what ++ " must be within [0, 1]"
  | pathTime => "path duration must be a finite number >= 0"
  | pathText problem => problem.message
  | pathForm => "path spec must be a string or an object"

/-! ## Problems -/

/-- A cause and the place where it was found. -/
structure Problem where
  path : List Place
  cause : Cause
  deriving DecidableEq

namespace Problem

/-- A problem at the place under consideration. -/
def here (cause : Cause) : Problem := ⟨[], cause⟩

/-- The problems of a part of a document, seen from the whole. -/
def inside (path : List Place) (ps : List Problem) : List Problem :=
  ps.map fun p => ⟨path ++ p.path, p.cause⟩

/-- A problem with its place. -/
def message (p : Problem) : String :=
  if p.path.isEmpty then p.cause.message
  else Place.pathText p.path ++ ": " ++ p.cause.message

/-- Problems one per line. -/
def report (ps : List Problem) : String :=
  "\n".intercalate (ps.map message)

end Problem

end Topic

end Slideshow

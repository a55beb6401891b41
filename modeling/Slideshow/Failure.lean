/-
  Slideshow.Failure

  Why something could not be done. Each cause is a value of its own; `message` is its
  wording for the user.
-/
import Slideshow.Topic.Problem

namespace Slideshow

/-! ## Causes -/

/-- Why a topic or diagram could not be loaded. -/
inductive LoadFault where
  /-- A topic script is not JSON. -/
  | topicText
  /-- A diagram is not well-formed. -/
  | markup
  /-- The root element of a diagram has another name. -/
  | rootName (name : String)
  /-- A document cannot be read. -/
  | unreadable (path : String)
  /-- A document is not JSON, or not what it should be. -/
  | document (path : String)
  | unreadableDiagram (path : String)
  | unreadableRoot (path : String)
  | noDiagram (name : String)
  deriving DecidableEq

/-- The wording of a fault. -/
def LoadFault.message : LoadFault → String
  | topicText => "parse topic JSON"
  | markup => "parse svg"
  | rootName name => "diagram root element must be <svg>, found <" ++ name ++ ">"
  | unreadable path => "read '" ++ path ++ "'"
  | document path => "parse '" ++ path ++ "'"
  | unreadableDiagram path => "read diagram '" ++ path ++ "'"
  | unreadableRoot path => "read topics root '" ++ path ++ "'"
  | noDiagram name => "no such diagram: " ++ name

/-- What can be wrong with settings. -/
inductive SettingFault where
  | fastForwardRate
  | viewport
  | pulseRepeat
  | noTokens
  deriving DecidableEq

/-- The wording of a fault. -/
def SettingFault.message : SettingFault → String
  | fastForwardRate => "fast_forward_rate must be a finite number > 0"
  | viewport => "viewport width and height must be > 0"
  | pulseRepeat => "defaults.pulse_repeat must be <= " ++ toString Directive.maxRepetitions
  | noTokens => "at least one token slot is required"

/-- What can be wrong with the contents of a document. -/
inductive ValidationFault where
  | topic (problems : List Topic.Problem)
  | path (problem : PathSpec.Problem)
  | setting (fault : SettingFault)
  deriving DecidableEq

/-- The wording of a fault. -/
def ValidationFault.message : ValidationFault → String
  | topic problems => Topic.Problem.report problems
  | path problem => problem.message
  | setting fault => fault.message

/-- The largest picture, in pixels of each direction. -/
def maxPixels : Nat := 8192

/-- Why a drawing has no geometry. -/
inductive SceneFault where
  /-- The data of a path are not well-formed. -/
  | pathData
  /-- The drawing is no picture. -/
  | noPicture
  /-- The picture would be too large. -/
  | tooLarge (width height : Nat)
  deriving DecidableEq

/-- The wording of a fault. -/
def SceneFault.message : SceneFault → String
  | pathData => "invalid path data"
  | noPicture => "parse scene for raster"
  | tooLarge width height =>
    "raster size too large: " ++ toString width ++ "x" ++ toString height ++
      " (max " ++ toString maxPixels ++ "x" ++ toString maxPixels ++ ")"

/-! ## Failures -/

/-- Why something could not be done. -/
inductive Failure where
  | load (fault : LoadFault)
  | validation (fault : ValidationFault)
  | scene (fault : SceneFault)
  /-- A document does not have the form of what it should describe. -/
  | decoding
  /-- The settings cannot be read. -/
  | unreadableSettings (path : String)
  deriving DecidableEq

/-- The wording of a failure. -/
def Failure.message : Failure → String
  | load fault => "load error: " ++ fault.message
  | validation fault => "validation error: " ++ fault.message
  | scene fault => "scene error: " ++ fault.message
  | decoding => "serialization error"
  | unreadableSettings path => "read config '" ++ path ++ "'"

end Slideshow

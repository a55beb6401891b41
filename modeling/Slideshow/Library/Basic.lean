/-
  Slideshow.Library.Basic

  A library of topics: a folder that holds a folder for each topic, in which are the topic's
  script and its diagrams. A library may have an index; without one its topics are the
  folders with a script.
-/
import Slideshow.Files.Access
import Slideshow.Files.Location
import Slideshow.Scene.Document
import Slideshow.Topic.Loading

namespace Slideshow

/-- The topics under a folder. -/
structure Library where
  root : String

namespace Library

/-! ## Locations -/

/-- The name of a topic's script. -/
def scriptName : String := "topic.json"

/-- The name of a library's index. -/
def indexName : String := "index.json"

/-- The folder of a topic. -/
def folder (l : Library) (topic : String) : String := Location.join l.root topic

/-- The script of a topic. -/
def script (l : Library) (topic : String) : String :=
  Location.join (l.folder topic) scriptName

/-- A diagram of a topic. -/
def diagram (l : Library) (topic name : String) : String :=
  Location.join (l.folder topic) name

/-- The index of the library. -/
def index (l : Library) : String := Location.join l.root indexName

/-! ## Loading -/

variable {m : Type → Type} [Monad m] [Files m]

/-- The document in a file. -/
def document (location : String) : m (Except LoadFault Json) := do
  match ← Files.readText? location with
  | none => return .error (.unreadable location)
  | some text =>
    match Json.value? text with
    | none => return .error (.document location)
    | some j => return .ok j

/-- A topic. -/
def loadTopic (l : Library) (topic : String) : m (Except Failure Topic) := do
  match ← document (l.script topic) with
  | .error e => return .error (.load e)
  | .ok j => return Topic.load j

/-- A diagram of a topic. -/
def loadDiagram (l : Library) (topic name : String) : m (Except Failure Scene) := do
  let location := l.diagram topic name
  match ← Files.readText? location with
  | none => return .error (.load (.unreadableDiagram location))
  | some text => return (Scene.load text).mapError .load

/-- The library as a source of the diagrams of slides. A topic's diagrams are where its id
    says, wherever the topic itself was found. -/
def source (l : Library) (topic : Topic) (slide : Slide) : m (Except Failure Scene) :=
  l.loadDiagram topic.id slide.diagram

end Library

end Slideshow

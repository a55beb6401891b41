/-
  Slideshow.CommandLine.Request

  What a command line asks for: one of the tasks with all that it needs, or a word about the
  program itself.
-/
import Slideshow.CommandLine.Arguments

namespace Slideshow.CommandLine

/-! ## Requests -/

/-- A step of a topic in a library. -/
structure Destination where
  root : String
  topic : String
  slide : Nat
  step : Nat
  deriving DecidableEq

/-- A task with all that it needs. -/
inductive Command where
  /-- Checks one topic or all. -/
  | validate (root : String) (topic : Option String)
  | list (root : String)
  /-- Shows a step, perhaps at some time of its animation. Without a place for the drawing
      its values are printed. A picture may have a width of its own. -/
  | snapshot (destination : Destination) (instant : Option Float) (out : Option String)
      (width : Option Nat)
  | timeline (destination : Destination)

/-- What is asked for. -/
inductive Request where
  | run (settings : Option String) (command : Command)
  | version
  | help

/-- The program's name and version. -/
def versionText : String := "stepdeck 0.1.0"

/-! ## Reading -/

/-- The destination that options give; slide and step are the first ones if they give none. -/
def Destination.ofGiven? (g : Given) : Option Destination := do
  let number (key : Key) : Nat := ((g.get? key).bind ordinal?).getD 0
  return ⟨← g.get? .root, ← g.get? .topic, number .slide, number .step⟩

/-- The command that options give. -/
def Command.ofGiven? (g : Given) : Task → Option Command
  | .validate => (g.get? .root).map fun root => .validate root (g.get? .topic)
  | .list => (g.get? .root).map .list
  | .snapshot => do
    return .snapshot (← Destination.ofGiven? g) ((g.get? .instant).bind Decimal.float?)
      (g.get? .out) ((g.get? .width).bind width?)
  | .timeline => (Destination.ofGiven? g).map .timeline

/-- The request behind the name of a task. Settings that are named here replace those that
    are named before. -/
def Request.ofTask? (before : Given) (task : Task) (args : List String) : Option Request :=
  match read? (some task) .none args with
  | none => none
  | some (g, .done) =>
    (Command.ofGiven? g task).map (.run ((g.get? .config).or (before.get? .config)))
  | some (_, .help) => some .help
  | some (_, .version) => some .version
  | some (_, .word _ _) => none

/-- Help may be asked for on one task. -/
def isHelpTopic : List String → Bool
  | [] => true
  | [name] => name == "help" || (Task.ofName? name).isSome
  | _ => false

/-- The request that some arguments make, if they make one. -/
def Request.ofArgs? (args : List String) : Option Request :=
  match read? none .none args with
  | none => none
  | some (_, .done) => none
  | some (_, .help) => some .help
  | some (_, .version) => some .version
  | some (g, .word name rest) =>
    if name == "help" then if isHelpTopic rest then some .help else none
    else (Task.ofName? name).bind fun task => ofTask? g task rest

end Slideshow.CommandLine

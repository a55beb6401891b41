/-
  Slideshow.CommandLine.Run

  Running commands: settings are read first, then the task is done with the library that it
  names.
-/
import Slideshow.CommandLine.Outcome
import Slideshow.CommandLine.Request
import Slideshow.Picture.Scaling
import Slideshow.Timeline.Writer

namespace Slideshow.CommandLine

variable {m : Type → Type} [Monad m] [Files m]

/-! ## Checking and listing -/

/-- Checks some topics of a library. -/
def checkAll (l : Library) : List String → m (List (String × List Library.Problem))
  | [] => return []
  | id :: ids => do
    let problems ← l.check id
    return (id, problems) :: (← checkAll l ids)

/-- Checks one topic of a library, or all. -/
def validate (l : Library) : Option String → m Outcome
  | some id => do return report (← checkAll l [id])
  | none => do
    match ← l.list with
    | .error e => return .stop (.ofFailure (.load e))
    | .ok entries => return report (← checkAll l (entries.map (·.id)))

/-- Lists the topics of a library. -/
def list (l : Library) : m Outcome := do
  match ← l.list with
  | .error e => return .stop (.ofFailure (.load e))
  | .ok entries => return listing entries

/-! ## Reaching a step -/

/-- The presentation of a topic at the destination. -/
def arrive (settings : Settings) (d : Destination) : m (Except WalkFault Presentation) := do
  let l : Library := ⟨d.root⟩
  match ← l.loadTopic d.topic with
  | .error e => return .error (.failure e)
  | .ok topic => Presentation.openAt topic settings l.source d.slide d.step

/-- The plan of a step's animation. -/
def timeline (settings : Settings) (d : Destination) : m Outcome := do
  match ← arrive settings d with
  | .error e => return .stop (.walk e)
  | .ok p =>
    let plan := p.replay.2.player.plan
    return .print ((Json.arr (plan.map Tween.toJson)).pretty ++ "\n")

/-! ## Drawings and pictures -/

/-- A location of a picture, by its ending. -/
def isPicture (location : String) : Bool :=
  match Location.extension? location with
  | some ending => Text.lower ending.toList == ['p', 'n', 'g']
  | none => false

/-- The beginning of a picture's file: the signature and the size. What the picture shows is
    not drawn here. -/
def pictureHeader (p : Picture) : ByteArray :=
  let word (n : Nat) : List UInt8 :=
    [n / Nat.pow 2 24, n / Nat.pow 2 16, n / Nat.pow 2 8, n].map fun b => b.toUInt8
  ⟨([0x89, 0x50, 0x4e, 0x47, 0x0d, 0x0a, 0x1a, 0x0a] ++ word 13 ++
    [0x49, 0x48, 0x44, 0x52] ++ word p.width ++ word p.height ++ [8, 6, 0, 0, 0]).toArray⟩

/-- The content of the file that a scene is saved in. -/
def fileContent (scene : Scene) (location : String) (width : Option Nat) :
    Except Fault ByteArray :=
  if isPicture location then
    match scene.picture width with
    | .ok p => .ok (pictureHeader p)
    | .error e => .error (.ofFailure (.scene e))
  else .ok scene.text.toUTF8

/-- The fault of a location that cannot be written. -/
def unwritable (location : String) : Fault :=
  if isPicture location then .unwritablePicture location else .unwritableDrawing location

/-- Saves a scene in a folder that is made if need be. -/
def save (scene : Scene) (location : String) (width : Option Nat) : m Outcome := do
  let folder := Location.parent location
  if !folder.isEmpty && !(← Files.makeFolder folder) then
    return .stop (.noFolder folder)
  match fileContent scene location width with
  | .error fault => return .stop fault
  | .ok content =>
    if ← Files.write location content then return .remark ("wrote " ++ location)
    else return .stop (unwritable location)

/-- Saves the scene of a presentation, or prints its values. -/
def deliver (p : Presentation) (out : Option String) (width : Option Nat) : m Outcome :=
  match p.store, out with
  | none, _ => return .stop .noScene
  | some store, none => return .print ((Json.ofDict .str store.dynamicValues).pretty ++ "\n")
  | some store, some location => save store.scene location width

/-- A remark on an animation that is not at its end. -/
def runningRemarks (p : Presentation) (instant : Float) : List String :=
  if p.player.state = .playing then
    ["animation still running at " ++ Decimal.plain instant ++ "s"]
  else []

/-- Shows a step, perhaps at some time of its animation. -/
def snapshot (settings : Settings) (d : Destination) (instant : Option Float)
    (out : Option String) (width : Option Nat) : m Outcome := do
  match ← arrive settings d with
  | .error e => return .stop (.walk e)
  | .ok p =>
    match instant with
    | none => deliver p out width
    | some t =>
      if 0 ≤ t then
        let p := p.replay.2.tick t
        return (← deliver p out width).after (runningRemarks p t)
      else return .stop .negativeInstant

/-! ## Commands -/

/-- The settings in a file, or the usual ones. -/
def settings : Option String → m (Except Failure Settings)
  | none => return .ok .usual
  | some location => do
    match ← Files.readText? location with
    | none => return .error (.unreadableSettings location)
    | some text => return Settings.load text

/-- Runs a command. -/
def Command.run (settings : Settings) : Command → m Outcome
  | .validate root topic => CommandLine.validate ⟨root⟩ topic
  | .list root => CommandLine.list ⟨root⟩
  | .snapshot d instant out width => CommandLine.snapshot settings d instant out width
  | .timeline d => CommandLine.timeline settings d

/-- Runs a command with the settings in a file. -/
def run (file : Option String) (command : Command) : m Outcome := do
  match ← settings file with
  | .error e => return .stop (.ofFailure e)
  | .ok s => command.run s

end Slideshow.CommandLine

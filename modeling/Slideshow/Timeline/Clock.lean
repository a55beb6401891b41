/-
  Slideshow.Timeline.Clock

  A clock that runs tweens. Tweens are kept in the order of their starts. Time passes only
  when the clock is advanced; then every tween that has begun and is not done writes to the
  diagram, in order, and those that are complete write for the last time.
-/
import Slideshow.Animation.Blend
import Slideshow.Scene.Stage
import Slideshow.Timeline.Tween

namespace Slideshow

/-! ## Running tweens -/

/-- What a track has to know once its tween has begun. -/
inductive TrackState where
  | attribute (blend : Blend)
  | viewport (start : Rect)
  | idle
  deriving DecidableEq

/-- How far a tween has come. -/
inductive Phase where
  | pending
  /-- It has begun; `saved` are the former values of the attributes that it drives. -/
  | active (tracks : List TrackState) (saved : List (String × Option String))
  | done
  deriving DecidableEq

/-- A tween on the clock. -/
structure Entry where
  handle : Nat
  tween : Tween Float
  phase : Phase

namespace Tween

variable {S : Type} [Stage S]

/-- The value of an attribute of the tween's element. -/
def current? (t : Tween Float) (s : S) (name : String) : Option String :=
  t.target.key?.bind fun key => Stage.attribute? s key name

/-- What a track has to know when the tween begins. -/
def trackState (t : Tween Float) (s : S) : Track → TrackState
  | .attribute name start goal => .attribute (.between (start.or (t.current? s name)) goal)
  | .viewport _ => ((Stage.viewport? s).map TrackState.viewport).getD .idle
  | .text _ => .idle
  | .motion .. => .idle

/-- The former value that a track has to give back. -/
def saved? (t : Tween Float) (s : S) : Track → Option (String × Option String)
  | .attribute name _ _ => if t.restore then some (name, t.current? s name) else none
  | _ => none

/-- The phase of a tween that begins. -/
def firstPhase (t : Tween Float) (s : S) : Phase :=
  .active (t.tracks.map (t.trackState s)) (t.tracks.filterMap (t.saved? s))

/-- Writes one track. -/
def writeTrack (t : Tween Float) (progress : Float) (complete : Bool) (s : S) :
    Track × TrackState → S
  | (.attribute name _ goal, .attribute blend) =>
    match t.target.key? with
    | none => s
    | some key =>
      let value := if complete && 1 ≤ progress then some goal
        else blend.sample (t.ease.apply progress)
      match value with
      | some v => Stage.setAttribute s key name v
      | none => s
  | (.text value, _) =>
    match t.target.key? with
    | none => s
    | some key => if complete then Stage.setText s key value else s
  | (.viewport goal, .viewport start) =>
    Stage.setViewport s
      (if complete && 1 ≤ progress then goal else Rect.lerp start goal (t.ease.apply progress))
  | (.motion _ path start stop, _) =>
    match t.target.key? with
    | none => s
    | some key =>
      match path.pointAt? (start + (stop - start) * t.ease.apply progress) with
      | some p => Stage.setAttribute s key "transform" p.shift
      | none => s
  | _ => s

/-- Writes all tracks. -/
def write (t : Tween Float) (states : List TrackState) (progress : Float) (complete : Bool)
    (s : S) : S :=
  (t.tracks.zip states).foldl (t.writeTrack progress complete) s

/-- Gives an attribute its former value. -/
def giveBack (key : String) (s : S) (saved : String × Option String) : S :=
  match saved.2 with
  | some v => Stage.setAttribute s key saved.1 v
  | none => Stage.removeAttribute s key saved.1

/-- Gives all attributes their former values, if the tween does that. -/
def settle (t : Tween Float) (saved : List (String × Option String)) (s : S) : S :=
  match t.target.key? with
  | none => s
  | some key => if t.restore then saved.foldl (giveBack key) s else s

end Tween

namespace Entry

variable {S : Type} [Stage S]

/-- The tween is done. -/
def isDone (e : Entry) : Bool := e.phase == .done

/-- The tween's phase once it has begun. -/
def begun (e : Entry) (s : S) : Phase :=
  match e.phase with
  | .pending => e.tween.firstPhase s
  | phase => phase

/-- Runs a tween up to a time. -/
def run (e : Entry) (now : Float) (s : S) : Entry × S :=
  if e.isDone || now < e.tween.start then (e, s)
  else
    match e.begun s with
    | .active tracks saved =>
      let time := now - e.tween.start
      let complete : Bool := e.tween.total ≤ time
      let s := e.tween.write tracks (e.tween.progress time) complete s
      if complete then ({ e with phase := .done }, e.tween.settle saved s)
      else ({ e with phase := .active tracks saved }, s)
    | _ => (e, s)

/-- Runs tweens up to a time, one after another. -/
def runAll (now : Float) : List Entry → S → List Entry × S
  | [], s => ([], s)
  | e :: es, s =>
    let (e, s) := e.run now s
    let (es, s) := runAll now es s
    (e :: es, s)

end Entry

/-! ## The clock -/

/-- A clock with its tweens. -/
structure Clock where
  entries : List Entry
  elapsed : Float
  /-- How much faster time passes. -/
  scale : Float
  /-- The handle of the next tween. It is counted without a bound, as a counter of 64 bits does
      for the first `2 ^ 64` of them. -/
  nextHandle : Nat

namespace Clock

/-- A clock without tweens. -/
def new : Clock := ⟨[], 0, 1, 0⟩

instance : Inhabited Clock := ⟨new⟩

/-- The tweens in the order of their starts. -/
def tweens (c : Clock) : List (Tween Float) := c.entries.map (·.tween)

/-- Halves a stretch of entries in which a new start belongs, until it has length one, and
    gives its beginning. -/
def narrow (starts : Array Float) (start : Float) (base size : Nat) : Nat :=
  if 1 < size then
    let half := size / 2
    let base := if (starts[base + half]?.getD 0) ≤ start then base + half else base
    narrow starts start base (size - half)
  else base
termination_by size

/-- The place of a new start among sorted ones, behind those that are equal. -/
def insertionIndex (starts : Array Float) (start : Float) : Nat :=
  if starts.size = 0 then 0
  else
    let base := narrow starts start 0 starts.size
    if (starts[base]?.getD 0) ≤ start then base + 1 else base

/-- Adds a tween and gives it a handle. -/
def schedule (c : Clock) (t : Tween Float) : Nat × Clock :=
  let starts := (c.entries.map fun e => e.tween.start).toArray
  let entry : Entry := ⟨c.nextHandle, t, .pending⟩
  (c.nextHandle,
    { c with
      entries := c.entries.insertIdx (insertionIndex starts t.start) entry
      nextHandle := c.nextHandle + 1 })

/-- Adds several tweens. -/
def scheduleAll (c : Clock) (ts : List (Tween Float)) : Clock :=
  ts.foldl (fun c t => (c.schedule t).2) c

/-- Removes a tween and says whether there was one. -/
def cancel (c : Clock) (handle : Nat) : Bool × Clock :=
  (c.entries.any fun e => e.handle == handle,
    { c with entries := c.entries.filter fun e => e.handle != handle })

/-- Removes all tweens and goes back to the beginning. -/
def cancelAll (c : Clock) : Clock := { c with entries := [], elapsed := 0 }

/-- Sets how much faster time passes; a scale that is not positive and finite is ignored. -/
def setScale (c : Clock) (scale : Float) : Clock :=
  if scale.isFinite && 0 < scale then { c with scale } else c

/-- When the last tween is complete. -/
def duration (c : Clock) : Float :=
  c.entries.foldl (fun d e => Scalar.later d e.tween.finish) 0

/-- All tweens are done. -/
def isFinished (c : Clock) : Bool := c.entries.all Entry.isDone

variable {S : Type} [Stage S]

/-- Lets time pass, unless it is negative or not a number. -/
def advance (c : Clock) (dt : Float) (s : S) : Clock × S :=
  if 0 ≤ dt then
    let now := c.elapsed + dt * c.scale
    let (entries, s) := Entry.runAll now c.entries s
    let c := { c with entries, elapsed := now }
    (if c.isFinished then { c with elapsed := Scalar.earlier now c.duration } else c, s)
  else (c, s)

/-- Runs all tweens to their ends. -/
def finish (c : Clock) (s : S) : Clock × S := c.advance (1 / 0) s

end Clock

end Slideshow

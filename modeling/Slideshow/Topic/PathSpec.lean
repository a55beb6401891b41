/-
  Slideshow.Topic.PathSpec

  The way a packet travels: a path of the diagram, the part of it that is used, and how long
  the travel takes. The compact form is `#path[:start[:stop[:duration]]]`.
-/
import Slideshow.Animation.Ease
import Slideshow.Decimal.Numeral
import Slideshow.Json.Record
import Slideshow.Scene.Reference
import Slideshow.Text.Pieces

namespace Slideshow

/-- One stretch of a packet's way. Times are of type `τ`. -/
structure PathSpec (τ : Type) where
  /-- The path, with or without a number sign. -/
  path : String
  /-- Where on the path the travel starts, as a fraction of its length. -/
  start : Float
  /-- Where on the path the travel ends. -/
  stop : Float
  duration : Option τ
  ease : Option Ease
  deriving DecidableEq

namespace PathSpec

/-- The whole path in the usual time. -/
def whole {τ : Type} (path : String) : PathSpec τ := ⟨path, 0, 1, none, none⟩

/-- The id of the path. -/
def pathId {τ : Type} (p : PathSpec τ) : String := elementId p.path

/-! ## The compact form -/

/-- Why a text is no compact path. -/
inductive Problem where
  | noPath (text : String)
  | notNumber (text what part : String)
  | tooManyParts (text : String)
  deriving DecidableEq

/-- The wording of a problem. -/
def Problem.message : Problem → String
  | noPath s => "path spec '" ++ s ++ "' has no path reference"
  | notNumber s what part => "path spec '" ++ s ++ "' has invalid " ++ what ++ " '" ++ part ++ "'"
  | tooManyParts s => "path spec '" ++ s ++ "' has too many ':' separated parts"

/-- The number in a part that may be missing. -/
def number (text what : String) : Option (List Char) → Except Problem (Option Float)
  | none => .ok none
  | some part =>
    match Decimal.number? (Text.trim part) with
    | some x => .ok (some x)
    | none => .error (.notNumber text what (String.ofList part))

/-- Reads the compact form. -/
def ofText (text : String) : Except Problem (PathSpec Float) := do
  let parts := Text.pieces (· == ':') text.toList
  let path := String.ofList (Text.trim (parts.headD []))
  if path == "" || path == "#" then throw (.noPath text)
  let start ← number text "start" parts[1]?
  let stop ← number text "end" parts[2]?
  let duration ← number text "duration" parts[3]?
  if 4 < parts.length then throw (.tooManyParts text)
  return { path, start := start.getD 0, stop := stop.getD 1, duration, ease := none }

/-! ## JSON -/

/-- A path given in compact form or by the members of an object. -/
def ofJson? : Json → Option (PathSpec Float)
  | .str s => (ofText s).toOption
  | .obj ms =>
    match Json.fields? [["path"], ["start"], ["end"], ["duration"], ["ease"]] (.obj ms) with
    | some [path, start, stop, duration, ease] => do
      let path ← Json.required Json.str? path
      let start ← Json.optional Json.float? start
      let stop ← Json.optional Json.float? stop
      let duration ← Json.optional Json.float? duration
      let ease ← Json.optional Ease.ofJson? ease
      return { path, start := start.getD 0, stop := stop.getD 1, duration, ease }
    | _ => none
  | _ => none

/-- The members of a path. -/
def toJson (p : PathSpec Float) : Json :=
  .record
    [("path", some (.str p.path)), ("start", some (.ofFloat p.start)),
      ("end", some (.ofFloat p.stop)), ("duration", p.duration.map .ofFloat),
      ("ease", p.ease.map Ease.toJson)]

end PathSpec

end Slideshow

/-
  Slideshow.Animation.Ease

  Easing curves: how far a movement has come when a given part of its time has passed. A
  curve is a family, which gives its shape, and a direction, which says at which end it is
  slow. Scripts name curves in two ways, `InOutCubic` or `power2.inOut`.
-/
import Slideshow.Json.Basic
import Slideshow.Scalar
import Slideshow.Text.Pieces

namespace Slideshow

/-! ## Powers -/

/-- The power that shapes a polynomial curve. -/
inductive Degree where
  | quad
  | cubic
  | quart
  deriving DecidableEq, Repr

namespace Degree

variable {α : Type} [Scalar α]

/-- The power of a number. -/
def pow (d : Degree) (t : α) : α :=
  match d with
  | quad => t * t
  | cubic => t * t * t
  | quart => (t * t) * (t * t)

/-- The name of the family. -/
def name : Degree → String
  | quad => "Quad"
  | cubic => "Cubic"
  | quart => "Quart"

/-- The factor that makes the first half of an in-out curve end at one half. -/
def halfScale (d : Degree) : α :=
  match d with
  | quad => Scalar.ofNat 2
  | cubic => Scalar.ofNat 4
  | quart => Scalar.ofNat 8

end Degree

/-! ## Curves -/

/-- Where a curve is slow: at its start, at its end, or at both. -/
inductive Direction where
  | easeIn
  | easeOut
  | easeInOut
  deriving DecidableEq, Repr

/-- The name of the direction. -/
def Direction.name : Direction → String
  | easeIn => "In"
  | easeOut => "Out"
  | easeInOut => "InOut"

/-- An easing curve. -/
inductive Ease where
  | linear
  | power (degree : Degree) (direction : Direction)
  | sine (direction : Direction)
  deriving DecidableEq, Repr

namespace Ease

open Scalar

/-- A polynomial curve on `[0, 1]`. -/
def polynomial {α : Type} [Scalar α] (d : Degree) (direction : Direction) (t : α) : α :=
  match direction with
  | .easeIn => d.pow t
  | .easeOut => one - d.pow (one - t)
  | .easeInOut =>
    if t < one / ofNat 2 then d.halfScale * d.pow t
    else one - d.pow (ofNat 2 - ofNat 2 * t) / ofNat 2

/-- The value of a curve with the ends pinned to zero and one. -/
def pinned {α : Type} [Scalar α] (value t : α) : α :=
  if t ≤ zero then zero else if one ≤ t then one else value

/-- The value of a curve at time `t`, which is moved into `[0, 1]` first. The curves of the
    sine family are given by `wave`. -/
def applyWith {α : Type} [Scalar α] (wave : Direction → α → α) (e : Ease) (t : α) : α :=
  let t := clampUnit t
  match e with
  | linear => t
  | power d direction => polynomial d direction t
  | sine direction => pinned (wave direction t) t

/-- The number pi. -/
def pi : Float := 3.141592653589793

/-- The sine family in floats. -/
def sineWave (direction : Direction) (t : Float) : Float :=
  match direction with
  | .easeIn => 1 - Float.cos (t * pi / 2)
  | .easeOut => Float.sin (t * pi / 2)
  | .easeInOut => -(Float.cos (pi * t) - 1) / 2

/-- The value of a curve in floats. -/
def apply (e : Ease) (t : Float) : Float :=
  e.applyWith sineWave t

/-! ## Names -/

/-- The name of a curve, such as `InOutCubic`. -/
def name : Ease → String
  | linear => "Linear"
  | power d direction => direction.name ++ d.name
  | sine direction => direction.name ++ "Sine"

def directions : List Direction := [.easeIn, .easeOut, .easeInOut]

/-- All curves. -/
def all : List Ease :=
  linear :: ([Degree.quad, .cubic, .quart].flatMap fun d => directions.map (power d)) ++
    directions.map sine

/-- The direction behind the point of a dotted name, in lower case. -/
def direction? (s : String) : Option Direction :=
  if s == "in" then some .easeIn
  else if s == "out" then some .easeOut
  else if s == "inout" then some .easeInOut
  else none

/-- A curve of a dotted name, in lower case: family and direction. The families without
    easing take any direction. -/
def dotted? (family direction : String) : Option Ease :=
  if family == "none" || family == "linear" || family == "power0" then some linear
  else if family == "power1" || family == "quad" then (direction? direction).map (power .quad)
  else if family == "power2" || family == "cubic" then
    (direction? direction).map (power .cubic)
  else if family == "power3" || family == "quart" then
    (direction? direction).map (power .quart)
  else if family == "sine" then (direction? direction).map sine
  else none

/-- The curve of a name: either its own name, or a dotted name in any letter case, in which
    a missing direction means out. -/
def ofName? (text : String) : Option Ease :=
  let raw := Text.trimmed text
  match all.find? fun e => e.name == raw with
  | some e => some e
  | none =>
    let cs := Text.lower raw.toList
    match Text.splitAt? ['.'] cs with
    | some (family, direction) => dotted? (String.ofList family) (String.ofList direction)
    | none => dotted? (String.ofList cs) "out"

/-- What is said about a name that no curve has. -/
def unknown (text : String) : String :=
  "unknown ease '" ++ Text.trimmed text ++ "'"

/-! ## JSON -/

/-- The curve that a string names. -/
def ofJson? (j : Json) : Option Ease :=
  j.str?.bind ofName?

/-- The name of a curve as JSON. -/
def toJson (e : Ease) : Json := .str e.name

end Ease

end Slideshow

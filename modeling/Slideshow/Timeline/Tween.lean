/-
  Slideshow.Timeline.Tween

  Tweens: timed changes of one element, or of the camera. A tween drives one or more tracks
  through one or more cycles. Times are of type `τ`.
-/
import Slideshow.Animation.Ease
import Slideshow.Path.Arclength

namespace Slideshow

/-! ## What a tween does -/

/-- What a tween changes. -/
inductive Target where
  | element (key : String)
  | viewport
  /-- Nothing; time passes. -/
  | gap
  deriving DecidableEq

/-- The element that a tween changes. -/
def Target.key? : Target → Option String
  | element key => some key
  | viewport => none
  | gap => none

/-- One thing that a tween changes. -/
inductive Track where
  /-- An attribute, from a given value or the one found when the tween begins. -/
  | attribute (name : String) (start : Option String) (goal : String)
  /-- The text, which changes when the tween is complete. -/
  | text (value : String)
  | viewport (goal : Rect)
  /-- The place on a path, from one fraction of its length to another. -/
  | motion (reference : String) (path : Path) (start stop : Float)
  deriving DecidableEq

/-- A timed change. -/
structure Tween (τ : Type) where
  target : Target
  tracks : List Track
  start : τ
  /-- The length of one cycle. -/
  duration : τ
  ease : Ease
  /-- How many cycles follow the first one. -/
  repetitions : Nat
  /-- Every other cycle goes backwards. -/
  yoyo : Bool
  /-- Attributes get their former values back when the tween is complete. -/
  restore : Bool
  deriving DecidableEq

namespace Tween

variable {τ : Type} [Scalar τ]

open Scalar

/-- A tween of one cycle. Its length is not negative. -/
def basic (target : Target) (start duration : τ) (tracks : List Track) : Tween τ :=
  { target, tracks, start, duration := later duration zero, ease := .linear, repetitions := 0,
    yoyo := false, restore := false }

/-- The length of all cycles. -/
def total (t : Tween τ) : τ := t.duration * (ofNat t.repetitions + one)

/-- When the tween is complete. -/
def finish (t : Tween τ) : τ := t.start + t.total

/-! ## Progress -/

/-- The cycle that time falls into, and how much of it has passed. At the end, all of the
    last cycle has passed. -/
def cycle (t : Tween τ) (time : τ) : Nat × τ :=
  if t.total ≤ time then (t.repetitions, one)
  else
    let c := min (floorNat (time / t.duration)) t.repetitions
    (c, clampUnit ((time - ofNat c * t.duration) / t.duration))

/-- The progress of the current cycle after some time, before easing. Cycles that go
    backwards count down. A tween without length is at its end. -/
def progress (t : Tween τ) (time : τ) : τ :=
  if t.duration ≤ zero then if t.yoyo && t.repetitions % 2 == 1 then zero else one
  else
    let (c, part) := t.cycle time
    if t.yoyo && c % 2 == 1 then one - part else part

end Tween

end Slideshow

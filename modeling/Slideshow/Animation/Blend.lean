/-
  Slideshow.Animation.Blend

  The way from one attribute value to another. Two colors are mixed, two texts that differ
  only in their numbers are interpolated number by number, and everything else switches
  at the end.
-/
import Slideshow.Animation.Color
import Slideshow.Animation.Template

namespace Slideshow

/-- A transition between two attribute values. -/
inductive Blend where
  /-- From one color to another. -/
  | color (start goal : Color)
  /-- From given numbers to those of a template. -/
  | template (start : List Float) (goal : Template)
  /-- From a value, which may be missing, to another one. -/
  | discrete (start : Option String) (goal : String)
  deriving DecidableEq

namespace Blend

/-- The transition from a value, if there is one, to another. -/
def between (start : Option String) (goal : String) : Blend :=
  match start with
  | none => discrete none goal
  | some s =>
    match Color.parse? s, Color.parse? goal with
    | some a, some b => color a b
    | _, _ =>
      let a := Template.parse s
      let b := Template.parse goal
      if a.isCompatible b then template a.numbers b else discrete (some s) goal

/-- The value at progress `t`; none where the attribute stays as it is. -/
def sample (blend : Blend) (t : Float) : Option String :=
  match blend with
  | color a b => some (Color.lerp a b t).hex
  | template start goal =>
    if 1 ≤ t then some (goal.render goal.numbers)
    else some (goal.render ((start.zip goal.numbers).map fun p => p.1 + (p.2 - p.1) * t))
  | discrete start goal => if 1 ≤ t then some goal else start

end Blend

end Slideshow

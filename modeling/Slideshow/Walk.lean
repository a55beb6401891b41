/-
  Slideshow.Walk

  The way to a step of a topic, without animation: a presentation is begun, its diagrams are
  loaded slide by slide, and on the slide that is asked for the step is shown.
-/
import Slideshow.Presentation

namespace Slideshow

/-! ## Faults -/

/-- Why a step cannot be reached. -/
inductive WalkFault where
  | noSlide (slide slides : Nat)
  | noStep (step slide steps : Nat)
  | failure (cause : Failure)
  deriving DecidableEq

/-- The wording of a fault. -/
def WalkFault.message : WalkFault → String
  | noSlide slide slides =>
    "slide " ++ toString slide ++ " out of range (topic has " ++ toString slides ++ ")"
  | noStep step slide steps =>
    "step " ++ toString step ++ " out of range (slide " ++ toString slide ++ " has " ++
      toString steps ++ ")"
  | failure cause => cause.message

namespace Presentation

variable {m : Type → Type} [Monad m]

/-! ## The walk -/

/-- Loads the awaited diagram and goes on by some slides, each with its diagram. -/
def walk (source : Topic → Slide → m (Except Failure Scene)) :
    Nat → Presentation → m (Except Failure Presentation)
  | n, p => do
    match ← p.pump source with
    | (.error e, _) => return .error e
    | (.ok _, p) =>
      match n with
      | 0 => return .ok p
      | n + 1 => walk source n p.nextSlide.2

/-- Shows a step of the current slide. -/
def arrive (slide step : Nat) (p : Presentation) : Except WalkFault Presentation :=
  let steps := (p.currentSlide?.map fun s => s.steps.length).getD 0
  if step < steps then .ok (p.goToStep step).2 else .error (.noStep step slide steps)

/-- A presentation of a topic at a given step. -/
def openAt (topic : Topic) (settings : Settings)
    (source : Topic → Slide → m (Except Failure Scene)) (slide step : Nat) :
    m (Except WalkFault Presentation) := do
  if slide < topic.slides.length then
    match Presentation.new topic settings with
    | .error e => return .error (.failure e)
    | .ok p =>
      match ← p.walk source slide with
      | .error e => return .error (.failure e)
      | .ok p => return p.arrive slide step
  else return .error (.noSlide slide topic.slides.length)

end Presentation

end Slideshow

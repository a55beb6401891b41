/-
  Slideshow.Navigation

  Where a presentation stands. A position is a slide and a step of it; the state keeps it
  valid. A move that would leave the presentation is refused, and every other move is told
  to all observers in the order in which they subscribed.
-/
import Slideshow.Topic.Problem

namespace Slideshow

/-! ## Positions -/

/-- A place in a presentation. -/
structure Position where
  slide : Nat
  step : Nat
  deriving DecidableEq, Repr

/-- The beginning of a presentation. -/
def Position.first : Position := ⟨0, 0⟩

/-- A position in numbers for the reader, which count from one. -/
structure Progress where
  currentStep : Nat
  totalSteps : Nat
  currentSlide : Nat
  totalSlides : Nat
  deriving DecidableEq, Repr

/-- How many steps a slide has. -/
def stepsIn (steps : List Nat) (slide : Nat) : Nat :=
  steps[slide]?.getD 0

/-- The progress at a position. -/
def Position.progress (steps : List Nat) (p : Position) : Progress :=
  ⟨p.step + 1, stepsIn steps p.slide, p.slide + 1, steps.length⟩

/-! ## Moves -/

/-- What kind of move was made. -/
inductive MoveKind where
  | step
  | slide
  | restart
  | jump
  deriving DecidableEq, Repr

/-- The outcome of a move. -/
structure Move where
  kind : MoveKind
  slideChanged : Bool
  deriving DecidableEq, Repr

/-- What an observer hears about a move. -/
structure Notice where
  observer : Nat
  position : Position
  progress : Progress
  deriving DecidableEq, Repr

/-! ## State -/

/-- A position in a presentation with its observers. -/
structure Navigation where
  /-- How many steps each slide has. -/
  steps : List Nat
  position : Position
  /-- The observers, in the order in which they subscribed. -/
  observers : List Nat
  /-- The id of the next one to subscribe. It is counted without a bound, as a counter of 64 bits
      does for the first `2 ^ 64` of them. -/
  nextObserver : Nat
  /-- All notices so far, the oldest first. -/
  notices : List Notice
  steps_pos : ∀ n ∈ steps, 0 < n
  valid : position.step < stepsIn steps position.slide

theorem stepsIn_pos {steps : List Nat} (h : ∀ n ∈ steps, 0 < n) {slide : Nat}
    (hslide : slide < steps.length) : 0 < stepsIn steps slide := by
  simp only [stepsIn, List.getElem?_eq_getElem hslide, Option.getD_some]
  exact h _ (List.getElem_mem hslide)

theorem lt_length_of_lt_stepsIn {steps : List Nat} {slide k : Nat}
    (h : k < stepsIn steps slide) : slide < steps.length := by
  rcases Nat.lt_or_ge slide steps.length with hlt | hge
  · exact hlt
  · simp [stepsIn, List.getElem?_eq_none hge] at h

namespace Navigation

/-- The first slide without steps, if there is one. -/
def emptySlide? (steps : List Nat) : Option Nat :=
  steps.findIdx? fun n => n == 0

/-- What is wrong with a list of step counts. -/
def countsProblem (steps : List Nat) : Topic.Problem :=
  match emptySlide? steps with
  | some i => ⟨[.field "slides", .index i], .noSteps⟩
  | none => ⟨[], .noSlides⟩

/-- The beginning of a presentation whose slides have the given numbers of steps. There must
    be a slide, and every slide must have a step. -/
def ofSteps (steps : List Nat) : Except Topic.Problem Navigation :=
  if h : steps ≠ [] ∧ ∀ n ∈ steps, 0 < n then
    .ok {
      steps
      position := .first
      observers := []
      nextObserver := 0
      notices := []
      steps_pos := h.2
      valid := stepsIn_pos h.2 (List.length_pos_iff.2 h.1) }
  else .error (countsProblem steps)

/-- The progress at the current position. -/
def progress (n : Navigation) : Progress := n.position.progress n.steps

theorem slide_lt (n : Navigation) : n.position.slide < n.steps.length :=
  lt_length_of_lt_stepsIn n.valid

/-! ## Which moves there are -/

def canAdvanceSlide (n : Navigation) : Bool := n.position.slide + 1 < n.steps.length

def canRetreatSlide (n : Navigation) : Bool := 0 < n.position.slide

def canAdvanceStep (n : Navigation) : Bool :=
  n.position.step + 1 < stepsIn n.steps n.position.slide || n.canAdvanceSlide

def canRetreatStep (n : Navigation) : Bool := 0 < n.position.step || n.canRetreatSlide

/-! ## Moving -/

/-- Goes to a position and tells all observers. -/
def moveTo (n : Navigation) (p : Position) (h : p.step < stepsIn n.steps p.slide) :
    Navigation :=
  let heard := n.observers.map fun o => Notice.mk o p (p.progress n.steps)
  { n with position := p, notices := n.notices ++ heard, valid := h }

/-- Goes to the next step, which may be on the next slide. -/
def advanceStep? (n : Navigation) : Option (Move × Navigation) :=
  if h : n.position.step + 1 < stepsIn n.steps n.position.slide then
    some (⟨.step, false⟩, n.moveTo ⟨n.position.slide, n.position.step + 1⟩ h)
  else if h : n.position.slide + 1 < n.steps.length then
    some (⟨.step, true⟩, n.moveTo ⟨n.position.slide + 1, 0⟩ (stepsIn_pos n.steps_pos h))
  else none

/-- Goes to the step before, which may be the last one of the slide before. -/
def retreatStep? (n : Navigation) : Option (Move × Navigation) :=
  if 0 < n.position.step then
    some (⟨.step, false⟩, n.moveTo ⟨n.position.slide, n.position.step - 1⟩
      (Nat.lt_of_le_of_lt (Nat.sub_le _ _) n.valid))
  else if 0 < n.position.slide then
    some (⟨.step, true⟩,
      n.moveTo ⟨n.position.slide - 1, stepsIn n.steps (n.position.slide - 1) - 1⟩
        (Nat.sub_lt (stepsIn_pos n.steps_pos
          (Nat.lt_of_le_of_lt (Nat.sub_le _ _) n.slide_lt)) Nat.one_pos))
  else none

/-- Goes to the beginning of the next slide. -/
def advanceSlide? (n : Navigation) : Option (Move × Navigation) :=
  if h : n.position.slide + 1 < n.steps.length then
    some (⟨.slide, true⟩, n.moveTo ⟨n.position.slide + 1, 0⟩ (stepsIn_pos n.steps_pos h))
  else none

/-- Goes to the beginning of the slide before. -/
def retreatSlide? (n : Navigation) : Option (Move × Navigation) :=
  if 0 < n.position.slide then
    some (⟨.slide, true⟩, n.moveTo ⟨n.position.slide - 1, 0⟩
      (stepsIn_pos n.steps_pos (Nat.lt_of_le_of_lt (Nat.sub_le _ _) n.slide_lt)))
  else none

/-- Goes to the beginning of the presentation. -/
def restart (n : Navigation) : Move × Navigation :=
  (⟨.restart, n.position.slide != 0⟩,
    n.moveTo .first (stepsIn_pos n.steps_pos (Nat.zero_lt_of_lt n.slide_lt)))

/-- Goes to a step of the current slide. -/
def goToStep? (n : Navigation) (step : Nat) : Option (Move × Navigation) :=
  if h : step < stepsIn n.steps n.position.slide then
    some (⟨.jump, false⟩, n.moveTo ⟨n.position.slide, step⟩ h)
  else none

/-! ## Observers -/

/-- Adds an observer; it gets a number that no other one had. -/
def subscribe (n : Navigation) : Nat × Navigation :=
  (n.nextObserver,
    { n with observers := n.observers ++ [n.nextObserver], nextObserver := n.nextObserver + 1 })

/-- Removes an observer and says whether there was one. -/
def unsubscribe (n : Navigation) (observer : Nat) : Bool × Navigation :=
  (n.observers.contains observer,
    { n with observers := n.observers.filter fun o => o != observer })

end Navigation

end Slideshow

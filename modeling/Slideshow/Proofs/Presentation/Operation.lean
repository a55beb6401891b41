/-
  Slideshow.Proofs.Presentation.Operation

  What can be done to a presentation from outside, one operation after another, and what has
  become known of it: the events that were emitted and the diagram that was handed over last.
-/
import Slideshow.Presentation

namespace Slideshow

/-! ## Operations -/

/-- What the reader asks for. -/
inductive Intent where
  | nextStep
  | previousStep
  | nextSlide
  | previousSlide
  | restart
  | goToStep (step : Nat)
  | replay
  deriving DecidableEq

/-- Does what the reader asks for, and says whether it was done. -/
def Intent.run : Intent → Presentation → Bool × Presentation
  | nextStep, p => p.nextStep
  | previousStep, p => p.previousStep
  | nextSlide, p => p.nextSlide
  | previousSlide, p => p.previousSlide
  | restart, p => p.restart
  | goToStep step, p => p.goToStep step
  | replay, p => p.replay

/-- What can be done to a presentation. -/
inductive Operation where
  | intent (i : Intent)
  | tick (dt : Float)
  | skip
  | attach (slide : Nat) (scene : Scene)
  | fail (slide : Nat) (message : String)
  | takeEvents
  | subscribe
  | unsubscribe (observer : Nat)

namespace Operation

/-- The presentation behind an operation. -/
def run : Operation → Presentation → Presentation
  | intent i, p => (i.run p).2
  | tick dt, p => p.tick dt
  | skip, p => p.skip
  | attach slide scene, p => (p.attach slide scene).2
  | fail slide message, p => (p.fail slide message).2
  | takeEvents, p => p.takeEvents.2
  | subscribe, p => p.subscribe.2
  | unsubscribe observer, p => (p.unsubscribe observer).2

/-- The events that an operation adds to those that wait to be taken. -/
def emitted (o : Operation) (p : Presentation) : List Event :=
  (o.run p).events.drop p.events.length

/-- The operation hands over the diagram that is awaited. -/
def handsOver : Operation → Presentation → Bool
  | attach slide scene, p => (p.attach slide scene).1
  | _, _ => false

/-- The diagram that an operation hands over, if it is the one that is awaited. -/
def handed? (p : Presentation) : Operation → Option Scene
  | attach slide scene => if (p.attach slide scene).1 then some scene else none
  | _ => none

end Operation

namespace Presentation

/-- The presentation behind several operations. -/
def runAll (p : Presentation) (os : List Operation) : Presentation :=
  os.foldl (fun p o => o.run p) p

/-- The events of several operations, the oldest first. -/
def emitted (p : Presentation) : List Operation → List Event
  | [] => []
  | o :: os => o.emitted p ++ (o.run p).emitted os

theorem runAll_cons (p : Presentation) (o : Operation) (os : List Operation) :
    p.runAll (o :: os) = (o.run p).runAll os := rfl

theorem runAll_append (p : Presentation) (os os' : List Operation) :
    p.runAll (os ++ os') = (p.runAll os).runAll os' := by
  simp only [runAll, List.foldl_append]

/-- What is kept by every operation is kept by all of them together. -/
theorem runAll_induction {P : Presentation → Prop} {p : Presentation} (hp : P p)
    (hstep : ∀ p o, P p → P (Operation.run o p)) (os : List Operation) : P (p.runAll os) := by
  induction os generalizing p with
  | nil => exact hp
  | cons o os ih => exact ih (hstep p o hp)

/-- The diagram that was handed over last, given the one before. -/
def attached (p : Presentation) (before : Option Scene) : List Operation → Option Scene
  | [] => before
  | o :: os => (o.run p).attached ((o.handed? p).or before) os

end Presentation

/-! ## A small presentation -/

/-- A presentation of two slides; the second step of the first one is animated. -/
def Topic.demo : Topic where
  id := "demo"
  title := "Demo"
  slides := [
    { id := "first", title := "First", diagram := "a", components := .empty
      steps := [
        ⟨"first-1", ⟨"FETCH", none, "", none, none, none⟩, [], .empty⟩,
        ⟨"first-2", ⟨"DECODE", none, "", none, none, none⟩, [.wait none, .setValue "val_x" "2"],
          .ofList [("val_x", .text "2")]⟩] },
    { id := "second", title := "Second", diagram := "b", components := .empty
      steps := [⟨"second-1", ⟨"STORE", none, "", none, none, none⟩, [], .empty⟩] }]

/-- A diagram with one text. -/
def Scene.demo : Scene where
  namespaces := []
  tag := ⟨none, "svg", []⟩
  children := [.element ⟨some "val_x", "text", [("id", "val_x")]⟩ [.text "1"]]
  detached := []

end Slideshow

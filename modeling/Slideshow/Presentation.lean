/-
  Slideshow.Presentation

  A running presentation. Moves lead to a step; its diagram is requested if it is not there,
  and once it is, the step is shown: the diagram is put into the state after the step, or,
  if the step is to be animated, into the state before it, from which the animation plays.
  While a diagram is awaited, no move is made.
-/
import Slideshow.Navigation
import Slideshow.Scene.Document
import Slideshow.Store
import Slideshow.Timeline.Player

namespace Slideshow

/-! ## State -/

/-- Whether the diagram of the current slide is there. -/
inductive LoadPhase where
  /-- It is awaited; then the step is shown, animated or not. -/
  | loading (slide : Nat) (animate : Bool)
  | ready
  | failed (message : String)
  deriving DecidableEq

/-- What the reader's display is told. -/
inductive Event where
  | stepShown (position : Position) (progress : Progress) (caption : Caption) (animated : Bool)
  | animationCompleted (position : Position)
  | diagramRequested (slide : Nat) (diagram : String)
  | diagramLoaded (slide : Nat)
  | loadFailed (slide : Nat) (message : String)
  deriving DecidableEq

/-- A running presentation. -/
structure Presentation where
  topic : Topic
  navigation : Navigation
  store : Option Store
  /-- The name of the diagram in the store. -/
  loaded : Option String
  player : Player Position
  phase : LoadPhase
  /-- The events that have not been taken yet, the oldest first. -/
  events : List Event

namespace Presentation

/-- Adds an event. -/
def emit (p : Presentation) (e : Event) : Presentation := { p with events := p.events ++ [e] }

/-- Takes all events. -/
def takeEvents (p : Presentation) : List Event × Presentation :=
  (p.events, { p with events := [] })

def position (p : Presentation) : Position := p.navigation.position

/-- The slide at the current position. -/
def currentSlide? (p : Presentation) : Option Slide := p.topic.slide? p.position.slide

/-- The step at the current position. -/
def currentStep? (p : Presentation) : Option Step :=
  p.topic.step? p.position.slide p.position.step

/-- The slide whose diagram is awaited. -/
def awaited? (p : Presentation) : Option Nat :=
  match p.phase with
  | .loading slide _ => some slide
  | _ => none

def isLoading (p : Presentation) : Bool := p.awaited?.isSome

def isPlaying (p : Presentation) : Bool := p.player.isPlaying

/-- The name of a slide's diagram. -/
def diagramOf? (p : Presentation) (slide : Nat) : Option String :=
  (p.topic.slide? slide).map (·.diagram)

/-! ## Beginning -/

/-- Requests the diagram of a slide. -/
def request (p : Presentation) (slide : Nat) (animate : Bool) : Presentation :=
  { p with phase := .loading slide animate }.emit
    (.diagramRequested slide ((p.diagramOf? slide).getD ""))

/-- A presentation at its beginning, which requests its first diagram. -/
def new (topic : Topic) (settings : Settings) : Except Failure Presentation :=
  match Navigation.ofSteps (topic.slides.map fun s => s.steps.length) with
  | .error problem => .error (.validation (.topic [problem]))
  | .ok navigation =>
    let p : Presentation :=
      { topic, navigation, store := none, loaded := none, player := .new settings,
        phase := .ready, events := [] }
    .ok (p.request 0 false)

/-! ## Showing steps -/

/-- The state after the first `count` steps of a slide, with the camera at its default frame
    and the phase of a step marked. -/
def prepare (settings : Settings) (slide : Slide) (step : Step) (count : Nat) (s : Store) :
    Store :=
  let s := Stage.setViewport (s.restore slide count) settings.viewport.rect
  match settings.phaseIndicator with
  | some indicator => indicator.apply step.caption.phaseKind s
  | none => s

/-- Says that the animation was completed, if it was. -/
def tell (p : Presentation) (completed : Option Position) : Presentation :=
  match completed with
  | some position => p.emit (.animationCompleted position)
  | none => p

/-- Gives the components the values that the current step leaves behind, once its animation
    is complete. -/
def settle (p : Presentation) : Presentation :=
  if p.player.state = .completed then
    match p.store, p.currentStep? with
    | some store, some step => { p with store := some (store.apply step.finalState) }
    | _, _ => p
  else p

/-- Plays the animation of a step from the state before it. -/
def animate (p : Presentation) (slide : Slide) (step : Step) (store : Store) : Presentation :=
  let store := prepare p.player.settings slide step p.position.step store
  let (player, store, completed) := p.player.play step.animations p.position store
  ({ p with player, store := some store }.tell completed).settle

/-- Shows the current step, and says whether there was a diagram to show it on. -/
def showStep (p : Presentation) (animated : Bool) : Bool × Presentation :=
  match p.store, p.currentSlide?, p.currentStep? with
  | some store, some slide, some step =>
    let store := prepare p.player.settings slide step (p.position.step + 1) store
    let animated := animated && !step.animations.isEmpty
    let p := { p with store := some store }.emit
      (.stepShown p.position p.navigation.progress step.caption animated)
    (true, if animated then p.animate slide step store else p)
  | _, _, _ => (false, p)

/-! ## Diagrams -/

/-- Takes the diagram of a slide, if it is awaited. -/
def attach (p : Presentation) (slide : Nat) (scene : Scene) : Bool × Presentation :=
  match p.phase with
  | .loading awaited animated =>
    if awaited = slide then
      let store :=
        match p.store with
        | some store => store.replace scene
        | none => Store.capture p.player.settings.dynamic scene
      let p := { p with store := some store, loaded := p.diagramOf? slide, phase := .ready }
      (true, ((p.emit (.diagramLoaded slide)).showStep animated).2)
    else (false, p)
  | _ => (false, p)

/-- Takes note that the diagram of a slide could not be loaded, if it is awaited. -/
def fail (p : Presentation) (slide : Nat) (message : String) : Bool × Presentation :=
  if p.awaited? = some slide then
    (true, { p with phase := .failed message }.emit (.loadFailed slide message))
  else (false, p)

/-- Asks a source for the awaited diagram, if there is one. -/
def pump {m : Type → Type} [Monad m] (p : Presentation)
    (source : Topic → Slide → m (Except Failure Scene)) :
    m (Except Failure Unit × Presentation) :=
  match p.awaited? with
  | none => pure (.ok (), p)
  | some slide =>
    match p.topic.slide? slide with
    | none => pure (.ok (), p)
    | some s => do
      match ← source p.topic s with
      | .ok scene => return (.ok (), (p.attach slide scene).2)
      | .error e => return (.error e, (p.fail slide e.message).2)

/-- A source that has diagrams by name. -/
def diagramsByName (diagrams : Dict String) (_ : Topic) (slide : Slide) :
    Except Failure Scene :=
  match diagrams.get? slide.diagram with
  | none => .error (.load (.noDiagram slide.diagram))
  | some text => (Scene.load text).mapError .load

/-! ## Moves -/

/-- Ends a running animation. -/
def stopPlayback (p : Presentation) : Presentation :=
  if p.isPlaying then
    match p.store with
    | some store =>
      let (player, store) := p.player.stop store
      { p with player, store := some store }
    | none => p
  else p

/-- The diagram in the store is the one of the current slide. -/
def hasDiagram (p : Presentation) : Bool :=
  p.store.isSome && p.loaded.isSome && p.loaded == p.diagramOf? p.position.slide

/-- Shows the step that a move led to, or requests its diagram. -/
def follow (p : Presentation) (move : Option (Move × Navigation)) (animated : Bool) :
    Bool × Presentation :=
  match move with
  | none => (false, p)
  | some (move, navigation) =>
    let p := { p with navigation }
    if !p.hasDiagram && (move.slideChanged || p.phase != .ready) then
      (true, p.request p.position.slide animated)
    else (true, ({ p with phase := .ready }.showStep animated).2)

/-- Ends a running animation and moves without animation, unless a diagram is awaited. -/
def moveBy (p : Presentation) (move : Navigation → Option (Move × Navigation)) :
    Bool × Presentation :=
  if p.isLoading then (false, p)
  else
    let p := p.stopPlayback
    p.follow (move p.navigation) false

/-- Goes to the next step and animates it; a running animation is sped up instead. -/
def nextStep (p : Presentation) : Bool × Presentation :=
  if p.isLoading then (false, p)
  else if p.isPlaying then (true, { p with player := p.player.fastForward })
  else p.follow p.navigation.advanceStep? true

def previousStep (p : Presentation) : Bool × Presentation := p.moveBy Navigation.retreatStep?

def nextSlide (p : Presentation) : Bool × Presentation := p.moveBy Navigation.advanceSlide?

def previousSlide (p : Presentation) : Bool × Presentation := p.moveBy Navigation.retreatSlide?

def restart (p : Presentation) : Bool × Presentation := p.moveBy fun n => some n.restart

def goToStep (p : Presentation) (step : Nat) : Bool × Presentation :=
  p.moveBy fun n => n.goToStep? step

/-- Plays the animation of the current step again. -/
def replay (p : Presentation) : Bool × Presentation :=
  if p.phase = .ready then p.stopPlayback.showStep true else (false, p)

/-! ## Time -/

/-- Lets a running animation run for some time. -/
def tick (p : Presentation) (dt : Float) : Presentation :=
  match p.store with
  | some store =>
    if p.phase = .ready ∧ p.isPlaying then
      let (player, store, completed) := p.player.advance dt store
      ({ p with player, store := some store }.tell completed).settle
    else p
  | none => p

/-- Lets a running animation run to its end. -/
def skip (p : Presentation) : Presentation := p.tick (1 / 0)

/-! ## Observers -/

def subscribe (p : Presentation) : Nat × Presentation :=
  let (observer, navigation) := p.navigation.subscribe
  (observer, { p with navigation })

def unsubscribe (p : Presentation) (observer : Nat) : Bool × Presentation :=
  let (found, navigation) := p.navigation.unsubscribe observer
  (found, { p with navigation })

end Presentation

end Slideshow

/-
  Slideshow.Timeline.Player

  Plays the animation of a step. A play comes with a request, a value of type `κ`, which the
  player holds while it is playing and hands back when the animation is complete; a new play
  or a stop drops it.
-/
import Slideshow.Timeline.Clock
import Slideshow.Timeline.Plan

namespace Slideshow

/-! ## Playback -/

/-- What became of the last play. -/
inductive Playback where
  | idle
  | playing
  | completed
  | cancelled
  deriving DecidableEq, Repr

/-- A player with its clock. -/
structure Player (κ : Type) where
  settings : Settings
  clock : Clock
  state : Playback
  /-- What is handed back when the animation is complete. -/
  pending : Option κ
  /-- The tweens of the last play. -/
  plan : List (Tween Float)

namespace Player

variable {κ S : Type} [Stage S]

/-- A player that has not played. -/
def new (settings : Settings) : Player κ := ⟨settings, .new, .idle, none, []⟩

/-- The animation is running. -/
def isPlaying (p : Player κ) : Bool := p.state == .playing

/-- Hides all tokens that a diagram has. -/
def hideTokens (tokens : List TokenSlot) (s : S) : S :=
  tokens.foldl
    (fun s t => if Stage.contains s t.group then Stage.setAttribute s t.group "opacity" "0" else s)
    s

/-- Lets the animation run for some time. What is handed back comes last. -/
def advance (p : Player κ) (dt : Float) (s : S) : Player κ × S × Option κ :=
  if p.isPlaying then
    let (clock, s) := p.clock.advance dt s
    if clock.isFinished then
      ({ p with clock, state := .completed, pending := none }, s, p.pending)
    else ({ p with clock }, s, none)
  else (p, s, none)

/-- Lets the animation run to its end. -/
def finish (p : Player κ) (s : S) : Player κ × S × Option κ := p.advance (1 / 0) s

/-- Plays directives from their beginning. What is due at once is written at once. -/
def play (p : Player κ) (ds : List (Directive Float)) (request : κ) (s : S) :
    Player κ × S × Option κ :=
  let s := hideTokens p.settings.tokens s
  let planner : Planner Float S := ⟨p.settings.tokens, p.settings.defaults, s⟩
  let plan := planner.plan ds
  let clock := (p.clock.cancelAll.setScale 1).scheduleAll plan
  { p with clock, state := .playing, pending := some request, plan }.advance 0 s

/-- Lets a running animation run faster. -/
def fastForward (p : Player κ) : Player κ :=
  if p.isPlaying then { p with clock := p.clock.setScale p.settings.fastForwardRate } else p

/-- Ends a running animation and drops what it would hand back. -/
def stop (p : Player κ) (s : S) : Player κ × S :=
  ({ p with
      clock := p.clock.cancelAll
      pending := none
      state := if p.isPlaying then .cancelled else .idle },
    hideTokens p.settings.tokens s)

/-- Moves the camera to its default frame. -/
def resetCamera (p : Player κ) (s : S) : S :=
  Stage.setViewport s p.settings.viewport.rect

end Player

end Slideshow

/-
  Slideshow.Timeline.Plan

  From directives to tweens. Directives follow one another; those of a parallel block begin
  together, and the block ends with the last of them. A pulse and a new text take no time.
  Each packet travels as a token; in a parallel block the packets take the tokens in turn.
-/
import Slideshow.Path.Data
import Slideshow.Scene.Stage
import Slideshow.Timeline.Tween

namespace Slideshow

/-! ## Laying out -/

/-- Tweens, and when the next directive begins. -/
structure Layout (τ : Type) where
  tweens : List (Tween τ)
  finish : τ

/-- What directives are laid out with: the tokens, the usual times, and the diagram. -/
structure Planner (τ : Type) (S : Type) where
  tokens : List TokenSlot
  defaults : Defaults τ
  stage : S

namespace Planner

variable {τ : Type} {S : Type} [Scalar τ] [Stage S]

/-- A track that sets the opacity of a token. -/
def opacity (value : String) : Track := .attribute "opacity" none value

/-- The token of a packet. -/
def token? (p : Planner τ S) (index : Nat) : Option TokenSlot :=
  p.tokens[index % p.tokens.length]?

/-- The path of the diagram that has an id. -/
def path? (p : Planner τ S) (id : String) : Option Path :=
  (Stage.attribute? p.stage id "d").bind fun d => (PathData.read d).toOption

/-- The tweens of a packet's way, one for each path that the diagram has. -/
def ways (p : Planner τ S) (group : String) : τ → List (PathSpec τ) → Layout τ
  | time, [] => ⟨[], time⟩
  | time, w :: ws =>
    match p.path? w.pathId with
    | none => p.ways group time ws
    | some path =>
      let duration := w.duration.getD p.defaults.segmentDuration
      let tween := Tween.basic (.element group) time duration
        [.motion w.path path w.start w.stop]
      let rest := p.ways group (time + duration) ws
      ⟨{ tween with ease := w.ease.getD p.defaults.segmentEase } :: rest.tweens, rest.finish⟩

/-- The tweens of a packet: its token appears, travels and disappears. -/
def packet (p : Planner τ S) (label : Option String) (start : Option Point)
    (paths : List (PathSpec τ)) (time : τ) (index : Nat) : Layout τ :=
  match p.token? index with
  | none => ⟨[], time⟩
  | some slot =>
    let place := start.map fun q => Track.attribute "transform" none q.shift
    let appear := Tween.basic (.element slot.group) time Scalar.zero
      (opacity "1" :: place.toList)
    let named := label.map fun s =>
      Tween.basic (.element slot.label) time Scalar.zero [.text s]
    let way := p.ways slot.group time paths
    let vanish := Tween.basic (.element slot.group) way.finish Scalar.zero [opacity "0"]
    ⟨appear :: named.toList ++ way.tweens ++ [vanish], way.finish⟩

/-- The tween of a pulse, if the diagram has something to emphasize. -/
def pulse (p : Planner τ S) (target : String) (duration : Option τ) (repetitions : Option Nat)
    (time : τ) : List (Tween τ) :=
  match Stage.emphasisTarget? p.stage (elementId target) with
  | none => []
  | some key =>
    let tween := Tween.basic (.element key) time (duration.getD p.defaults.pulseDuration)
      [.attribute "stroke-width" (some "3") "6",
        .attribute "filter" (some "brightness(1)") "brightness(2)"]
    [{ tween with
        ease := .power .quad .easeOut
        repetitions := repetitions.getD p.defaults.pulseRepeat
        yoyo := true
        restore := true }]

/-- A directive is a packet. -/
def isPacket : Directive τ → Bool
  | .packet .. => true
  | _ => false

mutual

/-- Lays out a directive that begins at a time; a packet takes the token of the given
    index. -/
def directive (p : Planner τ S) (time : τ) (index : Nat) : Directive τ → Layout τ
  | .camera frame duration ease =>
    let duration := duration.getD p.defaults.cameraDuration
    let tween := Tween.basic .viewport time duration [.viewport frame.rect]
    ⟨[{ tween with ease := ease.getD p.defaults.cameraEase }], time + duration⟩
  | .packet label start paths => p.packet label start paths time index
  | .setValue target value =>
    ⟨[.basic (.element (elementId target)) time Scalar.zero [.text value]], time⟩
  | .pulse target duration repetitions => ⟨p.pulse target duration repetitions time, time⟩
  | .wait duration =>
    let duration := duration.getD p.defaults.waitDuration
    ⟨[.basic .gap time duration []], time + duration⟩
  | .attributes target values duration ease =>
    let duration := duration.getD p.defaults.transitionDuration
    let tween := Tween.basic (.element (elementId target)) time duration
      (values.entries.map fun e => .attribute e.1 none e.2)
    ⟨[{ tween with ease := ease.getD p.defaults.transitionEase }], time + duration⟩
  | .parallel ds => p.block time 0 time ds

/-- Lays out directives that begin together, given how many packets came before and the end
    so far. -/
def block (p : Planner τ S) (time : τ) (packets : Nat) (finish : τ) :
    List (Directive τ) → Layout τ
  | [] => ⟨[], finish⟩
  | d :: ds =>
    let first := p.directive time (if isPacket d then packets else 0) d
    let rest := p.block time (if isPacket d then packets + 1 else packets)
      (Scalar.later finish first.finish) ds
    ⟨first.tweens ++ rest.tweens, rest.finish⟩

end

/-- Lays out directives one after another. -/
def sequence (p : Planner τ S) (time : τ) : List (Directive τ) → Layout τ
  | [] => ⟨[], time⟩
  | d :: ds =>
    let first := p.directive time 0 d
    let rest := p.sequence first.finish ds
    ⟨first.tweens ++ rest.tweens, rest.finish⟩

/-- The tweens of a step's directives. -/
def plan (p : Planner τ S) (ds : List (Directive τ)) : List (Tween τ) :=
  (p.sequence Scalar.zero ds).tweens

end Planner

end Slideshow

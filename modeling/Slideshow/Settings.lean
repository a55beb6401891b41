/-
  Slideshow.Settings

  What can be configured: the camera's default frame, the tokens that packets travel as, the
  marks of the current phase, which elements are dynamic, and the times of directives that
  give none. Settings that a document leaves out keep their usual values.
-/
import Slideshow.Failure
import Slideshow.Json.Reader
import Slideshow.Topic.Reader
import Slideshow.Topic.Writer

namespace Slideshow

open Json

/-! ## Parts -/

/-- Which elements are dynamic: those whose id begins with `idStart`, and those that carry
    the class `markerClass`. -/
structure DynamicRule where
  idStart : String
  markerClass : String
  deriving DecidableEq

/-- A token: the group that travels and the element that shows its label. -/
structure TokenSlot where
  group : String
  label : String
  deriving DecidableEq

/-- How the current phase is marked. The background and the text of a phase are the elements
    whose ids begin with `background` and `text` and end in the phase's name; they get the
    active attributes during that phase and the inactive ones otherwise. -/
structure PhaseIndicator where
  background : String
  text : String
  activeBackground : Dict String
  inactiveBackground : Dict String
  activeText : Dict String
  inactiveText : Dict String
  deriving DecidableEq

/-- Times and easing curves of directives that give none. Times are of type `τ`. -/
structure Defaults (τ : Type) where
  cameraDuration : τ
  cameraEase : Ease
  segmentDuration : τ
  segmentEase : Ease
  waitDuration : τ
  transitionDuration : τ
  transitionEase : Ease
  /-- Half the length of a pulse. -/
  pulseDuration : τ
  pulseRepeat : Nat
  deriving DecidableEq

/-- All settings. -/
structure Settings where
  viewport : Frame
  fastForwardRate : Float
  dynamic : DynamicRule
  tokens : List TokenSlot
  defaults : Defaults Float
  /-- The marks of the current phase, if it is marked at all. -/
  phaseIndicator : Option PhaseIndicator
  deriving DecidableEq

/-! ## The usual settings -/

def DynamicRule.usual : DynamicRule := ⟨"val_", "comp-val"⟩

def PhaseIndicator.usual : PhaseIndicator where
  background := "phase-bg-"
  text := "phase-text-"
  activeBackground := .empty
  inactiveBackground := .ofList [("fill", "transparent"), ("stroke", "transparent")]
  activeText := .ofList [("opacity", "1")]
  inactiveText := .ofList [("opacity", "0.5")]

def Defaults.usual : Defaults Float where
  cameraDuration := 1.5
  cameraEase := .power .cubic .easeInOut
  segmentDuration := 1
  segmentEase := .linear
  waitDuration := 0.5
  transitionDuration := 0.5
  transitionEase := .power .quad .easeOut
  pulseDuration := 0.2
  pulseRepeat := 3

def Settings.usual : Settings where
  viewport := ⟨0, 0, 1600, 900⟩
  fastForwardRate := 10
  dynamic := .usual
  tokens := [⟨"packet-grp", "packet-text"⟩, ⟨"packet-grp-2", "packet-text-2"⟩]
  defaults := .usual
  phaseIndicator := some .usual

instance : Inhabited Settings := ⟨.usual⟩

/-! ## Reading -/

def DynamicRule.ofJson? (j : Json) : Option DynamicRule :=
  match j.fields? [["id_prefix"], ["marker_class"]] with
  | some [idStart, markerClass] => do
    return ⟨← withDefault usual.idStart Json.str? idStart,
      ← withDefault usual.markerClass Json.str? markerClass⟩
  | _ => none

def TokenSlot.ofJson? (j : Json) : Option TokenSlot :=
  match j.fields? [["group"], ["label"]] with
  | some [group, label] => do
    return ⟨← required Json.str? group, ← required Json.str? label⟩
  | _ => none

def PhaseIndicator.ofJson? (j : Json) : Option PhaseIndicator :=
  let texts (d : Dict String) := withDefault d (dictOf? Json.str?)
  match j.fields? [["bg_prefix"], ["text_prefix"], ["active_bg"], ["inactive_bg"],
      ["active_text"], ["inactive_text"]] with
  | some [background, text, activeBackground, inactiveBackground, activeText, inactiveText] => do
    return {
      background := ← withDefault usual.background Json.str? background
      text := ← withDefault usual.text Json.str? text
      activeBackground := ← texts usual.activeBackground activeBackground
      inactiveBackground := ← texts usual.inactiveBackground inactiveBackground
      activeText := ← texts usual.activeText activeText
      inactiveText := ← texts usual.inactiveText inactiveText }
  | _ => none

def Defaults.ofJson? (j : Json) : Option (Defaults Float) :=
  let time (x : Float) := withDefault x Json.float?
  let ease (e : Ease) := withDefault e Ease.ofJson?
  match j.fields? [["camera_duration"], ["camera_ease"], ["segment_duration"], ["segment_ease"],
      ["wait_duration"], ["transition_duration"], ["transition_ease"], ["pulse_duration"],
      ["pulse_repeat"]] with
  | some [cameraDuration, cameraEase, segmentDuration, segmentEase, waitDuration,
      transitionDuration, transitionEase, pulseDuration, pulseRepeat] => do
    return {
      cameraDuration := ← time usual.cameraDuration cameraDuration
      cameraEase := ← ease usual.cameraEase cameraEase
      segmentDuration := ← time usual.segmentDuration segmentDuration
      segmentEase := ← ease usual.segmentEase segmentEase
      waitDuration := ← time usual.waitDuration waitDuration
      transitionDuration := ← time usual.transitionDuration transitionDuration
      transitionEase := ← ease usual.transitionEase transitionEase
      pulseDuration := ← time usual.pulseDuration pulseDuration
      pulseRepeat := ← withDefault usual.pulseRepeat Json.count? pulseRepeat }
  | _ => none

def Settings.ofJson? (j : Json) : Option Settings :=
  match j.fields? [["viewport"], ["fast_forward_rate"], ["dynamic"], ["tokens"], ["defaults"],
      ["phase_indicator"]] with
  | some [viewport, fastForwardRate, dynamic, tokens, defaults, phaseIndicator] => do
    return {
      viewport := ← withDefault usual.viewport Frame.ofJson? viewport
      fastForwardRate := ← withDefault usual.fastForwardRate Json.float? fastForwardRate
      dynamic := ← withDefault usual.dynamic DynamicRule.ofJson? dynamic
      tokens := ← withDefault usual.tokens (listOf? TokenSlot.ofJson?) tokens
      defaults := ← withDefault usual.defaults Defaults.ofJson? defaults
      phaseIndicator :=
        ← withDefault usual.phaseIndicator (nullable PhaseIndicator.ofJson?) phaseIndicator }
  | _ => none

/-! ## Checking -/

/-- The first fault of settings, if they have one. -/
def Settings.fault? (s : Settings) : Option SettingFault :=
  if !(s.fastForwardRate.isFinite && 0 < s.fastForwardRate) then some .fastForwardRate
  else if !(0 < s.viewport.width && 0 < s.viewport.height) then some .viewport
  else if Directive.maxRepetitions < s.defaults.pulseRepeat then some .pulseRepeat
  else if s.tokens.isEmpty then some .noTokens
  else none

/-- The settings of a document. -/
def Settings.load (text : String) : Except Failure Settings :=
  match (Json.parse? text).bind Settings.ofJson? with
  | none => .error .decoding
  | some s =>
    match s.fault? with
    | some fault => .error (.validation (.setting fault))
    | none => .ok s

/-! ## Writing -/

def PhaseIndicator.toJson (p : PhaseIndicator) : Json :=
  .obj [("bg_prefix", .str p.background), ("text_prefix", .str p.text),
    ("active_bg", .ofDict .str p.activeBackground),
    ("inactive_bg", .ofDict .str p.inactiveBackground),
    ("active_text", .ofDict .str p.activeText),
    ("inactive_text", .ofDict .str p.inactiveText)]

def Defaults.toJson (d : Defaults Float) : Json :=
  .obj [("camera_duration", .ofFloat d.cameraDuration), ("camera_ease", d.cameraEase.toJson),
    ("segment_duration", .ofFloat d.segmentDuration), ("segment_ease", d.segmentEase.toJson),
    ("wait_duration", .ofFloat d.waitDuration),
    ("transition_duration", .ofFloat d.transitionDuration),
    ("transition_ease", d.transitionEase.toJson),
    ("pulse_duration", .ofFloat d.pulseDuration), ("pulse_repeat", .ofNat d.pulseRepeat)]

def Settings.toJson (s : Settings) : Json :=
  .obj [("viewport", s.viewport.toJson), ("fast_forward_rate", .ofFloat s.fastForwardRate),
    ("dynamic", .obj [("id_prefix", .str s.dynamic.idStart),
      ("marker_class", .str s.dynamic.markerClass)]),
    ("tokens", .arr (s.tokens.map fun t =>
      .obj [("group", .str t.group), ("label", .str t.label)])),
    ("defaults", s.defaults.toJson),
    ("phase_indicator", (s.phaseIndicator.map PhaseIndicator.toJson).getD .null)]

end Slideshow

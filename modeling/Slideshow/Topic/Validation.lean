/-
  Slideshow.Topic.Validation

  The problems of a topic document, all of them and in document order. The problems of a
  slide depend on nothing but the slide and the ids of the slides before it, and likewise
  for steps; those of a directive depend on the directive alone.
-/
import Slideshow.Topic.Problem

namespace Slideshow.Topic

open Problem (here inside)

/-- The members of an object. -/
abbrev Members : Type := List (String × Json)

/-! ## Fields -/

/-- A text that must be there and not be blank. -/
def requiredText (name : String) (ms : Members) : List Problem :=
  match lookupIn? name ms with
  | none => [here (.missing name)]
  | some .null => [here (.missing name)]
  | some (.str s) => if Text.isBlankText s then [here (.missing name)] else []
  | some _ => [here (.notString name)]

/-- A text that may be absent. -/
def optionalText (name : String) (ms : Members) : List Problem :=
  match lookupIn? name ms with
  | none => []
  | some .null => []
  | some (.str _) => []
  | some _ => [here (.notString name)]

/-- A label, which may also be a number. -/
def optionalLabel (name : String) (ms : Members) : List Problem :=
  match lookupIn? name ms with
  | some (.num _) => []
  | _ => optionalText name ms

/-- A length of time, which may be absent. -/
def optionalTime (name : String) (ms : Members) : List Problem :=
  match lookupIn? name ms with
  | none => []
  | some .null => []
  | some (.num n) =>
    let x := n.toFloat
    if x.isFinite && 0 ≤ x then [] else [here (.timeNegative name)]
  | some _ => [here (.timeNotNumber name)]

/-- An easing curve, which may be absent. -/
def optionalEase (ms : Members) : List Problem :=
  match lookupIn? "ease" ms with
  | none => []
  | some .null => []
  | some (.str s) => if (Ease.ofName? s).isSome then [] else [here (.unknownEase s)]
  | some _ => [here .easeNotString]

/-- A mapping of components, which may be absent. -/
def optionalComponents (name : String) (ms : Members) : List Problem :=
  match lookupIn? name ms with
  | none => []
  | some .null => []
  | some (.obj es) =>
    es.filterMap fun e =>
      match ComponentValue.ofJson e.2 with
      | .ok _ => none
      | .error problem => some (here (.component name e.1 problem))
  | some _ => [here (.notMapping name)]

/-- A value is an array of the given number of numbers. -/
def isNumbers (count : Nat) : Option Json → Bool
  | some (.arr xs) => xs.length == count && xs.all Json.isNum
  | _ => false

/-- The member under a name; `null` counts as absent. -/
def given? (name : String) (ms : Members) : Option Json :=
  match lookupIn? name ms with
  | some .null => none
  | j => j

/-! ## Paths -/

/-- An end of a packet's way that lies outside the path. -/
def outside (what : String) (x : Float) : List Problem :=
  if 0 ≤ x && x ≤ 1 then [] else [here (.pathOutside what)]

/-- An end of a packet's way that is given, but not as a number. -/
def pathNumber (what : String) (ms : Members) : List Problem :=
  match given? what ms with
  | none => []
  | some j => if j.isNum then [] else [here (.pathNotNumber what)]

/-- The problems of one stretch of a packet's way. -/
def pathProblems : Json → List Problem
  | .str s =>
    match PathSpec.ofText s with
    | .error problem => [here (.pathText problem)]
    | .ok p =>
      outside "start" p.start ++ outside "end" p.stop ++
        match p.duration with
        | none => []
        | some d => if d.isFinite && 0 ≤ d then [] else [here .pathTime]
  | .obj ms =>
    requiredText "path" ms ++ pathNumber "start" ms ++ pathNumber "end" ms ++
      optionalTime "duration" ms ++ optionalEase ms ++
      match PathSpec.ofJson? (.obj ms) with
      | none => []
      | some p => outside "start" p.start ++ outside "end" p.stop
  | _ => [here .pathForm]

/-! ## Directives -/

/-- The problems of a list's items, each at its place. -/
def itemProblems (name : String) (check : Json → List Problem) (i : Nat) :
    List Json → List Problem
  | [] => []
  | j :: js =>
    inside [.field name, .index i] (check j) ++ itemProblems name check (i + 1) js

/-- The problems of the ways of a packet. -/
def packetPaths (ms : Members) : List Problem :=
  match lookupIn? "paths" ms with
  | some (.arr []) => [here .noPaths]
  | some (.arr ps) => itemProblems "paths" pathProblems 0 ps
  | _ => [here (.notArray "paths")]

/-- The problems of a pulse's number of repetitions. -/
def repetitionProblems (ms : Members) : List Problem :=
  match given? "repeat" ms with
  | none => []
  | some j =>
    match j.num?.bind Number.toNat? with
    | none => [here .notCount]
    | some n => if Directive.maxRepetitions < n then [here .tooManyRepetitions] else []

/-- The problems of the attributes that a directive moves. -/
def attributeProblems (ms : Members) : List Problem :=
  match (lookupIn? "attributes" ms).or (lookupIn? "attrs" ms) with
  | some (.obj []) => [here .noAttributes]
  | some (.obj es) =>
    es.filterMap fun e =>
      match e.2.spelling? with
      | some _ => none
      | none => some (here (.attributeValue (.notScalar e.1)))
  | _ => [here (.missing "attributes")]

/-- The problems of a directive's own fields. -/
def fieldProblems (ms : Members) : Directive.Kind → List Problem
  | .camera =>
    (if isNumbers 4 (lookupIn? "to" ms) then [] else [here .cameraFrame]) ++
      optionalTime "duration" ms ++ optionalEase ms
  | .packet =>
    optionalLabel "text" ms ++
      (match given? "from" ms with
        | none => []
        | some j => if isNumbers 2 (some j) then [] else [here .packetStart]) ++
      packetPaths ms
  | .setValue =>
    requiredText "target" ms ++
      if ((lookupIn? "value" ms).bind Json.spelling?).isSome then []
      else [here (.missing "value")]
  | .pulse =>
    requiredText "target" ms ++ optionalTime "duration" ms ++ repetitionProblems ms
  | .wait => optionalTime "duration" ms
  | .attributes =>
    requiredText "target" ms ++ attributeProblems ms ++ optionalTime "duration" ms ++
      optionalEase ms
  | .parallel => []

mutual

/-- The problems of a directive. -/
def directiveProblems : Json → List Problem
  | .obj ms =>
    match lookupIn? "type" ms with
    | some (.str name) =>
      match Directive.Kind.ofName? name with
      | none => [here (.unknownKind name)]
      | some .parallel => blockProblems ms
      | some kind => fieldProblems ms kind
    | _ => [here (.missing "type")]
  | _ => [here .directiveNotObject]

/-- The problems of the directives of a parallel block. -/
def blockProblems : List (String × Json) → List Problem
  | [] => [here (.notArray "animations")]
  | (key, j) :: ms => if key = "animations" then childProblems j else blockProblems ms

/-- The problems of an array of directives. -/
def childProblems : Json → List Problem
  | .arr js => directivesProblems 0 js
  | _ => [here (.notArray "animations")]

/-- The problems of directives, of which the first has index `i`. -/
def directivesProblems (i : Nat) : List Json → List Problem
  | [] => []
  | j :: js =>
    inside [.field "animations", .index i] (directiveProblems j) ++
      directivesProblems (i + 1) js

end

/-! ## Steps -/

/-- The id of a slide or step, if it has one. -/
def id? (j : Json) : Option String :=
  (j.get? "id").bind Json.str?

/-- An id that was used before. -/
def repeated (seen : List String) (cause : String → Cause) (j : Json) : List Problem :=
  match id? j with
  | none => []
  | some id => if seen.contains id then [here (cause id)] else []

/-- The problems of items with ids, given the ids used before. -/
def distinctProblems (name : String) (check : List String → Json → List Problem) (i : Nat)
    (seen : List String) : List Json → List Problem
  | [] => []
  | j :: js =>
    inside [.field name, .index i] (check seen j) ++
      distinctProblems name check (i + 1) ((id? j).toList ++ seen) js

/-- The problems of a caption. -/
def captionProblems (ms : Members) : List Problem :=
  match lookupIn? "ui" ms with
  | some (.obj ui) =>
    inside [.field "ui"]
      (requiredText "title" ui ++ requiredText "phase" ui ++
        optionalText "phaseExplanation" ui ++ optionalText "description" ui ++
        optionalText "noteTitle" ui ++ optionalText "note" ui)
  | _ => [here (.missing "ui")]

/-- The problems of a step's list of directives. -/
def animationProblems (ms : Members) : List Problem :=
  match lookupIn? "animations" ms with
  | none => []
  | some .null => []
  | some (.arr js) => directivesProblems 0 js
  | some _ => [here (.notList "animations")]

/-- The problems of a step, given the ids of the steps before it. -/
def stepProblems (seen : List String) : Json → List Problem
  | .obj ms =>
    requiredText "id" ms ++ repeated seen .repeatedStep (.obj ms) ++ captionProblems ms ++
      animationProblems ms ++ optionalComponents "finalState" ms
  | _ => [here .stepNotObject]

/-! ## Slides -/

/-- The problems of a slide's steps. -/
def stepsProblems (ms : Members) : List Problem :=
  match lookupIn? "steps" ms with
  | some (.arr []) => [here .noSteps]
  | some (.arr js) => distinctProblems "steps" stepProblems 0 [] js
  | _ => [here (.notArray "steps")]

/-- The problems of a slide, given the ids of the slides before it. -/
def slideProblems (seen : List String) : Json → List Problem
  | .obj ms =>
    requiredText "id" ms ++ repeated seen .repeatedSlide (.obj ms) ++
      requiredText "title" ms ++ requiredText "diagram" ms ++
      optionalComponents "components" ms ++ stepsProblems ms
  | _ => [here .slideNotObject]

/-! ## Topics -/

/-- The problems of a topic's slides. -/
def slidesProblems (ms : Members) : List Problem :=
  match lookupIn? "slides" ms with
  | some (.arr []) => [here .noSlides]
  | some (.arr js) => distinctProblems "slides" slideProblems 0 [] js
  | _ => [here (.notArray "slides")]

/-- The problems of a topic document. -/
def problems : Json → List Problem
  | .obj ms => requiredText "id" ms ++ requiredText "title" ms ++ slidesProblems ms
  | _ => [here .topicNotObject]

end Slideshow.Topic

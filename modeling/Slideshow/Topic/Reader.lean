/-
  Slideshow.Topic.Reader

  Topics from JSON values in canonical form. A directive is an object whose member `type`
  names its kind, or an array whose first item does; inside a parallel block the kind may
  also be given by its number.
-/
import Slideshow.Topic.Basic

namespace Slideshow

open Json

/-! ## Geometry -/

/-- A frame given by its four numbers. -/
def Frame.ofJson? (j : Json) : Option Frame :=
  match Json.listOf? Json.float? j with
  | some [x, y, w, h] => some ⟨x, y, w, h⟩
  | _ => none

/-- A point given by its two numbers. -/
def Point.ofJson? (j : Json) : Option Point :=
  match Json.listOf? Json.float? j with
  | some [x, y] => some ⟨x, y⟩
  | _ => none

/-! ## Directives -/

namespace Directive

/-- The kind that a tag stands for. -/
def Kind.ofTag? (nested : Bool) : Json → Option Kind
  | .str name => ofName? name
  | .num n => if nested then n.toNat?.bind fun k => all[k]? else none
  | _ => none

/-- A directive without parts, from its kind and the record of its fields. -/
def simple? (kind : Kind) (j : Json) : Option (Directive Float) :=
  match kind with
  | .camera =>
    match j.fields? [["to"], ["duration"], ["ease"]] with
    | some [frame, duration, ease] => do
      return .camera (← required Frame.ofJson? frame) (← optional Json.float? duration)
        (← optional Ease.ofJson? ease)
    | _ => none
  | .packet =>
    match j.fields? [["text"], ["from"], ["paths"]] with
    | some [label, start, paths] => do
      return .packet (← optional Json.spelling? label) (← optional Point.ofJson? start)
        (← required (listOf? PathSpec.ofJson?) paths)
    | _ => none
  | .setValue =>
    match j.fields? [["target"], ["value"]] with
    | some [target, value] => do
      return .setValue (← required Json.str? target) (← required Json.spelling? value)
    | _ => none
  | .pulse =>
    match j.fields? [["target"], ["duration"], ["repeat"]] with
    | some [target, duration, repetitions] => do
      return .pulse (← required Json.str? target) (← optional Json.float? duration)
        (← optional Json.count? repetitions)
    | _ => none
  | .wait =>
    match j.fields? [["duration"]] with
    | some [duration] => (optional Json.float? duration).map .wait
    | _ => none
  | .attributes =>
    match j.fields? [["target"], ["attributes", "attrs"], ["duration"], ["ease"]] with
    | some [target, values, duration, ease] => do
      return .attributes (← required Json.str? target)
        (← required (dictOf? Json.spelling?) values) (← optional Json.float? duration)
        (← optional Ease.ofJson? ease)
    | _ => none
  | .parallel => none

mutual

/-- The directive that a value stands for, on its own or nested in a parallel block. -/
def read? (nested : Bool) : Json → Option (Directive Float)
  | .obj ms => do
    let tag ← lookupIn? "type" ms
    match ← Kind.ofTag? nested tag with
    | .parallel => (readMember? ms).map .parallel
    | kind => simple? kind (.obj ms)
  | .arr [] => none
  | .arr (tag :: xs) => do
    match ← Kind.ofTag? nested tag with
    | .parallel => (readOnly? xs).map .parallel
    | kind => simple? kind (.arr xs)
  | _ => none

/-- The directives under the key `animations`. -/
def readMember? : List (String × Json) → Option (List (Directive Float))
  | [] => none
  | (key, j) :: ms => if key = "animations" then readBlock? j else readMember? ms

/-- The directives of the only item. -/
def readOnly? : List Json → Option (List (Directive Float))
  | [j] => readBlock? j
  | _ => none

/-- The directives of an array. -/
def readBlock? : Json → Option (List (Directive Float))
  | .arr xs => readItems? xs
  | _ => none

/-- The directives of all items. -/
def readItems? : List Json → Option (List (Directive Float))
  | [] => some []
  | j :: js => do
    let d ← read? true j
    let ds ← readItems? js
    return d :: ds

end

/-- The directive that a value stands for. -/
def ofJson? : Json → Option (Directive Float) := read? false

end Directive

/-! ## Steps, slides, topics -/

/-- The step that a record stands for. -/
def Step.ofJson? (j : Json) : Option Step :=
  match j.fields? [["id"], ["ui"], ["animations"], ["finalState"]] with
  | some [id, caption, animations, finalState] => do
    return {
      id := ← required Json.str? id
      caption := ← required Caption.ofJson? caption
      animations := ← withDefault [] (listOf? Directive.ofJson?) animations
      finalState := ← withDefault .empty (dictOf? ComponentValue.ofJson?) finalState }
  | _ => none

/-- The slide that a record stands for. -/
def Slide.ofJson? (j : Json) : Option Slide :=
  match j.fields? [["id"], ["title"], ["diagram"], ["components"], ["steps"]] with
  | some [id, title, diagram, components, steps] => do
    return {
      id := ← required Json.str? id
      title := ← required Json.str? title
      diagram := ← required Json.str? diagram
      components := ← withDefault .empty (dictOf? ComponentValue.ofJson?) components
      steps := ← required (listOf? Step.ofJson?) steps }
  | _ => none

/-- The topic that a record stands for. -/
def Topic.ofJson? (j : Json) : Option Topic :=
  match j.fields? [["id"], ["title"], ["slides"]] with
  | some [id, title, slides] => do
    return {
      id := ← required Json.str? id
      title := ← required Json.str? title
      slides := ← required (listOf? Slide.ofJson?) slides }
  | _ => none

end Slideshow

/-
  Slideshow.Topic.Component

  What a script may set a component of a diagram to: a text, or values for some of its
  attributes. Numbers and truth values count as the text they are written as.
-/
import Slideshow.Json.Record
import Slideshow.Json.Writer

namespace Slideshow

/-! ## Scalars as text -/

/-- The text of a scalar: a string stands for itself, numbers and truth values for their
    spelling. -/
def Json.spelling? : Json → Option String
  | .str s => some s
  | .num n => some (String.ofList (scalarText (.num n)))
  | .bool b => some (String.ofList (scalarText (.bool b)))
  | _ => none

/-! ## Component values -/

/-- The value of a component. -/
inductive ComponentValue where
  /-- The text shown in it. -/
  | text (s : String)
  /-- Values of attributes. -/
  | attributes (values : Dict String)
  deriving DecidableEq

namespace ComponentValue

/-- Why a JSON value is no component value. -/
inductive Problem where
  /-- It is neither a scalar nor an object. -/
  | notValue
  /-- An attribute has something else than a scalar. -/
  | notScalar (name : String)
  deriving DecidableEq

/-- The wording of a problem. -/
def Problem.message : Problem → String
  | notValue => "component value must be a string, number, or attribute object"
  | notScalar name => "attribute '" ++ name ++ "' must be a string or number"

/-- The text of an attribute. -/
def entry (m : String × Json) : Except Problem (String × String) :=
  match m.2.spelling? with
  | some s => .ok (m.1, s)
  | none => .error (.notScalar m.1)

/-- The component value that a JSON value stands for. -/
def ofJson (j : Json) : Except Problem ComponentValue :=
  match j.spelling? with
  | some s => .ok (text s)
  | none =>
    match j with
    | .obj ms => (ms.mapM entry).map fun es => attributes (Dict.ofList es)
    | _ => .error .notValue

/-- The component value that a JSON value stands for, if it stands for one. -/
def ofJson? (j : Json) : Option ComponentValue :=
  (ofJson j).toOption

/-- A component value as JSON. -/
def toJson : ComponentValue → Json
  | text s => .str s
  | attributes values => .ofDict .str values

end ComponentValue

end Slideshow

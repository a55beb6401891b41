/-
  Slideshow.Json.Record

  Records in JSON. A record is an object with named fields, or an array that lists the
  fields in order. Unknown names are ignored; a field that is given twice spoils the record.
-/
import Slideshow.Json.Basic

namespace Slideshow.Json

/-! ## The fields of a record -/

/-- The member under one of a field's names, if there is one; there may not be two. -/
def member? (names : List String) (ms : List (String × Json)) : Option (Option Json) :=
  match ms.filter fun m => names.contains m.1 with
  | [] => some none
  | [m] => some (some m.2)
  | _ => none

/-- The values of a record's fields in order, `none` for a field that is absent. A field may
    have more than one name. -/
def fields? (names : List (List String)) : Json → Option (List (Option Json))
  | obj ms => names.mapM fun ns => member? ns ms
  | arr xs =>
    if xs.length ≤ names.length then
      some (xs.map some ++ List.replicate (names.length - xs.length) none)
    else none
  | _ => none

/-- An array is read as one value for each field, with the last fields absent if it is short. -/
theorem length_of_fields?_arr {names : List (List String)} {xs : List Json}
    {values : List (Option Json)} (h : fields? names (arr xs) = some values) :
    values.length = names.length := by
  simp only [fields?] at h
  split at h
  · cases h
    simp
    omega
  · cases h

/-! ## What a field may hold -/

variable {α : Type}

/-- A field that must be there. -/
def required (decode : Json → Option α) : Option Json → Option α
  | none => none
  | some j => decode j

/-- A field that may be absent. -/
def withDefault (value : α) (decode : Json → Option α) : Option Json → Option α
  | none => some value
  | some j => decode j

/-- A value in whose place `null` may stand. -/
def nullable (decode : Json → Option α) : Json → Option (Option α)
  | null => some none
  | j => (decode j).map some

/-- A field that may be absent or `null`. -/
def optional (decode : Json → Option α) : Option Json → Option (Option α) :=
  withDefault none (nullable decode)

/-! ## Values -/

/-- A float within the range of floats. -/
def float? : Json → Option Float
  | num n => if n.isFinite then some n.toFloat else none
  | _ => none

/-- A whole number of at most 32 bits. -/
def count? : Json → Option Nat
  | num n => n.toNat?.filter fun k => k < Nat.pow 2 32
  | _ => none

/-- The items of an array. -/
def listOf? (decode : Json → Option α) : Json → Option (List α)
  | arr xs => xs.mapM decode
  | _ => none

/-- The members of an object. -/
def dictOf? (decode : Json → Option α) : Json → Option (Dict α)
  | obj ms => (ms.mapM fun m => (decode m.2).map fun x => (m.1, x)).map Dict.ofList
  | _ => none

/-! ## Writing records -/

/-- The members of the fields that are there. -/
def present (ms : List (String × Option Json)) : List (String × Json) :=
  ms.filterMap fun m => m.2.map fun j => (m.1, j)

/-- The object of the fields that are there. -/
def record (ms : List (String × Option Json)) : Json := obj (present ms)

/-- A float as a number. -/
def ofFloat (x : Float) : Json := num (.float x)

/-- A count as a number. -/
def ofNat (n : Nat) : Json := num (.int n)

/-- The object of a mapping. -/
def ofDict (encode : α → Json) (d : Dict α) : Json :=
  obj (d.entries.map fun e => (e.1, encode e.2))

end Slideshow.Json

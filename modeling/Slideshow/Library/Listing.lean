/-
  Slideshow.Library.Listing

  What a library holds. An index is believed as it is; without one, topics are listed in the
  order of their folders' names.
-/
import Slideshow.Json.Record
import Slideshow.Library.Basic

namespace Slideshow.Library

/-! ## Entries -/

/-- A topic as a listing shows it. -/
structure Entry where
  id : String
  title : String
  description : Option String
  deriving DecidableEq

namespace Entry

open Json

def ofJson? (j : Json) : Option Entry :=
  match j.fields? [["id"], ["title"], ["description"]] with
  | some [id, title, description] => do
    return ⟨← required Json.str? id, ← required Json.str? title,
      ← optional Json.str? description⟩
  | _ => none

def toJson (e : Entry) : Json :=
  .record [("id", some (.str e.id)), ("title", some (.str e.title)),
    ("description", e.description.map .str)]

end Entry

/-! ## Listings -/

/-- The title that a script gives, or else the name of its folder. -/
def title (name : String) : Except LoadFault Json → String
  | .ok j => ((j.get? "title").bind Json.str?).getD name
  | .error _ => name

variable {m : Type → Type} [Monad m] [Files m]

/-- The entries of an index. -/
def readIndex (location : String) : m (Except LoadFault (List Entry)) := do
  match ← document location with
  | .error e => return .error e
  | .ok j =>
    match Json.listOf? Entry.ofJson? j with
    | some es => return .ok es
    | none => return .error (.document location)

/-- The entries for the folders with a script, among some names. -/
def scan (l : Library) : List String → m (List Entry)
  | [] => return []
  | name :: names => do
    let found ←
      if ← Files.isFile (l.script name) then
        pure [⟨name, title name (← document (l.script name)), none⟩]
      else pure []
    return found ++ (← l.scan names)

/-- All entries. -/
def list (l : Library) : m (Except LoadFault (List Entry)) := do
  if ← Files.isFile l.index then readIndex l.index
  else
    match ← Files.names? l.root with
    | none => return .error (.unreadableRoot l.root)
    | some names => return .ok (← l.scan (names.mergeSort fun a b => decide (a ≤ b)))

end Slideshow.Library

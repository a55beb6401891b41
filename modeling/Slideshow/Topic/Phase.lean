/-
  Slideshow.Topic.Phase

  What the reader sees beside a diagram: the label of the current phase, a title and notes.
  A label that speaks of fetching, decoding, executing or storing belongs to that phase of
  the instruction cycle.
-/
import Slideshow.Json.Record
import Slideshow.Text.Pieces

namespace Slideshow

/-! ## Phases of the instruction cycle -/

/-- A phase of the instruction cycle. -/
inductive PhaseKind where
  | fetch
  | decode
  | execute
  | store
  deriving DecidableEq, Repr

namespace PhaseKind

/-- The phases in their order. -/
def all : List PhaseKind := [fetch, decode, execute, store]

theorem mem_all (p : PhaseKind) : p ∈ all := by
  cases p <;> simp [all]

/-- The name of a phase, as in the ids of diagram elements. -/
def name : PhaseKind → String
  | fetch => "fetch"
  | decode => "decode"
  | execute => "execute"
  | store => "store"

/-- The phase that a label speaks of; the first one if it speaks of several. -/
def ofLabel? (label : String) : Option PhaseKind :=
  let cs := Text.lower label.toList
  all.find? fun p => Text.hasPart p.name.toList cs

end PhaseKind

/-! ## Captions -/

/-- The texts beside the diagram during a step. -/
structure Caption where
  phase : String
  phaseExplanation : Option String
  title : String
  description : Option String
  noteTitle : Option String
  note : Option String
  deriving DecidableEq

namespace Caption

/-- The phase that the caption's label speaks of. -/
def phaseKind (c : Caption) : Option PhaseKind := PhaseKind.ofLabel? c.phase

/-- The heading of the note. -/
def noteHeading (c : Caption) : String := c.noteTitle.getD "Note"

/-- The caption that a record stands for. -/
def ofJson? (j : Json) : Option Caption :=
  match j.fields? [["phase"], ["phaseExplanation"], ["title"], ["description"], ["noteTitle"],
      ["note"]] with
  | some [phase, phaseExplanation, title, description, noteTitle, note] => do
    return {
      phase := ← Json.required Json.str? phase
      phaseExplanation := ← Json.optional Json.str? phaseExplanation
      title := ← Json.required Json.str? title
      description := ← Json.optional Json.str? description
      noteTitle := ← Json.optional Json.str? noteTitle
      note := ← Json.optional Json.str? note }
  | _ => none

/-- A caption as JSON. -/
def toJson (c : Caption) : Json :=
  .record
    [("phase", some (.str c.phase)), ("phaseExplanation", c.phaseExplanation.map .str),
      ("title", some (.str c.title)), ("description", c.description.map .str),
      ("noteTitle", c.noteTitle.map .str), ("note", c.note.map .str)]

end Caption

end Slideshow

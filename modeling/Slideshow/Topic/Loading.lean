/-
  Slideshow.Topic.Loading

  From documents to topics: a document is checked first, and only one without problems is
  read.
-/
import Slideshow.Failure
import Slideshow.Json.Reader
import Slideshow.Topic.Reader
import Slideshow.Topic.Validation

namespace Slideshow

/-- The topic of a document. -/
def Topic.load (j : Json) : Except Failure Topic :=
  match Topic.problems j with
  | [] =>
    match Topic.ofJson? j with
    | some t => .ok t
    | none => .error .decoding
  | p :: ps => .error (.validation (.topic (p :: ps)))

/-- The topic of a script. -/
def Topic.loadText (text : String) : Except Failure Topic :=
  match Json.value? text with
  | some j => Topic.load j
  | none => .error (.load .topicText)

/-- A topic is loaded only from a document without problems. -/
theorem Topic.problems_of_load {j : Json} {t : Topic} (h : Topic.load j = .ok t) :
    Topic.problems j = [] ∧ Topic.ofJson? j = some t := by
  unfold Topic.load at h
  split at h
  · split at h
    · cases h
      exact ⟨by assumption, by assumption⟩
    · cases h
  · cases h

end Slideshow

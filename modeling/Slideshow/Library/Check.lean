/-
  Slideshow.Library.Check

  Checking a topic where it is kept: its script is checked as a document, its id has to be
  the name of its folder, and the diagrams that it names have to be there.
-/
import Slideshow.Library.Basic

namespace Slideshow.Library

/-! ## Problems -/

/-- What can be wrong with a topic of a library. -/
inductive Problem where
  | unloadable (fault : LoadFault)
  | script (problem : Topic.Problem)
  | otherId (id folder : String)
  | noDiagram (slide : Nat) (diagram : String)
  deriving DecidableEq

/-- The wording of a problem. -/
def Problem.message : Problem → String
  | unloadable fault => (Failure.load fault).message
  | script problem => problem.message
  | otherId id folder =>
    "topic id '" ++ id ++ "' does not match directory name '" ++ folder ++ "'"
  | noDiagram slide diagram =>
    "slides[" ++ toString slide ++ "]: diagram file not found: " ++ diagram

/-! ## Checks -/

/-- The id of a document is not the name of its folder. -/
def idProblems (folder : String) (j : Json) : List Problem :=
  match (j.get? "id").bind Json.str? with
  | some id => if id = folder then [] else [.otherId id folder]
  | none => []

/-- The diagrams that the slides of a document name, with the numbers of the slides. -/
def namedDiagrams (j : Json) : List (Nat × String) :=
  let slides := ((j.get? "slides").bind Json.arr?).getD []
  slides.zipIdx.filterMap fun (slide, i) =>
    match (slide.get? "diagram").bind Json.str? with
    | some name => if name.isEmpty then none else some (i, name)
    | none => none

variable {m : Type → Type} [Monad m] [Files m]

/-- Which of some diagrams are not there. -/
def diagramProblems (l : Library) (topic : String) : List (Nat × String) → m (List Problem)
  | [] => return []
  | (i, name) :: rest => do
    let found ← Files.isFile (l.diagram topic name)
    let problems ← l.diagramProblems topic rest
    return if found then problems else .noDiagram i name :: problems

/-- All problems of a topic. -/
def check (l : Library) (topic : String) : m (List Problem) := do
  match ← document (l.script topic) with
  | .error e => return [.unloadable e]
  | .ok j =>
    return (Topic.problems j).map .script ++ idProblems topic j ++
      (← l.diagramProblems topic (namedDiagrams j))

end Slideshow.Library

/-
  Slideshow.CommandLine.Outcome

  What a run of the program comes to: what it prints, what it remarks, and the fault that
  ended it, if one did.
-/
import Slideshow.Library.Check
import Slideshow.Library.Listing
import Slideshow.Walk

namespace Slideshow.CommandLine

/-! ## Faults -/

/-- Why a run came to an early end. -/
inductive Fault where
  | walk (cause : WalkFault)
  | negativeInstant
  /-- The requested slide has no diagram. -/
  | noScene
  | noFolder (location : String)
  | unwritableDrawing (location : String)
  | unwritablePicture (location : String)
  deriving DecidableEq

/-- The wording of a fault. -/
def Fault.message : Fault → String
  | walk cause => cause.message
  | negativeInstant => "--at must be non-negative"
  | noScene => "no diagram loaded for the requested slide"
  | noFolder location => "create output dir '" ++ location ++ "'"
  | unwritableDrawing location => "write svg '" ++ location ++ "'"
  | unwritablePicture location => "write png '" ++ location ++ "'"

/-- A failure as a fault. -/
def Fault.ofFailure (e : Failure) : Fault := .walk (.failure e)

/-! ## Outcomes -/

/-- What a run comes to. -/
structure Outcome where
  printed : String
  remarks : List String
  fault : Option Fault
  /-- All that was checked is in order. -/
  passed : Bool

namespace Outcome

/-- A run that prints something. -/
def print (text : String) : Outcome := ⟨text, [], none, true⟩

/-- A run that remarks something. -/
def remark (text : String) : Outcome := ⟨"", [text], none, true⟩

/-- A run that a fault ended. -/
def stop (fault : Fault) : Outcome := ⟨"", [], some fault, true⟩

/-- A run that remarked something before. -/
def after (remarks : List String) (o : Outcome) : Outcome :=
  { o with remarks := remarks ++ o.remarks }

/-- A run succeeds if no fault ended it and all is in order. -/
def succeeded (o : Outcome) : Bool := o.fault.isNone && o.passed

/-- The exit status of a run. -/
def status (o : Outcome) : Nat := if o.succeeded then 0 else 1

end Outcome

/-! ## Reports -/

/-- The lines about a topic with its problems. -/
def topicLines (id : String) (problems : List Library.Problem) : List String :=
  if problems.isEmpty then ["ok    " ++ id]
  else ("FAIL  " ++ id) :: problems.map fun p => "      " ++ p.message

/-- Lines as they are printed. -/
def printedLines (lines : List String) : String :=
  String.join (lines.map (· ++ "\n"))

/-- What comes of checking some topics. -/
def report (topics : List (String × List Library.Problem)) : Outcome :=
  let failed := topics.countP fun t => !t.2.isEmpty
  { printed := printedLines (topics.flatMap fun t => topicLines t.1 t.2)
    remarks := [toString topics.length ++ " topic(s) checked, " ++ toString failed ++
      " with problems"]
    fault := none
    passed := failed == 0 }

/-- What comes of listing some topics. -/
def listing (entries : List Library.Entry) : Outcome :=
  .print (printedLines (entries.map fun e => e.id ++ "\t" ++ e.title))

theorem passed_report (topics : List (String × List Library.Problem)) :
    (report topics).passed = true ↔ ∀ t ∈ topics, t.2 = [] := by
  simp [report, List.countP_eq_zero]

end Slideshow.CommandLine

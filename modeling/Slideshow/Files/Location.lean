/-
  Slideshow.Files.Location

  Where a file is, as text: the names of folders and last the file's own name, with a slash
  between two of them.
-/
import Slideshow.Text.Pieces

namespace Slideshow.Location

/-! ## Composition -/

/-- The place `name` as seen from a folder. A name that starts with a slash does not depend on
    the folder. -/
def join (folder name : String) : String :=
  if folder.isEmpty || name.toList.head? == some '/' then name
  else if folder.toList.getLast? == some '/' then folder ++ name
  else folder ++ "/" ++ name

@[simp] theorem join_empty (name : String) : join "" name = name := by
  simp [join]

/-! ## Parts -/

/-- What stands between slashes. -/
def parts (location : String) : List String :=
  (Text.pieces (· == '/') location.toList).map String.ofList

/-- A part that stays in the folder where one is. -/
def isStay (part : String) : Bool := part == "" || part == "."

/-- Parts without those at the end that stay in place. -/
def dropStays (parts : List String) : List String :=
  (parts.reverse.dropWhile isStay).reverse

/-- The last name of a location, and the parts before it. -/
def splitLast? (location : String) : Option (List String × String) :=
  let ps := dropStays (parts location)
  ps.getLast?.map fun name => (ps.dropLast, name)

/-- The folder that a location is in. -/
def parent (location : String) : String :=
  match splitLast? location with
  | some (before, _) =>
    match dropStays before with
    | [] => if before.head? == some "." then "." else ""
    | ps => "/".intercalate ps
  | none => ""

/-- What stands behind the last point of a name, unless the point begins the name. -/
def extension? (location : String) : Option String :=
  match splitLast? location with
  | some (_, name) =>
    let (ending, before) := name.toList.reverse.span (· != '.')
    if name == ".." || before.length ≤ 1 then none else some (String.ofList ending.reverse)
  | none => none

end Slideshow.Location

/-
  Slideshow.Files.Tree

  Files that are kept in memory: a tree of folders. A location leads from the outermost
  folder from part to part; it may lead back to the folder around, but not out of the tree.
-/
import Slideshow.Dict
import Slideshow.Files.Access
import Slideshow.Files.Location

namespace Slideshow

/-- A file or a folder. -/
inductive FileTree where
  | file (content : ByteArray)
  | folder (entries : List (String × FileTree))

namespace FileTree

def empty : FileTree := .folder []

/-- The entries of a folder. -/
def entries? : FileTree → Option (List (String × FileTree))
  | folder es => some es
  | file _ => none

/-- The bytes of a file. -/
def content? : FileTree → Option ByteArray
  | file c => some c
  | folder _ => none

/-! ## Trails -/

/-- What is found where a trail of names leads. -/
def at? : List String → FileTree → Option FileTree
  | [], t => some t
  | name :: rest, t => (t.entries?.bind (lookupIn? name)).bind (at? rest)

/-- The tree with other entries in the folder where a trail leads. -/
def change (f : List (String × FileTree) → List (String × FileTree)) :
    List String → FileTree → FileTree
  | _, file c => file c
  | [], folder es => folder (f es)
  | name :: rest, folder es =>
    match lookupIn? name es with
    | some t => folder (insertEntry name (change f rest t) es)
    | none => folder es

/-- The tree with something more in the folder where a trail leads. -/
def put (t : FileTree) (trail : List String) (name : String) (new : FileTree) : FileTree :=
  t.change (insertEntry name new) trail

/-! ## Locations -/

/-- The trail one part farther. Every part but a name of an entry leads from a folder to a
    folder. -/
def step? (t : FileTree) (trail : List String) (part : String) : Option (List String) :=
  match (t.at? trail).bind entries? with
  | none => none
  | some es =>
    if Location.isStay part then some trail
    else if part == ".." then if trail.isEmpty then none else some trail.dropLast
    else (lookupIn? part es).map fun _ => trail ++ [part]

/-- The trail that parts of a location stand for. -/
def trail? (t : FileTree) (parts : List String) : Option (List String) :=
  parts.foldlM t.step? []

/-- A location outside of the tree. -/
def isOutside (location : String) : Bool := location.toList.head? == some '/'

/-- What is found at a location. -/
def find? (t : FileTree) (location : String) : Option FileTree :=
  if isOutside location then none
  else (t.trail? (Location.parts location)).bind fun trail => t.at? trail

/-! ## Changes -/

/-- The tree with some content at a location. -/
def write? (t : FileTree) (location : String) (content : ByteArray) : Option FileTree :=
  let parts := Location.parts location
  match isOutside location, parts.getLast? with
  | false, some name =>
    if Location.isStay name || name == ".." then none
    else do
      let trail ← t.trail? parts.dropLast
      match lookupIn? name (← (← t.at? trail).entries?) with
      | some (.folder _) => none
      | _ => some (t.put trail name (.file content))
  | _, _ => none

/-- The trail one part farther, in the tree to which a folder is added if need be. -/
def enter? (p : FileTree × List String) (part : String) : Option (FileTree × List String) :=
  let (t, trail) := p
  match t.step? trail part with
  | some trail => some (t, trail)
  | none =>
    if part == ".." then none
    else
      (t.at? trail).bind entries? |>.map fun _ => (t.put trail part empty, trail ++ [part])

/-- The tree with a folder at a location. -/
def makeFolder? (t : FileTree) (location : String) : Option FileTree :=
  if isOutside location then none
  else do
    let (made, trail) ← (Location.parts location).foldlM enter? (t, [])
    let _ ← (← made.at? trail).entries?
    return made

/-- The tree of some files and empty folders. Those that contradict earlier ones are left
    out. -/
def ofList (fs : List (String × Option ByteArray)) : FileTree :=
  fs.foldl (fun t f =>
    match f.2 with
    | none => (t.makeFolder? f.1).getD t
    | some content =>
      let t := (t.makeFolder? (Location.parent f.1)).getD t
      (t.write? f.1 content).getD t) empty

/-! ## Access -/

/-- The text of a file. -/
def readText? (t : FileTree) (location : String) : Option String :=
  ((t.find? location).bind content?).bind fun c => String.fromUTF8? c

instance : Files (StateM FileTree) where
  readText? location := do return (← get).readText? location
  isFile location := do return (((← get).find? location).bind content?).isSome
  names? location := do
    return (((← get).find? location).bind entries?).map fun es => es.map (·.1)
  write location content := do
    match (← get).write? location content with
    | some t => set t; return true
    | none => return false
  makeFolder location := do
    match (← get).makeFolder? location with
    | some t => set t; return true
    | none => return false

end FileTree

end Slideshow

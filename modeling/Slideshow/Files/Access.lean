/-
  Slideshow.Files.Access

  What can be done with files, whatever they are kept in. Nothing fails for more than one
  reason: an operation says only whether it succeeded.
-/

namespace Slideshow

/-- Access to files by their locations. -/
class Files (m : Type → Type) where
  /-- The text of a file. Bytes that encode no text cannot be read. -/
  readText? : String → m (Option String)
  isFile : String → m Bool
  /-- The names of what is in a folder. -/
  names? : String → m (Option (List String))
  /-- Makes the bytes the content of a file. -/
  write : String → ByteArray → m Bool
  /-- Makes a folder and those that it is in, where they are not there yet. -/
  makeFolder : String → m Bool

end Slideshow

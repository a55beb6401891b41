/-
  Slideshow.Main

  The program: reads its arguments, works on the files of the machine, and prints what comes
  of it.
-/
import Slideshow.CommandLine.Run

namespace Slideshow

open CommandLine

/-! ## Files of the machine -/

/-- The answer of an action, or a stand-in if it fails. -/
def attempt {α : Type} (standIn : α) (action : IO α) : IO α :=
  try action catch _ => return standIn

instance : Files IO where
  readText? location := attempt none do return some (← IO.FS.readFile location)
  isFile location := attempt false do
    return (← (System.mkFilePath [location]).metadata).type == .file
  names? location := attempt none do
    return some ((← (System.mkFilePath [location]).readDir).toList.map (·.fileName))
  write location content := attempt false do
    IO.FS.writeBinFile location content
    return true
  makeFolder location := attempt false do
    IO.FS.createDirAll location
    return true

/-! ## Messages -/

/-- How the program is called. -/
def usageText : String :=
  "Usage: stepdeck [--config CONFIG] [--verbose] COMMAND\n\n" ++
  "Commands:\n" ++
  "  validate --root ROOT [--topic TOPIC]\n" ++
  "  list --root ROOT\n" ++
  "  snapshot --root ROOT --topic TOPIC [--slide N] [--step N] [--at SECONDS] [--out FILE]" ++
    " [--width PIXELS]\n" ++
  "  timeline --root ROOT --topic TOPIC [--slide N] [--step N]"

/-- Prints what comes of a run. -/
def conclude (o : Outcome) : IO UInt32 := do
  IO.print o.printed
  for remark in o.remarks do IO.eprintln remark
  if let some fault := o.fault then IO.eprintln ("Error: " ++ fault.message)
  return o.status.toUInt32

end Slideshow

open Slideshow CommandLine in
def main (args : List String) : IO UInt32 := do
  match Request.ofArgs? args with
  | none => IO.eprintln usageText; return 2
  | some .version => IO.println versionText; return 0
  | some .help => IO.println usageText; return 0
  | some (.run settings command) => Slideshow.conclude (← CommandLine.run settings command)

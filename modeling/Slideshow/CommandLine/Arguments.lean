/-
  Slideshow.CommandLine.Arguments

  Words of the command line. An argument is an option with its value, some one-letter
  switches, or a word of its own; options may stand before the task or behind it, where each
  task has its own. An option is given at most once in each of the two places.
-/
import Slideshow.Decimal.Numeral
import Slideshow.Text.Pieces

namespace Slideshow.CommandLine

/-! ## Words -/

/-- An argument. -/
inductive Word where
  /-- Behind it no argument is an option. -/
  | separator
  /-- A name behind two dashes, perhaps with a value behind an equals sign. -/
  | long (name : String) (value : Option String)
  /-- Letters behind one dash. -/
  | short (letters : List Char)
  | plain (text : String)
  deriving DecidableEq

namespace Word

def ofText (arg : String) : Word :=
  match arg.toList with
  | ['-', '-'] => .separator
  | '-' :: '-' :: cs =>
    match Text.splitAt? ['='] cs with
    | some (name, value) => .long (String.ofList name) (some (String.ofList value))
    | none => .long (String.ofList cs) none
  | '-' :: c :: cs => .short (c :: cs)
  | _ => .plain arg

/-- A word that can be the value of the option before it. -/
def isPlain : Word → Bool
  | plain _ => true
  | _ => false

end Word

/-! ## Options and tasks -/

/-- An option that takes a value. -/
inductive Key where
  | config | root | topic | slide | step | instant | out | width
  deriving DecidableEq

/-- A whole number with an optional sign that is not negative and below a limit. -/
def countBelow? (limit : Nat) (text : String) : Option Nat :=
  (Decimal.int? text.toList).bind fun n =>
    if 0 ≤ n ∧ n < limit then some n.toNat else none

/-- The number of a slide or step. It has no minus sign, not even before zero. -/
def ordinal? (text : String) : Option Nat :=
  if text.toList.head? = some '-' then none else countBelow? (Nat.pow 2 64) text

/-- A width in pixels. -/
def width? (text : String) : Option Nat := countBelow? (Nat.pow 2 32) text

namespace Key

def all : List Key := [config, root, topic, slide, step, instant, out, width]

def name : Key → String
  | config => "config"
  | root => "root"
  | topic => "topic"
  | slide => "slide"
  | step => "step"
  | instant => "at"
  | out => "out"
  | width => "width"

/-- A text that can be the value of an option. -/
def accepts (text : String) : Key → Bool
  | config => !text.isEmpty
  | root => !text.isEmpty
  | out => !text.isEmpty
  | topic => true
  | slide => (ordinal? text).isSome
  | step => (ordinal? text).isSome
  | instant => (Decimal.float? text).isSome
  | width => (width? text).isSome

end Key

/-- What the program can do. -/
inductive Task where
  | validate | list | snapshot | timeline
  deriving DecidableEq

namespace Task

def all : List Task := [validate, list, snapshot, timeline]

def name : Task → String
  | validate => "validate"
  | list => "list"
  | snapshot => "snapshot"
  | timeline => "timeline"

def ofName? (name : String) : Option Task := all.find? fun t => t.name == name

/-- The options of a task. -/
def keys : Task → List Key
  | validate => [.root, .topic]
  | list => [.root]
  | snapshot => [.root, .topic, .slide, .step, .instant, .out, .width]
  | timeline => [.root, .topic, .slide, .step]

end Task

/-- The option of a name, before the task or behind it. -/
def key? (task : Option Task) (name : String) : Option Key :=
  (Key.config :: (task.map Task.keys).getD []).find? fun k => k.name == name

/-! ## Reading -/

/-- What was given so far. -/
structure Given where
  values : List (Key × String)
  verbose : Bool

namespace Given

def none : Given := ⟨[], false⟩

/-- The value of an option. -/
def get? (g : Given) (key : Key) : Option String :=
  (g.values.find? fun v => v.1 = key).map (·.2)

/-- Adds an option that was not given before. -/
def add? (g : Given) (key : Key) (value : String) : Option Given :=
  if (g.get? key).isNone && key.accepts value then
    some { g with values := (key, value) :: g.values }
  else Option.none

/-- Adds the switch for more messages. -/
def addVerbose? (g : Given) : Option Given :=
  if g.verbose then Option.none else some { g with verbose := true }

theorem get?_of_add? {g h : Given} {key : Key} {value : String}
    (added : g.add? key value = some h) : h.get? key = some value := by
  unfold add? at added
  split at added
  · cases added
    simp [get?]
  · cases added

end Given

/-- Why reading ended. -/
inductive Ending where
  | done
  | version
  | help
  /-- A word that is no option, and the arguments behind it. -/
  | word (text : String) (rest : List String)
  deriving DecidableEq

/-- Reads one-letter switches. -/
def switches? (task : Option Task) (g : Given) : List Char → Option (Given × Option Ending)
  | [] => some (g, none)
  | 'v' :: cs => (g.addVerbose?).bind fun g => switches? task g cs
  | 'h' :: _ => some (g, some .help)
  | 'V' :: _ => if task.isNone then some (g, some .version) else none
  | _ => none

/-- Reads a switch with a long name. -/
def switch? (task : Option Task) (g : Given) (name : String) :
    Option (Given × Option Ending) :=
  match name with
  | "verbose" => g.addVerbose?.map fun g => (g, none)
  | "help" => some (g, some .help)
  | "version" => if task.isNone then some (g, some .version) else none
  | _ => none

/-- Reads options up to a word that is none. Behind a task such a word is refused. -/
def read? (task : Option Task) (g : Given) : List String → Option (Given × Ending)
  | [] => some (g, .done)
  | arg :: rest =>
    match Word.ofText arg with
    | .separator => if rest.isEmpty then some (g, .done) else none
    | .plain text => if task.isNone then some (g, .word text rest) else none
    | .short letters =>
      match switches? task g letters with
      | none => none
      | some (g, some ending) => some (g, ending)
      | some (g, none) => read? task g rest
    | .long name (some value) =>
      match (key? task name).bind fun key => g.add? key value with
      | none => none
      | some g => read? task g rest
    | .long name none =>
      match key? task name with
      | none =>
        match switch? task g name with
        | none => none
        | some (g, some ending) => some (g, ending)
        | some (g, none) => read? task g rest
      | some key =>
        match rest with
        | [] => none
        | value :: rest =>
          if (Word.ofText value).isPlain then
            match g.add? key value with
            | none => none
            | some g => read? task g rest
          else none

end Slideshow.CommandLine

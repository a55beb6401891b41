/-
  Slideshow.Markup.Reference

  References: `&#65;`, `&#x41;`, `&lt;` and names of declared entities. A text is read as a
  row of pieces, each a character that stands for itself, an escaped character, or the name
  of an entity, whose text is put in its place. How deep and how often entities may refer
  to others is limited, so that no text refers to itself.
-/
import Slideshow.Markup.Character

namespace Slideshow.Markup

open Text (isSpace)

/-! ## Pieces -/

/-- One piece of a text. -/
inductive Piece where
  | char (c : Char)
  | escaped (c : Char)
  | entity (name : String)
  deriving DecidableEq, Repr

/-- The value of a hexadecimal digit. -/
def hexDigit? (c : Char) : Option Nat :=
  if '0' ≤ c ∧ c ≤ '9' then some (c.toNat - '0'.toNat)
  else if 'a' ≤ c ∧ c ≤ 'f' then some (c.toNat - 'a'.toNat + 10)
  else if 'A' ≤ c ∧ c ≤ 'F' then some (c.toNat - 'A'.toNat + 10)
  else none

/-- The number of a row of digits, of which there must be one; at most 32 bits. -/
def codePoint? (base : Nat) (digit? : Char → Option Nat) (ds : List Char) : Option Nat :=
  match ds.mapM digit? with
  | none => none
  | some [] => none
  | some ns =>
    let n := ns.foldl (fun n d => n * base + d) 0
    if n < Nat.pow 2 32 then some n else none

/-- The character of a code point. One that no character has stands for U+FFFD. -/
def character? (n : Nat) : Option Char :=
  let c := if n.isValidChar then Char.ofNat n else '\uFFFD'
  if isAllowed c then some c else none

/-- The value of a decimal digit. -/
def decimalDigit? (c : Char) : Option Nat :=
  if c.isDigit then some (c.toNat - '0'.toNat) else none

/-- What a name between `&` and `;` stands for. -/
def named (name : String) : Piece :=
  if name == "quot" then .escaped '"'
  else if name == "amp" then .escaped '&'
  else if name == "apos" then .escaped '\''
  else if name == "lt" then .escaped '<'
  else if name == "gt" then .escaped '>'
  else .entity name

/-- What the characters between `&` and `;` stand for. -/
def reference? : List Char → Option Piece
  | '#' :: 'x' :: ds =>
    ((codePoint? 16 hexDigit? ds).bind character?).map .escaped
  | '#' :: ds => ((codePoint? 10 decimalDigit? ds).bind character?).map .escaped
  | cs =>
    match name? cs with
    | some (name, []) => some (named (String.ofList name))
    | _ => none

/-- The pieces of a text. -/
def pieces? (cs : List Char) : Option (List Piece) :=
  match cs with
  | [] => some []
  | '&' :: rest =>
    match h : Text.splitAt? [';'] rest with
    | none => none
    | some (body, after) =>
      have : after.length ≤ rest.length := Text.length_of_splitAt? h
      match reference? body with
      | none => none
      | some p => (pieces? after).map (p :: ·)
  | c :: rest => (pieces? rest).map (.char c :: ·)
termination_by cs.length

/-! ## Entities -/

/-- The texts of declared entities; of two declarations the first one counts. -/
abbrev Entities : Type := List (String × List Char)

/-- The text of an entity. -/
def Entities.text? (entities : Entities) (name : String) : Option (List Char) :=
  (entities.find? fun e => e.1 == name).map (·.2)

/-- Entities may be nested this deep. -/
def maxLevels : Nat := 10

/-- Inside of an entity there may be this many references to others. -/
def maxReferences : Nat := 255

/-- The number of references so far after one more. References outside of entities do not
    count. -/
def countReference? (outermost : Bool) (count : Nat) : Option Nat :=
  if outermost then some 0 else if count < maxReferences then some (count + 1) else none

/-- The number of references that counts after an entity has ended. -/
def countAfter (outermost : Bool) (count : Nat) : Nat :=
  if outermost then 0 else count

/-! ## Line ends -/

/-- Adds a character of running text to a reversed text. A carriage return with the line
    feed behind it, or alone, becomes a line feed once the next character is known. -/
def pushText (isLast : Bool) (c : Char) : List Char → List Char
  | '\r' :: done =>
    if isLast && c == '\r' then '\n' :: '\n' :: done
    else if c == '\n' then '\n' :: done
    else c :: '\n' :: done
  | done => if isLast && c == '\r' then '\n' :: done else c :: done

/-- Character data with all line ends written as line feeds. -/
def lineEnds : List Char → List Char
  | '\r' :: '\n' :: cs => '\n' :: lineEnds cs
  | '\r' :: cs => '\n' :: lineEnds cs
  | c :: cs => c :: lineEnds cs
  | [] => []

/-- A character of an attribute value: white space becomes a space, and a carriage return
    before a line feed vanishes. -/
def valueChar (c : Char) (next : Option Char) : List Char :=
  if c == '\r' && next == some '\n' then []
  else if isSpace c then [' ']
  else [c]

/-! ## Attribute values -/

/-- The literal character that a row of pieces begins with. -/
def nextChar? : List Piece → Option Char
  | .char c :: _ => some c
  | _ => none

/-- The value that the pieces of an attribute stand for. `inner` gives the values of
    entities. -/
def valueWith (entities : Entities) (outermost : Bool)
    (inner : Nat → List Char → Option (List Char × Nat)) (count : Nat) :
    List Piece → Option (List Char × Nat)
  | [] => some ([], count)
  | .char c :: ps => do
    let (cs, count) ← valueWith entities outermost inner count ps
    return (valueChar c (nextChar? ps) ++ cs, count)
  | .escaped c :: ps =>
    if !outermost && c == '<' then none
    else do
      let (cs, count) ← valueWith entities outermost inner count ps
      return ((if outermost then [c] else valueChar c none) ++ cs, count)
  | .entity name :: ps => do
    let text ← entities.text? name
    let count ← countReference? outermost count
    let (ds, count) ← inner count text
    let (cs, count) ← valueWith entities outermost inner (countAfter outermost count) ps
    return (ds ++ cs, count)

/-- The value of an attribute, in which entities may be nested `levels` deep. -/
def value? (entities : Entities) : Nat → Nat → List Char → Option (List Char × Nat)
  | 0, count, cs =>
    (pieces? cs).bind (valueWith entities false (fun _ _ => none) count)
  | levels + 1, count, cs =>
    (pieces? cs).bind
      (valueWith entities (levels + 1 == maxLevels) (value? entities levels) count)

end Slideshow.Markup

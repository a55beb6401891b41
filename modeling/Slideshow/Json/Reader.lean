/-
  Slideshow.Json.Reader

  From tokens to values. The reader keeps the arrays and objects that are still open on a
  stack and takes one token at a time. `parse?` gives the value as it is written, repeated
  keys included, and keeps what has no value as unreadable; `value?` is for documents, in
  which the last of equal keys counts and all has to be readable.
-/
import Slideshow.Json.Token

namespace Slideshow.Json

/-! ## The stack of open brackets -/

/-- An array or object that is still open, with its contents in reverse. The members are
    lost once a key cannot be read. -/
inductive Frame where
  | items (done : List Json)
  | members (done : Option (List (String × Json)))
  | member (done : Option (List (String × Json))) (key : Option String)

/-- What may come next. -/
inductive Expect where
  /-- A value. -/
  | value
  /-- The first item of an array, or its end. -/
  | firstItem
  /-- The first key of an object, or its end. -/
  | firstKey
  /-- A key. -/
  | key
  /-- The colon behind a key. -/
  | colon
  /-- A separator or closing bracket behind a complete value, or the end. -/
  | after (j : Json)

/-- Begins a value: a scalar is complete at once, a bracket opens a frame. -/
def start? (stack : List Frame) : Token → Option (List Frame × Expect)
  | .scalar j => some (stack, .after j)
  | .broken => some (stack, .after unreadable)
  | .mark c =>
    if c = '[' then some (.items [] :: stack, .firstItem)
    else if c = '\x7b' then some (.members (some []) :: stack, .firstKey)
    else none

/-- The key that a token gives, which may be unreadable. -/
def keyOf? : Token → Option (Option String)
  | .scalar (.str k) => some (some k)
  | .broken => some none
  | _ => none

/-- Takes the key of a member. -/
def key? (stack : List Frame) (t : Token) : Option (List Frame × Expect) :=
  match keyOf? t, stack with
  | some k, .members done :: stack => some (.member done k :: stack, .colon)
  | _, _ => none

/-- Closes the innermost frame, which must be complete. -/
def close? (c : Char) : List Frame → Option (List Frame × Expect)
  | .items done :: stack =>
    if c = ']' then some (stack, .after (.arr done.reverse)) else none
  | .members done :: stack =>
    if c = '\x7d' then
      some (stack, .after ((done.map fun ms => .obj ms.reverse).getD unreadable))
    else none
  | _ => none

/-- Stores a complete value in the innermost frame. -/
def store? (j : Json) : List Frame → Option (List Frame × Expect)
  | .items done :: stack => some (.items (j :: done) :: stack, .value)
  | .member done k :: stack =>
    let members := done.bind fun ms => k.map fun k => (k, j) :: ms
    some (.members members :: stack, .key)
  | _ => none

/-- Takes one token. -/
def step? (stack : List Frame) (expect : Expect) (t : Token) :
    Option (List Frame × Expect) :=
  match expect, t with
  | .value, t => start? stack t
  | .firstItem, .mark ']' => close? ']' stack
  | .firstItem, t => start? stack t
  | .firstKey, .mark '\x7d' => close? '\x7d' stack
  | .firstKey, t => key? stack t
  | .key, t => key? stack t
  | .colon, .mark ':' => some (stack, .value)
  | .colon, _ => none
  | .after j, .mark ',' => store? j stack
  | .after j, .mark c => (store? j stack).bind fun p => close? c p.1
  | .after _, .scalar _ => none
  | .after _, .broken => none

/-- The value of a row of tokens, from a given stack. -/
def build? (stack : List Frame) (expect : Expect) : List Token → Option Json
  | [] =>
    match stack, expect with
    | [], .after j => some j
    | _, _ => none
  | t :: ts =>
    match step? stack expect t with
    | none => none
    | some (stack, expect) => build? stack expect ts

/-! ## Documents -/

/-- The value of a text as it is written. -/
def parse? (text : String) : Option Json :=
  (tokens? text.toList).bind (build? [] .value)

/-- Arrays and objects may be nested this deep. -/
def maxDepth : Nat := 127

/-- The value of a document: all of it must be readable, nesting is limited, and of equal
    keys the last one counts. -/
def value? (text : String) : Option Json :=
  match parse? text with
  | none => none
  | some j => if j.isReadable && j.depth ≤ maxDepth then some j.canonical else none

end Slideshow.Json

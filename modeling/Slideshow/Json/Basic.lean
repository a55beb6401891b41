/-
  Slideshow.Json.Basic

  JSON values. Numbers keep apart whole numbers, which are exact, and floats. An object is a
  list of members; `canonical` sorts the members by key and keeps the last of equal keys.
-/
import Slideshow.Dict

namespace Slideshow

/-- A JSON number: a whole number, or a float. -/
inductive Number where
  | int (i : Int)
  | float (x : Float)
  deriving DecidableEq

namespace Number

/-- The number as a float. -/
def toFloat : Number → Float
  | .int i => Float.ofInt i
  | .float x => x

/-- The number as a count, when it is a whole number and not negative. -/
def toNat? : Number → Option Nat
  | .int i => if 0 ≤ i then some i.toNat else none
  | .float _ => none

/-- Numerals beyond the range of floats read as infinities; every other number is finite. -/
def isFinite : Number → Bool
  | .int _ => true
  | .float x => x.isFinite

end Number

/-- A JSON value. -/
inductive Json where
  | null
  | bool (b : Bool)
  | num (n : Number)
  | str (s : String)
  | arr (items : List Json)
  | obj (members : List (String × Json))

namespace Json

instance : Inhabited Json := ⟨null⟩

/-- What has the form of a value but no content that can be read. It can only be skipped, as
    no number that can be read is other than finite. -/
def unreadable : Json := num (.float (0 / 0))

/-! ## Looking inside -/

def isNull : Json → Bool
  | null => true
  | _ => false

def isNum : Json → Bool
  | num _ => true
  | _ => false

def isStr : Json → Bool
  | str _ => true
  | _ => false

/-- The text of a string. -/
def str? : Json → Option String
  | str s => some s
  | _ => none

/-- The value of a number. -/
def num? : Json → Option Number
  | num n => some n
  | _ => none

/-- The items of an array. -/
def arr? : Json → Option (List Json)
  | arr xs => some xs
  | _ => none

/-- The members of an object. -/
def obj? : Json → Option (List (String × Json))
  | obj ms => some ms
  | _ => none

/-- The member of an object under a key. -/
def get? (j : Json) (key : String) : Option Json :=
  match j with
  | obj ms => lookupIn? key ms
  | _ => none

/-! ## Measures and normal form -/

mutual

/-- How deep arrays and objects are nested. -/
def depth : Json → Nat
  | arr xs => depthItems xs + 1
  | obj ms => depthMembers ms + 1
  | _ => 0

def depthItems : List Json → Nat
  | [] => 0
  | x :: xs => max x.depth (depthItems xs)

def depthMembers : List (String × Json) → Nat
  | [] => 0
  | (_, x) :: ms => max x.depth (depthMembers ms)

end

mutual

/-- Nothing in the value is unreadable, nor any numeral beyond the range of floats. -/
def isReadable : Json → Bool
  | num n => n.isFinite
  | arr xs => readableItems xs
  | obj ms => readableMembers ms
  | _ => true

def readableItems : List Json → Bool
  | [] => true
  | x :: xs => x.isReadable && readableItems xs

def readableMembers : List (String × Json) → Bool
  | [] => true
  | (_, x) :: ms => x.isReadable && readableMembers ms

end

mutual

/-- The value with all members sorted by key, where the last of equal keys wins. -/
def canonical : Json → Json
  | arr xs => arr (canonicalItems xs)
  | obj ms => obj (canonicalMembers ms []).entries
  | j => j

def canonicalItems : List Json → List Json
  | [] => []
  | x :: xs => x.canonical :: canonicalItems xs

/-- Members in sorted order: those of `done`, overwritten by the given ones. -/
def canonicalMembers : List (String × Json) → List (String × Json) → Dict Json
  | [], done => Dict.ofList done
  | (k, x) :: ms, done => canonicalMembers ms (done ++ [(k, x.canonical)])

end

end Json

end Slideshow

/-
  Slideshow.Markup.Character

  The characters of markup: which ones may occur at all, and which ones names are made of.
-/
import Slideshow.Text.Pieces

namespace Slideshow.Markup

open Text (isSpace skip)

/-! ## Classes -/

/-- Characters that may occur in a document. -/
def isAllowed (c : Char) : Bool :=
  if c.toNat < 0x20 then isSpace c else c.toNat != 0xFFFE && c.toNat != 0xFFFF

/-- A number lies in one of some ranges. -/
def inRanges (ranges : List (Nat × Nat)) (n : Nat) : Bool :=
  ranges.any fun r => r.1 ≤ n && n ≤ r.2

/-- Characters beyond ASCII that a name may begin with. -/
def nameStartRanges : List (Nat × Nat) :=
  [(0xC0, 0xD6), (0xD8, 0xF6), (0xF8, 0x2FF), (0x370, 0x37D), (0x37F, 0x1FFF),
    (0x200C, 0x200D), (0x2070, 0x218F), (0x2C00, 0x2FEF), (0x3001, 0xD7FF),
    (0xF900, 0xFDCF), (0xFDF0, 0xFFFD), (0x10000, 0xEFFFF)]

/-- Further characters beyond ASCII that may stand inside a name. -/
def nameRanges : List (Nat × Nat) :=
  [(0xB7, 0xB7), (0x300, 0x36F), (0x203F, 0x2040)]

/-- Characters that a name may begin with. -/
def isNameStart (c : Char) : Bool :=
  c.isAlpha || c == ':' || c == '_' || inRanges nameStartRanges c.toNat

/-- Characters that may stand inside a name. -/
def isNameChar (c : Char) : Bool :=
  isNameStart c || c.isDigit || c == '-' || c == '.' || inRanges nameRanges c.toNat

/-- What a name may begin with, may also stand inside one. -/
theorem isNameChar_of_isNameStart {c : Char} (h : isNameStart c = true) :
    isNameChar c = true := by
  simp [isNameChar, h]

/-! ## Pieces of text -/

/-- The text without its leading white space, of which there must be some. -/
def spaces? : List Char → Option (List Char)
  | c :: cs => if isSpace c then some (skip isSpace cs) else none
  | [] => none

/-- What follows a fixed beginning. -/
def after? : List Char → List Char → Option (List Char)
  | [], cs => some cs
  | _ :: _, [] => none
  | b :: bs, c :: cs => if b = c then after? bs cs else none

theorem after?_append (bs cs : List Char) : after? bs (bs ++ cs) = some cs := by
  induction bs with
  | nil => cases cs <;> rfl
  | cons b bs ih => simp [after?, ih]

theorem eq_append_of_after? {bs cs rest : List Char} (h : after? bs cs = some rest) :
    cs = bs ++ rest := by
  induction bs generalizing cs with
  | nil =>
    cases cs <;> simpa [after?] using h
  | cons b bs ih =>
    cases cs with
    | nil => cases h
    | cons c cs =>
      unfold after? at h
      split at h
      · rename_i heq
        subst heq
        rw [ih h, List.cons_append]
      · cases h

theorem length_of_after? {bs cs rest : List Char} (h : after? bs cs = some rest) :
    rest.length + bs.length = cs.length := by
  rw [eq_append_of_after? h, List.length_append, Nat.add_comm]

/-- A text up to the closing quote, and what follows the quote. -/
def quoted? (quote : Char) : List Char → Option (List Char × List Char) :=
  Text.splitAt? [quote]

/-- A literal in quotes, and what follows it. -/
def literal? : List Char → Option (List Char × List Char)
  | '"' :: cs => quoted? '"' cs
  | '\'' :: cs => quoted? '\'' cs
  | _ => none

/-! ## Names -/

/-- A name at the front of a text, and what follows it. -/
def name? (cs : List Char) : Option (List Char × List Char) :=
  match cs with
  | [] => none
  | c :: _ =>
    if isNameStart c then some (cs.takeWhile isNameChar, cs.dropWhile isNameChar) else none

/-- A name with the shorthand of its namespace, which may be empty. -/
structure QName where
  shorthand : String
  name : String
  deriving DecidableEq, Repr

/-- The two parts of a name. There is at most one colon, and each part begins as names do;
    only the first part may be empty. -/
def QName.ofChars? (cs : List Char) : Option QName :=
  let starts (ds : List Char) : Bool := (ds.head?.map isNameStart).getD false
  match Text.pieces (· == ':') cs with
  | [name] => if starts name then some ⟨"", String.ofList name⟩ else none
  | [space, name] =>
    if (space.isEmpty || starts space) && starts name then
      some ⟨String.ofList space, String.ofList name⟩
    else none
  | _ => none

/-- A name in two parts at the front of a text, and what follows it. -/
def qname? (cs : List Char) : Option (QName × List Char) :=
  (QName.ofChars? (cs.takeWhile isNameChar)).map fun q => (q, cs.dropWhile isNameChar)

end Slideshow.Markup

/-
  Slideshow.Text.Blank

  White space. Running text knows the blanks of Unicode's White_Space property; diagram
  attributes, class lists and markup know only the few ASCII ones. Main operations: `skip`,
  which leaves out the blanks at the front of a text, whichever characters are blank in it,
  and `trim`, which cuts the blanks of running text off both ends.
-/

namespace Slideshow.Text

/-! ## Which characters are blank -/

/-- The characters with Unicode's White_Space property. -/
def isBlank (c : Char) : Bool :=
  let n := c.toNat
  (0x09 ≤ n && n ≤ 0x0D) || n == 0x20 || n == 0x85 || n == 0xA0 || n == 0x1680 ||
    (0x2000 ≤ n && n ≤ 0x200A) || n == 0x2028 || n == 0x2029 || n == 0x202F ||
    n == 0x205F || n == 0x3000

/-- The separators inside attribute values: space, tab, line feed, form feed and
    carriage return, but no vertical tab. -/
def isAsciiBlank (c : Char) : Bool :=
  c == ' ' || c == '\t' || c == '\n' || c == '\x0c' || c == '\r'

/-- An ASCII separator is blank in running text too. -/
theorem isBlank_of_isAsciiBlank {c : Char} (h : isAsciiBlank c = true) : isBlank c = true := by
  simp only [isAsciiBlank, Bool.or_eq_true, beq_iff_eq] at h
  rcases h with (((h | h) | h) | h) | h <;> subst h <;> decide

/-- The white space of markup, of JSON and of the attributes of drawings: space, tab, line feed
    and carriage return. -/
def isSpace (c : Char) : Bool :=
  c == ' ' || c == '\t' || c == '\n' || c == '\r'

/-! ## Skipping blanks -/

/-- The text without its leading blanks. -/
def skip (blank : Char → Bool) (cs : List Char) : List Char :=
  cs.dropWhile blank

theorem length_skip_le (blank : Char → Bool) (cs : List Char) :
    (skip blank cs).length ≤ cs.length :=
  (List.dropWhile_suffix _).length_le

/-- The text without its leading blanks, and without a comma behind them. -/
def skipComma (blank : Char → Bool) (cs : List Char) : List Char :=
  match skip blank cs with
  | ',' :: rest => rest
  | rest => rest

theorem length_skipComma_le (blank : Char → Bool) (cs : List Char) :
    (skipComma blank cs).length ≤ cs.length := by
  have h := length_skip_le blank cs
  unfold skipComma
  split
  · rename_i rest heq
    rw [heq, List.length_cons] at h
    omega
  · exact h

/-! ## Cutting blank ends -/

/-- The text without the blanks of running text at its front. -/
def trimLeft (cs : List Char) : List Char :=
  skip isBlank cs

/-- The text without blanks at either end. -/
def trim (cs : List Char) : List Char :=
  (trimLeft (trimLeft cs).reverse).reverse

/-- The string without blanks at either end. -/
def trimmed (s : String) : String :=
  String.ofList (trim s.toList)

/-- A string is blank when nothing but blanks stands in it. -/
def isBlankText (s : String) : Bool :=
  s.toList.all isBlank

/-! ## Letter case -/

/-- ASCII letters in lower case; every other character stands for itself. -/
def lower (cs : List Char) : List Char :=
  cs.map Char.toLower

end Slideshow.Text

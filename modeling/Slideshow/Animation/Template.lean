/-
  Slideshow.Animation.Template

  Texts split into literal parts and numbers, such as `translate(10, 20)`. A template has a
  leading literal and then numbers, each with the literal behind it; joining the parts as
  they were written gives the text back.
-/
import Slideshow.Decimal.Numeral
import Slideshow.Decimal.Text

namespace Slideshow

/-! ## Numbers inside a text -/

/-- The sign at the front of a text, if there is one, and the rest. -/
def spanSign : List Char → List Char × List Char
  | '-' :: cs => (['-'], cs)
  | '+' :: cs => (['+'], cs)
  | cs => ([], cs)

/-- The longest exponent at the front: `e`, an optional sign and digits; nothing when the
    digits are missing. -/
def spanExponent (cs : List Char) : List Char × List Char :=
  match cs with
  | e :: rest =>
    if e = 'e' ∨ e = 'E' then
      let (sign, rest) := spanSign rest
      let (ds, rest) := Decimal.spanDigits rest
      if ds.isEmpty then ([], cs) else (e :: sign ++ ds, rest)
    else ([], cs)
  | [] => ([], cs)

/-- The longest fraction at the front: a point and digits; nothing when the digits are
    missing. -/
def spanFraction (cs : List Char) : List Char × List Char :=
  match cs with
  | '.' :: rest =>
    let (ds, rest) := Decimal.spanDigits rest
    if ds.isEmpty then ([], cs) else ('.' :: ds, rest)
  | _ => ([], cs)

/-- The unsigned number at the front of a text, and the rest. -/
def spanUnsigned? (cs : List Char) : Option (List Char × List Char) :=
  let (whole, rest) := Decimal.spanDigits cs
  let (fraction, rest) := spanFraction rest
  if whole.isEmpty && fraction.isEmpty then none
  else
    let (power, rest) := spanExponent rest
    some (whole ++ fraction ++ power, rest)

/-- A character of a name, behind which a number does not begin. -/
def isNameChar (c : Char) : Bool :=
  c.isAlpha || c == '_'

/-- The number at the front of a text, given the character before it. A sign directly behind
    a name or a digit is text, and so are digits glued to a name. -/
def spanNumber? (before : Option Char) (cs : List Char) : Option (List Char × List Char) :=
  match cs with
  | [] => none
  | c :: rest =>
    if c = '-' ∨ c = '+' then
      if before.any fun p => isNameChar p || p.isDigit then none
      else (spanUnsigned? rest).map fun p => (c :: p.1, p.2)
    else if before.any isNameChar then none
    else spanUnsigned? cs

/-! ## Nothing is lost -/

theorem spanDigits_append (cs : List Char) :
    (Decimal.spanDigits cs).1 ++ (Decimal.spanDigits cs).2 = cs :=
  List.takeWhile_append_dropWhile

theorem spanSign_append (cs : List Char) : (spanSign cs).1 ++ (spanSign cs).2 = cs := by
  unfold spanSign
  split <;> rfl

theorem spanFraction_append (cs : List Char) :
    (spanFraction cs).1 ++ (spanFraction cs).2 = cs := by
  unfold spanFraction
  split
  · rename_i rest
    by_cases h : (Decimal.spanDigits rest).1.isEmpty
    · simp [h]
    · simp [h, spanDigits_append]
  · rfl

theorem spanExponent_append (cs : List Char) :
    (spanExponent cs).1 ++ (spanExponent cs).2 = cs := by
  unfold spanExponent
  split
  · rename_i e rest
    split
    · by_cases h : (Decimal.spanDigits (spanSign rest).2).1.isEmpty
      · simp [h]
      · simp [h, spanDigits_append, spanSign_append]
    · rfl
  · rfl

/-- An unsigned number and the rest are the text. -/
theorem spanUnsigned?_append {cs n rest : List Char} (h : spanUnsigned? cs = some (n, rest)) :
    n ++ rest = cs := by
  unfold spanUnsigned? at h
  simp only at h
  split at h
  · cases h
  · simp only [Option.some.injEq, Prod.mk.injEq] at h
    obtain ⟨rfl, rfl⟩ := h
    rw [List.append_assoc, spanExponent_append, List.append_assoc, spanFraction_append,
      spanDigits_append]

/-- A number has at least one character. -/
theorem spanUnsigned?_ne_nil {cs n rest : List Char}
    (h : spanUnsigned? cs = some (n, rest)) : n ≠ [] := by
  unfold spanUnsigned? at h
  simp only at h
  split at h
  · cases h
  · rename_i hne
    simp only [Option.some.injEq, Prod.mk.injEq] at h
    obtain ⟨rfl, rfl⟩ := h
    intro hnil
    simp only [List.append_eq_nil_iff] at hnil
    simp [hnil.1.1, hnil.1.2] at hne

/-- A number and the rest are the text. -/
theorem spanNumber?_append {before : Option Char} {cs n rest : List Char}
    (h : spanNumber? before cs = some (n, rest)) : n ++ rest = cs ∧ n ≠ [] := by
  unfold spanNumber? at h
  split at h
  · cases h
  · split at h
    · split at h
      · cases h
      · simp only [Option.map_eq_some_iff, Prod.mk.injEq] at h
        obtain ⟨p, hp, rfl, rfl⟩ := h
        exact ⟨by simp [spanUnsigned?_append hp], by simp⟩
    · split at h
      · cases h
      · exact ⟨spanUnsigned?_append h, spanUnsigned?_ne_nil h⟩

/-- What follows a number is shorter than the text. -/
theorem length_of_spanNumber? {before : Option Char} {cs n rest : List Char}
    (h : spanNumber? before cs = some (n, rest)) : rest.length < cs.length := by
  obtain ⟨happ, hne⟩ := spanNumber?_append h
  have := List.length_pos_iff.2 hne
  rw [← happ, List.length_append]
  omega

/-! ## Templates -/

/-- A text split at its numbers: the literal before the first number, then each number with
    the literal behind it. -/
structure Template where
  lead : List Char
  parts : List (Float × List Char)
  deriving DecidableEq

namespace Template

/-- The literals, one more than there are numbers. -/
def literals (t : Template) : List (List Char) :=
  t.lead :: t.parts.map (·.2)

/-- The numbers in order. -/
def numbers (t : Template) : List Float :=
  t.parts.map (·.1)

/-- Puts a character in front of the leading literal. -/
def push (c : Char) (t : Template) : Template :=
  ⟨c :: t.lead, t.parts⟩

/-- Puts a number in front of everything. -/
def pushNumber (x : Float) (t : Template) : Template :=
  ⟨[], (x, t.lead) :: t.parts⟩

/-- Splits a text, given the character before it. -/
def scan (before : Option Char) (cs : List Char) : Template :=
  match cs with
  | [] => ⟨[], []⟩
  | c :: rest =>
    match h : spanNumber? before (c :: rest) with
    | none => (scan (some c) rest).push c
    | some (n, after) =>
      have : after.length ≤ rest.length := Nat.le_of_lt_succ (length_of_spanNumber? h)
      match Decimal.number? n with
      | some x => (scan n.getLast? after).pushNumber x
      | none => (scan (some c) rest).push c
termination_by cs.length

/-- Splits a text at its numbers. -/
def parse (text : String) : Template :=
  scan none text.toList

/-- There are numbers, as many as in the other template, and the same literals. -/
def isCompatible (s t : Template) : Bool :=
  !s.numbers.isEmpty && s.numbers.length == t.numbers.length && s.literals == t.literals

/-- The text with other numbers put in place of the template's own. -/
def render (t : Template) (xs : List Float) : String :=
  let body := (xs.zip t.parts).flatMap fun p => (Decimal.compact p.1).toList ++ p.2.2
  String.ofList (t.lead ++ body)

end Template

end Slideshow

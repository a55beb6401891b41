/-
  Slideshow.Json.Token

  The tokens of JSON text: brackets and separators, and scalars. A string is read as a row
  of characters and 16-bit escapes, whose surrogate pairs are joined afterwards.
-/
import Slideshow.Json.Numeral

namespace Slideshow.Json

/-! ## Strings -/

/-- One piece of a string: a character, or an escaped 16-bit unit. -/
inductive Piece where
  | char (c : Char)
  | unit (n : Nat)

/-- The value of a hexadecimal digit. -/
def hexDigit? (c : Char) : Option Nat :=
  if '0' ≤ c ∧ c ≤ '9' then some (c.toNat - '0'.toNat)
  else if 'a' ≤ c ∧ c ≤ 'f' then some (c.toNat - 'a'.toNat + 10)
  else if 'A' ≤ c ∧ c ≤ 'F' then some (c.toNat - 'A'.toNat + 10)
  else none

/-- The value of four hexadecimal digits. -/
def hex4? (a b c d : Char) : Option Nat := do
  let a ← hexDigit? a
  let b ← hexDigit? b
  let c ← hexDigit? c
  let d ← hexDigit? d
  return ((a * 16 + b) * 16 + c) * 16 + d

/-- The character that a one-letter escape stands for. -/
def escape? : Char → Option Char
  | '"' => some '"'
  | '\\' => some '\\'
  | '/' => some '/'
  | 'b' => some '\x08'
  | 'f' => some '\x0c'
  | 'n' => some '\n'
  | 'r' => some '\r'
  | 't' => some '\t'
  | _ => none

/-- The pieces up to the closing quote, and what follows it. -/
def stringBody? : List Char → Option (List Piece × List Char)
  | [] => none
  | '"' :: rest => some ([], rest)
  | '\\' :: 'u' :: a :: b :: c :: d :: rest => do
    let n ← hex4? a b c d
    let (ps, rest) ← stringBody? rest
    return (.unit n :: ps, rest)
  | '\\' :: e :: rest => do
    let c ← escape? e
    let (ps, rest) ← stringBody? rest
    return (.char c :: ps, rest)
  | c :: rest =>
    if c == '\\' || c.toNat < 0x20 then none
    else (stringBody? rest).map fun p => (.char c :: p.1, p.2)

/-- The characters of a row of pieces. Surrogates must come in pairs. -/
def joinPieces? : List Piece → Option (List Char)
  | [] => some []
  | .char c :: ps => (joinPieces? ps).map (c :: ·)
  | .unit high :: .unit low :: ps =>
    if 0xD800 ≤ high ∧ high ≤ 0xDBFF then
      if 0xDC00 ≤ low ∧ low ≤ 0xDFFF then
        let c := Char.ofNat ((high - 0xD800) * 0x400 + (low - 0xDC00) + 0x10000)
        (joinPieces? ps).map (c :: ·)
      else none
    else if 0xDC00 ≤ high ∧ high ≤ 0xDFFF then none
    else (joinPieces? (.unit low :: ps)).map (Char.ofNat high :: ·)
  | .unit n :: ps =>
    if 0xD800 ≤ n ∧ n ≤ 0xDFFF then none
    else (joinPieces? ps).map (Char.ofNat n :: ·)

theorem length_of_stringBody? {cs rest : List Char} {ps : List Piece}
    (h : stringBody? cs = some (ps, rest)) : rest.length < cs.length := by
  fun_induction stringBody? cs generalizing ps rest with
  | case1 => simp at h
  | case2 => simp at h; simp [h.2]
  | case3 a b c d r ih =>
    simp only [Option.bind_eq_bind, Option.bind_eq_some_iff, Option.pure_def,
      Option.some.injEq, Prod.mk.injEq] at h
    obtain ⟨_, _, p, hp, _, rfl⟩ := h
    have := ih hp
    simp only [List.length_cons]
    omega
  | case4 e r _ ih =>
    simp only [Option.bind_eq_bind, Option.bind_eq_some_iff, Option.pure_def,
      Option.some.injEq, Prod.mk.injEq] at h
    obtain ⟨_, _, p, hp, _, rfl⟩ := h
    have := ih hp
    simp only [List.length_cons]
    omega
  | case5 => simp at h
  | case6 c r _ _ _ _ ih =>
    simp only [Option.map_eq_some_iff, Prod.mk.injEq] at h
    obtain ⟨p, hp, _, rfl⟩ := h
    have := ih hp
    simp only [List.length_cons]
    omega

/-! ## Tokens -/

/-- A token: a bracket or separator, or a scalar value. -/
inductive Token where
  | mark (c : Char)
  | scalar (j : Json)
  /-- A string that encodes no text, because a surrogate in it stands alone. -/
  | broken

def isMark (c : Char) : Bool :=
  c == '[' || c == ']' || c == '\x7b' || c == '\x7d' || c == ',' || c == ':'

/-- Characters of bare words and numerals. -/
def isBare (c : Char) : Bool :=
  c.isAlphanum || c == '-' || c == '+' || c == '.'

/-- The scalar that a bare word stands for. -/
def bareWord? (cs : List Char) : Option Json :=
  if cs = ['n', 'u', 'l', 'l'] then some .null
  else if cs = ['t', 'r', 'u', 'e'] then some (.bool true)
  else if cs = ['f', 'a', 'l', 's', 'e'] then some (.bool false)
  else (number? cs).map .num

/-- The token that begins with `c`, and what follows it. -/
def token? (c : Char) (cs : List Char) : Option (Token × List Char) :=
  if isMark c then some (.mark c, cs)
  else if c == '"' then do
    let (ps, rest) ← stringBody? cs
    match joinPieces? ps with
    | some s => return (.scalar (.str (String.ofList s)), rest)
    | none => return (.broken, rest)
  else if isBare c then
    (bareWord? (c :: cs.takeWhile isBare)).map fun j => (.scalar j, cs.dropWhile isBare)
  else none

theorem length_of_token? {c : Char} {cs rest : List Char} {t : Token}
    (h : token? c cs = some (t, rest)) : rest.length ≤ cs.length := by
  unfold token? at h
  split at h
  · simp_all
  · split at h
    · simp only [Option.bind_eq_bind, Option.bind_eq_some_iff] at h
      obtain ⟨p, hp, h⟩ := h
      have := length_of_stringBody? hp
      split at h <;>
        (simp only [Option.pure_def, Option.some.injEq, Prod.mk.injEq] at h
         obtain ⟨_, rfl⟩ := h
         omega)
    · split at h
      · simp only [Option.map_eq_some_iff, Prod.mk.injEq] at h
        obtain ⟨_, _, _, rfl⟩ := h
        exact (List.dropWhile_suffix _).length_le
      · cases h

/-- The tokens of a text. -/
def tokens? : List Char → Option (List Token)
  | [] => some []
  | c :: cs =>
    if Text.isSpace c then tokens? cs
    else
      match h : token? c cs with
      | none => none
      | some (t, rest) =>
        have : rest.length ≤ cs.length := length_of_token? h
        (tokens? rest).map (t :: ·)
termination_by cs => cs.length

end Slideshow.Json

/-
  Slideshow.Picture.Length

  Numbers and lengths as attributes of a drawing give them: a length is a number and a unit,
  or a share of some whole. Pixels are measured in single precision, 96 of them to the inch.
-/
import Slideshow.Path.Data

namespace Slideshow.Picture

open Text (isSpace skip skipComma length_skipComma_le)

/-! ## Numbers -/

/-- The exponent at the front of a text, and what follows it. The units `em` and `ex` are no
    exponents, but every other `e` has to begin one. -/
def spanPower? (cs : List Char) : Option (List Char × List Char) :=
  match cs with
  | [] => some ([], [])
  | e :: rest =>
    if e = 'e' ∨ e = 'E' then
      match rest with
      | [] => none
      | c :: ds =>
        if c = 'm' ∨ c = 'x' then some ([], cs)
        else if c = '+' ∨ c = '-' then
          some (e :: c :: ds.takeWhile Char.isDigit, ds.dropWhile Char.isDigit)
        else if c.isDigit then
          some (e :: rest.takeWhile Char.isDigit, rest.dropWhile Char.isDigit)
        else none
    else some ([], cs)

/-- The number at the front of a text, and what follows it. -/
def number? (cs : List Char) : Option (Float × List Char) :=
  let (sign, rest) := spanSign (skip isSpace cs)
  let (places, rest) := PathData.spanPlaces rest
  match spanPower? rest with
  | none => none
  | some (power, rest) =>
    match Decimal.number? (sign ++ places ++ power) with
    | some x => if x.isFinite && places.any Char.isDigit then some (x, rest) else none
    | none => none

/-- The number at the front of a list of numbers, and the rest of the list. -/
def listed? (cs : List Char) : Option (Float × List Char) :=
  (number? cs).map fun p => (p.1, skipComma isSpace p.2)

theorem length_of_spanPower? {cs power rest : List Char}
    (h : spanPower? cs = some (power, rest)) : rest.length ≤ cs.length := by
  have drop (ds : List Char) : (ds.dropWhile Char.isDigit).length ≤ ds.length :=
    (List.dropWhile_suffix _).length_le
  unfold spanPower? at h
  repeat' split at h
  all_goals
    simp only [Option.some.injEq, Prod.mk.injEq, reduceCtorEq] at h
  all_goals
    obtain ⟨_, rfl⟩ := h
    simp only [List.length_cons, Nat.le_refl]
  · exact Nat.le_succ_of_le (Nat.le_succ_of_le (drop _))
  · exact Nat.le_succ_of_le (drop _)

theorem length_of_number? {cs rest : List Char} {x : Float}
    (h : number? cs = some (x, rest)) : rest.length < cs.length := by
  unfold number? at h
  simp only at h
  split at h
  · cases h
  · rename_i hpower
    split at h
    · split at h
      · rename_i hfits
        simp only [Option.some.injEq, Prod.mk.injEq] at h
        obtain ⟨_, rfl⟩ := h
        have hany := (Bool.and_eq_true_iff.1 hfits).2
        exact Nat.lt_of_le_of_lt (length_of_spanPower? hpower)
          (PathData.length_behind_places hany)
      · cases h
    · cases h

theorem length_of_listed? {cs rest : List Char} {x : Float}
    (h : listed? cs = some (x, rest)) : rest.length < cs.length := by
  simp only [listed?, Option.map_eq_some_iff, Prod.mk.injEq] at h
  obtain ⟨p, hp, _, rfl⟩ := h
  exact Nat.lt_of_le_of_lt (length_skipComma_le _ _) (length_of_number? hp)

/-! ## Lengths -/

/-- What a length is counted in. -/
inductive LengthUnit where
  | pixel | em | ex | inch | centimetre | millimetre | point | pica | percent
  deriving DecidableEq

/-- The unit of a length; pixels need not be named. -/
def LengthUnit.ofText? (cs : List Char) : Option LengthUnit :=
  match String.ofList cs with
  | "" => some .pixel
  | "px" => some .pixel
  | "em" => some .em
  | "ex" => some .ex
  | "in" => some .inch
  | "cm" => some .centimetre
  | "mm" => some .millimetre
  | "pt" => some .point
  | "pc" => some .pica
  | "%" => some .percent
  | _ => none

/-- A number of units. -/
structure Length where
  number : Float
  unit : LengthUnit

namespace Length

/-- The whole. -/
def whole : Length := ⟨100, .percent⟩

/-- The length that a text gives. -/
def ofText? (text : String) : Option Length := do
  let (number, rest) ← number? text.toList
  return ⟨number, ← LengthUnit.ofText? rest⟩

def isShare (l : Length) : Bool := l.unit = .percent

/-- A minus sign stands before the number, be it zero. -/
def isNegative (l : Length) : Bool := l.number < 0 || 1 / l.number < 0

/-- The pixels of a length, when `total` is the whole and `font` the size of the font. -/
def pixels (total font : Float32) (l : Length) : Float32 :=
  let n := l.number.toFloat32
  match l.unit with
  | .pixel => n
  | .em => n * font
  | .ex => n * font / 2
  | .inch => n * 96
  | .centimetre => n * 96 / 2.54
  | .millimetre => n * 96 / 25.4
  | .point => n * 96 / 72
  | .pica => n * 96 / 6
  | .percent => total * n / 100

end Length

end Slideshow.Picture

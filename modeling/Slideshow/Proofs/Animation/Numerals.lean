/-
  Slideshow.Proofs.Animation.Numerals

  How a text is taken apart at its numbers. `IsNumeral` is what a number looks like; whatever is
  found as a number looks like one and has a value (`isNumeral_of_spanNumber?`,
  `number?_eq_value`). `Splits` is the way through a text from its front, where each character
  either begins a number or belongs to a literal. There is one for every text (`exists_splits`),
  and the template of the text is what it leaves (`Splits.scan_eq`).
-/
import Mathlib.Data.List.TakeWhile
import Slideshow.Animation.Template

namespace Slideshow

namespace Numeral

open Decimal

variable {c d : Char} {cs ds rest : List Char}

/-! ## What a number looks like -/

/-- A sign, or nothing. -/
def IsSign (cs : List Char) : Prop := cs = [] ∨ cs = ['-'] ∨ cs = ['+']

/-- Digits, at least one. -/
def IsDigits (cs : List Char) : Prop := cs ≠ [] ∧ ∀ c ∈ cs, c.isDigit = true

/-- A point and digits. -/
def IsFraction (cs : List Char) : Prop := ∃ ds, IsDigits ds ∧ cs = '.' :: ds

/-- Digits, perhaps with a fraction, or a fraction alone. -/
def IsDecimal (cs : List Char) : Prop :=
  ∃ whole fraction, cs = whole ++ fraction ∧
    (IsDigits whole ∧ (fraction = [] ∨ IsFraction fraction) ∨ whole = [] ∧ IsFraction fraction)

/-- The letter for a power of ten, perhaps a sign, and digits. -/
def IsExponent (cs : List Char) : Prop :=
  ∃ e sign ds, (e = 'e' ∨ e = 'E') ∧ IsSign sign ∧ IsDigits ds ∧ cs = e :: sign ++ ds

/-- A number: perhaps a sign, a decimal, and perhaps an exponent. -/
def IsNumeral (cs : List Char) : Prop :=
  ∃ sign decimal power, cs = sign ++ decimal ++ power ∧ IsSign sign ∧ IsDecimal decimal ∧
    (power = [] ∨ IsExponent power)

/-! ## Parts of a number -/

/-- The text begins with a digit. -/
def beginsDigit (cs : List Char) : Bool := cs.head?.any Char.isDigit

theorem all_spanDigits (cs : List Char) : ∀ c ∈ (spanDigits cs).1, c.isDigit = true := by
  intro c hc
  exact List.mem_takeWhile_imp hc

theorem beginsDigit_spanDigits (cs : List Char) : beginsDigit (spanDigits cs).2 = false := by
  have hhead := List.head?_dropWhile_not Char.isDigit cs
  show Option.any Char.isDigit (cs.dropWhile Char.isDigit).head? = false
  cases hrest : (cs.dropWhile Char.isDigit).head? with
  | none => rfl
  | some c =>
    rw [hrest] at hhead
    exact hhead

/-- Digits are taken from the front of a text up to where there is none. -/
theorem spanDigits_of_all (hds : ∀ c ∈ ds, c.isDigit = true) (hrest : beginsDigit rest = false) :
    spanDigits (ds ++ rest) = (ds, rest) := by
  induction ds with
  | nil =>
    cases rest with
    | nil => rfl
    | cons c rest =>
      have hc : c.isDigit = false := hrest
      simp only [spanDigits, List.nil_append, List.takeWhile_cons, List.dropWhile_cons, hc,
        Bool.false_eq_true, if_false]
  | cons c ds ih =>
    have hc : c.isDigit = true := hds c List.mem_cons_self
    have hspan := ih fun d hd => hds d (List.mem_cons_of_mem _ hd)
    simp only [spanDigits, Prod.mk.injEq] at hspan
    simp only [spanDigits, List.cons_append, List.takeWhile_cons, List.dropWhile_cons, hc, if_true,
      hspan.1, hspan.2]

theorem isSign_spanSign (cs : List Char) : IsSign (spanSign cs).1 := by
  unfold spanSign
  split
  · exact .inr (.inl rfl)
  · exact .inr (.inr rfl)
  · exact .inl rfl

theorem spanSign_of_sign (h : c = '-' ∨ c = '+') : spanSign (c :: cs) = ([c], cs) := by
  rcases h with rfl | rfl
  · rfl
  · rfl

theorem spanSign_of_not (h : ¬ (c = '-' ∨ c = '+')) : spanSign (c :: cs) = ([], c :: cs) := by
  unfold spanSign
  split
  · rename_i heq
    exact absurd (.inl (List.cons.inj heq).1) h
  · rename_i heq
    exact absurd (.inr (List.cons.inj heq).1) h
  · rfl

theorem isDigits_spanDigits (h : ¬ (spanDigits cs).1.isEmpty = true) :
    IsDigits (spanDigits cs).1 :=
  ⟨fun hnil => h (List.isEmpty_iff.2 hnil), all_spanDigits cs⟩

theorem spanFraction_cases (cs : List Char) :
    (spanFraction cs).1 = [] ∨ IsFraction (spanFraction cs).1 := by
  unfold spanFraction
  split
  · rename_i rest
    by_cases hempty : (spanDigits rest).1.isEmpty = true
    · left
      simp only [hempty, if_true]
    · right
      simp only [hempty, Bool.false_eq_true, if_false]
      exact ⟨_, isDigits_spanDigits hempty, rfl⟩
  · exact .inl rfl

theorem spanExponent_cases (cs : List Char) :
    (spanExponent cs).1 = [] ∨ IsExponent (spanExponent cs).1 := by
  unfold spanExponent
  split
  · rename_i e rest
    split
    · rename_i he
      by_cases hempty : (spanDigits (spanSign rest).2).1.isEmpty = true
      · left
        simp only [hempty, if_true]
      · right
        simp only [hempty, Bool.false_eq_true, if_false]
        exact ⟨e, _, _, he, isSign_spanSign rest, isDigits_spanDigits hempty, rfl⟩
    · exact .inl rfl
  · exact .inl rfl

/-- An unsigned number is a decimal with perhaps an exponent. -/
theorem isNumeral_of_spanUnsigned? {n : List Char} (h : spanUnsigned? cs = some (n, rest)) :
    ∃ decimal power, n = decimal ++ power ∧ IsDecimal decimal ∧
      (power = [] ∨ IsExponent power) := by
  unfold spanUnsigned? at h
  simp only at h
  split at h
  · cases h
  · rename_i hne
    obtain ⟨rfl, -⟩ := Prod.mk.inj (Option.some.inj h)
    refine ⟨_, _, rfl, ⟨_, _, rfl, ?_⟩, spanExponent_cases _⟩
    have hfraction := spanFraction_cases (spanDigits cs).2
    by_cases hempty : (spanDigits cs).1.isEmpty = true
    · -- without digits in front there has to be a fraction
      right
      refine ⟨List.isEmpty_iff.1 hempty, hfraction.resolve_left fun hnil => hne ?_⟩
      rw [hempty, hnil]
      rfl
    · exact .inl ⟨isDigits_spanDigits hempty, hfraction⟩

/-- What is found as a number looks like one. -/
theorem isNumeral_of_spanNumber? {before : Option Char} {n : List Char}
    (h : spanNumber? before cs = some (n, rest)) : IsNumeral n := by
  unfold spanNumber? at h
  split at h
  · cases h
  · split at h
    · rename_i hsign
      split at h
      · cases h
      · simp only [Option.map_eq_some_iff, Prod.mk.injEq] at h
        obtain ⟨p, hp, rfl, rfl⟩ := h
        obtain ⟨decimal, power, hn, hdecimal, hpower⟩ := isNumeral_of_spanUnsigned? hp
        rename_i sign _ _
        refine ⟨[sign], decimal, power, by rw [hn]; rfl, ?_, hdecimal, hpower⟩
        rcases hsign with rfl | rfl
        · exact .inr (.inl rfl)
        · exact .inr (.inr rfl)
    · split at h
      · cases h
      · obtain ⟨decimal, power, hn, hdecimal, hpower⟩ := isNumeral_of_spanUnsigned? h
        exact ⟨[], decimal, power, hn, .inl rfl, hdecimal, hpower⟩

/-! ## Values -/

theorem int?_of_isDigits {sign : List Char} (hsign : IsSign sign) (hds : IsDigits ds) :
    ∃ i, int? (sign ++ ds) = some i := by
  have hdigits : ds.isEmpty = false := by
    rw [← Bool.not_eq_true, List.isEmpty_iff]
    exact hds.1
  have hall : ds.all Char.isDigit = true := List.all_eq_true.2 hds.2
  have hcheck : (ds.isEmpty || !ds.all Char.isDigit) = false := by
    rw [hdigits, hall]
    rfl
  rcases hsign with rfl | rfl | rfl
  · -- without a sign the text begins with a digit, which is no sign
    rw [List.nil_append]
    unfold int?
    split
    · exact absurd (hds.2 '-' List.mem_cons_self) (by decide)
    · exact absurd (hds.2 '+' List.mem_cons_self) (by decide)
    · exact ⟨_, by rw [hcheck]; rfl⟩
  · refine ⟨_, if_neg ?_⟩
    show ¬ (ds.isEmpty || !ds.all Char.isDigit) = true
    rw [hcheck]
    exact Bool.false_ne_true
  · refine ⟨_, if_neg ?_⟩
    show ¬ (ds.isEmpty || !ds.all Char.isDigit) = true
    rw [hcheck]
    exact Bool.false_ne_true

theorem exists_exponent {power : List Char} (h : power = [] ∨ IsExponent power) :
    ∃ e, exponent? power = some e := by
  rcases h with rfl | ⟨e, sign, ds, he, hsign, hds, rfl⟩
  · exact ⟨0, rfl⟩
  · obtain ⟨i, hi⟩ := int?_of_isDigits hsign hds
    rcases he with rfl | rfl
    · exact ⟨i, hi⟩
    · exact ⟨i, hi⟩

theorem beginsDigit_of_isExponent {power : List Char} (h : power = [] ∨ IsExponent power) :
    beginsDigit power = false := by
  rcases h with rfl | ⟨e, sign, ds, he | he, -, -, rfl⟩
  · rfl
  · rw [he]
    rfl
  · rw [he]
    rfl

theorem toLower_of_isDigit (h : c.isDigit = true) : c.toLower = c := by
  unfold Char.toLower
  rw [dif_neg]
  rintro ⟨hupper, -⟩
  simp only [Char.isDigit, Bool.and_eq_true, decide_eq_true_eq] at h
  -- the digits stand before the capital letters
  have hle : c.val.toNat ≤ 57 := h.2
  have hge : 65 ≤ c.val.toNat := hupper
  omega

/-- A decimal begins with a digit or a point. -/
theorem exists_first {decimal : List Char} (h : IsDecimal decimal) :
    ∃ c ds, decimal = c :: ds ∧ (c.isDigit = true ∨ c = '.') := by
  obtain ⟨whole, fraction, rfl, hwhole | ⟨rfl, ds, -, rfl⟩⟩ := h
  · obtain ⟨c, ds, rfl⟩ := List.exists_cons_of_ne_nil hwhole.1.1
    exact ⟨c, ds ++ fraction, rfl, .inl (hwhole.1.2 c List.mem_cons_self)⟩
  · exact ⟨'.', ds, rfl, .inr rfl⟩

/-- What begins with a digit or a point is not the name of a special value. -/
theorem special?_eq_none (h : c.isDigit = true ∨ c = '.') : special? (c :: cs) = none := by
  have hlower : c.toLower ≠ 'i' ∧ c.toLower ≠ 'n' := by
    rcases h with h | rfl
    · rw [toLower_of_isDigit h]
      constructor
      · rintro rfl
        exact absurd h (by decide)
      · rintro rfl
        exact absurd h (by decide)
    · decide
  have hname : ∀ name : String, (∃ d ds, name.toList = d :: ds ∧ (d = 'i' ∨ d = 'n')) →
      (String.ofList (Text.lower (c :: cs)) == name) = false := by
    rintro name ⟨d, ds, hname, hd⟩
    refine beq_false_of_ne fun heq => ?_
    have hlist := congrArg String.toList heq
    rw [String.toList_ofList, hname, Text.lower, List.map_cons] at hlist
    have hhead := (List.cons.inj hlist).1
    rcases hd with rfl | rfl
    · exact hlower.1 hhead
    · exact hlower.2 hhead
  unfold special?
  simp only [hname "inf" ⟨_, _, rfl, .inl rfl⟩, hname "infinity" ⟨_, _, rfl, .inl rfl⟩,
    hname "nan" ⟨_, _, rfl, .inr rfl⟩, Bool.or_self, Bool.false_eq_true, if_false]

/-- What begins with a digit or a point is no name and has no sign. -/
theorem number?_eq_unsigned? (h : c.isDigit = true ∨ c = '.') :
    number? (c :: cs) = unsigned? (c :: cs) := by
  unfold number?
  split
  · rename_i heq
    obtain ⟨rfl, -⟩ := List.cons.inj heq
    exact absurd h (by decide)
  · rename_i heq
    obtain ⟨rfl, -⟩ := List.cons.inj heq
    exact absurd h (by decide)
  · rw [magnitude?, special?_eq_none h]
    rfl

theorem exists_unsigned {decimal power : List Char} (hdecimal : IsDecimal decimal)
    (hpower : power = [] ∨ IsExponent power) : ∃ x, unsigned? (decimal ++ power) = some x := by
  obtain ⟨e, he⟩ := exists_exponent hpower
  have hstop := beginsDigit_of_isExponent hpower
  obtain ⟨whole, fraction, rfl, hparts⟩ := hdecimal
  have hwhole : ∀ c ∈ whole, c.isDigit = true := by
    rcases hparts with ⟨h, -⟩ | ⟨rfl, -⟩
    · exact h.2
    · intro c hc
      cases hc
  have hfraction : fraction = [] ∨ IsFraction fraction := by
    rcases hparts with ⟨-, h⟩ | ⟨-, h⟩
    · exact h
    · exact .inr h
  rw [List.append_assoc]
  rcases hfraction with rfl | ⟨ds, hds, rfl⟩
  · -- without a fraction, there are digits in front
    have hdigits : IsDigits whole := by
      rcases hparts with ⟨h, -⟩ | ⟨-, ds, -, hnil⟩
      · exact h
      · cases hnil
    have hspan : spanDigits (whole ++ ([] ++ power)) = (whole, power) :=
      spanDigits_of_all hwhole hstop
    have hempty : whole.isEmpty = false := by
      rw [← Bool.not_eq_true, List.isEmpty_iff]
      exact hdigits.1
    unfold unsigned?
    rw [hspan]
    simp only
    split
    · -- an exponent does not begin with a point
      rcases hpower with hnil | ⟨_, _, _, rfl | rfl, -, -, hcons⟩
      · cases hnil
      · cases hcons
      · cases hcons
    · simp only [hempty, Bool.false_and, Bool.false_eq_true, if_false, he, Option.map_some]
      exact ⟨_, rfl⟩
  · have hspan : spanDigits (whole ++ ('.' :: ds ++ power)) = (whole, '.' :: (ds ++ power)) :=
      spanDigits_of_all hwhole rfl
    have hrest : spanDigits (ds ++ power) = (ds, power) := spanDigits_of_all hds.2 hstop
    have hempty : ds.isEmpty = false := by
      rw [← Bool.not_eq_true, List.isEmpty_iff]
      exact hds.1
    unfold unsigned?
    rw [hspan]
    simp only [hrest, hempty, Bool.and_false, Bool.false_eq_true, if_false, he, Option.map_some]
    exact ⟨_, rfl⟩

/-- What looks like a number has a value. -/
theorem exists_number {n : List Char} (h : IsNumeral n) : ∃ x, number? n = some x := by
  obtain ⟨sign, decimal, power, rfl, hsign, hdecimal, hpower⟩ := h
  obtain ⟨x, hx⟩ := exists_unsigned hdecimal hpower
  obtain ⟨c, ds, rfl, hc⟩ := exists_first hdecimal
  have hmagnitude : magnitude? (c :: ds ++ power) = some x := by
    rw [magnitude?, hx, List.cons_append, special?_eq_none hc]
    rfl
  rw [List.append_assoc]
  rcases hsign with rfl | rfl | rfl
  · exact ⟨x, (number?_eq_unsigned? hc).trans hx⟩
  · exact ⟨-x, congrArg (Option.map _) hmagnitude⟩
  · exact ⟨x, hmagnitude⟩

/-- The value of a number. -/
def value (n : List Char) : Float := (number? n).getD 0

theorem number?_eq_value {n : List Char} (h : IsNumeral n) : number? n = some (value n) := by
  obtain ⟨x, hx⟩ := exists_number h
  rw [value, hx]
  rfl

end Numeral

/-! ## Ways through a text -/

/-- The way through a text from its front, given the character before it: either a number begins,
    and is taken as a whole, or the first character belongs to a literal. What is left are the first
    literal and the numbers, each with the literal behind it. -/
inductive Splits : Option Char → List Char → List Char → List (List Char × List Char) → Prop
  | nil {before : Option Char} : Splits before [] [] []
  | skip {before : Option Char} {c : Char} {cs lead : List Char}
      {parts : List (List Char × List Char)} (hnone : spanNumber? before (c :: cs) = none)
      (hrest : Splits (some c) cs lead parts) : Splits before (c :: cs) (c :: lead) parts
  | number {before : Option Char} {cs n rest lead : List Char}
      {parts : List (List Char × List Char)} (hnumber : spanNumber? before cs = some (n, rest))
      (hrest : Splits n.getLast? rest lead parts) : Splits before cs [] ((n, lead) :: parts)

namespace Splits

variable {before : Option Char} {lead : List Char} {parts : List (List Char × List Char)}

/-- The parts are the text. -/
theorem append_eq (h : Splits before cs lead parts) :
    lead ++ parts.flatMap (fun p => p.1 ++ p.2) = cs := by
  induction h with
  | nil => rfl
  | skip hnone hrest ih => rw [List.cons_append, ih]
  | number hnumber hrest ih =>
    rw [List.flatMap_cons, List.append_assoc, ih, List.nil_append]
    exact (spanNumber?_append hnumber).1

theorem isNumeral (h : Splits before cs lead parts) : ∀ p ∈ parts, Numeral.IsNumeral p.1 := by
  induction h with
  | nil => intro p hp; cases hp
  | skip hnone hrest ih => exact ih
  | number hnumber hrest ih =>
    intro p hp
    rcases List.mem_cons.1 hp with rfl | hp
    · exact Numeral.isNumeral_of_spanNumber? hnumber
    · exact ih p hp

/-- The template of a text is what its way through it leaves, with the values of the numbers. -/
theorem scan_eq (h : Splits before cs lead parts) :
    Template.scan before cs = ⟨lead, parts.map fun p => (Numeral.value p.1, p.2)⟩ := by
  induction h with
  | nil => rw [Template.scan]; rfl
  | skip hnone hrest ih =>
    rw [Template.scan]
    split
    · rw [ih]
      rfl
    · rename_i n after hsome
      rw [hnone] at hsome
      cases hsome
  | @number before cs n rest lead parts hnumber hrest ih =>
    have hvalue := Numeral.number?_eq_value (Numeral.isNumeral_of_spanNumber? hnumber)
    cases cs with
    | nil => cases hnumber
    | cons c cs =>
      rw [Template.scan]
      split
      · rename_i hnone
        rw [hnumber] at hnone
        cases hnone
      · rename_i n' after hsome
        rw [hnumber] at hsome
        obtain ⟨rfl, rfl⟩ := Prod.mk.inj (Option.some.inj hsome)
        simp only [hvalue, ih]
        rfl

end Splits

/-- There is a way through every text. -/
theorem exists_splits (before : Option Char) (cs : List Char) :
    ∃ lead parts, Splits before cs lead parts := by
  induction hlength : cs.length using Nat.strong_induction_on generalizing before cs with
  | _ length ih =>
    cases cs with
    | nil => exact ⟨[], [], .nil⟩
    | cons c cs =>
      cases hnumber : spanNumber? before (c :: cs) with
      | none =>
        obtain ⟨lead, parts, hrest⟩ := ih cs.length (by rw [← hlength]; simp) (some c) cs rfl
        exact ⟨c :: lead, parts, .skip hnumber hrest⟩
      | some p =>
        have hshorter := length_of_spanNumber? hnumber
        obtain ⟨lead, parts, hrest⟩ := ih p.2.length (by omega) p.1.getLast? p.2 rfl
        exact ⟨[], (p.1, lead) :: parts, .number hnumber hrest⟩

end Slideshow

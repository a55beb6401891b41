/-
  Slideshow.Proofs.Animation.Frames

  The values between two texts that differ only in their numbers. On the way new numbers are written
  between the literals of the two ends, and the value can be taken apart into these literals again
  if and only if every seam is clear (`shape_kept_iff`). Directly behind a digit no minus sign
  appears, for there both ends have numbers without a sign, and so has everything between them
  (`fits_frame`). With literals that keep the numbers apart every seam is clear, whatever the
  numbers (`clear_of_apart`).
-/
import Slideshow.Animation.Blend
import Slideshow.Proofs.Animation.Written
import Slideshow.Proofs.Decimal.Mixing

namespace Slideshow

open Numeral Decimal

variable {before before' : Option Char} {c : Char} {cs n rest lead : List Char}
variable {parts : List (List Char × List Char)}

/-! ## Numbers without a sign -/

/-- A number that is written without a minus sign is not below zero. -/
theorem Numeral.nonneg_value (h : IsNumeral n) (hminus : n.head? ≠ some '-') : 0 ≤ value n := by
  have hvalue := number?_eq_value h
  obtain ⟨sign, decimal, power, rfl, hsign, hdecimal, -⟩ := h
  obtain ⟨d, ds, rfl, hd⟩ := exists_first hdecimal
  rcases hsign with rfl | rfl | rfl
  · exact nonneg_unsigned? ((number?_eq_unsigned? hd).symm.trans hvalue)
  · exact absurd rfl hminus
  · -- behind a plus sign stands the magnitude
    have hmagnitude : magnitude? (d :: ds ++ power) = some (value _) := hvalue
    rw [List.cons_append, magnitude?, special?_eq_none hd] at hmagnitude
    exact nonneg_unsigned? hmagnitude

/-! ## Other numbers between the same literals -/

theorem Fits.cons (hnone : spanNumber? before (c :: lead ++ rest) = none)
    (h : Fits (some c) lead parts) : Fits before (c :: lead) parts := by
  have hstill : Still (some c) lead → Still before (c :: lead) := by
    refine fun hlead => .skip ?_ hlead
    rw [spanNumber?_eq_none_iff] at hnone ⊢
    by_contra hbegins
    rw [begins_append_of_begins (Bool.not_eq_false _ ▸ hbegins)] at hnone
    cases hnone
  have hlast : (c :: lead).getLast?.or before = lead.getLast?.or (some c) := by
    rw [List.getLast?_cons]
    cases lead.getLast? <;> rfl
  cases parts with
  | nil => exact hstill h
  | cons p parts => exact ⟨hstill h.1, h.2.1, hlast ▸ h.2.2.1, h.2.2.2⟩

/-- What stands in place of two numbers at time `t`. -/
def mixed (t x y : Float) : Float := if 1 ≤ t then y else x + (y - x) * t

/-- The numbers on the way from one text to another one, as they are written, each with the literal
    of the other one behind it. -/
def frame (t : Float) (start goal : List (List Char × List Char)) :
    List (List Char × List Char) :=
  List.zipWith (fun p q => ((compact (mixed t (value p.1) (value q.1))).toList, q.2)) start goal

/-- Between numbers without a minus sign, numbers are written without one. -/
theorem no_minus_of_mixed {m : List Char} {t : Float} (hn : IsNumeral n) (hm : IsNumeral m)
    (hminus : n.head? ≠ some '-') (hminus' : m.head? ≠ some '-') (ht : 0 ≤ t) (ht' : t ≤ 1) :
    (compact (mixed t (value n) (value m))).toList.head? ≠ some '-' := by
  intro hhead
  have hlt := lt_zero_of_minus hhead
  have hx := nonneg_value hn hminus
  have hy := nonneg_value hm hminus'
  unfold mixed at hlt
  split at hlt
  · exact Number.not_lt_of_le hy hlt
  · exact not_mixed_lt_zero hx hy ht ht' hlt

/-- Where both ends have a number, the one between them may begin as it is written: behind a digit
    both are without a sign. -/
theorem mayBegin_mixed {cs' rest' m : List Char} {t : Float}
    (hstart : spanNumber? before' cs' = some (n, rest'))
    (hgoal : spanNumber? before cs = some (m, rest)) (halike : Alike before before') (ht : 0 ≤ t)
    (ht' : t ≤ 1) : MayBegin before (compact (mixed t (value n) (value m))).toList := by
  have hbegin := mayBegin_of_spanNumber? hgoal
  have hbegin' := mayBegin_of_spanNumber? hstart
  refine ⟨hbegin.1, fun hsign => Bool.eq_false_iff.2 fun hdigit => ?_⟩
  rcases hsign with hminus | hplus
  · refine no_minus_of_mixed (isNumeral_of_spanNumber? hstart) (isNumeral_of_spanNumber? hgoal)
      (fun hhead => ?_) (fun hhead => ?_) ht ht' hminus
    · rw [halike.2, hbegin'.2 (.inl hhead)] at hdigit
      cases hdigit
    · rw [hbegin.2 (.inl hhead)] at hdigit
      cases hdigit
  · -- no plus sign is written at all
    have hfirst := (isWritten_compact (mixed t (value n) (value m))).digit_of_head
      (by rw [hplus]; decide)
    rw [beginsDigit, hplus] at hfirst
    cases hfirst

/-- The numbers of a frame fit between the literals that both ends have. -/
theorem fits_frame {cs' : List Char} {start goal : List (List Char × List Char)} {t : Float}
    (hgoal : Splits before cs lead goal) (hstart : Splits before' cs' lead start)
    (halike : Alike before before') (hliterals : start.map (·.2) = goal.map (·.2)) (ht : 0 ≤ t)
    (ht' : t ≤ 1) : Fits before lead (frame t start goal) := by
  -- along the way through one end; the way through the other one takes the same turns, for a
  -- character of a literal is one of the same literal there
  induction hgoal generalizing before' cs' start with
  | nil =>
    obtain rfl := List.map_eq_nil_iff.1 hliterals
    exact .nil
  | @skip before c cs lead goal hnone hrest ih =>
    cases hstart with
    | skip hnone' hrest' =>
      have happ := hrest.append_eq
      subst happ
      exact .cons hnone (ih hrest' ⟨rfl, rfl⟩ hliterals)
  | @number before cs m rest l goal hnumber hrest ih =>
    cases hstart with
    | nil => cases hliterals
    | @number before' cs' n rest' l' start hnumber' hrest' =>
      simp only [List.map_cons, List.cons.injEq] at hliterals
      obtain ⟨rfl, hliterals⟩ := hliterals
      have hzero := alike_zero (ends_of_spanNumber? hnumber).1
      have hzero' := alike_zero (ends_of_spanNumber? hnumber').1
      have hsame : Alike m.getLast? n.getLast? :=
        ⟨hzero.1.trans hzero'.1.symm, hzero.2.trans hzero'.2.symm⟩
      exact ⟨.nil, isWritten_compact _, mayBegin_mixed hnumber' hnumber halike ht ht',
        (ih hrest' hsame hliterals).congr hzero⟩

/-! ## Literals that keep numbers apart -/

/-- The literals keep numbers apart, however these are written: none in front of a number ends open,
    none between two numbers is empty, and none behind a number makes an exponent, not even with a
    digit where the next number is. -/
def Apart : Option Char → List Char → List (List Char) → Prop
  | _, _, [] => True
  | before, lead, [l] => endsOpen before lead = false ∧ (spanExponent l).1 = []
  | before, lead, l :: l' :: rest =>
    endsOpen before lead = false ∧ l ≠ [] ∧ (spanExponent (l ++ ['0'])).1 = [] ∧
      Apart (some '0') l (l' :: rest)

/-- A literal that makes no exponent with a digit behind it makes none with a number. -/
theorem spanExponent_literal (hne : lead ≠ []) (hexponent : (spanExponent (lead ++ ['0'])).1 = [])
    (hbegin : MayBegin lead.getLast? n) : (spanExponent (lead ++ rest)).1 = [] := by
  obtain ⟨c, lead, rfl⟩ := List.exists_cons_of_ne_nil hne
  by_cases hc : c = 'e' ∨ c = 'E'
  · rw [List.cons_append, spanExponent_eq_nil_iff hc] at hexponent ⊢
    cases lead with
    | nil =>
      -- no number begins behind a letter
      have hname := hbegin.1
      rcases hc with rfl | rfl
      · cases hname
      · cases hname
    | cons d lead =>
      by_cases hd : d = '-' ∨ d = '+'
      · rw [List.cons_append, spanSign_of_sign hd] at hexponent ⊢
        by_cases hnil : lead = []
        · -- the digit behind the sign would make an exponent
          rw [hnil] at hexponent
          cases hexponent
        · rwa [beginsDigit_append hnil] at hexponent ⊢
      · rw [List.cons_append, spanSign_of_not hd] at hexponent ⊢
        exact hexponent
  · have hfirst : ∀ d, d = 'e' ∨ d = 'E' → (c :: (lead ++ rest)).head? ≠ some d := by
      rintro d hd heq
      obtain rfl := Option.some.inj heq
      exact hc hd
    exact spanExponent_of_ne (hfirst _ (.inl rfl)) (hfirst _ (.inr rfl))

/-- Where the literals keep numbers apart, every seam is clear, whatever the numbers. -/
theorem clear_of_apart (h : Fits before lead parts)
    (hapart : Apart before lead (parts.map (·.2))) : Clear before lead parts := by
  induction parts generalizing before lead with
  | nil => exact trivial
  | cons p tail ih =>
    obtain ⟨w, l⟩ := p
    cases tail with
    | nil =>
      obtain ⟨hopen, hexponent⟩ := hapart
      refine ⟨fun hends => ?_, ⟨?_, fun _ p hp => by cases hp⟩, trivial⟩
      · rw [hopen] at hends
        cases hends
      · rwa [body, List.flatMap_nil, List.append_nil]
    | cons q tail =>
      obtain ⟨hopen, hne, hexponent, hrest⟩ := hapart
      have hnext := h.2.2.2
      -- the next number begins behind this literal, which is not empty
      have hbegin := hnext.2.2.1
      rw [Option.or_of_isSome (by simpa using hne)] at hbegin
      refine ⟨fun hends => ?_, ⟨spanExponent_literal hne hexponent hbegin, fun hnil => ?_⟩,
        ih hnext hrest⟩
      · rw [hopen] at hends
        cases hends
      · exact absurd hnil hne

/-! ## Frames of a transition -/

namespace Template

/-- Numbers put in place of the template's own, as they are written, each with the literal behind
    it. -/
def written (s : Template) (xs : List Float) : List (List Char × List Char) :=
  (xs.zip s.parts).map fun p => ((compact p.1).toList, p.2.2)

theorem toList_render (s : Template) (xs : List Float) :
    (s.render xs).toList = s.lead ++ body (s.written xs) := by
  rw [render, String.toList_ofList, body, written, List.flatMap_map]

theorem literals_eq_iff {s u : Template} :
    s.literals = u.literals ↔ s.lead = u.lead ∧ s.parts.map (·.2) = u.parts.map (·.2) :=
  List.cons_eq_cons

theorem length_numbers_of_literals {s u : Template} (h : s.literals = u.literals) :
    s.numbers.length = u.numbers.length := by
  have hlength := congrArg List.length (literals_eq_iff.1 h).2
  rw [List.length_map, List.length_map] at hlength
  rw [numbers, numbers, List.length_map, List.length_map, hlength]

/-- Templates with numbers are compatible if they have the same literals. -/
theorem isCompatible_iff {s u : Template} :
    s.isCompatible u = true ↔ s.numbers ≠ [] ∧ s.literals = u.literals := by
  unfold isCompatible
  simp only [Bool.and_eq_true, Bool.not_eq_true', List.isEmpty_eq_false_iff, beq_iff_eq]
  exact ⟨fun h => ⟨h.1.1, h.2⟩, fun h => ⟨⟨h.1, length_numbers_of_literals h.2⟩, h.2⟩⟩

theorem map_written {s : Template} {xs : List Float} (hlength : xs.length = s.parts.length) :
    (s.written xs).map (·.2) = s.parts.map (·.2) := by
  have hzip : (xs.zip s.parts).map (·.2) = s.parts := List.map_snd_zip hlength.ge
  calc (s.written xs).map (·.2) = ((xs.zip s.parts).map (·.2)).map (·.2) := by
        rw [written, List.map_map, List.map_map]
        rfl
    _ = s.parts.map (·.2) := by rw [hzip]

/-- A text with numbers written between the literals has these literals again if and only if every
    seam is clear. -/
theorem literals_parse_iff {s : Template} {text : String} {xs : List Float}
    (htext : text.toList = s.lead ++ body (s.written xs)) (hlength : xs.length = s.parts.length)
    (hfits : Fits none s.lead (s.written xs)) :
    (parse text).literals = s.literals ↔ Clear none s.lead (s.written xs) := by
  rw [← splits_iff_clear hfits, ← htext, literals_eq_iff, ← map_written hlength]
  have hparse : ∀ {lead' parts'}, Splits none text.toList lead' parts' →
      (parse text).lead = lead' ∧ (parse text).parts.map (·.2) = parts'.map (·.2) := by
    intro lead' parts' hsplits
    rw [parse, hsplits.scan_eq, List.map_map]
    exact ⟨rfl, rfl⟩
  constructor
  · rintro ⟨hlead, hliterals⟩
    obtain ⟨lead', parts', hsplits⟩ := exists_splits none text.toList
    obtain ⟨hlead', hparts'⟩ := hparse hsplits
    obtain rfl := hlead'.symm.trans hlead
    exact ⟨parts', hsplits, hparts'.symm.trans hliterals⟩
  · rintro ⟨parts', hsplits, hliterals⟩
    obtain ⟨hlead', hparts'⟩ := hparse hsplits
    exact ⟨hlead', hparts'.trans hliterals⟩

end Template

namespace Blend

variable {xs ys : List Float} {t : Float}

/-- The numbers of a frame. -/
def numbersAt (start goal : List Float) (t : Float) : List Float :=
  List.zipWith (mixed t) start goal

theorem numbersAt_end (ht : 1 ≤ t) (hlength : xs.length = ys.length) : numbersAt xs ys t = ys := by
  induction xs generalizing ys with
  | nil => exact (List.eq_nil_of_length_eq_zero hlength.symm).symm
  | cons x xs ih =>
    cases ys with
    | nil => cases hlength
    | cons y ys =>
      have hrest : List.zipWith (mixed t) xs ys = ys := ih (Nat.succ.inj hlength)
      rw [numbersAt, List.zipWith_cons_cons, hrest, mixed, if_pos ht]

theorem numbersAt_way (ht : ¬ 1 ≤ t) :
    numbersAt xs ys t = (xs.zip ys).map fun p => p.1 + (p.2 - p.1) * t := by
  have hmixed : mixed t = fun x y => x + (y - x) * t := by
    funext x y
    exact if_neg ht
  rw [numbersAt, hmixed, List.zip, List.map_zipWith]

theorem sample_template {goal : Template} (hlength : xs.length = goal.numbers.length) :
    (template xs goal).sample t = some (goal.render (numbersAt xs goal.numbers t)) := by
  unfold sample
  simp only
  split
  · rename_i hend
    rw [numbersAt_end hend hlength]
  · rename_i hway
    rw [numbersAt_way hway]

theorem written_numbersAt (lead : List Char) (start goal : List (List Char × List Char)) :
    Template.written ⟨lead, goal.map fun p => (value p.1, p.2)⟩
      (numbersAt (start.map fun p => value p.1) (goal.map fun p => value p.1) t)
        = frame t start goal := by
  induction start generalizing goal with
  | nil => rfl
  | cons p start ih =>
    cases goal with
    | nil => rfl
    | cons q goal => exact congrArg (List.cons _) (ih goal)

theorem between_eq_template {a b : String} {start : List Float} {goal : Template}
    (h : between (some a) b = template start goal) :
    start = (Template.parse a).numbers ∧ goal = Template.parse b ∧
      (Template.parse a).isCompatible (Template.parse b) = true := by
  unfold between at h
  simp only at h
  split at h
  · cases h
  · split at h
    · rename_i hcompatible
      cases h
      exact ⟨rfl, rfl, hcompatible⟩
    · cases h

/-- The numbers of a frame fit between the literals. -/
theorem fits_written {a b : String}
    (hliterals : (Template.parse a).literals = (Template.parse b).literals) (ht : 0 ≤ t)
    (ht' : t ≤ 1) :
    Fits none (Template.parse b).lead ((Template.parse b).written
      (numbersAt (Template.parse a).numbers (Template.parse b).numbers t)) := by
  -- the ways through both ends
  obtain ⟨lead, start, hstart⟩ := exists_splits none a.toList
  obtain ⟨lead', goal, hgoal⟩ := exists_splits none b.toList
  have ha : Template.parse a = ⟨lead, start.map fun p => (value p.1, p.2)⟩ := hstart.scan_eq
  have hb : Template.parse b = ⟨lead', goal.map fun p => (value p.1, p.2)⟩ := hgoal.scan_eq
  rw [ha, hb, Template.literals_eq_iff, List.map_map, List.map_map] at hliterals
  obtain ⟨hlead, hparts⟩ := hliterals
  have hlead : lead = lead' := hlead
  subst hlead
  rw [ha, hb, Template.numbers, Template.numbers, List.map_map, List.map_map]
  show Fits none lead (Template.written _ (numbersAt (start.map fun p => value p.1)
    (goal.map fun p => value p.1) t))
  rw [written_numbersAt]
  exact fits_frame hgoal hstart ⟨rfl, rfl⟩ hparts ht ht'

/-- In a frame of two texts that differ only in their numbers, new numbers are written between the
    literals. It has the literals of both, and as many numbers, if and only if every seam is clear
    with the numbers as they are written; and every seam is clear at any time if the literals keep
    the numbers apart. -/
theorem shape_kept_iff {a b : String} {start : List Float} {goal : Template}
    (h : between (some a) b = template start goal) (ht : 0 ≤ t) (ht' : t ≤ 1) :
    ∃ text, (between (some a) b).sample t = some text ∧
      text.toList = goal.lead ++ body (goal.written (numbersAt start goal.numbers t)) ∧
      ((Template.parse text).literals = (Template.parse b).literals ∧
          (Template.parse text).numbers.length = (Template.parse b).numbers.length ↔
        Clear none goal.lead (goal.written (numbersAt start goal.numbers t))) ∧
      ((Template.parse text).isCompatible (Template.parse a) = true ∧
          (Template.parse text).isCompatible (Template.parse b) = true ↔
        Clear none goal.lead (goal.written (numbersAt start goal.numbers t))) ∧
      (Apart none goal.lead (goal.parts.map (·.2)) →
        Clear none goal.lead (goal.written (numbersAt start goal.numbers t))) := by
  obtain ⟨rfl, rfl, hcompatible⟩ := between_eq_template h
  obtain ⟨hnumbers, hliterals⟩ := Template.isCompatible_iff.1 hcompatible
  have hlength := Template.length_numbers_of_literals hliterals
  have hcount : (numbersAt (Template.parse a).numbers (Template.parse b).numbers t).length
      = (Template.parse b).parts.length := by
    rw [numbersAt, List.length_zipWith, hlength, Nat.min_self, Template.numbers, List.length_map]
  have hfits : Fits none _ _ := fits_written hliterals ht ht'
  have hclear := Template.literals_parse_iff (Template.toList_render _ _) hcount hfits
  refine ⟨_, by rw [h]; exact sample_template hlength, Template.toList_render _ _, ?_, ?_,
    fun hapart => ?_⟩
  · rw [← hclear]
    exact ⟨fun hkept => hkept.1, fun hkept => ⟨hkept, Template.length_numbers_of_literals hkept⟩⟩
  · rw [← hclear, Template.isCompatible_iff, Template.isCompatible_iff, hliterals]
    constructor
    · exact fun hkept => hkept.2.2
    · intro hkept
      have hsome : (Template.parse ((Template.parse b).render (numbersAt (Template.parse a).numbers
          (Template.parse b).numbers t))).numbers ≠ [] := by
        rw [← List.length_pos_iff, Template.length_numbers_of_literals hkept, ← hlength]
        exact List.length_pos_iff.2 hnumbers
      exact ⟨⟨hsome, hkept⟩, hsome, hkept⟩
  · apply clear_of_apart hfits
    rwa [Template.map_written hcount]

/-- Half of the way between two translations, whose numbers stand apart. -/
theorem translation_kept :
    (between (some "translate(10, 20)") "translate(30, -20)").sample 0.5 = some "translate(20, 0)" ∧
      (Template.parse "translate(20, 0)").isCompatible (Template.parse "translate(10, 20)") = true ∧
      (Template.parse "translate(20, 0)").isCompatible (Template.parse "translate(30, -20)") =
        true := by
  have h : between (some "translate(10, 20)") "translate(30, -20)"
      = template (Template.parse "translate(10, 20)").numbers
          (Template.parse "translate(30, -20)") := by
    decide +kernel
  have hsample : (between (some "translate(10, 20)") "translate(30, -20)").sample 0.5
      = some "translate(20, 0)" := by
    decide +kernel
  have hlead : (Template.parse "translate(30, -20)").lead = "translate(".toList := by
    decide +kernel
  have hliterals : (Template.parse "translate(30, -20)").parts.map (·.2)
      = [", ".toList, ")".toList] := by
    decide +kernel
  obtain ⟨text, htext, -, -, hcompatible, hclear⟩ :=
    shape_kept_iff h (show (0 : Float) ≤ 0.5 by decide +kernel)
      (show (0.5 : Float) ≤ 1 by decide +kernel)
  rw [hsample] at htext
  cases htext
  have hapart : Apart none (Template.parse "translate(30, -20)").lead
      ((Template.parse "translate(30, -20)").parts.map (·.2)) := by
    rw [hlead, hliterals]
    refine ⟨?_, ?_, ?_, ?_, ?_⟩ <;> decide
  exact ⟨hsample, hcompatible.2 (hclear hapart)⟩

/-- With nothing between two numbers, a number that becomes whole on the way runs into the next
    one: half of the way between two translations by two numbers has only one. -/
theorem adjacent_numbers_merge :
    between (some "translate(.5.5)") "translate(1.5.5)"
        = template (Template.parse "translate(.5.5)").numbers (Template.parse "translate(1.5.5)") ∧
      (Template.parse "translate(1.5.5)").numbers.length = 2 ∧
      (0 : Float) ≤ 0.5 ∧ (0.5 : Float) ≤ 1 ∧
      (between (some "translate(.5.5)") "translate(1.5.5)").sample 0.5 = some "translate(10.5)" ∧
      (Template.parse "translate(10.5)").numbers.length = 1 ∧
      (Template.parse "translate(10.5)").isCompatible (Template.parse "translate(1.5.5)") =
        false := by
  decide +kernel

end Blend

end Slideshow

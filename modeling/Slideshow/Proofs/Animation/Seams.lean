/-
  Slideshow.Proofs.Animation.Seams

  Written numbers between the literals of a template. The text they make is split at the same
  literals again if and only if every seam is clear (`splits_iff_clear`): a literal in front of a
  number must not end in a sign or a point that the number would take in, no exponent may stand
  behind a number, and two numbers with nothing between them need a point each.
-/
import Slideshow.Proofs.Animation.Beginnings

namespace Slideshow

open Numeral Decimal

variable {before : Option Char} {c d : Char} {cs ds n rest lead : List Char}
variable {parts : List (List Char × List Char)}

/-! ## Written numbers between literals -/

/-- How numbers are written: perhaps a minus sign, digits, and perhaps a fraction. -/
def IsWritten (c : List Char) : Prop :=
  ∃ minus whole fraction, c = minus ++ whole ++ fraction ∧ (minus = [] ∨ minus = ['-']) ∧
    IsDigits whole ∧ (fraction = [] ∨ IsFraction fraction)

/-- The numbers, each with the literal behind it. -/
def body (parts : List (List Char × List Char)) : List Char := parts.flatMap fun p => p.1 ++ p.2

/-- How many characters the literals have. -/
def weight (lead : List Char) (parts : List (List Char × List Char)) : Nat :=
  lead.length + (parts.flatMap (·.2)).length

/-- Literals of a template with other numbers put in: no number begins inside a literal alone, and
    each number may begin where it stands. Only the character before the first literal counts;
    the other literals stand behind a digit. -/
def Fits : Option Char → List Char → List (List Char × List Char) → Prop
  | before, lead, [] => Still before lead
  | before, lead, (c, l) :: parts =>
    Still before lead ∧ IsWritten c ∧ MayBegin (lead.getLast?.or before) c ∧
      Fits (some '0') l parts

/-- What is needed behind a number: no exponent, and with nothing between it and the next number a
    point in both. -/
structure Seam (c l : List Char) (parts : List (List Char × List Char)) : Prop where
  exponent : (spanExponent (l ++ body parts)).1 = []
  points : l = [] → ∀ p ∈ parts.head?, '.' ∈ c ∧ '.' ∈ p.1

/-- What is needed for the literals to be found again: a literal that ends open has a number with a
    minus sign behind it, and every seam is as it has to be. -/
def Clear : Option Char → List Char → List (List Char × List Char) → Prop
  | _, _, [] => True
  | before, lead, (c, l) :: parts =>
    (endsOpen before lead = true → c.head? = some '-') ∧ Seam c l parts ∧ Clear (some '0') l parts

@[simp] theorem body_cons {p : List Char × List Char} :
    body (p :: parts) = p.1 ++ p.2 ++ body parts :=
  rfl

@[simp] theorem weight_cons {l : List Char} :
    weight lead ((n, l) :: parts) = lead.length + weight l parts := by
  simp only [weight, List.flatMap_cons, List.length_append]

theorem IsWritten.isStem (h : IsWritten n) : IsStem n := by
  obtain ⟨minus, whole, fraction, rfl, hminus, hwhole, hfraction⟩ := h
  refine ⟨minus, whole ++ fraction, List.append_assoc _ _ _, ?_, whole, fraction, rfl,
    .inl ⟨hwhole, hfraction⟩⟩
  rcases hminus with rfl | rfl
  · exact .inl rfl
  · exact .inr (.inl rfl)

theorem IsWritten.ne_nil (h : IsWritten n) : n ≠ [] := by
  obtain ⟨minus, whole, fraction, rfl, -, hwhole, -⟩ := h
  simp [hwhole.1]

/-- A written number begins with a digit, unless it begins with a minus sign. -/
theorem IsWritten.digit_of_head (h : IsWritten n) (hminus : n.head? ≠ some '-') :
    beginsDigit n = true := by
  obtain ⟨minus, whole, fraction, rfl, rfl | rfl, hwhole, -⟩ := h
  · obtain ⟨d, ds, rfl⟩ := List.exists_cons_of_ne_nil hwhole.1
    exact hwhole.2 d List.mem_cons_self
  · exact absurd rfl hminus

theorem IsWritten.head_ne (h : IsWritten n) : n.head? ≠ some '.' := by
  intro hpoint
  have hdigit := h.digit_of_head (by rw [hpoint]; decide)
  obtain ⟨ds, rfl⟩ := List.head?_eq_some_iff.1 hpoint
  cases hdigit

/-- Directly behind a digit, a number is written without sign. -/
theorem IsWritten.unsigned (h : IsWritten n) (hbegin : MayBegin (some '0') n) :
    ∃ whole fraction, n = whole ++ fraction ∧ IsDigits whole ∧
      (fraction = [] ∨ IsFraction fraction) := by
  obtain ⟨minus, whole, fraction, rfl, rfl | rfl, hwhole, hfraction⟩ := h
  · exact ⟨whole, fraction, rfl, hwhole, hfraction⟩
  · exact absurd (hbegin.2 (.inl rfl)) (by decide)

theorem point_mem_fraction (h : IsFraction n) : '.' ∈ n := by
  obtain ⟨ds, -, rfl⟩ := h
  exact List.mem_cons_self

theorem point_not_mem_digits (h : IsDigits ds) : '.' ∉ ds :=
  fun hmem => absurd (h.2 '.' hmem) (by decide)

theorem body_head_ne (h : ∀ p ∈ parts.head?, IsWritten p.1) : (body parts).head? ≠ some '.' := by
  cases parts with
  | nil => decide
  | cons p parts =>
    have hp := h p rfl
    obtain ⟨c, n, hn⟩ := List.exists_cons_of_ne_nil hp.ne_nil
    have hhead := hp.head_ne
    rw [body_cons, hn]
    rwa [hn] at hhead

theorem MayBegin.congr {before' : Option Char} (halike : Alike before before')
    (h : MayBegin before n) : MayBegin before' n :=
  ⟨halike.1 ▸ h.1, fun hsign => halike.2 ▸ h.2 hsign⟩

namespace Fits

theorem still (h : Fits before lead parts) : Still before lead := by
  cases parts with
  | nil => exact h
  | cons p parts => exact h.1

theorem written (h : Fits before lead parts) : ∀ p ∈ parts.head?, IsWritten p.1 := by
  intro p hp
  cases parts with
  | nil => cases hp
  | cons q parts =>
    obtain rfl := Option.some.inj hp
    exact h.2.1

theorem congr {before' : Option Char} (halike : Alike before before')
    (h : Fits before lead parts) : Fits before' lead parts := by
  cases parts with
  | nil => exact Splits.congr halike h
  | cons p parts =>
    refine ⟨Splits.congr halike h.1, h.2.1, ?_, h.2.2.2⟩
    have hbegin := h.2.2.1
    cases hlast : lead.getLast? with
    | none =>
      rw [hlast] at hbegin
      exact hbegin.congr halike
    | some c =>
      rw [hlast] at hbegin
      exact hbegin

theorem tail (h : Fits before (c :: cs) parts) : Fits (some c) cs parts := by
  cases parts with
  | nil => exact Still.tail h
  | cons p parts =>
    refine ⟨Still.tail h.1, h.2.1, ?_, h.2.2.2⟩
    have hbegin := h.2.2.1
    rw [List.getLast?_cons] at hbegin
    cases hlast : cs.getLast? with
    | none =>
      rw [hlast] at hbegin
      exact hbegin
    | some d =>
      rw [hlast] at hbegin
      exact hbegin

theorem drop (h : Fits before (n ++ lead) parts) : Fits (n.getLast?.or before) lead parts := by
  induction n generalizing before with
  | nil => exact h
  | cons c n ih =>
    have hrest := ih (tail h)
    rw [List.getLast?_cons]
    cases hlast : n.getLast? with
    | none =>
      rw [hlast] at hrest
      exact hrest
    | some d =>
      rw [hlast] at hrest
      exact hrest

end Fits

/-! ## Places in a text of written numbers -/

/-- Places in the text where a number may end, with the number of characters of literals that are
    still ahead: inside of a literal or at its edges, and in front of the fraction of a number. -/
inductive At : Option Char → List Char → Nat → Prop
  | literal {before : Option Char} {lead : List Char} {parts : List (List Char × List Char)}
      (h : Fits before lead parts) : At before (lead ++ body parts) (weight lead parts)
  | fraction {before : Option Char} {f lead : List Char} {parts : List (List Char × List Char)}
      (hbefore : before.any Char.isDigit = true) (hf : IsFraction f)
      (h : Fits (some '0') lead parts) : At before (f ++ (lead ++ body parts)) (weight lead parts)

theorem At.inside (h : Fits before (n ++ lead) parts) (hne : n ≠ []) :
    At n.getLast? (lead ++ body parts) (weight lead parts) ∧
      weight lead parts < weight (n ++ lead) parts := by
  constructor
  · have hdrop := h.drop
    rw [Option.or_of_isSome (by simpa using hne)] at hdrop
    exact .literal hdrop
  · have hpos := List.length_pos_iff.2 hne
    simp only [weight, List.length_append]
    omega

theorem beginsDigit_of_suffix {m : List Char} (hds : ∀ c ∈ n ++ m, c.isDigit = true)
    (hne : m ≠ []) : beginsDigit (m ++ cs) = true := by
  obtain ⟨d, m, rfl⟩ := List.exists_cons_of_ne_nil hne
  exact hds d (List.mem_append_right _ List.mem_cons_self)

/-- Where a number may end inside of a written number: in front of the fraction. -/
theorem IsWritten.isFraction_of_append {m : List Char} (h : IsWritten (n ++ m))
    (hends : EndsDigit n) (hne : m ≠ []) (hm : beginsDigit m = false) : IsFraction m := by
  obtain ⟨minus, whole, fraction, heq, hminus, hwhole, hfraction⟩ := h
  have hn : n ≠ [] := by
    rintro rfl
    cases hends
  rcases List.append_eq_append_iff.1 heq with ⟨a, hfront, rfl⟩ | ⟨a, rfl, hback⟩
  · -- not inside of the digits
    by_cases ha : a = []
    · subst ha
      rw [List.nil_append] at hne ⊢
      exact hfraction.resolve_left hne
    · exfalso
      have hsuffix : ∃ front, whole = front ++ a := by
        rcases hminus with rfl | rfl
        · exact ⟨n, hfront⟩
        · obtain ⟨d, n, rfl⟩ := List.exists_cons_of_ne_nil hn
          exact ⟨n, (List.cons.inj hfront).2⟩
      obtain ⟨front, rfl⟩ := hsuffix
      rw [beginsDigit_of_suffix hwhole.2 ha] at hm
      cases hm
  · by_cases ha : a = []
    · subst ha
      rw [List.nil_append] at hback
      subst hback
      exact hfraction.resolve_left hne
    · -- not inside of the fraction
      exfalso
      rcases hfraction with rfl | ⟨ds, hds, rfl⟩
      · exact hne (List.append_eq_nil_iff.1 hback.symm).2
      · obtain ⟨d, a, rfl⟩ := List.exists_cons_of_ne_nil ha
        obtain ⟨rfl, rfl⟩ := List.cons.inj hback
        have hdigit := @beginsDigit_of_suffix [] a m hds.2 hne
        rw [List.append_nil, hm] at hdigit
        cases hdigit

/-- A number that ends behind the front of a written number ends in front of its fraction, or
    behind it at the front of the next literal, or later. -/
theorem At.landing_written {l : List Char} (h : Fits (some '0') l parts) (hc : IsWritten cs)
    (hends : EndsDigit n) (hrest : beginsDigit rest = false)
    (hlater : ∀ m, EndsDigit m → m ++ rest = l ++ body parts →
      ∃ w, At m.getLast? rest w ∧ w ≤ weight l parts)
    (happ : n ++ rest = cs ++ (l ++ body parts)) :
    ∃ w, At n.getLast? rest w ∧ w ≤ weight l parts := by
  have hhere : At n.getLast? (l ++ body parts) (weight l parts) :=
    .literal (h.congr (alike_symm (alike_zero hends)))
  rcases List.append_eq_append_iff.1 happ with ⟨a, rfl, rfl⟩ | ⟨a, rfl, hbehind⟩
  · by_cases ha : a = []
    · subst ha
      exact ⟨_, hhere, Nat.le_refl _⟩
    · refine ⟨_, .fraction hends (hc.isFraction_of_append hends ha ?_) h, Nat.le_refl _⟩
      rwa [beginsDigit_append ha] at hrest
  · by_cases ha : a = []
    · subst ha
      rw [List.nil_append] at hbehind
      subst hbehind
      exact ⟨_, hhere, Nat.le_refl _⟩
    · rw [getLast?_append_of_ne ha]
      refine hlater a ?_ hbehind.symm
      rwa [EndsDigit, getLast?_append_of_ne ha] at hends

/-- A number that begins in front of a literal or inside of it takes in what it goes over: it ends
    at another place, and behind a literal that is not empty fewer characters of literals are
    ahead. -/
theorem At.landing (h : Fits before lead parts) (hends : EndsDigit n)
    (hrest : beginsDigit rest = false) (happ : n ++ rest = lead ++ body parts) :
    ∃ w, At n.getLast? rest w ∧ w ≤ weight lead parts ∧ (lead ≠ [] → w < weight lead parts) := by
  have hne : ∀ {m}, EndsDigit m → m ≠ [] := by
    rintro m hm rfl
    cases hm
  induction parts generalizing before lead n with
  | nil =>
    rw [body, List.flatMap_nil, List.append_nil] at happ
    subst happ
    obtain ⟨hat, hlt⟩ := At.inside h (hne hends)
    rw [body, List.flatMap_nil, List.append_nil] at hat
    exact ⟨_, hat, hlt.le, fun _ => hlt⟩
  | cons p parts ih =>
    obtain ⟨c, l⟩ := p
    rcases List.append_eq_append_iff.1 happ with ⟨a, rfl, rfl⟩ | ⟨a, rfl, hbehind⟩
    · -- it ends inside of the literal, or right behind it
      obtain ⟨hat, hlt⟩ := At.inside h (hne hends)
      exact ⟨_, hat, hlt.le, fun _ => hlt⟩
    · by_cases ha : a = []
      · subst ha
        rw [List.append_nil] at hends ⊢
        rw [List.nil_append] at hbehind
        subst hbehind
        obtain ⟨hat, hlt⟩ := At.inside (by rwa [List.append_nil]) (hne hends)
        rw [List.append_nil] at hlt
        exact ⟨_, hat, hlt.le, fun _ => hlt⟩
      · -- it goes on into the written number
        have hends' : EndsDigit a := by
          rwa [EndsDigit, getLast?_append_of_ne ha] at hends
        rw [body_cons, List.append_assoc] at hbehind
        obtain ⟨w, hat, hle⟩ := At.landing_written h.2.2.2 h.2.1 hends' hrest
          (fun m hm heq => by
            obtain ⟨w, hat, hle, -⟩ := ih h.2.2.2 hm heq
            exact ⟨w, hat, hle⟩) hbehind.symm
        rw [getLast?_append_of_ne ha, weight_cons]
        refine ⟨w, hat, by omega, fun hlead => ?_⟩
        have := List.length_pos_iff.2 hlead
        omega

theorem isWritten_zero (h : IsFraction n) : IsWritten ('0' :: n) :=
  ⟨[], ['0'], n, rfl, .inl rfl, ⟨by simp, by simp⟩, .inr h⟩

/-- From a place, a number leads to another place, with no more of the literals ahead. -/
theorem At.number {w : Nat} (h : At before cs w) (hends : EndsDigit n)
    (hrest : beginsDigit rest = false) (happ : n ++ rest = cs) :
    ∃ w', At n.getLast? rest w' ∧ w' ≤ w := by
  cases h with
  | literal h =>
    obtain ⟨w', hat, hle, -⟩ := At.landing h hends hrest happ
    exact ⟨w', hat, hle⟩
  | @fraction f lead parts hbefore hf h =>
    -- a fraction is the end of a written number
    have hne : n ≠ [] := by
      rintro rfl
      cases hends
    have hzero : ['0'] ++ n ++ rest = '0' :: f ++ (lead ++ body parts) := by
      rw [List.append_assoc, happ]
      rfl
    obtain ⟨w', hat, hle⟩ :=
      At.landing_written h (isWritten_zero hf) (@endsDigit_append ['0'] n hends)
      hrest (fun m hm heq => by
        obtain ⟨w, hat, hle, -⟩ := At.landing h hm hrest heq
        exact ⟨w, hat, hle⟩) hzero
    rw [getLast?_append_of_ne hne] at hat
    exact ⟨w', hat, hle⟩

/-- From a place, a character that belongs to a literal leads to another place, with one character
    less ahead. -/
theorem At.skip {w : Nat} (h : At before (c :: cs) w)
    (hnone : spanNumber? before (c :: cs) = none) :
    ∃ w', At (some c) cs w' ∧ w' + 1 = w := by
  rw [spanNumber?_eq_none_iff] at hnone
  generalize htext : c :: cs = text at h hnone
  cases h with
  | @literal lead parts h =>
    cases lead with
    | cons x lead =>
      obtain ⟨rfl, rfl⟩ := List.cons.inj htext
      refine ⟨_, .literal h.tail, ?_⟩
      simp only [weight, List.length_cons]
      omega
    | nil =>
      cases parts with
      | nil => cases htext
      | cons p parts =>
        -- a written number begins here
        have hbegins : MayBegin before p.1 := h.2.2.1
        rw [List.nil_append, body_cons, List.append_assoc, begins_stem h.2.1.isStem hbegins]
          at hnone
        cases hnone
  | fraction hbefore hf h =>
    rw [begins_stem (isStem_fraction hf) (mayBegin_fraction hbefore hf)] at hnone
    cases hnone

/-- No more characters belong to literals than did before. -/
theorem At.bound {w : Nat} (h : At before cs w) (hsplits : Splits before cs lead parts) :
    weight lead parts ≤ w := by
  induction hsplits generalizing w with
  | nil => exact Nat.zero_le w
  | @skip before c cs lead parts hnone hrest ih =>
    obtain ⟨w', hat, rfl⟩ := h.skip hnone
    have hle := ih hat
    simp only [weight, List.length_cons] at hle ⊢
    omega
  | number hnumber hrest ih =>
    obtain ⟨hends, hbehind⟩ := ends_of_spanNumber? hnumber
    obtain ⟨w', hat, hle⟩ := h.number hends hbehind (spanNumber?_append hnumber).1
    have hle' := ih hat
    rw [weight_cons, List.length_nil]
    omega

/-! ## A text that is split as before -/

/-- If as many characters belong to literals as before, there are no more numbers than before, and
    as many only if the seams are clear: said of the text behind a place where a number begins. -/
def Counts (n l : List Char) (parts : List (List Char × List Char)) : Prop :=
  ∀ before lead' parts', MayBegin before n → Splits before (n ++ (l ++ body parts)) lead' parts' →
    weight l parts ≤ weight lead' parts' →
      parts'.length ≤ parts.length + 1 ∧
        (parts'.length = parts.length + 1 → Seam n l parts ∧ Clear (some '0') l parts)

theorem endsOpen_last {w : List Char} (hw : IsWritten w)
    (hnone : spanNumber? before (c :: (w ++ rest)) = none) (hopen : endsOpen before [c] = true) :
    w.head? = some '-' := by
  by_contra hminus
  have hdigit := hw.digit_of_head hminus
  rw [spanNumber?_eq_none_iff, begins_of_endsOpen hopen] at hnone
  · cases hnone
  · rwa [beginsDigit_append hw.ne_nil]

/-- A character that belongs to a literal leaves the seams clear. -/
theorem Clear.skip (hclear : Clear (some c) lead parts) (h : Fits before (c :: lead) parts)
    (hnone : spanNumber? before (c :: (lead ++ body parts)) = none) :
    Clear before (c :: lead) parts := by
  cases parts with
  | nil => trivial
  | cons p tail =>
    refine ⟨fun hopen => ?_, hclear.2⟩
    by_cases hlead : lead = []
    · subst hlead
      rw [List.nil_append, body_cons, List.append_assoc] at hnone
      exact endsOpen_last h.2.1 hnone hopen
    · exact hclear.1 (by rwa [endsOpen_cons hlead] at hopen)

/-- The same, said of the text behind a place inside of a literal. -/
theorem counts_literal (hnext : ∀ p tail, parts = p :: tail → Counts p.1 p.2 tail)
    {lead' : List Char} {parts' : List (List Char × List Char)} (h : Fits before lead parts)
    (hsplits : Splits before (lead ++ body parts) lead' parts')
    (hweight : weight lead parts ≤ weight lead' parts') :
    parts'.length ≤ parts.length ∧ (parts'.length = parts.length → Clear before lead parts) := by
  induction lead generalizing before lead' with
  | nil =>
    cases parts with
    | nil =>
      cases hsplits with
      | nil => exact ⟨Nat.le_refl 0, fun _ => trivial⟩
      | number hnumber _ => cases hnumber
    | cons p tail =>
      have hbegins : MayBegin before p.1 := h.2.2.1
      rw [List.nil_append, body_cons, List.append_assoc] at hsplits
      rw [weight_cons, List.length_nil, Nat.zero_add] at hweight
      obtain ⟨hle, hclear⟩ := hnext p tail rfl _ _ _ hbegins hsplits hweight
      refine ⟨hle, fun heq => ?_⟩
      have hclosed : endsOpen before [] = false := rfl
      exact ⟨fun hopen => absurd (hclosed.symm.trans hopen) Bool.false_ne_true, hclear heq⟩
  | cons c lead ih =>
    generalize htext : c :: lead ++ body parts = text at hsplits
    cases hsplits with
    | nil => cases htext
    | @skip _ _ cs lead' _ hnone hrest =>
      obtain ⟨rfl, rfl⟩ := List.cons.inj htext
      have hweight' : weight lead parts ≤ weight lead' parts' := by
        simp only [weight, List.length_cons] at hweight ⊢
        omega
      obtain ⟨hle, hclear⟩ := ih h.tail hrest hweight'
      exact ⟨hle, fun heq => (hclear heq).skip h hnone⟩
    | @number _ _ n rest lead' tail' hnumber hrest =>
      -- a number in the literal takes a character that no literal has any more
      exfalso
      obtain ⟨hends, hbehind⟩ := ends_of_spanNumber? hnumber
      obtain ⟨w, hat, -, hlt⟩ := At.landing h hends hbehind
        ((spanNumber?_append hnumber).1.trans htext.symm)
      have hle := hat.bound hrest
      have hlt := hlt (List.cons_ne_nil c lead)
      rw [weight_cons, List.length_nil] at hweight
      omega

theorem beginsDigit_literal (h : Fits (some '0') (c :: cs) parts) :
    beginsDigit (c :: cs ++ body parts) = false :=
  h.still.not_digit

/-- With a literal behind the number that is not empty, the number is found as it is written. -/
theorem counts_through (hn : IsStem n) (hne : lead ≠ []) (h : Fits (some '0') lead parts)
    (hnext : ∀ p tail, parts = p :: tail → Counts p.1 p.2 tail) : Counts n lead parts := by
  intro before lead' parts' hbefore hsplits hweight
  obtain ⟨c, cs, rfl⟩ := List.exists_cons_of_ne_nil hne
  obtain ⟨n', rest, l, tail, rfl, rfl, hnumber, hrest⟩ :=
    hsplits.exists_number (begins_stem hn hbefore)
  obtain ⟨m, rest', hfound, hexponent, -⟩ :=
    exists_spanNumber? hn hbefore (beginsDigit_literal h)
  rw [hnumber] at hfound
  obtain ⟨rfl, rfl⟩ := Prod.mk.inj (Option.some.inj hfound)
  obtain ⟨hends, hbehind⟩ := ends_of_spanNumber? hnumber
  have happ : m ++ rest = c :: cs ++ body parts := by
    have happ := (spanNumber?_append hnumber).1
    rwa [List.append_assoc, List.append_cancel_left_eq] at happ
  rw [weight_cons, List.length_nil, Nat.zero_add] at hweight
  by_cases hm : m = []
  · subst hm
    rw [List.nil_append] at happ
    subst happ
    obtain ⟨hle, hclear⟩ := counts_literal hnext h (hrest.congr (alike_zero hends)) hweight
    refine ⟨Nat.succ_le_succ hle, fun heq => ⟨⟨hexponent rfl, fun hnil => ?_⟩, ?_⟩⟩
    · cases hnil
    · exact hclear (Nat.succ.inj heq)
  · -- a longer number takes a character that no literal has any more
    exfalso
    rw [EndsDigit, getLast?_append_of_ne hm] at hends
    rw [getLast?_append_of_ne hm] at hrest
    obtain ⟨w, hat, -, hlt⟩ := At.landing h hends hbehind happ
    have hle := hat.bound hrest
    have hlt := hlt (List.cons_ne_nil c cs)
    omega

/-- With no literal between them and a point in both, the number takes the whole digits of the next
    one, whose fraction is found as a number. -/
theorem counts_points {l whole fraction : List Char} (hn : IsStem n) (hpoint : '.' ∈ n)
    (hwhole : IsDigits whole) (hfraction : IsFraction fraction)
    (hnext : Counts fraction l parts) : Counts n [] ((whole ++ fraction, l) :: parts) := by
  intro before lead' parts' hbefore hsplits hweight
  obtain ⟨n', rest, l', tail, rfl, rfl, hnumber, hrest⟩ :=
    hsplits.exists_number (begins_stem hn hbefore)
  have hfound := @spanNumber?_point before (l ++ body parts) n whole fraction hn hpoint hbefore
    hwhole.2 hfraction
  rw [List.nil_append, body_cons, List.append_assoc (whole ++ fraction), hfound] at hnumber
  obtain ⟨rfl, rfl⟩ := Prod.mk.inj (Option.some.inj hnumber)
  have hends : EndsDigit (n ++ whole) := endsDigit_append (endsDigit_of_isDigits hwhole)
  rw [weight_cons, weight_cons, List.length_nil, Nat.zero_add, Nat.zero_add] at hweight
  obtain ⟨hle, hclear⟩ := hnext _ _ _ (mayBegin_fraction hends hfraction) hrest hweight
  refine ⟨Nat.succ_le_succ hle, fun heq => ?_⟩
  obtain ⟨hseam, hclear⟩ := hclear (Nat.succ.inj heq)
  have hmem : '.' ∈ whole ++ fraction := by
    obtain ⟨ds, -, rfl⟩ := hfraction
    simp
  refine ⟨⟨?_, fun _ p hp => ?_⟩, fun hopen => ?_, ⟨hseam.exponent, fun hnil p hp => ?_⟩, hclear⟩
  · rw [List.nil_append, body_cons, List.append_assoc, List.append_assoc]
    exact spanExponent_digits hwhole
  · obtain rfl := Option.some.inj hp
    exact ⟨hpoint, hmem⟩
  · cases hopen
  · exact ⟨hmem, (hseam.points hnil p hp).2⟩

/-- At the end of the text the number is the last one. -/
theorem counts_last (hn : IsStem n) : Counts n [] [] := by
  intro before lead' parts' hbefore hsplits hweight
  obtain ⟨n', rest, l, tail, rfl, rfl, hnumber, hrest⟩ :=
    hsplits.exists_number (begins_stem hn hbefore)
  obtain ⟨m, rest', hfound, -, -⟩ :=
    exists_spanNumber? hn hbefore (show beginsDigit ([] ++ body []) = false from rfl)
  rw [hnumber] at hfound
  obtain ⟨rfl, rfl⟩ := Prod.mk.inj (Option.some.inj hfound)
  have happ := (spanNumber?_append hnumber).1
  rw [List.append_assoc, List.append_cancel_left_eq] at happ
  obtain ⟨-, rfl⟩ := List.append_eq_nil_iff.1 happ
  cases hrest with
  | nil => exact ⟨Nat.le_refl 1, fun _ => ⟨⟨rfl, fun _ p hp => by cases hp⟩, trivial⟩⟩
  | number hnumber _ => cases hnumber

/-- Without a point in both, the number and the one behind it are a single one. -/
theorem isStem_merged {whole fraction : List Char} (hn : IsStem n) (hwhole : IsDigits whole)
    (hfraction : fraction = [] ∨ IsFraction fraction)
    (hpoints : ¬ ('.' ∈ n ∧ IsFraction fraction)) : IsStem (n ++ (whole ++ fraction)) := by
  rcases hfraction with rfl | hfraction
  · rw [List.append_nil]
    exact hn.append_digits hwhole.2
  · have hno : '.' ∉ n ++ whole := by
      intro hmem
      rcases List.mem_append.1 hmem with hmem | hmem
      · exact hpoints ⟨hmem, hfraction⟩
      · exact point_not_mem_digits hwhole hmem
    rw [← List.append_assoc]
    exact (hn.append_digits hwhole.2).append_fraction hno hfraction

/-- Where two numbers are a single one there are fewer of them. -/
theorem counts_merged {l w : List Char} (hn : n ≠ []) (hmerged : Counts (n ++ w) l parts) :
    Counts n [] ((w, l) :: parts) := by
  intro before lead' parts' hbefore hsplits hweight
  have htext : n ++ ([] ++ body ((w, l) :: parts)) = n ++ w ++ (l ++ body parts) := by
    simp only [body_cons, List.nil_append, List.append_assoc]
  rw [htext] at hsplits
  rw [weight_cons, List.length_nil, Nat.zero_add] at hweight
  have hfewer := hmerged _ _ _ (hbefore.append hn) hsplits hweight
  simp only [List.length_cons]
  exact ⟨by omega, fun heq => by omega⟩

/-- Behind every number, by induction on how many numbers follow: a literal between is passed, and
    with nothing between the two are a single number, unless both have a point. -/
theorem counts (hn : IsStem n) (h : Fits (some '0') lead parts) : Counts n lead parts := by
  induction parts generalizing n lead with
  | nil =>
    by_cases hne : lead = []
    · subst hne
      exact counts_last hn
    · exact counts_through hn hne h fun p tail heq => by cases heq
  | cons p tail ih =>
    obtain ⟨w, l⟩ := p
    have hw : IsWritten w := h.2.1
    by_cases hne : lead = []
    · -- nothing stands between the number and the next one, which has no sign there
      subst hne
      obtain ⟨whole, fraction, rfl, hwhole, hfraction⟩ := hw.unsigned h.2.2.1
      by_cases hpoints : '.' ∈ n ∧ IsFraction fraction
      · exact counts_points hn hpoints.1 hwhole hpoints.2
          (ih (isStem_fraction hpoints.2) h.2.2.2)
      · apply counts_merged hn.ne_nil
        exact ih (isStem_merged hn hwhole hfraction hpoints) h.2.2.2
    · refine counts_through hn hne h fun q tail' heq => ?_
      obtain ⟨rfl, rfl⟩ := List.cons.inj heq
      exact ih hw.isStem h.2.2.2

/-- A literal is passed when what is behind it does not make a number of its end. -/
theorem Splits.literal (h : Still before lead) (hrest : rest.head? ≠ some '.')
    (hopen : endsOpen before lead = true → beginsDigit rest = false)
    (hsplits : Splits (lead.getLast?.or before) rest [] parts) :
    Splits before (lead ++ rest) lead parts := by
  induction lead generalizing before with
  | nil => exact hsplits
  | cons c lead ih =>
    have hbegins : begins before (c :: lead) = false := by
      cases h with
      | skip hnone _ => rwa [spanNumber?_eq_none_iff] at hnone
    refine .skip (spanNumber?_eq_none_iff.2 (begins_append hbegins hrest hopen)) (ih h.tail ?_ ?_)
    · intro hopen'
      by_cases hnil : lead = []
      · subst hnil
        cases hopen'
      · exact hopen (by rwa [endsOpen_cons hnil])
    · rw [List.getLast?_cons] at hsplits
      cases hlast : lead.getLast? with
      | none =>
        rw [hlast] at hsplits
        exact hsplits
      | some d =>
        rw [hlast] at hsplits
        exact hsplits

/-- The literals are found again behind a place where a number begins. -/
def Found (n l : List Char) (parts : List (List Char × List Char)) : Prop :=
  ∀ before, MayBegin before n → ∃ m parts',
    Splits before (n ++ (l ++ body parts)) [] ((m, l) :: parts') ∧
      parts'.map (·.2) = parts.map (·.2)

theorem found_literal (hnext : ∀ p tail, parts = p :: tail → Clear (some '0') p.2 tail →
      Seam p.1 p.2 tail → Found p.1 p.2 tail)
    (h : Fits before lead parts) (hclear : Clear before lead parts) :
    ∃ parts', Splits before (lead ++ body parts) lead parts' ∧
      parts'.map (·.2) = parts.map (·.2) := by
  have hhead := body_head_ne h.written
  cases parts with
  | nil => exact ⟨[], .literal h.still hhead (fun _ => rfl) .nil, rfl⟩
  | cons p tail =>
    obtain ⟨m, parts', hsplits, hliterals⟩ :=
      hnext p tail rfl hclear.2.2 hclear.2.1 _ h.2.2.1
    refine ⟨(m, p.2) :: parts', .literal h.still hhead (fun hopen => ?_) ?_, ?_⟩
    · have hminus := hclear.1 hopen
      obtain ⟨w, hw⟩ := List.head?_eq_some_iff.1 hminus
      rw [body_cons, hw]
      rfl
    · rwa [body_cons, List.append_assoc]
    · simp only [List.map_cons, hliterals]

theorem spanFraction_literal (hne : lead ≠ []) (h : Fits (some '0') lead parts)
    (hclear : Clear (some '0') lead parts) : (spanFraction (lead ++ body parts)).1 = [] := by
  obtain ⟨c, cs, rfl⟩ := List.exists_cons_of_ne_nil hne
  by_cases hpoint : c = '.'
  · subst hpoint
    have hstill : begins (some '0') ('.' :: cs) = false := by
      cases h.still with
      | skip hnone _ => rwa [spanNumber?_eq_none_iff] at hnone
    have hbegins := begins_append hstill (body_head_ne h.written) (fun hopen => by
      cases parts with
      | nil => rfl
      | cons p tail =>
        obtain ⟨w, hw⟩ := List.head?_eq_some_iff.1 (hclear.1 hopen)
        rw [body_cons, hw]
        rfl)
    have hdigit : beginsDigit (cs ++ body parts) = false := hbegins
    have hempty := isEmpty_spanFraction (cs ++ body parts)
    rw [hdigit] at hempty
    exact List.isEmpty_iff.1 hempty
  · have hhead : (c :: cs ++ body parts).head? ≠ some '.' := fun heq => hpoint (Option.some.inj heq)
    rw [spanFraction_of_ne hhead]

/-- With a literal behind the number that is not empty, the number is found as it is written. -/
theorem found_through (hn : IsStem n) (hne : lead ≠ []) (h : Fits (some '0') lead parts)
    (hseam : Seam n lead parts) (hclear : Clear (some '0') lead parts)
    (hnext : ∀ p tail, parts = p :: tail → Clear (some '0') p.2 tail →
      Seam p.1 p.2 tail → Found p.1 p.2 tail) : Found n lead parts := by
  intro before hbefore
  have hdigit : beginsDigit (lead ++ body parts) = false := by
    obtain ⟨c, cs, rfl⟩ := List.exists_cons_of_ne_nil hne
    exact beginsDigit_literal h
  obtain ⟨m, rest, hfound, -, hm⟩ := exists_spanNumber? hn hbefore hdigit
  obtain rfl := hm hseam.exponent (.inr (spanFraction_literal hne h hclear))
  obtain ⟨hends, -⟩ := ends_of_spanNumber? hfound
  have happ := (spanNumber?_append hfound).1
  rw [List.append_nil] at hfound hends happ
  rw [List.append_cancel_left_eq] at happ
  subst happ
  obtain ⟨parts', hsplits, hliterals⟩ := found_literal hnext h hclear
  exact ⟨n, parts', .number hfound (hsplits.congr (alike_symm (alike_zero hends))), hliterals⟩

theorem found_last (hn : IsStem n) : Found n [] [] := by
  intro before hbefore
  obtain ⟨m, rest, hfound, -, hm⟩ :=
    exists_spanNumber? hn hbefore (show beginsDigit ([] ++ body []) = false from rfl)
  obtain rfl := hm rfl (.inr rfl)
  have happ := (spanNumber?_append hfound).1
  rw [List.append_nil] at hfound happ
  rw [List.append_cancel_left_eq] at happ
  subst happ
  exact ⟨n, [], .number hfound .nil, rfl⟩

/-- With no literal between them and a point in both, the number ends in front of the next point,
    where the fraction is found. -/
theorem found_points {l whole fraction : List Char} (hn : IsStem n) (hpoint : '.' ∈ n)
    (hwhole : IsDigits whole) (hfraction : IsFraction fraction) (hnext : Found fraction l parts) :
    Found n [] ((whole ++ fraction, l) :: parts) := by
  intro before hbefore
  have hends : EndsDigit (n ++ whole) := endsDigit_append (endsDigit_of_isDigits hwhole)
  obtain ⟨m, parts', hsplits, hliterals⟩ := hnext _ (mayBegin_fraction hends hfraction)
  have hnumber := @spanNumber?_point before (l ++ body parts) n whole fraction hn hpoint hbefore
    hwhole.2 hfraction
  refine ⟨n ++ whole, (m, l) :: parts', ?_, by simp only [List.map_cons, hliterals]⟩
  rw [List.nil_append, body_cons, List.append_assoc (whole ++ fraction)]
  exact .number hnumber hsplits

/-- Where the seams are clear the literals are found again, by the same induction. -/
theorem found (hn : IsStem n) (h : Fits (some '0') lead parts) (hseam : Seam n lead parts)
    (hclear : Clear (some '0') lead parts) : Found n lead parts := by
  induction parts generalizing n lead with
  | nil =>
    by_cases hne : lead = []
    · subst hne
      exact found_last hn
    · exact found_through hn hne h hseam hclear fun p tail heq => by cases heq
  | cons p tail ih =>
    obtain ⟨w, l⟩ := p
    have hw : IsWritten w := h.2.1
    by_cases hne : lead = []
    · subst hne
      obtain ⟨hpoint, hpoint'⟩ := hseam.points rfl _ rfl
      obtain ⟨whole, fraction, rfl, hwhole, hfraction⟩ := hw.unsigned h.2.2.1
      have hfraction : IsFraction fraction := by
        refine hfraction.resolve_left ?_
        rintro rfl
        rw [List.append_nil] at hpoint'
        exact point_not_mem_digits hwhole hpoint'
      have hseam' : Seam fraction l tail :=
        ⟨hclear.2.1.exponent, fun hnil p hp =>
          ⟨point_mem_fraction hfraction, (hclear.2.1.points hnil p hp).2⟩⟩
      exact found_points hn hpoint hwhole hfraction
        (ih (isStem_fraction hfraction) h.2.2.2 hseam' hclear.2.2)
    · refine found_through hn hne h hseam hclear fun q tail' heq hclear' hseam' => ?_
      obtain ⟨rfl, rfl⟩ := List.cons.inj heq
      exact ih hw.isStem h.2.2.2 hseam' hclear'

/-- A text of written numbers between literals is split at the same literals again exactly when
    every seam is clear. -/
theorem splits_iff_clear (h : Fits before lead parts) :
    (∃ parts', Splits before (lead ++ body parts) lead parts' ∧
      parts'.map (·.2) = parts.map (·.2)) ↔ Clear before lead parts := by
  constructor
  · rintro ⟨parts', hsplits, hliterals⟩
    have hlength : parts'.length = parts.length := by
      rw [← List.length_map (·.2), hliterals, List.length_map]
    have hweight : weight lead parts = weight lead parts' := by
      rw [weight, weight, List.flatMap_def, List.flatMap_def, hliterals]
    refine (counts_literal (fun p tail heq => ?_) h hsplits hweight.le).2 hlength
    subst heq
    exact counts h.2.1.isStem h.2.2.2
  · intro hclear
    refine found_literal (fun p tail heq hclear' hseam => ?_) h hclear
    subst heq
    exact found h.2.1.isStem h.2.2.2 hseam hclear'

end Slideshow

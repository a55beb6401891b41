/-
  Slideshow.Proofs.Animation.Beginnings

  Where numbers begin and end in a text. Whether one begins depends on the character before and on
  the few that follow (`begins`, `isSome_spanNumber?`), and it ends in a digit with no digit behind
  it (`ends_of_spanNumber?`). No number begins inside of a literal, unless the literal ends open and
  a digit comes behind it (`begins_append`). A number without exponent is found in full, with more
  behind it only if an exponent is there, or a fraction which it has not got (`exists_spanNumber?`).
-/
import Slideshow.Proofs.Animation.Numerals

namespace Slideshow

open Numeral Decimal

variable {before : Option Char} {c d : Char} {cs ds n rest lead : List Char}
variable {parts : List (List Char × List Char)}

/-! ## Where a number begins -/

/-- A digit is next, or a point and a digit. -/
def beginsUnsigned : List Char → Bool
  | '.' :: cs => beginsDigit cs
  | cs => beginsDigit cs

theorem spanDigits_of_not (h : beginsDigit cs = false) : spanDigits cs = ([], cs) :=
  @spanDigits_of_all [] cs (by simp) h

theorem isEmpty_spanDigits (cs : List Char) : (spanDigits cs).1.isEmpty = !beginsDigit cs := by
  cases cs with
  | nil => rfl
  | cons c cs =>
    show (List.takeWhile Char.isDigit (c :: cs)).isEmpty = !c.isDigit
    cases hc : c.isDigit with
    | false => rw [List.takeWhile_cons_of_neg (by rw [hc]; exact Bool.false_ne_true)]; rfl
    | true => rw [List.takeWhile_cons_of_pos hc]; rfl

theorem isEmpty_spanFraction (cs : List Char) :
    (spanFraction ('.' :: cs)).1.isEmpty = !beginsDigit cs := by
  rw [← isEmpty_spanDigits]
  unfold spanFraction
  simp only
  split
  · rename_i h
    exact h.symm
  · rename_i h
    exact (Bool.eq_false_iff.2 h).symm

theorem spanFraction_of_ne (h : cs.head? ≠ some '.') : spanFraction cs = ([], cs) := by
  unfold spanFraction
  split
  · exact absurd rfl h
  · rfl

theorem beginsUnsigned_of_ne (h : cs.head? ≠ some '.') : beginsUnsigned cs = beginsDigit cs := by
  unfold beginsUnsigned
  split
  · exact absurd rfl h
  · rfl

theorem isSome_spanUnsigned? (cs : List Char) :
    (spanUnsigned? cs).isSome = beginsUnsigned cs := by
  have hsome : (spanUnsigned? cs).isSome
      = !((spanDigits cs).1.isEmpty && (spanFraction (spanDigits cs).2).1.isEmpty) := by
    unfold spanUnsigned?
    simp only
    split
    · rename_i h
      rw [h]
      rfl
    · rename_i h
      rw [Bool.eq_false_iff.2 h]
      rfl
  rw [hsome, isEmpty_spanDigits]
  by_cases hpoint : cs.head? = some '.'
  · -- at a point there are no digits before the fraction
    obtain ⟨ds, rfl⟩ := List.head?_eq_some_iff.1 hpoint
    rw [spanDigits_of_not rfl, isEmpty_spanFraction]
    show (!(true && !beginsDigit ds)) = beginsDigit ds
    rw [Bool.true_and, Bool.not_not]
  · rw [beginsUnsigned_of_ne hpoint]
    cases hdigit : beginsDigit cs with
    | true => rfl
    | false =>
      rw [spanDigits_of_not hdigit, spanFraction_of_ne hpoint]
      rfl

/-- Does a number begin here, given the character before? -/
def begins (before : Option Char) : List Char → Bool
  | [] => false
  | c :: cs =>
    if c = '-' ∨ c = '+' then
      !(before.any fun p => isNameChar p || p.isDigit) && beginsUnsigned cs
    else !before.any isNameChar && beginsUnsigned (c :: cs)

theorem begins_sign (h : c = '-' ∨ c = '+') :
    begins before (c :: cs)
      = (!(before.any fun p => isNameChar p || p.isDigit) && beginsUnsigned cs) :=
  if_pos h

theorem begins_unsigned (h : ¬ (c = '-' ∨ c = '+')) :
    begins before (c :: cs) = (!before.any isNameChar && beginsUnsigned (c :: cs)) :=
  if_neg h

theorem isSome_spanNumber? (before : Option Char) (cs : List Char) :
    (spanNumber? before cs).isSome = begins before cs := by
  cases cs with
  | nil => rfl
  | cons c cs =>
    unfold spanNumber? begins
    simp only
    split
    · split
      · rename_i h
        rw [h]
        rfl
      · rename_i h
        rw [Option.isSome_map, isSome_spanUnsigned?, Bool.eq_false_iff.2 h]
        rfl
    · split
      · rename_i h
        rw [h]
        rfl
      · rename_i h
        rw [isSome_spanUnsigned?, Bool.eq_false_iff.2 h]
        rfl

theorem spanNumber?_eq_none_iff : spanNumber? before cs = none ↔ begins before cs = false := by
  rw [← isSome_spanNumber?, Option.isSome_eq_false_iff, Option.isNone_iff_eq_none]

/-- What matters about the character before: is it of a name, and is it a digit? -/
def Alike (before before' : Option Char) : Prop :=
  before.any isNameChar = before'.any isNameChar ∧
    before.any Char.isDigit = before'.any Char.isDigit

theorem any_or {p q : Char → Bool} (x : Option Char) :
    (x.any fun c => p c || q c) = (x.any p || x.any q) := by
  cases x <;> rfl

theorem spanNumber?_congr {before' : Option Char} (h : Alike before before') (cs : List Char) :
    spanNumber? before cs = spanNumber? before' cs := by
  cases cs with
  | nil => rfl
  | cons c cs =>
    unfold spanNumber?
    simp only [any_or, h.1, h.2]

theorem Splits.congr {before' : Option Char} (h : Alike before before')
    (hsplits : Splits before cs lead parts) : Splits before' cs lead parts := by
  cases hsplits with
  | nil => exact .nil
  | skip hnone hrest => exact .skip (by rwa [← spanNumber?_congr h]) hrest
  | number hnumber hrest => exact .number (by rwa [← spanNumber?_congr h]) hrest

theorem isNameChar_of_isDigit (h : c.isDigit = true) : isNameChar c = false := by
  simp only [Char.isDigit, Bool.and_eq_true, decide_eq_true_eq] at h
  -- the digits stand before the letters and the underscore
  have hle : c.val.toNat ≤ 57 := h.2
  have hupper : c.isUpper = false := by
    refine decide_eq_false fun hletter => ?_
    have hge : 65 ≤ c.val.toNat := hletter.1
    omega
  have hlower : c.isLower = false := by
    refine Bool.and_eq_false_imp.2 fun hletter => ?_
    have hge : 97 ≤ c.val.toNat := of_decide_eq_true hletter
    omega
  have hunder : (c == '_') = false := by
    refine beq_false_of_ne ?_
    rintro rfl
    exact absurd hle (by decide)
  have hletter : c.isAlpha = false := Bool.or_eq_false_iff.2 ⟨hupper, hlower⟩
  rw [isNameChar, hletter, hunder]
  rfl

/-- Digits are alike. -/
theorem alike_zero (h : before.any Char.isDigit = true) : Alike before (some '0') := by
  cases before with
  | none => cases h
  | some c => exact ⟨isNameChar_of_isDigit h, h⟩

theorem alike_symm {before' : Option Char} (h : Alike before before') : Alike before' before :=
  ⟨h.1.symm, h.2.symm⟩

/-! ## Literals -/

/-- No number begins inside the literal when nothing is behind it. -/
def Still (before : Option Char) (l : List Char) : Prop := Splits before l l []

theorem Still.tail (h : Still before (c :: cs)) : Still (some c) cs := by
  cases h with
  | skip _ hrest => exact hrest

/-- The literal ends in a sign or in a point that a digit behind it would make a number. -/
def endsOpen : Option Char → List Char → Bool
  | _, [] => false
  | before, [c] =>
    if c = '-' ∨ c = '+' then !before.any fun p => isNameChar p || p.isDigit
    else c == '.' && !before.any isNameChar
  | _, c :: cs => endsOpen (some c) cs

theorem endsOpen_cons (hcs : cs ≠ []) : endsOpen before (c :: cs) = endsOpen (some c) cs := by
  cases cs with
  | nil => exact absurd rfl hcs
  | cons d ds => rfl

theorem beginsDigit_append (hcs : cs ≠ []) : beginsDigit (cs ++ rest) = beginsDigit cs := by
  obtain ⟨c, cs, rfl⟩ := List.exists_cons_of_ne_nil hcs
  rfl

/-- Only from the last characters of a literal on a number can reach beyond it. -/
theorem beginsUnsigned_append (hcs : cs ≠ []) (hpoint : cs ≠ ['.']) :
    beginsUnsigned (cs ++ rest) = beginsUnsigned cs := by
  obtain ⟨c, cs, rfl⟩ := List.exists_cons_of_ne_nil hcs
  by_cases hc : c = '.'
  · subst hc
    have hne : cs ≠ [] := fun h => hpoint (by rw [h])
    exact beginsDigit_append hne
  · have hhead : ∀ ds, (c :: ds).head? ≠ some '.' := fun ds h => hc (Option.some.inj h)
    rw [List.cons_append, beginsUnsigned_of_ne (hhead _), beginsUnsigned_of_ne (hhead _)]
    rfl

/-- Inside of a literal no number begins, with a number behind it that does not begin with a digit
    where the literal ends open. -/
theorem begins_append (hstill : begins before (c :: cs) = false) (hrest : rest.head? ≠ some '.')
    (hopen : endsOpen before (c :: cs) = true → beginsDigit rest = false) :
    begins before (c :: cs ++ rest) = false := by
  by_cases hsign : c = '-' ∨ c = '+'
  · rw [begins_sign hsign] at hstill
    rw [List.cons_append, begins_sign hsign]
    cases hbefore : before.any fun p => isNameChar p || p.isDigit with
    | true => rfl
    | false =>
      rw [hbefore, Bool.not_false, Bool.true_and] at hstill
      rw [Bool.not_false, Bool.true_and]
      by_cases hnil : cs = []
      · subst hnil
        rw [List.nil_append, beginsUnsigned_of_ne hrest]
        exact hopen (by rw [endsOpen, if_pos hsign, hbefore]; rfl)
      · by_cases hpoint : cs = ['.']
        · -- a sign and a point
          subst hpoint
          have hname : isNameChar c = false := by rcases hsign with rfl | rfl <;> rfl
          exact hopen (by
            rw [endsOpen_cons hnil]
            show ('.' == '.' && !isNameChar c) = true
            rw [hname]
            rfl)
        · rwa [beginsUnsigned_append hnil hpoint]
  · rw [begins_unsigned hsign] at hstill
    rw [List.cons_append, begins_unsigned hsign]
    cases hbefore : before.any isNameChar with
    | true => rfl
    | false =>
      rw [hbefore, Bool.not_false, Bool.true_and] at hstill
      rw [Bool.not_false, Bool.true_and, ← List.cons_append]
      by_cases hpoint : c :: cs = ['.']
      · obtain ⟨rfl, rfl⟩ := List.cons.inj hpoint
        exact hopen (by rw [endsOpen, if_neg hsign, hbefore]; rfl)
      · rwa [beginsUnsigned_append (List.cons_ne_nil c cs) hpoint]

/-- If a number begins at the front of a text, it begins there too with more behind the text. -/
theorem begins_append_of_begins (h : begins before cs = true) :
    begins before (cs ++ rest) = true := by
  have hdigit : ∀ {ds}, beginsDigit ds = true → beginsDigit (ds ++ rest) = true := by
    intro ds hds
    cases ds with
    | nil => cases hds
    | cons d ds => exact hds
  have hunsigned : ∀ {ds}, beginsUnsigned ds = true → beginsUnsigned (ds ++ rest) = true := by
    intro ds hds
    by_cases hpoint : ds.head? = some '.'
    · obtain ⟨ds, rfl⟩ := List.head?_eq_some_iff.1 hpoint
      exact hdigit hds
    · rw [beginsUnsigned_of_ne hpoint] at hds
      cases ds with
      | nil => cases hds
      | cons d ds => rwa [List.cons_append, beginsUnsigned_of_ne (by exact hpoint)]
  cases cs with
  | nil => cases h
  | cons c cs =>
    rw [List.cons_append]
    by_cases hsign : c = '-' ∨ c = '+'
    · rw [begins_sign hsign, Bool.and_eq_true] at h ⊢
      exact ⟨h.1, hunsigned h.2⟩
    · rw [begins_unsigned hsign, Bool.and_eq_true] at h ⊢
      exact ⟨h.1, hunsigned h.2⟩

/-- Where a literal ends open, a digit behind it makes a number begin inside of it. -/
theorem begins_of_endsOpen (hopen : endsOpen before [c] = true) (hrest : beginsDigit rest = true) :
    begins before (c :: rest) = true := by
  have hunsigned : beginsUnsigned rest = true := by
    rw [beginsUnsigned_of_ne, hrest]
    intro hhead
    obtain ⟨ds, rfl⟩ := List.head?_eq_some_iff.1 hhead
    cases hrest
  unfold endsOpen at hopen
  split at hopen
  · rename_i hsign
    rw [begins_sign hsign, hopen, hunsigned]
    rfl
  · rename_i hsign
    obtain ⟨hc, hbefore⟩ := Bool.and_eq_true_iff.1 hopen
    obtain rfl := eq_of_beq hc
    rw [begins_unsigned hsign, hbefore]
    exact hrest

/-! ## Numbers without exponent -/

/-- A number without exponent. -/
def IsStem (n : List Char) : Prop :=
  ∃ sign decimal, n = sign ++ decimal ∧ IsSign sign ∧ IsDecimal decimal

/-- A number may begin behind the character before: not behind one of a name, and with a sign not
    behind a digit either. -/
def MayBegin (before : Option Char) (n : List Char) : Prop :=
  before.any isNameChar = false ∧
    (n.head? = some '-' ∨ n.head? = some '+' → before.any Char.isDigit = false)

theorem MayBegin.append {m : List Char} (h : MayBegin before n) (hne : n ≠ []) :
    MayBegin before (n ++ m) := by
  obtain ⟨c, n, rfl⟩ := List.exists_cons_of_ne_nil hne
  exact h

/-- Where a number is found, one may begin. -/
theorem mayBegin_of_spanNumber? (h : spanNumber? before cs = some (n, rest)) :
    MayBegin before n := by
  have hbegins : begins before cs = true := by
    rw [← isSome_spanNumber?, h]
    rfl
  obtain ⟨rfl, hne⟩ := spanNumber?_append h
  obtain ⟨c, n, rfl⟩ := List.exists_cons_of_ne_nil hne
  rw [List.cons_append] at hbegins
  by_cases hsign : c = '-' ∨ c = '+'
  · rw [begins_sign hsign, any_or, Bool.and_eq_true, Bool.not_eq_true', Bool.or_eq_false_iff]
      at hbegins
    exact ⟨hbegins.1.1, fun _ => hbegins.1.2⟩
  · rw [begins_unsigned hsign, Bool.and_eq_true, Bool.not_eq_true'] at hbegins
    refine ⟨hbegins.1, fun hhead => absurd ?_ hsign⟩
    exact hhead.imp Option.some.inj Option.some.inj

theorem Numeral.IsDecimal.append_digits (h : IsDecimal n) (hds : ∀ c ∈ ds, c.isDigit = true) :
    IsDecimal (n ++ ds) := by
  have hall : ∀ {front}, IsDigits front → IsDigits (front ++ ds) := by
    intro front hfront
    refine ⟨by simp [hfront.1], fun c hc => ?_⟩
    rcases List.mem_append.1 hc with hc | hc
    · exact hfront.2 c hc
    · exact hds c hc
  have hpoint : ∀ {f}, IsFraction f → IsFraction (f ++ ds) := by
    rintro f ⟨fs, hfs, rfl⟩
    exact ⟨fs ++ ds, hall hfs, rfl⟩
  obtain ⟨whole, fraction, rfl, ⟨hwhole, rfl | hfraction⟩ | ⟨rfl, hfraction⟩⟩ := h
  · exact ⟨whole ++ ds, [], by simp, .inl ⟨hall hwhole, .inl rfl⟩⟩
  · exact ⟨whole, fraction ++ ds, List.append_assoc _ _ _, .inl ⟨hwhole, .inr (hpoint hfraction)⟩⟩
  · exact ⟨[], fraction ++ ds, rfl, .inr ⟨rfl, hpoint hfraction⟩⟩

theorem Numeral.IsDecimal.append_fraction {f : List Char} (h : IsDecimal n) (hno : '.' ∉ n)
    (hf : IsFraction f) : IsDecimal (n ++ f) := by
  obtain ⟨whole, fraction, rfl, hparts⟩ := h
  have hnone : ¬ IsFraction fraction := by
    rintro ⟨ds, -, rfl⟩
    exact hno (by simp)
  obtain ⟨hwhole, rfl | hfraction⟩ | ⟨rfl, hfraction⟩ := hparts
  · exact ⟨whole, f, by rw [List.append_nil], .inl ⟨hwhole, .inr hf⟩⟩
  · exact absurd hfraction hnone
  · exact absurd hfraction hnone

theorem IsStem.append_digits (h : IsStem n) (hds : ∀ c ∈ ds, c.isDigit = true) :
    IsStem (n ++ ds) := by
  obtain ⟨sign, decimal, rfl, hsign, hdecimal⟩ := h
  exact ⟨sign, decimal ++ ds, List.append_assoc _ _ _, hsign, hdecimal.append_digits hds⟩

theorem IsStem.append_fraction {f : List Char} (h : IsStem n) (hno : '.' ∉ n)
    (hf : IsFraction f) : IsStem (n ++ f) := by
  obtain ⟨sign, decimal, rfl, hsign, hdecimal⟩ := h
  refine ⟨sign, decimal ++ f, List.append_assoc _ _ _, hsign, hdecimal.append_fraction ?_ hf⟩
  exact fun hmem => hno (List.mem_append_right _ hmem)

theorem IsStem.ne_nil (h : IsStem n) : n ≠ [] := by
  obtain ⟨sign, decimal, rfl, -, hdecimal⟩ := h
  obtain ⟨c, ds, rfl, -⟩ := exists_first hdecimal
  simp

theorem spanUnsigned?_of_begins (h : beginsUnsigned cs = true) :
    spanUnsigned? cs = some
      ((spanDigits cs).1 ++ (spanFraction (spanDigits cs).2).1
        ++ (spanExponent (spanFraction (spanDigits cs).2).2).1,
        (spanExponent (spanFraction (spanDigits cs).2).2).2) := by
  rw [← isSome_spanUnsigned?] at h
  unfold spanUnsigned? at h ⊢
  simp only at h ⊢
  split at h
  · cases h
  · rename_i hne
    rw [if_neg hne]

theorem beginsUnsigned_of_isDigits (h : IsDigits ds) : beginsUnsigned (ds ++ cs) = true := by
  obtain ⟨d, ds, rfl⟩ := List.exists_cons_of_ne_nil h.1
  have hd := h.2 d List.mem_cons_self
  rw [beginsUnsigned_of_ne]
  · exact hd
  · intro hhead
    obtain rfl := Option.some.inj hhead
    exact absurd hd (by decide)

theorem spanFraction_of_isFraction (h : IsFraction n) (hcs : beginsDigit cs = false) :
    spanFraction (n ++ cs) = (n, cs) := by
  obtain ⟨ds, hds, rfl⟩ := h
  have hempty : ds.isEmpty = false := by
    rw [← Bool.not_eq_true, List.isEmpty_iff]
    exact hds.1
  rw [List.cons_append]
  unfold spanFraction
  simp only [spanDigits_of_all hds.2 hcs, hempty, Bool.false_eq_true, if_false]

/-- Whole digits are found with the fraction and the exponent that follow. -/
theorem spanUnsigned?_digits (hds : IsDigits ds) (hcs : beginsDigit cs = false) :
    spanUnsigned? (ds ++ cs) = some
      (ds ++ ((spanFraction cs).1 ++ (spanExponent (spanFraction cs).2).1),
        (spanExponent (spanFraction cs).2).2) := by
  rw [spanUnsigned?_of_begins (beginsUnsigned_of_isDigits hds), spanDigits_of_all hds.2 hcs,
    List.append_assoc]

/-- Digits, perhaps none, and a fraction are found with the exponent that follows. -/
theorem spanUnsigned?_fraction {whole : List Char} (hwhole : ∀ c ∈ whole, c.isDigit = true)
    (hn : IsFraction n) (hcs : beginsDigit cs = false) :
    spanUnsigned? (whole ++ n ++ cs)
      = some (whole ++ n ++ (spanExponent cs).1, (spanExponent cs).2) := by
  obtain ⟨ds, hds, rfl⟩ := hn
  have hspan : spanDigits (whole ++ ('.' :: ds ++ cs)) = (whole, '.' :: ds ++ cs) :=
    spanDigits_of_all hwhole rfl
  have hbegins : beginsUnsigned (whole ++ ('.' :: ds ++ cs)) = true := by
    by_cases hnil : whole = []
    · subst hnil
      show beginsDigit (ds ++ cs) = true
      obtain ⟨d, ds, rfl⟩ := List.exists_cons_of_ne_nil hds.1
      exact hds.2 d List.mem_cons_self
    · exact beginsUnsigned_of_isDigits ⟨hnil, hwhole⟩
  rw [List.append_assoc, spanUnsigned?_of_begins hbegins, hspan]
  simp only [spanFraction_of_isFraction ⟨ds, hds, rfl⟩ hcs]

/-- A decimal is found in full, with more behind it only if an exponent is there, or a fraction
    which the decimal has not got. -/
theorem exists_spanUnsigned? (hn : IsDecimal n) (hcs : beginsDigit cs = false) :
    ∃ m rest, spanUnsigned? (n ++ cs) = some (n ++ m, rest) ∧
      (m = [] → (spanExponent cs).1 = []) ∧
      ((spanExponent cs).1 = [] → '.' ∈ n ∨ (spanFraction cs).1 = [] → m = []) := by
  have hfraction : ∀ {whole fraction}, (∀ c ∈ whole, c.isDigit = true) → IsFraction fraction →
      ∃ m rest, spanUnsigned? (whole ++ fraction ++ cs) = some (whole ++ fraction ++ m, rest) ∧
        (m = [] → (spanExponent cs).1 = []) ∧
        ((spanExponent cs).1 = [] → '.' ∈ whole ++ fraction ∨ (spanFraction cs).1 = [] → m = []) :=
    fun hwhole hfraction => ⟨_, _, spanUnsigned?_fraction hwhole hfraction hcs, id, fun h _ => h⟩
  obtain ⟨whole, fraction, rfl, ⟨hwhole, rfl | h⟩ | ⟨rfl, h⟩⟩ := hn
  · rw [List.append_nil]
    have happ := spanFraction_append cs
    refine ⟨_, _, spanUnsigned?_digits hwhole hcs, fun hnil => ?_, fun hpower hpoint => ?_⟩
    · obtain ⟨hfrac, hpower⟩ := List.append_eq_nil_iff.1 hnil
      rw [hfrac, List.nil_append] at happ
      rwa [happ] at hpower
    · have hfrac : (spanFraction cs).1 = [] := by
        refine hpoint.resolve_left fun hmem => ?_
        exact absurd (hwhole.2 '.' hmem) (by decide)
      rw [hfrac, List.nil_append] at happ
      rw [hfrac, happ, hpower, List.append_nil]
  · exact hfraction hwhole.2 h
  · exact hfraction (fun c hc => by cases hc) h

theorem beginsUnsigned_of_isDecimal (h : IsDecimal n) : beginsUnsigned (n ++ cs) = true := by
  obtain ⟨whole, fraction, rfl, ⟨hwhole, -⟩ | ⟨rfl, ds, hds, rfl⟩⟩ := h
  · rw [List.append_assoc]
    exact beginsUnsigned_of_isDigits hwhole
  · show beginsDigit (ds ++ cs) = true
    obtain ⟨d, ds, rfl⟩ := List.exists_cons_of_ne_nil hds.1
    exact hds.2 d List.mem_cons_self

theorem not_sign_of_first (h : c.isDigit = true ∨ c = '.') : ¬ (c = '-' ∨ c = '+') := by
  rintro (rfl | rfl)
  · exact absurd h (by decide)
  · exact absurd h (by decide)

theorem begins_stem (hn : IsStem n) (hbefore : MayBegin before n) :
    begins before (n ++ cs) = true := by
  obtain ⟨sign, decimal, rfl, hsign, hdecimal⟩ := hn
  have hunsigned : beginsUnsigned (decimal ++ cs) = true := beginsUnsigned_of_isDecimal hdecimal
  have hname := hbefore.1
  rcases hsign with rfl | rfl | rfl
  · obtain ⟨c, ds, rfl, hc⟩ := exists_first hdecimal
    rw [List.nil_append, List.cons_append, begins_unsigned (not_sign_of_first hc), hname]
    exact hunsigned
  · rw [List.append_assoc]
    refine (begins_sign (.inl rfl)).trans ?_
    rw [any_or, hname, hbefore.2 (.inl rfl)]
    exact hunsigned
  · rw [List.append_assoc]
    refine (begins_sign (.inr rfl)).trans ?_
    rw [any_or, hname, hbefore.2 (.inr rfl)]
    exact hunsigned

/-- The same for a number with a sign. -/
theorem exists_spanNumber? (hn : IsStem n) (hbefore : MayBegin before n)
    (hcs : beginsDigit cs = false) :
    ∃ m rest, spanNumber? before (n ++ cs) = some (n ++ m, rest) ∧
      (m = [] → (spanExponent cs).1 = []) ∧
      ((spanExponent cs).1 = [] → '.' ∈ n ∨ (spanFraction cs).1 = [] → m = []) := by
  obtain ⟨sign, decimal, rfl, hsign, hdecimal⟩ := hn
  obtain ⟨m, rest, hspan, hnone, hsome⟩ := exists_spanUnsigned? hdecimal hcs
  obtain ⟨c, ds, rfl, hc⟩ := exists_first hdecimal
  have hname := hbefore.1
  refine ⟨m, rest, ?_, hnone, fun hpower hpoint => hsome hpower ?_⟩
  · rcases hsign with rfl | rfl | rfl
    · have hno := not_sign_of_first hc
      simp only [List.nil_append, List.cons_append] at hspan ⊢
      rw [spanNumber?]
      simp only [if_neg hno, hname, Bool.false_eq_true, if_false]
      exact hspan
    · have hdigit := hbefore.2 (.inl rfl)
      show spanNumber? before ('-' :: (c :: ds ++ cs)) = _
      rw [spanNumber?]
      simp only [any_or, hname, hdigit, Bool.or_self, Bool.false_eq_true, if_false, true_or,
        if_true, hspan]
      rfl
    · have hdigit := hbefore.2 (.inr rfl)
      show spanNumber? before ('+' :: (c :: ds ++ cs)) = _
      rw [spanNumber?]
      simp only [any_or, hname, hdigit, Bool.or_self, Bool.false_eq_true, if_false, or_true,
        if_true, hspan]
      rfl
  · refine hpoint.imp_left fun hmem => ?_
    refine (List.mem_append.1 hmem).resolve_left fun hmem => ?_
    rcases hsign with rfl | rfl | rfl
    · cases hmem
    · exact absurd hmem (by decide)
    · exact absurd hmem (by decide)

theorem Splits.exists_number (h : Splits before cs lead parts) (hbegins : begins before cs = true) :
    ∃ n rest l tail, lead = [] ∧ parts = (n, l) :: tail ∧
      spanNumber? before cs = some (n, rest) ∧ Splits n.getLast? rest l tail := by
  cases h with
  | nil => cases hbegins
  | skip hnone _ =>
    rw [spanNumber?_eq_none_iff, hbegins] at hnone
    cases hnone
  | number hnumber hrest => exact ⟨_, _, _, _, rfl, rfl, hnumber, hrest⟩

/-- Behind a digit, a literal does not begin with one. -/
theorem Still.not_digit (h : Still (some '0') (c :: cs)) : c.isDigit = false := by
  cases h with
  | skip hnone _ =>
    rw [spanNumber?_eq_none_iff] at hnone
    by_contra hdigit
    rw [Bool.not_eq_false] at hdigit
    have hstem : IsStem [c] :=
      ⟨[], [c], rfl, .inl rfl, [c], [], rfl, .inl ⟨⟨by simp, by simpa⟩, .inl rfl⟩⟩
    have hbegins := @begins_stem (some '0') cs [c] hstem ⟨rfl, ?_⟩
    · rw [List.singleton_append, hnone] at hbegins
      cases hbegins
    · rintro (heq | heq)
      · obtain rfl := Option.some.inj heq
        cases hdigit
      · obtain rfl := Option.some.inj heq
        cases hdigit

/-! ## Where a number ends -/

/-- The character at the end of a text is a digit. -/
def EndsDigit (n : List Char) : Prop := n.getLast?.any Char.isDigit = true

theorem endsDigit_append (h : EndsDigit n) : EndsDigit (cs ++ n) := by
  have hne : n ≠ [] := by
    rintro rfl
    cases h
  rwa [EndsDigit, List.getLast?_append, Option.or_of_isSome (by simpa using hne)]

theorem endsDigit_of_isDigits (h : IsDigits ds) : EndsDigit ds := by
  rw [EndsDigit, List.getLast?_eq_some_getLast h.1]
  exact h.2 _ (List.getLast_mem h.1)

theorem endsDigit_of_isFraction (h : IsFraction n) : EndsDigit n := by
  obtain ⟨ds, hds, rfl⟩ := h
  exact @endsDigit_append ['.'] ds (endsDigit_of_isDigits hds)

theorem endsDigit_of_isExponent (h : IsExponent n) : EndsDigit n := by
  obtain ⟨e, sign, ds, -, -, hds, rfl⟩ := h
  exact endsDigit_append (endsDigit_of_isDigits hds)

theorem beginsDigit_spanFraction (h : beginsDigit cs = false) :
    beginsDigit (spanFraction cs).2 = false := by
  unfold spanFraction
  split
  · dsimp only
    split
    · exact h
    · exact beginsDigit_spanDigits _
  · exact h

theorem beginsDigit_spanExponent (h : beginsDigit cs = false) :
    beginsDigit (spanExponent cs).2 = false := by
  unfold spanExponent
  split
  · split
    · dsimp only
      split
      · exact h
      · exact beginsDigit_spanDigits _
    · exact h
  · exact h

theorem ends_of_spanUnsigned? (h : spanUnsigned? cs = some (n, rest)) :
    EndsDigit n ∧ beginsDigit rest = false := by
  have hbegins : beginsUnsigned cs = true := by
    rw [← isSome_spanUnsigned?, h]
    rfl
  have hwhole := beginsDigit_spanDigits cs
  have hne : ¬ ((spanDigits cs).1 = [] ∧ (spanFraction (spanDigits cs).2).1 = []) := by
    rintro ⟨hnone, hnone'⟩
    unfold spanUnsigned? at h
    simp [hnone, hnone'] at h
  rw [spanUnsigned?_of_begins hbegins] at h
  obtain ⟨rfl, rfl⟩ := Prod.mk.inj (Option.some.inj h)
  refine ⟨?_, beginsDigit_spanExponent (beginsDigit_spanFraction hwhole)⟩
  rcases spanExponent_cases (spanFraction (spanDigits cs).2).2 with hpower | hpower
  · rw [hpower, List.append_nil]
    rcases spanFraction_cases (spanDigits cs).2 with hfraction | hfraction
    · rw [hfraction, List.append_nil]
      exact endsDigit_of_isDigits ⟨fun hnil => hne ⟨hnil, hfraction⟩, all_spanDigits cs⟩
    · exact endsDigit_append (endsDigit_of_isFraction hfraction)
  · exact endsDigit_append (endsDigit_of_isExponent hpower)

/-- A number ends in a digit, with no digit behind it. -/
theorem ends_of_spanNumber? (h : spanNumber? before cs = some (n, rest)) :
    EndsDigit n ∧ beginsDigit rest = false := by
  unfold spanNumber? at h
  split at h
  · cases h
  · split at h
    · split at h
      · cases h
      · simp only [Option.map_eq_some_iff, Prod.mk.injEq] at h
        obtain ⟨p, hp, rfl, rfl⟩ := h
        obtain ⟨hends, hrest⟩ := ends_of_spanUnsigned? hp
        exact ⟨@endsDigit_append [_] p.1 hends, hrest⟩
    · split at h
      · cases h
      · exact ends_of_spanUnsigned? h

theorem getLast?_append_of_ne (h : n ≠ []) : (cs ++ n).getLast? = n.getLast? := by
  rw [List.getLast?_append, Option.or_of_isSome (by simpa using h)]

/-! ## Exponents and fractions -/

theorem isStem_fraction (h : IsFraction n) : IsStem n :=
  ⟨[], n, rfl, .inl rfl, [], n, rfl, .inr ⟨rfl, h⟩⟩

/-- A fraction may begin behind a digit. -/
theorem mayBegin_fraction (hbefore : before.any Char.isDigit = true) (h : IsFraction n) :
    MayBegin before n := by
  obtain ⟨ds, -, rfl⟩ := h
  refine ⟨(alike_zero hbefore).1, ?_⟩
  rintro (h | h)
  · cases h
  · cases h

theorem beginsDigit_fraction (h : IsFraction n) : beginsDigit (n ++ cs) = false := by
  obtain ⟨ds, -, rfl⟩ := h
  rfl

theorem spanExponent_of_ne (he : cs.head? ≠ some 'e') (hE : cs.head? ≠ some 'E') :
    (spanExponent cs).1 = [] := by
  unfold spanExponent
  split
  · split
    · rename_i h
      rcases h with rfl | rfl
      · exact absurd rfl he
      · exact absurd rfl hE
    · rfl
  · rfl

theorem spanExponent_eq_nil_iff (hc : c = 'e' ∨ c = 'E') :
    (spanExponent (c :: cs)).1 = [] ↔ beginsDigit (spanSign cs).2 = false := by
  unfold spanExponent
  simp only [if_pos hc]
  rw [← Bool.not_eq_true', ← isEmpty_spanDigits]
  split
  · rename_i hempty
    exact iff_of_true rfl hempty
  · rename_i hempty
    exact iff_of_false (List.cons_ne_nil _ _) hempty

theorem spanExponent_fraction (h : IsFraction n) : (spanExponent (n ++ cs)).1 = [] := by
  obtain ⟨ds, -, rfl⟩ := h
  exact spanExponent_of_ne (by simp) (by simp)

theorem spanExponent_digits (h : IsDigits ds) : (spanExponent (ds ++ cs)).1 = [] := by
  obtain ⟨d, ds, rfl⟩ := List.exists_cons_of_ne_nil h.1
  have hd := h.2 d List.mem_cons_self
  refine spanExponent_of_ne ?_ ?_
  · intro heq
    obtain rfl := Option.some.inj heq
    cases hd
  · intro heq
    obtain rfl := Option.some.inj heq
    cases hd

/-- A number with a point is found up to the next point. -/
theorem spanNumber?_point {whole fraction : List Char} (hn : IsStem n) (hpoint : '.' ∈ n)
    (hbefore : MayBegin before n) (hwhole : ∀ c ∈ whole, c.isDigit = true)
    (hfraction : IsFraction fraction) :
    spanNumber? before (n ++ (whole ++ fraction ++ cs)) = some (n ++ whole, fraction ++ cs) := by
  obtain ⟨m, rest, hfound, -, hm⟩ := exists_spanNumber? (hn.append_digits hwhole)
    (hbefore.append hn.ne_nil)
    (show beginsDigit (fraction ++ cs) = false from beginsDigit_fraction hfraction)
  obtain rfl := hm (spanExponent_fraction hfraction) (.inl (List.mem_append_left _ hpoint))
  rw [List.append_nil] at hfound
  have happ := (spanNumber?_append hfound).1
  rw [List.append_cancel_left_eq] at happ
  rw [← happ, ← hfound]
  simp only [List.append_assoc]

end Slideshow

/-
  Slideshow.Proofs.Scene.Escape

  Running text and attribute values, escaped and read again. What is escaped holds no bracket
  and no quote, so that it ends where it was written to end. It is read as it was, a text if it
  has no carriage returns (`textTokens_written`), a value if all white space in it is spaces
  (`value?_written`).
-/
import Slideshow.Scene.Document

namespace Slideshow

/-! ## Parts of texts -/

namespace Text

/-- The characters of a part stand in the text. -/
theorem subset_of_hasPart {part : List Char} : ∀ cs : List Char, hasPart part cs = true →
    ∀ c ∈ part, c ∈ cs
  | [], h, c, hc => by
    rw [hasPart, List.isEmpty_iff] at h
    rw [h] at hc
    cases hc
  | d :: cs, h, c, hc => by
    rw [hasPart, Bool.or_eq_true] at h
    rcases h with hfront | hlater
    · exact (List.isPrefixOf_iff_prefix.1 hfront).subset hc
    · exact List.mem_cons_of_mem _ (subset_of_hasPart cs hlater c hc)

/-- A text is cut at the first mark. -/
theorem splitAt?_of_not_mem {c : Char} {cs : List Char} (h : c ∉ cs) (rest : List Char) :
    splitAt? [c] (cs ++ c :: rest) = some (cs, rest) := by
  induction cs with
  | nil => simp [splitAt?]
  | cons d cs ih =>
    rw [List.mem_cons, not_or] at h
    have hfront : [c].isPrefixOf (d :: (cs ++ c :: rest)) = false := by
      rw [List.isPrefixOf, beq_false_of_ne h.1, Bool.false_and]
    rw [List.cons_append, splitAt?, hfront, ih h.2]
    rfl

end Text

namespace Markup

open Text (isSpace)

variable {c d : Char} {cs rest done : List Char}

/-! ## Pieces -/

/-- How a character of running text is written. -/
def textPiece (c : Char) : Piece :=
  if c = '&' ∨ c = '<' ∨ c = '>' then .escaped c else .char c

/-- How a character of an attribute value is written. -/
def valuePiece (c : Char) : Piece :=
  if c = '"' then .escaped c else textPiece c

/-- A character that does not begin a reference stands for itself. -/
theorem pieces?_cons (h : c ≠ '&') (rest : List Char) :
    pieces? (c :: rest) = (pieces? rest).map (.char c :: ·) := by
  rw [pieces?]
  exact h

/-- What stands between the marks of a reference is read as one piece. -/
theorem pieces?_reference (cs : List Char) {p : Piece} (hbody : ';' ∉ cs)
    (hp : reference? cs = some p) (rest : List Char) :
    pieces? ('&' :: cs ++ ';' :: rest) = (pieces? rest).map (p :: ·) := by
  have hsplit := Text.splitAt?_of_not_mem hbody rest
  rw [List.cons_append, pieces?]
  split
  · rename_i hnone
    rw [hsplit] at hnone
    cases hnone
  · rename_i body after hsome
    rw [hsplit] at hsome
    cases hsome
    rw [hp]

theorem pieces?_escapeText (c : Char) (rest : List Char) :
    pieces? (escapeText c ++ rest) = (pieces? rest).map (textPiece c :: ·) := by
  by_cases hamp : c = '&'
  · subst hamp
    exact pieces?_reference ['a', 'm', 'p'] (by decide) (by decide) rest
  by_cases hlt : c = '<'
  · subst hlt
    exact pieces?_reference ['l', 't'] (by decide) (by decide) rest
  by_cases hgt : c = '>'
  · subst hgt
    exact pieces?_reference ['g', 't'] (by decide) (by decide) rest
  have hpiece : textPiece c = .char c := if_neg (by simp [hamp, hlt, hgt])
  rw [escapeText, if_neg hamp, if_neg hlt, if_neg hgt, hpiece]
  exact pieces?_cons hamp rest

theorem pieces?_escapeValue (c : Char) (rest : List Char) :
    pieces? (escapeValue c ++ rest) = (pieces? rest).map (valuePiece c :: ·) := by
  rw [escapeValue, valuePiece]
  split
  · rename_i hquote
    subst hquote
    exact pieces?_reference ['q', 'u', 'o', 't'] (by decide) (by decide) rest
  · exact pieces?_escapeText c rest

/-- A text in which each character is written as one piece is read piece by piece. -/
theorem pieces?_flatMap {escape : Char → List Char} {piece : Char → Piece}
    (h : ∀ c rest, pieces? (escape c ++ rest) = (pieces? rest).map (piece c :: ·))
    (cs : List Char) : pieces? (cs.flatMap escape) = some (cs.map piece) := by
  induction cs with
  | nil =>
    rw [List.flatMap_nil, pieces?]
    rfl
  | cons c cs ih => rw [List.flatMap_cons, h, ih, List.map_cons, Option.map_some]

/-! ## Characters of what is escaped -/

/-- What a character is written as holds no bracket, and only characters that may occur. -/
theorem of_mem_escapeText (hd : d ∈ escapeText c) :
    d ≠ '<' ∧ d ≠ '>' ∧ (isAllowed c = true → isAllowed d = true) := by
  have hmarks : ∀ c ∈ ['&', '<', '>'], ∀ d ∈ escapeText c,
      d ≠ '<' ∧ d ≠ '>' ∧ isAllowed d = true := by simp [escapeText, isAllowed]
  by_cases hc : c ∈ ['&', '<', '>']
  · obtain ⟨hlt, hgt, hallowed⟩ := hmarks c hc d hd
    exact ⟨hlt, hgt, fun _ => hallowed⟩
  · simp only [List.mem_cons, List.not_mem_nil, or_false, not_or] at hc
    rw [escapeText, if_neg hc.1, if_neg hc.2.1, if_neg hc.2.2, List.mem_singleton] at hd
    rw [hd]
    exact ⟨hc.2.1, hc.2.2, id⟩

/-- A value is written without quotes. -/
theorem of_mem_escapeValue (hd : d ∈ escapeValue c) :
    d ≠ '"' ∧ d ≠ '<' ∧ d ≠ '>' ∧ (isAllowed c = true → isAllowed d = true) := by
  have hmarks : ∀ c ∈ ['"', '&', '<', '>'], ∀ d ∈ escapeValue c, d ≠ '"' := by
    simp [escapeValue, escapeText]
  have hquote : ∀ d ∈ escapeValue '"', d ≠ '<' ∧ d ≠ '>' ∧ isAllowed d = true := by
    simp [escapeValue, isAllowed]
  by_cases hc : c = '"'
  · subst hc
    obtain ⟨hlt, hgt, hallowed⟩ := hquote d hd
    exact ⟨hmarks '"' List.mem_cons_self d hd, hlt, hgt, fun _ => hallowed⟩
  · have hd' := hd
    rw [escapeValue, if_neg hc] at hd'
    refine ⟨?_, of_mem_escapeText hd'⟩
    by_cases hmark : c ∈ ['&', '<', '>']
    · exact hmarks c (List.mem_cons_of_mem _ hmark) d hd
    · simp only [List.mem_cons, List.not_mem_nil, or_false, not_or] at hmark
      rw [escapeText, if_neg hmark.1, if_neg hmark.2.1, if_neg hmark.2.2, List.mem_singleton] at hd'
      rw [hd']
      exact hc

/-- Escaped text holds no tag. -/
theorem bracket_not_mem_escaped (cs : List Char) : '<' ∉ cs.flatMap escapeText := by
  intro hmem
  obtain ⟨c, _, hc⟩ := List.mem_flatMap.1 hmem
  exact (of_mem_escapeText hc).1 rfl

/-- An escaped value holds no quote that ends it. -/
theorem quote_not_mem_escaped (cs : List Char) : '"' ∉ cs.flatMap escapeValue := by
  intro hmem
  obtain ⟨c, _, hc⟩ := List.mem_flatMap.1 hmem
  exact (of_mem_escapeValue hc).1 rfl

/-- Escaped text may stand as text. -/
theorem isText_escaped (h : ∀ c ∈ cs, isAllowed c = true) :
    isText (cs.flatMap escapeText) = true := by
  have hmem : ∀ d ∈ cs.flatMap escapeText, d ≠ '>' ∧ isAllowed d = true := by
    intro d hd
    obtain ⟨c, hc, hdc⟩ := List.mem_flatMap.1 hd
    have hof := of_mem_escapeText hdc
    exact ⟨hof.2.1, hof.2.2 (h c hc)⟩
  have hpart : Text.hasPart [']', ']', '>'] (cs.flatMap escapeText) = false := by
    rw [Bool.eq_false_iff]
    intro hpart
    have hbracket := Text.subset_of_hasPart _ hpart '>' (by decide)
    exact (hmem '>' hbracket).1 rfl
  rw [isText, hpart, Bool.not_false, Bool.and_true, List.all_eq_true]
  exact fun d hd => (hmem d hd).2

/-! ## Running text -/

variable {entities : Entities} {inner : Nat → List Char → Option (List Token × Nat)}

/-- A character stays as it is if neither it nor the one before it is a carriage return. -/
theorem pushText_of_ne {isLast : Bool} (hc : c ≠ '\r') (hdone : '\r' ∉ done) :
    pushText isLast c done = c :: done := by
  have hcr : (c == '\r') = false := beq_false_of_ne hc
  cases done with
  | nil =>
    rw [pushText, hcr, Bool.and_false]
    · rfl
    · exact fun _ heq => nomatch heq
  | cons d done =>
    rw [List.mem_cons, not_or] at hdone
    rw [pushText, hcr, Bool.and_false]
    · rfl
    · intro done' heq
      cases heq
      exact hdone.1 rfl

/-- Escaped text without carriage returns is read as it was. -/
theorem textTokens_written (count : Nat) (hcs : '\r' ∉ cs) {exact : Bool} (hdone : '\r' ∉ done) :
    textTokens entities true inner count exact done (cs.map textPiece) =
      some (flush (cs.reverse ++ done), count) := by
  induction cs generalizing exact done with
  | nil => rfl
  | cons c cs ih =>
    rw [List.mem_cons, not_or] at hcs
    have hdone' : '\r' ∉ c :: done := by
      rw [List.mem_cons, not_or]
      exact ⟨hcs.1, hdone⟩
    rw [List.map_cons, textPiece, List.reverse_cons, List.append_assoc, List.singleton_append]
    split
    · rw [textTokens, if_pos rfl]
      exact ih hcs.2 hdone'
    · rw [textTokens, pushText_of_ne (Ne.symm hcs.1) hdone, ite_self]
      exact ih hcs.2 hdone'

/-! ## Attribute values -/

/-- A character that a value keeps: one that may occur, and no white space but a space. -/
def keptInValue (c : Char) : Bool := isAllowed c && (!isSpace c || c == ' ')

theorem valueChar_of_kept (h : keptInValue c = true) (next : Option Char) :
    valueChar c next = [c] := by
  rw [keptInValue, Bool.and_eq_true, Bool.or_eq_true, Bool.not_eq_true', beq_iff_eq] at h
  rw [valueChar]
  rcases h.2 with hspace | rfl
  · have hcr : (c == '\r') = false := by
      rw [isSpace, Bool.or_eq_false_iff] at hspace
      exact hspace.2
    rw [hcr, hspace, Bool.false_and]
    rfl
  · rfl

theorem valueWith_written {inner : Nat → List Char → Option (List Char × Nat)} (count : Nat)
    (h : ∀ c ∈ cs, keptInValue c = true) :
    valueWith entities true inner count (cs.map valuePiece) = some (cs, count) := by
  induction cs with
  | nil => rfl
  | cons c cs ih =>
    have hrest := ih fun d hd => h d (List.mem_cons_of_mem _ hd)
    have hpiece : valuePiece c = .escaped c ∨ valuePiece c = .char c := by
      rw [valuePiece, textPiece]
      split
      · exact .inl rfl
      split
      · exact .inl rfl
      · exact .inr rfl
    rw [List.map_cons]
    rcases hpiece with hpiece | hpiece
    · rw [hpiece, valueWith, hrest]
      rfl
    · rw [hpiece, valueWith, hrest, valueChar_of_kept (h c List.mem_cons_self)]
      rfl

/-- An escaped value is read as it was. -/
theorem value?_written (count : Nat) (h : ∀ c ∈ cs, keptInValue c = true) :
    value? entities maxLevels count (cs.flatMap escapeValue) = some (cs, count) := by
  show (pieces? (cs.flatMap escapeValue)).bind (valueWith entities true _ count) = some (cs, count)
  rw [pieces?_flatMap pieces?_escapeValue]
  exact valueWith_written count h

/-- An escaped value may stand in a tag. -/
theorem all_escaped (h : ∀ c ∈ cs, keptInValue c = true) :
    (cs.flatMap escapeValue).all (fun c => isAllowed c && c != '<') = true := by
  rw [List.all_eq_true]
  intro d hd
  obtain ⟨c, hc, hdc⟩ := List.mem_flatMap.1 hd
  have hof := of_mem_escapeValue hdc
  have hallowed := (Bool.and_eq_true_iff.1 (h c hc)).1
  rw [hof.2.2.2 hallowed, Bool.true_and, bne_iff_ne]
  exact hof.2.1

end Markup

end Slideshow

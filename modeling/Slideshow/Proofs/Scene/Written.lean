/-
  Slideshow.Proofs.Scene.Written

  The tokens of what is written. A node whose names can be spelled, whose values keep all their
  characters and whose texts have no carriage returns is written so that its tokens are those of
  `Node.tokensFrom`: one for each tag, and one for each run of neighbouring texts that is not
  empty (`contentWith_written`, `rootTokens?_written`).
-/
import Slideshow.Proofs.Markup.Spelling
import Slideshow.Proofs.Scene.Escape

namespace Slideshow

namespace Markup

open Text (isSpace skip)

variable {c : Char} {cs ds body rest : List Char} {entities : Entities}

/-! ## Tags among chunks -/

/-- A piece of a tag in which the tag does not end, and outside of quotes at its own end. -/
def Passes (cs : List Char) : Prop :=
  ∀ rest, tagBody? none (cs ++ rest) = (tagBody? none rest).map fun p => (cs ++ p.1, p.2)

theorem Passes.append (h : Passes cs) (h' : Passes ds) : Passes (cs ++ ds) := by
  intro rest
  rw [List.append_assoc, h, h', Option.map_map]
  simp only [Function.comp_def, List.append_assoc]

theorem passes_nil : Passes [] := by
  intro rest
  simp

theorem passes_char (hend : c ≠ '>') (hquote : c ≠ '"') (hsingle : c ≠ '\'') : Passes [c] := by
  intro rest
  have hquotes : ¬(decide (c = '"') || decide (c = '\'')) = true := by simp [hquote, hsingle]
  rw [List.cons_append, tagBody?, if_neg hend, if_neg hquotes]
  rfl

theorem passes_of_plain (h : ∀ c ∈ cs, c ≠ '>' ∧ c ≠ '"' ∧ c ≠ '\'') : Passes cs := by
  induction cs with
  | nil => exact passes_nil
  | cons c cs ih =>
    obtain ⟨hend, hquote, hsingle⟩ := h c List.mem_cons_self
    exact (passes_char hend hquote hsingle).append
      (ih fun d hd => h d (List.mem_cons_of_mem _ hd))

/-- Inside of quotes a tag does not end. -/
theorem tagBody?_quoted (h : '"' ∉ cs) (rest : List Char) :
    tagBody? (some '"') (cs ++ '"' :: rest) =
      (tagBody? none rest).map fun p => (cs ++ '"' :: p.1, p.2) := by
  induction cs with
  | nil => rfl
  | cons c cs ih =>
    rw [List.mem_cons, not_or] at h
    rw [List.cons_append, tagBody?, if_neg (Ne.symm h.1), ih h.2, Option.map_map]
    rfl

theorem passes_quoted (h : '"' ∉ cs) : Passes ('"' :: cs ++ ['"']) := by
  intro rest
  rw [List.append_assoc, List.cons_append, tagBody?, if_neg (by decide)]
  show (tagBody? (some '"') (cs ++ '"' :: rest)).map _ = _
  rw [tagBody?_quoted h, Option.map_map]
  simp only [Function.comp_def, List.cons_append, List.append_assoc, List.nil_append]

/-- A tag ends behind what it passes. -/
theorem tagBody?_of_passes (h : Passes body) (rest : List Char) :
    tagBody? none (body ++ '>' :: rest) = some (body, rest) := by
  rw [h]
  simp [tagBody?]

/-- What begins like a tag and passes is one. -/
theorem markupChunk?_tag (h : Passes (c :: body)) (hmark : c ≠ '!') (hquestion : c ≠ '?')
    (rest : List Char) :
    markupChunk? (c :: body ++ '>' :: rest) = some (.tag (c :: body), rest) := by
  have hcomment : after? ['!', '-', '-'] (c :: body ++ '>' :: rest) = none :=
    if_neg (Ne.symm hmark)
  have hdata : after? ['!', '[', 'C', 'D', 'A', 'T', 'A', '['] (c :: body ++ '>' :: rest) = none :=
    if_neg (Ne.symm hmark)
  rw [markupChunk?, hcomment, hdata]
  · dsimp only
    rw [tagBody?_of_passes h]
  · intro rest' heq
    cases heq
    exact hquestion rfl

/-- A tag is one chunk. -/
theorem chunks_tag (h : Passes (c :: body)) (hmark : c ≠ '!') (hquestion : c ≠ '?')
    (rest : List Char) :
    chunks ('<' :: c :: body ++ '>' :: rest) = .tag (c :: body) :: chunks rest := by
  have hchunk := markupChunk?_tag h hmark hquestion rest
  rw [List.cons_append, chunks]
  split
  · rename_i hnone
    rw [hchunk] at hnone
    cases hnone
  · rename_i hsome
    rw [hchunk] at hsome
    cases hsome
    rfl

theorem chunks_cons (h : c ≠ '<') (rest : List Char) :
    chunks (c :: rest) = .text (c :: rest.takeWhile (· != '<')) ::
      chunks (rest.dropWhile (· != '<')) := by
  rw [chunks]
  exact h

/-- A text up to a tag is one chunk. -/
theorem chunks_text (hne : cs ≠ []) (h : '<' ∉ cs) (rest : List Char) :
    chunks (cs ++ '<' :: rest) = .text cs :: chunks ('<' :: rest) := by
  cases cs with
  | nil => exact absurd rfl hne
  | cons c cs =>
    rw [List.mem_cons, not_or] at h
    have hall : ∀ d ∈ cs, (d != '<') = true := fun d hd =>
      bne_iff_ne.2 fun heq => h.2 (heq ▸ hd)
    have htake : (cs ++ '<' :: rest).takeWhile (· != '<') = cs := by
      rw [List.takeWhile_append_of_pos hall]
      exact List.append_nil cs
    have hdrop : (cs ++ '<' :: rest).dropWhile (· != '<') = '<' :: rest := by
      rw [List.dropWhile_append_of_pos hall]
      rfl
    rw [List.cons_append, chunks_cons (Ne.symm h.1), htake, hdrop]

/-- Before a tag there is nothing to skip. -/
theorem skipMisc?_tag {after : List Char} (h : markupChunk? rest = some (.tag body, after)) :
    skipMisc? ('<' :: rest) = some ('<' :: rest) := by
  have hskip : skip isSpace ('<' :: rest) = '<' :: rest := rfl
  rw [skipMisc?]
  split
  · rename_i hs
    rw [hskip] at hs
    cases hs
    split
    · rename_i hcomment
      rw [h] at hcomment
      cases hcomment
    · rename_i hinstruction
      rw [h] at hinstruction
      cases hinstruction
    · rfl
  · rw [hskip]

/-! ## Tags as they are written -/

/-- The name that is spelled. -/
def spelled (w : String) : QName := (QName.read? w.toList).getD ⟨"", w⟩

/-- A text spells a name. -/
def Spells (w : String) : Prop := (QName.read? w.toList).isSome = true

instance (w : String) : Decidable (Spells w) :=
  inferInstanceAs (Decidable ((QName.read? w.toList).isSome = true))

theorem Spells.read? {w : String} (h : Spells w) : QName.read? w.toList = some (spelled w) := by
  obtain ⟨q, hq⟩ := Option.isSome_iff_exists.1 h
  rw [spelled, hq]
  rfl

/-- A spelled name begins as names do. -/
theorem Spells.exists_cons {w : String} (h : Spells w) :
    ∃ c cs, w.toList = c :: cs ∧ isNameStart c = true := by
  have hbegins := QName.begins_of_read? h.read?
  cases hw : w.toList with
  | nil =>
    rw [hw] at hbegins
    cases hbegins
  | cons c cs =>
    rw [hw, QName.begins_cons] at hbegins
    exact ⟨c, cs, rfl, hbegins⟩

/-- Nothing in a spelled name ends a tag or begins a quote. -/
theorem Spells.passes {w : String} (h : Spells w) : Passes w.toList :=
  passes_of_plain fun _ hc =>
    ⟨QName.ne_of_mem_read? h.read? hc (by decide), QName.ne_of_mem_read? h.read? hc (by decide),
      QName.ne_of_mem_read? h.read? hc (by decide)⟩

/-- An attribute whose name is spelled and whose value keeps all its characters. -/
def Legible (a : String × String) : Prop :=
  Spells a.1 ∧ ∀ c ∈ a.2.toList, keptInValue c = true

/-- An attribute with the name that it spells. -/
def attributeOf (a : String × String) : QName × String := (spelled a.1, a.2)

/-- An attribute with the name that it spells, and its value as it is written. -/
def rawOf (a : String × String) : QName × List Char :=
  (spelled a.1, a.2.toList.flatMap escapeValue)

variable {a : String × String} {attrs : List (String × String)}

theorem passes_attributeText (h : Legible a) : Passes (attributeText a.1 a.2) := by
  have hquote := quote_not_mem_escaped a.2.toList
  have hspace : Passes [' '] := passes_char (by decide) (by decide) (by decide)
  have hequals : Passes ['='] := passes_char (by decide) (by decide) (by decide)
  have hall := ((hspace.append h.1.passes).append hequals).append (passes_quoted hquote)
  have heq : attributeText a.1 a.2 = [' '] ++ a.1.toList ++ ['='] ++
      ('"' :: a.2.toList.flatMap escapeValue ++ ['"']) := by
    simp [attributeText]
  rw [heq]
  exact hall

theorem passes_attributes (h : ∀ a ∈ attrs, Legible a) :
    Passes (attrs.flatMap fun a => attributeText a.1 a.2) := by
  induction attrs with
  | nil => exact passes_nil
  | cons a attrs ih =>
    rw [List.flatMap_cons]
    exact (passes_attributeText (h a List.mem_cons_self)).append
      (ih fun b hb => h b (List.mem_cons_of_mem _ hb))

/-- A written attribute is read, up to its closing quote. -/
theorem attribute?_written (h : Legible a) (rest : List Char) :
    attribute? (a.1.toList ++ '=' :: '"' :: a.2.toList.flatMap escapeValue ++ '"' :: rest) =
      some (rawOf a, rest) := by
  have hname : EndsName ('=' :: '"' :: a.2.toList.flatMap escapeValue ++ '"' :: rest) :=
    endsName_cons (by decide)
  rw [List.append_assoc, attribute?]
  show (qname? (a.1.toList ++ ('=' :: '"' :: a.2.toList.flatMap escapeValue ++ '"' :: rest))).bind
    _ = _
  rw [QName.qname?_append h.1.read? hname]
  show (quoted? '"' (a.2.toList.flatMap escapeValue ++ '"' :: rest)).bind _ = _
  rw [quoted?, Text.splitAt?_of_not_mem (quote_not_mem_escaped _)]
  rfl

/-- How a tag ends. -/
def ending (closed : Bool) : List Char := if closed then ['/'] else []

theorem attributes?_ending (closed : Bool) :
    attributes? (ending closed) = some ([], closed) := by
  have hskip : skip isSpace (ending closed) = ending closed := by cases closed <;> rfl
  rw [attributes?]
  split
  · rename_i hs
    rw [hskip] at hs
    cases closed
    · rfl
    · cases hs
  · rename_i hs
    rw [hskip] at hs
    cases closed
    · cases hs
    · rfl
  · rename_i hslash hs
    rw [hskip] at hs
    cases closed
    · cases hs
    · cases hs
      exact (hslash rfl rfl).elim

/-- An attribute behind white space is read before the others. -/
theorem attributes?_cons {c : Char} {a : QName × List Char} {after : List Char}
    (hspace : isSpace c = false) (hslash : c ≠ '/') (ha : attribute? (c :: cs) = some (a, after)) :
    attributes? (' ' :: c :: cs) = (attributes? after).map fun p => (a :: p.1, p.2) := by
  have hskip : skip isSpace (' ' :: c :: cs) = c :: cs := by
    show (c :: cs).dropWhile isSpace = c :: cs
    rw [List.dropWhile_cons, hspace]
    rfl
  rw [attributes?]
  split
  · rename_i hs
    rw [hskip] at hs
    cases hs
  · rename_i hs
    rw [hskip] at hs
    cases hs
    exact absurd rfl hslash
  · rename_i hs
    rw [hskip] at hs
    cases hs
    rw [if_neg (by simp [spaces?, isSpace])]
    split
    · rename_i hnone
      rw [ha] at hnone
      cases hnone
    · rename_i hsome
      rw [ha] at hsome
      cases hsome
      rfl

/-- Written attributes are read one by one. -/
theorem attributes?_written (h : ∀ a ∈ attrs, Legible a) (closed : Bool) :
    attributes? ((attrs.flatMap fun a => attributeText a.1 a.2) ++ ending closed) =
      some (attrs.map rawOf, closed) := by
  induction attrs with
  | nil => exact attributes?_ending closed
  | cons a attrs ih =>
    have ha := h a List.mem_cons_self
    obtain ⟨c, cs, hcs, hc⟩ := ha.1.exists_cons
    have hspace : isSpace c = false := by
      rw [Bool.eq_false_iff]
      intro hspace
      simp only [isSpace, Bool.or_eq_true, beq_iff_eq] at hspace
      rcases hspace with ((rfl | rfl) | rfl) | rfl <;> cases hc
    have hread := attribute?_written ha
      ((attrs.flatMap fun a => attributeText a.1 a.2) ++ ending closed)
    rw [hcs] at hread
    have hrest := ih fun b hb => h b (List.mem_cons_of_mem _ hb)
    have hcons := attributes?_cons hspace (ne_of_isNameStart hc (by decide)) hread
    rw [hrest] at hcons
    rw [List.flatMap_cons, attributeText, hcs]
    simpa using hcons

/-- Written values are read as they were. -/
theorem values?_written (count : Nat) (h : ∀ a ∈ attrs, Legible a) :
    values? entities maxLevels count (attrs.map rawOf) = some (attrs.map attributeOf, count) := by
  induction attrs with
  | nil => rfl
  | cons a attrs ih =>
    have ha := (h a List.mem_cons_self).2
    rw [List.map_cons, rawOf, values?, if_pos (all_escaped ha), value?_written count ha,
      List.map_cons]
    show (values? entities maxLevels count (attrs.map rawOf)).bind _ = _
    rw [ih fun b hb => h b (List.mem_cons_of_mem _ hb)]
    show some ((spelled a.1, String.ofList a.2.toList) :: _, count) = _
    rw [String.ofList_toList]
    rfl

end Markup

namespace Tag

open Markup

variable {t : Tag} {entities : Entities}

/-- A tag whose names are spelled and whose values keep all their characters. -/
def Legible (t : Tag) : Prop := Spells t.name ∧ ∀ a ∈ t.attrs, Markup.Legible a

/-- The token of a tag. -/
def token (t : Tag) (closed : Bool) : Token :=
  .start (spelled t.name) (t.attrs.map attributeOf) closed

/-- What stands between the brackets of a tag. -/
def body (t : Tag) (closed : Bool) : List Char :=
  t.name.toList ++ ((t.attrs.flatMap fun a => attributeText a.1 a.2) ++ ending closed)

theorem Legible.passes (h : t.Legible) (closed : Bool) : Passes (t.body closed) := by
  have hending : Passes (ending closed) := by
    cases closed
    · exact passes_nil
    · exact passes_char (by decide) (by decide) (by decide)
  exact h.1.passes.append ((passes_attributes h.2).append hending)

theorem Legible.endsName (closed : Bool) :
    EndsName ((t.attrs.flatMap fun a => attributeText a.1 a.2) ++ ending closed) := by
  cases t.attrs with
  | nil =>
    cases closed
    · intro c hc
      cases hc
    · exact endsName_cons (by decide)
  | cons a attrs => exact endsName_cons (by decide)

theorem Legible.startTag? (h : t.Legible) (closed : Bool) (count : Nat) :
    startTag? entities maxLevels count (t.body closed) =
      some (t.token closed, closed, count) := by
  rw [Markup.startTag?, body]
  show (qname? (t.name.toList ++ _)).bind _ = _
  rw [QName.qname?_append h.1.read? (Legible.endsName closed)]
  show (attributes? _).bind _ = _
  rw [attributes?_written h.2 closed]
  show (values? entities maxLevels count _).bind _ = _
  rw [values?_written count h.2]
  rfl

theorem Legible.endTag? (h : t.Legible) : endTag? t.name.toList = some (spelled t.name) := by
  have hends : EndsName [] := fun c hc => nomatch hc
  have hname := QName.qname?_append h.1.read? hends
  rw [List.append_nil] at hname
  rw [Markup.endTag?, hname]
  rfl

/-- A written tag is one chunk. -/
theorem Legible.chunks (h : t.Legible) (closed : Bool) (rest : List Char) :
    chunks ('<' :: t.body closed ++ '>' :: rest) =
      .tag (t.body closed) :: Markup.chunks rest := by
  obtain ⟨c, cs, hcs, hc⟩ := h.1.exists_cons
  have hpasses := h.passes closed
  rw [body, hcs] at hpasses ⊢
  exact chunks_tag hpasses (ne_of_isNameStart hc (by decide)) (ne_of_isNameStart hc (by decide))
    rest

theorem Legible.chunks_end (h : t.Legible) (rest : List Char) :
    Markup.chunks ('<' :: '/' :: t.name.toList ++ '>' :: rest) =
      .tag ('/' :: t.name.toList) :: Markup.chunks rest := by
  have hslash : Passes ['/'] := passes_char (by decide) (by decide) (by decide)
  exact chunks_tag (hslash.append h.1.passes) (by decide) (by decide) rest

end Tag

namespace Node

open Markup

/-- A character that a text keeps: one that may occur, and no carriage return. -/
def keptInText (c : Char) : Bool := isAllowed c && c != '\r'

/-- The tokens of some nodes behind a text that has not ended. -/
def tokensFrom (pending : List Char) : List Node → List Token
  | [] => flush pending.reverse
  | .text s :: ns => tokensFrom (pending ++ s.toList) ns
  | .element tag [] :: ns => flush pending.reverse ++ tag.token true :: tokensFrom [] ns
  | .element tag (n :: children) :: ns =>
    flush pending.reverse ++ tag.token false ::
      (tokensFrom [] (n :: children) ++ .stop (spelled tag.name) :: tokensFrom [] ns)

theorem tokensFrom_nil : tokensFrom [] [] = [] := by
  rw [tokensFrom]
  rfl

end Node

namespace Markup

variable {entities : Entities} {inner : Nat → List Char → Option (List Token × Nat)}
  {p : Progress} {t : Tag} {rest : List Chunk}

/-! ## Content -/

theorem contentWith_start (h : t.Legible) (closed : Bool) :
    contentWith entities maxLevels inner p (.tag (t.body closed) :: rest) =
      (contentWith entities maxLevels inner
        ⟨p.count, if closed then p.opened else p.opened + 1, true⟩ rest).map
          fun r => (t.token closed :: r.1, r.2) := by
  obtain ⟨c, cs, hcs, hc⟩ := h.1.exists_cons
  have hslash : ∀ body, t.body closed = '/' :: body → False := by
    intro body heq
    rw [Tag.body, hcs] at heq
    cases heq
    cases hc
  rw [contentWith, h.startTag?]
  · exact Option.map_eq_bind.symm
  · exact hslash

/-- An end tag inside of another element. -/
theorem contentWith_stop (h : t.Legible) (hstarted : p.started = true) (hopened : 1 < p.opened) :
    contentWith entities maxLevels inner p (.tag ('/' :: t.name.toList) :: rest) =
      (contentWith entities maxLevels inner { p with opened := p.opened - 1 } rest).map
        fun r => (.stop (spelled t.name) :: r.1, r.2) := by
  rw [contentWith, if_pos hstarted, h.endTag?]
  have hinside : ¬ p.opened ≤ 1 := by omega
  show (if p.opened ≤ 1 then _ else _) = _
  rw [if_neg hinside]
  exact Option.map_eq_bind.symm

/-- The end tag that closes the content. -/
theorem contentWith_last (h : t.Legible) (hstarted : p.started = true) (hopened : p.opened ≤ 1) :
    contentWith entities maxLevels inner p (.tag ('/' :: t.name.toList) :: rest) =
      some ([.stop (spelled t.name)], p.count, rest) := by
  rw [contentWith, if_pos hstarted, h.endTag?]
  exact if_pos hopened

theorem escapeText_ne_nil (c : Char) : escapeText c ≠ [] := by
  rw [escapeText]
  split
  · exact List.cons_ne_nil _ _
  split
  · exact List.cons_ne_nil _ _
  split
  · exact List.cons_ne_nil _ _
  · exact List.cons_ne_nil _ _

/-- Escaped text up to a tag. -/
theorem contentWith_text {cs : List Char} (hcs : ∀ c ∈ cs, Node.keptInText c = true)
    (more : List Char) :
    contentWith entities maxLevels inner p (chunks (cs.flatMap escapeText ++ '<' :: more)) =
      (contentWith entities maxLevels inner p (chunks ('<' :: more))).map
        fun r => (flush cs.reverse ++ r.1, r.2) := by
  by_cases hempty : cs = []
  · subst hempty
    exact Option.map_id'.symm
  · have hne : cs.flatMap escapeText ≠ [] := fun hnil => by
      obtain ⟨c, hc⟩ := List.exists_mem_of_ne_nil cs hempty
      exact escapeText_ne_nil c (List.flatMap_eq_nil_iff.1 hnil c hc)
    have hallowed : ∀ c ∈ cs, isAllowed c = true := fun c hc =>
      (Bool.and_eq_true_iff.1 (hcs c hc)).1
    have hreturn : '\r' ∉ cs := fun hmem => by cases hcs _ hmem
    rw [chunks_text hne (bracket_not_mem_escaped cs), contentWith, if_pos (isText_escaped hallowed),
      pieces?_flatMap pieces?_escapeText]
    show (textTokens entities true inner p.count false [] (cs.map textPiece)).bind _ = _
    rw [textTokens_written p.count hreturn (by simp), List.append_nil]
    exact Option.map_eq_bind.symm

end Markup

namespace Node

open Markup

variable {entities : Entities} {inner : Nat → List Char → Option (List Token × Nat)}

/-! ## Nodes -/

theorem chars_closed (tag : Tag) :
    (element tag []).chars = '<' :: tag.body true ++ ['>'] := by
  simp [chars, Tag.body, ending]

theorem chars_open (tag : Tag) (n : Node) (children : List Node) :
    (element tag (n :: children)).chars = '<' :: tag.body false ++ '>' ::
      (listChars (n :: children) ++ '<' :: '/' :: tag.name.toList ++ ['>']) := by
  simp [chars, Tag.body, ending]

/-- A start tag behind a text. -/
theorem contentWith_tag {pending : List Char} (hpending : ∀ c ∈ pending, keptInText c = true)
    {p : Markup.Progress} {tag : Tag} (htag : tag.Legible) (closed : Bool) (more : List Char) :
    contentWith entities maxLevels inner p
        (chunks (pending.flatMap escapeText ++ '<' :: tag.body closed ++ '>' :: more)) =
      (contentWith entities maxLevels inner
        ⟨p.count, if closed then p.opened else p.opened + 1, true⟩ (chunks more)).map
          fun r => (flush pending.reverse ++ tag.token closed :: r.1, r.2) := by
  rw [List.append_assoc, List.cons_append, contentWith_text hpending, ← List.cons_append,
    htag.chunks, contentWith_start htag, Option.map_map]
  rfl

/-- The content that is written has the tokens of its nodes. -/
theorem contentWith_written (pending : List Char) (ns : List Node)
    (htags : ∀ t ∈ listTags ns, t.Legible)
    (htexts : ∀ c ∈ pending ++ listTextChars ns, keptInText c = true)
    {p : Markup.Progress} (hstarted : p.started = true) (hopened : 1 ≤ p.opened)
    (more : List Char) :
    contentWith entities maxLevels inner p
        (chunks (pending.flatMap escapeText ++ (listChars ns ++ '<' :: more))) =
      (contentWith entities maxLevels inner p (chunks ('<' :: more))).map
        fun r => (tokensFrom pending ns ++ r.1, r.2) := by
  -- a text waits for the tag behind it, so that only tags and the end take a step of the reader
  fun_induction tokensFrom pending ns generalizing p more with
  | case1 pending =>
    exact contentWith_text (fun c hc => htexts c (List.mem_append_left _ hc)) more
  | case2 pending s ns ih =>
    have hjoin : pending.flatMap escapeText ++ (listChars (.text s :: ns) ++ '<' :: more) =
        (pending ++ s.toList).flatMap escapeText ++ (listChars ns ++ '<' :: more) := by
      simp only [listChars, chars, List.flatMap_append, List.append_assoc]
    rw [hjoin]
    refine ih htags (fun c hc => htexts c ?_) hstarted hopened more
    rwa [List.append_assoc] at hc
  | case3 pending tag ns ih =>
    have htag : tag.Legible := htags tag List.mem_cons_self
    have hshape : pending.flatMap escapeText ++ (listChars (.element tag [] :: ns) ++ '<' :: more) =
        pending.flatMap escapeText ++ '<' :: tag.body true ++
          '>' :: (listChars ns ++ '<' :: more) := by
      rw [listChars, chars_closed]
      simp only [List.append_assoc, List.cons_append, List.nil_append]
    have hrest := ih (fun t ht => htags t (List.mem_cons_of_mem _ ht))
      (fun c hc => htexts c (List.mem_append_right _ hc)) (p := ⟨p.count, p.opened, true⟩)
      rfl hopened more
    have hp : (⟨p.count, p.opened, true⟩ : Markup.Progress) = p := by rw [← hstarted]
    rw [List.flatMap_nil, List.nil_append, hp] at hrest
    rw [hshape, contentWith_tag (fun c hc => htexts c (List.mem_append_left _ hc)) htag, if_pos rfl,
      hp, hrest, Option.map_map]
    simp only [Function.comp_def, List.append_assoc, List.cons_append]
  | case4 pending tag n children ns ihchildren ih =>
    have htag : tag.Legible := htags tag List.mem_cons_self
    have hshape : pending.flatMap escapeText ++
        (listChars (.element tag (n :: children) :: ns) ++ '<' :: more) =
        pending.flatMap escapeText ++ '<' :: tag.body false ++ '>' :: (listChars (n :: children) ++
          '<' :: ('/' :: tag.name.toList ++ '>' :: (listChars ns ++ '<' :: more))) := by
      rw [listChars, chars_open]
      simp only [List.append_assoc, List.cons_append, List.nil_append]
    have hinside := ihchildren
      (fun t ht => htags t (List.mem_cons_of_mem _ (List.mem_append_left _ ht)))
      (fun c hc => htexts c (List.mem_append_right _ (List.mem_append_left _ hc)))
      (p := ⟨p.count, p.opened + 1, true⟩) rfl (by dsimp only; omega)
      ('/' :: tag.name.toList ++ '>' :: (listChars ns ++ '<' :: more))
    have hrest := ih
      (fun t ht => htags t (List.mem_cons_of_mem _ (List.mem_append_right _ ht)))
      (fun c hc => htexts c (List.mem_append_right _ (List.mem_append_right _ hc)))
      hstarted hopened more
    have hp : (⟨p.count, p.opened + 1 - 1, true⟩ : Markup.Progress) = p := by
      rw [← hstarted, Nat.add_sub_cancel]
    -- the end tag belongs to an element inside, since one more is open than before
    have hstop : contentWith entities maxLevels inner ⟨p.count, p.opened + 1, true⟩
        (.tag ('/' :: tag.name.toList) :: chunks (listChars ns ++ '<' :: more)) = _ :=
      contentWith_stop htag rfl (by dsimp only; omega)
    rw [hshape, contentWith_tag (fun c hc => htexts c (List.mem_append_left _ hc)) htag,
      if_neg (by decide)]
    rw [List.flatMap_nil, List.nil_append] at hinside hrest
    have hend : '<' :: ('/' :: tag.name.toList ++ '>' :: (listChars ns ++ '<' :: more)) =
        '<' :: '/' :: tag.name.toList ++ '>' :: (listChars ns ++ '<' :: more) := rfl
    rw [hinside, hend, htag.chunks_end, hstop, hp, hrest]
    simp only [Option.map_map, Function.comp_def, List.append_assoc, List.cons_append]

/-- The element that is written has the tokens of its node. -/
theorem rootTokens?_written {tag : Tag} {children : List Node}
    (htags : ∀ t ∈ (element tag children).tags, t.Legible)
    (htexts : ∀ c ∈ (element tag children).textChars, keptInText c = true) :
    rootTokens? entities (element tag children).chars =
      some (tokensFrom [] [element tag children]) := by
  have htag : tag.Legible := htags tag List.mem_cons_self
  have hnil : chunks [] = [] := by rw [chunks]
  cases children with
  | nil =>
    rw [chars_closed, rootTokens?, htag.chunks]
    dsimp only
    rw [hnil, htag.startTag?, tokensFrom, tokensFrom_nil]
    rfl
  | cons n children =>
    have hcontent : contentWith entities maxLevels (entityTokens entities (maxLevels - 1))
        ⟨0, 1, true⟩
          (chunks (listChars (n :: children) ++ '<' :: '/' :: tag.name.toList ++ ['>'])) =
        some (tokensFrom [] (n :: children) ++ [.stop (spelled tag.name)], 0, []) := by
      have hread := @contentWith_written entities (entityTokens entities (maxLevels - 1)) []
        (n :: children) (fun t ht => htags t (List.mem_cons_of_mem _ ht)) htexts
        ⟨0, 1, true⟩ rfl (Nat.le_refl 1) ('/' :: tag.name.toList ++ ['>'])
      rw [List.flatMap_nil, List.nil_append] at hread
      rw [List.append_assoc, List.cons_append, hread, ← List.cons_append, htag.chunks_end,
        contentWith_last htag rfl (Nat.le_refl 1), hnil]
      rfl
    rw [chars_open, rootTokens?, htag.chunks]
    dsimp only
    rw [htag.startTag?, tokensFrom, tokensFrom_nil]
    show (contentWith entities maxLevels (entityTokens entities (maxLevels - 1)) ⟨0, 1, true⟩
      _).bind _ = _
    rw [hcontent]
    rfl

/-- A text that begins with a tag has no declaration. -/
theorem skipStart?_tag {c : Char} (hquestion : c ≠ '?') (cs : List Char) :
    skipStart? ('<' :: c :: cs) = some ('<' :: c :: cs) := by
  have hfirst : after? ['<', '?', 'x', 'm', 'l', ' '] ('<' :: c :: cs) = none :=
    if_neg (Ne.symm hquestion)
  have hmarker : after? ['\uFEFF'] ('<' :: c :: cs) = none := rfl
  rw [skipStart?, hmarker]
  dsimp only [Option.getD_none]
  rw [hfirst]

/-- A text that begins with a tag has no document type. -/
theorem ofChars?_written {tag : Tag} {children : List Node}
    (htags : ∀ t ∈ (element tag children).tags, t.Legible)
    (htexts : ∀ c ∈ (element tag children).textChars, keptInText c = true) :
    Document.ofChars? (element tag children).chars =
      build? (tokensFrom [] [element tag children]) := by
  have htag : tag.Legible := htags tag List.mem_cons_self
  have hbegins : ∃ closed more, (element tag children).chars =
      '<' :: tag.body closed ++ '>' :: more := by
    cases children with
    | nil => exact ⟨true, [], chars_closed tag⟩
    | cons n children => exact ⟨false, _, chars_open tag n children⟩
  obtain ⟨closed, more, hchars⟩ := hbegins
  obtain ⟨c, cs, hcs, hc⟩ := htag.1.exists_cons
  have hmark : c ≠ '!' := ne_of_isNameStart hc (by decide)
  have hquestion : c ≠ '?' := ne_of_isNameStart hc (by decide)
  have hbody : tag.body closed = c :: (tag.body closed).tail := by
    rw [Tag.body, hcs]
    rfl
  have hpasses := htag.passes closed
  rw [hbody] at hpasses hchars
  have hstart : skipStart? (element tag children).chars = some (element tag children).chars := by
    rw [hchars]
    exact skipStart?_tag hquestion _
  have hmisc : skipMisc? (element tag children).chars = some (element tag children).chars := by
    rw [hchars]
    exact skipMisc?_tag (markupChunk?_tag hpasses hmark hquestion more)
  have htype : after? ['<', '!', 'D', 'O', 'C', 'T', 'Y', 'P', 'E'] (element tag children).chars =
      none := by
    rw [hchars]
    exact if_neg (Ne.symm hmark)
  rw [Document.ofChars?, hstart]
  show (skipMisc? (element tag children).chars).bind _ = _
  rw [hmisc]
  dsimp only [Option.bind_some]
  rw [htype]
  dsimp only
  rw [rootTokens?_written htags htexts]
  rfl

end Node

end Slideshow

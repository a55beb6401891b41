/-
  Slideshow.Proofs.Markup.Spelling

  Names as they are spelled. A name is read off the front of a text up to the first character
  that cannot belong to it (`qname?_append`), and what is read is proper: its parts are made of
  name characters, without a colon in them (`proper_of_qname?`), so that it can be spelled
  again (`read?_of_isPart`).
-/
import Slideshow.Markup.Character

namespace Slideshow

namespace Text

variable {isSeparator : Char → Bool} {c : Char} {cs ds : List Char}

/-! ## Pieces -/

theorem pieces_of_none (h : ∀ c ∈ cs, isSeparator c = false) : pieces isSeparator cs = [cs] := by
  induction cs with
  | nil => rfl
  | cons c cs ih =>
    have hc : isSeparator c = false := h c List.mem_cons_self
    rw [pieces, hc, ih fun d hd => h d (List.mem_cons_of_mem _ hd)]
    rfl

/-- A separator ends the pieces before it. -/
theorem pieces_append (h : isSeparator c = true) (cs ds : List Char) :
    pieces isSeparator (cs ++ c :: ds) = pieces isSeparator cs ++ pieces isSeparator ds := by
  induction cs with
  | nil => exact if_pos h
  | cons b cs ih =>
    rw [List.cons_append, pieces, ih, pieces]
    split
    · rfl
    · cases hp : pieces isSeparator cs with
      | nil => exact absurd hp (pieces_ne_nil isSeparator cs)
      | cons p ps => rfl

/-- A text that does not begin with a separator begins as its first piece does. -/
theorem exists_pieces_cons (isSeparator : Char → Bool) (h : isSeparator c = false)
    (cs : List Char) :
    ∃ p ps, pieces isSeparator (c :: cs) = (c :: p) :: ps := by
  cases hps : pieces isSeparator cs with
  | nil => exact absurd hps (pieces_ne_nil isSeparator cs)
  | cons p ps =>
    refine ⟨p, ps, ?_⟩
    rw [pieces, h, hps]
    rfl

/-- No piece holds a separator, and its characters come from the text. -/
theorem of_mem_piece {p : List Char} (hp : p ∈ pieces isSeparator cs) (hc : c ∈ p) :
    isSeparator c = false ∧ c ∈ cs := by
  induction cs generalizing p with
  | nil =>
    rw [pieces, List.mem_singleton] at hp
    subst hp
    cases hc
  | cons b cs ih =>
    rw [pieces] at hp
    split at hp
    · rcases List.mem_cons.1 hp with rfl | hp
      · cases hc
      · exact ⟨(ih hp hc).1, List.mem_cons_of_mem _ (ih hp hc).2⟩
    · rename_i hb
      cases hps : pieces isSeparator cs with
      | nil => exact absurd hps (pieces_ne_nil isSeparator cs)
      | cons q qs =>
        rw [hps] at hp ih
        rcases List.mem_cons.1 hp with rfl | hp
        · rcases List.mem_cons.1 hc with rfl | hc
          · exact ⟨Bool.eq_false_iff.2 hb, List.mem_cons_self⟩
          · have hq := ih List.mem_cons_self hc
            exact ⟨hq.1, List.mem_cons_of_mem _ hq.2⟩
        · have hq := ih (List.mem_cons_of_mem _ hp) hc
          exact ⟨hq.1, List.mem_cons_of_mem _ hq.2⟩

end Text

namespace Markup

variable {c d : Char} {cs ds rest : List Char} {q : QName}

/-! ## The front of a text -/

/-- Characters of which one can belong to a name and the other one cannot. -/
theorem ne_of_isNameChar (hc : isNameChar c = true) (hd : isNameChar d = false) : c ≠ d := by
  rintro rfl
  rw [hc] at hd
  cases hd

theorem ne_of_isNameStart (hc : isNameStart c = true) (hd : isNameStart d = false) : c ≠ d := by
  rintro rfl
  rw [hc] at hd
  cases hd

/-- What follows does not continue a name. -/
def EndsName (rest : List Char) : Prop := ∀ c ∈ rest.head?, isNameChar c = false

theorem endsName_cons (h : isNameChar c = false) : EndsName (c :: rest) := by
  intro d hd
  rw [List.head?_cons, Option.mem_some_iff] at hd
  rw [← hd, h]

theorem takeWhile_name (h : cs.all isNameChar = true) (hrest : EndsName rest) :
    (cs ++ rest).takeWhile isNameChar = cs ∧ (cs ++ rest).dropWhile isNameChar = rest := by
  have hstop : rest.takeWhile isNameChar = [] ∧ rest.dropWhile isNameChar = rest := by
    cases rest with
    | nil => exact ⟨rfl, rfl⟩
    | cons c rest =>
      have hc : isNameChar c = false := hrest c rfl
      rw [List.takeWhile_cons, List.dropWhile_cons, hc]
      exact ⟨rfl, rfl⟩
  have hall : ∀ c ∈ cs, isNameChar c = true := List.all_eq_true.1 h
  rw [List.takeWhile_append_of_pos hall, List.dropWhile_append_of_pos hall, hstop.1, hstop.2,
    List.append_nil]
  exact ⟨rfl, rfl⟩

/-- The name that a whole text spells. -/
def QName.read? (cs : List Char) : Option QName :=
  if cs.all isNameChar then QName.ofChars? cs else none

namespace QName

/-- A text begins as names do. -/
def Begins (cs : List Char) : Prop := (cs.head?.map isNameStart).getD false = true

theorem begins_cons : Begins (c :: cs) ↔ isNameStart c = true := Iff.rfl

/-- A name has one part or two, of which only the first one may be empty. -/
theorem ofChars?_eq_some_iff : ofChars? cs = some q ↔
    (∃ name, Text.pieces (· == ':') cs = [name] ∧ Begins name ∧ q = ⟨"", String.ofList name⟩) ∨
    ∃ shorthand name, Text.pieces (· == ':') cs = [shorthand, name] ∧
      (shorthand = [] ∨ Begins shorthand) ∧ Begins name ∧
        q = ⟨String.ofList shorthand, String.ofList name⟩ := by
  rw [ofChars?]
  split
  · rename_i name hps
    rw [Option.ite_none_right_eq_some, Option.some.injEq]
    constructor
    · rintro ⟨hname, rfl⟩
      exact .inl ⟨name, hps, hname, rfl⟩
    · rw [hps]
      rintro (⟨_, heq, hname, rfl⟩ | ⟨_, _, heq, _⟩) <;> cases heq
      exact ⟨hname, rfl⟩
  · rename_i shorthand name hps
    rw [Option.ite_none_right_eq_some, Option.some.injEq, Bool.and_eq_true, Bool.or_eq_true,
      List.isEmpty_iff]
    constructor
    · rintro ⟨⟨hspace, hname⟩, rfl⟩
      exact .inr ⟨shorthand, name, hps, hspace, hname, rfl⟩
    · rw [hps]
      rintro (⟨_, heq, _⟩ | ⟨_, _, heq, hspace, hname, rfl⟩) <;> cases heq
      exact ⟨⟨hspace, hname⟩, rfl⟩
  · rename_i hone htwo
    constructor
    · intro h
      cases h
    · rintro (⟨name, hps, _⟩ | ⟨shorthand, name, hps, _⟩)
      · exact absurd hps (hone name)
      · exact absurd hps (htwo shorthand name)

theorem read?_eq_some_iff :
    read? cs = some q ↔ cs.all isNameChar = true ∧ ofChars? cs = some q := by
  simp [read?]

/-- A name is read as far as it goes. -/
theorem qname?_append (h : read? cs = some q) (hrest : EndsName rest) :
    qname? (cs ++ rest) = some (q, rest) := by
  obtain ⟨hall, hq⟩ := read?_eq_some_iff.1 h
  obtain ⟨htake, hdrop⟩ := takeWhile_name hall hrest
  rw [qname?, htake, hdrop, hq]
  rfl

/-- What is spelled begins as names do. -/
theorem begins_of_read? (h : read? cs = some q) : Begins cs := by
  have hq := ofChars?_eq_some_iff.1 (read?_eq_some_iff.1 h).2
  cases cs with
  | nil =>
    rcases hq with ⟨name, hps, hname, _⟩ | ⟨_, _, hps, _⟩
    · cases hps
      exact hname
    · cases hps
  | cons c cs =>
    rw [begins_cons]
    by_cases hcolon : c = ':'
    · rw [hcolon]
      rfl
    · obtain ⟨p, ps, hp⟩ :=
        Text.exists_pieces_cons (· == ':') (beq_false_of_ne hcolon) cs
      rcases hq with ⟨name, hps, hname, _⟩ | ⟨shorthand, name, hps, hspace, _⟩
      · rw [hp] at hps
        cases hps
        exact hname
      · rw [hp] at hps
        cases hps
        rcases hspace with hnil | hspace
        · cases hnil
        · exact hspace

/-- No character of a name is one that cannot belong to names. -/
theorem ne_of_mem_read? (h : read? cs = some q) (hc : c ∈ cs) (hd : isNameChar d = false) :
    c ≠ d :=
  ne_of_isNameChar (List.all_eq_true.1 (read?_eq_some_iff.1 h).1 c hc) hd

/-! ## Proper names -/

/-- A part of a name: it begins as names do and has no colon in it. -/
structure IsPart (s : String) : Prop where
  begins : Begins s.toList
  isNameChar : s.toList.all isNameChar = true
  not_colon : ∀ c ∈ s.toList, (c == ':') = false

/-- The parts of a name can be spelled. -/
def Proper (q : QName) : Prop := (q.shorthand = "" ∨ IsPart q.shorthand) ∧ IsPart q.name

theorem proper_of_read? (h : read? cs = some q) : Proper q := by
  obtain ⟨hall, hq⟩ := read?_eq_some_iff.1 h
  have hpart : ∀ p ∈ Text.pieces (· == ':') cs, Begins p → IsPart (String.ofList p) := by
    intro p hp hstart
    have hmem := fun c hc => Text.of_mem_piece (c := c) hp hc
    constructor
    · rwa [String.toList_ofList]
    · rw [String.toList_ofList]
      exact List.all_eq_true.2 fun c hc => List.all_eq_true.1 hall c (hmem c hc).2
    · rw [String.toList_ofList]
      exact fun c hc => (hmem c hc).1
  rcases ofChars?_eq_some_iff.1 hq with
    ⟨name, hps, hname, rfl⟩ | ⟨space, name, hps, hspace, hname, rfl⟩
  · rw [hps] at hpart
    exact ⟨.inl rfl, hpart name List.mem_cons_self hname⟩
  · rw [hps] at hpart
    refine ⟨?_, hpart name (List.mem_cons_of_mem _ List.mem_cons_self) hname⟩
    rcases hspace with rfl | hspace
    · exact .inl rfl
    · exact .inr (hpart space List.mem_cons_self hspace)

/-- What stands at the front of a text as a name is proper. -/
theorem proper_of_qname? (h : qname? cs = some (q, rest)) : Proper q := by
  obtain ⟨_, hq, heq⟩ := Option.map_eq_some_iff.1 h
  cases heq
  have hread : read? (cs.takeWhile isNameChar) = some q := by
    rw [read?, List.all_takeWhile, if_pos rfl, hq]
  exact proper_of_read? hread

/-- A name with a shorthand before it can be spelled. -/
theorem read?_of_isPart {shorthand name : String} (hs : IsPart shorthand) (hn : IsPart name) :
    read? (shorthand.toList ++ ':' :: name.toList) = some ⟨shorthand, name⟩ := by
  have hall : (shorthand.toList ++ ':' :: name.toList).all isNameChar = true := by
    rw [List.all_append, List.all_cons, hs.isNameChar, hn.isNameChar]
    rfl
  have hpieces : Text.pieces (· == ':') (shorthand.toList ++ ':' :: name.toList) =
      [shorthand.toList, name.toList] := by
    rw [Text.pieces_append (by rfl), Text.pieces_of_none hs.not_colon,
      Text.pieces_of_none hn.not_colon]
    rfl
  refine read?_eq_some_iff.2 ⟨hall, ofChars?_eq_some_iff.2 (.inr ?_)⟩
  refine ⟨shorthand.toList, name.toList, hpieces, .inr hs.begins, hn.begins, ?_⟩
  rw [String.ofList_toList, String.ofList_toList]

/-- A name without a shorthand is what is spelled. -/
theorem name_of_read? (hcolon : ∀ c ∈ cs, (c == ':') = false) (h : read? cs = some q) :
    q.name = String.ofList cs := by
  have hq := ofChars?_eq_some_iff.1 (read?_eq_some_iff.1 h).2
  rw [Text.pieces_of_none hcolon] at hq
  rcases hq with ⟨name, hps, _, rfl⟩ | ⟨_, _, hps, _⟩
  · cases hps
    rfl
  · cases hps

/-- Behind a shorthand, the name is what is spelled behind the colon. -/
theorem name_of_read?_append (hcolon : ∀ c ∈ cs, (c == ':') = false)
    (h : read? (ds ++ ':' :: cs) = some q) : q.name = String.ofList cs := by
  have hq := ofChars?_eq_some_iff.1 (read?_eq_some_iff.1 h).2
  rw [Text.pieces_append (by rfl), Text.pieces_of_none hcolon] at hq
  cases hds : Text.pieces (· == ':') ds with
  | nil => exact absurd hds (Text.pieces_ne_nil _ ds)
  | cons p ps =>
    rw [hds] at hq
    rcases hq with ⟨name, hps, _, rfl⟩ | ⟨shorthand, name, hps, _, _, rfl⟩
    · cases ps <;> cases hps
    · cases ps with
      | nil =>
        cases hps
        rfl
      | cons p' ps => cases ps <;> cases hps

end QName

end Markup

end Slideshow

/-
  Slideshow.Markup.Chunk

  Markup cut into chunks: text, tags, comments, character data and instructions. A chunk
  that is not closed ends the row, a tag as `cut` and anything else as `broken`. Where a tag
  ends depends on the quotes in it.
-/
import Slideshow.Markup.Character

namespace Slideshow.Markup

open Text (isSpace)

/-! ## Tags -/

/-- A text up to the first `>` outside of quotes, and what follows it. -/
def tagBody? : Option Char → List Char → Option (List Char × List Char)
  | _, [] => none
  | none, c :: cs =>
    if c = '>' then some ([], cs)
    else
      (tagBody? (if c = '"' || c = '\'' then some c else none) cs).map fun p => (c :: p.1, p.2)
  | some quote, c :: cs =>
    (tagBody? (if c = quote then none else some quote) cs).map fun p => (c :: p.1, p.2)

theorem length_of_tagBody? {quote : Option Char} {cs body rest : List Char}
    (h : tagBody? quote cs = some (body, rest)) : rest.length < cs.length := by
  fun_induction tagBody? quote cs generalizing body rest with
  | case1 => cases h
  | case2 => simp at h; simp [h.2]
  | case3 c cs _ ih =>
    simp only [Option.map_eq_some_iff, Prod.mk.injEq] at h
    obtain ⟨p, hp, _, rfl⟩ := h
    exact Nat.lt_succ_of_lt (ih hp)
  | case4 quote c cs ih =>
    simp only [Option.map_eq_some_iff, Prod.mk.injEq] at h
    obtain ⟨p, hp, _, rfl⟩ := h
    exact Nat.lt_succ_of_lt (ih hp)

/-! ## Chunks -/

/-- A chunk of markup, without the characters that enclose it. -/
inductive Chunk where
  | text (cs : List Char)
  | tag (body : List Char)
  /-- A tag that the end of the text cuts off. -/
  | cut (body : List Char)
  | comment (body : List Char)
  | data (body : List Char)
  | instruction (body : List Char)
  | broken
  deriving DecidableEq, Repr

/-- The chunk behind a `<`, and what follows it. -/
def markupChunk? (cs : List Char) : Option (Chunk × List Char) :=
  match after? ['!', '-', '-'] cs with
  | some rest => (Text.splitAt? ['-', '-', '>'] rest).map fun p => (.comment p.1, p.2)
  | none =>
    match after? ['!', '[', 'C', 'D', 'A', 'T', 'A', '['] cs with
    | some rest => (Text.splitAt? [']', ']', '>'] rest).map fun p => (.data p.1, p.2)
    | none =>
      match cs with
      | '?' :: rest => (Text.splitAt? ['?', '>'] rest).map fun p => (.instruction p.1, p.2)
      | cs =>
        match tagBody? none cs with
        | some (body, rest) => some (.tag body, rest)
        | none => some (.cut cs, [])

theorem length_of_markupChunk? {cs rest : List Char} {chunk : Chunk}
    (h : markupChunk? cs = some (chunk, rest)) : rest.length ≤ cs.length := by
  unfold markupChunk? at h
  split at h
  · rename_i r hr
    simp only [Option.map_eq_some_iff, Prod.mk.injEq] at h
    obtain ⟨p, hp, _, rfl⟩ := h
    have := Text.length_of_splitAt? hp
    have := length_of_after? hr
    omega
  · split at h
    · rename_i r hr
      simp only [Option.map_eq_some_iff, Prod.mk.injEq] at h
      obtain ⟨p, hp, _, rfl⟩ := h
      have := Text.length_of_splitAt? hp
      have := length_of_after? hr
      omega
    · split at h
      · simp only [Option.map_eq_some_iff, Prod.mk.injEq] at h
        obtain ⟨p, hp, _, rfl⟩ := h
        exact Nat.le_succ_of_le (Text.length_of_splitAt? hp)
      · split at h
        · rename_i hp
          cases h
          exact Nat.le_of_lt (length_of_tagBody? hp)
        · cases h
          exact Nat.zero_le _

/-- The chunks of a text. -/
def chunks (cs : List Char) : List Chunk :=
  match cs with
  | [] => []
  | '<' :: rest =>
    match h : markupChunk? rest with
    | none => [.broken]
    | some (chunk, after) =>
      have : after.length ≤ rest.length := length_of_markupChunk? h
      chunk :: chunks after
  | c :: rest =>
    have : (rest.dropWhile (· != '<')).length ≤ rest.length :=
      (List.dropWhile_suffix _).length_le
    .text (c :: rest.takeWhile (· != '<')) :: chunks (rest.dropWhile (· != '<'))
termination_by cs.length

/-! ## Which chunks are well-formed -/

/-- Comments may not contain `--`, nor end in a hyphen. -/
def isComment (body : List Char) : Bool :=
  body.all isAllowed && !Text.hasPart ['-', '-'] body && body.getLast? != some '-'

/-- Instructions begin with a name; a declaration of the document may not stand among them. -/
def isInstruction (body : List Char) : Bool :=
  body.all isAllowed && (body.head?.map isNameStart).getD false &&
    (after? ['x', 'm', 'l', ' '] body).isNone

/-- Text may not contain the end mark of character data. -/
def isText (cs : List Char) : Bool :=
  cs.all isAllowed && !Text.hasPart [']', ']', '>'] cs

/-- A chunk that may stand outside the root element. -/
def Chunk.isMisc : Chunk → Bool
  | text cs => cs.all isSpace
  | comment body => isComment body
  | instruction body => isInstruction body
  | _ => false

end Slideshow.Markup

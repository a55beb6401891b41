/-
  Slideshow.Markup.Document

  Documents from text. Before the root element there may be a declaration, comments and
  instructions, and a document type, which can declare entities.
-/
import Slideshow.Markup.Tree

namespace Slideshow.Markup

open Text (isSpace skip length_skip_le)

/-! ## The declaration of a document -/

/-- White space, which must be there unless the declaration ends. -/
def declarationSpaces? (cs : List Char) : Option (List Char) :=
  if (after? ['?', '>'] cs).isSome || cs.isEmpty then some cs else spaces? cs

/-- An attribute of the declaration whose name begins in a given way, and what follows. -/
def declared? (name : List Char) (cs : List Char) : Option (List Char) :=
  (after? name cs).bind fun _ =>
    (attribute? cs).bind fun a =>
      if a.1.2.all fun c => isAllowed c && c != '<' then some a.2 else none

/-- What follows the declaration, which gives a version and may give an encoding and whether
    the document stands alone. -/
def skipDeclaration? (cs : List Char) : Option (List Char) := do
  let cs ← spaces? cs
  let cs ← declared? ['v', 'e', 'r', 's', 'i', 'o', 'n'] cs
  let cs ← declarationSpaces? cs
  let cs ←
    match after? ['e', 'n', 'c', 'o', 'd', 'i', 'n', 'g'] cs with
    | some _ => (declared? ['e', 'n', 'c', 'o', 'd', 'i', 'n', 'g'] cs).bind declarationSpaces?
    | none => some cs
  let cs ←
    match after? ['s', 't', 'a', 'n', 'd', 'a', 'l', 'o', 'n', 'e'] cs with
    | some _ => declared? ['s', 't', 'a', 'n', 'd', 'a', 'l', 'o', 'n', 'e'] cs
    | none => some cs
  after? ['?', '>'] (skip isSpace cs)

/-! ## Comments and instructions -/

/-- What follows white space, comments and instructions. -/
def skipMisc? (cs : List Char) : Option (List Char) :=
  match hs : skip isSpace cs with
  | '<' :: rest =>
    match h : markupChunk? rest with
    | some (.comment body, after) =>
      have : after.length < cs.length :=
        Nat.lt_of_lt_of_le (Nat.lt_succ_of_le (length_of_markupChunk? h))
          (by have := length_skip_le isSpace cs; rw [hs] at this; simpa using this)
      if isComment body then skipMisc? after else none
    | some (.instruction body, after) =>
      have : after.length < cs.length :=
        Nat.lt_of_lt_of_le (Nat.lt_succ_of_le (length_of_markupChunk? h))
          (by have := length_skip_le isSpace cs; rw [hs] at this; simpa using this)
      if isInstruction body then skipMisc? after else none
    | _ => some ('<' :: rest)
  | rest => some rest
termination_by cs.length

/-! ## The document type -/

/-- What follows the name of an outside resource, if there is one. -/
def skipExternal? (cs : List Char) : Option (List Char) :=
  match after? ['S', 'Y', 'S', 'T', 'E', 'M'] cs with
  | some rest => do
    let (_, rest) ← literal? (← spaces? rest)
    return rest
  | none =>
    match after? ['P', 'U', 'B', 'L', 'I', 'C'] cs with
    | some rest => do
      let (_, rest) ← literal? (← spaces? rest)
      let (_, rest) ← literal? (← spaces? rest)
      return rest
    | none => some cs

/-- What follows the name of a form of data, if there is one. -/
def skipDataForm? (cs : List Char) : Option (List Char) :=
  match after? ['N', 'D', 'A', 'T', 'A'] cs with
  | some rest => do
    let (_, rest) ← name? (← spaces? rest)
    return rest
  | none => some cs

/-- The declaration of an entity: its name and its text. Entities whose text stands in an
    outside resource have none. -/
def entity? (body : List Char) : Option (Option (String × List Char)) := do
  let rest ← spaces? body
  let (isGeneral, rest) ←
    match rest with
    | '%' :: rest => (spaces? rest).map fun r => (false, r)
    | rest => some (true, rest)
  let (name, rest) ← name? rest
  let rest ← spaces? rest
  match literal? rest with
  | some (text, rest) =>
    if (skip isSpace rest).isEmpty then return some (String.ofList name, text) else none
  | none =>
    let after ← skipExternal? rest
    if after.length = rest.length then none
    let after ← if isGeneral then skipDataForm? (skip isSpace after) else some after
    if (skip isSpace after).isEmpty then return none else none

/-- What follows one of the declarations that have no effect, up to its `>`. -/
def skipOther? (cs : List Char) : Option (List Char) :=
  let skip (rest : List Char) : Option (List Char) := (Text.splitAt? ['>'] rest).map (·.2)
  match after? ['!', 'E', 'L', 'E', 'M', 'E', 'N', 'T'] cs with
  | some rest => skip rest
  | none =>
    match after? ['!', 'A', 'T', 'T', 'L', 'I', 'S', 'T'] cs with
    | some rest => skip rest
    | none => (after? ['!', 'N', 'O', 'T', 'A', 'T', 'I', 'O', 'N'] cs).bind skip

/-- One declaration of a document type behind its `<`: the entity it declares, if it does,
    and what follows it. -/
def declaration? (cs : List Char) : Option (Option (String × List Char) × List Char) :=
  match after? ['!', 'E', 'N', 'T', 'I', 'T', 'Y'] cs with
  | some rest => do
    let (body, rest) ← tagBody? none rest
    let e ← entity? body
    return (e, rest)
  | none =>
    match markupChunk? cs with
    | some (.comment body, rest) => if isComment body then some (none, rest) else none
    | some (.instruction body, rest) => if isInstruction body then some (none, rest) else none
    | _ => (skipOther? cs).map fun rest => (none, rest)

theorem length_of_skipOther? {cs rest : List Char} (h : skipOther? cs = some rest) :
    rest.length ≤ cs.length := by
  have key : ∀ {bs r : List Char}, after? bs cs = some r →
      (Text.splitAt? ['>'] r).map (·.2) = some rest → rest.length ≤ cs.length := by
    intro bs r hr hm
    obtain ⟨p, hp, rfl⟩ := Option.map_eq_some_iff.1 hm
    have := Text.length_of_splitAt? hp
    have := length_of_after? hr
    omega
  unfold skipOther? at h
  simp only at h
  split at h
  · exact key (by assumption) h
  · split at h
    · exact key (by assumption) h
    · obtain ⟨r, hr, hm⟩ := Option.bind_eq_some_iff.1 h
      exact key hr hm

theorem length_of_declaration? {cs rest : List Char} {e : Option (String × List Char)}
    (h : declaration? cs = some (e, rest)) : rest.length ≤ cs.length := by
  unfold declaration? at h
  split at h
  · rename_i r hr
    simp only [Option.bind_eq_bind, Option.bind_eq_some_iff, Option.pure_def,
      Option.some.injEq, Prod.mk.injEq] at h
    obtain ⟨p, hp, _, _, _, rfl⟩ := h
    have := length_of_tagBody? hp
    have := length_of_after? hr
    omega
  · split at h
    · rename_i hc
      split at h
      · cases h
        exact length_of_markupChunk? hc
      · cases h
    · rename_i hc
      split at h
      · cases h
        exact length_of_markupChunk? hc
      · cases h
    · simp only [Option.map_eq_some_iff, Prod.mk.injEq] at h
      obtain ⟨_, hr, _, rfl⟩ := h
      exact length_of_skipOther? hr

/-- The declarations inside a document type up to its end, and what follows it. -/
def subset? (cs : List Char) : Option (Entities × List Char) :=
  match hs : skip isSpace cs with
  | ']' :: rest => (after? ['>'] (skip isSpace rest)).map fun after => ([], after)
  | '<' :: rest =>
    match h : declaration? rest with
    | none => none
    | some (e, after) =>
      have : after.length < cs.length :=
        Nat.lt_of_lt_of_le (Nat.lt_succ_of_le (length_of_declaration? h))
          (by have := length_skip_le isSpace cs; rw [hs] at this; simpa using this)
      (subset? after).map fun p => (e.toList ++ p.1, p.2)
  | _ => none
termination_by cs.length

/-- The entities that a document type declares, and what follows it. -/
def documentType? (cs : List Char) : Option (Entities × List Char) := do
  let rest ← spaces? cs
  let (_, rest) ← name? rest
  let rest ← skipExternal? (skip isSpace rest)
  match skip isSpace rest with
  | '>' :: rest => return ([], rest)
  | '[' :: rest => subset? rest
  | _ => none

/-! ## Documents -/

/-- The declaration of a document, if it has one, must stand at its very beginning. -/
def skipStart? (cs : List Char) : Option (List Char) :=
  let cs := (after? ['\uFEFF'] cs).getD cs
  match after? ['<', '?', 'x', 'm', 'l', ' '] cs with
  | some rest => skipDeclaration? (' ' :: rest)
  | none => some cs

/-- The document of a text. -/
def Document.ofChars? (cs : List Char) : Option Document := do
  let rest ← skipMisc? (← skipStart? cs)
  match after? ['<', '!', 'D', 'O', 'C', 'T', 'Y', 'P', 'E'] rest with
  | none => (rootTokens? [] rest).bind build?
  | some rest =>
    let (entities, rest) ← documentType? rest
    let rest ← skipMisc? rest
    (rootTokens? entities rest).bind build?

/-- The document of a string. -/
def Document.ofText? (text : String) : Option Document :=
  Document.ofChars? text.toList

end Slideshow.Markup

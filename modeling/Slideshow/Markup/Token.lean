/-
  Slideshow.Markup.Token

  The tokens of a document's content: tags with their attribute values, and text, with all
  entities put in place.
-/
import Slideshow.Markup.Chunk
import Slideshow.Markup.Reference

namespace Slideshow.Markup

open Text (isSpace skip length_skip_le)

/-- A token of content. -/
inductive Token where
  | start (name : QName) (attrs : List (QName × String)) (closed : Bool)
  | stop (name : QName)
  /-- A start tag that the end of a text cuts off; its attributes go to the next tag. -/
  | cut (name : QName) (attrs : List (QName × String))
  | text (s : String)
  /-- A comment or an instruction, which keeps the texts around it apart. -/
  | gap
  deriving DecidableEq, Repr

/-! ## Tags -/

/-- An attribute at the front of a text with its raw value, and what follows it. -/
def attribute? (cs : List Char) : Option ((QName × List Char) × List Char) := do
  let (name, rest) ← qname? cs
  let rest ← after? ['='] (skip isSpace rest)
  let (value, rest) ← literal? (skip isSpace rest)
  return ((name, value), rest)

theorem length_of_qname? {cs rest : List Char} {q : QName} (h : qname? cs = some (q, rest)) :
    rest.length ≤ cs.length := by
  simp only [qname?, Option.map_eq_some_iff, Prod.mk.injEq] at h
  obtain ⟨_, _, _, rfl⟩ := h
  exact (List.dropWhile_suffix _).length_le

theorem length_of_literal? {cs value rest : List Char} (h : literal? cs = some (value, rest)) :
    rest.length ≤ cs.length := by
  unfold literal? at h
  split at h
  · exact Nat.le_succ_of_le (Text.length_of_splitAt? h)
  · exact Nat.le_succ_of_le (Text.length_of_splitAt? h)
  · cases h

theorem length_of_attribute? {cs rest : List Char} {a : QName × List Char}
    (h : attribute? cs = some (a, rest)) : rest.length < cs.length := by
  simp only [attribute?, Option.bind_eq_bind, Option.bind_eq_some_iff, Option.pure_def,
    Option.some.injEq, Prod.mk.injEq] at h
  obtain ⟨p, hp, r, hr, q, hq, _, rfl⟩ := h
  have h1 := length_of_qname? hp
  have h2 := length_of_after? hr
  have h3 := length_of_literal? hq
  have h4 := length_skip_le isSpace p.2
  have h5 := length_skip_le isSpace r
  simp only [List.length_singleton] at h2
  omega

/-- The attributes of a tag, and whether the tag is closed at its end. Each attribute stands
    behind white space. -/
def attributes? (cs : List Char) : Option (List (QName × List Char) × Bool) :=
  match hs : skip isSpace cs with
  | [] => some ([], false)
  | ['/'] => some ([], true)
  | c :: rest =>
    if (spaces? cs).isNone then none
    else
      match h : attribute? (c :: rest) with
      | none => none
      | some (a, after) =>
        have : after.length < cs.length :=
          Nat.lt_of_lt_of_le (length_of_attribute? h) (hs ▸ length_skip_le isSpace cs)
        (attributes? after).map fun p => (a :: p.1, p.2)
termination_by cs.length

/-- The attributes with their values. -/
def values? (entities : Entities) (levels : Nat) (count : Nat) :
    List (QName × List Char) → Option (List (QName × String) × Nat)
  | [] => some ([], count)
  | (name, raw) :: rest =>
    if raw.all fun c => isAllowed c && c != '<' then do
      let (value, count) ← value? entities levels count raw
      let (attrs, count) ← values? entities levels count rest
      return ((name, String.ofList value) :: attrs, count)
    else none

/-- The token of a start tag. -/
def startTag? (entities : Entities) (levels : Nat) (count : Nat) (body : List Char) :
    Option (Token × Bool × Nat) := do
  let (name, rest) ← qname? body
  let (raw, closed) ← attributes? rest
  let (attrs, count) ← values? entities levels count raw
  return (.start name attrs closed, closed, count)

/-- The token of a start tag that is cut off right behind its name or an attribute. -/
def cutTag? (entities : Entities) (levels : Nat) (count : Nat) (body : List Char) :
    Option (Token × Nat) := do
  let (name, rest) ← qname? body
  let (raw, closed) ← attributes? rest
  if closed || (rest.getLast?.map isSpace).getD false then none
  let (attrs, count) ← values? entities levels count raw
  return (.cut name attrs, count)

/-- The name of an end tag. -/
def endTag? (body : List Char) : Option QName :=
  match qname? body with
  | some (name, rest) => if (skip isSpace rest).isEmpty then some name else none
  | none => none

/-! ## Text -/

/-- The token of a reversed text, unless it is empty. -/
def flush (done : List Char) : List Token :=
  if done.isEmpty then [] else [.text (String.ofList done.reverse)]

/-- The tokens of the pieces of a text, of which `done` has been read. Behind an escaped
    character, `exact` holds and a literal character stands for itself. `inner` gives the
    tokens of entities. -/
def textTokens (entities : Entities) (outermost : Bool)
    (inner : Nat → List Char → Option (List Token × Nat)) (count : Nat) (exact : Bool)
    (done : List Char) : List Piece → Option (List Token × Nat)
  | [] => some (flush done, count)
  | .char c :: ps =>
    textTokens entities outermost inner count false
      (if exact then c :: done else pushText ps.isEmpty c done) ps
  | .escaped c :: ps =>
    if outermost then textTokens entities outermost inner count true (c :: done) ps
    else textTokens entities outermost inner count exact (pushText ps.isEmpty c done) ps
  | .entity name :: ps => do
    let text ← entities.text? name
    let count ← countReference? outermost count
    let (ts, count) ← inner count text
    let (us, count) ← textTokens entities outermost inner (countAfter outermost count) false [] ps
    return (flush done ++ ts ++ us, count)

/-! ## Content -/

/-- How far the content has come: how many references count, how many elements are open, and
    whether a start tag has been seen. -/
structure Progress where
  count : Nat
  opened : Nat
  started : Bool

/-- The tokens of content up to the end tag that closes it, and the chunks behind it. What
    follows that end tag in an entity is never looked at. -/
def contentWith (entities : Entities) (levels : Nat)
    (inner : Nat → List Char → Option (List Token × Nat)) (p : Progress) :
    List Chunk → Option (List Token × Nat × List Chunk)
  | [] => some ([], p.count, [])
  | .broken :: _ => none
  | .text cs :: rest =>
    if isText cs then do
      let ps ← pieces? cs
      let (ts, count) ←
        textTokens entities (levels == maxLevels) inner p.count false [] ps
      let (us, count, rest) ← contentWith entities levels inner { p with count } rest
      return (ts ++ us, count, rest)
    else none
  | .data cs :: rest =>
    if cs.all isAllowed then do
      let (us, count, rest) ← contentWith entities levels inner p rest
      return (.text (String.ofList (lineEnds cs)) :: us, count, rest)
    else none
  | .comment body :: rest =>
    if isComment body then do
      let (us, count, rest) ← contentWith entities levels inner p rest
      return (.gap :: us, count, rest)
    else none
  | .instruction body :: rest =>
    if isInstruction body then do
      let (us, count, rest) ← contentWith entities levels inner p rest
      return (.gap :: us, count, rest)
    else none
  | .tag ('/' :: body) :: rest =>
    if p.started then do
      let name ← endTag? body
      if p.opened ≤ 1 then return ([.stop name], p.count, rest)
      let (us, count, rest) ←
        contentWith entities levels inner { p with opened := p.opened - 1 } rest
      return (.stop name :: us, count, rest)
    else none
  | .cut body :: rest => do
    let (t, count) ← cutTag? entities levels p.count body
    return ([t], count, rest)
  | .tag body :: rest => do
    let (t, closed, count) ← startTag? entities levels p.count body
    let opened := if closed then p.opened else p.opened + 1
    let (us, count, rest) ← contentWith entities levels inner ⟨count, opened, true⟩ rest
    return (t :: us, count, rest)

/-- The tokens of an entity's text, in which entities may be nested `levels` deep. -/
def entityTokens (entities : Entities) : Nat → Nat → List Char → Option (List Token × Nat)
  | 0, count, cs =>
    (contentWith entities 0 (fun _ _ => none) ⟨count, 1, false⟩ (chunks cs)).map
      fun r => (r.1, r.2.1)
  | levels + 1, count, cs =>
    (contentWith entities (levels + 1) (entityTokens entities levels) ⟨count, 1, false⟩
      (chunks cs)).map fun r => (r.1, r.2.1)

/-- The tokens of the root element. Nothing but comments and instructions may follow it. -/
def rootTokens? (entities : Entities) (cs : List Char) : Option (List Token) :=
  match chunks cs with
  | .tag body :: rest => do
    let (t, closed, _) ← startTag? entities maxLevels 0 body
    if closed then
      if rest.all Chunk.isMisc then return [t] else none
    else
      let (ts, _, rest) ←
        contentWith entities maxLevels (entityTokens entities (maxLevels - 1)) ⟨0, 1, true⟩ rest
      if rest.all Chunk.isMisc then return t :: ts else none
  | _ => none

end Slideshow.Markup

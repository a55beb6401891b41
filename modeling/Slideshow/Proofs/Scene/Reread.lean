/-
  Slideshow.Proofs.Scene.Reread

  The document that a written scene is read as. Where every name stands for something in the
  namespaces of the root, reading gives the tree that the names spell, with neighbouring texts
  as one (`Scene.ofText?_text`).
-/
import Slideshow.Proofs.Markup.Sound
import Slideshow.Proofs.Scene.Written

namespace Slideshow

namespace Markup

/-! ## Declarations -/

/-- An attribute that declares no namespace. -/
def Undeclaring (q : QName) : Prop := q.shorthand ≠ "xmlns" ∧ q.name ≠ "xmlns"

instance (q : QName) : Decidable (Undeclaring q) :=
  inferInstanceAs (Decidable (q.shorthand ≠ "xmlns" ∧ q.name ≠ "xmlns"))

/-- Attributes that declare nothing stay. -/
theorem declarations?_of_undeclaring {attrs : List (QName × String)}
    (h : ∀ a ∈ attrs, Undeclaring a.1) (declared : Scope) :
    declarations? attrs declared = some (declared, attrs) := by
  induction attrs with
  | nil => rfl
  | cons a attrs ih =>
    obtain ⟨hshorthand, hname⟩ := h a List.mem_cons_self
    have hrest := ih fun b hb => h b (List.mem_cons_of_mem _ hb)
    rw [declarations?, beq_false_of_ne hshorthand, beq_false_of_ne hname, hrest]
    rfl

theorem spelled_declarationName {shorthand : Option String}
    (h : ∀ p, shorthand = some p → QName.IsPart p) :
    Spells (declarationName shorthand) ∧ spelled (declarationName shorthand) =
      match shorthand with
      | some p => ⟨"xmlns", p⟩
      | none => ⟨"", "xmlns"⟩ := by
  cases shorthand with
  | none => exact ⟨rfl, rfl⟩
  | some p =>
    have hxmlns : QName.IsPart "xmlns" := ⟨rfl, rfl, by simp⟩
    have hread := QName.read?_of_isPart hxmlns (h p rfl)
    have hchars : (declarationName (some p)).toList = "xmlns".toList ++ ':' :: p.toList := by
      rw [declarationName, String.toList_append]
      rfl
    rw [Spells, spelled, hchars, hread]
    exact ⟨rfl, rfl⟩

/-- Namespaces are declared again as they are written. -/
theorem declarations?_written {declared scope : Scope} {rest : List (QName × String)}
    (h : AllDeclarable declared scope) (hrest : ∀ a ∈ rest, Undeclaring a.1) :
    declarations? ((scope.map fun d => attributeOf (declarationName d.1, d.2)) ++ rest) declared =
      some (declared ++ scope, rest) := by
  induction scope generalizing declared with
  | nil =>
    rw [List.append_nil]
    exact declarations?_of_undeclaring hrest declared
  | cons d scope ih =>
    obtain ⟨⟨hxml, hxmlns, hnew⟩, hmore⟩ := h
    obtain ⟨shorthand, space⟩ := d
    have hagain := ih hmore
    rw [List.append_assoc, List.singleton_append] at hagain
    have hspelled := (spelled_declarationName fun p hp => (hnew p hp).1).2
    dsimp only at hxml hxmlns hspelled
    rw [List.map_cons, List.cons_append, attributeOf, hspelled, declarations?]
    cases shorthand with
    | none =>
      dsimp only
      rw [if_neg (by decide), if_pos BEq.rfl, beq_false_of_ne hxml, beq_false_of_ne hxmlns]
      exact hagain
    | some p =>
      obtain ⟨_, hname, hfind⟩ := hnew p rfl
      dsimp only
      rw [if_pos BEq.rfl, beq_false_of_ne hxml, beq_false_of_ne hxmlns, beq_false_of_ne hname,
        hfind]
      exact hagain

/-! ## Names in a scope -/

/-- The full name of an element that is written in some way. -/
def Scope.element (scope : Scope) (w : String) : Name :=
  (elementName? scope (spelled w)).getD ⟨none, w⟩

/-- The full name of an attribute that is written in some way. -/
def Scope.attribute (scope : Scope) (w : String) : Name :=
  (attributeName? scope (spelled w)).getD ⟨none, w⟩

/-- The text stands for the name of an element. -/
structure ReadsElement (scope : Scope) (w : String) : Prop where
  spells : Spells w
  shorthand : (spelled w).shorthand ≠ "xmlns"
  isSome : (elementName? scope (spelled w)).isSome = true

/-- The text stands for the name of an attribute. -/
structure ReadsAttribute (scope : Scope) (w : String) : Prop where
  spells : Spells w
  undeclaring : Undeclaring (spelled w)
  isSome : (attributeName? scope (spelled w)).isSome = true

instance (scope : Scope) (w : String) : Decidable (ReadsElement scope w) :=
  decidable_of_iff (Spells w ∧ (spelled w).shorthand ≠ "xmlns" ∧
      (elementName? scope (spelled w)).isSome = true)
    ⟨fun h => ⟨h.1, h.2.1, h.2.2⟩, fun h => ⟨h.spells, h.shorthand, h.isSome⟩⟩

instance (scope : Scope) (w : String) : Decidable (ReadsAttribute scope w) :=
  decidable_of_iff (Spells w ∧ Undeclaring (spelled w) ∧
      (attributeName? scope (spelled w)).isSome = true)
    ⟨fun h => ⟨h.1, h.2.1, h.2.2⟩, fun h => ⟨h.spells, h.undeclaring, h.isSome⟩⟩

theorem ReadsElement.eq_some {scope : Scope} {w : String} (h : ReadsElement scope w) :
    elementName? scope (spelled w) = some (scope.element w) := by
  obtain ⟨n, hn⟩ := Option.isSome_iff_exists.1 h.isSome
  rw [Scope.element, hn]
  rfl

theorem ReadsAttribute.eq_some {scope : Scope} {w : String} (h : ReadsAttribute scope w) :
    attributeName? scope (spelled w) = some (scope.attribute w) := by
  obtain ⟨n, hn⟩ := Option.isSome_iff_exists.1 h.isSome
  rw [Scope.attribute, hn]
  rfl

/-- The attributes of an element that are written in some way. -/
def Scope.attributes (scope : Scope) (attrs : List (String × String)) : List (Name × String) :=
  attrs.map fun a => (scope.attribute a.1, a.2)

theorem attributesIn?_written {scope : Scope} {attrs : List (String × String)}
    (h : ∀ a ∈ attrs, ReadsAttribute scope a.1)
    (hdistinct : ((scope.attributes attrs).map (·.1)).Nodup) :
    attributesIn? scope (attrs.map attributeOf) = some (scope.attributes attrs) := by
  -- the names are found one by one, and only then compared with each other
  have hnamed : (attrs.map attributeOf).mapM (fun a =>
      (attributeName? scope a.1).map fun n => (n, a.2)) = some (scope.attributes attrs) := by
    clear hdistinct
    induction attrs with
    | nil => rfl
    | cons a attrs ih =>
      have ha := (h a List.mem_cons_self).eq_some
      rw [List.map_cons, List.mapM_cons, attributeOf, ha,
        ih fun b hb => h b (List.mem_cons_of_mem _ hb)]
      rfl
  rw [attributesIn?, hnamed]
  exact if_pos hdistinct

end Markup

open Markup

/-! ## Elements -/

/-- The names of an element stand for something, and no two attributes for the same. -/
structure Tag.Readable (scope : Scope) (t : Tag) : Prop where
  name : ReadsElement scope t.name
  attrs : ∀ a ∈ t.attrs, ReadsAttribute scope a.1
  values : ∀ a ∈ t.attrs, ∀ c ∈ a.2.toList, keptInValue c = true
  distinct : ((scope.attributes t.attrs).map (·.1)).Nodup

theorem Tag.Readable.legible {scope : Scope} {t : Tag} (h : t.Readable scope) : t.Legible :=
  ⟨h.name.spells, fun a ha => ⟨(h.attrs a ha).spells, h.values a ha⟩⟩

namespace Node

/-- A text that holds something. -/
def textTree (cs : List Char) : List Tree :=
  if cs.isEmpty then [] else [.text (String.ofList cs)]

/-- The trees of some nodes behind a text that has not ended: neighbouring texts are one text,
    and names stand for what they do in a scope. -/
def treesFrom (scope : Scope) (pending : List Char) : List Node → List Tree
  | [] => textTree pending
  | .text s :: ns => treesFrom scope (pending ++ s.toList) ns
  | .element tag children :: ns =>
    textTree pending ++ .element (scope.element tag.name) (scope.attributes tag.attrs)
      (treesFrom scope [] children) :: treesFrom scope [] ns

theorem treesFrom_nil (scope : Scope) : treesFrom scope [] [] = [] := by
  rw [treesFrom]
  rfl

end Node

namespace Markup

variable {scope : Scope} {t : Tag}

/-- An element that has just been opened, with the namespaces that it declares itself. -/
def Open.ofTag (declared scope : Scope) (t : Tag) : Open :=
  { tag := spelled t.name
    name := scope.element t.name
    attrs := scope.attributes t.attrs
    declared
    scope
    done := []
    afterText := false }

/-- An element is opened with the names that it is written with. -/
theorem Open.ofTag?_written {declared outer : Scope} {attrs : List (QName × String)}
    (hdeclared : declarations? attrs [] = some (declared, t.attrs.map attributeOf))
    (h : t.Readable (declared ++ outer)) :
    Open.ofTag? outer (spelled t.name) attrs = some (.ofTag declared (declared ++ outer) t) := by
  have hxmlns : ¬((spelled t.name).shorthand == "xmlns") = true := by
    rw [beq_iff_eq]
    exact h.name.shorthand
  rw [Open.ofTag?, if_neg hxmlns, hdeclared]
  show (elementName? (declared ++ outer) (spelled t.name)).bind _ = _
  rw [h.name.eq_some]
  show (attributesIn? (declared ++ outer) (t.attrs.map attributeOf)).bind _ = _
  rw [attributesIn?_written h.attrs h.distinct]
  rfl

theorem undeclaring_of_readable (h : t.Readable scope) :
    ∀ a ∈ t.attrs.map attributeOf, Undeclaring a.1 := by
  intro a ha
  obtain ⟨b, hb, rfl⟩ := List.mem_map.1 ha
  exact (h.attrs b hb).undeclaring

/-- An element inside of another one declares nothing. -/
theorem Open.ofTag?_inside (h : t.Readable scope) :
    Open.ofTag? scope (spelled t.name) (t.attrs.map attributeOf) = some (.ofTag [] scope t) :=
  Open.ofTag?_written (declarations?_of_undeclaring (undeclaring_of_readable h) []) h

namespace Builder

/-! ## Building -/

variable {o : Open} {stack : List Open} {root : Option Document} {tokens rest : List Token}
  {trees more : List Tree} {tree : Tree}

/-- Tokens that add children to any element that is open in a scope and does not end in text.
    Whether the element ends in text afterwards is left open. -/
def Adds (scope : Scope) (tokens : List Token) (trees : List Tree) : Prop :=
  ∀ (o : Open) (stack : List Open) (root : Option Document), o.scope = scope →
    o.afterText = false → ∃ flag, tokens.foldlM step? ⟨o :: stack, [], root⟩ =
      some ⟨{ o with done := trees.reverse ++ o.done, afterText := flag } :: stack, [], root⟩

/-- Tokens that add one child to any element that is open in a scope, also behind text. -/
def AddsElement (scope : Scope) (tokens : List Token) (tree : Tree) : Prop :=
  ∀ (o : Open) (stack : List Open) (root : Option Document), o.scope = scope →
    tokens.foldlM step? ⟨o :: stack, [], root⟩ =
      some ⟨{ o with done := tree :: o.done, afterText := false } :: stack, [], root⟩

theorem addText_of_not (h : o.afterText = false) (s : String) :
    o.addText s = { o with done := .text s :: o.done, afterText := true } := by
  rw [Open.addText, h]

/-- The text that has come to its end is added, if it holds something. -/
theorem adds_flush (scope : Scope) (pending : List Char) :
    Adds scope (flush pending.reverse) (Node.textTree pending) := by
  intro o stack root _ hafter
  cases pending with
  | nil =>
    refine ⟨false, ?_⟩
    show some (Builder.mk (o :: stack) [] root) =
      some ⟨{ o with done := o.done, afterText := false } :: stack, [], root⟩
    rw [← hafter]
  | cons c cs =>
    have hflush : flush (c :: cs).reverse = [.text (String.ofList (c :: cs))] := by
      simp [flush]
    refine ⟨true, ?_⟩
    rw [hflush]
    show some (Builder.mk (o.addText (String.ofList (c :: cs)) :: stack) [] root) = _
    rw [addText_of_not hafter]
    rfl

/-- An element between other children. -/
theorem Adds.element (hbefore : Adds scope tokens trees) {block : List Token}
    (hblock : AddsElement scope block tree) (hafter : Adds scope rest more) :
    Adds scope (tokens ++ (block ++ rest)) (trees ++ tree :: more) := by
  intro o stack root hscope htext
  obtain ⟨flag, hfirst⟩ := hbefore o stack root hscope htext
  have hmiddle := hblock { o with done := trees.reverse ++ o.done, afterText := flag } stack root
    hscope
  obtain ⟨flag', hlast⟩ := hafter
    { o with done := tree :: (trees.reverse ++ o.done), afterText := false } stack root hscope rfl
  have hdone : (trees ++ tree :: more).reverse ++ o.done =
      more.reverse ++ tree :: (trees.reverse ++ o.done) := by simp
  refine ⟨flag', ?_⟩
  rw [List.foldlM_append, hfirst, hdone]
  show List.foldlM step? _ (block ++ rest) = _
  rw [List.foldlM_append, hmiddle]
  exact hlast

/-- A closed tag adds an element without children. -/
theorem addsElement_closed (h : t.Readable scope) :
    AddsElement scope [t.token true]
      (.element (scope.element t.name) (scope.attributes t.attrs) []) := by
  rintro o stack root rfl
  rw [List.foldlM_cons, Tag.token, step?]
  show ((Open.ofTag? o.scope (spelled t.name) (t.attrs.map attributeOf)).bind _).bind _ = _
  rw [Open.ofTag?_inside h]
  rfl

/-- An end tag closes the element that has been opened under its name. -/
theorem step?_stop {q : QName} (h : o.tag = q) :
    step? ⟨o :: stack, [], root⟩ (.stop q) = some (close ⟨stack, [], root⟩ o) := by
  rw [step?]
  exact if_neg fun hne => hne h

/-- A start tag and an end tag add an element with what stands between them. -/
theorem addsElement_open (h : t.Readable scope) (hinside : Adds scope tokens trees) :
    AddsElement scope (t.token false :: (tokens ++ [.stop (spelled t.name)]))
      (.element (scope.element t.name) (scope.attributes t.attrs) trees) := by
  rintro o stack root rfl
  obtain ⟨flag, hchildren⟩ := hinside (.ofTag [] o.scope t)
    ({ o with afterText := false } :: stack) root rfl rfl
  have hdone : (trees.reverse ++ []).reverse = trees := by
    rw [List.append_nil, List.reverse_reverse]
  rw [List.foldlM_cons, Tag.token, step?]
  show ((Open.ofTag? o.scope (spelled t.name) (t.attrs.map attributeOf)).bind _).bind _ = _
  rw [Open.ofTag?_inside h]
  -- the new element stands on the one it is in, takes its children, and is handed down
  show List.foldlM step? ⟨.ofTag [] o.scope t :: { o with afterText := false } :: stack, [], root⟩
    (tokens ++ _) = _
  rw [List.foldlM_append, hchildren]
  show (step? _ (.stop (spelled t.name))).bind _ = _
  rw [step?_stop]
  · show some (Builder.mk ({ o with
      done := .element _ _ (trees.reverse ++ []).reverse :: o.done, afterText := false } :: stack)
        [] root) = _
    rw [hdone]
    rfl
  · rfl

/-- The tokens of nodes add their trees. -/
theorem adds_tokensFrom (pending : List Char) (ns : List Node)
    (htags : ∀ t ∈ Node.listTags ns, t.Readable scope) :
    Adds scope (Node.tokensFrom pending ns) (Node.treesFrom scope pending ns) := by
  -- texts and elements are taken up in the same order on both sides
  fun_induction Node.tokensFrom pending ns with
  | case1 pending =>
    rw [Node.treesFrom]
    exact adds_flush scope pending
  | case2 pending s ns ih =>
    rw [Node.treesFrom]
    exact ih htags
  | case3 pending tag ns ih =>
    have hrest := ih fun t ht => htags t (List.mem_cons_of_mem _ ht)
    have htag := addsElement_closed (htags tag List.mem_cons_self)
    rw [Node.treesFrom, Node.treesFrom_nil]
    exact (adds_flush scope pending).element htag hrest
  | case4 pending tag n children ns ihchildren ih =>
    have hinside := ihchildren fun t ht =>
      htags t (List.mem_cons_of_mem _ (List.mem_append_left _ ht))
    have hrest := ih fun t ht => htags t (List.mem_cons_of_mem _ (List.mem_append_right _ ht))
    have htag := addsElement_open (htags tag List.mem_cons_self) hinside
    have hshape := (adds_flush scope pending).element htag hrest
    rw [List.cons_append, List.append_assoc, List.singleton_append] at hshape
    rw [Node.treesFrom]
    exact hshape

end Builder

/-! ## The root element -/

section Root

variable {attrs : List (QName × String)}

/-- A root element without children. -/
theorem build?_closed
    (hdeclared : declarations? attrs [] = some (scope, t.attrs.map attributeOf))
    (h : t.Readable scope) :
    build? [.start (spelled t.name) attrs true] =
      some ⟨scope, scope.element t.name, scope.attributes t.attrs, []⟩ := by
  have hopen : Open.ofTag? [] (spelled t.name) attrs = some (.ofTag scope (scope ++ []) t) :=
    Open.ofTag?_written hdeclared (by rwa [List.append_nil])
  rw [List.append_nil] at hopen
  rw [build?, List.foldlM_cons, Builder.step?]
  show (((Open.ofTag? [] (spelled t.name) attrs).bind _).bind _).bind _ = _
  rw [hopen]
  rfl

/-- A root element with children. -/
theorem build?_open {tokens : List Token} {trees : List Tree}
    (hdeclared : declarations? attrs [] = some (scope, t.attrs.map attributeOf))
    (h : t.Readable scope) (hinside : Builder.Adds scope tokens trees) :
    build? (.start (spelled t.name) attrs false :: (tokens ++ [.stop (spelled t.name)])) =
      some ⟨scope, scope.element t.name, scope.attributes t.attrs, trees⟩ := by
  have hopen : Open.ofTag? [] (spelled t.name) attrs = some (.ofTag scope (scope ++ []) t) :=
    Open.ofTag?_written hdeclared (by rwa [List.append_nil])
  rw [List.append_nil] at hopen
  obtain ⟨flag, hchildren⟩ := hinside (.ofTag scope scope t) [] none rfl rfl
  have hdone : (trees.reverse ++ []).reverse = trees := by
    rw [List.append_nil, List.reverse_reverse]
  rw [build?, List.foldlM_cons, Builder.step?]
  show (((Open.ofTag? [] (spelled t.name) attrs).bind _).bind _).bind _ = _
  rw [hopen]
  show (List.foldlM Builder.step? ⟨[.ofTag scope scope t], [], none⟩ (tokens ++ _)).bind _ = _
  rw [List.foldlM_append, hchildren]
  show ((Builder.step? _ (.stop (spelled t.name))).bind _).bind _ = _
  rw [Builder.step?_stop]
  · show some (Document.mk scope _ _ (trees.reverse ++ []).reverse) = _
    rw [hdone]
    rfl
  · rfl

end Root

end Markup

namespace Scene

/-- The document that a scene stands for: neighbouring texts are one text. -/
def document (s : Scene) : Document :=
  ⟨s.namespaces, Scope.element s.namespaces s.tag.name, Scope.attributes s.namespaces s.tag.attrs,
    Node.treesFrom s.namespaces [] s.children⟩

/-- A scene whose text can be read: the names in it stand for something in the namespaces that
    the root declares, and no characters are lost. -/
structure Readable (s : Scene) : Prop where
  declarable : AllDeclarable [] s.namespaces
  spaces : ∀ d ∈ s.namespaces, ∀ c ∈ d.2.toList, keptInValue c = true
  tags : ∀ t ∈ s.root.tags, t.Readable s.namespaces
  texts : ∀ c ∈ s.root.textChars, Node.keptInText c = true

/-- The root element as it is written. -/
def writtenTag (s : Scene) : Tag :=
  { s.tag with attrs := (s.namespaces.map fun d => (declarationName d.1, d.2)) ++ s.tag.attrs }

variable {s : Scene}

theorem Readable.legible_writtenTag (h : s.Readable) : s.writtenTag.Legible := by
  have htag := h.tags s.tag List.mem_cons_self
  refine ⟨htag.name.spells, fun a ha => ?_⟩
  rcases List.mem_append.1 ha with ha | ha
  · obtain ⟨d, hd, rfl⟩ := List.mem_map.1 ha
    exact ⟨(spelled_declarationName (h.declarable.isPart d hd)).1, h.spaces d hd⟩
  · exact htag.legible.2 a ha

/-- The text of a scene is read as its document. -/
theorem ofText?_text (h : s.Readable) : Document.ofText? s.text = some s.document := by
  have hchildren : ∀ t ∈ Node.listTags s.children, t.Readable s.namespaces := fun t ht =>
    h.tags t (List.mem_cons_of_mem _ ht)
  have htag : s.tag.Readable s.namespaces := h.tags s.tag List.mem_cons_self
  have hlegible : ∀ t ∈ (Node.element s.writtenTag s.children).tags, t.Legible := by
    intro t ht
    rcases List.mem_cons.1 ht with rfl | ht
    · exact h.legible_writtenTag
    · exact (hchildren t ht).legible
  have hdeclared : declarations? (s.writtenTag.attrs.map attributeOf) [] =
      some (s.namespaces, s.tag.attrs.map attributeOf) := by
    have hagain := declarations?_written h.declarable (undeclaring_of_readable htag)
    rw [writtenTag, List.map_append, List.map_map]
    exact hagain
  have hchars : s.text.toList = (Node.element s.writtenTag s.children).chars := by
    rw [text, String.toList_ofList]
    rfl
  rw [Document.ofText?, hchars, Node.ofChars?_written hlegible h.texts]
  cases hempty : s.children with
  | nil =>
    rw [Node.tokensFrom, Node.tokensFrom_nil, document, hempty, Node.treesFrom]
    exact build?_closed hdeclared htag
  | cons n children =>
    rw [hempty] at hchildren
    have hinside := Builder.adds_tokensFrom [] (n :: children) hchildren
    rw [Node.tokensFrom, Node.tokensFrom_nil, document, hempty]
    exact build?_open hdeclared htag hinside

end Scene

end Slideshow

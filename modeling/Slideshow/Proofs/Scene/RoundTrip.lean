/-
  Slideshow.Proofs.Scene.RoundTrip

  Saving a diagram and loading it again. A diagram comes back if its names can be written with
  the namespaces of the root, and its values and texts hold no white space that reading changes:
  the same ids are found, with the same texts and attributes (`exists_load_text`). A name whose
  namespace is declared inside the root only does not come back (`nested_namespace_lost`).
-/
import Slideshow.Proofs.Scene.Import
import Slideshow.Proofs.Scene.Joined
import Slideshow.Proofs.Scene.Reread

namespace Slideshow

open Markup

/-! ## Names that are written as they are read -/

namespace Markup

variable {scope : Scope} {w : String}

/-- A text that stands for the name of an element which is written like it. -/
structure WritesElement (scope : Scope) (w : String) : Prop where
  reads : ReadsElement scope w
  kept : elementText scope (scope.element w) = w

/-- A text that stands for the name of an attribute which is written like it. -/
structure WritesAttribute (scope : Scope) (w : String) : Prop where
  reads : ReadsAttribute scope w
  kept : qualified scope (scope.attribute w) = w

instance (scope : Scope) (w : String) : Decidable (WritesElement scope w) :=
  decidable_of_iff (ReadsElement scope w ∧ elementText scope (scope.element w) = w)
    ⟨fun h => ⟨h.1, h.2⟩, fun h => ⟨h.reads, h.kept⟩⟩

instance (scope : Scope) (w : String) : Decidable (WritesAttribute scope w) :=
  decidable_of_iff (ReadsAttribute scope w ∧ qualified scope (scope.attribute w) = w)
    ⟨fun h => ⟨h.1, h.2⟩, fun h => ⟨h.reads, h.kept⟩⟩

theorem name_elementName? {q : QName} {n : Name} (h : elementName? scope q = some n) :
    n.name = q.name := by
  rw [elementName?] at h
  split at h
  · cases h
    rfl
  · obtain ⟨space, _, rfl⟩ := Option.map_eq_some_iff.1 h
    rfl

/-- A name is written alone, or behind a shorthand. -/
theorem elementText_eq (scope : Scope) (n : Name) :
    elementText scope n = n.name ∨ ∃ p, elementText scope n = p ++ ":" ++ n.name := by
  rw [elementText]
  split
  · exact .inl rfl
  · rw [qualified]
    split
    · rename_i p _
      exact .inr ⟨p, rfl⟩
    · exact .inl rfl

/-- An element is read under the name that is written, whatever the namespace. -/
theorem ReadsElement.name_eq {n : Name} (h : ReadsElement scope (elementText scope n))
    (hcolon : ∀ c ∈ n.name.toList, (c == ':') = false) :
    (scope.element (elementText scope n)).name = n.name := by
  have hread := h.spells.read?
  rw [name_elementName? h.eq_some]
  rcases elementText_eq scope n with hname | ⟨p, hname⟩
  · rw [hname] at hread ⊢
    rw [QName.name_of_read? hcolon hread, String.ofList_toList]
  · have hchars : (p ++ ":" ++ n.name).toList = p.toList ++ ':' :: n.name.toList := by
      rw [String.toList_append, String.toList_append, List.append_assoc]
      rfl
    rw [hname] at hread ⊢
    rw [hchars] at hread
    rw [QName.name_of_read?_append hcolon hread, String.ofList_toList]

end Markup

/-- An element that can be written. -/
structure Tag.Portable (scope : Scope) (t : Tag) : Prop where
  name : WritesElement scope t.name
  attrs : ∀ a ∈ t.attrs, WritesAttribute scope a.1
  values : ∀ a ∈ t.attrs, ∀ c ∈ a.2.toList, keptInValue c = true
  distinct : (t.attrs.map (·.1)).Nodup

namespace Tag

variable {scope : Scope} {t : Tag}

instance (scope : Scope) (t : Tag) : Decidable (t.Portable scope) :=
  decidable_of_iff (WritesElement scope t.name ∧ (∀ a ∈ t.attrs, WritesAttribute scope a.1) ∧
      (∀ a ∈ t.attrs, a.2.toList.all keptInValue = true) ∧ (t.attrs.map (·.1)).Nodup)
    ⟨fun h => ⟨h.1, h.2.1, fun a ha => List.all_eq_true.1 (h.2.2.1 a ha), h.2.2.2⟩,
      fun h => ⟨h.name, h.attrs, fun a ha => List.all_eq_true.2 (h.values a ha), h.distinct⟩⟩

/-- Attributes are written under their own names again. -/
theorem Portable.map_qualified (h : t.Portable scope) :
    (scope.attributes t.attrs).map (fun a => (qualified scope a.1, a.2)) = t.attrs := by
  have hsame : ∀ a ∈ t.attrs, (qualified scope (scope.attribute a.1), a.2) = a := fun a ha => by
    rw [(h.attrs a ha).kept]
  rw [Scope.attributes, List.map_map]
  exact (List.map_congr_left hsame).trans (List.map_id t.attrs)

theorem Portable.readable (h : t.Portable scope) : t.Readable scope := by
  refine ⟨h.name.reads, fun a ha => (h.attrs a ha).reads, h.values, ?_⟩
  -- names that are written differently are different
  have hwritten : ((scope.attributes t.attrs).map (·.1)).map (qualified scope) =
      t.attrs.map (·.1) := by
    rw [← congrArg (List.map (·.1)) h.map_qualified, List.map_map, List.map_map]
    rfl
  have hdistinct := h.distinct
  rw [← hwritten] at hdistinct
  exact List.Pairwise.of_map _ (fun a b hne heq => hne (congrArg _ heq)) hdistinct

/-- A tag that can be written is read as itself, up to its handle. -/
theorem Portable.ofElement (h : t.Portable scope) :
    Tag.ofElement scope (scope.element t.name) (scope.attributes t.attrs) =
      { t with handle := none } := by
  rw [Tag.ofElement, h.name.kept, h.map_qualified]

/-- What is read as an id is one. -/
theorem Portable.ownId (h : t.Portable scope) :
    Element.OwnId scope ⟨scope.element t.name, scope.attributes t.attrs⟩ := by
  intro a ha hid
  obtain ⟨b, hb, rfl⟩ := List.mem_map.1 ha
  have hkept : qualified scope (scope.attribute b.1) = b.1 := (h.attrs b hb).kept
  have hname : b.1 = "id" := hkept.symm.trans hid
  rw [hname]
  rfl

/-- The id of an element that can be written is read again. -/
theorem Portable.elementKey? (h : t.Portable scope) :
    elementKey? (scope.attributes t.attrs) = t.id? := by
  rw [← id?_ofElement h.ownId, h.ofElement]
  rfl

end Tag

namespace Node

variable {scope : Scope}

mutual

/-- The nodes of a document hold its text. -/
theorem textChars_ofTree : ∀ (t : Tree) (taken : List String),
    (ofTree scope taken t).1.textChars = t.textChars
  | .text s, taken => rfl
  | .element name attrs children, taken => by
    rw [ofTree_element, textChars, Tree.textChars]
    exact listTextChars_ofTrees children taken

theorem listTextChars_ofTrees : ∀ (ts : List Tree) (taken : List String),
    listTextChars (ofTrees scope taken ts).1 = Tree.listTextChars ts
  | [], taken => rfl
  | t :: ts, taken => by
    rw [ofTrees_cons, listTextChars, Tree.listTextChars, textChars_ofTree t,
      listTextChars_ofTrees ts]

end

/-! ## Reading nodes again -/

/-- A text is read as one node, or none. -/
theorem ofTrees_textTree (taken : List String) (cs : List Char) (ts : List Tree) :
    ofTrees scope taken (textTree cs ++ ts) =
      (textNode cs ++ (ofTrees scope taken ts).1, (ofTrees scope taken ts).2) := by
  cases cs with
  | nil => rfl
  | cons c cs => rfl

/-- An element of a document is read again as it was, with the texts inside joined, if what is
    inside is. -/
theorem ofTree_again {taken : List String} {name : Name} {attrs : List (Name × String)}
    {children : List Tree} {tag : Tag} {ns : List Node} {after : List String}
    (h : ofTree scope taken (.element name attrs children) = (.element tag ns, after))
    (htag : tag.Portable scope) (hid : Element.OwnId scope ⟨name, attrs⟩)
    (hinside : ofTrees scope taken (treesFrom scope [] ns) =
      (joinFrom [] ns, (ofTrees scope taken children).2)) :
    ofTree scope taken (.element (scope.element tag.name) (scope.attributes tag.attrs)
      (treesFrom scope [] ns)) = ((element tag ns).join, after) := by
  have hkey : tag.id? = elementKey? attrs := by
    rw [ofTree_element] at h
    cases h
    exact id?_ofElement hid
  -- the same handles are taken by what is inside, so the same one is left for the element
  have hhandle : ownHandle? scope taken (scope.attributes tag.attrs) (treesFrom scope [] ns) =
      ownHandle? scope taken attrs children := by
    rw [ownHandle?, ownHandle?, hinside, htag.elementKey?, hkey]
  rw [ofTree_element] at h ⊢
  rw [htag.ofElement, hhandle, hinside]
  cases h
  rfl

/-- Nodes of a document are read again as they were, with neighbouring texts joined. -/
theorem ofTrees_again (pending : List Char) : ∀ (ts : List Tree) (taken : List String),
    (∀ e ∈ Tree.listElements ts, e.OwnId scope) →
    (∀ t ∈ listTags (ofTrees scope taken ts).1, t.Portable scope) →
      ofTrees scope taken (treesFrom scope pending (ofTrees scope taken ts).1) =
        (joinFrom pending (ofTrees scope taken ts).1, (ofTrees scope taken ts).2)
  | [], taken, _, _ => by
    rw [ofTrees, treesFrom, joinFrom, ← List.append_nil (textTree pending), ofTrees_textTree]
    simp [ofTrees]
  | .text s :: ts, taken, hid, htags => by
    rw [ofTrees_cons, ofTree, treesFrom, joinFrom]
    exact ofTrees_again (pending ++ s.toList) ts taken hid htags
  | .element name attrs children :: ts, taken, hid, htags => by
    have hfirst := ofTree_element scope taken name attrs children
    rw [ofTrees_cons, hfirst] at htags ⊢
    dsimp only at htags ⊢
    have hinside := ofTrees_again [] children taken
      (fun e he => hid e (List.mem_append_left _ (List.mem_cons_of_mem _ he)))
      (fun t ht => htags t (List.mem_append_left _ (List.mem_cons_of_mem _ ht)))
    have helement := ofTree_again hfirst
      (htags _ (List.mem_append_left _ List.mem_cons_self))
      (hid ⟨name, attrs⟩ (List.mem_append_left _ List.mem_cons_self)) hinside
    have hrest := ofTrees_again [] ts _
      (fun e he => hid e (List.mem_append_right _ he))
      (fun t ht => htags t (List.mem_append_right _ ht))
    rw [treesFrom, ofTrees_textTree, ofTrees_cons, helement, hrest, joinFrom]
    rfl

end Node

namespace Scene

/-! ## Diagrams -/

/-- A diagram that can be saved: its names are written as they are read, and no value and no
    text holds white space that reading changes. -/
structure Portable (s : Scene) : Prop where
  spaces : ∀ d ∈ s.namespaces, ∀ c ∈ d.2.toList, keptInValue c = true
  tags : ∀ t ∈ s.root.tags, t.Portable s.namespaces
  lines : '\r' ∉ s.root.textChars

instance (s : Scene) : Decidable s.Portable :=
  decidable_of_iff ((∀ d ∈ s.namespaces, d.2.toList.all keptInValue = true) ∧
      (∀ t ∈ s.root.tags, t.Portable s.namespaces) ∧ '\r' ∉ s.root.textChars)
    ⟨fun h => ⟨fun d hd => List.all_eq_true.1 (h.1 d hd), h.2.1, h.2.2⟩,
      fun h => ⟨fun d hd => List.all_eq_true.2 (h.spaces d hd), h.tags, h.lines⟩⟩

theorem load_of_document {text : String} {d : Document} (h : Document.ofText? text = some d) :
    load text = if d.name.name == "svg" then .ok (ofDocument d)
      else .error (.rootName d.name.name) := by
  rw [load, h]

variable {d : Document}

theorem Portable.readable (hd : d.Sound) (h : (ofDocument d).Portable) :
    (ofDocument d).Readable := by
  refine ⟨hd.declarable, h.spaces, fun t ht => (h.tags t ht).readable, fun c hc => ?_⟩
  have hreturn : c ≠ '\r' := fun heq => h.lines (heq ▸ hc)
  have hallowed : isAllowed c = true := by
    rw [root_ofDocument, Node.textChars_ofTree, Tree.textChars,
      Tree.listTextChars_eq_flatMap] at hc
    obtain ⟨t, ht, hct⟩ := List.mem_flatMap.1 hc
    exact hd.children t ht c hct
  rw [Node.keptInText, hallowed, Bool.true_and, bne_iff_ne]
  exact hreturn

/-- A saved diagram is read as the same diagram with neighbouring texts joined. -/
theorem ofDocument_document (h : (ofDocument d).Portable)
    (hid : ∀ e ∈ d.elements, e.OwnId d.declared) :
    ofDocument (ofDocument d).document = (ofDocument d).joined := by
  have hfirst : Node.ofTree d.declared [] (.element d.name d.attrs d.children) =
      ((ofDocument d).root, (Node.ofTree d.declared [] (.element d.name d.attrs d.children)).2) :=
    rfl
  have hinside := Node.ofTrees_again [] d.children []
    (fun e he => hid e (List.mem_cons_of_mem _ he))
    (fun t ht => h.tags t (List.mem_cons_of_mem _ ht))
  have hagain := Node.ofTree_again hfirst (h.tags _ List.mem_cons_self)
    (hid _ List.mem_cons_self) hinside
  have hroot : (ofDocument (ofDocument d).document).root = (ofDocument d).root.join := by
    rw [root_ofDocument]
    exact congrArg Prod.fst hagain
  obtain ⟨htag, hchildren⟩ := Node.element.inj hroot
  show Scene.mk d.declared (ofDocument (ofDocument d).document).tag
      (ofDocument (ofDocument d).document).children [] =
    Scene.mk d.declared (ofDocument d).tag (Node.joinFrom [] (ofDocument d).children)
      (Node.joinFrom [] [])
  rw [htag, hchildren, Node.joinFrom_nil]

/-- A diagram that can be saved is loaded again from its text, and the same ids are found in it,
    with the same texts and the same attributes. -/
theorem exists_load_text {text : String} {a : Scene} (h : load text = .ok a)
    (hid : ∀ d, Document.ofText? text = some d → ∀ e ∈ d.elements, e.OwnId d.declared)
    (hportable : a.Portable) :
    ∃ b, load a.text = .ok b ∧ b.ids = a.ids ∧
      ∀ key, b.text? key = a.text? key ∧ ∀ name, b.attribute? key name = a.attribute? key name := by
  obtain ⟨d, hd, rfl⟩ := exists_of_load h
  have hsvg : d.name.name = "svg" := by
    rw [load_of_document hd] at h
    split at h
    · rename_i hname
      exact beq_iff_eq.1 hname
    · cases h
  have hread := ofText?_text (hportable.readable (Document.sound_of_ofText? hd))
  have hname : (ofDocument d).document.name.name = "svg" := by
    have hroot := (hportable.tags (ofDocument d).tag List.mem_cons_self).name.reads
    rw [← hsvg]
    refine ReadsElement.name_eq hroot ?_
    rw [hsvg]
    simp
  refine ⟨(ofDocument d).joined, ?_, ids_joined _, fun key => ⟨text?_joined _ key, fun name =>
    attribute?_joined _ key name⟩⟩
  rw [load_of_document hread, hname, ofDocument_document hportable (hid d hd)]
  rfl

/-- A diagram with a name of its own namespace, with character data, a comment inside of text,
    a quote in a value and a link. -/
def mixedText : String :=
  "<svg xmlns=\"http://www.w3.org/2000/svg\" xmlns:xlink=\"http://www.w3.org/1999/xlink\">" ++
    "<g id=\"g\" xmlns:p=\"u\"><p:t id=\"t\">a&lt;b<![CDATA[ & ]]><!-- x -->c</p:t>" ++
    "<rect id=\"r\" fill=\"&quot;\" xlink:href=\"#g\"/></g></svg>"

theorem exists_load_text_mixed : ∃ a b, load mixedText = .ok a ∧ a.Portable ∧
    load a.text = .ok b ∧ b.ids = ["g", "t", "r"] ∧ b.text? "t" = some "a<b & c" ∧
      b.attribute? "r" "xlink:href" = some "#g" ∧ b.attribute? "r" "fill" = some "\"" := by
  have hdocument : ((Document.ofText? mixedText).any fun d =>
      decide (d.name.name = "svg" ∧ (∀ e ∈ d.elements, e.OwnId d.declared) ∧
        (ofDocument d).Portable ∧ (ofDocument d).ids = ["g", "t", "r"] ∧
        (ofDocument d).text? "t" = some "a<b & c" ∧
        (ofDocument d).attribute? "r" "xlink:href" = some "#g" ∧
        (ofDocument d).attribute? "r" "fill" = some "\"")) = true := by decide +kernel
  obtain ⟨d, hd, hcheck⟩ := (Option.any_eq_true _ _).1 hdocument
  obtain ⟨hsvg, hown, hportable, hids, htext, hlink, hfill⟩ := of_decide_eq_true hcheck
  have ha : load mixedText = .ok (ofDocument d) := by
    rw [load_of_document hd, hsvg]
    rfl
  have hid : ∀ d', Document.ofText? mixedText = some d' →
      ∀ e ∈ d'.elements, e.OwnId d'.declared := by
    intro d' hd'
    cases hd.symm.trans hd'
    exact hown
  obtain ⟨b, hb, hsame, hkeys⟩ := exists_load_text ha hid hportable
  refine ⟨ofDocument d, b, ha, hportable, hb, hsame.trans hids, ?_, ?_, ?_⟩
  · rw [(hkeys "t").1, htext]
  · rw [(hkeys "r").2, hlink]
  · rw [(hkeys "r").2, hfill]

/-- A diagram in which the namespace of a link is declared where it is used. -/
def nestedLink : String :=
  "<svg xmlns=\"http://www.w3.org/2000/svg\"><g xmlns:xlink=\"http://www.w3.org/1999/xlink\">" ++
    "<use id=\"u\" xlink:href=\"#a\"/></g></svg>"

/-- A link whose namespace is declared inside of the root is written without the declaration, and
    the diagram is not loaded again. -/
theorem nested_namespace_lost : ∃ a, load nestedLink = .ok a ∧ a.ids = ["u"] ∧
    a.attribute? "u" "xlink:href" = some "#a" ∧ load a.text = .error .markup := by
  obtain ⟨a, ha, hcheck⟩ := exists_load_of_any nestedLink
    (fun s => decide (s.ids = ["u"] ∧ s.attribute? "u" "xlink:href" = some "#a" ∧
      (Document.ofText? s.text).isNone = true)) (by decide +kernel)
  obtain ⟨hids, hlink, hnone⟩ := of_decide_eq_true hcheck
  refine ⟨a, ha, hids, hlink, ?_⟩
  rw [load, Option.isNone_iff_eq_none.1 hnone]

end Scene

end Slideshow

/-
  Slideshow.Proofs.Scene.Condense

  Diagrams in which everything that no key can name is one text. Condensing keeps what keys
  name and what is read under them, and it goes along with every change that puts no text in
  place of something that can be named (`make_condense`). In a condensed diagram such a
  change is plain (`plain_condense_iff`).
-/
import Slideshow.Proofs.Scene.Index

namespace Slideshow

/-- An element that keys can name, by its handle or as the shape inside an element. -/
def Tag.isNamed (t : Tag) : Bool := t.handle.isSome || t.isShape

namespace Node

variable {tag : Tag} {children : List Node}

/-- Some of the elements in some nodes can be named. -/
def anyNamed (ns : List Node) : Bool := (listTags ns).any Tag.isNamed

mutual

/-- The node with a text in place of what stands inside an element and cannot be named. -/
def condense : Node → Node
  | text s => text s
  | element tag children =>
    element tag (if anyNamed children then listCondense children
      else [text (String.ofList (listTextChars children))])

/-- Some nodes with texts in place of what cannot be named. -/
def listCondense : List Node → List Node
  | [] => []
  | n :: ns => n.condense :: listCondense ns

end

theorem listCondense_eq_map (ns : List Node) : listCondense ns = ns.map condense := by
  induction ns with
  | nil => rfl
  | cons n ns ih => rw [listCondense, ih, List.map_cons]

theorem condense_element (tag : Tag) (children : List Node) :
    (element tag children).condense =
      element tag (if anyNamed children then children.map condense
        else [text (String.ofList (listTextChars children))]) := by
  rw [condense, listCondense_eq_map]

theorem anyNamed_of_mem {ns : List Node} {n : Node} (hn : n ∈ ns) {t : Tag} (ht : t ∈ n.tags)
    (hnamed : t.isNamed = true) : anyNamed ns = true := by
  rw [anyNamed, List.any_eq_true]
  refine ⟨t, ?_, hnamed⟩
  rw [listTags_eq_flatMap]
  exact List.mem_flatMap.2 ⟨n, hn, ht⟩

@[simp] theorem isElement_condense (n : Node) : n.condense.isElement = n.isElement := by
  cases n <;> rfl

/-- An element in which something can be named has elements inside. -/
theorem any_isElement_condense (children : List Node) :
    (element tag children).condense.children.any isElement = anyNamed children := by
  rw [condense_element, Node.children]
  cases hnamed : anyNamed children with
  | false => rfl
  | true =>
    rw [anyNamed, List.any_eq_true] at hnamed
    obtain ⟨t, ht, _⟩ := hnamed
    rw [listTags_eq_flatMap] at ht
    obtain ⟨n, hn, ht⟩ := List.mem_flatMap.1 ht
    rw [if_pos rfl, List.any_eq_true]
    refine ⟨n.condense, List.mem_map_of_mem hn, ?_⟩
    cases n with
    | text => cases ht
    | element => rfl

/-! ## What is kept -/

theorem textChars_condense (n : Node) : n.condense.textChars = n.textChars := by
  induction n using Node.induction with
  | text s => rfl
  | element tag children ih =>
    rw [condense_element, textChars, textChars]
    split
    · rw [listTextChars_eq_flatMap, listTextChars_eq_flatMap, List.flatMap_map, List.flatMap_def,
        List.flatMap_def, List.map_congr_left ih]
    · rw [listTextChars, listTextChars, textChars, List.append_nil, String.toList_ofList]

section Finding

variable {p : Tag → Bool}

/-- Where nothing can be named, nothing is found that can be. -/
theorem listFind?_of_not_named (hp : ∀ t, p t = true → t.isNamed = true) {ns : List Node}
    (h : anyNamed ns = false) : listFind? p ns = none := by
  cases hfind : listFind? p ns with
  | none => rfl
  | some a =>
    obtain ⟨i, is, n, rfl, hn, hfind⟩ := exists_of_listFind? a hfind
    obtain ⟨t, ht, htp⟩ := exists_mem_of_find? hfind
    rw [anyNamed_of_mem (List.mem_of_getElem? hn) ht (hp t htp)] at h
    cases h

theorem listFind?_map_condense {ns : List Node}
    (h : ∀ n ∈ ns, n.condense.find? p = n.find? p) :
    listFind? p (ns.map condense) = listFind? p ns := by
  induction ns with
  | nil => rfl
  | cons n ns ih =>
    rw [List.map_cons, listFind?, listFind?, h n List.mem_cons_self,
      ih fun m hm => h m (List.mem_cons_of_mem _ hm)]

variable (hp : ∀ t, p t = true → t.isNamed = true)
include hp

/-- Elements that can be named are found where they were. -/
theorem find?_condense (n : Node) : n.condense.find? p = n.find? p := by
  induction n using Node.induction with
  | text s => rfl
  | element tag children ih =>
    rw [condense_element, find?, find?]
    split
    · rfl
    · split
      · exact listFind?_map_condense ih
      · rename_i hnamed
        rw [Bool.not_eq_true] at hnamed
        rw [listFind?_of_not_named hp hnamed]
        rfl

theorem listFind?_children_condense (n : Node) :
    listFind? p n.condense.children = listFind? p n.children := by
  cases n with
  | text s => rfl
  | element tag children =>
    rw [condense_element, Node.children, Node.children]
    split
    · exact listFind?_map_condense fun n _ => find?_condense hp n
    · rename_i hnamed
      rw [Bool.not_eq_true] at hnamed
      rw [listFind?_of_not_named hp hnamed]
      rfl

/-- The tags that can be named are kept. -/
theorem filter_tags_condense (n : Node) : n.condense.tags.filter p = n.tags.filter p := by
  induction n using Node.induction with
  | text s => rfl
  | element tag children ih =>
    have hinside : (listTags (if anyNamed children then children.map condense
        else [text (String.ofList (listTextChars children))])).filter p =
          (listTags children).filter p := by
      split
      · rw [listTags_eq_flatMap, listTags_eq_flatMap, List.flatMap_map, List.filter_flatMap,
          List.filter_flatMap, List.flatMap_def, List.flatMap_def, List.map_congr_left ih]
      · rename_i hnamed
        rw [anyNamed, List.any_eq_true] at hnamed
        have hnone : (listTags children).filter p = [] :=
          List.filter_eq_nil_iff.2 fun t ht htp => hnamed ⟨t, ht, hp t htp⟩
        rw [hnone]
        rfl
    rw [condense_element, tags, tags, List.filter_cons, List.filter_cons, hinside]

end Finding

/-- A node in which something can be named stands where it was. -/
theorem at?_condense {m : Node} {t : Tag} (ht : t ∈ m.tags) (hnamed : t.isNamed = true)
    (a : Address) : ∀ n : Node, n.at? a = some m → n.condense.at? a = some m.condense := by
  induction a with
  | nil =>
    intro n h
    cases h
    rfl
  | cons i is ih =>
    intro n h
    cases n with
    | text s => cases h
    | element tag children =>
      obtain ⟨c, hc, hat⟩ := Option.bind_eq_some_iff.1 h
      rw [Node.children] at hc
      have hany := anyNamed_of_mem (List.mem_of_getElem? hc) (mem_tags_of_at? hat ht) hnamed
      rw [condense_element, hany, if_pos rfl, at?, Node.children, List.getElem?_map, hc]
      exact ih c hat

/-! ## Changing -/

section Changing

variable {f : Tag → List Node → Node} {t : Tag}

/-- A change among some nodes goes along with condensing if it does so in the one node. -/
theorem map_condense_modify {g : Node → Node} {ns : List Node} {i : Nat}
    (hg : ∀ n, ns[i]? = some n → (g n).condense = g n.condense) :
    (ns.modify i g).map condense = (ns.map condense).modify i g := by
  refine List.ext_getElem? fun j => ?_
  rw [List.getElem?_map, List.getElem?_modify, List.getElem?_modify, List.getElem?_map]
  cases hn : ns[j]? with
  | none => rfl
  | some n =>
    by_cases hij : i = j
    · subst hij
      simp only [Option.map_eq_map, Option.map_some, if_true, hg n hn]
    · simp only [Option.map_eq_map, hij, if_false, Option.map_some]

/-- A change to an element that can be named, and goes along with condensing in the element,
    does so in the whole. -/
theorem condense_modify (htag : tag.isNamed = true) (hnew : t ∈ (f tag children).tags)
    (ht : t.isNamed = true)
    (hf : (f tag children).condense = f tag (element tag children).condense.children)
    (a : Address) : ∀ n : Node, n.at? a = some (element tag children) →
      (n.modify f a).condense = n.condense.modify f a := by
  induction a with
  | nil =>
    intro n h
    cases h
    exact hf
  | cons i is ih =>
    intro n h
    cases n with
    | text s => cases h
    | element tag' children' =>
      obtain ⟨c, hc, hat⟩ := Option.bind_eq_some_iff.1 h
      rw [Node.children] at hc
      have hany := anyNamed_of_mem (List.mem_of_getElem? hc)
        (mem_tags_of_at? hat List.mem_cons_self) htag
      -- the new element is inside the changed child
      have hchild : (c.modify f is) ∈ children'.modify i (modify f is) := by
        refine List.mem_of_getElem? (i := i) ?_
        rw [List.getElem?_modify, hc]
        simp only [Option.map_eq_map, Option.map_some, if_true]
      have hinside : t ∈ (c.modify f is).tags := by
        obtain ⟨before, after, _, hmodify⟩ := exists_tags_around is c hat
        rw [hmodify, List.mem_append, List.mem_append]
        exact .inl (.inr hnew)
      have hany' := anyNamed_of_mem hchild hinside ht
      rw [modify, condense_element, hany', if_pos rfl, condense_element, hany, if_pos rfl, modify,
        map_condense_modify]
      intro n hn
      rw [hc] at hn
      cases hn
      exact ih c hat

end Changing

end Node

namespace Scene

variable {s t : Scene} {key : String} {a : Node.Address} {tag : Tag} {children : List Node}

/-! ## Diagrams -/

/-- The diagram with texts in place of what cannot be named. -/
def condense (s : Scene) : Scene :=
  { s with
    children := s.root.condense.children
    detached := s.detached.map Node.condense }

theorem root_condense (s : Scene) : s.condense.root = s.root.condense := by
  show Node.element s.tag s.root.condense.children = s.root.condense
  rw [root, Node.condense_element]
  rfl

theorem forest_condense (s : Scene) :
    s.condense.forest =
      .element ⟨none, "", []⟩ (s.forest.children.map Node.condense) := by
  rw [forest, root_condense]
  rfl

/-- A diagram is given by its tree, what was taken out of it, and its namespaces. -/
theorem eq_of_forest (hforest : s.forest = t.forest) (hspaces : s.namespaces = t.namespaces) :
    s = t := by
  obtain ⟨spaces, tag, children, detached⟩ := s
  obtain ⟨spaces', tag', children', detached'⟩ := t
  cases hspaces
  cases hforest
  rfl

/-- What can be named stands where it was. -/
theorem at?_condense {m : Node} {t : Tag} (ht : t ∈ m.tags) (hnamed : t.isNamed = true)
    (ha : a ≠ []) (hat : s.forest.at? a = some m) : s.condense.forest.at? a = some m.condense := by
  rw [forest_condense]
  cases a with
  | nil => exact absurd rfl ha
  | cons i is =>
    obtain ⟨c, hc, hat⟩ := Option.bind_eq_some_iff.1 hat
    rw [Node.at?, Node.children, List.getElem?_map, hc]
    exact Node.at?_condense ht hnamed is c hat

theorem handleAddress?_condense (s : Scene) (handle : String) :
    s.condense.handleAddress? handle = s.handleAddress? handle := by
  have hp : ∀ t : Tag, (t.handle == some handle) = true → t.isNamed = true := by
    intro t ht
    rw [Tag.isNamed, beq_iff_eq.1 ht]
    rfl
  rw [handleAddress?, handleAddress?, forest_condense, forest, Node.find?, Node.find?,
    Node.children, Node.listFind?_map_condense fun n _ => Node.find?_condense hp n]

theorem isNamed_of_handleAddress? {handle : String} (h : s.handleAddress? handle = some a)
    (hat : s.forest.at? a = some (.element tag children)) : tag.isNamed = true := by
  obtain ⟨tag', children', hat', htag⟩ := Node.exists_of_find? _ a h
  cases hat.symm.trans hat'
  rw [Tag.isNamed, beq_iff_eq.1 htag]
  rfl

theorem shapeInside?_condense (hnamed : tag.isNamed = true) (ha : a ≠ [])
    (hat : s.forest.at? a = some (.element tag children)) :
    s.condense.shapeInside? a = s.shapeInside? a := by
  have hp : ∀ t : Tag, t.isShape = true → t.isNamed = true := fun t ht => by
    rw [Tag.isNamed, ht, Bool.or_true]
  rw [shapeInside?, shapeInside?, at?_condense List.mem_cons_self hnamed ha hat, hat,
    Option.bind_some, Option.bind_some, Node.listFind?_children_condense hp]

/-- Keys name the same elements in the condensed diagram. -/
theorem resolve?_condense (s : Scene) (key : String) :
    s.condense.resolve? key = s.resolve? key := by
  rw [resolve?, resolve?, handleAddress?_condense]
  cases s.handleAddress? key with
  | some a => rfl
  | none =>
    cases Text.stripEnding? shapeEnding key with
    | none => rfl
    | some owner =>
      rw [Option.bind_some, Option.bind_some, handleAddress?_condense]
      cases howner : s.handleAddress? owner with
      | none => rfl
      | some a =>
        obtain ⟨tag, children, hat, hne⟩ := exists_of_handleAddress? howner
        exact shapeInside?_condense (isNamed_of_handleAddress? howner hat) hne hat

/-- What a key names can be named. -/
theorem isNamed_of_resolve? (h : s.resolve? key = some a)
    (hat : s.forest.at? a = some (.element tag children)) : tag.isNamed = true := by
  unfold resolve? at h
  split at h
  · rename_i hfound
    cases h
    exact isNamed_of_handleAddress? hfound hat
  · -- the key means a shape inside the element that it names
    obtain ⟨owner, _, h⟩ := Option.bind_eq_some_iff.1 h
    obtain ⟨b, _, h⟩ := Option.bind_eq_some_iff.1 h
    obtain ⟨n, hn, h⟩ := Option.bind_eq_some_iff.1 h
    obtain ⟨c, hc, rfl⟩ := Option.map_eq_some_iff.1 h
    obtain ⟨i, is, m, rfl, hm, hfind⟩ := Node.exists_of_listFind? c hc
    obtain ⟨tag', children', hat', hshape⟩ := Node.exists_of_find? m is hfind
    rw [Node.at?_append, hn, Option.bind_some, Node.at?, hm] at hat
    cases hat.symm.trans hat'
    rw [Tag.isNamed, hshape, Bool.or_true]

/-- The element that a key names stands condensed where it was. -/
theorem at?_condense_of_resolve? (h : s.resolve? key = some a)
    (hat : s.forest.at? a = some (.element tag children)) :
    s.condense.forest.at? a = some (Node.element tag children).condense := by
  obtain ⟨_, _, _, hne⟩ := exists_of_resolve? h
  exact at?_condense List.mem_cons_self (isNamed_of_resolve? h hat) hne hat

/-! ## Looking at condensed diagrams -/

theorem contains_condense (s : Scene) (key : String) :
    s.condense.contains key = s.contains key := by
  rw [contains, contains, resolve?_condense]

theorem text?_condense (s : Scene) (key : String) : s.condense.text? key = s.text? key := by
  rw [text?, text?, resolve?_condense]
  cases hkey : s.resolve? key with
  | none => rfl
  | some a =>
    obtain ⟨tag, children, hat, _⟩ := exists_of_resolve? hkey
    rw [Option.bind_some, Option.bind_some, at?_condense_of_resolve? hkey hat, hat,
      Option.map_some, Option.map_some, Node.textChars_condense]

theorem attribute?_condense (s : Scene) (key name : String) :
    s.condense.attribute? key name = s.attribute? key name := by
  rw [attribute?, attribute?, tag?, tag?, resolve?_condense]
  cases hkey : s.resolve? key with
  | none => rfl
  | some a =>
    obtain ⟨tag, children, hat, _⟩ := exists_of_resolve? hkey
    rw [Option.bind_some, Option.bind_some, at?_condense_of_resolve? hkey hat, hat]
    rfl

theorem ids_condense (s : Scene) : s.condense.ids = s.ids := by
  have hp : ∀ t : Tag, t.isIndexed = true → t.isNamed = true := by
    intro t ht
    rw [Tag.isNamed, (Bool.and_eq_true_iff.1 ht).1, Bool.true_or]
  rw [ids, ids, root_condense, Node.filter_tags_condense hp]

theorem viewport?_condense (s : Scene) : s.condense.viewport? = s.viewport? := rfl

/-! ## Changing condensed diagrams -/

/-- Nothing inside the element that a key names can be named. -/
def Closed (s : Scene) (key : String) : Prop :=
  ∀ n ∈ (s.resolve? key).bind s.forest.at?, Node.anyNamed n.children = false

instance (s : Scene) (key : String) : Decidable (s.Closed key) :=
  inferInstanceAs (Decidable (∀ n ∈ (s.resolve? key).bind s.forest.at?,
    Node.anyNamed n.children = false))

theorem closed_iff (h : s.resolve? key = some a)
    (hat : s.forest.at? a = some (.element tag children)) :
    s.Closed key ↔ Node.anyNamed children = false := by
  rw [Closed, h, Option.bind_some, hat]
  constructor
  · exact fun hclosed => hclosed _ rfl
  · rintro hnamed _ ⟨⟩
    exact hnamed

theorem textOnly_condense_iff (s : Scene) (key : String) :
    s.condense.TextOnly key ↔ s.Closed key := by
  cases hkey : s.resolve? key with
  | none =>
    have hleft : s.condense.TextOnly key := by
      intro n hn
      rw [resolve?_condense, hkey] at hn
      cases hn
    have hright : s.Closed key := by
      intro n hn
      rw [hkey] at hn
      cases hn
    exact iff_of_true hleft hright
  | some a =>
    obtain ⟨tag, children, hat, _⟩ := exists_of_resolve? hkey
    rw [closed_iff hkey hat, TextOnly, resolve?_condense, hkey, Option.bind_some,
      at?_condense_of_resolve? hkey hat, ← @Node.any_isElement_condense tag children]
    constructor
    · exact fun h => h _ rfl
    · rintro h _ ⟨⟩
      exact h

/-- A change to the element that a key names goes along with condensing if it does so in the
    element. -/
theorem condense_modify {f : Tag → List Node → Node} (hkey : s.resolve? key = some a)
    (hat : s.forest.at? a = some (.element tag children)) {t : Tag}
    (hnew : t ∈ (f tag children).tags) (ht : t.isNamed = true)
    (hf : (f tag children).condense = f tag (Node.element tag children).condense.children) :
    (s.modify a f).condense = s.condense.modify a f := by
  obtain ⟨_, _, _, hne⟩ := exists_of_resolve? hkey
  have htag := isNamed_of_resolve? hkey hat
  have helement : (f tag children).isElement = true := by
    cases hnode : f tag children with
    | text => rw [hnode] at hnew; cases hnew
    | element => rfl
  obtain ⟨children', hcondense⟩ : ∃ children',
      (Node.element tag children).condense = .element tag children' :=
    ⟨_, Node.condense_element tag children⟩
  have hat' := at?_condense_of_resolve? hkey hat
  have helement' : (f tag children').isElement = true := by
    have hsame : (f tag children).condense = f tag children' := by
      rw [hf, hcondense, Node.children]
    rw [← hsame, Node.isElement_condense]
    exact helement
  rw [hcondense] at hat'
  refine eq_of_forest ?_ ?_
  · rw [forest_condense, forest_modify hne hat helement, forest_modify hne hat' helement',
      forest_condense]
    cases a with
    | nil => exact absurd rfl hne
    | cons i is =>
      obtain ⟨c, hc, hat⟩ := Option.bind_eq_some_iff.1 hat
      rw [forest, Node.modify, Node.modify, Node.children, Node.children,
        Node.map_condense_modify fun n hn => ?_]
      cases hc.symm.trans hn
      exact Node.condense_modify htag hnew ht hf is c hat
  · rw [namespaces_modify]
    exact namespaces_modify s a f

/-- A new text where nothing could be named leaves nothing over. -/
theorem setText_of_closed (hkey : s.resolve? key = some a)
    (hat : s.forest.at? a = some (.element tag children)) (h : Node.anyNamed children = false)
    (value : String) :
    s.setText key value = s.modify a fun tag _ => .element tag [.text value] := by
  have hnone : leftover children = [] := by
    refine leftover_eq_nil fun t ht k hk => ?_
    rw [Tag.holds, beq_iff_eq] at hk
    have hnamed : t.isNamed = true := by
      rw [Tag.isNamed, hk]
      rfl
    rw [Node.anyNamed, List.any_eq_false] at h
    exact absurd hnamed (h t ht)
  rw [setText_eq hkey hat, hnone, List.append_nil]

theorem condense_setText (hkey : s.resolve? key = some a) (h : s.Closed key) (value : String) :
    (s.setText key value).condense = s.condense.setText key value := by
  obtain ⟨tag, children, hat, _⟩ := exists_of_resolve? hkey
  have hnone := (closed_iff hkey hat).1 h
  have hat' := at?_condense_of_resolve? hkey hat
  have hkey' := (resolve?_condense s key).trans hkey
  rw [Node.condense_element, hnone, if_neg Bool.false_ne_true] at hat'
  rw [setText_of_closed hkey hat hnone, setText_of_closed hkey' hat' rfl]
  refine condense_modify (f := fun tag _ => .element tag [.text value]) hkey hat
    List.mem_cons_self (isNamed_of_resolve? hkey hat) ?_
  rw [Node.condense_element]
  show Node.element tag [.text (String.ofList (value.toList ++ []))] = _
  rw [List.append_nil, String.ofList_toList]

/-- An attribute other than the id goes along with condensing. -/
theorem condense_make_attribute (hkey : s.resolve? key = some a) {name : String}
    (hid : name ≠ "id") (value : Option String) :
    (Stage.make s (.attribute key name value)).condense =
      Stage.make s.condense (.attribute key name value) := by
  obtain ⟨tag, children, hat, _⟩ := exists_of_resolve? hkey
  have hkey' := (resolve?_condense s key).trans hkey
  have hsame : s.retag a name value = s.condense.retag a name value := by
    funext tag
    cases value with
    | none => rfl
    | some v => rw [retag, retag, if_neg hid, if_neg hid]
  have hnamed : (s.retag a name value tag).isNamed = tag.isNamed := by
    cases value with
    | none => rfl
    | some v => rw [retag, if_neg hid]; rfl
  rw [make_attribute_eq hkey, make_attribute_eq hkey', ← hsame]
  refine condense_modify (f := fun tag children => .element (s.retag a name value tag) children)
    hkey hat List.mem_cons_self (hnamed.trans (isNamed_of_resolve? hkey hat)) ?_
  rw [Node.condense_element, Node.condense_element, Node.children]

theorem condense_make_camera (s : Scene) (frame : Rect) :
    (Stage.make s (.camera frame)).condense = Stage.make s.condense (.camera frame) := by
  refine eq_of_forest ?_ rfl
  have hroot : (Stage.make s (.camera frame)).root.condense =
      (Stage.make s.condense (.camera frame)).root := by
    show (Node.element (s.tag.set "viewBox" frame.viewBox) s.children).condense =
      Node.element (s.tag.set "viewBox" frame.viewBox) s.root.condense.children
    rw [root, Node.condense_element, Node.condense_element, Node.children]
  rw [forest_condense, forest, forest, Node.children, List.map_cons, hroot]
  rfl

end Scene

/-! ## Mild changes -/

namespace Change

/-- A new text takes the place of nothing that can be named, and the id stays. -/
def Mild (s : Scene) : Change → Prop
  | .text key _ => s.Closed key
  | .attribute key name _ => s.contains key = true → name ≠ "id"
  | .camera _ => True

instance (s : Scene) : (ch : Change) → Decidable (ch.Mild s)
  | .text key _ => inferInstanceAs (Decidable (s.Closed key))
  | .attribute key name _ => inferInstanceAs (Decidable (s.contains key = true → name ≠ "id"))
  | .camera _ => .isTrue trivial

/-- A change is plain in the condensed diagram exactly if it is mild. -/
theorem plain_condense_iff (s : Scene) (ch : Change) : ch.Plain s.condense ↔ ch.Mild s := by
  cases ch with
  | text key value => exact s.textOnly_condense_iff key
  | camera => exact Iff.rfl
  | _ key name value =>
    show (s.condense.contains key = true → name ≠ "id") ↔ _
    rw [Scene.contains_condense]
    exact Iff.rfl

end Change

namespace Scene

variable {s d : Scene} {ch : Change}

/-- A mild change goes along with condensing. -/
theorem make_condense (h : ch.Mild s) :
    (Stage.make s ch).condense = Stage.make s.condense ch := by
  cases hcell : ch.cell? s with
  | none =>
    have hcell' : ch.cell? s.condense = none := by
      cases ch <;> simp only [Change.cell?, resolve?_condense] at hcell ⊢ <;> exact hcell
    rw [make_of_cell?_none hcell, make_of_cell?_none hcell']
  | some c =>
    cases ch with
    | text key value =>
      obtain ⟨a, ha, _⟩ := Option.map_eq_some_iff.1 hcell
      exact condense_setText ha h value
    | camera frame => exact condense_make_camera s frame
    | _ key name value =>
      obtain ⟨a, ha, _⟩ := Option.map_eq_some_iff.1 hcell
      refine condense_make_attribute ha (h ?_) value
      rw [contains, ha, Option.isSome_some]

/-- Changes that are plain in a condensed diagram go along with condensing, one after another. -/
theorem makeAll_condense {chs : List Change} (h : ∀ ch ∈ chs, ch.Plain d) (s : Scene)
    (hskel : s.condense.skeleton = d.skeleton) :
    (Stage.makeAll s chs).condense = Stage.makeAll s.condense chs := by
  induction chs generalizing s with
  | nil => rfl
  | cons ch chs ih =>
    have hplain := (h ch List.mem_cons_self).congr hskel.symm
    have hmake := make_condense ((ch.plain_condense_iff s).1 hplain)
    rw [Stage.makeAll_cons, Stage.makeAll_cons, ← hmake]
    refine ih (fun ch' hch' => h ch' (List.mem_cons_of_mem _ hch')) _ ?_
    rw [hmake, (rewritten_make hplain).skeleton]
    exact hskel

end Scene

end Slideshow

/-
  Slideshow.Proofs.Scene.Joined

  Diagrams with neighbouring texts joined. Addresses of elements shift when texts are joined,
  but looking at the elements themselves gives the same answers (`ids_joined`, `text?_joined`,
  `attribute?_joined`).
-/
import Slideshow.Proofs.Scene.Tags

namespace Slideshow

namespace Node

variable {p : Tag → Bool}

/-! ## Joining -/

/-- A text that holds something. -/
def textNode (cs : List Char) : List Node := if cs.isEmpty then [] else [.text (String.ofList cs)]

/-- Some nodes behind a text that has not ended, with neighbouring texts as one. -/
def joinFrom (pending : List Char) : List Node → List Node
  | [] => textNode pending
  | .text s :: ns => joinFrom (pending ++ s.toList) ns
  | .element tag children :: ns =>
    textNode pending ++ .element tag (joinFrom [] children) :: joinFrom [] ns

/-- A node with neighbouring texts inside as one. -/
def join : Node → Node
  | .text s => .text s
  | .element tag children => .element tag (joinFrom [] children)

@[simp] theorem tag?_join (n : Node) : n.join.tag? = n.tag? := by
  cases n <;> rfl

theorem joinFrom_nil : joinFrom [] [] = [] := by
  rw [joinFrom]
  rfl

theorem listTextChars_textNode (cs : List Char) (ns : List Node) :
    listTextChars (textNode cs ++ ns) = cs ++ listTextChars ns := by
  cases cs with
  | nil => rfl
  | cons c cs =>
    show (String.ofList (c :: cs)).toList ++ listTextChars ns = _
    rw [String.toList_ofList]

theorem listTags_textNode (cs : List Char) (ns : List Node) :
    listTags (textNode cs ++ ns) = listTags ns := by
  cases cs <;> rfl

/-- Joining keeps all text. -/
theorem listTextChars_joinFrom (pending : List Char) (ns : List Node) :
    listTextChars (joinFrom pending ns) = pending ++ listTextChars ns := by
  fun_induction joinFrom pending ns with
  | case1 pending =>
    rw [← List.append_nil (textNode pending), listTextChars_textNode]
  | case2 pending s ns ih =>
    rw [ih, List.append_assoc]
    rfl
  | case3 pending tag children ns ihchildren ih =>
    rw [listTextChars_textNode, listTextChars, textChars, ihchildren, ih]
    rfl

/-- Joining keeps all elements. -/
theorem listTags_joinFrom (pending : List Char) (ns : List Node) :
    listTags (joinFrom pending ns) = listTags ns := by
  fun_induction joinFrom pending ns with
  | case1 pending =>
    rw [← List.append_nil (textNode pending), listTags_textNode]
  | case2 pending s ns ih => exact ih
  | case3 pending tag children ns ihchildren ih =>
    rw [listTags_textNode, listTags, listTags, tags, tags, ihchildren, ih]

@[simp] theorem textChars_join (n : Node) : n.join.textChars = n.textChars := by
  cases n with
  | text => rfl
  | element tag children => exact listTextChars_joinFrom [] children

@[simp] theorem tags_join (n : Node) : n.join.tags = n.tags := by
  cases n with
  | text => rfl
  | element tag children =>
    rw [join, tags, tags, listTags_joinFrom]

/-! ## Elements that are found -/

mutual

/-- The first element in document order that has a property, with all that is inside. -/
def pick? (p : Tag → Bool) : Node → Option Node
  | .text _ => none
  | .element tag children =>
    if p tag then some (.element tag children) else listPick? p children

/-- The first element among some nodes that has a property, with all that is inside. -/
def listPick? (p : Tag → Bool) : List Node → Option Node
  | [] => none
  | n :: ns => (n.pick? p).or (listPick? p ns)

end

/-- The element at an address that is looked for among some nodes. -/
theorem listFind?_bind_at? {tag : Tag} {ns : List Node}
    (h : ∀ n ∈ ns, (n.find? p).bind n.at? = n.pick? p) :
    (listFind? p ns).bind (Node.element tag ns).at? = listPick? p ns := by
  induction ns with
  | nil => rfl
  | cons n ns ih =>
    have hfirst := h n List.mem_cons_self
    have hrest := ih fun m hm => h m (List.mem_cons_of_mem _ hm)
    rw [listFind?, listPick?, ← hfirst, ← hrest]
    cases hn : n.find? p with
    | some a =>
      obtain ⟨tag', children', hat, _⟩ := exists_of_find? n a hn
      rw [Option.bind_some, Option.bind_some, hat, Option.some_or]
      exact hat
    | none =>
      rw [Option.bind_none, Option.none_or]
      cases hns : listFind? p ns with
      | none => rfl
      | some a =>
        -- one more node stands before the one that is found
        obtain ⟨i, is, _, rfl, _⟩ := exists_of_listFind? a hns
        rfl

/-- What is found at its address is the element that is picked. -/
theorem find?_bind_at? (n : Node) : (n.find? p).bind n.at? = n.pick? p := by
  induction n using Node.induction with
  | text s => rfl
  | element tag children ih =>
    rw [find?, pick?]
    split
    · rfl
    · exact listFind?_bind_at? ih

theorem listFind?_children_bind_at? (n : Node) :
    (listFind? p n.children).bind n.at? = listPick? p n.children := by
  cases n with
  | text => rfl
  | element tag children => exact listFind?_bind_at? fun m _ => find?_bind_at? m

theorem listPick?_textNode (cs : List Char) (ns : List Node) :
    listPick? p (textNode cs ++ ns) = listPick? p ns := by
  cases cs <;> rfl

/-- Joining keeps what is found. -/
theorem listPick?_joinFrom (pending : List Char) (ns : List Node) :
    listPick? p (joinFrom pending ns) = (listPick? p ns).map join := by
  fun_induction joinFrom pending ns with
  | case1 pending =>
    rw [← List.append_nil (textNode pending), listPick?_textNode]
    rfl
  | case2 pending s ns ih =>
    rw [ih]
    rfl
  | case3 pending tag children ns ihchildren ih =>
    rw [listPick?_textNode, listPick?, listPick?, pick?, pick?, ihchildren, ih]
    split
    · rfl
    · rw [Option.map_or]

theorem pick?_join (n : Node) : n.join.pick? p = (n.pick? p).map join := by
  cases n with
  | text => rfl
  | element tag children =>
    rw [join, pick?, pick?, listPick?_joinFrom]
    split
    · rfl
    · rfl

theorem listPick?_children_join (n : Node) :
    listPick? p n.join.children = (listPick? p n.children).map join := by
  cases n with
  | text => rfl
  | element tag children => exact listPick?_joinFrom [] children

end Node

namespace Scene

/-! ## Diagrams -/

/-- The diagram with neighbouring texts as one. -/
def joined (s : Scene) : Scene :=
  { s with children := Node.joinFrom [] s.children, detached := Node.joinFrom [] s.detached }

theorem root_joined (s : Scene) : s.joined.root = s.root.join := rfl

theorem forest_joined (s : Scene) : s.joined.forest = s.forest.join := by
  rw [forest, forest, Node.join, root, root, Node.joinFrom]
  rfl

/-- The element that a key names, with all that is inside. -/
def node? (s : Scene) (key : String) : Option Node := (s.resolve? key).bind s.forest.at?

theorem handleAddress?_bind_at? (s : Scene) (handle : String) :
    (s.handleAddress? handle).bind s.forest.at? =
      s.forest.pick? fun t => t.handle == some handle :=
  Node.find?_bind_at? s.forest

/-- The shape inside an element, as it stands in it. -/
theorem shapeInside?_bind_at? (s : Scene) (a : Node.Address) :
    (s.shapeInside? a).bind s.forest.at? =
      (s.forest.at? a).bind fun n => Node.listPick? Tag.isShape n.children := by
  rw [shapeInside?]
  cases hat : s.forest.at? a with
  | none => rfl
  | some n =>
    have hbehind : ∀ b, s.forest.at? (a ++ b) = n.at? b := fun b => by
      rw [Node.at?_append, hat, Option.bind_some]
    rw [Option.bind_some, Option.bind_some, Option.bind_map, ← Node.listFind?_children_bind_at?]
    simp only [Function.comp_def, hbehind]

/-- A key names the element with its handle, or else a shape inside its owner. -/
theorem node?_eq (s : Scene) (key : String) :
    s.node? key = (s.forest.pick? fun t => t.handle == some key).or
      ((Text.stripEnding? shapeEnding key).bind fun owner =>
        (s.forest.pick? fun t => t.handle == some owner).bind fun n =>
          Node.listPick? Tag.isShape n.children) := by
  have hown := handleAddress?_bind_at? s key
  rw [node?, resolve?, ← hown]
  cases hkey : s.handleAddress? key with
  | some a =>
    obtain ⟨tag, children, hat, _⟩ := Node.exists_of_find? s.forest a hkey
    rw [Option.bind_some, hat, Option.some_or]
  | none =>
    rw [Option.bind_none, Option.none_or]
    cases Text.stripEnding? shapeEnding key with
    | none => rfl
    | some owner =>
      rw [Option.bind_some, Option.bind_some, ← handleAddress?_bind_at?, Option.bind_assoc,
        Option.bind_assoc]
      simp only [shapeInside?_bind_at?]

/-- A key names the same element where texts are joined. -/
theorem node?_joined (s : Scene) (key : String) :
    s.joined.node? key = (s.node? key).map Node.join := by
  rw [node?_eq, node?_eq, forest_joined, Node.pick?_join, Option.map_or]
  congr 1
  cases Text.stripEnding? shapeEnding key with
  | none => rfl
  | some owner =>
    rw [Option.bind_some, Option.bind_some, Node.pick?_join, Option.bind_map, Option.map_bind]
    simp only [Function.comp_def, Node.listPick?_children_join]

/-! ## Looking at joined diagrams -/

variable {s : Scene}

theorem ids_joined (s : Scene) : s.joined.ids = s.ids := by
  rw [ids, ids, root_joined, Node.tags_join]

theorem text?_eq (s : Scene) (key : String) :
    s.text? key = (s.node? key).map fun n => String.ofList n.textChars := rfl

theorem attribute?_eq (s : Scene) (key name : String) :
    s.attribute? key name = ((s.node? key).bind Node.tag?).bind fun t => t.get? name := rfl

theorem text?_joined (s : Scene) (key : String) : s.joined.text? key = s.text? key := by
  rw [text?_eq, text?_eq, node?_joined, Option.map_map]
  simp only [Function.comp_def, Node.textChars_join]

theorem attribute?_joined (s : Scene) (key name : String) :
    s.joined.attribute? key name = s.attribute? key name := by
  rw [attribute?_eq, attribute?_eq, node?_joined, Option.bind_map]
  simp only [Function.comp_def, Node.tag?_join]

end Scene

end Slideshow

/-
  Slideshow.Proofs.Scene.Arena

  Diagrams as they lie in memory: all nodes stand in one row, and elements name their children by
  their places in it. Each node stands before its children and has at most one parent, so that
  whatever is done along the children comes to an end, and what hangs at a place is a tree
  (`Arena.node`). The way along the children to a node is the only one
  (`Arena.follow?_injective`).
-/
import Mathlib.Data.List.Induction
import Mathlib.Data.List.Nodup
import Slideshow.Proofs.Scene.Tags
import Slideshow.Scene.Document

namespace Slideshow

/-- A node in a row of nodes. An element names its children by their places. -/
inductive Arena.Item where
  | text (s : String)
  | element (name : String) (attrs : List (String × String)) (children : List Nat)

/-- The places of a node's children. -/
def Arena.Item.children : Item → List Nat
  | text _ => []
  | element _ _ children => children

/-- A diagram whose nodes stand in one row. A node that is nobody's child was taken out. -/
structure Arena where
  namespaces : List (Option String × String)
  items : List Arena.Item
  /-- The place of the root element. -/
  root : Nat
  /-- The places of the elements that are found under an id. -/
  index : String → Option Nat
  /-- Children stand behind their parents. -/
  ahead : ∀ i item, items[i]? = some item → ∀ c ∈ item.children, i < c ∧ c < items.length
  /-- No node is a child twice. -/
  single : (items.flatMap Arena.Item.children).Nodup

/-! ## How elements are written -/

/-- An element as it is written around what is inside. -/
def elementChars (name : String) (attrs : List (String × String)) (parts : List (List Char)) :
    List Char :=
  let start := '<' :: name.toList ++ attrs.flatMap fun a => attributeText a.1 a.2
  if parts.isEmpty then start ++ ['/', '>']
  else start ++ '>' :: parts.flatten ++ '<' :: '/' :: name.toList ++ ['>']

theorem Node.listChars_eq_flatten (ns : List Node) : listChars ns = (ns.map chars).flatten := by
  induction ns with
  | nil => rfl
  | cons n ns ih => rw [listChars, ih, List.map_cons, List.flatten_cons]

theorem Node.chars_eq_elementChars (tag : Tag) (ns : List Node) :
    (element tag ns).chars = elementChars tag.name tag.attrs (ns.map chars) := by
  cases ns with
  | nil => rfl
  | cons n ns =>
    rw [chars, listChars_eq_flatten, elementChars]
    rfl

namespace Arena

variable {A : Arena} {i j : Nat} {item : Item} {name : String} {attrs : List (String × String)}
  {children : List Nat}

/-! ## Going along the children -/

/-- What is computed from a node and from what comes out for its children. -/
def visit {α : Type} (A : Arena) (text : String → α)
    (element : Nat → String → List (String × String) → List α → α) (i : Nat) : α :=
  match _hitem : A.items[i]? with
  | none => text ""
  | some (.text s) => text s
  | some (.element name attrs children) =>
    element i name attrs (children.attach.map fun c => A.visit text element c.1)
termination_by A.items.length - i
decreasing_by
  have := A.ahead i _ _hitem c.1 c.2
  omega

section Visit

variable {α : Type} {text : String → α}
  {element : Nat → String → List (String × String) → List α → α}

theorem visit_eq (A : Arena) (text : String → α)
    (element : Nat → String → List (String × String) → List α → α) (i : Nat) :
    A.visit text element i = match A.items[i]? with
      | none => text ""
      | some (.text s) => text s
      | some (.element name attrs children) =>
        element i name attrs (children.map (A.visit text element)) := by
  rw [visit]
  split <;> rename_i hi <;> simp only [hi, List.map_attach_eq_pmap, List.pmap_eq_map]

theorem visit_element (h : A.items[i]? = some (.element name attrs children)) :
    A.visit text element i = element i name attrs (children.map (A.visit text element)) := by
  rw [visit_eq, h]

end Visit

/-! ## What hangs at a place -/

/-- The tag of an element. It is found under the id that stands in it, if that leads to its
    place. -/
def tag (A : Arena) (i : Nat) (name : String) (attrs : List (String × String)) : Tag :=
  let t : Tag := ⟨none, name, attrs⟩
  { t with handle := t.id?.filter fun k => A.index k == some i }

/-- The tree that hangs at a place. -/
def node (A : Arena) (i : Nat) : Node :=
  A.visit Node.text (fun i name attrs children => .element (A.tag i name attrs) children) i

/-- All text that hangs at a place. -/
def textChars (A : Arena) (i : Nat) : List Char :=
  A.visit String.toList (fun _ _ _ parts => parts.flatten) i

/-- The places of the elements that hang at a place, in document order. -/
def walk (A : Arena) (i : Nat) : List Nat :=
  A.visit (fun _ => []) (fun i _ _ parts => i :: parts.flatten) i

/-- The first shape that hangs at a place. -/
def shapeFrom? (A : Arena) (i : Nat) : Option Nat :=
  A.visit (fun _ => none)
    (fun i name _ found => if Tag.shapeNames.contains name then some i else found.findSome? id) i

/-- How what hangs at a place is written. -/
def chars (A : Arena) (i : Nat) : List Char :=
  A.visit (fun s => s.toList.flatMap escapeText)
    (fun _ name attrs parts => elementChars name attrs parts) i

/-- The text of the diagram. The root element has the namespaces in front of its attributes. -/
def toText (A : Arena) : String :=
  match A.items[A.root]? with
  | some (.element name attrs children) =>
    let declared := A.namespaces.map fun d => (declarationName d.1, d.2)
    String.ofList (elementChars name (declared ++ attrs) (children.map A.chars))
  | _ => String.ofList (A.chars A.root)

theorem node_element (h : A.items[i]? = some (.element name attrs children)) :
    A.node i = .element (A.tag i name attrs) (children.map A.node) := by
  rw [node, visit_element h]
  rfl

/-- The children of what hangs at a place hang at the places of its children. -/
theorem children_node (h : A.items[i]? = some item) :
    (A.node i).children = item.children.map A.node := by
  cases item with
  | text s => rw [node, visit_eq, h]; rfl
  | element name attrs children => rw [node_element h]; rfl

theorem exists_of_node {t : Tag} {ns : List Node} (h : A.node i = .element t ns) :
    ∃ name attrs children, A.items[i]? = some (.element name attrs children) ∧
      t = A.tag i name attrs ∧ ns = children.map A.node := by
  cases hitem : A.items[i]? with
  | none => rw [node, visit_eq, hitem] at h; cases h
  | some item =>
    cases item with
    | text s => rw [node, visit_eq, hitem] at h; cases h
    | element name attrs children =>
      rw [node_element hitem] at h
      cases h
      exact ⟨name, attrs, children, rfl, rfl, rfl⟩

theorem visit_leaf {α : Type} {text : String → α}
    {element : Nat → String → List (String × String) → List α → α} {s : String}
    (h : A.node i = .text s) : A.visit text element i = text s := by
  rw [node, visit_eq] at h
  rw [visit_eq]
  split at h <;> cases h <;> rfl

/-- What holds of texts, and of an element if of all its children, holds of every place. -/
theorem induction {P : Nat → Prop} (A : Arena) (text : ∀ i s, A.node i = .text s → P i)
    (element : ∀ i name attrs children, A.items[i]? = some (.element name attrs children) →
      (∀ c ∈ children, P c) → P i) (i : Nat) : P i := by
  -- by induction on how many nodes come behind
  induction hn : A.items.length - i using Nat.strongRecOn generalizing i with
  | ind n ih =>
    cases hnode : A.node i with
    | text s => exact text i s hnode
    | element t ns =>
      obtain ⟨name, attrs, children, hitem, _, _⟩ := exists_of_node hnode
      refine element i name attrs children hitem fun c hc => ?_
      obtain ⟨hlt, hlength⟩ := A.ahead i _ hitem c hc
      exact ih _ (by omega) c rfl

/-- The tag of the element at a place. -/
def tag? (A : Arena) (i : Nat) : Option Tag :=
  match A.items[i]? with
  | some (.element name attrs _) => some (A.tag i name attrs)
  | _ => none

theorem tag?_node (A : Arena) (i : Nat) : (A.node i).tag? = A.tag? i := by
  rw [node, visit_eq, tag?]
  cases A.items[i]? with
  | none => rfl
  | some item => cases item <;> rfl

/-! ## What is computed along the children -/

theorem textChars_node (A : Arena) (i : Nat) : (A.node i).textChars = A.textChars i := by
  refine A.induction (P := fun i => (A.node i).textChars = A.textChars i) ?_ ?_ i
  · intro i s h
    rw [textChars, visit_leaf h, h, Node.textChars]
  · intro i name attrs children h ih
    rw [node_element h, Node.textChars, Node.listTextChars_eq_flatMap, List.flatMap_map,
      textChars, visit_element h, ← List.flatMap_def]
    exact List.flatMap_congr ih

theorem tags_node (A : Arena) (i : Nat) : (A.node i).tags = (A.walk i).filterMap A.tag? := by
  refine A.induction (P := fun i => (A.node i).tags = (A.walk i).filterMap A.tag?) ?_ ?_ i
  · intro i s h
    rw [walk, visit_leaf h, h, Node.tags, List.filterMap_nil]
  · intro i name attrs children h ih
    have htag : A.tag? i = some (A.tag i name attrs) := by rw [tag?, h]
    rw [node_element h, Node.tags, Node.listTags_eq_flatMap, List.flatMap_map, walk,
      visit_element h, List.filterMap_cons, htag, ← List.flatMap_def, List.filterMap_flatMap]
    exact congrArg _ (List.flatMap_congr ih)

theorem chars_node (A : Arena) (i : Nat) : (A.node i).chars = A.chars i := by
  refine A.induction (P := fun i => (A.node i).chars = A.chars i) ?_ ?_ i
  · intro i s h
    rw [chars, visit_leaf h, h, Node.chars]
  · intro i name attrs children h ih
    rw [node_element h, Node.chars_eq_elementChars, List.map_map, chars, visit_element h]
    exact congrArg _ (List.map_congr_left ih)

/-- The whole text is that of the tree at the root. -/
theorem toText_eq {t : Tag} {ns : List Node} (h : A.node A.root = .element t ns) :
    A.toText = String.ofList (Node.element
      { t with attrs := (A.namespaces.map fun d => (declarationName d.1, d.2)) ++ t.attrs }
      ns).chars := by
  obtain ⟨name, attrs, children, hitem, rfl, rfl⟩ := exists_of_node h
  have hparts : children.map A.chars = children.map (Node.chars ∘ A.node) :=
    List.map_congr_left fun c _ => (A.chars_node c).symm
  rw [toText, hitem, Node.chars_eq_elementChars, List.map_map, ← hparts]
  rfl

/-! ## Ways along the children -/

/-- The place of a child. -/
def child? (A : Arena) (i p : Nat) : Option Nat := (A.items[i]?).bind fun item => item.children[p]?

/-- The place to which an address leads from another place. -/
def follow? (A : Arena) : Nat → Node.Address → Option Nat
  | i, [] => some i
  | i, p :: b => (A.child? i p).bind fun c => A.follow? c b

theorem exists_of_child? {p c : Nat} (h : A.child? i p = some c) :
    ∃ item, A.items[i]? = some item ∧ item.children[p]? = some c :=
  Option.bind_eq_some_iff.1 h

theorem exists_child? {c : Nat} (h : A.items[i]? = some item) (hc : c ∈ item.children) :
    ∃ p, A.child? i p = some c := by
  obtain ⟨p, hp⟩ := List.mem_iff_getElem?.1 hc
  exact ⟨p, by rw [child?, h, Option.bind_some, hp]⟩

theorem lt_of_child? {p c : Nat} (h : A.child? i p = some c) : i < c ∧ c < A.items.length := by
  obtain ⟨item, hitem, hc⟩ := exists_of_child? h
  exact A.ahead i item hitem c (List.mem_of_getElem? hc)

/-- What hangs at a place has at an address what hangs at the place to which the address leads. -/
theorem at?_node (b : Node.Address) : ∀ i, (A.node i).at? b = (A.follow? i b).map A.node := by
  induction b with
  | nil => exact fun i => rfl
  | cons p b ih =>
    intro i
    have hchild : (A.node i).children[p]? = (A.child? i p).map A.node := by
      cases hitem : A.items[i]? with
      | none => rw [node, visit_eq, child?, hitem]; rfl
      | some item => rw [children_node hitem, List.getElem?_map, child?, hitem, Option.bind_some]
    rw [Node.at?, hchild, follow?]
    cases A.child? i p with
    | none => rfl
    | some c => exact ih c

theorem follow?_append (b c : Node.Address) :
    ∀ i, A.follow? i (b ++ c) = (A.follow? i b).bind fun j => A.follow? j c := by
  induction b with
  | nil => exact fun i => rfl
  | cons p b ih =>
    intro i
    rw [List.cons_append, follow?, follow?]
    cases A.child? i p with
    | none => rfl
    | some c => exact ih c

theorem follow?_concat (b : Node.Address) (p : Nat) :
    A.follow? i (b ++ [p]) = (A.follow? i b).bind fun j => A.child? j p := by
  rw [follow?_append]
  refine congrArg _ (funext fun j => ?_)
  rw [follow?]
  cases A.child? j p <;> rfl

/-- Below a place there are only later ones. -/
theorem lt_of_follow? {b : Node.Address} (hb : b ≠ []) (h : A.follow? i b = some j) :
    i < j ∧ j < A.items.length := by
  induction b generalizing i with
  | nil => exact absurd rfl hb
  | cons p b ih =>
    obtain ⟨c, hc, h⟩ := Option.bind_eq_some_iff.1 h
    obtain ⟨hlt, hlength⟩ := lt_of_child? hc
    cases b with
    | nil =>
      cases h
      exact ⟨hlt, hlength⟩
    | cons q b =>
      have hrest := ih (List.cons_ne_nil q b) h
      exact ⟨by omega, hrest.2⟩

/-- A node is a child of one node at most, and there once. -/
theorem child?_injective {p q c : Nat} (hi : A.child? i p = some c) (hj : A.child? j q = some c) :
    i = j ∧ p = q := by
  obtain ⟨item, hitem, hp⟩ := exists_of_child? hi
  obtain ⟨item', hitem', hq⟩ := exists_of_child? hj
  obtain ⟨hnodup, hdisjoint⟩ := List.nodup_flatMap.1 A.single
  have hsame : i = j := by
    -- the children of two nodes are parts of one row without repetitions
    obtain ⟨hi, rfl⟩ := List.getElem?_eq_some_iff.1 hitem
    obtain ⟨hj, rfl⟩ := List.getElem?_eq_some_iff.1 hitem'
    have hmem := List.mem_of_getElem? hp
    have hmem' := List.mem_of_getElem? hq
    rcases Nat.lt_trichotomy i j with hlt | heq | hlt
    · exact absurd hmem' (List.pairwise_iff_getElem.1 hdisjoint i j hi hj hlt hmem)
    · exact heq
    · exact absurd hmem (List.pairwise_iff_getElem.1 hdisjoint j i hj hi hlt hmem')
  subst hsame
  rw [hitem] at hitem'
  cases hitem'
  refine ⟨rfl, ?_⟩
  have hpq : item.children[p]? = item.children[q]? := hp.trans hq.symm
  exact (List.getElem?_inj (List.getElem?_eq_some_iff.1 hp).1
    (hnodup item (List.mem_of_getElem? hitem))).1 hpq

/-- One way only leads from one place to another. -/
theorem follow?_injective {b c : Node.Address} (hb : A.follow? i b = some j)
    (hc : A.follow? i c = some j) : b = c := by
  -- from the last steps, which come from the same parent
  induction b using List.reverseRecOn generalizing j c with
  | nil =>
    cases hb
    by_contra hne
    have := (lt_of_follow? (fun h => hne h.symm) hc).1
    omega
  | append_singleton b p ih =>
    rcases List.eq_nil_or_concat c with rfl | ⟨c, q, rfl⟩
    · cases hc
      have := (lt_of_follow? (by simp) hb).1
      omega
    · rw [List.concat_eq_append] at hc ⊢
      rw [follow?_concat] at hb hc
      obtain ⟨u, hu, hp⟩ := Option.bind_eq_some_iff.1 hb
      obtain ⟨v, hv, hq⟩ := Option.bind_eq_some_iff.1 hc
      obtain ⟨rfl, rfl⟩ := child?_injective hp hq
      rw [ih hu hv]

/-- There are no ways from a text. -/
theorem follow?_of_text {s : String} (h : A.node i = .text s) {p : Nat} {b : Node.Address} :
    A.follow? i (p :: b) = none := by
  have hat := A.at?_node (p :: b) i
  rw [h] at hat
  exact Option.map_eq_none_iff.1 hat.symm

/-! ## What is found along the children -/

/-- The elements inside the one at a place, in document order. -/
def inside (A : Arena) (i : Nat) : List Nat := (A.walk i).tail

theorem walk_element (h : A.items[i]? = some (.element name attrs children)) :
    A.walk i = i :: children.flatMap A.walk := by
  rw [walk, visit_element h, List.flatMap_def]
  rfl

/-- The place to which an address leads that begins among some children. -/
def followFrom? (A : Arena) (children : List Nat) : Node.Address → Option Nat
  | [] => none
  | p :: b => children[p]?.bind fun c => A.follow? c b

theorem follow?_of_item (h : A.items[i]? = some item) {b : Node.Address} (hb : b ≠ []) :
    A.follow? i b = A.followFrom? item.children b := by
  cases b with
  | nil => exact absurd rfl hb
  | cons p b => rw [follow?, child?, h]; rfl

theorem mem_walks_iff (h : ∀ c ∈ children, j ∈ A.walk c ↔
    (A.tag? j).isSome = true ∧ ∃ b, A.follow? c b = some j) :
    j ∈ children.flatMap A.walk ↔
      (A.tag? j).isSome = true ∧ ∃ b, A.followFrom? children b = some j := by
  rw [List.mem_flatMap]
  constructor
  · rintro ⟨c, hc, hj⟩
    obtain ⟨hsome, b, hb⟩ := (h c hc).1 hj
    obtain ⟨p, hp⟩ := List.mem_iff_getElem?.1 hc
    exact ⟨hsome, p :: b, by rw [followFrom?, hp]; exact hb⟩
  · rintro ⟨hsome, b, hb⟩
    cases b with
    | nil => cases hb
    | cons p b =>
      obtain ⟨c, hc, hb⟩ := Option.bind_eq_some_iff.1 hb
      exact ⟨c, List.mem_of_getElem? hc, (h c (List.mem_of_getElem? hc)).2 ⟨hsome, b, hb⟩⟩

/-- The elements that hang at a place are those that are reached from it. -/
theorem mem_walk_iff (A : Arena) (i : Nat) : j ∈ A.walk i ↔
    (A.tag? j).isSome = true ∧ ∃ b, A.follow? i b = some j := by
  refine A.induction (P := fun i => j ∈ A.walk i ↔
    (A.tag? j).isSome = true ∧ ∃ b, A.follow? i b = some j) ?_ ?_ i
  · intro i s h
    rw [walk, visit_leaf h]
    refine iff_of_false List.not_mem_nil ?_
    rintro ⟨htag, b, hb⟩
    cases b with
    | nil =>
      cases hb
      rw [← tag?_node, h] at htag
      cases htag
    | cons p b => rw [follow?_of_text h] at hb; cases hb
  · intro i name attrs children h ih
    have htag : (A.tag? i).isSome = true := by rw [tag?, h]; rfl
    rw [walk_element h, List.mem_cons, mem_walks_iff ih]
    constructor
    · rintro (rfl | ⟨hsome, b, hb⟩)
      · exact ⟨htag, [], rfl⟩
      · cases b with
        | nil => cases hb
        | cons p b =>
          exact ⟨hsome, p :: b, (follow?_of_item h (List.cons_ne_nil p b)).trans hb⟩
    · rintro ⟨hsome, b, hb⟩
      cases b with
      | nil =>
        cases hb
        exact .inl rfl
      | cons p b =>
        exact .inr ⟨hsome, p :: b, (follow?_of_item h (List.cons_ne_nil p b)).symm.trans hb⟩

/-- Inside an element are those that are reached from it by at least one step. -/
theorem mem_inside_iff (A : Arena) (i : Nat) : j ∈ A.inside i ↔
    (A.tag? j).isSome = true ∧ ∃ b, b ≠ [] ∧ A.follow? i b = some j := by
  cases hnode : A.node i with
  | text s =>
    rw [inside, walk, visit_leaf hnode]
    refine iff_of_false List.not_mem_nil ?_
    rintro ⟨_, b, hb, hfollow⟩
    cases b with
    | nil => exact hb rfl
    | cons p b => rw [follow?_of_text hnode] at hfollow; cases hfollow
  | element t ns =>
    obtain ⟨name, attrs, children, h, _, _⟩ := exists_of_node hnode
    rw [inside, walk_element h, List.tail_cons, mem_walks_iff fun c _ => A.mem_walk_iff c]
    refine and_congr_right fun _ => exists_congr fun b => ?_
    cases b with
    | nil => exact iff_of_false (fun hb => by cases hb) fun hb => hb.1 rfl
    | cons p b =>
      rw [follow?_of_item h (List.cons_ne_nil p b)]
      exact (and_iff_right (List.cons_ne_nil p b)).symm

/-- What is found first among children is what the first of them has that has something. -/
theorem findSome?_eq {find? : Nat → Option Nat} {p : Tag → Bool} (children : List Nat)
    (h : ∀ c ∈ children, find? c = ((A.node c).find? p).bind (A.follow? c)) :
    children.findSome? find? =
      (Node.listFind? p (children.map A.node)).bind (A.followFrom? children) := by
  induction children with
  | nil => rfl
  | cons c children ih =>
    have hrest := ih fun d hd => h d (List.mem_cons_of_mem _ hd)
    rw [List.findSome?_cons, h c List.mem_cons_self, List.map_cons, Node.listFind?]
    cases hfind : (A.node c).find? p with
    | some b =>
      -- what is found hangs at the place to which its address leads
      obtain ⟨tag, ns, hat, _⟩ := Node.exists_of_find? _ b hfind
      rw [at?_node] at hat
      obtain ⟨j, hj, _⟩ := Option.map_eq_some_iff.1 hat
      rw [Option.bind_some, hj, Option.bind_some, followFrom?]
      exact hj.symm
    | none =>
      simp only [Option.bind_none, hrest, Option.bind_map]
      cases hlist : Node.listFind? p (children.map A.node) with
      | none => rfl
      | some b =>
        obtain ⟨q, b, _, rfl, _⟩ := Node.exists_of_listFind? b hlist
        rfl

theorem shapeFrom?_eq (A : Arena) (i : Nat) :
    A.shapeFrom? i = ((A.node i).find? Tag.isShape).bind (A.follow? i) := by
  refine A.induction
    (P := fun i => A.shapeFrom? i = ((A.node i).find? Tag.isShape).bind (A.follow? i)) ?_ ?_ i
  · intro i s h
    rw [shapeFrom?, visit_leaf h, h]
    rfl
  · intro i name attrs children h ih
    have hfound := A.findSome?_eq children ih
    have hshape : (A.tag i name attrs).isShape = Tag.shapeNames.contains name := rfl
    have hvisit : A.shapeFrom? i = if Tag.shapeNames.contains name then some i
        else children.findSome? A.shapeFrom? := by
      rw [shapeFrom?, visit_element h, List.findSome?_map]
      rfl
    rw [hvisit, node_element h, Node.find?, hshape]
    split
    · rfl
    · rw [hfound]
      cases hlist : Node.listFind? Tag.isShape (children.map A.node) with
      | none => rfl
      | some b =>
        obtain ⟨q, b, _, rfl, _⟩ := Node.exists_of_listFind? b hlist
        exact (follow?_of_item h (List.cons_ne_nil q b)).symm

end Arena

end Slideshow

/-
  Slideshow.Proofs.Scene.InPlace

  Changes to a diagram whose nodes stand in one row. A new text is put at the end of the row and
  becomes the only child of its element; the ids of the elements that were inside are forgotten,
  and those stay behind without a parent. What hangs at the root then is the tree with that one
  element changed (`node_modify`), so that the row goes along with the tree (`Shows.make`).
-/
import Slideshow.Proofs.Scene.Arena
import Slideshow.Proofs.Scene.Inside

namespace Slideshow

namespace Arena

variable {A B : Arena} {i j : Nat} {name : String} {attrs : List (String × String)}
  {children : List Nat} {k key value : String}

/-! ## Looking -/

/-- The first shape inside an element. -/
def shapeInside? (A : Arena) (i : Nat) : Option Nat :=
  (A.items[i]?).bind fun item => item.children.findSome? A.shapeFrom?

/-- The place of the element that a key names. -/
def resolve? (A : Arena) (key : String) : Option Nat :=
  match A.index key with
  | some i => some i
  | none =>
    (Text.stripEnding? Scene.shapeEnding key).bind fun owner =>
      (A.index owner).bind A.shapeInside?

/-- A key names an element. -/
def contains (A : Arena) (key : String) : Bool := (A.resolve? key).isSome

/-- All text inside an element. -/
def text? (A : Arena) (key : String) : Option String :=
  (A.resolve? key).map fun i => String.ofList (A.textChars i)

/-- An attribute of an element. -/
def attribute? (A : Arena) (key name : String) : Option String :=
  (A.resolve? key).bind fun i => (A.tag? i).bind fun t => t.get? name

/-- The ids of all elements that are found under them, in document order. -/
def ids (A : Arena) : List String :=
  (A.walk A.root).filterMap fun i => (A.tag? i).bind (·.handle)

/-! ## Changing -/

/-- A node with other children, if it can have any. -/
def Item.adopt (children : List Nat) : Item → Item
  | text s => text s
  | element name attrs _ => element name attrs children

/-- A node with an attribute set or removed, if it can have any. -/
def Item.write (name : String) (value : Option String) : Item → Item
  | text s => text s
  | element name' attrs children =>
    element name' ((⟨none, name', attrs⟩ : Tag).write name value).attrs children

theorem Item.children_write (name : String) (value : Option String) (item : Item) :
    (item.write name value).children = item.children := by
  cases item <;> rfl

/-- The id that stands in the element at a place. -/
def id? (A : Arena) (i : Nat) : Option String := (A.tag? i).bind Tag.id?

/-- The index without the id of an element, if that leads to the element. -/
def drop (A : Arena) (index : String → Option Nat) (i : Nat) : String → Option Nat :=
  fun k => if A.id? i = some k ∧ index k = some i then none else index k

/-- The index without the ids of the elements inside the one at a place. -/
def forget (A : Arena) (i : Nat) : String → Option Nat := (A.inside i).foldl A.drop A.index

theorem flatMap_modify {f : Item → Item} (i : Nat) (items : List Item)
    (hf : ∀ item, (f item).children = item.children) :
    (items.modify i f).flatMap Item.children = items.flatMap Item.children := by
  induction items generalizing i with
  | nil => rw [List.modify_nil]
  | cons item items ih =>
    cases i with
    | zero => rw [List.modify_zero_cons, List.flatMap_cons, List.flatMap_cons, hf]
    | succ i => rw [List.modify_succ_cons, List.flatMap_cons, List.flatMap_cons, ih]

/-- The diagram with an attribute of an element set or removed. -/
def write (A : Arena) (i : Nat) (name : String) (value : Option String) : Arena where
  namespaces := A.namespaces
  items := A.items.modify i (Item.write name value)
  root := A.root
  index := A.index
  ahead := by
    intro q item hitem c hc
    rw [List.getElem?_modify] at hitem
    obtain ⟨item', hitem', rfl⟩ := Option.map_eq_some_iff.1 hitem
    rw [List.length_modify]
    refine A.ahead q item' hitem' c ?_
    split at hc
    · rwa [Item.children_write] at hc
    · exact hc
  single := by
    rw [flatMap_modify i A.items (Item.children_write name value)]
    exact A.single

/-- A new child is added at most, and old ones are lost. -/
theorem count_adopt_le (n c i : Nat) (items : List Item) :
    ((items.modify i (Item.adopt [n])).flatMap Item.children).count c ≤
      (n :: items.flatMap Item.children).count c := by
  induction items generalizing i with
  | nil =>
    rw [List.modify_nil]
    exact Nat.zero_le _
  | cons item items ih =>
    cases i with
    | zero =>
      have hitem : (item.adopt [n]).children.count c ≤ [n].count c := by
        cases item with
        | text s => exact Nat.zero_le _
        | element name attrs children => exact Nat.le_refl _
      simp only [List.modify_zero_cons, List.flatMap_cons, List.count_append, List.count_cons,
        List.count_nil] at hitem ⊢
      omega
    | succ i =>
      have hrest := ih i
      simp only [List.modify_succ_cons, List.flatMap_cons, List.count_append, List.count_cons]
        at hrest ⊢
      omega

/-- The diagram with a text in place of everything inside an element. -/
def putText (A : Arena) (i : Nat) (value : String) : Arena where
  namespaces := A.namespaces
  items := A.items.modify i (Item.adopt [A.items.length]) ++ [.text value]
  root := A.root
  index := A.forget i
  ahead := by
    intro q item hitem c hc
    rw [List.length_append, List.length_modify, List.length_singleton]
    rw [List.getElem?_append, List.length_modify] at hitem
    split at hitem
    · rename_i hq
      rw [List.getElem?_modify] at hitem
      obtain ⟨item', hitem', rfl⟩ := Option.map_eq_some_iff.1 hitem
      split at hc
      · cases item' with
        | text s => cases hc
        | element name attrs children =>
          obtain rfl := List.mem_singleton.1 hc
          exact ⟨hq, Nat.lt_succ_self _⟩
      · obtain ⟨hlt, hlength⟩ := A.ahead q item' hitem' c hc
        exact ⟨hlt, by omega⟩
    · -- the text itself has no children
      have hmem := List.mem_of_getElem? hitem
      obtain rfl := List.mem_singleton.1 hmem
      cases hc
  single := by
    -- the place of the new text was nobody's child
    have hfresh : A.items.length ∉ A.items.flatMap Item.children := by
      intro hmem
      obtain ⟨item, hitem, hc⟩ := List.mem_flatMap.1 hmem
      obtain ⟨q, hq⟩ := List.mem_iff_getElem?.1 hitem
      exact Nat.lt_irrefl _ (A.ahead q item hq _ hc).2
    have hnodup := List.nodup_iff_count_le_one.1 (List.nodup_cons.2 ⟨hfresh, A.single⟩)
    rw [List.flatMap_append, List.nodup_iff_count_le_one]
    intro c
    rw [List.count_append]
    exact Nat.le_trans (count_adopt_le _ c i A.items) (hnodup c)

/-- Puts a text in place of everything inside an element. -/
def setText (A : Arena) (key value : String) : Arena :=
  match A.resolve? key with
  | none => A
  | some i => A.putText i value

/-- The index with a new id of an element, unless another one is found under that. -/
def rename (index : String → Option Nat) (i : Nat) (value : String) : String → Option Nat :=
  let kept := fun k => (index k).filter (· != i)
  fun k => if k = value then (kept k).or (some i) else kept k

/-- Sets an attribute of an element. -/
def setAttribute (A : Arena) (key name value : String) : Arena :=
  match A.resolve? key with
  | none => A
  | some i =>
    let A := A.write i name (some value)
    if name = "id" then { A with index := rename A.index i value } else A

/-- Removes an attribute of an element. -/
def removeAttribute (A : Arena) (key name : String) : Arena :=
  match A.resolve? key with
  | none => A
  | some i => A.write i name none

/-- Moves the camera. -/
def setViewport (A : Arena) (frame : Rect) : Arena :=
  A.write A.root "viewBox" (some frame.viewBox)

/-- Makes a change. -/
def make (A : Arena) : Change → Arena
  | .text key value => A.setText key value
  | .attribute key name (some value) => A.setAttribute key name value
  | .attribute key name none => A.removeAttribute key name
  | .camera frame => A.setViewport frame

/-- Makes changes one after another. -/
def makeAll (A : Arena) (chs : List Change) : Arena := chs.foldl make A

/-! ## What a change leaves -/

theorem tag_congr (hindex : ∀ k, B.index k = some i ↔ A.index k = some i) (name : String)
    (attrs : List (String × String)) : B.tag i name attrs = A.tag i name attrs := by
  have hfilter : (fun k => B.index k == some i) = fun k => A.index k == some i :=
    funext fun k => by rw [Bool.eq_iff_iff, beq_iff_eq, beq_iff_eq, hindex]
  rw [tag, tag, hfilter]

/-- What hangs at a place is the same if all that is reached from it is. -/
theorem node_congr (i : Nat) : (∀ b x, A.follow? i b = some x → B.items[x]? = A.items[x]? ∧
    ∀ k, B.index k = some x ↔ A.index k = some x) → B.node i = A.node i := by
  refine A.induction (P := fun i => (∀ b x, A.follow? i b = some x → B.items[x]? = A.items[x]? ∧
    ∀ k, B.index k = some x ↔ A.index k = some x) → B.node i = A.node i) ?_ ?_ i
  · intro i s h hsame
    obtain ⟨hitem, _⟩ := hsame [] i rfl
    rw [node, visit_eq, hitem, node, visit_eq]
    split
    · rfl
    · rfl
    · rename_i hfound
      rw [node_element hfound] at h
      cases h
  · intro i name attrs children h ih hsame
    obtain ⟨hitem, hindex⟩ := hsame [] i rfl
    rw [node_element h, node_element (hitem.trans h), tag_congr hindex]
    refine congrArg _ (List.map_congr_left fun c hc => ih c hc fun b x hb => ?_)
    -- what is reached from a child is reached from the node
    obtain ⟨p, hchild⟩ := exists_child? h hc
    exact hsame (p :: b) x (by rw [follow?, hchild]; exact hb)

/-- Two diagrams have the same nodes, but for those that hang at a place. -/
def SameBeside (A B : Arena) (j : Nat) : Prop :=
  ∀ x < A.items.length, (∀ b, A.follow? j b ≠ some x) →
    B.items[x]? = A.items[x]? ∧ ∀ k, B.index k = some x ↔ A.index k = some x

/-- Where only what hangs at one place is changed, the tree around it is changed there. -/
theorem node_modify {f : Tag → List Node → Node} (hsame : SameBeside A B j)
    (hnew : B.node j = (A.node j).modify f []) (b : Node.Address) :
    ∀ i, A.follow? i b = some j → B.node i = (A.node i).modify f b := by
  induction b with
  | nil =>
    intro i h
    cases h
    exact hnew
  | cons p b ih =>
    intro i h
    obtain ⟨c, hc, hfollow⟩ := Option.bind_eq_some_iff.1 h
    obtain ⟨item, hitem, hp⟩ := exists_of_child? hc
    cases item with
    | text s => cases hp
    | element name attrs children =>
      have hlt : i < A.items.length := (List.getElem?_eq_some_iff.1 hitem).1
      -- the element itself stands around the place, and not below
      obtain ⟨hitem', hindex⟩ := hsame i hlt fun d hd => by
        have hij := (lt_of_follow? (List.cons_ne_nil p b) h).1
        cases d with
        | nil => cases hd; omega
        | cons q d =>
          have hji := (lt_of_follow? (List.cons_ne_nil q d) hd).1
          omega
      rw [node_element hitem, node_element (hitem'.trans hitem), tag_congr hindex, Node.modify]
      refine congrArg _ (List.ext_getElem? fun q => ?_)
      rw [List.getElem?_modify, List.getElem?_map, List.getElem?_map]
      cases hq : children[q]? with
      | none => rfl
      | some d =>
        simp only [Option.map_eq_map, Option.map_some]
        by_cases hpq : p = q
        · subst hpq
          rw [if_pos rfl]
          have hp' : children[p]? = some c := hp
          rw [hp'] at hq
          cases hq
          rw [ih c hfollow]
        · rw [if_neg hpq]
          have hd : A.child? i q = some d := by rw [child?, hitem]; exact hq
          refine congrArg _ (node_congr d fun e x hx => hsame x ?_ fun u hu => ?_)
          · cases e with
            | nil =>
              cases hx
              exact (lt_of_child? hd).2
            | cons r e => exact (lt_of_follow? (List.cons_ne_nil r e) hx).2
          · -- two ways to the same node would begin with the same step
            have hway : A.follow? i (p :: b ++ u) = some x := by
              rw [follow?_append, h]
              exact hu
            have hway' : A.follow? i (q :: e) = some x := by rw [follow?, hd]; exact hx
            have heq := follow?_injective hway hway'
            rw [List.cons_append, List.cons.injEq] at heq
            exact hpq heq.1

/-! ## What is forgotten -/

/-- What is dropped are the ids of the elements that lead to them. -/
theorem foldl_drop_eq_some_iff {x : Nat} (A : Arena) (l : List Nat) (index : String → Option Nat) :
    l.foldl A.drop index k = some x ↔ index k = some x ∧ ¬ (x ∈ l ∧ A.id? x = some k) := by
  induction l generalizing index with
  | nil => simp
  | cons i l ih =>
    have hdrop : A.drop index i k = some x ↔ index k = some x ∧ ¬ (x = i ∧ A.id? x = some k) := by
      rw [drop]
      split
      · rename_i hgone
        refine iff_of_false (fun h => by cases h) ?_
        rintro ⟨hx, hnot⟩
        rw [hgone.2] at hx
        cases hx
        exact hnot ⟨rfl, hgone.1⟩
      · rename_i hkept
        refine (and_iff_left_of_imp fun hx => ?_).symm
        rintro ⟨rfl, hid⟩
        exact hkept ⟨hid, hx⟩
    rw [List.foldl_cons, ih, hdrop, List.mem_cons]
    tauto

theorem forget_eq_some_iff {x : Nat} : A.forget i k = some x ↔
    A.index k = some x ∧ ¬ (x ∈ A.inside i ∧ A.id? x = some k) :=
  foldl_drop_eq_some_iff A (A.inside i) A.index

theorem forget_eq_none {x : Nat} (h : A.index k = some x) (hx : x ∈ A.inside i)
    (hid : A.id? x = some k) : A.forget i k = none := by
  rw [Option.eq_none_iff_forall_ne_some]
  intro y hy
  obtain ⟨hindex, hnot⟩ := forget_eq_some_iff.1 hy
  rw [h] at hindex
  cases hindex
  exact hnot ⟨hx, hid⟩

theorem id?_of_handle {t : Tag} (ht : A.tag? i = some t) (hk : t.handle = some k) :
    A.index k = some i ∧ A.id? i = some k := by
  have htag := ht
  rw [tag?] at ht
  split at ht
  · cases ht
    obtain ⟨hid, hindex⟩ := Option.filter_eq_some_iff.1 hk
    refine ⟨eq_of_beq hindex, ?_⟩
    rw [id?, htag]
    exact hid
  · cases ht

/-! ## Single changes -/

theorem sameBeside_putText (A : Arena) (i : Nat) (value : String) :
    SameBeside A (A.putText i value) i := by
  intro x hx hoff
  refine ⟨?_, fun k => ?_⟩
  · have hne : i ≠ x := fun heq => hoff [] (by rw [follow?, heq])
    show (A.items.modify i (Item.adopt [A.items.length]) ++ [.text value])[x]? = A.items[x]?
    rw [List.getElem?_append_left (by rwa [List.length_modify]), List.getElem?_modify_ne _ _ hne]
  · show A.forget i k = some x ↔ A.index k = some x
    rw [forget_eq_some_iff]
    refine and_iff_left ?_
    rintro ⟨hinside, _⟩
    obtain ⟨_, b, _, hb⟩ := (A.mem_inside_iff i).1 hinside
    exact hoff b hb

/-- At the place itself the new text hangs under the element. -/
theorem node_putText (h : A.items[i]? = some (.element name attrs children)) (value : String) :
    (A.putText i value).node i = (A.node i).modify (Node.emptied value) [] := by
  have hi := (List.getElem?_eq_some_iff.1 h).1
  have hitem : (A.putText i value).items[i]? = some (.element name attrs [A.items.length]) := by
    show (A.items.modify i (Item.adopt [A.items.length]) ++ [.text value])[i]? = _
    rw [List.getElem?_append_left (by rwa [List.length_modify]), List.getElem?_modify_eq, h]
    rfl
  have htext : (A.putText i value).items[A.items.length]? = some (.text value) := by
    show (A.items.modify i (Item.adopt [A.items.length]) ++ [.text value])[A.items.length]? = _
    rw [List.getElem?_append_right (by simp), List.length_modify, Nat.sub_self]
    rfl
  have hnode : (A.putText i value).node A.items.length = .text value := by
    rw [node, visit_eq, htext]
  -- the element is not inside itself, so its id is kept
  have htag : (A.putText i value).tag i name attrs = A.tag i name attrs := by
    refine tag_congr (fun k => ?_) name attrs
    show A.forget i k = some i ↔ A.index k = some i
    rw [forget_eq_some_iff]
    refine and_iff_left ?_
    rintro ⟨hinside, _⟩
    obtain ⟨_, b, hb, hfollow⟩ := (A.mem_inside_iff i).1 hinside
    exact Nat.lt_irrefl _ (lt_of_follow? hb hfollow).1
  rw [node_element hitem, node_element h, htag, List.map_singleton, hnode]
  rfl

theorem sameBeside_write (A : Arena) (i : Nat) (name : String) (value : Option String) :
    SameBeside A (A.write i name value) i := by
  intro x _ hoff
  have hne : i ≠ x := fun heq => hoff [] (by rw [follow?, heq])
  exact ⟨List.getElem?_modify_ne _ _ hne, fun k => Iff.rfl⟩

/-- A written attribute other than the id leaves the id, and so the handle. -/
theorem tag_write {name' : String} (hid : name' ≠ "id") (value : Option String) :
    (A.write i name' value).tag i name ((⟨none, name, attrs⟩ : Tag).write name' value).attrs =
      (A.tag i name attrs).write name' value := by
  let t : Tag := ⟨none, name, attrs⟩
  have hids : (⟨none, name, (t.write name' value).attrs⟩ : Tag).id? = t.id? := by
    rw [← Tag.id?_write hid value t]
    cases value <;> rfl
  have hindex : (A.write i name' value).index = A.index := rfl
  rw [tag, hids, hindex, tag]
  cases value <;> rfl

/-- An attribute other than the id is written into the tag of the element. -/
theorem node_write (h : A.items[i]? = some (.element name attrs children)) {name' : String}
    (hid : name' ≠ "id") (value : Option String) :
    (A.write i name' value).node i = (A.node i).modify
      (fun tag children => .element (tag.write name' value) children) [] := by
  let t : Tag := ⟨none, name, attrs⟩
  have hitem : (A.write i name' value).items[i]? =
      some (.element name (t.write name' value).attrs children) := by
    show (A.items.modify i (Item.write name' value))[i]? = _
    rw [List.getElem?_modify_eq, h]
    rfl
  -- the nodes inside stand further behind
  have hinside : ∀ c ∈ children, (A.write i name' value).node c = A.node c := by
    intro c hc
    refine node_congr c fun b x hx => ?_
    have hlt := (A.ahead i _ h c hc).1
    have hne : i ≠ x := by
      cases b with
      | nil =>
        cases hx
        omega
      | cons p b =>
        have hcx := (lt_of_follow? (List.cons_ne_nil p b) hx).1
        omega
    exact ⟨List.getElem?_modify_ne _ _ hne, fun k => Iff.rfl⟩
  rw [node_element hitem, node_element h, tag_write hid, List.map_congr_left hinside]
  rfl

/-- The first shape inside an element is found along its children. -/
theorem shapeInside?_node (A : Arena) (i : Nat) : A.shapeInside? i =
    (Node.listFind? Tag.isShape (A.node i).children).bind (A.follow? i) := by
  rw [shapeInside?]
  cases hitem : A.items[i]? with
  | none =>
    rw [node, visit_eq, hitem]
    rfl
  | some item =>
    rw [children_node hitem, Option.bind_some,
      A.findSome?_eq item.children fun c _ => A.shapeFrom?_eq c]
    cases hlist : Node.listFind? Tag.isShape (item.children.map A.node) with
    | none => rfl
    | some b =>
      obtain ⟨q, b, _, rfl, _⟩ := Node.exists_of_listFind? b hlist
      exact (follow?_of_item hitem (List.cons_ne_nil q b)).symm

/-! ## A diagram and its tree -/

/-- The place of the node at an address of the tree. -/
def place? (A : Arena) (a : Node.Address) : Option Nat := A.follow? A.root a.tail

/-- The tree of a tidy diagram hangs at the root, and nothing but what is found in it is in the
    index. -/
structure Shows (A : Arena) (s : Scene) : Prop where
  tidy : s.Tidy
  namespaces : A.namespaces = s.namespaces
  tree : A.node A.root = s.root
  free : ∀ k, s.handleAddress? k = none → A.index k = none

section Shows

variable {s : Scene} {a : Node.Address} (h : Shows A s)
include h

/-- What the tree has at an address hangs at a place. -/
theorem Shows.exists_place {n : Node} (ha : a ≠ []) (hat : s.forest.at? a = some n) :
    ∃ b i, a = 0 :: b ∧ s.root.at? b = some n ∧ A.follow? A.root b = some i ∧ A.node i = n := by
  obtain ⟨b, rfl, hroot⟩ := h.tidy.exists_cons ha hat
  have hat' := hroot
  rw [← h.tree, at?_node] at hat'
  obtain ⟨i, hi, hnode⟩ := Option.map_eq_some_iff.1 hat'
  exact ⟨b, i, rfl, hroot, hi, hnode⟩

/-- What is found in the tree stands at the place that the index says. -/
theorem Shows.index_eq (k : String) : A.index k = (s.handleAddress? k).bind A.place? := by
  cases hk : s.handleAddress? k with
  | none => exact h.free k hk
  | some a =>
    obtain ⟨tag, children, hat, hne⟩ := Scene.exists_of_handleAddress? hk
    obtain ⟨b, i, rfl, _, hfollow, hnode⟩ := h.exists_place hne hat
    have htag : A.tag? i = some tag := by rw [← tag?_node, hnode]; rfl
    have hhandle : tag.handle = some k := eq_of_beq (Scene.holds_of_handleAddress? hk hat)
    rw [(id?_of_handle htag hhandle).1, Option.bind_some]
    exact hfollow.symm

/-- The first shape inside an element stands at the place that goes with its address. -/
theorem Shows.shapeInside?_eq (ha : a ≠ []) {n : Node} (hat : s.forest.at? a = some n) :
    (A.place? a).bind A.shapeInside? = (s.shapeInside? a).bind A.place? := by
  obtain ⟨b, i, rfl, _, hfollow, hnode⟩ := h.exists_place ha hat
  have hplace : A.place? (0 :: b) = some i := hfollow
  rw [hplace, Option.bind_some, shapeInside?_node, hnode, Scene.shapeInside?, hat,
    Option.bind_some, Option.bind_map]
  refine congrArg _ (funext fun c => ?_)
  show A.follow? i c = A.follow? A.root (b ++ c)
  rw [follow?_append, hfollow, Option.bind_some]

/-- A key names the element at the place that goes with the address. -/
theorem Shows.resolve?_eq (key : String) : A.resolve? key = (s.resolve? key).bind A.place? := by
  have hplace : ∀ k a, s.handleAddress? k = some a →
      ∃ i n, a ≠ [] ∧ s.forest.at? a = some n ∧ A.place? a = some i := by
    intro k a hk
    obtain ⟨tag, children, hat, hne⟩ := Scene.exists_of_handleAddress? hk
    obtain ⟨b, i, rfl, _, hfollow, _⟩ := h.exists_place hne hat
    exact ⟨i, _, hne, hat, hfollow⟩
  rw [resolve?, Scene.resolve?, h.index_eq]
  cases hk : s.handleAddress? key with
  | some a =>
    -- what is found has a place, so the search ends with it
    obtain ⟨i, _, _, _, hi⟩ := hplace key a hk
    rw [Option.bind_some, hi]
  | none =>
    simp only [Option.bind_none, Option.bind_assoc, h.index_eq]
    refine congrArg _ (funext fun owner => ?_)
    cases ho : s.handleAddress? owner with
    | none => rfl
    | some a =>
      obtain ⟨_, n, hne, hat, _⟩ := hplace owner a ho
      exact h.shapeInside?_eq hne hat

theorem Shows.exists_of_resolve? {key : String} (hkey : s.resolve? key = some a) :
    ∃ b i name attrs children, a = 0 :: b ∧ A.follow? A.root b = some i ∧
      A.resolve? key = some i ∧ A.items[i]? = some (.element name attrs children) ∧
      s.forest.at? (0 :: b) = some (A.node i) := by
  obtain ⟨tag, ns, hat, hne⟩ := Scene.exists_of_resolve? hkey
  obtain ⟨b, i, rfl, _, hfollow, hnode⟩ := h.exists_place hne hat
  obtain ⟨name, attrs, children, hitem, _, _⟩ := exists_of_node hnode
  refine ⟨b, i, name, attrs, children, rfl, hfollow, ?_, hitem, by rw [hnode, hat]⟩
  rw [h.resolve?_eq, hkey, Option.bind_some]
  exact hfollow

theorem Shows.resolve?_of_none {key : String} (hkey : s.resolve? key = none) :
    A.resolve? key = none := by
  rw [h.resolve?_eq, hkey, Option.bind_none]

/-! ## The same is seen -/

theorem Shows.contains_eq (key : String) : A.contains key = s.contains key := by
  rw [contains, Scene.contains]
  cases hkey : s.resolve? key with
  | none => rw [h.resolve?_of_none hkey]; rfl
  | some a =>
    obtain ⟨_, i, _, _, _, _, _, hi, _⟩ := h.exists_of_resolve? hkey
    rw [hi]
    rfl

theorem Shows.text?_eq (key : String) : A.text? key = s.text? key := by
  rw [text?, Scene.text?]
  cases hkey : s.resolve? key with
  | none => rw [h.resolve?_of_none hkey]; rfl
  | some a =>
    obtain ⟨b, i, _, _, _, rfl, _, hi, _, hat⟩ := h.exists_of_resolve? hkey
    rw [hi, Option.map_some, Option.bind_some, hat, Option.map_some, textChars_node]

theorem Shows.attribute?_eq (key name : String) :
    A.attribute? key name = s.attribute? key name := by
  rw [attribute?, Scene.attribute?, Scene.tag?]
  cases hkey : s.resolve? key with
  | none => rw [h.resolve?_of_none hkey]; rfl
  | some a =>
    obtain ⟨b, i, _, _, _, rfl, _, hi, _, hat⟩ := h.exists_of_resolve? hkey
    rw [hi, Option.bind_some, Option.bind_some, hat, Option.bind_some, tag?_node]

theorem Shows.ids_eq : A.ids = s.ids := by
  rw [ids, Scene.ids, ← h.tree, tags_node, List.filterMap_filter, List.filterMap_filterMap]
  refine List.filterMap_congr fun i _ => ?_
  cases htag : A.tag? i with
  | none => rfl
  | some t =>
    rw [Option.bind_some, Option.bind_some]
    cases hk : t.handle with
    | none => rw [ite_self]
    | some k =>
      -- a handle stands in the element
      have hid := (id?_of_handle htag hk).2
      rw [id?, htag, Option.bind_some] at hid
      rw [Tag.isIndexed, hk, hid, BEq.rfl, if_pos (by rfl)]

theorem Shows.toText_eq : A.toText = s.text := by
  rw [Arena.toText_eq h.tree, h.namespaces]
  rfl

/-! ## The same is changed -/

/-- A change of the element at a place is one of the element at its address. -/
theorem Shows.node_modify {b : Node.Address} (hfollow : A.follow? A.root b = some i)
    {f : Tag → List Node → Node} (hsame : SameBeside A B i) (hroot : B.root = A.root)
    (hnew : B.node i = (A.node i).modify f []) : B.node B.root = s.root.modify f b := by
  rw [hroot, Arena.node_modify hsame hnew b A.root hfollow, h.tree]

/-- An element that was found inside the one at a place is forgotten with it. -/
theorem Shows.forget_eq_none {b c : Node.Address} (hfollow : A.follow? A.root b = some i)
    (hk : s.handleAddress? k = some (0 :: b ++ c)) (hc : c ≠ []) : A.forget i k = none := by
  obtain ⟨tag, children, hat, hne⟩ := Scene.exists_of_handleAddress? hk
  obtain ⟨_, x, heq, _, hx, hnode⟩ := h.exists_place hne hat
  cases heq
  have hway : A.follow? A.root (b ++ c) = some x := hx
  rw [follow?_append, hfollow, Option.bind_some] at hway
  have htag : A.tag? x = some tag := by rw [← tag?_node, hnode]; rfl
  have hhandle : tag.handle = some k := eq_of_beq (Scene.holds_of_handleAddress? hk hat)
  obtain ⟨hindex, hid⟩ := id?_of_handle htag hhandle
  refine Arena.forget_eq_none hindex ((A.mem_inside_iff i).2 ⟨?_, c, hc, hway⟩) hid
  rw [htag, Option.isSome_some]

theorem Shows.setText (key value : String) :
    Shows (A.setText key value) (s.setText key value) := by
  cases hkey : s.resolve? key with
  | none =>
    rw [Arena.setText, h.resolve?_of_none hkey, Scene.setText, hkey]
    exact h
  | some a =>
    obtain ⟨b, i, name, attrs, children, rfl, hfollow, hi, hitem, _⟩ := h.exists_of_resolve? hkey
    have hset : A.setText key value = A.putText i value := by rw [Arena.setText, hi]
    rw [hset]
    refine ⟨h.tidy.setText hkey value, ?_, ?_, fun k hk => ?_⟩
    · exact h.namespaces.trans (Scene.namespaces_setText s key value).symm
    · rw [(h.tidy.root_setText hkey value).1]
      exact h.node_modify hfollow (sameBeside_putText A i value) rfl (node_putText hitem value)
    · show A.forget i k = none
      rw [h.tidy.handleAddress?_setText hkey] at hk
      cases hfound : s.handleAddress? k with
      | none =>
        rw [Option.eq_none_iff_forall_ne_some]
        intro x hx
        have hindex := (forget_eq_some_iff.1 hx).1
        rw [h.free k hfound] at hindex
        cases hindex
      | some a' =>
        rw [hfound, Option.filter_some] at hk
        by_cases hinside : Node.Address.Inside (0 :: b) a'
        · obtain ⟨⟨c, rfl⟩, hne⟩ := hinside
          refine h.forget_eq_none hfollow hfound ?_
          rintro rfl
          exact hne (List.append_nil _).symm
        · rw [decide_eq_false hinside] at hk
          cases hk

/-- An attribute other than the id is written in both. -/
theorem Shows.write {b : Node.Address} (hfollow : A.follow? A.root b = some i)
    (hitem : A.items[i]? = some (.element name attrs children)) {name' : String}
    (hid : name' ≠ "id") (value : Option String)
    {t : Scene} (htidy : t.Tidy)
    (ht : t = s.modify (0 :: b) fun tag children => .element (tag.write name' value) children) :
    Shows (A.write i name' value) t := by
  have hat : s.root.at? b = some (.element (A.tag i name attrs) (children.map A.node)) := by
    rw [← h.tree, at?_node, hfollow, Option.map_some, node_element hitem]
  have hmodify := Scene.root_modify
    (f := fun tag children => .element (tag.write name' value) children) hat rfl
  refine ⟨htidy, ?_, ?_, fun k hk => h.free k ?_⟩
  · rw [ht, Scene.namespaces_modify]
    exact h.namespaces
  · rw [ht, hmodify.1]
    exact h.node_modify hfollow (sameBeside_write A i name' value) rfl (node_write hitem hid value)
  · -- handles are not written
    have hcount := Scene.countP_forest_retag (a := 0 :: b) (List.cons_ne_nil 0 b) hat
      (Tag.write name' value) (Tag.holds k)
    rw [← ht, Tag.holds_write] at hcount
    rw [← Option.isNone_iff_eq_none, Scene.isNone_handleAddress?, beq_iff_eq] at hk ⊢
    omega

/-- A change that writes no id makes the same of both. -/
theorem Shows.make {ch : Change} (hch : ch.SparesIds) :
    Shows (A.make ch) (Stage.make s ch) := by
  have htidy := h.tidy.make hch
  cases ch with
  | text key value => exact h.setText key value
  | camera frame =>
    have hroot : A.node A.root = .element s.tag s.children := h.tree
    obtain ⟨name, attrs, children, hitem, _, _⟩ := exists_of_node hroot
    exact h.write (b := []) rfl hitem (by decide) (some frame.viewBox) htidy rfl
  | _ key name value =>
    have hid : name ≠ "id" := hch
    cases hkey : s.resolve? key with
    | none =>
      have hnone : (Change.attribute key name value).cell? s = none :=
        Option.map_eq_none_iff.2 hkey
      have hsame : A.make (.attribute key name value) = A := by
        cases value <;> simp only [Arena.make, setAttribute, removeAttribute,
          h.resolve?_of_none hkey]
      rw [Scene.make_of_cell?_none hnone, hsame]
      exact h
    | some a =>
      obtain ⟨b, i, name', attrs, children, rfl, hfollow, hi, hitem, _⟩ :=
        h.exists_of_resolve? hkey
      have hmade : A.make (.attribute key name value) = A.write i name value := by
        cases value with
        | none => rw [Arena.make, removeAttribute, hi]
        | some value => simp only [Arena.make, setAttribute, hi, if_neg hid]
      rw [hmade]
      exact h.write hfollow hitem hid value htidy (Scene.make_attribute_of_ne hid hkey value)

end Shows

/-- Changes that write no id make the same of both, one after another. -/
theorem Shows.makeAll {s : Scene} {chs : List Change} (h : Shows A s)
    (hchs : ∀ ch ∈ chs, ch.SparesIds) : Shows (A.makeAll chs) (Stage.makeAll s chs) := by
  induction chs generalizing A s with
  | nil => exact h
  | cons ch chs ih =>
    exact ih (h.make (hchs ch List.mem_cons_self)) fun ch' hch' =>
      hchs ch' (List.mem_cons_of_mem _ hch')

end Arena

end Slideshow

/-
  Slideshow.Proofs.Scene.Cell

  A tree of elements seen as a skeleton with cells. The cells are what can be written: the
  attributes of every element, and the text of every element that has only text inside. The
  skeleton is the rest. Skeleton and cells together determine all texts (`textChars_eq`), and
  a write changes a single cell (`cell?_modify`).
-/
import Slideshow.Scene.Basic

namespace Slideshow

/-- The element without its attributes. -/
def Tag.bare (t : Tag) : Tag := { t with attrs := [] }

namespace Node

/-! ## Nodes and their children -/

/-- The node is an element. -/
def isElement : Node → Bool
  | text _ => false
  | element _ _ => true

/-- What holds of texts, and of an element if of all its children, holds of every node. -/
theorem induction {P : Node → Prop} (text : ∀ s, P (text s))
    (element : ∀ tag children, (∀ n ∈ children, P n) → P (element tag children)) (n : Node) :
    P n := by
  refine @Node.rec P (fun ns => ∀ n ∈ ns, P n) text element ?_ ?_ n
  · intro n hn
    cases hn
  · intro head tail hhead htail n hn
    rcases List.mem_cons.1 hn with rfl | hn
    · exact hhead
    · exact htail n hn

theorem listTextChars_eq_flatMap (ns : List Node) : listTextChars ns = ns.flatMap textChars := by
  induction ns with
  | nil => rfl
  | cons n ns ih => rw [listTextChars, ih, List.flatMap_cons]

/-- Nothing is found among texts. -/
theorem listFind?_of_texts {p : Tag → Bool} {ns : List Node} (h : ns.any isElement = false) :
    listFind? p ns = none := by
  induction ns with
  | nil => rfl
  | cons n ns ih =>
    rw [List.any_cons, Bool.or_eq_false_iff] at h
    cases n with
    | text s => simp only [listFind?, find?, ih h.2, Option.map_none]
    | element => cases h.1

/-- What is found among nodes is found in one of them. -/
theorem exists_of_listFind? {p : Tag → Bool} {ns : List Node} :
    ∀ a, listFind? p ns = some a →
      ∃ i is n, a = i :: is ∧ ns[i]? = some n ∧ n.find? p = some is := by
  induction ns with
  | nil =>
    intro a h
    cases h
  | cons n ns ih =>
    intro a h
    unfold listFind? at h
    split at h
    · rename_i is hfind
      cases h
      exact ⟨0, is, n, rfl, rfl, hfind⟩
    · obtain ⟨b, hb, rfl⟩ := Option.map_eq_some_iff.1 h
      obtain ⟨i, is, m, rfl, hm, hfind⟩ := ih b hb
      exact ⟨i + 1, is, m, rfl, hm, hfind⟩

/-- What is found is an element with the property. -/
theorem exists_of_find? {p : Tag → Bool} (n : Node) : ∀ a, n.find? p = some a →
    ∃ tag children, n.at? a = some (element tag children) ∧ p tag = true := by
  induction n using Node.induction with
  | text s =>
    intro a h
    cases h
  | element tag children ih =>
    intro a h
    unfold find? at h
    split at h
    · rename_i htag
      cases h
      exact ⟨tag, children, rfl, htag⟩
    · obtain ⟨i, is, n, rfl, hn, hfind⟩ := exists_of_listFind? a h
      obtain ⟨tag', children', hat, htag'⟩ := ih n (List.mem_of_getElem? hn) is hfind
      refine ⟨tag', children', ?_, htag'⟩
      rw [at?, Node.children, hn]
      exact hat

theorem at?_append (n : Node) (a b : Address) :
    n.at? (a ++ b) = (n.at? a).bind fun m => m.at? b := by
  induction a generalizing n with
  | nil => rfl
  | cons i is ih =>
    rw [List.cons_append, at?, at?]
    cases n.children[i]? with
    | none => rfl
    | some c => exact ih c

theorem any_isElement_of_getElem? {ns : List Node} {i : Nat} {n : Node} (h : ns[i]? = some n)
    (hn : n.isElement = true) : ns.any isElement = true :=
  List.any_eq_true.2 ⟨n, List.mem_of_getElem? h, hn⟩

/-- The way to an element leads through elements only. -/
theorem isElement_of_at? {n m : Node} {a : Address} (h : n.at? a = some m)
    (hm : m.isElement = true) : n.isElement = true := by
  cases n with
  | element => rfl
  | text s =>
    cases a with
    | nil =>
      cases h
      exact hm
    | cons i is => cases h

/-! ## The skeleton -/

mutual

/-- What remains of a node when attributes, and the texts of elements with only text inside,
    are left out. -/
def skeleton : Node → Node
  | text s => text s
  | element tag children =>
    element tag.bare (if children.any isElement then listSkeleton children else [])

/-- What remains of some nodes. -/
def listSkeleton : List Node → List Node
  | [] => []
  | n :: ns => n.skeleton :: listSkeleton ns

end

theorem listSkeleton_eq_map (ns : List Node) : listSkeleton ns = ns.map skeleton := by
  induction ns with
  | nil => rfl
  | cons n ns ih => rw [listSkeleton, ih, List.map_cons]

theorem skeleton_element (tag : Tag) (children : List Node) :
    (element tag children).skeleton =
      element tag.bare (if children.any isElement then children.map skeleton else []) := by
  rw [skeleton, listSkeleton_eq_map]

@[simp] theorem isElement_skeleton (n : Node) : n.skeleton.isElement = n.isElement := by
  cases n <;> rfl

theorem any_isElement_map_skeleton (ns : List Node) :
    (ns.map skeleton).any isElement = ns.any isElement := by
  simp only [List.any_map, Function.comp_def, isElement_skeleton]

/-- An element has elements inside exactly if its skeleton has children. -/
theorem any_isElement_of_skeleton_eq {tag tag' : Tag} {children children' : List Node}
    (h : (element tag children).skeleton = (element tag' children').skeleton) :
    children.any isElement = children'.any isElement := by
  have hkept : ∀ ns : List Node,
      (if ns.any isElement then ns.map skeleton else []).any isElement = ns.any isElement := by
    intro ns
    split
    · exact any_isElement_map_skeleton ns
    · rename_i hnone
      rw [Bool.not_eq_true] at hnone
      rw [hnone]
      rfl
  rw [skeleton_element, skeleton_element, Node.element.injEq] at h
  rw [← hkept children, h.2, hkept children']

/-- The skeleton has the skeletons of all elements, at the same addresses. -/
theorem at?_skeleton {m : Node} (hm : m.isElement = true) (a : Address) :
    ∀ n : Node, n.at? a = some m → n.skeleton.at? a = some m.skeleton := by
  induction a with
  | nil =>
    intro n h
    cases h
    rfl
  | cons i is ih =>
    intro n h
    cases n with
    | text s => cases h
    | element tag children =>
      obtain ⟨c, hc, hat⟩ := Option.bind_eq_some_iff.1 h
      rw [Node.children] at hc
      -- the next node on the way is an element, so the children are kept
      have hany := any_isElement_of_getElem? hc (isElement_of_at? hat hm)
      rw [skeleton_element, hany, if_pos rfl, at?, Node.children, List.getElem?_map, hc]
      exact ih c hat

section Finding

variable {p : Tag → Bool}

theorem listFind?_map_skeleton {ns : List Node}
    (h : ∀ n ∈ ns, n.skeleton.find? p = n.find? p) :
    listFind? p (ns.map skeleton) = listFind? p ns := by
  induction ns with
  | nil => rfl
  | cons n ns ih =>
    rw [List.map_cons, listFind?, listFind?, h n List.mem_cons_self,
      ih fun m hm => h m (List.mem_cons_of_mem _ hm)]

variable (hp : ∀ t : Tag, p t.bare = p t)
include hp

/-- Elements are found by their skeletons. -/
theorem find?_skeleton (n : Node) : n.skeleton.find? p = n.find? p := by
  induction n using Node.induction with
  | text s => rfl
  | element tag children ih =>
    rw [skeleton_element, find?, find?, hp]
    split
    · rfl
    · split
      · exact listFind?_map_skeleton ih
      · rename_i hnone
        rw [Bool.not_eq_true] at hnone
        rw [listFind?_of_texts hnone]
        rfl

/-- Elements inside an element at an address are found by its skeleton. -/
theorem findInside?_skeleton (a : Address) (n : Node) :
    (n.skeleton.at? a).bind (fun m => listFind? p m.children) =
      (n.at? a).bind fun m => listFind? p m.children := by
  induction a generalizing n with
  | nil =>
    cases n with
    | text s => rfl
    | element tag children =>
      rw [skeleton_element, at?, at?, Option.bind_some, Option.bind_some, Node.children,
        Node.children]
      split
      · exact listFind?_map_skeleton fun m _ => find?_skeleton hp m
      · rename_i hnone
        rw [Bool.not_eq_true] at hnone
        rw [listFind?_of_texts hnone]
        rfl
  | cons i is ih =>
    cases n with
    | text s => rfl
    | element tag children =>
      rw [skeleton_element, at?, at?, Node.children, Node.children]
      split
      · rw [List.getElem?_map]
        cases children[i]? with
        | none => rfl
        | some c => exact ih c
      · rename_i hnone
        cases hc : children[i]? with
        | none => rfl
        | some c =>
          -- the children are not kept, but they are texts, with no elements inside
          cases c with
          | element => exact absurd (any_isElement_of_getElem? hc rfl) hnone
          | text s => cases is <;> rfl

end Finding

end Node

/-! ## Cells -/

/-- A part of an element that can be written. -/
inductive Cell.Part where
  | text
  | attribute (name : String)
  deriving DecidableEq

/-- A part of the element at an address. -/
structure Cell where
  address : Node.Address
  part : Cell.Part
  deriving DecidableEq

namespace Node

/-- What a part of a node holds. The text of an element with elements inside is no part of
    it, but spread over parts of others. -/
def part? : Node → Cell.Part → Option String
  | element tag _, .attribute name => tag.get? name
  | element _ children, .text =>
    if children.any isElement then none else some (String.ofList (listTextChars children))
  | text _, _ => none

/-- What a cell of a node holds. -/
def cell? (n : Node) (c : Cell) : Option String := (n.at? c.address).bind fun m => m.part? c.part

theorem cell?_cons (tag : Tag) (children : List Node) (i : Nat) (is : Address) (part : Cell.Part) :
    (element tag children).cell? ⟨i :: is, part⟩ =
      children[i]?.bind fun n => n.cell? ⟨is, part⟩ := by
  simp only [cell?, at?, Node.children]
  cases children[i]? <;> rfl

/-- Among texts there are no cells. -/
theorem cell?_of_texts {children : List Node} (h : children.any isElement = false) (tag : Tag)
    (i : Nat) (is : Address) (part : Cell.Part) :
    (element tag children).cell? ⟨i :: is, part⟩ = none := by
  rw [cell?_cons]
  cases hc : children[i]? with
  | none => rfl
  | some c =>
    cases c with
    | text s => cases is <;> rfl
    | element =>
      have hany := any_isElement_of_getElem? hc rfl
      rw [h] at hany
      cases hany

/-- Nodes that hold the same in all parts of a kind. -/
def SameCells (kind : Cell.Part → Prop) (n m : Node) : Prop :=
  ∀ c, kind c.part → n.cell? c = m.cell? c

section Alike

variable {kind : Cell.Part → Prop}

/-- Children with the same skeletons and cells correspond to each other. -/
theorem exists_child_alike {tag tag' : Tag} {children children' : List Node}
    (hskel : children.map skeleton = children'.map skeleton)
    (hcells : SameCells kind (element tag children) (element tag' children')) {i : Nat}
    {n : Node} (hn : children[i]? = some n) :
    ∃ m, children'[i]? = some m ∧ n.skeleton = m.skeleton ∧ SameCells kind n m := by
  have hi : (children.map skeleton)[i]? = (children'.map skeleton)[i]? := by rw [hskel]
  rw [List.getElem?_map, List.getElem?_map, hn, Option.map_some, eq_comm,
    Option.map_eq_some_iff] at hi
  obtain ⟨m, hm, hsame⟩ := hi
  refine ⟨m, hm, hsame.symm, fun c hkind => ?_⟩
  have hc := hcells ⟨i :: c.address, c.part⟩ hkind
  rwa [cell?_cons, cell?_cons, hn, hm] at hc

/-- What skeleton and cells determine in each child, they determine in all children. -/
theorem map_eq_of_alike {α : Type} {f : Node → α} {tag tag' : Tag} {children children' : List Node}
    (hskel : children.map skeleton = children'.map skeleton)
    (hcells : SameCells kind (element tag children) (element tag' children'))
    (h : ∀ n ∈ children, ∀ m : Node, n.skeleton = m.skeleton → SameCells kind n m → f n = f m) :
    children.map f = children'.map f := by
  have hlength : children.length = children'.length := by
    rw [← List.length_map skeleton, hskel, List.length_map]
  refine List.ext_getElem? fun i => ?_
  rw [List.getElem?_map, List.getElem?_map]
  cases hn : children[i]? with
  | none =>
    rw [List.getElem?_eq_none_iff, hlength] at hn
    rw [List.getElem?_eq_none_iff.2 hn]
  | some n =>
    obtain ⟨m, hm, hsame, hcell⟩ := exists_child_alike hskel hcells hn
    rw [hm, Option.map_some, Option.map_some, h n (List.mem_of_getElem? hn) m hsame hcell]

end Alike

/-- The text of a node is determined by its skeleton and the texts among its cells. -/
theorem textChars_eq (n : Node) : ∀ m : Node, n.skeleton = m.skeleton →
    SameCells (· = .text) n m → n.textChars = m.textChars := by
  induction n using Node.induction with
  | text s =>
    intro m hskel _
    cases m with
    | text s' =>
      cases hskel
      rfl
    | element => cases hskel
  | element tag children ih =>
    intro m hskel hcells
    cases m with
    | text => cases hskel
    | element tag' children' =>
      have hany := any_isElement_of_skeleton_eq hskel
      cases hinside : children'.any isElement with
      | false =>
        -- the text is a cell
        have hcell := hcells ⟨[], .text⟩ rfl
        simp only [cell?, at?, Option.bind_some, part?, hany, hinside, Bool.false_eq_true,
          if_false, Option.some.injEq] at hcell
        exact String.ofList_injective hcell
      | true =>
        rw [skeleton_element, skeleton_element, hany, hinside, if_pos rfl, if_pos rfl,
          Node.element.injEq] at hskel
        -- the text is spread over the children, one of which corresponds to each
        have hmap := map_eq_of_alike hskel.2 hcells ih
        rw [textChars, textChars, listTextChars_eq_flatMap, listTextChars_eq_flatMap,
          List.flatMap_def, List.flatMap_def, hmap]

/-- An element as it looks from outside: without its attributes, and what they hold. -/
def look (t : Tag) : Tag × (String → Option String) := (t.bare, t.get?)

theorem listTags_of_texts {ns : List Node} (h : ns.any isElement = false) : listTags ns = [] := by
  induction ns with
  | nil => rfl
  | cons n ns ih =>
    rw [List.any_cons, Bool.or_eq_false_iff] at h
    cases n with
    | element => cases h.1
    | text s => exact ih h.2

/-- The elements of a node look as its skeleton and its cells say. -/
theorem look_tags_eq (n : Node) : ∀ m : Node, n.skeleton = m.skeleton →
    SameCells (fun _ => True) n m → n.tags.map look = m.tags.map look := by
  induction n using Node.induction with
  | text s =>
    intro m hskel _
    cases m with
    | text => rfl
    | element => cases hskel
  | element tag children ih =>
    intro m hskel hcells
    cases m with
    | text => cases hskel
    | element tag' children' =>
      have hany := any_isElement_of_skeleton_eq hskel
      have htag : look tag = look tag' := by
        have hbare := hskel
        rw [skeleton_element, skeleton_element, Node.element.injEq] at hbare
        exact Prod.ext hbare.1 (funext fun name => hcells ⟨[], .attribute name⟩ trivial)
      rw [tags, tags, List.map_cons, List.map_cons, htag]
      cases hinside : children'.any isElement with
      | false => rw [listTags_of_texts (hany.trans hinside), listTags_of_texts hinside]
      | true =>
        rw [skeleton_element, skeleton_element, hany, hinside, if_pos rfl, if_pos rfl,
          Node.element.injEq] at hskel
        have hmap := map_eq_of_alike hskel.2 hcells ih
        have hflat : ∀ ns : List Node, (listTags ns).map look =
            (ns.map fun n => n.tags.map look).flatten := by
          intro ns
          induction ns with
          | nil => rfl
          | cons n ns ihs => rw [listTags, List.map_append, ihs, List.map_cons, List.flatten_cons]
        rw [hflat, hflat, hmap]

/-! ## Writing -/

section Writing

variable {f : Tag → List Node → Node} {tag : Tag} {children : List Node}

/-- A change to one node that keeps its skeleton keeps those of all. -/
theorem map_skeleton_modify {g : Node → Node} {ns : List Node} {i : Nat}
    (hg : ∀ n, ns[i]? = some n → (g n).skeleton = n.skeleton) :
    (ns.modify i g).map skeleton = ns.map skeleton := by
  refine List.ext_getElem? fun j => ?_
  rw [List.getElem?_map, List.getElem?_map, List.getElem?_modify]
  cases hn : ns[j]? with
  | none => rfl
  | some n =>
    by_cases hij : i = j
    · subst hij
      simp only [Option.map_eq_map, Option.map_some, if_true, hg n hn]
    · simp only [Option.map_eq_map, hij, if_false, Option.map_some]

/-- A change to an element that keeps its skeleton keeps that of the whole. -/
theorem skeleton_modify (hf : (f tag children).skeleton = (element tag children).skeleton)
    (a : Address) : ∀ n : Node, n.at? a = some (element tag children) →
      (n.modify f a).skeleton = n.skeleton := by
  induction a with
  | nil =>
    intro n h
    cases h
    exact hf
  | cons i is ih =>
    intro n h
    cases n with
    | text s => cases h
    | element tag' children' =>
      have hmap : (children'.modify i (modify f is)).map skeleton = children'.map skeleton := by
        refine map_skeleton_modify fun c hc => ?_
        rw [at?, Node.children, hc] at h
        exact ih c h
      have hany : (children'.modify i (modify f is)).any isElement = children'.any isElement := by
        rw [← any_isElement_map_skeleton, hmap, any_isElement_map_skeleton]
      rw [modify, skeleton_element, skeleton_element, hany, hmap]

/-- A change to an element that keeps the skeleton, and the cells further inside, gives the
    element's own parts new values and no other cell. -/
theorem cell?_modify (hf : (f tag children).skeleton = (element tag children).skeleton)
    (hinside : ∀ i is part,
      (f tag children).cell? ⟨i :: is, part⟩ = (element tag children).cell? ⟨i :: is, part⟩)
    (a : Address) : ∀ n : Node, n.at? a = some (element tag children) → ∀ c : Cell,
      (n.modify f a).cell? c =
        if c.address = a then (f tag children).part? c.part else n.cell? c := by
  induction a with
  | nil =>
    rintro n h ⟨b, part⟩
    cases h
    cases b with
    | nil => rfl
    | cons i is => exact hinside i is part
  | cons i is ih =>
    rintro n h ⟨b, part⟩
    cases n with
    | text s => cases h
    | element tag' children' =>
      have hskel := skeleton_modify hf (i :: is) _ h
      obtain ⟨c, hc, hat⟩ := Option.bind_eq_some_iff.1 h
      rw [Node.children] at hc
      cases b with
      | nil =>
        -- the element on the way has an element inside, so its text is no cell
        rw [if_neg (List.cons_ne_nil i is).symm]
        cases part with
        | text =>
          have hany := any_isElement_of_getElem? hc (isElement_of_at? hat rfl)
          have hany' := any_isElement_of_skeleton_eq hskel
          rw [hany] at hany'
          simp only [cell?, at?, Option.bind_some, modify, part?, hany, hany', if_true]
        | _ => rfl
      | cons j js =>
        simp only [modify, cell?_cons, List.getElem?_modify]
        by_cases hij : i = j
        · subst hij
          simp only [hc, if_true, Option.map_eq_map, Option.map_some, Option.bind_some, ih c hat,
            List.cons.injEq, true_and]
        · have hne : ¬ (j :: js = i :: is) := fun heq => hij (List.cons.inj heq).1.symm
          simp only [hij, hne, if_false]
          cases children'[j]? <;> rfl

end Writing

end Node

end Slideshow

/-
  Slideshow.Proofs.Scene.Import

  What a diagram takes over from its document. Each id goes to one element as its handle, and
  where no other attribute is written like an id, every id does (`coherent_ofDocument`).
-/
import Slideshow.Proofs.Scene.Index
import Slideshow.Scene.Document

namespace Slideshow

open Markup (Name Tree Document Scope)

/-! ## Elements of a document -/

namespace Markup

/-- An element of a document without its children. -/
structure Element where
  name : Name
  attrs : List (Name × String)

mutual

/-- The elements of a tree, in document order. -/
def Tree.elements : Tree → List Element
  | text _ => []
  | element name attrs children => ⟨name, attrs⟩ :: Tree.listElements children

/-- The elements of some trees. -/
def Tree.listElements : List Tree → List Element
  | [] => []
  | t :: ts => t.elements ++ Tree.listElements ts

end

/-- The elements of a document, the root first. -/
def Document.elements (d : Document) : List Element :=
  ⟨d.name, d.attrs⟩ :: Tree.listElements d.children

/-- The element has no attribute that is written like an id and is none. -/
def Element.OwnId (declared : Scope) (e : Element) : Prop :=
  ∀ a ∈ e.attrs, qualified declared a.1 = "id" → a.1 = ⟨none, "id"⟩

instance (declared : Scope) (e : Element) : Decidable (e.OwnId declared) :=
  inferInstanceAs (Decidable (∀ a ∈ e.attrs, qualified declared a.1 = "id" → a.1 = ⟨none, "id"⟩))

end Markup

open Markup (Element)

/-! ## Handles -/

section Handles

variable {declared : Scope} {k : String}

/-- The handle of an element, behind those of the elements inside. -/
def ownHandle? (declared : Scope) (taken : List String) (attrs : List (Name × String))
    (children : List Tree) : Option String :=
  freeHandle? (Node.ofTrees declared taken children).2 (elementKey? attrs)

theorem ofTree_element (declared : Scope) (taken : List String) (name : Name)
    (attrs : List (Name × String)) (children : List Tree) :
    Node.ofTree declared taken (.element name attrs children) =
      (.element { Tag.ofElement declared name attrs with
          handle := ownHandle? declared taken attrs children }
        (Node.ofTrees declared taken children).1,
      (ownHandle? declared taken attrs children).toList ++
        (Node.ofTrees declared taken children).2) := rfl

theorem ofTrees_cons (declared : Scope) (taken : List String) (t : Tree) (ts : List Tree) :
    Node.ofTrees declared taken (t :: ts) =
      ((Node.ofTree declared taken t).1 ::
        (Node.ofTrees declared (Node.ofTree declared taken t).2 ts).1,
      (Node.ofTrees declared (Node.ofTree declared taken t).2 ts).2) := rfl

/-- A free handle is taken afterwards. -/
theorem toNat_freeHandle? (taken : List String) (id : Option String) (k : String) :
    (freeHandle? taken id == some k).toNat + (taken.contains k).toNat =
      (((freeHandle? taken id).toList ++ taken).contains k).toNat := by
  cases hfree : freeHandle? taken id with
  | none => rw [Option.toList_none, List.nil_append]; exact Nat.zero_add _
  | some k' =>
    obtain ⟨_, hnot⟩ := Option.filter_eq_some_iff.1 hfree
    rw [Bool.not_eq_true'] at hnot
    rw [Option.toList_some, List.singleton_append, List.contains_cons]
    by_cases hk : k' = k
    · subst hk
      rw [hnot, BEq.rfl, BEq.rfl]
      rfl
    · have hk' : ¬ k = k' := fun h => hk h.symm
      rw [beq_false_of_ne hk', Bool.false_or, beq_false_of_ne fun h => hk (Option.some.inj h)]
      exact Nat.zero_add _

mutual

/-- Each element gets a handle that was not taken, and it is taken afterwards. -/
theorem countP_holds_ofTree (declared : Scope) (k : String) : ∀ (t : Tree) (taken : List String),
    (Node.ofTree declared taken t).1.tags.countP (Tag.holds k) + (taken.contains k).toNat =
      ((Node.ofTree declared taken t).2.contains k).toNat
  | .text s, taken => Nat.zero_add _
  | .element name attrs children, taken => by
    have hinside := countP_holds_ofTrees declared k children taken
    have hown : (ownHandle? declared taken attrs children == some k).toNat + _ = _ :=
      toNat_freeHandle? (Node.ofTrees declared taken children).2 (elementKey? attrs) k
    rw [ofTree_element, Node.tags, Tag.countP_cons]
    show _ + (ownHandle? declared taken attrs children == some k).toNat + _ =
      (((ownHandle? declared taken attrs children).toList ++
        (Node.ofTrees declared taken children).2).contains k).toNat
    rw [ownHandle?] at hown ⊢
    omega

theorem countP_holds_ofTrees (declared : Scope) (k : String) :
    ∀ (ts : List Tree) (taken : List String),
    (Node.listTags (Node.ofTrees declared taken ts).1).countP (Tag.holds k) +
        (taken.contains k).toNat =
      ((Node.ofTrees declared taken ts).2.contains k).toNat
  | [], taken => Nat.zero_add _
  | t :: ts, taken => by
    have hfirst := countP_holds_ofTree declared k t taken
    have hrest := countP_holds_ofTrees declared k ts (Node.ofTree declared taken t).2
    rw [ofTrees_cons, Node.listTags, List.countP_append]
    dsimp only
    omega

end

/-- A handle that is taken stays so. -/
theorem contains_ofTrees (ts : List Tree) {taken : List String} (h : taken.contains k = true) :
    (Node.ofTrees declared taken ts).2.contains k = true := by
  have hcount := countP_holds_ofTrees declared k ts taken
  rw [h, Bool.toNat_true] at hcount
  have hle := Bool.toNat_le ((Node.ofTrees declared taken ts).2.contains k)
  exact Bool.toNat_eq_one.1 (by omega)

end Handles

/-! ## Ids -/

section Ids

variable {declared : Scope}

/-- Where no other attribute is written like the id, the id stands in the element. -/
theorem id?_ofElement {name : Name} {attrs : List (Name × String)}
    (h : Element.OwnId declared ⟨name, attrs⟩) :
    (Tag.ofElement declared name attrs).id? = elementKey? attrs := by
  rw [Element.OwnId] at h
  show ((attrs.map fun a => (qualified declared a.1, a.2)).find? fun a => a.1 == "id").map (·.2) =
    (attrs.find? fun a => a.1 == ⟨none, "id"⟩).map (·.2)
  induction attrs with
  | nil => rfl
  | cons a attrs ih =>
    rw [List.map_cons, List.find?_cons, List.find?_cons]
    by_cases hown : a.1 = ⟨none, "id"⟩
    · have hwritten : qualified declared a.1 = "id" := by rw [hown]; rfl
      rw [hwritten, hown, BEq.rfl, BEq.rfl]
      rfl
    · have hwritten : qualified declared a.1 ≠ "id" := fun hid =>
        hown (h a List.mem_cons_self hid)
      rw [beq_false_of_ne hown, beq_false_of_ne hwritten]
      exact ih fun b hb => h b (List.mem_cons_of_mem _ hb)

/-- The element is found only under an id that it bears, and its id is a handle, of this or of
    another element. -/
def Settled (taken : List String) (t : Tag) : Prop :=
  ∀ k, (t.holds k = true → t.bears k = true) ∧ (t.bears k = true → taken.contains k = true)

mutual

theorem settled_ofTree (declared : Scope) : ∀ (t : Tree) (taken : List String),
    (∀ e ∈ t.elements, e.OwnId declared) →
      ∀ tag ∈ (Node.ofTree declared taken t).1.tags, Settled (Node.ofTree declared taken t).2 tag
  | .text s, taken, _, tag, htag => by cases htag
  | .element name attrs children, taken, h, tag, htag => by
    have hinside := settled_ofTrees declared children taken fun e he =>
      h e (List.mem_cons_of_mem _ he)
    have hid := id?_ofElement (h ⟨name, attrs⟩ List.mem_cons_self)
    rw [ofTree_element, Node.tags] at htag
    rw [ofTree_element]
    intro k
    rcases List.mem_cons.1 htag with rfl | htag
    · have hholds : ∀ {k}, ownHandle? declared taken attrs children = some k →
          elementKey? attrs = some k := fun hk => (Option.filter_eq_some_iff.1 hk).1
      show ((ownHandle? declared taken attrs children == some k) = true →
          ((Tag.ofElement declared name attrs).id? == some k) = true) ∧
        (((Tag.ofElement declared name attrs).id? == some k) = true →
          ((ownHandle? declared taken attrs children).toList ++
            (Node.ofTrees declared taken children).2).contains k = true)
      rw [hid, beq_iff_eq, beq_iff_eq]
      refine ⟨hholds, fun hk => ?_⟩
      rw [ownHandle?, freeHandle?, hk, List.contains_append, Option.filter_some]
      -- the id was taken before, or it is the handle
      cases (Node.ofTrees declared taken children).2.contains k <;> simp
    · refine ⟨(hinside tag htag k).1, fun hbears => ?_⟩
      rw [List.contains_append, (hinside tag htag k).2 hbears, Bool.or_true]

theorem settled_ofTrees (declared : Scope) : ∀ (ts : List Tree) (taken : List String),
    (∀ e ∈ Tree.listElements ts, e.OwnId declared) →
      ∀ tag ∈ Node.listTags (Node.ofTrees declared taken ts).1,
        Settled (Node.ofTrees declared taken ts).2 tag
  | [], taken, _, tag, htag => by cases htag
  | t :: ts, taken, h, tag, htag => by
    rw [ofTrees_cons, Node.listTags] at htag
    rw [ofTrees_cons]
    rcases List.mem_append.1 htag with htag | htag
    · intro k
      have hfirst := settled_ofTree declared t taken
        (fun e he => h e (List.mem_append_left _ he)) tag htag k
      exact ⟨hfirst.1, fun hbears => contains_ofTrees ts (hfirst.2 hbears)⟩
    · exact settled_ofTrees declared ts _ (fun e he => h e (List.mem_append_right _ he)) tag htag

end

end Ids

/-! ## Scenes of documents -/

namespace Scene

variable {d : Document}

theorem root_ofDocument (d : Document) :
    (ofDocument d).root = (Node.ofTree d.declared [] (.element d.name d.attrs d.children)).1 := rfl

theorem countP_holds_ofDocument (d : Document) (k : String) :
    (ofDocument d).forest.tags.countP (Tag.holds k) =
      ((Node.ofTree d.declared [] (.element d.name d.attrs d.children)).2.contains k).toNat := by
  rw [← countP_holds_ofTree, ← root_ofDocument]
  exact countP_holds_forest k (ofDocument d)

/-- No two elements of a new scene have the same handle. -/
theorem unique_ofDocument (d : Document) : (ofDocument d).Unique := by
  intro k
  rw [countP_holds_ofDocument]
  exact Bool.toNat_le _

/-- In a new scene index and tree agree if no other attribute is written like an id. -/
theorem coherent_ofDocument (h : ∀ e ∈ d.elements, e.OwnId d.declared) :
    (ofDocument d).Coherent := by
  have hsettled := settled_ofTree d.declared (.element d.name d.attrs d.children) [] h
  rw [coherent_iff]
  intro k hlists
  have hnone : ∀ t ∈ (ofDocument d).root.tags, t.holds k = false := fun t ht => by
    rw [Bool.eq_false_iff]
    intro hholds
    have hbears := (hsettled t ht k).1 hholds
    refine List.countP_eq_zero.1 hlists t ht ?_
    rw [Tag.lists, hholds, hbears, Bool.and_self]
  have hzero : (ofDocument d).root.tags.countP (Tag.holds k) = 0 :=
    List.countP_eq_zero.2 fun t ht => Bool.eq_false_iff.1 (hnone t ht)
  have hforest := countP_holds_forest k (ofDocument d)
  rw [hzero] at hforest
  refine ⟨hforest, List.countP_eq_zero.2 fun t ht hbears => ?_⟩
  -- a handle that is taken is found
  have htaken := (hsettled t ht k).2 hbears
  have hcount := countP_holds_ofDocument d k
  rw [htaken, hforest] at hcount
  cases hcount

/-- A scene that was loaded is that of a document. -/
theorem exists_of_load {text : String} {s : Scene} (h : load text = .ok s) :
    ∃ d, Document.ofText? text = some d ∧ s = ofDocument d := by
  unfold load at h
  split at h
  · cases h
  · rename_i d hd
    split at h
    · cases h
      exact ⟨d, hd, rfl⟩
    · cases h

/-- What is checked of a loaded scene holds of it. -/
theorem exists_load_of_any (text : String) (check : Scene → Bool)
    (h : (load text).toOption.any check = true) :
    ∃ s, load text = .ok s ∧ check s = true := by
  cases hload : load text with
  | error fault =>
    rw [hload] at h
    cases h
  | ok s =>
    rw [hload] at h
    exact ⟨s, rfl, h⟩

end Scene

end Slideshow

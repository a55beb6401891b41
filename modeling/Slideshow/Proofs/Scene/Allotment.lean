/-
  Slideshow.Proofs.Scene.Allotment

  How the nodes of a document are laid out in one row: an element in front of what is inside it,
  one child behind the other. An id goes to the first element that is done with it, the elements
  inside before the element itself. The tree of the document then hangs at the first place
  (`shows_ofDocument`).
-/
import Mathlib.Data.List.Range
import Slideshow.Proofs.Scene.InPlace

namespace Slideshow

open Markup (Name Tree Document Scope)

namespace Markup

mutual

/-- How many nodes a tree has. -/
def Tree.size : Tree → Nat
  | text _ => 1
  | element _ _ children => Tree.listSize children + 1

/-- How many nodes some trees have. -/
def Tree.listSize : List Tree → Nat
  | [] => 0
  | t :: ts => t.size + Tree.listSize ts

end

theorem Tree.size_pos (t : Tree) : 0 < t.size := by
  cases t with
  | text s => exact Nat.one_pos
  | element name attrs children => exact Nat.succ_pos _

end Markup

namespace Arena

/-! ## The row -/

/-- The places of trees that are laid out one behind the other. -/
def starts (start : Nat) : List Tree → List Nat
  | [] => []
  | t :: ts => start :: starts (start + t.size) ts

mutual

/-- The nodes of a tree that is laid out from a place on. -/
def itemsOf (declared : Scope) (start : Nat) : Tree → List Item
  | .text s => [.text s]
  | .element name attrs children =>
    let t := Tag.ofElement declared name attrs
    .element t.name t.attrs (starts (start + 1) children) ::
      listItemsOf declared (start + 1) children

/-- The nodes of some trees. -/
def listItemsOf (declared : Scope) (start : Nat) : List Tree → List Item
  | [] => []
  | t :: ts => itemsOf declared start t ++ listItemsOf declared (start + t.size) ts

end

/-- An index in which an element is entered under an id, unless another one is. -/
def enter (index : String → Option Nat) (id : Option String) (i : Nat) : String → Option Nat :=
  fun k => (index k).or (if id = some k then some i else none)

mutual

/-- The index behind a tree that is laid out from a place on. -/
def indexOf (index : String → Option Nat) (start : Nat) : Tree → String → Option Nat
  | .text _ => index
  | .element _ attrs children =>
    enter (listIndexOf index (start + 1) children) (elementKey? attrs) start

/-- The index behind some trees. -/
def listIndexOf (index : String → Option Nat) (start : Nat) : List Tree → String → Option Nat
  | [] => index
  | t :: ts => listIndexOf (indexOf index start t) (start + t.size) ts

end

section Row

variable {declared : Scope} {start : Nat}

mutual

theorem length_itemsOf (declared : Scope) : ∀ (t : Tree) (start : Nat),
    (itemsOf declared start t).length = t.size
  | .text s, start => rfl
  | .element name attrs children, start => by
    rw [itemsOf, List.length_cons, length_listItemsOf declared children, Tree.size]

theorem length_listItemsOf (declared : Scope) : ∀ (ts : List Tree) (start : Nat),
    (listItemsOf declared start ts).length = Tree.listSize ts
  | [], start => rfl
  | t :: ts, start => by
    rw [listItemsOf, List.length_append, length_itemsOf declared t, length_listItemsOf declared ts,
      Tree.listSize]

end

theorem mem_starts {c : Nat} (ts : List Tree) (start : Nat) (h : c ∈ starts start ts) :
    start ≤ c ∧ c < start + Tree.listSize ts := by
  induction ts generalizing start with
  | nil => cases h
  | cons t ts ih =>
    have hpos := t.size_pos
    rw [Tree.listSize]
    rcases List.mem_cons.1 h with rfl | h
    · omega
    · have hrest := ih (start + t.size) h
      omega

mutual

/-- In the row of a tree children stand behind their parents. -/
theorem ahead_itemsOf (declared : Scope) : ∀ (t : Tree) (start q : Nat) (item : Item),
    (itemsOf declared start t)[q]? = some item →
      ∀ c ∈ item.children, start + q < c ∧ c < start + t.size
  | .text s, start, q, item, hitem, c, hc => by
    obtain rfl := List.mem_singleton.1 (List.mem_of_getElem? hitem)
    cases hc
  | .element name attrs children, start, q, item, hitem, c, hc => by
    rw [itemsOf] at hitem
    rw [Tree.size]
    cases q with
    | zero =>
      cases hitem
      have hstarts := mem_starts children (start + 1) hc
      omega
    | succ q =>
      have hinside := ahead_listItemsOf declared children (start + 1) q item hitem c hc
      omega

theorem ahead_listItemsOf (declared : Scope) : ∀ (ts : List Tree) (start q : Nat) (item : Item),
    (listItemsOf declared start ts)[q]? = some item →
      ∀ c ∈ item.children, start + q < c ∧ c < start + Tree.listSize ts
  | [], start, q, item, hitem, c, hc => by cases hitem
  | t :: ts, start, q, item, hitem, c, hc => by
    rw [listItemsOf, List.getElem?_append, length_itemsOf] at hitem
    rw [Tree.listSize]
    split at hitem
    · have hfirst := ahead_itemsOf declared t start q item hitem c hc
      omega
    · have hrest := ahead_listItemsOf declared ts (start + t.size) _ item hitem c hc
      omega

end

mutual

/-- Every place of the row but the first one is that of one child. -/
theorem perm_itemsOf (declared : Scope) : ∀ (t : Tree) (start : Nat),
    (start :: (itemsOf declared start t).flatMap Item.children).Perm (List.range' start t.size)
  | .text s, start => .refl _
  | .element name attrs children, start => by
    rw [itemsOf, List.flatMap_cons, Tree.size, List.range'_succ]
    exact (perm_listItemsOf declared children (start + 1)).cons start

theorem perm_listItemsOf (declared : Scope) : ∀ (ts : List Tree) (start : Nat),
    (starts start ts ++ (listItemsOf declared start ts).flatMap Item.children).Perm
      (List.range' start (Tree.listSize ts))
  | [], start => .refl _
  | t :: ts, start => by
    have hfirst := perm_itemsOf declared t start
    have hrest := perm_listItemsOf declared ts (start + t.size)
    have hrange : List.range' start (Tree.listSize (t :: ts)) =
        List.range' start t.size ++ List.range' (start + t.size) (Tree.listSize ts) := by
      rw [Tree.listSize, List.range'_append_1]
    rw [hrange, starts, listItemsOf, List.flatMap_append]
    -- the places of the trees behind come after those inside the first one
    refine List.Perm.trans ?_ (hfirst.append hrest)
    rw [List.cons_append, List.cons_append, ← List.append_assoc, ← List.append_assoc]
    exact ((List.perm_append_comm).append_right _).cons start

end

end Row

/-! ## The index -/

section Index

variable {index : String → Option Nat} {start i : Nat} {k : String}

theorem enter_eq_some_iff {id : Option String} {j : Nat} : enter index id i k = some j ↔
    index k = some j ∨ index k = none ∧ id = some k ∧ i = j := by
  rw [enter, Option.or_eq_some_iff, Option.ite_none_right_eq_some, Option.some.injEq]

mutual

/-- What is in the index stays, and what is new leads into the tree. -/
theorem indexOf_eq_some : ∀ (t : Tree) (index : String → Option Nat) (start : Nat),
    (∀ k i, index k = some i → indexOf index start t k = some i) ∧
      ∀ k i, indexOf index start t k = some i →
        index k = some i ∨ (start ≤ i ∧ i < start + t.size)
  | .text s, index, start => ⟨fun _ _ h => h, fun _ _ h => .inl h⟩
  | .element name attrs children, index, start => by
    obtain ⟨hkeep, hnew⟩ := listIndexOf_eq_some children index (start + 1)
    refine ⟨fun k i h => enter_eq_some_iff.2 (.inl (hkeep k i h)), fun k i h => ?_⟩
    rw [Tree.size]
    rcases enter_eq_some_iff.1 h with h | ⟨_, _, rfl⟩
    · exact (hnew k i h).imp_right fun _ => by omega
    · exact .inr ⟨Nat.le_refl _, by omega⟩

theorem listIndexOf_eq_some : ∀ (ts : List Tree) (index : String → Option Nat) (start : Nat),
    (∀ k i, index k = some i → listIndexOf index start ts k = some i) ∧
      ∀ k i, listIndexOf index start ts k = some i →
        index k = some i ∨ (start ≤ i ∧ i < start + Tree.listSize ts)
  | [], index, start => ⟨fun _ _ h => h, fun _ _ h => .inl h⟩
  | t :: ts, index, start => by
    obtain ⟨hkeep, hnew⟩ := indexOf_eq_some t index start
    obtain ⟨hkeep', hnew'⟩ := listIndexOf_eq_some ts (indexOf index start t) (start + t.size)
    refine ⟨fun k i h => hkeep' k i (hkeep k i h), fun k i h => ?_⟩
    rw [Tree.listSize]
    rcases hnew' k i h with h | h
    · exact (hnew k i h).imp_right fun _ => by omega
    · exact .inr (by omega)

end

/-- The index has the ids that are taken. -/
def Takes (index : String → Option Nat) (taken : List String) : Prop :=
  ∀ k, (index k).isSome = taken.contains k

theorem Takes.enter {taken : List String} (h : Takes index taken) (id : Option String) (i : Nat) :
    Takes (enter index id i) ((freeHandle? taken id).toList ++ taken) := by
  intro k
  rw [Arena.enter, Option.isSome_or, h k, List.contains_append]
  cases hk : taken.contains k with
  | true => rw [Bool.true_or, Bool.or_true]
  | false =>
    rw [Bool.false_or, Bool.or_false]
    by_cases hid : id = some k
    · rw [if_pos hid, hid, freeHandle?, Option.filter_some, hk]
      simp
    · rw [if_neg hid]
      have hnot : k ∉ (freeHandle? taken id).toList := by
        rw [Option.mem_toList]
        exact fun hmem => hid (Option.filter_eq_some_iff.1 hmem).1
      exact (List.contains_eq_mem k _ ▸ decide_eq_false hnot).symm

mutual

theorem Takes.indexOf (declared : Scope) : ∀ (t : Tree) (taken : List String)
    (index : String → Option Nat) (start : Nat), Takes index taken →
      Takes (indexOf index start t) (Node.ofTree declared taken t).2
  | .text _, _, _, _, h => h
  | .element _ attrs children, taken, index, start, h =>
    (Takes.listIndexOf declared children taken index (start + 1) h).enter (elementKey? attrs) start

theorem Takes.listIndexOf (declared : Scope) : ∀ (ts : List Tree) (taken : List String)
    (index : String → Option Nat) (start : Nat), Takes index taken →
      Takes (listIndexOf index start ts) (Node.ofTrees declared taken ts).2
  | [], _, _, _, h => h
  | t :: ts, taken, index, start, h =>
    Takes.listIndexOf declared ts _ _ _ (Takes.indexOf declared t taken index start h)

end

end Index

/-! ## The tree at the first place -/

/-- A row of nodes stands in a diagram from a place on, and the diagram has the index behind them,
    which was another one before. -/
structure Laid (A : Arena) (start : Nat) (row : List Item)
    (before after : String → Option Nat) : Prop where
  items : ∀ q < row.length, A.items[start + q]? = row[q]?
  index : ∀ k i, start ≤ i → i < start + row.length → (A.index k = some i ↔ after k = some i)
  old : ∀ k i, before k = some i → i < start

section Laid

variable {A : Arena} {declared : Scope} {start : Nat} {taken : List String}
  {before after : String → Option Nat}

/-- The trees behind the first one are laid out behind it. -/
theorem Laid.cons {t : Tree} {ts : List Tree}
    (h : Laid A start (listItemsOf declared start (t :: ts)) before
      (listIndexOf before start (t :: ts))) :
    Laid A start (itemsOf declared start t) before (indexOf before start t) ∧
      Laid A (start + t.size) (listItemsOf declared (start + t.size) ts)
        (indexOf before start t)
        (listIndexOf (indexOf before start t) (start + t.size) ts) := by
  obtain ⟨hitems, hindex, hold⟩ := h
  obtain ⟨_, hnew⟩ := indexOf_eq_some t before start
  obtain ⟨hkeep', hnew'⟩ := listIndexOf_eq_some ts (indexOf before start t) (start + t.size)
  rw [listItemsOf] at hitems
  simp only [length_listItemsOf, List.length_append, length_itemsOf, Tree.listSize]
    at hitems hindex
  refine ⟨⟨fun q hq => ?_, fun k i hle hlt => ?_, hold⟩, ⟨fun q hq => ?_, fun k i hle hlt => ?_,
    fun k i hk => ?_⟩⟩
  · rw [length_itemsOf] at hq
    rw [hitems q (by omega), List.getElem?_append_left (by rwa [length_itemsOf])]
  · rw [length_itemsOf] at hlt
    rw [hindex k i hle (by omega)]
    refine ⟨fun hk => ?_, hkeep' k i⟩
    -- what comes behind leads further
    rcases hnew' k i hk with hk | hfar
    · exact hk
    · omega
  · rw [length_listItemsOf] at hq
    have hnext := hitems (t.size + q) (by omega)
    rw [List.getElem?_append_right (by rw [length_itemsOf]; omega), length_itemsOf,
      Nat.add_sub_cancel_left, ← Nat.add_assoc] at hnext
    exact hnext
  · rw [length_listItemsOf] at hlt
    exact hindex k i (by omega) (by omega)
  · rcases hnew k i hk with hk | hnear
    · have := hold k i hk
      omega
    · exact hnear.2

/-- What is inside an element is laid out behind it. -/
theorem Laid.children {name : Name} {attrs : List (Name × String)} {children : List Tree}
    (h : Laid A start (itemsOf declared start (.element name attrs children)) before
      (indexOf before start (.element name attrs children))) :
    Laid A (start + 1) (listItemsOf declared (start + 1) children) before
      (listIndexOf before (start + 1) children) := by
  obtain ⟨hitems, hindex, hold⟩ := h
  rw [length_itemsOf, Tree.size] at hitems hindex
  refine ⟨fun q hq => ?_, fun k i hle hlt => ?_, fun k i hk => ?_⟩
  · rw [length_listItemsOf] at hq
    have hnext := hitems (q + 1) (by omega)
    rw [itemsOf, List.getElem?_cons_succ, Nat.add_comm q 1, ← Nat.add_assoc] at hnext
    exact hnext
  · rw [length_listItemsOf] at hlt
    rw [hindex k i (by omega) (by omega), indexOf, enter_eq_some_iff]
    refine or_iff_left ?_
    rintro ⟨_, _, rfl⟩
    omega
  · have := hold k i hk
    omega

/-- The element itself is entered under its handle. -/
theorem Laid.index_eq_iff {name : Name} {attrs : List (Name × String)} {children : List Tree}
    (h : Laid A start (itemsOf declared start (.element name attrs children)) before
      (indexOf before start (.element name attrs children)))
    (htaken : Takes before taken) (k : String) :
    A.index k = some start ↔ ownHandle? declared taken attrs children = some k := by
  have hpos : start < start + (itemsOf declared start (.element name attrs children)).length := by
    rw [length_itemsOf]
    exact Nat.lt_add_of_pos_right (Tree.size_pos _)
  have htakes := Takes.listIndexOf declared children taken before (start + 1) htaken k
  have hnot : listIndexOf before (start + 1) children k ≠ some start := by
    intro hk
    rcases (listIndexOf_eq_some children before (start + 1)).2 k start hk with hk | hk
    · exact Nat.lt_irrefl _ (h.old k start hk)
    · omega
  rw [h.index k start (Nat.le_refl _) hpos, indexOf, enter_eq_some_iff, ownHandle?, freeHandle?,
    Option.filter_eq_some_iff, ← htakes]
  cases hinside : listIndexOf before (start + 1) children k with
  | none => simp
  | some i =>
    rw [hinside] at hnot
    simp [hnot]

end Laid

/-- The diagram of a document. -/
def ofDocument (d : Document) : Arena :=
  let t : Tree := .element d.name d.attrs d.children
  { namespaces := d.declared
    items := itemsOf d.declared 0 t
    root := 0
    index := indexOf (fun _ => none) 0 t
    ahead := by
      intro q item hitem c hc
      rw [length_itemsOf]
      have hahead := ahead_itemsOf d.declared t 0 q item hitem c hc
      omega
    single := by
      have hnodup : (0 :: (itemsOf d.declared 0 t).flatMap Item.children).Nodup :=
        (perm_itemsOf d.declared t 0).nodup_iff.2 List.nodup_range'
      exact (List.nodup_cons.1 hnodup).2 }

section Laid

variable {A : Arena}

mutual

/-- What hangs at the first place of a tree is the tree, if every element in it bears the id under
    which it is found. -/
theorem node_of_laid (declared : Scope) : ∀ (t : Tree) (taken : List String)
    (before : String → Option Nat) (start : Nat), Takes before taken →
      Laid A start (itemsOf declared start t) before (indexOf before start t) →
      (∀ tag ∈ (Node.ofTree declared taken t).1.tags, ∀ k, tag.holds k = true →
        tag.lists k = true) → A.node start = (Node.ofTree declared taken t).1
  | .text s, taken, before, start, _, h, _ => by
    have hitem := h.items 0 Nat.one_pos
    rw [node, visit_eq, ← Nat.add_zero start, hitem]
    rfl
  | .element name attrs children, taken, before, start, htaken, h, hlisted => by
    have hitem := h.items 0 (by rw [length_itemsOf]; exact Tree.size_pos _)
    rw [itemsOf, List.getElem?_cons_zero, Nat.add_zero] at hitem
    have hchildren := map_node_of_laid declared children taken before (start + 1) htaken h.children
      fun tag htag => hlisted tag (List.mem_cons_of_mem _ htag)
    have hhandle : (A.tag start (Tag.ofElement declared name attrs).name
        (Tag.ofElement declared name attrs).attrs).handle =
        ownHandle? declared taken attrs children := by
      refine Option.ext fun k => ?_
      rw [tag, Option.filter_eq_some_iff, beq_iff_eq, h.index_eq_iff htaken]
      refine and_iff_right_of_imp fun hown => ?_
      -- its own id is not hidden by another one
      have hlists := hlisted _ List.mem_cons_self k (beq_iff_eq.2 hown)
      exact eq_of_beq (Bool.and_eq_true_iff.1 hlists).2
    rw [node_element hitem, hchildren, ofTree_element, ← hhandle]
    rfl

theorem map_node_of_laid (declared : Scope) : ∀ (ts : List Tree) (taken : List String)
    (before : String → Option Nat) (start : Nat), Takes before taken →
      Laid A start (listItemsOf declared start ts) before (listIndexOf before start ts) →
      (∀ tag ∈ Node.listTags (Node.ofTrees declared taken ts).1, ∀ k, tag.holds k = true →
        tag.lists k = true) →
      (starts start ts).map A.node = (Node.ofTrees declared taken ts).1
  | [], taken, before, start, _, _, _ => rfl
  | t :: ts, taken, before, start, htaken, h, hlisted => by
    obtain ⟨hfirst, hrest⟩ := h.cons
    rw [ofTrees_cons] at hlisted ⊢
    rw [starts, List.map_cons,
      node_of_laid declared t taken before start htaken hfirst fun tag htag =>
        hlisted tag (List.mem_append_left _ htag),
      map_node_of_laid declared ts _ _ _ (Takes.indexOf declared t taken before start htaken) hrest
        fun tag htag => hlisted tag (List.mem_append_right _ htag)]

end

end Laid

/-- The tree of a document hangs at the first place, if no id is hidden. -/
theorem shows_ofDocument {d : Document} (h : (Scene.ofDocument d).Tidy) :
    Shows (ofDocument d) (Scene.ofDocument d) := by
  let t : Tree := .element d.name d.attrs d.children
  have htaken : Takes (fun _ => none) [] := fun _ => rfl
  have hlaid : Laid (ofDocument d) 0 (itemsOf d.declared 0 t) (fun _ => none)
      (indexOf (fun _ => none) 0 t) :=
    ⟨fun q _ => by rw [Nat.zero_add]; rfl, fun _ _ _ _ => Iff.rfl, fun _ _ hk => by cases hk⟩
  refine ⟨h, rfl, node_of_laid d.declared t [] _ 0 htaken hlaid h.listed, fun k hk => ?_⟩
  -- an id that is not found was not taken
  have hindex := Takes.indexOf d.declared t [] _ 0 htaken k
  have hcount := Scene.countP_holds_ofDocument d k
  rw [← Option.isNone_iff_eq_none, Scene.isNone_handleAddress?, beq_iff_eq, hcount] at hk
  rw [Bool.toNat_eq_zero.1 hk] at hindex
  exact Option.not_isSome_iff_eq_none.1 (Bool.eq_false_iff.1 hindex)

end Arena

end Slideshow

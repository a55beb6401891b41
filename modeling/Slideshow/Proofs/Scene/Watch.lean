/-
  Slideshow.Proofs.Scene.Watch

  Following one element through changes. A new text takes away what was inside an element, and
  what is found besides is found where it was (`Node.find?_empty`). An element can be followed by
  its place (`watch_place`), or by its handle if handles are unique (`watch_group`). Changes to
  other attributes than opacities and ids leave the element that is followed as opaque as it was,
  and the keys that named it still do (`Watch.makeAll`).
-/
import Slideshow.Proofs.Scene.Index
import Slideshow.Proofs.Scene.Spared

namespace Slideshow

namespace Node

variable {p : Tag → Bool} {value : String} {f : Tag → List Node → Node}

/-! ## What is found in some nodes -/

theorem listFind?_append {ns : List Node} {a : Address} (h : listFind? p ns = some a)
    (ms : List Node) : listFind? p (ns ++ ms) = some a := by
  induction ns generalizing a with
  | nil => cases h
  | cons n ns ih =>
    rw [List.cons_append, listFind?]
    rw [listFind?] at h
    cases hn : n.find? p with
    | some x =>
      rw [hn] at h
      exact h
    | none =>
      rw [hn] at h
      obtain ⟨b, hb, rfl⟩ := Option.map_eq_some_iff.1 h
      rw [ih hb, Option.map_some]

@[simp] theorem modify_text (s : String) (b : Address) : (text s).modify f b = text s := by
  cases b <;> rfl

/-! ## Emptying an element -/

/-- What an element becomes that gets a text. -/
def emptied (value : String) (tag : Tag) (_ : List Node) : Node := .element tag [.text value]

/-- Emptying an element adds no tags. -/
theorem mem_tags_of_empty {t : Tag} (b : Address) : ∀ n : Node,
    t ∈ (n.modify (emptied value) b).tags → t ∈ n.tags := by
  induction b with
  | nil =>
    intro n ht
    cases n with
    | text s => exact ht
    | element tag children =>
      simp only [modify, emptied, tags, listTags, List.append_nil, List.mem_singleton] at ht
      exact ht ▸ List.mem_cons_self
  | cons i is ih =>
    intro n ht
    cases n with
    | text s => exact ht
    | element tag children =>
      rw [modify, tags] at ht
      rw [tags]
      rcases List.mem_cons.1 ht with rfl | ht
      · exact List.mem_cons_self
      · refine List.mem_cons_of_mem _ ?_
        rw [listTags_eq_flatMap] at ht ⊢
        obtain ⟨m, hm, ht⟩ := List.mem_flatMap.1 ht
        obtain ⟨j, hj⟩ := List.mem_iff_getElem?.1 hm
        rw [List.getElem?_modify] at hj
        obtain ⟨c, hc, rfl⟩ := Option.map_eq_some_iff.1 hj
        refine List.mem_flatMap.2 ⟨c, List.mem_of_getElem? hc, ?_⟩
        split at ht
        · exact ih c ht
        · exact ht

theorem find?_empty_of_none {n : Node} (h : n.find? p = none) (b : Address) :
    (n.modify (emptied value) b).find? p = none := by
  rw [← Option.not_isSome_iff_eq_none, isSome_find?_iff] at h ⊢
  rintro ⟨t, ht, hp⟩
  exact h ⟨t, mem_tags_of_empty b n ht, hp⟩

/-- What is found first among some nodes stays the first, unless it is inside what is emptied. -/
theorem listFind?_empty {ns : List Node}
    (hns : ∀ n ∈ ns, ∀ a b, n.find? p = some a → (b <+: a → b = a) →
      (n.modify (emptied value) b).find? p = some a)
    {i : Nat} {is a : Address} (h : listFind? p ns = some a)
    (hoff : i :: is <+: a → i :: is = a) :
    listFind? p (ns.modify i (modify (emptied value) is)) = some a := by
  induction ns generalizing i a with
  | nil => cases h
  | cons n ns ih =>
    rw [listFind?] at h
    cases hn : n.find? p with
    | some x =>
      rw [hn] at h
      cases h
      cases i with
      | zero =>
        have hx := hns n List.mem_cons_self x is hn fun haround =>
          (List.cons.inj (hoff (List.cons_prefix_cons.2 ⟨rfl, haround⟩))).2
        rw [List.modify_zero_cons, listFind?, hx]
      | succ i => rw [List.modify_succ_cons, listFind?, hn]
    | none =>
      -- nothing is found in the first node, whether it is changed or not
      rw [hn] at h
      obtain ⟨c, hc, rfl⟩ := Option.map_eq_some_iff.1 h
      cases i with
      | zero =>
        rw [List.modify_zero_cons, listFind?, find?_empty_of_none hn, hc, Option.map_some]
      | succ i =>
        obtain ⟨j, js, _, rfl, _⟩ := exists_of_listFind? c hc
        have hoff' : i :: is <+: j :: js → i :: is = j :: js := by
          intro haround
          obtain ⟨hij, hinside⟩ := List.cons_prefix_cons.1 haround
          subst hij
          have heq := hoff (List.cons_prefix_cons.2 ⟨rfl, hinside⟩)
          rw [behind, List.cons.injEq] at heq
          rw [heq.2]
        have hrest := ih (fun m hm => hns m (List.mem_cons_of_mem _ hm)) hc hoff'
        rw [List.modify_succ_cons, listFind?, hn, hrest, Option.map_some]

/-- What is found first in a node stays the first, unless it is inside what is emptied. -/
theorem find?_empty (n : Node) : ∀ a b, n.find? p = some a → (b <+: a → b = a) →
    (n.modify (emptied value) b).find? p = some a := by
  induction n using Node.induction with
  | text s =>
    intro a b h
    cases h
  | element tag children ih =>
    intro a b h hoff
    rw [find?] at h
    cases b with
    | nil =>
      -- the whole is emptied, so what is found is the whole
      have ha : a = [] := (hoff List.nil_prefix).symm
      subst ha
      rw [modify, emptied, find?]
      split at h
      · rename_i hp
        rw [if_pos hp]
      · obtain ⟨_, _, _, hne, _⟩ := exists_of_listFind? [] h
        cases hne
    | cons i is =>
      rw [modify, find?]
      split at h
      · rename_i hp
        rw [if_pos hp, h]
      · rename_i hp
        rw [if_neg hp]
        exact listFind?_empty ih h hoff

/-! ## What stands at an address -/

/-- The tag of the element at an address. -/
def tagAt? (n : Node) (a : Address) : Option Tag := (n.at? a).bind tag?

theorem exists_of_tagAt? {n : Node} {a : Address} {t : Tag} (h : n.tagAt? a = some t) :
    ∃ children, n.at? a = some (element t children) := by
  obtain ⟨m, hm, ht⟩ := Option.bind_eq_some_iff.1 h
  cases m with
  | text => cases ht
  | element tag children =>
    cases ht
    exact ⟨children, hm⟩

theorem tagAt?_cons (n : Node) (i : Nat) (is : Address) :
    n.tagAt? (i :: is) = n.children[i]?.bind fun c => c.tagAt? is := by
  rw [tagAt?, at?]
  cases n.children[i]? <;> rfl

/-- Inside a node stands what stands in the whole behind its address. -/
theorem tagAt?_append {n m : Node} {o : Address} (h : n.at? o = some m) (a : Address) :
    n.tagAt? (o ++ a) = m.tagAt? a := by
  rw [tagAt?, at?_append, h, Option.bind_some, tagAt?]

/-- The skeleton has the same elements. -/
theorem tagAt?_skeleton (a : Address) : ∀ n : Node,
    n.skeleton.tagAt? a = (n.tagAt? a).map Tag.bare := by
  induction a with
  | nil => exact fun n => by cases n <;> rfl
  | cons i is ih =>
    intro n
    cases n with
    | text s => rfl
    | element tag children =>
      rw [skeleton_element, tagAt?, tagAt?, at?, at?, Node.children, Node.children]
      split
      · rw [List.getElem?_map]
        cases children[i]? with
        | none => rfl
        | some c => exact ih c
      · rename_i hnone
        cases hc : children[i]? with
        | none => rfl
        | some c =>
          -- the children are not kept, but they are texts
          cases c with
          | element => exact absurd (any_isElement_of_getElem? hc rfl) hnone
          | text s => cases is <;> rfl

theorem tagAt?_empty (a : Address) : ∀ (n : Node) (b : Address), (b <+: a → b = a) →
    (n.modify (emptied value) b).tagAt? a = n.tagAt? a := by
  induction a with
  | nil =>
    intro n b _
    cases n with
    | text s => rw [modify_text]
    | element tag children => cases b <;> rfl
  | cons j js ih =>
    intro n b hoff
    cases n with
    | text s => rw [modify_text]
    | element tag children =>
      cases b with
      | nil => cases hoff List.nil_prefix
      | cons i is =>
        rw [modify, tagAt?, at?_modify_child, tagAt?, at?, Node.children]
        cases children[j]? with
        | none => rfl
        | some c =>
          rw [Option.bind_some, Option.bind_some]
          by_cases hij : i = j
          · subst hij
            rw [if_pos rfl]
            exact ih c is fun haround =>
              (List.cons.inj (hoff (List.cons_prefix_cons.2 ⟨rfl, haround⟩))).2
          · rw [if_neg hij]

/-- Inside an emptied element there are no elements. -/
theorem tagAt?_inside {tag : Tag} {children : List Node} {n : Node} {b c : Address}
    (hat : n.at? b = some (element tag children)) (hc : c ≠ []) :
    (n.modify (emptied value) b).tagAt? (b ++ c) = none := by
  rw [tagAt?, at?_modify_append b n hat, emptied]
  cases c with
  | nil => exact absurd rfl hc
  | cons i is =>
    cases i with
    | zero => cases is <;> rfl
    | succ i => rfl

/-- Around a changed element stands the same, with the change inside. -/
theorem at?_modify_around (o : Address) : ∀ (n : Node) (b : Address),
    (n.modify f (o ++ b)).at? o = (n.at? o).map (modify f b) := by
  induction o with
  | nil => exact fun n b => rfl
  | cons j js ih =>
    intro n b
    cases n with
    | text s => rfl
    | element tag children =>
      rw [List.cons_append, modify, at?_modify_child, at?, Node.children]
      cases children[j]? with
      | none => rfl
      | some c =>
        rw [Option.bind_some, Option.bind_some, if_pos rfl]
        exact ih c b

/-- Beside a changed element stands the same. -/
theorem at?_modify_beside (o : Address) : ∀ (n : Node) (b : Address), ¬ b <+: o → ¬ o <+: b →
    (n.modify f b).at? o = n.at? o := by
  induction o with
  | nil => exact fun n b _ hnot => absurd List.nil_prefix hnot
  | cons j js ih =>
    intro n b hnot hnot'
    cases n with
    | text s => rw [modify_text]
    | element tag children =>
      cases b with
      | nil => exact absurd List.nil_prefix hnot
      | cons i is =>
        rw [modify, at?_modify_child, at?, Node.children]
        cases children[j]? with
        | none => rfl
        | some c =>
          rw [Option.bind_some, Option.bind_some]
          by_cases hij : i = j
          · subst hij
            rw [if_pos rfl]
            exact ih c is (fun h => hnot (List.cons_prefix_cons.2 ⟨rfl, h⟩))
              fun h => hnot' (List.cons_prefix_cons.2 ⟨rfl, h⟩)
          · rw [if_neg hij]

theorem cell?_attribute (n : Node) (a : Address) (name : String) :
    n.cell? ⟨a, .attribute name⟩ = (n.tagAt? a).bind fun t => t.get? name := by
  rw [cell?, tagAt?]
  cases n.at? a with
  | none => rfl
  | some m => cases m <;> rfl

end Node

namespace Scene

variable {s t : Scene} {key value : String} {a b : Node.Address} {tag : Tag} {children : List Node}

/-! ## What a new text leaves where it is -/

/-- The forest behind a new text: one element is emptied, and some nodes come last. -/
theorem forest_setText (hb : s.resolve? key = some b)
    (hat : s.forest.at? b = some (.element tag children)) (value : String) :
    ∃ ns, s.forest.modify (Node.emptied value) b = .element ⟨none, "", []⟩ ns ∧
      (s.setText key value).forest = .element ⟨none, "", []⟩ (ns ++ leftover children) ∧
      ns.length = s.detached.length + 1 := by
  obtain ⟨_, _, _, hne⟩ := exists_of_resolve? hb
  have hforest : (s.modify b (Node.emptied value)).forest =
      s.forest.modify (Node.emptied value) b := forest_modify hne hat rfl
  refine ⟨(s.modify b (Node.emptied value)).root :: (s.modify b (Node.emptied value)).detached,
    hforest.symm, ?_, ?_⟩
  · rw [setText_eq hb hat]
    rfl
  · cases b with
    | nil => exact absurd rfl hne
    | cons i is =>
      have hchildren := congrArg (fun n => (Node.children n).length) hforest
      -- as many nodes stand in the forest as before
      simp only [forest, Node.modify, Node.children, List.length_modify, List.length_cons]
        at hchildren
      rw [List.length_cons, hchildren]

/-- What stands in the tree, or has been taken out of it before, is where it was. -/
theorem at?_forest_setText (hb : s.resolve? key = some b)
    (hat : s.forest.at? b = some (.element tag children)) (value : String) {i : Nat}
    {is : Node.Address} (hi : i ≤ s.detached.length) :
    (s.setText key value).forest.at? (i :: is) =
      (s.forest.modify (Node.emptied value) b).at? (i :: is) := by
  obtain ⟨ns, hmodify, hforest, hlength⟩ := forest_setText hb hat value
  rw [hmodify, hforest, Node.at?, Node.at?, Node.children, Node.children,
    List.getElem?_append_left (by omega)]

theorem exists_cons_of_at? {n : Node} (ha : a ≠ []) (hat : s.forest.at? a = some n) :
    ∃ i is, a = i :: is ∧ i ≤ s.detached.length := by
  cases a with
  | nil => exact absurd rfl ha
  | cons i is =>
    obtain ⟨c, hc, _⟩ := Option.bind_eq_some_iff.1 hat
    have hlt : i < (s.root :: s.detached).length := (List.getElem?_eq_some_iff.1 hc).1
    rw [List.length_cons] at hlt
    exact ⟨i, is, rfl, by omega⟩

/-- What is found under a handle is found where it was, unless it was inside the new text. -/
theorem handleAddress?_setText (hb : s.resolve? key = some b) (value : String) {k : String}
    (ha : s.handleAddress? k = some a) (hoff : b <+: a → b = a) :
    (s.setText key value).handleAddress? k = some a := by
  obtain ⟨tag, children, hat, _⟩ := exists_of_resolve? hb
  obtain ⟨ns, hmodify, hforest, _⟩ := forest_setText hb hat value
  have hfind := @Node.find?_empty _ value s.forest a b ha hoff
  have hnot : ¬ ((⟨none, "", []⟩ : Tag).handle == some k) = true := Bool.false_ne_true
  rw [hmodify, Node.find?, if_neg hnot] at hfind
  rw [handleAddress?, hforest, Node.find?, if_neg hnot]
  exact Node.listFind?_append hfind _

/-- No new handles come with a text. -/
theorem handleAddress?_setText_of_none (hb : s.resolve? key = some b) (value : String)
    {k : String} (hnone : s.handleAddress? k = none) :
    (s.setText key value).handleAddress? k = none := by
  obtain ⟨tag, children, hat, _⟩ := exists_of_resolve? hb
  have hcount := countP_forest_setText hb hat value (Tag.holds k)
  have hle := countP_leftover_le k children
  have hzero : s.forest.tags.countP (Tag.holds k) = 0 := by
    rw [← beq_iff_eq, ← isNone_handleAddress?, hnone]
    rfl
  have hzero' : (s.setText key value).forest.tags.countP (Tag.holds k) = 0 := by omega
  rw [← Option.isNone_iff_eq_none, isNone_handleAddress?, hzero']
  rfl

/-- What stands around a shape is not inside a new text, or the shape would be too. -/
theorem not_prefix_of_shapeInside? {o : Node.Address} (ha : s.shapeInside? o = some a)
    (hoff : b <+: a → b = a) : ¬ b <+: o := by
  intro haround
  obtain ⟨n, _, ha⟩ := Option.bind_eq_some_iff.1 ha
  obtain ⟨c, hc, rfl⟩ := Option.map_eq_some_iff.1 ha
  obtain ⟨_, _, _, rfl, _⟩ := Node.exists_of_listFind? c hc
  have heq := hoff (haround.trans (List.prefix_append _ _))
  have hlength := haround.length_le
  rw [heq, List.length_append, List.length_cons] at hlength
  omega

/-- The first shape inside an element stays the first, unless it was inside the new text. -/
theorem shapeInside?_setText (hb : s.resolve? key = some b) (value : String)
    {o : Node.Address} (ho : o ≠ []) (ha : s.shapeInside? o = some a)
    (hoff : b <+: a → b = a) : (s.setText key value).shapeInside? o = some a := by
  have hnot := not_prefix_of_shapeInside? ha hoff
  obtain ⟨tag, children, hat, _⟩ := exists_of_resolve? hb
  obtain ⟨n, hn, ha⟩ := Option.bind_eq_some_iff.1 ha
  obtain ⟨c, hc, rfl⟩ := Option.map_eq_some_iff.1 ha
  obtain ⟨i, is, rfl, hi⟩ := exists_cons_of_at? ho hn
  rw [shapeInside?, at?_forest_setText hb hat value hi]
  -- the new text is inside the same element, or beside it
  by_cases hinside : i :: is <+: b
  · obtain ⟨d, rfl⟩ := hinside
    rw [Node.at?_modify_around, hn, Option.map_some, Option.bind_some]
    cases n with
    | text => cases hc
    | element tag' children' =>
      cases d with
      | nil =>
        rw [List.append_nil] at hnot
        exact absurd (List.prefix_refl _) hnot
      | cons j js =>
        have hfind : Node.listFind? Tag.isShape
            (children'.modify j (Node.modify (Node.emptied value) js)) = some c := by
          refine Node.listFind?_empty (fun m _ => Node.find?_empty m) hc fun haround => ?_
          have heq := hoff ((List.prefix_append_right_inj _).2 haround)
          exact List.append_cancel_left heq
        rw [Node.modify, Node.children, hfind, Option.map_some]
  · rw [Node.at?_modify_beside _ _ _ hnot hinside, hn, Option.bind_some, hc, Option.map_some]

/-- A key names what it named, unless that was inside the new text. -/
theorem resolve?_setText (hb : s.resolve? key = some b) (value : String) {k : String}
    (ha : s.resolve? k = some a) (hoff : b <+: a → b = a) :
    (s.setText key value).resolve? k = some a := by
  rw [resolve?] at ha
  split at ha
  · rename_i a' hhandle
    cases ha
    exact resolve?_of_handleAddress? (handleAddress?_setText hb value hhandle hoff)
  · rename_i hnone
    obtain ⟨owner, howner, ha⟩ := Option.bind_eq_some_iff.1 ha
    obtain ⟨o, ho, ha⟩ := Option.bind_eq_some_iff.1 ha
    obtain ⟨_, _, _, hne⟩ := exists_of_handleAddress? ho
    -- the owner stands around its shape, and so is not inside the new text either
    have howner' : (s.setText key value).handleAddress? owner = some o := by
      exact handleAddress?_setText hb value ho fun haround =>
        absurd haround (not_prefix_of_shapeInside? ha hoff)
    rw [resolve?, handleAddress?_setText_of_none hb value hnone]
    simp only [howner, Option.bind_some, howner']
    exact shapeInside?_setText hb value hne ha hoff

/-- What is taken out of the tree is never put back. -/
theorem length_detached_le (s : Scene) (ch : Change) :
    s.detached.length ≤ (Stage.make s ch).detached.length := by
  cases hcell : ch.cell? s with
  | none =>
    have hsame := congrArg (fun t => t.detached.length) (make_of_cell?_none hcell)
    exact Nat.le_of_eq hsame.symm
  | some c =>
    cases ch with
    | camera => exact Nat.le_refl _
    | text key value =>
      obtain ⟨b, hb, _⟩ := Option.map_eq_some_iff.1 hcell
      obtain ⟨tag, children, hat, _⟩ := exists_of_resolve? hb
      obtain ⟨ns, _, hforest, hlength⟩ := forest_setText hb hat value
      have hchildren := congrArg (fun n => (Node.children n).length) hforest
      simp only [forest, Node.children, List.length_cons, List.length_append] at hchildren
      show s.detached.length ≤ (s.setText key value).detached.length
      omega
    | _ key name value =>
      obtain ⟨b, hb, _⟩ := Option.map_eq_some_iff.1 hcell
      obtain ⟨tag, children, hat, hne⟩ := exists_of_resolve? hb
      have hforest := forest_modify
        (f := fun tag children => .element (s.retag b name value tag) children) hne hat rfl
      rw [← make_attribute_eq hb] at hforest
      cases b with
      | nil => exact absurd rfl hne
      | cons i is =>
        have hchildren := congrArg (fun n => (Node.children n).length) hforest
        simp only [forest, Node.modify, Node.children, List.length_modify, List.length_cons]
          at hchildren
        omega

/-- An element behind a new text was there before, with the same tag; it may have been taken out of
    the tree. -/
theorem exists_of_holds_setText (hu : s.Unique) (hb : s.resolve? key = some b) (value : String)
    {k : String} (hk : (s.setText key value).handleAddress? k = some a) :
    ∃ c, s.handleAddress? k = some c ∧
      (s.setText key value).forest.tagAt? a = s.forest.tagAt? c := by
  obtain ⟨tag, children, hat, _⟩ := exists_of_resolve? hb
  obtain ⟨tag', children', hat', hholds⟩ := Node.exists_of_find? _ a hk
  let same : Tag → Bool := fun t => decide (t = tag')
  -- the tag is not among those that are released, so there are no more of it than before
  have hleft : (Node.listTags (leftover children)).countP same ≤
      (Node.listTags children).countP same := by
    have hsub : (Node.listTags (leftover children)).Sublist
        (Node.listTags (Node.listMapTags Tag.release children)) :=
      Node.listTags_filter_sublist _ _
    refine Nat.le_trans hsub.countP_le ?_
    rw [listTags_listMapTags, List.countP_map]
    refine List.countP_mono_left fun t _ ht => ?_
    have hrelease : t.release = tag' := of_decide_eq_true ht
    refine decide_eq_true ?_
    unfold Tag.release at hrelease
    split at hrelease
    · rw [← hrelease] at hholds
      cases hholds
    · exact hrelease
  have hcount := countP_forest_setText hb hat value same
  have hpos : 0 < (s.setText key value).forest.tags.countP same :=
    List.countP_pos_iff.2
      ⟨tag', Node.mem_tags_of_at? hat' List.mem_cons_self, decide_eq_true rfl⟩
  have hbefore : 0 < s.forest.tags.countP same := by omega
  -- so it was there before, and as handles are unique it is the one that is found
  obtain ⟨c, hc⟩ := Option.isSome_iff_exists.1
    ((Node.isSome_find?_iff s.forest).2 (List.countP_pos_iff.1 hbefore))
  obtain ⟨tag'', children'', hat'', heq⟩ := Node.exists_of_find? _ c hc
  obtain rfl : tag'' = tag' := of_decide_eq_true heq
  refine ⟨c, handleAddress?_of_at? hu hat'' hholds, ?_⟩
  rw [Node.tagAt?, Node.tagAt?, hat', hat'']
  rfl

/-! ## Watches -/

/-- A way to follow one element through changes. Where it is found behind a new text, it was found
    before, with the same attributes, and what named it still does. -/
structure Watch (groups : List String) (Fit : Scene → Prop)
    (find? : Scene → Option Node.Address) : Prop where
  fit : ∀ s ch, Fit s → Fit (Stage.make s ch)
  congr : ∀ s t : Scene, s.skeleton = t.skeleton → find? s = find? t
  setText : ∀ (s : Scene) key value b a, Fit s → s.resolve? key = some b →
    find? (s.setText key value) = some a → ∃ c, find? s = some c ∧
      (s.setText key value).forest.tagAt? a = s.forest.tagAt? c ∧
      ∀ g ∈ groups, s.resolve? g = some c → (s.setText key value).resolve? g = some a

/-- An element can be followed by its place, unless it is one that will be taken out of the tree. -/
theorem watch_place (groups : List String) (i : Nat) (is : Node.Address) :
    Watch groups (fun s => i ≤ s.detached.length)
      fun s => (s.forest.tagAt? (i :: is)).map fun _ => i :: is where
  fit s ch hi := Nat.le_trans hi (length_detached_le s ch)
  congr s t h := by
    have hplace : ∀ s : Scene, (s.forest.tagAt? (i :: is)).map (fun _ => i :: is) =
        (s.skeleton.tagAt? (i :: is)).map fun _ => i :: is := by
      intro s
      rw [skeleton, Node.tagAt?_skeleton, Option.map_map]
      rfl
    rw [hplace, hplace, h]
  setText s key value b a hi hb ha := by
    obtain ⟨tag, hat, rfl⟩ := Option.map_eq_some_iff.1 ha
    obtain ⟨tag', children, hat', _⟩ := exists_of_resolve? hb
    have hsame : (s.setText key value).forest.tagAt? (i :: is) =
        (s.forest.modify (Node.emptied value) b).tagAt? (i :: is) := by
      rw [Node.tagAt?, at?_forest_setText hb hat' value hi, Node.tagAt?]
    have hoff : b <+: i :: is → b = i :: is := by
      -- inside the new text there would be no element
      rintro ⟨c, hc⟩
      cases c with
      | nil => rw [← hc, List.append_nil]
      | cons j js =>
        rw [hsame, ← hc, Node.tagAt?_inside hat' (List.cons_ne_nil j js)] at hat
        cases hat
    rw [Node.tagAt?_empty _ _ _ hoff] at hsame
    refine ⟨i :: is, ?_, hsame, fun g _ hg => resolve?_setText hb value hg hoff⟩
    rw [← hsame, hat, Option.map_some]

/-- An element can be followed by its handle. -/
theorem watch_group {groups : List String} {group : String} (hgroup : group ∈ groups)
    (hplain : ∀ g ∈ groups, Text.stripEnding? shapeEnding g = none) :
    Watch groups Unique fun s => s.resolve? group where
  fit s ch hu := hu.make ch
  congr s t h := resolve?_congr h group
  setText s key value b a hu hb ha := by
    have hresolve : ∀ (s : Scene), ∀ g ∈ groups, s.resolve? g = s.handleAddress? g := by
      intro s g hg
      rw [resolve?, hplain g hg]
      cases s.handleAddress? g <;> rfl
    rw [hresolve _ _ hgroup] at ha
    obtain ⟨c, hc, htag⟩ := exists_of_holds_setText hu hb value ha
    refine ⟨c, (hresolve _ _ hgroup).trans hc, htag, fun g hg hgc => ?_⟩
    -- an element has one handle, so the key is the same
    rw [hresolve _ _ hg] at hgc
    obtain ⟨tag, children, hat, hholds⟩ := Node.exists_of_find? _ c hc
    have hholds' := holds_of_handleAddress? hgc hat
    obtain rfl : group = g :=
      Option.some.inj ((eq_of_beq hholds).symm.trans (eq_of_beq hholds'))
    exact (hresolve _ _ hgroup).trans ha

/-- The watched element has the opacity that it had, and what named it still does. -/
def Follows (groups : List String) (find? : Scene → Option Node.Address) (s t : Scene) : Prop :=
  ∀ b, find? t = some b → ∃ a, find? s = some a ∧
    t.cell? ⟨b, .attribute "opacity"⟩ = s.cell? ⟨a, .attribute "opacity"⟩ ∧
    ∀ g ∈ groups, s.resolve? g = some a → t.resolve? g = some b

end Scene

/-- The change is about no opacity and no id, whatever its key names. -/
def Change.Modest (ch : Change) : Prop :=
  ∀ s c, ch.cell? s = some c → c.part ≠ .attribute "opacity" ∧ c.part ≠ .attribute "id"

namespace Scene

section Follows

variable {s t : Scene} {groups : List String} {Fit : Scene → Prop}
  {find? : Scene → Option Node.Address}

theorem Follows.refl (s : Scene) : Follows groups find? s s :=
  fun b hb => ⟨b, hb, rfl, fun _ _ hg => hg⟩

theorem Follows.trans {u : Scene} (h : Follows groups find? s t) (h' : Follows groups find? t u) :
    Follows groups find? s u := by
  intro c hc
  obtain ⟨b, hb, hcell', hnames'⟩ := h' c hc
  obtain ⟨a, ha, hcell, hnames⟩ := h b hb
  exact ⟨a, ha, hcell'.trans hcell, fun g hg hga => hnames' g hg (hnames g hg hga)⟩

/-- A change that keeps the skeleton leads nothing away. -/
theorem Watch.follows_of_rewritten (h : Watch groups Fit find?) {at? : Option Cell}
    {value : Option String} (hmade : Rewritten s at? value t)
    (hat : ∀ a, at? ≠ some ⟨a, .attribute "opacity"⟩) : Follows groups find? s t := by
  intro b hb
  refine ⟨b, ?_, hmade.other _ (hat b), fun g _ hg => ?_⟩
  · rw [← h.congr t s hmade.skeleton]
    exact hb
  · rw [resolve?_congr hmade.skeleton]
    exact hg

theorem Watch.make (h : Watch groups Fit find?) (hfit : Fit s) {ch : Change} (hch : ch.Modest) :
    Follows groups find? s (Stage.make s ch) := by
  have hopacity : ∀ a, ch.cell? s ≠ some ⟨a, .attribute "opacity"⟩ :=
    fun a ha => (hch s _ ha).1 rfl
  cases ch with
  | text key value =>
    cases hb : s.resolve? key with
    | none =>
      have hnone : (Change.text key value).cell? s = none := Option.map_eq_none_iff.2 hb
      rw [make_of_cell?_none hnone]
      exact .refl s
    | some b =>
      intro a ha
      obtain ⟨c, hc, htag, hnames⟩ := h.setText s key value b a hfit hb ha
      refine ⟨c, hc, ?_, hnames⟩
      rw [cell?, Node.cell?_attribute, cell?, Node.cell?_attribute]
      exact congrArg (fun t => t.bind fun t => t.get? "opacity") htag
  | camera frame => exact h.follows_of_rewritten (rewritten_camera s frame) hopacity
  | _ key name value =>
    have hplain : (Change.attribute key name value).Plain s := by
      intro hkey
      obtain ⟨a, ha⟩ := Option.isSome_iff_exists.1 hkey
      rintro rfl
      exact (hch s ⟨a, .attribute "id"⟩ (by rw [Change.cell?, ha, Option.map_some])).2 rfl
    exact h.follows_of_rewritten (rewritten_make hplain) hopacity

/-- Modest changes leave a watched element as opaque as it was. -/
theorem Watch.makeAll (h : Watch groups Fit find?) {chs : List Change} (hfit : Fit s)
    (hchs : ∀ ch ∈ chs, ch.Modest) : Follows groups find? s (Stage.makeAll s chs) := by
  induction chs generalizing s with
  | nil => exact .refl s
  | cons ch chs ih =>
    refine (h.make hfit (hchs ch List.mem_cons_self)).trans ?_
    exact ih (h.fit s ch hfit) fun ch' hch' => hchs ch' (List.mem_cons_of_mem _ hch')

theorem Watch.fit_makeAll (h : Watch groups Fit find?) (hfit : Fit s) (chs : List Change) :
    Fit (Stage.makeAll s chs) := by
  induction chs generalizing s with
  | nil => exact hfit
  | cons ch chs ih => exact ih (h.fit s ch hfit)

end Follows

end Scene

end Slideshow

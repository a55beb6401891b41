/-
  Slideshow.Proofs.Scene.Inside

  What a new text takes out of a diagram. Where no element has two ids, and no change writes one,
  every element that is found bears the id that it is found under, and stands in the tree
  (`Tidy`). A text that is set then takes away what was strictly inside the element, and nothing
  else: ids that stood elsewhere are listed in the same order, on elements with the same tags,
  and with the same texts unless the new text is inside (`Tidy.ids_setText`).
-/
import Slideshow.Proofs.Scene.Import
import Slideshow.Proofs.Scene.Watch

namespace Slideshow

/-- What stands before an ending is what the ending was added to. -/
theorem Text.stripEnding?_eq_some_iff {ending s t : String} :
    stripEnding? ending s = some t ↔ s = t ++ ending := by
  rw [stripEnding?, beforeEnding?]
  constructor
  · intro h
    split at h
    · rename_i hsuffix
      obtain ⟨before, hbefore⟩ := List.isSuffixOf_iff_suffix.1 hsuffix
      rw [← hbefore, List.length_append, Nat.add_sub_cancel, List.take_left, Option.map_some] at h
      cases h
      exact String.toList_injective (by rw [String.toList_append, String.toList_ofList, hbefore])
    · cases h
  · rintro rfl
    have hsuffix : ending.toList <:+ (t ++ ending).toList := by
      rw [String.toList_append]
      exact List.suffix_append _ _
    rw [if_pos (List.isSuffixOf_iff_suffix.2 hsuffix), String.toList_append, List.length_append,
      Nat.add_sub_cancel, List.take_left, Option.map_some, String.ofList_toList]

/-! ## Changes that write no id -/

/-- The change writes no id. -/
def Change.SparesIds : Change → Prop
  | .attribute _ name _ => name ≠ "id"
  | _ => True

instance : (ch : Change) → Decidable ch.SparesIds
  | .text _ _ => .isTrue trivial
  | .attribute _ name _ => inferInstanceAs (Decidable (name ≠ "id"))
  | .camera _ => .isTrue trivial

namespace Tag

theorem mem_setIn_iff {name value : String} {a : String × String} (ha : a.1 ≠ name) :
    ∀ attrs : List (String × String), a ∈ setIn name value attrs ↔ a ∈ attrs
  | [] => by
    rw [setIn, List.mem_singleton]
    exact iff_of_false (fun h => ha (by rw [h])) List.not_mem_nil
  | b :: rest => by
    rw [setIn]
    split
    · rename_i hb
      have hne : a ≠ b := fun h => ha (by rw [h, hb])
      have hne' : a ≠ (name, value) := fun h => ha (by rw [h])
      simp only [List.mem_cons, hne, hne', false_or]
    · rw [List.mem_cons, List.mem_cons, mem_setIn_iff ha rest]

/-- A written attribute leaves those of other names. -/
theorem mem_attrs_write_iff {name : String} {a : String × String} (ha : a.1 ≠ name)
    (value : Option String) (t : Tag) : a ∈ (t.write name value).attrs ↔ a ∈ t.attrs := by
  cases value with
  | none => simp [write, erase, ha]
  | some value => exact mem_setIn_iff ha t.attrs

/-- The id under which the element is found stands in it behind another one. -/
def isHidden (t : Tag) : Bool :=
  t.handle.any fun k => t.attrs.contains ("id", k) && !t.bears k

theorem isHidden_write {name : String} (hid : name ≠ "id") (value : Option String) (t : Tag) :
    (t.write name value).isHidden = t.isHidden := by
  have hmem : ∀ k, (t.write name value).attrs.contains ("id", k) = t.attrs.contains ("id", k) := by
    intro k
    rw [Bool.eq_iff_iff, List.contains_iff_mem, List.contains_iff_mem]
    exact mem_attrs_write_iff (fun h => hid h.symm) value t
  simp only [isHidden, handle_write, hmem, bears, id?_write hid]

/-- Only what is found under the id that it bears is released. -/
theorem isHidden_release (t : Tag) : t.release.isHidden = t.isHidden := by
  unfold release
  split
  · rename_i hindexed
    obtain ⟨k, hk⟩ := Option.isSome_iff_exists.1 (Bool.and_eq_true_iff.1 hindexed).1
    have hlists := lists_of_isIndexed hindexed hk
    have hbears : t.bears k = true := (Bool.and_eq_true_iff.1 hlists).2
    simp only [isHidden, hk, Option.any_some, hbears, Bool.not_true, Bool.and_false,
      Option.any_none]
  · rfl

/-- Among attributes with different names, each one is found under its name. -/
theorem get?_of_mem {t : Tag} (h : (t.attrs.map (·.1)).Nodup) {a : String × String}
    (ha : a ∈ t.attrs) : t.get? a.1 = some a.2 := by
  rw [get?]
  induction htags : t.attrs generalizing t with
  | nil => rw [htags] at ha; cases ha
  | cons b rest ih =>
    rw [htags] at h ha
    rw [List.map_cons, List.nodup_cons] at h
    rw [List.find?_cons]
    rcases List.mem_cons.1 ha with rfl | ha
    · rw [BEq.rfl]
      rfl
    · -- the attribute in front has another name
      have hne : b.1 ≠ a.1 := fun heq => h.1 (heq ▸ List.mem_map_of_mem ha)
      rw [beq_false_of_ne hne]
      exact ih (t := { t with attrs := rest }) h.2 ha rfl

/-- Where no two attributes have the same name, no id is hidden. -/
theorem isHidden_of_nodup {t : Tag} (h : (t.attrs.map (·.1)).Nodup) : t.isHidden = false := by
  rw [isHidden, Option.any_eq_false]
  intro k _
  cases hmem : t.attrs.contains ("id", k) with
  | false => rfl
  | true =>
    have hget : t.id? = some k := get?_of_mem h (List.contains_iff_mem.1 hmem)
    rw [bears, hget, BEq.rfl]
    rfl

end Tag

namespace Scene

variable {s : Scene} {key k value : String} {a b : Node.Address} {tag : Tag} {children : List Node}
  {ch : Change}

theorem namespaces_setText (s : Scene) (key value : String) :
    (s.setText key value).namespaces = s.namespaces := by
  unfold setText
  split
  · rfl
  · exact namespaces_modify s _ _

/-- An attribute other than the id is written into the tag. -/
theorem make_attribute_of_ne {name : String} (hid : name ≠ "id") (ha : s.resolve? key = some a)
    (value : Option String) : Stage.make s (.attribute key name value) =
      s.modify a fun tag children => .element (tag.write name value) children := by
  rw [make_attribute_eq ha]
  simp only [retag_eq_write hid]

/-- What a change that writes no id can do: nothing, set a text, or write an attribute. -/
theorem make_cases (hch : ch.SparesIds) :
    Stage.make s ch = s ∨
    (∃ key value a tag children, s.resolve? key = some a ∧
      s.forest.at? a = some (.element tag children) ∧ Stage.make s ch = s.setText key value) ∨
    (∃ name value a tag children, name ≠ "id" ∧ a ≠ [] ∧
      s.forest.at? a = some (.element tag children) ∧
      Stage.make s ch =
        s.modify a fun tag children => .element (tag.write name value) children) := by
  cases hcell : ch.cell? s with
  | none => exact .inl (make_of_cell?_none hcell)
  | some c =>
    cases ch with
    | text key value =>
      obtain ⟨a, ha, _⟩ := Option.map_eq_some_iff.1 hcell
      obtain ⟨tag, children, hat, _⟩ := exists_of_resolve? ha
      exact .inr (.inl ⟨key, value, a, tag, children, ha, hat, rfl⟩)
    | camera frame =>
      exact .inr (.inr ⟨"viewBox", some frame.viewBox, [0], s.tag, s.children, by decide,
        List.cons_ne_nil _ _, rfl, rfl⟩)
    | _ key name value =>
      have hid : name ≠ "id" := hch
      obtain ⟨a, ha, _⟩ := Option.map_eq_some_iff.1 hcell
      obtain ⟨tag, children, hat, hne⟩ := exists_of_resolve? ha
      exact .inr (.inr ⟨name, value, a, tag, children, hid, hne, hat,
        make_attribute_of_ne hid ha value⟩)

/-! ## Hidden ids -/

theorem countP_isHidden_leftover (inside : List Node) :
    (Node.listTags (leftover inside)).countP Tag.isHidden =
      (Node.listTags inside).countP Tag.isHidden := by
  have hmap : (Node.listTags (Node.listMapTags Tag.release inside)).countP Tag.isHidden =
      (Node.listTags inside).countP Tag.isHidden := by
    rw [listTags_listMapTags, List.countP_map]
    exact List.countP_congr fun t _ => by rw [Function.comp_apply, Tag.isHidden_release]
  rw [← hmap, leftover]
  -- a node without handles has no hidden id either
  induction Node.listMapTags Tag.release inside with
  | nil => rfl
  | cons n ns ih =>
    rw [List.filter_cons]
    split
    · rw [Node.listTags, Node.listTags, List.countP_append, List.countP_append, ih]
    · rename_i hnone
      have hzero : n.tags.countP Tag.isHidden = 0 := by
        refine List.countP_eq_zero.2 fun t ht hhidden => hnone (List.any_eq_true.2 ⟨t, ht, ?_⟩)
        rw [Tag.isHidden] at hhidden
        cases hk : t.handle with
        | none => rw [hk] at hhidden; cases hhidden
        | some k => rfl
      rw [ih, Node.listTags, List.countP_append, hzero, Nat.zero_add]

/-- Ids that are not written stay hidden, or not. -/
theorem countP_isHidden_make (hch : ch.SparesIds) :
    (Stage.make s ch).forest.tags.countP Tag.isHidden = s.forest.tags.countP Tag.isHidden := by
  rcases make_cases (s := s) hch with h | ⟨key, value, a, tag, children, ha, hat, h⟩ |
    ⟨name, value, a, tag, children, hid, hne, hat, h⟩
  · rw [h]
  · have hcount := countP_forest_setText ha hat value Tag.isHidden
    rw [countP_isHidden_leftover] at hcount
    rw [h]
    omega
  · have hcount := countP_forest_retag hne hat (Tag.write name value) Tag.isHidden
    rw [Tag.isHidden_write hid] at hcount
    rw [h]
    omega

theorem countP_isHidden_makeAll {chs : List Change} (hchs : ∀ ch ∈ chs, ch.SparesIds) :
    (Stage.makeAll s chs).forest.tags.countP Tag.isHidden =
      s.forest.tags.countP Tag.isHidden := by
  induction chs generalizing s with
  | nil => rfl
  | cons ch chs ih =>
    rw [Stage.makeAll_cons, ih fun ch' hch' => hchs ch' (List.mem_cons_of_mem _ hch'),
      countP_isHidden_make (hchs ch List.mem_cons_self)]

/-! ## Tidy scenes -/

/-- Every element that is found stands in the tree, alone under the id that it bears. -/
structure Tidy (s : Scene) : Prop where
  unique : s.Unique
  detached : s.detached = []
  listed : ∀ t ∈ s.root.tags, ∀ k, t.holds k = true → t.lists k = true

theorem Tidy.exists_cons (h : s.Tidy) {n : Node} (ha : a ≠ []) (hat : s.forest.at? a = some n) :
    ∃ is, a = 0 :: is ∧ s.root.at? is = some n := by
  obtain ⟨i, is, rfl, hi⟩ := exists_cons_of_at? ha hat
  rw [h.detached] at hi
  obtain rfl : i = 0 := Nat.le_zero.1 hi
  exact ⟨is, rfl, hat⟩

theorem Tidy.leftover_eq_nil (h : s.Tidy) {is : Node.Address}
    (hat : s.root.at? is = some (.element tag children)) : leftover children = [] :=
  Scene.leftover_eq_nil fun t ht =>
    h.listed t (Node.mem_tags_of_at? hat (List.mem_cons_of_mem _ ht))

/-- A key names an element of the tree. -/
theorem Tidy.exists_of_resolve? (h : s.Tidy) (hkey : s.resolve? key = some a) :
    ∃ is tag children, a = 0 :: is ∧ s.root.at? is = some (.element tag children) := by
  obtain ⟨tag, children, hat, hne⟩ := Scene.exists_of_resolve? hkey
  obtain ⟨is, rfl, hroot⟩ := h.exists_cons hne hat
  exact ⟨is, tag, children, rfl, hroot⟩

/-- A new text empties the element and leaves nothing behind. -/
theorem Tidy.root_setText (h : s.Tidy) {is : Node.Address}
    (hkey : s.resolve? key = some (0 :: is)) (value : String) :
    (s.setText key value).root = s.root.modify (Node.emptied value) is ∧
      (s.setText key value).detached = [] := by
  obtain ⟨_, tag, children, heq, hroot⟩ := h.exists_of_resolve? hkey
  cases heq
  have hset := setText_eq hkey hroot value
  rw [h.leftover_eq_nil hroot, List.append_nil] at hset
  have hmodify := root_modify (f := Node.emptied value) hroot rfl
  rw [hset]
  exact ⟨hmodify.1, hmodify.2.trans h.detached⟩

theorem Tidy.setText (h : s.Tidy) (hkey : s.resolve? key = some a) (value : String) :
    (s.setText key value).Tidy := by
  obtain ⟨is, _, _, rfl, _⟩ := h.exists_of_resolve? hkey
  obtain ⟨hroot, hdetached⟩ := h.root_setText hkey value
  refine ⟨h.unique.make (.text key value), hdetached, fun t ht => h.listed t ?_⟩
  rw [hroot] at ht
  exact Node.mem_tags_of_empty is _ ht

/-- Changes that write no id keep a scene tidy. -/
theorem Tidy.make (h : s.Tidy) (hch : ch.SparesIds) : (Stage.make s ch).Tidy := by
  rcases make_cases (s := s) hch with heq | ⟨key, value, a, tag, children, ha, hat, heq⟩ |
    ⟨name, value, a, tag, children, hid, hne, hat, heq⟩
  · rw [heq]
    exact h
  · rw [heq]
    exact h.setText ha value
  · obtain ⟨is, rfl, hroot⟩ := h.exists_cons hne hat
    have hmodify :=
      root_modify (f := fun tag children => .element (tag.write name value) children) hroot rfl
    refine ⟨h.unique.make ch, by rw [heq, hmodify.2, h.detached], fun t ht k hk => ?_⟩
    rw [heq, hmodify.1] at ht
    rcases Node.mem_tags_of_retag hroot ht with ht | ⟨u, hu, rfl⟩
    · exact h.listed t ht k hk
    · have hlists : (u.write name value).lists k = u.lists k := by
        rw [Tag.lists, Tag.holds_write, Tag.bears, Tag.id?_write hid, Tag.lists, Tag.bears]
      rw [Tag.holds_write] at hk
      rw [hlists]
      exact h.listed u hu k hk

theorem Tidy.makeAll {chs : List Change} (h : s.Tidy) (hchs : ∀ ch ∈ chs, ch.SparesIds) :
    (Stage.makeAll s chs).Tidy := by
  induction chs generalizing s with
  | nil => exact h
  | cons ch chs ih =>
    exact ih (h.make (hchs ch List.mem_cons_self)) fun ch' hch' =>
      hchs ch' (List.mem_cons_of_mem _ hch')

end Scene

/-! ## Ids that come from a document -/

section Document

open Markup (Tree Document Scope)

mutual

/-- The handle of an element stands in it as an id. -/
theorem handle_mem_ofTree (declared : Scope) : ∀ (t : Tree) (taken : List String),
    ∀ tag ∈ (Node.ofTree declared taken t).1.tags, ∀ k, tag.handle = some k →
      ("id", k) ∈ tag.attrs
  | .text s, taken, tag, htag, k, hk => by cases htag
  | .element name attrs children, taken, tag, htag, k, hk => by
    rw [ofTree_element, Node.tags] at htag
    rcases List.mem_cons.1 htag with rfl | htag
    · have hown : elementKey? attrs = some k := (Option.filter_eq_some_iff.1 hk).1
      obtain ⟨a, ha, rfl⟩ := Option.map_eq_some_iff.1 hown
      have hname := List.find?_some ha
      exact List.mem_map.2 ⟨a, List.mem_of_find?_eq_some ha, by rw [eq_of_beq hname]; rfl⟩
    · exact handle_mem_ofTrees declared children taken tag htag k hk

theorem handle_mem_ofTrees (declared : Scope) : ∀ (ts : List Tree) (taken : List String),
    ∀ tag ∈ Node.listTags (Node.ofTrees declared taken ts).1, ∀ k, tag.handle = some k →
      ("id", k) ∈ tag.attrs
  | [], taken, tag, htag, k, hk => by cases htag
  | t :: ts, taken, tag, htag, k, hk => by
    rw [ofTrees_cons, Node.listTags] at htag
    rcases List.mem_append.1 htag with htag | htag
    · exact handle_mem_ofTree declared t taken tag htag k hk
    · exact handle_mem_ofTrees declared ts _ tag htag k hk

end

namespace Scene

/-- A new scene is tidy if no id is hidden in it. -/
theorem tidy_ofDocument {d : Document}
    (h : (ofDocument d).forest.tags.countP Tag.isHidden = 0) : (ofDocument d).Tidy := by
  refine ⟨unique_ofDocument d, rfl, fun t ht k hk => ?_⟩
  have hforest : t ∈ (ofDocument d).forest.tags := by
    rw [tags_forest]
    exact List.mem_cons_of_mem _ (List.mem_append_left _ ht)
  have hshown := List.countP_eq_zero.1 h t hforest
  rw [root_ofDocument] at ht
  have hmem := List.contains_iff_mem.2 (handle_mem_ofTree d.declared _ [] t ht k (eq_of_beq hk))
  rw [Tag.isHidden, eq_of_beq hk, Option.any_some, hmem, Bool.true_and, Bool.not_eq_true',
    Bool.not_eq_false] at hshown
  rw [Tag.lists, hk, hshown, Bool.and_self]

/-- No element has two attributes of the same name. -/
def Distinct (s : Scene) : Prop := ∀ t ∈ s.forest.tags, (t.attrs.map (·.1)).Nodup

instance (s : Scene) : Decidable s.Distinct :=
  inferInstanceAs (Decidable (∀ t ∈ s.forest.tags, (t.attrs.map (·.1)).Nodup))

/-- Where no element has two attributes of the same name, and no id was written, everything was
    tidy from the start, as hidden ids would not have gone away. -/
theorem tidy_of_distinct {d : Document} {chs : List Change} (hchs : ∀ ch ∈ chs, ch.SparesIds)
    (h : (Stage.makeAll (ofDocument d) chs).Distinct) : (ofDocument d).Tidy := by
  refine tidy_ofDocument ?_
  rw [← countP_isHidden_makeAll hchs, List.countP_eq_zero]
  intro t ht
  rw [Tag.isHidden_of_nodup (h t ht)]
  exact Bool.false_ne_true

end Scene

end Document

namespace Node.Address

/-- An address strictly inside the element at another one. -/
def Inside (a b : Address) : Prop := a <+: b ∧ a ≠ b

instance (a b : Address) : Decidable (Inside a b) := inferInstanceAs (Decidable (_ ∧ _))

theorem eq_of_not_inside {a b : Address} (h : ¬ a.Inside b) (haround : a <+: b) : a = b :=
  Decidable.not_not.1 fun hne => h ⟨haround, hne⟩

/-- What is strictly inside is behind at least one more step. -/
theorem inside_iff {a b : Address} : a.Inside b ↔ ∃ i is, b = a ++ i :: is := by
  constructor
  · rintro ⟨⟨c, rfl⟩, hstrict⟩
    cases c with
    | nil => exact absurd (List.append_nil a).symm hstrict
    | cons i is => exact ⟨i, is, rfl⟩
  · rintro ⟨i, is, rfl⟩
    exact ⟨List.prefix_append a _, by simp⟩

end Node.Address

namespace Scene

variable {s : Scene} {key k value : String} {a b : Node.Address} {tag : Tag} {children : List Node}

/-! ## What a text takes away -/

/-- A handle names an element strictly inside the one at an address. -/
def HasInside (s : Scene) (a : Node.Address) (k : String) : Prop :=
  ∃ b ∈ s.handleAddress? k, a.Inside b

instance (s : Scene) (a : Node.Address) (k : String) : Decidable (s.HasInside a k) :=
  inferInstanceAs (Decidable (∃ b, b ∈ s.handleAddress? k ∧ a.Inside b))

/-- What was inside a new text is not found any more. -/
theorem Tidy.handleAddress?_inside (h : s.Tidy) (hkey : s.resolve? key = some a)
    (hk : s.handleAddress? k = some b) (hinside : a.Inside b) (value : String) :
    (s.setText key value).handleAddress? k = none := by
  obtain ⟨is, tag, children, rfl, hroot⟩ := h.exists_of_resolve? hkey
  have hat : s.forest.at? (0 :: is) = some (.element tag children) := hroot
  obtain ⟨tag', children', hat', hholds⟩ := Node.exists_of_find? _ b hk
  obtain ⟨⟨c, rfl⟩, hstrict⟩ := hinside
  -- the element that was found is among those inside
  have hmem : tag' ∈ Node.listTags children := by
    rw [Node.at?_append, hat, Option.bind_some] at hat'
    cases c with
    | nil => exact absurd (List.append_nil _).symm hstrict
    | cons i c =>
      obtain ⟨n, hn, hat'⟩ := Option.bind_eq_some_iff.1 hat'
      rw [Node.listTags_eq_flatMap]
      exact List.mem_flatMap.2 ⟨n, List.mem_of_getElem? hn,
        Node.mem_tags_of_at? hat' List.mem_cons_self⟩
  have hpos : 0 < (Node.listTags children).countP (Tag.holds k) :=
    List.countP_pos_iff.2 ⟨tag', hmem, hholds⟩
  have hcount := countP_forest_setText hkey hat value (Tag.holds k)
  rw [h.leftover_eq_nil hroot, Node.listTags, List.countP_nil] at hcount
  have hone := h.unique k
  have hzero : (s.setText key value).forest.tags.countP (Tag.holds k) = 0 := by omega
  rw [← Option.isNone_iff_eq_none, isNone_handleAddress?, hzero]
  rfl

/-- Everything else is found where it was. -/
theorem Tidy.handleAddress?_setText (h : s.Tidy) (hkey : s.resolve? key = some a)
    (value k : String) : (s.setText key value).handleAddress? k =
      (s.handleAddress? k).filter fun b => !decide (a.Inside b) := by
  cases hk : s.handleAddress? k with
  | none => exact handleAddress?_setText_of_none hkey value hk
  | some b =>
    rw [Option.filter_some]
    by_cases hinside : a.Inside b
    · rw [h.handleAddress?_inside hkey hk hinside, decide_eq_true hinside]
      rfl
    · rw [Scene.handleAddress?_setText hkey value hk (Node.Address.eq_of_not_inside hinside),
        decide_eq_false hinside]
      rfl

/-- In a tidy scene the listed ids are all that are found. -/
theorem Tidy.mem_ids_iff (h : s.Tidy) : k ∈ s.ids ↔ (s.handleAddress? k).isSome = true := by
  rw [Scene.mem_ids_iff, isSome_handleAddress?_iff, countP_holds_forest, h.detached,
    Node.listTags, List.countP_nil, Nat.add_zero]
  rw [List.countP_congr fun t ht => ?_]
  exact ⟨fun hlists => (Bool.and_eq_true_iff.1 hlists).1, h.listed t ht k⟩

/-- Those that are left of some ids stand in the order in which they stood. -/
theorem eq_filter_of_sublist {l l' : List String} (hsub : l'.Sublist l) (hl : l.Nodup)
    {p : String → Bool} (hmem : ∀ x, x ∈ l' ↔ x ∈ l ∧ p x = true) : l' = l.filter p := by
  have hall : l'.filter p = l' := List.filter_eq_self.2 fun x hx => ((hmem x).1 hx).2
  have hfilter := hsub.filter p
  rw [hall] at hfilter
  -- both have the same members, once each
  refine hfilter.eq_of_length (List.Perm.length_eq ?_)
  refine (List.perm_ext_iff_of_nodup (hsub.nodup hl) (hl.filter p)).2 fun x => ?_
  rw [hmem, List.mem_filter]

theorem Tidy.sublist_tags_setText (h : s.Tidy) (hkey : s.resolve? key = some a)
    (value : String) : (s.setText key value).root.tags.Sublist s.root.tags := by
  obtain ⟨is, tag, children, rfl, hroot⟩ := h.exists_of_resolve? hkey
  obtain ⟨before, after, htags, hmodify⟩ := Node.exists_tags_around is s.root hroot
  rw [(h.root_setText hkey value).1, hmodify, htags]
  refine ((List.Sublist.refl before).append ?_).append (List.Sublist.refl after)
  exact List.singleton_sublist.2 List.mem_cons_self

/-- Behind a new text the ids are listed that were listed before, in the same order, without those
    of elements that were inside. -/
theorem Tidy.ids_setText (h : s.Tidy) (hkey : s.resolve? key = some a) (value : String) :
    (s.setText key value).ids = s.ids.filter fun k => !decide (s.HasInside a k) := by
  have htidy := h.setText hkey value
  have hsub : (s.setText key value).ids.Sublist s.ids :=
    ((h.sublist_tags_setText hkey value).filter _).filterMap _
  refine eq_filter_of_sublist hsub (nodup_ids h.unique) fun k => ?_
  rw [htidy.mem_ids_iff, h.handleAddress?_setText hkey, h.mem_ids_iff, Bool.not_eq_true',
    decide_eq_false_iff_not]
  cases hk : s.handleAddress? k with
  | none => simp
  | some b => simp [HasInside, hk]

/-- An id that is listed behind a new text was found before, and not inside. -/
theorem Tidy.exists_of_mem_ids_setText (h : s.Tidy) (hkey : s.resolve? key = some a)
    (hk : k ∈ (s.setText key value).ids) : ∃ b tag children, ¬ a.Inside b ∧ b ≠ [] ∧
      s.forest.at? b = some (.element tag children) ∧ s.handleAddress? k = some b ∧
      (s.setText key value).handleAddress? k = some b := by
  rw [h.ids_setText hkey, List.mem_filter, h.mem_ids_iff, Bool.not_eq_true',
    decide_eq_false_iff_not] at hk
  obtain ⟨b, hb⟩ := Option.isSome_iff_exists.1 hk.1
  have hnot : ¬ a.Inside b := fun hinside => hk.2 ⟨b, hb, hinside⟩
  obtain ⟨tag, children, hat, hne⟩ := exists_of_handleAddress? hb
  exact ⟨b, tag, children, hnot, hne, hat, hb,
    Scene.handleAddress?_setText hkey value hb (Node.Address.eq_of_not_inside hnot)⟩

/-- The elements that are left have the tags that they had. -/
theorem Tidy.exists_tag_setText (h : s.Tidy) (hkey : s.resolve? key = some a)
    (hk : k ∈ (s.setText key value).ids) :
    ∃ tag ∈ s.tag? k, (s.setText key value).tag? k = some tag := by
  obtain ⟨tag, children, hat, _⟩ := Scene.exists_of_resolve? hkey
  obtain ⟨b, tag', children', hnot, hne, hat', hbefore, hafter⟩ :=
    h.exists_of_mem_ids_setText hkey hk
  obtain ⟨i, is, rfl, hi⟩ := exists_cons_of_at? hne hat'
  have htag : s.tag? k = some tag' := by
    rw [tag?, resolve?_of_handleAddress? hbefore, Option.bind_some, hat']
    rfl
  refine ⟨tag', htag, ?_⟩
  rw [← htag, tag?, tag?, resolve?_of_handleAddress? hbefore, resolve?_of_handleAddress? hafter,
    Option.bind_some, Option.bind_some, at?_forest_setText hkey hat value hi]
  exact Node.tagAt?_empty _ _ _ (Node.Address.eq_of_not_inside hnot)

/-- They have the texts that they had, unless the new text is in them. -/
theorem Tidy.text?_setText (h : s.Tidy) (hkey : s.resolve? key = some a)
    (hk : k ∈ (s.setText key value).ids) (haround : ∀ b ∈ s.handleAddress? k, ¬ b <+: a) :
    (s.setText key value).text? k = s.text? k := by
  obtain ⟨tag, children, hat, _⟩ := Scene.exists_of_resolve? hkey
  obtain ⟨b, tag', children', hnot, hne, hat', hbefore, hafter⟩ :=
    h.exists_of_mem_ids_setText hkey hk
  have hoff := haround b hbefore
  obtain ⟨i, is, rfl, hi⟩ := exists_cons_of_at? hne hat'
  have hnot' : ¬ a <+: i :: is := fun hprefix =>
    hoff (Node.Address.eq_of_not_inside hnot hprefix ▸ List.prefix_refl _)
  rw [text?, text?, resolve?_of_handleAddress? hbefore, resolve?_of_handleAddress? hafter,
    Option.bind_some, Option.bind_some, at?_forest_setText hkey hat value hi,
    Node.at?_modify_beside _ _ _ hnot' hoff]

/-- The element that gets a text has it then. -/
theorem text?_setText_self (hkey : s.resolve? key = some a) (value : String) :
    (s.setText key value).text? key = some value := by
  obtain ⟨tag, children, hat, _⟩ := Scene.exists_of_resolve? hkey
  rw [text?, resolve?_setText hkey value hkey fun _ => rfl, Option.bind_some,
    at?_setText_self hkey hat, Option.map_some]
  simp [Node.textChars, Node.listTextChars]

/-- A key under which no element is found names a shape inside another one, or nothing. -/
theorem contains_iff_of_none (hk : s.handleAddress? k = none) : s.contains k = true ↔
    ∃ owner b, k = owner ++ shapeEnding ∧ s.handleAddress? owner = some b ∧
      (s.shapeInside? b).isSome = true := by
  rw [contains, resolve?, hk, Option.isSome_iff_exists]
  constructor
  · rintro ⟨c, hc⟩
    obtain ⟨owner, howner, hc⟩ := Option.bind_eq_some_iff.1 hc
    obtain ⟨b, hb, hc⟩ := Option.bind_eq_some_iff.1 hc
    exact ⟨owner, b, Text.stripEnding?_eq_some_iff.1 howner, hb, by rw [hc, Option.isSome_some]⟩
  · rintro ⟨owner, b, howner, hb, hc⟩
    obtain ⟨c, hc⟩ := Option.isSome_iff_exists.1 hc
    rw [Text.stripEnding?_eq_some_iff.2 howner]
    simp only [Option.bind_some, hb, hc]
    exact ⟨c, rfl⟩

end Scene

end Slideshow

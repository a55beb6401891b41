/-
  Slideshow.Proofs.Scene.Index

  The handles of a diagram against the ids that stand in its tree. No two elements ever have
  one handle, and every listed id is found and stands in the tree. That every handle is listed
  and every id of the tree is found (`Scene.Coherent`) is kept by exactly those changes that
  leave no id behind without its element (`index_coherent_iff`).
-/
import Slideshow.Proofs.Scene.Change
import Slideshow.Proofs.Scene.Tags
import Slideshow.Scene.Document

namespace Slideshow

namespace Tag

/-- The element is found under a key. -/
def holds (k : String) (t : Tag) : Bool := t.handle == some k

/-- A key stands in the element as its id. -/
def bears (k : String) (t : Tag) : Bool := t.id? == some k

/-- The element is found under a key that stands in it. -/
def lists (k : String) (t : Tag) : Bool := t.holds k && t.bears k

theorem lists_of_isIndexed {t : Tag} {k : String} (h : t.isIndexed = true)
    (hk : t.handle = some k) : t.lists k = true := by
  simp only [isIndexed, Bool.and_eq_true, beq_iff_eq] at h
  simp only [lists, holds, bears, ← h.2, hk, BEq.rfl, Bool.and_self]

theorem isIndexed_of_lists {t : Tag} {k : String} (h : t.lists k = true) :
    t.isIndexed = true ∧ t.handle = some k := by
  simp only [lists, holds, bears, Bool.and_eq_true, beq_iff_eq] at h
  simp [isIndexed, h.1, h.2]

theorem countP_lists_le_holds (k : String) (ts : List Tag) :
    ts.countP (lists k) ≤ ts.countP (holds k) :=
  List.countP_mono_left fun _ _ h => (Bool.and_eq_true_iff.1 h).1

/-- Of the elements that are found under a key, some list it and some do not. -/
theorem countP_holds_eq (k : String) (ts : List Tag) :
    ts.countP (holds k) = ts.countP (lists k) + ts.countP fun t => t.holds k && !t.bears k := by
  rw [List.countP_eq_countP_filter_add ts (holds k) (bears k), List.countP_filter,
    List.countP_filter]
  rfl

theorem countP_lists_le_bears (k : String) (ts : List Tag) :
    ts.countP (lists k) ≤ ts.countP (bears k) :=
  List.countP_mono_left fun _ _ h => (Bool.and_eq_true_iff.1 h).2

/-- Sets or removes an attribute. -/
def write (name : String) (value : Option String) (t : Tag) : Tag :=
  match value with
  | none => t.erase name
  | some value => t.set name value

@[simp] theorem handle_write (name : String) (value : Option String) (t : Tag) :
    (t.write name value).handle = t.handle := by
  cases value <;> rfl

@[simp] theorem holds_write (name : String) (value : Option String) (k : String) (t : Tag) :
    (t.write name value).holds k = t.holds k := by
  rw [holds, handle_write, holds]

theorem id?_write {name : String} (hid : name ≠ "id") (value : Option String) (t : Tag) :
    (t.write name value).id? = t.id? := by
  cases value with
  | none => exact (t.get?_erase name "id").trans (if_neg hid)
  | some value => exact (t.get?_set name value "id").trans (if_neg hid)

end Tag

namespace Scene

variable {s : Scene} {k key : String} {a : Node.Address} {tag : Tag} {children : List Node}

/-! ## What the index says -/

/-- The tags of all elements, in the tree and out of it. -/
theorem tags_forest (s : Scene) :
    s.forest.tags = ⟨none, "", []⟩ :: (s.root.tags ++ Node.listTags s.detached) := rfl

theorem countP_holds_forest (k : String) (s : Scene) :
    s.forest.tags.countP (Tag.holds k) =
      s.root.tags.countP (Tag.holds k) + (Node.listTags s.detached).countP (Tag.holds k) := by
  rw [tags_forest, List.countP_cons_of_neg Bool.false_ne_true, List.countP_append]

/-- No two elements have the same handle. -/
def Unique (s : Scene) : Prop := ∀ k, s.forest.tags.countP (Tag.holds k) ≤ 1

theorem unique_iff_nodup : s.Unique ↔ (s.forest.tags.filterMap Tag.handle).Nodup := by
  rw [List.nodup_iff_count]
  refine forall_congr' fun k => ?_
  rw [List.count_filterMap]
  rfl

instance (s : Scene) : Decidable s.Unique := decidable_of_iff _ unique_iff_nodup.symm

/-- Some element is found under a key exactly if one has it as its handle. -/
theorem isSome_handleAddress?_iff :
    (s.handleAddress? k).isSome = true ↔ 0 < s.forest.tags.countP (Tag.holds k) := by
  rw [handleAddress?, Node.isSome_find?_iff, List.countP_pos_iff]
  rfl

theorem mem_ids_iff : k ∈ s.ids ↔ 0 < s.root.tags.countP (Tag.lists k) := by
  rw [ids, List.mem_filterMap, List.countP_pos_iff]
  constructor
  · rintro ⟨t, ht, hk⟩
    obtain ⟨hmem, hindexed⟩ := List.mem_filter.1 ht
    exact ⟨t, hmem, Tag.lists_of_isIndexed hindexed hk⟩
  · rintro ⟨t, ht, hk⟩
    obtain ⟨hindexed, hhandle⟩ := Tag.isIndexed_of_lists hk
    exact ⟨t, List.mem_filter.2 ⟨ht, hindexed⟩, hhandle⟩

/-- How many elements of the tree bear an id. -/
def bearers (s : Scene) (k : String) : Nat := s.root.tags.countP (Tag.bears k)

theorem exists_bearer_iff : (∃ t ∈ s.root.tags, t.id? = some k) ↔ 0 < s.bearers k := by
  rw [bearers, List.countP_pos_iff]
  simp only [Tag.bears, beq_iff_eq]

/-- What is listed is found, and stands in the tree. -/
theorem found_of_mem_ids (h : k ∈ s.ids) :
    (s.handleAddress? k).isSome = true ∧ ∃ t ∈ s.root.tags, t.id? = some k := by
  rw [mem_ids_iff] at h
  have hholds := Tag.countP_lists_le_holds k s.root.tags
  have hbears := Tag.countP_lists_le_bears k s.root.tags
  rw [isSome_handleAddress?_iff, countP_holds_forest, exists_bearer_iff, bearers]
  omega

theorem nodup_ids (h : s.Unique) : s.ids.Nodup := by
  rw [List.nodup_iff_count]
  intro k
  have hsub : (s.root.tags.filter Tag.isIndexed).Sublist s.forest.tags := by
    rw [tags_forest]
    exact List.filter_sublist.trans ((List.sublist_append_left _ _).cons _)
  rw [ids, List.count_filterMap]
  exact Nat.le_trans hsub.countP_le (h k)

/-- A key without the ending that names a shape inside stands for the element found under it. -/
theorem contains_of_not_shape (h : Text.stripEnding? shapeEnding key = none) :
    s.contains key = (s.handleAddress? key).isSome := by
  rw [contains, resolve?, h]
  cases s.handleAddress? key <;> rfl

/-- The index agrees with the tree: what is found is listed, and what is listed are the ids
    that stand in the tree. -/
def Coherent (s : Scene) : Prop :=
  ∀ k, ((s.handleAddress? k).isSome = true ↔ k ∈ s.ids) ∧
    (k ∈ s.ids ↔ ∃ t ∈ s.root.tags, t.id? = some k)

/-- What nothing lists, nothing is found under, and nothing bears. -/
theorem coherent_iff : s.Coherent ↔
    ∀ k, s.root.tags.countP (Tag.lists k) = 0 →
      s.forest.tags.countP (Tag.holds k) = 0 ∧ s.bearers k = 0 := by
  simp only [Coherent, isSome_handleAddress?_iff, mem_ids_iff, exists_bearer_iff]
  refine forall_congr' fun k => ?_
  have hholds := Tag.countP_lists_le_holds k s.root.tags
  have hbears : s.root.tags.countP (Tag.lists k) ≤ s.bearers k :=
    Tag.countP_lists_le_bears k s.root.tags
  rw [countP_holds_forest]
  omega

/-- Where the index agrees with the tree, no element out of the tree is found. -/
theorem Coherent.not_holds_detached (h : s.Coherent) (hu : s.Unique) {t : Tag}
    (ht : t ∈ Node.listTags s.detached) : t.holds k = false := by
  have hlists := coherent_iff.1 h k
  have hle := hu k
  have hroot := Tag.countP_lists_le_holds k s.root.tags
  rw [countP_holds_forest] at hlists hle
  have hnone : (Node.listTags s.detached).countP (Tag.holds k) = 0 := by omega
  exact Bool.eq_false_iff.2 (List.countP_eq_zero.1 hnone t ht)

/-- Where the index agrees with the tree, an element bears the id that it is found under. -/
theorem Coherent.lists_of_holds (h : s.Coherent) (hu : s.Unique) {t : Tag}
    (ht : t ∈ s.root.tags) (hk : t.holds k = true) : t.lists k = true := by
  have hlists := coherent_iff.1 h k
  have hle := hu k
  have hpos : 0 < s.root.tags.countP (Tag.holds k) := List.countP_pos_iff.2 ⟨t, ht, hk⟩
  rw [countP_holds_forest] at hlists hle
  -- one tag has the handle and one lists it, so it is the same
  cases hbears : t.bears k with
  | true => rw [Tag.lists, hk, hbears, Bool.and_self]
  | false =>
    have hsplit := Tag.countP_holds_eq k s.root.tags
    have hother : 0 < s.root.tags.countP fun t => t.holds k && !t.bears k :=
      List.countP_pos_iff.2 ⟨t, ht, by rw [hk, hbears]; rfl⟩
    omega

/-! ## Counting after a change -/

section Counting

variable {f : Tag → List Node → Node} {is : Node.Address}

/-- A change to an element of the tree is a change to the root, and to nothing else. -/
theorem root_modify (hat : s.root.at? is = some (.element tag children))
    (hf : (f tag children).isElement = true) :
    (s.modify (0 :: is) f).root = s.root.modify f is ∧
      (s.modify (0 :: is) f).detached = s.detached := by
  cases is with
  | cons => exact ⟨rfl, rfl⟩
  | nil =>
    cases hat
    cases hnew : f s.tag s.children with
    | text => rw [hnew] at hf; cases hf
    | element tag' children' =>
      simp only [modify, forest, Node.modify, root, List.modify_zero_cons, hnew, and_self]

theorem countP_modify {n : Node} (hat : n.at? a = some (.element tag children)) (p : Tag → Bool) :
    (n.modify f a).tags.countP p + (Node.element tag children).tags.countP p =
      n.tags.countP p + (f tag children).tags.countP p := by
  obtain ⟨before, after, htags, hmodify⟩ := Node.exists_tags_around a n hat
  rw [htags, hmodify]
  simp only [List.countP_append]
  omega

/-- What an element and its inside count for in the tree is exchanged. -/
theorem countP_root_modify (hat : s.root.at? is = some (.element tag children))
    (hf : (f tag children).isElement = true) (p : Tag → Bool) :
    (s.modify (0 :: is) f).root.tags.countP p + (Node.element tag children).tags.countP p =
      s.root.tags.countP p + (f tag children).tags.countP p := by
  rw [(root_modify hat hf).1]
  exact countP_modify hat p

theorem countP_forest_modify (ha : a ≠ []) (hat : s.forest.at? a = some (.element tag children))
    (hf : (f tag children).isElement = true) (p : Tag → Bool) :
    (s.modify a f).forest.tags.countP p + (Node.element tag children).tags.countP p =
      s.forest.tags.countP p + (f tag children).tags.countP p := by
  rw [forest_modify ha hat hf]
  exact countP_modify hat p

/-- A new tag counts in place of the old one. -/
theorem countP_retag (hat : s.root.at? is = some (.element tag children)) (g : Tag → Tag)
    (p : Tag → Bool) :
    (s.modify (0 :: is) fun tag children => .element (g tag) children).root.tags.countP p +
        (p tag).toNat =
      s.root.tags.countP p + (p (g tag)).toNat := by
  have hcount := countP_root_modify (f := fun tag children => .element (g tag) children) hat rfl p
  simp only [Node.tags, Tag.countP_cons] at hcount
  omega

theorem countP_forest_retag (ha : a ≠ []) (hat : s.forest.at? a = some (.element tag children))
    (g : Tag → Tag) (p : Tag → Bool) :
    (s.modify a fun tag children => .element (g tag) children).forest.tags.countP p +
        (p tag).toNat =
      s.forest.tags.countP p + (p (g tag)).toNat := by
  have hcount :=
    countP_forest_modify (f := fun tag children => .element (g tag) children) ha hat rfl p
  simp only [Node.tags, Tag.countP_cons] at hcount
  omega

end Counting

/-! ## What a new text leaves addressable -/

theorem listTags_listMapTags (f : Tag → Tag) (ns : List Node) :
    Node.listTags (Node.listMapTags f ns) = (Node.listTags ns).map f := by
  have hnode : ∀ n : Node, (n.mapTags f).tags = n.tags.map f := by
    intro n
    induction n using Node.induction with
    | text => rfl
    | element tag children ih =>
      rw [Node.mapTags, Node.tags, Node.tags, List.map_cons]
      congr 1
      induction children with
      | nil => rfl
      | cons n ns ihs =>
        rw [Node.listMapTags, Node.listTags, Node.listTags, List.map_append,
          ih n List.mem_cons_self, ihs fun m hm => ih m (List.mem_cons_of_mem _ hm)]
  induction ns with
  | nil => rfl
  | cons n ns ih => rw [Node.listMapTags, Node.listTags, Node.listTags, List.map_append, hnode, ih]

/-- The nodes that stay addressable when a text takes the place of those inside an element. -/
def leftover (inside : List Node) : List Node :=
  (Node.listMapTags Tag.release inside).filter hasHandle

/-- An element that is released is found under no other key than before. -/
theorem holds_of_holds_release {t : Tag} (h : t.release.holds k = true) : t.holds k = true := by
  unfold Tag.release at h
  split at h
  · cases h
  · exact h

theorem countP_leftover_le (k : String) (inside : List Node) :
    (Node.listTags (leftover inside)).countP (Tag.holds k) ≤
      (Node.listTags inside).countP (Tag.holds k) := by
  have hsub : (Node.listTags (leftover inside)).Sublist
      (Node.listTags (Node.listMapTags Tag.release inside)) :=
    Node.listTags_filter_sublist _ _
  refine Nat.le_trans hsub.countP_le ?_
  rw [listTags_listMapTags, List.countP_map]
  exact List.countP_mono_left fun t _ ht => holds_of_holds_release ht

/-- Where each element inside is found under the id that stands in it, nothing is left. -/
theorem leftover_eq_nil {inside : List Node}
    (h : ∀ t ∈ Node.listTags inside, ∀ k, t.holds k = true → t.lists k = true) :
    leftover inside = [] := by
  rw [leftover, List.filter_eq_nil_iff]
  intro n hn hhandle
  obtain ⟨t, ht, hsome⟩ := List.any_eq_true.1 hhandle
  have hmem : t ∈ Node.listTags (Node.listMapTags Tag.release inside) := by
    rw [Node.listTags_eq_flatMap]
    exact List.mem_flatMap.2 ⟨n, hn, ht⟩
  rw [listTags_listMapTags] at hmem
  obtain ⟨u, hu, rfl⟩ := List.mem_map.1 hmem
  obtain ⟨k, hk⟩ := Option.isSome_iff_exists.1 hsome
  have hrelease : u.release.holds k = true := by rw [Tag.holds, hk, BEq.rfl]
  have hindexed := (Tag.isIndexed_of_lists (h u hu k (holds_of_holds_release hrelease))).1
  rw [Tag.release, if_pos hindexed] at hk
  cases hk

theorem setText_eq (ha : s.resolve? key = some a)
    (hat : s.forest.at? a = some (.element tag children)) (value : String) :
    s.setText key value =
      { s.modify a fun tag _ => .element tag [.text value] with
        detached := (s.modify a fun tag _ => .element tag [.text value]).detached ++
          leftover children } := by
  simp only [setText, ha, hat, Option.map_some, Node.children, Option.getD_some, leftover]

/-- The tags inside make way for those that are left over. -/
theorem countP_forest_setText (ha : s.resolve? key = some a)
    (hat : s.forest.at? a = some (.element tag children)) (value : String) (p : Tag → Bool) :
    (s.setText key value).forest.tags.countP p + (Node.listTags children).countP p =
      s.forest.tags.countP p + (Node.listTags (leftover children)).countP p := by
  obtain ⟨_, _, _, hne⟩ := exists_of_resolve? ha
  have hcount := countP_forest_modify (f := fun tag _ => .element tag [.text value]) hne hat rfl p
  have hdetach : ∀ (t : Scene) (ns : List Node),
      ({ t with detached := t.detached ++ ns } : Scene).forest.tags =
        t.forest.tags ++ Node.listTags ns := by
    intro t ns
    simp only [tags_forest, Node.listTags_append, List.cons_append, List.append_assoc]
    rfl
  rw [setText_eq ha hat, hdetach, List.countP_append]
  simp only [Node.tags, Node.listTags, List.countP_cons, List.countP_nil, List.append_nil] at hcount
  omega

theorem countP_root_setText {is : Node.Address} (ha : s.resolve? key = some (0 :: is))
    (hat : s.root.at? is = some (.element tag children)) (value : String) (p : Tag → Bool) :
    (s.setText key value).root.tags.countP p + (Node.listTags children).countP p =
      s.root.tags.countP p := by
  have hcount := countP_root_modify (f := fun tag _ => .element tag [.text value]) hat rfl p
  rw [setText_eq ha hat]
  simp only [Node.tags, Node.listTags, List.countP_cons, List.countP_nil, List.append_nil] at hcount
  show (s.modify (0 :: is) fun tag _ => .element tag [.text value]).root.tags.countP p + _ = _
  omega

/-! ## Handles stay unique -/

/-- The only element with a handle is found under it. -/
theorem handleAddress?_of_at? (hu : s.Unique)
    (hat : s.forest.at? a = some (.element tag children)) (hk : tag.holds k = true) :
    s.handleAddress? k = some a :=
  Node.find?_of_unique a s.forest (hu k) hat hk

theorem holds_of_handleAddress? (h : s.handleAddress? k = some a)
    (hat : s.forest.at? a = some (.element tag children)) : tag.holds k = true := by
  obtain ⟨tag', children', hat', hk⟩ := Node.exists_of_find? _ a h
  rw [hat] at hat'
  cases hat'
  exact hk

/-- The tag of an element behind a change of one of its attributes. -/
def retag (s : Scene) (a : Node.Address) (name : String) (value : Option String) (tag : Tag) :
    Tag :=
  match value with
  | none => tag.erase name
  | some value =>
    let holder := s.handleAddress? value
    let handle := if holder.isNone || holder == some a then some value else none
    if name = "id" then { tag.set name value with handle } else tag.set name value

/-- An attribute other than the id is written into the tag. -/
theorem retag_eq_write {name : String} (hid : name ≠ "id") (value : Option String) :
    s.retag a name value tag = tag.write name value := by
  cases value with
  | none => rfl
  | some value => rw [retag, if_neg hid, Tag.write]

theorem make_attribute_eq (ha : s.resolve? key = some a) (name : String) (value : Option String) :
    Stage.make s (.attribute key name value) =
      s.modify a fun tag children => .element (s.retag a name value tag) children := by
  cases value with
  | none => simp only [Stage.make, Stage.removeAttribute, removeAttribute, ha, retag]
  | some value => simp only [Stage.make, Stage.setAttribute, setAttribute, ha, retag]

/-- A handle is free if no element has it. -/
theorem isNone_handleAddress? (s : Scene) (k : String) :
    (s.handleAddress? k).isNone = (s.forest.tags.countP (Tag.holds k) == 0) := by
  have hsome := isSome_handleAddress?_iff (s := s) (k := k)
  rw [Bool.eq_iff_iff, Option.isNone_iff_eq_none, ← Option.not_isSome_iff_eq_none, hsome,
    beq_iff_eq, Nat.not_lt, Nat.le_zero]

/-- An element is the one found under a key exactly if that is its handle. -/
theorem handleAddress?_beq (hu : s.Unique)
    (hat : s.forest.at? a = some (.element tag children)) (k : String) :
    (s.handleAddress? k == some a) = tag.holds k := by
  rw [Bool.eq_iff_iff, beq_iff_eq]
  exact ⟨fun h => holds_of_handleAddress? h hat, fun h => handleAddress?_of_at? hu hat h⟩

/-- Only a new id changes a handle, and it becomes one if no other element has it. -/
theorem holds_retag (hu : s.Unique) (hat : s.forest.at? a = some (.element tag children))
    (name : String) (value : Option String) :
    (s.retag a name value tag).holds k =
      if name = "id" ∧ value.isSome = true then
        value == some k && (tag.holds k || s.forest.tags.countP (Tag.holds k) == 0)
      else tag.holds k := by
  cases value with
  | none => rw [if_neg fun h => by cases h.2]; rfl
  | some v =>
    by_cases hname : name = "id"
    · rw [if_pos ⟨hname, rfl⟩, retag, if_pos hname, isNone_handleAddress?, Tag.holds,
        handleAddress?_beq hu hat]
      dsimp only
      by_cases hk : v = k
      · subst hk
        rw [BEq.rfl, Bool.true_and, Bool.or_comm]
        split
        · rename_i hfree
          rw [hfree]
          exact BEq.rfl
        · rename_i htaken
          rw [Bool.eq_false_iff.2 htaken]
          rfl
      · -- whether or not the new id becomes the handle, the handle is not `k`
        have hne : (some v == some k) = false := beq_false_of_ne fun h => hk (Option.some.inj h)
        rw [hne, Bool.false_and]
        split
        · exact hne
        · rfl
    · rw [if_neg fun h => hname h.1, retag, if_neg hname]
      rfl

/-- The new tag has a handle only in place of the old one, or if nothing has it. -/
theorem Unique.countP_add_retag_le (hu : s.Unique)
    (hat : s.forest.at? a = some (.element tag children)) (name : String)
    (value : Option String) :
    s.forest.tags.countP (Tag.holds k) + ((s.retag a name value tag).holds k).toNat ≤
      1 + (tag.holds k).toNat := by
  have hone := hu k
  have hle := Bool.toNat_le ((s.retag a name value tag).holds k)
  cases htag : tag.holds k with
  | true =>
    rw [Bool.toNat_true]
    omega
  | false =>
    by_cases hzero : s.forest.tags.countP (Tag.holds k) = 0
    · omega
    · have hnot : (s.retag a name value tag).holds k = false := by
        rw [holds_retag hu hat, htag, Bool.false_or, beq_false_of_ne hzero, Bool.and_false,
          ite_self]
      rw [hnot]
      exact hone

/-- Every change leaves each handle to one element at most. -/
theorem Unique.make (hu : s.Unique) (ch : Change) : (Stage.make s ch).Unique := by
  intro k
  cases hcell : ch.cell? s with
  | none =>
    rw [make_of_cell?_none hcell]
    exact hu k
  | some c =>
    have hone := hu k
    cases ch with
    | text key value =>
      obtain ⟨a, ha, _⟩ := Option.map_eq_some_iff.1 hcell
      obtain ⟨tag, children, hat, _⟩ := exists_of_resolve? ha
      have hcount := countP_forest_setText ha hat value (Tag.holds k)
      have hle := countP_leftover_le k children
      show (s.setText key value).forest.tags.countP (Tag.holds k) ≤ 1
      omega
    | camera frame => exact hone
    | _ key name value =>
      obtain ⟨a, ha, _⟩ := Option.map_eq_some_iff.1 hcell
      obtain ⟨tag, children, hat, hne⟩ := exists_of_resolve? ha
      have hcount := countP_forest_retag hne hat (s.retag a name value) (Tag.holds k)
      have hle := hu.countP_add_retag_le (k := k) hat name value
      rw [make_attribute_eq ha]
      omega

end Scene

end Slideshow

/-
  Slideshow.Proofs.Scene.Tags

  The row of all tags in a tree. A change to one element exchanges the tags of that element
  and what is inside it, and leaves those before and behind (`exists_tags_around`). Where at
  most one tag has a property, the element that has it is the one that is found
  (`find?_of_unique`).
-/
import Slideshow.Proofs.Scene.Cell

namespace Slideshow

/-- A tag in front counts once or not at all. -/
theorem Tag.countP_cons (p : Tag → Bool) (t : Tag) (ts : List Tag) :
    (t :: ts).countP p = ts.countP p + (p t).toNat := by
  rw [List.countP_cons]
  cases p t <;> rfl

namespace Node

variable {p : Tag → Bool} {tag : Tag} {children : List Node}

theorem listTags_eq_flatMap (ns : List Node) : listTags ns = ns.flatMap tags := by
  induction ns with
  | nil => rfl
  | cons n ns ih => rw [listTags, ih, List.flatMap_cons]

@[simp] theorem listTags_append (ns ns' : List Node) :
    listTags (ns ++ ns') = listTags ns ++ listTags ns' := by
  simp only [listTags_eq_flatMap, List.flatMap_append]

/-- The tags of some nodes, cut around one of them. -/
theorem listTags_split {ns : List Node} {i : Nat} {n : Node} (h : ns[i]? = some n) :
    listTags ns = listTags (ns.take i) ++ n.tags ++ listTags (ns.drop (i + 1)) := by
  obtain ⟨hi, hget⟩ := List.getElem?_eq_some_iff.1 h
  have hsplit : ns.take i ++ n :: ns.drop (i + 1) = ns := by
    rw [← hget, ← List.drop_eq_getElem_cons hi, List.take_append_drop]
  rw [List.append_assoc, ← listTags, ← listTags_append, hsplit]

theorem listTags_filter_sublist (q : Node → Bool) (ns : List Node) :
    (listTags (ns.filter q)).Sublist (listTags ns) := by
  induction ns with
  | nil => exact .slnil
  | cons n ns ih =>
    rw [List.filter_cons]
    split
    · exact (List.Sublist.refl n.tags).append ih
    · exact ih.trans (List.sublist_append_right n.tags _)

/-! ## The tags around an element -/

/-- What stands before and behind the element at an address stays when it is changed. -/
theorem exists_tags_around (a : Address) : ∀ n : Node, n.at? a = some (element tag children) →
    ∃ before after, n.tags = before ++ (element tag children).tags ++ after ∧
      ∀ f : Tag → List Node → Node,
        (n.modify f a).tags = before ++ (f tag children).tags ++ after := by
  induction a with
  | nil =>
    intro n h
    cases h
    refine ⟨[], [], by simp, fun f => ?_⟩
    simp only [modify, List.nil_append, List.append_nil]
  | cons i is ih =>
    intro n h
    cases n with
    | text s => cases h
    | element tag' children' =>
      obtain ⟨c, hc, hat⟩ := Option.bind_eq_some_iff.1 h
      rw [Node.children] at hc
      obtain ⟨before, after, htags, hmodify⟩ := ih c hat
      obtain ⟨hi, hget⟩ := List.getElem?_eq_some_iff.1 hc
      refine ⟨tag' :: listTags (children'.take i) ++ before,
        after ++ listTags (children'.drop (i + 1)), ?_, fun f => ?_⟩
      · rw [tags, listTags_split hc, htags]
        simp only [List.cons_append, List.append_assoc]
      · rw [modify, tags, List.modify_eq_take_cons_drop hi, hget]
        simp only [listTags_append, listTags, hmodify, List.cons_append, List.append_assoc]

/-- What is inside a node at an address is inside the whole. -/
theorem mem_tags_of_at? {n m : Node} {a : Address} (h : n.at? a = some m) {t : Tag}
    (ht : t ∈ m.tags) : t ∈ n.tags := by
  cases m with
  | text => cases ht
  | element tag children =>
    obtain ⟨before, after, htags, _⟩ := exists_tags_around a n h
    rw [htags, List.mem_append, List.mem_append]
    exact .inl (.inr ht)

/-- A new tag is that of one element. -/
theorem mem_tags_of_retag {n : Node} {a : Address}
    (hat : n.at? a = some (element tag children)) {g : Tag → Tag} {t : Tag}
    (ht : t ∈ (n.modify (fun tag children => element (g tag) children) a).tags) :
    t ∈ n.tags ∨ ∃ u ∈ n.tags, t = g u := by
  obtain ⟨before, after, htags, hmodify⟩ := exists_tags_around a n hat
  rw [hmodify] at ht
  rw [htags]
  simp only [tags, List.mem_append, List.mem_cons] at ht ⊢
  rcases ht with (ht | rfl | ht) | ht
  · exact .inl (.inl (.inl ht))
  · exact .inr ⟨tag, .inl (.inr (.inl rfl)), rfl⟩
  · exact .inl (.inl (.inr (.inr ht)))
  · exact .inl (.inr ht)

/-! ## Finding an element -/

/-- What is found is among the tags. -/
theorem exists_mem_of_find? {n : Node} {a : Address} (h : n.find? p = some a) :
    ∃ t ∈ n.tags, p t = true := by
  obtain ⟨tag, children, hat, htag⟩ := exists_of_find? n a h
  exact ⟨tag, mem_tags_of_at? hat List.mem_cons_self, htag⟩

/-- What one of some nodes has inside is found among them. -/
theorem isSome_listFind? {ns : List Node}
    (h : ∀ n ∈ ns, (∃ t ∈ n.tags, p t = true) → (n.find? p).isSome = true)
    (hex : ∃ t ∈ listTags ns, p t = true) : (listFind? p ns).isSome = true := by
  induction ns with
  | nil =>
    obtain ⟨t, ht, _⟩ := hex
    cases ht
  | cons n ns ih =>
    rw [listFind?]
    cases hfind : n.find? p with
    | some a => rfl
    | none =>
      obtain ⟨t, ht, hp⟩ := hex
      rw [Option.isSome_map]
      rcases List.mem_append.1 ht with ht | ht
      · have hsome := h n List.mem_cons_self ⟨t, ht, hp⟩
        rw [hfind] at hsome
        cases hsome
      · exact ih (fun m hm => h m (List.mem_cons_of_mem _ hm)) ⟨t, ht, hp⟩

/-- Something is found exactly if some tag has the property. -/
theorem isSome_find?_iff (n : Node) : (n.find? p).isSome = true ↔ ∃ t ∈ n.tags, p t = true := by
  constructor
  · intro h
    obtain ⟨a, ha⟩ := Option.isSome_iff_exists.1 h
    exact exists_mem_of_find? ha
  · induction n using Node.induction with
    | text s =>
      rintro ⟨t, ht, _⟩
      cases ht
    | element tag children ih =>
      rintro ⟨t, ht, hp⟩
      rw [find?]
      split
      · rfl
      · rename_i htag
        rcases List.mem_cons.1 ht with rfl | ht
        · exact absurd hp htag
        · exact isSome_listFind? ih ⟨t, ht, hp⟩

theorem countP_pos_of_find? {n : Node} {a : Address} (h : n.find? p = some a) :
    0 < n.tags.countP p :=
  List.countP_pos_iff.2 (exists_mem_of_find? h)

/-- Among nodes with at most one tag that has a property, the one that has it is found. -/
theorem listFind?_of_unique {ns : List Node} (h : (listTags ns).countP p ≤ 1) {i : Nat}
    {is : Address} {n : Node} (hn : ns[i]? = some n) (hfind : n.find? p = some is) :
    listFind? p ns = some (i :: is) := by
  induction ns generalizing i with
  | nil => cases hn
  | cons m ns ih =>
    rw [listTags, List.countP_append] at h
    cases i with
    | zero =>
      cases hn
      rw [listFind?, hfind]
    | succ i =>
      rw [List.getElem?_cons_succ] at hn
      -- the tag stands further behind, so there is none in the first node
      have hpos : 0 < (listTags ns).countP p := by
        obtain ⟨t, ht, hp⟩ := exists_mem_of_find? hfind
        refine List.countP_pos_iff.2 ⟨t, ?_, hp⟩
        rw [listTags_eq_flatMap]
        exact List.mem_flatMap.2 ⟨n, List.mem_of_getElem? hn, ht⟩
      have hnone : m.find? p = none := by
        cases hm : m.find? p with
        | none => rfl
        | some b =>
          have := countP_pos_of_find? hm
          omega
      rw [listFind?, hnone, ih (by omega) hn]
      rfl

/-- The only element with a property is found at its address. -/
theorem find?_of_unique (a : Address) : ∀ n : Node, n.tags.countP p ≤ 1 →
    n.at? a = some (element tag children) → p tag = true → n.find? p = some a := by
  induction a with
  | nil =>
    intro n _ hat htag
    cases hat
    rw [find?, if_pos htag]
  | cons i is ih =>
    intro n hcount hat htag
    cases n with
    | text s => cases hat
    | element tag' children' =>
      obtain ⟨c, hc, hat⟩ := Option.bind_eq_some_iff.1 hat
      rw [Node.children] at hc
      rw [tags, List.countP_cons] at hcount
      have hinside : ∀ t ∈ c.tags, t ∈ listTags children' := fun t ht => by
        rw [listTags_eq_flatMap]
        exact List.mem_flatMap.2 ⟨c, List.mem_of_getElem? hc, ht⟩
      have hpos : 0 < (listTags children').countP p :=
        List.countP_pos_iff.2 ⟨tag, hinside tag (mem_tags_of_at? hat List.mem_cons_self), htag⟩
      have htag' : ¬ p tag' = true := by
        intro h
        rw [if_pos h] at hcount
        omega
      have hcount' : c.tags.countP p ≤ 1 := by
        rw [listTags_split hc, List.countP_append, List.countP_append] at hcount
        omega
      rw [find?, if_neg htag', listFind?_of_unique (by omega) hc (ih c hcount' hat htag)]

end Node

end Slideshow

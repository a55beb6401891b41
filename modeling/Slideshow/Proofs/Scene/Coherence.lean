/-
  Slideshow.Proofs.Scene.Coherence

  When the index of handles and the tree keep agreeing. In a scene where they agree, a change
  makes them differ exactly if it leaves an id behind without its element
  (`Change.Orphans`): the element is still found though no element bears the id, or another
  element bears it and is not found.
-/
import Slideshow.Proofs.Scene.Import

namespace Slideshow

namespace Change

/-- The change takes an element's id away and leaves its handle, or takes the handle away
    while another element bears the same id. -/
def Orphans (s : Scene) : Change → Prop
  | .text key _ => ∃ n ∈ (s.resolve? key).bind s.forest.at?, ∃ t ∈ Node.listTags n.children,
      ∃ k ∈ t.handle, (Node.listTags n.children).countP (Tag.bears k) < s.bearers k
  | .attribute key name none => name = "id" ∧ ∃ t ∈ s.tag? key, t.handle.isSome = true
  | .attribute key name (some value) =>
      name = "id" ∧ ∃ t ∈ s.tag? key, ∃ k ∈ t.handle, k ≠ value ∧ 1 < s.bearers k
  | .camera _ => False

instance (s : Scene) : (ch : Change) → Decidable (ch.Orphans s)
  | .text key _ => inferInstanceAs (Decidable (∃ n ∈ (s.resolve? key).bind s.forest.at?,
      ∃ t ∈ Node.listTags n.children, ∃ k ∈ t.handle,
        (Node.listTags n.children).countP (Tag.bears k) < s.bearers k))
  | .attribute key name none =>
      inferInstanceAs (Decidable (name = "id" ∧ ∃ t ∈ s.tag? key, t.handle.isSome = true))
  | .attribute key name (some value) => inferInstanceAs (Decidable (name = "id" ∧
      ∃ t ∈ s.tag? key, ∃ k ∈ t.handle, k ≠ value ∧ 1 < s.bearers k))
  | .camera _ => .isFalse id

/-- No change leaves an id behind, each made behind those before it. -/
def Keep (s : Scene) : List Change → Prop
  | [] => True
  | ch :: chs => ¬ ch.Orphans s ∧ Keep (Stage.make s ch) chs

instance decidableKeep : (s : Scene) → (chs : List Change) → Decidable (Keep s chs)
  | _, [] => .isTrue trivial
  | s, ch :: chs => @instDecidableAnd _ _ _ (decidableKeep (Stage.make s ch) chs)

end Change

namespace Scene

variable {s : Scene} {k key : String} {a : Node.Address} {tag : Tag} {children : List Node}

/-! ## Elements that keys name -/

/-- Where index and tree agree, what is found under its handle is in the tree. -/
theorem Coherent.exists_of_handleAddress? (h : s.Coherent) (hu : s.Unique)
    (ha : s.handleAddress? k = some a) : ∃ is, a = 0 :: is := by
  obtain ⟨tag, children, hat, hholds⟩ := Node.exists_of_find? _ a ha
  rcases a with _ | ⟨_ | i, is⟩
  · cases hat
    cases hholds
  · exact ⟨is, rfl⟩
  · obtain ⟨n, hn, hat⟩ := Option.bind_eq_some_iff.1 hat
    have hmem : n ∈ s.detached := List.mem_of_getElem? hn
    have htag : tag ∈ Node.listTags s.detached := by
      rw [Node.listTags_eq_flatMap]
      exact List.mem_flatMap.2 ⟨n, hmem, Node.mem_tags_of_at? hat List.mem_cons_self⟩
    have hnot : tag.holds k = false := h.not_holds_detached hu htag
    have hyes : tag.holds k = true := hholds
    rw [hnot] at hyes
    cases hyes

/-- Where index and tree agree, keys name elements of the tree. -/
theorem Coherent.exists_of_resolve? (h : s.Coherent) (hu : s.Unique)
    (ha : s.resolve? key = some a) :
    ∃ is tag children, a = 0 :: is ∧ s.root.at? is = some (.element tag children) := by
  have haddress : ∃ is, a = 0 :: is := by
    have hresolve := ha
    unfold resolve? at hresolve
    split at hresolve
    · rename_i hfound
      cases hresolve
      exact h.exists_of_handleAddress? hu hfound
    · -- a shape inside an element of the tree is in the tree
      obtain ⟨owner, _, hresolve⟩ := Option.bind_eq_some_iff.1 hresolve
      obtain ⟨b, hb, hshape⟩ := Option.bind_eq_some_iff.1 hresolve
      obtain ⟨is, rfl⟩ := h.exists_of_handleAddress? hu hb
      obtain ⟨n, _, hshape⟩ := Option.bind_eq_some_iff.1 hshape
      obtain ⟨c, _, rfl⟩ := Option.map_eq_some_iff.1 hshape
      exact ⟨is ++ c, rfl⟩
  obtain ⟨is, rfl⟩ := haddress
  obtain ⟨tag, children, hat, _⟩ := Scene.exists_of_resolve? ha
  exact ⟨is, tag, children, rfl, hat⟩

theorem tag?_of_resolve? (ha : s.resolve? key = some a)
    (hat : s.forest.at? a = some (.element tag children)) : s.tag? key = some tag := by
  rw [tag?, ha, Option.bind_some, hat]
  rfl

/-! ## One change -/

/-- An attribute other than the id counts for nothing. -/
theorem retag_of_ne {name : String} (hid : name ≠ "id") (value : Option String) :
    (s.retag a name value tag).holds k = tag.holds k ∧
      (s.retag a name value tag).bears k = tag.bears k := by
  rw [retag_eq_write hid, Tag.holds_write, Tag.bears, Tag.id?_write hid, Tag.bears]
  exact ⟨rfl, rfl⟩

theorem bears_retag (value : Option String) :
    (s.retag a "id" value tag).bears k = (value == some k) := by
  cases value with
  | none =>
    have hget : (tag.erase "id").get? "id" = none := (tag.get?_erase "id" "id").trans (if_pos rfl)
    rw [retag, Tag.bears, Tag.id?, hget]
  | some v =>
    have hget : (tag.set "id" v).get? "id" = some v :=
      (tag.get?_set "id" v "id").trans (if_pos rfl)
    rw [retag, if_pos rfl, Tag.bears, Tag.id?]
    exact congrArg (· == some k) hget

/-- What a changed attribute counts for: the element's new tag in place of the old one. -/
theorem counts_attribute {is : Node.Address} (ha : s.resolve? key = some (0 :: is))
    (hat : s.root.at? is = some (.element tag children)) (name : String) (value : Option String)
    (k : String) :
    let t := Stage.make s (.attribute key name value)
    let tag' := s.retag (0 :: is) name value tag
    t.forest.tags.countP (Tag.holds k) + (tag.holds k).toNat =
        s.forest.tags.countP (Tag.holds k) + (tag'.holds k).toNat ∧
      t.root.tags.countP (Tag.lists k) + (tag.lists k).toNat =
        s.root.tags.countP (Tag.lists k) + (tag'.lists k).toNat ∧
      t.bearers k + (tag.bears k).toNat = s.bearers k + (tag'.bears k).toNat := by
  have hne : (0 :: is : Node.Address) ≠ [] := List.cons_ne_nil 0 is
  intro t tag'
  have ht : t = s.modify (0 :: is) fun tag children =>
      .element (s.retag (0 :: is) name value tag) children := make_attribute_eq ha name value
  rw [ht]
  exact ⟨countP_forest_retag hne hat _ _, countP_retag hat _ _, countP_retag hat _ _⟩

theorem Coherent.lists_eq_holds (h : s.Coherent) (hu : s.Unique) {is : Node.Address}
    (hat : s.root.at? is = some (.element tag children)) : tag.lists k = tag.holds k := by
  cases hk : tag.holds k with
  | true => exact h.lists_of_holds hu (Node.mem_tags_of_at? hat List.mem_cons_self) hk
  | false => rw [Tag.lists, hk, Bool.false_and]

theorem holds_of_handle (h : tag.handle = some k) : tag.holds k = true := by
  rw [Tag.holds, h, BEq.rfl]

/-- An attribute other than the id leaves index and tree as they are. -/
theorem Coherent.make_attribute (h : s.Coherent) (hu : s.Unique) {name : String}
    (hid : name ≠ "id") (ha : s.resolve? key = some a) (value : Option String) :
    (Stage.make s (.attribute key name value)).Coherent := by
  obtain ⟨is, tag, children, rfl, hat⟩ := h.exists_of_resolve? hu ha
  rw [coherent_iff] at h ⊢
  intro k hlists
  obtain ⟨hholds', hlists', hbears'⟩ := counts_attribute ha hat name value k
  have hcounted : (s.retag (0 :: is) name value tag).holds k = tag.holds k ∧
      (s.retag (0 :: is) name value tag).bears k = tag.bears k := retag_of_ne hid value
  obtain ⟨hholds, hbears⟩ := hcounted
  have hsame : (s.retag (0 :: is) name value tag).lists k = tag.lists k := by
    rw [Tag.lists, hholds, hbears, Tag.lists]
  have hk := h k
  rw [hholds] at hholds'
  rw [hsame] at hlists'
  rw [hbears] at hbears'
  omega

/-- The id of an element may be removed if the element has no handle. -/
theorem Coherent.make_remove_iff (h : s.Coherent) (hu : s.Unique) (ha : s.resolve? key = some a) :
    (Stage.make s (.attribute key "id" none)).Coherent ↔
      ¬ (Change.attribute key "id" none).Orphans s := by
  obtain ⟨is, tag, children, rfl, hat⟩ := h.exists_of_resolve? hu ha
  have htag : s.tag? key = some tag := tag?_of_resolve? ha hat
  have hcounts := counts_attribute ha hat "id" none
  have hsame : ∀ k, tag.lists k = tag.holds k := fun _ => h.lists_eq_holds hu hat
  have hbears' : ∀ k, (s.retag (0 :: is) "id" none tag).bears k = false := fun k => bears_retag none
  have hlists' : ∀ k, (s.retag (0 :: is) "id" none tag).lists k = false := fun k => by
    rw [Tag.lists, hbears', Bool.and_false]
  have hholds' : ∀ k, (s.retag (0 :: is) "id" none tag).holds k = tag.holds k := fun k => rfl
  constructor
  · rintro hafter ⟨_, t, ht, hsome⟩
    cases htag.symm.trans ht
    obtain ⟨k, hk⟩ := Option.isSome_iff_exists.1 hsome
    have hnone := coherent_iff.1 hafter k
    have hone := hu k
    have hle := Tag.countP_lists_le_holds k s.root.tags
    obtain ⟨hholds, hlists, _⟩ := hcounts k
    rw [hholds', holds_of_handle hk, Bool.toNat_true] at hholds
    rw [hsame, hlists', holds_of_handle hk, Bool.toNat_true, Bool.toNat_false] at hlists
    rw [countP_holds_forest k s] at hone hholds
    omega
  · intro hnot
    have hfree : tag.handle = none := by
      rw [← Option.not_isSome_iff_eq_none]
      exact fun hsome => hnot ⟨rfl, tag, htag, hsome⟩
    refine coherent_iff.2 fun k hk => ?_
    have hholdsNot : tag.holds k = false := by
      rw [Tag.holds, hfree]
      rfl
    have hbefore := coherent_iff.1 h k
    obtain ⟨hholds, hlists, hbears⟩ := hcounts k
    rw [hholds', hholdsNot] at hholds
    rw [hsame, hlists', hholdsNot] at hlists
    rw [hbears', Bool.toNat_false] at hbears
    omega

/-- A new id takes away what the element counts for under any other one. -/
theorem Coherent.counts_rename_of_ne (h : s.Coherent) (hu : s.Unique) {is : Node.Address}
    (ha : s.resolve? key = some (0 :: is)) (hat : s.root.at? is = some (.element tag children))
    {value : String} (hk : k ≠ value) :
    let t := Stage.make s (.attribute key "id" (some value))
    t.forest.tags.countP (Tag.holds k) + (tag.holds k).toNat =
        s.forest.tags.countP (Tag.holds k) ∧
      t.root.tags.countP (Tag.lists k) + (tag.holds k).toNat =
        s.root.tags.countP (Tag.lists k) ∧
      t.bearers k + (tag.bears k).toNat = s.bearers k := by
  have hother : (some value == some k) = false :=
    beq_false_of_ne fun heq => hk (Option.some.inj heq).symm
  have hbears' : (s.retag (0 :: is) "id" (some value) tag).bears k = false :=
    (bears_retag (some value)).trans hother
  have hholds' : (s.retag (0 :: is) "id" (some value) tag).holds k = false := by
    rw [holds_retag hu (a := 0 :: is) hat, if_pos ⟨rfl, rfl⟩, hother, Bool.false_and]
  obtain ⟨hholds, hlists, hbears⟩ := counts_attribute ha hat "id" (some value) k
  rw [hholds'] at hholds
  rw [h.lists_eq_holds hu hat, Tag.lists, hbears', Bool.and_false] at hlists
  rw [hbears'] at hbears
  exact ⟨hholds, hlists, hbears⟩

/-- Behind a new id, an element is listed under it: this one, or the one that had it before. -/
theorem Coherent.lists_rename (h : s.Coherent) (hu : s.Unique) {is : Node.Address}
    (ha : s.resolve? key = some (0 :: is)) (hat : s.root.at? is = some (.element tag children))
    (value : String) :
    0 < (Stage.make s (.attribute key "id" (some value))).root.tags.countP (Tag.lists value) := by
  have hbears : (s.retag (0 :: is) "id" (some value) tag).bears value = true :=
    (bears_retag (some value)).trans BEq.rfl
  have hholds : (s.retag (0 :: is) "id" (some value) tag).holds value =
      (tag.holds value || s.forest.tags.countP (Tag.holds value) == 0) := by
    rw [holds_retag hu (a := 0 :: is) hat, if_pos ⟨rfl, rfl⟩, BEq.rfl, Bool.true_and]
  obtain ⟨_, hlists, _⟩ := counts_attribute ha hat "id" (some value) value
  rw [h.lists_eq_holds hu hat, Tag.lists, hbears, Bool.and_true, hholds] at hlists
  cases hold : tag.holds value with
  | true =>
    have hpos : 0 < s.root.tags.countP (Tag.lists value) := List.countP_pos_iff.2
      ⟨tag, Node.mem_tags_of_at? hat List.mem_cons_self, (h.lists_eq_holds hu hat).trans hold⟩
    rw [hold, Bool.true_or] at hlists
    omega
  | false =>
    rw [hold, Bool.false_or, Bool.toNat_false] at hlists
    by_cases hzero : s.forest.tags.countP (Tag.holds value) = 0
    · rw [hzero, BEq.rfl, Bool.toNat_true] at hlists
      omega
    · -- another element is found under the id, so it lists it
      rw [beq_false_of_ne hzero, Bool.toNat_false] at hlists
      have hbefore := coherent_iff.1 h value
      omega

/-- An element with a handle may get a new id if no other element bears the old one. -/
theorem Coherent.make_rename_iff (h : s.Coherent) (hu : s.Unique) (ha : s.resolve? key = some a)
    (value : String) :
    (Stage.make s (.attribute key "id" (some value))).Coherent ↔
      ¬ (Change.attribute key "id" (some value)).Orphans s := by
  obtain ⟨is, tag, children, rfl, hat⟩ := h.exists_of_resolve? hu ha
  have htag : s.tag? key = some tag := tag?_of_resolve? ha hat
  have hbearsOf : ∀ k, tag.holds k = true → tag.bears k = true := fun k hk => by
    have hlists := (h.lists_eq_holds hu hat).trans hk
    exact (Bool.and_eq_true_iff.1 hlists).2
  constructor
  · -- another element bears the old id still, and nothing lists it any more
    rintro hafter ⟨_, t, ht, k, hk, hne, hmany⟩
    cases htag.symm.trans ht
    have hholds := holds_of_handle hk
    have hnone := coherent_iff.1 hafter k
    have hone := hu k
    have hle := Tag.countP_lists_le_holds k s.root.tags
    obtain ⟨_, hlists, hbears⟩ := h.counts_rename_of_ne hu ha hat hne
    rw [hholds, Bool.toNat_true] at hlists
    rw [hbearsOf k hholds, Bool.toNat_true] at hbears
    rw [countP_holds_forest k s] at hone
    omega
  · intro hnot
    refine coherent_iff.2 fun k hk => ?_
    by_cases hvalue : k = value
    · have hpos := h.lists_rename hu ha hat value
      rw [hvalue] at hk
      omega
    · have hbefore := coherent_iff.1 h k
      have hone := hu k
      have hle := Tag.countP_lists_le_holds k s.root.tags
      obtain ⟨hholds, hlists, hbears⟩ := h.counts_rename_of_ne hu ha hat hvalue
      rw [countP_holds_forest k s] at hone hbefore hholds
      cases hold : tag.holds k with
      | false =>
        rw [hold, Bool.toNat_false] at hholds hlists
        omega
      | true =>
        -- the handle goes, and no other element bears the id
        have hfew : ¬ 1 < s.bearers k := fun hmany =>
          hnot ⟨rfl, tag, htag, k, beq_iff_eq.1 hold, hvalue, hmany⟩
        rw [hbearsOf k hold, Bool.toNat_true] at hbears
        rw [hold, Bool.toNat_true] at hholds hlists
        omega

/-- A text may take the place of elements if no other element bears the id of one that is
    found under it. -/
theorem Coherent.make_text_iff (h : s.Coherent) (hu : s.Unique) (ha : s.resolve? key = some a)
    (value : String) :
    (Stage.make s (.text key value)).Coherent ↔ ¬ (Change.text key value).Orphans s := by
  obtain ⟨is, tag, children, rfl, hat⟩ := h.exists_of_resolve? hu ha
  have hnode : (s.resolve? key).bind s.forest.at? = some (.element tag children) := by
    rw [ha]
    exact hat
  have hinside : ∀ t ∈ Node.listTags children, ∀ k, t.holds k = true → t.lists k = true :=
    fun t ht k hk => h.lists_of_holds hu (Node.mem_tags_of_at? hat (List.mem_cons_of_mem _ ht)) hk
  have hnone : leftover children = [] := leftover_eq_nil hinside
  have hholds := fun k => countP_forest_setText ha hat value (Tag.holds k)
  have hlists := fun k => countP_root_setText ha hat value (Tag.lists k)
  have hbears := fun k => countP_root_setText ha hat value (Tag.bears k)
  rw [hnone] at hholds
  simp only [Node.listTags, List.countP_nil, Nat.add_zero] at hholds
  have hsame : ∀ k, (Node.listTags children).countP (Tag.holds k) ≤
      (Node.listTags children).countP (Tag.lists k) :=
    fun k => List.countP_mono_left fun t ht hk => hinside t ht k hk
  show (s.setText key value).Coherent ↔ _
  constructor
  · -- the element inside was the only one that listed its id, and one outside bears it still
    rintro hafter ⟨_, hn, t, ht, k, hk, hfew⟩
    cases hnode.symm.trans hn
    have hpos : 0 < (Node.listTags children).countP (Tag.holds k) :=
      List.countP_pos_iff.2 ⟨t, ht, holds_of_handle hk⟩
    have hnone := coherent_iff.1 hafter k
    have hone := hu k
    have hle := Tag.countP_lists_le_holds k s.root.tags
    have hk := hsame k
    have hl := hlists k
    have hb := hbears k
    rw [countP_holds_forest k s] at hone
    rw [bearers] at hnone hfew
    rw [Node.children] at hfew
    omega
  · intro hnot
    refine coherent_iff.2 fun k hk => ?_
    have hbefore := coherent_iff.1 h k
    have hone := hu k
    have hh := hholds k
    have hl := hlists k
    have hb := hbears k
    have hle := hsame k
    rw [bearers] at hbefore ⊢
    by_cases hzero : (Node.listTags children).countP (Tag.holds k) = 0
    · have := Tag.countP_lists_le_holds k (Node.listTags children)
      omega
    · obtain ⟨t, ht, htk⟩ := List.countP_pos_iff.1 (Nat.pos_of_ne_zero hzero)
      have hfew : ¬ (Node.listTags children).countP (Tag.bears k) < s.bearers k := fun hfew =>
        hnot ⟨_, hnode, t, ht, k, beq_iff_eq.1 htk, hfew⟩
      rw [bearers] at hfew
      omega

/-- The camera is an attribute of the root element that is not its id. -/
theorem Coherent.make_camera (h : s.Coherent) (frame : Rect) :
    (Stage.make s (.camera frame)).Coherent := by
  have hget : (s.tag.set "viewBox" frame.viewBox).get? "id" = s.tag.get? "id" :=
    (s.tag.get?_set "viewBox" frame.viewBox "id").trans (if_neg (by decide))
  have hbears : ∀ k, (Stage.make s (.camera frame)).tag.bears k = s.tag.bears k := fun k =>
    congrArg (· == some k) hget
  have hlists : ∀ k, (Stage.make s (.camera frame)).tag.lists k = s.tag.lists k := fun k => by
    rw [Tag.lists, Tag.lists, hbears]
    rfl
  rw [coherent_iff] at h ⊢
  intro k hk
  have hbefore := h k
  simp only [bearers, tags_forest, root, Node.tags, List.countP_cons, List.countP_append,
    hbears, hlists] at hbefore hk ⊢
  exact hbefore hk

/-- Where index and tree agree, a change keeps them agreeing exactly if it leaves no id
    behind. -/
theorem Coherent.make_iff (h : s.Coherent) (hu : s.Unique) (ch : Change) :
    (Stage.make s ch).Coherent ↔ ¬ ch.Orphans s := by
  cases hcell : ch.cell? s with
  | none =>
    rw [make_of_cell?_none hcell]
    refine iff_of_true h ?_
    cases ch with
    | text key value =>
      rintro ⟨n, hn, _⟩
      rw [Option.map_eq_none_iff.1 hcell] at hn
      cases hn
    | camera => exact id
    | _ key name value =>
      have hnone : s.tag? key = none := by rw [tag?, Option.map_eq_none_iff.1 hcell]; rfl
      cases value with
      | none =>
        rintro ⟨_, t, ht, _⟩
        cases hnone.symm.trans ht
      | some v =>
        rintro ⟨_, t, ht, _⟩
        cases hnone.symm.trans ht
  | some c =>
    cases ch with
    | text key value =>
      obtain ⟨a, ha, _⟩ := Option.map_eq_some_iff.1 hcell
      exact h.make_text_iff hu ha value
    | camera frame => exact iff_of_true (h.make_camera frame) id
    | _ key name value =>
      obtain ⟨a, ha, _⟩ := Option.map_eq_some_iff.1 hcell
      by_cases hid : name = "id"
      · subst hid
        cases value with
        | none => exact h.make_remove_iff hu ha
        | some v => exact h.make_rename_iff hu ha v
      · refine iff_of_true (h.make_attribute hu hid ha value) ?_
        cases value with
        | none => exact fun horphans => hid horphans.1
        | some v => exact fun horphans => hid horphans.1

/-! ## Several changes -/

theorem Unique.makeAll (hu : s.Unique) (chs : List Change) : (Stage.makeAll s chs).Unique := by
  induction chs generalizing s with
  | nil => exact hu
  | cons ch chs ih => exact ih (hu.make ch)

/-- Index and tree agree all along exactly if they do so at first and no change leaves an id
    behind. -/
theorem Unique.coherent_makeAll_iff (hu : s.Unique) (chs : List Change) :
    (∀ made, made <+: chs → (Stage.makeAll s made).Coherent) ↔ s.Coherent ∧ Change.Keep s chs := by
  induction chs generalizing s with
  | nil =>
    constructor
    · exact fun h => ⟨h [] List.nil_prefix, trivial⟩
    · rintro ⟨h, _⟩ made hmade
      rw [List.prefix_nil.1 hmade]
      exact h
  | cons ch chs ih =>
    constructor
    · intro h
      have hfirst : s.Coherent := h [] List.nil_prefix
      have hnext := (ih (hu.make ch)).1 fun made hmade => h (ch :: made) (by simpa using hmade)
      exact ⟨hfirst, (hfirst.make_iff hu ch).1 hnext.1, hnext.2⟩
    · rintro ⟨hfirst, hkept, hrest⟩ made hmade
      have hnext := (hfirst.make_iff hu ch).2 hkept
      cases made with
      | nil => exact hfirst
      | cons ch' made =>
        obtain ⟨rfl, hbehind⟩ := List.cons_prefix_cons.1 hmade
        exact (ih (hu.make ch')).2 ⟨hnext, hrest⟩ made hbehind

theorem Unique.ids (hu : s.Unique) : s.ids.Nodup ∧
    ∀ k ∈ s.ids, s.contains k = true ∧ ∃ t ∈ s.root.tags, t.id? = some k := by
  refine ⟨nodup_ids hu, fun k hk => ?_⟩
  obtain ⟨hfound, hbears⟩ := found_of_mem_ids hk
  refine ⟨?_, hbears⟩
  obtain ⟨a, ha⟩ := Option.isSome_iff_exists.1 hfound
  rw [contains, resolve?, ha]
  rfl

/-- In every scene that comes from a loaded one by changes, ids are listed once, and what is
    listed is found and stands in the tree. That also every id of the tree and everything found
    is listed holds all along exactly if it holds at first and no change leaves an id behind;
    and it holds at first if no foreign attribute is written like an id. -/
theorem index_coherent_iff {text : String} (h : load text = .ok s) (chs : List Change) :
    (Stage.makeAll s chs).ids.Nodup ∧
    (∀ k ∈ (Stage.makeAll s chs).ids, (Stage.makeAll s chs).contains k = true ∧
      ∃ t ∈ (Stage.makeAll s chs).root.tags, t.id? = some k) ∧
    ((∀ made, made <+: chs → (Stage.makeAll s made).Coherent) ↔
      s.Coherent ∧ Change.Keep s chs) ∧
    ((Stage.makeAll s chs).Coherent → ∀ k, Text.stripEnding? shapeEnding k = none →
      ((Stage.makeAll s chs).contains k = true ↔ k ∈ (Stage.makeAll s chs).ids) ∧
      (k ∈ (Stage.makeAll s chs).ids ↔
        ∃ t ∈ (Stage.makeAll s chs).root.tags, t.id? = some k)) ∧
    (∀ d, Markup.Document.ofText? text = some d →
      (∀ e ∈ d.elements, e.OwnId d.declared) → s.Coherent) := by
  obtain ⟨d, hd, rfl⟩ := exists_of_load h
  have hu := unique_ofDocument d
  have hids := (hu.makeAll chs).ids
  refine ⟨hids.1, hids.2, hu.coherent_makeAll_iff chs, fun hcoherent k hk => ?_, ?_⟩
  · rw [contains_of_not_shape hk]
    exact hcoherent k
  · intro d' hd' hown
    cases hd.symm.trans hd'
    exact coherent_ofDocument hown

/-- A text takes the place of an element, whose id another element then gets. -/
theorem index_coherent_iff_demo :
    ∃ s, load "<svg><g id=\"g\"><text id=\"t\">x</text></g><rect id=\"a\"/></svg>" = .ok s ∧
      (Stage.makeAll s [.text "g" "y", .attribute "a" "id" (some "t")]).ids = ["g", "t"] ∧
      ∀ made, made <+: [.text "g" "y", .attribute "a" "id" (some "t")] →
        (Stage.makeAll s made).Coherent := by
  let chs : List Change := [.text "g" "y", .attribute "a" "id" (some "t")]
  let text := "<svg><g id=\"g\"><text id=\"t\">x</text></g><rect id=\"a\"/></svg>"
  obtain ⟨s, hload, hcheck⟩ := exists_load_of_any text
    (fun s => decide ((Stage.makeAll s chs).ids = ["g", "t"] ∧ Change.Keep s chs))
    (by decide +kernel)
  obtain ⟨hids, hkeep⟩ := of_decide_eq_true hcheck
  obtain ⟨d, hd, _⟩ := exists_of_load hload
  have hdocument : ((Markup.Document.ofText? text).any fun d =>
      decide (∀ e ∈ d.elements, e.OwnId d.declared)) = true := by decide +kernel
  rw [hd] at hdocument
  obtain ⟨_, _, hiff, _, hfirst⟩ := index_coherent_iff hload chs
  exact ⟨s, hload, hids, hiff.2 ⟨hfirst d hd (of_decide_eq_true hdocument), hkeep⟩⟩

/-- An element whose id was removed is still found, and not listed. -/
theorem removed_id_found :
    ∃ s, load "<svg><rect id=\"a\"/></svg>" = .ok s ∧
      (Stage.makeAll s [.attribute "a" "id" none]).contains "a" = true ∧
      "a" ∉ (Stage.makeAll s [.attribute "a" "id" none]).ids ∧
      ∀ t ∈ (Stage.makeAll s [.attribute "a" "id" none]).root.tags, t.id? ≠ some "a" := by
  obtain ⟨s, hload, hcheck⟩ := exists_load_of_any "<svg><rect id=\"a\"/></svg>"
    (fun s => decide ((Stage.makeAll s [.attribute "a" "id" none]).contains "a" = true ∧
      "a" ∉ (Stage.makeAll s [.attribute "a" "id" none]).ids ∧
      ∀ t ∈ (Stage.makeAll s [.attribute "a" "id" none]).root.tags, t.id? ≠ some "a"))
    (by decide +kernel)
  exact ⟨s, hload, of_decide_eq_true hcheck⟩

end Scene

end Slideshow

/-
  Slideshow.Proofs.Scene.Subtree

  A new text replaces one subtree. The ids of the elements that stood strictly inside are not
  listed any more, all others are, in the same order, on elements with the same attributes, and
  with the same texts unless the new text is inside (`subtree_replaced`). All along the nodes lie
  in one row in which each has one parent at most and none is below itself, and there the same is
  seen as in the tree.
-/
import Mathlib.Logic.Relation
import Slideshow.Proofs.Scene.Allotment

namespace Slideshow

namespace Arena

variable {A : Arena} {i j c : Nat}

/-- The diagram of a text. -/
def load (text : String) : Except LoadFault Arena :=
  match Markup.Document.ofText? text with
  | none => .error .markup
  | some d => if d.name.name == "svg" then .ok (ofDocument d) else .error (.rootName d.name.name)

/-- A node has another one as a child. -/
def Parent (A : Arena) (i c : Nat) : Prop := ∃ item, A.items[i]? = some item ∧ c ∈ item.children

/-- A text that is read as a tree is read as a row as well. -/
theorem exists_load {text : String} {s : Scene} (h : Scene.load text = .ok s) :
    ∃ d, s = Scene.ofDocument d ∧ load text = .ok (ofDocument d) := by
  unfold Scene.load at h
  split at h
  · cases h
  · rename_i d hd
    split at h
    · rename_i hname
      cases h
      refine ⟨d, rfl, ?_⟩
      rw [load, hd]
      exact if_pos hname
    · cases h

/-- Each node has one parent at most, and none is below itself. -/
structure IsForest (A : Arena) : Prop where
  parent_unique : ∀ i j c, A.Parent i c → A.Parent j c → i = j
  acyclic : ∀ i, ¬ Relation.TransGen A.Parent i i

theorem Parent.exists_child? (h : A.Parent i c) : ∃ p, A.child? i p = some c := by
  obtain ⟨item, hitem, hc⟩ := h
  exact Arena.exists_child? hitem hc

theorem isForest (A : Arena) : A.IsForest := by
  refine ⟨fun i j c hi hj => ?_, fun i hi => ?_⟩
  · obtain ⟨p, hp⟩ := hi.exists_child?
    obtain ⟨q, hq⟩ := hj.exists_child?
    exact (child?_injective hp hq).1
  · -- below a node there are only later ones
    have hlt : ∀ {j}, Relation.TransGen A.Parent i j → i < j := by
      intro j hj
      induction hj with
      | single hc =>
        obtain ⟨p, hp⟩ := hc.exists_child?
        exact (lt_of_child? hp).1
      | tail _ hc ih =>
        obtain ⟨p, hp⟩ := hc.exists_child?
        exact Nat.lt_trans ih (lt_of_child? hp).1
    exact Nat.lt_irrefl i (hlt hi)

/-- The same is seen in the row as in the tree. -/
structure SeenAs (A : Arena) (s : Scene) : Prop where
  contains : ∀ key, A.contains key = s.contains key
  text? : ∀ key, A.text? key = s.text? key
  attribute? : ∀ key name, A.attribute? key name = s.attribute? key name
  ids : A.ids = s.ids
  text : A.toText = s.text

theorem Shows.seenAs {s : Scene} (h : Shows A s) : A.SeenAs s where
  contains := h.contains_eq
  text? := h.text?_eq
  attribute? := h.attribute?_eq
  ids := h.ids_eq
  text := h.toText_eq

end Arena

namespace Scene

variable {s start : Scene} {key k : String} {a : Node.Address}

/-- A key that still names something behind a new text is listed still, or it names the first shape
    inside an element that is. -/
theorem Tidy.contains_iff (h : s.Tidy) : s.contains k = true ↔ k ∈ s.ids ∨
    ∃ owner ∈ s.ids, k = owner ++ shapeEnding ∧
      ((s.handleAddress? owner).bind s.shapeInside?).isSome = true := by
  cases hk : s.handleAddress? k with
  | some b =>
    refine iff_of_true ?_ (.inl (h.mem_ids_iff.2 (by rw [hk, Option.isSome_some])))
    rw [contains, resolve?_of_handleAddress? hk, Option.isSome_some]
  | none =>
    have hnot : k ∉ s.ids := by
      rw [h.mem_ids_iff, hk]
      exact Bool.false_ne_true
    rw [contains_iff_of_none hk, or_iff_right hnot]
    refine exists_congr fun owner => ⟨?_, ?_⟩
    · rintro ⟨b, howner, hb, hshape⟩
      refine ⟨h.mem_ids_iff.2 (by rw [hb, Option.isSome_some]), howner, ?_⟩
      rw [hb, Option.bind_some, hshape]
    · rintro ⟨howned, howner, hshape⟩
      obtain ⟨b, hb⟩ := Option.isSome_iff_exists.1 (h.mem_ids_iff.1 howned)
      rw [hb, Option.bind_some] at hshape
      exact ⟨b, howner, hb, hshape⟩

/-- The ids of the elements inside are those that go with a new text. -/
theorem Tidy.hasInside_iff (h : s.Tidy) (hkey : s.resolve? key = some a) (value : String) :
    s.HasInside a k ↔ k ∈ s.ids ∧ k ∉ (s.setText key value).ids := by
  rw [h.ids_setText hkey, List.mem_filter, Bool.not_eq_true', decide_eq_false_iff_not, not_and,
    not_not]
  refine ⟨fun hinside => ⟨?_, fun _ => hinside⟩, fun hboth => hboth.2 hboth.1⟩
  obtain ⟨b, hb, _⟩ := hinside
  rw [h.mem_ids_iff, hb, Option.isSome_some]

/-- In every diagram that comes from a loaded one by changes that write no id, and in which no
    element has two attributes of the same name, a text can be set under every key that names an
    element, and is read under it then. The ids of the elements strictly inside go, and no key
    names anything then but the ids that are left and shapes inside their elements. What is left
    is listed in the same order, with the same attributes, and with the same text unless the new
    one is inside. All along, the row of nodes that is changed in place is a forest, in which the
    same is seen. -/
theorem subtree_replaced {text : String} (hload : load text = .ok start) {chs : List Change}
    (hchs : ∀ ch ∈ chs, ch.SparesIds) (hdistinct : (Stage.makeAll start chs).Distinct)
    (hkey : (Stage.makeAll start chs).resolve? key = some a) (value : String) :
    let s := Stage.makeAll start chs
    let t := s.setText key value
    s.contains key = true ∧ t.text? key = some value ∧
    (∀ k, s.HasInside a k ↔ k ∈ s.ids ∧ k ∉ t.ids) ∧
    (∀ k, t.contains k = true ↔ k ∈ t.ids ∨
      ∃ owner ∈ t.ids, k = owner ++ shapeEnding ∧
        ((t.handleAddress? owner).bind t.shapeInside?).isSome = true) ∧
    t.ids = s.ids.filter (fun k => !decide (s.HasInside a k)) ∧
    (∀ k ∈ t.ids, ∃ tag ∈ s.tag? k, t.tag? k = some tag) ∧
    (∀ k ∈ t.ids, (∀ b ∈ s.handleAddress? k, ¬ b <+: a) → t.text? k = s.text? k) ∧
    ∃ A, Arena.load text = .ok A ∧ ∀ made, made <+: chs ++ [.text key value] →
      (A.makeAll made).IsForest ∧ (A.makeAll made).SeenAs (Stage.makeAll start made) := by
  obtain ⟨d, rfl, hrow⟩ := Arena.exists_load hload
  have hstart := tidy_of_distinct hchs hdistinct
  have htidy := hstart.makeAll hchs
  intro s t
  have hfound : s.contains key = true := by rw [contains, hkey, Option.isSome_some]
  refine ⟨hfound, text?_setText_self hkey value, fun k => htidy.hasInside_iff hkey value,
    fun k => (htidy.setText hkey value).contains_iff, htidy.ids_setText hkey value,
    fun k hk => htidy.exists_tag_setText hkey hk, fun k hk => htidy.text?_setText hkey hk,
    Arena.ofDocument d, hrow, fun made hmade => ⟨Arena.isForest _, ?_⟩⟩
  have hspares : ∀ ch ∈ made, ch.SparesIds := by
    intro ch hch
    rcases List.mem_append.1 (hmade.subset hch) with hch | hch
    · exact hchs ch hch
    · rw [List.mem_singleton.1 hch]
      trivial
  exact ((Arena.shows_ofDocument hstart).makeAll hspares).seenAs

/-- A text takes the place of a group, behind another change. -/
theorem subtree_replaced_demo :
    ∃ s, load "<svg><g id=\"g\"><text id=\"t\">x</text></g><rect id=\"a\"/></svg>" = .ok s ∧
      let t := (Stage.makeAll s [.attribute "a" "fill" (some "red")]).setText "g" "y"
      t.text? "g" = some "y" ∧ t.ids = ["g", "a"] ∧ ∃ A : Arena, A.IsForest ∧ A.SeenAs t := by
  let text := "<svg><g id=\"g\"><text id=\"t\">x</text></g><rect id=\"a\"/></svg>"
  let chs : List Change := [.attribute "a" "fill" (some "red")]
  obtain ⟨s, hload, hcheck⟩ := exists_load_of_any text
    (fun s => decide ((Stage.makeAll s chs).Distinct ∧
      (Stage.makeAll s chs).resolve? "g" = some [0, 0] ∧
      ((Stage.makeAll s chs).ids.filter fun k =>
        !decide ((Stage.makeAll s chs).HasInside [0, 0] k)) = ["g", "a"]))
    (by decide +kernel)
  obtain ⟨hdistinct, hkey, hids⟩ := of_decide_eq_true hcheck
  have hspares : ∀ ch ∈ chs, ch.SparesIds := by decide
  obtain ⟨_, htext, _, _, hlisted, _, _, A, _, hrow⟩ :=
    subtree_replaced hload hspares hdistinct hkey "y"
  exact ⟨s, hload, htext, hlisted.trans hids, A.makeAll (chs ++ [.text "g" "y"]),
    hrow _ (List.prefix_refl _)⟩

/-- An id of an element inside still names something, if it reads like a shape of another one. -/
theorem removed_id_names_shape :
    ∃ s a, load "<svg><g id=\"e\"><rect id=\"g::shape\"/></g><g id=\"g\"><rect/></g></svg>" =
        .ok s ∧ s.Distinct ∧ s.resolve? "e" = some a ∧ s.HasInside a "g::shape" ∧
      (s.setText "e" "v").contains "g::shape" = true := by
  let text := "<svg><g id=\"e\"><rect id=\"g::shape\"/></g><g id=\"g\"><rect/></g></svg>"
  obtain ⟨s, hload, hcheck⟩ := exists_load_of_any text
    (fun s => decide (s.Distinct ∧ s.resolve? "e" = some [0, 0] ∧
      s.HasInside [0, 0] "g::shape" ∧ (s.setText "e" "v").contains "g::shape" = true))
    (by decide +kernel)
  exact ⟨s, [0, 0], hload, of_decide_eq_true hcheck⟩

end Scene

end Slideshow

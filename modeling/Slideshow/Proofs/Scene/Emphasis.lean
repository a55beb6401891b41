/-
  Slideshow.Proofs.Scene.Emphasis

  Where emphasis lands. The search for a shape finds the first one in document order
  (`find?_first`), and in a tidy scene the key that is given for it, its own handle or the ending
  behind that of the element around it, leads back to it (`Tidy.resolve?_shapeKey`). The main
  statement is `emphasis_first_shape`.
-/
import Slideshow.Proofs.Scene.Inside

namespace Slideshow

namespace Node

/-! ## Document order -/

/-- One address comes before another one in document order: an element before what is inside it,
    and a child with everything inside before the next one. -/
inductive Address.Before : Address → Address → Prop
  | inside (i : Nat) (is : Address) : Before [] (i :: is)
  | beside {i j : Nat} (h : i < j) (is js : Address) : Before (i :: is) (j :: js)
  | within (i : Nat) {is js : Address} (h : Before is js) : Before (i :: is) (i :: js)

theorem Address.Before.behind_prefix {a b : Address} (h : a.Before b) (o : Address) :
    Address.Before (o ++ a) (o ++ b) := by
  induction o with
  | nil => exact h
  | cons i _ ih => exact .within i ih

variable {p : Tag → Bool} {t : Tag}

/-- An element that has a property is found, or another one. -/
theorem isSome_find?_of_tagAt? {n : Node} {a : Address} (h : n.tagAt? a = some t)
    (hp : p t = true) : (n.find? p).isSome = true := by
  obtain ⟨_, hat⟩ := exists_of_tagAt? h
  exact (isSome_find?_iff n).2 ⟨t, mem_tags_of_at? hat List.mem_cons_self, hp⟩

/-- Nothing is found in the nodes before the one in which something is found first. -/
theorem find?_eq_none_of_lt {ns : List Node} {i : Nat} {is : Address}
    (h : listFind? p ns = some (i :: is)) {j : Nat} {m : Node} (hm : ns[j]? = some m) (hj : j < i) :
    m.find? p = none := by
  induction ns generalizing i j with
  | nil => cases hm
  | cons n ns ih =>
    rw [listFind?] at h
    cases hn : n.find? p with
    | some a =>
      rw [hn] at h
      cases h
      cases hj
    | none =>
      rw [hn] at h
      obtain ⟨c, hc, hi⟩ := Option.map_eq_some_iff.1 h
      obtain ⟨k, ks, _, rfl, _⟩ := exists_of_listFind? c hc
      cases hi
      cases j with
      | zero =>
        cases hm
        exact hn
      | succ j => exact ih hc hm (Nat.lt_of_succ_lt_succ hj)

/-- What is found first among nodes comes before all else among them that has the property, if
    that is so in each of them. -/
theorem listFind?_first {ns : List Node}
    (hns : ∀ n ∈ ns, ∀ a b t, n.find? p = some a → n.tagAt? b = some t → p t = true →
      a = b ∨ a.Before b)
    {a : Address} (h : listFind? p ns = some a) {j : Nat} {js : Address} {m : Node}
    (hm : ns[j]? = some m) (ht : m.tagAt? js = some t) (hp : p t = true) :
    a = j :: js ∨ a.Before (j :: js) := by
  obtain ⟨i, is, n, rfl, hn, hfind⟩ := exists_of_listFind? a h
  rcases Nat.lt_trichotomy i j with hbefore | rfl | hbehind
  · exact .inr (.beside hbefore is js)
  · cases hn.symm.trans hm
    rcases hns m (List.mem_of_getElem? hm) is js t hfind ht hp with rfl | hwithin
    · exact .inl rfl
    · exact .inr (.within i hwithin)
  · -- the other element would have been found first
    have hsome := isSome_find?_of_tagAt? ht hp
    rw [find?_eq_none_of_lt h hm hbehind] at hsome
    cases hsome

/-- What is found in a node is the first in document order that has the property. -/
theorem find?_first (n : Node) : ∀ a b t, n.find? p = some a → n.tagAt? b = some t →
    p t = true → a = b ∨ a.Before b := by
  induction n using Node.induction with
  | text s =>
    intro a b t h
    cases h
  | element tag children ih =>
    intro a b t h ht hp
    rw [find?] at h
    split at h
    · cases h
      cases b with
      | nil => exact .inl rfl
      | cons j js => exact .inr (.inside j js)
    · rename_i hnot
      cases b with
      | nil =>
        cases ht
        exact absurd hp hnot
      | cons j js =>
        rw [tagAt?_cons] at ht
        obtain ⟨m, hm, ht⟩ := Option.bind_eq_some_iff.1 ht
        exact listFind?_first ih h hm ht hp

end Node

namespace Scene

variable {s start : Scene} {key x : String} {a b : Node.Address} {tag shape : Tag}

/-! ## Shapes inside an element -/

/-- There is a shape at an address. -/
def ShapeAt (s : Scene) (a : Node.Address) : Prop :=
  ∃ t ∈ s.forest.tagAt? a, t.isShape = true

instance (s : Scene) (a : Node.Address) : Decidable (s.ShapeAt a) :=
  inferInstanceAs (Decidable (∃ t, t ∈ s.forest.tagAt? a ∧ t.isShape = true))

/-- The first shape strictly inside the element at an address, in document order. -/
structure FirstShape (s : Scene) (a b : Node.Address) : Prop where
  inside : a.Inside b
  shape : s.ShapeAt b
  first : ∀ c, a.Inside c → s.ShapeAt c → b = c ∨ b.Before c

theorem shapeAt_iff (h : s.forest.tagAt? a = some tag) : s.ShapeAt a ↔ tag.isShape = true := by
  rw [ShapeAt, h]
  exact ⟨fun ⟨t, ht, hshape⟩ => Option.some.inj ht ▸ hshape, fun hshape => ⟨tag, rfl, hshape⟩⟩

/-- The search for a shape finds the first one. -/
theorem firstShape_of_shapeInside? (h : s.shapeInside? a = some b) : s.FirstShape a b := by
  obtain ⟨n, hn, h⟩ := Option.bind_eq_some_iff.1 h
  obtain ⟨c, hc, rfl⟩ := Option.map_eq_some_iff.1 h
  obtain ⟨i, is, m, rfl, hm, hfind⟩ := Node.exists_of_listFind? c hc
  obtain ⟨t, children, hat, hshape⟩ := Node.exists_of_find? m is hfind
  refine ⟨Node.Address.inside_iff.2 ⟨i, is, rfl⟩, ⟨t, ?_, hshape⟩, ?_⟩
  · rw [Option.mem_def, Node.tagAt?_append hn, Node.tagAt?_cons, hm, Option.bind_some, Node.tagAt?,
      hat]
    rfl
  · rintro c hinside ⟨u, hu, hushape⟩
    obtain ⟨j, js, rfl⟩ := Node.Address.inside_iff.1 hinside
    rw [Option.mem_def, Node.tagAt?_append hn, Node.tagAt?_cons] at hu
    obtain ⟨m', hm', hu⟩ := Option.bind_eq_some_iff.1 hu
    rcases Node.listFind?_first (fun n _ => n.find?_first) hc hm' hu hushape with heq | hbefore
    · exact .inl (by rw [heq])
    · exact .inr (hbefore.behind_prefix a)

/-- A shape is found exactly if there is one strictly inside. -/
theorem isSome_shapeInside?_iff (ha : (s.forest.at? a).isSome = true) :
    (s.shapeInside? a).isSome = true ↔ ∃ c, a.Inside c ∧ s.ShapeAt c := by
  constructor
  · intro h
    obtain ⟨b, hb⟩ := Option.isSome_iff_exists.1 h
    have hfirst := firstShape_of_shapeInside? hb
    exact ⟨b, hfirst.inside, hfirst.shape⟩
  · rintro ⟨c, hinside, t, ht, hshape⟩
    obtain ⟨n, hn⟩ := Option.isSome_iff_exists.1 ha
    obtain ⟨j, js, rfl⟩ := Node.Address.inside_iff.1 hinside
    rw [Option.mem_def, Node.tagAt?_append hn, Node.tagAt?_cons] at ht
    obtain ⟨m, hm, ht⟩ := Option.bind_eq_some_iff.1 ht
    obtain ⟨_, hat⟩ := Node.exists_of_tagAt? ht
    have hmem : t ∈ Node.listTags n.children := by
      rw [Node.listTags_eq_flatMap]
      exact List.mem_flatMap.2
        ⟨m, List.mem_of_getElem? hm, Node.mem_tags_of_at? hat List.mem_cons_self⟩
    rw [shapeInside?, hn, Option.bind_some, Option.isSome_map]
    exact Node.isSome_listFind? (fun n _ => (Node.isSome_find?_iff n).2) ⟨t, hmem, hshape⟩

/-! ## The key of a shape -/

/-- The key of a shape inside the element that a key names. -/
def shapeKey (key : String) (shape : Tag) : String :=
  if shape.isIndexed then shape.handle.getD key else key ++ shapeEnding

/-- What is emphasized is the element itself if it is a shape, or else the shape that is found
    inside. -/
theorem emphasisTarget?_eq (hkey : s.resolve? key = some a) (hat : s.forest.tagAt? a = some tag) :
    s.emphasisTarget? key = if tag.isShape then some key else
      (s.shapeInside? a).bind fun b => (s.forest.tagAt? b).map (shapeKey key) := by
  have htag : (s.forest.at? a).bind Node.tag? = some tag := hat
  rw [emphasisTarget?, hkey]
  simp only [Option.bind_eq_bind, Option.bind_some, htag, Option.pure_def]
  split
  · rfl
  · refine congrArg _ (funext fun b => ?_)
    rw [Node.tagAt?]
    cases (s.forest.at? b).bind Node.tag? <;> rfl

/-- Something is emphasized exactly if the element is a shape or has one strictly inside. -/
theorem isSome_emphasisTarget?_iff (hkey : s.resolve? key = some a)
    (hat : s.forest.tagAt? a = some tag) : (s.emphasisTarget? key).isSome = true ↔
      s.ShapeAt a ∨ ∃ b, a.Inside b ∧ s.ShapeAt b := by
  have hsome : (s.forest.at? a).isSome = true := by
    obtain ⟨_, hnode⟩ := Node.exists_of_tagAt? hat
    rw [hnode, Option.isSome_some]
  rw [emphasisTarget?_eq hkey hat, shapeAt_iff hat, ← isSome_shapeInside?_iff hsome]
  split
  · rename_i hshape
    exact iff_of_true rfl (.inl hshape)
  · rename_i hnot
    rw [or_iff_right hnot]
    cases hb : s.shapeInside? a with
    | none => rfl
    | some b =>
      -- there is a tag at the address, so a key is given
      obtain ⟨t, ht, _⟩ := (firstShape_of_shapeInside? hb).shape
      rw [Option.bind_some, Option.mem_def.1 ht]
      rfl

/-- The key of the first shape inside an element leads to that shape, if no id reads like the key
    of a shape inside. -/
theorem Tidy.resolve?_shapeKey (h : s.Tidy) (hplain : ∀ owner, owner ++ shapeEnding ∉ s.ids)
    (hx : s.handleAddress? x = some a) (hb : s.shapeInside? a = some b)
    (hshape : s.forest.tagAt? b = some shape) : s.resolve? (shapeKey x shape) = some b := by
  obtain ⟨children, hat⟩ := Node.exists_of_tagAt? hshape
  unfold shapeKey
  split
  · -- the shape is found under its own id
    rename_i hindexed
    obtain ⟨k, hk⟩ := Option.isSome_iff_exists.1 (Bool.and_eq_true_iff.1 hindexed).1
    rw [hk, Option.getD_some]
    exact resolve?_of_handleAddress? (handleAddress?_of_at? h.unique hat (beq_iff_eq.2 hk))
  · -- no element has the key as its id, so it means the first shape inside the owner
    have hnone : s.handleAddress? (x ++ shapeEnding) = none := by
      rw [← Option.not_isSome_iff_eq_none, ← h.mem_ids_iff]
      exact hplain x
    rw [resolve?, hnone, Text.stripEnding?_eq_some_iff.2 rfl]
    simp only [Option.bind_some, hx, hb]

/-- An id that is listed in a tidy scene names the element of the tree that bears it. -/
theorem Tidy.exists_of_mem_ids (h : s.Tidy) (hx : x ∈ s.ids) :
    ∃ is tag, s.handleAddress? x = some (0 :: is) ∧ s.root.tagAt? is = some tag ∧
      tag.id? = some x := by
  obtain ⟨a, ha⟩ := Option.isSome_iff_exists.1 (h.mem_ids_iff.1 hx)
  obtain ⟨is, tag, children, rfl, hroot⟩ := h.exists_of_resolve? (resolve?_of_handleAddress? ha)
  have hholds : tag.holds x = true := holds_of_handleAddress? ha hroot
  have hlists := h.listed tag (Node.mem_tags_of_at? hroot List.mem_cons_self) x hholds
  exact ⟨is, tag, ha, by rw [Node.tagAt?, hroot]; rfl, eq_of_beq (Bool.and_eq_true_iff.1 hlists).2⟩

/-- The key that is given names the element itself if it is a shape, or else the first shape inside
    it. -/
theorem Tidy.exists_of_emphasisTarget? (h : s.Tidy)
    (hplain : ∀ owner, owner ++ shapeEnding ∉ s.ids) (hx : s.handleAddress? x = some a)
    (hat : s.forest.tagAt? a = some tag) (hmem : key ∈ s.emphasisTarget? x) :
    ∃ b, s.resolve? key = some b ∧ (s.ShapeAt a → b = a) ∧
      (¬ s.ShapeAt a → s.FirstShape a b) := by
  have hkey : s.resolve? x = some a := resolve?_of_handleAddress? hx
  rw [emphasisTarget?_eq hkey hat] at hmem
  rw [shapeAt_iff hat]
  split at hmem
  · rename_i hshape
    cases hmem
    exact ⟨a, hkey, fun _ => rfl, fun hnot => absurd hshape hnot⟩
  · rename_i hnot
    obtain ⟨b, hb, hmem⟩ := Option.bind_eq_some_iff.1 hmem
    obtain ⟨shape, hshape, rfl⟩ := Option.map_eq_some_iff.1 hmem
    exact ⟨b, h.resolve?_shapeKey hplain hx hb hshape, fun hshape => absurd hshape hnot,
      fun _ => firstShape_of_shapeInside? hb⟩

/-- In every diagram that comes from a loaded one by changes that write no id, and in which no
    element, in the tree or taken out of it, has two attributes of the same name and no id ends
    like the key of a shape inside another element: something is emphasized for an id exactly if
    the element that bears it is a shape or has one inside. The key that is given then names the
    element itself if it is a shape, and otherwise the first shape in document order strictly
    inside, with whatever id, and whether or not another element has that id too. -/
theorem emphasis_first_shape {text : String} (hload : load text = .ok start) {chs : List Change}
    (hchs : ∀ ch ∈ chs, ch.SparesIds) (hdistinct : (Stage.makeAll start chs).Distinct)
    (hplain : ∀ owner, owner ++ shapeEnding ∉ (Stage.makeAll start chs).ids)
    (hx : x ∈ (Stage.makeAll start chs).ids) :
    let s := Stage.makeAll start chs
    ∃ is tag, s.resolve? x = some (0 :: is) ∧ s.root.tagAt? is = some tag ∧ tag.id? = some x ∧
      ((s.emphasisTarget? x).isSome = true ↔
        s.ShapeAt (0 :: is) ∨ ∃ b, Node.Address.Inside (0 :: is) b ∧ s.ShapeAt b) ∧
      ∀ key ∈ s.emphasisTarget? x, ∃ b, s.resolve? key = some b ∧
        (s.ShapeAt (0 :: is) → b = 0 :: is) ∧
        (¬ s.ShapeAt (0 :: is) → s.FirstShape (0 :: is) b) := by
  obtain ⟨d, _, rfl⟩ := exists_of_load hload
  have htidy := (tidy_of_distinct hchs hdistinct).makeAll hchs
  intro s
  obtain ⟨is, tag, hfound, hroot, hid⟩ := htidy.exists_of_mem_ids hx
  have hkey : s.resolve? x = some (0 :: is) := resolve?_of_handleAddress? hfound
  have htag : s.forest.tagAt? (0 :: is) = some tag := hroot
  exact ⟨is, tag, hkey, hroot, hid, isSome_emphasisTarget?_iff hkey htag,
    fun key hmem => htidy.exists_of_emphasisTarget? hplain hfound htag hmem⟩

/-- The first shape of a group is deep inside, and another element has its id. -/
theorem emphasis_first_shape_demo :
    ∃ s,
      load "<svg><rect id=\"a\"/><g id=\"g\"><g><circle id=\"a\"/></g><path/></g></svg>" = .ok s ∧
      let t := Stage.makeAll s [.attribute "a" "fill" (some "red")]
      t.emphasisTarget? "g" = some "g::shape" ∧ t.resolve? "g::shape" = some [0, 1, 0, 0] ∧
        t.FirstShape [0, 1] [0, 1, 0, 0] := by
  let text := "<svg><rect id=\"a\"/><g id=\"g\"><g><circle id=\"a\"/></g><path/></g></svg>"
  let chs : List Change := [.attribute "a" "fill" (some "red")]
  obtain ⟨s, hload, hcheck⟩ := exists_load_of_any text
    (fun s => let t := Stage.makeAll s chs
      decide (t.Distinct ∧ (∀ k ∈ t.ids, Text.stripEnding? shapeEnding k = none) ∧ "g" ∈ t.ids ∧
        t.resolve? "g" = some [0, 1] ∧ ¬ t.ShapeAt [0, 1] ∧
        t.emphasisTarget? "g" = some "g::shape" ∧ t.resolve? "g::shape" = some [0, 1, 0, 0]))
    (by decide +kernel)
  obtain ⟨hdistinct, hnone, hx, hgroup, hnot, hkey, hshape⟩ := of_decide_eq_true hcheck
  have hplain : ∀ owner, owner ++ shapeEnding ∉ (Stage.makeAll s chs).ids := fun owner hmem => by
    have hending := hnone _ hmem
    rw [Text.stripEnding?_eq_some_iff.2 rfl] at hending
    cases hending
  have hspares : ∀ ch ∈ chs, ch.SparesIds := by decide
  obtain ⟨_, _, hfound, _, _, _, hlands⟩ :=
    emphasis_first_shape hload hspares hdistinct hplain hx
  cases hgroup.symm.trans hfound
  obtain ⟨b, hb, _, hfirst⟩ := hlands _ hkey
  cases hshape.symm.trans hb
  exact ⟨s, hload, hkey, hshape, hfirst hnot⟩

end Scene

end Slideshow

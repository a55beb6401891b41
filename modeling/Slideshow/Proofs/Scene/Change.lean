/-
  Slideshow.Proofs.Scene.Change

  Single changes to a diagram, and what can be read off it after several. A change that is
  plain, because the id is not touched and no elements stand inside a new text, keeps the
  skeleton and gives one cell a value. So after several plain changes a cell holds what was
  written to it last (`cell?_makeAll`), and diagrams with the same skeleton and cells look
  the same (`Alike`).
-/
import Slideshow.Proofs.Scene.Cell
import Slideshow.Scene.Stage

namespace Slideshow

/-! ## Attributes of a tag -/

namespace Tag

theorem find?_setIn (name value other : String) (attrs : List (String × String)) :
    ((setIn name value attrs).find? fun a => a.1 == other).map (·.2) =
      if name = other then some value else (attrs.find? fun a => a.1 == other).map (·.2) := by
  induction attrs with
  | nil => by_cases h : name = other <;> simp [setIn, h]
  | cons a rest ih =>
    unfold setIn
    split
    · rename_i ha
      by_cases h : name = other
      · simp [h]
      · have ha' : a.1 ≠ other := fun heq => h (ha.symm.trans heq)
        simp [h, ha']
    · rename_i ha
      by_cases ha' : a.1 = other
      · have h : name ≠ other := fun heq => ha (ha'.trans heq.symm)
        simp [h, ha']
      · have hne : (a.1 == other) = false := beq_false_of_ne ha'
        rw [List.find?_cons, hne, List.find?_cons, hne]
        exact ih

/-- A new value is found under its name, and the other values stay. -/
theorem get?_set (t : Tag) (name value other : String) :
    (t.set name value).get? other = if name = other then some value else t.get? other :=
  find?_setIn name value other t.attrs

theorem get?_erase (t : Tag) (name other : String) :
    (t.erase name).get? other = if name = other then none else t.get? other := by
  simp only [get?, erase, List.find?_filter]
  by_cases h : name = other
  · subst h
    simp
  · rw [if_neg h]
    congr 1
    refine congrArg (fun p => List.find? p t.attrs) (funext fun a => ?_)
    by_cases ha : a.1 = other
    · have hne : other ≠ name := fun heq => h heq.symm
      simp [ha, hne]
    · simp [ha]

end Tag

namespace Scene

variable {s t : Scene} {key : String} {a : Node.Address}

/-! ## Skeleton and cells of a diagram -/

/-- What remains of a diagram when attributes and texts are left out. -/
def skeleton (s : Scene) : Node := s.forest.skeleton

/-- What a cell of a diagram holds. -/
def cell? (s : Scene) (c : Cell) : Option String := s.forest.cell? c

/-- A handle is no attribute, so the skeleton has it. -/
theorem handleAddress?_congr (h : s.skeleton = t.skeleton) (handle : String) :
    s.handleAddress? handle = t.handleAddress? handle := by
  have hforest : s.forest.skeleton = t.forest.skeleton := h
  have hp : ∀ tag : Tag, (tag.bare.handle == some handle) = (tag.handle == some handle) :=
    fun _ => rfl
  rw [handleAddress?, handleAddress?, ← Node.find?_skeleton hp s.forest, hforest,
    Node.find?_skeleton hp]

/-- Shapes are told by the names of their elements, so the skeleton has them. -/
theorem shapeInside?_congr (h : s.skeleton = t.skeleton) (a : Node.Address) :
    s.shapeInside? a = t.shapeInside? a := by
  have hforest : s.forest.skeleton = t.forest.skeleton := h
  have hp : ∀ tag : Tag, tag.bare.isShape = tag.isShape := fun _ => rfl
  have hinside := Node.findInside?_skeleton hp a s.forest
  rw [hforest, Node.findInside?_skeleton hp] at hinside
  have hmap := congrArg (Option.map fun b => a ++ b) hinside
  rw [Option.map_bind, Option.map_bind] at hmap
  exact hmap.symm

/-- Keys name the same elements in diagrams with the same skeleton. -/
theorem resolve?_congr (h : s.skeleton = t.skeleton) (key : String) :
    s.resolve? key = t.resolve? key := by
  have hshape : s.shapeInside? = t.shapeInside? := funext (shapeInside?_congr h)
  simp only [resolve?, handleAddress?_congr h, hshape]

theorem contains_congr (h : s.skeleton = t.skeleton) (key : String) :
    s.contains key = t.contains key := by
  rw [contains, contains, resolve?_congr h]

theorem exists_of_handleAddress? {handle : String} (h : s.handleAddress? handle = some a) :
    ∃ tag children, s.forest.at? a = some (.element tag children) ∧ a ≠ [] := by
  obtain ⟨tag, children, hat, htag⟩ := Node.exists_of_find? _ a h
  refine ⟨tag, children, hat, ?_⟩
  -- the whole has no handle
  rintro rfl
  cases hat
  cases htag

/-- A key names an element, and not the whole of tree and detached nodes. -/
theorem exists_of_resolve? (h : s.resolve? key = some a) :
    ∃ tag children, s.forest.at? a = some (.element tag children) ∧ a ≠ [] := by
  unfold resolve? at h
  split at h
  · rename_i a' ha'
    cases h
    exact exists_of_handleAddress? ha'
  · -- the key means a shape inside the element that it names
    obtain ⟨owner, _, h⟩ := Option.bind_eq_some_iff.1 h
    obtain ⟨b, hb, h⟩ := Option.bind_eq_some_iff.1 h
    obtain ⟨n, hn, h⟩ := Option.bind_eq_some_iff.1 h
    obtain ⟨c, hc, rfl⟩ := Option.map_eq_some_iff.1 h
    obtain ⟨i, is, m, rfl, hm, hfind⟩ := Node.exists_of_listFind? c hc
    obtain ⟨tag, children, hat, _⟩ := Node.exists_of_find? m is hfind
    refine ⟨tag, children, ?_, by simp⟩
    rw [Node.at?_append, hn, Option.bind_some, Node.at?, hm]
    exact hat

theorem attribute?_eq_cell? (s : Scene) (key name : String) :
    s.attribute? key name = (s.resolve? key).bind fun a => s.cell? ⟨a, .attribute name⟩ := by
  simp only [attribute?, tag?, cell?, Node.cell?]
  cases s.resolve? key with
  | none => rfl
  | some a =>
    simp only [Option.bind_some]
    cases s.forest.at? a with
    | none => rfl
    | some n => cases n <;> rfl

/-- There are only texts inside the element that a key names, if it names one. -/
def TextOnly (s : Scene) (key : String) : Prop :=
  ∀ n, (s.resolve? key).bind s.forest.at? = some n → n.children.any Node.isElement = false

instance (s : Scene) (key : String) : Decidable (s.TextOnly key) :=
  inferInstanceAs (Decidable (∀ n, n ∈ (s.resolve? key).bind s.forest.at? →
    n.children.any Node.isElement = false))

theorem TextOnly.any_isElement (h : s.TextOnly key) (hkey : s.resolve? key = some a) {tag : Tag}
    {children : List Node} (hat : s.forest.at? a = some (.element tag children)) :
    children.any Node.isElement = false := by
  refine h (.element tag children) ?_
  rw [hkey, Option.bind_some, hat]

/-- The text of an element with only texts inside is a cell. -/
theorem TextOnly.text?_eq_cell? (h : s.TextOnly key) (hkey : s.resolve? key = some a) :
    s.text? key = s.cell? ⟨a, .text⟩ := by
  obtain ⟨tag, children, hat, _⟩ := exists_of_resolve? hkey
  have hnone := h.any_isElement hkey hat
  simp only [text?, hkey, Option.bind_some, hat, Option.map_some, cell?, Node.cell?, Node.part?,
    hnone, Bool.false_eq_true, if_false, Node.textChars]

/-- The elements that a key names in diagrams with the same skeleton have one skeleton. -/
theorem skeleton_at? (h : s.skeleton = t.skeleton) {m n : Node} (hm : s.forest.at? a = some m)
    (hn : t.forest.at? a = some n) (hm' : m.isElement = true) (hn' : n.isElement = true) :
    m.skeleton = n.skeleton := by
  have hs := Node.at?_skeleton hm' a _ hm
  have ht := Node.at?_skeleton hn' a _ hn
  have hforest : s.forest.skeleton = t.forest.skeleton := h
  rw [hforest, ht] at hs
  exact (Option.some.inj hs).symm

theorem TextOnly.congr (h : s.TextOnly key) (hskel : s.skeleton = t.skeleton) :
    t.TextOnly key := by
  intro n hn
  obtain ⟨a, ha, hat⟩ := Option.bind_eq_some_iff.1 hn
  have ha' : s.resolve? key = some a := by rw [resolve?_congr hskel, ha]
  obtain ⟨tag, children, hat', _⟩ := exists_of_resolve? ha'
  obtain ⟨tag', children', hat'', _⟩ := exists_of_resolve? ha
  rw [hat''] at hat
  cases hat
  have hnone := h.any_isElement ha' hat'
  rw [Node.any_isElement_of_skeleton_eq (skeleton_at? hskel hat' hat'' rfl rfl)] at hnone
  exact hnone

/-! ## Diagrams that look the same -/

/-- The same skeleton and the same cells. -/
structure Alike (s t : Scene) : Prop where
  skeleton : s.skeleton = t.skeleton
  cells : ∀ c, s.cell? c = t.cell? c

theorem Alike.attribute? (h : Alike s t) (key name : String) :
    s.attribute? key name = t.attribute? key name := by
  simp only [attribute?_eq_cell?, resolve?_congr h.skeleton, h.cells]

/-- A text depends on the skeleton and on the texts among the cells. -/
theorem text?_congr (h : s.skeleton = t.skeleton)
    (hcells : ∀ a, s.cell? ⟨a, .text⟩ = t.cell? ⟨a, .text⟩) (key : String) :
    s.text? key = t.text? key := by
  simp only [Scene.text?, resolve?_congr h]
  cases hkey : t.resolve? key with
  | none => rfl
  | some a =>
    have hkey' : s.resolve? key = some a := by rw [resolve?_congr h, hkey]
    obtain ⟨tag, children, hat, _⟩ := exists_of_resolve? hkey
    obtain ⟨tag', children', hat', _⟩ := exists_of_resolve? hkey'
    have hinside : Node.SameCells (· = .text) (.element tag' children')
        (.element tag children) := by
      rintro ⟨b, _⟩ rfl
      have hc := hcells (a ++ b)
      simpa only [Scene.cell?, Node.cell?, Node.at?_append, hat, hat', Option.bind_some] using hc
    rw [Option.bind_some, Option.bind_some, hat, hat', Option.map_some, Option.map_some,
      Node.textChars_eq _ _ (skeleton_at? h hat' hat rfl rfl) hinside]

theorem Alike.text? (h : Alike s t) (key : String) : s.text? key = t.text? key :=
  text?_congr h.skeleton (fun a => h.cells ⟨a, .text⟩) key

/-- The ids that stand in the elements are attributes, and the handles are in the skeleton. -/
theorem Alike.ids (h : Alike s t) : s.ids = t.ids := by
  have hroot : s.root.skeleton = t.root.skeleton :=
    skeleton_at? (a := [0]) h.skeleton rfl rfl rfl rfl
  have hcells : Node.SameCells (fun _ => True) s.root t.root :=
    fun c _ => h.cells ⟨0 :: c.address, c.part⟩
  have hids : ∀ s : Scene, s.ids = (s.root.tags.map Node.look).filterMap fun l =>
      if l.1.handle.isSome && l.1.handle == l.2 "id" then l.1.handle else none := by
    intro s
    rw [Scene.ids, List.filterMap_filter, List.filterMap_map]
    rfl
  rw [hids, hids, Node.look_tags_eq _ _ hroot hcells]

/-- What the camera shows depends on three attributes of the root element. -/
theorem Alike.viewport? (h : Alike s t) : s.viewport? = t.viewport? := by
  have hroot : ∀ name, s.tag.get? name = t.tag.get? name := fun name =>
    h.cells ⟨[0], .attribute name⟩
  simp only [Scene.viewport?, length?, hroot]

end Scene

/-! ## Changes -/

/-- One change to a diagram. -/
inductive Change where
  | text (key value : String)
  /-- The attribute gets a new value, or is removed. -/
  | attribute (key name : String) (value : Option String)
  | camera (frame : Rect)

/-- The cell that says what the camera shows. -/
def Cell.camera : Cell := ⟨[0], .attribute "viewBox"⟩

namespace Change

/-- The cell that a change is about, if the diagram has it. -/
def cell? (s : Scene) : Change → Option Cell
  | .text key _ => (s.resolve? key).map fun a => ⟨a, .text⟩
  | .attribute key name _ => (s.resolve? key).map fun a => ⟨a, .attribute name⟩
  | .camera _ => some .camera

/-- What the cell holds after the change. -/
def value : Change → Option String
  | .text _ value => some value
  | .attribute _ _ value => value
  | .camera frame => some frame.viewBox

/-- A new text does not take the place of elements, and the id stays. -/
def Plain (s : Scene) : Change → Prop
  | .text key _ => s.TextOnly key
  | .attribute key name _ => s.contains key = true → name ≠ "id"
  | .camera _ => True

instance (s : Scene) : (ch : Change) → Decidable (ch.Plain s)
  | .text key _ => inferInstanceAs (Decidable (s.TextOnly key))
  | .attribute key name _ => inferInstanceAs (Decidable (s.contains key = true → name ≠ "id"))
  | .camera _ => .isTrue trivial

theorem cell?_congr {s t : Scene} (h : s.skeleton = t.skeleton) (ch : Change) :
    ch.cell? s = ch.cell? t := by
  cases ch <;> simp only [cell?, Scene.resolve?_congr h]

theorem Plain.congr {s t : Scene} {ch : Change} (h : ch.Plain s) (hskel : s.skeleton = t.skeleton) :
    ch.Plain t := by
  cases ch with
  | text => exact Scene.TextOnly.congr h hskel
  | camera => trivial
  | _ =>
    intro hkey
    rw [← Scene.contains_congr hskel] at hkey
    exact h hkey

/-- A change is plain that is about an attribute other than the id, or about nothing. -/
theorem plain_of_cell? {s : Scene} {ch : Change}
    (h : ∀ c, ch.cell? s = some c → ∃ name, c.part = .attribute name ∧ name ≠ "id") :
    ch.Plain s := by
  cases ch with
  | camera => trivial
  | text key value =>
    intro n hn
    obtain ⟨a, ha, _⟩ := Option.bind_eq_some_iff.1 hn
    obtain ⟨name, hpart, _⟩ := h ⟨a, .text⟩ (by rw [cell?, ha, Option.map_some])
    cases hpart
  | _ key name value =>
    intro hkey
    obtain ⟨a, ha⟩ := Option.isSome_iff_exists.1 hkey
    obtain ⟨name', hpart, hid⟩ := h ⟨a, .attribute name⟩ (by rw [cell?, ha, Option.map_some])
    cases hpart
    exact hid

end Change

namespace Stage

variable {S : Type} [Stage S]

/-- Makes a change. -/
def make (s : S) : Change → S
  | .text key value => setText s key value
  | .attribute key name (some value) => setAttribute s key name value
  | .attribute key name none => removeAttribute s key name
  | .camera frame => setViewport s frame

/-- Makes changes one after another. -/
def makeAll (s : S) (chs : List Change) : S := chs.foldl make s

theorem makeAll_cons (s : S) (ch : Change) (chs : List Change) :
    makeAll s (ch :: chs) = makeAll (make s ch) chs := rfl

theorem makeAll_append (s : S) (chs chs' : List Change) :
    makeAll s (chs ++ chs') = makeAll (makeAll s chs) chs' := List.foldl_append

end Stage

namespace Scene

variable {s t : Scene} {key : String} {a : Node.Address}

/-! ## Making one change -/

/-- A change to the element at an address, which makes it a new element. -/
theorem forest_modify {f : Tag → List Node → Node} {tag : Tag} {children : List Node}
    (ha : a ≠ []) (hat : s.forest.at? a = some (.element tag children))
    (hf : (f tag children).isElement = true) :
    (s.modify a f).forest = s.forest.modify f a := by
  cases a with
  | nil => exact absurd rfl ha
  | cons i is =>
    cases i with
    | succ i => rfl
    | zero =>
      cases is with
      | cons => rfl
      | nil =>
        cases hat
        cases hnew : f s.tag s.children with
        | text => rw [hnew] at hf; cases hf
        | element tag' children' =>
          simp only [modify, forest, Node.modify, root, List.modify_zero_cons, hnew]

theorem namespaces_modify (s : Scene) (a : Node.Address) (f : Tag → List Node → Node) :
    (s.modify a f).namespaces = s.namespaces := by
  unfold modify
  split <;> rfl

/-- A diagram that differs from another one at most in what one cell holds, if any does. -/
structure Rewritten (s : Scene) (at? : Option Cell) (value : Option String) (t : Scene) : Prop where
  skeleton : t.skeleton = s.skeleton
  self : ∀ c, at? = some c → t.cell? c = value
  other : ∀ c, at? ≠ some c → t.cell? c = s.cell? c

theorem Rewritten.refl (s : Scene) (value : Option String) : Rewritten s none value s :=
  ⟨rfl, (fun c h => by cases h), fun _ _ => rfl⟩

/-- A change to an element that keeps all parts but one. -/
theorem rewritten_modify {f : Tag → List Node → Node} {tag : Tag} {children : List Node}
    (ha : s.resolve? key = some a ∨ a = [0])
    (hat : s.forest.at? a = some (.element tag children)) (part : Cell.Part)
    (hskel : (f tag children).skeleton = (Node.element tag children).skeleton)
    (hinside : ∀ i is part, (f tag children).cell? ⟨i :: is, part⟩ =
      (Node.element tag children).cell? ⟨i :: is, part⟩)
    (hother : ∀ part', part' ≠ part →
      (f tag children).part? part' = (Node.element tag children).part? part') :
    Rewritten s (some ⟨a, part⟩) ((f tag children).part? part) (s.modify a f) := by
  have hne : a ≠ [] := by
    rcases ha with ha | rfl
    · obtain ⟨_, _, _, hne⟩ := exists_of_resolve? ha
      exact hne
    · exact List.cons_ne_nil _ _
  have helement : (f tag children).isElement = true := by
    rw [← Node.isElement_skeleton, hskel]
    rfl
  have hforest := forest_modify hne hat helement
  have hcell := Node.cell?_modify hskel hinside a _ hat
  refine ⟨?_, ?_, ?_⟩
  · rw [skeleton, hforest]
    exact Node.skeleton_modify hskel a _ hat
  · rintro c hc
    cases hc
    rw [cell?, hforest, hcell, if_pos rfl]
  · rintro ⟨b, part'⟩ hc
    rw [cell?, hforest, hcell, cell?]
    by_cases hb : b = a
    · subst hb
      have hpart : part' ≠ part := fun heq => hc (by rw [heq])
      rw [if_pos rfl, hother part' hpart, Node.cell?, hat]
      rfl
    · rw [if_neg hb]

/-- A new tag with one attribute changed. -/
theorem rewritten_tag {f : Tag → Tag} (ha : s.resolve? key = some a ∨ a = [0])
    (hbare : ∀ tag, (f tag).bare = tag.bare) {name : String} {value : Option String}
    (hget : ∀ tag other, (f tag).get? other = if name = other then value else tag.get? other) :
    Rewritten s (some ⟨a, .attribute name⟩) value
      (s.modify a fun tag children => .element (f tag) children) := by
  have hat : ∃ tag children, s.forest.at? a = some (.element tag children) := by
    rcases ha with ha | rfl
    · obtain ⟨tag, children, hat, _⟩ := exists_of_resolve? ha
      exact ⟨tag, children, hat⟩
    · exact ⟨s.tag, s.children, rfl⟩
  obtain ⟨tag, children, hat⟩ := hat
  have hskel : (Node.element (f tag) children).skeleton = (Node.element tag children).skeleton := by
    rw [Node.skeleton_element, Node.skeleton_element, hbare]
  have hnew : (Node.element (f tag) children).part? (.attribute name) = value :=
    (hget tag name).trans (if_pos rfl)
  rw [← hnew]
  refine rewritten_modify (f := fun tag children => .element (f tag) children) ha hat _ hskel
    (fun _ _ _ => rfl) ?_
  intro part' hpart
  cases part' with
  | text => rfl
  | _ name' =>
    have hname : name ≠ name' := fun heq => hpart (by rw [heq])
    exact (hget tag name').trans (if_neg hname)

/-- Texts have no handles. -/
theorem filter_hasHandle_of_texts {ns : List Node} (h : ns.any Node.isElement = false)
    (f : Tag → Tag) : (Node.listMapTags f ns).filter hasHandle = [] := by
  induction ns with
  | nil => rfl
  | cons n ns ih =>
    rw [List.any_cons, Bool.or_eq_false_iff] at h
    cases n with
    | element => cases h.1
    | text s =>
      rw [Node.listMapTags, Node.mapTags, List.filter_cons_of_neg (by simp [hasHandle, Node.tags])]
      exact ih h.2

/-- A new text where there were only texts. -/
theorem rewritten_setText (ha : s.resolve? key = some a) (h : s.TextOnly key) (value : String) :
    Rewritten s (some ⟨a, .text⟩) (some value) (s.setText key value) := by
  obtain ⟨tag, children, hat, _⟩ := exists_of_resolve? ha
  have hnone := h.any_isElement ha hat
  -- nothing is detached, since there are no elements inside
  have hset : s.setText key value = s.modify a fun tag _ => .element tag [.text value] := by
    have hkept := filter_hasHandle_of_texts hnone Tag.release
    simp only [setText, ha, hat, Option.map_some, Node.children, Option.getD_some, hkept,
      List.append_nil]
  have hskel :
      (Node.element tag [.text value]).skeleton = (Node.element tag children).skeleton := by
    rw [Node.skeleton_element, Node.skeleton_element, hnone]
    rfl
  have hnew : (Node.element tag [.text value]).part? .text = some value := by
    simp [Node.part?, Node.isElement, Node.listTextChars, Node.textChars]
  rw [hset, ← hnew]
  refine rewritten_modify (f := fun tag _ => .element tag [.text value]) (.inl ha) hat _ hskel ?_ ?_
  · intro i is part
    rw [Node.cell?_of_texts rfl, Node.cell?_of_texts hnone]
  · intro part' hpart
    cases part' with
    | text => exact absurd rfl hpart
    | _ name => rfl

/-- An attribute other than the id is set or removed. -/
theorem rewritten_attribute (ha : s.resolve? key = some a) {name : String} (hid : name ≠ "id")
    (value : Option String) :
    Rewritten s (some ⟨a, .attribute name⟩) value (Stage.make s (.attribute key name value)) := by
  cases value with
  | none =>
    simp only [Stage.make, Stage.removeAttribute, removeAttribute, ha]
    exact rewritten_tag (f := fun tag => tag.erase name) (.inl ha) (fun _ => rfl)
      fun tag other => tag.get?_erase name other
  | some value =>
    simp only [Stage.make, Stage.setAttribute, setAttribute, ha, hid, if_false]
    exact rewritten_tag (f := fun tag => tag.set name value) (.inl ha) (fun _ => rfl)
      fun tag other => tag.get?_set name value other

/-- The camera is an attribute of the root element, which needs no key. -/
theorem rewritten_camera (s : Scene) (frame : Rect) :
    Rewritten s (some .camera) (some frame.viewBox) (Stage.make s (.camera frame)) := by
  have hroot : s.resolve? "" = some [0] ∨ ([0] : Node.Address) = [0] := .inr rfl
  exact rewritten_tag (f := fun tag => tag.set "viewBox" frame.viewBox) hroot (fun _ => rfl)
    fun tag other => tag.get?_set _ _ other

/-- A change about no cell changes nothing. -/
theorem make_of_cell?_none {ch : Change} (h : ch.cell? s = none) : Stage.make s ch = s := by
  cases ch with
  | text key value =>
    have ha := Option.map_eq_none_iff.1 h
    simp only [Stage.make, Stage.setText, setText, ha]
  | camera => cases h
  | _ key name value =>
    have ha := Option.map_eq_none_iff.1 h
    cases value with
    | none => simp only [Stage.make, Stage.removeAttribute, removeAttribute, ha]
    | some value => simp only [Stage.make, Stage.setAttribute, setAttribute, ha]

/-- A plain change keeps the skeleton and gives its cell the new value. -/
theorem rewritten_make {ch : Change} (h : ch.Plain s) :
    Rewritten s (ch.cell? s) ch.value (Stage.make s ch) := by
  cases hcell : ch.cell? s with
  | none =>
    rw [make_of_cell?_none hcell]
    exact .refl s _
  | some c =>
    cases ch with
    | text key value =>
      obtain ⟨a, ha, rfl⟩ := Option.map_eq_some_iff.1 hcell
      exact rewritten_setText ha h value
    | camera frame =>
      cases hcell
      exact rewritten_camera s frame
    | _ key name value =>
      obtain ⟨a, ha, rfl⟩ := Option.map_eq_some_iff.1 hcell
      have hkey : s.contains key = true := by rw [contains, ha, Option.isSome_some]
      exact rewritten_attribute ha (h hkey) value

end Scene

/-! ## Making several changes -/

namespace Change

variable {d : Scene} {c : Cell} {chs : List Change}

/-- What changes write to a cell last, if they write to it. -/
def last? (d : Scene) (c : Cell) : List Change → Option (Option String)
  | [] => none
  | ch :: chs => (last? d c chs).or (if ch.cell? d = some c then some ch.value else none)

theorem last?_append (d : Scene) (c : Cell) (chs chs' : List Change) :
    last? d c (chs ++ chs') = (last? d c chs').or (last? d c chs) := by
  induction chs with
  | nil => rw [List.nil_append, last?, Option.or_none]
  | cons ch chs ih => rw [List.cons_append, last?, ih, last?, Option.or_assoc]

/-- What was written last was written by one of the changes. -/
theorem exists_of_last? {value : Option String} (h : last? d c chs = some value) :
    ∃ ch ∈ chs, ch.cell? d = some c ∧ ch.value = value := by
  induction chs with
  | nil => cases h
  | cons ch chs ih =>
    rw [last?, Option.or_eq_some_iff] at h
    rcases h with h | ⟨_, h⟩
    · obtain ⟨ch', hmem, hcell⟩ := ih h
      exact ⟨ch', List.mem_cons_of_mem _ hmem, hcell⟩
    · split at h
      · rename_i hcell
        cases h
        exact ⟨ch, List.mem_cons_self, hcell, rfl⟩
      · cases h

theorem last?_eq_none_iff : last? d c chs = none ↔ ∀ ch ∈ chs, ch.cell? d ≠ some c := by
  induction chs with
  | nil => simp [last?]
  | cons ch chs ih =>
    rw [last?, Option.or_eq_none_iff, ih, List.forall_mem_cons, and_comm]
    by_cases h : ch.cell? d = some c <;> simp [h]

theorem isSome_last?_of_mem {ch : Change} (hmem : ch ∈ chs) (hcell : ch.cell? d = some c) :
    (last? d c chs).isSome = true := by
  rw [Option.isSome_iff_ne_none]
  intro hnone
  exact last?_eq_none_iff.1 hnone ch hmem hcell

/-- What was written last counts, whatever the cell held before. -/
theorem last?_getD_of_isSome {value value' : Option String} (h : (last? d c chs).isSome = true) :
    (last? d c chs).getD value = (last? d c chs).getD value' := by
  obtain ⟨v, hv⟩ := Option.isSome_iff_exists.1 h
  rw [hv, Option.getD_some, Option.getD_some]

end Change

namespace Scene

/-- After several plain changes a cell holds what was written to it last. -/
theorem cell?_makeAll {d : Scene} {chs : List Change} (h : ∀ ch ∈ chs, ch.Plain d) :
    ∀ s : Scene, s.skeleton = d.skeleton →
      (Stage.makeAll s chs).skeleton = d.skeleton ∧
        ∀ c, (Stage.makeAll s chs).cell? c = (Change.last? d c chs).getD (s.cell? c) := by
  induction chs with
  | nil =>
    intro s hskel
    exact ⟨hskel, fun c => rfl⟩
  | cons ch chs ih =>
    intro s hskel
    have hmade := rewritten_make ((h ch List.mem_cons_self).congr hskel.symm)
    have hrest := ih (fun ch' hch' => h ch' (List.mem_cons_of_mem _ hch')) (Stage.make s ch)
      (hmade.skeleton.trans hskel)
    rw [Stage.makeAll_cons]
    refine ⟨hrest.1, fun c => ?_⟩
    rw [hrest.2 c, Change.last?, ← Change.cell?_congr hskel]
    cases Change.last? d c chs with
    | some value => rfl
    | none =>
      rw [Option.none_or, Option.getD_none]
      split
      · rename_i hc
        exact hmade.self c hc
      · rename_i hc
        exact hmade.other c hc

end Scene

/-! ## Values after changes -/

namespace Change

/-- What a cell of a diagram holds after plain changes. -/
def after? (d : Scene) (chs : List Change) (c : Cell) : Option String :=
  (last? d c chs).getD (d.cell? c)

/-- What is written later counts, and where nothing is, the cell holds what it held before. -/
theorem after?_append (d : Scene) (chs chs' : List Change) (c : Cell) :
    after? d (chs ++ chs') c = (last? d c chs').getD (after? d chs c) := by
  rw [after?, last?_append, after?]
  cases last? d c chs' with
  | none => rw [Option.none_or, Option.getD_none]
  | some value => rw [Option.some_or, Option.getD_some, Option.getD_some]

end Change

end Slideshow

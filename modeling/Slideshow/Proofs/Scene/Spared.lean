/-
  Slideshow.Proofs.Scene.Spared

  An element with only text inside, and what others may do without touching it. As long as no
  element around it gets a text and its id is not written, it stays at its address and is
  found under its id, whatever happens elsewhere (`Stands.make_of_other`). Its text is then the
  last one that it was given (`Stands.makeAll`).
-/
import Slideshow.Proofs.Scene.Index

namespace Slideshow

namespace Node

variable {f : Tag → List Node → Node} {tag : Tag} {children : List Node}

/-! ## What stands at an address after a change -/

/-- Among texts there is nothing to change. -/
theorem modify_of_texts (h : children.any isElement = false) (i : Nat) (is : Address) :
    children.modify i (modify f is) = children := by
  refine List.ext_getElem? fun j => ?_
  rw [List.getElem?_modify]
  cases hj : children[j]? with
  | none => rfl
  | some n =>
    cases n with
    | text s =>
      by_cases hij : i = j <;> simp [hij, modify]
    | element =>
      have hany := any_isElement_of_getElem? hj rfl
      rw [h] at hany
      cases hany

/-- Of the children of an element the changed one is entered as it is then. -/
theorem at?_modify_child (g : Node → Node) (i j : Nat) (js : Address) :
    (element tag (children.modify i g)).at? (j :: js) =
      children[j]?.bind fun c => (if i = j then g c else c).at? js := by
  rw [at?, Node.children, List.getElem?_modify]
  cases children[j]? with
  | none => rfl
  | some c => by_cases hij : i = j <;> simp [hij]

/-- A change that is not made around an element with only text inside, or to it, leaves it. -/
theorem at?_modify_of_not_around (htexts : children.any isElement = false) (a : Address) :
    ∀ (n : Node) (b : Address), n.at? a = some (element tag children) → ¬ b <+: a →
      (n.modify f b).at? a = some (element tag children) := by
  -- by induction along the way to the element, from which the change turns off somewhere
  induction a with
  | nil =>
    intro n b hat hb
    cases hat
    cases b with
    | nil => exact absurd List.nil_prefix hb
    | cons i is =>
      -- the change would be further inside, where only texts are
      rw [modify, modify_of_texts htexts, at?]
  | cons j js ih =>
    intro n b hat hb
    cases n with
    | text s => cases hat
    | element tag' children' =>
      cases b with
      | nil => exact absurd List.nil_prefix hb
      | cons i is =>
        obtain ⟨c, hc, hinside⟩ := Option.bind_eq_some_iff.1 hat
        rw [Node.children] at hc
        rw [modify, at?_modify_child, hc, Option.bind_some]
        by_cases hij : i = j
        · subst hij
          rw [if_pos rfl]
          exact ih c is hinside fun haround => hb (List.cons_prefix_cons.2 ⟨rfl, haround⟩)
        · rw [if_neg hij]
          exact hinside

/-- Inside a changed element stands what its change has there. -/
theorem at?_modify_append (b : Address) : ∀ n : Node, n.at? b = some (element tag children) →
    ∀ c : Address, (n.modify f b).at? (b ++ c) = (f tag children).at? c := by
  induction b with
  | nil =>
    intro n hat c
    cases hat
    rfl
  | cons i is ih =>
    intro n hat c
    cases n with
    | text s => cases hat
    | element tag' children' =>
      obtain ⟨m, hm, hat⟩ := Option.bind_eq_some_iff.1 hat
      rw [Node.children] at hm
      rw [modify, List.cons_append, at?_modify_child, hm, Option.bind_some, if_pos rfl]
      exact ih m hat c

/-- A new tag somewhere leaves the address and the inside of an element with only text. -/
theorem at?_retag (htexts : children.any isElement = false) (g : Tag → Tag) {n : Node}
    {a : Address} (hat : n.at? a = some (element tag children)) (b : Address) :
    (n.modify (fun tag children => element (g tag) children) b).at? a =
      some (element (if b = a then g tag else tag) children) := by
  by_cases haround : b <+: a
  · obtain ⟨c, rfl⟩ := haround
    rw [at?_append] at hat
    obtain ⟨m, hm, hat⟩ := Option.bind_eq_some_iff.1 hat
    have helement := isElement_of_at? hat rfl
    cases m with
    | text => cases helement
    | element tag' children' =>
      rw [at?_modify_append b n hm]
      -- further inside than the new tag nothing is different
      cases c with
      | nil =>
        cases hat
        rw [List.append_nil, if_pos rfl, at?]
      | cons i is =>
        rw [if_neg (by simp)]
        exact hat
  · have hne : b ≠ a := fun heq => haround (heq ▸ List.prefix_refl b)
    rw [at?_modify_of_not_around htexts a n b hat haround, if_neg hne]

end Node

namespace Change

/-! ## Changes that spare an element -/

/-- A change does not set the text of an element around the one at an address, and does not
    write the id there. -/
def Spares (s : Scene) (a : Node.Address) (ch : Change) : Prop :=
  ∀ c ∈ ch.cell? s,
    c ≠ ⟨a, .attribute "id"⟩ ∧ (c.part = .text → c.address <+: a → c.address = a)

instance (s : Scene) (a : Node.Address) (ch : Change) : Decidable (ch.Spares s a) :=
  inferInstanceAs (Decidable (∀ c ∈ ch.cell? s,
    c ≠ ⟨a, .attribute "id"⟩ ∧ (c.part = .text → c.address <+: a → c.address = a)))

/-- The text that a change sets under a key. -/
def textUnder? (key : String) : Change → Option String
  | .text key' value => if key' = key then some value else none
  | _ => none

/-- A change sets the text of the element at an address under a certain key only. -/
def Direct (s : Scene) (a : Node.Address) (key : String) (ch : Change) : Prop :=
  ch.cell? s = some ⟨a, .text⟩ → (ch.textUnder? key).isSome = true

instance (s : Scene) (a : Node.Address) (key : String) (ch : Change) :
    Decidable (ch.Direct s a key) :=
  inferInstanceAs (Decidable (ch.cell? s = some ⟨a, .text⟩ → (ch.textUnder? key).isSome = true))

/-- Each change has a property in the diagram that those before it have left. -/
def Along (P : Scene → Change → Prop) (s : Scene) : List Change → Prop
  | [] => True
  | ch :: chs => P s ch ∧ Along P (Stage.make s ch) chs

instance decidableAlong (P : Scene → Change → Prop) [∀ s ch, Decidable (P s ch)] :
    (s : Scene) → (chs : List Change) → Decidable (Along P s chs)
  | _, [] => .isTrue trivial
  | s, ch :: chs => @instDecidableAnd _ _ _ (decidableAlong P (Stage.make s ch) chs)

theorem along_append {P : Scene → Change → Prop} {chs chs' : List Change} {s : Scene} :
    Along P s (chs ++ chs') ↔ Along P s chs ∧ Along P (Stage.makeAll s chs) chs' := by
  induction chs generalizing s with
  | nil => exact (true_and _).symm.to_iff
  | cons ch chs ih =>
    rw [List.cons_append, Along, Along, ih, and_assoc]
    rfl

end Change

namespace Scene

variable {s : Scene} {a b : Node.Address} {key value : String} {tag : Tag} {children : List Node}
  {ch : Change}

/-! ## An element that stays -/

/-- An element with only text inside stands at an address and is found under a key. -/
structure Stands (s : Scene) (a : Node.Address) (key value : String) : Prop where
  unique : s.Unique
  there : ∃ tag children, s.forest.at? a = some (.element tag children) ∧
    tag.holds key = true ∧ children.any Node.isElement = false ∧
    String.ofList (Node.listTextChars children) = value

theorem resolve?_of_handleAddress? (h : s.handleAddress? key = some a) :
    s.resolve? key = some a := by
  rw [resolve?, h]

/-- What is found under its handle and has only text inside stands where it is found. -/
theorem exists_stands (hu : s.Unique) (ha : s.handleAddress? key = some a)
    (honly : s.TextOnly key) : ∃ value, Stands s a key value := by
  obtain ⟨tag, children, hat, _⟩ := exists_of_handleAddress? ha
  exact ⟨_, hu, tag, children, hat, holds_of_handleAddress? ha hat,
    honly.any_isElement (resolve?_of_handleAddress? ha) hat, rfl⟩

section Stands

variable (h : Stands s a key value)
include h

theorem Stands.resolve? : s.resolve? key = some a := by
  obtain ⟨tag, children, hat, hholds, _⟩ := h.there
  exact resolve?_of_handleAddress? (handleAddress?_of_at? h.unique hat hholds)

theorem Stands.text? : s.text? key = some value := by
  obtain ⟨tag, children, hat, _, _, rfl⟩ := h.there
  rw [Scene.text?, h.resolve?, Option.bind_some, hat, Option.map_some, Node.textChars]

/-- It is not the whole of tree and detached nodes, in which elements stand. -/
theorem Stands.address_ne_nil : a ≠ [] := by
  rintro rfl
  obtain ⟨tag, children, hat, _, htexts, _⟩ := h.there
  cases hat
  cases htexts

end Stands

/-! ## Single changes -/

/-- Nodes that are taken out of the tree come last. -/
theorem at?_forest_detach {n : Node} (ha : a ≠ []) (hat : s.forest.at? a = some n)
    (ns : List Node) :
    ({ s with detached := s.detached ++ ns } : Scene).forest.at? a = some n := by
  cases a with
  | nil => exact absurd rfl ha
  | cons i is =>
    obtain ⟨m, hm, hat⟩ := Option.bind_eq_some_iff.1 hat
    have hlt : i < (s.root :: s.detached).length := (List.getElem?_eq_some_iff.1 hm).1
    have hsame : ((s.root :: s.detached) ++ ns)[i]? = some m := by
      rw [List.getElem?_append_left hlt]
      exact hm
    exact Option.bind_eq_some_iff.2 ⟨m, hsame, hat⟩

/-- A text for another element, which does not stand around the one at an address, leaves it. -/
theorem at?_setText_of_not_around (ha : a ≠ []) (htexts : children.any Node.isElement = false)
    (hat : s.forest.at? a = some (.element tag children)) {key' : String}
    (hb : s.resolve? key' = some b) (haround : ¬ b <+: a) (value : String) :
    (s.setText key' value).forest.at? a = some (.element tag children) := by
  obtain ⟨tag', children', hat', hne⟩ := exists_of_resolve? hb
  rw [setText_eq hb hat']
  refine at?_forest_detach ha ?_ _
  rw [forest_modify hne hat' rfl]
  exact Node.at?_modify_of_not_around htexts a _ b hat haround

theorem at?_setText_self (hb : s.resolve? key = some a)
    (hat : s.forest.at? a = some (.element tag children)) (value : String) :
    (s.setText key value).forest.at? a = some (.element tag [.text value]) := by
  obtain ⟨_, _, _, hne⟩ := exists_of_resolve? hb
  have hmodify := Node.at?_modify_append (f := fun tag _ => .element tag [.text value]) a _ hat []
  rw [List.append_nil, ← forest_modify hne hat rfl] at hmodify
  rw [setText_eq hb hat]
  exact at?_forest_detach hne hmodify _

/-- A new tag somewhere keeps an element in place, if it keeps its handle. -/
theorem Stands.retag (h : Stands s a key value) {t : Scene} (hu : t.Unique) {g : Tag → Tag}
    (hat : s.forest.at? b = some (.element tag children)) (hne : b ≠ [])
    (ht : t = s.modify b fun tag children => .element (g tag) children)
    (hg : b = a → (g tag).holds key = tag.holds key) : Stands t a key value := by
  obtain ⟨tag', children', hat', hholds, htexts, hvalue⟩ := h.there
  have hforest : t.forest.at? a = some (.element (if b = a then g tag' else tag') children') := by
    rw [ht, forest_modify hne hat rfl]
    exact Node.at?_retag htexts g hat' b
  refine ⟨hu, _, children', hforest, ?_, htexts, hvalue⟩
  by_cases hab : b = a
  · subst hab
    rw [hat] at hat'
    cases hat'
    rw [if_pos rfl, hg rfl, hholds]
  · rw [if_neg hab, hholds]

/-- A change that spares an element keeps it in place, and its text unless it sets that. -/
theorem Stands.make_of_other (h : Stands s a key value) (hspares : ch.Spares s a)
    (hother : ch.cell? s ≠ some ⟨a, .text⟩) : Stands (Stage.make s ch) a key value := by
  have hunique := h.unique.make ch
  cases hcell : ch.cell? s with
  | none =>
    rw [make_of_cell?_none hcell]
    exact h
  | some c =>
    obtain ⟨hid, hsame⟩ := hspares c hcell
    rw [hcell] at hother
    cases ch with
    | text key' value' =>
      obtain ⟨b, hb, rfl⟩ := Option.map_eq_some_iff.1 hcell
      have haround : ¬ b <+: a := by
        intro haround
        obtain rfl : b = a := hsame rfl haround
        exact hother rfl
      obtain ⟨tag, children, hat, hholds, htexts, hvalue⟩ := h.there
      exact ⟨hunique, tag, children,
        at?_setText_of_not_around h.address_ne_nil htexts hat hb haround value', hholds, htexts,
        hvalue⟩
    | camera frame =>
      have hroot : s.forest.at? [0] = some (.element s.tag s.children) := rfl
      exact h.retag (g := fun tag => tag.set "viewBox" frame.viewBox) hunique hroot
        (List.cons_ne_nil _ _) rfl fun _ => rfl
    | _ key' name value' =>
      obtain ⟨b, hb, rfl⟩ := Option.map_eq_some_iff.1 hcell
      obtain ⟨tag, children, hat, hne⟩ := exists_of_resolve? hb
      refine h.retag hunique hat hne (make_attribute_eq hb name value') fun hab => ?_
      -- the id of the element itself is not written, so its handle stays
      have hname : name ≠ "id" := fun heq => hid (by rw [hab, heq])
      rw [holds_retag h.unique hat, if_neg fun hwritten => hname hwritten.1]

/-- A text that is set under some key is the text of the element then. -/
theorem Stands.make_text (h : Stands s a key value) {key' : String}
    (hb : s.resolve? key' = some a) (value' : String) :
    Stands (Stage.make s (.text key' value')) a key value' := by
  obtain ⟨tag, children, hat, hholds, _, _⟩ := h.there
  refine ⟨h.unique.make _, tag, _, at?_setText_self hb hat value', hholds, rfl, ?_⟩
  simp [Node.listTextChars, Node.textChars]

/-- A change that sets the text of an element is a text under some key of it. -/
theorem exists_of_cell?_text (hcell : ch.cell? s = some ⟨a, .text⟩) :
    ∃ key value, ch = .text key value ∧ s.resolve? key = some a := by
  cases ch with
  | text key value =>
    obtain ⟨b, hb, heq⟩ := Option.map_eq_some_iff.1 hcell
    cases heq
    exact ⟨key, value, rfl, hb⟩
  | camera => cases hcell
  | _ =>
    obtain ⟨b, _, heq⟩ := Option.map_eq_some_iff.1 hcell
    cases heq

theorem Stands.exists_make (h : Stands s a key value) (hspares : ch.Spares s a) :
    ∃ value', Stands (Stage.make s ch) a key value' := by
  by_cases hcell : ch.cell? s = some ⟨a, .text⟩
  · obtain ⟨key', value', rfl, hb⟩ := exists_of_cell?_text hcell
    exact ⟨value', h.make_text hb value'⟩
  · exact ⟨value, h.make_of_other hspares hcell⟩

/-- Where texts come under one key only, the change says whether the element gets one. -/
theorem Stands.make (h : Stands s a key value) (hspares : ch.Spares s a)
    (hdirect : ch.Direct s a key) :
    Stands (Stage.make s ch) a key ((ch.textUnder? key).getD value) := by
  cases hunder : ch.textUnder? key with
  | none =>
    refine h.make_of_other hspares fun hcell => ?_
    have hsome := hdirect hcell
    rw [hunder] at hsome
    cases hsome
  | some value' =>
    obtain rfl : ch = .text key value' := by
      cases ch with
      | text key' value'' =>
        rw [Change.textUnder?] at hunder
        split at hunder <;> cases hunder
        rename_i heq
        rw [heq]
      | _ => cases hunder
    exact h.make_text h.resolve? value'

/-! ## Several changes -/

/-- Changes that spare an element keep it in place. -/
theorem Stands.exists_makeAll {chs : List Change} (h : Stands s a key value)
    (hspares : Change.Along (fun s ch => ch.Spares s a) s chs) :
    ∃ value', Stands (Stage.makeAll s chs) a key value' := by
  induction chs generalizing s value with
  | nil => exact ⟨value, h⟩
  | cons ch chs ih =>
    obtain ⟨value', hmade⟩ := h.exists_make hspares.1
    exact ih hmade hspares.2

/-- Its text is the last one that it was given, or else the one that it had. -/
theorem Stands.makeAll {chs : List Change} (h : Stands s a key value)
    (hspares : Change.Along (fun s ch => ch.Spares s a) s chs)
    (hdirect : Change.Along (fun s ch => ch.Direct s a key) s chs) :
    Stands (Stage.makeAll s chs) a key
      ((chs.filterMap (Change.textUnder? key)).getLast?.getD value) := by
  induction chs generalizing s value with
  | nil => exact h
  | cons ch chs ih =>
    have hmade := ih (h.make hspares.1 hdirect.1) hspares.2 hdirect.2
    rw [List.filterMap_cons]
    cases hunder : ch.textUnder? key with
    | none =>
      rw [hunder] at hmade
      exact hmade
    | some value' =>
      rw [hunder] at hmade
      simp only [List.getLast?_cons, Option.getD_some]
      exact hmade

end Scene

end Slideshow

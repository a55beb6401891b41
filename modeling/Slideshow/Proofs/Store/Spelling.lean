/-
  Slideshow.Proofs.Store.Spelling

  What an element shows when mappings spell its id in different ways. Mappings are merged by
  the spelling, and merged values are given in the order of their spellings. So of several
  spellings the greatest one counts, with what was given under it last, and not what was given
  last under any of them (`greatest_spelling_wins`).
-/
import Slideshow.Proofs.Scene.Coherence
import Slideshow.Proofs.Scene.Spared
import Slideshow.Proofs.Store.Faithful

namespace Slideshow

/-! ## Entries that refer to an element -/

/-- The entries whose keys spell an id, with or without a number sign. -/
def Dict.referring {α : Type} (d : Dict α) (id : String) : List (String × α) :=
  d.entries.filter fun e => elementId e.1 == id

theorem Dict.mem_referring {α : Type} {d : Dict α} {id : String} {e : String × α} :
    e ∈ d.referring id ↔ d.get? e.1 = some e.2 ∧ elementId e.1 = id := by
  rw [referring, List.mem_filter, beq_iff_eq, Dict.get?_eq_some_iff]

/-- The last of several entries has the greatest key. -/
theorem Dict.le_getLast_referring {α : Type} {d : Dict α} {id : String} {last : String × α}
    (hlast : (d.referring id).getLast? = some last) : ∀ e ∈ d.referring id, e.1 ≤ last.1 := by
  intro e he
  obtain ⟨before, hsplit⟩ := List.getLast?_eq_some_iff.1 hlast
  have hsorted : SortedKeys (d.referring id) := List.Pairwise.filter _ d.sorted
  rw [hsplit] at hsorted he
  -- the entries stand in the order of their keys
  rcases List.mem_append.1 he with he | he
  · have hlt := (List.pairwise_append.1 hsorted).2.2 e he last List.mem_cons_self
    exact String.not_lt.1 (String.lt_asymm hlt)
  · obtain rfl := List.mem_singleton.1 he
    exact String.le_refl _

namespace ComponentValue

/-- The text that a component is set to. -/
def text? : ComponentValue → Option String
  | text s => some s
  | attributes _ => none

theorem exists_of_isSome_text? {value : ComponentValue} (h : value.text?.isSome = true) :
    ∃ t, value = text t := by
  cases value with
  | text t => exact ⟨t, rfl⟩
  | attributes => cases h

end ComponentValue

/-- Components get the texts of the entries that refer to them. -/
theorem Dict.filterMap_textUnder?_changes (values : Dict ComponentValue) (id : String) :
    values.changes.filterMap (Change.textUnder? id) =
      (values.referring id).filterMap fun e => e.2.text? := by
  rw [changes, referring]
  generalize values.entries = es
  induction es with
  | nil => rfl
  | cons e es ih =>
    obtain ⟨target, value⟩ := e
    -- of the changes for one entry at most one sets a text, and under the id that is spelled
    have hvalue : (value.changes target).filterMap (Change.textUnder? id) =
        if elementId target = id then value.text?.toList else [] := by
      cases value with
      | text s =>
        by_cases hid : elementId target = id <;>
          simp [ComponentValue.changes, Change.textUnder?, ComponentValue.text?, hid]
      | attributes attrs =>
        have hnone : (attrs.attributeChanges (elementId target)).filterMap
            (Change.textUnder? id) = [] := by
          rw [List.filterMap_eq_nil_iff]
          intro ch hch
          obtain ⟨e, _, rfl⟩ := List.mem_map.1 hch
          rfl
        rw [ComponentValue.changes, hnone, ComponentValue.text?, Option.toList_none, ite_self]
    rw [List.flatMap_cons, List.filterMap_append, ih, hvalue]
    by_cases hid : elementId target = id
    · rw [if_pos hid, List.filter_cons_of_pos (by simp [hid])]
      cases hvalue : value.text? <;> simp [hvalue]
    · rw [if_neg hid, List.filter_cons_of_neg (by simp [hid]), List.nil_append]

/-! ## What a slide gives to its components -/

namespace Slide

variable {slide : Slide} {count : Nat} {id key : String}

/-- The mappings that give components their values before a step, in their order: that of the
    slide, and what each step before leaves behind. -/
def mappings (slide : Slide) (count : Nat) : List (Dict ComponentValue) :=
  slide.components :: (slide.steps.take count).map (·.finalState)

/-- What the last mapping that has a key gives under it. -/
def lastUnder? (slide : Slide) (count : Nat) (key : String) : Option ComponentValue :=
  (slide.mappings count).reverse.findSome? fun d => d.get? key

/-- What the last mapping that refers to an element gives it, with the key in its spelling; of
    several keys in one mapping, the last one. -/
def lastReferring? (slide : Slide) (count : Nat) (id : String) : Option (String × ComponentValue) :=
  (slide.mappings count).reverse.findSome? fun d => (d.referring id).getLast?

/-- Of the values under one key the last one counts. -/
theorem get?_overrides (slide : Slide) (count : Nat) (key : String) :
    (slide.overrides count).get? key = slide.lastUnder? count key := by
  rw [overrides, lastUnder?, mappings]
  generalize slide.steps.take count = steps
  generalize slide.components = components
  induction steps generalizing components with
  | nil => simp
  | cons step steps ih =>
    rw [List.foldl_cons, ih]
    simp only [List.map_cons, List.reverse_cons, List.findSome?_append, List.findSome?_singleton,
      Dict.get?_merge, Option.or_assoc]

theorem mem_of_lastUnder? {value : ComponentValue}
    (h : slide.lastUnder? count key = some value) :
    ∃ d ∈ slide.mappings count, d.get? key = some value := by
  obtain ⟨d, hd, hvalue⟩ := List.exists_of_findSome?_eq_some h
  exact ⟨d, List.mem_reverse.1 hd, hvalue⟩

theorem isSome_lastUnder? {d : Dict ComponentValue} (hd : d ∈ slide.mappings count)
    (hkey : (d.get? key).isSome = true) : (slide.lastUnder? count key).isSome = true := by
  rw [lastUnder?, List.findSome?_isSome_iff]
  exact ⟨d, List.mem_reverse.2 hd, hkey⟩

/-- Every key of a mapping stands in the merged one. -/
theorem exists_mem_overrides {d : Dict ComponentValue} (hd : d ∈ slide.mappings count)
    {e : String × ComponentValue} (he : e ∈ d.referring id) :
    ∃ value, (e.1, value) ∈ (slide.overrides count).referring id := by
  obtain ⟨hvalue, hid⟩ := Dict.mem_referring.1 he
  have hsome := isSome_lastUnder? hd (by rw [hvalue, Option.isSome_some])
  obtain ⟨value, hlast⟩ := Option.isSome_iff_exists.1 hsome
  exact ⟨value, Dict.mem_referring.2 ⟨(get?_overrides slide count e.1).trans hlast, hid⟩⟩

/-- The last of the merged entries that refer to an element has the greatest spelling, and the
    value that was given last under it. -/
theorem exists_getLast_referring_overrides
    (hsome : ∃ d ∈ slide.mappings count, d.referring id ≠ []) :
    ∃ spelling value, ((slide.overrides count).referring id).getLast? = some (spelling, value) ∧
      elementId spelling = id ∧ slide.lastUnder? count spelling = some value ∧
      ∀ d ∈ slide.mappings count, ∀ e ∈ d.referring id, e.1 ≤ spelling := by
  obtain ⟨d, hd, hne⟩ := hsome
  obtain ⟨e, he⟩ := List.exists_mem_of_ne_nil _ hne
  obtain ⟨value, hmem⟩ := exists_mem_overrides hd he
  have hlast := List.getLast?_eq_some_getLast (List.ne_nil_of_mem hmem)
  generalize ((slide.overrides count).referring id).getLast _ = last at hlast
  obtain ⟨hvalue, hid⟩ := Dict.mem_referring.1 (List.mem_of_getLast? hlast)
  refine ⟨last.1, last.2, hlast, hid, (get?_overrides slide count last.1).symm.trans hvalue, ?_⟩
  intro d' hd' e' he'
  obtain ⟨value', hmem'⟩ := exists_mem_overrides hd' he'
  exact Dict.le_getLast_referring hlast (e'.1, value') hmem'

/-- What is given last comes from one of the mappings. -/
theorem exists_lastReferring? (hsome : ∃ d ∈ slide.mappings count, d.referring id ≠ []) :
    ∃ e, slide.lastReferring? count id = some e ∧ ∃ d ∈ slide.mappings count,
      e ∈ d.referring id := by
  obtain ⟨d, hd, hne⟩ := hsome
  have hlast : (slide.lastReferring? count id).isSome = true := by
    rw [lastReferring?, List.findSome?_isSome_iff]
    exact ⟨d, List.mem_reverse.2 hd, List.getLast?_isSome.2 hne⟩
  obtain ⟨e, he⟩ := Option.isSome_iff_exists.1 hlast
  obtain ⟨d', hd', hmem⟩ := List.exists_of_findSome?_eq_some he
  exact ⟨e, he, d', List.mem_reverse.1 hd', List.mem_of_getLast? hmem⟩

/-- What is given last under any spelling is given last under its own. -/
theorem lastUnder?_of_lastReferring? {e : String × ComponentValue}
    (h : slide.lastReferring? count id = some e) : slide.lastUnder? count e.1 = some e.2 := by
  obtain ⟨later, d, earlier, hsplit, hlast, hnone⟩ := List.findSome?_eq_some_iff.1 h
  obtain ⟨hvalue, hid⟩ := Dict.mem_referring.1 (List.mem_of_getLast? hlast)
  refine List.findSome?_eq_some_iff.2 ⟨later, d, earlier, hsplit, hvalue, fun d' hd' => ?_⟩
  -- a later mapping with the key would refer to the element too
  rw [Option.eq_none_iff_forall_ne_some]
  intro value hvalue'
  have hempty := List.getLast?_eq_none_iff.1 (hnone d' hd')
  have hmem : (e.1, value) ∈ d'.referring id := Dict.mem_referring.2 ⟨hvalue', hid⟩
  rw [hempty] at hmem
  cases hmem

end Slide

namespace Store

/-! ## Restoring a state -/

/-- A state is restored by single changes behind a reset. -/
theorem scene_restore (s : Store) (slide : Slide) (count : Nat) :
    (s.restore slide count).scene =
      Stage.makeAll s.reset.scene (slide.overrides count).changes := by
  rw [restore, apply_eq, makeAll_scene]

theorem scene_reset_append (s : Store) :
    s.reset.scene = Stage.makeAll s.scene (s.undoings ++ s.dynamicChanges) := by
  rw [scene_reset, Stage.makeAll_append]

/-- Whatever is done to a store, its diagram has each handle once. -/
theorem unique_performAll {s : Store} (h : s.scene.Unique) (actions : List Action) :
    (s.performAll actions).scene.Unique := by
  induction actions generalizing s with
  | nil => exact h
  | cons action actions ih =>
    refine ih (s := s.perform action) ?_
    cases action with
    | reset =>
      show s.reset.scene.Unique
      rw [scene_reset_append]
      exact h.makeAll _
    | change ch =>
      show (Stage.make s ch).scene.Unique
      rw [make_scene]
      exact h.make ch

/-- An element with only text inside gets the text that was given last under the greatest of the
    spellings in which mappings refer to it. That is the text given last of all if it was given
    under that spelling. The reset and the new values must spare the element, and give it texts
    under its id only; before, anything may have happened to the diagram. -/
theorem greatest_spelling_wins {text : String} {d : Scene} (hload : Scene.load text = .ok d)
    {rule : DynamicRule} {actions : List Action} {s : Store}
    (hs : (capture rule d).performAll actions = s) {slide : Slide} {count : Nat} {id : String}
    {a : Node.Address} (ha : s.scene.handleAddress? id = some a) (honly : s.scene.TextOnly id)
    (hspared : Change.Along (fun s ch => ch.Spares s a) s.scene
      (s.undoings ++ s.dynamicChanges ++ (slide.overrides count).changes))
    (hdirect : Change.Along (fun s ch => ch.Direct s a id) s.reset.scene
      (slide.overrides count).changes)
    (htexts : ∀ m ∈ slide.mappings count, ∀ e ∈ m.referring id, e.2.text?.isSome = true)
    (hsome : ∃ m ∈ slide.mappings count, m.referring id ≠ []) :
    ∃ spelling t key last, elementId spelling = id ∧
      (∀ m ∈ slide.mappings count, ∀ e ∈ m.referring id, e.1 ≤ spelling) ∧
      slide.lastUnder? count spelling = some (.text t) ∧
      slide.lastReferring? count id = some (key, .text last) ∧
      (s.restore slide count).scene.resolve? id = some a ∧
      (s.restore slide count).scene.text? id = some t ∧
      (key = spelling → t = last) := by
  have hunique : s.scene.Unique := by
    obtain ⟨document, _, rfl⟩ := Scene.exists_of_load hload
    rw [← hs]
    exact unique_performAll (Scene.unique_ofDocument document) actions
  -- the element is there before the new values
  obtain ⟨hreset, hrestore⟩ := Change.along_append.1 hspared
  rw [← scene_reset_append] at hrestore
  obtain ⟨value, hstands⟩ := Scene.exists_stands hunique ha honly
  obtain ⟨value', hstands'⟩ := hstands.exists_makeAll hreset
  rw [← scene_reset_append] at hstands'
  -- the last of the new values for it comes under the greatest spelling
  obtain ⟨spelling, v, hgreatest, hid, hunder, hle⟩ :=
    Slide.exists_getLast_referring_overrides hsome
  obtain ⟨m, hm, hvalue⟩ := Slide.mem_of_lastUnder? hunder
  obtain ⟨t, rfl⟩ := ComponentValue.exists_of_isSome_text?
    (htexts m hm (spelling, v) (Dict.mem_referring.2 ⟨hvalue, hid⟩))
  have hgiven : (((slide.overrides count).changes).filterMap
      (Change.textUnder? id)).getLast?.getD value' = t := by
    obtain ⟨before, hsplit⟩ := List.getLast?_eq_some_iff.1 hgreatest
    rw [Dict.filterMap_textUnder?_changes, hsplit, List.filterMap_append]
    simp [ComponentValue.text?]
  have hshown := hstands'.makeAll hrestore hdirect
  rw [← scene_restore, hgiven] at hshown
  obtain ⟨⟨key, w⟩, hlast, m', hm', hmem⟩ := Slide.exists_lastReferring? hsome
  obtain ⟨last, rfl⟩ := ComponentValue.exists_of_isSome_text? (htexts m' hm' _ hmem)
  refine ⟨spelling, t, key, last, hid, hle, hunder, hlast, hshown.resolve?, hshown.text?, ?_⟩
  rintro rfl
  have hsame := Slide.lastUnder?_of_lastReferring? hlast
  rw [hunder] at hsame
  cases hsame
  rfl

/-- A value that components and steps give in two spellings, beside a rectangle. -/
theorem greatest_spelling_wins_demo :
    let slide : Slide :=
      { id := "s", title := "S", diagram := "d", components := .ofList [("t", .text "1")]
        steps := [
          ⟨"a", ⟨"FETCH", none, "A", none, none, none⟩, [], .ofList [("#t", .text "2"),
            ("r", .attributes (.ofList [("fill", "red")]))]⟩,
          ⟨"b", ⟨"FETCH", none, "B", none, none, none⟩, [], .ofList [("t", .text "3")]⟩] }
    let store (d : Scene) : Store := (capture .usual d).performAll
      [.change (.text "t" "x"), .change (.attribute "r" "fill" (some "blue"))]
    ∃ d, Scene.load "<svg><g><text id=\"t\">0</text><rect id=\"r\"/></g></svg>" = .ok d ∧
      let s := store d
      (s.scene.handleAddress? "t" = some [0, 0, 0] ∧ s.scene.TextOnly "t" ∧
        Change.Along (fun s ch => ch.Spares s [0, 0, 0]) s.scene
          (s.undoings ++ s.dynamicChanges ++ (slide.overrides 2).changes) ∧
        Change.Along (fun s ch => ch.Direct s [0, 0, 0] "t") s.reset.scene
          (slide.overrides 2).changes) ∧
      ∃ spelling t key last, elementId spelling = "t" ∧
        (∀ m ∈ slide.mappings 2, ∀ e ∈ m.referring "t", e.1 ≤ spelling) ∧
        slide.lastUnder? 2 spelling = some (.text t) ∧
        slide.lastReferring? 2 "t" = some (key, .text last) ∧
        (s.restore slide 2).scene.resolve? "t" = some [0, 0, 0] ∧
        (s.restore slide 2).scene.text? "t" = some t ∧
        (key = spelling → t = last) := by
  intro slide store
  obtain ⟨d, hload, hcheck⟩ := Scene.exists_load_of_any
    "<svg><g><text id=\"t\">0</text><rect id=\"r\"/></g></svg>" (fun d => decide (
      (store d).scene.handleAddress? "t" = some [0, 0, 0] ∧ (store d).scene.TextOnly "t" ∧
        Change.Along (fun s ch => ch.Spares s [0, 0, 0]) (store d).scene
          ((store d).undoings ++ (store d).dynamicChanges ++ (slide.overrides 2).changes) ∧
        Change.Along (fun s ch => ch.Direct s [0, 0, 0] "t") (store d).reset.scene
          (slide.overrides 2).changes)) (by decide +kernel)
  obtain ⟨ha, honly, hspared, hdirect⟩ := of_decide_eq_true hcheck
  have hsome : ∃ m ∈ slide.mappings 2, m.referring "t" ≠ [] :=
    ⟨slide.components, List.mem_cons_self, by decide +kernel⟩
  exact ⟨d, hload, ⟨ha, honly, hspared, hdirect⟩,
    greatest_spelling_wins hload rfl ha honly hspared hdirect (by decide +kernel) hsome⟩

/-- The second step gives a value in another spelling, and the one of the first step is shown. -/
theorem later_spelling_lost :
    let slide : Slide :=
      { id := "s", title := "S", diagram := "d", components := .empty
        steps := [
          ⟨"a", ⟨"FETCH", none, "A", none, none, none⟩, [], .ofList [("val_x", .text "5")]⟩,
          ⟨"b", ⟨"FETCH", none, "B", none, none, none⟩, [], .ofList [("#val_x", .text "7")]⟩] }
    ∃ d, Scene.load "<svg><text id=\"val_x\">0</text></svg>" = .ok d ∧ d.TextOnly "val_x" ∧
      (∀ m ∈ slide.mappings 2, (m.referring "val_x").length ≤ 1) ∧
      slide.lastReferring? 2 "val_x" = some ("#val_x", .text "7") ∧
      ((capture .usual d).restore slide 2).scene.text? "val_x" = some "5" := by
  intro slide
  obtain ⟨d, hload, hcheck⟩ := Scene.exists_load_of_any "<svg><text id=\"val_x\">0</text></svg>"
    (fun d => decide (d.TextOnly "val_x" ∧
      ((capture .usual d).restore slide 2).scene.text? "val_x" = some "5")) (by decide +kernel)
  obtain ⟨honly, hshown⟩ := of_decide_eq_true hcheck
  exact ⟨d, hload, honly, by decide +kernel, by decide +kernel, hshown⟩

end Store

end Slideshow

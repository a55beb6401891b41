/-
  Slideshow.Proofs.Store.Faithful

  A store that can put its diagram back. As long as all changes are plain, undoing the
  journal gives every cell what the diagram held when it was captured, except for the cell of
  the camera, which is not journaled (`Faithful.cell?_reset`). So what a store shows after it
  was reset depends only on the changes made since (`Faithful.shows_performAll`).
-/
import Slideshow.Proofs.Dict
import Slideshow.Proofs.Store.Change

namespace Slideshow

/-- The text of a slot is not spread over elements inside. -/
def Slot.Plain (d : Scene) : Slot → Prop
  | .text key => d.TextOnly key
  | .attribute .. => True

/-- The cell that a slot stands for, if the diagram has it. -/
def Slot.cell? (d : Scene) : Slot → Option Cell
  | .text key => (d.resolve? key).map fun a => ⟨a, .text⟩
  | .attribute key name => (d.resolve? key).map fun a => ⟨a, .attribute name⟩

theorem Change.cell?_of_slot? {ch : Change} {slot : Slot} (h : ch.slot? = some slot) (d : Scene) :
    ch.cell? d = slot.cell? d := by
  cases ch with
  | camera => cases h
  | text =>
    cases h
    rfl
  | _ =>
    cases h
    rfl

namespace Store

variable {d : Scene} {s : Store}

/-! ## The journal as changes -/

/-- The change that undoes a write, unless nothing is known to undo it with. -/
def undoing? : Slot × Option String → Option Change
  | (.text key, some t) => some (.text key t)
  | (.text _, none) => none
  | (.attribute key name, value) => some (.attribute key name value)

/-- The changes that undo all writes. -/
def undoings (s : Store) : List Change := s.journal.filterMap undoing?

/-- The changes that give the dynamic elements their texts. -/
def dynamicChanges (s : Store) : List Change := s.baseline.entries.map fun e => .text e.1 e.2

theorem foldl_undo (journal : List (Slot × Option String)) (scene : Scene) :
    journal.foldl undo scene = Stage.makeAll scene (journal.filterMap undoing?) := by
  induction journal generalizing scene with
  | nil => rfl
  | cons e journal ih =>
    rw [List.foldl_cons, ih]
    match e with
    | (.text _, some _) => rfl
    | (.text _, none) => rfl
    | (.attribute _ _, some _) => rfl
    | (.attribute _ _, none) => rfl

/-- A store is reset by single changes. -/
theorem scene_reset (s : Store) :
    s.reset.scene = Stage.makeAll (Stage.makeAll s.scene s.undoings) s.dynamicChanges := by
  simp only [reset, foldl_undo, undoings, dynamicChanges]
  generalize Stage.makeAll s.scene (s.journal.filterMap undoing?) = scene
  simp only [Stage.makeAll, List.foldl_map]
  rfl

theorem slot?_undoing? {e : Slot × Option String} {ch : Change} (h : undoing? e = some ch) :
    ch.slot? = some e.1 := by
  match e, h with
  | (.text _, some _), h => cases h; rfl
  | (.attribute _ _, _), h => cases h; rfl

/-! ## Slots -/

/-- A slot holds what its cell holds. -/
theorem slotValue?_eq_cell? (hskel : s.scene.skeleton = d.skeleton) {slot : Slot}
    (hplain : slot.Plain d) {c : Cell} (hc : slot.cell? d = some c) :
    s.slotValue? slot = s.scene.cell? c := by
  cases slot with
  | text key =>
    obtain ⟨a, ha, rfl⟩ := Option.map_eq_some_iff.1 hc
    rw [← Scene.resolve?_congr hskel] at ha
    exact (Scene.TextOnly.congr hplain hskel.symm).text?_eq_cell? ha
  | _ key name =>
    obtain ⟨a, ha, rfl⟩ := Option.map_eq_some_iff.1 hc
    rw [← Scene.resolve?_congr hskel] at ha
    rw [slotValue?, Scene.attribute?_eq_cell?, ha]
    rfl

/-- A slot of an element that is not there holds nothing. -/
theorem slotValue?_of_cell?_none (hskel : s.scene.skeleton = d.skeleton) {slot : Slot}
    (hc : slot.cell? d = none) : s.slotValue? slot = none := by
  cases slot with
  | text key =>
    have ha := Option.map_eq_none_iff.1 hc
    rw [← Scene.resolve?_congr hskel] at ha
    rw [slotValue?, Scene.text?, ha]
    rfl
  | _ key name =>
    have ha := Option.map_eq_none_iff.1 hc
    rw [← Scene.resolve?_congr hskel] at ha
    rw [slotValue?, Scene.attribute?_eq_cell?, ha]
    rfl

/-! ## Faithful stores -/

/-- Undoing the journal gives a cell what a diagram held. -/
def Undone (d : Scene) (s : Store) (c : Cell) : Prop :=
  (Change.last? d c s.undoings).getD (s.scene.cell? c) = d.cell? c

/-- The store can give every cell back what a diagram held, but for the camera. -/
structure Faithful (d : Scene) (s : Store) : Prop where
  skeleton : s.scene.skeleton = d.skeleton
  baseline : s.baseline = dynamicTexts s.rule d
  /-- The texts of dynamic elements are not spread over elements inside. -/
  dynamic : ∀ key ∈ s.baseline.keys, d.TextOnly key
  /-- Every write can be undone. -/
  kept : ∀ e ∈ s.journal, ∃ ch, undoing? e = some ch ∧ ch.Plain d
  /-- What was written to a cell first is what the diagram held. -/
  undone : ∀ c, c ≠ .camera → Undone d s c

theorem faithful_capture {rule : DynamicRule}
    (h : ∀ key ∈ (dynamicTexts rule d).keys, d.TextOnly key) : Faithful d (capture rule d) where
  skeleton := rfl
  baseline := rfl
  dynamic := h
  kept := fun _ he => by cases he
  undone := fun _ _ => rfl

/-- The diagram can be captured afresh. -/
theorem Faithful.capture (h : Faithful d s) : Faithful d (capture s.rule d) := by
  refine faithful_capture ?_
  rw [← h.baseline]
  exact h.dynamic

/-- What is kept of a slot is what its cell holds. -/
theorem exists_undoing (hskel : s.scene.skeleton = d.skeleton) {ch : Change} {slot : Slot}
    (hslot : ch.slot? = some slot) (hplain : ch.Plain d)
    (hkey : s.scene.contains slot.key = true) :
    ∃ c undo, slot.cell? d = some c ∧ undoing? (slot, s.slotValue? slot) = some undo ∧
      undo.Plain d ∧ undo.value = s.scene.cell? c := by
  obtain ⟨a, ha⟩ := Option.isSome_iff_exists.1 hkey
  have hd : d.resolve? slot.key = some a := by rw [← Scene.resolve?_congr hskel, ha]
  cases ch with
  | camera => cases hslot
  | text key value =>
    cases hslot
    simp only [Slot.key] at ha hd
    have hc : (Slot.text key).cell? d = some ⟨a, .text⟩ := by
      rw [Slot.cell?, hd, Option.map_some]
    have hslotPlain : (Slot.text key).Plain d := hplain
    -- an element that is there has a text, be it empty
    obtain ⟨t, ht⟩ : ∃ t, s.scene.text? key = some t := by
      obtain ⟨tag, children, hat, _⟩ := Scene.exists_of_resolve? ha
      simp only [Scene.text?, ha, Option.bind_some, hat, Option.map_some]
      exact ⟨_, rfl⟩
    have hvalue : some t = s.scene.cell? ⟨a, .text⟩ := by
      rw [← ht, ← slotValue?_eq_cell? hskel hslotPlain hc, slotValue?]
    refine ⟨_, .text key t, hc, ?_, hplain, hvalue⟩
    simp only [slotValue?, ht, undoing?]
  | _ key name value =>
    cases hslot
    simp only [Slot.key] at ha hd
    have hc : (Slot.attribute key name).cell? d = some ⟨a, .attribute name⟩ := by
      rw [Slot.cell?, hd, Option.map_some]
    have hslotPlain : (Slot.attribute key name).Plain d := trivial
    have hvalue := slotValue?_eq_cell? hskel hslotPlain hc
    exact ⟨_, .attribute key name (s.scene.attribute? key name), hc, rfl, hplain, hvalue⟩

variable {ch : Change} {slot : Slot} {c : Cell}

/-- What a cell held first stays known when another cell is written to, or when it was known
    from the journal already. -/
theorem Faithful.undone_make (h : Faithful d s) (hplain : ch.Plain d) (hc : Undone d s c)
    (hknown : (Change.last? d c s.undoings).isSome = true ∨ ch.cell? d ≠ some c) :
    (Change.last? d c s.undoings).getD ((Stage.make s.scene ch).cell? c) = d.cell? c := by
  rcases hknown with hsome | hother
  · exact (Change.last?_getD_of_isSome hsome).trans hc
  · have hmade := Scene.rewritten_make (hplain.congr h.skeleton.symm)
    rw [Change.cell?_congr h.skeleton] at hmade
    rw [hmade.other c hother]
    exact hc

/-- A slot in the journal is known from it. -/
theorem Faithful.isSome_last?_undoings (h : Faithful d s)
    (hold : (s.journal.any fun e => e.1 == slot) = true) (hc : slot.cell? d = some c) :
    (Change.last? d c s.undoings).isSome = true := by
  obtain ⟨e, hmem, he⟩ := List.any_eq_true.1 hold
  obtain ⟨first, hfirst, _⟩ := h.kept e hmem
  have hslot : first.slot? = some slot := by rw [slot?_undoing? hfirst, beq_iff_eq.1 he]
  have hcell : first.cell? d = some c := by rw [Change.cell?_of_slot? hslot, hc]
  exact Change.isSome_last?_of_mem (List.mem_filterMap.2 ⟨e, hmem, hfirst⟩) hcell

/-- The camera moves without a trace in the journal. -/
theorem Faithful.make_camera (h : Faithful d s) (frame : Rect) :
    Faithful d (Stage.make s (.camera frame)) := by
  have hplain : Change.Plain d (.camera frame) := trivial
  have hmade := Scene.rewritten_make (hplain.congr h.skeleton.symm)
  refine ⟨hmade.skeleton.trans h.skeleton, h.baseline, h.dynamic, h.kept, fun c hc => ?_⟩
  exact h.undone_make hplain (h.undone c hc) (.inr fun heq => hc (Option.some.inj heq).symm)

/-- A write to a slot changes nothing, or it changes the diagram, and what the slot held stands
    in the journal already or is put there. -/
theorem make_cases (s : Store) (hslot : ch.slot? = some slot) :
    Stage.make s ch = s ∨
    ((s.journal.any fun e => e.1 == slot) = true ∧
      Stage.make s ch = { s with scene := Stage.make s.scene ch }) ∨
    (s.scene.contains slot.key = true ∧
      Stage.make s ch =
        { s with
          scene := Stage.make s.scene ch
          journal := (slot, s.slotValue? slot) :: s.journal }) := by
  cases hkey : s.scene.contains slot.key with
  | false => exact .inl (make_of_missing s hslot hkey)
  | true =>
    rw [make_of_contains s hslot hkey]
    cases hold : s.journal.any fun e => e.1 == slot with
    | true =>
      have hsame : s.remember slot = s := by simp only [remember, hold, if_true]
      rw [hsame]
      exact .inr (.inl ⟨rfl, rfl⟩)
    | false =>
      have hnew : s.remember slot =
          { s with journal := (slot, s.slotValue? slot) :: s.journal } := by
        simp only [remember, hold, Bool.false_eq_true, if_false]
      rw [hnew]
      exact .inr (.inr ⟨rfl, rfl⟩)

/-- A slot that was written before is written again. -/
theorem Faithful.undone_again (h : Faithful d s) (hslot : ch.slot? = some slot)
    (hplain : ch.Plain d) (hold : (s.journal.any fun e => e.1 == slot) = true)
    (hc : Undone d s c) : Undone d { s with scene := Stage.make s.scene ch } c := by
  refine h.undone_make hplain hc ?_
  by_cases hcell : ch.cell? d = some c
  · rw [Change.cell?_of_slot? hslot] at hcell
    exact .inl (h.isSome_last?_undoings hold hcell)
  · exact .inr hcell

/-- A slot is written for the first time, and what it held is kept. -/
theorem Faithful.undone_first (h : Faithful d s) (hslot : ch.slot? = some slot)
    (hplain : ch.Plain d) (hkey : s.scene.contains slot.key = true) (hc : Undone d s c) :
    Undone d
      { s with
        scene := Stage.make s.scene ch
        journal := (slot, s.slotValue? slot) :: s.journal } c := by
  obtain ⟨c', undo, hc', hundo, _, hvalue⟩ := exists_undoing h.skeleton hslot hplain hkey
  have hcell : ch.cell? d = some c' := by rw [Change.cell?_of_slot? hslot, hc']
  have hundoCell : undo.cell? d = some c' := by
    rw [Change.cell?_of_slot? (slot?_undoing? hundo), hc']
  show (Change.last? d c (((slot, s.slotValue? slot) :: s.journal).filterMap undoing?)).getD
    ((Stage.make s.scene ch).cell? c) = d.cell? c
  rw [List.filterMap_cons, hundo, Change.last?, hundoCell, ← undoings]
  have hundone := hc
  rw [Undone] at hundone
  cases hlast : Change.last? d c s.undoings with
  | some value =>
    -- another name of the cell was written before, and that counts
    rw [hlast] at hundone
    exact hundone
  | none =>
    rw [hlast, Option.getD_none] at hundone
    by_cases heq : c' = c
    · subst heq
      rw [if_pos rfl, Option.none_or, Option.getD_some, hvalue, hundone]
    · have hother : ch.cell? d ≠ some c := fun hx => heq (Option.some.inj (hcell.symm.trans hx))
      have hsame := h.undone_make hplain hc (.inr hother)
      rw [hlast, Option.getD_none] at hsame
      rw [if_neg fun hx => heq (Option.some.inj hx), Option.none_or, Option.getD_none, hsame]

/-- A write to a slot keeps what can be undone. -/
theorem Faithful.undone_slot (h : Faithful d s) (hslot : ch.slot? = some slot)
    (hplain : ch.Plain d) (hc : Undone d s c) : Undone d (Stage.make s ch) c := by
  rcases make_cases s hslot with hmake | ⟨hold, hmake⟩ | ⟨hkey, hmake⟩ <;> rw [hmake]
  · exact hc
  · exact h.undone_again hslot hplain hold hc
  · exact h.undone_first hslot hplain hkey hc

/-- What a write adds to the journal can be undone. -/
theorem Faithful.kept_slot (h : Faithful d s) (hslot : ch.slot? = some slot)
    (hplain : ch.Plain d) :
    ∀ e ∈ (Stage.make s ch).journal, ∃ undo, undoing? e = some undo ∧ undo.Plain d := by
  rcases make_cases s hslot with hmake | ⟨_, hmake⟩ | ⟨hkey, hmake⟩ <;> rw [hmake]
  · exact h.kept
  · exact h.kept
  · obtain ⟨_, undo, _, hundo, hundoPlain, _⟩ := exists_undoing h.skeleton hslot hplain hkey
    intro e he
    rcases List.mem_cons.1 he with rfl | he
    · exact ⟨undo, hundo, hundoPlain⟩
    · exact h.kept e he

/-- A plain change keeps a store faithful. -/
theorem Faithful.make (h : Faithful d s) (hplain : ch.Plain d) :
    Faithful d (Stage.make s ch) := by
  cases hslot : ch.slot? with
  | none =>
    cases ch with
    | text => cases hslot
    | camera frame => exact h.make_camera frame
    | _ => cases hslot
  | some slot =>
    have hmade := Scene.rewritten_make (hplain.congr h.skeleton.symm)
    obtain ⟨hscene, hrule, hbaseline⟩ := s.make_eq ch
    refine ⟨?_, ?_, ?_, h.kept_slot hslot hplain, fun c hc =>
      h.undone_slot hslot hplain (h.undone c hc)⟩
    · rw [hscene]
      exact hmade.skeleton.trans h.skeleton
    · rw [hbaseline, hrule]
      exact h.baseline
    · rw [hbaseline]
      exact h.dynamic

theorem Faithful.makeAll (h : Faithful d s) {chs : List Change} (hplain : ∀ ch ∈ chs, ch.Plain d) :
    Faithful d (Stage.makeAll s chs) := by
  induction chs generalizing s with
  | nil => exact h
  | cons ch chs ih =>
    exact ih (h.make (hplain ch List.mem_cons_self)) fun ch' hch' =>
      hplain ch' (List.mem_cons_of_mem _ hch')

/-! ## Putting back -/

theorem Faithful.plain_undoings (h : Faithful d s) : ∀ ch ∈ s.undoings, ch.Plain d := by
  intro ch hch
  obtain ⟨e, he, hundo⟩ := List.mem_filterMap.1 hch
  obtain ⟨ch', hundo', hplain⟩ := h.kept e he
  rw [hundo] at hundo'
  cases hundo'
  exact hplain

theorem Faithful.plain_dynamicChanges (h : Faithful d s) : ∀ ch ∈ s.dynamicChanges, ch.Plain d := by
  intro ch hch
  obtain ⟨e, he, rfl⟩ := List.mem_map.1 hch
  exact h.dynamic e.1 (List.mem_map.2 ⟨e, he, rfl⟩)

/-- A dynamic element has the text that was captured. -/
theorem text?_of_mem_dynamicTexts {rule : DynamicRule} {e : String × String}
    (he : e ∈ (dynamicTexts rule d).entries) : d.text? e.1 = some e.2 := by
  obtain ⟨key, _, hkey⟩ := List.mem_filterMap.1 (Dict.mem_of_mem_ofList he)
  obtain ⟨t, ht, rfl⟩ := Option.map_eq_some_iff.1 hkey
  exact ht

/-- A reset gives a cell what the diagram held. -/
theorem Faithful.cell?_reset_of_undone (h : Faithful d s) {c : Cell} (hc : Undone d s c) :
    s.reset.scene.cell? c = d.cell? c := by
  have hundone := Scene.cell?_makeAll h.plain_undoings s.scene h.skeleton
  have hdynamic := Scene.cell?_makeAll h.plain_dynamicChanges _ hundone.1
  rw [Undone] at hc
  rw [scene_reset, hdynamic.2, hundone.2, hc]
  cases hlast : Change.last? d c s.dynamicChanges with
  | none => rfl
  | some value =>
    -- a dynamic element gets the text that it had
    obtain ⟨ch, hch, hcell, rfl⟩ := Change.exists_of_last? hlast
    obtain ⟨e, he, rfl⟩ := List.mem_map.1 hch
    obtain ⟨a, ha, rfl⟩ := Option.map_eq_some_iff.1 hcell
    have htext := h.dynamic e.1 (List.mem_map.2 ⟨e, he, rfl⟩)
    rw [h.baseline] at he
    rw [Option.getD_some, ← htext.text?_eq_cell? ha, text?_of_mem_dynamicTexts he]
    rfl

/-- A reset gives every cell what the diagram held, but for the camera. -/
theorem Faithful.cell?_reset (h : Faithful d s) :
    s.reset.scene.skeleton = d.skeleton ∧
      ∀ c, c ≠ .camera → s.reset.scene.cell? c = d.cell? c := by
  have hundone := Scene.cell?_makeAll h.plain_undoings s.scene h.skeleton
  have hdynamic := Scene.cell?_makeAll h.plain_dynamicChanges _ hundone.1
  refine ⟨?_, fun c hc => h.cell?_reset_of_undone (h.undone c hc)⟩
  rw [scene_reset]
  exact hdynamic.1

theorem Faithful.reset (h : Faithful d s) : Faithful d s.reset where
  skeleton := h.cell?_reset.1
  baseline := h.baseline
  dynamic := h.dynamic
  kept := fun _ he => by cases he
  undone := fun c hc => h.cell?_reset.2 c hc

/-! ## Actions -/

/-- One thing that is done to a store. -/
inductive Action where
  | reset
  | change (ch : Change)

/-- Does one thing to a store. -/
def perform (s : Store) : Action → Store
  | .reset => s.reset
  | .change ch => Stage.make s ch

/-- Does several things to a store, one after another. -/
def performAll (s : Store) (actions : List Action) : Store := actions.foldl perform s

theorem performAll_append (s : Store) (actions actions' : List Action) :
    s.performAll (actions ++ actions') = (s.performAll actions).performAll actions' :=
  List.foldl_append

theorem performAll_changes (s : Store) (chs : List Change) :
    s.performAll (chs.map .change) = Stage.makeAll s chs := by
  rw [performAll, List.foldl_map]
  rfl

/-- An action that is undone by a reset: a reset itself or a plain change. -/
def Action.Plain (d : Scene) : Action → Prop
  | .reset => True
  | .change ch => ch.Plain d

instance (d : Scene) : (action : Action) → Decidable (action.Plain d)
  | .reset => .isTrue trivial
  | .change ch => inferInstanceAs (Decidable (ch.Plain d))

theorem Faithful.perform (h : Faithful d s) {action : Action} (hplain : action.Plain d) :
    Faithful d (s.perform action) := by
  cases action with
  | reset => exact h.reset
  | change ch => exact h.make hplain

theorem Faithful.performAll (h : Faithful d s) {actions : List Action}
    (hplain : ∀ action ∈ actions, action.Plain d) : Faithful d (s.performAll actions) := by
  induction actions generalizing s with
  | nil => exact h
  | cons action actions ih =>
    exact ih (h.perform (hplain action List.mem_cons_self)) fun action' hmem =>
      hplain action' (List.mem_cons_of_mem _ hmem)

@[simp] theorem performAll_rule (s : Store) (actions : List Action) :
    (s.performAll actions).rule = s.rule := by
  induction actions generalizing s with
  | nil => rfl
  | cons action actions ih =>
    rw [performAll, List.foldl_cons, ← performAll, ih]
    cases action with
    | reset => rfl
    | change ch => exact s.make_rule ch

/-! ## Changes since the last reset -/

/-- The changes since the last reset, given those before. -/
def Action.since (before : List Change) : List Action → List Change
  | [] => before
  | .reset :: actions => since [] actions
  | .change ch :: actions => since (before ++ [ch]) actions

theorem Action.since_append (before : List Change) (actions actions' : List Action) :
    since before (actions ++ actions') = since (since before actions) actions' := by
  induction actions generalizing before with
  | nil => rfl
  | cons action actions ih =>
    cases action with
    | reset => exact ih []
    | change ch => exact ih (before ++ [ch])

@[simp] theorem Action.since_changes (before chs : List Change) :
    since before (chs.map .change) = before ++ chs := by
  induction chs generalizing before with
  | nil => exact (List.append_nil before).symm
  | cons ch chs ih => rw [List.map_cons, since, ih, List.append_assoc, List.singleton_append]

/-- The store shows a diagram with changes made; where the camera is, is known once it was
    moved. -/
def Shows (d : Scene) (made : List Change) (s : Store) : Prop :=
  ∀ c, (c = .camera → (Change.last? d c made).isSome = true) →
    s.scene.cell? c = Change.after? d made c

theorem shows_capture (rule : DynamicRule) (d : Scene) : Shows d [] (Store.capture rule d) :=
  fun _ _ => rfl

theorem Faithful.shows_make (h : Faithful d s) {made : List Change} (hmade : Shows d made s)
    {ch : Change} (hplain : ch.Plain d) : Shows d (made ++ [ch]) (Stage.make s ch) := by
  intro c hc
  have hmake := Scene.rewritten_make (hplain.congr h.skeleton.symm)
  rw [Change.cell?_congr h.skeleton] at hmake
  rw [make_scene]
  by_cases hcell : ch.cell? d = some c
  · have hlast : Change.last? d c [ch] = some ch.value := by
      rw [Change.last?, Change.last?, Option.none_or, if_pos hcell]
    rw [hmake.self c hcell, Change.after?_append, hlast, Option.getD_some]
  · have hlast : Change.last? d c [ch] = none := by
      rw [Change.last?, Change.last?, Option.none_or, if_neg hcell]
    rw [hmake.other c hcell, Change.after?_append, hlast, Option.getD_none]
    refine hmade c fun hcamera => ?_
    have hknown := hc hcamera
    rwa [Change.last?_append, hlast, Option.none_or] at hknown

/-- A faithful store shows what was changed since it was last reset. -/
theorem Faithful.shows_performAll {actions : List Action} (h : Faithful d s) {made : List Change}
    (hmade : Shows d made s) (hplain : ∀ action ∈ actions, action.Plain d) :
    Shows d (Action.since made actions) (s.performAll actions) := by
  induction actions generalizing s made with
  | nil => exact hmade
  | cons action actions ih =>
    have hfirst := hplain action List.mem_cons_self
    have hrest : ∀ action' ∈ actions, action'.Plain d := fun action' hmem =>
      hplain action' (List.mem_cons_of_mem _ hmem)
    cases action with
    | reset =>
      refine ih h.reset (fun c hc => ?_) hrest
      refine h.cell?_reset.2 c fun hcamera => ?_
      cases hc hcamera
    | change ch => exact ih (h.make hfirst) (h.shows_make hmade hfirst) hrest

end Store

end Slideshow

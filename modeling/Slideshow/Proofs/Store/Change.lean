/-
  Slideshow.Proofs.Store.Change

  What is done to a store, as lists of single changes: component values, the marks of the
  current phase and the hiding of tokens, and what the journal undoes.
-/
import Slideshow.Proofs.Dict
import Slideshow.Proofs.Scene.Change
import Slideshow.Store
import Slideshow.Timeline.Player

namespace Slideshow

/-! ## Changes by list -/

/-- The changes that set several attributes of an element. -/
def Dict.attributeChanges (values : Dict String) (key : String) : List Change :=
  values.entries.map fun e => .attribute key e.1 (some e.2)

/-- The changes that give a component its value. -/
def ComponentValue.changes (target : String) : ComponentValue → List Change
  | .text t => [.text (elementId target) t]
  | .attributes values => values.attributeChanges (elementId target)

/-- The changes that give components their values. -/
def Dict.changes (values : Dict ComponentValue) : List Change :=
  values.entries.flatMap fun e => e.2.changes e.1

namespace PhaseIndicator

/-- The changes that mark one phase as active or inactive. -/
def markChanges (p : PhaseIndicator) (active : Option PhaseKind) (phase : PhaseKind) :
    List Change :=
  let isActive := active == some phase
  let background := if isActive then p.activeBackground else p.inactiveBackground
  let text := if isActive then p.activeText else p.inactiveText
  background.attributeChanges (p.background ++ phase.name) ++
    text.attributeChanges (p.text ++ phase.name)

/-- The changes that mark the active phase and unmark the others. -/
def changes (p : PhaseIndicator) (active : Option PhaseKind) : List Change :=
  PhaseKind.all.flatMap (p.markChanges active)

end PhaseIndicator

/-- The changes that hide all tokens. -/
def TokenSlot.hiding (tokens : List TokenSlot) : List Change :=
  tokens.map fun t => .attribute t.group "opacity" (some "0")

/-! ## Values under one name -/

section

variable {d : Scene} {c : Cell} {key : String}

theorem last?_flatMap_changes {es : List (String × ComponentValue)} (h : SortedKeys es)
    (honly : ∀ e ∈ es, e.1 ≠ key → Change.last? d c (e.2.changes e.1) = none) :
    Change.last? d c (es.flatMap fun e => e.2.changes e.1) =
      (lookupIn? key es).bind fun v => Change.last? d c (v.changes key) := by
  induction es with
  | nil => rfl
  | cons e es ih =>
    have hrest := ih (List.pairwise_cons.1 h).2 fun e' he' => honly e' (List.mem_cons_of_mem _ he')
    rw [List.flatMap_cons, Change.last?_append, hrest, lookupIn?]
    by_cases hkey : e.1 = key
    · subst hkey
      rw [Dict.lookupIn?_tail (Dict.nodup_keys h), if_pos rfl, Option.bind_none, Option.none_or,
        Option.bind_some]
    · rw [if_neg hkey, honly e List.mem_cons_self hkey, Option.or_none]

/-- Where a single component can write to a cell, its value says what is written. -/
theorem Dict.last?_changes {values : Dict ComponentValue}
    (honly : ∀ e ∈ values.entries, e.1 ≠ key → Change.last? d c (e.2.changes e.1) = none) :
    Change.last? d c values.changes =
      (values.get? key).bind fun v => Change.last? d c (v.changes key) :=
  last?_flatMap_changes values.sorted honly

end

/-- A step's values are merged into the values before it. -/
theorem Slide.overrides_succ {slide : Slide} {index : Nat} {step : Step}
    (h : slide.steps[index]? = some step) :
    slide.overrides (index + 1) = (slide.overrides index).insertMany step.finalState.entries := by
  rw [overrides, List.take_add_one, h, Option.toList_some, List.foldl_append]
  rfl

/-! ## Changes to a store -/

namespace Change

/-- The place that a change is journaled under; where the camera is, is not journaled. -/
def slot? : Change → Option Slot
  | .text key _ => some (.text key)
  | .attribute key name _ => some (.attribute key name)
  | .camera _ => none

end Change

/-- The key of the element that has a slot. -/
def Slot.key : Slot → String
  | .text key => key
  | .attribute key _ => key

/-- A change to an element that is not there changes nothing. -/
theorem Scene.make_of_missing {s : Scene} {ch : Change} {slot : Slot}
    (hslot : ch.slot? = some slot) (hkey : s.contains slot.key = false) : Stage.make s ch = s := by
  have hnone : s.resolve? slot.key = none := by
    rw [Scene.contains, Option.isSome_eq_false_iff, Option.isNone_iff_eq_none] at hkey
    exact hkey
  refine make_of_cell?_none ?_
  cases ch with
  | text =>
    cases hslot
    exact Option.map_eq_none_iff.2 hnone
  | camera => cases hslot
  | _ =>
    cases hslot
    exact Option.map_eq_none_iff.2 hnone

namespace Store

variable (s : Store)

@[simp] theorem remember_scene (slot : Slot) : (s.remember slot).scene = s.scene := by
  unfold remember
  split <;> rfl

@[simp] theorem remember_rule (slot : Slot) : (s.remember slot).rule = s.rule := by
  unfold remember
  split <;> rfl

@[simp] theorem remember_baseline (slot : Slot) : (s.remember slot).baseline = s.baseline := by
  unfold remember
  split <;> rfl

/-- A write to an element that is there keeps what the slot held before. -/
theorem make_eq_ite {ch : Change} {slot : Slot} (hslot : ch.slot? = some slot) :
    Stage.make s ch =
      if s.scene.contains slot.key then { s.remember slot with scene := Stage.make s.scene ch }
      else s := by
  cases ch with
  | text key value =>
    cases hslot
    simp only [Stage.make, Stage.setText, setText, Slot.key, remember_scene]
    rfl
  | camera => cases hslot
  | _ key name value =>
    cases hslot
    cases value with
    | none =>
      simp only [Stage.make, Stage.removeAttribute, removeAttribute, Slot.key, remember_scene]
      rfl
    | some value =>
      simp only [Stage.make, Stage.setAttribute, setAttribute, Slot.key, remember_scene]
      rfl

theorem make_of_missing {ch : Change} {slot : Slot} (hslot : ch.slot? = some slot)
    (hkey : s.scene.contains slot.key = false) : Stage.make s ch = s := by
  rw [make_eq_ite s hslot, hkey, if_neg Bool.false_ne_true]

theorem make_of_contains {ch : Change} {slot : Slot} (hslot : ch.slot? = some slot)
    (hkey : s.scene.contains slot.key = true) :
    Stage.make s ch = { s.remember slot with scene := Stage.make s.scene ch } := by
  rw [make_eq_ite s hslot, hkey, if_pos rfl]

/-- Every change makes its write to the diagram, and rule and baseline stay. -/
theorem make_eq (ch : Change) : (Stage.make s ch).scene = Stage.make s.scene ch ∧
    (Stage.make s ch).rule = s.rule ∧ (Stage.make s ch).baseline = s.baseline := by
  cases hslot : ch.slot? with
  | none =>
    cases ch with
    | camera frame => exact ⟨rfl, rfl, rfl⟩
    | text => cases hslot
    | _ => cases hslot
  | some slot =>
    cases hkey : s.scene.contains slot.key with
    | true =>
      rw [make_of_contains s hslot hkey]
      exact ⟨rfl, s.remember_rule slot, s.remember_baseline slot⟩
    | false =>
      rw [make_of_missing s hslot hkey]
      exact ⟨(Scene.make_of_missing hslot hkey).symm, rfl, rfl⟩

@[simp] theorem make_scene (ch : Change) : (Stage.make s ch).scene = Stage.make s.scene ch :=
  (s.make_eq ch).1

@[simp] theorem make_rule (ch : Change) : (Stage.make s ch).rule = s.rule := (s.make_eq ch).2.1

@[simp] theorem makeAll_scene (chs : List Change) :
    (Stage.makeAll s chs).scene = Stage.makeAll s.scene chs := by
  induction chs generalizing s with
  | nil => rfl
  | cons ch chs ih => rw [Stage.makeAll_cons, ih, make_scene, Stage.makeAll_cons]

theorem makeAll_of_missing {key : String} (hkey : s.scene.contains key = false)
    {chs : List Change} (h : ∀ ch ∈ chs, ∃ slot, ch.slot? = some slot ∧ slot.key = key) :
    Stage.makeAll s chs = s := by
  induction chs with
  | nil => rfl
  | cons ch chs ih =>
    obtain ⟨slot, hslot, rfl⟩ := h ch List.mem_cons_self
    rw [Stage.makeAll_cons, make_of_missing s hslot hkey]
    exact ih fun ch' hch' => h ch' (List.mem_cons_of_mem _ hch')

theorem setAttributes_eq (key : String) (values : Dict String) :
    Stage.setAttributes s key values = Stage.makeAll s (values.attributeChanges key) := by
  simp only [Stage.setAttributes, Dict.attributeChanges, Stage.makeAll, List.foldl_map, Stage.make]

theorem slot?_attributeChanges {values : Dict String} {key : String} {ch : Change}
    (h : ch ∈ values.attributeChanges key) : ∃ slot, ch.slot? = some slot ∧ slot.key = key := by
  obtain ⟨e, _, rfl⟩ := List.mem_map.1 h
  exact ⟨_, rfl, rfl⟩

theorem applyOne_eq (target : String) (value : ComponentValue) :
    s.applyOne target value = Stage.makeAll s (value.changes target) := by
  cases hkey : s.scene.contains (elementId target) with
  | true =>
    simp only [applyOne, hkey, if_true]
    cases value with
    | text t => rfl
    | _ values => exact s.setAttributes_eq _ values
  | false =>
    simp only [applyOne, hkey, Bool.false_eq_true, if_false]
    refine (s.makeAll_of_missing hkey fun ch hch => ?_).symm
    cases value with
    | text t =>
      cases List.mem_singleton.1 hch
      exact ⟨_, rfl, rfl⟩
    | _ values => exact slot?_attributeChanges hch

/-- Components get their values by single changes. -/
theorem apply_eq (values : Dict ComponentValue) :
    s.apply values = Stage.makeAll s values.changes := by
  rw [apply, Dict.changes]
  generalize values.entries = es
  induction es generalizing s with
  | nil => rfl
  | cons e es ih => rw [List.foldl_cons, ih, applyOne_eq, List.flatMap_cons, Stage.makeAll_append]

theorem mark_eq (p : PhaseIndicator) (active : Option PhaseKind) (phase : PhaseKind) :
    p.mark active s phase = Stage.makeAll s (p.markChanges active phase) := by
  have hset : ∀ (s : Store) (key : String) (values : Dict String),
      (if Stage.contains s key then Stage.setAttributes s key values else s) =
        Stage.makeAll s (values.attributeChanges key) := by
    intro s key values
    split
    · exact s.setAttributes_eq key values
    · rename_i hkey
      rw [Bool.not_eq_true] at hkey
      exact (s.makeAll_of_missing hkey fun _ => slot?_attributeChanges).symm
  simp only [PhaseIndicator.mark, hset, PhaseIndicator.markChanges, Stage.makeAll_append]

/-- Phases are marked by single changes. -/
theorem applyIndicator_eq (p : PhaseIndicator) (active : Option PhaseKind) :
    p.apply active s = Stage.makeAll s (p.changes active) := by
  rw [PhaseIndicator.apply, PhaseIndicator.changes]
  generalize PhaseKind.all = phases
  induction phases generalizing s with
  | nil => rfl
  | cons phase phases ih =>
    rw [List.foldl_cons, ih, mark_eq, List.flatMap_cons, Stage.makeAll_append]

/-- Tokens are hidden by single changes. -/
theorem hideTokens_eq (tokens : List TokenSlot) :
    Player.hideTokens tokens s = Stage.makeAll s (TokenSlot.hiding tokens) := by
  rw [Player.hideTokens, TokenSlot.hiding]
  induction tokens generalizing s with
  | nil => rfl
  | cons t tokens ih =>
    rw [List.foldl_cons, ih, List.map_cons, Stage.makeAll_cons]
    congr 1
    split
    · rfl
    · rename_i hkey
      rw [Bool.not_eq_true] at hkey
      have hslot : (Change.attribute t.group "opacity" (some "0")).slot? =
          some (.attribute t.group "opacity") := rfl
      exact (s.make_of_missing hslot hkey).symm

end Store

end Slideshow

/-
  Slideshow.Proofs.Store.Exact

  A reset takes back all writes that went through a store, however they overlap, as long as
  no id is written and no text takes the place of something that can be named
  (`reset_exact`). Where a text takes the place of other elements the argument is about the
  condensed diagram, in which those elements are text too.
-/
import Slideshow.Proofs.Scene.Condense
import Slideshow.Proofs.Scene.Import
import Slideshow.Proofs.Store.Faithful

namespace Slideshow

namespace Store

variable {d : Scene} {s : Store} {ch : Change} {slot : Slot} {c : Cell}

/-! ## Stores of condensed diagrams -/

/-- The store with its diagram condensed. -/
def condense (s : Store) : Store := { s with scene := s.scene.condense }

theorem slotValue?_condense (s : Store) (slot : Slot) :
    s.condense.slotValue? slot = s.slotValue? slot := by
  cases slot with
  | text key => exact s.scene.text?_condense key
  | _ key name => exact s.scene.attribute?_condense key name

theorem remember_condense (s : Store) (slot : Slot) :
    (s.remember slot).condense = s.condense.remember slot := by
  have hjournal : s.condense.journal = s.journal := rfl
  rw [remember, remember, slotValue?_condense, hjournal]
  split <;> rfl

theorem make_condense (h : ch.Mild s.scene) :
    (Stage.make s ch).condense = Stage.make s.condense ch := by
  cases hslot : ch.slot? with
  | none =>
    cases ch with
    | text => cases hslot
    | camera frame =>
      have hscene := Scene.make_condense h
      show { s with scene := (Stage.make s.scene (.camera frame)).condense } = _
      rw [hscene]
      rfl
    | _ => cases hslot
  | some slot =>
    have hkey : s.condense.scene.contains slot.key = s.scene.contains slot.key :=
      s.scene.contains_condense slot.key
    rw [make_eq_ite s hslot, make_eq_ite s.condense hslot, hkey]
    split
    · show { (s.remember slot).condense with scene := (Stage.make s.scene ch).condense } = _
      rw [remember_condense, Scene.make_condense h]
      rfl
    · rfl

theorem dynamicTexts_condense (rule : DynamicRule) (d : Scene) :
    dynamicTexts rule d.condense = dynamicTexts rule d := by
  have htext : d.condense.text? = d.text? := funext d.text?_condense
  have hdynamic : isDynamic rule d.condense = isDynamic rule d := by
    funext key
    have hclasses : Stage.attribute? d.condense key "class" = Stage.attribute? d key "class" :=
      Scene.attribute?_condense d key "class"
    have hclass : Stage.hasClass d.condense key rule.markerClass =
        Stage.hasClass d key rule.markerClass := by
      rw [Stage.hasClass, Stage.hasClass, hclasses]
    rw [isDynamic, isDynamic, hclass]
  rw [dynamicTexts, dynamicTexts, Scene.ids_condense, hdynamic, htext]

theorem condense_capture (rule : DynamicRule) (d : Scene) :
    (capture rule d).condense = capture rule d.condense := by
  rw [capture, capture, dynamicTexts_condense]
  rfl

/-- A reset goes along with condensing. -/
theorem condense_reset (h : Faithful d s.condense) : s.reset.condense = s.condense.reset := by
  have hundone := Scene.makeAll_condense h.plain_undoings s.scene h.skeleton
  have hskel := (Scene.cell?_makeAll h.plain_undoings _ h.skeleton).1
  have hdynamic := Scene.makeAll_condense h.plain_dynamicChanges
    (Stage.makeAll s.scene s.undoings) (hundone ▸ hskel)
  have hscene : s.reset.scene.condense = s.condense.reset.scene := by
    rw [scene_reset, scene_reset]
    exact hdynamic.trans (congrArg (Stage.makeAll · s.dynamicChanges) hundone)
  show { s with scene := s.reset.scene.condense, journal := [] } = s.condense.reset
  rw [hscene]
  rfl

/-- What is done to a store by plain actions goes along with condensing. -/
theorem condense_performAll {actions : List Action} (h : Faithful d s.condense)
    (hplain : ∀ action ∈ actions, action.Plain d) :
    (s.performAll actions).condense = s.condense.performAll actions := by
  induction actions generalizing s with
  | nil => rfl
  | cons action actions ih =>
    have hfirst := hplain action List.mem_cons_self
    have hstep : (s.perform action).condense = s.condense.perform action := by
      cases action with
      | reset => exact condense_reset h
      | change ch =>
        have hmild : ch.Plain s.condense.scene := Change.Plain.congr hfirst h.skeleton.symm
        exact make_condense ((ch.plain_condense_iff s.scene).1 hmild)
    have hnext : Faithful d (s.perform action).condense := by
      rw [hstep]
      exact h.perform hfirst
    have hrest := ih hnext fun action' hmem => hplain action' (List.mem_cons_of_mem _ hmem)
    show ((s.perform action).performAll actions).condense =
      (s.condense.perform action).performAll actions
    rw [hrest, hstep]

/-! ## Everything is undone -/

/-- The action goes through the journal. -/
def Action.Journaled : Action → Prop
  | .reset => True
  | .change ch => ch.slot?.isSome = true

/-- Without moves of the camera every cell can be put back. -/
theorem Faithful.undone_performAll {actions : List Action} (h : Faithful d s)
    (hc : Undone d s c) (hplain : ∀ action ∈ actions, action.Plain d)
    (hjournaled : ∀ action ∈ actions, action.Journaled) : Undone d (s.performAll actions) c := by
  induction actions generalizing s with
  | nil => exact hc
  | cons action actions ih =>
    have hfirst := hplain action List.mem_cons_self
    refine ih (h.perform hfirst) ?_
      (fun action' hmem => hplain action' (List.mem_cons_of_mem _ hmem))
      fun action' hmem => hjournaled action' (List.mem_cons_of_mem _ hmem)
    cases action with
    | reset => exact h.cell?_reset_of_undone hc
    | change ch =>
      obtain ⟨slot, hslot⟩ := Option.isSome_iff_exists.1 (hjournaled _ List.mem_cons_self)
      exact h.undone_slot hslot hfirst hc

/-- A reset brings back a diagram that looks like the one that was captured. -/
theorem Faithful.alike_reset (h : Faithful d s) (hall : ∀ c, Undone d s c) :
    Scene.Alike s.reset.scene d where
  skeleton := h.cell?_reset.1
  cells c := h.cell?_reset_of_undone (hall c)

/-! ## Calls -/

/-- What can be asked of a store that writes. -/
inductive Call where
  | setText (key value : String)
  | setAttribute (key name value : String)
  | removeAttribute (key name : String)
  | apply (values : Dict ComponentValue)
  | restore (slide : Slide) (count : Nat)

namespace Call

/-- The store behind a call. -/
def run : Call → Store → Store
  | .setText key value, s => s.setText key value
  | .setAttribute key name value, s => s.setAttribute key name value
  | .removeAttribute key name, s => s.removeAttribute key name
  | .apply values, s => s.apply values
  | .restore slide count, s => s.restore slide count

/-- The changes that a call makes. -/
def changes : Call → List Change
  | .setText key value => [.text key value]
  | .setAttribute key name value => [.attribute key name (some value)]
  | .removeAttribute key name => [.attribute key name none]
  | .apply values => values.changes
  | .restore slide count => (slide.overrides count).changes

/-- What a call does: its changes, and a reset before them if it restores a state. -/
def actions : Call → List Action
  | .restore slide count => .reset :: (Call.restore slide count).changes.map .change
  | call => call.changes.map .change

theorem run_eq (call : Call) (s : Store) : call.run s = s.performAll call.actions := by
  cases call with
  | setText => rfl
  | setAttribute => rfl
  | removeAttribute => rfl
  | apply values => exact (s.apply_eq values).trans (s.performAll_changes values.changes).symm
  | restore slide count =>
    have happly := s.reset.apply_eq (slide.overrides count)
    exact happly.trans (s.reset.performAll_changes _).symm

theorem slot?_of_mem_changes {call : Call} (h : ch ∈ call.changes) : ch.slot?.isSome = true := by
  have hvalues : ∀ values : Dict ComponentValue, ch ∈ values.changes → ch.slot?.isSome = true := by
    intro values hch
    obtain ⟨e, _, hch⟩ := List.mem_flatMap.1 hch
    cases hvalue : e.2 with
    | text t =>
      rw [hvalue] at hch
      cases List.mem_singleton.1 hch
      rfl
    | attributes attrs =>
      rw [hvalue] at hch
      obtain ⟨slot, hslot, _⟩ := slot?_attributeChanges hch
      rw [hslot]
      rfl
  cases call with
  | apply values => exact hvalues values h
  | restore slide count => exact hvalues _ h
  | _ =>
    cases List.mem_singleton.1 h
    rfl

theorem mem_actions {call : Call} {action : Action} (h : action ∈ call.actions) :
    action = .reset ∨ ∃ ch ∈ call.changes, action = .change ch := by
  have hchanges : action ∈ call.changes.map .change → ∃ ch ∈ call.changes, action = .change ch := by
    intro hmem
    obtain ⟨ch, hch, rfl⟩ := List.mem_map.1 hmem
    exact ⟨ch, hch, rfl⟩
  cases call with
  | restore slide count =>
    rcases List.mem_cons.1 h with rfl | h
    · exact .inl rfl
    · exact .inr (hchanges h)
  | _ => exact .inr (hchanges h)

end Call

/-- The store behind several calls. -/
def runAll (s : Store) (calls : List Call) : Store := calls.foldl (fun s call => call.run s) s

theorem runAll_eq (s : Store) (calls : List Call) :
    s.runAll calls = s.performAll (calls.flatMap Call.actions) := by
  induction calls generalizing s with
  | nil => rfl
  | cons call calls ih =>
    rw [List.flatMap_cons, performAll_append, ← call.run_eq]
    exact ih (call.run s)

/-! ## Exactness -/

/-- However calls that make mild changes follow on each other, a reset brings back the ids, and
    all texts and attributes. -/
theorem reset_exact {rule : DynamicRule} {d : Scene}
    (hdynamic : ∀ key ∈ (dynamicTexts rule d).keys, d.Closed key) {calls : List Call}
    (hmild : ∀ call ∈ calls, ∀ ch ∈ call.changes, ch.Mild d) :
    let t := ((capture rule d).runAll calls).reset.scene
    t.ids = d.ids ∧ ∀ key, t.text? key = d.text? key ∧
      ∀ name, t.attribute? key name = d.attribute? key name := by
  intro t
  have hplain : ∀ action ∈ calls.flatMap Call.actions, action.Plain d.condense ∧
      action.Journaled := by
    intro action haction
    obtain ⟨call, hcall, haction⟩ := List.mem_flatMap.1 haction
    rcases Call.mem_actions haction with rfl | ⟨ch, hch, rfl⟩
    · exact ⟨trivial, trivial⟩
    · exact ⟨(ch.plain_condense_iff d).2 (hmild call hcall ch hch), Call.slot?_of_mem_changes hch⟩
  have hcapture : Faithful d.condense (capture rule d).condense := by
    rw [condense_capture]
    refine faithful_capture fun key hkey => ?_
    rw [dynamicTexts_condense] at hkey
    exact (d.textOnly_condense_iff key).2 (hdynamic key hkey)
  have hrun := condense_performAll hcapture fun action h => (hplain action h).1
  have hfaithful := hcapture.performAll fun action h => (hplain action h).1
  have hundone : ∀ c, Undone d.condense ((capture rule d).condense.performAll _) c := fun c =>
    hcapture.undone_performAll (c := c) rfl (fun action h => (hplain action h).1)
      fun action h => (hplain action h).2
  have halike := hfaithful.alike_reset hundone
  rw [← hrun, ← condense_reset (hrun ▸ hfaithful), ← runAll_eq] at halike
  have hlike : Scene.Alike t.condense d.condense := halike
  refine ⟨?_, fun key => ⟨?_, fun name => ?_⟩⟩
  · rw [← t.ids_condense, hlike.ids, d.ids_condense]
  · rw [← t.text?_condense, hlike.text?, d.text?_condense]
  · rw [← t.attribute?_condense, hlike.attribute?, d.attribute?_condense]

/-- A group whose first shape has no id, and a text with a part set off, are written under
    overlapping keys. -/
theorem reset_exact_demo :
    let d : Scene :=
      { namespaces := []
        tag := ⟨none, "svg", []⟩
        children := [
          .element ⟨some "g", "g", [("id", "g")]⟩ [
            .element ⟨none, "rect", [("fill", "red")]⟩ [],
            .element ⟨some "t", "text", [("id", "t")]⟩ [
              .text "a", .element ⟨none, "tspan", []⟩ [.text "b"]]]]
        detached := [] }
    let calls : List Call := [.setText "t" "x", .setAttribute "g::shape" "fill" "blue",
      .apply (.ofList [("t", .text "y")]), .removeAttribute "g" "class"]
    (∀ key ∈ (dynamicTexts .usual d).keys, d.Closed key) ∧
      (∀ call ∈ calls, ∀ ch ∈ call.changes, ch.Mild d) ∧
      let t := ((capture .usual d).runAll calls).reset.scene
      t.ids = d.ids ∧ ∀ key, t.text? key = d.text? key ∧
        ∀ name, t.attribute? key name = d.attribute? key name := by
  intro d calls
  have hdynamic : ∀ key ∈ (dynamicTexts .usual d).keys, d.Closed key := by decide +kernel
  have hmild : ∀ call ∈ calls, ∀ ch ∈ call.changes, ch.Mild d := by decide +kernel
  exact ⟨hdynamic, hmild, reset_exact hdynamic hmild⟩

/-- An element that got another id keeps it: the journal knows it by the old one. -/
theorem renamed_not_reset :
    ∃ d, Scene.load "<svg><rect id=\"a\" fill=\"red\"/></svg>" = .ok d ∧
      (dynamicTexts .usual d).keys = [] ∧ d.ids = ["a"] ∧
      ((capture .usual d).runAll [.setAttribute "a" "id" "b"]).reset.scene.ids = ["b"] ∧
      ((capture .usual d).runAll [.setAttribute "a" "id" "b"]).reset.scene.attribute? "a" "fill" ≠
        d.attribute? "a" "fill" := by
  obtain ⟨d, hload, hcheck⟩ := Scene.exists_load_of_any
    "<svg><rect id=\"a\" fill=\"red\"/></svg>" (fun d => decide
      ((dynamicTexts .usual d).keys = [] ∧ d.ids = ["a"] ∧
      ((capture .usual d).runAll [.setAttribute "a" "id" "b"]).reset.scene.ids = ["b"] ∧
      ((capture .usual d).runAll [.setAttribute "a" "id" "b"]).reset.scene.attribute? "a" "fill" ≠
        d.attribute? "a" "fill")) (by decide +kernel)
  exact ⟨d, hload, of_decide_eq_true hcheck⟩

end Store

end Slideshow

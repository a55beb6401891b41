/-
  Slideshow.Proofs.Topic.Reading

  Records of a topic document, field by field: an object is read as a given value exactly
  when no field is given twice and each field is read as that part of the value.
-/
import Slideshow.Proofs.Json.Fields
import Slideshow.Topic.Reader
import Slideshow.Topic.Validation
import Mathlib.Tactic.SplitIfs

namespace Slideshow

open Json

variable {ms : Topic.Members}

/-! ## Paths and captions -/

theorem PathSpec.ofJson?_obj_eq_some_iff {p : PathSpec Float} :
    PathSpec.ofJson? (.obj ms) = some p ↔
      Unambiguous [["path"], ["start"], ["end"], ["duration"], ["ease"]] ms ∧
        required str? (lookupIn? "path" ms) = some p.path ∧
        (∃ x, Json.optional float? (lookupIn? "start" ms) = some x ∧ x.getD 0 = p.start) ∧
        (∃ x, Json.optional float? (lookupIn? "end" ms) = some x ∧ x.getD 1 = p.stop) ∧
        Json.optional float? (lookupIn? "duration" ms) = some p.duration ∧
        Json.optional Ease.ofJson? (lookupIn? "ease" ms) = some p.ease := by
  simp only [PathSpec.ofJson?]
  rw [fields?_obj]
  split_ifs with hone
  · simp only [List.map_cons, List.map_nil, lookupAny?_one, Option.bind_eq_bind,
      Option.bind_eq_some_iff, Option.pure_def, Option.some.injEq]
    constructor
    · rintro ⟨path, hpath, start, hstart, stop, hstop, duration, hduration, ease, hease, rfl⟩
      exact ⟨hone, hpath, ⟨start, hstart, rfl⟩, ⟨stop, hstop, rfl⟩, hduration, hease⟩
    · rintro ⟨-, hpath, ⟨start, hstart, hs⟩, ⟨stop, hstop, ht⟩, hduration, hease⟩
      refine ⟨_, hpath, _, hstart, _, hstop, _, hduration, _, hease, ?_⟩
      rw [hs, ht]
  · exact iff_of_false nofun fun h => hone h.1

theorem Caption.ofJson?_obj_eq_some_iff {c : Caption} :
    Caption.ofJson? (.obj ms) = some c ↔
      Unambiguous [["phase"], ["phaseExplanation"], ["title"], ["description"], ["noteTitle"],
        ["note"]] ms ∧
        required str? (lookupIn? "phase" ms) = some c.phase ∧
        Json.optional str? (lookupIn? "phaseExplanation" ms) = some c.phaseExplanation ∧
        required str? (lookupIn? "title" ms) = some c.title ∧
        Json.optional str? (lookupIn? "description" ms) = some c.description ∧
        Json.optional str? (lookupIn? "noteTitle" ms) = some c.noteTitle ∧
        Json.optional str? (lookupIn? "note" ms) = some c.note := by
  rw [Caption.ofJson?, fields?_obj]
  split_ifs with hone
  · simp only [List.map_cons, List.map_nil, lookupAny?_one, Option.bind_eq_bind,
      Option.bind_eq_some_iff, Option.pure_def, Option.some.injEq]
    constructor
    · rintro ⟨_, hphase, _, hexplanation, _, htitle, _, hdescription, _, hheading, _, hnote, rfl⟩
      exact ⟨hone, hphase, hexplanation, htitle, hdescription, hheading, hnote⟩
    · rintro ⟨-, hphase, hexplanation, htitle, hdescription, hheading, hnote⟩
      exact ⟨_, hphase, _, hexplanation, _, htitle, _, hdescription, _, hheading, _, hnote, rfl⟩
  · exact iff_of_false nofun fun h => hone h.1

/-! ## Directives without parts -/

namespace Directive

variable {d : Directive Float}

theorem simple?_camera_eq_some_iff :
    simple? .camera (.obj ms) = some d ↔
      Unambiguous [["to"], ["duration"], ["ease"]] ms ∧
        ∃ frame duration ease, required Frame.ofJson? (lookupIn? "to" ms) = some frame ∧
          Json.optional float? (lookupIn? "duration" ms) = some duration ∧
          Json.optional Ease.ofJson? (lookupIn? "ease" ms) = some ease ∧
          camera frame duration ease = d := by
  simp only [simple?, fields?_obj]
  split_ifs with hone
  · simp [hone, Option.bind_eq_some_iff]
  · exact iff_of_false nofun fun h => hone h.1

theorem simple?_packet_eq_some_iff :
    simple? .packet (.obj ms) = some d ↔
      Unambiguous [["text"], ["from"], ["paths"]] ms ∧
        ∃ label start paths, Json.optional spelling? (lookupIn? "text" ms) = some label ∧
          Json.optional Point.ofJson? (lookupIn? "from" ms) = some start ∧
          required (listOf? PathSpec.ofJson?) (lookupIn? "paths" ms) = some paths ∧
          packet label start paths = d := by
  simp only [simple?, fields?_obj]
  split_ifs with hone
  · simp [hone, Option.bind_eq_some_iff]
  · exact iff_of_false nofun fun h => hone h.1

theorem simple?_setValue_eq_some_iff :
    simple? .setValue (.obj ms) = some d ↔
      Unambiguous [["target"], ["value"]] ms ∧
        ∃ target value, required str? (lookupIn? "target" ms) = some target ∧
          required spelling? (lookupIn? "value" ms) = some value ∧
          setValue target value = d := by
  simp only [simple?, fields?_obj]
  split_ifs with hone
  · simp [hone, Option.bind_eq_some_iff]
  · exact iff_of_false nofun fun h => hone h.1

theorem simple?_pulse_eq_some_iff :
    simple? .pulse (.obj ms) = some d ↔
      Unambiguous [["target"], ["duration"], ["repeat"]] ms ∧
        ∃ target duration repetitions, required str? (lookupIn? "target" ms) = some target ∧
          Json.optional float? (lookupIn? "duration" ms) = some duration ∧
          Json.optional count? (lookupIn? "repeat" ms) = some repetitions ∧
          pulse target duration repetitions = d := by
  simp only [simple?, fields?_obj]
  split_ifs with hone
  · simp [hone, Option.bind_eq_some_iff]
  · exact iff_of_false nofun fun h => hone h.1

theorem simple?_wait_eq_some_iff :
    simple? .wait (.obj ms) = some d ↔
      Unambiguous [["duration"]] ms ∧
        ∃ duration, Json.optional float? (lookupIn? "duration" ms) = some duration ∧
          wait duration = d := by
  simp only [simple?, fields?_obj]
  split_ifs with hone
  · simp [hone]
  · exact iff_of_false nofun fun h => hone h.1

theorem simple?_attributes_eq_some_iff :
    simple? .attributes (.obj ms) = some d ↔
      Unambiguous [["target"], ["attributes", "attrs"], ["duration"], ["ease"]] ms ∧
        ∃ target values duration ease,
          required str? (lookupIn? "target" ms) = some target ∧
          required (dictOf? spelling?) (lookupAny? ["attributes", "attrs"] ms) = some values ∧
          Json.optional float? (lookupIn? "duration" ms) = some duration ∧
          Json.optional Ease.ofJson? (lookupIn? "ease" ms) = some ease ∧
          attributes target values duration ease = d := by
  simp only [simple?, fields?_obj]
  split_ifs with hone
  · simp [hone, Option.bind_eq_some_iff]
  · exact iff_of_false nofun fun h => hone h.1

/-- With attributes under one name only, no field is given twice. -/
theorem unambiguous_attributes_iff (h : SortedKeys ms) :
    Unambiguous [["target"], ["attributes", "attrs"], ["duration"], ["ease"]] ms ↔
      ¬ ((lookupIn? "attributes" ms).isSome = true ∧ (lookupIn? "attrs" ms).isSome = true) := by
  have hpair : (member? ["attributes", "attrs"] ms).isSome = true ↔
      ¬ ((lookupIn? "attributes" ms).isSome = true ∧ (lookupIn? "attrs" ms).isSome = true) := by
    rw [isSome_member?_iff h]
    constructor
    · rintro hone ⟨ha, hb⟩
      exact absurd (hone "attributes" (by simp) "attrs" (by simp) ha hb) (by decide)
    · intro hnot a ha b hb hga hgb
      simp only [List.mem_cons, List.not_mem_nil, or_false] at ha hb
      rcases ha with rfl | rfl <;> rcases hb with rfl | rfl
      · rfl
      · exact absurd ⟨hga, hgb⟩ hnot
      · exact absurd ⟨hgb, hga⟩ hnot
      · rfl
  have hsingles : Unambiguous [["target"], ["duration"], ["ease"]] ms :=
    unambiguous_of_singles h (by simp)
  rw [← hpair]
  simp only [Unambiguous, List.forall_mem_cons] at hsingles ⊢
  obtain ⟨htarget, hduration, hease, -⟩ := hsingles
  simp [htarget, hduration, hease]

end Directive

/-! ## Steps, slides, topics -/

theorem Step.ofJson?_obj_eq_some_iff {s : Step} :
    Step.ofJson? (.obj ms) = some s ↔
      Unambiguous [["id"], ["ui"], ["animations"], ["finalState"]] ms ∧
        required str? (lookupIn? "id" ms) = some s.id ∧
        required Caption.ofJson? (lookupIn? "ui" ms) = some s.caption ∧
        withDefault [] (listOf? Directive.ofJson?) (lookupIn? "animations" ms) =
          some s.animations ∧
        withDefault .empty (dictOf? ComponentValue.ofJson?) (lookupIn? "finalState" ms) =
          some s.finalState := by
  rw [Step.ofJson?, fields?_obj]
  split_ifs with hone
  · simp only [List.map_cons, List.map_nil, lookupAny?_one, Option.bind_eq_bind,
      Option.bind_eq_some_iff, Option.pure_def, Option.some.injEq]
    constructor
    · rintro ⟨_, hid, _, hcaption, _, hanimations, _, hstate, rfl⟩
      exact ⟨hone, hid, hcaption, hanimations, hstate⟩
    · rintro ⟨-, hid, hcaption, hanimations, hstate⟩
      exact ⟨_, hid, _, hcaption, _, hanimations, _, hstate, rfl⟩
  · exact iff_of_false nofun fun h => hone h.1

theorem Slide.ofJson?_obj_eq_some_iff {s : Slide} :
    Slide.ofJson? (.obj ms) = some s ↔
      Unambiguous [["id"], ["title"], ["diagram"], ["components"], ["steps"]] ms ∧
        required str? (lookupIn? "id" ms) = some s.id ∧
        required str? (lookupIn? "title" ms) = some s.title ∧
        required str? (lookupIn? "diagram" ms) = some s.diagram ∧
        withDefault .empty (dictOf? ComponentValue.ofJson?) (lookupIn? "components" ms) =
          some s.components ∧
        required (listOf? Step.ofJson?) (lookupIn? "steps" ms) = some s.steps := by
  rw [Slide.ofJson?, fields?_obj]
  split_ifs with hone
  · simp only [List.map_cons, List.map_nil, lookupAny?_one, Option.bind_eq_bind,
      Option.bind_eq_some_iff, Option.pure_def, Option.some.injEq]
    constructor
    · rintro ⟨_, hid, _, htitle, _, hdiagram, _, hcomponents, _, hsteps, rfl⟩
      exact ⟨hone, hid, htitle, hdiagram, hcomponents, hsteps⟩
    · rintro ⟨-, hid, htitle, hdiagram, hcomponents, hsteps⟩
      exact ⟨_, hid, _, htitle, _, hdiagram, _, hcomponents, _, hsteps, rfl⟩
  · exact iff_of_false nofun fun h => hone h.1

theorem Topic.ofJson?_obj_eq_some_iff {t : Topic} :
    Topic.ofJson? (.obj ms) = some t ↔
      Unambiguous [["id"], ["title"], ["slides"]] ms ∧
        required str? (lookupIn? "id" ms) = some t.id ∧
        required str? (lookupIn? "title" ms) = some t.title ∧
        required (listOf? Slide.ofJson?) (lookupIn? "slides" ms) = some t.slides := by
  rw [Topic.ofJson?, fields?_obj]
  split_ifs with hone
  · simp only [List.map_cons, List.map_nil, lookupAny?_one, Option.bind_eq_bind,
      Option.bind_eq_some_iff, Option.pure_def, Option.some.injEq]
    constructor
    · rintro ⟨_, hid, _, htitle, _, hslides, rfl⟩
      exact ⟨hone, hid, htitle, hslides⟩
    · rintro ⟨-, hid, htitle, hslides⟩
      exact ⟨_, hid, _, htitle, _, hslides, rfl⟩
  · exact iff_of_false nofun fun h => hone h.1

end Slideshow

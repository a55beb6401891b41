/-
  Slideshow.Proofs.Topic.Acceptance

  The check lets pass a little more than the reader takes: `null` for what is optional as a
  whole, and attributes under both their names. `Topic.load_decoding_iff` says that there is
  nothing else in which the two differ.
-/
import Slideshow.Proofs.Topic.Directives
import Slideshow.Proofs.Topic.Paths
import Slideshow.Topic.Loading

namespace Slideshow

open Json

/-! ## What passes but is not read -/

/-- The items of the array under a key. -/
def Json.itemsAt (key : String) (j : Json) : List Json :=
  ((j.get? key).bind arr?).getD []

/-- In a directive, at some depth, attributes are given under both their names. -/
inductive Directive.NamedTwice : Json → Prop
  | fields {ms : Topic.Members}
      (htype : lookupIn? "type" ms = some (.str Kind.attributes.name))
      (hname : (lookupIn? "attributes" ms).isSome = true)
      (hother : (lookupIn? "attrs" ms).isSome = true) : NamedTwice (.obj ms)
  | block {ms : Topic.Members} {js : List Json} {j : Json}
      (htype : lookupIn? "type" ms = some (.str Kind.parallel.name))
      (hblock : lookupIn? "animations" ms = some (.arr js)) (hj : j ∈ js)
      (h : NamedTwice j) : NamedTwice (.obj ms)

/-- The reader stumbles over a step that the check lets pass: a list of directives or a final
    state is given as `null`, or a directive names its attributes twice. -/
inductive Step.Stumbles (j : Json) : Prop
  | animations (h : j.get? "animations" = some .null)
  | finalState (h : j.get? "finalState" = some .null)
  | directive {d : Json} (hd : d ∈ j.itemsAt "animations") (h : Directive.NamedTwice d)

/-- The reader stumbles over a slide: its components are given as `null`, or it stumbles over
    one of the steps. -/
inductive Slide.Stumbles (j : Json) : Prop
  | components (h : j.get? "components" = some .null)
  | step {step : Json} (hstep : step ∈ j.itemsAt "steps") (h : Step.Stumbles step)

/-- The reader stumbles over one of the slides. -/
def Topic.Stumbles (j : Json) : Prop :=
  ∃ slide ∈ j.itemsAt "slides", Slide.Stumbles slide

/-! ## Directives -/

namespace Directive

variable {ms : Topic.Members}

theorem Kind.name_inj {kind kind' : Kind} (h : kind.name = kind'.name) : kind = kind' := by
  have hname := Kind.ofName?_eq_some_iff.2 h
  rw [Kind.ofName?_eq_some_iff.2 rfl] at hname
  exact Option.some.inj hname

theorem kind_unique {kind kind' : Kind} (h : lookupIn? "type" ms = some (.str kind.name))
    (h' : lookupIn? "type" ms = some (.str kind'.name)) : kind = kind' :=
  Kind.name_inj (str.inj (Option.some.inj (h.symm.trans h')))

/-! ### Fields that are read

What passes the check of a kind's fields is read as a directive of that kind. Only for
attributes there is an exception. -/

theorem exists_camera (hms : (obj ms).WellFormed)
    (hfields : Topic.fieldProblems ms .camera = []) :
    ∃ d, simple? .camera (.obj ms) = some d := by
  simp only [Topic.fieldProblems, List.append_eq_nil_iff] at hfields
  obtain ⟨⟨hnumbers, htime⟩, hcurve⟩ := hfields
  obtain ⟨frame, hframe⟩ : ∃ frame, required Frame.ofJson? (lookupIn? "to" ms) = some frame := by
    cases hto : lookupIn? "to" ms with
    | none => simp [hto, Topic.isNumbers] at hnumbers
    | some j =>
      rw [hto] at hnumbers
      exact Topic.exists_frame (hms.lookup hto) (by simpa using hnumbers)
  obtain ⟨duration, hduration, -⟩ := Topic.optionalTime_eq_nil_iff.1 htime
  obtain ⟨ease, hease⟩ := Topic.optionalEase_eq_nil_iff.1 hcurve
  exact ⟨_, simple?_camera_eq_some_iff.2 ⟨unambiguous_of_singles hms.sorted (by simp), frame,
    duration, ease, hframe, hduration, hease, rfl⟩⟩

theorem exists_packet (hms : (obj ms).WellFormed)
    (hfields : Topic.fieldProblems ms .packet = []) :
    ∃ d, simple? .packet (.obj ms) = some d := by
  simp only [Topic.fieldProblems, List.append_eq_nil_iff] at hfields
  obtain ⟨⟨htext, hnumbers⟩, hpaths⟩ := hfields
  obtain ⟨⟨label, hlabel⟩, -⟩ := Topic.optionalLabel_eq_nil_iff.1 htext
  -- a point given as `null` is absent for the check as for the reader
  have hpoint : (Json.optional Point.ofJson? (lookupIn? "from" ms)).isSome = true := by
    refine isSome_optional_iff.2 fun j hj hnull => ?_
    have hgiven : Topic.given? "from" ms = some j := by
      rw [Topic.given?, hj]
      cases j with
      | null => exact absurd rfl hnull
      | _ => rfl
    rw [hgiven] at hnumbers
    exact Option.isSome_iff_exists.2
      (Topic.exists_point (hms.lookup hj) (by simpa using hnumbers))
  obtain ⟨start, hstart⟩ := Option.isSome_iff_exists.1 hpoint
  obtain ⟨js, hjs, -, hitems⟩ := Topic.packetPaths_eq_nil_iff.1 hpaths
  have hread : (js.mapM PathSpec.ofJson?).isSome = true := by
    refine isSome_mapM_iff.2 fun j hj => Option.isSome_iff_exists.2 ?_
    exact Topic.exists_path ((hms.lookup hjs).item hj) (hitems j hj)
  obtain ⟨paths, hread⟩ := Option.isSome_iff_exists.1 hread
  have hways : required (listOf? PathSpec.ofJson?) (lookupIn? "paths" ms) = some paths := by
    rw [hjs]
    exact hread
  exact ⟨_, simple?_packet_eq_some_iff.2 ⟨unambiguous_of_singles hms.sorted (by simp), label,
    start, paths, hlabel, hstart, hways, rfl⟩⟩

theorem exists_setValue (hms : (obj ms).WellFormed)
    (hfields : Topic.fieldProblems ms .setValue = []) :
    ∃ d, simple? .setValue (.obj ms) = some d := by
  simp only [Topic.fieldProblems, List.append_eq_nil_iff] at hfields
  obtain ⟨htext, hvalue⟩ := hfields
  obtain ⟨target, htarget, -⟩ := Topic.requiredText_eq_nil_iff.1 htext
  obtain ⟨value, hvalue⟩ :
      ∃ value, required spelling? (lookupIn? "value" ms) = some value := by
    rw [← Option.isSome_iff_exists]
    cases hfield : lookupIn? "value" ms with
    | none => simp [hfield] at hvalue
    | some j =>
      cases hspelling : spelling? j with
      | none => simp [hfield, hspelling] at hvalue
      | some value => simp [required, hspelling]
  exact ⟨_, simple?_setValue_eq_some_iff.2 ⟨unambiguous_of_singles hms.sorted (by simp), target,
    value, htarget, hvalue, rfl⟩⟩

theorem exists_pulse (hms : (obj ms).WellFormed)
    (hfields : Topic.fieldProblems ms .pulse = []) :
    ∃ d, simple? .pulse (.obj ms) = some d := by
  simp only [Topic.fieldProblems, List.append_eq_nil_iff] at hfields
  obtain ⟨⟨htext, htime⟩, hrepeat⟩ := hfields
  obtain ⟨target, htarget, -⟩ := Topic.requiredText_eq_nil_iff.1 htext
  obtain ⟨duration, hduration, -⟩ := Topic.optionalTime_eq_nil_iff.1 htime
  obtain ⟨repetitions, hrepetitions, -⟩ := Topic.repetitionProblems_eq_nil_iff.1 hrepeat
  exact ⟨_, simple?_pulse_eq_some_iff.2 ⟨unambiguous_of_singles hms.sorted (by simp), target,
    duration, repetitions, htarget, hduration, hrepetitions, rfl⟩⟩

theorem exists_wait (hms : (obj ms).WellFormed)
    (hfields : Topic.fieldProblems ms .wait = []) :
    ∃ d, simple? .wait (.obj ms) = some d := by
  obtain ⟨duration, hduration, -⟩ := Topic.optionalTime_eq_nil_iff.1 hfields
  exact ⟨_, simple?_wait_eq_some_iff.2 ⟨unambiguous_of_singles hms.sorted (by simp), duration,
    hduration, rfl⟩⟩

/-- Attributes that pass the check are read unless both their names are used. -/
theorem isSome_attributes_iff (hms : (obj ms).WellFormed)
    (hfields : Topic.fieldProblems ms .attributes = []) :
    (simple? .attributes (.obj ms)).isSome = true ↔
      ¬ ((lookupIn? "attributes" ms).isSome = true ∧ (lookupIn? "attrs" ms).isSome = true) := by
  simp only [Topic.fieldProblems, List.append_eq_nil_iff] at hfields
  obtain ⟨⟨⟨htext, hcheck⟩, htime⟩, hcurve⟩ := hfields
  obtain ⟨target, htarget, -⟩ := Topic.requiredText_eq_nil_iff.1 htext
  obtain ⟨values, hvalues, -⟩ := Topic.attributeProblems_eq_nil_iff.1 hcheck
  obtain ⟨duration, hduration, -⟩ := Topic.optionalTime_eq_nil_iff.1 htime
  obtain ⟨ease, hease⟩ := Topic.optionalEase_eq_nil_iff.1 hcurve
  rw [← unambiguous_attributes_iff hms.sorted, Option.isSome_iff_exists]
  constructor
  · rintro ⟨d, hd⟩
    exact (simple?_attributes_eq_some_iff.1 hd).1
  · intro hone
    exact ⟨_, simple?_attributes_eq_some_iff.2
      ⟨hone, target, values, duration, ease, htarget, hvalues, hduration, hease, rfl⟩⟩

theorem namedTwice_simple_iff {kind : Kind} (hkind : kind ≠ .parallel)
    (htype : lookupIn? "type" ms = some (.str kind.name)) :
    NamedTwice (.obj ms) ↔
      kind = .attributes ∧ (lookupIn? "attributes" ms).isSome = true ∧
        (lookupIn? "attrs" ms).isSome = true := by
  constructor
  · intro h
    cases h with
    | fields htype' hname hother => exact ⟨kind_unique htype htype', hname, hother⟩
    | block htype' => exact absurd (kind_unique htype htype') hkind
  · rintro ⟨rfl, hname, hother⟩
    exact .fields htype hname hother

theorem namedTwice_block_iff {js : List Json}
    (htype : lookupIn? "type" ms = some (.str Kind.parallel.name))
    (hblock : lookupIn? "animations" ms = some (.arr js)) :
    NamedTwice (.obj ms) ↔ ∃ j ∈ js, NamedTwice j := by
  constructor
  · intro h
    cases h with
    | fields htype' => exact nomatch kind_unique htype htype'
    | block htype' hblock' hj h =>
      rw [hblock] at hblock'
      cases hblock'
      exact ⟨_, hj, h⟩
  · rintro ⟨j, hj, h⟩
    exact .block htype hblock hj h

/-- Fields that pass the check are read, unless they give attributes under both names. -/
theorem isSome_simple?_iff {kind : Kind} (hkind : kind ≠ .parallel)
    (hms : (obj ms).WellFormed) (hfields : Topic.fieldProblems ms kind = []) :
    (simple? kind (.obj ms)).isSome = true ↔
      ¬ (kind = .attributes ∧ (lookupIn? "attributes" ms).isSome = true ∧
        (lookupIn? "attrs" ms).isSome = true) := by
  have hread : ∀ {k : Kind}, k ≠ .attributes → (∃ d, simple? k (.obj ms) = some d) →
      ((simple? k (.obj ms)).isSome = true ↔ ¬ (k = .attributes ∧
        (lookupIn? "attributes" ms).isSome = true ∧ (lookupIn? "attrs" ms).isSome = true)) :=
    fun hk h => iff_of_true (Option.isSome_iff_exists.2 h) fun hnamed => hk hnamed.1
  -- every kind but one is read without exception
  cases kind with
  | camera => exact hread nofun (exists_camera hms hfields)
  | packet => exact hread nofun (exists_packet hms hfields)
  | setValue => exact hread nofun (exists_setValue hms hfields)
  | pulse => exact hread nofun (exists_pulse hms hfields)
  | wait => exact hread nofun (exists_wait hms hfields)
  | attributes =>
    rw [isSome_attributes_iff hms hfields]
    simp
  | parallel => exact absurd rfl hkind

/-- A directive that passes the check is read unless attributes are named twice in it. -/
theorem isSome_read?_iff {j : Json} (hj : Passes j) (hwell : j.WellFormed) (nested : Bool) :
    (read? nested j).isSome = true ↔ ¬ NamedTwice j := by
  -- induction over the nesting of the document
  induction hj generalizing nested with
  | simple hkind htype hfields =>
    rw [read?_obj htype, if_neg hkind, namedTwice_simple_iff hkind htype,
      isSome_simple?_iff hkind hwell hfields]
  | parallel htype hblock _ ih =>
    rw [read?_obj htype, if_pos rfl, Option.isSome_map, hblock,
      namedTwice_block_iff htype hblock]
    -- a block is read when all its parts are
    refine isSome_listOf?_iff.trans ?_
    rw [not_exists]
    refine forall_congr' fun j => ?_
    rw [not_and]
    exact forall_congr' fun hj => ih j hj ((hwell.lookup hblock).item hj) true

end Directive

/-! ## Steps -/

section

variable {ms : Topic.Members}

/-- A caption that passes the check is read. -/
theorem Caption.exists_of_check (hms : (obj ms).WellFormed)
    (hcheck : Topic.captionProblems ms = []) :
    ∃ c, required Caption.ofJson? (lookupIn? "ui" ms) = some c := by
  obtain ⟨ui, hui, htitle, hphase, hexplanation, hdescription, hheading, hnote⟩ :=
    Topic.captionProblems_eq_nil_iff.1 hcheck
  obtain ⟨title, htitle, -⟩ := Topic.requiredText_eq_nil_iff.1 htitle
  obtain ⟨phase, hphase, -⟩ := Topic.requiredText_eq_nil_iff.1 hphase
  obtain ⟨explanation, hexplanation⟩ := Topic.optionalText_eq_nil_iff.1 hexplanation
  obtain ⟨description, hdescription⟩ := Topic.optionalText_eq_nil_iff.1 hdescription
  obtain ⟨heading, hheading⟩ := Topic.optionalText_eq_nil_iff.1 hheading
  obtain ⟨note, hnote⟩ := Topic.optionalText_eq_nil_iff.1 hnote
  have hsorted := (hms.lookup hui).sorted
  rw [hui]
  exact ⟨⟨phase, explanation, title, description, heading, note⟩,
    Caption.ofJson?_obj_eq_some_iff.2 ⟨unambiguous_of_singles hsorted (by simp), hphase,
      hexplanation, htitle, hdescription, hheading, hnote⟩⟩

/-- Components that pass the check are read unless they are `null`. -/
theorem ComponentValue.exists_of_check {name : String}
    (hcheck : Topic.optionalComponents name ms = [])
    (hnull : lookupIn? name ms ≠ some .null) :
    ∃ d, withDefault .empty (dictOf? ComponentValue.ofJson?) (lookupIn? name ms) = some d :=
  (Topic.optionalComponents_eq_nil_iff.1 hcheck).resolve_left hnull

theorem Step.isSome_animations_iff (hms : (obj ms).WellFormed)
    (hcheck : Topic.animationProblems ms = []) :
    (withDefault [] (listOf? Directive.ofJson?) (lookupIn? "animations" ms)).isSome = true ↔
      lookupIn? "animations" ms ≠ some .null ∧
        ∀ d ∈ (obj ms).itemsAt "animations", ¬ Directive.NamedTwice d := by
  have hitems : (obj ms).itemsAt "animations" =
      ((lookupIn? "animations" ms).bind arr?).getD [] := rfl
  rw [hitems]
  rw [Topic.animationProblems] at hcheck
  cases hfield : lookupIn? "animations" ms with
  | none => exact iff_of_true rfl ⟨nofun, nofun⟩
  | some j =>
    rw [hfield] at hcheck
    cases j with
    | null => exact iff_of_false nofun fun h => h.1 rfl
    | arr js =>
      have hpasses := Topic.directivesProblems_eq_nil_iff.1 hcheck
      refine isSome_listOf?_iff.trans ?_
      have hne : some (arr js) ≠ some .null := nofun
      rw [and_iff_right hne]
      refine forall₂_congr fun d hd => ?_
      exact Directive.isSome_read?_iff (Topic.directiveProblems_eq_nil_iff.1 (hpasses d hd))
        ((hms.lookup hfield).item hd) false
    | _ => cases hcheck

/-- A step that passes the check is read unless it stumbles. -/
theorem Step.isSome_ofJson?_iff {j : Json} (hj : j.WellFormed)
    (hcheck : Topic.stepProblems [] j = []) :
    (Step.ofJson? j).isSome = true ↔ ¬ Step.Stumbles j := by
  cases j with
  | obj ms =>
    obtain ⟨hid, -, hcaption, hanimations, hstate⟩ :=
      Topic.stepProblems_obj_eq_nil_iff.1 hcheck
    have hread := isSome_animations_iff hj hanimations
    rw [Option.isSome_iff_exists]
    constructor
    · rintro ⟨s, hs⟩ hstumbles
      obtain ⟨-, -, -, hreadAnimations, hreadState⟩ := Step.ofJson?_obj_eq_some_iff.1 hs
      -- each reason to stumble spoils one of the fields
      have hfine := hread.1 (Option.isSome_iff_exists.2 ⟨_, hreadAnimations⟩)
      cases hstumbles with
      | animations h => exact hfine.1 h
      | finalState h =>
        have hnull : lookupIn? "finalState" ms = some .null := h
        rw [hnull] at hreadState
        cases hreadState
      | directive hd h => exact hfine.2 _ hd h
    · -- and without a reason every field is read
      intro hfine
      obtain ⟨id, hid, -⟩ := Topic.requiredText_eq_nil_iff.1 hid
      obtain ⟨caption, hcaption⟩ := Caption.exists_of_check hj hcaption
      obtain ⟨animations, hanimations⟩ := Option.isSome_iff_exists.1
        (hread.2 ⟨fun h => hfine (.animations h), fun _ hd h => hfine (.directive hd h)⟩)
      obtain ⟨state, hstate⟩ := ComponentValue.exists_of_check hstate fun h => hfine (.finalState h)
      exact ⟨⟨id, caption, animations, state⟩, Step.ofJson?_obj_eq_some_iff.2
        ⟨unambiguous_of_singles hj.sorted (by simp), hid, hcaption, hanimations, hstate⟩⟩
  | _ => cases hcheck

/-! ## Slides and topics -/

/-- The items of an array are read unless one of them stumbles. -/
theorem Json.isSome_items_iff {α : Type} {decode : Json → Option α} {Stumbles : Json → Prop}
    {key : String} {js : List Json} (hjs : lookupIn? key ms = some (.arr js))
    (h : ∀ j ∈ js, (decode j).isSome = true ↔ ¬ Stumbles j) :
    (required (listOf? decode) (lookupIn? key ms)).isSome = true ↔
      ¬ ∃ j ∈ (obj ms).itemsAt key, Stumbles j := by
  have hitems : (obj ms).itemsAt key = js := by
    show ((lookupIn? key ms).bind arr?).getD [] = js
    rw [hjs]
    rfl
  rw [hitems, hjs]
  refine isSome_listOf?_iff.trans ?_
  simp only [not_exists, not_and]
  exact forall₂_congr h

/-- A slide that passes the check is read unless it stumbles. -/
theorem Slide.isSome_ofJson?_iff {j : Json} (hj : j.WellFormed)
    (hcheck : Topic.slideProblems [] j = []) :
    (Slide.ofJson? j).isSome = true ↔ ¬ Slide.Stumbles j := by
  cases j with
  | obj ms =>
    obtain ⟨hid, -, htitle, hdiagram, hcomponents, hsteps⟩ :=
      Topic.slideProblems_obj_eq_nil_iff.1 hcheck
    obtain ⟨js, hjs, -, hitems, -⟩ := Topic.stepsProblems_eq_nil_iff.1 hsteps
    have hread := isSome_items_iff hjs fun step hstep =>
      Step.isSome_ofJson?_iff ((hj.lookup hjs).item hstep) (hitems step hstep)
    rw [Option.isSome_iff_exists]
    constructor
    · rintro ⟨s, hs⟩ hstumbles
      obtain ⟨-, -, -, -, hreadComponents, hreadSteps⟩ := Slide.ofJson?_obj_eq_some_iff.1 hs
      cases hstumbles with
      | components h =>
        have hnull : lookupIn? "components" ms = some .null := h
        rw [hnull] at hreadComponents
        cases hreadComponents
      | step hstep h =>
        exact hread.1 (Option.isSome_iff_exists.2 ⟨_, hreadSteps⟩) ⟨_, hstep, h⟩
    · intro hfine
      obtain ⟨id, hid, -⟩ := Topic.requiredText_eq_nil_iff.1 hid
      obtain ⟨title, htitle, -⟩ := Topic.requiredText_eq_nil_iff.1 htitle
      obtain ⟨diagram, hdiagram, -⟩ := Topic.requiredText_eq_nil_iff.1 hdiagram
      obtain ⟨components, hcomponents⟩ :=
        ComponentValue.exists_of_check hcomponents fun h => hfine (.components h)
      obtain ⟨steps, hsteps⟩ := Option.isSome_iff_exists.1
        (hread.2 fun ⟨_, hstep, h⟩ => hfine (.step hstep h))
      exact ⟨⟨id, title, diagram, components, steps⟩, Slide.ofJson?_obj_eq_some_iff.2
        ⟨unambiguous_of_singles hj.sorted (by simp), hid, htitle, hdiagram, hcomponents,
          hsteps⟩⟩
  | _ => cases hcheck

/-- A topic that passes the check is read unless it stumbles. -/
theorem Topic.isSome_ofJson?_iff {j : Json} (hj : j.WellFormed)
    (hcheck : Topic.problems j = []) :
    (Topic.ofJson? j).isSome = true ↔ ¬ Topic.Stumbles j := by
  obtain ⟨ms, rfl, hid, htitle, hslides⟩ := Topic.problems_eq_nil_iff.1 hcheck
  obtain ⟨js, hjs, -, hitems, -⟩ := Topic.slidesProblems_eq_nil_iff.1 hslides
  have hread := isSome_items_iff hjs fun slide hslide =>
    Slide.isSome_ofJson?_iff ((hj.lookup hjs).item hslide) (hitems slide hslide)
  rw [Topic.Stumbles, ← hread, Option.isSome_iff_exists, Option.isSome_iff_exists]
  constructor
  · rintro ⟨t, ht⟩
    obtain ⟨-, -, -, hreadSlides⟩ := Topic.ofJson?_obj_eq_some_iff.1 ht
    exact ⟨_, hreadSlides⟩
  · rintro ⟨slides, hslides⟩
    obtain ⟨id, hid, -⟩ := Topic.requiredText_eq_nil_iff.1 hid
    obtain ⟨title, htitle, -⟩ := Topic.requiredText_eq_nil_iff.1 htitle
    exact ⟨⟨id, title, slides⟩, Topic.ofJson?_obj_eq_some_iff.2
      ⟨unambiguous_of_singles hj.sorted (by simp), hid, htitle, hslides⟩⟩

end

/-! ## Loading -/

/-- A document passes the check without being read exactly when something in it stumbles:
    `null` in the place of components, directives or a final state, or attributes under both
    their names, at any depth. -/
theorem Topic.load_decoding_iff {j : Json} (hj : j.WellFormed) :
    Topic.load j = .error .decoding ↔ Topic.problems j = [] ∧ Topic.Stumbles j := by
  constructor
  · intro h
    unfold Topic.load at h
    split at h
    · rename_i hcheck
      refine ⟨hcheck, ?_⟩
      refine Classical.byContradiction fun hfine => ?_
      obtain ⟨t, ht⟩ := Option.isSome_iff_exists.1 ((isSome_ofJson?_iff hj hcheck).2 hfine)
      rw [ht] at h
      cases h
    · cases h
  · rintro ⟨hcheck, hstumbles⟩
    have hread : Topic.ofJson? j = none := by
      rw [← Option.not_isSome_iff_eq_none, isSome_ofJson?_iff hj hcheck]
      exact not_not_intro hstumbles
    rw [Topic.load, hcheck, hread]

/-- A script of one step whose final state is given as `null`. -/
def Topic.nullState : Json :=
  .obj [("id", .str "t"),
    ("slides", .arr [.obj [("diagram", .str "d.svg"), ("id", .str "s"),
      ("steps", .arr [.obj [("finalState", .null), ("id", .str "a"),
        ("ui", .obj [("phase", .str "FETCH"), ("title", .str "T")])]]),
      ("title", .str "S")]]),
    ("title", .str "T")]

theorem Topic.load_decoding_iff_demo :
    Topic.nullState.WellFormed ∧ Topic.load Topic.nullState = .error .decoding := by
  have hwell : Topic.nullState.WellFormed := by decide +kernel
  refine ⟨hwell, (Topic.load_decoding_iff hwell).2 ⟨by decide +kernel, ?_⟩⟩
  exact ⟨_, List.mem_singleton_self _, .step (List.mem_singleton_self _) (.finalState rfl)⟩

/-- The check is content with a final state of `null`, and the reader is not. -/
theorem Topic.passes_unread :
    Topic.nullState.WellFormed ∧ Topic.problems Topic.nullState = [] ∧
      Topic.ofJson? Topic.nullState = none := by
  refine ⟨by decide +kernel, by decide +kernel, ?_⟩
  have hnone : (Topic.ofJson? Topic.nullState).isNone = true := by decide +kernel
  exact Option.isNone_iff_eq_none.1 hnone

end Slideshow

/-
  Slideshow.Proofs.Topic.Soundness

  A topic that is loaded is well-formed. What the check establishes of a document is carried
  over to what is read of it, from the fields of directives upwards. The main statement is
  `Topic.load_wellFormed`.
-/
import Slideshow.Proofs.Topic.Directives
import Slideshow.Proofs.Topic.Paths
import Slideshow.Topic.Loading

namespace Slideshow

open Json

variable {ms : Topic.Members}

/-! ## Directives -/

namespace Directive

/-- Fields that pass the check are those of a well-formed directive. -/
theorem wellFormed_of_simple? {kind : Kind} {d : Directive Float}
    (hfields : Topic.fieldProblems ms kind = []) (h : simple? kind (.obj ms) = some d) :
    d.WellFormed := by
  -- for each kind, the check of a field is put beside what the reader takes of it
  cases kind with
  | camera =>
    obtain ⟨-, frame, duration, ease, -, hduration, -, rfl⟩ := simple?_camera_eq_some_iff.1 h
    simp only [Topic.fieldProblems, List.append_eq_nil_iff] at hfields
    obtain ⟨⟨-, htime⟩, -⟩ := hfields
    exact .camera (Topic.isTime_of_read htime hduration)
  | packet =>
    obtain ⟨-, label, start, paths, -, -, hpaths, rfl⟩ := simple?_packet_eq_some_iff.1 h
    simp only [Topic.fieldProblems, List.append_eq_nil_iff] at hfields
    obtain ⟨-, hcheck⟩ := hfields
    obtain ⟨js, hjs, hsome, hitems⟩ := Topic.packetPaths_eq_nil_iff.1 hcheck
    rw [hjs] at hpaths
    have hread : js.mapM PathSpec.ofJson? = some paths := hpaths
    refine .packet ?_ fun p hp => ?_
    · rintro rfl
      exact hsome (List.map_eq_nil_iff.1 (mapM_eq_some_iff.1 hread))
    · -- both spellings of a path give the same guarantee
      obtain ⟨j, hj, hp⟩ := mem_of_mapM hread hp
      exact (Topic.pathProblems_eq_nil_iff hp).1 (hitems j hj)
  | setValue =>
    obtain ⟨-, target, value, htarget, -, rfl⟩ := simple?_setValue_eq_some_iff.1 h
    simp only [Topic.fieldProblems, List.append_eq_nil_iff] at hfields
    exact .setValue (Topic.nonblank_of_read hfields.1 htarget)
  | pulse =>
    obtain ⟨-, target, duration, repetitions, htarget, hduration, hrepetitions, rfl⟩ :=
      simple?_pulse_eq_some_iff.1 h
    simp only [Topic.fieldProblems, List.append_eq_nil_iff] at hfields
    obtain ⟨⟨htext, htime⟩, hcheck⟩ := hfields
    obtain ⟨r, hr, hbound⟩ := Topic.repetitionProblems_eq_nil_iff.1 hcheck
    rw [hrepetitions] at hr
    exact .pulse (Topic.nonblank_of_read htext htarget) (Topic.isTime_of_read htime hduration)
      (Option.some.inj hr ▸ hbound)
  | wait =>
    obtain ⟨-, duration, hduration, rfl⟩ := simple?_wait_eq_some_iff.1 h
    exact .wait (Topic.isTime_of_read hfields hduration)
  | attributes =>
    obtain ⟨-, target, values, duration, ease, htarget, hvalues, hduration, -, rfl⟩ :=
      simple?_attributes_eq_some_iff.1 h
    simp only [Topic.fieldProblems, List.append_eq_nil_iff] at hfields
    obtain ⟨⟨⟨htext, hcheck⟩, htime⟩, -⟩ := hfields
    obtain ⟨values', hvalues', hsome⟩ := Topic.attributeProblems_eq_nil_iff.1 hcheck
    rw [hvalues] at hvalues'
    exact .attributes (Topic.nonblank_of_read htext htarget)
      (Option.some.inj hvalues' ▸ hsome) (Topic.isTime_of_read htime hduration)
  | parallel => cases h

/-- A directive that passes the check is well-formed, and so is every directive in it. -/
theorem wellFormed_of_read? {j : Json} (hj : Passes j) {nested : Bool} {d : Directive Float}
    (h : read? nested j = some d) : d.WellFormed := by
  -- induction over the nesting of the document, which the check and the reader both follow
  induction hj generalizing nested d with
  | simple hkind htype hfields =>
    rw [read?_obj htype, if_neg hkind] at h
    exact wellFormed_of_simple? hfields h
  | parallel htype hblock _ ih =>
    rw [read?_obj htype, if_pos rfl, hblock, Option.map_eq_some_iff] at h
    obtain ⟨ds, hread, rfl⟩ := h
    refine .parallel fun d hd => ?_
    obtain ⟨j, hj, hd⟩ := mem_of_mapM hread hd
    exact ih j hj hd

end Directive

/-! ## Captions and steps -/

theorem Caption.wellFormed_of_read {c : Caption} (hcheck : Topic.captionProblems ms = [])
    (h : required Caption.ofJson? (lookupIn? "ui" ms) = some c) : c.WellFormed := by
  obtain ⟨ui, hui, htitle, hphase, -⟩ := Topic.captionProblems_eq_nil_iff.1 hcheck
  rw [hui] at h
  obtain ⟨-, hreadPhase, -, hreadTitle, -⟩ := Caption.ofJson?_obj_eq_some_iff.1 h
  exact ⟨Topic.nonblank_of_read htitle hreadTitle, Topic.nonblank_of_read hphase hreadPhase⟩

/-- Each directive that is read of a step's list comes from a document that passes. -/
theorem Step.exists_directive {ds : List (Directive Float)}
    (hcheck : Topic.animationProblems ms = [])
    (h : withDefault [] (listOf? Directive.ofJson?) (lookupIn? "animations" ms) = some ds)
    {d : Directive Float} (hd : d ∈ ds) :
    ∃ js, lookupIn? "animations" ms = some (.arr js) ∧
      ∃ j ∈ js, Directive.Passes j ∧ Directive.ofJson? j = some d := by
  cases hfield : lookupIn? "animations" ms with
  | none =>
    rw [hfield] at h
    cases h
    cases hd
  | some j =>
    rw [hfield] at h
    obtain ⟨js, rfl, hread⟩ := listOf?_eq_some_iff.1 h
    obtain ⟨j, hj, hd⟩ := mem_of_mapM hread hd
    rw [Topic.animationProblems, hfield] at hcheck
    have hpasses := Topic.directivesProblems_eq_nil_iff.1 hcheck j hj
    exact ⟨js, rfl, j, hj, Topic.directiveProblems_eq_nil_iff.1 hpasses, hd⟩

theorem Step.wellFormed_of_read {j : Json} {s : Step} (hcheck : Topic.stepProblems [] j = [])
    (h : Step.ofJson? j = some s) : s.WellFormed ∧ Topic.id? j = some s.id := by
  cases j with
  | obj ms =>
    obtain ⟨hid, -, hcaption, hanimations, -⟩ := Topic.stepProblems_obj_eq_nil_iff.1 hcheck
    obtain ⟨-, hreadId, hreadCaption, hreadAnimations, -⟩ :=
      Step.ofJson?_obj_eq_some_iff.1 h
    refine ⟨⟨?_, ?_, ?_⟩, ?_⟩
    · exact Topic.nonblank_of_read hid hreadId
    · exact Caption.wellFormed_of_read hcaption hreadCaption
    · intro d hd
      obtain ⟨_, -, j, -, hpasses, hread⟩ := exists_directive hanimations hreadAnimations hd
      exact Directive.wellFormed_of_read? hpasses hread
    · rw [Topic.id?_obj, hreadId]
  | _ => cases hcheck

/-! ## Slides and topics -/

theorem Slide.wellFormed_of_read {j : Json} {s : Slide}
    (hcheck : Topic.slideProblems [] j = []) (h : Slide.ofJson? j = some s) :
    s.WellFormed ∧ Topic.id? j = some s.id := by
  cases j with
  | obj ms =>
    obtain ⟨hid, -, htitle, hdiagram, -, hsteps⟩ :=
      Topic.slideProblems_obj_eq_nil_iff.1 hcheck
    obtain ⟨-, hreadId, hreadTitle, hreadDiagram, -, hreadSteps⟩ :=
      Slide.ofJson?_obj_eq_some_iff.1 h
    obtain ⟨js, hjs, hsome, hitems, hdistinct⟩ := Topic.stepsProblems_eq_nil_iff.1 hsteps
    rw [hjs] at hreadSteps
    have hread : js.mapM Step.ofJson? = some s.steps := hreadSteps
    -- the check compares ids in the document; they are those of the steps that are read
    have hids : js.filterMap Topic.id? = s.steps.map (·.id) :=
      Topic.filterMap_id?_of_mapM hread fun j hj x hx =>
        (Step.wellFormed_of_read (hitems j hj) hx).2
    refine ⟨⟨?_, ?_, ?_, ?_, ?_, ?_⟩, ?_⟩
    · exact Topic.nonblank_of_read hid hreadId
    · exact Topic.nonblank_of_read htitle hreadTitle
    · exact Topic.nonblank_of_read hdiagram hreadDiagram
    · intro hnil
      rw [hnil, mapM_eq_some_iff] at hread
      exact hsome (List.map_eq_nil_iff.1 hread)
    · exact hids ▸ hdistinct
    · intro step hstep
      obtain ⟨j, hj, hstep⟩ := mem_of_mapM hread hstep
      exact (Step.wellFormed_of_read (hitems j hj) hstep).1
    · rw [Topic.id?_obj, hreadId]
  | _ => cases hcheck

theorem Topic.wellFormed_of_read {j : Json} {t : Topic} (hcheck : Topic.problems j = [])
    (h : Topic.ofJson? j = some t) : t.WellFormed := by
  obtain ⟨ms, rfl, hid, htitle, hslides⟩ := Topic.problems_eq_nil_iff.1 hcheck
  obtain ⟨-, hreadId, hreadTitle, hreadSlides⟩ := Topic.ofJson?_obj_eq_some_iff.1 h
  obtain ⟨js, hjs, hsome, hitems, hdistinct⟩ := Topic.slidesProblems_eq_nil_iff.1 hslides
  rw [hjs] at hreadSlides
  have hread : js.mapM Slide.ofJson? = some t.slides := hreadSlides
  have hids : js.filterMap Topic.id? = t.slides.map (·.id) :=
    Topic.filterMap_id?_of_mapM hread fun j hj x hx =>
      (Slide.wellFormed_of_read (hitems j hj) hx).2
  refine ⟨?_, ?_, ?_, ?_, ?_⟩
  · exact Topic.nonblank_of_read hid hreadId
  · exact Topic.nonblank_of_read htitle hreadTitle
  · intro hnil
    rw [hnil, mapM_eq_some_iff] at hread
    exact hsome (List.map_eq_nil_iff.1 hread)
  · exact hids ▸ hdistinct
  · intro slide hslide
    obtain ⟨j, hj, hslide⟩ := mem_of_mapM hread hslide
    exact (Slide.wellFormed_of_read (hitems j hj) hslide).1

/-- Whatever the document, a topic that is loaded from it is well-formed at every depth, and
    a presentation of it can begin. -/
theorem Topic.load_wellFormed {j : Json} {t : Topic} (h : Topic.load j = .ok t) :
    t.WellFormed ∧
      ∃ n, Navigation.ofSteps (t.slides.map fun s => s.steps.length) = .ok n := by
  obtain ⟨hcheck, hread⟩ := Topic.problems_of_load h
  have hwell := Topic.wellFormed_of_read hcheck hread
  exact ⟨hwell, hwell.navigation⟩

/-- A script with nested blocks, paths and curves in both spellings, attributes under their
    short name, and components given as numbers and truth values. -/
def Topic.nestedBlocks : Json :=
  .obj [("id", .str "t"),
    ("slides", .arr [.obj [
      ("components", .obj [("count", .num (.int 3)), ("led", .obj [("on", .bool true)])]),
      ("diagram", .str "d"), ("id", .str "s"),
      ("steps", .arr [.obj [
        ("animations", .arr [.obj [
          ("animations", .arr [
            .obj [("ease", .str "power2.inOut"),
              ("to", .arr [.num (.int 0), .num (.int 0), .num (.int 10), .num (.float 7.5)]),
              ("type", .str "camera")],
            .obj [("animations", .arr [
                .obj [("attrs", .obj [("fill", .str "red"), ("r", .num (.int 2))]),
                  ("target", .str "led"), ("type", .str "attributeTransition")],
                .obj [("duration", .num (.float 0.5)), ("type", .str "wait")]]),
              ("type", .str "parallel")],
            .obj [("paths", .arr [.str "#bus:0.25:0.75",
                .obj [("ease", .str "InOutCubic"), ("path", .str "bus")]]),
              ("text", .num (.int 7)), ("type", .str "packet")]]),
          ("type", .str "parallel")]]),
        ("id", .str "a"),
        ("ui", .obj [("phase", .str "FETCH"), ("title", .str "First")])]]),
      ("title", .str "S")]]),
    ("title", .str "T")]

theorem Topic.exists_load {j : Json} (h : (Topic.load j).isOk = true) :
    ∃ t, Topic.load j = .ok t := by
  cases hload : Topic.load j with
  | ok t => exact ⟨t, rfl⟩
  | error failure =>
    rw [hload] at h
    cases h

theorem Topic.load_wellFormed_demo :
    ∃ t, Topic.load Topic.nestedBlocks = .ok t ∧ t.WellFormed ∧
      ∃ n, Navigation.ofSteps (t.slides.map fun s => s.steps.length) = .ok n := by
  obtain ⟨t, ht⟩ := Topic.exists_load (j := Topic.nestedBlocks) (by decide +kernel)
  exact ⟨t, ht, Topic.load_wellFormed ht⟩

end Slideshow

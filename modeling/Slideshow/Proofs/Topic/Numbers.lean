/-
  Slideshow.Proofs.Topic.Numbers

  Coordinates. The check only asks for numbers where a frame or a point stands, so that they
  are finite is a matter of the document: its whole numbers have 64 bits, and its floats are
  finite.
-/
import Slideshow.Proofs.Decimal.Finite
import Slideshow.Proofs.Topic.Soundness

namespace Slideshow

open Json

/-! ## Finite coordinates -/

def Frame.Finite (f : Frame) : Prop :=
  f.x.isFinite = true ∧ f.y.isFinite = true ∧ f.width.isFinite = true ∧ f.height.isFinite = true

def Point.Finite (p : Point) : Prop := p.x.isFinite = true ∧ p.y.isFinite = true

/-- All frames and points in a directive have finite coordinates. -/
inductive Directive.Finite : Directive Float → Prop
  | camera {frame : Frame} {duration : Option Float} {ease : Option Ease}
      (hframe : frame.Finite) : Finite (.camera frame duration ease)
  | packet {label : Option String} {start : Option Point} {paths : List (PathSpec Float)}
      (hstart : ∀ p ∈ start, p.Finite) : Finite (.packet label start paths)
  | setValue {target value : String} : Finite (.setValue target value)
  | pulse {target : String} {duration : Option Float} {repetitions : Option Nat} :
      Finite (.pulse target duration repetitions)
  | wait {duration : Option Float} : Finite (.wait duration)
  | attributes {target : String} {values : Dict String} {duration : Option Float}
      {ease : Option Ease} : Finite (.attributes target values duration ease)
  | parallel {ds : List (Directive Float)} (hds : ∀ d ∈ ds, Finite d) : Finite (.parallel ds)

/-! ## Coordinates that are read -/

/-- What is read of a number is finite, also where a whole number is rounded. -/
theorem Json.isFinite_of_float? {j : Json} (hj : j.WellFormed) {x : Float}
    (h : float? j = some x) : x.isFinite = true := by
  cases j with
  | num n =>
    obtain ⟨hfinite, hx⟩ := Option.ite_none_right_eq_some.1 h
    cases n with
    | int i => exact Option.some.inj hx ▸ Decimal.isFinite_ofInt hj.1 hj.2
    | float y => exact Option.some.inj hx ▸ hfinite
  | _ => cases h

theorem Json.isFinite_of_listOf? {j : Json} (hj : j.WellFormed) {xs : List Float}
    (h : listOf? float? j = some xs) : ∀ x ∈ xs, x.isFinite = true := by
  obtain ⟨js, rfl, hread⟩ := listOf?_eq_some_iff.1 h
  intro x hx
  obtain ⟨k, hk, hx⟩ := mem_of_mapM hread hx
  exact isFinite_of_float? (hj.item hk) hx

theorem Frame.finite_of_ofJson? {j : Json} (hj : j.WellFormed) {f : Frame}
    (h : Frame.ofJson? j = some f) : f.Finite := by
  unfold Frame.ofJson? at h
  split at h
  · rename_i hxs
    cases h
    have hfinite := isFinite_of_listOf? hj hxs
    simpa [Frame.Finite] using hfinite
  · cases h

theorem Point.finite_of_ofJson? {j : Json} (hj : j.WellFormed) {p : Point}
    (h : Point.ofJson? j = some p) : p.Finite := by
  unfold Point.ofJson? at h
  split at h
  · rename_i hxs
    cases h
    have hfinite := isFinite_of_listOf? hj hxs
    simpa [Point.Finite] using hfinite
  · cases h

namespace Directive

theorem finite_of_simple? {ms : Topic.Members} (hms : (obj ms).WellFormed) {kind : Kind}
    {d : Directive Float} (h : simple? kind (.obj ms) = some d) : d.Finite := by
  -- only frames and points are not bounded by the check
  cases kind with
  | camera =>
    obtain ⟨-, frame, duration, ease, hframe, -, -, rfl⟩ := simple?_camera_eq_some_iff.1 h
    obtain ⟨j, hj, hframe⟩ := required_eq_some_iff.1 hframe
    exact .camera (Frame.finite_of_ofJson? (hms.lookup hj) hframe)
  | packet =>
    obtain ⟨-, label, start, paths, -, hstart, -, rfl⟩ := simple?_packet_eq_some_iff.1 h
    refine .packet fun p hp => ?_
    cases hp
    obtain ⟨j, hj, hp⟩ := eq_some_of_optional hstart
    exact Point.finite_of_ofJson? (hms.lookup hj) hp
  | setValue =>
    obtain ⟨-, _, _, -, -, rfl⟩ := simple?_setValue_eq_some_iff.1 h
    exact .setValue
  | pulse =>
    obtain ⟨-, _, _, _, -, -, -, rfl⟩ := simple?_pulse_eq_some_iff.1 h
    exact .pulse
  | wait =>
    obtain ⟨-, _, -, rfl⟩ := simple?_wait_eq_some_iff.1 h
    exact .wait
  | attributes =>
    obtain ⟨-, _, _, _, _, -, -, -, -, rfl⟩ := simple?_attributes_eq_some_iff.1 h
    exact .attributes
  | parallel => cases h

theorem finite_of_read? {j : Json} (hj : Passes j) (hwell : j.WellFormed) {nested : Bool}
    {d : Directive Float} (h : read? nested j = some d) : d.Finite := by
  induction hj generalizing nested d with
  | simple hkind htype _ =>
    rw [read?_obj htype, if_neg hkind] at h
    exact finite_of_simple? hwell h
  | parallel htype hblock _ ih =>
    rw [read?_obj htype, if_pos rfl, hblock, Option.map_eq_some_iff] at h
    obtain ⟨ds, hread, rfl⟩ := h
    refine .parallel fun d hd => ?_
    obtain ⟨j, hj, hd⟩ := mem_of_mapM hread hd
    exact ih j hj ((hwell.lookup hblock).item hj) hd

end Directive

/-! ## Topics that are read -/

/-- All coordinates in a topic are finite. -/
def Topic.Finite (t : Topic) : Prop :=
  ∀ slide ∈ t.slides, ∀ step ∈ slide.steps, ∀ d ∈ step.animations, d.Finite

theorem Step.finite_of_read {j : Json} (hj : j.WellFormed) {s : Step}
    (hcheck : Topic.stepProblems [] j = []) (h : Step.ofJson? j = some s) :
    ∀ d ∈ s.animations, d.Finite := by
  cases j with
  | obj ms =>
    obtain ⟨-, -, -, hanimations, -⟩ := Topic.stepProblems_obj_eq_nil_iff.1 hcheck
    obtain ⟨-, -, -, hreadAnimations, -⟩ := Step.ofJson?_obj_eq_some_iff.1 h
    intro d hd
    obtain ⟨js, hjs, j, hmem, hpasses, hread⟩ :=
      exists_directive hanimations hreadAnimations hd
    exact Directive.finite_of_read? hpasses ((hj.lookup hjs).item hmem) hread
  | _ => cases hcheck

theorem Slide.finite_of_read {j : Json} (hj : j.WellFormed) {s : Slide}
    (hcheck : Topic.slideProblems [] j = []) (h : Slide.ofJson? j = some s) :
    ∀ step ∈ s.steps, ∀ d ∈ step.animations, d.Finite := by
  cases j with
  | obj ms =>
    obtain ⟨-, -, -, -, -, hsteps⟩ := Topic.slideProblems_obj_eq_nil_iff.1 hcheck
    obtain ⟨-, -, -, -, -, hreadSteps⟩ := Slide.ofJson?_obj_eq_some_iff.1 h
    obtain ⟨js, hjs, -, hitems, -⟩ := Topic.stepsProblems_eq_nil_iff.1 hsteps
    rw [hjs] at hreadSteps
    intro step hstep
    obtain ⟨j, hmem, hread⟩ := mem_of_mapM hreadSteps hstep
    exact Step.finite_of_read ((hj.lookup hjs).item hmem) (hitems j hmem) hread
  | _ => cases hcheck

theorem Topic.finite_of_read {j : Json} (hj : j.WellFormed) {t : Topic}
    (hcheck : Topic.problems j = []) (h : Topic.ofJson? j = some t) : t.Finite := by
  obtain ⟨ms, rfl, -, -, hslides⟩ := Topic.problems_eq_nil_iff.1 hcheck
  obtain ⟨-, -, -, hreadSlides⟩ := Topic.ofJson?_obj_eq_some_iff.1 h
  obtain ⟨js, hjs, -, hitems, -⟩ := Topic.slidesProblems_eq_nil_iff.1 hslides
  rw [hjs] at hreadSlides
  intro slide hslide
  obtain ⟨j, hmem, hread⟩ := mem_of_mapM hreadSlides hslide
  exact Slide.finite_of_read ((hj.lookup hjs).item hmem) (hitems j hmem) hread

end Slideshow

/-
  Slideshow.Proofs.Topic.WellFormed

  What can be relied on in a topic that was loaded: texts that say something, times that can
  pass, packets with a way, and ids that tell slides and steps apart. Directives are
  well-formed at every depth of nesting.
-/
import Slideshow.Navigation
import Slideshow.Text.Blank
import Slideshow.Topic.Basic

namespace Slideshow

/-! ## Texts, times and fractions -/

/-- A text in which something stands besides blanks. -/
def Text.Nonblank (s : String) : Prop := Text.isBlankText s = false

/-- A length of time: finite and not negative. -/
def IsTime (x : Float) : Prop := x.isFinite = true ∧ 0 ≤ x

/-- A part of a path's length. -/
def IsFraction (x : Float) : Prop := 0 ≤ x ∧ x ≤ 1

/-! ## Paths and directives -/

structure PathSpec.WellFormed (p : PathSpec Float) : Prop where
  path : Text.Nonblank p.path
  start : IsFraction p.start
  stop : IsFraction p.stop
  duration : ∀ x ∈ p.duration, IsTime x

/-- A directive whose fields make sense, with those of all directives in it. -/
inductive Directive.WellFormed : Directive Float → Prop
  | camera {frame : Frame} {duration : Option Float} {ease : Option Ease}
      (hduration : ∀ x ∈ duration, IsTime x) : WellFormed (.camera frame duration ease)
  | packet {label : Option String} {start : Option Point} {paths : List (PathSpec Float)}
      (hsome : paths ≠ []) (hpaths : ∀ p ∈ paths, p.WellFormed) :
      WellFormed (.packet label start paths)
  | setValue {target value : String} (htarget : Text.Nonblank target) :
      WellFormed (.setValue target value)
  | pulse {target : String} {duration : Option Float} {repetitions : Option Nat}
      (htarget : Text.Nonblank target) (hduration : ∀ x ∈ duration, IsTime x)
      (hrepetitions : ∀ n ∈ repetitions, n ≤ Directive.maxRepetitions) :
      WellFormed (.pulse target duration repetitions)
  | wait {duration : Option Float} (hduration : ∀ x ∈ duration, IsTime x) :
      WellFormed (.wait duration)
  | attributes {target : String} {values : Dict String} {duration : Option Float}
      {ease : Option Ease} (htarget : Text.Nonblank target) (hsome : values.isEmpty = false)
      (hduration : ∀ x ∈ duration, IsTime x) :
      WellFormed (.attributes target values duration ease)
  | parallel {ds : List (Directive Float)} (hds : ∀ d ∈ ds, WellFormed d) :
      WellFormed (.parallel ds)

/-! ## Steps, slides, topics -/

structure Caption.WellFormed (c : Caption) : Prop where
  title : Text.Nonblank c.title
  phase : Text.Nonblank c.phase

structure Step.WellFormed (s : Step) : Prop where
  id : Text.Nonblank s.id
  caption : s.caption.WellFormed
  animations : ∀ d ∈ s.animations, d.WellFormed

structure Slide.WellFormed (s : Slide) : Prop where
  id : Text.Nonblank s.id
  title : Text.Nonblank s.title
  diagram : Text.Nonblank s.diagram
  stepsSome : s.steps ≠ []
  stepsDistinct : (s.steps.map (·.id)).Nodup
  steps : ∀ step ∈ s.steps, step.WellFormed

structure Topic.WellFormed (t : Topic) : Prop where
  id : Text.Nonblank t.id
  title : Text.Nonblank t.title
  slidesSome : t.slides ≠ []
  slidesDistinct : (t.slides.map (·.id)).Nodup
  slides : ∀ slide ∈ t.slides, slide.WellFormed

/-- A presentation of a well-formed topic can begin. -/
theorem Topic.WellFormed.navigation {t : Topic} (h : t.WellFormed) :
    ∃ n, Navigation.ofSteps (t.slides.map fun s => s.steps.length) = .ok n := by
  have hslides : t.slides.map (fun s => s.steps.length) ≠ [] := by
    rw [ne_eq, List.map_eq_nil_iff]
    exact h.slidesSome
  have hsteps : ∀ n ∈ t.slides.map (fun s => s.steps.length), 0 < n := by
    intro n hn
    obtain ⟨slide, hslide, rfl⟩ := List.mem_map.1 hn
    exact List.length_pos_iff.2 (h.slides slide hslide).stepsSome
  rw [Navigation.ofSteps, dif_pos ⟨hslides, hsteps⟩]
  exact ⟨_, rfl⟩

end Slideshow

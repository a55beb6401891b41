/-
  Slideshow.Proofs.Presentation.Walking

  The walk to a step. From slide to slide the diagram is loaded anew only where it is another
  one (`Topic.Loads`); what is shown on the way is shown without animation, on the diagram that
  was loaded last (`Carried`, `Exhibits`). The walk arrives at its slide or ends with the first
  failure of the source (`walk_outcome`). The main statement is `openAt_reaches`.
-/
import Slideshow.Proofs.Presentation.Outcome
import Slideshow.Proofs.Topic.Soundness
import Slideshow.Walk

namespace Slideshow

/-! ## Which diagrams are loaded -/

namespace Topic

variable {t : Topic} {source : Topic → Slide → Except Failure Scene} {slide : Nat}

/-- The name of a slide's diagram. -/
def diagram? (t : Topic) (slide : Nat) : Option String := (t.slide? slide).map (·.diagram)

/-- On the way from slide to slide the diagram is loaded for the first slide, and where it is
    another one than on the slide before. -/
def Loads (t : Topic) (slide : Nat) : Prop :=
  slide = 0 ∨ t.diagram? slide ≠ t.diagram? (slide - 1)

instance (t : Topic) (slide : Nat) : Decidable (t.Loads slide) :=
  inferInstanceAs (Decidable (_ ∨ _))

/-- The source has a diagram for the slide. -/
def Given (t : Topic) (source : Topic → Slide → Except Failure Scene) (slide : Nat) : Prop :=
  ∃ s scene, t.slide? slide = some s ∧ source t s = .ok scene

/-- The source has no diagram for the slide, for a reason. -/
def Missing (t : Topic) (source : Topic → Slide → Except Failure Scene) (slide : Nat)
    (e : Failure) : Prop :=
  ∃ s, t.slide? slide = some s ∧ source t s = .error e

/-- The first diagram that cannot be loaded on the way to a slide, and why. -/
def FirstFailure (t : Topic) (source : Topic → Slide → Except Failure Scene) (slide : Nat)
    (e : Failure) : Prop :=
  ∃ k ≤ slide, t.Loads k ∧ t.Missing source k e ∧ ∀ i < k, t.Loads i → t.Given source i

/-- The diagram of a slide: it is loaded there, or kept from the slide before. -/
inductive Carried (t : Topic) (source : Topic → Slide → Except Failure Scene) :
    Nat → Scene → Prop
  | loaded {slide : Nat} {s : Slide} {scene : Scene} (hloads : t.Loads slide)
      (hslide : t.slide? slide = some s) (hgiven : source t s = .ok scene) :
      Carried t source slide scene
  | kept {slide : Nat} {scene : Scene} (h : Carried t source slide scene)
      (hsame : ¬ t.Loads (slide + 1)) : Carried t source (slide + 1) scene

theorem Missing.not_given {e : Failure} (h : t.Missing source slide e) :
    ¬ t.Given source slide := by
  rintro ⟨s', scene, hs', hscene⟩
  obtain ⟨s, hs, hsource⟩ := h
  cases hs.symm.trans hs'
  cases hsource.symm.trans hscene

section FirstFailure

variable {e e' : Failure} (h : t.FirstFailure source slide e)
include h

/-- A failure on the way to a slide is one on the way to any slide behind it. -/
theorem FirstFailure.mono {slide' : Nat} (hle : slide ≤ slide') :
    t.FirstFailure source slide' e := by
  obtain ⟨k, hk, hrest⟩ := h
  exact ⟨k, Nat.le_trans hk hle, hrest⟩

theorem FirstFailure.not_given : ¬ ∀ k ≤ slide, t.Loads k → t.Given source k := by
  intro hgiven
  obtain ⟨k, hk, hloads, hmissing, -⟩ := h
  exact hmissing.not_given (hgiven k hk hloads)

/-- Only one failure can be the first. -/
theorem FirstFailure.unique (h' : t.FirstFailure source slide e') : e = e' := by
  obtain ⟨k, -, hloads, hmissing, hbefore⟩ := h
  obtain ⟨k', -, hloads', hmissing', hbefore'⟩ := h'
  rcases Nat.lt_trichotomy k k' with hlt | rfl | hlt
  · exact absurd (hbefore' k hlt hloads) hmissing.not_given
  · obtain ⟨s, hs, hsource⟩ := hmissing
    obtain ⟨s', hs', hsource'⟩ := hmissing'
    cases hs.symm.trans hs'
    cases hsource.symm.trans hsource'
    rfl
  · exact absurd (hbefore k' hlt hloads') hmissing'.not_given

end FirstFailure

end Topic

/-! ## Where the walk stands -/

/-- A store on which, since its diagram was captured, steps were shown without animation. -/
inductive Store.Exhibits (settings : Settings) (scene : Scene) : Store → Prop
  | captured : Exhibits settings scene (.capture settings.dynamic scene)
  | shown (slide : Slide) (step : Step) (count : Nat) {s : Store}
      (h : Exhibits settings scene s) :
      Exhibits settings scene (Presentation.prepare settings slide step count s)

/-- If the event is about a step that is shown, it is not animated. -/
def Event.Still (e : Event) : Prop :=
  ∀ position progress caption animated,
    e = .stepShown position progress caption animated → animated = false

theorem Event.still_stepShown (position : Position) (progress : Progress) (caption : Caption) :
    (Event.stepShown position progress caption false).Still := by
  intro _ _ _ _ h
  cases h
  rfl

theorem Event.still_diagramRequested (slide : Nat) (diagram : String) :
    (Event.diagramRequested slide diagram).Still := by
  intro _ _ _ _ h
  cases h

namespace Presentation

open Topic

variable {p : Presentation} {t : Topic} {settings : Settings}
  {source : Topic → Slide → Except Failure Scene} {slide step : Nat}

/-- The store holds the slide's diagram, with the step shown on it without animation. -/
def OnView (t : Topic) (settings : Settings) (source : Topic → Slide → Except Failure Scene)
    (slide step : Nat) (s : Store) : Prop :=
  ∃ scene before sl st, Carried t source slide scene ∧ Store.Exhibits settings scene before ∧
    t.slide? slide = some sl ∧ sl.steps[step]? = some st ∧
    s = prepare settings sl st (step + 1) before

/-- A presentation of a topic that is at a step, where nothing was animated so far. -/
structure StandsAt (t : Topic) (settings : Settings) (slide step : Nat) (p : Presentation) :
    Prop where
  consistent : Consistent p
  sameTopic : p.topic = t
  sameSettings : p.player.settings = settings
  position : p.position = ⟨slide, step⟩
  quiet : p.isPlaying = false
  still : ∀ e ∈ p.events, e.Still
  rule : ∀ s, p.store = some s → s.rule = settings.dynamic

/-- The step is shown on its diagram. -/
structure ShowsAt (t : Topic) (settings : Settings)
    (source : Topic → Slide → Except Failure Scene) (slide step : Nat) (p : Presentation) :
    Prop extends StandsAt t settings slide step p where
  ready : p.phase = .ready
  view : ∃ s, p.store = some s ∧ OnView t settings source slide step s

/-- The diagram of the step is awaited, which will be shown without animation. -/
structure AwaitsAt (t : Topic) (settings : Settings) (slide step : Nat) (p : Presentation) :
    Prop extends StandsAt t settings slide step p where
  loading : p.phase = .loading slide false

theorem StandsAt.diagramOf? (h : StandsAt t settings slide step p) (i : Nat) :
    p.diagramOf? i = t.diagram? i := by
  rw [Presentation.diagramOf?, h.sameTopic, Topic.diagram?]

/-- One more event that is not about an animated step. -/
theorem still_append {es : List Event} (h : ∀ e ∈ es, e.Still) {e : Event} (he : e.Still) :
    ∀ e' ∈ es ++ [e], e'.Still := by
  intro e' he'
  rcases List.mem_append.1 he' with he' | he'
  · exact h e' he'
  · rwa [List.mem_singleton.1 he']

/-! ## Showing -/

theorem rule_prepare (settings : Settings) (slide : Slide) (step : Step) (count : Nat)
    (s : Store) : (prepare settings slide step count s).rule = s.rule := by
  rw [← performAll_prepareActions]
  exact s.performAll_rule _

/-- Without animation a step is prepared, and that is said. -/
theorem showStep_still {store : Store} {sl : Slide} {st : Step} (hstore : p.store = some store)
    (hslide : p.currentSlide? = some sl) (hstep : p.currentStep? = some st) :
    (p.showStep false).2 =
      { p with store := some (prepare p.player.settings sl st (p.position.step + 1) store) }.emit
        (.stepShown p.position p.navigation.progress st.caption false) := by
  simp only [showStep, hstore, hslide, hstep, Bool.false_and, Bool.false_eq_true, if_false]

/-- A step that is shown without animation is on view. -/
theorem StandsAt.shows (h : StandsAt t settings slide step p) (hready : p.phase = .ready)
    {scene : Scene} (hcarried : Carried t source slide scene) {before : Store}
    (hstore : p.store = some before) (hexhibits : Store.Exhibits settings scene before) :
    ShowsAt t settings source slide step (p.showStep false).2 := by
  obtain ⟨sl, st, hslide, hstep, _⟩ := exists_current h.consistent.steps
  have heq := showStep_still hstore hslide hstep
  have hconsistent : Consistent (p.showStep false).2 := by
    refine h.consistent.of_sameStand (showStep_sameStand p false) ?_ fun hphase =>
      absurd hready hphase
    rw [heq]
    exact h.consistent.pending
  rw [heq] at hconsistent ⊢
  refine ⟨⟨hconsistent, h.sameTopic, h.sameSettings, h.position, h.quiet, ?_, ?_⟩, hready,
    _, rfl, scene, before, sl, st, hcarried, hexhibits, ?_, ?_, ?_⟩
  · exact still_append h.still (Event.still_stepShown _ _ _)
  · intro s hs
    cases hs
    rw [rule_prepare]
    exact h.rule before hstore
  · rwa [currentSlide?, h.sameTopic, h.position] at hslide
  · rwa [currentStep?, Topic.step?, ← currentSlide?, hslide, Option.bind_some, h.position] at hstep
  · rw [h.sameSettings, h.position]

/-! ## Handing over the diagram -/

theorem StandsAt.store_delivered (h : StandsAt t settings slide step p) (i : Nat)
    (scene : Scene) :
    (p.delivered i scene).store = some (.capture settings.dynamic scene) := by
  cases hstore : p.store with
  | none => simp only [delivered, hstore, emit_store, h.sameSettings]
  | some s => simp only [delivered, hstore, emit_store, Store.replace, h.rule s hstore]

/-- With the diagram that was awaited, the step is shown. -/
theorem AwaitsAt.attach (h : AwaitsAt t settings slide step p) {scene : Scene}
    (hcarried : Carried t source slide scene) :
    ShowsAt t settings source slide step (p.attach slide scene).2 := by
  have hstore := h.store_delivered slide scene
  have hstands : StandsAt t settings slide step (p.delivered slide scene) := by
    refine ⟨h.consistent.delivered h.loading scene, h.sameTopic, h.sameSettings, h.position,
      h.quiet, still_append h.still ?_, ?_⟩
    · intro _ _ _ _ he
      cases he
    · intro s hs
      cases hstore.symm.trans hs
      rfl
  rw [attach_eq h.loading]
  exact hstands.shows rfl hcarried hstore .captured

/-- A source is asked for the diagram that is awaited. -/
theorem AwaitsAt.pump (h : AwaitsAt t settings slide step p) {s : Slide}
    (hslide : t.slide? slide = some s) :
    p.pump (m := Id) source =
      match source t s with
      | .ok scene => (.ok (), (p.attach slide scene).2)
      | .error e => (.error e, (p.fail slide e.message).2) := by
  have hawaited : p.awaited? = some slide := by rw [awaited?, h.loading]
  simp only [Presentation.pump, hawaited, h.sameTopic, hslide]
  cases source t s <;> rfl

/-- Where the diagram is there, no source is asked. -/
theorem ShowsAt.pump (h : ShowsAt t settings source slide step p) :
    p.pump (m := Id) source = (.ok (), p) := by
  have hawaited : p.awaited? = none := by rw [awaited?, h.ready]
  simp only [Presentation.pump, hawaited]
  rfl

/-! ## Going on -/

/-- No playback has to be ended for a move that is made where a step is shown. -/
theorem ShowsAt.moveBy (h : ShowsAt t settings source slide step p)
    (move : Navigation → Option (Move × Navigation)) :
    p.moveBy move = p.follow (move p.navigation) false := by
  rw [Presentation.moveBy, isLoading_eq_false_of_ready h.ready,
    stopPlayback_of_not_isPlaying h.quiet]
  rfl

section Move

variable {m : Move} {n : Navigation} {slide' step' : Nat}
  (h : ShowsAt t settings source slide step p)
include h

theorem ShowsAt.moved (hsteps : n.steps = p.navigation.steps) :
    Moved p { p with navigation := n } where
  topic := rfl
  steps := hsteps
  loaded := rfl
  store := by rw [stopPlayback_of_not_isPlaying h.quiet]
  player := by rw [stopPlayback_of_not_isPlaying h.quiet]
  events := rfl
  pending := by
    rw [h.consistent.pending, h.quiet]
    rfl
  quiet := h.quiet

/-- After a move the diagram is there if its name is that of the slide before. -/
theorem ShowsAt.hasDiagram_moved (hposition : n.position = ⟨slide', step'⟩) :
    ({ p with navigation := n } : Presentation).hasDiagram = true ↔
      t.diagram? slide' = t.diagram? slide := by
  have hdiagram := h.consistent.present h.ready
  obtain ⟨sl, _, _, _, hname⟩ := exists_current h.consistent.steps
  have hloaded := loaded_of_hasDiagram hdiagram
  have hsame : p.diagramOf? n.position.slide = t.diagram? slide' := by
    rw [hposition]
    exact h.diagramOf? slide'
  rw [hname] at hloaded
  rw [h.position, h.diagramOf?] at hname
  simp only [hasDiagram, Bool.and_eq_true, beq_iff_eq, isSome_store_of_hasDiagram hdiagram,
    hloaded, Option.isSome_some, true_and, hname]
  change some sl.diagram = p.diagramOf? n.position.slide ↔ _
  rw [hsame, eq_comm]

/-- A move to a slide with the same diagram shows its step on that. -/
theorem ShowsAt.follow_shows (hsteps : n.steps = p.navigation.steps)
    (hposition : n.position = ⟨slide', step'⟩) (hsame : t.diagram? slide' = t.diagram? slide)
    (hcarried : ∀ scene, Carried t source slide scene → Carried t source slide' scene) :
    ShowsAt t settings source slide' step' (p.follow (some (m, n)) false).2 := by
  have hdiagram := (h.hasDiagram_moved hposition).2 hsame
  have hconsistent := h.consistent.ready_moved (h.moved hsteps) hdiagram
  obtain ⟨s, hstore, scene, before, sl, st, hscene, hexhibits, -, -, rfl⟩ := h.view
  simp only [follow, hdiagram, Bool.not_true, Bool.false_and, Bool.false_eq_true, if_false]
  have hstands : StandsAt t settings slide' step'
      { p with navigation := n, phase := .ready } :=
    ⟨hconsistent, h.sameTopic, h.sameSettings, hposition, h.quiet, h.still, h.rule⟩
  exact hstands.shows rfl (hcarried scene hscene) hstore (hexhibits.shown sl st _)

/-- A move to a slide with another diagram requests that. -/
theorem ShowsAt.follow_awaits (hsteps : n.steps = p.navigation.steps)
    (hposition : n.position = ⟨slide', step'⟩) (hother : t.diagram? slide' ≠ t.diagram? slide)
    (hchanged : m.slideChanged = true) :
    AwaitsAt t settings slide' step' (p.follow (some (m, n)) false).2 := by
  have hdiagram := Bool.eq_false_iff.2 (mt (h.hasDiagram_moved hposition).1 hother)
  have hconsistent := h.consistent.request_moved (h.moved hsteps) hdiagram false
  simp only [follow, hdiagram, hchanged, Bool.not_false, Bool.true_or, Bool.and_self, if_true]
  refine ⟨⟨hconsistent, h.sameTopic, h.sameSettings, hposition, h.quiet, ?_, h.rule⟩, ?_⟩
  · exact still_append h.still (Event.still_diagramRequested _ _)
  · change LoadPhase.loading n.position.slide false = _
    rw [hposition]

end Move

/-- How many steps a slide has is known from the topic. -/
theorem StandsAt.stepsIn (h : StandsAt t settings slide step p) {s : Slide} {i : Nat}
    (hslide : t.slide? i = some s) :
    stepsIn p.navigation.steps i = s.steps.length := by
  rw [h.consistent.steps, Slideshow.stepsIn, List.getElem?_map, h.sameTopic, ← Topic.slide?, hslide]
  rfl

/-- The next slide is shown at once if it has the same diagram, and else that is awaited. -/
theorem ShowsAt.nextSlide (h : ShowsAt t settings source slide step p)
    (hslide : slide + 1 < t.slides.length) :
    if t.Loads (slide + 1) then AwaitsAt t settings (slide + 1) 0 p.nextSlide.2
    else ShowsAt t settings source (slide + 1) 0 p.nextSlide.2 := by
  have hlt : p.navigation.position.slide + 1 < p.navigation.steps.length := by
    rw [h.consistent.steps, List.length_map, h.sameTopic, ← Presentation.position, h.position]
    exact hslide
  have hposition : p.navigation.position.slide + 1 = slide + 1 :=
    congrArg (·.slide + 1) h.position
  have hloads : t.Loads (slide + 1) ↔ t.diagram? (slide + 1) ≠ t.diagram? slide := by
    rw [Topic.Loads, Nat.add_sub_cancel]
    exact or_iff_right (Nat.succ_ne_zero slide)
  rw [Presentation.nextSlide, h.moveBy, Navigation.advanceSlide?, dif_pos hlt]
  have hat : (Position.mk (p.navigation.position.slide + 1) 0) = ⟨slide + 1, 0⟩ := by
    rw [hposition]
  by_cases hload : t.Loads (slide + 1)
  · rw [if_pos hload]
    exact h.follow_awaits rfl hat (hloads.1 hload) rfl
  · rw [if_neg hload]
    refine h.follow_shows rfl hat (Decidable.not_not.1 (mt hloads.2 hload)) fun scene hscene => ?_
    exact .kept hscene hload

/-- A step of the slide is shown on the same diagram. -/
theorem ShowsAt.goToStep (h : ShowsAt t settings source slide step p) {s : Slide}
    (hslide : t.slide? slide = some s) {step' : Nat} (hstep : step' < s.steps.length) :
    ShowsAt t settings source slide step' (p.goToStep step').2 := by
  have hposition : p.navigation.position.slide = slide := congrArg (·.slide) h.position
  have hlt : step' < Slideshow.stepsIn p.navigation.steps p.navigation.position.slide := by
    rw [hposition, h.stepsIn hslide]
    exact hstep
  rw [Presentation.goToStep, h.moveBy]
  simp only [Navigation.goToStep?, dif_pos hlt]
  exact h.follow_shows rfl (congrArg (Position.mk · step') hposition) rfl fun _ hscene => hscene

/-! ## The walk -/

/-- On the way: a slide whose diagram is to be loaded, or one that is shown; and whatever was
    asked for before was given. -/
inductive OnWay (t : Topic) (settings : Settings)
    (source : Topic → Slide → Except Failure Scene) (slide : Nat) (p : Presentation) : Prop
  | awaits (h : AwaitsAt t settings slide 0 p) (hloads : t.Loads slide)
      (hgiven : ∀ k < slide, t.Loads k → t.Given source k)
  | shows (h : ShowsAt t settings source slide 0 p)
      (hgiven : ∀ k ≤ slide, t.Loads k → t.Given source k)

/-- The outcome of a walk to a slide: it is reached, or a diagram on the way is missing. -/
inductive Walked (t : Topic) (settings : Settings)
    (source : Topic → Slide → Except Failure Scene) (slide : Nat) :
    Except Failure Presentation → Prop
  | reached {p : Presentation} (h : ShowsAt t settings source slide 0 p)
      (hgiven : ∀ k ≤ slide, t.Loads k → t.Given source k) : Walked t settings source slide (.ok p)
  | failed {e : Failure} (h : t.FirstFailure source slide e) :
      Walked t settings source slide (.error e)

theorem given_le {n : Nat} (hgiven : ∀ k < n, t.Loads k → t.Given source k)
    (h : t.Loads n → t.Given source n) : ∀ k ≤ n, t.Loads k → t.Given source k := by
  intro k hk
  rcases Nat.lt_or_eq_of_le hk with hk | rfl
  · exact hgiven k hk
  · exact h

/-- Asking the source leads to the slide, or shows the first failure. -/
theorem OnWay.pump (h : OnWay t settings source slide p) (hslide : slide < t.slides.length) :
    (∃ q, p.pump (m := Id) source = (.ok (), q) ∧ ShowsAt t settings source slide 0 q ∧
        ∀ k ≤ slide, t.Loads k → t.Given source k) ∨
      ∃ e q, p.pump (m := Id) source = (.error e, q) ∧ t.FirstFailure source slide e := by
  cases h with
  | awaits h hloads hgiven =>
    have hs : t.slide? slide = some t.slides[slide] := List.getElem?_eq_getElem hslide
    rw [h.pump hs]
    cases hsource : source t t.slides[slide] with
    | ok scene =>
      exact .inl ⟨_, rfl, h.attach (.loaded hloads hs hsource),
        given_le hgiven fun _ => ⟨_, scene, hs, hsource⟩⟩
    | error e =>
      exact .inr ⟨e, _, rfl, slide, Nat.le_refl slide, hloads, ⟨_, hs, hsource⟩, hgiven⟩
  | shows h hgiven => exact .inl ⟨p, h.pump, h, hgiven⟩

theorem ShowsAt.onWay (h : ShowsAt t settings source slide 0 p)
    (hgiven : ∀ k ≤ slide, t.Loads k → t.Given source k) (hslide : slide + 1 < t.slides.length) :
    OnWay t settings source (slide + 1) p.nextSlide.2 := by
  have hnext := h.nextSlide hslide
  split at hnext
  · rename_i hloads
    exact .awaits hnext hloads fun k hk => hgiven k (Nat.lt_succ_iff.1 hk)
  · rename_i hkept
    refine .shows hnext (given_le (fun k hk => hgiven k (Nat.lt_succ_iff.1 hk)) fun hloads => ?_)
    exact absurd hloads hkept

/-- From slide to slide the walk goes on until a diagram is missing. -/
theorem OnWay.walk {n : Nat} (h : OnWay t settings source slide p)
    (hslide : slide + n < t.slides.length) :
    Walked t settings source (slide + n) (p.walk (m := Id) source n) := by
  induction n generalizing slide p with
  | zero =>
    rw [Presentation.walk]
    rcases h.pump hslide with ⟨q, hpump, hshows, hgiven⟩ | ⟨e, q, hpump, hfailure⟩
    · rw [hpump]
      exact .reached hshows hgiven
    · rw [hpump]
      exact .failed hfailure
  | succ n ih =>
    rw [Presentation.walk]
    rcases h.pump (by omega) with ⟨q, hpump, hshows, hgiven⟩ | ⟨e, q, hpump, hfailure⟩
    · rw [hpump]
      have hwalked := ih (hshows.onWay hgiven (by omega)) (by omega)
      rw [Nat.succ_add_eq_add_succ] at hwalked
      exact hwalked
    · rw [hpump]
      exact .failed (hfailure.mono (Nat.le_add_right slide _))

/-- A walk begins where the first diagram is awaited. -/
theorem onWay_new (h : new t settings = .ok p) : OnWay t settings source 0 p := by
  have hconsistent := consistent_new h
  refine .awaits ?_ (.inl rfl) fun k hk => absurd hk (Nat.not_lt_zero k)
  unfold new at h
  split at h
  · cases h
  · rename_i navigation hnavigation
    have hposition := (Navigation.of_ofSteps hnavigation).2
    cases h
    refine ⟨⟨hconsistent, rfl, rfl, hposition, rfl,
      still_append ?_ (Event.still_diagramRequested _ _), ?_⟩, rfl⟩
    · intro e he
      cases he
    · intro s hs
      cases hs

/-- Of a topic that is well-formed a presentation can begin. -/
theorem exists_new (h : t.WellFormed) (settings : Settings) :
    ∃ p, new t settings = .ok p := by
  obtain ⟨n, hn⟩ := h.navigation
  exact ⟨_, by rw [new, hn]⟩

/-! ## Arriving -/

/-- What the walk to a step has led to: the step is shown, or there is no such step, or a
    diagram on the way is missing. -/
inductive Opened (t : Topic) (settings : Settings)
    (source : Topic → Slide → Except Failure Scene) (slide step : Nat) :
    Except WalkFault Presentation → Prop
  | shown {s : Slide} {p : Presentation} (hslide : t.slide? slide = some s)
      (hstep : step < s.steps.length) (hgiven : ∀ k ≤ slide, t.Loads k → t.Given source k)
      (h : ShowsAt t settings source slide step p) : Opened t settings source slide step (.ok p)
  | noSlide (hslide : t.slide? slide = none) :
      Opened t settings source slide step (.error (.noSlide slide t.slides.length))
  | noStep {s : Slide} (hslide : t.slide? slide = some s) (hstep : s.steps.length ≤ step)
      (hgiven : ∀ k ≤ slide, t.Loads k → t.Given source k) :
      Opened t settings source slide step (.error (.noStep step slide s.steps.length))
  | failed {s : Slide} {e : Failure} (hslide : t.slide? slide = some s)
      (h : t.FirstFailure source slide e) :
      Opened t settings source slide step (.error (.failure e))

theorem openAt_opened (h : t.WellFormed) (settings : Settings)
    (source : Topic → Slide → Except Failure Scene) (slide step : Nat) :
    Opened t settings source slide step (openAt (m := Id) t settings source slide step) := by
  obtain ⟨p, hnew⟩ := exists_new h settings
  rw [openAt, hnew]
  dsimp only
  by_cases hslide : slide < t.slides.length
  · have hs : t.slide? slide = some t.slides[slide] := List.getElem?_eq_getElem hslide
    have honWay : OnWay t settings source 0 p := onWay_new hnew
    have hwalked := honWay.walk (n := slide) (by omega)
    rw [Nat.zero_add] at hwalked
    rw [if_pos hslide]
    generalize p.walk (m := Id) source slide = result at hwalked ⊢
    cases hwalked with
    | reached hshows hgiven =>
      rename_i q
      have hcurrent : q.currentSlide? = some t.slides[slide] := by
        rw [currentSlide?, hshows.sameTopic, hshows.position, hs]
      change Opened t settings source slide step (q.arrive slide step)
      rw [arrive, hcurrent]
      by_cases hstep : step < t.slides[slide].steps.length
      · rw [Option.map_some, Option.getD_some, if_pos hstep]
        exact .shown hs hstep hgiven (hshows.goToStep hs hstep)
      · rw [Option.map_some, Option.getD_some, if_neg hstep]
        exact .noStep hs (Nat.le_of_not_lt hstep) hgiven
    | failed hfailure => exact .failed hs hfailure
  · rw [if_neg hslide]
    exact .noSlide (List.getElem?_eq_none (Nat.le_of_not_lt hslide))

theorem ShowsAt.pending (h : ShowsAt t settings source slide step p) :
    p.player.pending = none := by
  rw [h.consistent.pending, h.quiet]
  rfl

/-- The diagram that is there is the one of the slide. -/
theorem ShowsAt.loaded (h : ShowsAt t settings source slide step p) :
    p.loaded = t.diagram? slide := by
  rw [loaded_of_hasDiagram (h.consistent.present h.ready), h.position, h.diagramOf?]

/-- Of a topic that was loaded, the walk leads to a step exactly if there is such a step and
    the source has every diagram that is loaded on the way. The step is then shown on its
    diagram; nothing is awaited, nothing plays, and nothing was animated on the way. If the
    slide exists and a diagram is missing, the first failure is reported. -/
theorem openAt_reaches {j : Json} (hload : Topic.load j = .ok t) (settings : Settings)
    (source : Topic → Slide → Except Failure Scene) (slide step : Nat) :
    let result := openAt (m := Id) t settings source slide step
    ((∃ p, result = .ok p) ↔
      (∃ s, t.slide? slide = some s ∧ step < s.steps.length) ∧
        ∀ k ≤ slide, t.Loads k → t.Given source k) ∧
    (∀ p, result = .ok p →
      p.position = ⟨slide, step⟩ ∧ p.phase = .ready ∧ p.awaited? = none ∧
        p.isPlaying = false ∧ p.player.pending = none ∧ p.loaded = t.diagram? slide ∧
        (∃ s, p.store = some s ∧ OnView t settings source slide step s) ∧
        ∀ e ∈ p.events, e.Still) ∧
    ∀ e, result = .error (.failure e) ↔
      slide < t.slides.length ∧ t.FirstFailure source slide e := by
  intro result
  obtain ⟨hcheck, hread⟩ := Topic.problems_of_load hload
  have hopened : Opened t settings source slide step result :=
    openAt_opened (Topic.wellFormed_of_read hcheck hread) settings source slide step
  clear_value result
  cases hopened with
  | shown hslide hstep hgiven h =>
    refine ⟨⟨fun _ => ⟨⟨_, hslide, hstep⟩, hgiven⟩, fun _ => ⟨_, rfl⟩⟩, ?_, fun e => ⟨?_, ?_⟩⟩
    · intro p hp
      cases hp
      exact ⟨h.position, h.ready, by rw [awaited?, h.ready], h.quiet, h.pending, h.loaded,
        h.view, h.still⟩
    · intro he
      cases he
    · rintro ⟨_, hfailure⟩
      exact absurd hgiven hfailure.not_given
  | noSlide hslide =>
    refine ⟨⟨?_, ?_⟩, ?_, fun e => ⟨?_, ?_⟩⟩
    · rintro ⟨p, hp⟩
      cases hp
    · rintro ⟨⟨s, hs, _⟩, _⟩
      cases hslide.symm.trans hs
    · intro p hp
      cases hp
    · intro he
      cases he
    · rintro ⟨hlt, _⟩
      exact absurd hlt (Nat.not_lt_of_le (List.getElem?_eq_none_iff.1 hslide))
  | noStep hslide hstep hgiven =>
    refine ⟨⟨?_, ?_⟩, ?_, fun e => ⟨?_, ?_⟩⟩
    · rintro ⟨p, hp⟩
      cases hp
    · rintro ⟨⟨s, hs, hlt⟩, _⟩
      cases hslide.symm.trans hs
      exact absurd hlt (Nat.not_lt_of_le hstep)
    · intro p hp
      cases hp
    · intro he
      cases he
    · rintro ⟨_, hfailure⟩
      exact absurd hgiven hfailure.not_given
  | failed hslide h =>
    refine ⟨⟨?_, ?_⟩, ?_, fun e => ⟨?_, ?_⟩⟩
    · rintro ⟨p, hp⟩
      cases hp
    · rintro ⟨_, hgiven⟩
      exact absurd hgiven h.not_given
    · intro p hp
      cases hp
    · intro he
      cases he
      exact ⟨(List.getElem?_eq_some_iff.1 hslide).1, h⟩
    · rintro ⟨_, hfailure⟩
      rw [h.unique hfailure]

/-- A topic whose first two slides share a diagram. -/
def sharing : Json :=
  let step (id : String) : Json :=
    .obj [("id", .str id), ("ui", .obj [("phase", .str "FETCH"), ("title", .str "Step")])]
  let slide (id diagram : String) : Json :=
    .obj [("diagram", .str diagram), ("id", .str id), ("steps", .arr [step "one", step "two"]),
      ("title", .str "Slide")]
  .obj [("id", .str "t"), ("slides", .arr [slide "a" "d", slide "b" "d", slide "c" "e"]),
    ("title", .str "Topic")]

/-- The second step of the second slide is reached, on the diagram of the first one. The third
    slide is not, as its diagram is missing. -/
theorem openAt_reaches_demo :
    let source : Topic → Slide → Except Failure Scene := fun _ s =>
      if s.diagram = "d" then .ok .demo else .error (.load (.noDiagram s.diagram))
    ∃ t, Topic.load sharing = .ok t ∧
      (∃ p, openAt (m := Id) t .usual source 1 1 = .ok p ∧ p.position = ⟨1, 1⟩ ∧
        p.loaded = some "d") ∧
      openAt (m := Id) t .usual source 2 0 = .error (.failure (.load (.noDiagram "e"))) := by
  intro source
  obtain ⟨t, ht⟩ := Topic.exists_load (j := sharing) (by decide +kernel)
  have hdiagrams : (Topic.load sharing).toOption.map (fun t => t.slides.map (·.diagram)) =
      some ["d", "d", "e"] := by decide +kernel
  have hopens : (Topic.load sharing).toOption.any (fun t =>
      (openAt (m := Id) t .usual source 1 1).isOk) = true := by decide +kernel
  rw [ht] at hdiagrams hopens
  have hdiagram (i : Nat) : t.diagram? i = ["d", "d", "e"][i]? := by
    rw [← Option.some.inj hdiagrams, List.getElem?_map]
    rfl
  obtain ⟨hreached, hstand, -⟩ := openAt_reaches ht .usual source 1 1
  obtain ⟨p, hp⟩ : ∃ p, openAt (m := Id) t .usual source 1 1 = .ok p := by
    cases hresult : openAt (m := Id) t .usual source 1 1 with
    | ok p => exact ⟨p, rfl⟩
    | error e =>
      rw [Except.toOption, Option.any, hresult] at hopens
      cases hopens
  obtain ⟨hposition, -, -, -, -, hloaded, -⟩ := hstand p hp
  -- what is missing is the diagram of the third slide, and no diagram before it
  obtain ⟨s, hs, hname⟩ := Option.map_eq_some_iff.1 (hdiagram 2)
  have hsource : source t s = .error (.load (.noDiagram "e")) := by
    simp only [source, hname]
    rfl
  have hfailure : t.FirstFailure source 2 (.load (.noDiagram "e")) := by
    refine ⟨2, Nat.le_refl 2, .inr ?_, ⟨s, hs, hsource⟩, fun i hi => ?_⟩
    · rw [hdiagram, hdiagram]
      decide
    · exact (hreached.1 ⟨p, hp⟩).2 i (Nat.lt_succ_iff.1 hi)
  have hslide : 2 < t.slides.length := (List.getElem?_eq_some_iff.1 hs).1
  exact ⟨t, ht, ⟨p, hp, hposition, hloaded.trans (hdiagram 1)⟩,
    ((openAt_reaches ht .usual source 2 0).2.2 _).2 ⟨hslide, hfailure⟩⟩

end Presentation

end Slideshow

/-
  Slideshow.Proofs.Presentation.Playing

  What was made of a diagram since it was last reset, along a run. While an animation plays,
  that is the state before its step with the tokens hidden, and then the changes of the
  animation so far, all in cells that its tweens drive (`Animated`). The main statement is
  `Plays.runAll`.
-/
import Slideshow.Proofs.Presentation.History
import Slideshow.Proofs.Timeline.Driving

namespace Slideshow

/-- The changes since the last reset behind an operation; a diagram that is handed over is
    unchanged at first. -/
def Operation.made (o : Operation) (p : Presentation) (before : List Change) : List Change :=
  Store.Action.since (if (o.handed? p).isSome then [] else before) (o.actions p)

namespace Presentation

variable {p q : Presentation} {topic : Topic} {settings : Settings} {d? : Option Scene}
  {d : Scene} {es : List Event} {actions : List Store.Action} {before : List Change}

/-! ## What was made of a diagram -/

/-- The changes since the last reset behind several operations. -/
def made (p : Presentation) (before : List Change) : List Operation → List Change
  | [] => before
  | o :: os => (o.run p).made (o.made p before) os

theorem made_append {os os' : List Operation} :
    p.made before (os ++ os') = (p.runAll os).made (p.made before os) os' := by
  induction os generalizing p before with
  | nil => rfl
  | cons o os ih => exact ih

/-- The store shows what was made of the diagram handed over last. -/
def Depicts (d? : Option Scene) (made : List Change) (p : Presentation) : Prop :=
  ∀ s d, p.store = some s → d? = some d → Store.Shows d made s

theorem Depicts.run (hkeeps : Keeps topic settings d? p) (h : Depicts d? before p) {o : Operation}
    (ho : o.Tidy p d?) : Depicts ((o.handed? p).or d?) (o.made p before) (o.run p) := by
  intro s d hs hd
  rw [run_store] at hs
  obtain ⟨s', hs', rfl⟩ := Option.map_eq_some_iff.1 hs
  obtain ⟨_, d', hd', hfaithful⟩ := hkeeps.base ho s' hs'
  rw [hd] at hd'
  cases hd'
  refine hfaithful.shows_performAll ?_ (ho.2 d hd)
  -- before the actions the store shows what was made, or the diagram as it was captured
  unfold Operation.base at hs'
  cases hhanded : o.handed? p with
  | none =>
    rw [hhanded] at hs' hd
    exact h s' d hs' hd
  | some scene =>
    rw [hhanded] at hs' hd
    simp only at hs'
    rw [hkeeps.delivered, Option.some.injEq] at hs'
    cases hd
    rw [← hs']
    exact Store.shows_capture _ _

theorem Depicts.runAll (hkeeps : Keeps topic settings d? p) (h : Depicts d? before p)
    {os : List Operation} (hos : p.Tidy d? os) :
    Depicts (p.attached d? os) (p.made before os) (p.runAll os) := by
  induction os generalizing p d? before with
  | nil => exact h
  | cons o os ih => exact ih (hkeeps.run hos.1) (h.run hkeeps hos.1) hos.2

theorem depicts_none (p : Presentation) : Depicts none [] p := fun _ _ _ hd => by cases hd

/-! ## While an animation runs -/

/-- The changes from which the animation of a step begins. -/
def beginning (settings : Settings) (slide : Slide) (step : Step) (count : Nat) : List Change :=
  preparing settings slide step count ++ TokenSlot.hiding settings.tokens

/-- Every change is about a cell that a tween of the plan drives. -/
def Driven (plan : List (Tween Float)) (chs : List Change) : Prop :=
  ∀ ch ∈ chs, ∀ d c, ch.cell? d = some c → ∃ t ∈ plan, t.Drives d c

theorem Driven.append {plan : List (Tween Float)} {chs chs' : List Change} (h : Driven plan chs)
    (h' : Driven plan chs') : Driven plan (chs ++ chs') := by
  intro ch hch
  rcases List.mem_append.1 hch with hch | hch
  · exact h ch hch
  · exact h' ch hch

/-- What was made of the diagram since the current step was shown animated: the beginning, the
    changes of the animation, and once it is complete the step's values. -/
structure Animated (settings : Settings) (made : List Change) (q : Presentation) (slide : Slide)
    (step : Step) : Prop where
  currentSlide : q.currentSlide? = some slide
  currentStep : q.currentStep? = some step
  made : ∃ played, Driven q.player.plan played ∧
    made = beginning settings slide step q.position.step ++ played ++
      if q.isPlaying then [] else step.finalState.changes

theorem Animated.step_eq {slide : Slide} {step : Step} (h : Animated settings before q slide step) :
    slide.steps[q.position.step]? = some step := by
  have hstep := h.currentStep
  simp only [currentStep?, Topic.step?] at hstep
  rwa [← currentSlide?, h.currentSlide, Option.bind_some] at hstep

theorem SameStand.currentSlide? (h : SameStand p q) : q.currentSlide? = p.currentSlide? := by
  rw [Presentation.currentSlide?, h.topic, h.position, ← Presentation.currentSlide?]

theorem SameStand.currentStep? (h : SameStand p q) : q.currentStep? = p.currentStep? := by
  rw [Presentation.currentStep?, h.topic, h.position, ← Presentation.currentStep?]

/-- The values that a step leaves behind are given once the animation is complete. -/
theorem settling_eq {step : Step} (hstep : p.currentStep? = some step)
    {completed : Option Position} {player : Player Position}
    (hprogress : Player.Progress (some p.position) player completed) :
    p.settling player.state = if player.isPlaying then [] else step.finalState.changes := by
  unfold settling
  rw [hstep]
  cases hprogress with
  | running hstate => simp [Player.isPlaying, hstate]
  | complete hstate => simp [Player.isPlaying, hstate]

theorem since_prepareActions {slide : Slide} {step : Step} {count : Nat} :
    Store.Action.since before (prepareActions settings slide step count) =
      preparing settings slide step count := by
  rw [prepareActions, Store.Action.since, Store.Action.since_changes, List.nil_append]

/-- The playback runs, or it has just come to its end. -/
def Lively (q : Presentation) (es : List Event) : Prop :=
  q.isPlaying = true ∨ ∃ position, .animationCompleted position ∈ es

theorem not_lively (hquiet : q.isPlaying = false)
    (hnone : ∀ position, .animationCompleted position ∉ es) : ¬ Lively q es := by
  rintro (hplay | ⟨position, hmem⟩)
  · rw [hquiet] at hplay
    cases hplay
  · exact hnone position hmem

/-- A step that is shown animated begins in the state before it. -/
theorem Shown.animated_of_lively (h : Shown p q es actions) (hstand : SameStand p q)
    (hquiet : p.isPlaying = false) (hlively : Lively q es) :
    ∃ slide step,
      Animated p.player.settings (Store.Action.since before actions) q slide step := by
  cases h with
  | still _ _ _ _ _ _ hplayer =>
    have hstill : q.isPlaying = false := by rw [isPlaying, hplayer]; exact hquiet
    refine absurd hlively (not_lively hstill fun position hmem => ?_)
    cases List.mem_singleton.1 hmem
  | animated store start slide step hstore hslide hstep hstart left hleft hplayer hshown =>
    have hsettling : p.settling left.1.state =
        if q.isPlaying then [] else step.finalState.changes := by
      rw [settling_eq hstep (progress_of_play hleft), isPlaying, hplayer]
    -- the first preparation is undone by the second one, from which the play begins
    let hidden := Player.hideTokens p.player.settings.tokens start
    refine ⟨slide, step, ?_, ?_,
      (p.player.begun step.animations p.position hidden).advanceChanges 0 hidden, ?_, ?_⟩
    · rw [hstand.currentSlide?, hslide]
    · rw [hstand.currentStep?, hstep]
    · rw [hplayer, hleft, Player.play_eq, Player.advance_plan]
      exact (Player.sound_begun _ _ _ _).driven_advanceChanges 0 hidden
    · rw [Store.Action.since_append, Store.Action.since_append, since_prepareActions,
        Store.Action.since_changes, hsettling, Player.playChanges, hstand.position, beginning]
      simp only [List.append_assoc]
      rfl

/-- What is animated stays so as long as nothing is done but to hurry. -/
theorem Animated.of_sameStand {slide : Slide} {step : Step}
    (h : Animated settings before p slide step) (hstand : SameStand p q)
    (hplay : q.isPlaying = p.isPlaying) (hplan : q.player.plan = p.player.plan) :
    Animated settings before q slide step where
  currentSlide := by rw [hstand.currentSlide?, h.currentSlide]
  currentStep := by rw [hstand.currentStep?, h.currentStep]
  made := by
    rw [hplan, hstand.position, hplay]
    exact h.made

/-- Time that passes adds changes of the animation, and at its end the step's values. -/
theorem Animated.advance {slide : Slide} {step : Step} (h : Animated settings before p slide step)
    (hp : Consistent p) (hsound : p.player.Sound) (hplay : p.isPlaying = true) {store : Store}
    (hstore : p.store = some store) (dt : Float) :
    Animated settings (before ++ (p.player.advanceChanges dt store ++
      p.settling (p.player.advance dt store).1.state)) (p.continued (p.player.advance dt store))
      slide step := by
  obtain ⟨played, hdriven, hmade⟩ := h.made
  rw [hplay, if_pos rfl, List.append_nil] at hmade
  have hstand := advance_sameStand hstore dt
  have hsettling := settling_eq h.currentStep (hp.advance_progress hplay dt store)
  refine ⟨?_, ?_, played ++ p.player.advanceChanges dt store, ?_, ?_⟩
  · rw [hstand.currentSlide?, h.currentSlide]
  · rw [hstand.currentStep?, h.currentStep]
  · rw [continued_player, Player.advance_plan]
    exact hdriven.append (hsound.driven_advanceChanges dt store)
  · rw [hsettling, hmade, hstand.position, isPlaying, continued_player]
    simp only [List.append_assoc]

/-! ## Along runs -/

/-- The player is sound, and while it plays the current step is animated. -/
structure Plays (settings : Settings) (made : List Change) (p : Presentation) : Prop where
  sound : p.player.Sound
  animated : p.isPlaying = true → ∃ slide step, Animated settings made p slide step

theorem Shown.sound (h : Shown p q es actions) (hsound : p.player.Sound) : q.player.Sound := by
  cases h with
  | still _ _ _ _ _ _ hplayer =>
    rw [hplayer]
    exact hsound
  | animated _ _ _ _ _ _ _ _ left hleft hplayer =>
    rw [hplayer, hleft]
    exact Player.Sound.play _ _ _

theorem sound_stopPlayback (hsound : p.player.Sound) : p.stopPlayback.player.Sound := by
  unfold stopPlayback
  split
  · split
    · rename_i store _
      exact Player.Sound.stop store
    · exact hsound
  · exact hsound

theorem Moved.sound {r : Presentation} (h : Moved p r) (hsound : p.player.Sound) :
    r.player.Sound := by
  rw [h.player]
  exact sound_stopPlayback hsound

theorem Effect.sound (h : Effect p q es actions d?) (hsound : p.player.Sound) :
    q.player.Sound := by
  cases h with
  | idle _ _ _ hplayer =>
    rcases hplayer with hplayer | hplayer
    · rw [hplayer]
      exact hsound
    · rw [hplayer]
      exact hsound.fastForward
  | played store dt =>
    rw [continued_player]
    exact hsound.advance dt store
  | stopped => exact sound_stopPlayback hsound
  | failed => exact hsound
  | requested r _ _ _ hmoved =>
    have hr := hmoved.sound hsound
    exact hr
  | shown r _ _ _ _ hmoved _ hshown =>
    have hr := hmoved.sound hsound
    exact hshown.sound hr
  | delivered _ _ _ _ _ _ hshown => exact hshown.sound hsound

/-- Where an animation runs on or has just come to its end, it was animated from its
    beginning. -/
theorem Effect.animated_of_lively {handed : Option Scene} (he : Effect p q es actions handed)
    (h : Consistent p) (hsettings : p.player.settings = settings)
    (hplays : Plays settings before p) (hlively : Lively q es) :
    ∃ slide step, Animated settings
      (Store.Action.since (if handed.isSome then [] else before) actions) q slide step := by
  cases he with
  | idle _ hstand hstore hplayer =>
    obtain ⟨hplay, _, hplan⟩ := idle_of_player hplayer
    rcases hlively with hplaying | ⟨_, hmem⟩
    · obtain ⟨slide, step, hanimated⟩ := hplays.animated (hplay ▸ hplaying)
      exact ⟨slide, step, hanimated.of_sameStand hstand hplay hplan⟩
    · cases hmem
  | played store dt hstore hplay =>
    obtain ⟨slide, step, hanimated⟩ := hplays.animated hplay
    refine ⟨slide, step, ?_⟩
    rw [Store.Action.since_changes]
    exact hanimated.advance h hplays.sound hplay hstore dt
  | stopped =>
    refine absurd hlively (not_lively h.isPlaying_stopPlayback fun _ hmem => ?_)
    cases hmem
  | failed slide animated message hphase =>
    refine absurd hlively (not_lively (h.quiet_of_loading hphase) fun _ hmem => ?_)
    cases List.mem_singleton.1 hmem
  | requested r _ _ _ hmoved =>
    refine absurd hlively (not_lively hmoved.quiet fun _ hmem => ?_)
    cases List.mem_singleton.1 hmem
  | shown r animated _ actions _ hmoved _ hshown =>
    rw [← hsettings, ← hmoved.settings, Store.Action.since_append]
    exact hshown.animated_of_lively (showStep_sameStand _ animated) hmoved.quiet hlively
  | delivered slide' animated scene es actions hphase hshown =>
    have hquiet := h.quiet_of_loading hphase
    rw [← hsettings]
    refine hshown.animated_of_lively (showStep_sameStand _ animated) hquiet ?_
    rcases hlively with hplay | ⟨position, hmem⟩
    · exact .inl hplay
    · rcases List.mem_cons.1 hmem with hmem | hmem
      · cases hmem
      · exact .inr ⟨position, hmem⟩

theorem Plays.run (h : Consistent p) (hsettings : p.player.settings = settings)
    (hplays : Plays settings before p) (o : Operation) :
    Plays settings (o.made p before) (o.run p) := by
  have heffect := h.run_effect o
  exact ⟨heffect.sound hplays.sound, fun hplay =>
    heffect.animated_of_lively h hsettings hplays (.inl hplay)⟩

theorem Plays.runAll (h : Consistent p) (hsettings : p.player.settings = settings)
    (hplays : Plays settings before p) (os : List Operation) :
    Plays settings (p.made before os) (p.runAll os) := by
  induction os generalizing p before with
  | nil => exact hplays
  | cons o os ih =>
    exact ih (h.run o) ((h.run_effect o).topic_settings.2.trans hsettings)
      (hplays.run h hsettings o)

theorem plays_new (h : new topic settings = .ok p) : Plays settings [] p := by
  unfold new at h
  split at h
  · cases h
  · cases h
    refine ⟨Player.sound_new settings, fun hplay => ?_⟩
    cases hplay

end Presentation

end Slideshow

/-
  Slideshow.Proofs.Presentation.History

  What is shown does not depend on what was shown before. As long as all changes are plain,
  the store stays faithful to the diagram that was handed over last, whatever operations
  follow one another; so a step that is shown without animation looks as it does on the same
  diagram freshly captured. The main statement is `still_show_independent`.
-/
import Slideshow.Proofs.Presentation.Outcome

namespace Slideshow

/-! ## Tidy runs -/

/-- An operation that makes plain changes only, on the diagram that it hands over or else on
    the one handed over before; and where a diagram is captured, its dynamic texts are not
    spread over elements inside. -/
def Operation.Tidy (o : Operation) (p : Presentation) (before : Option Scene) : Prop :=
  (∀ d, o.handed? p = some d →
    ∀ key ∈ (Store.dynamicTexts p.player.settings.dynamic d).keys, d.TextOnly key) ∧
  ∀ d, (o.handed? p).or before = some d → ∀ action ∈ o.actions p, action.Plain d

instance (o : Operation) (p : Presentation) (before : Option Scene) :
    Decidable (o.Tidy p before) :=
  inferInstanceAs (Decidable ((∀ d, d ∈ o.handed? p →
    ∀ key ∈ (Store.dynamicTexts p.player.settings.dynamic d).keys, d.TextOnly key) ∧
    ∀ d, d ∈ (o.handed? p).or before → ∀ action ∈ o.actions p, action.Plain d))

namespace Presentation

variable {p q : Presentation} {topic : Topic} {settings : Settings} {d? : Option Scene}

/-- A run of tidy operations. -/
def Tidy (p : Presentation) (before : Option Scene) : List Operation → Prop
  | [] => True
  | o :: os => o.Tidy p before ∧ (o.run p).Tidy ((o.handed? p).or before) os

instance decidableTidy :
    (p : Presentation) → (before : Option Scene) → (os : List Operation) →
      Decidable (p.Tidy before os)
  | _, _, [] => .isTrue trivial
  | p, before, o :: os =>
    have := decidableTidy (o.run p) ((o.handed? p).or before) os
    inferInstanceAs (Decidable (o.Tidy p before ∧ _))

theorem tidy_append {before : Option Scene} {os os' : List Operation} :
    p.Tidy before (os ++ os') ↔
      p.Tidy before os ∧ (p.runAll os).Tidy (p.attached before os) os' := by
  induction os generalizing p before with
  | nil => simp only [List.nil_append, Tidy, true_and, runAll, List.foldl_nil, attached]
  | cons o os ih => simp only [List.cons_append, Tidy, ih, and_assoc, runAll_cons, attached]

theorem attached_append {before : Option Scene} {os os' : List Operation} :
    p.attached before (os ++ os') = (p.runAll os).attached (p.attached before os) os' := by
  induction os generalizing p before with
  | nil => rfl
  | cons o os ih => exact ih

/-! ## What operations keep -/

/-- A store that is faithful to the diagram handed over last, and captures as the settings
    say. -/
def Kept (settings : Settings) (d? : Option Scene) (s : Store) : Prop :=
  s.rule = settings.dynamic ∧ ∃ d, d? = some d ∧ Store.Faithful d s

theorem Kept.performAll {s : Store} (h : Kept settings d? s) {actions : List Store.Action}
    (hplain : ∀ d, d? = some d → ∀ action ∈ actions, action.Plain d) :
    Kept settings d? (s.performAll actions) := by
  obtain ⟨hrule, d, hd, hfaithful⟩ := h
  exact ⟨(s.performAll_rule actions).trans hrule, d, hd, hfaithful.performAll (hplain d hd)⟩

/-- A presentation of a topic that keeps its diagram. -/
structure Keeps (topic : Topic) (settings : Settings) (d? : Option Scene) (p : Presentation) :
    Prop where
  consistent : Consistent p
  sameTopic : p.topic = topic
  sameSettings : p.player.settings = settings
  kept : ∀ s, p.store = some s → Kept settings d? s

/-- No operation changes the topic or the settings. -/
theorem Effect.topic_settings {es : List Event} {actions : List Store.Action}
    (h : Effect p q es actions d?) : q.topic = p.topic ∧ q.player.settings = p.player.settings := by
  cases h with
  | idle _ hstand => exact ⟨hstand.topic, hstand.settings⟩
  | played store dt hstore =>
    exact ⟨(advance_sameStand hstore dt).topic, (advance_sameStand hstore dt).settings⟩
  | stopped => exact ⟨(stopPlayback_sameStand p).topic, (stopPlayback_sameStand p).settings⟩
  | failed => exact ⟨rfl, rfl⟩
  | requested r _ _ _ hmoved => exact ⟨hmoved.topic, hmoved.settings⟩
  | shown r animated _ _ _ hmoved =>
    have hstand := showStep_sameStand { r with phase := .ready } animated
    exact ⟨hstand.topic.trans hmoved.topic, hstand.settings.trans hmoved.settings⟩
  | delivered slide animated scene =>
    have hstand := showStep_sameStand (p.delivered slide scene) animated
    exact ⟨hstand.topic, hstand.settings⟩

/-- A diagram is captured as the settings say. -/
theorem Keeps.delivered (h : Keeps topic settings d? p) (slide : Nat) (scene : Scene) :
    (p.delivered slide scene).store = some (Store.capture settings.dynamic scene) := by
  cases hstore : p.store with
  | none => simp only [Presentation.delivered, hstore, emit_store, h.sameSettings]
  | some s =>
    simp only [Presentation.delivered, hstore, emit_store, Store.replace, (h.kept s hstore).1]

/-- A tidy operation begins with a store that is kept. -/
theorem Keeps.base (h : Keeps topic settings d? p) {o : Operation} (ho : o.Tidy p d?) :
    ∀ s, o.base p = some s → Kept settings ((o.handed? p).or d?) s := by
  intro s hs
  unfold Operation.base at hs
  split at hs
  · rename_i scene hscene
    rw [h.delivered, Option.some.injEq] at hs
    subst hs
    have hdynamic := ho.1 scene hscene
    rw [h.sameSettings] at hdynamic
    exact ⟨rfl, scene, by rw [hscene]; rfl, Store.faithful_capture hdynamic⟩
  · rename_i hscene
    rw [hscene, Option.none_or]
    exact h.kept s hs

theorem Keeps.run (h : Keeps topic settings d? p) {o : Operation} (ho : o.Tidy p d?) :
    Keeps topic settings ((o.handed? p).or d?) (o.run p) := by
  have hsame := (h.consistent.run_effect o).topic_settings
  refine ⟨h.consistent.run o, hsame.1.trans h.sameTopic, hsame.2.trans h.sameSettings, ?_⟩
  intro s hs
  -- all that happens to the store are the actions of the operation
  rw [run_store] at hs
  obtain ⟨s', hs', rfl⟩ := Option.map_eq_some_iff.1 hs
  exact (h.base ho s' hs').performAll ho.2

theorem Keeps.runAll (h : Keeps topic settings d? p) {os : List Operation} (hos : p.Tidy d? os) :
    Keeps topic settings (p.attached d? os) (p.runAll os) := by
  induction os generalizing p d? with
  | nil => exact h
  | cons o os ih => exact ih (h.run hos.1) hos.2

theorem keeps_new (h : new topic settings = .ok p) : Keeps topic settings none p := by
  have hconsistent := consistent_new h
  unfold new at h
  split at h
  · cases h
  · cases h
    exact ⟨hconsistent, rfl, rfl, fun _ hs => by cases hs⟩

/-! ## Steps shown without animation -/

theorem plain_hiding (tokens : List TokenSlot) (d : Scene) :
    ∀ ch ∈ TokenSlot.hiding tokens, ch.Plain d := by
  intro ch hch
  obtain ⟨t, _, rfl⟩ := List.mem_map.1 hch
  intro _
  simp

theorem Keeps.kept_stopPlayback (h : Keeps topic settings d? p) :
    ∀ s, p.stopPlayback.store = some s → Kept settings d? s := by
  intro s hs
  rw [store_stopPlayback] at hs
  obtain ⟨s', hs', rfl⟩ := Option.map_eq_some_iff.1 hs
  refine (h.kept s' hs').performAll fun d _ action haction => ?_
  unfold stopActions at haction
  split at haction
  · obtain ⟨ch, hch, rfl⟩ := List.mem_map.1 haction
    exact plain_hiding _ d ch hch
  · cases haction

theorem plain_of_prepareActions {d : Scene} {slide : Slide} {step : Step} {count : Nat}
    (h : ∀ action ∈ prepareActions settings slide step count, action.Plain d) :
    ∀ ch ∈ preparing settings slide step count, ch.Plain d := fun _ hch =>
  h _ (List.mem_cons_of_mem _ (List.mem_map_of_mem hch))

/-- A presentation shows a step without animation on a store that is faithful to a diagram. -/
structure Prepared (topic : Topic) (settings : Settings) (d : Scene) (position : Position)
    (slide : Slide) (step : Step) (store : Store) (q : Presentation) : Prop where
  faithful : Store.Faithful d store
  rule : store.rule = settings.dynamic
  ofTopic : topic.slide? position.slide = some slide
  ofSlide : slide.steps[position.step]? = some step
  shown : q.store = some (prepare settings slide step (position.step + 1) store)
  plain : ∀ ch ∈ preparing settings slide step (position.step + 1), ch.Plain d

/-- A step shown without animation is prepared on the store, and nothing else is done. -/
theorem Shown.prepared {es : List Event} {actions : List Store.Action} (h : Shown p q es actions)
    (htopic : p.topic = topic) (hsettings : p.player.settings = settings)
    (hkept : ∀ s, p.store = some s → Kept settings d? s)
    (hplain : ∀ d, d? = some d → ∀ action ∈ actions, action.Plain d)
    {position : Position} {progress : Progress} {caption : Caption}
    (hshown : .stepShown position progress caption false ∈ es) :
    ∃ d slide step store, d? = some d ∧ Prepared topic settings d position slide step store q := by
  subst htopic hsettings
  cases h with
  | still store slide step hstore hslide hstep hplayer hq =>
    cases List.mem_singleton.1 hshown
    obtain ⟨hrule, d, hd, hfaithful⟩ := hkept store hstore
    simp only [currentStep?, Topic.step?] at hstep
    rw [← currentSlide?, hslide, Option.bind_some] at hstep
    exact ⟨d, slide, step, store, hd, hfaithful, hrule, hslide, hstep, hq,
      plain_of_prepareActions (hplain d hd)⟩
  | animated =>
    -- what is shown here is animated, and all other events are completions
    rcases List.mem_cons.1 hshown with h | h
    · cases h
    · obtain ⟨_, _, heq⟩ := eq_of_mem_completion h
      cases heq

/-- An operation that shows a step without animation prepares it on a faithful store. -/
theorem Keeps.prepared (h : Keeps topic settings d? p) {o : Operation} (ho : o.Tidy p d?)
    {position : Position} {progress : Progress} {caption : Caption}
    (hshown : .stepShown position progress caption false ∈ o.emitted p) :
    ∃ d slide step store, (o.handed? p).or d? = some d ∧
      Prepared topic settings d position slide step store (o.run p) := by
  have heffect := h.consistent.run_effect o
  obtain ⟨hdynamic, hactions⟩ := ho
  generalize o.handed? p = handed at heffect hactions hdynamic ⊢
  generalize o.actions p = actions at heffect hactions
  generalize o.emitted p = es at heffect hshown
  generalize o.run p = q at heffect ⊢
  cases heffect with
  | idle => cases hshown
  | played store dt =>
    obtain ⟨_, _, heq⟩ := eq_of_mem_completion hshown
    cases heq
  | stopped => cases hshown
  | failed => cases List.mem_singleton.1 hshown
  | requested => cases List.mem_singleton.1 hshown
  | shown r animated _ actions _ hmoved _ hstep =>
    -- the store at which the playback was stopped is kept
    have hkept : ∀ s, r.store = some s → Kept settings d? s := fun s hs =>
      h.kept_stopPlayback s (hmoved.store ▸ hs)
    rw [Option.none_or] at hactions ⊢
    exact hstep.prepared (hmoved.topic.trans h.sameTopic) (hmoved.settings.trans h.sameSettings)
      hkept (fun d hd action haction => hactions d hd action (List.mem_append_right _ haction))
      hshown
  | delivered slide' animated scene es actions hphase hstep =>
    have hkept : ∀ s, (p.delivered slide' scene).store = some s →
        Kept settings (some scene) s := by
      intro s hs
      rw [h.delivered, Option.some.injEq] at hs
      subst hs
      have hdynamic' := hdynamic scene rfl
      rw [h.sameSettings] at hdynamic'
      exact ⟨rfl, scene, rfl, Store.faithful_capture hdynamic'⟩
    rcases List.mem_cons.1 hshown with hloaded | hshown
    · cases hloaded
    · exact hstep.prepared h.sameTopic h.sameSettings hkept hactions hshown

/-! ## Independence -/

/-- Whatever was shown, played, stopped or hurried before, a step that is shown without
    animation looks as it does on the same diagram freshly captured: every element has the
    same text and the same attributes, and the camera shows the same. -/
theorem still_show_independent {start : Presentation} (hstart : new topic settings = .ok start)
    (os : List Operation) (o : Operation) (htidy : start.Tidy none (os ++ [o]))
    {position : Position} {progress : Progress} {caption : Caption}
    (hshown : .stepShown position progress caption false ∈ o.emitted (start.runAll os)) :
    ∃ d slide step store, start.attached none (os ++ [o]) = some d ∧
      topic.slide? position.slide = some slide ∧ slide.steps[position.step]? = some step ∧
      (start.runAll (os ++ [o])).store = some store ∧
      let fresh := prepare settings slide step (position.step + 1)
        (Store.capture settings.dynamic d)
      (∀ key, store.scene.text? key = fresh.scene.text? key) ∧
      (∀ key name, store.scene.attribute? key name = fresh.scene.attribute? key name) ∧
      store.scene.viewport? = fresh.scene.viewport? := by
  rw [tidy_append] at htidy
  have hkeeps := (keeps_new hstart).runAll htidy.1
  obtain ⟨d, slide, step, store, hd, hprepared⟩ := hkeeps.prepared htidy.2.1 hshown
  have hcapture : Store.Faithful d (Store.capture settings.dynamic d) := by
    rw [← hprepared.rule]
    exact hprepared.faithful.capture
  have halike := prepare_alike hprepared.faithful hcapture hprepared.plain
  refine ⟨d, slide, step, _, ?_, hprepared.ofTopic, hprepared.ofSlide, ?_, halike.text?,
    halike.attribute?, halike.viewport?⟩
  · rw [attached_append]
    exact hd
  · rw [runAll_append]
    exact hprepared.shown

/-- Going back from an interrupted animation shows the first step as if nothing had been
    played. -/
theorem still_show_independent_demo :
    ∃ start, new .demo .usual = .ok start ∧
      let os : List Operation := [.attach 0 .demo, .intent .nextStep, .tick 0.25, .intent .nextStep]
      start.Tidy none (os ++ [.intent .previousStep]) ∧
      ∃ d slide step store, start.attached none (os ++ [.intent .previousStep]) = some d ∧
        Topic.demo.slide? 0 = some slide ∧ slide.steps[0]? = some step ∧
        (start.runAll (os ++ [.intent .previousStep])).store = some store ∧
        let fresh := prepare .usual slide step 1 (Store.capture Settings.usual.dynamic d)
        ∀ key, store.scene.text? key = fresh.scene.text? key := by
  have hrun : ∃ start, new .demo .usual = .ok start ∧
      start.Tidy none [.attach 0 .demo, .intent .nextStep, .tick 0.25, .intent .nextStep,
        .intent .previousStep] ∧
      .stepShown ⟨0, 0⟩ ⟨1, 2, 1, 2⟩ ⟨"FETCH", none, "", none, none, none⟩ false ∈
        (Operation.intent .previousStep).emitted (start.runAll [.attach 0 .demo,
          .intent .nextStep, .tick 0.25, .intent .nextStep]) :=
    ⟨_, rfl, by decide +kernel, by decide +kernel⟩
  obtain ⟨start, hstart, htidy, hshown⟩ := hrun
  obtain ⟨d, slide, step, store, hd, hslide, hstep, hstore, htext, _⟩ :=
    still_show_independent hstart [.attach 0 .demo, .intent .nextStep, .tick 0.25,
      .intent .nextStep] (.intent .previousStep) htidy hshown
  exact ⟨start, hstart, htidy, d, slide, step, store, hd, hslide, hstep, hstore, htext⟩

end Presentation

end Slideshow

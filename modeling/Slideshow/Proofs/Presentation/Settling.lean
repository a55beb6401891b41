/-
  Slideshow.Proofs.Presentation.Settling

  How a step looks when its animation is complete, against how it looks after a jump to it.
  The animation begins in the state before the step, with the tokens hidden, and ends with
  the values that the step leaves behind; a jump gives the components their values all at
  once and marks the phase after that. The main statement, `settled_agrees_iff`, says for
  which slots the two agree.
-/
import Slideshow.Proofs.Presentation.Playing

namespace Slideshow

namespace Presentation

variable {p q : Presentation} {topic : Topic} {settings : Settings} {d? : Option Scene}
  {d : Scene} {es : List Event} {actions : List Store.Action} {before : List Change}

/-! ## At the end of an animation -/

theorem completed_of_progress {player : Player Position} {completed : Option Position}
    (h : Player.Progress (some p.position) player completed) {position : Position}
    (hmem : .animationCompleted position ∈ (completed.map Event.animationCompleted).toList) :
    p.position = position ∧ player.isPlaying = false := by
  cases h with
  | running => cases hmem
  | complete hstate =>
    cases List.mem_singleton.1 hmem
    exact ⟨rfl, Player.not_isPlaying_of_completed hstate⟩

theorem Shown.completed (h : Shown p q es actions) {position : Position}
    (hmem : .animationCompleted position ∈ es) : p.position = position ∧ q.isPlaying = false := by
  cases h with
  | still => cases List.mem_singleton.1 hmem
  | animated _ _ _ step _ _ _ _ left hleft hplayer =>
    rcases List.mem_cons.1 hmem with hmem | hmem
    · cases hmem
    · rw [isPlaying, hplayer]
      exact completed_of_progress (progress_of_play hleft) hmem

/-- When an animation is said to be complete, it is that of the current position, and the
    presentation rests. -/
theorem Effect.completed {handed : Option Scene} (h : Consistent p)
    (he : Effect p q es actions handed) {position : Position}
    (hmem : .animationCompleted position ∈ es) :
    q.position = position ∧ q.phase = .ready ∧ q.isPlaying = false := by
  cases he with
  | idle => cases hmem
  | played store dt hstore hplay =>
    have hstand := advance_sameStand hstore dt
    obtain ⟨hposition, hquiet⟩ := completed_of_progress (h.advance_progress hplay dt store) hmem
    rw [hstand.position, hstand.phase, isPlaying, continued_player]
    exact ⟨hposition, h.ready_of_isPlaying hplay, hquiet⟩
  | stopped => cases hmem
  | failed => cases List.mem_singleton.1 hmem
  | requested => cases List.mem_singleton.1 hmem
  | shown r animated _ _ _ _ _ hshown =>
    have hstand := showStep_sameStand { r with phase := .ready } animated
    obtain ⟨hposition, hquiet⟩ := hshown.completed hmem
    exact ⟨hstand.position.trans hposition, hstand.phase, hquiet⟩
  | delivered slide animated scene es _ _ hshown =>
    have hstand := showStep_sameStand (p.delivered slide scene) animated
    rcases List.mem_cons.1 hmem with hmem | hmem
    · cases hmem
    · obtain ⟨hposition, hquiet⟩ := hshown.completed hmem
      exact ⟨hstand.position.trans hposition, hstand.phase, hquiet⟩

/-! ## Jumping to the current step -/

/-- A jump to the current step is made, and it stays on the slide. -/
theorem goToStep?_current (q : Presentation) :
    ∃ n, q.navigation.goToStep? q.position.step = some (⟨.jump, false⟩, n) ∧
      n.position = q.position :=
  ⟨_, dif_pos q.navigation.valid, rfl⟩

section Jump

variable (h : Consistent q) (hphase : q.phase = .ready) (hquiet : q.isPlaying = false)
  {store : Store} {slide : Slide} {step : Step} (hstore : q.store = some store)
  (hslide : q.currentSlide? = some slide) (hstep : q.currentStep? = some step)
include h hphase hquiet hstore hslide hstep

/-- A jump to the current step prepares it. -/
theorem actions_goToCurrent :
    (Operation.intent (.goToStep q.position.step)).actions q =
      prepareActions q.player.settings slide step (q.position.step + 1) := by
  obtain ⟨n, hn, hposition⟩ := q.goToStep?_current
  have hsame : hasDiagram { q with navigation := n } = q.hasDiagram := by
    simp only [hasDiagram, diagramOf?, position, hposition]
  have hcurrentSlide : currentSlide? { q with navigation := n, phase := .ready } = some slide := by
    rw [← hslide]
    simp only [currentSlide?, position, hposition]
  have hcurrentStep : currentStep? { q with navigation := n, phase := .ready } = some step := by
    rw [← hstep]
    simp only [currentStep?, position, hposition]
  have hfollow : q.followActions (some (⟨.jump, false⟩, n)) false =
      prepareActions q.player.settings slide step (q.position.step + 1) := by
    have hshow := showActions_still (p := { q with navigation := n, phase := .ready }) hstore
      hcurrentSlide hcurrentStep
    simp only [followActions, hsame, h.present hphase, Bool.not_true, Bool.false_and,
      Bool.false_eq_true, if_false]
    rw [← hposition]
    exact hshow
  simp only [Operation.actions, moveActions, isLoading_eq_false_of_ready hphase,
    Bool.false_eq_true, if_false, stopActions_of_not_isPlaying hquiet,
    stopPlayback_of_not_isPlaying hquiet, List.nil_append, hn, hfollow]

/-- So nothing else was made of the diagram behind the jump. -/
theorem made_goToCurrent :
    Operation.made (.intent (.goToStep q.position.step)) q before =
      preparing q.player.settings slide step (q.position.step + 1) := by
  rw [Operation.made, actions_goToCurrent h hphase hquiet hstore hslide hstep,
    since_prepareActions]

end Jump

/-- A jump keeps the store. -/
theorem exists_store_goToStep {store : Store} (hstore : q.store = some store) (step : Nat) :
    ∃ jumped, (q.goToStep step).2.store = some jumped := by
  have hrun := store_intent q (.goToStep step)
  rw [hstore] at hrun
  exact ⟨_, hrun⟩

/-! ## Agreement -/

/-- A cell holds the same when the animation of a step is complete and after a jump to the
    step. What the step leaves in the cell, or else its animation and the hiding of tokens,
    must be what the jump gives; a cell that none of them writes to must show the same before
    and after the step. -/
def RestsAsJumped (settings : Settings) (slide : Slide) (step : Step) (index : Nat)
    (played : List Change) (d : Scene) (c : Cell) : Prop :=
  let jumped := Change.after? d (preparing settings slide step (index + 1)) c
  match (Change.last? d c step.finalState.changes).or
      (Change.last? d c (TokenSlot.hiding settings.tokens ++ played)) with
  | some value => jumped = value
  | none => jumped = Change.after? d (preparing settings slide step index) c

theorem restsAsJumped_iff {slide : Slide} {step : Step} {index : Nat} {played : List Change}
    {c : Cell} : RestsAsJumped settings slide step index played d c ↔
      Change.after? d (beginning settings slide step index ++ played ++ step.finalState.changes)
        c = Change.after? d (preparing settings slide step (index + 1)) c := by
  rw [beginning, List.append_assoc _ _ played, Change.after?_append, Change.after?_append,
    RestsAsJumped]
  cases Change.last? d c step.finalState.changes with
  | some value =>
    rw [Option.some_or, Option.getD_some]
    exact eq_comm
  | none =>
    rw [Option.none_or, Option.getD_none]
    cases Change.last? d c (TokenSlot.hiding settings.tokens ++ played) with
    | some value => exact eq_comm
    | none => exact eq_comm

/-- What a jump to a step gives to a cell: the marks of the phase lie over the values of the
    components. -/
theorem last?_preparing {slide : Slide} {step : Step} {count : Nat} {c : Cell}
    (hc : c ≠ .camera) : Change.last? d c (preparing settings slide step count) =
      (Change.last? d c ((settings.phaseIndicator.map fun p =>
        p.changes step.caption.phaseKind).getD [])).or
        (Change.last? d c (slide.overrides count).changes) := by
  have hcamera : (Change.camera settings.viewport.rect).cell? d ≠ some c :=
    fun heq => hc (Option.some.inj heq).symm
  rw [preparing, Change.last?_append, Change.last?, if_neg hcamera, Option.or_none]

/-- A cell that only one component writes to, and the marks of the phase do not, agrees when
    the step leaves a value in it. -/
theorem restsAsJumped_of_left (key : String) {slide : Slide} {step : Step} {index : Nat}
    {played : List Change} {c : Cell} {value : Option String} (hc : c ≠ .camera)
    (hstep : slide.steps[index]? = some step)
    (honly : ∀ e ∈ (slide.overrides (index + 1)).entries, e.1 ≠ key →
      Change.last? d c (e.2.changes e.1) = none)
    (hmarks : Change.last? d c ((settings.phaseIndicator.map fun p =>
      p.changes step.caption.phaseKind).getD []) = none)
    (hleft : Change.last? d c step.finalState.changes = some value) :
    RestsAsJumped settings slide step index played d c := by
  have hmerge : ∀ k, (slide.overrides (index + 1)).get? k =
      (step.finalState.get? k).or ((slide.overrides index).get? k) := fun k => by
    rw [Slide.overrides_succ hstep, Dict.get?_merge]
  -- the step's own values are among the merged ones
  have honlyStep : ∀ e ∈ step.finalState.entries, e.1 ≠ key →
      Change.last? d c (e.2.changes e.1) = none := by
    intro e he hne
    have hget : step.finalState.get? e.1 = some e.2 := Dict.get?_eq_some_iff.2 he
    refine honly e (Dict.get?_eq_some_iff.1 ?_) hne
    rw [hmerge, hget, Option.some_or]
  rw [Dict.last?_changes honlyStep] at hleft
  obtain ⟨v, hv, hvalue⟩ := Option.bind_eq_some_iff.1 hleft
  have hjump : Change.last? d c (preparing settings slide step (index + 1)) = some value := by
    rw [last?_preparing hc, hmarks, Option.none_or, Dict.last?_changes honly, hmerge, hv,
      Option.some_or, Option.bind_some, hvalue]
  rw [RestsAsJumped, Dict.last?_changes honlyStep, hv, Option.bind_some, hvalue, Option.some_or]
  rw [Change.after?, hjump, Option.getD_some]

/-- Where the camera was moved, every slot of the diagram holds what was made of it. -/
theorem Keeps.slotValue? (h : Keeps topic settings d? q) (hdepicts : Depicts d? before q)
    (hd : d? = some d) {s : Store} (hs : q.store = some s) {frame : Rect}
    (hcamera : .camera frame ∈ before) {slot : Slot} (hslot : slot.Plain d) :
    s.slotValue? slot = (slot.cell? d).bind (Change.after? d before) := by
  obtain ⟨_, d', hd', hfaithful⟩ := h.kept s hs
  rw [hd] at hd'
  cases hd'
  cases hc : slot.cell? d with
  | none => exact Store.slotValue?_of_cell?_none hfaithful.skeleton hc
  | some c =>
    rw [Store.slotValue?_eq_cell? hfaithful.skeleton hslot hc, Option.bind_some]
    refine hdepicts s d hs hd c fun hcell => ?_
    subst hcell
    exact Change.isSome_last?_of_mem hcamera rfl

/-! ## A step at rest -/

/-- The animation of the current step has come to its end, and nothing was done since. -/
structure AtRest (topic : Topic) (settings : Settings) (d : Scene) (made : List Change)
    (q : Presentation) (slide : Slide) (step : Step) : Prop where
  keeps : Keeps topic settings (some d) q
  depicts : Depicts (some d) made q
  animated : Animated settings made q slide step
  phase : q.phase = .ready
  quiet : q.isPlaying = false

/-- When an animation is said to be complete in a tidy run, the current step is at rest. -/
theorem atRest_of_completed {start : Presentation} (hstart : new topic settings = .ok start)
    {os : List Operation} {o : Operation} {position : Position}
    (htidy : start.Tidy none (os ++ [o]))
    (hcompleted : .animationCompleted position ∈ o.emitted (start.runAll os)) :
    ∃ d slide step, start.attached none (os ++ [o]) = some d ∧
      (start.runAll (os ++ [o])).position = position ∧
      AtRest topic settings d (start.made [] (os ++ [o])) (start.runAll (os ++ [o])) slide
        step := by
  obtain ⟨hos, ho, _⟩ := tidy_append.1 htidy
  have hnew := keeps_new hstart
  have hkeeps := hnew.runAll hos
  have hdepicts := (depicts_none start).runAll hnew hos
  have hplays := (plays_new hstart).runAll hnew.consistent hnew.sameSettings os
  have heffect := hkeeps.consistent.run_effect o
  obtain ⟨slide, step, hanimated⟩ := heffect.animated_of_lively hkeeps.consistent
    hkeeps.sameSettings hplays (.inr ⟨position, hcompleted⟩)
  obtain ⟨hposition, hphase, hquiet⟩ := heffect.completed hkeeps.consistent hcompleted
  -- a diagram was handed over, since there is one to play on
  obtain ⟨settled, hsettled⟩ := Option.isSome_iff_exists.1
    (isSome_store_of_hasDiagram ((hkeeps.run ho).consistent.present hphase))
  obtain ⟨_, d, hd, _⟩ := (hkeeps.run ho).kept settled hsettled
  have hattached : start.attached none (os ++ [o]) = some d := by
    rw [attached_append]
    exact hd
  have hkept := hkeeps.run ho
  have hshows := hdepicts.run hkeeps ho
  rw [hd] at hkept hshows
  rw [made_append, runAll_append]
  exact ⟨d, slide, step, hattached, hposition, hkept, hshows, hanimated, hphase, hquiet⟩

section AtRest

variable {slide : Slide} {step : Step} (h : AtRest topic settings d before q slide step)
include h

/-- What was made of the diagram ends with the values that the step leaves behind. -/
theorem AtRest.made : ∃ played, Driven q.player.plan played ∧
    before =
      beginning settings slide step q.position.step ++ played ++ step.finalState.changes := by
  obtain ⟨played, hdriven, hmade⟩ := h.animated.made
  rw [h.quiet] at hmade
  exact ⟨played, hdriven, hmade⟩

theorem AtRest.slide_eq : topic.slide? q.position.slide = some slide := by
  rw [← h.keeps.sameTopic]
  exact h.animated.currentSlide

theorem AtRest.step_eq : slide.steps[q.position.step]? = some step := h.animated.step_eq

theorem AtRest.exists_store : ∃ settled, q.store = some settled :=
  Option.isSome_iff_exists.1 (isSome_store_of_hasDiagram (h.keeps.consistent.present h.phase))

/-- A slot at rest holds what was made of it. -/
theorem AtRest.slotValue? {settled : Store} (hsettled : q.store = some settled) {slot : Slot}
    (hslot : slot.Plain d) :
    settled.slotValue? slot = (slot.cell? d).bind (Change.after? d before) := by
  obtain ⟨played, _, hmade⟩ := h.made
  -- the camera was moved when the state before the step was prepared
  have hcamera : .camera settings.viewport.rect ∈ before := by
    have hmem := mem_preparing_camera settings slide step q.position.step
    rw [hmade]
    exact List.mem_append_left _ (List.mem_append_left _ (List.mem_append_left _ hmem))
  exact h.keeps.slotValue? h.depicts rfl hsettled hcamera hslot

/-- After a jump to the step a slot holds what the jump makes of it. -/
theorem AtRest.slotValue?_jumped
    (hjump : (Operation.intent (.goToStep q.position.step)).Tidy q (some d)) :
    ∃ jumped, (q.goToStep q.position.step).2.store = some jumped ∧ ∀ slot : Slot, slot.Plain d →
      jumped.slotValue? slot = (slot.cell? d).bind
        (Change.after? d (preparing settings slide step (q.position.step + 1))) := by
  obtain ⟨settled, hsettled⟩ := h.exists_store
  have hmade : Operation.made (.intent (.goToStep q.position.step)) q before =
      preparing q.player.settings slide step (q.position.step + 1) :=
    made_goToCurrent h.keeps.consistent h.phase h.quiet hsettled h.animated.currentSlide
      h.animated.currentStep
  have hkept := h.keeps.run hjump
  have hdepicts := h.depicts.run h.keeps hjump
  rw [hmade, h.keeps.sameSettings] at hdepicts
  obtain ⟨jumped, hjumped⟩ := exists_store_goToStep hsettled q.position.step
  have hcamera := mem_preparing_camera settings slide step (q.position.step + 1)
  exact ⟨jumped, hjumped, fun slot hslot =>
    hkept.slotValue? hdepicts rfl hjumped hcamera hslot⟩

end AtRest

/-- When the animation of a step has come to its end, and then the reader jumps to that same
    step, a slot holds the same before and after the jump exactly if its cell rests as jumped.
    The played changes are those made since the animation began: only cells that the step's
    tweens drive, and then the step's values on top. -/
theorem settled_agrees_iff {start : Presentation} (hstart : new topic settings = .ok start)
    (os : List Operation) (o : Operation) {position : Position}
    (htidy : start.Tidy none (os ++ [o, .intent (.goToStep position.step)]))
    (hcompleted : .animationCompleted position ∈ o.emitted (start.runAll os)) :
    let q := start.runAll (os ++ [o])
    ∃ d slide step settled jumped played,
      start.attached none (os ++ [o]) = some d ∧ topic.slide? position.slide = some slide ∧
      slide.steps[position.step]? = some step ∧ q.store = some settled ∧
      (q.goToStep position.step).2.store = some jumped ∧ Driven q.player.plan played ∧
      start.made [] (os ++ [o]) =
        beginning settings slide step position.step ++ played ++ step.finalState.changes ∧
      ∀ slot, slot.Plain d → (settled.slotValue? slot = jumped.slotValue? slot ↔
        ∀ c, slot.cell? d = some c →
          RestsAsJumped settings slide step position.step played d c) := by
  intro q
  rw [List.append_cons, tidy_append] at htidy
  obtain ⟨hsofar, hjump, _⟩ := htidy
  obtain ⟨d, slide, step, hd, hposition, hrest⟩ := atRest_of_completed hstart hsofar hcompleted
  subst hposition
  rw [hd] at hjump
  obtain ⟨settled, hsettled⟩ := hrest.exists_store
  obtain ⟨jumped, hjumped, hjumpedValue⟩ := hrest.slotValue?_jumped hjump
  obtain ⟨played, hdriven, hplayed⟩ := hrest.made
  refine ⟨d, slide, step, settled, jumped, played, hd, hrest.slide_eq, hrest.step_eq, hsettled,
    hjumped, hdriven, hplayed, fun slot hslot => ?_⟩
  rw [hrest.slotValue? hsettled hslot, hjumpedValue slot hslot]
  cases slot.cell? d with
  | none => simp
  | some c =>
    simp only [Option.bind_some, Option.some.injEq, forall_eq', restsAsJumped_iff]
    rw [hplayed]

/-- A step whose animation is skipped agrees with the jump to it where its cells rest so, as in
    the text that the step leaves behind. -/
theorem settled_agrees_iff_demo :
    ∃ start, new .demo .usual = .ok start ∧
      start.Tidy none [.attach 0 .demo, .intent .nextStep, .skip, .intent (.goToStep 1)] ∧
      .animationCompleted ⟨0, 1⟩ ∈
        Operation.skip.emitted (start.runAll [.attach 0 .demo, .intent .nextStep]) ∧
      let q := start.runAll [.attach 0 .demo, .intent .nextStep, .skip]
      ∃ d slide step settled jumped played,
        start.attached none [.attach 0 .demo, .intent .nextStep, .skip] = some d ∧
        Topic.demo.slide? 0 = some slide ∧ slide.steps[1]? = some step ∧
        q.store = some settled ∧ (q.goToStep 1).2.store = some jumped ∧
        Driven q.player.plan played ∧
        start.made [] [.attach 0 .demo, .intent .nextStep, .skip] =
          beginning .usual slide step 1 ++ played ++ step.finalState.changes ∧
        (∀ slot, slot.Plain d → (settled.slotValue? slot = jumped.slotValue? slot ↔
          ∀ c, slot.cell? d = some c → RestsAsJumped .usual slide step 1 played d c)) ∧
        settled.slotValue? (.text "val_x") = jumped.slotValue? (.text "val_x") := by
  have hrun : ∃ start, new .demo .usual = .ok start ∧
      start.Tidy none [.attach 0 .demo, .intent .nextStep, .skip, .intent (.goToStep 1)] ∧
      .animationCompleted ⟨0, 1⟩ ∈
        Operation.skip.emitted (start.runAll [.attach 0 .demo, .intent .nextStep]) ∧
      start.attached none [.attach 0 .demo, .intent .nextStep, .skip] = some .demo :=
    ⟨_, rfl, by decide +kernel, by decide +kernel, rfl⟩
  obtain ⟨start, hstart, htidy, hcompleted, hattached⟩ := hrun
  obtain ⟨d, slide, step, settled, jumped, played, hd, hslide, hstep, hsettled, hjumped, hdriven,
    hmade, hagree⟩ := @settled_agrees_iff .demo .usual start hstart
      [.attach 0 .demo, .intent .nextStep] .skip ⟨0, 1⟩ htidy hcompleted
  have htext : settled.slotValue? (.text "val_x") = jumped.slotValue? (.text "val_x") := by
    cases hattached.symm.trans hd
    cases hslide
    cases hstep
    -- no other component writes to the text, and no mark of a phase
    have hplain : Scene.demo.TextOnly "val_x" := by decide +kernel
    refine (hagree (.text "val_x") hplain).2 fun c hc => ?_
    cases hc
    exact restsAsJumped_of_left "val_x" (by decide) rfl (by decide +kernel) (by decide +kernel) rfl
  exact ⟨start, hstart, htidy, hcompleted, d, slide, step, settled, jumped, played, hd, hslide,
    hstep, hsettled, hjumped, hdriven, hmade, hagree, htext⟩

end Presentation

/-! ## A marked background -/

/-- A presentation of one step that gives a color to the background of another phase. -/
def Topic.marked : Topic where
  id := "marked"
  title := "Marked"
  slides := [
    { id := "s", title := "S", diagram := "d", components := .empty
      steps := [
        ⟨"a", ⟨"DECODE", none, "Marked", none, none, none⟩, [.wait none, .setValue "val_x" "2"],
          .ofList [("val_x", .text "2"),
            ("phase-bg-fetch", .attributes (.ofList [("fill", "red")]))]⟩] }]

/-- A diagram with a text and the background of a phase. -/
def Scene.marked : Scene where
  namespaces := []
  tag := ⟨none, "svg", [("viewBox", "0 0 10 10")]⟩
  children := [
    .element ⟨some "phase-bg-fetch", "rect", [("id", "phase-bg-fetch"), ("fill", "blue")]⟩ [],
    .element ⟨some "val_x", "text", [("id", "val_x")]⟩ [.text "1"]]
  detached := []

namespace Presentation

/-- What a step leaves in the background of a phase lies over the mark when the animation is
    complete, and under it after a jump. -/
theorem settled_disagrees_marked :
    ∃ start, new .marked .usual = .ok start ∧
      .animationCompleted ⟨0, 0⟩ ∈
        Operation.skip.emitted (start.runAll [.attach 0 .marked, .intent .replay]) ∧
      let q := start.runAll [.attach 0 .marked, .intent .replay, .skip]
      let slot := Slot.attribute "phase-bg-fetch" "fill"
      (q.store.bind fun settled => settled.slotValue? slot) = some "red" ∧
        ((q.goToStep 0).2.store.bind fun jumped => jumped.slotValue? slot) =
          some "transparent" := by
  refine ⟨_, rfl, ?_, ?_, ?_⟩
  · decide +kernel
  · decide +kernel
  · decide +kernel

end Presentation

end Slideshow

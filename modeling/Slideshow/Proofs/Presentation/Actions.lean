/-
  Slideshow.Proofs.Presentation.Actions

  Everything that operations do to the store, written down: each part of an operation has its
  list of actions, resets and single changes in their order, and the store behind an operation
  is the store before it with these actions performed (`run_store`).
-/
import Slideshow.Proofs.Presentation.Control
import Slideshow.Proofs.Store.Faithful
import Slideshow.Proofs.Timeline.Changes

namespace Slideshow

/-- The changes that a play makes before any time has passed. -/
def Player.playChanges {κ : Type} (p : Player κ) (ds : List (Directive Float)) (request : κ)
    (s : Store) : List Change :=
  let hidden := hideTokens p.settings.tokens s
  TokenSlot.hiding p.settings.tokens ++ (p.begun ds request hidden).advanceChanges 0 hidden

theorem Player.store_play {κ : Type} (p : Player κ) (ds : List (Directive Float)) (request : κ)
    (s : Store) : (p.play ds request s).2.1 = Stage.makeAll s (p.playChanges ds request s) := by
  rw [play_eq, advance_eq, playChanges, Stage.makeAll_append, ← Store.hideTokens_eq]

namespace Presentation

variable {p : Presentation}

/-! ## Preparing -/

/-- The changes that put a fresh diagram into the state after the first `count` steps of a
    slide, with the camera at its default frame and the phase of a step marked. -/
def preparing (settings : Settings) (slide : Slide) (step : Step) (count : Nat) : List Change :=
  (slide.overrides count).changes ++ .camera settings.viewport.rect ::
    (settings.phaseIndicator.map fun p => p.changes step.caption.phaseKind).getD []

theorem prepare_eq (settings : Settings) (slide : Slide) (step : Step) (count : Nat) (s : Store) :
    prepare settings slide step count s =
      Stage.makeAll s.reset (preparing settings slide step count) := by
  rw [preparing, Stage.makeAll_append, ← Store.apply_eq, Stage.makeAll_cons]
  unfold prepare
  cases settings.phaseIndicator with
  | none => rfl
  | some indicator => exact Store.applyIndicator_eq _ indicator step.caption.phaseKind

theorem mem_preparing_camera (settings : Settings) (slide : Slide) (step : Step) (count : Nat) :
    .camera settings.viewport.rect ∈ preparing settings slide step count :=
  List.mem_append_right _ List.mem_cons_self

/-- Preparing moves the camera, so every cell is either written or as it was captured. -/
theorem cell?_prepare {d : Scene} {s : Store} (h : Store.Faithful d s) {settings : Settings}
    {slide : Slide} {step : Step} {count : Nat}
    (hplain : ∀ ch ∈ preparing settings slide step count, ch.Plain d) :
    (prepare settings slide step count s).scene.skeleton = d.skeleton ∧
      ∀ c, (prepare settings slide step count s).scene.cell? c =
        (Change.last? d c (preparing settings slide step count)).getD (d.cell? c) := by
  obtain ⟨hskel, hreset⟩ := h.cell?_reset
  obtain ⟨hskel', hmade⟩ := Scene.cell?_makeAll hplain _ hskel
  rw [prepare_eq, Store.makeAll_scene]
  refine ⟨hskel', fun c => ?_⟩
  rw [hmade]
  by_cases hc : c = .camera
  · -- a reset leaves the camera where it is, but then it is moved
    subst hc
    have hmem := mem_preparing_camera settings slide step count
    exact Change.last?_getD_of_isSome (Change.isSome_last?_of_mem hmem rfl)
  · rw [hreset c hc]

/-- What is prepared does not depend on what was done to the store before. -/
theorem prepare_alike {d : Scene} {s t : Store} (hs : Store.Faithful d s) (ht : Store.Faithful d t)
    {settings : Settings} {slide : Slide} {step : Step} {count : Nat}
    (hplain : ∀ ch ∈ preparing settings slide step count, ch.Plain d) :
    Scene.Alike (prepare settings slide step count s).scene
      (prepare settings slide step count t).scene := by
  obtain ⟨hskel, hcells⟩ := cell?_prepare hs hplain
  obtain ⟨hskel', hcells'⟩ := cell?_prepare ht hplain
  exact ⟨hskel.trans hskel'.symm, fun c => (hcells c).trans (hcells' c).symm⟩

/-- The actions of preparing a diagram. -/
def prepareActions (settings : Settings) (slide : Slide) (step : Step) (count : Nat) :
    List Store.Action :=
  .reset :: (preparing settings slide step count).map .change

theorem performAll_prepareActions (settings : Settings) (slide : Slide) (step : Step)
    (count : Nat) (s : Store) :
    s.performAll (prepareActions settings slide step count) =
      prepare settings slide step count s := by
  rw [prepare_eq, ← Store.performAll_changes]
  rfl

/-! ## Actions of the parts of an operation -/

/-- The changes of the current step's values, made once its animation is complete. -/
def settling (p : Presentation) (state : Playback) : List Change :=
  if state = .completed then (p.currentStep?.map fun step => step.finalState.changes).getD []
  else []

/-- The diagram is as the player leaves it, with the values that the step leaves behind if
    the animation is complete. -/
theorem store_continued (left : Player Position × Store × Option Position) :
    (p.continued left).store = some (Stage.makeAll left.2.1 (p.settling left.1.state)) := by
  have hstep : (tell { p with player := left.1, store := some left.2.1 } left.2.2).currentStep? =
      p.currentStep? := by
    cases left.2.2 <;> rfl
  simp only [continued, settle, tell_player, tell_store, hstep, settling]
  split
  · cases p.currentStep? with
    | none => exact tell_store _
    | some step => exact congrArg some (Store.apply_eq _ step.finalState)
  · exact tell_store _

/-- The actions of showing the current step. -/
def showActions (p : Presentation) (animated : Bool) : List Store.Action :=
  match p.store, p.currentSlide?, p.currentStep? with
  | some store, some slide, some step =>
    prepareActions p.player.settings slide step (p.position.step + 1) ++
      if animated && !step.animations.isEmpty then
        -- what was prepared first is put back, and the animation begins before the step
        let before := prepare p.player.settings slide step p.position.step
          (prepare p.player.settings slide step (p.position.step + 1) store)
        prepareActions p.player.settings slide step p.position.step ++
          (p.player.playChanges step.animations p.position before ++
            p.settling (p.player.play step.animations p.position before).1.state).map .change
      else []
  | _, _, _ => []

/-- Without animation a step is only prepared. -/
theorem showActions_still {store : Store} {slide : Slide} {step : Step}
    (hstore : p.store = some store) (hslide : p.currentSlide? = some slide)
    (hstep : p.currentStep? = some step) :
    p.showActions false = prepareActions p.player.settings slide step (p.position.step + 1) := by
  simp only [showActions, hstore, hslide, hstep, Bool.false_and, Bool.false_eq_true, if_false,
    List.append_nil]

theorem store_showStep (p : Presentation) (animated : Bool) :
    (p.showStep animated).2.store = p.store.map fun s => s.performAll (p.showActions animated) := by
  cases hstore : p.store with
  | none => simp only [showStep, hstore, Option.map_none]
  | some store =>
    cases hslide : p.currentSlide? with
    | none =>
      simp only [showStep, showActions, hstore, hslide, Option.map_some]
      rfl
    | some slide =>
      cases hstep : p.currentStep? with
      | none =>
        simp only [showStep, showActions, hstore, hslide, hstep, Option.map_some]
        rfl
      | some step =>
        simp only [showStep, showActions, hstore, hslide, hstep, Option.map_some]
        rw [Store.performAll_append, performAll_prepareActions]
        split
        · -- the play on the state before the step, and at its end the step's values
          rw [animate_eq, store_continued, Store.performAll_append, performAll_prepareActions,
            Store.performAll_changes, Stage.makeAll_append, ← Player.store_play]
          rfl
        · rfl

/-- Without actions the store stays as it is. -/
theorem store_idle (p : Presentation) : p.store = p.store.map fun s => s.performAll [] := by
  cases p.store <;> rfl

/-- The actions of ending a running animation. -/
def stopActions (p : Presentation) : List Store.Action :=
  if p.isPlaying then (TokenSlot.hiding p.player.settings.tokens).map .change else []

theorem store_stopPlayback (p : Presentation) :
    p.stopPlayback.store = p.store.map fun s => s.performAll p.stopActions := by
  unfold stopPlayback stopActions
  split
  · cases hstore : p.store with
    | none => exact hstore
    | some store =>
      rw [Option.map_some, Store.performAll_changes, ← Store.hideTokens_eq]
      rfl
  · exact p.store_idle

/-- The actions of arriving where a move leads. -/
def followActions (p : Presentation) (move : Option (Move × Navigation)) (animated : Bool) :
    List Store.Action :=
  match move with
  | none => []
  | some (move, navigation) =>
    let p := { p with navigation }
    if !p.hasDiagram && (move.slideChanged || p.phase != .ready) then []
    else { p with phase := .ready }.showActions animated

theorem store_follow (p : Presentation) (move : Option (Move × Navigation)) (animated : Bool) :
    (p.follow move animated).2.store =
      p.store.map fun s => s.performAll (p.followActions move animated) := by
  cases move with
  | none => exact p.store_idle
  | some moved =>
    obtain ⟨m, n⟩ := moved
    simp only [follow, followActions]
    split
    · exact p.store_idle
    · exact store_showStep _ animated

/-- The actions of a move that ends a running animation. -/
def moveActions (p : Presentation) (move : Navigation → Option (Move × Navigation)) :
    List Store.Action :=
  if p.isLoading then []
  else p.stopActions ++ p.stopPlayback.followActions (move p.stopPlayback.navigation) false

theorem store_moveBy (p : Presentation) (move : Navigation → Option (Move × Navigation)) :
    (p.moveBy move).2.store = p.store.map fun s => s.performAll (p.moveActions move) := by
  unfold moveBy moveActions
  split
  · exact p.store_idle
  · rw [store_follow, store_stopPlayback, Option.map_map]
    simp only [Function.comp_def, Store.performAll_append]

/-- The actions of time that passes. -/
def tickActions (p : Presentation) (dt : Float) : List Store.Action :=
  match p.store with
  | some store =>
    if p.phase = .ready ∧ p.isPlaying then
      (p.player.advanceChanges dt store ++
        p.settling (p.player.advance dt store).1.state).map .change
    else []
  | none => []

theorem store_tick (p : Presentation) (dt : Float) :
    (p.tick dt).store = p.store.map fun s => s.performAll (p.tickActions dt) := by
  cases hstore : p.store with
  | none => simp only [tick, hstore, Option.map_none]
  | some store =>
    by_cases h : p.phase = .ready ∧ p.isPlaying = true
    · rw [tick_eq hstore h.1 h.2, store_continued]
      simp only [tickActions, hstore, if_pos h, Option.map_some, Store.performAll_changes,
        Stage.makeAll_append, ← Player.advance_eq]
    · simp only [tick, tickActions, hstore, if_neg h, Option.map_some]
      rfl

end Presentation

/-! ## Actions of operations -/

namespace Operation

/-- Everything that an operation does to the store, once a diagram that it hands over is
    captured. -/
def actions : Operation → Presentation → List Store.Action
  | intent .nextStep, p =>
    if p.isLoading || p.isPlaying then [] else p.followActions p.navigation.advanceStep? true
  | intent .previousStep, p => p.moveActions Navigation.retreatStep?
  | intent .nextSlide, p => p.moveActions Navigation.advanceSlide?
  | intent .previousSlide, p => p.moveActions Navigation.retreatSlide?
  | intent .restart, p => p.moveActions fun n => some n.restart
  | intent (.goToStep step), p => p.moveActions fun n => n.goToStep? step
  | intent .replay, p =>
    if p.phase = .ready then p.stopActions ++ p.stopPlayback.showActions true else []
  | tick dt, p => p.tickActions dt
  | skip, p => p.tickActions (1 / 0)
  | attach slide scene, p =>
    match p.phase with
    | .loading awaited animated =>
      if awaited = slide then (p.delivered slide scene).showActions animated else []
    | _ => []
  | _, _ => []

/-- The store that an operation begins with: a diagram that it hands over is captured first. -/
def base (o : Operation) (p : Presentation) : Option Store :=
  match o.handed? p with
  | some scene => (p.delivered p.position.slide scene).store
  | none => p.store

theorem actions_attach {p : Presentation} {slide : Nat} {animated : Bool}
    (h : p.phase = .loading slide animated) (scene : Scene) :
    (attach slide scene).actions p = (p.delivered slide scene).showActions animated := by
  simp only [actions, h, if_true]

theorem actions_of_not_awaited {p : Presentation} {slide : Nat} (h : p.awaited? ≠ some slide)
    (scene : Scene) : (attach slide scene).actions p = [] := by
  unfold Presentation.awaited? at h
  simp only [actions]
  split
  · -- another diagram is awaited
    rename_i awaited animated hphase
    rw [hphase] at h
    rw [if_neg fun heq => h (by rw [heq])]
  · rfl

end Operation

namespace Presentation

theorem store_intent (p : Presentation) (i : Intent) :
    (i.run p).2.store = p.store.map fun s => s.performAll ((Operation.intent i).actions p) := by
  cases i with
  | nextStep =>
    simp only [Intent.run, nextStep, Operation.actions]
    cases p.isLoading with
    | true => exact p.store_idle
    | false =>
      cases p.isPlaying with
      | true => exact p.store_idle
      | false => exact store_follow p _ true
  | previousStep => exact store_moveBy p _
  | nextSlide => exact store_moveBy p _
  | previousSlide => exact store_moveBy p _
  | restart => exact store_moveBy p fun n => some n.restart
  | goToStep step => exact store_moveBy p fun n => n.goToStep? step
  | replay =>
    simp only [Intent.run, replay, Operation.actions]
    split
    · rw [store_showStep, store_stopPlayback, Option.map_map]
      simp only [Function.comp_def, Store.performAll_append]
    · exact p.store_idle

theorem store_attach (p : Presentation) (slide : Nat) (scene : Scene) :
    (p.attach slide scene).2.store = ((Operation.attach slide scene).base p).map fun s =>
      s.performAll ((Operation.attach slide scene).actions p) := by
  by_cases hawaited : p.awaited? = some slide
  · -- the store that is acted upon is the captured one
    obtain ⟨animated, hphase⟩ := awaited?_eq_some_iff.1 hawaited
    have hbase : Operation.base (.attach slide scene) p = (p.delivered slide scene).store := by
      simp only [Operation.base, Operation.handed?, attach_eq hphase, if_true]
      rfl
    rw [hbase, Operation.actions_attach hphase, attach_eq hphase]
    exact store_showStep _ animated
  · have hbase : Operation.base (.attach slide scene) p = p.store := by
      simp only [Operation.base, Operation.handed?, attach_of_not_awaited hawaited,
        Bool.false_eq_true, if_false]
    rw [hbase, Operation.actions_of_not_awaited hawaited, attach_of_not_awaited hawaited]
    exact p.store_idle

/-- The store behind an operation is that before it, with all actions performed. -/
theorem run_store (o : Operation) (p : Presentation) :
    (o.run p).store = (o.base p).map fun s => s.performAll (o.actions p) := by
  cases o with
  | intent i => exact store_intent p i
  | tick dt => exact store_tick p dt
  | skip =>
    rw [Operation.run, skip]
    exact store_tick p _
  | attach slide scene => exact store_attach p slide scene
  | fail slide message =>
    rw [Operation.run, fail]
    split
    · exact p.store_idle
    · exact p.store_idle
  | takeEvents => exact p.store_idle
  | subscribe => exact p.store_idle
  | unsubscribe observer => exact p.store_idle

end Presentation

end Slideshow

/-
  Slideshow.Proofs.Presentation.Outcome

  What an operation can lead to. A presentation is consistent if it awaits the diagram of its
  current slide, or has it and may play, or has neither; and from a consistent presentation
  every operation has one of a few outcomes. The main statements are `Consistent.run_outcome`
  about intents, `Consistent.run_effect` about all operations, and `Consistent.run`, that
  operations keep consistency.
-/
import Slideshow.Proofs.Navigation.Moves
import Slideshow.Proofs.Presentation.Showing

namespace Slideshow

namespace Presentation

variable {p q r : Presentation}

/-! ## Consistent presentations -/

/-- The phase tells whether the diagram of the current slide is there, and only then an
    animation may be running, which then holds the position. -/
structure Consistent (p : Presentation) : Prop where
  steps : p.navigation.steps = p.topic.slides.map fun s => s.steps.length
  stored : p.loaded.isSome = true → p.store.isSome = true
  pending : p.player.pending = if p.isPlaying then some p.position else none
  awaits : ∀ slide animated, p.phase = .loading slide animated → slide = p.position.slide
  present : p.phase = .ready → p.hasDiagram = true
  absent : p.phase ≠ .ready → p.hasDiagram = false
  quiet : p.phase ≠ .ready → p.isPlaying = false

theorem isLoading_iff :
    p.isLoading = true ↔ ∃ slide animated, p.phase = .loading slide animated := by
  unfold isLoading awaited?
  cases p.phase <;> simp

theorem isLoading_eq_false_of_ready (h : p.phase = .ready) : p.isLoading = false := by
  simp [isLoading, awaited?, h]

theorem ne_ready_of_loading {slide : Nat} {animated : Bool}
    (h : p.phase = .loading slide animated) : p.phase ≠ .ready := by
  rw [h]
  exact LoadPhase.noConfusion

/-- Nothing plays while a diagram is awaited. -/
theorem Consistent.quiet_of_loading (h : Consistent p) {slide : Nat} {animated : Bool}
    (hphase : p.phase = .loading slide animated) : p.isPlaying = false :=
  h.quiet (ne_ready_of_loading hphase)

theorem Consistent.ready_of_isPlaying (h : Consistent p) (hplay : p.isPlaying = true) :
    p.phase = .ready := by
  refine Decidable.byContradiction fun hphase => ?_
  rw [h.quiet hphase] at hplay
  cases hplay

theorem isSome_store_of_hasDiagram (h : p.hasDiagram = true) : p.store.isSome = true := by
  simp only [hasDiagram, Bool.and_eq_true] at h
  exact h.1.1

/-- The diagram of the current slide has a name, which is the one loaded if it is there. -/
theorem loaded_of_hasDiagram (h : p.hasDiagram = true) :
    p.loaded = p.diagramOf? p.position.slide := by
  simp only [hasDiagram, Bool.and_eq_true, beq_iff_eq] at h
  exact h.2

/-- The current position is one of the topic. -/
theorem exists_current (h : p.navigation.steps = p.topic.slides.map fun s => s.steps.length) :
    ∃ slide step, p.currentSlide? = some slide ∧ p.currentStep? = some step ∧
      p.diagramOf? p.position.slide = some slide.diagram := by
  have hslide : p.position.slide < p.topic.slides.length := by
    have hlt := p.navigation.slide_lt
    rwa [h, List.length_map] at hlt
  have hcurrent : p.topic.slide? p.position.slide = some p.topic.slides[p.position.slide] :=
    List.getElem?_eq_getElem hslide
  have hstep : p.position.step < p.topic.slides[p.position.slide].steps.length := by
    have hvalid := p.navigation.valid
    rw [h, stepsIn, List.getElem?_map, ← Topic.slide?] at hvalid
    change p.position.step < ((p.topic.slide? p.position.slide).map _).getD 0 at hvalid
    rwa [hcurrent] at hvalid
  refine ⟨p.topic.slides[p.position.slide],
    p.topic.slides[p.position.slide].steps[p.position.step], hcurrent, ?_, ?_⟩
  · simp only [currentStep?, Topic.step?, hcurrent, Option.bind_some]
    exact List.getElem?_eq_getElem hstep
  · simp only [diagramOf?, hcurrent, Option.map_some]

/-- Showing keeps consistency, as long as the player holds the position while it plays. -/
theorem Consistent.of_sameStand (h : Consistent p) (hs : SameStand p q)
    (hpending : q.player.pending = if q.isPlaying then some q.position else none)
    (hquiet : p.phase ≠ .ready → q.isPlaying = false) : Consistent q where
  steps := by rw [hs.steps, hs.topic]; exact h.steps
  stored := by rw [hs.loaded, hs.stored]; exact h.stored
  pending := hpending
  awaits := by rw [hs.phase, hs.position]; exact h.awaits
  present := by rw [hs.phase, hs.hasDiagram]; exact h.present
  absent := by rw [hs.phase, hs.hasDiagram]; exact h.absent
  quiet := by rw [hs.phase]; exact hquiet

/-! ## Stopping -/

theorem stopPlayback_of_not_isPlaying (h : p.isPlaying = false) : p.stopPlayback = p := by
  simp [stopPlayback, h]

/-- A running animation can be ended where there is a diagram. -/
theorem stopPlayback_eq {store : Store} (h : p.isPlaying = true) (hstore : p.store = some store) :
    p.stopPlayback =
      { p with player := (p.player.stop store).1, store := some (p.player.stop store).2 } := by
  simp [stopPlayback, h, hstore]

@[simp] theorem stopPlayback_events (p : Presentation) : p.stopPlayback.events = p.events := by
  unfold stopPlayback
  split
  · split <;> rfl
  · rfl

theorem stopPlayback_sameStand (p : Presentation) : SameStand p p.stopPlayback := by
  unfold stopPlayback
  split
  · split
    · rename_i hstore
      exact ⟨rfl, rfl, rfl, rfl, rfl, by simp [hstore], rfl⟩
    · exact .refl p
  · exact .refl p

theorem Consistent.isPlaying_stopPlayback (h : Consistent p) :
    p.stopPlayback.isPlaying = false := by
  by_cases hplay : p.isPlaying = true
  · have hdiagram := h.present (h.ready_of_isPlaying hplay)
    obtain ⟨store, hstore⟩ := Option.isSome_iff_exists.1 (isSome_store_of_hasDiagram hdiagram)
    rw [stopPlayback_eq hplay hstore]
    exact Player.not_isPlaying_stop p.player store
  · rw [Bool.not_eq_true] at hplay
    rw [stopPlayback_of_not_isPlaying hplay]
    exact hplay

theorem Consistent.pending_stopPlayback (h : Consistent p) :
    p.stopPlayback.player.pending = none := by
  by_cases hplay : p.isPlaying = true
  · have hdiagram := h.present (h.ready_of_isPlaying hplay)
    obtain ⟨store, hstore⟩ := Option.isSome_iff_exists.1 (isSome_store_of_hasDiagram hdiagram)
    rw [stopPlayback_eq hplay hstore]
    rfl
  · rw [Bool.not_eq_true] at hplay
    rw [stopPlayback_of_not_isPlaying hplay, h.pending, hplay]
    rfl

theorem Consistent.stopPlayback (h : Consistent p) : Consistent p.stopPlayback := by
  refine h.of_sameStand (stopPlayback_sameStand p) ?_ fun _ => h.isPlaying_stopPlayback
  rw [h.pending_stopPlayback, h.isPlaying_stopPlayback]
  rfl

/-! ## Arriving at a step -/

/-- Playback was ended and a move made, or the presentation stays where it is. -/
structure Moved (p r : Presentation) : Prop where
  topic : r.topic = p.topic
  steps : r.navigation.steps = p.navigation.steps
  loaded : r.loaded = p.loaded
  store : r.store = p.stopPlayback.store
  player : r.player = p.stopPlayback.player
  events : r.events = p.events
  pending : r.player.pending = none
  quiet : r.isPlaying = false

theorem Moved.stored (h : Moved p r) : r.store.isSome = p.store.isSome := by
  rw [h.store]
  exact (stopPlayback_sameStand p).stored

theorem Moved.settings (h : Moved p r) : r.player.settings = p.player.settings := by
  rw [h.player]
  exact (stopPlayback_sameStand p).settings

/-- Where a move has led, the diagram is requested if it is not there, and else the step is
    shown. -/
inductive Arrival (r : Presentation) (animated : Bool) :
    Presentation → List Store.Action → Prop
  | request (habsent : r.hasDiagram = false) :
      Arrival r animated (r.request r.position.slide animated) []
  | shown (hpresent : r.hasDiagram = true) :
      Arrival r animated ({ r with phase := .ready }.showStep animated).2
        ({ r with phase := .ready }.showActions animated)

theorem Consistent.moved_stopPlayback (h : Consistent p) : Moved p p.stopPlayback where
  topic := (stopPlayback_sameStand p).topic
  steps := (stopPlayback_sameStand p).steps
  loaded := (stopPlayback_sameStand p).loaded
  store := rfl
  player := rfl
  events := stopPlayback_events p
  pending := h.pending_stopPlayback
  quiet := h.isPlaying_stopPlayback

/-- A move that is made leads to an arrival. -/
theorem Consistent.follow_arrival (h : Consistent p) (hquiet : p.isPlaying = false)
    {move : Navigation → Option (Move × Navigation)} (hmove : Navigation.IsMove move) {m : Move}
    {n : Navigation} (hmoved : move p.navigation = some (m, n)) (animated : Bool) :
    (p.follow (some (m, n)) animated).1 = true ∧
      ∃ r, Moved p r ∧ Arrival r animated (p.follow (some (m, n)) animated).2
        (p.followActions (some (m, n)) animated) := by
  obtain ⟨hsteps, hslide⟩ := hmove _ _ _ hmoved
  have hpending : p.player.pending = none := by rw [h.pending, hquiet]; rfl
  have hstop := stopPlayback_of_not_isPlaying hquiet
  have hm : Moved p { p with navigation := n } :=
    ⟨rfl, hsteps, rfl, by rw [hstop], by rw [hstop], rfl, hpending, hquiet⟩
  cases hdiagram : hasDiagram { p with navigation := n } with
  | true =>
    simp only [follow, followActions, hdiagram, Bool.not_true, Bool.false_and, Bool.false_eq_true,
      if_false, true_and]
    exact ⟨_, hm, .shown hdiagram⟩
  | false =>
    -- the diagram of the slide before the move was there if anything was shown on it
    have hrequest : (m.slideChanged || p.phase != .ready) = true := by
      cases hchanged : m.slideChanged with
      | true => rfl
      | false =>
        rw [Bool.false_or, bne_iff_ne]
        intro hready
        have hsame : hasDiagram { p with navigation := n } = p.hasDiagram := by
          simp only [hasDiagram, diagramOf?, position, hslide.1 hchanged]
        rw [hsame, h.present hready] at hdiagram
        cases hdiagram
    simp only [follow, followActions, hdiagram, Bool.not_false, Bool.true_and, hrequest, if_true,
      true_and]
    exact ⟨_, hm, .request hdiagram⟩

theorem Moved.held (hmoved : Moved p r) :
    r.player.pending = if r.isPlaying then some r.position else none := by
  rw [hmoved.quiet, hmoved.pending]
  rfl

section Moved

variable (h : Consistent p) (hmoved : Moved p r)
include h hmoved

theorem Consistent.steps_of_moved :
    r.navigation.steps = r.topic.slides.map fun s => s.steps.length := by
  rw [hmoved.steps, hmoved.topic]
  exact h.steps

theorem Consistent.stored_of_moved : r.loaded.isSome = true → r.store.isSome = true := by
  rw [hmoved.loaded, hmoved.stored]
  exact h.stored

/-- After a move to a slide whose diagram is not there, that diagram is awaited. -/
theorem Consistent.request_moved (habsent : r.hasDiagram = false) (animated : Bool) :
    Consistent (r.request r.position.slide animated) := by
  have hsteps := h.steps_of_moved hmoved
  have hstored := h.stored_of_moved hmoved
  have hheld := hmoved.held
  refine ⟨hsteps, hstored, hheld, ?_, ?_, fun _ => habsent, fun _ => hmoved.quiet⟩
  · intro slide animated' hloading
    cases hloading
    rfl
  · intro hready
    cases hready

/-- After a move to a slide whose diagram is there, it can be shown. -/
theorem Consistent.ready_moved (hpresent : r.hasDiagram = true) :
    Consistent { r with phase := .ready } := by
  have hsteps := h.steps_of_moved hmoved
  have hstored := h.stored_of_moved hmoved
  have hheld := hmoved.held
  refine ⟨hsteps, hstored, hheld, ?_, fun _ => hpresent, ?_, ?_⟩
  · intro slide animated hloading
    cases hloading
  · intro hphase
    exact absurd rfl hphase
  · intro hphase
    exact absurd rfl hphase

end Moved

/-- What an intent can lead to, with its answer and its actions. -/
inductive IntentOutcome (p : Presentation) :
    Intent → Bool × Presentation → List Store.Action → Prop
  /-- Nothing is done. -/
  | refused (i : Intent) : IntentOutcome p i (false, p) []
  /-- There is no such step; a running animation has ended. -/
  | stopped (i : Intent) (hloading : p.isLoading = false) :
      IntentOutcome p i (false, p.stopPlayback) p.stopActions
  /-- The running animation runs faster. -/
  | hurried (hplay : p.isPlaying = true) :
      IntentOutcome p .nextStep (true, { p with player := p.player.fastForward }) []
  | arrived (i : Intent) (r : Presentation) (animated : Bool) (q : Presentation)
      (actions : List Store.Action) (hi : p.isPlaying = true → i ≠ .nextStep)
      (hloading : p.isLoading = false) (hmoved : Moved p r)
      (harrival : Arrival r animated q actions) :
      IntentOutcome p i (true, q) (p.stopActions ++ actions)

theorem stopActions_of_not_isPlaying (h : p.isPlaying = false) : p.stopActions = [] := by
  rw [stopActions, h]
  rfl

theorem Consistent.moveBy_outcome (h : Consistent p) {i : Intent} (hi : i ≠ .nextStep)
    {move : Navigation → Option (Move × Navigation)} (hmove : Navigation.IsMove move) :
    IntentOutcome p i (p.moveBy move) (p.moveActions move) := by
  cases hloading : p.isLoading with
  | true =>
    simp only [moveBy, moveActions, hloading, if_true]
    exact .refused i
  | false =>
    simp only [moveBy, moveActions, hloading, Bool.false_eq_true, if_false]
    cases hmoved : move p.stopPlayback.navigation with
    | none =>
      rw [followActions, List.append_nil]
      exact .stopped i hloading
    | some moved =>
      obtain ⟨m, n⟩ := moved
      -- the move starts where the playback was ended, and ending it again does nothing
      have hstop := stopPlayback_sameStand p
      have htwice := stopPlayback_of_not_isPlaying h.isPlaying_stopPlayback
      obtain ⟨hanswer, r, hr, harrival⟩ :=
        h.stopPlayback.follow_arrival h.isPlaying_stopPlayback hmove hmoved false
      have hr' : Moved p r :=
        ⟨hr.topic.trans hstop.topic, hr.steps.trans hstop.steps, hr.loaded.trans hstop.loaded,
          by rw [hr.store, htwice], by rw [hr.player, htwice],
          hr.events.trans (stopPlayback_events p), hr.pending, hr.quiet⟩
      rw [← Prod.eta (p.stopPlayback.follow (some (m, n)) false), hanswer]
      exact .arrived i r false _ _ (fun _ => hi) hloading hr' harrival

/-- The next step is shown where nothing plays; a running animation is sped up instead. -/
theorem Consistent.nextStep_outcome (h : Consistent p) :
    IntentOutcome p .nextStep p.nextStep ((Operation.intent .nextStep).actions p) := by
  simp only [nextStep, Operation.actions]
  cases hloading : p.isLoading with
  | true =>
    simp only [Bool.true_or, if_true]
    exact .refused _
  | false =>
    cases hplay : p.isPlaying with
    | true =>
      simp only [Bool.or_true, Bool.false_eq_true, if_false, if_true]
      exact .hurried hplay
    | false =>
      simp only [Bool.or_false, Bool.false_eq_true, if_false]
      cases hmoved : p.navigation.advanceStep? with
      | none => exact .refused _
      | some moved =>
        obtain ⟨m, n⟩ := moved
        obtain ⟨hanswer, r, hr, harrival⟩ :=
          h.follow_arrival hplay Navigation.isMove_advanceStep? hmoved true
        -- nothing plays, so nothing has to be ended
        have hnot : ¬ p.isPlaying = true := by rw [hplay]; exact Bool.false_ne_true
        have harrived := IntentOutcome.arrived (p := p) .nextStep r true _ _
          (fun hplaying => absurd hplaying hnot) hloading hr harrival
        rw [stopActions_of_not_isPlaying hplay, List.nil_append] at harrived
        rw [← Prod.eta (p.follow (some (m, n)) true), hanswer]
        exact harrived

/-- The current step is shown again, if its diagram is there. -/
theorem Consistent.replay_outcome (h : Consistent p) :
    IntentOutcome p .replay p.replay ((Operation.intent .replay).actions p) := by
  simp only [replay, Operation.actions]
  by_cases hready : p.phase = .ready
  · rw [if_pos hready, if_pos hready]
    have hstop := stopPlayback_sameStand p
    have hdiagram : p.stopPlayback.hasDiagram = true := by
      rw [hstop.hasDiagram]
      exact h.present hready
    have hsame : { p.stopPlayback with phase := .ready } = p.stopPlayback := by
      rw [← hstop.phase.trans hready]
    have harrival : Arrival p.stopPlayback true
        ({ p.stopPlayback with phase := .ready }.showStep true).2
        ({ p.stopPlayback with phase := .ready }.showActions true) := .shown hdiagram
    rw [hsame] at harrival
    -- what is shown there is a step, so the answer is yes
    obtain ⟨store, hstore⟩ := Option.isSome_iff_exists.1 (isSome_store_of_hasDiagram hdiagram)
    obtain ⟨slide, step, hslide, hstep, _⟩ := exists_current h.stopPlayback.steps
    have hanswer := (showStep_shown hstore hslide hstep true).1
    rw [← Prod.eta (p.stopPlayback.showStep true), hanswer]
    exact .arrived _ p.stopPlayback true _ _ (fun _ => by simp)
      (isLoading_eq_false_of_ready hready) h.moved_stopPlayback harrival
  · rw [if_neg hready, if_neg hready]
    exact .refused _

/-- Every intent is refused, speeds an animation up, or leads to an arrival. -/
theorem Consistent.run_outcome (h : Consistent p) (i : Intent) :
    IntentOutcome p i (i.run p) ((Operation.intent i).actions p) := by
  cases i with
  | nextStep => exact h.nextStep_outcome
  | previousStep => exact h.moveBy_outcome (by simp) Navigation.isMove_retreatStep?
  | nextSlide => exact h.moveBy_outcome (by simp) Navigation.isMove_advanceSlide?
  | previousSlide => exact h.moveBy_outcome (by simp) Navigation.isMove_retreatSlide?
  | restart => exact h.moveBy_outcome (by simp) Navigation.isMove_restart
  | goToStep step => exact h.moveBy_outcome (by simp) (Navigation.isMove_goToStep? step)
  | replay => exact h.replay_outcome

/-! ## Handing over a diagram -/

theorem Consistent.hasDiagram_delivered (h : Consistent p) {slide : Nat} {animated : Bool}
    (hphase : p.phase = .loading slide animated) (scene : Scene) :
    (p.delivered slide scene).hasDiagram = true := by
  obtain ⟨_, _, _, _, hname⟩ := exists_current h.steps
  have hslide := h.awaits _ _ hphase
  have hloaded : (p.delivered slide scene).loaded = p.diagramOf? p.position.slide :=
    congrArg p.diagramOf? hslide
  rw [hname] at hloaded
  have hsame : (p.delivered slide scene).diagramOf? (p.delivered slide scene).position.slide =
      p.diagramOf? p.position.slide := rfl
  rw [hasDiagram, hsame, hloaded, hname]
  simp [delivered]

theorem Consistent.delivered (h : Consistent p) {slide : Nat} {animated : Bool}
    (hphase : p.phase = .loading slide animated) (scene : Scene) :
    Consistent (p.delivered slide scene) where
  steps := h.steps
  stored := fun _ => rfl
  pending := h.pending
  awaits := fun _ _ hloading => by cases hloading
  present := fun _ => h.hasDiagram_delivered hphase scene
  absent := fun hready => absurd rfl hready
  quiet := fun hready => absurd rfl hready

/-! ## Operations -/

/-- What an operation can do, with the events that it emits, its actions on the store, and the
    diagram that it hands over. -/
inductive Effect (p : Presentation) :
    Presentation → List Event → List Store.Action → Option Scene → Prop
  /-- Neither stand nor playback nor diagram change, but for the speed of the playback. -/
  | idle (q : Presentation) (hstand : SameStand p q) (hstore : q.store = p.store)
      (hplayer : q.player = p.player ∨ q.player = p.player.fastForward) : Effect p q [] [] none
  /-- Time passes in a running animation. -/
  | played (store : Store) (dt : Float) (hstore : p.store = some store)
      (hplay : p.isPlaying = true) :
      Effect p (p.continued (p.player.advance dt store))
        ((p.player.advance dt store).2.2.map Event.animationCompleted).toList
        ((p.player.advanceChanges dt store ++
          p.settling (p.player.advance dt store).1.state).map .change) none
  /-- A running animation ends, and no move is made. -/
  | stopped (hloading : p.isLoading = false) : Effect p p.stopPlayback [] p.stopActions none
  | failed (slide : Nat) (animated : Bool) (message : String)
      (hphase : p.phase = .loading slide animated) :
      Effect p ({ p with phase := .failed message }.emit (.loadFailed slide message))
        [.loadFailed slide message] [] none
  | requested (r : Presentation) (animated : Bool) (diagram : String)
      (hloading : p.isLoading = false) (hmoved : Moved p r) (habsent : r.hasDiagram = false) :
      Effect p (r.request r.position.slide animated) [.diagramRequested r.position.slide diagram]
        p.stopActions none
  | shown (r : Presentation) (animated : Bool) (es : List Event) (actions : List Store.Action)
      (hloading : p.isLoading = false) (hmoved : Moved p r) (hpresent : r.hasDiagram = true)
      (hshown : Shown { r with phase := .ready } ({ r with phase := .ready }.showStep animated).2
        es actions) :
      Effect p ({ r with phase := .ready }.showStep animated).2 es (p.stopActions ++ actions) none
  | delivered (slide : Nat) (animated : Bool) (scene : Scene) (es : List Event)
      (actions : List Store.Action) (hphase : p.phase = .loading slide animated)
      (hshown : Shown (p.delivered slide scene) ((p.delivered slide scene).showStep animated).2
        es actions) :
      Effect p ((p.delivered slide scene).showStep animated).2 (.diagramLoaded slide :: es) actions
        (some scene)

/-- A player that is hurried plays the same animation for the same request. -/
theorem idle_of_player (h : q.player = p.player ∨ q.player = p.player.fastForward) :
    q.isPlaying = p.isPlaying ∧ q.player.pending = p.player.pending ∧
      q.player.plan = p.player.plan := by
  rcases h with h | h
  · rw [isPlaying, isPlaying, h]
    exact ⟨rfl, rfl, rfl⟩
  · rw [isPlaying, isPlaying, Player.isPlaying, Player.isPlaying, h, Player.fastForward_state]
    exact ⟨rfl, Player.fastForward_pending _, Player.fastForward_plan _⟩

/-- While an animation runs, the player hands back the position or nothing. -/
theorem Consistent.advance_progress (h : Consistent p) (hplay : p.isPlaying = true) (dt : Float)
    (store : Store) : Player.Progress (some p.position) (p.player.advance dt store).1
      (p.player.advance dt store).2.2 := by
  have hpending := h.pending
  rw [hplay, if_pos rfl] at hpending
  rw [← hpending]
  exact Player.advance_progress hplay dt store

theorem advance_sameStand {store : Store} (hstore : p.store = some store) (dt : Float) :
    SameStand p (p.continued (p.player.advance dt store)) :=
  continued_sameStand _ (by rw [hstore]; rfl) (Player.advance_settings ..)

theorem emitted_eq {o : Operation} {es : List Event} (h : (o.run p).events = p.events ++ es) :
    o.emitted p = es := by
  simp only [Operation.emitted, h, List.drop_left]

/-- Where the diagram is there, the step is shown. -/
theorem exists_shown (hsteps : p.navigation.steps = p.topic.slides.map fun s => s.steps.length)
    (hdiagram : p.hasDiagram = true) (animated : Bool) :
    ∃ es, (p.showStep animated).2.events = p.events ++ es ∧
      Shown p (p.showStep animated).2 es (p.showActions animated) := by
  obtain ⟨store, hstore⟩ := Option.isSome_iff_exists.1 (isSome_store_of_hasDiagram hdiagram)
  obtain ⟨slide, step, hslide, hstep, _⟩ := exists_current hsteps
  exact (showStep_shown hstore hslide hstep animated).2

theorem IntentOutcome.effect (h : Consistent p) {i : Intent} {answer : Bool}
    {actions : List Store.Action} (hi : IntentOutcome p i (answer, q) actions) :
    ∃ es, q.events = p.events ++ es ∧ Effect p q es actions none := by
  cases hi with
  | refused => exact ⟨[], (List.append_nil _).symm, .idle p (.refl p) rfl (.inl rfl)⟩
  | stopped _ hloading =>
    exact ⟨[], by rw [stopPlayback_events, List.append_nil], .stopped hloading⟩
  | hurried =>
    refine ⟨[], (List.append_nil _).symm, .idle _ ?_ rfl (.inr rfl)⟩
    exact ⟨rfl, rfl, rfl, rfl, rfl, rfl, Player.fastForward_settings p.player⟩
  | arrived _ r animated _ _ _ hloading hmoved harrival =>
    cases harrival with
    | request habsent =>
      rw [List.append_nil]
      exact ⟨_, congrArg (· ++ _) hmoved.events, .requested r animated _ hloading hmoved habsent⟩
    | shown hpresent =>
      obtain ⟨es, hevents, hshown⟩ :=
        exists_shown (h.ready_moved hmoved hpresent).steps hpresent animated
      exact ⟨es, hevents.trans (congrArg (· ++ es) hmoved.events),
        .shown r animated es _ hloading hmoved hpresent hshown⟩

theorem Consistent.attach_effect (h : Consistent p) (slide : Nat) (scene : Scene) :
    ∃ es, (p.attach slide scene).2.events = p.events ++ es ∧
      Effect p (p.attach slide scene).2 es ((Operation.attach slide scene).actions p)
        ((Operation.attach slide scene).handed? p) := by
  by_cases hawaited : p.awaited? = some slide
  · obtain ⟨animated, hphase⟩ := awaited?_eq_some_iff.1 hawaited
    obtain ⟨es, hevents, hshown⟩ := exists_shown (h.delivered hphase scene).steps
      (h.hasDiagram_delivered hphase scene) animated
    have hhanded : (Operation.attach slide scene).handed? p = some scene := by
      simp only [Operation.handed?, attach_eq hphase, if_true]
    rw [attach_eq hphase, Operation.actions_attach hphase, hhanded]
    refine ⟨.diagramLoaded slide :: es, ?_, .delivered slide animated scene es _ hphase hshown⟩
    rw [hevents]
    exact List.append_assoc p.events [.diagramLoaded slide] es
  · have hhanded : (Operation.attach slide scene).handed? p = none := by
      simp only [Operation.handed?, attach_of_not_awaited hawaited, Bool.false_eq_true, if_false]
    rw [attach_of_not_awaited hawaited, Operation.actions_of_not_awaited hawaited, hhanded]
    exact ⟨[], (List.append_nil _).symm, .idle p (.refl p) rfl (.inl rfl)⟩

theorem fail_effect (p : Presentation) (slide : Nat) (message : String) :
    ∃ es, (p.fail slide message).2.events = p.events ++ es ∧
      Effect p (p.fail slide message).2 es [] none := by
  unfold fail
  split
  · rename_i hawaited
    obtain ⟨animated, hphase⟩ := awaited?_eq_some_iff.1 hawaited
    exact ⟨_, rfl, .failed slide animated message hphase⟩
  · exact ⟨[], (List.append_nil _).symm, .idle p (.refl p) rfl (.inl rfl)⟩

theorem tick_effect (p : Presentation) (dt : Float) :
    ∃ es, (p.tick dt).events = p.events ++ es ∧
      Effect p (p.tick dt) es (p.tickActions dt) none := by
  have hidle : ∃ es, p.events = p.events ++ es ∧ Effect p p es [] none :=
    ⟨[], (List.append_nil _).symm, .idle p (.refl p) rfl (.inl rfl)⟩
  cases hstore : p.store with
  | none =>
    simp only [tick, tickActions, hstore]
    exact hidle
  | some store =>
    by_cases h : p.phase = .ready ∧ p.isPlaying = true
    · rw [tick_eq hstore h.1 h.2]
      simp only [tickActions, hstore, if_pos h]
      exact ⟨_, continued_events _, .played store dt hstore h.2⟩
    · simp only [tick, tickActions, hstore, if_neg h]
      exact hidle

/-- Operations only add events, except for those that take them. -/
theorem Consistent.events_run (h : Consistent p) {o : Operation} (ho : o ≠ .takeEvents) :
    ∃ es, (o.run p).events = p.events ++ es ∧
      Effect p (o.run p) es (o.actions p) (o.handed? p) := by
  cases o with
  | intent i => exact (h.run_outcome i).effect h
  | tick dt => exact tick_effect p dt
  | skip =>
    simp only [Operation.run, skip, Operation.actions]
    exact tick_effect p _
  | attach slide scene => exact h.attach_effect slide scene
  | fail slide message => exact fail_effect p slide message
  | takeEvents => exact absurd rfl ho
  | subscribe =>
    exact ⟨[], (List.append_nil _).symm,
      .idle _ ⟨rfl, rfl, rfl, rfl, rfl, rfl, rfl⟩ rfl (.inl rfl)⟩
  | unsubscribe observer =>
    exact ⟨[], (List.append_nil _).symm,
      .idle _ ⟨rfl, rfl, rfl, rfl, rfl, rfl, rfl⟩ rfl (.inl rfl)⟩

/-- Every operation has one of the effects above. -/
theorem Consistent.run_effect (h : Consistent p) (o : Operation) :
    Effect p (o.run p) (o.emitted p) (o.actions p) (o.handed? p) := by
  by_cases ho : o = .takeEvents
  · -- events that are taken away are not emitted
    subst ho
    have hnone : Operation.emitted .takeEvents p = [] := List.drop_nil
    rw [hnone]
    exact .idle _ ⟨rfl, rfl, rfl, rfl, rfl, rfl, rfl⟩ rfl (.inl rfl)
  · obtain ⟨es, hevents, heffect⟩ := h.events_run ho
    rw [emitted_eq hevents]
    exact heffect

/-! ## Consistency along runs -/

/-- A player that plays holds its request. -/
theorem pending_of_progress {completed : Option Position}
    (h : Player.Progress (some q.position) q.player completed) :
    q.player.pending = if q.isPlaying then some q.position else none := by
  cases h with
  | running hstate hpending =>
    have hplay : q.isPlaying = true := Player.isPlaying_iff.2 hstate
    rw [hplay, hpending]
    rfl
  | complete hstate hpending =>
    have hdone : q.isPlaying = false := Player.not_isPlaying_of_completed hstate
    rw [hdone, hpending]
    rfl

theorem Shown.pending {es : List Event} {actions : List Store.Action}
    (h : Shown p q es actions) (hp : p.player.pending = none)
    (hquiet : p.isPlaying = false) (hposition : q.position = p.position) :
    q.player.pending = if q.isPlaying then some q.position else none := by
  cases h with
  | still _ _ _ _ _ _ hplayer =>
    have hstill : q.isPlaying = false := by
      rw [isPlaying, hplayer]
      exact hquiet
    rw [hplayer, hp, hstill]
    rfl
  | animated _ _ _ _ _ _ _ _ left hleft hplayer =>
    have hprogress := progress_of_play hleft
    rw [← hplayer, ← hposition] at hprogress
    exact pending_of_progress hprogress

theorem Effect.consistent {es : List Event} {actions : List Store.Action} {d? : Option Scene}
    (h : Consistent p) (he : Effect p q es actions d?) : Consistent q := by
  cases he with
  | idle _ hstand _ hplayer =>
    obtain ⟨hplay, hpending, _⟩ := idle_of_player hplayer
    refine h.of_sameStand hstand ?_ fun hphase => hplay.trans (h.quiet hphase)
    rw [hpending, hplay, hstand.position]
    exact h.pending
  | played store dt hstore hplay =>
    have hstand := advance_sameStand hstore dt
    refine h.of_sameStand hstand ?_ fun hphase => absurd (h.ready_of_isPlaying hplay) hphase
    -- the player either still holds the position or has handed it back
    have hprogress := h.advance_progress hplay dt store
    rw [← hstand.position, ← continued_player (p := p)] at hprogress
    exact pending_of_progress hprogress
  | stopped => exact h.stopPlayback
  | failed slide animated message hphase =>
    have hnot := ne_ready_of_loading hphase
    exact ⟨h.steps, h.stored, h.pending, (fun _ _ hloading => by cases hloading),
      (fun hready => by cases hready), fun _ => h.absent hnot, fun _ => h.quiet hnot⟩
  | requested r animated _ _ hmoved habsent => exact h.request_moved hmoved habsent animated
  | shown r animated _ _ _ hmoved hpresent hshown =>
    have hr := h.ready_moved hmoved hpresent
    have hstand := showStep_sameStand { r with phase := .ready } animated
    exact hr.of_sameStand hstand (hshown.pending hmoved.pending hmoved.quiet hstand.position)
      fun hphase => absurd rfl hphase
  | delivered slide animated scene _ _ hphase hshown =>
    have hquiet := h.quiet_of_loading hphase
    have hpending : p.player.pending = none := by rw [h.pending, hquiet]; rfl
    have hstand := showStep_sameStand (p.delivered slide scene) animated
    exact (h.delivered hphase scene).of_sameStand hstand
      (hshown.pending hpending hquiet hstand.position) fun hready => absurd rfl hready

theorem Consistent.run (h : Consistent p) (o : Operation) : Consistent (o.run p) :=
  (h.run_effect o).consistent h

theorem Consistent.runAll (h : Consistent p) (os : List Operation) : Consistent (p.runAll os) :=
  runAll_induction h (fun _ o hp => hp.run o) os

/-- A presentation begins in a consistent way. -/
theorem consistent_new {topic : Topic} {settings : Settings}
    (h : new topic settings = .ok p) : Consistent p := by
  unfold new at h
  split at h
  · cases h
  · rename_i navigation hnavigation
    obtain ⟨hsteps, hposition⟩ := Navigation.of_ofSteps hnavigation
    cases h
    refine ⟨hsteps, ?_, rfl, ?_, ?_, ?_, ?_⟩
    · intro hloaded
      cases hloaded
    · intro slide animated hphase
      cases hphase
      exact congrArg Position.slide hposition.symm
    · intro hready
      cases hready
    · intro _
      rfl
    · intro _
      rfl

end Presentation

end Slideshow

/-
  Slideshow.Proofs.Presentation.Loading

  How diagrams are awaited. In every state that a presentation can come to, the phase says
  truly whether the diagram of the current slide is there, and while it is awaited neither the
  position nor the diagram in the store changes. The main statement is `loading_protocol`.
-/
import Slideshow.Proofs.Presentation.Outcome

namespace Slideshow

/-- The reader asks for another place; playing the current step again is no move. -/
def Operation.isMove : Operation → Bool
  | intent i => i != .replay
  | _ => false

namespace Presentation

variable {p : Presentation}

/-- Along these operations the awaited diagram is not handed over, and no move is asked for
    once the request has failed. -/
def Waits (p : Presentation) : List Operation → Prop
  | [] => True
  | o :: os =>
    o.handsOver p = false ∧ (o.isMove = true → p.isLoading = true) ∧ (o.run p).Waits os

/-! ## While a diagram is awaited -/

/-- The request still stands, or it has failed; nothing else has changed. -/
structure StillWaiting (p q : Presentation) : Prop where
  position : q.position = p.position
  store : q.store = p.store
  phase : q.phase = p.phase ∨ ∃ message, q.phase = .failed message

theorem StillWaiting.refl (p : Presentation) : StillWaiting p p := ⟨rfl, rfl, .inl rfl⟩

theorem StillWaiting.trans {p q r : Presentation} (h : StillWaiting p q) (h' : StillWaiting q r) :
    StillWaiting p r := by
  refine ⟨h'.position.trans h.position, h'.store.trans h.store, ?_⟩
  rcases h'.phase with hphase | hphase
  · rw [hphase]
    exact h.phase
  · exact .inr hphase

theorem StillWaiting.phase_ne_ready {q : Presentation} (h : StillWaiting p q)
    (hphase : p.phase ≠ .ready) : q.phase ≠ .ready := by
  rcases h.phase with h | ⟨message, h⟩
  · rw [h]
    exact hphase
  · rw [h]
    exact LoadPhase.noConfusion

/-- No move is made while a diagram is awaited. -/
theorem moveBy_of_isLoading (h : p.isLoading = true)
    (move : Navigation → Option (Move × Navigation)) : p.moveBy move = (false, p) := by
  simp only [moveBy, h, if_true]

theorem run_intent_of_isLoading (h : p.isLoading = true) (i : Intent) : i.run p = (false, p) := by
  cases i with
  | nextStep => simp only [Intent.run, nextStep, h, if_true]
  | previousStep => exact moveBy_of_isLoading h _
  | nextSlide => exact moveBy_of_isLoading h _
  | previousSlide => exact moveBy_of_isLoading h _
  | restart => exact moveBy_of_isLoading h fun n => some n.restart
  | goToStep step => exact moveBy_of_isLoading h fun n => n.goToStep? step
  | replay =>
    obtain ⟨slide, animated, hphase⟩ := isLoading_iff.1 h
    simp only [Intent.run, replay, hphase, reduceCtorEq, if_false]

theorem replay_of_phase_ne_ready (h : p.phase ≠ .ready) : p.replay = (false, p) := by
  simp only [replay, h, if_false]

theorem tick_of_phase_ne_ready (h : p.phase ≠ .ready) (dt : Float) : p.tick dt = p := by
  unfold tick
  split
  · rw [if_neg fun hready => h hready.1]
  · rfl

theorem fail_stillWaiting (p : Presentation) (slide : Nat) (message : String) :
    StillWaiting p (p.fail slide message).2 := by
  unfold fail
  split
  · exact ⟨rfl, rfl, .inr ⟨message, rfl⟩⟩
  · exact .refl p

/-- Where the diagram is not there, only handing it over or a move after a failure changes
    position or diagram. -/
theorem run_stillWaiting (hphase : p.phase ≠ .ready) {o : Operation}
    (hover : o.handsOver p = false) (hmove : o.isMove = true → p.isLoading = true) :
    StillWaiting p (o.run p) := by
  cases o with
  | intent i =>
    by_cases hi : i = .replay
    · subst hi
      simp only [Operation.run, Intent.run, replay_of_phase_ne_ready hphase]
      exact .refl p
    · simp only [Operation.run, run_intent_of_isLoading (hmove (bne_iff_ne.2 hi)) i]
      exact .refl p
  | tick dt =>
    simp only [Operation.run, tick_of_phase_ne_ready hphase]
    exact .refl p
  | skip =>
    simp only [Operation.run, skip, tick_of_phase_ne_ready hphase]
    exact .refl p
  | attach slide scene =>
    -- the diagram that is awaited would be handed over
    have hdropped : p.awaited? ≠ some slide := by
      intro hawaited
      obtain ⟨animated, hloading⟩ := awaited?_eq_some_iff.1 hawaited
      simp [Operation.handsOver, attach_eq hloading] at hover
    simp only [Operation.run, attach_of_not_awaited hdropped]
    exact .refl p
  | fail slide message => exact fail_stillWaiting p slide message
  | takeEvents => exact ⟨rfl, rfl, .inl rfl⟩
  | subscribe => exact ⟨rfl, rfl, .inl rfl⟩
  | unsubscribe observer => exact ⟨rfl, rfl, .inl rfl⟩

theorem Waits.stillWaiting (hphase : p.phase ≠ .ready) {os : List Operation} (h : p.Waits os) :
    StillWaiting p (p.runAll os) := by
  induction os generalizing p with
  | nil => exact .refl p
  | cons o os ih =>
    obtain ⟨hover, hmove, hrest⟩ := h
    have hstep := run_stillWaiting hphase hover hmove
    exact hstep.trans (ih (hstep.phase_ne_ready hphase) hrest)

/-! ## The protocol -/

/-- The name of the loaded diagram is not the one of the current slide, if that is not there. -/
theorem Consistent.loaded_ne (h : Consistent p) (hphase : p.phase ≠ .ready) {name : String}
    (hloaded : p.loaded = some name) : p.diagramOf? p.position.slide ≠ some name := by
  intro hname
  have hstored := h.stored (by rw [hloaded]; rfl)
  have habsent := h.absent hphase
  simp [hasDiagram, hstored, hloaded, hname] at habsent

theorem Consistent.exists_loaded (h : Consistent p) (hphase : p.phase = .ready) :
    ∃ name, p.loaded = some name ∧ p.diagramOf? p.position.slide = some name := by
  obtain ⟨slide, _, _, _, hname⟩ := exists_current h.steps
  refine ⟨slide.diagram, ?_, hname⟩
  rw [← hname]
  exact loaded_of_hasDiagram (h.present hphase)

/-- A diagram that is awaited is the one of the current slide, and nothing plays meanwhile; in
    the ready phase the diagram in the store is the one of the current slide; after a failure
    nothing plays, and the diagram in the store is another one. From a request on, position and
    store stay as they are until the diagram is handed over or, after a failure, a move is
    asked for. -/
theorem loading_protocol {topic : Topic} {settings : Settings} {start : Presentation}
    (hstart : new topic settings = .ok start) (os : List Operation) :
    let p := start.runAll os
    (∀ slide animated, p.phase = .loading slide animated →
      slide = p.position.slide ∧ p.isPlaying = false) ∧
    (p.phase = .ready → p.store.isSome = true ∧
      ∃ name, p.loaded = some name ∧ p.diagramOf? p.position.slide = some name) ∧
    (∀ message, p.phase = .failed message → p.isPlaying = false ∧
      ∀ name, p.loaded = some name → p.diagramOf? p.position.slide ≠ some name) ∧
    (∀ slide animated, p.phase = .loading slide animated → ∀ later, p.Waits later →
      (p.runAll later).position = p.position ∧ (p.runAll later).store = p.store) := by
  intro p
  have hp : Consistent p := (consistent_new hstart).runAll os
  refine ⟨?_, ?_, ?_, ?_⟩
  · intro slide animated hphase
    exact ⟨hp.awaits slide animated hphase, hp.quiet_of_loading hphase⟩
  · intro hphase
    exact ⟨isSome_store_of_hasDiagram (hp.present hphase), hp.exists_loaded hphase⟩
  · intro message hphase
    have hnot : p.phase ≠ .ready := by rw [hphase]; exact LoadPhase.noConfusion
    exact ⟨hp.quiet hnot, fun name => hp.loaded_ne hnot⟩
  · intro slide animated hphase later hwaits
    have hsame := hwaits.stillWaiting (ne_ready_of_loading hphase)
    exact ⟨hsame.position, hsame.store⟩

/-- While the second diagram is awaited and when it fails, the first one stays as it is. -/
theorem loading_protocol_demo :
    ∃ start, new .demo .usual = .ok start ∧
      let p := start.runAll [.attach 0 .demo, .intent .nextSlide]
      let later : List Operation :=
        [.attach 0 .demo, .intent .restart, .fail 1 "no such diagram", .intent .replay]
      p.phase = .loading 1 false ∧ p.Waits later ∧
        (p.runAll later).position = p.position ∧ (p.runAll later).store = p.store := by
  have hwaits : ∃ start, new .demo .usual = .ok start ∧
      (start.runAll [.attach 0 .demo, .intent .nextSlide]).phase = .loading 1 false ∧
      (start.runAll [.attach 0 .demo, .intent .nextSlide]).Waits
        [.attach 0 .demo, .intent .restart, .fail 1 "no such diagram", .intent .replay] := by
    refine ⟨_, rfl, by decide +kernel, ?_⟩
    simp only [Waits]
    decide +kernel
  obtain ⟨start, hstart, hphase, hwaits⟩ := hwaits
  exact ⟨start, hstart, hphase, hwaits,
    (loading_protocol hstart [.attach 0 .demo, .intent .nextSlide]).2.2.2 1 false hphase _ hwaits⟩

end Presentation

end Slideshow

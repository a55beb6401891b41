/-
  Slideshow.Proofs.Presentation.Refusal

  Intents that are refused. They are refused while a diagram is awaited, after it could not be
  loaded, or because there is no place to go to; then nothing changes, except that an
  animation which was running has ended. The main statement is `refusal_changes_iff`.
-/
import Slideshow.Proofs.Presentation.Loading

namespace Slideshow

/-- The move that an intent asks for; to play the current step again is no move. -/
def Intent.go? : Intent → Option Navigation.Go
  | nextStep => some .advanceStep
  | previousStep => some .retreatStep
  | nextSlide => some .advanceSlide
  | previousSlide => some .retreatSlide
  | restart => some .restart
  | goToStep step => some (.goToStep step)
  | replay => none

/-- An intent asks for a move, and there is no place to go to. -/
def Intent.Nowhere (i : Intent) (n : Navigation) : Prop :=
  ∃ g, i.go? = some g ∧ g.move? n = none

namespace Presentation

variable {p : Presentation} {i : Intent} {g : Navigation.Go}

/-! ## Moves that are refused -/

theorem run_eq_moveBy (hg : i.go? = some g) (hi : i ≠ .nextStep) : i.run p = p.moveBy g.move? := by
  cases i with
  | nextStep => exact absurd rfl hi
  | replay => cases hg
  | _ =>
    cases hg
    rfl

theorem nowhere_iff (hg : i.go? = some g) (n : Navigation) :
    i.Nowhere n ↔ g.move? n = none := by
  constructor
  · rintro ⟨g', hg', hnone⟩
    rw [hg] at hg'
    cases hg'
    exact hnone
  · exact fun hnone => ⟨g, hg, hnone⟩

/-- A move that is made is followed. -/
theorem follow_answer (moved : Option (Move × Navigation)) (animated : Bool) :
    (p.follow moved animated).1 = moved.isSome := by
  cases moved with
  | none => rfl
  | some moved =>
    simp only [follow]
    split <;> rfl

@[simp] theorem stopPlayback_navigation (p : Presentation) :
    p.stopPlayback.navigation = p.navigation := by
  unfold stopPlayback
  split
  · split <;> rfl
  · rfl

theorem moveBy_refused_iff {move : Navigation → Option (Move × Navigation)} :
    (p.moveBy move).1 = false ↔ p.isLoading = true ∨ move p.navigation = none := by
  unfold moveBy
  cases hloading : p.isLoading with
  | true => simp
  | false => simp [follow_answer]

theorem nextStep_refused_iff : p.nextStep.1 = false ↔
    p.isLoading = true ∨ (p.navigation.advanceStep? = none ∧ p.isPlaying = false) := by
  unfold nextStep
  cases hloading : p.isLoading with
  | true => simp
  | false =>
    cases hplay : p.isPlaying with
    | true => simp
    | false => simp [follow_answer]

/-- The current step can be played again where its diagram is there. -/
theorem Consistent.replay_refused_iff (h : Consistent p) :
    p.replay.1 = false ↔ p.phase ≠ .ready := by
  by_cases hready : p.phase = .ready
  · have hdiagram : p.stopPlayback.hasDiagram = true := by
      rw [(stopPlayback_sameStand p).hasDiagram]
      exact h.present hready
    obtain ⟨store, hstore⟩ := Option.isSome_iff_exists.1 (isSome_store_of_hasDiagram hdiagram)
    obtain ⟨slide, step, hslide, hstep, _⟩ := exists_current h.stopPlayback.steps
    rw [replay, if_pos hready, (showStep_shown hstore hslide hstep true).1]
    simp [hready]
  · simp only [replay_of_phase_ne_ready hready, ne_eq, hready, not_false_eq_true]

/-- When an intent is refused. -/
theorem Consistent.refused_iff (h : Consistent p) (i : Intent) : (i.run p).1 = false ↔
    p.isLoading = true ∨ (i = .replay ∧ p.phase ≠ .ready) ∨
      (i.Nowhere p.navigation ∧ (p.isPlaying = true → i ≠ .nextStep)) := by
  by_cases hreplay : i = .replay
  · subst hreplay
    have hloading : p.isLoading = true → p.phase ≠ .ready := fun hloading hready => by
      rw [isLoading_eq_false_of_ready hready] at hloading
      cases hloading
    have hmove : ¬ Intent.replay.Nowhere p.navigation := fun ⟨g, hg, _⟩ => by cases hg
    rw [Intent.run, h.replay_refused_iff]
    simp only [true_and, hmove, false_and, or_false]
    exact ⟨.inr, fun hor => hor.elim hloading id⟩
  · obtain ⟨g, hg⟩ : ∃ g, i.go? = some g := by
      cases i with
      | replay => exact absurd rfl hreplay
      | _ => exact ⟨_, rfl⟩
    rw [nowhere_iff hg]
    by_cases hnext : i = .nextStep
    · subst hnext
      cases hg
      rw [Intent.run, nextStep_refused_iff]
      simp [Navigation.Go.move?]
    · rw [run_eq_moveBy hg hnext, moveBy_refused_iff]
      simp [hreplay, hnext]

/-! ## What a refusal leaves behind -/

theorem moveBy_left {move : Navigation → Option (Move × Navigation)}
    (hquiet : p.isLoading = true → p.isPlaying = false) (hrefused : (p.moveBy move).1 = false) :
    (p.moveBy move).2 = p.stopPlayback := by
  have hreason := moveBy_refused_iff.1 hrefused
  unfold moveBy
  cases hloading : p.isLoading with
  | true =>
    rw [stopPlayback_of_not_isPlaying (hquiet hloading)]
    rfl
  | false =>
    rw [hloading] at hreason
    have hnone : move p.stopPlayback.navigation = none := by simpa using hreason
    simp only [Bool.false_eq_true, if_false, hnone, follow]

theorem nextStep_left (hquiet : p.isLoading = true → p.isPlaying = false)
    (hrefused : p.nextStep.1 = false) : p.nextStep.2 = p.stopPlayback := by
  have hreason := nextStep_refused_iff.1 hrefused
  unfold nextStep
  cases hloading : p.isLoading with
  | true =>
    rw [stopPlayback_of_not_isPlaying (hquiet hloading)]
    rfl
  | false =>
    rw [hloading] at hreason
    obtain ⟨hnone, hplay⟩ : p.navigation.advanceStep? = none ∧ p.isPlaying = false := by
      simpa using hreason
    simp only [Bool.false_eq_true, if_false, hplay, hnone, follow,
      stopPlayback_of_not_isPlaying hplay]

/-- A refused intent does nothing but end a running animation. -/
theorem Consistent.left_of_refused (h : Consistent p) (hrefused : (i.run p).1 = false) :
    (i.run p).2 = p.stopPlayback := by
  -- where a diagram is awaited nothing plays, so there is nothing to end
  have hquiet : p.isLoading = true → p.isPlaying = false := fun hloading => by
    obtain ⟨_, _, hphase⟩ := isLoading_iff.1 hloading
    exact h.quiet_of_loading hphase
  cases i with
  | nextStep => exact nextStep_left hquiet hrefused
  | replay =>
    have hphase := h.replay_refused_iff.1 hrefused
    rw [Intent.run, replay_of_phase_ne_ready hphase,
      stopPlayback_of_not_isPlaying (h.quiet hphase)]
  | _ => exact moveBy_left hquiet hrefused

/-- Nothing is ended exactly if nothing is running. -/
theorem Consistent.stopPlayback_eq_self_iff (h : Consistent p) :
    p.stopPlayback = p ↔ p.isPlaying = false := by
  constructor
  · intro hsame
    rw [← hsame]
    exact h.isPlaying_stopPlayback
  · exact stopPlayback_of_not_isPlaying

/-- An intent is refused while a diagram is awaited, to play again where the diagram is not
    there, and to go where there is no step, unless it speeds an animation up instead. It then
    leaves everything as it was exactly if no animation was running. An animation that was
    running has ended, with its tokens hidden, and nothing else has changed. -/
theorem refusal_changes_iff {topic : Topic} {settings : Settings} {start : Presentation}
    (hstart : new topic settings = .ok start) (os : List Operation) (i : Intent) :
    let p := start.runAll os
    let q := (i.run p).2
    ((i.run p).1 = false ↔
      p.isLoading = true ∨ (i = .replay ∧ p.phase ≠ .ready) ∨
        (i.Nowhere p.navigation ∧ (p.isPlaying = true → i ≠ .nextStep))) ∧
    ((i.run p).1 = false →
      (q = p ↔ p.isPlaying = false) ∧
      (q.navigation = p.navigation ∧ q.phase = p.phase ∧ q.events = p.events ∧
        q.loaded = p.loaded) ∧
      (p.isPlaying = true → ∃ store, p.store = some store ∧
        q = { p with
          player := (p.player.stop store).1, store := some (p.player.stop store).2 })) := by
  intro p q
  have h : Consistent p := (consistent_new hstart).runAll os
  refine ⟨h.refused_iff i, fun hrefused => ?_⟩
  have hleft : q = p.stopPlayback := h.left_of_refused hrefused
  have hstand := stopPlayback_sameStand p
  rw [hleft]
  refine ⟨h.stopPlayback_eq_self_iff,
    ⟨stopPlayback_navigation p, hstand.phase, stopPlayback_events p, hstand.loaded⟩, ?_⟩
  intro hplay
  have hdiagram := h.present (h.ready_of_isPlaying hplay)
  obtain ⟨store, hstore⟩ := Option.isSome_iff_exists.1 (isSome_store_of_hasDiagram hdiagram)
  exact ⟨store, hstore, stopPlayback_eq hplay hstore⟩

/-- At the last step nothing plays any more, and going on is refused without a trace. -/
theorem refusal_changes_iff_demo :
    ∃ start, new .demo .usual = .ok start ∧
      let p := start.runAll [.attach 0 .demo, .intent .nextStep, .skip]
      (Intent.goToStep 2).Nowhere p.navigation ∧ ((Intent.goToStep 2).run p).1 = false ∧
        p.isPlaying = false ∧ ((Intent.goToStep 2).run p).2 = p := by
  have hrun : ∃ start, new .demo .usual = .ok start ∧
      (Navigation.Go.goToStep 2).move?
        (start.runAll [.attach 0 .demo, .intent .nextStep, .skip]).navigation = none ∧
      ((Intent.goToStep 2).run
        (start.runAll [.attach 0 .demo, .intent .nextStep, .skip])).1 = false ∧
      (start.runAll [.attach 0 .demo, .intent .nextStep, .skip]).isPlaying = false :=
    ⟨_, rfl, by decide +kernel, by decide +kernel, by decide +kernel⟩
  obtain ⟨start, hstart, hnone, hrefused, hquiet⟩ := hrun
  have hsame := (refusal_changes_iff hstart [.attach 0 .demo, .intent .nextStep, .skip]
    (.goToStep 2)).2 hrefused
  exact ⟨start, hstart, ⟨_, rfl, hnone⟩, hrefused, hquiet, hsame.1.2 hquiet⟩

/-- There is no slide before the first one, but to ask for it ends the animation there. -/
theorem refusal_interrupts :
    ∃ start, new .demo .usual = .ok start ∧
      let p := start.runAll [.attach 0 .demo, .intent .nextStep]
      p.player.state = .playing ∧ (Intent.previousSlide.run p).1 = false ∧
        (Intent.previousSlide.run p).2.player.state = .cancelled ∧
        (Intent.previousSlide.run p).2.player.clock.isFinished = true ∧
        p.player.clock.isFinished = false := by
  refine ⟨_, rfl, ?_, ?_, ?_, ?_, ?_⟩
  · decide +kernel
  · decide +kernel
  · decide +kernel
  · decide +kernel
  · decide +kernel

end Presentation

end Slideshow

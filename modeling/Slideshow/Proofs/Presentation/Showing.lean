/-
  Slideshow.Proofs.Presentation.Showing

  What showing a step does: to the events, the player and the diagram.
-/
import Slideshow.Proofs.Presentation.Actions

namespace Slideshow

namespace Presentation

variable {p : Presentation}

/-! ## Showing a step -/

/-- What may have become of an animation that was just begun. -/
theorem progress_of_play {left : Player Position × Store × Option Position} {step : Step}
    {before : Store} (h : left = p.player.play step.animations p.position before) :
    Player.Progress (some p.position) left.1 left.2.2 := by
  rw [h]
  exact Player.play_progress _ _ _ _

/-- What showing a step does, with the events and the actions: without animation the diagram
    is put into the state after the step and the player is left alone, with animation the
    player plays from the state before it. -/
inductive Shown (p q : Presentation) : List Event → List Store.Action → Prop
  | still (store : Store) (slide : Slide) (step : Step) (hstore : p.store = some store)
      (hslide : p.currentSlide? = some slide) (hstep : p.currentStep? = some step)
      (hplayer : q.player = p.player)
      (hshown : q.store = some (prepare p.player.settings slide step (p.position.step + 1) store)) :
      Shown p q [.stepShown p.position p.navigation.progress step.caption false]
        (prepareActions p.player.settings slide step (p.position.step + 1))
  | animated (store before : Store) (slide : Slide) (step : Step) (hstore : p.store = some store)
      (hslide : p.currentSlide? = some slide) (hstep : p.currentStep? = some step)
      (hbefore : before = prepare p.player.settings slide step p.position.step
        (prepare p.player.settings slide step (p.position.step + 1) store))
      (left : Player Position × Store × Option Position)
      (hleft : left = p.player.play step.animations p.position before)
      (hplayer : q.player = left.1)
      (hshown : q.store = some (Stage.makeAll left.2.1 (p.settling left.1.state))) :
      Shown p q (.stepShown p.position p.navigation.progress step.caption true ::
          (left.2.2.map Event.animationCompleted).toList)
        (prepareActions p.player.settings slide step (p.position.step + 1) ++
          (prepareActions p.player.settings slide step p.position.step ++
            (p.player.playChanges step.animations p.position before ++
              p.settling left.1.state).map .change))

/-- Without a diagram or a step nothing is shown. -/
theorem showStep_sameStand (p : Presentation) (animated : Bool) :
    SameStand p (p.showStep animated).2 := by
  unfold showStep
  split
  · rename_i hstore _ _
    have hshown : ∀ s e, SameStand p ({ p with store := some s }.emit e) := fun s e =>
      ⟨rfl, rfl, rfl, rfl, rfl, by simp [hstore], rfl⟩
    simp only
    split
    · rw [animate_eq]
      exact (hshown _ _).trans (continued_sameStand _ rfl (Player.play_settings ..))
    · exact hshown _ _
  · exact .refl p

/-- Where there is a diagram and a step, the step is shown. -/
theorem showStep_shown {store : Store} {slide : Slide} {step : Step}
    (hstore : p.store = some store) (hslide : p.currentSlide? = some slide)
    (hstep : p.currentStep? = some step) (animated : Bool) :
    (p.showStep animated).1 = true ∧
      ∃ es, (p.showStep animated).2.events = p.events ++ es ∧
        Shown p (p.showStep animated).2 es (p.showActions animated) := by
  simp only [showStep, showActions, hstore, hslide, hstep, true_and]
  by_cases h : (animated && !step.animations.isEmpty) = true
  · simp only [h, if_true, animate_eq]
    refine ⟨_, ?_, .animated store _ slide step hstore hslide hstep rfl _ rfl
      (continued_player _) (store_continued _)⟩
    rw [continued_events, emit_events, List.append_assoc]
    rfl
  · rw [Bool.not_eq_true] at h
    simp only [h, Bool.false_eq_true, if_false, List.append_nil]
    exact ⟨_, rfl, .still store slide step hstore hslide hstep rfl rfl⟩

end Presentation

end Slideshow

/-
  Slideshow.Proofs.Timeline.Playback

  The life of a play: from its beginning the player holds the request, and when the animation
  is complete it hands the request back; a stop drops it.
-/
import Slideshow.Timeline.Player

namespace Slideshow

namespace Player

variable {κ S : Type} [Stage S]

theorem isPlaying_iff {p : Player κ} : p.isPlaying = true ↔ p.state = .playing := by
  simp [isPlaying]

theorem not_isPlaying_of_completed {p : Player κ} (h : p.state = .completed) :
    p.isPlaying = false := by
  simp [isPlaying, h]

theorem isPlaying_eq_false_iff {p : Player κ} : p.isPlaying = false ↔ p.state ≠ .playing := by
  simp [isPlaying]

/-- What became of a play: it goes on and holds its request, or it is complete and has handed
    the request back. -/
inductive Progress (request : Option κ) (p : Player κ) : Option κ → Prop
  | running (hstate : p.state = .playing) (hpending : p.pending = request) :
      Progress request p none
  | complete (hstate : p.state = .completed) (hpending : p.pending = none) :
      Progress request p request

theorem advance_progress {p : Player κ} (h : p.isPlaying = true) (dt : Float) (s : S) :
    Progress p.pending (p.advance dt s).1 (p.advance dt s).2.2 := by
  have hstate := isPlaying_iff.1 h
  simp only [advance, h, if_true]
  split
  · exact .complete rfl rfl
  · exact .running hstate rfl

/-- The player as it is when directives are about to be played on a diagram. -/
def begun (p : Player κ) (ds : List (Directive Float)) (request : κ) (s : S) : Player κ :=
  let planner : Planner Float S := ⟨p.settings.tokens, p.settings.defaults, s⟩
  let plan := planner.plan ds
  { p with
    clock := (p.clock.cancelAll.setScale 1).scheduleAll plan
    state := .playing, pending := some request, plan }

theorem play_eq (p : Player κ) (ds : List (Directive Float)) (request : κ) (s : S) :
    p.play ds request s =
      (p.begun ds request (hideTokens p.settings.tokens s)).advance 0
        (hideTokens p.settings.tokens s) := rfl

theorem isPlaying_begun (p : Player κ) (ds : List (Directive Float)) (request : κ) (s : S) :
    (p.begun ds request s).isPlaying = true := rfl

theorem play_progress (p : Player κ) (ds : List (Directive Float)) (request : κ) (s : S) :
    Progress (some request) (p.play ds request s).1 (p.play ds request s).2.2 := by
  rw [play_eq]
  exact advance_progress (p.isPlaying_begun ds request _) 0 _

@[simp] theorem advance_settings (p : Player κ) (dt : Float) (s : S) :
    (p.advance dt s).1.settings = p.settings := by
  unfold advance
  split
  · simp only
    split <;> rfl
  · rfl

@[simp] theorem play_settings (p : Player κ) (ds : List (Directive Float)) (request : κ) (s : S) :
    (p.play ds request s).1.settings = p.settings := by
  rw [play_eq, advance_settings]
  rfl

@[simp] theorem fastForward_settings (p : Player κ) : p.fastForward.settings = p.settings := by
  unfold fastForward
  split <;> rfl

@[simp] theorem fastForward_state (p : Player κ) : p.fastForward.state = p.state := by
  unfold fastForward
  split <;> rfl

@[simp] theorem fastForward_plan (p : Player κ) : p.fastForward.plan = p.plan := by
  unfold fastForward
  split <;> rfl

@[simp] theorem fastForward_pending (p : Player κ) : p.fastForward.pending = p.pending := by
  unfold fastForward
  split <;> rfl

theorem not_isPlaying_stop (p : Player κ) (s : S) : (p.stop s).1.isPlaying = false := by
  by_cases h : p.isPlaying = true <;> simp [stop, isPlaying_eq_false_iff, h]

end Player

end Slideshow

/-
  Slideshow.Proofs.Timeline.Recording

  A diagram that keeps a record of everything that is done to it. What runs on a clock cannot
  tell it from the diagram alone, so the record shows which changes are really made, those
  included that leave the diagram as it is (`Clock.advance_recorder`).
-/
import Slideshow.Proofs.Timeline.Changes

namespace Slideshow

variable {S : Type} [Stage S]

/-! ## Recorders -/

/-- A diagram with a record of all changes, the oldest first. -/
structure Recorder (S : Type) where
  stage : S
  record : List Change

namespace Recorder

instance : Stage (Recorder S) where
  ids r := Stage.ids r.stage
  contains r := Stage.contains r.stage
  text? r := Stage.text? r.stage
  setText r key value := ⟨Stage.setText r.stage key value, r.record ++ [.text key value]⟩
  attribute? r := Stage.attribute? r.stage
  setAttribute r key name value :=
    ⟨Stage.setAttribute r.stage key name value, r.record ++ [.attribute key name (some value)]⟩
  removeAttribute r key name :=
    ⟨Stage.removeAttribute r.stage key name, r.record ++ [.attribute key name none]⟩
  viewport? r := Stage.viewport? r.stage
  setViewport r frame := ⟨Stage.setViewport r.stage frame, r.record ++ [.camera frame]⟩
  emphasisTarget? r := Stage.emphasisTarget? r.stage

theorem make_eq (r : Recorder S) (ch : Change) :
    Stage.make r ch = ⟨Stage.make r.stage ch, r.record ++ [ch]⟩ := by
  cases ch with
  | text key value => rfl
  | camera frame => rfl
  | _ key name value => cases value <;> rfl

theorem makeAll_eq (r : Recorder S) (chs : List Change) :
    Stage.makeAll r chs = ⟨Stage.makeAll r.stage chs, r.record ++ chs⟩ := by
  induction chs generalizing r with
  | nil => rw [List.append_nil]; rfl
  | cons ch chs ih =>
    rw [Stage.makeAll_cons, ih, make_eq, List.append_assoc]
    rfl

end Recorder

/-! ## Running tweens on a recorder -/

namespace Entry

variable (e : Entry) (now : Float) (r : Recorder S)

theorem begun_recorder : e.begun r = e.begun r.stage := by
  unfold begun
  split
  · rfl
  · rfl

theorem changes_recorder : e.changes now r = e.changes now r.stage := by
  rw [changes, begun_recorder]
  rfl

theorem run_recorder :
    e.run now r =
      ((e.run now r.stage).1, ⟨(e.run now r.stage).2, r.record ++ e.changes now r.stage⟩) := by
  refine Prod.ext ?_ ?_
  · unfold run
    rw [begun_recorder]
    split
    · rfl
    · split
      · dsimp only
        split <;> rfl
      · rfl
  · rw [run_eq, Recorder.makeAll_eq, changes_recorder, ← run_eq]

theorem runAll_recorder (es : List Entry) :
    runAll now es r =
      ((runAll now es r.stage).1,
        ⟨(runAll now es r.stage).2, r.record ++ allChanges now es r.stage⟩) := by
  induction es generalizing r with
  | nil => rw [runAll, runAll, allChanges, List.append_nil]
  | cons e es ih => simp only [runAll, allChanges, run_recorder, ih, List.append_assoc]

end Entry

/-- While time passes, a recorder takes down the changes that are made. -/
theorem Clock.advance_recorder (c : Clock) (dt : Float) (r : Recorder S) :
    c.advance dt r =
      ((c.advance dt r.stage).1,
        ⟨(c.advance dt r.stage).2, r.record ++ c.changes dt r.stage⟩) := by
  unfold advance changes
  split
  · simp only [Entry.runAll_recorder]
  · rw [List.append_nil]

end Slideshow

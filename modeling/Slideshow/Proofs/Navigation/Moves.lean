/-
  Slideshow.Proofs.Navigation.Moves

  What all moves have in common: they keep the steps of the presentation, and they say truly
  whether the slide changed. Moves and calls about observers, one after another, make up
  everything that can be done to a navigation.
-/
import Slideshow.Navigation

namespace Slideshow

namespace Navigation

/-- Navigation begins at the first step. -/
theorem of_ofSteps {steps : List Nat} {n : Navigation} (h : ofSteps steps = .ok n) :
    n.steps = steps ∧ n.position = .first := by
  unfold ofSteps at h
  split at h
  · cases h
    exact ⟨rfl, rfl⟩
  · cases h

/-- A way to move keeps the steps and says truly whether the slide changes. -/
def IsMove (move : Navigation → Option (Move × Navigation)) : Prop :=
  ∀ n m n', move n = some (m, n') →
    n'.steps = n.steps ∧ (m.slideChanged = false ↔ n'.position.slide = n.position.slide)

theorem isMove_advanceStep? : IsMove advanceStep? := by
  intro n m n' h
  unfold advanceStep? at h
  split at h
  · cases h
    simp [moveTo]
  · split at h
    · cases h
      simp [moveTo]
    · cases h

theorem isMove_retreatStep? : IsMove retreatStep? := by
  intro n m n' h
  unfold retreatStep? at h
  split at h
  · cases h
    simp [moveTo]
  · split at h
    · rename_i hpos
      cases h
      refine ⟨rfl, ?_⟩
      simp only [moveTo]
      constructor
      · intro h
        cases h
      · intro h
        omega
    · cases h

theorem isMove_advanceSlide? : IsMove advanceSlide? := by
  intro n m n' h
  unfold advanceSlide? at h
  split at h
  · cases h
    simp [moveTo]
  · cases h

theorem isMove_retreatSlide? : IsMove retreatSlide? := by
  intro n m n' h
  unfold retreatSlide? at h
  split at h
  · rename_i hpos
    cases h
    refine ⟨rfl, ?_⟩
    simp only [moveTo]
    constructor
    · intro h
      cases h
    · intro h
      omega
  · cases h

theorem isMove_restart : IsMove fun n => some n.restart := by
  intro n m n' h
  cases h
  refine ⟨rfl, ?_⟩
  simp only [moveTo, Position.first, bne_eq_false_iff_eq]
  exact eq_comm

theorem isMove_goToStep? (step : Nat) : IsMove fun n => n.goToStep? step := by
  intro n m n' h
  simp only [goToStep?] at h
  split at h
  · cases h
    simp [moveTo]
  · cases h

/-! ## Calls -/

/-- A move that can be asked for. -/
inductive Go where
  | advanceStep
  | retreatStep
  | advanceSlide
  | retreatSlide
  | restart
  | goToStep (step : Nat)
  deriving DecidableEq

/-- Makes a move that is asked for, if there is a place to go to. -/
def Go.move? : Go → Navigation → Option (Move × Navigation)
  | advanceStep, n => n.advanceStep?
  | retreatStep, n => n.retreatStep?
  | advanceSlide, n => n.advanceSlide?
  | retreatSlide, n => n.retreatSlide?
  | restart, n => some n.restart
  | goToStep step, n => n.goToStep? step

theorem Go.isMove (g : Go) : IsMove g.move? := by
  cases g with
  | advanceStep => exact isMove_advanceStep?
  | retreatStep => exact isMove_retreatStep?
  | advanceSlide => exact isMove_advanceSlide?
  | retreatSlide => exact isMove_retreatSlide?
  | restart => exact isMove_restart
  | goToStep step => exact isMove_goToStep? step

/-- What can be asked of a navigation. -/
inductive Call where
  | move (g : Go)
  | subscribe
  | unsubscribe (observer : Nat)
  deriving DecidableEq

/-- The navigation behind a call; a move that is refused leaves it as it is. -/
def Call.run : Call → Navigation → Navigation
  | move g, n => ((g.move? n).map (·.2)).getD n
  | subscribe, n => n.subscribe.2
  | unsubscribe observer, n => (n.unsubscribe observer).2

/-- The navigation behind several calls. -/
def runAll (n : Navigation) (calls : List Call) : Navigation :=
  calls.foldl (fun n call => call.run n) n

variable {n n' : Navigation} {g : Go} {m : Move}

theorem run_move (h : g.move? n = some (m, n')) : (Call.move g).run n = n' := by
  rw [Call.run, h]
  rfl

theorem run_refused (h : g.move? n = none) : (Call.move g).run n = n := by
  rw [Call.run, h]
  rfl

@[simp] theorem steps_run (call : Call) (n : Navigation) : (call.run n).steps = n.steps := by
  cases call with
  | move g =>
    cases h : g.move? n with
    | none => rw [run_refused h]
    | some moved => rw [run_move h, (g.isMove n _ _ h).1]
  | subscribe => rfl
  | unsubscribe observer => rfl

@[simp] theorem steps_runAll (n : Navigation) (calls : List Call) :
    (n.runAll calls).steps = n.steps := by
  induction calls generalizing n with
  | nil => rfl
  | cons call calls ih => exact (ih (call.run n)).trans (steps_run call n)

theorem runAll_concat (n : Navigation) (calls : List Call) (call : Call) :
    n.runAll (calls ++ [call]) = call.run (n.runAll calls) := by
  rw [runAll, List.foldl_append]
  rfl

end Navigation

end Slideshow

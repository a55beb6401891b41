/-
  Slideshow.Proofs.Navigation.Order

  The steps of a presentation in one line. A position has an index, the number of steps
  before it, and the index determines the position (`Position.eq_of_index_eq`). Moves by one
  step are moves by one along the line, so each undoes the other; the other moves are told by
  slide and step. The main statement is `walks_in_order`.
-/
import Slideshow.Proofs.Navigation.Moves

namespace Slideshow

/-! ## Steps before a slide -/

section

variable {steps : List Nat}

/-- How many steps the slides before a slide have. -/
def stepsBefore (steps : List Nat) : Nat → Nat
  | 0 => 0
  | slide + 1 => stepsBefore steps slide + stepsIn steps slide

/-- How many steps all slides have. -/
def stepsInAll (steps : List Nat) : Nat := stepsBefore steps steps.length

theorem stepsBefore_le (steps : List Nat) {i j : Nat} (h : i ≤ j) :
    stepsBefore steps i ≤ stepsBefore steps j := by
  induction h with
  | refl => exact Nat.le_refl _
  | step _ ih => exact Nat.le_add_right_of_le ih

/-! ## The index of a position -/

namespace Position

/-- How many steps come before a position. -/
def index (steps : List Nat) (p : Position) : Nat := stepsBefore steps p.slide + p.step

variable {p q : Position}

/-- A step of a slide comes before all steps of later slides. -/
theorem index_lt_stepsBefore (hp : p.step < stepsIn steps p.slide) {slide : Nat}
    (h : p.slide < slide) : p.index steps < stepsBefore steps slide :=
  Nat.lt_of_lt_of_le (Nat.add_lt_add_left hp _) (stepsBefore_le steps (Nat.succ_le_of_lt h))

theorem index_lt_stepsInAll (hp : p.step < stepsIn steps p.slide) :
    p.index steps < stepsInAll steps :=
  index_lt_stepsBefore hp (lt_length_of_lt_stepsIn hp)

/-- Two positions with one index are the same. -/
theorem eq_of_index_eq (hp : p.step < stepsIn steps p.slide) (hq : q.step < stepsIn steps q.slide)
    (h : p.index steps = q.index steps) : p = q := by
  have hstart : ∀ r : Position, stepsBefore steps r.slide ≤ r.index steps := fun r =>
    Nat.le_add_right _ _
  -- of two steps on different slides the one on the earlier slide has the smaller index
  have hslide : p.slide = q.slide := by
    rcases Nat.lt_trichotomy p.slide q.slide with hlt | heq | hlt
    · have hbefore := Nat.lt_of_lt_of_le (index_lt_stepsBefore hp hlt) (hstart q)
      exact absurd h (Nat.ne_of_lt hbefore)
    · exact heq
    · have hbefore := Nat.lt_of_lt_of_le (index_lt_stepsBefore hq hlt) (hstart p)
      exact absurd h.symm (Nat.ne_of_lt hbefore)
  have hstep : p.step = q.step := by
    rw [index, index, hslide] at h
    exact Nat.add_left_cancel h
  cases p
  cases q
  cases hslide
  cases hstep
  rfl

/-- Behind the last step of a slide comes the first one of the next slide. -/
theorem index_nextSlide (h : p.step + 1 = stepsIn steps p.slide) :
    index steps ⟨p.slide + 1, 0⟩ = p.index steps + 1 := by
  simp only [index, stepsBefore]
  omega

end Position

end

namespace Navigation

variable {n n' : Navigation} {g : Go} {m : Move}

/-! ## Moves by one step -/

/-- Where a move leads, if there is a place to go to. -/
def Go.target? (g : Go) (n : Navigation) : Option Position :=
  (g.move? n).map fun r => r.2.position

/-- How many steps come before the current one. -/
def index (n : Navigation) : Nat := n.position.index n.steps

theorem index_lt_stepsInAll (n : Navigation) : n.index < stepsInAll n.steps :=
  Position.index_lt_stepsInAll n.valid

/-- The last step of the last slide is the last one of all. -/
theorem index_last (hstep : ¬ n.position.step + 1 < stepsIn n.steps n.position.slide)
    (hslide : ¬ n.position.slide + 1 < n.steps.length) : n.index + 1 = stepsInAll n.steps := by
  have hvalid := n.valid
  have hlast : n.steps.length = n.position.slide + 1 :=
    Nat.le_antisymm (Nat.le_of_not_lt hslide) n.slide_lt
  rw [index, Position.index, stepsInAll, hlast, stepsBefore]
  omega

theorem index_target?_advanceStep (n : Navigation) :
    (Go.advanceStep.target? n).map (Position.index n.steps) =
      if n.index + 1 < stepsInAll n.steps then some (n.index + 1) else none := by
  simp only [Go.target?, Go.move?, advanceStep?]
  split
  · rename_i hstep
    have hlt : n.index + 1 < stepsInAll n.steps :=
      Position.index_lt_stepsInAll (p := ⟨n.position.slide, n.position.step + 1⟩) hstep
    rw [if_pos hlt]
    rfl
  · rename_i hstep
    split
    · rename_i hslide
      -- the current step is the last one of its slide
      have hvalid := n.valid
      have hindex : Position.index n.steps ⟨n.position.slide + 1, 0⟩ = n.index + 1 :=
        Position.index_nextSlide (by omega)
      have hlt := Position.index_lt_stepsInAll (p := ⟨n.position.slide + 1, 0⟩)
        (stepsIn_pos n.steps_pos hslide)
      rw [hindex] at hlt
      rw [if_pos hlt, ← hindex]
      rfl
    · rename_i hslide
      rw [if_neg (Nat.not_lt_of_le (Nat.le_of_eq (index_last hstep hslide).symm))]
      rfl

theorem index_target?_retreatStep (n : Navigation) :
    (Go.retreatStep.target? n).map (Position.index n.steps) =
      if 0 < n.index then some (n.index - 1) else none := by
  simp only [Go.target?, Go.move?, retreatStep?]
  split
  · rename_i hstep
    have hpos : 0 < n.index := Nat.add_pos_right _ hstep
    have hindex : Position.index n.steps ⟨n.position.slide, n.position.step - 1⟩ =
        n.index - 1 := by
      rw [index, Position.index, Position.index, Nat.add_sub_assoc hstep]
    rw [if_pos hpos, ← hindex]
    rfl
  · rename_i hstep
    split
    · rename_i hslide
      -- the last step of the slide before comes right before the current one
      have hlast : n.position.slide - 1 < n.steps.length :=
        Nat.lt_of_le_of_lt (Nat.sub_le _ _) n.slide_lt
      have hcount := stepsIn_pos n.steps_pos hlast
      let before : Position := ⟨n.position.slide - 1, stepsIn n.steps (n.position.slide - 1) - 1⟩
      have hindex : Position.index n.steps ⟨before.slide + 1, 0⟩ = before.index n.steps + 1 :=
        Position.index_nextSlide (Nat.sub_add_cancel hcount)
      have hsame : (⟨before.slide + 1, 0⟩ : Position) = n.position := by
        rw [Nat.sub_add_cancel hslide, ← Nat.eq_zero_of_not_pos hstep]
      rw [hsame, ← index] at hindex
      rw [if_pos (by omega), hindex, Nat.add_sub_cancel]
      rfl
    · rename_i hslide
      have hzero : n.index = 0 := by
        rw [index, Position.index, Nat.eq_zero_of_not_pos hslide, Nat.eq_zero_of_not_pos hstep]
        rfl
      rw [hzero]
      rfl

/-- A move can be made exactly if it leads somewhere. -/
theorem canAdvanceStep_eq (n : Navigation) :
    n.canAdvanceStep = (Go.advanceStep.target? n).isSome := by
  simp only [canAdvanceStep, canAdvanceSlide, Go.target?, Go.move?, advanceStep?]
  split
  · rename_i hstep
    simp [hstep]
  · rename_i hstep
    split <;> rename_i hslide <;> simp [hstep, hslide]

theorem canRetreatStep_eq (n : Navigation) :
    n.canRetreatStep = (Go.retreatStep.target? n).isSome := by
  simp only [canRetreatStep, canRetreatSlide, Go.target?, Go.move?, retreatStep?]
  split
  · rename_i hstep
    simp [hstep]
  · rename_i hstep
    split <;> rename_i hslide <;> simp [hstep, hslide]

theorem canAdvanceStep_iff : n.canAdvanceStep = true ↔ n.index + 1 < stepsInAll n.steps := by
  rw [canAdvanceStep_eq, ← Option.isSome_map, index_target?_advanceStep]
  split <;> simp [*]

theorem canRetreatStep_iff : n.canRetreatStep = true ↔ 0 < n.index := by
  rw [canRetreatStep_eq, ← Option.isSome_map, index_target?_retreatStep]
  split <;> simp [*]

/-! ## Undoing a move -/

theorem target?_of_move? (h : g.move? n = some (m, n')) : g.target? n = some n'.position := by
  rw [Go.target?, h]
  rfl

/-- Where a move leads is a step of the presentation. -/
theorem valid_of_target? {p : Position} (h : g.target? n = some p) :
    p.step < stepsIn n.steps p.slide := by
  obtain ⟨⟨m, n'⟩, hmove, rfl⟩ := Option.map_eq_some_iff.1 h
  rw [← (g.isMove _ _ _ hmove).1]
  exact n'.valid

/-- A move that leads to the index of a position leads to the position. -/
theorem target?_eq_of_index {p : Position} (hp : p.step < stepsIn n.steps p.slide)
    (h : (g.target? n).map (Position.index n.steps) = some (p.index n.steps)) :
    g.target? n = some p := by
  obtain ⟨q, hq, hindex⟩ := Option.map_eq_some_iff.1 h
  rw [hq, Position.eq_of_index_eq (valid_of_target? hq) hp hindex]

/-- The index behind a move, in the steps that the move keeps. -/
theorem index_of_move? (h : g.move? n = some (m, n')) :
    (g.target? n).map (Position.index n.steps) = some n'.index := by
  rw [target?_of_move? h, Option.map_some, index, (g.isMove _ _ _ h).1]

theorem retreat_undoes_advance (h : Go.advanceStep.move? n = some (m, n')) :
    Go.retreatStep.target? n' = some n.position := by
  have hsteps := (Go.advanceStep.isMove _ _ _ h).1
  have hindex := index_of_move? h
  rw [index_target?_advanceStep] at hindex
  split at hindex
  · have hnext : n'.index = n.index + 1 := (Option.some.inj hindex).symm
    refine target?_eq_of_index (hsteps ▸ n.valid) ?_
    rw [index_target?_retreatStep, hnext, if_pos (Nat.succ_pos _), Nat.add_sub_cancel, index,
      hsteps]
  · cases hindex

theorem advance_undoes_retreat (h : Go.retreatStep.move? n = some (m, n')) :
    Go.advanceStep.target? n' = some n.position := by
  have hsteps := (Go.retreatStep.isMove _ _ _ h).1
  have hindex := index_of_move? h
  rw [index_target?_retreatStep] at hindex
  split at hindex
  · rename_i hpos
    have hnext : n'.index + 1 = n.index := by
      rw [← Option.some.inj hindex, Nat.sub_add_cancel hpos]
    have hlt := n.index_lt_stepsInAll
    refine target?_eq_of_index (hsteps ▸ n.valid) ?_
    rw [index_target?_advanceStep, hnext, hsteps, if_pos hlt, index]
  · cases hindex

/-! ## Other moves -/

theorem target?_advanceSlide (n : Navigation) : Go.advanceSlide.target? n =
    if n.position.slide + 1 < n.steps.length then some ⟨n.position.slide + 1, 0⟩ else none := by
  simp only [Go.target?, Go.move?, advanceSlide?]
  split <;> rfl

theorem target?_retreatSlide (n : Navigation) : Go.retreatSlide.target? n =
    if 0 < n.position.slide then some ⟨n.position.slide - 1, 0⟩ else none := by
  simp only [Go.target?, Go.move?, retreatSlide?]
  split <;> rfl

theorem target?_goToStep (n : Navigation) (step : Nat) : (Go.goToStep step).target? n =
    if step < stepsIn n.steps n.position.slide then some ⟨n.position.slide, step⟩ else none := by
  simp only [Go.target?, Go.move?, goToStep?]
  split <;> rfl

/-! ## The order of the steps -/

/-- What moves do in a presentation whose slides have the given numbers of steps. -/
structure InOrder (steps : List Nat) (n : Navigation) : Prop where
  slide_lt : n.position.slide < steps.length
  step_lt : n.position.step < stepsIn steps n.position.slide
  /-- The next step has the next index, up to the last one. -/
  advanceStep : (Go.advanceStep.target? n).map (Position.index steps) =
    if n.position.index steps + 1 < stepsInAll steps then some (n.position.index steps + 1)
    else none
  canAdvanceStep : n.canAdvanceStep = true ↔ n.position.index steps + 1 < stepsInAll steps
  retreatStep : (Go.retreatStep.target? n).map (Position.index steps) =
    if 0 < n.position.index steps then some (n.position.index steps - 1) else none
  canRetreatStep : n.canRetreatStep = true ↔ 0 < n.position.index steps
  advance_retreat : ∀ m n', Go.advanceStep.move? n = some (m, n') →
    Go.retreatStep.target? n' = some n.position
  retreat_advance : ∀ m n', Go.retreatStep.move? n = some (m, n') →
    Go.advanceStep.target? n' = some n.position
  advanceSlide : Go.advanceSlide.target? n =
    if n.position.slide + 1 < steps.length then some ⟨n.position.slide + 1, 0⟩ else none
  canAdvanceSlide : n.canAdvanceSlide = true ↔ n.position.slide + 1 < steps.length
  retreatSlide : Go.retreatSlide.target? n =
    if 0 < n.position.slide then some ⟨n.position.slide - 1, 0⟩ else none
  canRetreatSlide : n.canRetreatSlide = true ↔ 0 < n.position.slide
  goToStep : ∀ step, (Go.goToStep step).target? n =
    if step < stepsIn steps n.position.slide then some ⟨n.position.slide, step⟩ else none
  restart : Go.restart.target? n = some ⟨0, 0⟩
  slideChanged : ∀ (g : Go) m n', g.move? n = some (m, n') →
    (m.slideChanged = true ↔ n'.position.slide ≠ n.position.slide)
  /-- A move that leads somewhere is made. -/
  moved : ∀ (g : Go) p, g.target? n = some p → ((Call.move g).run n).position = p
  refused : ∀ g : Go, g.target? n = none → ((Call.move g).run n).position = n.position

theorem inOrder (n : Navigation) : InOrder n.steps n where
  slide_lt := n.slide_lt
  step_lt := n.valid
  advanceStep := n.index_target?_advanceStep
  canAdvanceStep := canAdvanceStep_iff
  retreatStep := n.index_target?_retreatStep
  canRetreatStep := canRetreatStep_iff
  advance_retreat _ _ h := retreat_undoes_advance h
  retreat_advance _ _ h := advance_undoes_retreat h
  advanceSlide := n.target?_advanceSlide
  canAdvanceSlide := decide_eq_true_iff
  retreatSlide := n.target?_retreatSlide
  canRetreatSlide := decide_eq_true_iff
  goToStep := n.target?_goToStep
  restart := rfl
  slideChanged g m n' h := by
    rw [ne_eq, ← (g.isMove n m n' h).2, Bool.not_eq_false]
  moved g p h := by
    obtain ⟨⟨m, n'⟩, hmove, rfl⟩ := Option.map_eq_some_iff.1 h
    rw [run_move hmove]
  refused g h := by rw [run_refused (Option.map_eq_none_iff.1 h)]

theorem exists_ofSteps {steps : List Nat} (hsome : steps ≠ [])
    (hpos : ∀ count ∈ steps, 0 < count) : ∃ start, ofSteps steps = .ok start := by
  rw [ofSteps, dif_pos ⟨hsome, hpos⟩]
  exact ⟨_, rfl⟩

/-- From its beginning on a presentation walks its steps in their order, whatever moves are
    asked for and whoever observes them. -/
theorem walks_in_order {steps : List Nat} (hsome : steps ≠ []) (hpos : ∀ count ∈ steps, 0 < count) :
    ∃ start, ofSteps steps = .ok start ∧ start.position = ⟨0, 0⟩ ∧
      ∀ calls : List Call, InOrder steps (start.runAll calls) := by
  obtain ⟨start, hstart⟩ := exists_ofSteps hsome hpos
  obtain ⟨hsteps, hposition⟩ := of_ofSteps hstart
  refine ⟨start, hstart, hposition, fun calls => ?_⟩
  have horder := (start.runAll calls).inOrder
  rwa [steps_runAll, hsteps] at horder

/-- Three slides, the second one of a single step, walked there and back. -/
theorem walks_in_order_demo :
    ([3, 1, 4] : List Nat) ≠ [] ∧ (∀ count ∈ [3, 1, 4], 0 < count) ∧
      ∃ start, ofSteps [3, 1, 4] = .ok start ∧ start.position = ⟨0, 0⟩ ∧
        ∀ calls : List Call, InOrder [3, 1, 4] (start.runAll calls) := by
  have hpos : ∀ count ∈ [3, 1, 4], 0 < count := by decide
  exact ⟨List.cons_ne_nil _ _, hpos, walks_in_order (List.cons_ne_nil _ _) hpos⟩

end Navigation

end Slideshow

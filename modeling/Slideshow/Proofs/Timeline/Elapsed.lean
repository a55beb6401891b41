/-
  Slideshow.Proofs.Timeline.Elapsed

  Whether the time of a clock goes back. Once all tweens are done, a clock does not stand behind
  the end of the tweens that are on it. As long as no tween is taken away it never stands there
  anyway, since a tween that is not done ends later (`Tween.Timed.le_finish_of_not_over`); so
  its time goes forward. But where the last tween to end was cancelled, the end of those that are
  left may be past, and then the clock is led back to it (`elapsed_led_back`). That is the only
  way (`elapsed_forward`).
-/
import Slideshow.Proofs.Decimal.Span
import Slideshow.Proofs.Timeline.Calls

namespace Slideshow

open Decimal

/-! ## Timed tweens -/

namespace Tween

/-- The tween has a start and a length, and its cycles can be counted in a machine word. -/
structure Timed (t : Tween Float) : Prop where
  start : 0 ≤ t.start
  duration : 0 ≤ t.duration
  repetitions : t.repetitions < 2 ^ 32

instance (t : Tween Float) : Decidable t.Timed :=
  decidable_of_iff (0 ≤ t.start ∧ 0 ≤ t.duration ∧ t.repetitions < 2 ^ 32)
    ⟨fun h => ⟨h.1, h.2.1, h.2.2⟩, fun h => ⟨h.start, h.duration, h.repetitions⟩⟩

variable {t : Tween Float} {now : Float}

theorem Timed.total_nonneg (h : t.Timed) : 0 ≤ t.total := by
  have hone : (0 : Float) ≤ 1 := by decide +kernel
  have hlong : t.repetitions < 2 ^ 53 := h.repetitions.trans (by decide)
  have hcycles := nonneg_ofNat hlong
  -- there is one cycle at least, and there are not too many
  have hpos : 0 < Float.ofNat t.repetitions + 1 :=
    Number.lt_of_lt_of_le (by decide +kernel) (le_add_left hone hcycles)
  have hbounded : Bounded (298 + 2) (Float.ofNat t.repetitions + 1) :=
    bounded_add hcycles hone (bounded_ofNat (hlong.trans (by decide)))
      (bounded_ofNat (n := 1) (by decide)) (by decide) (by decide)
  exact nonneg_mul h.duration hpos (isFinite_of_bounded hbounded)

theorem Timed.finish_nonneg (h : t.Timed) : 0 ≤ t.finish := nonneg_add h.start h.total_nonneg

/-- The end of a tween that is not complete is still to come. -/
theorem Timed.le_finish_of_not_over (h : t.Timed) (hnow : 0 ≤ now) (hnot : ¬ t.Over now) :
    now ≤ t.finish := by
  have hfinish := le_add h.start h.total_nonneg
  by_cases hbegun : t.Begun now
  · have hstart := Number.le_of_not_lt (Number.self_of_le hnow).2 (Number.self_of_le h.start).2
      hbegun
    exact le_add_of_not_le_sub h.start h.total_nonneg hstart fun hlong => hnot ⟨hbegun, hlong⟩
  · exact Number.le_trans (Number.le_of_lt (Decidable.not_not.1 hbegun)) hfinish

/-- A tween that ends before another one begins is complete when that one has begun. -/
theorem Timed.over_of_finish_lt {u : Tween Float} (h : t.Timed) (hlt : t.finish < u.start)
    (hnow : 0 ≤ now) (hbegun : u.Begun now) : t.Over now := by
  by_contra hnot
  exact hbegun (Number.lt_of_le_of_lt (h.le_finish_of_not_over hnow hnot) hlt)

end Tween

namespace Clock

variable {S : Type} [Stage S] {c : Clock} {x : Clock × S} {o : Call}

/-! ## The end of all tweens -/

theorem zero_le_zero : (0 : Float) ≤ 0 := by decide +kernel

/-- The latest of several times is no sooner than any of them. -/
theorem le_foldl_later {es : List Entry} (hes : ∀ e ∈ es, 0 ≤ e.tween.finish) {d : Float}
    (hd : 0 ≤ d) :
    let latest := es.foldl (fun d e => Scalar.later d e.tween.finish) d
    d ≤ latest ∧ ∀ e ∈ es, e.tween.finish ≤ latest := by
  induction es generalizing d with
  | nil => exact ⟨(Number.self_of_le hd).2, fun e he => by cases he⟩
  | cons e es ih =>
    obtain ⟨hleft, hright⟩ := le_later hd (hes e List.mem_cons_self)
    obtain ⟨hrest, hall⟩ := ih (fun e he => hes e (List.mem_cons_of_mem _ he))
      (Number.le_trans hd hleft)
    refine ⟨Number.le_trans hleft hrest, fun e' he' => ?_⟩
    rcases List.mem_cons.1 he' with rfl | he'
    · exact Number.le_trans hright hrest
    · exact hall e' he'

theorem foldl_later_le {es : List Entry} {d b : Float} (hd : d ≤ b)
    (hes : ∀ e ∈ es, e.tween.finish ≤ b) :
    es.foldl (fun d e => Scalar.later d e.tween.finish) d ≤ b := by
  induction es generalizing d with
  | nil => exact hd
  | cons e es ih =>
    exact ih (later_le hd (hes e List.mem_cons_self)) fun e he => hes e (List.mem_cons_of_mem _ he)

/-- The end depends on the tweens alone, not on how far they have come. -/
theorem duration_congr {c' : Clock} (h : c.tweens = c'.tweens) : c.duration = c'.duration := by
  have hfold : ∀ c : Clock,
      c.duration = c.tweens.foldl (fun d t => Scalar.later d t.finish) 0 := fun c => by
    rw [duration, tweens, List.foldl_map]
  rw [hfold, h, hfold]

/-- A clock on which time can pass, with timed tweens. -/
structure Running (c : Clock) : Prop where
  elapsed : 0 ≤ c.elapsed
  scale : c.scale.isFinite = true ∧ 0 < c.scale
  timed : ∀ e ∈ c.entries, e.tween.Timed

namespace Running

variable (h : Running c)
include h

theorem duration_nonneg : 0 ≤ c.duration :=
  (le_foldl_later (fun e he => (h.timed e he).finish_nonneg) zero_le_zero).1

theorem finish_le {e : Entry} (he : e ∈ c.entries) : e.tween.finish ≤ c.duration :=
  (le_foldl_later (fun e he => (h.timed e he).finish_nonneg) zero_le_zero).2 e he

theorem le_now {dt : Float} (hdt : 0 ≤ dt) : c.elapsed ≤ c.elapsed + dt * c.scale :=
  le_add h.elapsed (nonneg_mul hdt h.scale.2 h.scale.1)

end Running

/-- With more tweens the end of all is no sooner. -/
theorem Running.duration_mono {c' : Clock} (h' : Running c')
    (hsub : ∀ e ∈ c.entries, e ∈ c'.entries) : c.duration ≤ c'.duration :=
  foldl_later_le h'.duration_nonneg fun e he => h'.finish_le (hsub e he)

/-! ## One call -/

theorem scale_advance (c : Clock) (dt : Float) (s : S) : (c.advance dt s).1.scale = c.scale := by
  unfold advance
  split
  · dsimp only
    split <;> rfl
  · rfl

theorem duration_advance (c : Clock) (dt : Float) (s : S) :
    (c.advance dt s).1.duration = c.duration := by
  refine duration_congr ?_
  rw [tweens, entries_advance]
  cases (Call.advance dt).time? c with
  | none => rfl
  | some now => exact Entry.runAll_tweens now c.entries s

/-- Time passes; but once all tweens are done, the clock does not stand behind their end. -/
theorem elapsed_advance (c : Clock) {dt : Float} (hdt : 0 ≤ dt) (s : S) :
    (c.advance dt s).1.elapsed =
      if (c.advance dt s).1.isFinished = true then
        Scalar.earlier (c.elapsed + dt * c.scale) c.duration
      else c.elapsed + dt * c.scale := by
  let passed : Clock :=
    { c with
      entries := (Entry.runAll (c.elapsed + dt * c.scale) c.entries s).1
      elapsed := c.elapsed + dt * c.scale }
  have hduration : passed.duration = c.duration :=
    duration_congr (Entry.runAll_tweens _ c.entries s)
  have hadvance : (c.advance dt s).1 =
      if passed.isFinished = true then
        { passed with elapsed := Scalar.earlier passed.elapsed passed.duration }
      else passed := by
    rw [advance, if_pos hdt]
  rw [hadvance]
  by_cases hfinished : passed.isFinished = true
  · rw [if_pos hfinished, hduration]
    exact (if_pos hfinished).symm
  · rw [if_neg hfinished]
    exact (if_neg hfinished).symm

namespace Call

/-- The call does not go back to the beginning, and a tween that it schedules is timed. -/
def Timed : Call → Prop
  | schedule t => t.Timed
  | cancelAll => False
  | _ => True

instance (o : Call) : Decidable o.Timed :=
  match o with
  | schedule t => inferInstanceAs (Decidable t.Timed)
  | cancelAll => .isFalse id
  | cancel _ => .isTrue trivial
  | setScale _ => .isTrue trivial
  | advance _ => .isTrue trivial

/-- The call takes one tween from the clock. -/
def isCancel : Call → Bool
  | cancel _ => true
  | _ => false

end Call

theorem scale_new : new.scale.isFinite = true ∧ 0 < new.scale := by decide +kernel

theorem scale_run (h : x.1.scale.isFinite = true ∧ 0 < x.1.scale) (o : Call) :
    (o.run x).1.scale.isFinite = true ∧ 0 < (o.run x).1.scale := by
  cases o with
  | setScale scale => exact setScale_scale x.1 h
  | advance dt =>
    change (x.1.advance dt x.2).1.scale.isFinite = true ∧ 0 < (x.1.advance dt x.2).1.scale
    rwa [scale_advance]
  | _ => exact h

theorem scale_runCalls (h : x.1.scale.isFinite = true ∧ 0 < x.1.scale) (os : List Call) :
    (runCalls os x).1.scale.isFinite = true ∧ 0 < (runCalls os x).1.scale := by
  induction os generalizing x with
  | nil => exact h
  | cons o os ih => exact ih (scale_run h o)

/-- Time can pass on a clock that was cleared. -/
theorem running_cleared (h : x.1.scale.isFinite = true ∧ 0 < x.1.scale) :
    Running (Call.cancelAll.run x).1 where
  elapsed := zero_le_zero
  scale := h
  timed e he := by cases he

theorem cleared_elapsed_le (x : Clock × S) :
    (Call.cancelAll.run x).1.elapsed ≤ (Call.cancelAll.run x).1.duration := zero_le_zero

/-- The tweens on a clock stay timed. -/
theorem Running.timed_run (h : Running x.1) (ho : o.Timed) :
    ∀ e ∈ (o.run x).1.entries, e.tween.Timed := by
  intro e' he'
  rcases Call.exists_origin he' with ⟨t, rfl, rfl⟩ | ⟨e, he, hfollows, -⟩
  · exact ho
  · rw [hfollows.tween]
    exact h.timed e he

theorem Running.elapsed_run_nonneg (h : Running x.1) (o : Call) : 0 ≤ (o.run x).1.elapsed := by
  cases o with
  | schedule t => exact h.elapsed
  | cancel handle => exact h.elapsed
  | cancelAll => exact zero_le_zero
  | setScale scale =>
    change 0 ≤ (x.1.setScale scale).elapsed
    rw [setScale_elapsed]
    exact h.elapsed
  | advance dt =>
    change 0 ≤ (x.1.advance dt x.2).1.elapsed
    by_cases hdt : 0 ≤ dt
    · have hnow := Number.le_trans h.elapsed (h.le_now hdt)
      rw [elapsed_advance _ hdt]
      split
      · exact le_earlier hnow h.duration_nonneg
      · exact hnow
    · rw [advance, if_neg hdt]
      exact h.elapsed

theorem Running.run (h : Running x.1) (ho : o.Timed) : Running (o.run x).1 where
  elapsed := h.elapsed_run_nonneg o
  scale := scale_run h.scale o
  timed := h.timed_run ho

theorem running_runCalls (h : Running x.1) {os : List Call} (hos : ∀ o ∈ os, o.Timed) :
    Running (runCalls os x).1 := by
  induction os generalizing x with
  | nil => exact h
  | cons o os ih =>
    exact ih (h.run (hos o List.mem_cons_self)) fun o' ho' => hos o' (List.mem_cons_of_mem _ ho')

/-- A clock is led back by time that passes if all tweens are done then, and their end was past
    before. -/
def LedBack (o : Call) (x : Clock × S) : Prop :=
  (∃ dt, o = .advance dt ∧ 0 ≤ dt) ∧ (o.run x).1.isFinished = true ∧ x.1.duration < x.1.elapsed

/-- A clock that is led back is led to the end of its tweens. -/
theorem Running.elapsed_of_past (h : Running c) {dt : Float} (hdt : 0 ≤ dt) {s : S}
    (hfinished : (c.advance dt s).1.isFinished = true) (hpast : c.duration < c.elapsed) :
    (c.advance dt s).1.elapsed = c.duration := by
  -- the new time is later still
  have hlater : ¬ c.elapsed + dt * c.scale ≤ c.duration := fun hle =>
    Number.not_lt_of_le (Number.le_trans (h.le_now hdt) hle) hpast
  have hduration := (Number.self_of_le h.duration_nonneg).2
  rw [elapsed_advance c hdt, if_pos hfinished, Scalar.earlier, if_neg hlater, if_pos hduration]

/-- While time passes, the clock goes forward unless it is led back. -/
theorem Running.le_elapsed_advance (h : Running c) {dt : Float} (hdt : 0 ≤ dt) (s : S) :
    c.elapsed ≤ (c.advance dt s).1.elapsed ↔
      ¬ ((c.advance dt s).1.isFinished = true ∧ c.duration < c.elapsed) := by
  by_cases hback : (c.advance dt s).1.isFinished = true ∧ c.duration < c.elapsed
  · refine iff_of_false (fun hle => ?_) (not_not_intro hback)
    rw [h.elapsed_of_past hdt hback.1 hback.2] at hle
    exact Number.not_lt_of_le hle hback.2
  · refine iff_of_true ?_ hback
    have hnow := h.le_now hdt
    rw [elapsed_advance c hdt]
    split
    · rename_i hfinished
      refine le_earlier hnow (Number.le_of_not_lt ?_ ?_ fun hlt => hback ⟨hfinished, hlt⟩)
      · exact (Number.self_of_le h.duration_nonneg).2
      · exact (Number.self_of_le h.elapsed).2
    · exact hnow

theorem Running.elapsed_ledBack (h : Running x.1) (hback : LedBack o x) :
    (o.run x).1.elapsed = x.1.duration := by
  obtain ⟨⟨dt, rfl, hdt⟩, hfinished, hpast⟩ := hback
  exact h.elapsed_of_past hdt hfinished hpast

/-- A call other than to begin again never leads the clock back, unless by time that passes. -/
theorem Running.le_elapsed_run (h : Running x.1) (ho : o.Timed) :
    x.1.elapsed ≤ (o.run x).1.elapsed ↔ ¬ LedBack o x := by
  have hself := (Number.self_of_le h.elapsed).2
  have hother : (∀ dt, o ≠ .advance dt) → ¬ LedBack o x := fun hne ⟨⟨dt, hadvance, _⟩, _⟩ =>
    hne dt hadvance
  cases o with
  | schedule t => exact iff_of_true hself (hother fun dt => Call.noConfusion)
  | cancel handle => exact iff_of_true hself (hother fun dt => Call.noConfusion)
  | cancelAll => exact ho.elim
  | setScale scale =>
    refine iff_of_true ?_ (hother fun dt => Call.noConfusion)
    change _ ≤ (x.1.setScale scale).elapsed
    rwa [setScale_elapsed]
  | advance dt =>
    by_cases hdt : 0 ≤ dt
    · have hled : LedBack (.advance dt) x ↔
          (x.1.advance dt x.2).1.isFinished = true ∧ x.1.duration < x.1.elapsed :=
        and_iff_right ⟨dt, rfl, hdt⟩
      rw [hled]
      exact h.le_elapsed_advance hdt x.2
    · refine iff_of_true ?_ fun ⟨⟨dt', heq, hdt'⟩, _⟩ => ?_
      · change _ ≤ (x.1.advance dt x.2).1.elapsed
        rwa [advance, if_neg hdt]
      · cases heq
        exact hdt hdt'

/-! ## Several calls -/

/-- No tween that is cancelled leaves the clock at a time behind the end of the others. -/
def Covered : List Call → Clock × S → Prop
  | [], _ => True
  | o :: os, x =>
    (o.isCancel = true → (o.run x).1.elapsed ≤ (o.run x).1.duration) ∧ Covered os (o.run x)

instance : (os : List Call) → (x : Clock × S) → Decidable (Covered os x)
  | [], _ => .isTrue trivial
  | o :: os, x =>
    have := instDecidableCovered os (o.run x)
    inferInstanceAs (Decidable ((o.isCancel = true → _) ∧ _))

/-- What has passed ends no later than the tweens, as long as they are on the clock: where not
    all are done, one of them is still to end. -/
theorem Running.elapsed_le_duration_advance (h : Running c) (hle : c.elapsed ≤ c.duration)
    (dt : Float) (s : S) : (c.advance dt s).1.elapsed ≤ c.duration := by
  by_cases hdt : 0 ≤ dt
  · have hnow := Number.le_trans h.elapsed (h.le_now hdt)
    rw [elapsed_advance c hdt]
    split
    · exact earlier_le (Number.self_of_le h.duration_nonneg).2
    · rename_i hfinished
      rw [isFinished_iff] at hfinished
      push Not at hfinished
      obtain ⟨e', he', hdone⟩ := hfinished
      rw [entries_advance, Call.time?, if_pos hdt] at he'
      obtain ⟨e, he, hfollows, -⟩ := Entry.exists_origin_runAll he'
      have hnot : ¬ e.tween.Over (c.elapsed + dt * c.scale) := fun hover =>
        hdone (hfollows.done.2 (.inr ⟨_, List.mem_singleton_self _, hover⟩))
      exact Number.le_trans ((h.timed e he).le_finish_of_not_over hnow hnot) (h.finish_le he)
  · rw [advance, if_neg hdt]
    exact hle

/-- A call keeps the clock before the end of its tweens, unless it cancels one. -/
theorem Running.elapsed_le_duration_run (h : Running x.1) (hle : x.1.elapsed ≤ x.1.duration)
    (ho : o.Timed) (hcancel : ¬ o.isCancel = true) :
    (o.run x).1.elapsed ≤ (o.run x).1.duration := by
  have hrunning := h.run ho
  cases o with
  | schedule t =>
    refine Number.le_trans hle (hrunning.duration_mono fun e he => ?_)
    exact (schedule_perm x.1 t).mem_iff.2 (List.mem_cons_of_mem _ he)
  | cancel handle => exact absurd rfl hcancel
  | cancelAll => exact ho.elim
  | setScale scale =>
    change (x.1.setScale scale).elapsed ≤ (x.1.setScale scale).duration
    rwa [setScale_elapsed, duration, setScale_entries]
  | advance dt =>
    change (x.1.advance dt x.2).1.elapsed ≤ (x.1.advance dt x.2).1.duration
    rw [duration_advance]
    exact h.elapsed_le_duration_advance hle dt x.2

theorem Running.elapsed_le_duration_runCalls (h : Running x.1)
    (hle : x.1.elapsed ≤ x.1.duration) {os : List Call} (hos : ∀ o ∈ os, o.Timed)
    (hcovered : Covered os x) : (runCalls os x).1.elapsed ≤ (runCalls os x).1.duration := by
  induction os generalizing x with
  | nil => exact hle
  | cons o os ih =>
    have ho := hos o List.mem_cons_self
    refine ih (h.run ho) ?_ (fun o' ho' => hos o' (List.mem_cons_of_mem _ ho')) hcovered.2
    by_cases hcancel : o.isCancel = true
    · exact hcovered.1 hcancel
    · exact h.elapsed_le_duration_run hle ho hcancel

/-- From its creation on, or since it was last cleared, the time of a clock with timed tweens goes
    forward from one call to the next, unless it is led back: time passes, all tweens are
    done, and the end of all of them was past before; it is led to that end then. That cannot
    be if no cancellation left the clock behind the end of the tweens that it did not take
    away. -/
theorem elapsed_forward (before : List Call) (s : S) (os : List Call) (o : Call)
    (hos : ∀ o' ∈ os ++ [o], o'.Timed) :
    let start := Call.cancelAll.run (runCalls before (new, s))
    let x := runCalls os start
    (x.1.elapsed ≤ (o.run x).1.elapsed ↔ ¬ LedBack o x) ∧
      (LedBack o x → (o.run x).1.elapsed = x.1.duration) ∧
      (Covered os start → ¬ LedBack o x) := by
  intro start x
  have hscale := scale_runCalls (x := (new, s)) scale_new before
  have hstart : Running start.1 := running_cleared hscale
  have hcleared : start.1.elapsed ≤ start.1.duration := cleared_elapsed_le _
  clear_value start
  have hos' : ∀ o' ∈ os, o'.Timed := fun o' ho' => hos o' (List.mem_append_left _ ho')
  have ho : o.Timed := hos o (List.mem_append_right os List.mem_cons_self)
  have hx : Running x.1 := running_runCalls hstart hos'
  refine ⟨hx.le_elapsed_run ho, hx.elapsed_ledBack, fun hcovered hback => ?_⟩
  have hle := hstart.elapsed_le_duration_runCalls hcleared hos' hcovered
  exact Number.not_lt_of_le hle hback.2.2

/-- A clock whose shorter tween is cancelled goes forward. -/
theorem elapsed_forward_demo :
    let s : Scene := ⟨[], ⟨none, "svg", []⟩, [], []⟩
    let os : List Call := [.schedule (.basic .gap 0 1 []), .schedule (.basic .gap 0 10 []),
      .advance 2, .cancel 0]
    let x := runCalls os (Call.cancelAll.run (runCalls [.setScale 2, .advance 1] (new, s)))
    (∀ o ∈ os ++ [.advance 10], o.Timed) ∧
      x.1.elapsed ≤ ((Call.advance 10).run x).1.elapsed := by
  intro s os x
  have hos : ∀ o ∈ os ++ [.advance 10], o.Timed := by decide +kernel
  obtain ⟨hforward, -, hcovered⟩ :=
    elapsed_forward [.setScale 2, .advance 1] s os (.advance 10) hos
  exact ⟨hos, hforward.2 (hcovered (by decide +kernel))⟩

/-- A clock whose longer tween is cancelled is led back to the end of the shorter one as soon as it
    is advanced, even if no time passes. -/
theorem elapsed_led_back :
    let s : Scene := ⟨[], ⟨none, "svg", []⟩, [], []⟩
    let os : List Call := [.schedule (.basic .gap 0 1 []), .schedule (.basic .gap 0 10 []),
      .advance 5, .cancel 1]
    let x := runCalls os (new, s)
    (∀ o ∈ os ++ [.advance 0], o.Timed) ∧ x.1.elapsed = 5 ∧
      ((Call.advance 0).run x).1.elapsed = 1 ∧
      ¬ x.1.elapsed ≤ ((Call.advance 0).run x).1.elapsed := by
  decide +kernel

end Clock

end Slideshow

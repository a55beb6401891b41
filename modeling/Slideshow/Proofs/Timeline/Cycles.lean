/-
  Slideshow.Proofs.Timeline.Cycles

  How the cycles of a tween pass, in exact times. A number of cycles has passed at each time, in
  whole cycles and a part of one (`cycle_spec`). A tween whose every other cycle goes backwards
  is as far as that number is from the nearest even one (`progress_eq_zigzag`), and so it never
  leaps. The main statement is `progress_wave`.
-/
import Mathlib.Algebra.Order.Group.MinMax
import Mathlib.Algebra.Order.Round
import Mathlib.Data.Rat.Floor
import Mathlib.Tactic.FieldSimp
import Mathlib.Tactic.Ring
import Slideshow.Proofs.Scalar
import Slideshow.Timeline.Tween

namespace Slideshow

open Scalar

/-! ## A wave without leaps -/

/-- How far a number is from the nearest even one. -/
def zigzag (u : Rat) : Rat := 2 * |u / 2 - round (u / 2)|

theorem abs_sub_two_mul (u : Rat) (k : Int) : |u - 2 * k| = 2 * |u / 2 - k| := by
  have hdouble : u - 2 * k = 2 * (u / 2 - k) := by ring
  rw [hdouble, abs_mul, abs_two]

theorem zigzag_eq_abs (u : Rat) : zigzag u = |u - 2 * round (u / 2)| :=
  (abs_sub_two_mul u _).symm

/-- No even number is nearer. -/
theorem zigzag_le (u : Rat) (k : Int) : zigzag u ≤ |u - 2 * k| := by
  rw [abs_sub_two_mul]
  exact mul_le_mul_of_nonneg_left (round_le _ k) zero_le_two

/-- Two even numbers are at least two apart, so no number is near to both. -/
theorem two_le_of_ne {j k : Int} (h : j ≠ k) (u : Rat) : 2 ≤ |u - 2 * j| + |u - 2 * k| := by
  have hone : 1 ≤ |(j : Rat) - k| := by exact_mod_cast Int.one_le_abs (sub_ne_zero.2 h)
  calc (2 : Rat) ≤ 2 * |(j : Rat) - k| := by linarith
    _ = |2 * (j : Rat) - 2 * k| := by rw [← mul_sub, abs_mul, abs_two]
    _ ≤ |2 * (j : Rat) - u| + |u - 2 * k| := abs_sub_le _ _ _
    _ = |u - 2 * j| + |u - 2 * k| := by rw [abs_sub_comm (2 * (j : Rat))]

/-- An even number that is not more than one away is the nearest one. -/
theorem zigzag_eq_of_le {u : Rat} {k : Int} (h : |u - 2 * k| ≤ 1) : zigzag u = |u - 2 * k| := by
  refine le_antisymm (zigzag_le u k) ?_
  rw [zigzag_eq_abs]
  rcases eq_or_ne (round (u / 2)) k with hround | hround
  · rw [hround]
  · have hfar := two_le_of_ne hround u
    linarith

/-- The wave goes up from even numbers to odd ones, and down from odd ones to even ones. -/
theorem zigzag_add (n : Nat) {part : Rat} (h₀ : 0 ≤ part) (h₁ : part ≤ 1) :
    zigzag (n + part) = if Odd n then 1 - part else part := by
  split
  · -- the nearest even number lies ahead, so the wave comes down
    rename_i hodd
    obtain ⟨k, rfl⟩ := hodd
    have hback : ((2 * k + 1 : Nat) : Rat) + part - 2 * ((k + 1 : Int) : Rat) = -(1 - part) := by
      push_cast
      ring
    have habs : |-(1 - part)| = 1 - part := by rw [abs_neg, abs_of_nonneg (sub_nonneg.2 h₁)]
    rw [zigzag_eq_of_le (k := k + 1) (by rw [hback, habs]; linarith), hback, habs]
  · -- the nearest even number lies behind
    rename_i heven
    obtain ⟨k, rfl⟩ := Nat.not_odd_iff_even.1 heven
    have hforth : ((k + k : Nat) : Rat) + part - 2 * ((k : Int) : Rat) = part := by
      push_cast
      ring
    rw [zigzag_eq_of_le (k := k) (by rw [hforth, abs_of_nonneg h₀]; exact h₁), hforth,
      abs_of_nonneg h₀]

/-- The wave goes up and down no faster than time passes. -/
theorem zigzag_lipschitz (u v : Rat) : |zigzag u - zigzag v| ≤ |u - v| := by
  have hstep : ∀ u v : Rat, zigzag u - zigzag v ≤ |u - v| := fun u v => by
    -- both are measured from the even number that is nearest to the second
    have hnear := zigzag_le u (round (v / 2))
    have htriangle := abs_sub_le u v (2 * (round (v / 2) : Rat))
    rw [zigzag_eq_abs v]
    linarith
  rw [abs_le, neg_le, neg_sub]
  exact ⟨abs_sub_comm u v ▸ hstep v u, hstep u v⟩

namespace Tween

variable {t : Tween Rat} {x : Rat}

/-! ## The cycle of a time -/

theorem total_rat (t : Tween Rat) : t.total = t.duration * (t.repetitions + 1) := by
  rw [← one_rat]
  rfl

theorem cycle_of_le (h : t.total ≤ x) : t.cycle x = (t.repetitions, 1) := by
  rw [← one_rat]
  exact if_pos h

/-- Before the end no more whole cycles have passed than are repeated, so that as many bits are
    enough to count them. -/
theorem floor_le_repetitions (hd : 0 < t.duration) (h : x < t.total) :
    ⌊x / t.duration⌋₊ ≤ t.repetitions := by
  rw [total_rat, mul_comm, ← div_lt_iff₀ hd] at h
  rw [← Nat.lt_succ_iff]
  exact Nat.floor_lt' (Nat.succ_ne_zero _) |>.2 (by exact_mod_cast h)

/-- The part of a cycle that has passed is a part indeed. -/
theorem part_mem (hd : 0 < t.duration) (hx : 0 ≤ x) :
    0 ≤ (x - ⌊x / t.duration⌋₊ * t.duration) / t.duration ∧
      (x - ⌊x / t.duration⌋₊ * t.duration) / t.duration ≤ 1 := by
  rw [sub_div, mul_div_cancel_right₀ _ hd.ne']
  have hfloor := Nat.floor_le (div_nonneg hx hd.le)
  have hceil := Nat.lt_floor_add_one (x / t.duration)
  exact ⟨by linarith, by linarith⟩

/-- Before the end neither the number of cycles nor the part of one is cut. -/
theorem cycle_of_lt (hd : 0 < t.duration) (hx : 0 ≤ x) (h : x < t.total) : t.cycle x =
    (⌊x / t.duration⌋₊, (x - ⌊x / t.duration⌋₊ * t.duration) / t.duration) := by
  have hcapped : t.cycle x =
      (min ⌊x / t.duration⌋₊ t.repetitions,
        clampUnit ((x - (min ⌊x / t.duration⌋₊ t.repetitions : Nat) * t.duration) / t.duration)) :=
    if_neg (not_le.2 h)
  have hpart := part_mem hd hx
  rw [hcapped, Nat.min_eq_left (floor_le_repetitions hd h), clampUnit_of_mem hpart.1 hpart.2]

/-- How many cycles have passed, but no more than there are. -/
def passed (t : Tween Rat) (x : Rat) : Rat := min (x / t.duration) (t.repetitions + 1)

/-- The cycle of a time and the part of it that has passed make up the cycles that have passed. -/
theorem cycle_spec (hd : 0 < t.duration) (hx : 0 ≤ x) :
    (t.cycle x).1 + (t.cycle x).2 = t.passed x ∧ 0 ≤ (t.cycle x).2 ∧ (t.cycle x).2 ≤ 1 := by
  rcases le_or_gt t.total x with hover | hunder
  · have hall : (t.repetitions + 1 : Rat) ≤ x / t.duration := by
      rw [le_div_iff₀ hd, mul_comm, ← total_rat]
      exact hover
    rw [cycle_of_le hover, passed, min_eq_right hall]
    exact ⟨rfl, zero_le_one, le_rfl⟩
  · have hsome : x / t.duration ≤ t.repetitions + 1 := by
      rw [div_le_iff₀ hd, mul_comm, ← total_rat]
      exact hunder.le
    rw [cycle_of_lt hd hx hunder, passed, min_eq_left hsome]
    refine ⟨?_, part_mem hd hx⟩
    field_simp
    ring

theorem passed_lipschitz (hd : 0 < t.duration) (x y : Rat) :
    |t.passed x - t.passed y| ≤ |x - y| / t.duration := by
  have hmin := abs_min_sub_min_le_max (x / t.duration) (t.repetitions + 1) (y / t.duration)
    (t.repetitions + 1)
  rw [sub_self, abs_zero, max_eq_left (abs_nonneg _), ← sub_div, abs_div, abs_of_pos hd] at hmin
  exact hmin

/-! ## Progress -/

theorem progress_rat (hd : 0 < t.duration) (x : Rat) : t.progress x =
    if t.yoyo = true ∧ Odd (t.cycle x).1 then 1 - (t.cycle x).2 else (t.cycle x).2 := by
  have hlasting : ¬ t.duration ≤ (zero : Rat) := by rw [zero_rat]; exact not_le.2 hd
  have hopen : t.progress x =
      if t.yoyo && (t.cycle x).1 % 2 == 1 then one - (t.cycle x).2 else (t.cycle x).2 :=
    if_neg hlasting
  rw [hopen, one_rat]
  refine if_congr ?_ rfl rfl
  rw [Bool.and_eq_true, beq_iff_eq, Nat.odd_iff]

theorem progress_mem (hd : 0 < t.duration) (hx : 0 ≤ x) :
    0 ≤ t.progress x ∧ t.progress x ≤ 1 := by
  obtain ⟨_, h₀, h₁⟩ := cycle_spec hd hx
  rw [progress_rat hd]
  split
  · exact ⟨sub_nonneg.2 h₁, by linarith⟩
  · exact ⟨h₀, h₁⟩

/-- Where every other cycle goes backwards, progress is a wave without leaps. -/
theorem progress_eq_zigzag (hd : 0 < t.duration) (hx : 0 ≤ x) (hyoyo : t.yoyo = true) :
    t.progress x = zigzag (t.passed x) := by
  obtain ⟨hpassed, h₀, h₁⟩ := cycle_spec hd hx
  rw [progress_rat hd, ← hpassed, zigzag_add _ h₀ h₁, hyoyo]
  simp only [true_and]

/-- The progress of a tween that takes time lies between zero and one. Before the end it is the
    part that has passed of the current cycle, turned round in every other cycle if the tween goes
    back and forth; from the end on it stays where the last cycle has led. A tween that goes back
    and forth never leaps, neither between cycles nor at the end: between two times it goes on by
    no more than the part of a cycle that lies between them. -/
theorem progress_wave (t : Tween Rat) (hd : 0 < t.duration) {x : Rat} (hx : 0 ≤ x) :
    let c := ⌊x / t.duration⌋₊
    let part := (x - c * t.duration) / t.duration
    (0 ≤ t.progress x ∧ t.progress x ≤ 1) ∧
    (x < t.total → t.progress x = if t.yoyo = true ∧ Odd c then 1 - part else part) ∧
    (t.total ≤ x → t.progress x = if t.yoyo = true ∧ Odd t.repetitions then 0 else 1) ∧
    (t.yoyo = true → ∀ y, 0 ≤ y → |t.progress x - t.progress y| ≤ |x - y| / t.duration) := by
  intro c part
  refine ⟨progress_mem hd hx, fun h => ?_, fun h => ?_, fun hyoyo y hy => ?_⟩
  · rw [progress_rat hd, cycle_of_lt hd hx h]
  · rw [progress_rat hd, cycle_of_le h, sub_self]
  · rw [progress_eq_zigzag hd hx hyoyo, progress_eq_zigzag hd hy hyoyo]
    exact (zigzag_lipschitz _ _).trans (passed_lipschitz hd x y)

/-- Three cycles there and back, before and behind the second turn. -/
theorem progress_wave_demo :
    let t : Tween Rat := { Tween.basic .gap 0 2 [] with repetitions := 2, yoyo := true }
    t.progress (7 / 2) = 1 / 4 ∧ |t.progress (7 / 2) - t.progress 5| ≤ 3 / 4 ∧
      t.progress 9 = 1 := by
  intro t
  have hd : 0 < t.duration := by decide +kernel
  obtain ⟨_, hbefore, _, hlipschitz⟩ := progress_wave t hd (x := 7 / 2) (by decide +kernel)
  obtain ⟨_, _, hend, _⟩ := progress_wave t hd (x := 9) (by decide +kernel)
  have hspan : |(7 / 2 : Rat) - 5| / t.duration = 3 / 4 := by decide +kernel
  refine ⟨(hbefore (by decide +kernel)).trans (by decide +kernel), ?_,
    (hend (by decide +kernel)).trans (by decide +kernel)⟩
  rw [← hspan]
  exact hlipschitz rfl 5 (by decide +kernel)

end Tween

end Slideshow

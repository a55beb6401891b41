/-
  Slideshow.Proofs.Scalar

  Exact numbers. On the rationals the operations of timing are those of the ordered field, so that
  laws of times and of progress are laws of rational arithmetic.
-/
import Mathlib.Algebra.Order.Field.Rat
import Mathlib.Tactic.Linarith
import Slideshow.Scalar

namespace Slideshow

namespace Scalar

@[simp] theorem zero_rat : (zero : Rat) = 0 := Nat.cast_zero

@[simp] theorem one_rat : (one : Rat) = 1 := Nat.cast_one

theorem clampUnit_rat (t : Rat) : clampUnit t = max 0 (min 1 t) := by
  have hcases : clampUnit t = if t < 0 then 0 else if 1 < t then 1 else t := by
    rw [← zero_rat, ← one_rat]
    rfl
  rw [hcases]
  split
  · rename_i hneg
    exact (max_eq_left ((min_le_right 1 t).trans hneg.le)).symm
  · rename_i hnonneg
    split
    · rename_i hover
      rw [min_eq_left hover.le, max_eq_right zero_le_one]
    · rename_i hwithin
      rw [min_eq_right (not_lt.1 hwithin), max_eq_right (not_lt.1 hnonneg)]

theorem clampUnit_of_nonpos {t : Rat} (h : t ≤ 0) : clampUnit t = 0 := by
  rw [clampUnit_rat]
  exact max_eq_left ((min_le_right 1 t).trans h)

theorem clampUnit_of_one_le {t : Rat} (h : 1 ≤ t) : clampUnit t = 1 := by
  rw [clampUnit_rat, min_eq_left h, max_eq_right zero_le_one]

/-- What lies in the unit interval stays where it is. -/
theorem clampUnit_of_mem {t : Rat} (h : 0 ≤ t) (h' : t ≤ 1) : clampUnit t = t := by
  rw [clampUnit_rat, min_eq_right h', max_eq_right h]

theorem clampUnit_nonneg (t : Rat) : 0 ≤ clampUnit t := by
  rw [clampUnit_rat]
  exact le_max_left 0 _

theorem clampUnit_le_one (t : Rat) : clampUnit t ≤ 1 := by
  rw [clampUnit_rat]
  exact max_le zero_le_one (min_le_left 1 t)

theorem clampUnit_mono {t u : Rat} (h : t ≤ u) : clampUnit t ≤ clampUnit u := by
  rw [clampUnit_rat, clampUnit_rat]
  exact max_le_max_left 0 (min_le_min_left 1 h)

/-- The unit interval turned round is the unit interval. -/
theorem clampUnit_reverse (t : Rat) : clampUnit (1 - t) = 1 - clampUnit t := by
  rcases le_total t 0 with h | h
  · rw [clampUnit_of_one_le (by linarith), clampUnit_of_nonpos h, sub_zero]
  · rcases le_total t 1 with h' | h'
    · rw [clampUnit_of_mem (by linarith) (by linarith), clampUnit_of_mem h h']
    · rw [clampUnit_of_nonpos (by linarith), clampUnit_of_one_le h', sub_self]

end Scalar

end Slideshow

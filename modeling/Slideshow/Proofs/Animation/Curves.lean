/-
  Slideshow.Proofs.Animation.Curves

  How polynomial easing curves rise. Each of them leads from zero to one and does not fall on the
  way (`Rises`). That is proven for the curves that are slow at the start; a curve that is slow at
  the end is such a curve turned round (`polynomial_reverse`), and one that is slow at both ends
  is made of two halves of which the second is the first turned round. The main statement is
  `curve_rises`.
-/
import Mathlib.Algebra.Order.Ring.Pow
import Mathlib.Tactic.Linarith
import Mathlib.Tactic.Ring
import Slideshow.Animation.Ease
import Slideshow.Proofs.Scalar

namespace Slideshow

open Scalar

/-! ## Turning round -/

/-- The direction with the ends exchanged. -/
def Direction.reverse : Direction → Direction
  | easeIn => easeOut
  | easeOut => easeIn
  | easeInOut => easeInOut

/-- The curve with the ends exchanged. -/
def Ease.reverse : Ease → Ease
  | linear => linear
  | power d direction => power d direction.reverse
  | sine direction => sine direction.reverse

/-- The curve is given by polynomials. -/
def Ease.IsPolynomial : Ease → Prop
  | sine _ => False
  | _ => True

instance : (e : Ease) → Decidable e.IsPolynomial
  | .linear => .isTrue trivial
  | .power _ _ => .isTrue trivial
  | .sine _ => .isFalse id

/-- There are ten of them. -/
example : (Ease.all.filter (·.IsPolynomial)).length = 10 := by decide

/-! ## Powers -/

namespace Degree

/-- The exponent of the power. -/
def exponent : Degree → Nat
  | quad => 2
  | cubic => 3
  | quart => 4

theorem exponent_ne_zero (d : Degree) : d.exponent ≠ 0 := by cases d <;> decide

theorem pow_rat (d : Degree) (t : Rat) : d.pow t = t ^ d.exponent := by
  cases d with
  | quad => exact (sq t).symm
  | cubic => exact (pow_three' t).symm
  | quart =>
    show (t * t) * (t * t) = t ^ 4
    ring

/-- The first half of a curve that is slow at both ends is the power in half the size. -/
theorem halfScale_mul_pow (d : Degree) (t : Rat) :
    d.halfScale * d.pow t = (2 * t) ^ d.exponent / 2 := by
  rw [pow_rat]
  cases d with
  | quad =>
    show (2 : Rat) * t ^ 2 = (2 * t) ^ 2 / 2
    ring
  | cubic =>
    show (4 : Rat) * t ^ 3 = (2 * t) ^ 3 / 2
    ring
  | quart =>
    show (8 : Rat) * t ^ 4 = (2 * t) ^ 4 / 2
    ring

end Degree

namespace Ease

variable {d : Degree} {direction : Direction} {t t₁ t₂ : Rat}

/-! ## The curves on the unit interval -/

theorem polynomial_easeIn (d : Degree) (t : Rat) : polynomial d .easeIn t = t ^ d.exponent :=
  d.pow_rat t

theorem polynomial_easeOut (d : Degree) (t : Rat) :
    polynomial d .easeOut t = 1 - (1 - t) ^ d.exponent := by
  rw [← Degree.pow_rat, ← one_rat]
  rfl

theorem polynomial_easeInOut (d : Degree) (t : Rat) : polynomial d .easeInOut t =
    if t < 1 / 2 then (2 * t) ^ d.exponent / 2 else 1 - (2 - 2 * t) ^ d.exponent / 2 := by
  rw [← d.halfScale_mul_pow, ← Degree.pow_rat, ← one_rat]
  rfl

/-- Both halves of a curve that is slow at both ends lead to one half in the middle. -/
theorem easeInOut_of_le (d : Degree) (h : t ≤ 1 / 2) :
    polynomial d .easeInOut t = (2 * t) ^ d.exponent / 2 := by
  rw [polynomial_easeInOut]
  split
  · rfl
  · rename_i hover
    obtain rfl : t = 1 / 2 := le_antisymm h (not_lt.1 hover)
    norm_num

/-- A curve with its ends exchanged is the curve turned round. -/
theorem polynomial_reverse (d : Degree) (direction : Direction) (t : Rat) :
    polynomial d direction.reverse t = 1 - polynomial d direction (1 - t) := by
  cases direction with
  | easeIn => exact (polynomial_easeOut d t).trans (by rw [polynomial_easeIn])
  | easeOut => rw [polynomial_easeOut, sub_sub_cancel, sub_sub_cancel, ← polynomial_easeIn]; rfl
  | easeInOut =>
    rw [Direction.reverse]
    rcases le_or_gt (1 / 2) t with hover | hunder
    · rw [easeInOut_of_le d (by linarith : 1 - t ≤ 1 / 2), polynomial_easeInOut,
        if_neg (not_lt.2 hover)]
      ring
    · rw [easeInOut_of_le d hunder.le, polynomial_easeInOut, if_neg (by linarith)]
      ring

/-! ## Rising -/

/-- A curve leads from zero to one and does not fall on the way. -/
structure Rises (f : Rat → Rat) : Prop where
  zero : f 0 = 0
  one : f 1 = 1
  mono : ∀ {t₁ t₂}, 0 ≤ t₁ → t₁ ≤ t₂ → t₂ ≤ 1 → f t₁ ≤ f t₂

theorem Rises.nonneg {f : Rat → Rat} (h : Rises f) (h₀ : 0 ≤ t) (h₁ : t ≤ 1) : 0 ≤ f t :=
  h.zero.ge.trans (h.mono le_rfl h₀ h₁)

theorem Rises.le_one {f : Rat → Rat} (h : Rises f) (h₀ : 0 ≤ t) (h₁ : t ≤ 1) : f t ≤ 1 :=
  (h.mono h₀ h₁ le_rfl).trans h.one.le

/-- A rising curve that is turned round rises. -/
theorem Rises.reverse {f g : Rat → Rat} (h : Rises f) (hg : ∀ t, g t = 1 - f (1 - t)) :
    Rises g where
  zero := by rw [hg, sub_zero, h.one, sub_self]
  one := by rw [hg, sub_self, h.zero, sub_zero]
  mono := by
    intro t₁ t₂ h₀ hle h₁
    rw [hg, hg]
    exact sub_le_sub_left (h.mono (sub_nonneg.2 h₁) (sub_le_sub_left hle 1) (by linarith)) 1

theorem rises_easeIn (d : Degree) : Rises (polynomial d .easeIn) where
  zero := by rw [polynomial_easeIn, zero_pow d.exponent_ne_zero]
  one := by rw [polynomial_easeIn, one_pow]
  mono := by
    intro t₁ t₂ h₀ hle _
    rw [polynomial_easeIn, polynomial_easeIn]
    exact pow_le_pow_left₀ h₀ hle _

/-- In its first half a curve that is slow at both ends rises, up to one half. -/
theorem easeInOut_first_half (d : Degree) (h₀ : 0 ≤ t₁) (hle : t₁ ≤ t₂) (h : t₂ ≤ 1 / 2) :
    polynomial d .easeInOut t₁ ≤ polynomial d .easeInOut t₂ ∧
      polynomial d .easeInOut t₂ ≤ 1 / 2 := by
  rw [easeInOut_of_le d (hle.trans h), easeInOut_of_le d h]
  have hpow : (2 * t₁) ^ d.exponent ≤ (2 * t₂) ^ d.exponent :=
    pow_le_pow_left₀ (by linarith) (by linarith) _
  have hone : (2 * t₂) ^ d.exponent ≤ 1 := pow_le_one₀ (by linarith) (by linarith)
  exact ⟨by linarith, by linarith⟩

theorem rises_easeInOut (d : Degree) : Rises (polynomial d .easeInOut) := by
  have hturn : ∀ t : Rat, polynomial d .easeInOut t = 1 - polynomial d .easeInOut (1 - t) :=
    polynomial_reverse d .easeInOut
  have hzero : polynomial d .easeInOut (0 : Rat) = 0 := by
    rw [easeInOut_of_le d (by norm_num), mul_zero, zero_pow d.exponent_ne_zero, zero_div]
  refine ⟨hzero, by rw [hturn, sub_self, hzero, sub_zero], ?_⟩
  intro t₁ t₂ h₀ hle h₁
  rcases le_total t₂ (1 / 2) with hunder | hover
  · exact (easeInOut_first_half d h₀ hle hunder).1
  · -- behind the middle the curve is the first half turned round
    have hleft : 0 ≤ 1 - t₂ := by linarith
    have hhalf : 1 - t₂ ≤ 1 / 2 := by linarith
    rw [hturn t₂]
    rcases le_total t₁ (1 / 2) with hunder' | hover'
    · have hfirst := (easeInOut_first_half d h₀ le_rfl hunder').2
      have hsecond := (easeInOut_first_half d hleft le_rfl hhalf).2
      linarith
    · have hback : 1 - t₂ ≤ 1 - t₁ := by linarith
      have hhalf' : 1 - t₁ ≤ 1 / 2 := by linarith
      have hfirst := (easeInOut_first_half d hleft hback hhalf').1
      rw [hturn t₁]
      linarith

theorem rises_polynomial (d : Degree) (direction : Direction) :
    Rises (polynomial d direction) := by
  cases direction with
  | easeIn => exact rises_easeIn d
  | easeOut => exact (rises_easeIn d).reverse (polynomial_reverse d .easeIn)
  | easeInOut => exact rises_easeInOut d

/-! ## The curves at all times -/

section Times

variable (wave : Direction → Rat → Rat) {e : Ease}

/-- A curve that is given by polynomials rises while its time passes. -/
theorem exists_rises (he : e.IsPolynomial) :
    ∃ f, Rises f ∧ ∀ t, e.applyWith wave t = f (clampUnit t) := by
  cases e with
  | linear => exact ⟨id, ⟨rfl, rfl, fun _ hle _ => hle⟩, fun _ => rfl⟩
  | power d direction => exact ⟨polynomial d direction, rises_polynomial d direction, fun _ => rfl⟩
  | sine direction => cases he

theorem applyWith_reverse (he : e.IsPolynomial) (t : Rat) :
    e.reverse.applyWith wave t = 1 - e.applyWith wave (1 - t) := by
  cases e with
  | linear =>
    show clampUnit t = 1 - clampUnit (1 - t)
    rw [clampUnit_reverse, sub_sub_cancel]
  | power d direction =>
    show polynomial d direction.reverse (clampUnit t) =
      1 - polynomial d direction (clampUnit (1 - t))
    rw [clampUnit_reverse, polynomial_reverse]
  | sine direction => cases he

/-- Every curve that is given by polynomials rises, at all times: it stays between zero and one,
    does not fall, is at zero before its time and at one behind it. With its ends exchanged it is
    the curve turned round, so a curve that is slow at the end mirrors the one that is slow at the
    start, and one that is slow at both ends mirrors itself. -/
theorem curve_rises (he : e.IsPolynomial) {t₁ t₂ : Rat} (hle : t₁ ≤ t₂) :
    0 ≤ e.applyWith wave t₁ ∧ e.applyWith wave t₁ ≤ e.applyWith wave t₂ ∧
      e.applyWith wave t₂ ≤ 1 ∧
      (t₁ ≤ 0 → e.applyWith wave t₁ = 0) ∧ (1 ≤ t₁ → e.applyWith wave t₁ = 1) ∧
      e.reverse.applyWith wave t₁ = 1 - e.applyWith wave (1 - t₁) := by
  obtain ⟨f, hf, happly⟩ := exists_rises wave he
  refine ⟨?_, ?_, ?_, fun h => ?_, fun h => ?_, applyWith_reverse wave he t₁⟩
  · rw [happly]
    exact hf.nonneg (clampUnit_nonneg t₁) (clampUnit_le_one t₁)
  · rw [happly, happly]
    exact hf.mono (clampUnit_nonneg t₁) (clampUnit_mono hle) (clampUnit_le_one t₂)
  · rw [happly]
    exact hf.le_one (clampUnit_nonneg t₂) (clampUnit_le_one t₂)
  · rw [happly, clampUnit_of_nonpos h, hf.zero]
  · rw [happly, clampUnit_of_one_le h, hf.one]

end Times

/-- A curve that is slow at both ends, before the middle and behind it. -/
theorem curve_rises_demo :
    let f := (power .quart .easeInOut).applyWith fun _ (t : Rat) => t
    f (2 / 5) = 128 / 625 ∧ f (2 / 5) ≤ f (3 / 5) ∧ f (2 / 5) = 1 - f (1 - 2 / 5) := by
  have hpoly : (power .quart .easeInOut).IsPolynomial := by decide
  have hle : (2 / 5 : Rat) ≤ 3 / 5 := by decide +kernel
  obtain ⟨_, hrise, _, _, _, hmirror⟩ := curve_rises (fun _ t => t) hpoly hle
  exact ⟨by decide +kernel, hrise, hmirror⟩

end Ease

end Slideshow

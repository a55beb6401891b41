/-
  Slideshow.Proofs.Decimal.Sign

  Floats that are not negative. Sums of them, and products with and quotients by a positive finite
  one, are not negative either; in particular they are numbers. What is reached after some time is
  reached after an infinite time.
-/
import Slideshow.Proofs.Decimal.Finite

namespace Slideshow

namespace Decimal

open Float.Model Float.Model.UnpackedFloat

/-! ## Unpacked values -/

/-- The value is a number that is positive or a zero of either sign. -/
def isNonneg : UnpackedFloat → Bool
  | .infinity .positive => true
  | .zero _ => true
  | .finite .positive .. => true
  | _ => false

theorem isNonneg_roundWithAccuracy (m : Nat) (e : Int) (a : Accuracy) :
    isNonneg (roundWithAccuracy .binary64 .positive m e a) = true := by
  unfold roundWithAccuracy
  simp only
  split <;> rfl

theorem isNonneg_normalize {m : Int} (hm : 0 ≤ m) (e : Int) :
    isNonneg (UnpackedFloat.normalize .binary64 m e .positive) = true := by
  unfold UnpackedFloat.normalize
  split
  · rename_i hlt
    have hneg : m < 0 := Int.compare_eq_lt.1 hlt
    omega
  · rfl
  · exact isNonneg_roundWithAccuracy _ _ _

theorem isNonneg_add {x y : UnpackedFloat} (hx : isNonneg x = true) (hy : isNonneg y = true) :
    isNonneg (UnpackedFloat.add .binary64 x y) = true := by
  cases x with
  | notANumber => cases hx
  | infinity s =>
    cases s with
    | negative => cases hx
    | positive =>
      cases y with
      | notANumber => cases hy
      | infinity s =>
        cases s with
        | negative => cases hy
        | positive => rfl
      | zero s => rfl
      | finite s m e hm => rfl
  | zero s =>
    cases y with
    | notANumber => cases hy
    | infinity s' => exact hy
    | zero s' => cases s <;> cases s' <;> rfl
    | finite s' m e hm => exact hy
  | finite s m e hm =>
    cases s with
    | negative => cases hx
    | positive =>
      cases y with
      | notANumber => cases hy
      | infinity s' => exact hy
      | zero s' => rfl
      | finite s' m' e' hm' =>
        cases s' with
        | negative => cases hy
        | positive =>
          exact isNonneg_normalize (Int.add_nonneg (Int.natCast_nonneg _) (Int.natCast_nonneg _)) _

theorem isNonneg_mul {x : UnpackedFloat} (hx : isNonneg x = true) (m : Nat) (e : Int)
    (hm : 0 < m) :
    isNonneg (UnpackedFloat.mul .binary64 x (.finite .positive m e hm)) = true := by
  cases x with
  | notANumber => cases hx
  | zero s => rfl
  | infinity s =>
    cases s with
    | negative => cases hx
    | positive => rfl
  | finite s m' e' hm' =>
    cases s with
    | negative => cases hx
    | positive => exact isNonneg_roundWithAccuracy _ _ _

theorem isNonneg_div {x : UnpackedFloat} (hx : isNonneg x = true) (m : Nat) (e : Int)
    (hm : 0 < m) :
    isNonneg (UnpackedFloat.div .binary64 x (.finite .positive m e hm)) = true := by
  cases x with
  | notANumber => cases hx
  | zero s => rfl
  | infinity s =>
    cases s with
    | negative => cases hx
    | positive => rfl
  | finite s m' e' hm' =>
    cases s with
    | negative => cases hx
    | positive => exact isNonneg_roundWithAccuracy _ _ _

/-! ## Packing -/

theorem unpackSign_packComponents (s : Sign) (e : BitVec 11) (m : BitVec 52) :
    @unpackSign .binary64 (packComponents .binary64 s e m) = s.toBitVec := by
  apply BitVec.eq_of_getLsbD_eq
  intro i hi
  have hzero : i = 0 := by omega
  subst hzero
  have hbit : (s.toBitVec ++ e ++ m).getLsbD 63 = s.toBitVec.getLsbD 0 := by
    rw [BitVec.getLsbD_append, if_neg (by decide), BitVec.getLsbD_append, if_neg (by decide)]
  rw [← hbit]
  simp only [unpackSign, packComponents, Format.binary64, BitVec.getLsbD_cast,
    BitVec.getLsbD_extractLsb]
  rfl

theorem isNonneg_packComponents {e : BitVec 11} (m : BitVec 52) (he : e ≠ -1#11) :
    isNonneg (UnpackedFloat.unpack .binary64 (packComponents .binary64 .positive e m)) = true := by
  unfold UnpackedFloat.unpack
  simp only [unpackExponent_packComponents, unpackMantissa_packComponents, if_neg he,
    unpackSign_packComponents]
  split
  · split <;> rfl
  · rfl

theorem isNonneg_pack {x : UnpackedFloat} (hx : isNonneg x = true) :
    isNonneg (UnpackedFloat.unpack .binary64 (UnpackedFloat.pack .binary64 x)) = true := by
  cases x with
  | notANumber => cases hx
  | zero s => cases s <;> rfl
  | infinity s =>
    cases s with
    | negative => cases hx
    | positive => rfl
  | finite s m e hm =>
    cases s with
    | negative => cases hx
    | positive =>
      unfold UnpackedFloat.pack
      simp only
      generalize (e + (Format.binary64.exponentBias : Int) +
        (Format.binary64.mantissaBitsWithoutImplicit : Nat)).toNat = biased
      split
      · rfl
      · rename_i hfits
        split
        · refine isNonneg_packComponents _ fun hones => ?_
          have hnat : (BitVec.ofNat 11 biased).toNat = 2047 := congrArg BitVec.toNat hones
          have hlt : ¬ 2 ^ 11 ≤ biased + 1 := hfits
          rw [BitVec.toNat_ofNat] at hnat
          omega
        · exact isNonneg_packComponents _ (by decide)

/-! ## Floats -/

theorem nonneg_iff {x : Float} : 0 ≤ x ↔ isNonneg x.toModel.unpack = true := by
  have hle : 0 ≤ x ↔ UnpackedFloat.le (.zero .positive) x.toModel.unpack = true :=
    ⟨fun h => of_decide_eq_true h, fun h => decide_eq_true h⟩
  rw [hle]
  cases x.toModel.unpack with
  | notANumber => exact iff_of_false Bool.false_ne_true Bool.false_ne_true
  | zero s => exact iff_of_true rfl rfl
  | infinity s =>
    cases s with
    | negative => exact iff_of_false Bool.false_ne_true Bool.false_ne_true
    | positive => exact iff_of_true rfl rfl
  | finite s m e hm =>
    cases s with
    | negative => exact iff_of_false Bool.false_ne_true Bool.false_ne_true
    | positive => exact iff_of_true rfl rfl

theorem nonneg_add {x y : Float} (hx : 0 ≤ x) (hy : 0 ≤ y) : 0 ≤ x + y :=
  nonneg_iff.2 (isNonneg_pack (isNonneg_add (nonneg_iff.1 hx) (nonneg_iff.1 hy)))

theorem exists_finite_of_pos {x : Float} (hx : 0 < x) (hfinite : x.isFinite = true) :
    ∃ m e hm, x.toModel.unpack = .finite .positive m e hm := by
  have hlt : UnpackedFloat.lt (.zero .positive) x.toModel.unpack = true := of_decide_eq_true hx
  have hfinite : x.toModel.unpack.isFinite = true := hfinite
  generalize x.toModel.unpack = u at hlt hfinite
  cases u with
  | notANumber => cases hfinite
  | infinity s => cases hfinite
  | zero s => cases hlt
  | finite s m e hm =>
    cases s with
    | negative => cases hlt
    | positive => exact ⟨m, e, hm, rfl⟩

theorem nonneg_mul {x y : Float} (hx : 0 ≤ x) (hy : 0 < y) (hfinite : y.isFinite = true) :
    0 ≤ x * y := by
  obtain ⟨m, e, hm, hunpack⟩ := exists_finite_of_pos hy hfinite
  have hmul : isNonneg (UnpackedFloat.mul .binary64 x.toModel.unpack y.toModel.unpack) = true := by
    rw [hunpack]
    exact isNonneg_mul (nonneg_iff.1 hx) m e hm
  exact nonneg_iff.2 (isNonneg_pack hmul)

theorem nonneg_div {x y : Float} (hx : 0 ≤ x) (hy : 0 < y) (hfinite : y.isFinite = true) :
    0 ≤ x / y := by
  obtain ⟨m, e, hm, hunpack⟩ := exists_finite_of_pos hy hfinite
  have hdiv : isNonneg (UnpackedFloat.div .binary64 x.toModel.unpack y.toModel.unpack) = true := by
    rw [hunpack]
    exact isNonneg_div (nonneg_iff.1 hx) m e hm
  exact nonneg_iff.2 (isNonneg_pack hdiv)

theorem not_infinity_lt (x : Float) : ¬ 1 / 0 < x := by
  have hlt : UnpackedFloat.lt (.infinity .positive) x.toModel.unpack = false := by
    cases x.toModel.unpack with
    | notANumber => rfl
    | zero s => rfl
    | infinity s => cases s <;> rfl
    | finite s m e hm => cases s <;> rfl
  intro h
  have htrue : UnpackedFloat.lt (.infinity .positive) x.toModel.unpack = true := of_decide_eq_true h
  rw [hlt] at htrue
  cases htrue

/-- After an infinite time it is infinitely late. -/
theorem add_infinity_mul {x y : Float} (hx : 0 ≤ x) (hy : 0 < y) (hfinite : y.isFinite = true) :
    x + 1 / 0 * y = 1 / 0 := by
  have hnonneg := nonneg_iff.1 hx
  have hmul : UnpackedFloat.mul .binary64 (.infinity .positive) y.toModel.unpack =
      .infinity .positive := by
    obtain ⟨m, e, hm, hunpack⟩ := exists_finite_of_pos hy hfinite
    rw [hunpack]
    rfl
  have hadd : UnpackedFloat.add .binary64 x.toModel.unpack (.infinity .positive) =
      .infinity .positive := by
    cases hunpack : x.toModel.unpack with
    | zero s => rfl
    | finite s m e hm => rfl
    | notANumber =>
      rw [hunpack] at hnonneg
      cases hnonneg
    | infinity s =>
      cases s with
      | positive => rfl
      | negative =>
        rw [hunpack] at hnonneg
        cases hnonneg
  show (⟨Float.Model.pack (UnpackedFloat.add .binary64 x.toModel.unpack
    (Float.Model.pack (UnpackedFloat.mul .binary64 (.infinity .positive)
      y.toModel.unpack)).unpack)⟩ : Float) = 1 / 0
  rw [hmul]
  show (⟨Float.Model.pack (UnpackedFloat.add .binary64 x.toModel.unpack (.infinity .positive))⟩ :
    Float) = 1 / 0
  rw [hadd]
  rfl

/-- In the end a start does not count, unless nothing can begin at it. -/
theorem infinity_sub {x a : UnpackedFloat} (hnumber : UnpackedFloat.sub .binary64 x a ≠ .notANumber)
    (hbegun : ¬ UnpackedFloat.lt x a = true) :
    UnpackedFloat.sub .binary64 (.infinity .positive) a = .infinity .positive := by
  cases a with
  | zero s => rfl
  | finite s m e hm => rfl
  | notANumber => exact absurd (by cases x <;> rfl) hnumber
  | infinity s =>
    cases s with
    | negative => rfl
    | positive =>
      -- only an infinite time is not before an infinite start, and their difference is no number
      cases x with
      | notANumber => exact absurd rfl hnumber
      | zero s => exact absurd rfl hbegun
      | finite s m e hm => cases s <;> exact absurd rfl hbegun
      | infinity s =>
        cases s with
        | negative => exact absurd rfl hbegun
        | positive => exact absurd rfl hnumber

/-- What is less than anything is less than infinity. -/
theorem le_infinity {x y : UnpackedFloat} (h : UnpackedFloat.le x y = true) :
    UnpackedFloat.le x (.infinity .positive) = true := by
  cases x with
  | notANumber => cases y <;> cases h
  | zero s => rfl
  | finite s m e hm => cases s <;> rfl
  | infinity s => cases s <;> rfl

/-- What has happened after some time since a start has happened in the end. -/
theorem le_infinity_sub {a b x : Float} (hx : ¬ x < a) (h : b ≤ x - a) : b ≤ 1 / 0 - a := by
  have hle := le_unpack h
  have hsub : (x - a).toModel.unpack = UnpackedFloat.unpack .binary64 (UnpackedFloat.pack .binary64
      (UnpackedFloat.sub .binary64 x.toModel.unpack a.toModel.unpack)) := rfl
  rw [hsub] at hle
  have hbegun : ¬ UnpackedFloat.lt x.toModel.unpack a.toModel.unpack = true :=
    fun hlt => hx (decide_eq_true hlt)
  have hnumber : UnpackedFloat.sub .binary64 x.toModel.unpack a.toModel.unpack ≠ .notANumber := by
    intro hnan
    have hfalse : UnpackedFloat.le b.toModel.unpack (UnpackedFloat.unpack .binary64
        (UnpackedFloat.pack .binary64 .notANumber)) = false := by
      cases b.toModel.unpack <;> rfl
    rw [hnan, hfalse] at hle
    cases hle
  have hinfinity : (1 / 0 - a).toModel.unpack = UnpackedFloat.unpack .binary64
      (UnpackedFloat.pack .binary64
        (UnpackedFloat.sub .binary64 (.infinity .positive) a.toModel.unpack)) := rfl
  have hgoal : UnpackedFloat.le b.toModel.unpack (1 / 0 - a).toModel.unpack = true := by
    rw [hinfinity, infinity_sub hnumber hbegun]
    exact le_infinity hle
  exact decide_eq_true hgoal

end Decimal

end Slideshow

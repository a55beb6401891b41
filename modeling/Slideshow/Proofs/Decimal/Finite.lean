/-
  Slideshow.Proofs.Decimal.Finite

  Floats that are finite: those between two finite ones, and whole numbers of 64 bits. Such
  a whole number is far inside the range of floats: rounding moves its exponent by little,
  and an exponent below the largest one is packed as a finite value.
-/
import Mathlib
import Slideshow.Json.Basic

namespace Slideshow

namespace Decimal

open Float.Model Float.Model.UnpackedFloat

/-! ## Values with a bounded exponent -/

/-- The value is a zero, or a finite value with a significand of at most 128 bits and an
    exponent of at most `b`. -/
def within (b : Int) : UnpackedFloat → Bool
  | .zero _ => true
  | .finite _ m e _ => m < Nat.pow 2 128 && e ≤ b
  | _ => false

theorem isFinite_of_within {b : Int} {x : UnpackedFloat} (h : within b x = true) :
    x.isFinite = true := by
  cases x with
  | zero s => rfl
  | finite s m e hm => rfl
  | infinity s => cases h
  | notANumber => cases h

theorem within_mono {b b' : Int} (hb : b ≤ b') {x : UnpackedFloat} (h : within b x = true) :
    within b' x = true := by
  cases x with
  | zero s => rfl
  | finite s m e hm =>
    simp only [within, Bool.and_eq_true, decide_eq_true_eq] at h ⊢
    exact ⟨h.1, by omega⟩
  | infinity s => cases h
  | notANumber => cases h

theorem within_neg {b : Int} {x : UnpackedFloat} (h : within b x = true) :
    within b x.neg = true := by
  cases x with
  | zero s => rfl
  | finite s m e hm => exact h
  | infinity s => cases h
  | notANumber => cases h

/-! ## Rounding -/

theorem mantissa_shiftRight (em : ExtendedMantissa) (k : Nat) :
    (em >>> k).mantissa ≤ em.mantissa := by
  show (k.repeat ExtendedMantissa.shiftRightOne em).mantissa ≤ em.mantissa
  induction k with
  | zero => exact Nat.le_refl _
  | succ k ih => exact Nat.le_trans (Nat.div_le_self _ 2) ih

theorem roundedMantissa_le (em : ExtendedMantissa) : em.roundedMantissa ≤ em.mantissa + 1 := by
  rcases em with ⟨m, r, s⟩
  cases r <;> cases s <;>
    simp only [ExtendedMantissa.roundedMantissa, ExtendedMantissa.accuracy,
      Accuracy.roundToNearestEven] <;> omega

theorem mantissa_ofMantissaAndAccuracy (m : Nat) (a : Accuracy) :
    (ExtendedMantissa.ofMantissaAndAccuracy m a).mantissa = m := by
  cases a with
  | exact => rfl
  | inexact o => cases o <;> rfl

theorem log2_le {m k : Nat} (h : m < 2 ^ (k + 1)) : m.log2 ≤ k := by
  by_cases hm : m = 0
  · subst hm
    exact Nat.zero_le k
  · exact Nat.le_of_lt_succ ((Nat.log2_lt hm).2 h)

/-- Shifting does not raise the significand, and the exponent becomes at most the one that
    the number of bits asks for. -/
theorem shiftToTargetExponent_le {m k : Nat} {e : Int} (hm : m < 2 ^ (k + 1)) (a : Accuracy) :
    (shiftToTargetExponent .binary64 m e a).1.mantissa ≤ m ∧
      (shiftToTargetExponent .binary64 m e a).2 ≤ max (max e (k + 1 + e - 53)) (-1074) := by
  have hlog : m.log2 ≤ k := log2_le hm
  refine ⟨?_, ?_⟩
  · simp only [shiftToTargetExponent, shiftToExponent]
    refine Nat.le_trans (mantissa_shiftRight _ _) (Nat.le_of_eq ?_)
    exact mantissa_ofMantissaAndAccuracy m a
  · simp only [shiftToTargetExponent, shiftToExponent, Format.targetExponent, totalExponent,
      Format.mantissaBits, Format.minExponent]
    omega

/-- Rounding raises an exponent by 149 at most. -/
theorem within_roundWithAccuracy {m : Nat} {e b : Int} (s : Sign) (hm : m < 2 ^ 127)
    (he : e ≤ b) (hb : -1074 ≤ b) (a : Accuracy) :
    within (b + 149) (roundWithAccuracy .binary64 s m e a) = true := by
  -- the significand is shifted, rounded, and shifted again if rounding made it too long
  obtain ⟨hm₁, he₁⟩ := shiftToTargetExponent_le (k := 126) (e := e) hm a
  generalize hfirst : shiftToTargetExponent .binary64 m e a = first at hm₁ he₁
  have hr : first.1.roundedMantissa < 2 ^ 128 := by
    have hle := roundedMantissa_le first.1
    omega
  obtain ⟨hm₂, he₂⟩ := shiftToTargetExponent_le (k := 127) (e := first.2) hr .exact
  rw [roundWithAccuracy, hfirst]
  simp only
  generalize shiftToTargetExponent .binary64 first.1.roundedMantissa first.2 .exact = second
    at hm₂ he₂
  split
  · rfl
  · simp only [within, Bool.and_eq_true, decide_eq_true_eq]
    refine ⟨Nat.lt_of_le_of_lt hm₂ hr, ?_⟩
    omega

theorem within_mul {x y : UnpackedFloat} {b c : Int} (hx : within b x = true)
    (hy : within c y = true) (hbits : ∀ s m e h s' m' e' h', x = .finite s m e h →
      y = .finite s' m' e' h' → m * m' < 2 ^ 127) (hb : -1074 ≤ b + c) :
    within (b + c + 149) (UnpackedFloat.mul .binary64 x y) = true := by
  cases x with
  | infinity s => cases hx
  | notANumber => cases hx
  | zero s =>
    cases y with
    | infinity s => cases hy
    | notANumber => cases hy
    | zero s' => rfl
    | finite s' m' e' hm' => rfl
  | finite s m e hm =>
    cases y with
    | infinity s => cases hy
    | notANumber => cases hy
    | zero s' => rfl
    | finite s' m' e' hm' =>
      simp only [within, Bool.and_eq_true, decide_eq_true_eq] at hx hy
      exact within_roundWithAccuracy _ (hbits s m e hm s' m' e' hm' rfl rfl) (by omega) hb _

/-! ## Packing -/

/-- What is put together from an exponent that is not all ones is no infinity. -/
theorem within_unpack_packComponents (s : Sign) {e : BitVec 11} (m : BitVec 52) {b : Int}
    (he : e ≠ -1#11) (hlow : -1074 ≤ b) (hb : (e.toNat : Int) - 1075 ≤ b) :
    within b (UnpackedFloat.unpack .binary64 (packComponents .binary64 s e m)) = true := by
  have hm : m.toNat < 2 ^ 52 := m.isLt
  unfold UnpackedFloat.unpack
  simp only [unpackExponent_packComponents, unpackMantissa_packComponents, if_neg he]
  split
  · split
    · rfl
    · -- a subnormal value
      rename_i hzero _
      simp only [within, Bool.and_eq_true, decide_eq_true_eq]
      refine ⟨Nat.lt_trans hm (by decide), ?_⟩
      rw [hzero]
      exact hlow
  · -- a normal value, whose significand has a leading one
    simp only [within, Bool.and_eq_true, decide_eq_true_eq]
    have hone : (1#1 ++ m).toNat < 2 ^ 53 := (1#1 ++ m).isLt
    exact ⟨Nat.lt_trans hone (by decide), hb⟩

/-- An exponent up to the largest one survives packing. -/
theorem within_unpack_pack {x : UnpackedFloat} {b : Int} (hx : within b x = true)
    (hlow : -1074 ≤ b) (hhigh : b ≤ 971) :
    within b (UnpackedFloat.unpack .binary64 (UnpackedFloat.pack .binary64 x)) = true := by
  cases x with
  | infinity s => cases hx
  | notANumber => cases hx
  | zero s => exact within_unpack_packComponents s 0#52 (by decide) hlow (by simp; omega)
  | finite s m e hm =>
    simp only [within, Bool.and_eq_true, decide_eq_true_eq] at hx
    have hbias : (e + (Format.binary64.exponentBias : Int) + (52 : Nat)).toNat =
        (e + 1075).toNat := by
      show (e + 1023 + 52).toNat = (e + 1075).toNat
      congr 1
      omega
    unfold UnpackedFloat.pack
    rw [hbias]
    generalize hbiased : (e + 1075).toNat = biased
    have hsmall : biased < 2047 := by omega
    have hfits : ¬ 2 ^ Format.binary64.exponentBits ≤ biased + 1 := by
      show ¬ 2 ^ 11 ≤ biased + 1
      omega
    rw [if_neg hfits]
    -- either the significand has all its bits, or the value is subnormal
    split
    · have hbits : (BitVec.ofNat 11 biased).toNat = biased := by
        rw [BitVec.toNat_ofNat, Nat.mod_eq_of_lt (by omega)]
      refine within_unpack_packComponents s _ (fun hones => ?_) hlow ?_
      · have hnat : (BitVec.ofNat 11 biased).toNat = 2047 := congrArg BitVec.toNat hones
        rw [hbits] at hnat
        omega
      · rw [hbits]
        omega
    · exact within_unpack_packComponents s _ (by decide) hlow (by simp; omega)

/-- A float has a significand of 53 bits. -/
theorem mantissa_lt_of_unpack {p : BitVec 64} {s : Sign} {m : Nat} {e : Int} {h : 0 < m}
    (hp : UnpackedFloat.unpack .binary64 p = .finite s m e h) : m < 2 ^ 53 := by
  unfold UnpackedFloat.unpack at hp
  simp only at hp
  split at hp
  · split at hp <;> cases hp
  · split at hp
    · split at hp
      · cases hp
      · cases hp
        exact Nat.lt_trans (@unpackMantissa .binary64 p).isLt (by decide)
    · cases hp
      exact (1#1 ++ @unpackMantissa .binary64 p).isLt

/-! ## Operations on floats -/

/-- The float is a zero, or finite with an exponent of at most `b`. -/
def Bounded (b : Int) (x : Float) : Prop := within b x.toModel.unpack = true

theorem isFinite_of_bounded {b : Int} {x : Float} (h : Bounded b x) : x.isFinite = true :=
  isFinite_of_within h

theorem bounded_pack {x : UnpackedFloat} {b : Int} (hx : within b x = true)
    (hlow : -1074 ≤ b) (hhigh : b < 971) : Bounded b ⟨Float.Model.pack x⟩ :=
  within_unpack_pack hx hlow hhigh.le

theorem bounded_neg {x : Float} {b : Int} (hx : Bounded b x) (hlow : -1074 ≤ b)
    (hhigh : b < 971) : Bounded b (-x) :=
  bounded_pack (within_neg hx) hlow hhigh

theorem bounded_mul {x y : Float} {b c : Int} (hx : Bounded b x) (hy : Bounded c y)
    (hlow : -1074 ≤ b + c) (hhigh : b + c + 149 < 971) : Bounded (b + c + 149) (x * y) := by
  refine bounded_pack (within_mul hx hy ?_ hlow) (by omega) hhigh
  intro s m e hm s' m' e' hm' hs hs'
  have hlt : m < 2 ^ 53 := mantissa_lt_of_unpack hs
  have hlt' : m' < 2 ^ 53 := mantissa_lt_of_unpack hs'
  calc m * m' ≤ 2 ^ 53 * 2 ^ 53 := Nat.mul_le_mul (Nat.le_of_lt hlt) (Nat.le_of_lt hlt')
    _ < 2 ^ 127 := by decide

/-! ## Whole numbers -/

/-- A number of at most 53 bits is moved to the left until it has all 53. -/
theorem within_ofNat {n : Nat} (hn : n < 2 ^ 53) :
    within 149 (UnpackedFloat.ofNat .binary64 n) = true := by
  by_cases hzero : n = 0
  · subst hzero
    rfl
  have hpos : compare (n : Int) 0 = .gt := Int.compare_eq_gt.2 (by omega)
  have hlog : n.log2 ≤ 52 := log2_le hn
  have hround : UnpackedFloat.ofNat .binary64 n =
      UnpackedFloat.round .binary64 .positive n 0 := by
    simp only [UnpackedFloat.ofNat, UnpackedFloat.ofInt, UnpackedFloat.normalize, hpos,
      Int.toNat_natCast]
  have hshift : (0 - Format.binary64.targetExponent (totalExponent n 0)).toNat = 52 - n.log2 := by
    simp only [Format.targetExponent, totalExponent, Format.mantissaBits, Format.minExponent]
    omega
  have hbits : n <<< (52 - n.log2) < 2 ^ 127 := by
    rw [Nat.shiftLeft_eq]
    calc n * 2 ^ (52 - n.log2) < 2 ^ 53 * 2 ^ 52 := by
          refine Nat.mul_lt_mul_of_lt_of_le hn ?_ (by decide)
          exact Nat.pow_le_pow_right (by decide) (Nat.sub_le _ _)
      _ < 2 ^ 127 := by decide
  rw [hround]
  simp only [UnpackedFloat.round, decreaseExponent, hshift]
  exact within_mono (b := 0 + 149) (by decide)
    (within_roundWithAccuracy .positive hbits (by omega) (by decide) .exact)

/-- A larger number is kept as it is, with 53 bits behind the point. -/
theorem within_ofScientific {n : Nat} (hn : n < 2 ^ 64) :
    within 298 (UnpackedFloat.ofScientific .binary64 n 0) = true := by
  by_cases hzero : n = 0
  · subst hzero
    rfl
  have hlow : ¬ (0 : Int) > 2 ^ Format.binary64.exponentBits := by
    show ¬ (0 : Int) > 2 ^ 11
    decide
  have hhigh : ¬ (0 : Int) < -(2 ^ Format.binary64.exponentBits + (n.log2 : Int)) := by
    show ¬ (0 : Int) < -(2 ^ 11 + (n.log2 : Int))
    omega
  unfold UnpackedFloat.ofScientific
  rw [dif_neg hzero, if_neg hlow, if_neg hhigh, if_pos (Int.le_refl 0)]
  have hbits : n <<< Format.binary64.mantissaBits * 10 ^ (0 : Int).toNat < 2 ^ 127 := by
    show (n <<< 53) * 1 < 2 ^ 127
    rw [Nat.shiftLeft_eq]
    omega
  simp only [UnpackedFloat.mul]
  have hround := within_roundWithAccuracy (.positive * .positive) hbits
    (e := -(Format.binary64.mantissaBits : Int) + 0) (Int.le_refl _) (by decide) .exact
  exact within_mono (by decide) hround

theorem bounded_ofNat {n : Nat} (hn : n < 2 ^ 64) : Bounded 298 (Float.ofNat n) := by
  show Bounded 298 (Float.ofScientific n false 0)
  unfold Float.ofScientific
  split
  · -- the number is a float already, and is multiplied by one
    rename_i hsmall
    have hone : Bounded 0 Float.exactlyRepresentablePowersOfTen[0] := by
      unfold Bounded
      decide +kernel
    have hfloat : Bounded 149 n.toUInt64.toFloat := by
      refine bounded_pack ?_ (by decide) (by decide)
      have hnat : n.toUInt64.toNat = n := Nat.mod_eq_of_lt hn
      unfold UnpackedFloat.ofUInt64
      rw [hnat]
      exact within_ofNat hsmall.1
    exact bounded_mul hfloat hone (by decide) (by decide)
  · refine bounded_pack ?_ (by decide) (by decide)
    exact within_ofScientific hn

theorem bounded_ofInt {i : Int} (hlow : -(2 ^ 63) ≤ i) (hhigh : i < 2 ^ 64) :
    Bounded 298 (Float.ofInt i) := by
  cases i with
  | ofNat n => exact bounded_ofNat (Int.ofNat_lt.1 hhigh)
  | negSucc n => exact bounded_neg (bounded_ofNat (by omega)) (by decide) (by decide)

/-- A whole number of 64 bits, signed or not, is a finite float. -/
theorem isFinite_ofInt {i : Int} (hlow : -(2 ^ 63) ≤ i) (hhigh : i < 2 ^ 64) :
    (Float.ofInt i).isFinite = true :=
  isFinite_of_bounded (bounded_ofInt hlow hhigh)

/-! ## Order -/

theorem le_unpack {x y : Float} (h : x ≤ y) :
    UnpackedFloat.le x.toModel.unpack y.toModel.unpack = true :=
  of_decide_eq_true h

/-- What lies between two finite floats is finite. -/
theorem isFinite_of_between {x a b : Float} (ha : a.isFinite = true) (hb : b.isFinite = true)
    (hax : a ≤ x) (hxb : x ≤ b) : x.isFinite = true := by
  have hlow := le_unpack hax
  have hhigh := le_unpack hxb
  have ha : a.toModel.unpack.isFinite = true := ha
  have hb : b.toModel.unpack.isFinite = true := hb
  show x.toModel.unpack.isFinite = true
  -- an infinity would lie outside, and what is not a number compares with nothing
  generalize a.toModel.unpack = a at ha hlow
  generalize b.toModel.unpack = b at hb hhigh
  generalize x.toModel.unpack = u at hlow hhigh
  cases u with
  | zero s => rfl
  | finite s m e hm => rfl
  | notANumber => cases a <;> cases hlow
  | infinity s =>
    cases s with
    | positive =>
      cases b with
      | notANumber => cases hb
      | infinity s => cases hb
      | zero s => cases hhigh
      | finite s m e hm => cases hhigh
    | negative =>
      cases a with
      | notANumber => cases ha
      | infinity s => cases ha
      | zero s => cases hlow
      | finite s m e hm => cases s <;> cases hlow

end Decimal

end Slideshow

/-
  Slideshow.Proofs.Decimal.Exact

  The exact value of a float, which decimal texts are computed from, is what the float unpacks to
  (`ofFloat?_eq`). The nearest whole number of a finite float is finite, and it is not below zero if
  the float is not (`isFinite_roundAway`, `nonneg_roundAway`).
-/
import Slideshow.Proofs.Decimal.Span
import Slideshow.Decimal.Text

namespace Slideshow

namespace Decimal

open Float.Model Float.Model.UnpackedFloat

/-! ## Parts of the bits -/

theorem toNat_unpackExponent (b : BitVec 64) :
    (@unpackExponent .binary64 b).toNat = b.toNat / 2 ^ 52 % 2048 := by
  have hbits : (BitVec.extractLsb 62 52 b).toNat = b.toNat / 2 ^ 52 % 2 ^ 11 := by
    rw [BitVec.extractLsb_toNat, Nat.shiftRight_eq_div_pow]
  exact hbits

theorem toNat_unpackMantissa (b : BitVec 64) :
    (@unpackMantissa .binary64 b).toNat = b.toNat % 2 ^ 52 :=
  BitVec.extractLsb_toNat 51 0 b

theorem toNat_unpackSign (b : BitVec 64) :
    (@unpackSign .binary64 b).toNat = b.toNat / 2 ^ 63 % 2 := by
  have hbits : (BitVec.extractLsb 63 63 b).toNat = b.toNat / 2 ^ 63 % 2 ^ 1 := by
    rw [BitVec.extractLsb_toNat, Nat.shiftRight_eq_div_pow]
  exact hbits

/-! ## The exact value -/

/-- The sign is a minus sign. -/
def isNegative : Sign → Bool
  | .negative => true
  | .positive => false

/-- The exact value of what is unpacked, if it is finite. -/
def Binary.ofUnpacked? : UnpackedFloat → Option Binary
  | .zero s => some ⟨isNegative s, 0, -1074⟩
  | .finite s m e _ => some ⟨isNegative s, m, e⟩
  | .infinity _ => none
  | .notANumber => none

theorem isNegative_unpackSign (b : BitVec 64) :
    isNegative (Sign.ofBitVec (@unpackSign .binary64 b)) = decide (Nat.pow 2 63 ≤ b.toNat) := by
  have hsign := toNat_unpackSign b
  have hlt : b.toNat < 2 ^ 64 := b.isLt
  unfold Sign.ofBitVec
  split
  · rename_i hzero
    rw [hzero] at hsign
    have hnat : (0#1).toNat = 0 := rfl
    have hsmall : ¬ 2 ^ 63 ≤ b.toNat := by omega
    exact (decide_eq_false hsmall).symm
  · rename_i hzero
    have hone : (@unpackSign .binary64 b).toNat ≠ 0 := fun h => hzero (BitVec.eq_of_toNat_eq h)
    have hlarge : 2 ^ 63 ≤ b.toNat := by omega
    exact (decide_eq_true hlarge).symm

/-- The exact value of a float is that of what it unpacks to. -/
theorem ofFloat?_eq (x : Float) : Binary.ofFloat? x = Binary.ofUnpacked? x.toModel.unpack := by
  show Binary.ofFloat? x
    = Binary.ofUnpacked? (UnpackedFloat.unpack .binary64 x.toModel.toBits.toBitVec)
  have hbits : x.toBits.toNat = x.toModel.toBits.toBitVec.toNat := rfl
  unfold Binary.ofFloat?
  rw [hbits]
  generalize x.toModel.toBits.toBitVec = b
  have hexponent := toNat_unpackExponent b
  have hmantissa := toNat_unpackMantissa b
  have hsign := isNegative_unpackSign b
  have hones : b.toNat / Nat.pow 2 52 % 2048 = 2047 ↔ @unpackExponent .binary64 b = -1#11 := by
    rw [← BitVec.toNat_inj, hexponent]
    rfl
  have hzeros : b.toNat / Nat.pow 2 52 % 2048 = 0 ↔ @unpackExponent .binary64 b = 0#11 := by
    rw [← BitVec.toNat_inj, hexponent]
    rfl
  unfold UnpackedFloat.unpack
  simp only
  by_cases hall : @unpackExponent .binary64 b = -1#11
  · rw [if_pos (hones.2 hall), if_pos hall]
    split
    · rfl
    · rfl
  · rw [if_neg fun h => hall (hones.1 h), if_neg hall]
    by_cases hnone : @unpackExponent .binary64 b = 0#11
    · rw [if_pos (hzeros.2 hnone), if_pos hnone]
      split
      · -- a zero
        rename_i hm
        rw [hm] at hmantissa
        have hfraction : b.toNat % Nat.pow 2 52 = 0 := hmantissa.symm
        rw [hfraction, ← hsign]
        rfl
      · -- a subnormal value
        rw [← hsign]
        show some _ = some _
        rw [hmantissa, hnone]
        rfl
    · -- a normal value, whose significand has a leading one
      rw [if_neg fun h => hnone (hzeros.1 h), if_neg hnone, ← hsign]
      have happend : (1#1 ++ @unpackMantissa .binary64 b).toNat = 2 ^ 52 + b.toNat % 2 ^ 52 := by
        rw [BitVec.toNat_append, ← Nat.shiftLeft_add_eq_or_of_lt (@unpackMantissa .binary64 b).isLt,
          hmantissa]
        rfl
      show some _ = some _
      rw [happend, hexponent]
      rfl

/-! ## Zeros and finite values -/

/-- A float that unpacks to a zero is that zero. -/
theorem eq_of_unpack_zero {x : Float} {s : Sign} (h : x.toModel.unpack = .zero s) :
    x = ⟨Float.Model.pack (.zero s)⟩ := by
  obtain ⟨⟨bits, hvalid⟩⟩ := x
  have hunpack : UnpackedFloat.unpack .binary64 bits.toBitVec = .zero s := h
  have hpack := @pack_unpack .binary64 bits.toBitVec (by decide)
  rw [hunpack] at hpack
  have hbits : UnpackedFloat.pack .binary64 (.zero s) = bits.toBitVec := by
    by_cases hnan : @isNaNBits .binary64 bits.toBitVec = true
    · -- a zero is not packed as what is not a number
      rw [if_pos hnan] at hpack
      cases s
      · exact absurd hpack (by decide)
      · exact absurd hpack (by decide)
    · rwa [if_neg hnan] at hpack
  have hsame : bits = ⟨UnpackedFloat.pack .binary64 (.zero s)⟩ := UInt64.toBitVec_inj.1 hbits.symm
  subst hsame
  rfl

theorem ofFloat?_eq_some_of_isFinite {x : Float} (h : x.isFinite = true) :
    ∃ b, Binary.ofFloat? x = some b := by
  have hfinite : x.toModel.unpack.isFinite = true := h
  rw [ofFloat?_eq]
  cases hx : x.toModel.unpack with
  | notANumber =>
    rw [hx] at hfinite
    cases hfinite
  | infinity s =>
    rw [hx] at hfinite
    cases hfinite
  | zero s => exact ⟨_, rfl⟩
  | finite s m e hm => exact ⟨_, rfl⟩

/-- What has an exact value is a zero or finite, with the parts of the value. -/
theorem cases_of_ofFloat? {x : Float} {b : Binary} (h : Binary.ofFloat? x = some b) :
    (∃ s, x.toModel.unpack = .zero s ∧ b = ⟨isNegative s, 0, -1074⟩) ∨
      ∃ s m e hm, x.toModel.unpack = .finite s m e hm ∧ b = ⟨isNegative s, m, e⟩ := by
  rw [ofFloat?_eq] at h
  cases hx : x.toModel.unpack with
  | notANumber =>
    rw [hx] at h
    cases h
  | infinity s =>
    rw [hx] at h
    cases h
  | zero s =>
    rw [hx] at h
    exact .inl ⟨s, rfl, (Option.some.inj h).symm⟩
  | finite s m e hm =>
    rw [hx] at h
    exact .inr ⟨s, m, e, hm, rfl, (Option.some.inj h).symm⟩

theorem isFinite_of_ofFloat? {x : Float} {b : Binary} (h : Binary.ofFloat? x = some b) :
    x.isFinite = true := by
  show x.toModel.unpack.isFinite = true
  rcases cases_of_ofFloat? h with ⟨s, hx, -⟩ | ⟨s, m, e, hm, hx, -⟩
  · rw [hx]
    rfl
  · rw [hx]
    rfl

theorem significand_lt {x : Float} {b : Binary} (h : Binary.ofFloat? x = some b) :
    b.significand < 2 ^ 53 := by
  rcases cases_of_ofFloat? h with ⟨s, -, rfl⟩ | ⟨s, m, e, hm, hx, rfl⟩
  · exact Nat.two_pow_pos 53
  · exact mantissa_lt_of_unpack hx

/-! ## The nearest whole number -/

/-- A value with a fraction is so small that its nearest whole number is a float. -/
theorem nearestUp_lt {x : Float} {b : Binary} (h : Binary.ofFloat? x = some b)
    (he : ¬ 0 ≤ b.exponent) : nearestUp b.numerator b.denominator < 2 ^ 53 := by
  have hlt := significand_lt h
  have hnumerator : b.numerator = b.significand := by
    rw [Binary.numerator, Int.toNat_of_nonpos (by omega)]
    exact Nat.mul_one _
  have hdenominator : 2 ≤ b.denominator := by
    have hpow : 2 ^ 1 ≤ 2 ^ (-b.exponent).toNat := Nat.pow_le_pow_right (by decide) (by omega)
    exact hpow
  rw [nearestUp, hnumerator, Nat.div_lt_iff_lt_mul (by omega)]
  omega

theorem isFinite_roundAway {x : Float} (h : x.isFinite = true) : (roundAway x).isFinite = true := by
  obtain ⟨b, hb⟩ := ofFloat?_eq_some_of_isFinite h
  unfold roundAway
  rw [hb]
  simp only
  split
  · exact h
  · rename_i he
    have hlt := nearestUp_lt hb he
    have hbounded : Bounded 298 (Float.ofNat (nearestUp b.numerator b.denominator)) :=
      bounded_ofNat (by omega)
    split
    · exact isFinite_of_bounded (bounded_neg hbounded (by decide) (by decide))
    · exact isFinite_of_bounded hbounded

/-- The nearest whole number of a positive float is not below zero. -/
theorem nonneg_roundAway {x : Float} {b : Binary} (hx : 0 ≤ x) (hb : Binary.ofFloat? x = some b)
    (hsign : b.negative = false) : 0 ≤ roundAway x := by
  unfold roundAway
  rw [hb]
  simp only
  split
  · exact hx
  · rename_i he
    rw [hsign]
    exact nonneg_ofNat (nearestUp_lt hb he)

end Decimal

end Slideshow

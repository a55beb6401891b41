/-
  Slideshow.Proofs.Decimal.Order

  The order of floats. Numbers are ordered linearly, and what is not a number compares with
  nothing (`lt_iff_rank`, `le_iff_rank`). To add what is not negative does not lead back, since
  rounding does not lead below a value that needs no rounding (`le_add`); and the difference to
  something later is not negative (`nonneg_sub`).
-/
import Slideshow.Proofs.Decimal.Sign

namespace Slideshow

namespace Decimal

open Float.Model Float.Model.UnpackedFloat

/-! ## Numbers in order -/

/-- The place of a value among all numbers. -/
def rank? : UnpackedFloat → Option (Int ×ₗ Int ×ₗ Int)
  | .notANumber => none
  | .infinity .negative => some (toLex (-2, toLex (0, 0)))
  | .finite .negative m e _ => some (toLex (-1, toLex (-e, -m)))
  | .zero _ => some (toLex (0, toLex (0, 0)))
  | .finite .positive m e _ => some (toLex (1, toLex (e, m)))
  | .infinity .positive => some (toLex (2, toLex (0, 0)))

theorem lt_iff_rank {x y : UnpackedFloat} :
    UnpackedFloat.lt x y = true ↔ ∃ a b, rank? x = some a ∧ rank? y = some b ∧ a < b := by
  have hlt : ∀ (e e' : Int) (m m' : Nat), (compare e e').then (compare m m') = .lt ↔
      e < e' ∨ e = e' ∧ m < m' := by
    intro e e' m m'
    rw [Ordering.then_eq_lt, Int.compare_eq_lt, Int.compare_eq_eq, Nat.compare_eq_lt]
  have hgt : ∀ (e e' : Int) (m m' : Nat), (compare e e').then (compare m m') = .gt ↔
      e' < e ∨ e = e' ∧ m' < m := by
    intro e e' m m'
    rw [Ordering.then_eq_gt, Int.compare_eq_gt, Int.compare_eq_eq, Nat.compare_eq_gt]
  rcases x with (_ | _) | _ | _ | ⟨_ | _, m, e, hm⟩ <;>
    rcases y with (_ | _) | _ | _ | ⟨_ | _, m', e', hm'⟩ <;>
    simp [UnpackedFloat.lt, UnpackedFloat.compare, rank?, Prod.Lex.toLex_lt_toLex, hlt, hgt]
  rfl

theorem le_iff_rank {x y : UnpackedFloat} :
    UnpackedFloat.le x y = true ↔ ∃ a b, rank? x = some a ∧ rank? y = some b ∧ a ≤ b := by
  have hlt : ∀ (e e' : Int) (m m' : Nat), ((compare e e').then (compare m m')).isLE = true ↔
      e < e' ∨ e = e' ∧ m ≤ m' := by
    intro e e' m m'
    rw [Ordering.isLE_then_iff_or, Int.compare_eq_lt, Int.compare_eq_eq, Nat.isLE_compare]
  have hgt : ∀ (e e' : Int) (m m' : Nat), ((compare e e').then (compare m m')).isGE = true ↔
      e' < e ∨ e = e' ∧ m' ≤ m := by
    intro e e' m m'
    rw [← Ordering.isLE_swap, Ordering.swap_then, Int.compare_swap, Nat.compare_swap, hlt,
      eq_comm]
  rcases x with (_ | _) | _ | _ | ⟨_ | _, m, e, hm⟩ <;>
    rcases y with (_ | _) | _ | _ | ⟨_ | _, m', e', hm'⟩ <;>
    simp [UnpackedFloat.le, UnpackedFloat.compare, rank?, Prod.Lex.toLex_le_toLex, hlt, hgt]
  all_goals rfl

/-- The place of a float among all numbers. -/
def place? (x : Float) : Option (Int ×ₗ Int ×ₗ Int) := rank? x.toModel.unpack

theorem lt_iff {x y : Float} :
    x < y ↔ ∃ a b, place? x = some a ∧ place? y = some b ∧ a < b :=
  ⟨fun h => lt_iff_rank.1 (of_decide_eq_true h), fun h => decide_eq_true (lt_iff_rank.2 h)⟩

theorem le_iff {x y : Float} :
    x ≤ y ↔ ∃ a b, place? x = some a ∧ place? y = some b ∧ a ≤ b :=
  ⟨fun h => le_iff_rank.1 (of_decide_eq_true h), fun h => decide_eq_true (le_iff_rank.2 h)⟩

variable {x y z : Float}

namespace Number

theorem le_trans (h : x ≤ y) (h' : y ≤ z) : x ≤ z := by
  obtain ⟨a, b, ha, hb, hab⟩ := le_iff.1 h
  obtain ⟨b', c, hb', hc, hbc⟩ := le_iff.1 h'
  cases hb.symm.trans hb'
  exact le_iff.2 ⟨a, c, ha, hc, hab.trans hbc⟩

theorem lt_of_lt_of_le (h : x < y) (h' : y ≤ z) : x < z := by
  obtain ⟨a, b, ha, hb, hab⟩ := lt_iff.1 h
  obtain ⟨b', c, hb', hc, hbc⟩ := le_iff.1 h'
  cases hb.symm.trans hb'
  exact lt_iff.2 ⟨a, c, ha, hc, hab.trans_le hbc⟩

theorem lt_of_le_of_lt (h : x ≤ y) (h' : y < z) : x < z := by
  obtain ⟨a, b, ha, hb, hab⟩ := le_iff.1 h
  obtain ⟨b', c, hb', hc, hbc⟩ := lt_iff.1 h'
  cases hb.symm.trans hb'
  exact lt_iff.2 ⟨a, c, ha, hc, hab.trans_lt hbc⟩

theorem le_of_lt (h : x < y) : x ≤ y := by
  obtain ⟨a, b, ha, hb, hab⟩ := lt_iff.1 h
  exact le_iff.2 ⟨a, b, ha, hb, hab.le⟩

theorem not_lt_of_le (h : x ≤ y) : ¬ y < x := by
  intro hlt
  obtain ⟨a, b, ha, hb, hab⟩ := le_iff.1 h
  obtain ⟨b', a', hb', ha', hba⟩ := lt_iff.1 hlt
  cases ha.symm.trans ha'
  cases hb.symm.trans hb'
  exact not_lt.2 hab hba

theorem not_lt_self (x : Float) : ¬ x < x := by
  intro h
  obtain ⟨a, b, ha, hb, hab⟩ := lt_iff.1 h
  cases ha.symm.trans hb
  exact lt_irrefl a hab

/-- What compares with something is a number. -/
theorem self_of_le (h : x ≤ y) : x ≤ x ∧ y ≤ y := by
  obtain ⟨a, b, ha, hb, _⟩ := le_iff.1 h
  exact ⟨le_iff.2 ⟨a, a, ha, ha, le_rfl⟩, le_iff.2 ⟨b, b, hb, hb, le_rfl⟩⟩

/-- Only what is not a number does not compare with itself. -/
theorem self_iff : x ≤ x ↔ x.isNaN = false := by
  have hnan : x.isNaN = x.toModel.unpack.isNaN := rfl
  rw [le_iff, hnan, place?]
  cases x.toModel.unpack with
  | notANumber => exact iff_of_false (fun ⟨a, _, ha, _⟩ => by cases ha) Bool.false_ne_true.symm
  | zero s => exact iff_of_true ⟨_, _, rfl, rfl, le_rfl⟩ rfl
  | infinity s => cases s <;> exact iff_of_true ⟨_, _, rfl, rfl, le_rfl⟩ rfl
  | finite s m e hm => cases s <;> exact iff_of_true ⟨_, _, rfl, rfl, le_rfl⟩ rfl

/-- Of two numbers one is no greater than the other. -/
theorem le_of_not_lt (hx : x ≤ x) (hy : y ≤ y) (h : ¬ x < y) : y ≤ x := by
  obtain ⟨a, _, ha, _⟩ := le_iff.1 hx
  obtain ⟨b, _, hb, _⟩ := le_iff.1 hy
  exact le_iff.2 ⟨b, a, hb, ha, not_lt.1 fun hab => h (lt_iff.2 ⟨a, b, ha, hb, hab⟩)⟩

theorem le_of_not_le (hx : x ≤ x) (hy : y ≤ y) (h : ¬ x ≤ y) : y ≤ x := by
  obtain ⟨a, _, ha, _⟩ := le_iff.1 hx
  obtain ⟨b, _, hb, _⟩ := le_iff.1 hy
  exact le_iff.2 ⟨b, a, hb, ha, le_of_not_ge fun hab => h (le_iff.2 ⟨a, b, ha, hb, hab⟩)⟩

end Number

/-! ## Canonical values -/

/-- The significand has 53 bits, or the exponent is the least one. -/
structure Canonical (m : Nat) (e : Int) : Prop where
  bits : m < 2 ^ 53
  least : -1074 ≤ e
  normal : 2 ^ 52 ≤ m ∨ e = -1074

/-- Unpacked floats are canonical. -/
theorem canonical_of_unpack {p : BitVec 64} {s : Sign} {m : Nat} {e : Int} {h : 0 < m}
    (hp : UnpackedFloat.unpack .binary64 p = .finite s m e h) : Canonical m e := by
  have hbits := mantissa_lt_of_unpack hp
  suffices hrest : -1074 ≤ e ∧ (2 ^ 52 ≤ m ∨ e = -1074) from ⟨hbits, hrest.1, hrest.2⟩
  unfold UnpackedFloat.unpack at hp
  simp only at hp
  split at hp
  · split at hp <;> cases hp
  · split at hp
    · split at hp
      · cases hp
      · -- a subnormal value
        rename_i hzero _
        cases hp
        rw [hzero]
        exact ⟨by decide, .inr (by decide)⟩
    · -- a normal value, whose significand has a leading one
      rename_i hzero
      cases hp
      have hpos : (@unpackExponent .binary64 p).toNat ≠ 0 := fun h0 =>
        hzero (BitVec.eq_of_toNat_eq h0)
      have hbias : (Format.binary64.exponentBias : Int) = 1023 := by decide
      refine ⟨?_, .inl ?_⟩
      · rw [hbias]
        show (-1074 : Int) ≤ ((@unpackExponent .binary64 p).toNat : Int) - (1023 + (52 : Nat))
        omega
      · rw [BitVec.toNat_append]
        exact Nat.left_le_or

/-! ## Rounding upwards -/

theorem mantissa_shiftRight_eq (em : ExtendedMantissa) (k : Nat) :
    (em >>> k).mantissa = em.mantissa / 2 ^ k := by
  show (k.repeat ExtendedMantissa.shiftRightOne em).mantissa = em.mantissa / 2 ^ k
  induction k with
  | zero => simp [Nat.repeat]
  | succ k ih =>
    show (k.repeat ExtendedMantissa.shiftRightOne em).mantissa / 2 = _
    rw [ih, Nat.div_div_eq_div_mul, pow_succ]

theorem le_roundedMantissa (em : ExtendedMantissa) : em.mantissa ≤ em.roundedMantissa := by
  rcases em with ⟨m, r, s⟩
  cases r <;> cases s <;>
    simp only [ExtendedMantissa.roundedMantissa, ExtendedMantissa.accuracy,
      Accuracy.roundToNearestEven] <;> omega

/-- The exponent that the number of bits asks for. -/
def fitting (m : Nat) (e : Int) : Int := max ((m.log2 : Int) + 1 + e - 53) (-1074)

theorem targetExponent_eq (m : Nat) (e : Int) :
    Format.binary64.targetExponent (totalExponent m e) = fitting m e := by
  simp only [Format.targetExponent, totalExponent, fitting, Format.mantissaBits,
    Format.minExponent]
  omega

theorem shiftToTargetExponent_eq (m : Nat) (e : Int) :
    (shiftToTargetExponent .binary64 m e .exact).1.mantissa = m / 2 ^ (fitting m e - e).toNat ∧
      (shiftToTargetExponent .binary64 m e .exact).2 = e + (fitting m e - e).toNat := by
  simp only [shiftToTargetExponent, shiftToExponent, targetExponent_eq, and_true]
  exact mantissa_shiftRight_eq _ _

/-- Shifted to the fitting exponent, a significand has at most 53 bits. -/
theorem shifted_lt (m : Nat) (e : Int) : m / 2 ^ (fitting m e - e).toNat < 2 ^ 53 := by
  have hm : m < 2 ^ (m.log2 + 1) := Nat.lt_log2_self
  rw [Nat.div_lt_iff_lt_mul (Nat.two_pow_pos _), ← pow_add]
  refine lt_of_lt_of_le hm (Nat.pow_le_pow_right (by decide) ?_)
  unfold fitting
  omega

/-- What is no less than a canonical value has no smaller exponent. -/
theorem le_fitting {m n : Nat} {e f : Int} (h : Canonical m e) (hfe : f ≤ e)
    (hn : m * 2 ^ (e - f).toNat ≤ n) : e ≤ fitting n f := by
  rcases h.normal with hnormal | hleast
  · have hpow : 2 ^ (52 + (e - f).toNat) ≤ n := by
      rw [pow_add]
      exact le_trans (Nat.mul_le_mul_right _ hnormal) hn
    have hlog : 52 + (e - f).toNat ≤ n.log2 :=
      (Nat.le_log2 (by have := Nat.two_pow_pos (52 + (e - f).toNat); omega)).2 hpow
    unfold fitting
    omega
  · rw [hleast]
    exact le_max_right _ _

/-- Shifted to the fitting exponent, a significand has 53 bits, unless the exponent is the
    least one. -/
theorem le_shifted {n : Nat} {f : Int} (hn : n ≠ 0) (hf : f ≤ fitting n f) :
    2 ^ 52 ≤ n / 2 ^ (fitting n f - f).toNat ∨ fitting n f = -1074 := by
  by_cases hleast : fitting n f = -1074
  · exact .inr hleast
  · left
    have hshift : (fitting n f - f).toNat = n.log2 - 52 ∧ 52 ≤ n.log2 := by
      unfold fitting at hleast hf ⊢
      omega
    rw [hshift.1, Nat.le_div_iff_mul_le (Nat.two_pow_pos _), ← pow_add,
      Nat.add_sub_cancel' hshift.2]
    exact Nat.log2_self_le hn

/-- What was rounded is shifted once more only if it became too long. -/
theorem shift_rounded {r : Nat} {t : Int} (hr : r ≤ 2 ^ 53) (ht : -1074 ≤ t) :
    let second := shiftToTargetExponent .binary64 r t .exact
    r < 2 ^ 53 ∧ second.1.mantissa = r ∧ second.2 = t ∨
      r = 2 ^ 53 ∧ second.1.mantissa = 2 ^ 52 ∧ second.2 = t + 1 := by
  intro second
  obtain ⟨hmantissa, hexponent⟩ := shiftToTargetExponent_eq r t
  rcases hr.lt_or_eq with hlt | rfl
  · left
    have hlog : r.log2 ≤ 52 := log2_le hlt
    have hstay : (fitting r t - t).toNat = 0 := by
      unfold fitting
      omega
    rw [hstay] at hmantissa hexponent
    exact ⟨hlt, by rw [hmantissa, pow_zero, Nat.div_one], by rw [hexponent]; simp⟩
  · right
    have hmove : (fitting (2 ^ 53) t - t).toNat = 1 := by
      unfold fitting
      rw [Nat.log2_two_pow]
      omega
    rw [hmove] at hmantissa hexponent
    exact ⟨rfl, by rw [hmantissa]; decide, hexponent⟩

/-- A value with a canonical form that is no less than another canonical one. -/
def AtLeast (m : Nat) (e : Int) : UnpackedFloat → Prop
  | .finite .positive m' e' _ => Canonical m' e' ∧ (e < e' ∨ e = e' ∧ m ≤ m')
  | .infinity .positive => True
  | _ => False

/-- A shift that loses no bits leaves nothing to round. -/
theorem shiftRight_exact (m k : Nat) :
    ExtendedMantissa.ofMantissaAndAccuracy (m * 2 ^ k) .exact >>> k = ⟨m, false, false⟩ := by
  show k.repeat ExtendedMantissa.shiftRightOne ⟨m * 2 ^ k, false, false⟩ = ⟨m, false, false⟩
  induction k generalizing m with
  | zero => rw [pow_zero, mul_one, Nat.repeat]
  | succ k ih =>
    have hstep : m * 2 ^ (k + 1) = m * 2 * 2 ^ k := by
      rw [pow_succ, mul_comm (2 ^ k), mul_assoc]
    show ExtendedMantissa.shiftRightOne (k.repeat ExtendedMantissa.shiftRightOne _) = _
    rw [hstep, ih (m * 2)]
    simp only [ExtendedMantissa.shiftRightOne, Nat.mul_div_left m Nat.zero_lt_two,
      Nat.mul_mod_left, bne_self_eq_false, Bool.or_self]

/-- A significand that is long enough need not be made longer. -/
theorem round_eq {n : Nat} {f : Int} (s : Sign) (hf : f ≤ fitting n f) :
    UnpackedFloat.round .binary64 s n f = roundWithAccuracy .binary64 s n f .exact := by
  have hdecrease : decreaseExponent n f (fitting n f) = (n, f) := by
    have hzero : (f - fitting n f).toNat = 0 := by omega
    simp only [decreaseExponent, hzero, Nat.shiftLeft_zero, Int.ofNat_zero, Int.sub_zero]
  rw [UnpackedFloat.round, targetExponent_eq, hdecrease]

/-- To round is to shift to the fitting exponent; then the significand is one greater at most, and
    only if bits were lost. If that makes it too long the exponent is one greater. -/
theorem exists_rounded {n : Nat} {f : Int} (s : Sign) (hf : f ≤ fitting n f) :
    ∃ r, n / 2 ^ (fitting n f - f).toNat ≤ r ∧ r ≤ n / 2 ^ (fitting n f - f).toNat + 1 ∧
      (2 ^ (fitting n f - f).toNat ∣ n → r = n / 2 ^ (fitting n f - f).toNat) ∧
      (r = 0 ∧ roundWithAccuracy .binary64 s n f .exact = .zero s ∨
        r < 2 ^ 53 ∧
          (∃ hr, roundWithAccuracy .binary64 s n f .exact = .finite s r (fitting n f) hr) ∨
        r = 2 ^ 53 ∧
          ∃ hr, roundWithAccuracy .binary64 s n f .exact
            = .finite s (2 ^ 52) (fitting n f + 1) hr) := by
  have hleast : -1074 ≤ fitting n f := le_max_right _ _
  -- it is shifted to the fitting exponent
  obtain ⟨hmantissa, hexponent⟩ := shiftToTargetExponent_eq n f
  have hlt := shifted_lt n f
  have hreached : f + (fitting n f - f).toNat = fitting n f := by omega
  have hexact : 2 ^ (fitting n f - f).toNat ∣ n →
      (shiftToTargetExponent .binary64 n f .exact).1.roundedMantissa
        = n / 2 ^ (fitting n f - f).toNat := by
    rintro ⟨q, hq⟩
    simp only [shiftToTargetExponent, shiftToExponent, targetExponent_eq]
    generalize (fitting n f - f).toNat = k at hq
    rw [mul_comm] at hq
    rw [hq, shiftRight_exact, Nat.mul_div_cancel _ (Nat.two_pow_pos k)]
    rfl
  rw [hreached] at hexponent
  simp only [roundWithAccuracy]
  generalize shiftToTargetExponent .binary64 n f .exact = first at hmantissa hexponent hexact
  -- rounded, which may make it one greater
  have hlow := le_roundedMantissa first.1
  have hhigh := roundedMantissa_le first.1
  rw [hmantissa] at hlow hhigh
  rw [hexponent]
  generalize n / 2 ^ (fitting n f - f).toNat = q at hlt hlow hhigh hexact
  generalize fitting n f = t at hleast hexact
  generalize first.1.roundedMantissa = r at hlow hhigh hexact
  refine ⟨r, hlow, hhigh, hexact, ?_⟩
  -- and shifted once more if that made it too long
  have hsecond := @shift_rounded r t (by omega) hleast
  simp only at hsecond
  generalize shiftToTargetExponent .binary64 r t .exact = second at hsecond
  obtain ⟨⟨m, roundBit, stickyBit⟩, e⟩ := second
  rcases hsecond with ⟨hbits, hm, he⟩ | ⟨hfull, hm, he⟩
  · simp only at hm he
    subst hm he
    by_cases hzero : m = 0
    · exact .inl ⟨hzero, dif_pos hzero⟩
    · exact .inr (.inl ⟨hbits, Nat.pos_of_ne_zero hzero, dif_neg hzero⟩)
  · simp only at hm he
    subst hm he
    exact .inr (.inr ⟨hfull, by decide, dif_neg (show 2 ^ 52 ≠ 0 by decide)⟩)

/-- What is rounded has a canonical form, if anything is left of it. -/
theorem exists_round {n : Nat} {f : Int} (hf : f ≤ fitting n f)
    (hpos : n / 2 ^ (fitting n f - f).toNat ≠ 0) :
    ∃ m e hm, UnpackedFloat.round .binary64 .positive n f = .finite .positive m e hm ∧
      Canonical m e ∧
      (e = fitting n f ∧ n / 2 ^ (fitting n f - f).toNat ≤ m ∨ e = fitting n f + 1) := by
  have hleast : -1074 ≤ fitting n f := le_max_right _ _
  have hn : n ≠ 0 := fun hzero => hpos (by rw [hzero, Nat.zero_div])
  have hnormal := le_shifted hn hf
  obtain ⟨r, hlow, -, -, ⟨hzero, -⟩ | ⟨hbits, hr, heq⟩ | ⟨-, hr, heq⟩⟩ :=
    exists_rounded .positive hf
  · rw [hzero] at hlow
    exact absurd (Nat.le_zero.1 hlow) hpos
  · exact ⟨r, _, hr, (round_eq _ hf).trans heq,
      ⟨hbits, hleast, hnormal.imp_left fun h => h.trans hlow⟩, .inl ⟨rfl, hlow⟩⟩
  · refine ⟨_, _, hr, (round_eq _ hf).trans heq, ⟨by decide, by omega, ?_⟩, .inr rfl⟩
    exact .inl (Nat.le_refl _)

/-- Rounding does not lead below a canonical value. -/
theorem atLeast_round {m n : Nat} {e f : Int} (hm : 0 < m) (h : Canonical m e) (hfe : f ≤ e)
    (hn : m * 2 ^ (e - f).toNat ≤ n) :
    AtLeast m e (UnpackedFloat.round .binary64 .positive n f) := by
  have hleast := h.least
  have hfit := le_fitting h hfe hn
  have hn₀ : n ≠ 0 := by
    have := Nat.mul_pos hm (Nat.two_pow_pos (e - f).toNat)
    omega
  have hsame : e = fitting n f → m ≤ n / 2 ^ (fitting n f - f).toNat := by
    intro heq
    rwa [← heq, Nat.le_div_iff_mul_le (Nat.two_pow_pos _)]
  have hpos : n / 2 ^ (fitting n f - f).toNat ≠ 0 := by
    rcases le_shifted hn₀ (hfe.trans hfit) with hlong | hlow
    · omega
    · have hle := hsame (by omega)
      omega
  obtain ⟨m', e', hm', hround, hcanonical, hreached⟩ := exists_round (hfe.trans hfit) hpos
  rw [hround]
  refine ⟨hcanonical, ?_⟩
  rcases hreached with ⟨he', hlow⟩ | he'
  · rcases hfit.lt_or_eq with hlt | heq
    · exact .inl (by omega)
    · exact .inr ⟨by omega, (hsame heq).trans hlow⟩
  · exact .inl (by omega)

/-! ## Packing -/

theorem ofBitVec_toBitVec (s : Sign) : Sign.ofBitVec s.toBitVec = s := by
  cases s <;> rfl

/-- A normal value is unpacked with a leading one. -/
theorem unpack_normal (s : Sign) {b : BitVec 11} (v : BitVec 52) (hones : b ≠ -1#11)
    (hzero : b ≠ 0#11) :
    ∃ h, UnpackedFloat.unpack .binary64 (packComponents .binary64 s b v) =
      .finite s (2 ^ 52 + v.toNat) ((b.toNat : Int) - 1075) h := by
  have happend : (1#1 ++ v).toNat = 2 ^ 52 + v.toNat := by
    rw [BitVec.toNat_append, ← Nat.shiftLeft_add_eq_or_of_lt v.isLt]
    rfl
  refine ⟨by omega, ?_⟩
  unfold UnpackedFloat.unpack
  simp only [unpackExponent_packComponents, unpackMantissa_packComponents,
    unpackSign_packComponents, if_neg hones, if_neg hzero, happend, ofBitVec_toBitVec]
  rfl

/-- A subnormal value is unpacked with the least exponent. -/
theorem unpack_subnormal (s : Sign) {v : BitVec 52} (hv : v ≠ 0#52) :
    ∃ h, UnpackedFloat.unpack .binary64 (packComponents .binary64 s 0#11 v) =
      .finite s v.toNat (-1074) h := by
  have hpos : 0 < v.toNat := Nat.pos_of_ne_zero fun h => hv (BitVec.eq_of_toNat_eq h)
  refine ⟨hpos, ?_⟩
  unfold UnpackedFloat.unpack
  simp only [unpackExponent_packComponents, unpackMantissa_packComponents,
    unpackSign_packComponents, ofBitVec_toBitVec]
  rw [if_neg (by decide), if_pos trivial, dif_neg hv]
  rfl

/-- Packing leaves a canonical value as it is, or it becomes infinite. -/
theorem unpack_pack_canonical (s : Sign) {m : Nat} {e : Int} {hm : 0 < m} (h : Canonical m e) :
    UnpackedFloat.unpack .binary64 (UnpackedFloat.pack .binary64 (.finite s m e hm)) =
        .finite s m e hm ∨
      UnpackedFloat.unpack .binary64 (UnpackedFloat.pack .binary64 (.finite s m e hm)) =
        .infinity s := by
  have hleast := h.least
  have hbits := h.bits
  have hbias : (e + (Format.binary64.exponentBias : Int) +
      (Format.binary64.mantissaBitsWithoutImplicit : Nat)).toNat = (e + 1075).toNat := by
    show (e + 1023 + 52).toNat = (e + 1075).toNat
    congr 1
    omega
  unfold UnpackedFloat.pack
  simp only [hbias]
  split
  · right
    cases s <;> rfl
  · rename_i hfits
    have hsmall : (e + 1075).toNat < 2047 := by
      have hlt : ¬ 2 ^ 11 ≤ (e + 1075).toNat + 1 := hfits
      omega
    left
    split
    · -- the significand has all its bits
      rename_i hall
      have hlog : m.log2 = 52 := Nat.succ.inj hall
      have hfull : 2 ^ 52 ≤ m := hlog ▸ Nat.log2_self_le (by omega)
      have hb : (BitVec.ofNat 11 (e + 1075).toNat).toNat = (e + 1075).toNat := by
        rw [BitVec.toNat_ofNat, Nat.mod_eq_of_lt (by omega)]
      have hv : 2 ^ 52 + (BitVec.ofNat 52 m).toNat = m := by
        rw [BitVec.toNat_ofNat]
        omega
      have hones : BitVec.ofNat 11 (e + 1075).toNat ≠ -1#11 := fun heq => by
        have hnat : (BitVec.ofNat 11 (e + 1075).toNat).toNat = 2047 := congrArg BitVec.toNat heq
        omega
      have hzero : BitVec.ofNat 11 (e + 1075).toNat ≠ 0#11 := fun heq => by
        have hnat : (BitVec.ofNat 11 (e + 1075).toNat).toNat = 0 := congrArg BitVec.toNat heq
        omega
      obtain ⟨hpos, hunpack⟩ := unpack_normal s (BitVec.ofNat 52 m) hones hzero
      have hexponent : ((e + 1075).toNat : Int) - 1075 = e := by omega
      simp only [hb, hv, hexponent] at hunpack
      exact hunpack
    · -- the value is subnormal
      rename_i hall
      have hsub : m < 2 ^ 52 := by
        by_contra hfull
        have hlog : m.log2 = 52 :=
          Nat.le_antisymm (log2_le hbits) ((Nat.le_log2 (by omega)).2 (by omega))
        exact hall (congrArg Nat.succ hlog)
      have hv : (BitVec.ofNat 52 m).toNat = m := by
        rw [BitVec.toNat_ofNat, Nat.mod_eq_of_lt hsub]
      have hne : BitVec.ofNat 52 m ≠ 0#52 := fun heq => by
        have hnat : (BitVec.ofNat 52 m).toNat = 0 := congrArg BitVec.toNat heq
        omega
      obtain ⟨hpos, hunpack⟩ := unpack_subnormal s hne
      have hexponent : e = -1074 := by
        have hnormal := h.normal
        omega
      simp only [hv] at hunpack
      subst hexponent
      exact hunpack

/-! ## Sums and differences -/

theorem atLeast_unpack_pack {m : Nat} {e : Int} {u : UnpackedFloat} (h : AtLeast m e u) :
    AtLeast m e (UnpackedFloat.unpack .binary64 (UnpackedFloat.pack .binary64 u)) := by
  cases u with
  | notANumber => cases h
  | zero s => cases h
  | infinity s =>
    cases s with
    | negative => cases h
    | positive => exact trivial
  | finite s m' e' hm' =>
    cases s with
    | negative => cases h
    | positive =>
      rcases @unpack_pack_canonical .positive _ _ hm' h.1 with hsame | hinfinite
      · rw [hsame]
        exact h
      · rw [hinfinite]
        exact trivial

theorem le_of_atLeast {m : Nat} {e : Int} {hm : 0 < m} {u : UnpackedFloat} (h : AtLeast m e u) :
    UnpackedFloat.le (.finite .positive m e hm) u = true := by
  rw [le_iff_rank]
  cases u with
  | notANumber => cases h
  | zero s => cases h
  | infinity s =>
    cases s with
    | negative => cases h
    | positive => exact ⟨_, _, rfl, rfl, by simp [Prod.Lex.toLex_le_toLex]⟩
  | finite s m' e' hm' =>
    cases s with
    | negative => cases h
    | positive =>
      have horder := h.2
      refine ⟨_, _, rfl, rfl, ?_⟩
      simp only [Prod.Lex.toLex_le_toLex, lt_irrefl, true_and, false_or, Nat.cast_le]
      exact horder

/-- To add, both significands are brought to the smaller exponent. -/
theorem add_positive {m m' : Nat} {e e' : Int} {hm : 0 < m} {hm' : 0 < m'} :
    UnpackedFloat.add .binary64 (.finite .positive m e hm) (.finite .positive m' e' hm') =
      UnpackedFloat.round .binary64 .positive
        (m * 2 ^ (e - min e e').toNat + m' * 2 ^ (e' - min e e').toNat) (min e e') := by
  have hpos : compare ((m * 2 ^ (e - min e e').toNat : Nat) +
      (m' * 2 ^ (e' - min e e').toNat : Nat) : Int) 0 = .gt := by
    have := Nat.mul_pos hm (Nat.two_pow_pos (e - min e e').toNat)
    rw [Int.compare_eq_gt]
    omega
  simp only [UnpackedFloat.add, decreaseExponent, Nat.shiftLeft_eq, Sign.apply,
    UnpackedFloat.normalize, hpos]
  rw [← Int.natCast_add, Int.toNat_natCast]

/-- A sum with something that is not negative is at least the canonical summand. -/
theorem atLeast_add {m : Nat} {e : Int} {hm : 0 < m} (h : Canonical m e) {d : UnpackedFloat}
    (hd : isNonneg d = true) :
    AtLeast m e (UnpackedFloat.add .binary64 (.finite .positive m e hm) d) := by
  cases d with
  | notANumber => cases hd
  | zero s => exact ⟨h, .inr ⟨rfl, Nat.le_refl m⟩⟩
  | infinity s =>
    cases s with
    | negative => cases hd
    | positive => exact trivial
  | finite s m' e' hm' =>
    cases s with
    | negative => cases hd
    | positive =>
      rw [add_positive]
      exact atLeast_round hm h (min_le_left _ _) (Nat.le_add_right _ _)

theorem zero_le_eq (s : Sign) (u : UnpackedFloat) :
    UnpackedFloat.le (.zero s) u = isNonneg u := by
  cases u with
  | notANumber => rfl
  | zero s' => rfl
  | infinity s' => cases s' <;> rfl
  | finite s' m e hm => cases s' <;> rfl

theorem infinity_add {d : UnpackedFloat} (hd : isNonneg d = true) :
    UnpackedFloat.add .binary64 (.infinity .positive) d = .infinity .positive := by
  cases d with
  | notANumber => cases hd
  | zero s => rfl
  | infinity s =>
    cases s with
    | negative => cases hd
    | positive => rfl
  | finite s m e hm => rfl

/-- To add what is not negative does not lead back. -/
theorem le_add {d : Float} (hx : 0 ≤ x) (hd : 0 ≤ d) : x ≤ x + d := by
  have hx := nonneg_iff.1 hx
  have hd := nonneg_iff.1 hd
  suffices h : UnpackedFloat.le x.toModel.unpack (UnpackedFloat.unpack .binary64
      (UnpackedFloat.pack .binary64
        (UnpackedFloat.add .binary64 x.toModel.unpack d.toModel.unpack))) = true from
    decide_eq_true h
  have hsum := isNonneg_pack (isNonneg_add hx hd)
  have hcanonical : ∀ s m e hm, x.toModel.unpack = .finite s m e hm → Canonical m e :=
    fun _ _ _ _ => canonical_of_unpack
  generalize x.toModel.unpack = u at hx hsum hcanonical
  generalize d.toModel.unpack = v at hd hsum
  cases u with
  | notANumber => cases hx
  | zero s => rwa [zero_le_eq]
  | infinity s =>
    cases s with
    | negative => cases hx
    | positive =>
      rw [infinity_add hd]
      rfl
  | finite s m e hm =>
    cases s with
    | negative => cases hx
    | positive =>
      exact le_of_atLeast (atLeast_unpack_pack (atLeast_add (hcanonical _ _ _ hm rfl) hd))

/-- What leads from zero to a time that is not negative is not negative. -/
theorem nonneg_of_zero_add (h : 0 ≤ 0 + x) : 0 ≤ x := by
  have hzero : (0 : Float).toModel.unpack = .zero .positive := rfl
  have hadd : (0 + x).toModel.unpack = UnpackedFloat.unpack .binary64 (UnpackedFloat.pack .binary64
      (UnpackedFloat.add .binary64 (0 : Float).toModel.unpack x.toModel.unpack)) := rfl
  have hsum := nonneg_iff.1 h
  rw [hadd, hzero] at hsum
  rw [nonneg_iff]
  have hcanonical : ∀ s m e hm, x.toModel.unpack = .finite s m e hm → Canonical m e :=
    fun _ _ _ _ => canonical_of_unpack
  generalize x.toModel.unpack = u at hsum hcanonical
  cases u with
  | notANumber => cases hsum
  | zero s => rfl
  | infinity s =>
    cases s with
    | negative => cases hsum
    | positive => rfl
  | finite s m e hm =>
    cases s with
    | positive => rfl
    | negative =>
      -- packed, a negative value is negative still
      have hsum : isNonneg (UnpackedFloat.unpack .binary64 (UnpackedFloat.pack .binary64
        (.finite .negative m e hm))) = true := hsum
      rcases @unpack_pack_canonical .negative _ _ hm (hcanonical _ _ _ _ rfl) with hsame | hinfinite
      · rw [hsame] at hsum
        cases hsum
      · rw [hinfinite] at hsum
        cases hsum

/-- Among canonical values, the greater one is greater by its digits too. -/
theorem scaled_le {m m' : Nat} {e e' : Int} (h : Canonical m e) (h' : Canonical m' e')
    (hle : e < e' ∨ e = e' ∧ m ≤ m') :
    m * 2 ^ (e - min e e').toNat ≤ m' * 2 ^ (e' - min e e').toNat := by
  rcases hle with hlt | ⟨rfl, hm⟩
  · -- the greater exponent is not the least one, so the significand has all its bits
    have hleast := h.least
    have hbits := h.bits
    have hfull : 2 ^ 52 ≤ m' := by
      have hnormal := h'.normal
      omega
    have hmin : min e e' = e := min_eq_left hlt.le
    have hgap : 1 ≤ (e' - e).toNat := by omega
    rw [hmin, sub_self, Int.toNat_zero, pow_zero, mul_one]
    calc m ≤ 2 ^ 52 * 2 ^ 1 := by omega
      _ ≤ m' * 2 ^ (e' - e).toNat := Nat.mul_le_mul hfull (Nat.pow_le_pow_right (by decide) hgap)
  · exact Nat.mul_le_mul_right _ hm

/-- The difference to something later is not negative. -/
theorem isNonneg_sub {u v : UnpackedFloat} (hu : isNonneg u = true)
    (hcanonical : ∀ s m e hm, u = .finite s m e hm → Canonical m e)
    (hcanonical' : ∀ s m e hm, v = .finite s m e hm → Canonical m e)
    (hfinite : u ≠ .infinity .positive) (hle : UnpackedFloat.le u v = true) :
    isNonneg (UnpackedFloat.sub .binary64 v u) = true := by
  cases u with
  | notANumber => cases hu
  | zero s =>
    rw [zero_le_eq] at hle
    cases v with
    | notANumber => cases hle
    | zero s' => cases s <;> cases s' <;> rfl
    | infinity s' => exact hle
    | finite s' m e hm => exact hle
  | infinity s =>
    cases s with
    | negative => cases hu
    | positive => exact absurd rfl hfinite
  | finite s m e hm =>
    cases s with
    | negative => cases hu
    | positive =>
      -- what is later is positive too, or positive infinity
      obtain ⟨a, b, ha, hb, hab⟩ := le_iff_rank.1 hle
      cases ha
      cases v with
      | notANumber => cases hb
      | zero s' =>
        cases hb
        simp [Prod.Lex.toLex_le_toLex] at hab
      | infinity s' =>
        cases s' with
        | positive => rfl
        | negative =>
          cases hb
          simp [Prod.Lex.toLex_le_toLex] at hab
      | finite s' m' e' hm' =>
        cases s' with
        | negative =>
          cases hb
          simp [Prod.Lex.toLex_le_toLex] at hab
        | positive =>
          cases hb
          simp only [Prod.Lex.toLex_le_toLex, lt_irrefl, true_and, false_or, Nat.cast_le] at hab
          have hscaled := scaled_le (hcanonical _ _ _ hm rfl) (hcanonical' _ _ _ hm' rfl) hab
          rw [min_comm] at hscaled
          simp only [UnpackedFloat.sub, decreaseExponent, Nat.shiftLeft_eq, Sign.apply]
          exact isNonneg_normalize (by omega) _

theorem nonneg_sub {a : Float} (ha : 0 ≤ a) (hfinite : ¬ 1 / 0 ≤ a) (h : a ≤ x) : 0 ≤ x - a := by
  have hne : a.toModel.unpack ≠ .infinity .positive := by
    intro heq
    refine hfinite (decide_eq_true ?_)
    show UnpackedFloat.le (.infinity .positive) a.toModel.unpack = true
    rw [heq]
    rfl
  refine nonneg_iff.2 (isNonneg_pack (isNonneg_sub (nonneg_iff.1 ha) ?_ ?_ hne ?_))
  · exact fun _ _ _ _ => canonical_of_unpack
  · exact fun _ _ _ _ => canonical_of_unpack
  · exact of_decide_eq_true h

/-! ## Differences that are numbers -/

/-- What can be taken away with a comparable rest is a number. -/
theorem Number.self_of_le_sub {a b : Float} (h : b ≤ x - a) : a ≤ a := by
  obtain ⟨_, r, _, hr, _⟩ := le_iff.1 h
  cases ha : a.toModel.unpack with
  | notANumber =>
    have hsub : place? (x - a) = rank? (UnpackedFloat.unpack .binary64 (UnpackedFloat.pack .binary64
        (UnpackedFloat.sub .binary64 x.toModel.unpack a.toModel.unpack))) := rfl
    have hnan : UnpackedFloat.sub .binary64 x.toModel.unpack .notANumber = .notANumber := by
      cases x.toModel.unpack <;> rfl
    rw [hsub, ha, hnan] at hr
    cases hr
  | zero s => exact le_iff.2 ⟨_, _, congrArg rank? ha, congrArg rank? ha, le_rfl⟩
  | infinity s =>
    cases s <;> exact le_iff.2 ⟨_, _, congrArg rank? ha, congrArg rank? ha, le_rfl⟩
  | finite s m e hm =>
    cases s <;> exact le_iff.2 ⟨_, _, congrArg rank? ha, congrArg rank? ha, le_rfl⟩

theorem sub_infinity (u : UnpackedFloat) :
    UnpackedFloat.sub .binary64 u (.infinity .positive) = .notANumber ∨
      UnpackedFloat.sub .binary64 u (.infinity .positive) = .infinity .negative := by
  cases u with
  | notANumber => exact .inl rfl
  | zero s => exact .inr rfl
  | finite s m e hm => exact .inr rfl
  | infinity s =>
    cases s with
    | positive => exact .inl rfl
    | negative => exact .inr rfl

theorem infinity_le {u : UnpackedFloat} (h : UnpackedFloat.le (.infinity .positive) u = true) :
    u = .infinity .positive := by
  obtain ⟨a, b, ha, hb, hab⟩ := le_iff_rank.1 h
  cases ha
  rcases u with (_ | _) | _ | _ | ⟨_ | _, m, e, hm⟩ <;> cases hb <;>
    simp [Prod.Lex.toLex_le_toLex] at hab ⊢

/-- What something comes after is not infinite. -/
theorem not_infinity_le_of_nonneg_sub {a : Float} (h : 0 ≤ x - a) : ¬ 1 / 0 ≤ a := by
  intro hle
  have hinfinity : (1 / 0 : Float).toModel.unpack = .infinity .positive := rfl
  have hle := le_unpack hle
  rw [hinfinity] at hle
  have ha := infinity_le hle
  have hnonneg := nonneg_iff.1 h
  have hsub : (x - a).toModel.unpack = UnpackedFloat.unpack .binary64 (UnpackedFloat.pack .binary64
      (UnpackedFloat.sub .binary64 x.toModel.unpack a.toModel.unpack)) := rfl
  rw [hsub, ha] at hnonneg
  rcases sub_infinity x.toModel.unpack with hsub | hsub
  · rw [hsub] at hnonneg
    cases hnonneg
  · rw [hsub] at hnonneg
    cases hnonneg

end Decimal

end Slideshow

/-
  Slideshow.Proofs.Decimal.Mixing

  What lies between two floats that are not below zero. Rounding does not lead above a canonical
  value (`atMost_round`). So a difference to something smaller is at most what was taken from, a
  part of it is too, and the way from one float to another does not go below zero
  (`not_mixed_lt_zero`). Numbers that are written without a sign are not below zero to begin with
  (`nonneg_unsigned?`).
-/
import Slideshow.Proofs.Decimal.Span
import Slideshow.Decimal.Numeral

namespace Slideshow

namespace Decimal

open Float.Model Float.Model.UnpackedFloat

variable {m n : Nat} {e f : Int} {u v : UnpackedFloat}

/-! ## Rounding downwards -/

/-- A zero, or a canonical value of either sign that is no greater than another one without its
    sign. -/
def AtMost (m : Nat) (e : Int) : UnpackedFloat → Prop
  | .zero _ => True
  | .finite _ m' e' _ => Canonical m' e' ∧ (e' < e ∨ e' = e ∧ m' ≤ m)
  | _ => False

/-- What is no greater than a canonical value has no greater exponent. -/
theorem fitting_le (h : Canonical m e) (hn₀ : n ≠ 0)
    (hn : n * 2 ^ (f - e).toNat ≤ m * 2 ^ (e - f).toNat) : fitting n f ≤ e := by
  have hleast := h.least
  have hlog : (n.log2 : Int) + (f - e).toNat ≤ 52 + (e - f).toNat := by
    have hpos : n * 2 ^ (f - e).toNat ≠ 0 := Nat.mul_ne_zero hn₀ (Nat.two_pow_pos _).ne'
    have hlt : n * 2 ^ (f - e).toNat < 2 ^ (53 + (e - f).toNat) := by
      rw [pow_add]
      exact lt_of_le_of_lt hn (Nat.mul_lt_mul_of_pos_right h.bits (Nat.two_pow_pos _))
    have hbits := (Nat.log2_lt hpos).2 hlt
    rw [log2_mul_two_pow hn₀] at hbits
    omega
  unfold fitting
  omega

/-- Rounding does not lead above a canonical value, if the significand is long enough. -/
theorem atMost_roundWithAccuracy (s : Sign) (h : Canonical m e) (hn₀ : n ≠ 0)
    (hf : f ≤ fitting n f) (hn : n * 2 ^ (f - e).toNat ≤ m * 2 ^ (e - f).toNat) :
    AtMost m e (roundWithAccuracy .binary64 s n f .exact) := by
  have hfit := fitting_le h hn₀ hn
  have hleast : -1074 ≤ fitting n f := le_max_right _ _
  have hnormal := le_shifted hn₀ hf
  obtain ⟨r, hlow, hhigh, hexact, hcases⟩ := exists_rounded s hf
  rw [Int.toNat_of_nonpos (by omega : f - e ≤ 0), pow_zero, mul_one] at hn
  -- with the same exponent, rounding upwards means that the value was less
  have hsame : fitting n f = e → r ≤ m := by
    intro heq
    rw [heq] at hlow hhigh hexact
    have hquotient : n / 2 ^ (e - f).toNat ≤ m := Nat.div_le_of_le_mul (by rwa [mul_comm])
    rcases hquotient.lt_or_eq with hlt | hfull
    · omega
    · have hle := Nat.div_mul_le_self n (2 ^ (e - f).toNat)
      rw [hfull] at hle
      have hdvd : 2 ^ (e - f).toNat ∣ n := ⟨m, by rw [mul_comm]; exact le_antisymm hn hle⟩
      rw [hexact hdvd, hfull]
  rcases hcases with ⟨-, heq⟩ | ⟨hbits, hr, heq⟩ | ⟨hcarry, hr, heq⟩
  · rw [heq]
    exact trivial
  · rw [heq]
    refine ⟨⟨hbits, hleast, hnormal.imp_left fun h => h.trans hlow⟩, ?_⟩
    rcases hfit.lt_or_eq with hlt | hsame'
    · exact .inl hlt
    · exact .inr ⟨hsame', hsame hsame'⟩
  · rw [heq]
    have hbits := h.bits
    have hless : fitting n f < e := by
      rcases hfit.lt_or_eq with hlt | hsame'
      · exact hlt
      · have := hsame hsame'
        omega
    refine ⟨⟨by decide, by omega, .inl (Nat.le_refl _)⟩, ?_⟩
    -- the greater exponent is not the least one
    have hlong := h.normal
    omega

/-- Rounding does not lead above a canonical value. -/
theorem atMost_round (s : Sign) (h : Canonical m e) (hn₀ : n ≠ 0)
    (hn : n * 2 ^ (f - e).toNat ≤ m * 2 ^ (e - f).toNat) :
    AtMost m e (UnpackedFloat.round .binary64 s n f) := by
  rcases lt_or_ge (fitting n f) f with hshort | hlong
  · have hfit := fitting_le h hn₀ hn
    obtain ⟨hsame, hround⟩ := round_lengthened s hn₀ hshort
    rw [hround, round_eq s hsame.ge]
    refine atMost_roundWithAccuracy s h (Nat.mul_ne_zero hn₀ (Nat.two_pow_pos _).ne') hsame.ge ?_
    rw [Int.toNat_of_nonpos (by omega : fitting n f - e ≤ 0), pow_zero, mul_one]
    rcases le_total f e with hle | hle
    · have hgap : (e - fitting n f).toNat = (e - f).toNat + (f - fitting n f).toNat := by omega
      rw [Int.toNat_of_nonpos (by omega : f - e ≤ 0), pow_zero, mul_one] at hn
      rw [hgap, pow_add, ← mul_assoc]
      exact Nat.mul_le_mul_right _ hn
    · have hgap : (f - fitting n f).toNat = (f - e).toNat + (e - fitting n f).toNat := by omega
      rw [Int.toNat_of_nonpos (by omega : e - f ≤ 0), pow_zero, mul_one] at hn
      rw [hgap, pow_add, ← mul_assoc]
      exact Nat.mul_le_mul_right _ hn
  · rw [round_eq s hlong]
    exact atMost_roundWithAccuracy s h hn₀ hlong hn

theorem atMost_normalize {z : Int} (s : Sign) (h : Canonical m e)
    (hz : z.natAbs * 2 ^ (f - e).toNat ≤ m * 2 ^ (e - f).toNat) :
    AtMost m e (UnpackedFloat.normalize .binary64 z f s) := by
  unfold UnpackedFloat.normalize
  split
  · rename_i hlt
    have hneg : z < 0 := Int.compare_eq_lt.1 hlt
    have habs : z.natAbs = (-z).toNat := by omega
    rw [habs] at hz
    exact atMost_round _ h (by omega) hz
  · exact trivial
  · rename_i hgt
    have hpos : 0 < z := Int.compare_eq_gt.1 hgt
    have habs : z.natAbs = z.toNat := by omega
    rw [habs] at hz
    exact atMost_round _ h (by omega) hz

/-! ## Packing -/

theorem exponent_le_of_unpack {p : BitVec 64} {s : Sign} {h : 0 < m}
    (hp : UnpackedFloat.unpack .binary64 p = .finite s m e h) : e ≤ 971 := by
  have hbias : (Format.binary64.exponentBias : Int) = 1023 := by decide
  unfold UnpackedFloat.unpack at hp
  simp only at hp
  split at hp
  · split at hp <;> cases hp
  · rename_i hones
    split at hp
    · split at hp
      · cases hp
      · -- a subnormal value
        rename_i hzero _
        cases hp
        rw [hzero]
        decide
    · cases hp
      have hlt : (@unpackExponent .binary64 p).toNat < 2048 := (@unpackExponent .binary64 p).isLt
      have hne : (@unpackExponent .binary64 p).toNat ≠ 2047 := fun h =>
        hones (BitVec.eq_of_toNat_eq h)
      show ((@unpackExponent .binary64 p).toNat : Int) - (1023 + (52 : Nat)) ≤ 971
      omega

/-- Packing leaves what is at most a float as it is. -/
theorem AtMost.unpack_pack (h : AtMost m e u) (hleast : -1074 ≤ e) (he : e ≤ 971) :
    AtMost m e (UnpackedFloat.unpack .binary64 (UnpackedFloat.pack .binary64 u)) := by
  cases u with
  | notANumber => cases h
  | infinity s => cases h
  | zero s => cases s <;> exact trivial
  | finite s m' e' hm' =>
    have hbits := h.1.bits
    have horder := h.2
    have hwithin : within e (.finite s m' e' hm') = true := by
      simp only [within, Bool.and_eq_true, decide_eq_true_eq]
      exact ⟨hbits.trans (by decide), by omega⟩
    have hpacked := within_unpack_pack hwithin hleast he
    rcases @unpack_pack_canonical s _ _ hm' h.1 with hsame | hinfinite
    · rw [hsame]
      exact h
    · rw [hinfinite] at hpacked
      cases hpacked

/-! ## A part of a difference -/

/-- What is not below zero and no greater than a finite value is a zero or finite. -/
theorem cases_of_le {hm : 0 < m} (hv : isNonneg v = true)
    (hle : UnpackedFloat.le v (.finite .positive m e hm) = true) :
    (∃ s, v = .zero s) ∨
      ∃ m' e' hm', v = .finite .positive m' e' hm' ∧ (e' < e ∨ e' = e ∧ m' ≤ m) := by
  obtain ⟨a, b, ha, hb, hab⟩ := le_iff_rank.1 hle
  cases hb
  cases v with
  | notANumber => cases hv
  | zero s => exact .inl ⟨s, rfl⟩
  | infinity s =>
    cases s with
    | negative => cases hv
    | positive =>
      cases ha
      simp [Prod.Lex.toLex_le_toLex] at hab
  | finite s m' e' hm' =>
    cases s with
    | negative => cases hv
    | positive =>
      cases ha
      simp only [Prod.Lex.toLex_le_toLex, lt_irrefl, true_and, false_or, Nat.cast_le] at hab
      exact .inr ⟨m', e', hm', rfl, hab⟩

/-- The difference to something smaller is at most what was taken away. -/
theorem atMost_sub {hm : 0 < m} (h : Canonical m e)
    (hcanonical : ∀ s m e hm, v = .finite s m e hm → Canonical m e) (hv : isNonneg v = true)
    (hle : UnpackedFloat.le v (.finite .positive m e hm) = true) :
    AtMost m e (UnpackedFloat.sub .binary64 v (.finite .positive m e hm)) := by
  rcases cases_of_le hv hle with ⟨s, rfl⟩ | ⟨m', e', hm', rfl, horder⟩
  · exact ⟨h, .inr ⟨rfl, Nat.le_refl m⟩⟩
  · have hscaled := scaled_le (hcanonical _ _ _ hm' rfl) h horder
    have hunit : min e' e ≤ e := min_le_right _ _
    simp only [UnpackedFloat.sub, decreaseExponent, Nat.shiftLeft_eq, Sign.apply]
    apply atMost_normalize _ h
    rw [Int.toNat_of_nonpos (by omega : min e' e - e ≤ 0), pow_zero, mul_one]
    omega

theorem canonical_one : Canonical (2 ^ 52) (-52) :=
  ⟨by decide, by decide, .inl (Nat.le_refl _)⟩

/-- A product with a fraction of one is at most the other factor. -/
theorem atMost_product {m₁ m₂ : Nat} {e₁ e₂ : Int} (s : Sign) (h : Canonical m e)
    (h₁ : Canonical m₁ e₁) (h₂ : Canonical m₂ e₂) (hm₁ : 0 < m₁) (hm₂ : 0 < m₂)
    (hle : e₁ < e ∨ e₁ = e ∧ m₁ ≤ m) (hone : e₂ < -52 ∨ e₂ = -52 ∧ m₂ ≤ 2 ^ 52) :
    AtMost m e (roundWithAccuracy .binary64 s (m₁ * m₂) (e₁ + e₂) .exact) := by
  have hexponent₁ : e₁ ≤ e := by omega
  have hexponent₂ : e₂ ≤ -52 := by omega
  have hproduct : m₁ * m₂ ≠ 0 := Nat.mul_ne_zero hm₁.ne' hm₂.ne'
  have hwhole := scaled_le h₁ h hle
  rw [min_eq_left hexponent₁, sub_self, Int.toNat_zero, pow_zero, mul_one] at hwhole
  have hpart := scaled_le h₂ canonical_one hone
  have hgap : 52 + (-52 - e₂).toNat = (-e₂).toNat := by omega
  rw [min_eq_left hexponent₂, sub_self, Int.toNat_zero, pow_zero, mul_one, ← pow_add, hgap]
    at hpart
  apply atMost_roundWithAccuracy s h hproduct
  · -- the product is long enough, for one of the factors is, or both exponents are least
    have hleast := h.least
    have hlog : 52 ≤ (m₁ * m₂).log2 ∨ e₁ = -1074 ∧ e₂ = -1074 := by
      rcases h₁.normal with hlong | hlow
      · left
        exact (Nat.le_log2 hproduct).2 (hlong.trans (Nat.le_mul_of_pos_right _ hm₂))
      · rcases h₂.normal with hlong | hlow₂
        · left
          exact (Nat.le_log2 hproduct).2 (hlong.trans (Nat.le_mul_of_pos_left _ hm₁))
        · exact .inr ⟨hlow, hlow₂⟩
    unfold fitting
    omega
  · have hsplit : (e - (e₁ + e₂)).toNat = (e - e₁).toNat + (-e₂).toNat := by omega
    rw [Int.toNat_of_nonpos (by omega : e₁ + e₂ - e ≤ 0), pow_zero, mul_one, hsplit, pow_add,
      ← mul_assoc]
    exact Nat.mul_le_mul hwhole hpart

/-- A part of something is at most what the whole is. -/
theorem atMost_mul (h : AtMost m e u) (hm : Canonical m e)
    (hcanonical : ∀ s m e hm, v = .finite s m e hm → Canonical m e) (hv : isNonneg v = true)
    (hone : UnpackedFloat.le v (.finite .positive (2 ^ 52) (-52) (by decide)) = true) :
    AtMost m e (UnpackedFloat.mul .binary64 u v) := by
  cases u with
  | notANumber => cases h
  | infinity s => cases h
  | zero s =>
    rcases cases_of_le hv hone with ⟨s', rfl⟩ | ⟨m', e', hm', rfl, -⟩
    · exact trivial
    · exact trivial
  | finite s m₁ e₁ hm₁ =>
    rcases cases_of_le hv hone with ⟨s', rfl⟩ | ⟨m₂, e₂, hm₂, rfl, horder⟩
    · exact trivial
    · exact atMost_product _ hm h.1 (hcanonical _ _ _ hm₂ rfl) hm₁ hm₂ h.2 horder

/-- What is taken away from a value is at most the value. -/
theorem isNonneg_add_atMost {hm : 0 < m} (hcanonical : Canonical m e) (h : AtMost m e u) :
    isNonneg (UnpackedFloat.add .binary64 (.finite .positive m e hm) u) = true := by
  cases u with
  | notANumber => cases h
  | infinity s => cases h
  | zero s => rfl
  | finite s m' e' hm' =>
    have hscaled := scaled_le h.1 hcanonical h.2
    rw [min_comm] at hscaled
    simp only [UnpackedFloat.add, decreaseExponent, Nat.shiftLeft_eq]
    refine isNonneg_normalize ?_ _
    cases s with
    | positive =>
      simp only [Sign.apply]
      omega
    | negative =>
      simp only [Sign.apply]
      omega

/-! ## From one float to another -/

/-- A sum that is not a number is not below zero. -/
theorem not_add_lt_zero_of_notANumber {x y : Float}
    (h : UnpackedFloat.add .binary64 x.toModel.unpack y.toModel.unpack = .notANumber) :
    ¬ x + y < 0 := by
  intro hlt
  have hlt : UnpackedFloat.lt (UnpackedFloat.unpack .binary64 (UnpackedFloat.pack .binary64
      (UnpackedFloat.add .binary64 x.toModel.unpack y.toModel.unpack))) (.zero .positive) = true :=
    of_decide_eq_true hlt
  rw [h] at hlt
  cases hlt

theorem add_notANumber (u : UnpackedFloat) :
    UnpackedFloat.add .binary64 u .notANumber = .notANumber := by
  cases u <;> rfl

theorem notANumber_mul (u : UnpackedFloat) :
    UnpackedFloat.mul .binary64 .notANumber u = .notANumber := by
  cases u <;> rfl

theorem unpack_pack_notANumber :
    UnpackedFloat.unpack .binary64 (UnpackedFloat.pack .binary64 .notANumber) = .notANumber := by
  rfl

variable {a b t x : Float}

theorem unpack_mul (x y : Float) :
    (x * y).toModel.unpack = UnpackedFloat.unpack .binary64 (UnpackedFloat.pack .binary64
      (UnpackedFloat.mul .binary64 x.toModel.unpack y.toModel.unpack)) := by
  rfl

/-- Where the way has not begun nothing is added, unless it is an infinite one. -/
theorem not_add_lt_zero_of_zero {s : Sign} (ha : 0 ≤ a) (hx : 0 ≤ x)
    (ht : t.toModel.unpack = .zero s) : ¬ a + x * t < 0 := by
  have hx := nonneg_iff.1 hx
  have hmul := unpack_mul x t
  rw [ht] at hmul
  cases hunpack : x.toModel.unpack with
  | notANumber =>
    rw [hunpack] at hx
    cases hx
  | infinity s' =>
    have hnan : UnpackedFloat.mul .binary64 (.infinity s') (.zero s) = .notANumber := rfl
    rw [hunpack, hnan, unpack_pack_notANumber] at hmul
    apply not_add_lt_zero_of_notANumber
    rw [hmul]
    exact add_notANumber _
  | zero s' =>
    rw [hunpack] at hmul
    have hnonneg : 0 ≤ x * t := nonneg_iff.2 (hmul ▸ isNonneg_pack rfl)
    exact Number.not_lt_of_le (nonneg_add ha hnonneg)
  | finite s' m e hm =>
    rw [hunpack] at hmul
    have hnonneg : 0 ≤ x * t := nonneg_iff.2 (hmul ▸ isNonneg_pack rfl)
    exact Number.not_lt_of_le (nonneg_add ha hnonneg)

/-- A part of the way: nothing of it, or a positive part. -/
theorem part_cases (ht : 0 ≤ t) (ht' : t ≤ 1) :
    (∃ s, t.toModel.unpack = .zero s) ∨ ∃ m e hm, t.toModel.unpack = .finite .positive m e hm := by
  have hone : UnpackedFloat.le t.toModel.unpack (.finite .positive (2 ^ 52) (-52) (by decide)) =
      true := le_unpack ht'
  rcases cases_of_le (nonneg_iff.1 ht) hone with hzero | ⟨m, e, hm, hpos, -⟩
  · exact .inl hzero
  · exact .inr ⟨m, e, hm, hpos⟩

/-- The way upwards from a finite float does not lead below zero. -/
theorem not_mixed_lt_zero_of_le (ha : 0 ≤ a) (hfinite : ¬ 1 / 0 ≤ a) (hab : a ≤ b) (ht : 0 ≤ t)
    (ht' : t ≤ 1) : ¬ a + (b - a) * t < 0 := by
  have hsub := nonneg_sub ha hfinite hab
  rcases part_cases ht ht' with ⟨s, hzero⟩ | ⟨m, e, hm, hpos⟩
  · exact not_add_lt_zero_of_zero ha hsub hzero
  · have hmul : 0 ≤ (b - a) * t := by
      rw [nonneg_iff, unpack_mul, hpos]
      exact isNonneg_pack (isNonneg_mul (nonneg_iff.1 hsub) m e hm)
    exact Number.not_lt_of_le (nonneg_add ha hmul)

/-- The way downwards to a float that is not below zero does not lead below zero. -/
theorem nonneg_mixed_of_ge {hm : 0 < m} (ha : a.toModel.unpack = .finite .positive m e hm)
    (hb : 0 ≤ b) (hba : b ≤ a) (ht : 0 ≤ t) (ht' : t ≤ 1) : 0 ≤ a + (b - a) * t := by
  have hcanonical : Canonical m e := canonical_of_unpack ha
  have hexponent : e ≤ 971 := exponent_le_of_unpack ha
  have hle := le_unpack hba
  rw [ha] at hle
  have hsub : AtMost m e (b - a).toModel.unpack := by
    have hexact := atMost_sub hcanonical (fun _ _ _ _ => canonical_of_unpack) (nonneg_iff.1 hb) hle
    rw [← ha] at hexact
    exact hexact.unpack_pack hcanonical.least hexponent
  have hmul : AtMost m e ((b - a) * t).toModel.unpack := by
    have hexact := atMost_mul hsub hcanonical (fun _ _ _ _ => canonical_of_unpack)
      (nonneg_iff.1 ht) (le_unpack ht')
    exact hexact.unpack_pack hcanonical.least hexponent
  have hadd := @isNonneg_add_atMost m e _ hm hcanonical hmul
  rw [← ha] at hadd
  exact nonneg_iff.2 (isNonneg_pack hadd)

/-- From infinity nothing leads to a number. -/
theorem not_mixed_lt_zero_of_infinity (ha : a.toModel.unpack = .infinity .positive) (ht : 0 ≤ t)
    (ht' : t ≤ 1) : ¬ a + (b - a) * t < 0 := by
  apply not_add_lt_zero_of_notANumber
  have hsub : (b - a).toModel.unpack = .notANumber ∨
      (b - a).toModel.unpack = .infinity .negative := by
    have hexact : (b - a).toModel.unpack = UnpackedFloat.unpack .binary64
        (UnpackedFloat.pack .binary64
          (UnpackedFloat.sub .binary64 b.toModel.unpack a.toModel.unpack)) := rfl
    rw [hexact, ha]
    rcases sub_infinity b.toModel.unpack with hnan | hnegative
    · rw [hnan]
      exact .inl unpack_pack_notANumber
    · rw [hnegative]
      exact .inr rfl
  have hmul := unpack_mul (b - a) t
  rw [ha]
  rcases hsub with hnan | hnegative
  · rw [hnan, notANumber_mul, unpack_pack_notANumber] at hmul
    rw [hmul]
    rfl
  · rw [hnegative] at hmul
    rcases part_cases ht ht' with ⟨s, hzero⟩ | ⟨m, e, hm, hpos⟩
    · have hnan : UnpackedFloat.mul .binary64 (.infinity .negative) (.zero s) = .notANumber := rfl
      rw [hzero, hnan, unpack_pack_notANumber] at hmul
      rw [hmul]
      rfl
    · have hinfinite : UnpackedFloat.mul .binary64 (.infinity .negative)
          (.finite .positive m e hm) = .infinity .negative := rfl
      rw [hpos, hinfinite] at hmul
      rw [hmul]
      rfl

theorem not_infinity_le_of_ne (h : a.toModel.unpack ≠ .infinity .positive) : ¬ 1 / 0 ≤ a :=
  fun hle => h (infinity_le (le_unpack hle))

/-- Between two floats that are not below zero nothing is below zero. -/
theorem not_mixed_lt_zero (ha : 0 ≤ a) (hb : 0 ≤ b) (ht : 0 ≤ t) (ht' : t ≤ 1) :
    ¬ a + (b - a) * t < 0 := by
  by_cases hinfinite : a.toModel.unpack = .infinity .positive
  · exact not_mixed_lt_zero_of_infinity hinfinite ht ht'
  have hfinite := not_infinity_le_of_ne hinfinite
  by_cases hab : a ≤ b
  · exact not_mixed_lt_zero_of_le ha hfinite hab ht ht'
  have hba := Number.le_of_not_le (Number.self_of_le ha).2 (Number.self_of_le hb).2 hab
  have hnonneg := nonneg_iff.1 ha
  cases hunpack : a.toModel.unpack with
  | notANumber =>
    rw [hunpack] at hnonneg
    cases hnonneg
  | infinity s =>
    cases s with
    | negative =>
      rw [hunpack] at hnonneg
      cases hnonneg
    | positive => exact absurd hunpack hinfinite
  | zero s =>
    -- nothing that is not below zero is less than a zero
    refine absurd (decide_eq_true ?_) hab
    show UnpackedFloat.le a.toModel.unpack b.toModel.unpack = true
    rw [hunpack, zero_le_eq]
    exact nonneg_iff.1 hb
  | finite s m e hm =>
    cases s with
    | negative =>
      rw [hunpack] at hnonneg
      cases hnonneg
    | positive => exact Number.not_lt_of_le (nonneg_mixed_of_ge hunpack hb hba ht ht')

/-! ## Numbers without a sign -/

theorem isNonneg_ofScientific (n : Nat) (e : Int) :
    isNonneg (UnpackedFloat.ofScientific .binary64 n e) = true := by
  unfold UnpackedFloat.ofScientific
  split
  · rfl
  · split
    · rfl
    · split
      · rfl
      · split
        · exact isNonneg_mul rfl _ _ _
        · exact isNonneg_div rfl _ _ _

theorem nonneg_ofScientific (n : Nat) (s : Bool) (e : Nat) : 0 ≤ Float.ofScientific n s e := by
  unfold Float.ofScientific
  split
  · rename_i hsmall
    have hfloat : 0 ≤ n.toUInt64.toFloat :=
      nonneg_iff.2 (isNonneg_pack (isNonneg_normalize (Int.natCast_nonneg _) _))
    have hpowers : ∀ k : Fin 23, 0 < Float.exactlyRepresentablePowersOfTen[k] ∧
        Float.exactlyRepresentablePowersOfTen[k].isFinite = true := by
      decide +kernel
    obtain ⟨hpower, hfinite⟩ := hpowers ⟨e, by omega⟩
    simp only
    split
    · exact nonneg_div hfloat hpower hfinite
    · exact nonneg_mul hfloat hpower hfinite
  · exact nonneg_iff.2 (isNonneg_pack (isNonneg_ofScientific _ _))

theorem nonneg_scaled (ds : List Char) (scale : Int) : 0 ≤ scaled ds scale := by
  unfold scaled
  simp only
  split
  · decide +kernel
  · split
    · decide +kernel
    · split
      · decide +kernel
      · exact nonneg_ofScientific _ _ _

/-- Digits without a sign do not stand for anything below zero. -/
theorem nonneg_unsigned? {cs : List Char} (h : unsigned? cs = some x) : 0 ≤ x := by
  have hvalue : ∀ (part rest : List Char),
      (if (spanDigits cs).1.isEmpty && part.isEmpty then none
        else (exponent? rest).map fun e => scaled ((spanDigits cs).1 ++ part) (e - part.length))
          = some x → 0 ≤ x := by
    intro part rest h
    split at h
    · cases h
    · obtain ⟨e, -, rfl⟩ := Option.map_eq_some_iff.1 h
      exact nonneg_scaled _ _
  unfold unsigned? at h
  simp only at h
  split at h
  · exact hvalue _ _ h
  · exact hvalue _ _ h

end Decimal

end Slideshow

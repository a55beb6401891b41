/-
  Slideshow.Proofs.Decimal.Span

  Spans of time in floats. A sum and a difference are rounded each on its own, and still agree
  in this: if the time since a start is less than a length, the start and the length together
  do not fall short of the time (`le_add_of_not_le_sub`). For rounding depends on the value
  alone, not on the exponent that it is given with (`round_lengthened`), and does not lead
  below a canonical value. Sums of what is bounded are bounded (`bounded_add`).
-/
import Slideshow.Proofs.Decimal.Order
import Slideshow.Scalar

namespace Slideshow

namespace Decimal

open Float.Model Float.Model.UnpackedFloat

/-! ## Rounding with any exponent -/

theorem log2_mul_two_pow {n : Nat} (hn : n ≠ 0) (k : Nat) : (n * 2 ^ k).log2 = n.log2 + k := by
  induction k with
  | zero => rw [pow_zero, mul_one, add_zero]
  | succ k ih =>
    have hpos : n * 2 ^ k ≠ 0 := Nat.mul_ne_zero hn (Nat.two_pow_pos k).ne'
    rw [pow_succ, ← mul_assoc, mul_comm _ 2, Nat.log2_two_mul hpos, ih, add_assoc]

/-- A significand that is too short is made longer, and then rounded. -/
theorem round_lengthened {n : Nat} {f : Int} (s : Sign) (hn : n ≠ 0) (h : fitting n f < f) :
    fitting (n * 2 ^ (f - fitting n f).toNat) (fitting n f) = fitting n f ∧
      UnpackedFloat.round .binary64 s n f =
        UnpackedFloat.round .binary64 s (n * 2 ^ (f - fitting n f).toNat) (fitting n f) := by
  have hsame : fitting (n * 2 ^ (f - fitting n f).toNat) (fitting n f) = fitting n f := by
    have hlog := log2_mul_two_pow hn (f - fitting n f).toNat
    generalize ht : fitting n f = t at h hlog
    unfold fitting at ht ⊢
    omega
  refine ⟨hsame, ?_⟩
  have hreached : f - ((f - fitting n f).toNat : Int) = fitting n f := by omega
  simp only [UnpackedFloat.round, targetExponent_eq, hsame, decreaseExponent, Nat.shiftLeft_eq,
    hreached, sub_self, Int.toNat_zero, pow_zero, mul_one, Nat.cast_zero, sub_zero]

/-- What is no less than a canonical value with a smaller exponent has no smaller exponent. -/
theorem le_fitting_coarse {m n : Nat} {e f : Int} (h : Canonical m e) (hef : e ≤ f)
    (hn₀ : n ≠ 0) (hn : m ≤ n * 2 ^ (f - e).toNat) : e ≤ fitting n f := by
  rcases h.normal with hnormal | hleast
  · have hpos : n * 2 ^ (f - e).toNat ≠ 0 := by omega
    have hlog : 52 ≤ (n * 2 ^ (f - e).toNat).log2 := (Nat.le_log2 hpos).2 (hnormal.trans hn)
    rw [log2_mul_two_pow hn₀] at hlog
    unfold fitting
    omega
  · rw [hleast]
    exact le_max_right _ _

/-- Rounding does not lead below a canonical value with a smaller exponent, if the significand
    is long enough. -/
theorem atLeast_round_fitted {m n : Nat} {e f : Int} (h : Canonical m e) (hef : e ≤ f)
    (hfit : f ≤ fitting n f) (hn₀ : n ≠ 0) (hn : m ≤ n * 2 ^ (f - e).toNat) :
    AtLeast m e (UnpackedFloat.round .binary64 .positive n f) := by
  have hleast := h.least
  have hpos : n / 2 ^ (fitting n f - f).toNat ≠ 0 := by
    rcases le_shifted hn₀ hfit with hlong | hlow
    · omega
    · -- with the least exponent nothing is shifted
      rw [Int.toNat_of_nonpos (by omega), pow_zero, Nat.div_one]
      exact hn₀
  obtain ⟨m', e', hm', hround, hcanonical, hreached⟩ := exists_round hfit hpos
  rw [hround]
  refine ⟨hcanonical, ?_⟩
  rcases hreached with ⟨he', hlow⟩ | he'
  · rcases (hef.trans hfit).lt_or_eq with hlt | heq
    · exact .inl (by omega)
    · refine .inr ⟨by omega, le_trans ?_ hlow⟩
      rw [Int.toNat_of_nonpos (by omega), pow_zero, Nat.div_one]
      rwa [Int.toNat_of_nonpos (by omega), pow_zero, mul_one] at hn
  · exact .inl (by omega)

/-- Rounding does not lead below a canonical value with a smaller exponent. -/
theorem atLeast_round_coarse {m n : Nat} {e f : Int} (hm : 0 < m) (h : Canonical m e)
    (hef : e ≤ f) (hn : m ≤ n * 2 ^ (f - e).toNat) :
    AtLeast m e (UnpackedFloat.round .binary64 .positive n f) := by
  have hn₀ : n ≠ 0 := by
    intro hzero
    rw [hzero, zero_mul] at hn
    omega
  rcases lt_or_ge (fitting n f) f with hshort | hlong
  · have hfit := le_fitting_coarse h hef hn₀ hn
    obtain ⟨hsame, hround⟩ := round_lengthened .positive hn₀ hshort
    have hgap : (f - fitting n f).toNat + (fitting n f - e).toNat = (f - e).toNat := by omega
    rw [hround]
    refine atLeast_round_fitted h hfit hsame.ge ?_ ?_
    · exact Nat.mul_ne_zero hn₀ (Nat.two_pow_pos _).ne'
    · rwa [mul_assoc, ← pow_add, hgap]
  · exact atLeast_round_fitted h hef hlong hn₀ hn

/-- Rounding does not lead below a canonical value, whatever the exponents. -/
theorem atLeast_round_any {m n : Nat} {e f : Int} (hm : 0 < m) (h : Canonical m e)
    (hn : m * 2 ^ (e - f).toNat ≤ n * 2 ^ (f - e).toNat) :
    AtLeast m e (UnpackedFloat.round .binary64 .positive n f) := by
  rcases le_total f e with hfe | hef
  · rw [Int.toNat_of_nonpos (by omega : f - e ≤ 0), pow_zero, mul_one] at hn
    exact atLeast_round hm h hfe hn
  · rw [Int.toNat_of_nonpos (by omega : e - f ≤ 0), pow_zero, mul_one] at hn
    exact atLeast_round_coarse hm h hef hn

/-! ## The time since a start -/

/-- If a canonical length is greater than the difference to a start, the sum of both is at least
    the value that the start was taken from. -/
theorem atLeast_add_of_sub {m₁ m₂ m₃ : Nat} {e₁ e₂ e₃ : Int} {h₁ : 0 < m₁} {h₂ : 0 < m₂}
    {h₃ : 0 < m₃} (hstart : Canonical m₁ e₁) (hlength : Canonical m₂ e₂) (hvalue : Canonical m₃ e₃)
    (hle : e₁ < e₃ ∨ e₁ = e₃ ∧ m₁ ≤ m₃)
    (hnot : ¬ AtLeast m₂ e₂ (UnpackedFloat.sub .binary64 (.finite .positive m₃ e₃ h₃)
      (.finite .positive m₁ e₁ h₁))) :
    AtLeast m₃ e₃ (UnpackedFloat.add .binary64 (.finite .positive m₁ e₁ h₁)
      (.finite .positive m₂ e₂ h₂)) := by
  have hexponent : e₁ ≤ e₃ := by omega
  have hscaled := scaled_le hstart hvalue hle
  rw [min_eq_left hexponent, sub_self, Int.toNat_zero, pow_zero, mul_one] at hscaled
  -- the exact difference, in units of the start
  obtain ⟨d, hd⟩ := Nat.exists_eq_add_of_le hscaled
  have hsub : UnpackedFloat.sub .binary64 (.finite .positive m₃ e₃ h₃)
      (.finite .positive m₁ e₁ h₁) = UnpackedFloat.normalize .binary64 d e₁ .positive := by
    simp only [UnpackedFloat.sub, min_eq_right hexponent, decreaseExponent, sub_self,
      Int.toNat_zero, Nat.shiftLeft_eq, Sign.apply, hd]
    congr 1
    omega
  -- it is less than the length
  have hshort : d * 2 ^ (e₁ - e₂).toNat ≤ m₂ * 2 ^ (e₂ - e₁).toNat := by
    by_contra hlong
    have hpos : 0 < d := by
      refine Nat.pos_of_ne_zero fun hzero => hlong ?_
      rw [hzero, zero_mul]
      exact Nat.zero_le _
    have hnormalize : UnpackedFloat.normalize .binary64 d e₁ .positive =
        UnpackedFloat.round .binary64 .positive d e₁ := by
      have hcompare : compare (d : Int) 0 = .gt := Int.compare_eq_gt.2 (by omega)
      simp only [UnpackedFloat.normalize, hcompare, Int.toNat_natCast]
    refine hnot ?_
    rw [hsub, hnormalize]
    exact atLeast_round_any h₂ hlength (le_of_not_ge hlong)
  -- so the start and the length together do not fall short
  rw [add_positive]
  have hunit : min e₁ e₂ ≤ e₃ := (min_le_left _ _).trans hexponent
  refine atLeast_round h₃ hvalue hunit ?_
  have hgap : (e₃ - min e₁ e₂).toNat = (e₃ - e₁).toNat + (e₁ - min e₁ e₂).toNat := by omega
  have hrest : d * 2 ^ (e₁ - min e₁ e₂).toNat ≤ m₂ * 2 ^ (e₂ - min e₁ e₂).toNat := by
    rcases le_total e₁ e₂ with hle | hle
    · rw [min_eq_left hle, sub_self, Int.toNat_zero, pow_zero, mul_one]
      rwa [Int.toNat_of_nonpos (by omega : e₁ - e₂ ≤ 0), pow_zero, mul_one] at hshort
    · rw [min_eq_right hle, sub_self, Int.toNat_zero, pow_zero, mul_one]
      rwa [Int.toNat_of_nonpos (by omega : e₂ - e₁ ≤ 0), pow_zero, mul_one] at hshort
  calc m₃ * 2 ^ (e₃ - min e₁ e₂).toNat
      = (m₁ + d) * 2 ^ (e₁ - min e₁ e₂).toNat := by rw [hgap, pow_add, ← mul_assoc, hd]
    _ = m₁ * 2 ^ (e₁ - min e₁ e₂).toNat + d * 2 ^ (e₁ - min e₁ e₂).toNat := add_mul _ _ _
    _ ≤ _ := Nat.add_le_add_left hrest _

theorem exists_rank {u : UnpackedFloat} (hu : isNonneg u = true) : ∃ a, rank? u = some a := by
  rcases u with (_ | _) | _ | _ | ⟨_ | _, m, e, hm⟩ <;> first | exact ⟨_, rfl⟩ | cases hu

theorem le_of_not_le {u v : UnpackedFloat} (hu : isNonneg u = true) (hv : isNonneg v = true)
    (h : ¬ UnpackedFloat.le u v = true) : UnpackedFloat.le v u = true := by
  obtain ⟨a, ha⟩ := exists_rank hu
  obtain ⟨b, hb⟩ := exists_rank hv
  exact le_iff_rank.2 ⟨b, a, hb, ha, le_of_not_ge fun hab => h (le_iff_rank.2 ⟨a, b, ha, hb, hab⟩)⟩

theorem le_infinity_of_nonneg {u : UnpackedFloat} (hu : isNonneg u = true) :
    UnpackedFloat.le u (.infinity .positive) = true := by
  obtain ⟨a, ha⟩ := exists_rank hu
  exact le_infinity (le_iff_rank.2 ⟨a, a, ha, ha, le_rfl⟩)

theorem unpack_pack_infinity :
    UnpackedFloat.unpack .binary64 (UnpackedFloat.pack .binary64 (.infinity .positive)) =
      .infinity .positive := by
  rfl

/-- Packed, a number is still at least anything that it was at least. -/
theorem le_unpack_pack {u v : UnpackedFloat} (hu : isNonneg u = true) (hv : isNonneg v = true)
    (hcanonical : ∀ s m e hm, v = .finite s m e hm → Canonical m e)
    (h : UnpackedFloat.le u v = true) :
    UnpackedFloat.le u (UnpackedFloat.unpack .binary64 (UnpackedFloat.pack .binary64 v)) =
      true := by
  cases v with
  | notANumber => cases hv
  | zero s => cases s <;> exact h
  | infinity s => cases s <;> exact h
  | finite s m e hm =>
    cases s with
    | negative => cases hv
    | positive =>
      rcases @unpack_pack_canonical .positive _ _ hm (hcanonical _ _ _ _ rfl) with
        hsame | hinfinite
      · rwa [hsame]
      · rw [hinfinite]
        exact le_infinity_of_nonneg hu

/-- From zero on, the time is less than the length itself. -/
theorem le_zero_add_of_not_le_sub {s : Sign} {v w : UnpackedFloat} (hv : isNonneg v = true)
    (hw : isNonneg w = true) (hcanonical : ∀ s m e hm, v = .finite s m e hm → Canonical m e)
    (hcanonical' : ∀ s m e hm, w = .finite s m e hm → Canonical m e)
    (hnot : ¬ UnpackedFloat.le v (UnpackedFloat.unpack .binary64
      (UnpackedFloat.pack .binary64 (UnpackedFloat.sub .binary64 w (.zero s)))) = true) :
    UnpackedFloat.le w (UnpackedFloat.unpack .binary64
      (UnpackedFloat.pack .binary64 (UnpackedFloat.add .binary64 (.zero s) v))) = true := by
  have hsum := isNonneg_pack (isNonneg_add (x := .zero s) rfl hv)
  by_cases hzero : ∃ s', w = .zero s'
  · obtain ⟨s', rfl⟩ := hzero
    rwa [zero_le_eq]
  · have hsub : UnpackedFloat.sub .binary64 w (.zero s) = w := by
      cases w with
      | zero s' => exact absurd ⟨s', rfl⟩ hzero
      | _ => rfl
    rw [hsub] at hnot
    have hlt : UnpackedFloat.le w v = true :=
      le_of_not_le hv hw fun h => hnot (le_unpack_pack hv hw hcanonical' h)
    have hadd : UnpackedFloat.add .binary64 (.zero s) v = v := by
      cases v with
      | zero s' =>
        -- no time is less than no length
        rw [zero_le_eq] at hnot
        exact absurd (isNonneg_pack hw) hnot
      | _ => rfl
    rw [hadd]
    exact le_unpack_pack hw hv hcanonical hlt

/-- From a positive start on, which lies at a time or before it. -/
theorem le_finite_add_of_not_le_sub {m : Nat} {e : Int} {hm : 0 < m} {v w : UnpackedFloat}
    (hv : isNonneg v = true) (hcanonical : Canonical m e)
    (hcanonical₂ : ∀ s m e hm, v = .finite s m e hm → Canonical m e)
    (hcanonical₃ : ∀ s m e hm, w = .finite s m e hm → Canonical m e)
    (hle : UnpackedFloat.le (.finite .positive m e hm) w = true)
    (hnot : ¬ UnpackedFloat.le v (UnpackedFloat.unpack .binary64 (UnpackedFloat.pack .binary64
      (UnpackedFloat.sub .binary64 w (.finite .positive m e hm)))) = true) :
    UnpackedFloat.le w (UnpackedFloat.unpack .binary64 (UnpackedFloat.pack .binary64
      (UnpackedFloat.add .binary64 (.finite .positive m e hm) v))) = true := by
  have hcanonical₁ : ∀ s m' e' hm', UnpackedFloat.finite .positive m e hm = .finite s m' e' hm' →
      Canonical m' e' := by
    intro _ _ _ _ heq
    cases heq
    exact hcanonical
  have hdifference := isNonneg_pack (isNonneg_sub rfl hcanonical₁ hcanonical₃
    UnpackedFloat.noConfusion hle)
  obtain ⟨a, b, ha, hb, hab⟩ := le_iff_rank.1 hle
  cases ha
  rcases w with (_ | _) | s | _ | ⟨_ | _, m₃, e₃, h₃⟩
  case infinity.positive =>
    have hsub : UnpackedFloat.sub .binary64 (.infinity .positive) (.finite .positive m e hm) =
        .infinity .positive := rfl
    rw [hsub, unpack_pack_infinity] at hnot
    exact absurd (le_infinity_of_nonneg hv) hnot
  case finite.positive =>
    cases hb
    simp only [Prod.Lex.toLex_le_toLex, lt_irrefl, true_and, false_or, Nat.cast_le] at hab
    cases v with
    | notANumber => cases hv
    | zero s' =>
      rw [zero_le_eq] at hnot
      exact absurd hdifference hnot
    | infinity s' =>
      cases s' with
      | negative => cases hv
      | positive =>
        have hadd : UnpackedFloat.add .binary64 (.finite .positive m e hm) (.infinity .positive) =
            .infinity .positive := rfl
        rw [hadd, unpack_pack_infinity]
        exact le_infinity_of_nonneg rfl
    | finite s' m₂ e₂ h₂ =>
      cases s' with
      | negative => cases hv
      | positive =>
        have hshort : ¬ AtLeast m₂ e₂ (UnpackedFloat.sub .binary64 (.finite .positive m₃ e₃ h₃)
            (.finite .positive m e hm)) :=
          fun hlong => hnot (le_of_atLeast (atLeast_unpack_pack hlong))
        exact le_of_atLeast (atLeast_unpack_pack (atLeast_add_of_sub hcanonical
          (hcanonical₂ _ _ _ h₂ rfl) (hcanonical₃ _ _ _ h₃ rfl) hab hshort))
  all_goals cases hb <;> simp [Prod.Lex.toLex_le_toLex] at hab

/-- If the time since a start is less than a length, the start and the length together do not
    fall short of the time. -/
theorem le_add_of_not_le_sub {start length time : Float} (hstart : 0 ≤ start)
    (hlength : 0 ≤ length) (hle : start ≤ time) (hnot : ¬ length ≤ time - start) :
    time ≤ start + length := by
  have hle := le_unpack hle
  have hstart := nonneg_iff.1 hstart
  have hlength := nonneg_iff.1 hlength
  have hcanonical₁ : ∀ s m e hm, start.toModel.unpack = .finite s m e hm → Canonical m e :=
    fun _ _ _ _ => canonical_of_unpack
  have hcanonical₂ : ∀ s m e hm, length.toModel.unpack = .finite s m e hm → Canonical m e :=
    fun _ _ _ _ => canonical_of_unpack
  have hcanonical₃ : ∀ s m e hm, time.toModel.unpack = .finite s m e hm → Canonical m e :=
    fun _ _ _ _ => canonical_of_unpack
  have hnot : ¬ UnpackedFloat.le length.toModel.unpack (UnpackedFloat.unpack .binary64
      (UnpackedFloat.pack .binary64
        (UnpackedFloat.sub .binary64 time.toModel.unpack start.toModel.unpack))) = true :=
    fun h => hnot (decide_eq_true h)
  suffices h : UnpackedFloat.le time.toModel.unpack (UnpackedFloat.unpack .binary64
      (UnpackedFloat.pack .binary64
        (UnpackedFloat.add .binary64 start.toModel.unpack length.toModel.unpack))) = true from
    decide_eq_true h
  generalize start.toModel.unpack = u at hle hstart hcanonical₁ hnot
  generalize length.toModel.unpack = v at hlength hcanonical₂ hnot
  generalize time.toModel.unpack = w at hle hcanonical₃ hnot
  cases u with
  | notANumber => cases hstart
  | zero s =>
    rw [zero_le_eq] at hle
    exact le_zero_add_of_not_le_sub hlength hle hcanonical₂ hcanonical₃ hnot
  | infinity s =>
    cases s with
    | negative => cases hstart
    | positive =>
      rw [infinity_le hle, infinity_add hlength]
      rfl
  | finite s m e hm =>
    cases s with
    | negative => cases hstart
    | positive =>
      exact le_finite_add_of_not_le_sub hlength (hcanonical₁ _ _ _ hm rfl) hcanonical₂ hcanonical₃
        hle hnot

/-! ## Sums -/

theorem add_comm_of_nonneg {u v : UnpackedFloat} (hu : isNonneg u = true)
    (hv : isNonneg v = true) :
    UnpackedFloat.add .binary64 u v = UnpackedFloat.add .binary64 v u := by
  rcases u with (_ | _) | s | _ | ⟨_ | _, m, e, hm⟩ <;>
    rcases v with (_ | _) | s' | _ | ⟨_ | _, m', e', hm'⟩
  case finite.positive.finite.positive => rw [add_positive, add_positive, add_comm, min_comm]
  case zero.zero s s' => cases s <;> cases s' <;> rfl
  -- the other cases compute, or something in them is negative
  all_goals first | rfl | exact absurd hu Bool.false_ne_true | exact absurd hv Bool.false_ne_true

/-- To be added to what is not negative does not lead back. -/
theorem le_add_left {x d : Float} (hx : 0 ≤ x) (hd : 0 ≤ d) : x ≤ d + x := by
  have hcomm : d + x = x + d :=
    congrArg (fun u => (⟨Float.Model.pack u⟩ : Float))
      (add_comm_of_nonneg (nonneg_iff.1 hd) (nonneg_iff.1 hx))
  rw [hcomm]
  exact le_add hx hd

/-- A sum of canonical values has an exponent that is greater by two at most. -/
theorem within_round_sum {m m' : Nat} {e e' b : Int} (hm : 0 < m) (h : Canonical m e)
    (h' : Canonical m' e') (he : e ≤ b) (he' : e' ≤ b) :
    within (b + 2) (UnpackedFloat.round .binary64 .positive
      (m * 2 ^ (e - min e e').toNat + m' * 2 ^ (e' - min e e').toNat) (min e e')) = true := by
  have hleast := h.least
  have hleast' := h'.least
  have hunit : min e e' ≤ e := min_le_left _ _
  generalize hn : m * 2 ^ (e - min e e').toNat + m' * 2 ^ (e' - min e e').toNat = n
  generalize hg : min e e' = g at hn hunit ⊢
  have hfit : g ≤ fitting n g :=
    hunit.trans (le_fitting h hunit (hn ▸ Nat.le_add_right _ _))
  have hpow : 0 < 2 ^ (e - g).toNat := Nat.two_pow_pos _
  have hn₀ : n ≠ 0 := by
    have := Nat.mul_pos hm hpow
    omega
  have hlog : n.log2 < 54 + (b - g).toNat := by
    refine (Nat.log2_lt hn₀).2 ?_
    have hfirst : m * 2 ^ (e - g).toNat ≤ 2 ^ 53 * 2 ^ (b - g).toNat :=
      Nat.mul_le_mul h.bits.le (Nat.pow_le_pow_right (by decide) (by omega))
    have hsecond : m' * 2 ^ (e' - g).toNat ≤ 2 ^ 53 * 2 ^ (b - g).toNat :=
      Nat.mul_le_mul h'.bits.le (Nat.pow_le_pow_right (by decide) (by omega))
    have hstrict : m * 2 ^ (e - g).toNat < 2 ^ 53 * 2 ^ (b - g).toNat :=
      Nat.mul_lt_mul_of_lt_of_le h.bits (Nat.pow_le_pow_right (by decide) (by omega))
        (Nat.two_pow_pos _)
    rw [pow_add]
    omega
  have hpos : n / 2 ^ (fitting n g - g).toNat ≠ 0 := by
    rcases le_shifted hn₀ hfit with hlong | hlow
    · omega
    · rw [Int.toNat_of_nonpos (by omega), pow_zero, Nat.div_one]
      exact hn₀
  obtain ⟨m'', e'', hm'', hround, hcanonical, hreached⟩ := exists_round hfit hpos
  have hbits := hcanonical.bits
  rw [hround]
  simp only [within, Bool.and_eq_true, decide_eq_true_eq]
  unfold fitting at hreached
  exact ⟨hbits.trans (by decide), by omega⟩

theorem within_add {x y : UnpackedFloat} {b : Int} (hx : isNonneg x = true)
    (hy : isNonneg y = true) (hbx : within b x = true) (hby : within b y = true)
    (hcanonical : ∀ s m e hm, x = .finite s m e hm → Canonical m e)
    (hcanonical' : ∀ s m e hm, y = .finite s m e hm → Canonical m e) :
    within (b + 2) (UnpackedFloat.add .binary64 x y) = true := by
  have hmore : b ≤ b + 2 := by omega
  cases x with
  | notANumber => cases hx
  | infinity s => cases hbx
  | zero s =>
    cases y with
    | notANumber => cases hy
    | infinity s' => cases hby
    | zero s' => cases s <;> cases s' <;> rfl
    | finite s' m e hm => exact within_mono hmore hby
  | finite s m e hm =>
    cases y with
    | notANumber => cases hy
    | infinity s' => cases hby
    | zero s' => exact within_mono hmore hbx
    | finite s' m' e' hm' =>
      cases s with
      | negative => cases hx
      | positive =>
        cases s' with
        | negative => cases hy
        | positive =>
          simp only [within, Bool.and_eq_true, decide_eq_true_eq] at hbx hby
          rw [add_positive]
          exact within_round_sum hm (hcanonical _ _ _ hm rfl) (hcanonical' _ _ _ hm' rfl) hbx.2
            hby.2

theorem bounded_add {x y : Float} {b : Int} (hx : 0 ≤ x) (hy : 0 ≤ y) (hbx : Bounded b x)
    (hby : Bounded b y) (hlow : -1074 ≤ b + 2) (hhigh : b + 2 < 971) : Bounded (b + 2) (x + y) :=
  bounded_pack (within_add (nonneg_iff.1 hx) (nonneg_iff.1 hy) hbx hby
    (fun _ _ _ _ => canonical_of_unpack) fun _ _ _ _ => canonical_of_unpack) hlow hhigh

/-- A whole number that is a float is not negative. -/
theorem nonneg_ofNat {n : Nat} (hn : n < 2 ^ 53) : 0 ≤ Float.ofNat n := by
  show 0 ≤ Float.ofScientific n false 0
  unfold Float.ofScientific
  rw [dif_pos ⟨hn, by decide⟩]
  have hfloat : 0 ≤ n.toUInt64.toFloat :=
    nonneg_iff.2 (isNonneg_pack (isNonneg_normalize (Int.natCast_nonneg _) _))
  have hone : (0 : Float) < Float.exactlyRepresentablePowersOfTen[0] := by decide +kernel
  have hfinite : Float.exactlyRepresentablePowersOfTen[0].isFinite = true := by decide +kernel
  exact nonneg_mul hfloat hone hfinite

/-! ## The later and the earlier one of two times -/

theorem le_later {a b : Float} (ha : 0 ≤ a) (hb : 0 ≤ b) :
    a ≤ Scalar.later a b ∧ b ≤ Scalar.later a b := by
  have ha := (Number.self_of_le ha).2
  have hb := (Number.self_of_le hb).2
  unfold Scalar.later
  split
  · rename_i hle
    exact ⟨hle, hb⟩
  · rename_i hnot
    exact ⟨ha, Number.le_of_not_le ha hb hnot⟩

theorem later_le {a b c : Float} (ha : a ≤ c) (hb : b ≤ c) : Scalar.later a b ≤ c := by
  unfold Scalar.later
  split
  · exact hb
  · rwa [if_pos (Number.self_of_le ha).1]

theorem earlier_le {a b : Float} (hb : b ≤ b) : Scalar.earlier a b ≤ b := by
  unfold Scalar.earlier
  by_cases hle : a ≤ b
  · rwa [if_pos hle]
  · rwa [if_neg hle, if_pos hb]

theorem le_earlier {a b c : Float} (ha : c ≤ a) (hb : c ≤ b) : c ≤ Scalar.earlier a b := by
  unfold Scalar.earlier
  split
  · exact ha
  · rwa [if_pos (Number.self_of_le hb).2]

end Decimal

end Slideshow

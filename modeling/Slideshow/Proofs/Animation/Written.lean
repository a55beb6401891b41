/-
  Slideshow.Proofs.Animation.Written

  How numbers are written as attribute values. Every float is written as digits, perhaps with a
  minus sign and a fraction (`isWritten_compact`), and with a minus sign only if it is below zero
  (`lt_zero_of_minus`).
-/
import Slideshow.Proofs.Animation.Seams
import Slideshow.Proofs.Decimal.Exact

namespace Slideshow

namespace Decimal

open Numeral Float.Model Float.Model.UnpackedFloat

variable {cs ds : List Char} {n : Nat} {scale : Int}

/-! ## Digits -/

theorem isDigits_digitsOf (n : Nat) : IsDigits (digitsOf n) :=
  ⟨Nat.toDigits_ne_nil, fun _ hc => Nat.isDigit_of_mem_toDigits (by decide) (by decide) hc⟩

theorem exists_nonzero_digit (hn : n ≠ 0) : ∃ c ∈ digitsOf n, c ≠ '0' := by
  unfold digitsOf
  induction n using Nat.strong_induction_on with
  | _ n ih =>
    by_cases hsmall : n < 10
    · rw [Nat.toDigits_of_lt_base hsmall]
      refine ⟨_, List.mem_singleton_self _, ?_⟩
      have hdigit : ∀ d : Fin 10, d.val ≠ 0 → d.val.digitChar ≠ '0' := by decide
      exact hdigit ⟨n, hsmall⟩ hn
    · rw [Nat.toDigits_of_base_le (by decide) (by omega)]
      obtain ⟨c, hc, hne⟩ := ih (n / 10) (by omega) (by omega)
      exact ⟨c, List.mem_append_left _ hc, hne⟩

theorem isDigits_append (h : IsDigits ds) (hcs : ∀ c ∈ cs, c.isDigit = true) :
    IsDigits (ds ++ cs) := by
  refine ⟨by simp [h.1], fun c hc => ?_⟩
  rcases List.mem_append.1 hc with hc | hc
  · exact h.2 c hc
  · exact hcs c hc

theorem isDigit_of_mem_zeros {k : Nat} : ∀ c ∈ List.replicate k '0', c.isDigit = true := by
  intro c hc
  rw [List.eq_of_mem_replicate hc]
  rfl

/-! ## Layouts -/

/-- Digits, perhaps with a fraction. -/
def IsPlain (cs : List Char) : Prop :=
  ∃ whole fraction, cs = whole ++ fraction ∧ IsDigits whole ∧ (fraction = [] ∨ IsFraction fraction)

theorem isWritten_signed (h : IsPlain cs) (negative : Bool) : IsWritten (signed negative cs) := by
  obtain ⟨whole, fraction, rfl, hwhole, hfraction⟩ := h
  cases negative with
  | false => exact ⟨[], whole, fraction, rfl, .inl rfl, hwhole, hfraction⟩
  | true => exact ⟨['-'], whole, fraction, rfl, .inr rfl, hwhole, hfraction⟩

/-- Digits with a point in front of the last ones: digits in front of it there always are. -/
theorem withPoint_eq (places : Nat) (hds : ∀ c ∈ ds, c.isDigit = true) :
    ∃ whole part, IsDigits whole ∧ (∀ c ∈ part, c.isDigit = true) ∧ part.length = places ∧
      withPoint places ds = if part.isEmpty then whole else whole ++ '.' :: part := by
  have hpad : ∀ c ∈ padZeros (places + 1) ds, c.isDigit = true := by
    intro c hc
    rcases List.mem_append.1 hc with hc | hc
    · exact isDigit_of_mem_zeros c hc
    · exact hds c hc
  have hlength : places + 1 ≤ (padZeros (places + 1) ds).length := by
    rw [padZeros, List.length_append, List.length_replicate]
    omega
  unfold withPoint
  simp only
  generalize padZeros (places + 1) ds = padded at hpad hlength
  refine ⟨_, _, ⟨?_, fun c hc => hpad c (List.mem_of_mem_take hc)⟩,
    fun c hc => hpad c (List.mem_of_mem_drop hc), ?_, rfl⟩
  · rw [← List.length_pos_iff, List.length_take]
    omega
  · rw [List.length_drop]
    omega

theorem isPlain_withPoint (places : Nat) (hds : ∀ c ∈ ds, c.isDigit = true) :
    IsPlain (withPoint places ds) := by
  obtain ⟨whole, part, hwhole, hpart, -, heq⟩ := withPoint_eq places hds
  rw [heq]
  split
  · exact ⟨whole, [], by rw [List.append_nil], hwhole, .inl rfl⟩
  · rename_i hne
    refine ⟨whole, '.' :: part, rfl, hwhole, .inr ⟨part, ⟨fun hnil => hne ?_, hpart⟩, rfl⟩⟩
    rw [hnil]
    rfl

theorem isPlain_positional (hds : IsDigits ds) (scale : Int) : IsPlain (positional ds scale) := by
  unfold positional
  split
  · exact ⟨_, [], by rw [List.append_nil], isDigits_append hds isDigit_of_mem_zeros, .inl rfl⟩
  · exact isPlain_withPoint _ hds.2

/-- Without the zeros at its end, and without a point they leave behind, a text with a fraction has
    still what is in front of the point. -/
theorem dropTail_point {front part : List Char} (hfront : EndsDigit front)
    (hpart : ∀ c ∈ part, c.isDigit = true) :
    ∃ fraction, (fraction = [] ∨ IsFraction fraction) ∧
      dropTail (front ++ '.' :: part) = front ++ fraction := by
  have hreverse : (front ++ '.' :: part).reverse = part.reverse ++ '.' :: front.reverse := by
    simp
  unfold dropTail
  rw [hreverse, List.dropWhile_append]
  have hkept : ∀ c ∈ part.reverse.dropWhile (· == '0'), c.isDigit = true := fun c hc =>
    hpart c (List.mem_reverse.1 ((List.dropWhile_suffix _).subset hc))
  generalize part.reverse.dropWhile (· == '0') = kept at hkept
  by_cases hempty : kept.isEmpty = true
  · -- only zeros behind the point, which goes too
    rw [if_pos hempty]
    refine ⟨[], .inl rfl, ?_⟩
    obtain ⟨c, hc⟩ : ∃ c, front.getLast? = some c := by
      cases hlast : front.getLast? with
      | none =>
        rw [EndsDigit, hlast] at hfront
        cases hfront
      | some c => exact ⟨c, rfl⟩
    rw [EndsDigit, hc] at hfront
    obtain ⟨init, rfl⟩ := List.getLast?_eq_some_iff.1 hc
    have hne : (c == '.') = false := by
      refine beq_false_of_ne ?_
      rintro rfl
      cases hfront
    have hzero : (('.' : Char) == '0') = false := rfl
    have hpoint : (('.' : Char) == '.') = true := rfl
    simp only [List.dropWhile_cons, hzero, hpoint, Bool.false_eq_true, if_false, if_true,
      List.reverse_append, List.reverse_cons, List.reverse_nil, List.nil_append, hne,
      List.cons_append, List.reverse_reverse, List.append_nil]
  · rw [if_neg hempty]
    have hne : kept ≠ [] := fun hnil => hempty (List.isEmpty_iff.2 hnil)
    obtain ⟨c, rest, rfl⟩ := List.exists_cons_of_ne_nil hne
    refine ⟨'.' :: (c :: rest).reverse, .inr ⟨_, ⟨by simp, fun d hd => ?_⟩, rfl⟩, ?_⟩
    · exact hkept d (List.mem_reverse.1 hd)
    · have hc : (c == '.') = false := by
        refine beq_false_of_ne ?_
        rintro rfl
        exact absurd (hkept '.' List.mem_cons_self) (by decide)
      rw [List.cons_append, List.dropWhile_cons, hc]
      simp

theorem exists_plain_dropTail (negative : Bool) {places : Nat} (hplaces : places ≠ 0)
    (hds : ∀ c ∈ ds, c.isDigit = true) :
    ∃ plain, IsPlain plain ∧
      dropTail (signed negative (withPoint places ds)) = signed negative plain := by
  obtain ⟨whole, part, hwhole, hpart, hlength, heq⟩ := withPoint_eq places hds
  have hne : part.isEmpty = false := by
    rw [← Bool.not_eq_true, List.isEmpty_iff]
    rintro rfl
    exact hplaces hlength.symm
  rw [heq, hne]
  simp only [Bool.false_eq_true, if_false]
  cases negative with
  | false =>
    obtain ⟨fraction, hfraction, hdrop⟩ := dropTail_point (endsDigit_of_isDigits hwhole) hpart
    exact ⟨_, ⟨whole, fraction, rfl, hwhole, hfraction⟩, hdrop⟩
  | true =>
    obtain ⟨fraction, hfraction, hdrop⟩ :=
      dropTail_point (@endsDigit_append ['-'] whole (endsDigit_of_isDigits hwhole)) hpart
    exact ⟨_, ⟨whole, fraction, rfl, hwhole, hfraction⟩, hdrop⟩

/-! ## The shortest digits -/

theorem isDigits_stripZeros (hn : n ≠ 0) (k : Int) : IsDigits (stripZeros (digitsOf n) k).1 := by
  have hdigits := isDigits_digitsOf n
  constructor
  · show (List.dropWhile (· == '0') (digitsOf n).reverse).reverse ≠ []
    obtain ⟨c, hc, hne⟩ := exists_nonzero_digit hn
    intro hnil
    rw [List.reverse_eq_nil_iff, List.dropWhile_eq_nil_iff] at hnil
    exact hne (eq_of_beq (hnil c (List.mem_reverse.2 hc)))
  · intro c hc
    have hmem : c ∈ List.dropWhile (· == '0') (digitsOf n).reverse := List.mem_reverse.1 hc
    exact hdigits.2 c (List.mem_reverse.1 ((List.dropWhile_suffix _).subset hmem))

/-- A decimal that stands for a value other than zero is not zero. -/
theorem neighbour?_ne_zero {tie : Tie} {i : Interval} {k : Int} (hlow : 0 < i.low)
    (h : i.neighbour? tie k = some n) : n ≠ 0 := by
  have hzero : i.holds 0 k = false := by
    have hpow : 0 < Nat.pow 10 (-k).toNat := Nat.pow_pos (by decide)
    have hpos : 0 < i.low * Nat.pow 10 (-k).toNat := Nat.mul_pos hlow hpow
    unfold Interval.holds
    simp only [Nat.zero_mul]
    split
    · rw [decide_eq_false (by omega), Bool.false_and]
    · rw [decide_eq_false (by omega), Bool.false_and]
  unfold Interval.neighbour? at h
  simp only at h
  generalize i.value * Nat.pow 10 (-k).toNat / (i.den * Nat.pow 10 k.toNat) = below at h
  have hbelow : i.holds below k = true → below ≠ 0 := by
    rintro hholds rfl
    rw [hzero] at hholds
    cases hholds
  split at h
  · cases h
  · rename_i hholds _
    obtain rfl := Option.some.inj h
    exact hbelow hholds
  · obtain rfl := Option.some.inj h
    omega
  · rename_i hholds _
    have hne := hbelow hholds
    split at h
    · obtain rfl := Option.some.inj h
      exact hne
    · split at h
      · obtain rfl := Option.some.inj h
        omega
      · obtain rfl := Option.some.inj h
        cases tie with
        | even =>
          show below + below % 2 ≠ 0
          omega
        | away =>
          show below + 1 ≠ 0
          omega

theorem isDigits_shortest (tie : Tie) (b : Binary) : IsDigits (b.shortest tie).1 := by
  unfold Binary.shortest
  split
  · exact ⟨by simp, by simp⟩
  · rename_i hne
    simp only
    split
    · rename_i n k hfound
      obtain ⟨k', -, hk'⟩ := List.exists_of_findSome?_eq_some hfound
      obtain ⟨n', hn', heq⟩ := Option.map_eq_some_iff.1 hk'
      obtain ⟨rfl, rfl⟩ := Prod.mk.inj heq
      refine isDigits_stripZeros (neighbour?_ne_zero ?_ hn') _
      -- the lower end of the interval of a float is above zero
      have hscale : 0 < Nat.pow 2 (b.exponent - 2).toNat := Nat.pow_pos (by decide)
      refine Nat.mul_pos ?_ hscale
      split <;> omega
    · exact isDigits_digitsOf _

/-! ## Attribute values -/

theorem isPlain_zero : IsPlain ['0'] := ⟨['0'], [], rfl, ⟨by simp, by simp⟩, .inl rfl⟩

/-- A finite float is written with the sign of its exact value. -/
theorem plain_eq {x : Float} {b : Binary} (h : Binary.ofFloat? x = some b) :
    ∃ cs, IsPlain cs ∧ (plain x).toList = signed b.negative cs := by
  refine ⟨_, isPlain_positional (isDigits_shortest .away b) (b.shortest .away).2, ?_⟩
  unfold plain
  rw [h]
  exact String.toList_ofList

theorem head_ne_minus (h : IsPlain cs) : cs.head? ≠ some '-' := by
  obtain ⟨whole, fraction, rfl, hwhole, -⟩ := h
  obtain ⟨d, ds, rfl⟩ := List.exists_cons_of_ne_nil hwhole.1
  intro heq
  obtain rfl := Option.some.inj heq
  exact absurd (hwhole.2 '-' List.mem_cons_self) (by decide)

theorem toList_compact_none {x : Float} (h : Binary.ofFloat? x = none) :
    (compact x).toList = ['0'] := by
  have heq : compact x = "0" := by
    unfold compact
    rw [h]
  rw [heq]
  decide

/-- A finite float is written with the sign of its nearest whole number or its own, if it is written
    with a sign at all. -/
theorem toList_compact {x : Float} {b : Binary} (h : Binary.ofFloat? x = some b) :
    (compact x).toList = ['0'] ∨
      (∃ b' cs, Binary.ofFloat? (roundAway x) = some b' ∧ (roundAway x == 0) = false ∧
        IsPlain cs ∧ (compact x).toList = signed b'.negative cs) ∨
      ∃ cs, IsPlain cs ∧ (compact x).toList = signed b.negative cs := by
  obtain ⟨b', hb'⟩ := ofFloat?_eq_some_of_isFinite (isFinite_roundAway (isFinite_of_ofFloat? h))
  unfold compact
  rw [h]
  simp only
  split
  · split
    · exact .inl rfl
    · rename_i hne
      obtain ⟨cs, hplain, heq⟩ := plain_eq hb'
      exact .inr (.inl ⟨b', cs, hb', Bool.eq_false_iff.2 hne, hplain, heq⟩)
  · split
    · exact .inl rfl
    · obtain ⟨cs, hplain, heq⟩ := exists_plain_dropTail b.negative (show 4 ≠ 0 by decide)
        (isDigits_digitsOf (nearestEven (b.numerator * Nat.pow 10 4) b.denominator)).2
      refine .inr (.inr ⟨cs, hplain, ?_⟩)
      rw [String.toList_ofList, Binary.fixed]
      exact heq

/-- Every float is written as digits, perhaps with a minus sign and a fraction. -/
theorem isWritten_compact (x : Float) : IsWritten (compact x).toList := by
  cases hb : Binary.ofFloat? x with
  | none =>
    rw [toList_compact_none hb]
    exact isWritten_signed isPlain_zero false
  | some b =>
    rcases toList_compact hb with heq | ⟨b', cs, -, -, hplain, heq⟩ | ⟨cs, hplain, heq⟩
    · rw [heq]
      exact isWritten_signed isPlain_zero false
    · rw [heq]
      exact isWritten_signed hplain _
    · rw [heq]
      exact isWritten_signed hplain _

/-- What is not below zero and not zero has no sign. -/
theorem negative_eq_false {x : Float} {b : Binary} (hx : 0 ≤ x) (hne : (x == 0) = false)
    (hb : Binary.ofFloat? x = some b) : b.negative = false := by
  have hnonneg := nonneg_iff.1 hx
  rcases cases_of_ofFloat? hb with ⟨s, hzero, -⟩ | ⟨s, m, e, hm, hfinite, rfl⟩
  · rw [eq_of_unpack_zero hzero] at hne
    cases s
    · exact absurd hne (by decide +kernel)
    · exact absurd hne (by decide +kernel)
  · rw [hfinite] at hnonneg
    cases s with
    | negative => cases hnonneg
    | positive => rfl

/-- A positive float is written without a minus sign. -/
theorem head_compact_ne {x : Float} {m : Nat} {e : Int} (hx : 0 ≤ x)
    (hb : Binary.ofFloat? x = some ⟨false, m, e⟩) : (compact x).toList.head? ≠ some '-' := by
  rcases toList_compact hb with heq | ⟨b', cs, hb', hne, hplain, heq⟩ | ⟨cs, hplain, heq⟩
  · rw [heq]
    decide
  · -- the nearest whole number is not below zero, and not a negative zero either
    rw [negative_eq_false (nonneg_roundAway hx hb rfl) hne hb'] at heq
    rw [heq]
    exact head_ne_minus hplain
  · rw [heq]
    exact head_ne_minus hplain

/-- A float is written with a minus sign only if it is below zero. -/
theorem lt_zero_of_minus {x : Float} (h : (compact x).toList.head? = some '-') : x < 0 := by
  cases hb : Binary.ofFloat? x with
  | none =>
    rw [toList_compact_none hb] at h
    cases h
  | some b =>
    rcases cases_of_ofFloat? hb with ⟨s, hx, -⟩ | ⟨s, m, e, hm, hx, rfl⟩
    · -- a zero is written without a sign
      rw [eq_of_unpack_zero hx] at h
      cases s
      · exact absurd h (by decide +kernel)
      · exact absurd h (by decide +kernel)
    · cases s with
      | negative =>
        have hlt : UnpackedFloat.lt x.toModel.unpack (.zero .positive) = true := by
          rw [hx]
          rfl
        exact decide_eq_true hlt
      | positive =>
        have hnonneg : 0 ≤ x := by
          rw [nonneg_iff, hx]
          rfl
        exact absurd h (head_compact_ne hnonneg hb)

end Decimal

end Slideshow

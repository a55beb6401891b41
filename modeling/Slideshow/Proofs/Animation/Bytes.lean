/-
  Slideshow.Proofs.Animation.Bytes

  A text split at its numbers by walking over its bytes. Here a byte is read by its index and a
  piece of the text is cut out between two indices, and there is no result when an index is
  outside of the text or inside a character. The walk has a result for every text, which is the
  template that the text has in terms of its characters (`split?_eq_parse`).
-/
import Slideshow.Proofs.Animation.Numerals

namespace Slideshow

namespace Bytes

variable {s : String} {i j : Nat} {c d : Char} {pre cs : List Char}

/-! ## The walk -/

/-- The byte at an index, as the character with that number; none outside of the text. -/
def byte? (s : String) (i : Nat) : Option Char :=
  s.toByteArray[i]?.map fun b => Char.ofNat b.toNat

/-- The characters between two indices; none unless both are at the edge of a character. -/
def slice? (s : String) (i j : Nat) : Option (List Char) :=
  if h : i ≤ j ∧ String.Pos.Raw.IsValid s ⟨i⟩ ∧ String.Pos.Raw.IsValid s ⟨j⟩ then
    some (s.extract (s.pos ⟨i⟩ h.2.1) (s.pos ⟨j⟩ h.2.2)).toList
  else none

/-- Is there a byte at the index, and is it as asked for? Behind the text nothing is read. -/
def holds? (s : String) (i : Nat) (p : Char → Bool) : Option Bool :=
  if i < s.utf8ByteSize then (byte? s i).map p else some false

theorem lt_of_holds? {p : Char → Bool} (h : holds? s i p = some true) : i < s.utf8ByteSize := by
  unfold holds? at h
  split at h
  · assumption
  · cases h

/-- The index behind the digits. -/
def digitsEnd? (s : String) (i : Nat) : Option Nat :=
  match _h : holds? s i Char.isDigit with
  | none => none
  | some false => some i
  | some true => digitsEnd? s (i + 1)
termination_by s.utf8ByteSize - i
decreasing_by
  have := lt_of_holds? _h
  omega

/-- The index behind the fraction, if there is one. -/
def fractionEnd? (s : String) (i : Nat) : Option Nat := do
  if ← holds? s i (· == '.') then
    let stop ← digitsEnd? s (i + 1)
    return if stop = i + 1 then i else stop
  else return i

/-- The index behind the sign, if there is one. -/
def signEnd? (s : String) (i : Nat) : Option Nat := do
  if ← holds? s i (fun c => c == '-' || c == '+') then return i + 1
  else return i

/-- The index behind the exponent, if there is one. -/
def exponentEnd? (s : String) (i : Nat) : Option Nat := do
  if ← holds? s i (fun c => c == 'e' || c == 'E') then
    let first ← signEnd? s (i + 1)
    let stop ← digitsEnd? s first
    return if stop = first then i else stop
  else return i

/-- The index behind the unsigned number, if there is one. -/
def unsignedEnd? (s : String) (i : Nat) : Option (Option Nat) := do
  let whole ← digitsEnd? s i
  let fraction ← fractionEnd? s whole
  if whole = i ∧ fraction = whole then return none
  else return some (← exponentEnd? s fraction)

/-- The byte before an index; at the front of the text nothing is read. -/
def before? (s : String) (i : Nat) : Option (Option Char) :=
  if 0 < i then (byte? s (i - 1)).map some else some none

/-- The index behind the number that begins at an index, if there is one. -/
def numberEnd? (s : String) (i : Nat) : Option (Option Nat) := do
  let c ← byte? s i
  let before ← before? s i
  if c = '-' ∨ c = '+' then
    if before.any fun p => isNameChar p || p.isDigit then return none
    else unsignedEnd? s (i + 1)
  else if before.any isNameChar then return none
  else unsignedEnd? s i

/-! ### It goes forward -/

theorem le_of_digitsEnd? (h : digitsEnd? s i = some j) : i ≤ j := by
  fun_induction digitsEnd? s i with
  | case1 i => cases h
  | case2 i =>
    cases h
    exact Nat.le_refl _
  | case3 i _ ih =>
    have := ih h
    omega

theorem le_of_fractionEnd? (h : fractionEnd? s i = some j) : i ≤ j := by
  unfold fractionEnd? at h
  simp only [Option.bind_eq_bind, Option.bind_eq_some_iff] at h
  obtain ⟨point, -, h⟩ := h
  cases point with
  | false =>
    cases h
    exact Nat.le_refl i
  | true =>
    simp only [if_true, Option.bind_eq_some_iff] at h
    obtain ⟨stop, hstop, h⟩ := h
    have hle := le_of_digitsEnd? hstop
    obtain rfl := Option.some.inj h
    split <;> omega

theorem le_of_signEnd? (h : signEnd? s i = some j) : i ≤ j := by
  unfold signEnd? at h
  simp only [Option.bind_eq_bind, Option.bind_eq_some_iff] at h
  obtain ⟨signed, -, h⟩ := h
  split at h
  · obtain rfl := Option.some.inj h
    omega
  · obtain rfl := Option.some.inj h
    omega

theorem le_of_exponentEnd? (h : exponentEnd? s i = some j) : i ≤ j := by
  unfold exponentEnd? at h
  simp only [Option.bind_eq_bind, Option.bind_eq_some_iff] at h
  obtain ⟨letter, -, h⟩ := h
  cases letter with
  | false =>
    cases h
    exact Nat.le_refl i
  | true =>
    simp only [if_true, Option.bind_eq_some_iff] at h
    obtain ⟨first, hfirst, stop, hstop, h⟩ := h
    have hle := le_of_signEnd? hfirst
    have hle' := le_of_digitsEnd? hstop
    obtain rfl := Option.some.inj h
    split <;> omega

theorem lt_of_unsignedEnd? (h : unsignedEnd? s i = some (some j)) : i < j := by
  unfold unsignedEnd? at h
  simp only [Option.bind_eq_bind, Option.bind_eq_some_iff] at h
  obtain ⟨whole, hwhole, fraction, hfraction, h⟩ := h
  have hle := le_of_digitsEnd? hwhole
  have hle' := le_of_fractionEnd? hfraction
  split at h
  · cases h
  · simp only [Option.bind_eq_some_iff] at h
    obtain ⟨stop, hstop, h⟩ := h
    have hle'' := le_of_exponentEnd? hstop
    obtain rfl := Option.some.inj (Option.some.inj h)
    omega

theorem lt_of_numberEnd? (h : numberEnd? s i = some (some j)) : i < j := by
  unfold numberEnd? at h
  simp only [Option.bind_eq_bind, Option.bind_eq_some_iff] at h
  obtain ⟨c, -, before, -, h⟩ := h
  split at h
  · split at h
    · cases h
    · have := lt_of_unsignedEnd? h
      omega
  · split at h
    · cases h
    · exact lt_of_unsignedEnd? h

theorem lt_of_byte? (h : byte? s i = some c) : i < s.utf8ByteSize := by
  unfold byte? at h
  rw [Option.map_eq_some_iff] at h
  obtain ⟨b, hb, -⟩ := h
  rw [← String.size_toByteArray]
  by_contra hlt
  rw [getElem?_neg s.toByteArray i hlt] at hb
  cases hb

/-- The text from `start` on, of which the part up to `i` has no number in it: the literal that
    begins there, then the numbers, each with the literal behind it. -/
def splitFrom? (s : String) (start i : Nat) : Option Template :=
  if i < s.utf8ByteSize then
    match h : numberEnd? s i with
    | none => none
    | some none => splitFrom? s start (i + 1)
    | some (some stop) =>
      match slice? s i stop with
      | none => none
      | some n =>
        match Decimal.number? n with
        | none => splitFrom? s start (i + 1)
        | some x =>
          match slice? s start i, splitFrom? s stop stop with
          | some lead, some t => some ⟨lead, (x, t.lead) :: t.parts⟩
          | _, _ => none
  else (slice? s start s.utf8ByteSize).map fun lead => ⟨lead, []⟩
termination_by s.utf8ByteSize - i
decreasing_by
  · omega
  · omega
  · have := lt_of_numberEnd? h
    omega

/-- The text split at its numbers. -/
def split? (s : String) : Option Template :=
  splitFrom? s 0 0

/-! ## Bytes and characters -/

/-- The bytes of characters. -/
def bytes (cs : List Char) : List UInt8 := cs.flatMap String.utf8EncodeChar

/-- How many bytes the characters have. -/
def width (cs : List Char) : Nat := (bytes cs).length

@[simp] theorem width_nil : width [] = 0 := rfl

@[simp] theorem width_append (pre cs : List Char) : width (pre ++ cs) = width pre + width cs := by
  simp only [width, bytes, List.flatMap_append, List.length_append]

theorem width_singleton (c : Char) : width [c] = c.utf8Size := by
  simp only [width, bytes, List.flatMap_singleton, String.length_utf8EncodeChar]

theorem toByteArray_eq (s : String) : s.toByteArray = (bytes s.toList).toByteArray := by
  conv => lhs; rw [← @String.ofList_toList s]
  exact String.toByteArray_ofList

theorem utf8ByteSize_eq (s : String) : s.utf8ByteSize = width s.toList := by
  rw [← String.size_toByteArray, toByteArray_eq, List.size_toByteArray, width]

theorem byte?_eq (s : String) (i : Nat) :
    byte? s i = (bytes s.toList)[i]?.map fun b => Char.ofNat b.toNat := by
  rw [byte?, toByteArray_eq]
  congr 1
  by_cases h : i < (bytes s.toList).length
  · rw [getElem?_pos _ _ (by rwa [List.size_toByteArray]), List.getElem_toByteArray,
      List.getElem?_eq_getElem h]
  · rw [getElem?_neg _ _ (by rwa [List.size_toByteArray]), List.getElem?_eq_none (by omega)]

/-- What the byte of a character is read as: the character itself, or something no more special
    than it, as both are not among the first 128. -/
def Reads (d c : Char) : Prop := d = c ∧ c.toNat < 128 ∨ 128 ≤ d.toNat ∧ 128 ≤ c.toNat

theorem toNat_ofNat_of_lt {n : Nat} (h : n < 256) : (Char.ofNat n).toNat = n := by
  have hvalid : n.isValidChar := .inl (by omega)
  rw [Char.ofNat, dif_pos hvalid]
  show (Char.ofNatAux n hvalid).val.toNat = n
  exact UInt32.toNat_ofNatLT

theorem reads_of_mem {b : UInt8} (h : b ∈ String.utf8EncodeChar c) :
    Reads (Char.ofNat b.toNat) c := by
  have hb : (Char.ofNat b.toNat).toNat = b.toNat := toNat_ofNat_of_lt b.toNat_lt
  have hhigh : ∀ n, n < 128 → b = UInt8.ofNat (n + 128) → 128 ≤ (Char.ofNat b.toNat).toNat := by
    rintro n hn rfl
    rw [hb, UInt8.toNat_ofNat_of_lt' (show n + 128 < 256 by omega)]
    omega
  unfold String.utf8EncodeChar at h
  simp only at h
  have hc : c.toNat = c.val.toNat := rfl
  split at h
  · obtain rfl := List.mem_singleton.1 h
    left
    have hlt : c.val.toNat < 256 := by omega
    rw [UInt8.toNat_ofNat_of_lt' hlt]
    exact ⟨Char.ofNat_toNat c, by omega⟩
  · -- of more than one byte, none is among the first 128
    right
    refine ⟨?_, by omega⟩
    split at h
    · simp only [List.mem_cons, List.not_mem_nil, or_false] at h
      rcases h with h | h
      · exact hhigh (c.val.toNat / 64 % 32 + 64) (by omega) h
      · exact hhigh (c.val.toNat % 64) (by omega) h
    · split at h
      · simp only [List.mem_cons, List.not_mem_nil, or_false] at h
        rcases h with h | h | h
        · exact hhigh (c.val.toNat / 4096 % 16 + 96) (by omega) h
        · exact hhigh (c.val.toNat / 64 % 64) (by omega) h
        · exact hhigh (c.val.toNat % 64) (by omega) h
      · simp only [List.mem_cons, List.not_mem_nil, or_false] at h
        rcases h with h | h | h | h
        · exact hhigh (c.val.toNat / 262144 % 8 + 112) (by omega) h
        · exact hhigh (c.val.toNat / 4096 % 64) (by omega) h
        · exact hhigh (c.val.toNat / 64 % 64) (by omega) h
        · exact hhigh (c.val.toNat % 64) (by omega) h

/-- A question about characters to which the answer is no beyond the first 128. -/
def Narrow (p : Char → Bool) : Prop := ∀ c, 128 ≤ c.toNat → p c = false

theorem Reads.eq_of_narrow {p : Char → Bool} (hp : Narrow p) (h : Reads d c) : p d = p c := by
  rcases h with ⟨rfl, -⟩ | ⟨hd, hc⟩
  · rfl
  · rw [hp d hd, hp c hc]

theorem narrow_isDigit : Narrow Char.isDigit := by
  intro c hc
  simp only [Char.isDigit, Bool.and_eq_false_iff, decide_eq_false_iff_not]
  right
  intro hle
  have hle : c.val.toNat ≤ 57 := hle
  have hc : 128 ≤ c.val.toNat := hc
  omega

theorem narrow_beq (d : Char) (hd : d.toNat < 128) : Narrow (· == d) := by
  intro c hc
  refine beq_false_of_ne ?_
  rintro rfl
  omega

theorem narrow_or {p q : Char → Bool} (hp : Narrow p) (hq : Narrow q) :
    Narrow fun c => p c || q c := by
  intro c hc
  show (p c || q c) = false
  rw [hp c hc, hq c hc]
  rfl

theorem narrow_isNameChar : Narrow isNameChar := by
  refine narrow_or (fun c hc => ?_) (narrow_beq '_' (by decide))
  have hc : 128 ≤ c.val.toNat := hc
  have hupper : c.isUpper = false := by
    refine decide_eq_false fun hletter => ?_
    have hle : c.val.toNat ≤ 90 := hletter.2
    omega
  have hlower : c.isLower = false := by
    refine Bool.and_eq_false_iff.2 (.inr (decide_eq_false fun hletter => ?_))
    have hle : c.val.toNat ≤ 122 := hletter
    omega
  exact Bool.or_eq_false_iff.2 ⟨hupper, hlower⟩

theorem width_of_lt (h : c.toNat < 128) : width [c] = 1 := by
  have hc : c.toNat = c.val.toNat := rfl
  rw [width, bytes, List.flatMap_singleton, String.utf8EncodeChar, if_pos (by omega)]
  rfl

/-- A character of which something narrow holds is a single byte. -/
theorem width_of_narrow {p : Char → Bool} (hp : Narrow p) (h : p c = true) : width [c] = 1 := by
  refine width_of_lt ?_
  by_contra hge
  rw [hp c (by omega)] at h
  cases h

/-! ## Reading at the edge of a character -/

/-- The bytes of a character are read one after the other from its edge. -/
theorem byte?_in (h : s.toList = pre ++ c :: cs) {k : Nat} (hk : k < width [c]) :
    ∃ d, byte? s (width pre + k) = some d ∧ Reads d c := by
  have hlength : k < (String.utf8EncodeChar c).length := by
    rwa [width, bytes, List.flatMap_singleton] at hk
  refine ⟨_, ?_, reads_of_mem (List.getElem_mem hlength)⟩
  have hbytes : bytes (pre ++ c :: cs) = bytes pre ++ (String.utf8EncodeChar c ++ bytes cs) := by
    simp only [bytes, List.flatMap_append, List.flatMap_cons]
  rw [byte?_eq, h, hbytes, width, List.getElem?_append_right (by omega), Nat.add_sub_cancel_left,
    List.getElem?_append_left hlength, List.getElem?_eq_getElem hlength]
  rfl

theorem width_pos (c : Char) : 0 < width [c] := by
  rw [width_singleton]
  exact c.utf8Size_pos

theorem width_cons (c : Char) (cs : List Char) : width (c :: cs) = width [c] + width cs :=
  width_append [c] cs

theorem holds?_eq {p : Char → Bool} (hp : Narrow p) (h : s.toList = pre ++ cs) :
    holds? s (width pre) p = some (cs.head?.any p) := by
  rw [holds?, utf8ByteSize_eq, h, width_append]
  cases cs with
  | nil => rw [if_neg (by rw [width_nil]; omega)]; rfl
  | cons c cs =>
    obtain ⟨d, hd, hreads⟩ := byte?_in h (width_pos c)
    rw [Nat.add_zero] at hd
    rw [if_pos (by rw [width_cons]; have := width_pos c; omega), hd, Option.map_some,
      hreads.eq_of_narrow hp]
    rfl

theorem digitsEnd?_of_false (h : holds? s i Char.isDigit = some false) :
    digitsEnd? s i = some i := by
  rw [digitsEnd?]
  split <;> simp_all

theorem digitsEnd?_of_true (h : holds? s i Char.isDigit = some true) :
    digitsEnd? s i = digitsEnd? s (i + 1) := by
  rw [digitsEnd?]
  split <;> simp_all

theorem digitsEnd?_eq (h : s.toList = pre ++ cs) :
    digitsEnd? s (width pre) = some (width (pre ++ (Decimal.spanDigits cs).1)) := by
  induction cs generalizing pre with
  | nil => rw [digitsEnd?_of_false (holds?_eq narrow_isDigit h), Decimal.spanDigits,
      List.takeWhile_nil, List.append_nil]
  | cons c cs ih =>
    have hholds := holds?_eq narrow_isDigit h
    cases hc : c.isDigit with
    | false =>
      rw [digitsEnd?_of_false (by rw [hholds, List.head?_cons, Option.any_some, hc]),
        Decimal.spanDigits, List.takeWhile_cons_of_neg (by rw [hc]; exact Bool.false_ne_true),
        List.append_nil]
    | true =>
      have hspan : (Decimal.spanDigits (c :: cs)).1 = [c] ++ (Decimal.spanDigits cs).1 :=
        List.takeWhile_cons_of_pos hc
      have hnext := @ih (pre ++ [c]) (by rw [h, List.append_assoc]; rfl)
      rw [width_append pre [c], width_of_narrow narrow_isDigit hc, List.append_assoc] at hnext
      rw [digitsEnd?_of_true (by rw [hholds, List.head?_cons, Option.any_some, hc]), hnext, hspan]

theorem isEmpty_iff_width {ds : List Char} : width ds = 0 ↔ ds.isEmpty = true := by
  cases ds with
  | nil => exact ⟨fun _ => rfl, fun _ => rfl⟩
  | cons d ds =>
    rw [width_cons]
    have := width_pos d
    constructor
    · omega
    · intro h
      cases h

theorem fractionEnd?_eq (h : s.toList = pre ++ cs) :
    fractionEnd? s (width pre) = some (width (pre ++ (spanFraction cs).1)) := by
  have hholds := holds?_eq (narrow_beq '.' (by decide)) h
  unfold fractionEnd?
  rw [hholds]
  unfold spanFraction
  split
  · rename_i rest
    have hrest : s.toList = pre ++ ['.'] ++ rest := by rw [h, List.append_assoc]; rfl
    have hstop := digitsEnd?_eq hrest
    have hwidth : width (pre ++ ['.']) = width pre + 1 := width_append _ _
    rw [width_append (pre ++ ['.']), hwidth] at hstop
    show (digitsEnd? s (width pre + 1)).bind _ = _
    rw [hstop]
    by_cases hempty : (Decimal.spanDigits rest).1.isEmpty = true
    · simp [hempty, isEmpty_iff_width.2 hempty]
    · have hsome : ¬ width (Decimal.spanDigits rest).1 = 0 := fun h0 =>
        hempty (isEmpty_iff_width.1 h0)
      have hpoint : width ('.' :: (Decimal.spanDigits rest).1)
          = 1 + width (Decimal.spanDigits rest).1 := width_cons _ _
      simp [hempty, hsome, hpoint, Nat.add_assoc]
  · rename_i hpoint
    have hno : cs.head?.any (· == '.') = false := by
      cases cs with
      | nil => rfl
      | cons c cs =>
        refine beq_false_of_ne ?_
        rintro rfl
        exact hpoint cs rfl
    rw [hno, List.append_nil]
    rfl

theorem signEnd?_eq (h : s.toList = pre ++ cs) :
    signEnd? s (width pre) = some (width (pre ++ (spanSign cs).1)) := by
  have hholds := holds?_eq
    (narrow_or (narrow_beq '-' (by decide)) (narrow_beq '+' (by decide))) h
  unfold signEnd?
  rw [hholds, width_append]
  unfold spanSign
  split
  · rfl
  · rfl
  · rename_i hminus hplus
    have hno : cs.head?.any (fun c => c == '-' || c == '+') = false := by
      cases cs with
      | nil => rfl
      | cons c cs =>
        refine Bool.or_eq_false_iff.2 ⟨beq_false_of_ne ?_, beq_false_of_ne ?_⟩
        · rintro rfl
          exact hminus cs rfl
        · rintro rfl
          exact hplus cs rfl
    rw [hno, width_nil]
    rfl

theorem exponentEnd?_eq (h : s.toList = pre ++ cs) :
    exponentEnd? s (width pre) = some (width (pre ++ (spanExponent cs).1)) := by
  have hletter : Narrow fun c => c == 'e' || c == 'E' :=
    narrow_or (narrow_beq 'e' (by decide)) (narrow_beq 'E' (by decide))
  have hholds := holds?_eq hletter h
  unfold exponentEnd?
  rw [hholds]
  unfold spanExponent
  split
  · rename_i e rest
    split
    · rename_i he
      have hyes : (e == 'e' || e == 'E') = true := by
        rcases he with rfl | rfl <;> rfl
      have hrest : s.toList = pre ++ [e] ++ rest := by rw [h, List.append_assoc]; rfl
      have hwidth : width (pre ++ [e]) = width pre + 1 := by
        rw [width_append, width_of_narrow hletter hyes]
      have hfirst := signEnd?_eq hrest
      rw [width_append (pre ++ [e]), hwidth] at hfirst
      have hdigits : s.toList = pre ++ [e] ++ (spanSign rest).1 ++ (spanSign rest).2 := by
        rw [hrest, List.append_assoc (pre ++ [e]), spanSign_append]
      have hstop := digitsEnd?_eq hdigits
      rw [width_append (pre ++ [e] ++ _), width_append (pre ++ [e]), hwidth] at hstop
      rw [List.head?_cons, Option.any_some, hyes]
      show (signEnd? s (width pre + 1)).bind _ = _
      rw [hfirst]
      show (digitsEnd? s _).bind _ = _
      rw [hstop]
      by_cases hempty : (Decimal.spanDigits (spanSign rest).2).1.isEmpty = true
      · simp [hempty, isEmpty_iff_width.2 hempty]
      · have hsome : ¬ width (Decimal.spanDigits (spanSign rest).2).1 = 0 := fun h0 =>
          hempty (isEmpty_iff_width.1 h0)
        have hpower : width (e :: ((spanSign rest).1 ++ (Decimal.spanDigits (spanSign rest).2).1))
            = 1 + (width (spanSign rest).1 + width (Decimal.spanDigits (spanSign rest).2).1) := by
          rw [width_cons, width_of_narrow hletter hyes, width_append]
        simp [hempty, hsome, hpower, Nat.add_assoc]
    · rename_i he
      have hno : (e == 'e' || e == 'E') = false :=
        Bool.or_eq_false_iff.2 ⟨beq_false_of_ne fun h => he (.inl h),
          beq_false_of_ne fun h => he (.inr h)⟩
      rw [List.head?_cons, Option.any_some, hno, List.append_nil]
      rfl
  · rw [List.append_nil]
    rfl

theorem unsignedEnd?_eq (h : s.toList = pre ++ cs) :
    unsignedEnd? s (width pre)
      = some ((spanUnsigned? cs).map fun p => width (pre ++ p.1)) := by
  have hwhole := digitsEnd?_eq h
  have hrest : s.toList = pre ++ (Decimal.spanDigits cs).1 ++ (Decimal.spanDigits cs).2 := by
    rw [h, List.append_assoc, spanDigits_append]
  have hfraction := fractionEnd?_eq hrest
  have hafter : s.toList = pre ++ (Decimal.spanDigits cs).1
      ++ (spanFraction (Decimal.spanDigits cs).2).1
      ++ (spanFraction (Decimal.spanDigits cs).2).2 := by
    rw [List.append_assoc _ (spanFraction _).1, spanFraction_append]
    exact hrest
  have hpower := exponentEnd?_eq hafter
  unfold unsignedEnd? spanUnsigned?
  rw [hwhole]
  show (fractionEnd? s _).bind _ = _
  rw [hfraction]
  dsimp only
  have hnothing : (width (pre ++ (Decimal.spanDigits cs).1) = width pre ∧
      width (pre ++ (Decimal.spanDigits cs).1 ++ (spanFraction (Decimal.spanDigits cs).2).1)
        = width (pre ++ (Decimal.spanDigits cs).1)) ↔
      ((Decimal.spanDigits cs).1.isEmpty &&
        (spanFraction (Decimal.spanDigits cs).2).1.isEmpty) = true := by
    rw [width_append _ (spanFraction _).1, width_append, Nat.add_eq_left, Nat.add_eq_left,
      isEmpty_iff_width, isEmpty_iff_width, Bool.and_eq_true]
  by_cases hnone : ((Decimal.spanDigits cs).1.isEmpty &&
      (spanFraction (Decimal.spanDigits cs).2).1.isEmpty) = true
  · rw [if_pos hnone]
    exact if_pos (hnothing.2 hnone)
  · rw [if_neg hnone]
    refine (if_neg fun h => hnone (hnothing.1 h)).trans ?_
    show (exponentEnd? s _).bind _ = _
    rw [hpower, List.append_assoc _ _ (spanExponent _).1, List.append_assoc pre, List.append_assoc]
    rfl

theorem before?_eq (h : s.toList = pre ++ cs) :
    ∃ before, before? s (width pre) = some before ∧
      ∀ p, Narrow p → before.any p = pre.getLast?.any p := by
  rcases List.eq_nil_or_concat pre with rfl | ⟨front, c, rfl⟩
  · exact ⟨none, rfl, fun p _ => rfl⟩
  · rw [List.concat_eq_append] at h ⊢
    have hpos := width_pos c
    -- the byte before is the last one of the character before
    have hfront : s.toList = front ++ c :: cs := by rw [h, List.append_assoc]; rfl
    obtain ⟨d, hd, hreads⟩ := byte?_in hfront (show width [c] - 1 < width [c] by omega)
    have hindex : width (front ++ [c]) - 1 = width front + (width [c] - 1) := by
      rw [width_append]
      omega
    refine ⟨some d, ?_, fun p hp => ?_⟩
    · rw [before?, if_pos (by rw [width_append]; omega), hindex, hd]
      rfl
    · rw [List.getLast?_concat]
      exact hreads.eq_of_narrow hp

theorem numberEnd?_eq (h : s.toList = pre ++ c :: cs) :
    numberEnd? s (width pre)
      = some ((spanNumber? pre.getLast? (c :: cs)).map fun p => width (pre ++ p.1)) := by
  obtain ⟨d, hd, hreads⟩ := byte?_in h (width_pos c)
  rw [Nat.add_zero] at hd
  obtain ⟨before, hbefore, hany⟩ := before?_eq h
  have hsign : (d = '-' ∨ d = '+') ↔ (c = '-' ∨ c = '+') := by
    have hnarrow := narrow_or (narrow_beq '-' (by decide)) (narrow_beq '+' (by decide))
    have heq := Bool.eq_iff_iff.1 (hreads.eq_of_narrow hnarrow)
    simpa only [Bool.or_eq_true, beq_iff_eq] using heq
  unfold numberEnd?
  rw [hd]
  show (before? s (width pre)).bind _ = _
  rw [hbefore]
  simp only [Option.bind_some, hsign, spanNumber?]
  rw [hany _ narrow_isNameChar, hany _ (narrow_or narrow_isNameChar narrow_isDigit)]
  split
  · rename_i hc
    split
    · rfl
    · have hwidth : width (pre ++ [c]) = width pre + 1 := by
        rw [width_append]
        rcases hc with rfl | rfl <;> rfl
      have hrest : s.toList = pre ++ [c] ++ cs := by rw [h, List.append_assoc]; rfl
      rw [← hwidth, unsignedEnd?_eq hrest, Option.map_map]
      congr 2
      funext p
      show width (pre ++ [c] ++ p.1) = width (pre ++ c :: p.1)
      rw [List.append_assoc]
      rfl
  · split
    · rfl
    · exact unsignedEnd?_eq h

/-! ## Reading inside a character -/

theorem exists_byte? (h : i < s.utf8ByteSize) : ∃ d, byte? s i = some d := by
  rw [← String.size_toByteArray] at h
  rw [byte?, getElem?_pos s.toByteArray i h]
  exact ⟨_, rfl⟩

theorem holds?_of_high {p : Char → Bool} (hp : Narrow p) (h : byte? s i = some d)
    (hd : 128 ≤ d.toNat) : holds? s i p = some false := by
  rw [holds?, if_pos (lt_of_byte? h), h, Option.map_some, hp d hd]

/-- No number begins at a byte that is not a character by itself. -/
theorem numberEnd?_of_high (h : byte? s i = some d) (hd : 128 ≤ d.toNat) (hi : 0 < i) :
    numberEnd? s i = some none := by
  have hdigits : digitsEnd? s i = some i :=
    digitsEnd?_of_false (holds?_of_high narrow_isDigit h hd)
  have hfraction : fractionEnd? s i = some i := by
    unfold fractionEnd?
    rw [holds?_of_high (narrow_beq '.' (by decide)) h hd]
    rfl
  have hunsigned : unsignedEnd? s i = some none := by
    unfold unsignedEnd?
    rw [hdigits]
    show (fractionEnd? s i).bind _ = _
    rw [hfraction]
    exact if_pos ⟨rfl, rfl⟩
  obtain ⟨b, hb⟩ := exists_byte? (show i - 1 < s.utf8ByteSize by have := lt_of_byte? h; omega)
  have hbefore : before? s i = some (some b) := by
    rw [before?, if_pos hi, hb]
    rfl
  have hsign : ¬ (d = '-' ∨ d = '+') := by
    rintro (rfl | rfl)
    · exact absurd hd (by decide)
    · exact absurd hd (by decide)
  unfold numberEnd?
  rw [h]
  show (before? s i).bind _ = _
  rw [hbefore]
  show (if d = '-' ∨ d = '+' then _ else if Option.any isNameChar (some b) = true then some none
    else unsignedEnd? s i) = _
  rw [if_neg hsign, hunsigned, ite_self]

theorem splitFrom?_skip (hi : i < s.utf8ByteSize) (h : numberEnd? s i = some none)
    (start : Nat) : splitFrom? s start i = splitFrom? s start (i + 1) := by
  rw [splitFrom?, if_pos hi]
  split <;> simp_all

/-- Where no number begins at a character, the walk comes to the next one: none begins at its
    further bytes either. -/
theorem splitFrom?_next (h : s.toList = pre ++ c :: cs)
    (hnone : numberEnd? s (width pre) = some none)
    (start : Nat) : splitFrom? s start (width pre) = splitFrom? s start (width (pre ++ [c])) := by
  have hpos := width_pos c
  have hwithin : ∀ k, k < width [c] → width pre + k < s.utf8ByteSize := by
    intro k hk
    rw [utf8ByteSize_eq, h, width_append, width_cons]
    omega
  have hstep : ∀ k, k < width [c] →
      splitFrom? s start (width pre) = splitFrom? s start (width pre + (k + 1)) := by
    intro k hk
    induction k with
    | zero => exact splitFrom?_skip (hwithin 0 hk) hnone start
    | succ k ih =>
      obtain ⟨d, hd, hreads⟩ := byte?_in h hk
      have hhigh : 128 ≤ d.toNat := by
        rcases hreads with ⟨-, hc⟩ | ⟨hd, -⟩
        · rw [width_of_lt hc] at hk
          omega
        · exact hd
      rw [ih (by omega)]
      exact splitFrom?_skip (hwithin (k + 1) hk) (numberEnd?_of_high hd hhigh (by omega)) start
  rw [width_append, hstep (width [c] - 1) (by omega), Nat.sub_add_cancel hpos]

/-! ## The whole walk -/

theorem isValid_width (h : s.toList = pre ++ cs) : String.Pos.Raw.IsValid s ⟨width pre⟩ := by
  refine String.Pos.Raw.isValid_iff_exists_append.2 ⟨String.ofList pre, String.ofList cs, ?_, ?_⟩
  · rw [← String.ofList_append, ← h, String.ofList_toList]
  · have hsize := utf8ByteSize_eq (String.ofList pre)
    rw [String.toList_ofList] at hsize
    rw [← hsize]
    rfl

/-- The characters between two edges are cut out. -/
theorem slice?_eq {n : List Char} (h : s.toList = pre ++ n ++ cs) :
    slice? s (width pre) (width (pre ++ n)) = some n := by
  have hfirst : s.toList = pre ++ (n ++ cs) := by rw [h, List.append_assoc]
  rw [slice?, dif_pos ⟨by rw [width_append]; omega, isValid_width hfirst, isValid_width h⟩]
  have hbytes : s.toByteArray = (bytes pre).toByteArray
      ++ ((bytes n).toByteArray ++ (bytes cs).toByteArray) := by
    rw [toByteArray_eq, hfirst, ← List.toByteArray_append, ← List.toByteArray_append]
    simp only [bytes, List.flatMap_append]
  have hcut : s.toByteArray.extract (width pre) (width (pre ++ n)) = (bytes n).toByteArray := by
    have hpre : width pre = (bytes pre).toByteArray.size + 0 := List.size_toByteArray.symm
    have hn : width (pre ++ n) = (bytes pre).toByteArray.size + (bytes n).toByteArray.size := by
      rw [width_append, List.size_toByteArray, List.size_toByteArray]
      rfl
    rw [hbytes, hpre, hn, ByteArray.extract_append_size_add, ByteArray.extract_append_eq_left rfl]
  have htext : s.extract (s.pos ⟨width pre⟩ (isValid_width hfirst))
      (s.pos ⟨width (pre ++ n)⟩ (isValid_width h)) = String.ofList n := by
    rw [← String.toByteArray_inj, String.toByteArray_extract, String.toByteArray_ofList]
    exact hcut
  rw [htext, String.toList_ofList]

/-- The walk over the bytes goes the way through the characters. -/
theorem splitFrom?_eq {before : Option Char} {lead : List Char}
    {parts : List (List Char × List Char)} (h : Splits before cs lead parts)
    (front part : List Char) (hs : s.toList = front ++ part ++ cs)
    (hbefore : before = (front ++ part).getLast?) :
    splitFrom? s (width front) (width (front ++ part))
      = some ⟨part ++ lead, parts.map fun p => (Numeral.value p.1, p.2)⟩ := by
  induction h generalizing front part with
  | nil =>
    have hsize : s.utf8ByteSize = width (front ++ part) := by
      rw [utf8ByteSize_eq, hs, List.append_nil]
    rw [splitFrom?, if_neg (by omega), hsize, slice?_eq hs, List.append_nil]
    rfl
  | @skip before c cs lead parts hnone hrest ih =>
    have hno := numberEnd?_eq hs
    rw [← hbefore, hnone] at hno
    rw [splitFrom?_next hs hno, List.append_assoc,
      ih front (part ++ [c]) (by rw [hs]; simp) (by rw [← List.append_assoc]; simp)]
    rw [List.append_assoc]
    rfl
  | @number before cs n rest lead parts hnumber hrest ih =>
    obtain ⟨happ, hne⟩ := spanNumber?_append hnumber
    cases cs with
    | nil => cases hnumber
    | cons c cs =>
      have hstop := numberEnd?_eq hs
      rw [← hbefore, hnumber, Option.map_some] at hstop
      have hcut : s.toList = front ++ part ++ n ++ rest := by
        rw [hs, ← happ, List.append_assoc (front ++ part)]
      have hvalue := Numeral.number?_eq_value (Numeral.isNumeral_of_spanNumber? hnumber)
      have hlast : n.getLast? = (front ++ part ++ n ++ []).getLast? := by
        rw [List.append_nil, List.getLast?_append, Option.or_of_isSome (by simpa using hne)]
      have hbehind := ih (front ++ part ++ n) [] (by rw [List.append_nil, hcut])
        hlast
      rw [List.append_nil, List.nil_append] at hbehind
      have hlt : width (front ++ part) < s.utf8ByteSize := by
        have := width_pos c
        rw [utf8ByteSize_eq, hs, width_append _ (c :: cs), width_cons]
        omega
      rw [splitFrom?, if_pos hlt]
      split
      · rename_i heq
        rw [hstop] at heq
        cases heq
      · rename_i heq
        rw [hstop] at heq
        cases heq
      · rename_i stop heq
        rw [hstop] at heq
        obtain rfl := Option.some.inj (Option.some.inj heq)
        simp only [slice?_eq hcut, slice?_eq hs, hvalue, hbehind, List.append_nil]
        rfl

/-- The walk has a result for every text: no index is outside of the text or inside a character.
    The result is the template of the text. -/
theorem split?_eq_parse (s : String) : split? s = some (Template.parse s) := by
  obtain ⟨lead, parts, h⟩ := exists_splits none s.toList
  have hwalk := splitFrom?_eq h [] [] rfl rfl
  rw [Template.parse, h.scan_eq]
  exact hwalk

end Bytes

namespace Template

/-- Literals with texts between them. -/
def weave : List (List Char) → List (List Char) → List Char
  | [], _ => []
  | lead :: _, [] => lead
  | lead :: literals, n :: ns => lead ++ n ++ weave literals ns

theorem weave_parts (lead : List Char) (parts : List (List Char × List Char)) :
    weave (lead :: parts.map (·.2)) (parts.map (·.1))
      = lead ++ parts.flatMap fun p => p.1 ++ p.2 := by
  induction parts generalizing lead with
  | nil => exact (List.append_nil lead).symm
  | cons p parts ih =>
    rw [List.map_cons, List.map_cons, weave, ih, List.flatMap_cons]
    simp only [List.append_assoc]

/-- Nothing is lost when a text is split. The walk over its bytes stays inside of the text, cuts at
    the edges of characters only and ends with the template of the text. The template has one more
    literal than numbers, and it has a number for each of some texts that look like numbers, its
    value: with these texts between the literals it is the whole text. -/
theorem parse_lossless (s : String) :
    Bytes.split? s = some (parse s) ∧
      (parse s).literals.length = (parse s).numbers.length + 1 ∧
      ∃ ns : List (List Char), (∀ n ∈ ns, Numeral.IsNumeral n) ∧
        ns.map Decimal.number? = (parse s).numbers.map some ∧
        s.toList = weave (parse s).literals ns := by
  obtain ⟨lead, parts, h⟩ := exists_splits none s.toList
  have hparse : parse s = ⟨lead, parts.map fun p => (Numeral.value p.1, p.2)⟩ := h.scan_eq
  refine ⟨Bytes.split?_eq_parse s, ?_, parts.map (·.1), ?_, ?_, ?_⟩
  · rw [literals, numbers, List.length_cons, List.length_map, List.length_map]
  · intro n hn
    obtain ⟨p, hp, rfl⟩ := List.mem_map.1 hn
    exact h.isNumeral p hp
  · rw [hparse, numbers, List.map_map, List.map_map, List.map_map]
    refine List.map_congr_left fun p hp => ?_
    exact Numeral.number?_eq_value (h.isNumeral p hp)
  · have hliterals : (parse s).literals = lead :: parts.map (·.2) := by
      rw [hparse, literals, List.map_map]
      rfl
    rw [hliterals, weave_parts, h.append_eq]

end Template

end Slideshow

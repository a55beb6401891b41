/-
  Slideshow.Proofs.Animation.Hexadecimal

  Which texts stand for a color. `Spells` is the notation in general, for any way of writing a
  channel with two characters; with two digits for a channel it is hexadecimal notation. What is
  read is a little more: a plus sign may stand in place of a channel's first digit
  (`plus_for_digit`). Hexadecimal notation is exactly what is read of the texts without a plus
  sign, and what is written is read back (`hexadecimal_iff`).
-/
import Mathlib.Data.List.TakeWhile
import Slideshow.Animation.Color

namespace Slideshow

namespace Color

/-! ## Digits -/

/-- The hexadecimal digits in the order of their values. -/
def smallDigits : List Char := "0123456789abcdef".toList

/-- The same digits with capital letters. -/
def capitalDigits : List Char := "0123456789ABCDEF".toList

/-- The character is a hexadecimal digit with the value `n`. -/
def IsDigit (c : Char) (n : Nat) : Prop := smallDigits[n]? = some c ∨ capitalDigits[n]? = some c

instance (c : Char) (n : Nat) : Decidable (IsDigit c n) :=
  inferInstanceAs (Decidable (_ ∨ _))

variable {c d : Char} {m n : Nat}

theorem IsDigit.lt (h : IsDigit c n) : n < 16 := by
  rcases h with h | h
  · exact (List.getElem?_eq_some_iff.1 h).1
  · exact (List.getElem?_eq_some_iff.1 h).1

theorem digit?_smallDigits : ∀ i (h : i < smallDigits.length), digit? smallDigits[i] = some i := by
  decide

theorem digit?_capitalDigits :
    ∀ i (h : i < capitalDigits.length), digit? capitalDigits[i] = some i := by
  decide

/-- A character is its distance from another one away from it. -/
theorem ofNat_add_sub {a : Char} (h : a ≤ c) : Char.ofNat (a.toNat + (c.toNat - a.toNat)) = c := by
  have hle : a.toNat ≤ c.toNat := h
  rw [Nat.add_sub_cancel' hle]
  exact Char.ofNat_toNat c

theorem digit?_eq_some_iff : digit? c = some n ↔ IsDigit c n := by
  constructor
  · -- each of the three ranges is a part of one of the rows of digits
    intro h
    unfold digit? at h
    split at h
    · rename_i hrange
      obtain rfl := Option.some.inj h
      have hlt : c.toNat - '0'.toNat < 10 := by
        have hle : c.toNat ≤ '9'.toNat := hrange.2
        have hnine : '9'.toNat = '0'.toNat + 9 := rfl
        omega
      have hrow : ∀ k < 10, smallDigits[k]? = some (Char.ofNat ('0'.toNat + k)) := by decide
      left
      rw [hrow _ hlt, ofNat_add_sub hrange.1]
    · split at h
      · rename_i hrange
        obtain rfl := Option.some.inj h
        have hlt : c.toNat - 'a'.toNat < 6 := by
          have hle : c.toNat ≤ 'f'.toNat := hrange.2
          have hf : 'f'.toNat = 'a'.toNat + 5 := rfl
          omega
        have hrow : ∀ k < 6, smallDigits[k + 10]? = some (Char.ofNat ('a'.toNat + k)) := by decide
        left
        rw [hrow _ hlt, ofNat_add_sub hrange.1]
      · split at h
        · rename_i hrange
          obtain rfl := Option.some.inj h
          have hlt : c.toNat - 'A'.toNat < 6 := by
            have hle : c.toNat ≤ 'F'.toNat := hrange.2
            have hf : 'F'.toNat = 'A'.toNat + 5 := rfl
            omega
          have hrow : ∀ k < 6, capitalDigits[k + 10]? = some (Char.ofNat ('A'.toNat + k)) := by
            decide
          right
          rw [hrow _ hlt, ofNat_add_sub hrange.1]
        · cases h
  · rintro (h | h)
    · obtain ⟨hlt, rfl⟩ := List.getElem?_eq_some_iff.1 h
      exact digit?_smallDigits n hlt
    · obtain ⟨hlt, rfl⟩ := List.getElem?_eq_some_iff.1 h
      exact digit?_capitalDigits n hlt

theorem IsDigit.ne_plus (h : IsDigit c n) : '+' ≠ c := by
  rintro rfl
  have hplus : digit? '+' = none := by decide
  rw [← digit?_eq_some_iff, hplus] at h
  cases h

/-! ## Channels -/

/-- Two digits stand for a channel. -/
def IsPair (c d : Char) (v : UInt8) : Prop :=
  ∃ m n, IsDigit c m ∧ IsDigit d n ∧ v.toNat = 16 * m + n

/-- A plus sign and a digit stand for a channel. -/
def IsSignedDigit (c d : Char) (v : UInt8) : Prop := c = '+' ∧ IsDigit d v.toNat

/-- What is read as a channel. -/
def IsChannel (c d : Char) (v : UInt8) : Prop := IsPair c d v ∨ IsSignedDigit c d v

variable {v : UInt8}

theorem ofNat_eq_iff {n : Nat} (h : n < 256) : UInt8.ofNat n = v ↔ v.toNat = n := by
  have htoNat : (UInt8.ofNat n).toNat = n := by
    rw [UInt8.toNat_ofNat']
    exact Nat.mod_eq_of_lt h
  rw [← UInt8.toNat_inj, htoNat]
  exact eq_comm

theorem double?_eq_some_iff : double? c d = some v ↔ IsChannel c d v := by
  unfold double?
  cases hc : digit? c with
  | some m =>
    have hm : IsDigit c m := digit?_eq_some_iff.1 hc
    have hsigned : ¬ IsSignedDigit c d v := fun h => hm.ne_plus h.1.symm
    cases hd : digit? d with
    | some n =>
      have hn : IsDigit d n := digit?_eq_some_iff.1 hd
      have hlt : m * 16 + n < 256 := by
        have := hm.lt
        have := hn.lt
        omega
      simp only [Option.some.injEq]
      rw [ofNat_eq_iff hlt, Nat.mul_comm m 16]
      constructor
      · intro h
        exact .inl ⟨m, n, hm, hn, h⟩
      · -- a digit has one value
        rintro (⟨m', n', hm', hn', h⟩ | h)
        · rw [← digit?_eq_some_iff, hc] at hm'
          rw [← digit?_eq_some_iff, hd] at hn'
          obtain rfl := Option.some.inj hm'
          obtain rfl := Option.some.inj hn'
          exact h
        · exact absurd h hsigned
    | none =>
      refine iff_of_false (fun h => by cases h) ?_
      rintro (⟨m', n', -, hn', -⟩ | h)
      · rw [← digit?_eq_some_iff, hd] at hn'
        cases hn'
      · exact hsigned h
  | none =>
    have hpair : ¬ IsPair c d v := by
      rintro ⟨m', n', hm', -, -⟩
      rw [← digit?_eq_some_iff, hc] at hm'
      cases hm'
    rw [IsChannel, or_iff_right hpair, IsSignedDigit, ← digit?_eq_some_iff]
    cases hd : digit? d with
    | some n =>
      have hn : IsDigit d n := digit?_eq_some_iff.1 hd
      have hlt : n < 256 := by
        have := hn.lt
        omega
      simp only [Option.some.injEq, Option.ite_none_right_eq_some]
      rw [ofNat_eq_iff hlt, eq_comm (a := n)]
    | none =>
      refine iff_of_false (fun h => by cases h) ?_
      rintro ⟨-, h⟩
      cases h

theorem single?_eq_some_iff : single? c = some v ↔ IsChannel c c v := by
  have hdouble : single? c = double? c c := by
    unfold single? double?
    cases hc : digit? c with
    | none => rfl
    | some n =>
      have hsum : n * 17 = n * 16 + n := by omega
      simp only [Option.map_some, hsum]
  rw [hdouble, double?_eq_some_iff]

/-! ## Texts -/

/-- The text stands for the color, where `pair` tells which characters stand for a channel: a
    number sign and one character or two for red, green and blue, then perhaps two for opacity,
    or the word for the color that does not show. -/
inductive Spells (pair : Char → Char → UInt8 → Prop) : List Char → Color → Prop
  | transparent {cs : List Char} (h : Text.lower cs = "transparent".toList) :
      Spells pair cs ⟨0, 0, 0, 0⟩
  | three {r g b : Char} {c : Color} (hr : pair r r c.r) (hg : pair g g c.g) (hb : pair b b c.b)
      (ha : c.a = 255) : Spells pair ['#', r, g, b] c
  | six {r r' g g' b b' : Char} {c : Color} (hr : pair r r' c.r) (hg : pair g g' c.g)
      (hb : pair b b' c.b) (ha : c.a = 255) : Spells pair ['#', r, r', g, g', b, b'] c
  | eight {r r' g g' b b' a a' : Char} {c : Color} (hr : pair r r' c.r) (hg : pair g g' c.g)
      (hb : pair b b' c.b) (ha : pair a a' c.a) : Spells pair ['#', r, r', g, g', b, b', a, a'] c

variable {cs : List Char} {color : Color}

theorem lower_ne_transparent (ds : List Char) : Text.lower ('#' :: ds) ≠ "transparent".toList := by
  intro h
  cases h

/-- The digits behind the number sign are read channel by channel. -/
theorem ofDigits?_eq_some_iff {ds : List Char} :
    ofDigits? ds = some color ↔
      Spells IsChannel ('#' :: ds) color := by
  constructor
  · intro h
    unfold ofDigits? at h
    split at h
    · simp only [Option.bind_eq_bind, Option.bind_eq_some_iff, Option.pure_def, Option.some.injEq,
        single?_eq_some_iff] at h
      obtain ⟨r, hr, g, hg, b, hb, rfl⟩ := h
      exact .three hr hg hb rfl
    · simp only [Option.bind_eq_bind, Option.bind_eq_some_iff, Option.pure_def, Option.some.injEq,
        double?_eq_some_iff] at h
      obtain ⟨r, hr, g, hg, b, hb, rfl⟩ := h
      exact .six hr hg hb rfl
    · simp only [Option.bind_eq_bind, Option.bind_eq_some_iff, Option.pure_def, Option.some.injEq,
        double?_eq_some_iff] at h
      obtain ⟨r, hr, g, hg, b, hb, a, ha, rfl⟩ := h
      exact .eight hr hg hb ha
    · cases h
  · intro h
    generalize hcs : '#' :: ds = cs at h
    cases h with
    | transparent h => exact absurd (hcs ▸ h) (lower_ne_transparent ds)
    | three hr hg hb ha =>
      cases hcs
      rw [← single?_eq_some_iff] at hr hg hb
      simp only [ofDigits?, hr, hg, hb, ← ha, Option.bind_eq_bind, Option.bind_some,
        Option.pure_def]
    | six hr hg hb ha =>
      cases hcs
      rw [← double?_eq_some_iff] at hr hg hb
      simp only [ofDigits?, hr, hg, hb, ← ha, Option.bind_eq_bind, Option.bind_some,
        Option.pure_def]
    | eight hr hg hb ha =>
      cases hcs
      rw [← double?_eq_some_iff] at hr hg hb ha
      simp only [ofDigits?, hr, hg, hb, ha, Option.bind_eq_bind, Option.bind_some,
        Option.pure_def]

theorem ofChars?_eq_some_iff : ofChars? cs = some color ↔ Spells IsChannel cs color := by
  unfold ofChars?
  by_cases hword : Text.lower cs = "transparent".toList
  · rw [if_pos hword]
    constructor
    · intro h
      obtain rfl := Option.some.inj h
      exact .transparent hword
    · intro h
      cases h with
      | transparent => rfl
      | _ => exact absurd hword (lower_ne_transparent _)
  · rw [if_neg hword]
    split
    · exact ofDigits?_eq_some_iff
    · -- every other way of writing a color begins with a number sign
      rename_i hsign
      refine iff_of_false (fun h => by cases h) fun h => ?_
      cases h with
      | transparent h => exact hword h
      | _ => exact hsign _ rfl

/-! ## Plus signs -/

theorem Spells.mono {pair pair' : Char → Char → UInt8 → Prop}
    (hpair : ∀ {c d v}, pair c d v → pair' c d v) (h : Spells pair cs color) :
    Spells pair' cs color := by
  cases h with
  | transparent h => exact .transparent h
  | three hr hg hb ha => exact .three (hpair hr) (hpair hg) (hpair hb) ha
  | six hr hg hb ha => exact .six (hpair hr) (hpair hg) (hpair hb) ha
  | eight hr hg hb ha => exact .eight (hpair hr) (hpair hg) (hpair hb) (hpair ha)

theorem IsPair.ne_plus (h : IsPair c d v) : '+' ≠ c ∧ '+' ≠ d := by
  obtain ⟨m, n, hm, hn, -⟩ := h
  exact ⟨hm.ne_plus, hn.ne_plus⟩

theorem plus_not_mem_of_transparent (h : Text.lower cs = "transparent".toList) : '+' ∉ cs := by
  intro hmem
  -- a plus sign has no other letter case
  have hlower : '+' ∈ Text.lower cs := List.mem_map.2 ⟨'+', hmem, by decide⟩
  rw [h] at hlower
  revert hlower
  decide

/-- In hexadecimal notation there is no plus sign. -/
theorem Spells.plus_not_mem (h : Spells IsPair cs color) : '+' ∉ cs := by
  cases h with
  | transparent h => exact plus_not_mem_of_transparent h
  | three hr hg hb => simp [hr.ne_plus, hg.ne_plus, hb.ne_plus]
  | six hr hg hb => simp [hr.ne_plus, hg.ne_plus, hb.ne_plus]
  | eight hr hg hb ha => simp [hr.ne_plus, hg.ne_plus, hb.ne_plus, ha.ne_plus]

/-- A channel that is read from a text without a plus sign is a pair of digits. -/
theorem IsChannel.isPair (h : IsChannel c d v) (hmem : c ∈ cs) (hplus : '+' ∉ cs) :
    IsPair c d v := by
  refine h.resolve_right fun hsigned => hplus ?_
  rw [← hsigned.1]
  exact hmem

/-- What is read of a text without a plus sign is in hexadecimal notation. -/
theorem Spells.isPair (h : Spells IsChannel cs color) (hplus : '+' ∉ cs) :
    Spells IsPair cs color := by
  cases h with
  | transparent h => exact .transparent h
  | three hr hg hb ha =>
    exact .three (hr.isPair (by simp) hplus) (hg.isPair (by simp) hplus)
      (hb.isPair (by simp) hplus) ha
  | six hr hg hb ha =>
    exact .six (hr.isPair (by simp) hplus) (hg.isPair (by simp) hplus)
      (hb.isPair (by simp) hplus) ha
  | eight hr hg hb ha =>
    exact .eight (hr.isPair (by simp) hplus) (hg.isPair (by simp) hplus)
      (hb.isPair (by simp) hplus) (ha.isPair (by simp) hplus)

/-! ## Writing -/

theorem isDigit_digitChar : ∀ n < 16, IsDigit (Nat.digitChar n) n := by decide

/-- A channel is written with two digits. -/
theorem isPair_hexPair (v : UInt8) :
    ∃ c d, hexPair v = [c, d] ∧ IsPair c d v := by
  have hlt : v.toNat < 256 := v.toNat_lt
  have hhigh : v.toNat / 16 < 16 := by omega
  have hlow : v.toNat % 16 < 16 := by omega
  exact ⟨_, _, rfl, _, _, isDigit_digitChar _ hhigh, isDigit_digitChar _ hlow, by omega⟩

/-- What is written is in hexadecimal notation. -/
theorem spells_hex (color : Color) : Spells IsPair color.hex.toList color := by
  obtain ⟨r, r', hr, hr'⟩ := isPair_hexPair color.r
  obtain ⟨g, g', hg, hg'⟩ := isPair_hexPair color.g
  obtain ⟨b, b', hb, hb'⟩ := isPair_hexPair color.b
  obtain ⟨a, a', ha, ha'⟩ := isPair_hexPair color.a
  rw [hex, String.toList_ofList, hr, hg, hb, ha]
  by_cases hfull : color.a = 255
  · rw [if_pos hfull]
    exact .six hr' hg' hb' hfull
  · rw [if_neg hfull]
    exact .eight hr' hg' hb' ha'

theorem isBlank_digitChar : ∀ n < 16, Text.isBlank (Nat.digitChar n) = false := by decide

theorem not_blank_of_mem_hexPair {v : UInt8} (h : c ∈ hexPair v) : Text.isBlank c = false := by
  have hlt : v.toNat < 256 := v.toNat_lt
  simp only [hexPair, List.mem_cons, List.not_mem_nil, or_false] at h
  rcases h with rfl | rfl
  · exact isBlank_digitChar _ (by omega)
  · exact isBlank_digitChar _ (by omega)

theorem not_blank_of_mem_hex (h : c ∈ color.hex.toList) : Text.isBlank c = false := by
  rw [hex, String.toList_ofList] at h
  split at h <;>
    simp only [List.mem_append, List.mem_cons, List.not_mem_nil, or_false] at h
  · rcases h with ((rfl | h) | h) | h
    · rfl
    all_goals exact not_blank_of_mem_hexPair h
  · rcases h with (((rfl | h) | h) | h) | h
    · rfl
    all_goals exact not_blank_of_mem_hexPair h

/-- A text in which nothing is blank has no blank ends. -/
theorem trim_of_not_blank (h : ∀ c ∈ cs, Text.isBlank c = false) : Text.trim cs = cs := by
  have hkept : ∀ {ds : List Char}, (∀ c ∈ ds, Text.isBlank c = false) → Text.trimLeft ds = ds := by
    intro ds hds
    apply List.dropWhile_eq_self_iff.2
    intro hlength
    rw [hds _ (List.getElem_mem hlength)]
    exact Bool.false_ne_true
  rw [Text.trim, hkept h, hkept fun c hc => h c (List.mem_reverse.1 hc), List.reverse_reverse]

theorem parse?_hex (color : Color) : parse? color.hex = some color := by
  rw [parse?, trim_of_not_blank fun c hc => not_blank_of_mem_hex hc]
  exact ofChars?_eq_some_iff.2 ((spells_hex color).mono .inl)

/-! ## Reading -/

/-- Between its blank ends, a text that stands for a color is the word `transparent` or a number
    sign and three, six or eight digits, where a plus sign may stand in place of a channel's first
    digit. Hexadecimal notation is what is read without plus signs. Every color is read back
    from what is written for it. -/
theorem hexadecimal_iff (text : String) :
    let cs := Text.trim text.toList
    (∀ color, parse? text = some color ↔ Spells IsChannel cs color) ∧
    (∀ color, Spells IsPair cs color ↔ parse? text = some color ∧ '+' ∉ cs) ∧
    ∀ color : Color, parse? color.hex = some color := by
  intro cs
  have hread : ∀ color, parse? text = some color ↔ Spells IsChannel cs color :=
    fun color => ofChars?_eq_some_iff
  refine ⟨hread, fun color => ?_, parse?_hex⟩
  rw [hread]
  constructor
  · intro h
    exact ⟨h.mono .inl, h.plus_not_mem⟩
  · intro h
    exact h.1.isPair h.2

example : parse? " #0F8\n" = some ⟨0, 255, 136, 255⟩ := by decide

/-- Plus signs in place of digits: the text is no hexadecimal notation, and it is read. -/
theorem plus_for_digit :
    parse? "#+1+2+3" = some ⟨1, 2, 3, 255⟩ ∧
      ∀ color, ¬ Spells IsPair (Text.trim "#+1+2+3".toList) color := by
  refine ⟨by decide, fun color h => h.plus_not_mem ?_⟩
  decide

end Color

end Slideshow

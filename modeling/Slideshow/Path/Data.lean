/-
  Slideshow.Path.Data

  Paths from text. Path data are commands, each a letter and its numbers; a letter that
  repeats may be left out, and behind a move the numbers of further lines may follow. Where
  no command can begin, the data end.
-/
import Slideshow.Animation.Template
import Slideshow.Failure
import Slideshow.Path.Arc
import Slideshow.Path.Arclength

namespace Slideshow.PathData

open Text (isAsciiBlank skip skipComma length_skip_le length_skipComma_le)

/-! ## Numbers -/

/-- Digits with at most one point at any place. -/
def spanPlaces (cs : List Char) : List Char × List Char :=
  let (whole, rest) := Decimal.spanDigits cs
  match rest with
  | '.' :: rest =>
    let (part, rest) := Decimal.spanDigits rest
    (whole ++ '.' :: part, rest)
  | rest => (whole, rest)

theorem spanPlaces_append (cs : List Char) :
    (spanPlaces cs).1 ++ (spanPlaces cs).2 = cs := by
  have h := spanDigits_append cs
  unfold spanPlaces
  simp only
  split
  · rename_i rest heq
    rw [heq] at h
    rw [List.append_assoc, List.cons_append, spanDigits_append, h]
  · exact h

/-- If there is a digit among the places behind blanks and a sign, less is left than there was. -/
theorem length_behind_places {blank : Char → Bool} {cs : List Char}
    (h : (spanPlaces (spanSign (skip blank cs)).2).1.any Char.isDigit = true) :
    (spanPlaces (spanSign (skip blank cs)).2).2.length < cs.length := by
  have hskip := length_skip_le blank cs
  have hsign := congrArg List.length (spanSign_append (skip blank cs))
  have hplaces := congrArg List.length (spanPlaces_append (spanSign (skip blank cs)).2)
  rw [List.length_append] at hsign hplaces
  obtain ⟨c, hc, _⟩ := List.any_eq_true.1 h
  have hpos := List.length_pos_of_mem hc
  omega

/-- An exponent, whose digits may not be missing. -/
def spanPower? (cs : List Char) : Option (List Char × List Char) :=
  match cs with
  | e :: _ =>
    if e = 'e' ∨ e = 'E' then
      let (power, rest) := spanExponent cs
      if power.isEmpty then none else some (power, rest)
    else some ([], cs)
  | [] => some ([], [])

theorem length_of_spanPower? {cs power rest : List Char}
    (h : spanPower? cs = some (power, rest)) : rest.length ≤ cs.length := by
  unfold spanPower? at h
  split at h
  · split at h
    · simp only at h
      split at h
      · cases h
      · simp only [Option.some.injEq, Prod.mk.injEq] at h
        obtain ⟨_, rfl⟩ := h
        rename_i e tail _ _ _
        have := congrArg List.length (spanExponent_append (e :: tail))
        rw [List.length_append] at this
        omega
    · cases h
      exact Nat.le_refl _
  · cases h
    exact Nat.le_refl _

/-- The number at the front of a text, and what follows it. -/
def number? (cs : List Char) : Option (Float × List Char) :=
  let (sign, rest) := spanSign (skip isAsciiBlank cs)
  let (places, rest) := spanPlaces rest
  if places.any Char.isDigit then
    match spanPower? rest with
    | none => none
    | some (power, rest) =>
      (Decimal.number? (sign ++ places ++ power)).map fun x => (x, rest)
  else none

theorem length_of_number? {cs rest : List Char} {x : Float}
    (h : number? cs = some (x, rest)) : rest.length < cs.length := by
  unfold number? at h
  simp only at h
  split at h
  · rename_i hany
    split at h
    · cases h
    · rename_i hpower
      simp only [Option.map_eq_some_iff, Prod.mk.injEq] at h
      obtain ⟨_, _, _, rfl⟩ := h
      exact Nat.lt_of_le_of_lt (length_of_spanPower? hpower) (length_behind_places hany)
  · cases h

/-- A flag, one digit that is zero or one. -/
def flag? (cs : List Char) : Option (Float × List Char) :=
  match skip isAsciiBlank cs with
  | '0' :: rest => some (0, rest)
  | '1' :: rest => some (1, rest)
  | _ => none

theorem length_of_flag? {cs rest : List Char} {x : Float} (h : flag? cs = some (x, rest)) :
    rest.length < cs.length := by
  have hskip := length_skip_le isAsciiBlank cs
  unfold flag? at h
  split at h
  · rename_i heq
    cases h
    rw [heq, List.length_cons] at hskip
    omega
  · rename_i heq
    cases h
    rw [heq, List.length_cons] at hskip
    omega
  · cases h

/-! ## Commands -/

/-- What a command takes: a number or a flag. -/
inductive Argument where
  | number
  | flag

/-- What a command takes, by its letter in lower case. -/
def arguments? (letter : Char) : Option (List Argument) :=
  if letter = 'z' then some []
  else if letter = 'h' ∨ letter = 'v' then some [.number]
  else if letter = 'm' ∨ letter = 'l' ∨ letter = 't' then some [.number, .number]
  else if letter = 'q' ∨ letter = 's' then some [.number, .number, .number, .number]
  else if letter = 'c' then some [.number, .number, .number, .number, .number, .number]
  else if letter = 'a' then
    some [.number, .number, .number, .flag, .flag, .number, .number]
  else none

/-- One argument with the comma behind it. -/
def argument? : Argument → List Char → Option (Float × List Char)
  | .number, cs => (number? cs).map fun p => (p.1, skipComma isAsciiBlank p.2)
  | .flag, cs => (flag? cs).map fun p => (p.1, skipComma isAsciiBlank p.2)

theorem shorter_of_argument? (a : Argument) (cs : List Char) (x : Float) (rest : List Char)
    (h : argument? a cs = some (x, rest)) : rest.length < cs.length := by
  cases a <;> simp only [argument?, Option.map_eq_some_iff, Prod.mk.injEq] at h
  · obtain ⟨p, hp, _, rfl⟩ := h
    exact Nat.lt_of_le_of_lt (length_skipComma_le _ _) (length_of_number? hp)
  · obtain ⟨p, hp, _, rfl⟩ := h
    exact Nat.lt_of_le_of_lt (length_skipComma_le _ _) (length_of_flag? hp)

/-- Reads one argument at the front of a text. -/
abbrev ArgumentReader : Type := Argument → List Char → Option (Float × List Char)

/-- Arguments one after another. -/
def takeArguments? (read : ArgumentReader) :
    List Argument → List Char → Option (List Float × List Char)
  | [], cs => some ([], cs)
  | a :: as, cs => do
    let (x, cs) ← read a cs
    let (xs, cs) ← takeArguments? read as cs
    return (x :: xs, cs)

/-- If every argument takes some of the text, so do all together. -/
theorem length_of_takeArguments? {read : ArgumentReader}
    (shorter : ∀ a cs x rest, read a cs = some (x, rest) → rest.length < cs.length)
    {as : List Argument} {cs rest : List Char} {xs : List Float}
    (h : takeArguments? read as cs = some (xs, rest)) :
    rest.length + as.length ≤ cs.length := by
  induction as generalizing cs xs with
  | nil => simp [takeArguments?] at h; simp [h.2]
  | cons a as ih =>
    simp only [takeArguments?, Option.bind_eq_bind, Option.bind_eq_some_iff, Option.pure_def,
      Option.some.injEq, Prod.mk.injEq] at h
    obtain ⟨p, hp, q, hq, _, rfl⟩ := h
    have := shorter _ _ _ _ hp
    have := ih hq
    simp only [List.length_cons]
    omega

/-- A command. Its numbers are relative to the point before it if its letter is in lower
    case. -/
structure Command where
  letter : Char
  numbers : List Float

/-- Characters that a number can begin with where a command may stand. -/
def startsNumber (c : Char) : Bool :=
  c == '-' || c == '.' || c.isDigit

/-- The letter that is understood behind a command when none is given. -/
def following (letter : Char) (before : Option Char) : Option Char :=
  if letter = 'm' then some 'l'
  else if letter = 'M' then some 'L'
  else if letter = 'z' ∨ letter = 'Z' then before
  else some letter

/-- The commands of path data, of which `before` repeats if no letter is given. -/
def commands? (before : Option Char) (cs : List Char) : Option (List Command) :=
  match hs : skip isAsciiBlank cs with
  | [] => some []
  | c :: rest =>
    have hlen : rest.length < cs.length := by
      have := length_skip_le isAsciiBlank cs
      rw [hs, List.length_cons] at this
      exact this
    if c.isAlpha then
      match arguments? c.toLower with
      | none => none
      | some as =>
        match h : takeArguments? argument? as rest with
        | none => none
        | some (xs, after) =>
          have : after.length < cs.length := by
            have := length_of_takeArguments? shorter_of_argument? h
            omega
          (commands? (following c before) after).map (⟨c, xs⟩ :: ·)
    else
      match before with
      | none => some []
      | some letter =>
        if startsNumber c then
          match arguments? letter.toLower with
          | none => none
          | some [] => none
          | some (a :: as) =>
            match h : takeArguments? argument? (a :: as) (c :: rest) with
            | none => none
            | some (xs, after) =>
              have : after.length < cs.length := by
                have := length_of_takeArguments? shorter_of_argument? h
                simp only [List.length_cons] at this
                omega
              (commands? (following letter before) after).map (⟨letter, xs⟩ :: ·)
        else some []
termination_by cs.length

/-! ## Drawing -/

/-- The state while commands are followed. -/
structure Pen where
  /-- Where the drawing has come to. -/
  tip : Point
  /-- Where the current part of the drawing began. -/
  origin : Point
  /-- The point that relative numbers refer to. -/
  current : Point
  /-- The point of the last move. -/
  home : Point
  /-- The point that smooth curves reflect. -/
  control : Option Point
  /-- A part was closed; what is drawn next begins at the point of the last move. -/
  closed : Bool

namespace Pen

/-- The pen before the first move. -/
def start : Pen := ⟨⟨0, 0⟩, ⟨0, 0⟩, ⟨0, 0⟩, ⟨0, 0⟩, none, false⟩

/-- The pen after a move. -/
def move (p : Point) : Pen := ⟨p, p, p, p, some p, false⟩

/-- The pen with a new part begun, if the last one was closed. -/
def reopen (k : Pen) : Pen :=
  if k.closed then { k with tip := k.home, origin := k.home, closed := false } else k

/-- A point of a command, which may be relative. -/
def place (k : Pen) (relative : Bool) (x y : Float) : Point :=
  if relative then k.current.add ⟨x, y⟩ else ⟨x, y⟩

/-- The pen after drawing up to a point. -/
def drawn (k : Pen) (tip p control : Point) : Pen :=
  { k with tip, current := p, control := some control }

/-- The control point of a smooth curve: the last one, reflected at the end point. -/
def reflected (k : Pen) : Point :=
  match k.control with
  | some c => (k.current.scale 2).sub c
  | none => k.current

/-- A straight line to a point. -/
def lineTo (k : Pen) (p : Point) : Pen × Path :=
  (k.drawn p p p, [.line ⟨k.tip, p⟩])

/-- A quadratic curve to a point. -/
def quadTo (k : Pen) (c p : Point) : Pen × Path :=
  (k.drawn p p c, [.quad ⟨k.tip, c, p⟩])

/-- A cubic curve to a point. -/
def cubicTo (k : Pen) (c d p : Point) : Pen × Path :=
  (k.drawn p p d, [.cubic ⟨k.tip, c, d, p⟩])

/-- Curves one after another; each begins where the drawing has come to. -/
def along (k : Pen) : List Cubic → Pen × Path
  | [] => (k, [])
  | c :: cs =>
    let (last, rest) := along { k with tip := c.p₃ } cs
    (last, .cubic ⟨k.tip, c.p₁, c.p₂, c.p₃⟩ :: rest)

/-- An arc to a point. -/
def arcTo (k : Pen) (radii : Point) (rotation : Float) (large sweep : Bool) (p : Point) :
    Pen × Path :=
  match Arc.ofData? ⟨k.current, p, radii, rotation, large, sweep⟩ with
  | none => k.lineTo p
  | some arc =>
    let (last, path) := k.along arc.curves
    (last.drawn last.tip p p, path)

/-- Closes the current part with a line, unless it ends where it began. -/
def close (k : Pen) : Pen × Path :=
  ({ k with tip := k.origin, current := k.home, closed := true },
    if k.tip.same k.origin then [] else [.line ⟨k.tip, k.origin⟩])

/-- Follows a command that draws. -/
def follow? (k : Pen) (letter : Char) (relative : Bool) (xs : List Float) :
    Option (Pen × Path) :=
  let k := k.reopen
  let p := k.place relative
  match letter, xs with
  | 'l', [x, y] => some (k.lineTo (p x y))
  | 'h', [x] => some (k.lineTo ⟨if relative then x + k.current.x else x, k.current.y⟩)
  | 'v', [y] => some (k.lineTo ⟨k.current.x, if relative then y + k.current.y else y⟩)
  | 'q', [a, b, x, y] => some (k.quadTo (p a b) (p x y))
  | 't', [x, y] => some (k.quadTo k.reflected (p x y))
  | 'c', [a, b, c, d, x, y] => some (k.cubicTo (p a b) (p c d) (p x y))
  | 's', [c, d, x, y] => some (k.cubicTo k.reflected (p c d) (p x y))
  | 'a', [rx, ry, rotation, large, sweep, x, y] =>
    some (k.arcTo ⟨rx, ry⟩ rotation (large == 1) (sweep == 1) (p x y))
  | 'z', [] => some k.close
  | _, _ => none

end Pen

/-- The path that commands draw; the first one must be a move. -/
def draw? : Option Pen → List Command → Option Path
  | _, [] => some []
  | pen, ⟨letter, xs⟩ :: rest =>
    let relative := letter.isLower
    match letter.toLower, xs, pen with
    | 'm', [x, y], pen =>
      draw? (some (.move ((pen.getD .start).place relative x y))) rest
    | _, _, none => none
    | lower, xs, some k =>
      match k.follow? lower relative xs with
      | none => none
      | some (k, path) => (draw? (some k) rest).map (path ++ ·)

/-- The path of data. -/
def read (data : String) : Except SceneFault Path :=
  match (commands? none data.toList).bind (draw? none) with
  | some path => .ok path
  | none => .error .pathData

end Slideshow.PathData

/-
  Slideshow.Picture.Trace

  Outlines from path data. In a picture a fault in the data is no reason to draw nothing: the
  outline goes as far as the commands before it. Behind a curve of another kind a smooth
  curve begins straight ahead.
-/
import Slideshow.Picture.Outline

namespace Slideshow.Picture

open PathData (Argument Command Pen arguments? takeArguments? length_of_takeArguments?)
open Text (isSpace skip length_skip_le)

/-! ## Commands -/

/-- One argument with the comma behind it. -/
def argument? : Argument → List Char → Option (Float × List Char)
  | .number, cs => listed? cs
  | .flag, cs =>
    match skip isSpace cs with
    | '0' :: rest => some (0, skip isSpace (skipFlagComma rest))
    | '1' :: rest => some (1, skip isSpace (skipFlagComma rest))
    | _ => none
where
  /-- A comma right behind a flag. -/
  skipFlagComma : List Char → List Char
    | ',' :: rest => rest
    | rest => rest

theorem length_skipFlagComma_le (cs : List Char) :
    (argument?.skipFlagComma cs).length ≤ cs.length := by
  unfold argument?.skipFlagComma
  split <;> simp

theorem shorter_of_argument? (a : Argument) (cs : List Char) (x : Float) (rest : List Char)
    (h : argument? a cs = some (x, rest)) : rest.length < cs.length := by
  cases a with
  | number => exact length_of_listed? h
  | flag =>
    have hskip := length_skip_le isSpace cs
    simp only [argument?] at h
    split at h
    · rename_i r heq
      cases h
      have := length_skip_le isSpace (argument?.skipFlagComma r)
      have := length_skipFlagComma_le r
      rw [heq, List.length_cons] at hskip
      omega
    · rename_i r heq
      cases h
      have := length_skip_le isSpace (argument?.skipFlagComma r)
      have := length_skipFlagComma_le r
      rw [heq, List.length_cons] at hskip
      omega
    · cases h

/-- Characters that a number can begin with where a command may stand. -/
def startsNumber (c : Char) : Bool :=
  c == '-' || c == '+' || c == '.' || c.isDigit

/-- The command that is understood behind another one when no letter is given. Behind a move
    the numbers of further lines may follow, behind a closing nothing. -/
def repeated? : Char → Option Char
  | 'm' => some 'l'
  | 'M' => some 'L'
  | 'z' => none
  | 'Z' => none
  | letter => some letter

/-- The commands of path data up to the first fault, behind a command with the letter
    `before`. The first command has to be a move. -/
def commands (before : Option Char) (cs : List Char) : List Command :=
  match hs : skip isSpace cs with
  | [] => []
  | c :: rest =>
    have hlen : rest.length < cs.length := by
      have := length_skip_le isSpace cs
      rw [hs, List.length_cons] at this
      exact this
    if c.isAlpha then
      if before.isNone && c.toLower != 'm' then []
      else
        match arguments? c.toLower with
        | none => []
        | some as =>
          match h : takeArguments? argument? as rest with
          | none => []
          | some (xs, after) =>
            have : after.length < cs.length := by
              have := length_of_takeArguments? shorter_of_argument? h
              omega
            ⟨c, xs⟩ :: commands (some c) after
    else if startsNumber c then
      match before.bind repeated? with
      | none => []
      | some letter =>
        match arguments? letter.toLower with
        | none => []
        | some [] => []
        | some (a :: as) =>
          match h : takeArguments? argument? (a :: as) (c :: rest) with
          | none => []
          | some (xs, after) =>
            have : after.length < cs.length := by
              have := length_of_takeArguments? shorter_of_argument? h
              simp only [List.length_cons] at this
              omega
            ⟨letter, xs⟩ :: commands before after
    else []
termination_by cs.length

/-! ## Drawing -/

/-- A curve that a smooth curve can continue, by the letter of its command. -/
def continues (letter before : Char) : Bool :=
  if letter == 's' then before == 'c' || before == 's'
  else if letter == 't' then before == 'q' || before == 't'
  else true

/-- A segment of a path as a step of an outline. -/
def Stroke.ofSegment : Segment → Stroke
  | .line l => .point (.ofPoint l.p₁)
  | .quad q => .quad (.ofPoint q.p₀) (.ofPoint q.p₁) (.ofPoint q.p₂)
  | .cubic c => .cubic (.ofPoint c.p₀) (.ofPoint c.p₁) (.ofPoint c.p₂) (.ofPoint c.p₃)

/-- The outline that commands draw with a pen, behind a command with the letter `before`. A
    move counts only if it is the last one, or something is drawn from there. -/
def trace (k : Pen) (before : Char) : List Command → Outline
  | [] => if before == 'm' then [.point (.ofPoint k.home)] else []
  | ⟨letter, xs⟩ :: rest =>
    let relative := letter.isLower
    let lower := letter.toLower
    match lower, xs with
    | 'm', [x, y] =>
      let moved := trace (.move (k.place relative x y)) 'm' rest
      if before == 'm' then moved else .point (.ofPoint k.home) :: moved
    | lower, xs =>
      let k := if continues lower before then k else { k with control := none }
      match k.follow? lower relative xs with
      | none => []
      | some (next, path) =>
        let drawn := path.map Stroke.ofSegment ++ trace next lower rest
        if before == 'm' then .point (.ofPoint k.home) :: drawn else drawn

/-- The outline of path data. A move alone draws nothing. -/
def Outline.ofPathData (data : String) : Outline :=
  match commands none data.toList with
  | ⟨letter, [x, y]⟩ :: rest =>
    if rest.all fun c => c.letter.toLower == 'm' then []
    else trace (.move (Pen.start.place letter.isLower x y)) 'm' rest
  | _ => []

end Slideshow.Picture

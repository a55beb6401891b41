/-
  Slideshow.Text.Pieces

  Taking a text apart: at separators, at a fixed ending, and into lower-case words.
  `pieces` keeps empty pieces, so `n` separators give `n + 1` pieces; `words` drops them.
-/
import Slideshow.Text.Blank

namespace Slideshow.Text

/-! ## Separators -/

/-- The pieces between separators; a text without separators is one piece. -/
def pieces (isSeparator : Char → Bool) : List Char → List (List Char)
  | [] => [[]]
  | c :: cs =>
    if isSeparator c then [] :: pieces isSeparator cs
    else
      match pieces isSeparator cs with
      | [] => [[c]]
      | p :: ps => (c :: p) :: ps

/-- There is always a first piece. -/
theorem pieces_ne_nil (isSeparator : Char → Bool) (cs : List Char) :
    pieces isSeparator cs ≠ [] := by
  cases cs with
  | nil => simp [pieces]
  | cons c cs =>
    unfold pieces
    split
    · simp
    · split <;> simp

/-- The pieces that hold something. -/
def words (isSeparator : Char → Bool) (cs : List Char) : List (List Char) :=
  (pieces isSeparator cs).filter fun w => !w.isEmpty

/-! ## Endings and parts -/

/-- What stands before `ending`, when the text ends in it. -/
def beforeEnding? (ending cs : List Char) : Option (List Char) :=
  if ending.isSuffixOf cs then some (cs.take (cs.length - ending.length)) else none

/-- The string before `ending`, when the string ends in it. -/
def stripEnding? (ending s : String) : Option String :=
  (beforeEnding? ending.toList s.toList).map String.ofList

/-- The text without any number of endings. -/
def stripAll (ending cs : List Char) : List Char :=
  match beforeEnding? ending cs with
  | none => cs
  | some before => if before.length < cs.length then stripAll ending before else cs
termination_by cs.length

/-- `part` stands somewhere in the text. -/
def hasPart (part : List Char) : List Char → Bool
  | [] => part.isEmpty
  | c :: cs => part.isPrefixOf (c :: cs) || hasPart part cs

/-- The text before the first occurrence of `stop`, and the text after it. -/
def splitAt? (stop : List Char) : List Char → Option (List Char × List Char)
  | [] => if stop.isEmpty then some ([], []) else none
  | c :: cs =>
    if stop.isPrefixOf (c :: cs) then some ([], (c :: cs).drop stop.length)
    else (splitAt? stop cs).map fun p => (c :: p.1, p.2)

/-- What follows the first occurrence is no longer than the text. -/
theorem length_of_splitAt? {stop cs before after : List Char}
    (h : splitAt? stop cs = some (before, after)) : after.length ≤ cs.length := by
  induction cs generalizing before with
  | nil =>
    unfold splitAt? at h
    split at h <;> simp_all
  | cons c cs ih =>
    unfold splitAt? at h
    split at h
    · simp only [Option.some.injEq, Prod.mk.injEq] at h
      rw [← h.2, List.length_drop]
      omega
    · obtain ⟨p, hp, hq⟩ := Option.map_eq_some_iff.1 h
      simp only [Prod.mk.injEq] at hq
      have := @ih p.1 (by rw [hp, ← hq.2])
      simp only [List.length_cons]
      omega

end Slideshow.Text

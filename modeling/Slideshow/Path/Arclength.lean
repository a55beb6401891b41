/-
  Slideshow.Path.Arclength

  Places on a path given by how far along the path they are. On a curve the parameter of a
  place is found by bracketing: the bracket is cut by interpolation, kept close enough to the
  middle that its width shrinks at least as fast as by halving.
-/
import Slideshow.Path.Segment

namespace Slideshow

/-! ## Finding a zero -/

/-- A bracket of a zero: a function is negative at `a` and positive at `b`. -/
structure Bracket where
  a : Float
  b : Float
  ya : Float
  yb : Float

namespace Bracket

/-- The magnitude of `x` with the sign of `y`. -/
def withSign (x y : Float) : Float :=
  if y.toBits.toNat < Nat.pow 2 63 then x.abs else -x.abs

/-- Where the bracket is cut, given how much wider than needed it may stay. -/
def cut (k : Bracket) (slack : Float) : Float :=
  let middle := 0.5 * (k.a + k.b)
  let width := k.b - k.a
  let r := slack - 0.5 * width
  let crossing := (k.yb * k.a - k.ya * k.b) / (k.yb - k.ya)
  let sigma := middle - crossing
  let delta := 0.2 * (width * width)
  let x := if delta ≤ sigma.abs then crossing + withSign delta sigma else middle
  if (x - middle).abs ≤ r then x else middle - withSign r sigma

end Bracket

/-! ## Along a curve -/

/-- What is known of a search along a curve: how far along the curve the last parameter is. -/
structure Reached where
  t : Float
  length : Float

/-- How far along a segment a parameter is, measured from what is known. -/
def Segment.reach (s : Segment) (accuracy : Float) (known : Reached) (t : Float) : Reached :=
  if known.t < t then ⟨t, known.length + s.partLength accuracy known.t t⟩
  else ⟨t, known.length - s.partLength accuracy t known.t⟩

/-- Narrows a bracket of the parameter at `goal` until it is narrow enough; at most `fuel`
    times. -/
def Segment.narrow (s : Segment) (accuracy goal tolerance : Float) :
    Nat → Bracket → Float → Reached → Float
  | 0, k, _, _ => 0.5 * (k.a + k.b)
  | fuel + 1, k, slack, known =>
    if 2 * tolerance < k.b - k.a then
      let t := k.cut slack
      let known := s.reach accuracy known t
      let y := known.length - goal
      if 0 < y then
        s.narrow accuracy goal tolerance fuel { k with b := t, yb := y } (slack * 0.5) known
      else if y < 0 then
        s.narrow accuracy goal tolerance fuel { k with a := t, ya := y } (slack * 0.5) known
      else t
    else 0.5 * (k.a + k.b)

/-- A count of halvings: a float rounded up, and zero for what is not positive. -/
def halvings (x : Float) : Nat :=
  x.ceil.toUInt64.toNat

/-- The parameter at a given length along a curve. -/
def Segment.searchParameter (s : Segment) (goal accuracy : Float) : Float :=
  if goal ≤ 0 then 0
  else
    let total := s.length accuracy
    if total ≤ goal then 1
    else
      let tolerance := accuracy / total
      let count := 1 - Scalar.earlier tolerance.log2.ceil 0
      let steps := 1 + halvings ((1 / tolerance).log2.ceil - 1)
      let slack := tolerance * Float.ofNat (Nat.pow 2 steps)
      s.narrow (accuracy / count) goal tolerance (steps + 64) ⟨0, 1, -goal, total - goal⟩ slack
        ⟨0, 0⟩

/-- The parameter at a given length along a segment. -/
def Segment.parameterAt (s : Segment) (goal accuracy : Float) : Float :=
  match s with
  | .line l => goal / l.length
  | s => s.searchParameter goal accuracy

/-! ## Along a path -/

/-- A path: its pieces in the order of travel. -/
abbrev Path : Type := List Segment

namespace Path

/-- How exactly lengths are known. -/
def accuracy : Float := 1e-3

/-- The length of a path. -/
def length (p : Path) : Float :=
  p.foldl (fun sum s => sum + s.length accuracy) 0

/-- The place a given length along the path, of which `last` is the piece before. -/
def walk (last : Segment) (remaining : Float) : Path → Point
  | [] => last.eval 1
  | s :: rest =>
    let len := s.length accuracy
    if remaining ≤ len then s.eval (if 0 < len then s.parameterAt remaining accuracy else 0)
    else walk s (remaining - len) rest

/-- The place a fraction of the way along the path. A path without pieces has none. -/
def pointAt? (p : Path) (fraction : Float) : Option Point :=
  match p with
  | [] => none
  | first :: rest =>
    let total := length (first :: rest)
    if total ≤ 0 then some (first.eval 0)
    else some (walk first (Scalar.clampUnit fraction * total) (first :: rest))

end Path

end Slideshow

/-
  Slideshow.Proofs.Timeline.Changes

  What playback does to a diagram, as lists of single changes: those of a tween, of all
  tweens on a clock, and of a player.
-/
import Slideshow.Proofs.Scene.Change
import Slideshow.Timeline.Player

namespace Slideshow

variable {S : Type} [Stage S]

/-! ## Tweens -/

namespace Tween

/-- The value that an attribute gets from a track. -/
def attributeValue? (t : Tween Float) (progress : Float) (complete : Bool) (goal : String)
    (blend : Blend) : Option String :=
  if complete && 1 ≤ progress then some goal else blend.sample (t.ease.apply progress)

/-- The change that a track makes, if it makes one. -/
def trackChange? (t : Tween Float) (progress : Float) (complete : Bool) :
    Track × TrackState → Option Change
  | (.attribute name _ goal, .attribute blend) =>
    t.target.key?.bind fun key =>
      (t.attributeValue? progress complete goal blend).map fun v => .attribute key name (some v)
  | (.text value, _) =>
    t.target.key?.bind fun key => if complete then some (.text key value) else none
  | (.viewport goal, .viewport start) =>
    some (.camera
      (if complete && 1 ≤ progress then goal else Rect.lerp start goal (t.ease.apply progress)))
  | (.motion _ path start stop, _) =>
    t.target.key?.bind fun key =>
      (path.pointAt? (start + (stop - start) * t.ease.apply progress)).map fun p =>
        .attribute key "transform" (some p.shift)
  | _ => none

/-- The changes of all tracks. -/
def writeChanges (t : Tween Float) (states : List TrackState) (progress : Float)
    (complete : Bool) : List Change :=
  (t.tracks.zip states).filterMap (t.trackChange? progress complete)

/-- The changes that give attributes their former values. -/
def settleChanges (t : Tween Float) (saved : List (String × Option String)) : List Change :=
  match t.target.key? with
  | none => []
  | some key => if t.restore then saved.map fun e => .attribute key e.1 e.2 else []

theorem writeTrack_eq (t : Tween Float) (progress : Float) (complete : Bool) (s : S)
    (x : Track × TrackState) :
    t.writeTrack progress complete s x =
      Stage.makeAll s (t.trackChange? progress complete x).toList := by
  match x with
  | (.attribute name _ goal, .attribute blend) =>
    simp only [writeTrack, trackChange?]
    cases t.target.key? with
    | none => rfl
    | some key =>
      rw [Option.bind_some, attributeValue?]
      generalize (if (complete && decide (1 ≤ progress)) = true then some goal
        else blend.sample (t.ease.apply progress)) = value?
      cases value? <;> rfl
  | (.attribute .., .viewport _) => rfl
  | (.attribute .., .idle) => rfl
  | (.text value, state) =>
    simp only [writeTrack, trackChange?]
    cases t.target.key? with
    | none => rfl
    | some key => cases complete <;> rfl
  | (.viewport goal, .viewport start) => rfl
  | (.viewport _, .attribute _) => rfl
  | (.viewport _, .idle) => rfl
  | (.motion _ path start stop, state) =>
    simp only [writeTrack, trackChange?]
    cases t.target.key? with
    | none => rfl
    | some key =>
      rw [Option.bind_some]
      cases path.pointAt? (start + (stop - start) * t.ease.apply progress) <;> rfl

theorem write_eq (t : Tween Float) (states : List TrackState) (progress : Float) (complete : Bool)
    (s : S) : t.write states progress complete s =
      Stage.makeAll s (t.writeChanges states progress complete) := by
  rw [write, writeChanges]
  generalize t.tracks.zip states = xs
  induction xs generalizing s with
  | nil => rfl
  | cons x xs ih =>
    rw [List.foldl_cons, ih, writeTrack_eq, List.filterMap_cons]
    cases t.trackChange? progress complete x <;> rfl

theorem settle_eq (t : Tween Float) (saved : List (String × Option String)) (s : S) :
    t.settle saved s = Stage.makeAll s (t.settleChanges saved) := by
  unfold settle settleChanges
  cases t.target.key? with
  | none => rfl
  | some key =>
    cases t.restore with
    | false => rfl
    | true =>
      simp only [if_true]
      induction saved generalizing s with
      | nil => rfl
      | cons e saved ih =>
        rw [List.foldl_cons, ih, List.map_cons, Stage.makeAll_cons]
        obtain ⟨name, value⟩ := e
        cases value <;> rfl

end Tween

/-! ## The clock -/

namespace Entry

/-- The changes that a tween makes when it runs up to a time. -/
def changes (e : Entry) (now : Float) (s : S) : List Change :=
  if e.isDone || now < e.tween.start then []
  else
    match e.begun s with
    | .active tracks saved =>
      let time := now - e.tween.start
      let complete : Bool := e.tween.total ≤ time
      e.tween.writeChanges tracks (e.tween.progress time) complete ++
        if complete then e.tween.settleChanges saved else []
    | _ => []

/-- The changes that tweens make one after another. -/
def allChanges (now : Float) : List Entry → S → List Change
  | [], _ => []
  | e :: es, s => e.changes now s ++ allChanges now es (e.run now s).2

theorem run_eq (e : Entry) (now : Float) (s : S) :
    (e.run now s).2 = Stage.makeAll s (e.changes now s) := by
  unfold run changes
  split
  · rfl
  · cases e.begun s with
    | active tracks saved =>
      simp only
      split
      · rw [Stage.makeAll_append, ← Tween.write_eq]
        exact e.tween.settle_eq saved _
      · rw [List.append_nil]
        exact e.tween.write_eq _ _ _ s
    | pending => rfl
    | done => rfl

theorem runAll_eq (now : Float) (es : List Entry) (s : S) :
    (runAll now es s).2 = Stage.makeAll s (allChanges now es s) := by
  induction es generalizing s with
  | nil => rfl
  | cons e es ih =>
    rw [runAll, allChanges, Stage.makeAll_append, ← run_eq]
    exact ih _

end Entry

/-- The changes that are made while time passes. -/
def Clock.changes (c : Clock) (dt : Float) (s : S) : List Change :=
  if 0 ≤ dt then Entry.allChanges (c.elapsed + dt * c.scale) c.entries s else []

theorem Clock.advance_eq (c : Clock) (dt : Float) (s : S) :
    (c.advance dt s).2 = Stage.makeAll s (c.changes dt s) := by
  unfold advance changes
  split
  · exact Entry.runAll_eq _ _ s
  · rfl

/-! ## The player -/

namespace Player

variable {κ : Type}

/-- The changes that a running animation makes in some time. -/
def advanceChanges (p : Player κ) (dt : Float) (s : S) : List Change :=
  if p.isPlaying then p.clock.changes dt s else []

theorem advance_eq (p : Player κ) (dt : Float) (s : S) :
    (p.advance dt s).2.1 = Stage.makeAll s (p.advanceChanges dt s) := by
  unfold advance advanceChanges
  split
  · rw [← Clock.advance_eq]
    simp only
    split <;> rfl
  · rfl

end Player

end Slideshow

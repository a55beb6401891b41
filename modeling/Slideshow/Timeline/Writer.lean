/-
  Slideshow.Timeline.Writer

  Tweens as JSON values.
-/
import Slideshow.Json.Record
import Slideshow.Timeline.Tween

namespace Slideshow

/-- The corners of a rectangle. -/
def Rect.toJson (r : Rect) : Json :=
  .obj [("x0", .ofFloat r.x0), ("y0", .ofFloat r.y0), ("x1", .ofFloat r.x1),
    ("y1", .ofFloat r.y1)]

/-- What a tween changes. -/
def Target.toJson : Target → Json
  | element key => .obj [("kind", .str "element"), ("id", .str key)]
  | viewport => .obj [("kind", .str "viewport")]
  | gap => .obj [("kind", .str "gap")]

/-- A track; of a motion, the reference stands for the path. -/
def Track.toJson : Track → Json
  | .attribute name start goal =>
    .record [("kind", some (.str "attribute")), ("name", some (.str name)),
      ("from", start.map .str), ("to", some (.str goal))]
  | .text value => .obj [("kind", .str "text"), ("value", .str value)]
  | .viewport goal => .obj [("kind", .str "viewport"), ("to", goal.toJson)]
  | .motion reference _ start stop =>
    .obj [("kind", .str "motion"), ("path_ref", .str reference), ("start", .ofFloat start),
      ("end", .ofFloat stop)]

/-- A tween. -/
def Tween.toJson (t : Tween Float) : Json :=
  .obj [("target", t.target.toJson), ("tracks", .arr (t.tracks.map Track.toJson)),
    ("start", .ofFloat t.start), ("duration", .ofFloat t.duration), ("ease", t.ease.toJson),
    ("repeat", .ofNat t.repetitions), ("yoyo", .bool t.yoyo), ("restore", .bool t.restore)]

end Slideshow

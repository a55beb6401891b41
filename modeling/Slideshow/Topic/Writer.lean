/-
  Slideshow.Topic.Writer

  Topics as JSON values. What is empty or left out is not written; a directive begins with
  the name of its kind.
-/
import Slideshow.Topic.Basic

namespace Slideshow

/-! ## Geometry -/

/-- The four numbers of a frame. -/
def Frame.toJson (f : Frame) : Json :=
  .arr [.ofFloat f.x, .ofFloat f.y, .ofFloat f.width, .ofFloat f.height]

/-- The two numbers of a point. -/
def Point.toJson (p : Point) : Json :=
  .arr [.ofFloat p.x, .ofFloat p.y]

/-! ## Directives -/

namespace Directive

mutual

/-- A directive as JSON. -/
def toJson : Directive Float → Json
  | camera frame duration ease =>
    .record
      [("type", some (.str Kind.camera.name)), ("to", some frame.toJson),
        ("duration", duration.map .ofFloat), ("ease", ease.map Ease.toJson)]
  | packet label start paths =>
    .record
      [("type", some (.str Kind.packet.name)), ("text", label.map .str),
        ("from", start.map Point.toJson),
        ("paths", some (.arr (paths.map PathSpec.toJson)))]
  | setValue target value =>
    .obj [("type", .str Kind.setValue.name), ("target", .str target), ("value", .str value)]
  | pulse target duration repetitions =>
    .record
      [("type", some (.str Kind.pulse.name)), ("target", some (.str target)),
        ("duration", duration.map .ofFloat), ("repeat", repetitions.map .ofNat)]
  | wait duration =>
    .record
      [("type", some (.str Kind.wait.name)), ("duration", duration.map .ofFloat)]
  | attributes target values duration ease =>
    .record
      [("type", some (.str Kind.attributes.name)), ("target", some (.str target)),
        ("attributes", some (.ofDict .str values)), ("duration", duration.map .ofFloat),
        ("ease", ease.map Ease.toJson)]
  | parallel ds => .obj [("type", .str Kind.parallel.name), ("animations", .arr (listToJson ds))]

/-- Directives as JSON, in order. -/
def listToJson : List (Directive Float) → List Json
  | [] => []
  | d :: ds => d.toJson :: listToJson ds

end

end Directive

/-! ## Steps, slides, topics -/

/-- A mapping of components, unless it is empty. -/
def componentsToJson? (d : Dict ComponentValue) : Option Json :=
  if d.isEmpty then none else some (.ofDict ComponentValue.toJson d)

/-- A step as JSON. -/
def Step.toJson (s : Step) : Json :=
  .record
    [("id", some (.str s.id)), ("ui", some s.caption.toJson),
      ("animations",
        if s.animations.isEmpty then none else some (.arr (s.animations.map Directive.toJson))),
      ("finalState", componentsToJson? s.finalState)]

/-- A slide as JSON. -/
def Slide.toJson (s : Slide) : Json :=
  .record
    [("id", some (.str s.id)), ("title", some (.str s.title)),
      ("diagram", some (.str s.diagram)), ("components", componentsToJson? s.components),
      ("steps", some (.arr (s.steps.map Step.toJson)))]

/-- A topic as JSON. -/
def Topic.toJson (t : Topic) : Json :=
  .obj [("id", .str t.id), ("title", .str t.title),
    ("slides", .arr (t.slides.map Slide.toJson))]

end Slideshow

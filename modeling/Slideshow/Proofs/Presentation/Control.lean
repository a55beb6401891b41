/-
  Slideshow.Proofs.Presentation.Control

  The control side of a presentation: where it stands, whether it waits for a diagram or
  plays, and which events it emits. What each part of an operation does to it is said once
  here; the diagrams themselves are left aside.
-/
import Slideshow.Proofs.Presentation.Operation
import Slideshow.Proofs.Timeline.Playback

namespace Slideshow

namespace Presentation

variable {p : Presentation}

/-! ## What showing leaves alone -/

@[simp] theorem emit_store (e : Event) : (p.emit e).store = p.store := rfl
@[simp] theorem emit_events (e : Event) : (p.emit e).events = p.events ++ [e] := rfl

/-- Two presentations that differ at most in what is shown: diagram, player and events. -/
structure SameStand (p q : Presentation) : Prop where
  topic : q.topic = p.topic
  steps : q.navigation.steps = p.navigation.steps
  position : q.position = p.position
  loaded : q.loaded = p.loaded
  phase : q.phase = p.phase
  stored : q.store.isSome = p.store.isSome
  settings : q.player.settings = p.player.settings

theorem SameStand.refl (p : Presentation) : SameStand p p := ⟨rfl, rfl, rfl, rfl, rfl, rfl, rfl⟩

theorem SameStand.trans {p q r : Presentation} (h : SameStand p q) (h' : SameStand q r) :
    SameStand p r :=
  ⟨h'.topic.trans h.topic, h'.steps.trans h.steps, h'.position.trans h.position,
    h'.loaded.trans h.loaded, h'.phase.trans h.phase, h'.stored.trans h.stored,
    h'.settings.trans h.settings⟩

theorem SameStand.diagramOf? {q : Presentation} (h : SameStand p q) (slide : Nat) :
    q.diagramOf? slide = p.diagramOf? slide := by
  simp only [Presentation.diagramOf?, h.topic]

theorem SameStand.hasDiagram {q : Presentation} (h : SameStand p q) :
    q.hasDiagram = p.hasDiagram := by
  simp only [Presentation.hasDiagram, h.stored, h.loaded, h.diagramOf?, h.position]

theorem emit_sameStand (p : Presentation) (e : Event) : SameStand p (p.emit e) :=
  ⟨rfl, rfl, rfl, rfl, rfl, rfl, rfl⟩

theorem tell_sameStand (p : Presentation) (completed : Option Position) :
    SameStand p (p.tell completed) := by
  cases completed with
  | none => exact .refl p
  | some q => exact emit_sameStand p _

@[simp] theorem tell_player (completed : Option Position) :
    (p.tell completed).player = p.player := by
  cases completed <;> rfl

@[simp] theorem tell_store (completed : Option Position) :
    (p.tell completed).store = p.store := by
  cases completed <;> rfl

theorem tell_events (completed : Option Position) :
    (p.tell completed).events = p.events ++ (completed.map Event.animationCompleted).toList := by
  cases completed with
  | none => exact (List.append_nil _).symm
  | some q => rfl

/-- Nothing but a completion is told of a playback. -/
theorem eq_of_mem_completion {completed : Option Position} {e : Event}
    (h : e ∈ (completed.map Event.animationCompleted).toList) :
    ∃ position, completed = some position ∧ e = .animationCompleted position := by
  cases completed with
  | none => cases h
  | some position => exact ⟨position, rfl, List.mem_singleton.1 h⟩

@[simp] theorem settle_player : p.settle.player = p.player := by
  unfold settle
  split
  · split <;> rfl
  · rfl

@[simp] theorem settle_events : p.settle.events = p.events := by
  unfold settle
  split
  · split <;> rfl
  · rfl

theorem settle_sameStand (p : Presentation) : SameStand p p.settle := by
  unfold settle
  split
  · split
    · rename_i hstore _
      exact ⟨rfl, rfl, rfl, rfl, rfl, by simp [hstore], rfl⟩
    · exact .refl p
  · exact .refl p

/-! ## Going on -/

/-- What a player leaves behind takes its place; once the animation is complete, that is said
    and the step settles. -/
def continued (p : Presentation) (left : Player Position × Store × Option Position) :
    Presentation :=
  ({ p with player := left.1, store := some left.2.1 }.tell left.2.2).settle

theorem animate_eq (p : Presentation) (slide : Slide) (step : Step) (store : Store) :
    p.animate slide step store =
      p.continued (p.player.play step.animations p.position
        (prepare p.player.settings slide step p.position.step store)) := rfl

theorem tick_eq {store : Store} (hstore : p.store = some store) (hphase : p.phase = .ready)
    (hplay : p.isPlaying = true) (dt : Float) :
    p.tick dt = p.continued (p.player.advance dt store) := by
  simp only [tick, hstore]
  rw [if_pos ⟨hphase, hplay⟩]
  rfl

section Continued

variable (left : Player Position × Store × Option Position)

@[simp] theorem continued_player : (p.continued left).player = left.1 := by
  simp only [continued, settle_player, tell_player]

theorem continued_events : (p.continued left).events =
    p.events ++ (left.2.2.map Event.animationCompleted).toList := by
  simp only [continued, settle_events, tell_events]

theorem continued_sameStand (hstore : p.store.isSome = true)
    (hsettings : left.1.settings = p.player.settings) : SameStand p (p.continued left) := by
  refine SameStand.trans ?_ (settle_sameStand _)
  refine SameStand.trans ?_ (tell_sameStand _ _)
  exact ⟨rfl, rfl, rfl, rfl, rfl, hstore.symm, hsettings⟩

end Continued

/-! ## Handing over a diagram -/

/-- The presentation with the diagram of a slide, which is not shown yet. -/
def delivered (p : Presentation) (slide : Nat) (scene : Scene) : Presentation :=
  let store :=
    match p.store with
    | some store => store.replace scene
    | none => Store.capture p.player.settings.dynamic scene
  { p with store := some store, loaded := p.diagramOf? slide, phase := .ready }.emit
    (.diagramLoaded slide)

theorem attach_eq {slide : Nat} {animated : Bool} (h : p.phase = .loading slide animated)
    (scene : Scene) :
    p.attach slide scene = (true, ((p.delivered slide scene).showStep animated).2) := by
  cases hstore : p.store <;> simp only [attach, h, hstore, if_true, delivered]

/-- A diagram that is not awaited is dropped. -/
theorem attach_of_not_awaited {slide : Nat} (h : p.awaited? ≠ some slide) (scene : Scene) :
    p.attach slide scene = (false, p) := by
  unfold awaited? at h
  unfold attach
  split
  · rename_i awaited animated hphase
    simp only [hphase, ne_eq, Option.some.injEq] at h
    rw [if_neg h]
  · rfl

theorem awaited?_eq_some_iff {slide : Nat} :
    p.awaited? = some slide ↔ ∃ animated, p.phase = .loading slide animated := by
  unfold awaited?
  cases p.phase <;> simp [eq_comm]

end Presentation

end Slideshow

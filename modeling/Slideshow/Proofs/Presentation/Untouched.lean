/-
  Slideshow.Proofs.Presentation.Untouched

  What an animation leaves alone while it runs. Since the last reset of the diagram only the
  state before the step was prepared, the tokens were hidden, and the tweens of the plan wrote
  to cells that they drive. Everything else looks as in that state on the same diagram freshly
  captured, so nothing of what the step leaves behind shows before its animation is complete
  (`playing_untouched`).
-/
import Slideshow.Proofs.Presentation.Settling

namespace Slideshow

namespace Store

/-- Plain actions make plain changes. -/
theorem Action.plain_since {d : Scene} {actions : List Action}
    (hplain : ∀ action ∈ actions, action.Plain d) {before : List Change}
    (hbefore : ∀ ch ∈ before, ch.Plain d) : ∀ ch ∈ since before actions, ch.Plain d := by
  induction actions generalizing before with
  | nil => exact hbefore
  | cons action actions ih =>
    have hrest : ∀ action' ∈ actions, action'.Plain d := fun action' hmem =>
      hplain action' (List.mem_cons_of_mem _ hmem)
    cases action with
    | reset => exact ih hrest fun ch hch => by cases hch
    | change ch =>
      refine ih hrest fun ch' hch' => ?_
      rcases List.mem_append.1 hch' with hch' | hch'
      · exact hbefore ch' hch'
      · cases List.mem_singleton.1 hch'
        exact hplain (.change ch) List.mem_cons_self

/-- Two stores of one diagram agree on a slot if they agree on its cell. -/
theorem slotValue?_congr {d : Scene} {s t : Store} (hs : s.scene.skeleton = d.skeleton)
    (ht : t.scene.skeleton = d.skeleton) {slot : Slot} (hslot : slot.Plain d)
    (hcells : ∀ c, slot.cell? d = some c → s.scene.cell? c = t.scene.cell? c) :
    s.slotValue? slot = t.slotValue? slot := by
  cases hc : slot.cell? d with
  | none => rw [slotValue?_of_cell?_none hs hc, slotValue?_of_cell?_none ht hc]
  | some c =>
    rw [slotValue?_eq_cell? hs hslot hc, slotValue?_eq_cell? ht hslot hc, hcells c hc]

end Store

namespace Presentation

variable {p q : Presentation} {topic : Topic} {settings : Settings} {d? : Option Scene}
  {d : Scene} {before : List Change}

/-! ## Plain changes along runs -/

/-- All that was made of the diagram handed over last is plain. -/
def MadePlain (d? : Option Scene) (made : List Change) : Prop :=
  ∀ d, d? = some d → ∀ ch ∈ made, ch.Plain d

theorem MadePlain.run (h : MadePlain d? before) {o : Operation} (ho : o.Tidy p d?) :
    MadePlain ((o.handed? p).or d?) (o.made p before) := by
  intro d hd
  refine Store.Action.plain_since (ho.2 d hd) fun ch hch => ?_
  -- nothing was made yet of a diagram that is handed over
  cases hhanded : o.handed? p with
  | none =>
    rw [hhanded] at hch hd
    exact h d hd ch hch
  | some scene =>
    rw [hhanded] at hch
    cases hch

theorem MadePlain.runAll (h : MadePlain d? before) {os : List Operation} (hos : p.Tidy d? os) :
    MadePlain (p.attached d? os) (p.made before os) := by
  induction os generalizing p d? before with
  | nil => exact h
  | cons o os ih => exact ih (h.run hos.1) hos.2

/-! ## The diagram while a step is animated -/

/-- No tween of the plan drives the cell, and it does not hold the opacity of a token. -/
def Untouched (tokens : List TokenSlot) (plan : List (Tween Float)) (d : Scene) (c : Cell) :
    Prop :=
  (∀ t ∈ plan, ¬ t.Drives d c) ∧
    ∀ t ∈ tokens, (Slot.attribute t.group "opacity").cell? d ≠ some c

instance (tokens : List TokenSlot) (plan : List (Tween Float)) (d : Scene) (c : Cell) :
    Decidable (Untouched tokens plan d c) :=
  inferInstanceAs (Decidable (_ ∧ _))

theorem Keeps.exists_store_of_isPlaying (h : Keeps topic settings d? q)
    (hplay : q.isPlaying = true) : ∃ store, q.store = some store :=
  Option.isSome_iff_exists.1 (isSome_store_of_hasDiagram
    (h.consistent.present (h.consistent.ready_of_isPlaying hplay)))

section Animated

variable {slide : Slide} {step : Step} (h : Animated settings before q slide step)
include h

/-- All that was made of the diagram begins with the state before the step. -/
theorem Animated.mem_made {ch : Change}
    (hch : ch ∈ preparing settings slide step q.position.step) : ch ∈ before := by
  obtain ⟨played, _, hmade⟩ := h.made
  rw [hmade, beginning, List.append_assoc, List.append_assoc]
  exact List.mem_append_left _ hch

variable (hplay : q.isPlaying = true)
include hplay

/-- An untouched cell has the value that the state before the step gives it. -/
theorem Animated.after?_untouched {c : Cell}
    (hc : Untouched settings.tokens q.player.plan d c) :
    Change.after? d before c =
      Change.after? d (preparing settings slide step q.position.step) c := by
  obtain ⟨played, hdriven, hmade⟩ := h.made
  rw [hplay, if_pos rfl, List.append_nil] at hmade
  have hhiding : Change.last? d c (TokenSlot.hiding settings.tokens) = none := by
    refine Change.last?_eq_none_iff.2 fun ch hch => ?_
    obtain ⟨t, ht, rfl⟩ := List.mem_map.1 hch
    exact hc.2 t ht
  have hplayed : Change.last? d c played = none := by
    refine Change.last?_eq_none_iff.2 fun ch hch hcell => ?_
    obtain ⟨t, ht, hdrives⟩ := hdriven ch hch d c hcell
    exact hc.1 t ht hdrives
  rw [hmade, beginning, Change.after?_append, hplayed, Option.getD_none, Change.after?_append,
    hhiding, Option.getD_none]

/-- What is shown agrees in untouched cells with the state before the step on the same diagram
    freshly captured. -/
theorem Animated.cell?_untouched (hkeeps : Keeps topic settings (some d) q)
    (hdepicts : Depicts (some d) before q) (hplain : MadePlain (some d) before) {store : Store}
    (hstore : q.store = some store) :
    let fresh := prepare settings slide step q.position.step (Store.capture settings.dynamic d)
    store.scene.skeleton = d.skeleton ∧ fresh.scene.skeleton = d.skeleton ∧
      ∀ c, Untouched settings.tokens q.player.plan d c →
        store.scene.cell? c = fresh.scene.cell? c := by
  intro fresh
  obtain ⟨hrule, d', hd, hfaithful⟩ := hkeeps.kept store hstore
  cases hd
  have hpreparing : ∀ ch ∈ preparing settings slide step q.position.step, ch.Plain d :=
    fun ch hch => hplain d rfl ch (h.mem_made hch)
  obtain ⟨hskel, hfresh⟩ := cell?_prepare (hrule ▸ hfaithful.capture) hpreparing
  refine ⟨hfaithful.skeleton, hskel, fun c hc => ?_⟩
  have hshows : store.scene.cell? c = Change.after? d before c := by
    refine hdepicts store d hstore rfl c fun hcamera => ?_
    -- the camera was moved when the state before the step was prepared
    subst hcamera
    exact Change.isSome_last?_of_mem
      (h.mem_made (mem_preparing_camera settings slide step q.position.step)) rfl
  rw [hshows, h.after?_untouched hplay hc, hfresh]
  rfl

end Animated

/-- In every state of a run in which a step is playing, everything that no tween of the
    current plan drives, and that is not the opacity of a token, is exactly as in the state
    before the step on the same diagram freshly captured. -/
theorem playing_untouched {start : Presentation} (hstart : new topic settings = .ok start)
    (os : List Operation) (htidy : start.Tidy none os)
    (hplay : (start.runAll os).isPlaying = true) :
    let q := start.runAll os
    ∃ d slide step store, start.attached none os = some d ∧
      topic.slide? q.position.slide = some slide ∧ slide.steps[q.position.step]? = some step ∧
      q.store = some store ∧
      let fresh := prepare settings slide step q.position.step
        (Store.capture settings.dynamic d)
      store.scene.skeleton = fresh.scene.skeleton ∧
      (∀ c, Untouched settings.tokens q.player.plan d c →
        store.scene.cell? c = fresh.scene.cell? c) ∧
      ∀ slot : Slot, slot.Plain d →
        (∀ c, slot.cell? d = some c → Untouched settings.tokens q.player.plan d c) →
        store.slotValue? slot = fresh.slotValue? slot := by
  intro q
  have hnew := keeps_new hstart
  have hkeeps := hnew.runAll htidy
  have hdepicts := (depicts_none start).runAll hnew htidy
  have hplain : MadePlain (start.attached none os) (start.made [] os) :=
    MadePlain.runAll (fun _ hd => by cases hd) htidy
  have hplays := (plays_new hstart).runAll hnew.consistent hnew.sameSettings os
  obtain ⟨slide, step, hanimated⟩ := hplays.animated hplay
  obtain ⟨store, hstore⟩ := hkeeps.exists_store_of_isPlaying hplay
  obtain ⟨_, d, hd, _⟩ := hkeeps.kept store hstore
  rw [hd] at hkeeps hdepicts hplain
  obtain ⟨hskel, hfresh, hcells⟩ :=
    hanimated.cell?_untouched hplay hkeeps hdepicts hplain hstore
  have hslide : topic.slide? q.position.slide = some slide := by
    rw [← hkeeps.sameTopic]
    exact hanimated.currentSlide
  exact ⟨d, slide, step, store, hd, hslide, hanimated.step_eq, hstore, hskel.trans hfresh.symm,
    hcells, fun slot hslot huntouched =>
      Store.slotValue?_congr hskel hfresh hslot fun c hc => hcells c (huntouched c hc)⟩

/-- A quarter of a second into the animation of the second step. -/
theorem playing_untouched_demo :
    ∃ start, new .demo .usual = .ok start ∧
      start.Tidy none [.attach 0 .demo, .intent .nextStep, .tick 0.25] ∧
      (start.runAll [.attach 0 .demo, .intent .nextStep, .tick 0.25]).isPlaying = true ∧
      let q := start.runAll [.attach 0 .demo, .intent .nextStep, .tick 0.25]
      ∃ d slide step store,
        start.attached none [.attach 0 .demo, .intent .nextStep, .tick 0.25] = some d ∧
        Topic.demo.slide? q.position.slide = some slide ∧
        slide.steps[q.position.step]? = some step ∧ q.store = some store ∧
        let fresh := prepare .usual slide step q.position.step
          (Store.capture Settings.usual.dynamic d)
        ∀ slot : Slot, slot.Plain d →
          (∀ c, slot.cell? d = some c → Untouched Settings.usual.tokens q.player.plan d c) →
          store.slotValue? slot = fresh.slotValue? slot := by
  have hrun : ∃ start, new .demo .usual = .ok start ∧
      start.Tidy none [.attach 0 .demo, .intent .nextStep, .tick 0.25] ∧
      (start.runAll [.attach 0 .demo, .intent .nextStep, .tick 0.25]).isPlaying = true :=
    ⟨_, rfl, by decide +kernel, by decide +kernel⟩
  obtain ⟨start, hstart, htidy, hplay⟩ := hrun
  obtain ⟨d, slide, step, store, hd, hslide, hstep, hstore, _, _, hslots⟩ :=
    playing_untouched hstart [.attach 0 .demo, .intent .nextStep, .tick 0.25] htidy hplay
  exact ⟨start, hstart, htidy, hplay, d, slide, step, store, hd, hslide, hstep, hstore, hslots⟩

end Presentation

end Slideshow

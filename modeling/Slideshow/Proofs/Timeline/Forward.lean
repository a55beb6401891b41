/-
  Slideshow.Proofs.Timeline.Forward

  Which settings keep time running forward. A script that is accepted states no negative
  length of time, so its directives follow one another in time as they do in the script,
  unless a usual length is negative that one of them falls back to (`laid_forward`). The
  check of settings does not look at these lengths: it lets one pass with which the wait after
  another wait begins before the animation does (`negative_wait_leads_back`). Time runs forward
  for all scripts exactly with those settings in which no usual length but that of a pulse is
  negative (`forward_iff_advancing`).
-/
import Slideshow.Proofs.Timeline.Driving
import Slideshow.Proofs.Timeline.Tokens
import Slideshow.Proofs.Timeline.Steps
import Slideshow.Proofs.Topic.Soundness

namespace Slideshow

/-- A well-formed directive states no negative length of time. -/
theorem Directive.WellFormed.lasting {d : Directive Float} (h : d.WellFormed) : d.Lasting := by
  induction h with
  | camera hduration => exact .camera fun x hx => (hduration x hx).2
  | packet _ hpaths => exact .packet fun w hw x hx => ((hpaths w hw).duration x hx).2
  | setValue => exact .setValue
  | pulse _ hduration => exact .pulse fun x hx => (hduration x hx).2
  | wait hduration => exact .wait fun x hx => (hduration x hx).2
  | attributes _ _ hduration => exact .attributes fun x hx => (hduration x hx).2
  | parallel _ ih => exact .parallel ih

/-! ## The beginnings of directives -/

namespace Planner

variable {τ S : Type} [Scalar τ] [Stage S] {p : Planner τ S}

/-- When each of some directives begins, if they follow one another. -/
def begins (p : Planner τ S) : τ → List (Directive τ) → List τ
  | _, [] => []
  | time, d :: ds => time :: p.begins (p.directive time 0 d).finish ds

/-- The tweens of directives that follow one another are those of each from its beginning. -/
theorem sequence_tweens (time : τ) (ds : List (Directive τ)) :
    (p.sequence time ds).tweens =
      (List.zipWith (fun start d => (p.directive start 0 d).tweens) (p.begins time ds)
        ds).flatten := by
  induction ds generalizing time with
  | nil => rfl
  | cons d ds ih => rw [sequence, ih, begins, List.zipWith_cons_cons, List.flatten_cons]

variable {IsPoint : τ → Prop}

/-- No directive begins before the one that it follows. -/
theorem begins_ordered (hpoint : Timely IsPoint) (hp : p.defaults.Advancing) {time : τ}
    (htime : IsPoint time) {ds : List (Directive τ)} (hds : ∀ d ∈ ds, d.Lasting) :
    (p.begins time ds).IsChain (· ≤ ·) := by
  -- the next directive begins at the end of the first one, which does not lead back
  induction ds generalizing time with
  | nil => exact .nil
  | cons d ds ih =>
    have hlaid := laid_of_advancing hp time 0 d (hds d List.mem_cons_self)
    have hrest := ih (hlaid.isPoint hpoint htime) fun d' hd' => hds d' (List.mem_cons_of_mem _ hd')
    cases ds with
    | nil => exact .singleton _
    | cons d' ds => exact .cons_cons (hlaid.ahead hpoint htime).le hrest

/-- A wait begins at the end of the directive that it follows. -/
theorem exists_start_finish (p : Planner τ S) (d : Directive τ) :
    ∃ t ∈ p.plan [d, .wait none], t.start = (p.directive Scalar.zero 0 d).finish :=
  ⟨_, List.mem_append_right _ List.mem_cons_self, rfl⟩

/-- A packet on a path is under way for the usual time. -/
theorem packet_finish {slot : TokenSlot} {path : Path} (id : String) (time : τ) (index : Nat)
    (hslot : p.token? index = some slot) (hpath : p.path? (PathSpec.whole id : PathSpec τ).pathId =
      some path) :
    (p.packet none none [.whole id] time index).finish = time + p.defaults.segmentDuration := by
  simp only [packet, hslot, ways, hpath]
  rfl

end Planner

/-! ## What is played -/

namespace Player

variable {κ S : Type} [Stage S]

/-- What a play lays directives out with. -/
def planner (p : Player κ) (s : S) : Planner Float S :=
  ⟨p.settings.tokens, p.settings.defaults, hideTokens p.settings.tokens s⟩

theorem plan_play (p : Player κ) (ds : List (Directive Float)) (request : κ) (s : S) :
    (p.play ds request s).1.plan = (p.planner s).plan ds := by
  rw [play_eq, advance_plan]
  rfl

/-- What is played are the tweens of each directive from its beginning. -/
theorem plan_play_eq (p : Player κ) (ds : List (Directive Float)) (request : κ) (s : S) :
    (p.play ds request s).1.plan =
      (List.zipWith (fun start d => ((p.planner s).directive start 0 d).tweens)
        ((p.planner s).begins 0 ds) ds).flatten := by
  rw [plan_play]
  exact Planner.sequence_tweens 0 ds

/-- To hide tokens changes nothing but opacities. -/
theorem attribute?_hideTokens (tokens : List TokenSlot) (s : Scene) (key : String) {name : String}
    (hname : name ≠ "opacity") :
    (hideTokens tokens s).attribute? key name = s.attribute? key name := by
  obtain ⟨hskel, hcells⟩ := hideTokens_cells tokens s
  rw [Scene.attribute?_eq_cell?, Scene.attribute?_eq_cell?, Scene.resolve?_congr hskel]
  refine Option.bind_congr fun a _ => (hcells _).2 ?_
  rintro ⟨slot, _, hslot⟩
  obtain ⟨_, _, hcell⟩ := Option.map_eq_some_iff.1 hslot
  cases hcell
  exact hname rfl

theorem path?_planner (p : Player κ) (s : Scene) (id : String) :
    (p.planner s).path? id = (s.attribute? id "d").bind fun d => (PathData.read d).toOption :=
  congrArg (fun d : Option String => d.bind fun d => (PathData.read d).toOption)
    (attribute?_hideTokens p.settings.tokens s id (by decide))

end Player

/-! ## Settings and scripts that are accepted -/

/-- Settings that are accepted have a token. -/
theorem Settings.tokens_ne_nil {text : String} {settings : Settings}
    (h : Settings.load text = .ok settings) : settings.tokens ≠ [] := by
  unfold Settings.load at h
  split at h
  · cases h
  · split at h
    · cases h
    · rename_i hfault
      cases h
      intro hnil
      rw [Settings.fault?, hnil] at hfault
      split_ifs at hfault
      contradiction

theorem Settings.exists_load (text : String) (defaults : Defaults Float)
    (h : (Settings.load text).toOption.map (·.defaults) = some defaults) :
    ∃ settings, Settings.load text = .ok settings ∧ settings.defaults = defaults := by
  cases hload : Settings.load text with
  | error failure =>
    rw [hload] at h
    cases h
  | ok settings =>
    rw [hload] at h
    exact ⟨settings, rfl, Option.some.inj h⟩

/-- A script whose steps consist of one directive that states no length of time, for each kind of
    directive that has one, and of a wait. -/
def Topic.unstated : Json :=
  let step (id : String) (fields : List (String × Json)) : Json :=
    .obj [("animations", .arr [.obj fields, .obj [("type", .str "wait")]]), ("id", .str id),
      ("ui", .obj [("phase", .str "FETCH"), ("title", .str "T")])]
  .obj [("id", .str "t"),
    ("slides", .arr [.obj [("diagram", .str "d"), ("id", .str "s"),
      ("steps", .arr [
        step "a" [("to", .arr [.num (.int 0), .num (.int 0), .num (.int 1), .num (.int 1)]),
          ("type", .str "camera")],
        step "b" [("paths", .arr [.str "p"]), ("type", .str "packet")],
        step "c" [("type", .str "wait")],
        step "d" [("attributes", .obj [("x", .str "1")]), ("target", .str "p"),
          ("type", .str "attributeTransition")]]),
      ("title", .str "S")]]),
    ("title", .str "T")]

theorem Topic.exists_unstated :
    ∃ t, Topic.load Topic.unstated = .ok t ∧
      t.slides.flatMap (fun slide => slide.steps.map (·.animations)) =
        [[.camera ⟨0, 0, 1, 1⟩ none none, .wait none],
          [.packet none none [.whole "p"], .wait none],
          [.wait none, .wait none],
          [.attributes "p" (.ofList [("x", "1")]) none none, .wait none]] :=
  ⟨_, rfl, rfl⟩

/-! ## Forward in time -/

namespace Player

variable {κ : Type}

/-- In what is played on a diagram, no tween starts before the animation does, and no directive
    begins before the one that it follows. -/
structure Forward (p : Player κ) (ds : List (Directive Float)) (request : κ) (s : Scene) :
    Prop where
  /-- What is played are the tweens of each directive from its beginning. -/
  plan : (p.play ds request s).1.plan =
    (List.zipWith (fun start d => ((p.planner s).directive start 0 d).tweens)
      ((p.planner s).begins 0 ds) ds).flatten
  starts : ∀ t ∈ (p.play ds request s).1.plan, 0 ≤ t.start
  ordered : ((p.planner s).begins 0 ds).IsChain (· ≤ ·)

theorem laid_forward {p : Player κ} (hp : p.settings.defaults.Advancing)
    {ds : List (Directive Float)} (hds : ∀ d ∈ ds, d.Lasting) (request : κ) (s : Scene) :
    p.Forward ds request s where
  plan := plan_play_eq p ds request s
  starts := by
    rw [plan_play]
    have hlaid := Planner.laid_sequence (p := p.planner s) hp Scalar.zero hds
    exact (hlaid.ahead Planner.timely_nonneg (by decide +kernel)).starts
  ordered := Planner.begins_ordered Planner.timely_nonneg hp (by decide +kernel) hds

/-- The end of a directive that a wait follows is not before the beginning. -/
theorem Forward.nonneg_finish {p : Player κ} {d : Directive Float} {request : κ} {s : Scene}
    (h : p.Forward [d, .wait none] request s) :
    0 ≤ ((p.planner s).directive 0 0 d).finish := by
  obtain ⟨t, ht, hstart⟩ := Planner.exists_start_finish (p.planner s) d
  rw [← plan_play p _ request] at ht
  exact hstart ▸ h.starts t ht

/-- A diagram with a path. -/
def pathScene : Scene :=
  ⟨[], ⟨none, "svg", []⟩, [.element ⟨some "p", "path", [("id", "p"), ("d", "M0 0L1 0")]⟩ []], []⟩

/-- If time runs forward for the script that leaves out all lengths of time, no usual length that
    leads ahead is negative. -/
theorem advancing_of_forward {p : Player κ} (htokens : p.settings.tokens ≠ []) (request : κ)
    (h : ∀ t, Topic.load Topic.unstated = .ok t → ∀ slide ∈ t.slides, ∀ step ∈ slide.steps,
      p.Forward step.animations request pathScene) :
    p.settings.defaults.Advancing := by
  obtain ⟨t, ht, hsteps⟩ := Topic.exists_unstated
  have hfinish : ∀ d, [d, .wait none] ∈ t.slides.flatMap (fun slide =>
      slide.steps.map (·.animations)) → 0 ≤ ((p.planner pathScene).directive 0 0 d).finish := by
    intro d hd
    obtain ⟨slide, hslide, hd⟩ := List.mem_flatMap.1 hd
    obtain ⟨step, hstep, hd⟩ := List.mem_map.1 hd
    exact (hd ▸ h t ht slide hslide step hstep).nonneg_finish
  rw [hsteps] at hfinish
  -- the packet has a token and a path, so it is under way for some time
  have hslot : (p.planner pathScene).token? 0 = p.settings.tokens[0]? := by
    rw [Planner.token?, Nat.zero_mod]
    rfl
  rw [List.getElem?_eq_getElem (List.length_pos_iff.2 htokens)] at hslot
  obtain ⟨path, hpath⟩ : ∃ path, (p.planner pathScene).path? "p" = some path := by
    rw [path?_planner, ← Option.isSome_iff_exists]
    decide +kernel
  have hpacket := hfinish (.packet none none [.whole "p"]) (by simp)
  rw [Planner.directive, Planner.packet_finish "p" 0 0 hslot hpath] at hpacket
  exact {
    camera := Decimal.nonneg_of_zero_add (hfinish (.camera ⟨0, 0, 1, 1⟩ none none) (by simp))
    segment := Decimal.nonneg_of_zero_add hpacket
    wait := Decimal.nonneg_of_zero_add (hfinish (.wait none) (by simp))
    transition := Decimal.nonneg_of_zero_add
      (hfinish (.attributes "p" (.ofList [("x", "1")]) none none) (by simp)) }

end Player

/-- With settings that are accepted, time runs forward in every step of every script that is
    accepted and on every diagram, exactly if no usual length of time that leads ahead is
    negative. -/
theorem Settings.forward_iff_advancing {text : String} {settings : Settings}
    (h : Settings.load text = .ok settings) :
    (∀ j t, Topic.load j = .ok t → ∀ slide ∈ t.slides, ∀ step ∈ slide.steps,
      ∀ (κ : Type) (p : Player κ) (request : κ) (s : Scene), p.settings = settings →
        p.Forward step.animations request s) ↔
      settings.defaults.Advancing := by
  refine ⟨fun hall => ?_, fun hadvancing => ?_⟩
  · have hforward : ∀ t, Topic.load Topic.unstated = .ok t → ∀ slide ∈ t.slides,
        ∀ step ∈ slide.steps,
          (Player.new settings).Forward step.animations () Player.pathScene :=
      fun t ht slide hslide step hstep =>
        hall _ t ht slide hslide step hstep Unit (.new settings) () Player.pathScene rfl
    exact Player.advancing_of_forward (p := .new settings) (tokens_ne_nil h) () hforward
  · rintro j t ht slide hslide step hstep κ p request s rfl
    have hwell := ((Topic.load_wellFormed ht).1.slides slide hslide).steps step hstep
    exact Player.laid_forward hadvancing (fun d hd => (hwell.animations d hd).lasting) request s

/-- A wait of no time and a pulse of negative length. -/
theorem Settings.forward_iff_advancing_demo :
    ∃ settings,
      Settings.load "\x7b\"defaults\": \x7b\"wait_duration\": 0, \"pulse_duration\": -1\x7d\x7d" =
        .ok settings ∧
      settings.defaults.Advancing ∧
      ∀ j t, Topic.load j = .ok t → ∀ slide ∈ t.slides, ∀ step ∈ slide.steps,
        ∀ (κ : Type) (p : Player κ) (request : κ) (s : Scene), p.settings = settings →
          p.Forward step.animations request s := by
  obtain ⟨settings, hload, hdefaults⟩ := Settings.exists_load
    "\x7b\"defaults\": \x7b\"wait_duration\": 0, \"pulse_duration\": -1\x7d\x7d"
    { Defaults.usual with waitDuration := 0, pulseDuration := -1 } (by decide +kernel)
  have hadvancing : settings.defaults.Advancing := by
    rw [hdefaults]
    constructor <;> decide +kernel
  exact ⟨settings, hload, hadvancing, (Settings.forward_iff_advancing hload).2 hadvancing⟩

/-- Settings with a negative usual wait pass the check. With them, the wait after another wait
    begins a second before the animation does. -/
theorem Settings.negative_wait_leads_back :
    ∃ settings, Settings.load "\x7b\"defaults\": \x7b\"wait_duration\": -1\x7d\x7d" = .ok settings ∧
      ∃ t, Topic.load Topic.unstated = .ok t ∧ ∃ slide ∈ t.slides, ∃ step ∈ slide.steps,
        step.animations = [.wait none, .wait none] ∧
        ((Player.new settings).play step.animations () Player.pathScene).1.plan.map (·.start) =
          [0, -1] ∧
        ¬ (Player.new settings).Forward step.animations () Player.pathScene := by
  obtain ⟨settings, hload, hdefaults⟩ := Settings.exists_load
    "\x7b\"defaults\": \x7b\"wait_duration\": -1\x7d\x7d"
    { Defaults.usual with waitDuration := -1 } (by decide +kernel)
  obtain ⟨t, ht, hsteps⟩ := Topic.exists_unstated
  have hwaits : [Directive.wait (none : Option Float), .wait none] ∈
      t.slides.flatMap fun slide => slide.steps.map (·.animations) := by
    rw [hsteps]
    simp
  obtain ⟨slide, hslide, hwaits⟩ := List.mem_flatMap.1 hwaits
  obtain ⟨step, hstep, hwaits⟩ := List.mem_map.1 hwaits
  have hstarts : ((Player.new settings).play step.animations ()
      Player.pathScene).1.plan.map (·.start) = [0, -1] := by
    rw [hwaits, Player.plan_play]
    show [0, 0 + settings.defaults.waitDuration] = [0, -1]
    rw [hdefaults]
    decide +kernel
  refine ⟨settings, hload, t, ht, slide, hslide, step, hstep, hwaits, hstarts, fun hforward => ?_⟩
  have hmem : (-1 : Float) ∈ ((Player.new settings).play step.animations ()
      Player.pathScene).1.plan.map (·.start) := by
    rw [hstarts]
    simp
  obtain ⟨x, hx, hstart⟩ := List.mem_map.1 hmem
  have hnonneg := hforward.starts x hx
  rw [hstart] at hnonneg
  exact absurd hnonneg (by decide +kernel)

end Slideshow

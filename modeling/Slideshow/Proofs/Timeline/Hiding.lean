/-
  Slideshow.Proofs.Timeline.Hiding

  Tokens are put away. While an animation runs, an element that is a token is hidden, or a
  tween is to come that hides it (`Entry.Covered`): what makes a token visible stands on the
  clock before what hides it, and what else runs leaves its opacity as it is. So when the
  animation is complete, all tokens are hidden (`tokens_put_away`). A key that names an element
  at another place by then may name a visible one (`token_key_moved`).
-/
import Slideshow.Proofs.Scene.Watch
import Slideshow.Proofs.Timeline.Steps
import Slideshow.Proofs.Timeline.Tokens

namespace Slideshow

/-! ## What tweens drive -/

namespace Tween

variable {tokens : List TokenSlot} {ds : List (Directive Float)} {t : Tween Float} {d s : Scene}
  {c : Cell} {group : String} {now : Float}

/-- The tween drives an id, or the opacity of a token. -/
def Meddles (tokens : List TokenSlot) (s : Scene) (t : Tween Float) : Prop :=
  ∃ track ∈ t.tracks, ∃ c ∈ t.trackCell? s track,
    c.part = .attribute "id" ∨ c.OfToken tokens s

instance (tokens : List TokenSlot) (s : Scene) (t : Tween Float) : Decidable (t.Meddles tokens s) :=
  inferInstanceAs (Decidable (∃ track ∈ t.tracks, ∃ c ∈ t.trackCell? s track, _ ∨ _))

theorem Modest.part (h : t.Modest) (hc : t.Drives s c) :
    c.part ≠ .attribute "opacity" ∧ c.part ≠ .attribute "id" := by
  obtain ⟨track, htrack, hcell⟩ := hc
  cases track with
  | viewport =>
    cases hcell
    decide
  | text =>
    obtain ⟨a, _, rfl⟩ := Option.map_eq_some_iff.1 hcell
    exact ⟨Cell.Part.noConfusion, Cell.Part.noConfusion⟩
  | motion =>
    obtain ⟨a, _, rfl⟩ := Option.map_eq_some_iff.1 hcell
    exact (by decide : (Cell.Part.attribute "transform" ≠ .attribute "opacity" ∧
      Cell.Part.attribute "transform" ≠ .attribute "id"))
  | _ name start goal =>
    obtain ⟨a, _, rfl⟩ := Option.map_eq_some_iff.1 hcell
    obtain ⟨hopacity, hid⟩ := h name start goal htrack
    exact ⟨fun heq => hopacity (Cell.Part.attribute.inj heq),
      fun heq => hid (Cell.Part.attribute.inj heq)⟩

theorem Modest.not_meddles (h : t.Modest) : ¬ t.Meddles tokens s := by
  rintro ⟨track, htrack, c, hcell, hid | ⟨slot, _, hslot⟩⟩
  · exact (h.part ⟨track, htrack, hcell⟩).2 hid
  · obtain ⟨a, _, rfl⟩ := Option.map_eq_some_iff.1 hslot
    exact (h.part ⟨track, htrack, hcell⟩).1 rfl

/-- All tracks of the tween are about attributes of one element. -/
def OnAttributes (key : String) (t : Tween Float) : Prop :=
  t.target = .element key ∧
    ∀ track ∈ t.tracks, ∃ name start goal, track = .attribute name start goal

theorem OnAttributes.exists_of_drives {key : String} (h : t.OnAttributes key)
    (hc : t.Drives s c) : ∃ name start goal, .attribute name start goal ∈ t.tracks ∧
      s.resolve? key = some c.address ∧ c.part = .attribute name := by
  obtain ⟨htarget, htracks⟩ := h
  obtain ⟨track, htrack, hcell⟩ := hc
  obtain ⟨name, start, goal, rfl⟩ := htracks track htrack
  obtain ⟨a, ha, rfl⟩ := Option.map_eq_some_iff.1 hcell
  rw [htarget] at ha
  exact ⟨name, start, goal, htrack, ha, rfl⟩

theorem Carries.onAttributes (h : t.Carries ds) : ∃ key, t.OnAttributes key := by
  obtain ⟨x, _, htarget, htracks⟩ := h
  refine ⟨_, htarget, fun track htrack => ?_⟩
  rw [htracks] at htrack
  obtain ⟨e, _, rfl⟩ := List.mem_map.1 htrack
  exact ⟨e.1, none, e.2, rfl⟩

theorem Appears.onAttributes (h : t.Appears group) : t.OnAttributes group := by
  obtain ⟨place, h⟩ := h
  rw [h]
  refine ⟨rfl, fun track htrack => ?_⟩
  rcases List.mem_cons.1 htrack with rfl | htrack
  · exact ⟨_, _, _, rfl⟩
  · obtain ⟨v, _, rfl⟩ := Option.map_eq_some_iff.1 (Option.mem_toList.1 htrack)
    exact ⟨_, _, _, rfl⟩

theorem Appears.noId (h : t.Appears group) {start : Option String} {goal : String} :
    .attribute "id" start goal ∉ t.tracks := by
  obtain ⟨place, h⟩ := h
  rw [h]
  cases place <;> simp [basic, Planner.opacity]

theorem Vanishes.onAttributes (h : t.Vanishes group) : t.OnAttributes group := by
  rw [h]
  refine ⟨rfl, fun track htrack => ?_⟩
  rw [List.mem_singleton.1 htrack]
  exact ⟨_, _, _, rfl⟩

theorem Vanishes.noId (h : t.Vanishes group) {start : Option String} {goal : String} :
    .attribute "id" start goal ∉ t.tracks := by
  rw [h]
  simp [basic, Planner.opacity]

/-- Hiding one token is not hiding another one. -/
theorem Vanishes.unique {group' : String} (h : t.Vanishes group) (h' : t.Vanishes group') :
    group = group' :=
  Target.element.inj (h.onAttributes.1.symm.trans h'.onAttributes.1)

/-! ## Tweens that take no time -/

/-- The tween takes no time. -/
def Instant (t : Tween Float) : Prop := t.total = 0

theorem instant_basic (target : Target) (start : Float) (tracks : List Track) :
    (basic target start Scalar.zero tracks).Instant := by
  show Scalar.later (0 : Float) 0 * (Scalar.ofNat 0 + Scalar.one) = 0
  decide +kernel

theorem Appears.instant (h : t.Appears group) : t.Instant := by
  obtain ⟨place, h⟩ := h
  rw [h]
  exact instant_basic _ _ _

theorem Vanishes.instant (h : t.Vanishes group) : t.Instant := by
  rw [h]
  exact instant_basic _ _ _

/-- What takes no time is over as soon as it has begun, if it can be over at all. -/
theorem Instant.over (h : t.Instant) (hstart : 0 ≤ t.start) (hends : ∃ now, t.Over now)
    (hnow : 0 ≤ now) (hbegun : t.Begun now) : t.Over now := by
  obtain ⟨end', _, hend⟩ := hends
  refine ⟨hbegun, ?_⟩
  rw [h] at hend ⊢
  -- since it is over at some time it starts before infinity, so the time since then is a number
  have hle : t.start ≤ now := Decimal.Number.le_of_not_lt (Decimal.Number.self_of_le hnow).2
    (Decimal.Number.self_of_le hstart).2 hbegun
  exact Decimal.nonneg_sub hstart (Decimal.not_infinity_le_of_nonneg_sub hend) hle

end Tween

/-! ## One tween -/

namespace Entry

variable {tokens : List TokenSlot} {ds : List (Directive Float)} {e : Entry}
  {es ran rest : List Entry} {s : Scene} {a : Node.Address} {now : Float} {group : String}

/-- The change that hides a token. -/
theorem changes_vanish (hphase : e.phase = .pending) (h : e.tween.Vanishes group)
    (hover : e.tween.Over now) :
    e.changes now s = [.attribute group "opacity" (some "0")] := by
  have htarget : e.tween.target.key? = some group := congrArg (fun t => Target.key? t.target) h
  have htracks : e.tween.tracks = [Planner.opacity "0"] := congrArg Tween.tracks h
  have hyoyo : e.tween.yoyo = false := congrArg Tween.yoyo h
  have hrestore : e.tween.restore = false := congrArg Tween.restore h
  have hnot : (e.isDone || decide (now < e.tween.start)) = false := by
    rw [Bool.or_eq_false_iff, isDone, beq_eq_false_iff_ne, decide_eq_false_iff_not, hphase]
    exact ⟨Phase.noConfusion, hover.1⟩
  have hone : (true && decide ((1 : Float) ≤ Scalar.one)) = true := by decide +kernel
  -- it begins and ends in the same run, so it writes its goal at once
  unfold changes
  rw [hnot, if_neg Bool.false_ne_true, begun, hphase]
  simp only [Tween.firstPhase, hover.2, decide_true, if_true, Tween.writeChanges, htracks,
    Tween.settleChanges_eq_nil hrestore, Tween.progress_of_complete hyoyo hover.2, Planner.opacity,
    List.map_cons, List.map_nil, List.zip_cons_cons, List.zip_nil_left, List.append_nil,
    Tween.trackState, Tween.trackChange?, htarget, Tween.attributeValue?, hone, Option.bind_some,
    Option.map_some, List.filterMap_cons, List.filterMap_nil]

/-- What hides a token gives its element the opacity zero. -/
theorem cell?_run_vanish (hphase : e.phase = .pending) (h : e.tween.Vanishes group)
    (hover : e.tween.Over now) (ha : s.resolve? group = some a) :
    (e.run now s).2.cell? ⟨a, .attribute "opacity"⟩ = some "0" := by
  rw [run_eq, changes_vanish hphase h hover]
  exact (Scene.rewritten_attribute ha (by decide) (some "0")).self _ rfl

/-- What drives attributes of an element leaves the opacity of the others. -/
theorem Sound.cell?_run_of_other (h : e.Sound) (hon : e.tween.OnAttributes group)
    (hid : ∀ start goal, .attribute "id" start goal ∉ e.tween.tracks) (now : Float) :
    (e.run now s).2.skeleton = s.skeleton ∧
      ∀ a, s.resolve? group ≠ some a → (e.run now s).2.cell? ⟨a, .attribute "opacity"⟩ =
        s.cell? ⟨a, .attribute "opacity"⟩ := by
  have hpart : ∀ c, e.tween.Drives s c → ∃ name, c.part = .attribute name ∧ name ≠ "id" := by
    intro c hc
    obtain ⟨name, start, goal, htrack, _, hpart⟩ := hon.exists_of_drives hc
    refine ⟨name, hpart, ?_⟩
    rintro rfl
    exact hid start goal htrack
  obtain ⟨hskel, hcells⟩ := h.run_frame hpart rfl now
  refine ⟨hskel, fun a ha => hcells _ fun hdrives => ha ?_⟩
  obtain ⟨_, _, _, _, hresolve, _⟩ := hon.exists_of_drives hdrives
  exact hresolve

/-! ## Tweens on the clock -/

/-- What is known of the tweens on the clock, or of those that are still to run. -/
structure Ready (tokens : List TokenSlot) (ds : List (Directive Float)) (es : List Entry) :
    Prop where
  sound : ∀ e ∈ es, e.Sound
  /-- What takes no time is never under way. -/
  prompt : ∀ e ∈ es, e.tween.Instant → e.phase = .pending ∨ e.phase = .done
  order : InOrder es
  sorted : Clock.Sorted es
  /-- What makes a token visible is followed by what hides it. -/
  roles : Tween.PutAway tokens ds [] (es.map (·.tween))
  nonneg : ∀ e ∈ es, 0 ≤ e.tween.start
  /-- None starts at infinity. -/
  ends : ∀ e ∈ es, ∃ now, e.tween.Over now

theorem Ready.tail (h : Ready tokens ds (e :: es)) : Ready tokens ds es where
  sound u hu := h.sound u (List.mem_cons_of_mem _ hu)
  prompt u hu := h.prompt u (List.mem_cons_of_mem _ hu)
  order := h.order.of_cons
  sorted := h.sorted.of_cons
  roles := h.roles.2
  nonneg u hu := h.nonneg u (List.mem_cons_of_mem _ hu)
  ends u hu := h.ends u (List.mem_cons_of_mem _ hu)

/-- What takes no time is over when it has begun. -/
theorem Ready.over (h : Ready tokens ds es) (he : e ∈ es) (hinstant : e.tween.Instant)
    (hnow : 0 ≤ now) (hbegun : e.tween.Begun now) : e.tween.Over now :=
  hinstant.over (h.nonneg e he) (h.ends e he) hnow hbegun

theorem Ready.runAll (h : Ready tokens ds es) (hnow : 0 ≤ now) (s : Scene) :
    Ready tokens ds (Entry.runAll now es s).1 where
  order := h.order.runAll h.sorted
  sorted := sorted_runAll h.sorted
  roles := by
    rw [runAll_tweens]
    exact h.roles
  sound e he := by
    obtain ⟨u, hu, s', rfl⟩ := exists_of_mem_runAll he
    exact (h.sound u hu).run now s'
  prompt e he hinstant := by
    obtain ⟨u, hu, s', rfl⟩ := exists_of_mem_runAll he
    rw [run_tween] at hinstant
    by_cases hbegun : u.tween.Begun now
    · exact .inr (done_of_over (h.over hu hinstant hnow hbegun))
    · rw [run_of_still (.inr hbegun)]
      exact h.prompt u hu hinstant
  nonneg e he := by
    obtain ⟨u, hu, s', rfl⟩ := exists_of_mem_runAll he
    rw [run_tween]
    exact h.nonneg u hu
  ends e he := by
    obtain ⟨u, hu, s', rfl⟩ := exists_of_mem_runAll he
    rw [run_tween]
    exact h.ends u hu

/-- If a tween is that of a transition and about to run, it drives no id, and no opacity of a
    token. -/
def Spares (tokens : List TokenSlot) (ds : List (Directive Float)) (now : Float) (e : Entry)
    (s : Scene) : Prop :=
  e.phase ≠ .done → e.tween.Begun now → e.tween.Carries ds → ¬ e.tween.Meddles tokens s

instance (tokens : List TokenSlot) (ds : List (Directive Float)) (now : Float) (e : Entry)
    (s : Scene) : Decidable (e.Spares tokens ds now s) :=
  inferInstanceAs (Decidable (_ → _ → _ → ¬ _))

/-- Something holds of each tween and the diagram when it is the turn of the tween. -/
def Throughout (P : Entry → Scene → Prop) (now : Float) : List Entry → Scene → Prop
  | [], _ => True
  | e :: es, s => P e s ∧ Throughout P now es (e.run now s).2

instance decidableThroughout {P : Entry → Scene → Prop} [∀ e s, Decidable (P e s)] (now : Float) :
    (es : List Entry) → (s : Scene) → Decidable (Throughout P now es s)
  | [], _ => .isTrue trivial
  | e :: es, s => @instDecidableAnd _ _ _ (decidableThroughout now es (e.run now s).2)

/-! ## Watching a token -/

section Watching

variable {Fit : Scene → Prop} {find? : Scene → Option Node.Address}

/-- The tween is going to hide the token at an address. -/
def Hides (tokens : List TokenSlot) (s : Scene) (a : Node.Address) (e : Entry) : Prop :=
  e.phase ≠ .done ∧
    ∃ slot ∈ tokens, e.tween.Vanishes slot.group ∧ s.resolve? slot.group = some a

theorem Hides.congr {s' : Scene} (h : e.Hides tokens s a) (hskel : s'.skeleton = s.skeleton) :
    e.Hides tokens s' a := by
  obtain ⟨hdone, slot, hslot, hvanish, hresolve⟩ := h
  refine ⟨hdone, slot, hslot, hvanish, ?_⟩
  rw [Scene.resolve?_congr hskel]
  exact hresolve

/-- The element that is watched is a token that is hidden, or that a tween is going to hide. -/
structure Covered (tokens : List TokenSlot) (Fit : Scene → Prop)
    (find? : Scene → Option Node.Address) (es : List Entry) (s : Scene) : Prop where
  fit : Fit s
  named : ∀ a, find? s = some a → ∃ slot ∈ tokens, s.resolve? slot.group = some a
  hidden : ∀ a, find? s = some a →
    s.cell? ⟨a, .attribute "opacity"⟩ = some "0" ∨ ∃ e ∈ es, e.Hides tokens s a

/-- What leaves the watched element as opaque as it was leaves it to be hidden. -/
theorem Covered.of_follows {es' : List Entry} {s' : Scene} (h : Covered tokens Fit find? es s)
    (hfit : Fit s') (hfollows : Scene.Follows (tokens.map (·.group)) find? s s')
    (hkeep : ∀ e ∈ es, (∃ slot ∈ tokens, e.tween.Vanishes slot.group) → e ∈ es') :
    Covered tokens Fit find? es' s' := by
  refine ⟨hfit, fun b hb => ?_, fun b hb => ?_⟩
  · obtain ⟨a, ha, _, hnames⟩ := hfollows b hb
    obtain ⟨slot, hslot, hresolve⟩ := h.named a ha
    exact ⟨slot, hslot, hnames _ (List.mem_map_of_mem hslot) hresolve⟩
  · obtain ⟨a, ha, hcell, hnames⟩ := hfollows b hb
    rcases h.hidden a ha with hzero | ⟨e, he, hdone, slot, hslot, hvanish, hresolve⟩
    · exact .inl (hcell.trans hzero)
    · exact .inr ⟨e, hkeep e he ⟨slot, hslot, hvanish⟩, hdone, slot, hslot, hvanish,
        hnames _ (List.mem_map_of_mem hslot) hresolve⟩

variable (hwatch : Scene.Watch (tokens.map (·.group)) Fit find?)
include hwatch

/-- A tween of a transition that drives no token leads nothing away. -/
theorem follows_run_transition (hsound : e.Sound) (h : Covered tokens Fit find? es s)
    (hcarries : e.tween.Carries ds) (hclean : ¬ e.tween.Meddles tokens s) (now : Float) :
    Scene.Follows (tokens.map (·.group)) find? s (e.run now s).2 := by
  obtain ⟨key, hon⟩ := hcarries.onAttributes
  have hpart : ∀ c, e.tween.Drives s c → ∃ name, c.part = .attribute name ∧ name ≠ "id" := by
    intro c hc
    obtain ⟨name, _, _, _, _, hpart⟩ := hon.exists_of_drives hc
    refine ⟨name, hpart, ?_⟩
    rintro rfl
    obtain ⟨track, htrack, hcell⟩ := hc
    exact hclean ⟨track, htrack, c, hcell, .inl hpart⟩
  obtain ⟨hskel, hcells⟩ := hsound.run_frame hpart rfl now
  intro a ha
  rw [hwatch.congr _ _ hskel] at ha
  refine ⟨a, ha, hcells _ fun hdrives => ?_, fun g _ hg => ?_⟩
  · -- the watched element is a token, so the transition would drive its opacity
    obtain ⟨slot, hslot, hresolve⟩ := h.named a ha
    obtain ⟨track, htrack, hcell⟩ := hdrives
    exact hclean ⟨track, htrack, _, hcell, .inr ⟨slot, hslot, by rw [hresolve, Option.map_some]⟩⟩
  · rw [Scene.resolve?_congr hskel]
    exact hg

theorem follows_run_modest (hsound : e.Sound) (hfit : Fit s) (hmodest : e.tween.Modest)
    (now : Float) : Scene.Follows (tokens.map (·.group)) find? s (e.run now s).2 := by
  rw [run_eq]
  exact hwatch.makeAll hfit fun ch hch d c hc =>
    hmodest.part (hsound.drives_of_mem_changes hch hc)

theorem Covered.fit_run (h : Covered tokens Fit find? es s) (e : Entry) (now : Float) :
    Fit (e.run now s).2 := by
  rw [run_eq]
  exact hwatch.fit_makeAll h.fit _

/-- A tween that is about one token leaves the others as they were. -/
theorem Covered.run_of_token {es' : List Entry} (h : Covered tokens Fit find? es s)
    (hsound : e.Sound) (hon : e.tween.OnAttributes group)
    (hid : ∀ start goal, .attribute "id" start goal ∉ e.tween.tracks)
    (hself : ∀ a, s.resolve? group = some a →
      (e.run now s).2.cell? ⟨a, .attribute "opacity"⟩ = some "0" ∨ ∃ u ∈ es', u.Hides tokens s a)
    (hothers : ∀ a, s.resolve? group ≠ some a → ∀ u ∈ es, u.Hides tokens s a → u ∈ es') :
    Covered tokens Fit find? es' (e.run now s).2 := by
  obtain ⟨hskel, hcells⟩ := hsound.cell?_run_of_other hon hid now
  refine ⟨h.fit_run hwatch e now, fun a ha => ?_, fun a ha => ?_⟩
  · rw [hwatch.congr _ _ hskel] at ha
    obtain ⟨slot, hslot, hresolve⟩ := h.named a ha
    refine ⟨slot, hslot, ?_⟩
    rw [Scene.resolve?_congr hskel]
    exact hresolve
  · rw [hwatch.congr _ _ hskel] at ha
    by_cases hgroup : s.resolve? group = some a
    · exact (hself a hgroup).imp_right fun ⟨u, hu, hhides⟩ => ⟨u, hu, hhides.congr hskel⟩
    · rw [hcells a hgroup]
      exact (h.hidden a ha).imp_right fun ⟨u, hu, hhides⟩ =>
        ⟨u, hothers a hgroup u hu hhides, hhides.congr hskel⟩

/-- Letting a tween run keeps a token hidden, or leaves a tween that is going to hide it. -/
theorem Covered.run (hready : Ready tokens ds (e :: rest))
    (h : Covered tokens Fit find? (ran ++ e :: rest) s) (hnow : 0 ≤ now)
    (hspares : Spares tokens ds now e s) :
    Covered tokens Fit find? (ran ++ (e.run now s).1 :: rest) (e.run now s).2 := by
  by_cases hstill : e.phase = .done ∨ ¬ e.tween.Begun now
  · rw [run_of_still hstill]
    exact h
  rw [not_or, Decidable.not_not] at hstill
  obtain ⟨hdone, hbegun⟩ := hstill
  have hsound := hready.sound e List.mem_cons_self
  have hpending : e.tween.Instant → e.phase = .pending := fun hinstant =>
    (hready.prompt e List.mem_cons_self hinstant).resolve_right hdone
  -- only the tween itself is another one behind its run
  have hothers : ∀ u ∈ ran ++ e :: rest, u ≠ e → u ∈ ran ++ (e.run now s).1 :: rest := by
    intro u hu hne
    rcases List.mem_append.1 hu with hu | hu
    · exact List.mem_append_left _ hu
    · exact List.mem_append_right _ (List.mem_cons_of_mem _ ((List.mem_cons.1 hu).resolve_left hne))
  by_cases hhides : ∃ slot ∈ tokens, e.tween.Vanishes slot.group
  · -- it hides its token, and is the one that was going to
    obtain ⟨slot, hslot, hvanish⟩ := hhides
    have hover := hready.over List.mem_cons_self hvanish.instant hnow hbegun
    refine h.run_of_token hwatch hsound hvanish.onAttributes (fun _ _ => hvanish.noId)
      (fun a ha => .inl (cell?_run_vanish (hpending hvanish.instant) hvanish hover ha))
      fun a ha u hu hu' => hothers u hu ?_
    rintro rfl
    obtain ⟨_, slot', _, hvanish', hresolve⟩ := hu'
    rw [hvanish.unique hvanish'] at ha
    exact ha hresolve
  · -- all tweens that were going to hide a token still are
    have hkeep : ∀ u ∈ ran ++ e :: rest, (∃ slot ∈ tokens, u.tween.Vanishes slot.group) →
        u ∈ ran ++ (e.run now s).1 :: rest := by
      refine fun u hu hvanish => hothers u hu ?_
      rintro rfl
      exact hhides hvanish
    cases hready.roles.1 with
    | modest hmodest =>
      exact h.of_follows (h.fit_run hwatch e now)
        (follows_run_modest hwatch hsound h.fit hmodest now) hkeep
    | transition hcarries =>
      exact h.of_follows (h.fit_run hwatch e now)
        (follows_run_transition hwatch hsound h hcarries (hspares hdone hbegun hcarries) now) hkeep
    | vanish hslot hvanish => exact absurd ⟨_, hslot, hvanish⟩ hhides
    | @appear slot hslot happears t ht hvanish hle =>
      -- what hides the token again stands behind on the clock, and so has not begun
      rw [List.append_nil] at ht
      obtain ⟨u, hu, rfl⟩ := List.mem_map.1 ht
      have hwaits : u.phase = .pending :=
        List.rel_of_pairwise_cons hready.order hu (hpending happears.instant)
      refine h.run_of_token hwatch hsound happears.onAttributes (fun _ _ => happears.noId)
        (fun a ha => .inr ⟨u, ?_, ?_, slot, hslot, hvanish, ha⟩) fun a _ u hu hu' => ?_
      · exact List.mem_append_right _ (List.mem_cons_of_mem _ hu)
      · rw [hwaits]
        exact Phase.noConfusion
      · obtain ⟨_, slot', hslot', hvanish', _⟩ := hu'
        exact hkeep u hu ⟨slot', hslot', hvanish'⟩

theorem Covered.runAll (hready : Ready tokens ds es) (h : Covered tokens Fit find? es s)
    (hnow : 0 ≤ now) (hspares : Throughout (Spares tokens ds now) now es s) :
    Covered tokens Fit find? (Entry.runAll now es s).1 (Entry.runAll now es s).2 := by
  -- what is known of the tweens is needed of those that are still to run
  let I : List Entry → List Entry → Scene → Prop := fun ran rest s =>
    Ready tokens ds rest ∧ Throughout (Spares tokens ds now) now rest s ∧
      Covered tokens Fit find? (ran ++ rest) s
  have hrun : I ([] ++ (Entry.runAll now es s).1) [] (Entry.runAll now es s).2 := by
    refine runAll_induction (I := I) ?_ [] ⟨hready, hspares, h⟩
    rintro ran e rest s ⟨hready, ⟨hspares, hrest⟩, h⟩
    refine ⟨hready.tail, hrest, ?_⟩
    rw [List.append_assoc]
    exact h.run hwatch hready hnow hspares
  rw [← List.append_nil (Entry.runAll now es s).1]
  exact hrun.2.2

end Watching

end Entry

/-! ## Plays -/

namespace Player

variable {κ : Type} {p : Player κ} {ds : List (Directive Float)} {request : κ} {d : Scene}
  {ticks : List Tick}

/-- Whenever tweens run, those of transitions drive no id, and no opacity of a token. -/
def Spares (p : Player κ) (ds : List (Directive Float)) (request : κ) (d : Scene)
    (ticks : List Tick) : Prop :=
  Along (fun now es s => Entry.Throughout (Entry.Spares p.settings.tokens ds now) now es s)
    (p.opening ds request d) (.advance 0 :: ticks)

instance (p : Player κ) (ds : List (Directive Float)) (request : κ) (d : Scene)
    (ticks : List Tick) : Decidable (p.Spares ds request d ticks) :=
  inferInstanceAs (Decidable (Along _ _ _))

/-- Transitions that name neither an opacity nor an id spare the tokens. -/
theorem spares_of_names (h : ∀ x ∈ Directive.listTransitions ds, ∀ e ∈ x.2.entries,
    e.1 ≠ "opacity" ∧ e.1 ≠ "id") (ticks : List Tick) : p.Spares ds request d ticks := by
  have hmodest : ∀ t : Tween Float, t.Carries ds → t.Modest := by
    rintro t ⟨x, hx, _, htracks⟩ name start goal htrack
    rw [htracks] at htrack
    obtain ⟨e, he, heq⟩ := List.mem_map.1 htrack
    cases heq
    exact h x hx e he
  refine along_of_forall (fun now es s => ?_) _ _
  induction es generalizing s with
  | nil => trivial
  | cons e es ih => exact ⟨fun _ _ hcarries => (hmodest _ hcarries).not_meddles, ih _⟩

section PutAway

variable (hdefaults : p.settings.defaults.Lasting) (hds : ∀ x ∈ ds, x.Lasting)
  (hcompleted : (tickAll (p.started ds request d) ticks).1.state = .completed)
include hdefaults hds hcompleted

theorem ready_opening :
    Entry.Ready p.settings.tokens ds (p.opening ds request d).1.clock.entries where
  sound e he := (p.sound_begun ds request (hideTokens p.settings.tokens d) e he).2
  prompt e he _ := .inl (pending_opening e he)
  order := List.pairwise_of_forall_mem_list fun _ _ u hu _ => pending_opening u hu
  sorted := sorted_opening hcompleted
  roles := by
    have hentries : (p.clock.cancelAll.setScale 1).entries = [] := Clock.setScale_entries _ _
    let planner : Planner Float Scene :=
      ⟨p.settings.tokens, p.settings.defaults, hideTokens p.settings.tokens d⟩
    have hplan : Tween.PutAway planner.tokens ds [] (planner.plan ds) :=
      Planner.putAway_plan hdefaults hds
    refine Clock.putAway_scheduleAll ?_ (numbers_opening hcompleted) ?_ hplan
    · rw [hentries]
      exact .nil
    · rw [Clock.tweens, hentries]
      trivial
  nonneg e he := Planner.nonneg_start hdefaults hds _
    (p.sound_begun ds request (hideTokens p.settings.tokens d) e he).1
  ends := over_opening hcompleted

/-- An element that is watched, and that is hidden as a token when the play begins, is hidden when
    it is complete. -/
theorem hidden_of_watch {Fit : Scene → Prop} {find? : Scene → Option Node.Address}
    (hwatch : Scene.Watch (p.settings.tokens.map (·.group)) Fit find?)
    (hspares : p.Spares ds request d ticks) (hfit : Fit (hideTokens p.settings.tokens d))
    (hnamed : ∀ a, find? (hideTokens p.settings.tokens d) = some a →
      ∃ slot ∈ p.settings.tokens, d.resolve? slot.group = some a) :
    ∀ a, find? (tickAll (p.started ds request d) ticks).2 = some a →
      (tickAll (p.started ds request d) ticks).2.cell? ⟨a, .attribute "opacity"⟩ = some "0" := by
  obtain ⟨hskel, hcells⟩ := hideTokens_cells p.settings.tokens d
  have hstart : Entry.Covered p.settings.tokens Fit find?
      (p.opening ds request d).1.clock.entries (p.opening ds request d).2 := by
    refine ⟨hfit, fun a ha => ?_, fun a ha => ?_⟩
    · obtain ⟨slot, hslot, hresolve⟩ := hnamed a ha
      exact ⟨slot, hslot, (Scene.resolve?_congr hskel _).trans hresolve⟩
    · obtain ⟨slot, hslot, hresolve⟩ := hnamed a ha
      exact .inl ((hcells _).1 ⟨slot, hslot, by rw [hresolve, Option.map_some]⟩)
  obtain ⟨htime, _, hcovered⟩ := inTime_opening.tickAll_induction
    (I := fun es s => Entry.Ready p.settings.tokens ds es ∧
      Entry.Covered p.settings.tokens Fit find? es s)
    (fun now es s hnow hspares h =>
      ⟨h.1.runAll hnow s, h.2.runAll hwatch h.1 hnow hspares⟩)
    ⟨ready_opening hdefaults hds hcompleted, hstart⟩ hspares
  intro a ha
  refine (hcovered.hidden a ha).resolve_right ?_
  rintro ⟨e, he, hdone, _⟩
  exact hdone (htime.completed hcompleted e he)

end PutAway

theorem settings_tickAll (x : Player κ × Scene) (ticks : List Tick) :
    (tickAll x ticks).1.settings = x.1.settings := by
  induction ticks generalizing x with
  | nil => rfl
  | cons t ticks ih =>
    refine (ih (tick x t)).trans ?_
    cases t with
    | advance dt => exact advance_settings x.1 dt x.2
    | fastForward => exact fastForward_settings x.1

/-- Tokens are put away, at any pace and whatever is missing, if no transition drives the opacity of
    a token or an id. When the play is complete, every token is hidden whose key names an element at
    the same place of the document as before; if no key is that of the shape inside something, this
    is every token that is still there, in the document or taken out of it. When the play is
    stopped, every token that is there is hidden. -/
theorem tokens_put_away (hdefaults : p.settings.defaults.Lasting) (hds : ∀ x ∈ ds, x.Lasting)
    (hspares : p.Spares ds request d ticks) :
    let r := tickAll (p.started ds request d) ticks
    (r.1.state = .completed → ∀ slot ∈ p.settings.tokens, r.2.contains slot.group = true →
      r.2.resolve? slot.group = d.resolve? slot.group ∨ d.Unique ∧
        (∀ slot ∈ p.settings.tokens, Text.stripEnding? Scene.shapeEnding slot.group = none) →
      r.2.attribute? slot.group "opacity" = some "0") ∧
    ∀ slot ∈ p.settings.tokens, (r.1.stop r.2).2.contains slot.group = true →
      (r.1.stop r.2).2.attribute? slot.group "opacity" = some "0" := by
  intro r
  refine ⟨fun hcompleted slot hslot hthere hkey => ?_, fun slot hslot hthere => ?_⟩
  · have hfit : ∀ {Fit : Scene → Prop} {find? : Scene → Option Node.Address},
        Scene.Watch (p.settings.tokens.map (·.group)) Fit find? → Fit d →
          Fit (hideTokens p.settings.tokens d) := by
      intro Fit find? hwatch hd
      rw [hideTokens_eq]
      exact hwatch.fit_makeAll hd _
    obtain ⟨a, ha⟩ := Option.isSome_iff_exists.1 hthere
    rw [Scene.attribute?_eq_cell?, ha, Option.bind_some]
    obtain ⟨tag, children, hat, hne⟩ := Scene.exists_of_resolve? ha
    rcases hkey with hsame | ⟨hunique, hplain⟩
    · -- the key names the same place as before, so the element is followed by its place
      have hbefore : d.resolve? slot.group = some a := hsame.symm.trans ha
      obtain ⟨_, _, hat', _⟩ := Scene.exists_of_resolve? hbefore
      obtain ⟨i, is, rfl, hi⟩ := Scene.exists_cons_of_at? hne hat'
      have hwatch := Scene.watch_place (p.settings.tokens.map (·.group)) i is
      refine hidden_of_watch hdefaults hds hcompleted hwatch hspares (hfit hwatch hi)
        (fun b hb => ?_) _ ?_
      · obtain ⟨_, _, rfl⟩ := Option.map_eq_some_iff.1 hb
        exact ⟨slot, hslot, hbefore⟩
      · rw [Node.tagAt?, hat]
        rfl
    · -- the key is a handle, so the element is followed by it, also when taken out of the tree
      have hwatch := Scene.watch_group (List.mem_map_of_mem hslot)
        (List.forall_mem_map.2 hplain)
      refine hidden_of_watch hdefaults hds hcompleted hwatch hspares (hfit hwatch hunique)
        (fun b hb => ⟨slot, hslot, ?_⟩) a ha
      rw [← Scene.resolve?_congr (hideTokens_cells p.settings.tokens d).1]
      exact hb
  · have hsettings : r.1.settings = p.settings :=
      (settings_tickAll _ ticks).trans (play_settings p ds request d)
    have hstop : (r.1.stop r.2).2 = hideTokens p.settings.tokens r.2 := by
      rw [← hsettings]
      rfl
    rw [hstop] at hthere ⊢
    obtain ⟨hskel, hcells⟩ := hideTokens_cells p.settings.tokens r.2
    obtain ⟨a, ha⟩ := Option.isSome_iff_exists.1 hthere
    rw [Scene.attribute?_eq_cell?, ha, Option.bind_some]
    rw [Scene.resolve?_congr hskel] at ha
    exact (hcells _).1 ⟨slot, hslot, by rw [ha, Option.map_some]⟩

/-- Two packets and a nested block beside a transition; one of the tokens has its text set, and one
    stays out for a while. Beside a transition of a color the token of a packet is put away at any
    pace. -/
theorem tokens_put_away_demo :
    let d : Scene :=
      { namespaces := []
        tag := ⟨none, "svg", []⟩
        children := [
          .element ⟨some "p", "path", [("id", "p"), ("d", "M0 0 L8 0")]⟩ [],
          .element ⟨some "r", "rect", [("id", "r")]⟩ [],
          .element ⟨some "packet-grp", "g", [("id", "packet-grp")]⟩ [],
          .element ⟨some "packet-grp-2", "g", [("id", "packet-grp-2")]⟩ []]
        detached := [] }
    let ds : List (Directive Float) := [.parallel [
        .packet (some "1") none [.whole "p", .whole "missing"],
        .packet none none [],
        .attributes "r" (.ofList [("opacity", "0.5")]) none none,
        .parallel [.packet none none [.whole "p"], .wait none]],
      .setValue "packet-grp-2" "2", .packet none none [.whole "p"]]
    let colored : List (Directive Float) := [.packet (some "1") none [.whole "p"],
      .attributes "r" (.ofList [("fill", "red")]) none none]
    let p : Player Nat := new .usual
    let ticks : List Tick := [.advance 0.25, .advance 1.25, .fastForward, .advance 2]
    p.settings.defaults.Lasting ∧ (∀ x ∈ ds, x.Lasting) ∧ p.Spares ds 0 d ticks ∧
      (tickAll (p.started ds 0 d) [.advance 0.25]).2.attribute? "packet-grp" "opacity" = some "1" ∧
      (tickAll (p.started ds 0 d) ticks).1.state = .completed ∧
      (tickAll (p.started ds 0 d) ticks).2.attribute? "packet-grp" "opacity" = some "0" ∧
      ∀ ticks, let r := tickAll (p.started colored 0 d) ticks
        r.1.state = .completed → r.2.contains "packet-grp" = true →
          r.2.attribute? "packet-grp" "opacity" = some "0" := by
  intro d ds colored p ticks
  have hdefaults : p.settings.defaults.Lasting := by constructor <;> decide +kernel
  have hds : ∀ x ∈ ds, x.Lasting := by
    simp only [ds, List.forall_mem_cons]
    refine ⟨.parallel ?_, .setValue, .packet (by decide +kernel), by simp⟩
    simp only [List.forall_mem_cons]
    refine ⟨.packet (by decide +kernel), .packet (by decide +kernel), .attributes (by simp),
      .parallel ?_, by simp⟩
    simp only [List.forall_mem_cons]
    exact ⟨.packet (by decide +kernel), .wait (by simp), by simp⟩
  have hspares : p.Spares ds 0 d ticks := by decide +kernel
  have hout : (tickAll (p.started ds 0 d) [.advance 0.25]).2.attribute? "packet-grp" "opacity" =
      some "1" := by decide +kernel
  have hcompleted : (tickAll (p.started ds 0 d) ticks).1.state = .completed := by decide +kernel
  have hthere : (tickAll (p.started ds 0 d) ticks).2.contains "packet-grp" = true := by
    decide +kernel
  refine ⟨hdefaults, hds, hspares, hout, hcompleted, ?_, fun ticks hcompleted hthere => ?_⟩
  · exact (tokens_put_away hdefaults hds hspares).1 hcompleted ⟨"packet-grp", "packet-text"⟩
      List.mem_cons_self hthere (.inl (by decide +kernel))
  · have hcolored : ∀ x ∈ colored, x.Lasting := by
      simp only [colored, List.forall_mem_cons]
      exact ⟨.packet (by decide +kernel), .attributes (by simp), by simp⟩
    have hspares : p.Spares colored 0 d ticks := spares_of_names (by decide +kernel) ticks
    exact (tokens_put_away hdefaults hcolored hspares).1 hcompleted ⟨"packet-grp", "packet-text"⟩
      List.mem_cons_self hthere (.inr ⟨by decide +kernel, by decide +kernel⟩)

/-- A token named as the first shape inside a group: when a text takes the place of that shape, the
    key names the next shape, which was never hidden. -/
theorem token_key_moved :
    ∃ d, Scene.load ("<svg xmlns=\"http://www.w3.org/2000/svg\">" ++
        "<g id=\"g\"><g id=\"h\"><rect/></g><circle/></g></svg>") = .ok d ∧
      let p : Player Nat := new { Settings.usual with tokens := [⟨"g::shape", "l"⟩] }
      let ds : List (Directive Float) := [.setValue "h" "x"]
      p.settings.defaults.Lasting ∧ (∀ x ∈ ds, x.Lasting) ∧ Directive.listTransitions ds = [] ∧
        (p.started ds 0 d).1.state = .completed ∧
        (p.started ds 0 d).2.contains "g::shape" = true ∧
        (p.started ds 0 d).2.attribute? "g::shape" "opacity" = none := by
  obtain ⟨d, hload, hcheck⟩ := Scene.exists_load_of_any
    ("<svg xmlns=\"http://www.w3.org/2000/svg\">" ++
      "<g id=\"g\"><g id=\"h\"><rect/></g><circle/></g></svg>") (fun d =>
      let p : Player Nat := new { Settings.usual with tokens := [⟨"g::shape", "l"⟩] }
      let ds : List (Directive Float) := [.setValue "h" "x"]
      decide ((p.started ds 0 d).1.state = .completed ∧
        (p.started ds 0 d).2.contains "g::shape" = true ∧
        (p.started ds 0 d).2.attribute? "g::shape" "opacity" = none))
    (by decide +kernel)
  refine ⟨d, hload, ?_, ?_, rfl, of_decide_eq_true hcheck⟩
  · constructor <;> decide +kernel
  · simp only [List.forall_mem_cons]
    exact ⟨.setValue, by simp⟩

end Player

end Slideshow

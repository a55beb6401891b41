/-
  Slideshow.Proofs.Timeline.Steps

  Runs of an animation, step by step. What one tween can do when the clock lets it run is said
  once (`Entry.run_step`), and so is what one tick can do (`InTime.tick_cases`). What all tweens
  of the clock keep, one after another, every tick keeps (`InTime.tickAll_induction`). If a run
  completes, every tween was over at some time (`InTime.exists_over`), and so the tweens stand on
  the clock in the order of their starts (`sorted_opening`).
-/
import Slideshow.Proofs.Store.Change
import Slideshow.Proofs.Timeline.Queue
import Slideshow.Proofs.Timeline.Resting

namespace Slideshow

/-! ## Hidden tokens -/

/-- The cell says whether a token is visible. -/
def Cell.OfToken (tokens : List TokenSlot) (d : Scene) (c : Cell) : Prop :=
  ∃ slot ∈ tokens, (d.resolve? slot.group).map (fun a => ⟨a, .attribute "opacity"⟩) = some c

instance (tokens : List TokenSlot) (d : Scene) (c : Cell) : Decidable (c.OfToken tokens d) :=
  inferInstanceAs (Decidable (∃ slot ∈ tokens, _ = some c))

theorem hideTokens_eq (tokens : List TokenSlot) (s : Scene) :
    Player.hideTokens tokens s = Stage.makeAll s (TokenSlot.hiding tokens) := by
  rw [Player.hideTokens, TokenSlot.hiding]
  induction tokens generalizing s with
  | nil => rfl
  | cons t tokens ih =>
    rw [List.foldl_cons, ih, List.map_cons, Stage.makeAll_cons]
    congr 1
    split
    · rfl
    · rename_i hkey
      have hnone : s.resolve? t.group = none := Option.not_isSome_iff_eq_none.1 hkey
      have hcell : (Change.attribute t.group "opacity" (some "0")).cell? s = none :=
        Option.map_eq_none_iff.2 hnone
      exact (Scene.make_of_cell?_none hcell).symm

/-- Hiding tokens sets their opacity, and no other cell. -/
theorem hideTokens_cells (tokens : List TokenSlot) (d : Scene) :
    (Player.hideTokens tokens d).skeleton = d.skeleton ∧ ∀ c,
      (c.OfToken tokens d → (Player.hideTokens tokens d).cell? c = some "0") ∧
      (¬ c.OfToken tokens d → (Player.hideTokens tokens d).cell? c = d.cell? c) := by
  have hplain : ∀ ch ∈ TokenSlot.hiding tokens, ch.Plain d := by
    intro ch hch
    obtain ⟨slot, _, rfl⟩ := List.mem_map.1 hch
    exact fun _ => by decide
  obtain ⟨hskel, hcell⟩ := Scene.cell?_makeAll hplain d rfl
  rw [← hideTokens_eq] at hskel hcell
  refine ⟨hskel, fun c => ⟨?_, fun hnot => ?_⟩⟩
  · rintro ⟨slot, hslot, hc⟩
    have hmem : Change.attribute slot.group "opacity" (some "0") ∈ TokenSlot.hiding tokens :=
      List.mem_map_of_mem hslot
    have hsome := Change.isSome_last?_of_mem hmem hc
    obtain ⟨v, hv⟩ := Option.isSome_iff_exists.1 hsome
    obtain ⟨ch, hch, _, rfl⟩ := Change.exists_of_last? hv
    obtain ⟨slot', _, rfl⟩ := List.mem_map.1 hch
    rw [hcell, hv, Option.getD_some]
    rfl
  · have hnone : Change.last? d c (TokenSlot.hiding tokens) = none := by
      refine Change.last?_eq_none_iff.2 fun ch hch hc => hnot ?_
      obtain ⟨slot, hslot, rfl⟩ := List.mem_map.1 hch
      exact ⟨slot, hslot, hc⟩
    rw [hcell, hnone, Option.getD_none]

/-! ## Running one tween -/

namespace Entry

variable {e : Entry} {es : List Entry} {now : Float} {s : Scene}

/-- What letting a tween run can do. -/
inductive Step (now : Float) (e : Entry) (s : Scene) : Entry × Scene → Prop
  /-- It is done already or has not begun. -/
  | still (h : e.phase = .done ∨ ¬ e.tween.Begun now) : Step now e s (e, s)
  /-- It writes, and goes on. -/
  | going {tracks : List TrackState} {saved : List (String × Option String)}
      (hbegun : e.tween.Begun now) (hphase : e.begun s = .active tracks saved)
      (hnot : ¬ e.tween.Over now) :
      Step now e s ({ e with phase := .active tracks saved },
        Stage.makeAll s
          (e.tween.writeChanges tracks (e.tween.progress (now - e.tween.start)) false))
  /-- It writes for the last time and gives back what it has saved. -/
  | ending {tracks : List TrackState} {saved : List (String × Option String)}
      (hphase : e.begun s = .active tracks saved) (hover : e.tween.Over now) :
      Step now e s ({ e with phase := .done },
        Stage.makeAll s
          (e.tween.writeChanges tracks (e.tween.progress (now - e.tween.start)) true ++
            e.tween.settleChanges saved))

theorem run_step (now : Float) (e : Entry) (s : Scene) : Step now e s (e.run now s) := by
  by_cases hstill : e.phase = .done ∨ ¬ e.tween.Begun now
  · rw [run_of_still hstill]
    exact .still hstill
  · rw [not_or, Decidable.not_not] at hstill
    obtain ⟨hdone, hbegun⟩ := hstill
    have hactive : ∃ tracks saved, e.begun s = .active tracks saved := by
      unfold begun
      cases hphase : e.phase with
      | pending => exact ⟨_, _, rfl⟩
      | active tracks saved => exact ⟨tracks, saved, rfl⟩
      | done => exact absurd hphase hdone
    obtain ⟨tracks, saved, hphase⟩ := hactive
    have hnot : (e.isDone || decide (now < e.tween.start)) = false := by
      rw [Bool.or_eq_false_iff, isDone, beq_eq_false_iff_ne, decide_eq_false_iff_not]
      exact ⟨hdone, hbegun⟩
    unfold run
    rw [hnot, if_neg Bool.false_ne_true, hphase]
    by_cases hcomplete : e.tween.total ≤ now - e.tween.start
    · simp only [hcomplete, decide_true, if_true, Tween.write_eq, Tween.settle_eq,
        ← Stage.makeAll_append]
      exact .ending hphase ⟨hbegun, hcomplete⟩
    · simp only [hcomplete, decide_false, Bool.false_eq_true, if_false, Tween.write_eq]
      exact .going hbegun hphase fun hover => hcomplete hover.2

/-- What a tween under way has saved, it saves now or has saved before. -/
theorem begun_cases {tracks : List TrackState} {saved : List (String × Option String)}
    (h : e.begun s = .active tracks saved) :
    (e.phase = .pending ∧ saved = e.tween.tracks.filterMap (e.tween.saved? s)) ∨
      e.phase = .active tracks saved := by
  unfold begun at h
  split at h
  · rename_i hphase
    cases h
    exact .inl ⟨hphase, rfl⟩
  · exact .inr h

/-- A tween that writes attributes other than ids keeps the skeleton, and all cells that it does not
    write. -/
theorem Sound.run_frame {d : Scene} (h : e.Sound)
    (hpart : ∀ c, e.tween.Drives d c → ∃ name, c.part = .attribute name ∧ name ≠ "id")
    (hskel : s.skeleton = d.skeleton) (now : Float) :
    (e.run now s).2.skeleton = d.skeleton ∧
      ∀ c, ¬ e.tween.Drives d c → (e.run now s).2.cell? c = s.cell? c := by
  have hdriven : ∀ ch ∈ e.changes now s, ∀ c, ch.cell? d = some c → e.tween.Drives d c :=
    fun ch hch c hc => h.drives_of_mem_changes hch hc
  have hplain : ∀ ch ∈ e.changes now s, ch.Plain d :=
    fun ch hch => Change.plain_of_cell? fun c hc => hpart c (hdriven ch hch c hc)
  obtain ⟨hmade, hcell⟩ := Scene.cell?_makeAll hplain s hskel
  rw [← run_eq] at hmade hcell
  refine ⟨hmade, fun c hnot => ?_⟩
  have hnone : Change.last? d c (e.changes now s) = none :=
    Change.last?_eq_none_iff.2 fun ch hch hc => hnot (hdriven ch hch c hc)
  rw [hcell, hnone, Option.getD_none]

/-! ## Running all tweens -/

/-- What each tween keeps that runs, all tweens keep. It may be about those that have run and
    those that have not. -/
theorem runAll_induction {I : List Entry → List Entry → Scene → Prop}
    (step : ∀ ran e rest s, I ran (e :: rest) s →
      I (ran ++ [(e.run now s).1]) rest (e.run now s).2)
    (ran : List Entry) (h : I ran es s) :
    I (ran ++ (runAll now es s).1) [] (runAll now es s).2 := by
  induction es generalizing ran s with
  | nil =>
    rw [runAll, List.append_nil]
    exact h
  | cons e es ih =>
    have hrest := ih _ (step ran e es s h)
    rw [List.append_assoc] at hrest
    exact hrest

/-- What is on the clock behind a run was there before and has run once. -/
theorem exists_of_mem_runAll (h : e ∈ (runAll now es s).1) :
    ∃ u ∈ es, ∃ s' : Scene, e = (u.run now s').1 := by
  induction es generalizing s with
  | nil => cases h
  | cons x es ih =>
    rcases List.mem_cons.1 h with rfl | h
    · exact ⟨x, List.mem_cons_self, s, rfl⟩
    · obtain ⟨u, hu, hrun⟩ := ih h
      exact ⟨u, List.mem_cons_of_mem _ hu, hrun⟩

/-- A tween that is pending behind a run was pending before, and has not begun. -/
theorem pending_of_run (h : (e.run now s).1.phase = .pending) :
    e.phase = .pending ∧ ¬ e.tween.Begun now := by
  have hstep := run_step now e s
  generalize e.run now s = r at h hstep
  cases hstep with
  | still hstill =>
    refine ⟨h, hstill.resolve_left fun hdone => ?_⟩
    rw [h] at hdone
    cases hdone
  | going => cases h
  | ending => cases h

/-- A tween that is done behind a run was done before, or is over. -/
theorem done_of_run (h : (e.run now s).1.phase = .done) :
    e.phase = .done ∨ e.tween.Over now := by
  have hstep := run_step now e s
  generalize e.run now s = r at h hstep
  cases hstep with
  | still => exact .inl h
  | going => cases h
  | ending _ hover => exact .inr hover

theorem done_of_over (h : e.tween.Over now) : (e.run now s).1.phase = .done := by
  have hstep := run_step now e s
  generalize e.run now s = r at hstep ⊢
  cases hstep with
  | still hstill => exact hstill.resolve_right fun hnot => hnot h.1
  | going _ _ hnot => exact absurd h hnot
  | ending => rfl

/-- What holds of any two tweens on the clock when both have run, given what held before. -/
theorem pairwise_runAll {R R' : Entry → Entry → Prop} (h : es.Pairwise R)
    (run : ∀ e u (s s' : Scene), R e u → R' (e.run now s).1 (u.run now s').1) (s : Scene) :
    (runAll now es s).1.Pairwise R' := by
  -- each has run once, though in a diagram that depends on those before it
  induction es generalizing s with
  | nil => exact .nil
  | cons e es ih =>
    obtain ⟨hfirst, hrest⟩ := List.pairwise_cons.1 h
    refine List.pairwise_cons.2 ⟨fun u hu => ?_, ih hrest _⟩
    obtain ⟨v, hv, s', rfl⟩ := exists_of_mem_runAll hu
    exact run e v s s' (hfirst v hv)

theorem sorted_runAll (h : Clock.Sorted es) : Clock.Sorted (runAll now es s).1 := by
  refine pairwise_runAll h (fun e u s s' hle => ?_) s
  rw [run_tween, run_tween]
  exact hle

/-- As long as a tween is pending, so are those that stand behind it. -/
def InOrder (es : List Entry) : Prop :=
  es.Pairwise fun e u => e.phase = .pending → u.phase = .pending

/-- Tweens that stand in the order of their starts begin in that order. -/
theorem InOrder.runAll (hsorted : Clock.Sorted es) (h : InOrder es) :
    InOrder (runAll now es s).1 := by
  refine pairwise_runAll (hsorted.and h) (fun e u s s' hboth hpending => ?_) s
  obtain ⟨hwas, hnot⟩ := pending_of_run hpending
  -- the first one has not begun, so the other one, which starts no sooner, has not either
  have hnot' : ¬ u.tween.Begun now := by
    unfold Tween.Begun at hnot ⊢
    rw [Decidable.not_not] at hnot ⊢
    exact Decimal.Number.lt_of_lt_of_le hnot hboth.1
  rw [run_of_still (.inr hnot')]
  exact hboth.2 hwas

end Entry

/-! ## Ticks -/

namespace Player

variable {κ : Type} {x : Player κ × Scene} {P : Float → List Entry → Scene → Prop}

/-- A property of the time, the tweens on the clock and the diagram holds whenever the tweens
    are about to run. -/
def Meets (P : Float → List Entry → Scene → Prop) (x : Player κ × Scene) : Tick → Prop
  | .advance dt => x.1.state = .playing → 0 ≤ dt →
      P (x.1.clock.elapsed + dt * x.1.clock.scale) x.1.clock.entries x.2
  | .fastForward => True

/-- The same in all of several ticks. -/
def Along (P : Float → List Entry → Scene → Prop) (x : Player κ × Scene) : List Tick → Prop
  | [] => True
  | t :: ticks => Meets P x t ∧ Along P (tick x t) ticks

instance [∀ now es s, Decidable (P now es s)] (x : Player κ × Scene) :
    (t : Tick) → Decidable (Meets P x t)
  | .advance _ => inferInstanceAs (Decidable (_ → _ → P _ _ _))
  | .fastForward => .isTrue trivial

instance decidableAlong [∀ now es s, Decidable (P now es s)] :
    (x : Player κ × Scene) → (ticks : List Tick) → Decidable (Along P x ticks)
  | _, [] => .isTrue trivial
  | x, t :: ticks => @instDecidableAnd _ _ _ (decidableAlong (tick x t) ticks)

theorem along_of_forall (h : ∀ now es s, P now es s) (x : Player κ × Scene) (ticks : List Tick) :
    Along P x ticks := by
  induction ticks generalizing x with
  | nil => trivial
  | cons t ticks ih =>
    refine ⟨?_, ih _⟩
    cases t with
    | advance dt => exact fun _ _ => h _ _ _
    | fastForward => trivial

/-- The clock of a player runs forwards. -/
structure InTime (p : Player κ) : Prop where
  elapsed : p.state = .playing → 0 ≤ p.clock.elapsed
  scale : p.clock.scale.isFinite = true ∧ 0 < p.clock.scale
  completed : p.state = .completed → ∀ e ∈ p.clock.entries, e.phase = .done

/-- Time that passes while an animation is playing lets all tweens run. -/
theorem InTime.advance_playing (h : InTime x.1) {dt : Float} (hplay : x.1.state = .playing)
    (hdt : 0 ≤ dt) :
    let now := x.1.clock.elapsed + dt * x.1.clock.scale
    0 ≤ now ∧ InTime (tick x (.advance dt)).1 ∧
      (tick x (.advance dt)).1.clock.entries = (Entry.runAll now x.1.clock.entries x.2).1 ∧
      (tick x (.advance dt)).2 = (Entry.runAll now x.1.clock.entries x.2).2 := by
  intro now
  have hnow : 0 ≤ now :=
    Decimal.nonneg_add (h.elapsed hplay) (Decimal.nonneg_mul hdt h.scale.2 h.scale.1)
  obtain ⟨hentries, hscene, hscale, hstate⟩ := Player.advance_playing hplay hdt x.2
  refine ⟨hnow, ⟨fun hplaying => ?_, ?_, fun hcompleted e he => ?_⟩, hentries, hscene⟩
  · -- the clock is set back only when the animation is complete
    rcases hstate with ⟨hcompleted, _⟩ | ⟨_, helapsed, _⟩
    · have hboth := hcompleted.symm.trans hplaying
      cases hboth
    · show 0 ≤ (x.1.advance dt x.2).1.clock.elapsed
      rw [helapsed]
      exact hnow
  · show (x.1.advance dt x.2).1.clock.scale.isFinite = true ∧ 0 < (x.1.advance dt x.2).1.clock.scale
    rw [hscale]
    exact h.scale
  · rcases hstate with ⟨_, hdone⟩ | ⟨hplaying, _⟩
    · exact hdone e (hentries ▸ he)
    · have hboth := hplaying.symm.trans hcompleted
      cases hboth

/-- Where no time passes, only that the animation is complete can turn out. -/
theorem InTime.advance_still (h : InTime x.1) {dt : Float}
    (hstill : x.1.state ≠ .playing ∨ ¬ 0 ≤ dt) :
    InTime (tick x (.advance dt)).1 ∧
      (tick x (.advance dt)).1.clock.entries = x.1.clock.entries ∧
      (tick x (.advance dt)).2 = x.2 := by
  obtain ⟨hclock, hscene, hstate⟩ := Player.advance_still dt x.2 hstill
  refine ⟨⟨fun hplaying => ?_, ?_, fun hcompleted e he => ?_⟩, congrArg Clock.entries hclock,
    hscene⟩
  · show 0 ≤ (x.1.advance dt x.2).1.clock.elapsed
    rw [hclock]
    rcases hstate with hsame | ⟨hcompleted, _⟩
    · exact h.elapsed (hsame.symm.trans hplaying)
    · have hboth := hcompleted.symm.trans hplaying
      cases hboth
  · show (x.1.advance dt x.2).1.clock.scale.isFinite = true ∧ 0 < (x.1.advance dt x.2).1.clock.scale
    rw [hclock]
    exact h.scale
  · have he' : e ∈ x.1.clock.entries := by
      rw [← hclock]
      exact he
    rcases hstate with hsame | ⟨_, hfinished⟩
    · exact h.completed (hsame.symm.trans hcompleted) e he'
    · exact Entry.isDone_iff.1 (List.all_eq_true.1 hfinished e he')

/-- Time that passes faster from now on changes nothing by itself. -/
theorem InTime.fastForward (h : InTime x.1) :
    InTime (tick x .fastForward).1 ∧
      (tick x .fastForward).1.clock.entries = x.1.clock.entries ∧
      (tick x .fastForward).2 = x.2 := by
  show InTime x.1.fastForward ∧ x.1.fastForward.clock.entries = x.1.clock.entries ∧ x.2 = x.2
  unfold Player.fastForward
  split
  · refine ⟨⟨fun hplaying => ?_, Clock.setScale_scale _ h.scale, fun hcompleted e he => ?_⟩,
      Clock.setScale_entries _ _, rfl⟩
    · show 0 ≤ (x.1.clock.setScale _).elapsed
      rw [Clock.setScale_elapsed]
      exact h.elapsed hplaying
    · rw [Clock.setScale_entries] at he
      exact h.completed hcompleted e he
  · exact ⟨h, rfl, rfl⟩

/-- A tick lets all tweens run, or leaves them and the diagram as they are. -/
theorem InTime.tick_cases (h : InTime x.1) (t : Tick) (hmeets : Meets P x t) :
    InTime (tick x t).1 ∧
      ((tick x t).1.clock.entries = x.1.clock.entries ∧ (tick x t).2 = x.2 ∨
        ∃ now, 0 ≤ now ∧ P now x.1.clock.entries x.2 ∧
          (tick x t).1.clock.entries = (Entry.runAll now x.1.clock.entries x.2).1 ∧
          (tick x t).2 = (Entry.runAll now x.1.clock.entries x.2).2) := by
  cases t with
  | advance dt =>
    by_cases hrunning : x.1.state = .playing ∧ 0 ≤ dt
    · obtain ⟨hnow, htime, hentries, hscene⟩ := h.advance_playing hrunning.1 hrunning.2
      exact ⟨htime, .inr ⟨_, hnow, hmeets hrunning.1 hrunning.2, hentries, hscene⟩⟩
    · obtain ⟨htime, hsame⟩ := h.advance_still (Decidable.not_and_iff_or_not.1 hrunning)
      exact ⟨htime, .inl hsame⟩
  | fastForward => exact ⟨h.fastForward.1, .inl h.fastForward.2⟩

/-- What all tweens keep that run one after another, several ticks keep. -/
theorem InTime.tickAll_induction {I : List Entry → Scene → Prop}
    (step : ∀ now es s, 0 ≤ now → P now es s → I es s →
      I (Entry.runAll now es s).1 (Entry.runAll now es s).2)
    (h : InTime x.1) (hstart : I x.1.clock.entries x.2) {ticks : List Tick}
    (halong : Along P x ticks) :
    InTime (tickAll x ticks).1 ∧ I (tickAll x ticks).1.clock.entries (tickAll x ticks).2 := by
  induction ticks generalizing x with
  | nil => exact ⟨h, hstart⟩
  | cons t ticks ih =>
    obtain ⟨hmeets, hrest⟩ := halong
    obtain ⟨htime, hcases⟩ := h.tick_cases t hmeets
    refine ih htime ?_ hrest
    rcases hcases with ⟨hentries, hscene⟩ | ⟨now, hnow, hP, hentries, hscene⟩
    · rw [hentries, hscene]
      exact hstart
    · rw [hentries, hscene]
      exact step now _ _ hnow hP hstart

/-- What all tweens keep that run one after another, holds whenever tweens run. -/
theorem InTime.along {I : List Entry → Scene → Prop}
    (step : ∀ now es s, 0 ≤ now → I es s → I (Entry.runAll now es s).1 (Entry.runAll now es s).2)
    (hP : ∀ now es s, 0 ≤ now → I es s → P now es s) (h : InTime x.1)
    (hstart : I x.1.clock.entries x.2) (ticks : List Tick) : Along P x ticks := by
  induction ticks generalizing x with
  | nil => trivial
  | cons t ticks ih =>
    have hmeets : Meets (fun _ es s => I es s) x t := by
      cases t with
      | advance dt => exact fun _ _ => hstart
      | fastForward => trivial
    obtain ⟨htime, hcases⟩ := h.tick_cases t hmeets
    refine ⟨?_, ih htime ?_⟩
    · cases t with
      | advance dt =>
        exact fun hplay hdt => hP _ _ _ (h.advance_playing hplay hdt).1 hstart
      | fastForward => trivial
    · rcases hcases with ⟨hentries, hscene⟩ | ⟨now, hnow, _, hentries, hscene⟩
      · rw [hentries, hscene]
        exact hstart
      · rw [hentries, hscene]
        exact step now _ _ hnow hstart

theorem Along.imp {Q : Float → List Entry → Scene → Prop} {ticks : List Tick}
    (h : Along P x ticks) (hPQ : ∀ now es s, P now es s → Q now es s) : Along Q x ticks := by
  induction ticks generalizing x with
  | nil => trivial
  | cons t ticks ih =>
    refine ⟨?_, ih h.2⟩
    cases t with
    | advance dt => exact fun hplay hdt => hPQ _ _ _ (h.1 hplay hdt)
    | fastForward => trivial

/-! ## Runs that complete -/

/-- If a run of pending tweens completes, every tween was over at some time. -/
theorem InTime.exists_over (h : InTime x.1) (hpending : ∀ e ∈ x.1.clock.entries, e.phase = .pending)
    (ticks : List Tick) (hcompleted : (tickAll x ticks).1.state = .completed) :
    ∀ e ∈ x.1.clock.entries, ∃ now, e.tween.Over now := by
  -- the tweens stay the same, and those that are done were over
  let I : List Entry → Scene → Prop := fun es _ =>
    es.map (·.tween) = x.1.clock.entries.map (·.tween) ∧
      ∀ e ∈ es, e.phase = .done → ∃ now, e.tween.Over now
  have hstart : I x.1.clock.entries x.2 := by
    refine ⟨rfl, fun e he hdone => ?_⟩
    rw [hpending e he] at hdone
    cases hdone
  have hrun := h.tickAll_induction (P := fun _ _ _ => True) (I := I) ?_ hstart
    (along_of_forall (fun _ _ _ => trivial) x ticks)
  · obtain ⟨htime, htweens, hover⟩ := hrun
    intro e he
    have hmem : e.tween ∈ (tickAll x ticks).1.clock.entries.map (·.tween) := by
      rw [htweens]
      exact List.mem_map_of_mem he
    obtain ⟨u, hu, htween⟩ := List.mem_map.1 hmem
    rw [← htween]
    exact hover u hu (htime.completed hcompleted u hu)
  · intro now es s _ _ hes
    refine ⟨(Entry.runAll_tweens now es s).trans hes.1, fun e he hdone => ?_⟩
    obtain ⟨u, hu, s', rfl⟩ := Entry.exists_of_mem_runAll he
    rw [Entry.run_tween]
    rcases Entry.done_of_run hdone with hdone | hover
    · exact hes.2 u hu hdone
    · exact ⟨now, hover⟩

/-! ## Plays -/

section Plays

variable {p : Player κ} {ds : List (Directive Float)} {request : κ} {d : Scene}

/-- A player that is about to play, and the diagram, in which all tokens are hidden. A play goes on
    from here with the tweens that begin at once, as time zero passes. -/
def opening (p : Player κ) (ds : List (Directive Float)) (request : κ) (d : Scene) :
    Player κ × Scene :=
  (p.begun ds request (hideTokens p.settings.tokens d), hideTokens p.settings.tokens d)

theorem scheduleAll_times (c : Clock) (ts : List (Tween Float)) :
    (c.scheduleAll ts).elapsed = c.elapsed ∧ (c.scheduleAll ts).scale = c.scale := by
  induction ts generalizing c with
  | nil => exact ⟨rfl, rfl⟩
  | cons t ts ih => exact ih (c.schedule t).2

theorem inTime_opening : InTime (p.opening ds request d).1 := by
  obtain ⟨helapsed, hscale⟩ :=
    scheduleAll_times (p.clock.cancelAll.setScale 1) (p.opening ds request d).1.plan
  refine ⟨fun _ => ?_, ?_, fun hcompleted => by cases hcompleted⟩
  · show 0 ≤ ((p.clock.cancelAll.setScale 1).scheduleAll (p.opening ds request d).1.plan).elapsed
    rw [helapsed, Clock.setScale_elapsed]
    show (0 : Float) ≤ 0
    decide +kernel
  · have hone : (p.clock.cancelAll.setScale 1).scale = 1 := by
      rw [Clock.setScale, if_pos (by decide +kernel)]
    have hunit : (1 : Float).isFinite = true ∧ (0 : Float) < 1 := by decide +kernel
    rw [← hone, ← hscale] at hunit
    exact hunit

theorem pending_opening : ∀ e ∈ (p.opening ds request d).1.clock.entries, e.phase = .pending := by
  intro e he
  rcases Clock.mem_scheduleAll he with he | ⟨_, hphase⟩
  · rw [Clock.setScale_entries] at he
    cases he
  · exact hphase

variable {ticks : List Tick}
  (hcompleted : (tickAll (p.started ds request d) ticks).1.state = .completed)
include hcompleted

/-- If a play completes, every tween of its clock was over at some time. -/
theorem over_opening : ∀ e ∈ (p.opening ds request d).1.clock.entries, ∃ now, e.tween.Over now :=
  inTime_opening.exists_over pending_opening (.advance 0 :: ticks) hcompleted

theorem numbers_opening :
    ∀ e ∈ (p.opening ds request d).1.clock.entries, e.tween.start ≤ e.tween.start := by
  intro e he
  obtain ⟨now, _, hle⟩ := over_opening hcompleted e he
  exact Decimal.Number.self_of_le_sub hle

/-- If a play completes, its tweens stand on the clock in the order of their starts. -/
theorem sorted_opening : Clock.Sorted (p.opening ds request d).1.clock.entries := by
  refine Clock.sorted_scheduleAll ?_ (numbers_opening hcompleted)
  rw [Clock.setScale_entries]
  exact .nil

end Plays

end Player

end Slideshow

/-
  Slideshow.Proofs.Timeline.Resting

  The diagram that an animation ends with does not depend on how time is cut up, on fast
  forwarding, or on whether the animation is finished at once (`rest_unique`), if the tweens
  of its plan do not get into each other's way. Two directives that bring one attribute to
  different goals in different times do (`rest_depends_on_pace`).
-/
import Slideshow.Proofs.Decimal.Sign
import Slideshow.Proofs.Scene.Condense
import Slideshow.Proofs.Scene.Import
import Slideshow.Proofs.Timeline.Course

namespace Slideshow

variable {d s : Scene} {ch : Change}

/-! ## Planned tweens -/

namespace Planner

theorem regular_of_steady {t : Tween Float} (hyoyo : t.yoyo = false)
    (hrestore : t.restore = false) : t.Regular where
  restore h := by
    rw [hyoyo] at h
    cases h
  attributes h := by
    rw [hrestore] at h
    cases h

variable {p : Planner Float Scene}

theorem regular_ways (group : String) (time : Float) (ws : List (PathSpec Float)) :
    ∀ t ∈ (p.ways group time ws).tweens, t.Regular := by
  induction ws generalizing time with
  | nil =>
    intro t ht
    cases ht
  | cons w ws ih =>
    intro t ht
    unfold ways at ht
    split at ht
    · exact ih time t ht
    · rcases List.mem_cons.1 ht with rfl | ht
      · exact regular_of_steady rfl rfl
      · exact ih _ t ht

theorem regular_packet (label : Option String) (start : Option Point)
    (paths : List (PathSpec Float)) (time : Float) (index : Nat) :
    ∀ t ∈ (p.packet label start paths time index).tweens, t.Regular := by
  intro t ht
  unfold packet at ht
  split at ht
  · cases ht
  · simp only [List.cons_append, List.mem_cons, List.mem_append] at ht
    rcases ht with rfl | (hlabel | hway) | rfl | hnone
    · exact regular_of_steady rfl rfl
    · obtain ⟨text, _, rfl⟩ := Option.map_eq_some_iff.1 (Option.mem_toList.1 hlabel)
      exact regular_of_steady rfl rfl
    · exact regular_ways _ _ _ t hway
    · exact regular_of_steady rfl rfl
    · cases hnone

/-- What goes back and forth gives back the attributes that it changes. -/
theorem regular_pulse (target : String) (duration : Option Float) (repetitions : Option Nat)
    (time : Float) : ∀ t ∈ p.pulse target duration repetitions time, t.Regular := by
  intro t ht
  unfold pulse at ht
  split at ht
  · cases ht
  · rw [List.mem_singleton.1 ht]
    refine ⟨fun _ => rfl, fun _ track htrack => ?_⟩
    rcases List.mem_cons.1 htrack with rfl | htrack
    · exact ⟨_, _, _, rfl⟩
    · rw [List.mem_singleton.1 htrack]
      exact ⟨_, _, _, rfl⟩

mutual

theorem regular_directive (time : Float) (index : Nat) : (x : Directive Float) →
    ∀ t ∈ (p.directive time index x).tweens, t.Regular
  | .packet label start paths => regular_packet label start paths time index
  | .pulse target duration repetitions => regular_pulse target duration repetitions time
  | .parallel ds => regular_block time 0 time ds
  | .camera .. => fun t ht => by
    rw [List.mem_singleton.1 ht]
    exact regular_of_steady rfl rfl
  | .setValue .. => fun t ht => by
    rw [List.mem_singleton.1 ht]
    exact regular_of_steady rfl rfl
  | .wait _ => fun t ht => by
    rw [List.mem_singleton.1 ht]
    exact regular_of_steady rfl rfl
  | .attributes .. => fun t ht => by
    rw [List.mem_singleton.1 ht]
    exact regular_of_steady rfl rfl

theorem regular_block (time : Float) (packets : Nat) (finish : Float) :
    (ds : List (Directive Float)) → ∀ t ∈ (p.block time packets finish ds).tweens, t.Regular
  | [] => fun t ht => by cases ht
  | x :: ds => fun t ht => by
    rcases List.mem_append.1 ht with ht | ht
    · exact regular_directive time _ x t ht
    · exact regular_block time _ _ ds t ht

end

theorem regular_sequence (time : Float) (ds : List (Directive Float)) :
    ∀ t ∈ (p.sequence time ds).tweens, t.Regular := by
  induction ds generalizing time with
  | nil =>
    intro t ht
    cases ht
  | cons x ds ih =>
    intro t ht
    rcases List.mem_append.1 ht with ht | ht
    · exact regular_directive time 0 x t ht
    · exact ih _ t ht

end Planner

/-! ## Mild tweens -/

/-- What a track writes to an element is no id, and no text in place of something that can be
    named. -/
def Track.Mild (d : Scene) (key : String) : Track → Prop
  | .attribute name _ _ => d.contains key = true → name ≠ "id"
  | .text _ => d.Closed key
  | .viewport _ => True
  | .motion .. => True

instance (d : Scene) (key : String) : (track : Track) → Decidable (track.Mild d key)
  | .attribute name _ _ => inferInstanceAs (Decidable (d.contains key = true → name ≠ "id"))
  | .text _ => inferInstanceAs (Decidable (d.Closed key))
  | .viewport _ => .isTrue trivial
  | .motion .. => .isTrue trivial

namespace Tween

variable {t : Tween Float}

/-- All tracks of the tween write mildly. -/
def Mild (t : Tween Float) (d : Scene) : Prop :=
  ∀ key ∈ t.target.key?, ∀ track ∈ t.tracks, track.Mild d key

instance (t : Tween Float) (d : Scene) : Decidable (t.Mild d) :=
  inferInstanceAs (Decidable (∀ key ∈ t.target.key?, ∀ track ∈ t.tracks, track.Mild d key))

theorem Mild.writeChanges (h : t.Mild d) {states : List TrackState} {progress : Float}
    {complete : Bool} (hch : ch ∈ t.writeChanges states progress complete) : ch.Mild d := by
  obtain ⟨⟨track, state⟩, hmem, hchange⟩ := List.mem_filterMap.1 hch
  have htrack := (List.of_mem_zip hmem).1
  unfold trackChange? at hchange
  split at hchange
  · rename_i heq
    cases heq
    obtain ⟨key, hkey, hchange⟩ := Option.bind_eq_some_iff.1 hchange
    obtain ⟨v, _, rfl⟩ := Option.map_eq_some_iff.1 hchange
    exact h key hkey _ htrack
  · rename_i heq
    cases heq
    obtain ⟨key, hkey, hchange⟩ := Option.bind_eq_some_iff.1 hchange
    split at hchange
    · cases hchange
      exact h key hkey _ htrack
    · cases hchange
  · cases hchange
    trivial
  · obtain ⟨key, hkey, hchange⟩ := Option.bind_eq_some_iff.1 hchange
    obtain ⟨v, _, rfl⟩ := Option.map_eq_some_iff.1 hchange
    exact fun _ => by decide
  · cases hchange

theorem Mild.settleChanges (h : t.Mild d) {saved : List (String × Option String)}
    (hsaved : t.Owns saved) (hch : ch ∈ t.settleChanges saved) : ch.Mild d := by
  unfold Tween.settleChanges at hch
  split at hch
  · cases hch
  · rename_i key hkey
    split at hch
    · obtain ⟨e, he, rfl⟩ := List.mem_map.1 hch
      obtain ⟨start, goal, htrack⟩ := hsaved e he
      exact h key hkey _ htrack
    · cases hch

theorem Mild.plain (h : t.Mild d) : t.Plain d.condense := by
  intro s progress complete ch hch
  rw [Change.plain_condense_iff]
  rcases List.mem_append.1 hch with hch | hch
  · exact h.writeChanges hch
  · split at hch
    · exact h.settleChanges (t.owns_saved s) hch
    · cases hch

/-! ## Tweens on condensed diagrams -/

theorem drives_condense_iff {c : Cell} : t.Drives d.condense c ↔ t.Drives d c := by
  have hresolve : d.condense.resolve? = d.resolve? := funext d.resolve?_condense
  have hcell : t.trackCell? d.condense = t.trackCell? d := by
    funext track
    cases track <;> simp only [trackCell?, hresolve]
  rw [Drives, Drives, hcell]

theorem Orderly.condense {u : Tween Float} (h : t.Orderly d u) : t.Orderly d.condense u := by
  have hreads : ∀ {v : Tween Float} {c : Cell}, v.Reads d.condense c ↔ v.Reads d c := by
    intro v c
    rw [Reads, Reads, drives_condense_iff]
  refine ⟨fun c ht hu => ?_, fun c ht hu => ?_, fun c ht hu => ?_⟩
  · exact h.ends c (drives_condense_iff.1 ht) (drives_condense_iff.1 hu)
  · exact h.written c (drives_condense_iff.1 ht) (hreads.1 hu)
  · exact h.read c (hreads.1 ht) (drives_condense_iff.1 hu)

theorem firstPhase_condense (t : Tween Float) (s : Scene) :
    t.firstPhase s.condense = t.firstPhase s := by
  have hcurrent : ∀ name, t.current? s.condense name = t.current? s name := by
    intro name
    unfold current?
    cases t.target.key? with
    | none => rfl
    | some key => exact s.attribute?_condense key name
  have hstate : t.trackState s.condense = t.trackState s := by
    funext track
    cases track with
    | text | viewport | motion => rfl
    | _ name start goal => simp only [trackState, hcurrent]
  have hsaved : t.saved? s.condense = t.saved? s := by
    funext track
    cases track <;> simp only [saved?, hcurrent]
  rw [firstPhase, firstPhase, hstate, hsaved]

end Tween

namespace Entry

variable {e : Entry} {es : List Entry} {now : Float}

theorem Sound.mild_of_mem_changes (h : e.Sound) (hmild : e.tween.Mild d)
    (hch : ch ∈ e.changes now s) : ch.Mild d := by
  unfold changes at hch
  split at hch
  · cases hch
  · cases hbegun : e.begun s with
    | active tracks saved =>
      rw [hbegun] at hch
      rcases List.mem_append.1 hch with hch | hch
      · exact hmild.writeChanges hch
      · split at hch
        · exact hmild.settleChanges (owns_begun h hbegun) hch
        · cases hch
    | pending =>
      rw [hbegun] at hch
      cases hch
    | done =>
      rw [hbegun] at hch
      cases hch

theorem begun_condense (e : Entry) (s : Scene) : e.begun s.condense = e.begun s := by
  unfold begun
  rw [Tween.firstPhase_condense]

/-- A tween that writes mildly goes along with condensing. -/
theorem run_condense (h : e.Sound) (hmild : e.tween.Mild d)
    (hskel : s.condense.skeleton = d.condense.skeleton) :
    e.run now s.condense = ((e.run now s).1, (e.run now s).2.condense) := by
  have hphase : (e.run now s.condense).1 = (e.run now s).1 := by
    unfold run
    rw [begun_condense]
    split
    · rfl
    · cases e.begun s with
      | active tracks saved =>
        simp only
        split <;> rfl
      | pending => rfl
      | done => rfl
  have hchanges : e.changes now s.condense = e.changes now s := by
    unfold changes
    rw [begun_condense]
  refine Prod.ext hphase ?_
  show (e.run now s.condense).2 = (e.run now s).2.condense
  rw [run_eq, run_eq, hchanges]
  refine (Scene.makeAll_condense (fun ch hch => ?_) s hskel).symm
  exact (ch.plain_condense_iff d).2 (h.mild_of_mem_changes hmild hch)

theorem skeleton_run (h : e.Sound) (hmild : e.tween.Mild d)
    (hskel : s.condense.skeleton = d.condense.skeleton) :
    (e.run now s).2.condense.skeleton = d.condense.skeleton := by
  have hplain : ∀ ch ∈ e.changes now s, ch.Plain d.condense :=
    fun ch hch => (ch.plain_condense_iff d).2 (h.mild_of_mem_changes hmild hch)
  rw [run_eq, Scene.makeAll_condense hplain s hskel]
  exact (Scene.cell?_makeAll hplain _ hskel).1

/-- Tweens that write mildly go along with condensing. -/
theorem runAll_condense (h : ∀ e ∈ es, e.Sound ∧ e.tween.Mild d)
    (hskel : s.condense.skeleton = d.condense.skeleton) :
    runAll now es s.condense = ((runAll now es s).1, (runAll now es s).2.condense) := by
  induction es generalizing s with
  | nil => rfl
  | cons e es ih =>
    obtain ⟨hsound, hmild⟩ := h e List.mem_cons_self
    have hrest := ih (fun e' he' => h e' (List.mem_cons_of_mem _ he'))
      (skeleton_run hsound hmild hskel : (e.run now s).2.condense.skeleton = _)
    rw [runAll, run_condense hsound hmild hskel]
    simp only
    rw [hrest]
    rfl

theorem isDone_iff : e.isDone = true ↔ e.phase = .done := by
  rw [isDone, beq_iff_eq]

end Entry

/-! ## Playing -/

/-- What lets a running animation go on: some time passes, or time passes faster from now on. -/
inductive Player.Tick where
  | advance (dt : Float)
  | fastForward

namespace Player

variable {κ : Type} {p : Player κ} {ts : List (Tween Float)}

/-- The player and the diagram behind a tick. -/
def tick (x : Player κ × Scene) : Tick → Player κ × Scene
  | .advance dt => ((x.1.advance dt x.2).1, (x.1.advance dt x.2).2.1)
  | .fastForward => (x.1.fastForward, x.2)

/-- The player and the diagram behind several ticks. -/
def tickAll (x : Player κ × Scene) (ticks : List Tick) : Player κ × Scene := ticks.foldl tick x

/-- A player in the midst of tweens that began in a diagram. -/
structure OnCourse (d : Scene) (ts : List (Tween Float)) (x : Player κ × Scene) : Prop where
  course : Entry.OnCourse d.condense ts x.1.clock.entries x.2.condense
  sound : ∀ e ∈ x.1.clock.entries, e.Sound
  elapsed : x.1.state = .playing → 0 ≤ x.1.clock.elapsed
  scale : x.1.clock.scale.isFinite = true ∧ 0 < x.1.clock.scale
  completed : x.1.state = .completed → ∀ e ∈ x.1.clock.entries, e.phase = .done

/-- What a running animation does in some time. -/
theorem advance_playing (hplay : p.state = .playing) {dt : Float} (hdt : 0 ≤ dt) (s : Scene) :
    let now := p.clock.elapsed + dt * p.clock.scale
    let r := Entry.runAll now p.clock.entries s
    let q := p.advance dt s
    q.1.clock.entries = r.1 ∧ q.2.1 = r.2 ∧ q.1.clock.scale = p.clock.scale ∧
      (q.1.state = .completed ∧ (∀ e ∈ r.1, e.phase = .done) ∨
        q.1.state = .playing ∧ q.1.clock.elapsed = now ∧ ¬ ∀ e ∈ r.1, e.phase = .done) := by
  intro now r q
  have hall : ∀ c : Clock, c.isFinished = true ↔ ∀ e ∈ c.entries, e.phase = .done := by
    intro c
    rw [Clock.isFinished, List.all_eq_true]
    exact forall₂_congr fun e _ => Entry.isDone_iff
  have hq : q = p.advance dt s := rfl
  unfold Player.advance at hq
  rw [if_pos (isPlaying_iff.2 hplay)] at hq
  simp only [Clock.advance, if_pos hdt] at hq
  by_cases hdone : ∀ e ∈ r.1, e.phase = .done
  · have hfinished := (hall { p.clock with entries := r.1, elapsed := now }).2 hdone
    rw [if_pos hfinished] at hq
    have hfinished' := (hall { p.clock with
      entries := r.1
      elapsed := Scalar.earlier now
        ({ p.clock with entries := r.1, elapsed := now } : Clock).duration }).2 hdone
    rw [if_pos hfinished'] at hq
    rw [hq]
    exact ⟨rfl, rfl, rfl, .inl ⟨rfl, hdone⟩⟩
  · have hfinished := fun h => hdone ((hall { p.clock with entries := r.1, elapsed := now }).1 h)
    rw [if_neg hfinished, if_neg hfinished] at hq
    rw [hq]
    exact ⟨rfl, rfl, rfl, .inr ⟨hplay, rfl, hdone⟩⟩

/-- Where no time passes, an animation can at most turn out to be complete. -/
theorem advance_still (dt : Float) (s : Scene) (h : p.state ≠ .playing ∨ ¬ 0 ≤ dt) :
    let q := p.advance dt s
    q.1.clock = p.clock ∧ q.2.1 = s ∧
      (q.1.state = p.state ∨ q.1.state = .completed ∧ p.clock.isFinished = true) := by
  intro q
  have hq : q = p.advance dt s := rfl
  unfold Player.advance at hq
  by_cases hplay : p.state = .playing
  · have hdt : ¬ 0 ≤ dt := h.resolve_left fun hne => hne hplay
    rw [if_pos (isPlaying_iff.2 hplay)] at hq
    simp only [Clock.advance, if_neg hdt] at hq
    by_cases hfinished : p.clock.isFinished = true
    · rw [if_pos hfinished] at hq
      rw [hq]
      exact ⟨rfl, rfl, .inr ⟨rfl, hfinished⟩⟩
    · rw [if_neg hfinished] at hq
      rw [hq]
      exact ⟨rfl, rfl, .inl rfl⟩
  · rw [if_neg fun hplaying => hplay (isPlaying_iff.1 hplaying)] at hq
    rw [hq]
    exact ⟨rfl, rfl, .inl rfl⟩

namespace OnCourse

variable {x : Player κ × Scene} (h : OnCourse d ts x) (harranged : Tween.Arranged d.condense ts)
  (hmild : ∀ t ∈ ts, t.Mild d)

include h in
theorem mild_of_mem (hmild : ∀ t ∈ ts, t.Mild d) :
    ∀ e ∈ x.1.clock.entries, e.Sound ∧ e.tween.Mild d := by
  intro e he
  obtain ⟨i, he'⟩ := List.mem_iff_getElem?.1 he
  exact ⟨h.sound e he, hmild _ (List.mem_of_getElem? (h.course.tween? he'))⟩

include h in
/-- Where tweens and diagram stay as they are, a player stays on course. -/
theorem of_same {y : Player κ × Scene} (hentries : y.1.clock.entries = x.1.clock.entries)
    (hscene : y.2 = x.2) (helapsed : y.1.state = .playing → 0 ≤ y.1.clock.elapsed)
    (hscale : y.1.clock.scale.isFinite = true ∧ 0 < y.1.clock.scale)
    (hcompleted : y.1.state = .completed → ∀ e ∈ x.1.clock.entries, e.phase = .done) :
    OnCourse d ts y where
  course := by
    rw [hentries, hscene]
    exact h.course
  sound := by
    rw [hentries]
    exact h.sound
  elapsed := helapsed
  scale := hscale
  completed := by
    rw [hentries]
    exact hcompleted

include h in
/-- Where no time passes, a player stays on course. -/
theorem advance_still {dt : Float} (hstill : x.1.state ≠ .playing ∨ ¬ 0 ≤ dt) :
    OnCourse d ts (Player.tick x (.advance dt)) := by
  obtain ⟨hclock, hscene, hstate⟩ := x.1.advance_still dt x.2 hstill
  have htick : Player.tick x (.advance dt) =
      ((x.1.advance dt x.2).1, (x.1.advance dt x.2).2.1) := rfl
  rw [htick]
  generalize x.1.advance dt x.2 = q at *
  refine h.of_same (congrArg Clock.entries hclock) hscene ?_ ?_ ?_
  · intro hplaying
    rw [hclock]
    rcases hstate with hstate | ⟨hcompleted, _⟩
    · exact h.elapsed (hstate ▸ hplaying)
    · rw [hplaying] at hcompleted
      cases hcompleted
  · rw [hclock]
    exact h.scale
  · intro hcompleted e he
    rcases hstate with hstate | ⟨_, hfinished⟩
    · exact h.completed (hstate ▸ hcompleted) e he
    · exact Entry.isDone_iff.1 (List.all_eq_true.1 hfinished e he)

include h in
/-- A faster pace keeps the course. -/
theorem fastForward : OnCourse d ts (Player.tick x .fastForward) := by
  show OnCourse d ts (x.1.fastForward, x.2)
  unfold Player.fastForward
  split
  · refine h.of_same (Clock.setScale_entries _ _) rfl ?_ (Clock.setScale_scale _ h.scale)
      h.completed
    intro hplaying
    show 0 ≤ (x.1.clock.setScale _).elapsed
    rw [Clock.setScale_elapsed]
    exact h.elapsed hplaying
  · exact h

include h harranged hmild

/-- Time that passes keeps the course, and then every tween is as far as it can be. -/
theorem advance_playing (hplay : x.1.state = .playing) {dt : Float} (hdt : 0 ≤ dt) :
    OnCourse d ts (tick x (.advance dt)) ∧ ∀ e ∈ (tick x (.advance dt)).1.clock.entries,
      e.Ran (x.1.clock.elapsed + dt * x.1.clock.scale) := by
  obtain ⟨hentries, hscene, hscale, hstate⟩ := x.1.advance_playing hplay hdt x.2
  have hnow := Decimal.nonneg_add (h.elapsed hplay)
    (Decimal.nonneg_mul hdt h.scale.2 h.scale.1)
  generalize x.1.clock.elapsed + dt * x.1.clock.scale = now at *
  obtain ⟨hcourse, hran⟩ := h.course.runAll harranged hnow
  rw [Entry.runAll_condense (h.mild_of_mem hmild) h.course.skeleton] at hcourse hran
  have htick : tick x (.advance dt) = ((x.1.advance dt x.2).1, (x.1.advance dt x.2).2.1) := rfl
  rw [htick]
  generalize x.1.advance dt x.2 = q at *
  refine ⟨⟨?_, ?_, ?_, ?_, ?_⟩, hentries ▸ hran⟩
  · show Entry.OnCourse _ _ q.1.clock.entries q.2.1.condense
    rw [hentries, hscene]
    exact hcourse
  · intro e he
    obtain ⟨e', he', _, hsound⟩ := Entry.runAll_entries _ _ _ e (hentries ▸ he)
    exact hsound (h.sound e' he')
  · intro hplaying
    rcases hstate with ⟨hcompleted, _⟩ | ⟨_, helapsed, _⟩
    · rw [hplaying] at hcompleted
      cases hcompleted
    · show 0 ≤ q.1.clock.elapsed
      rw [helapsed]
      exact hnow
  · show q.1.clock.scale.isFinite = true ∧ 0 < q.1.clock.scale
    rw [hscale]
    exact h.scale
  · intro hcompleted e he
    rcases hstate with ⟨_, hdone⟩ | ⟨hplaying, _, _⟩
    · exact hdone e (hentries ▸ he)
    · rw [hplaying] at hcompleted
      cases hcompleted

/-- Every tick keeps the course. -/
theorem tick (t : Tick) : OnCourse d ts (Player.tick x t) := by
  cases t with
  | advance dt =>
    by_cases hrunning : x.1.state = .playing ∧ 0 ≤ dt
    · exact (h.advance_playing harranged hmild hrunning.1 hrunning.2).1
    · exact h.advance_still (Decidable.not_and_iff_or_not.1 hrunning)
  | fastForward => exact h.fastForward

theorem tickAll (ticks : List Tick) : OnCourse d ts (Player.tickAll x ticks) := by
  induction ticks generalizing x with
  | nil => exact h
  | cons t ticks ih => exact ih (h.tick harranged hmild t)

end OnCourse

/-- A player that begins is on course. -/
theorem onCourse_begun {ds : List (Directive Float)} {request : κ}
    (harranged : Tween.Arranged d.condense (p.begun ds request d).clock.tweens) :
    OnCourse d (p.begun ds request d).clock.tweens (p.begun ds request d, d) := by
  have hpending : ∀ e ∈ (p.begun ds request d).clock.entries, e.phase = .pending := by
    intro e he
    rcases Clock.mem_scheduleAll he with he | ⟨_, hphase⟩
    · rw [Clock.setScale_entries] at he
      cases he
    · exact hphase
  have hclock : ∀ (ts : List (Tween Float)) (c : Clock),
      (c.scheduleAll ts).elapsed = c.elapsed ∧ (c.scheduleAll ts).scale = c.scale := by
    intro ts
    induction ts with
    | nil => exact fun c => ⟨rfl, rfl⟩
    | cons t ts ih => exact fun c => ih (c.schedule t).2
  obtain ⟨helapsed, hscale⟩ := hclock (p.begun ds request d).plan (p.clock.cancelAll.setScale 1)
  have hone : (p.clock.cancelAll.setScale 1).scale = 1 := by
    rw [Clock.setScale, if_pos (by decide +kernel)]
  refine ⟨.of_pending harranged rfl hpending, ?_, ?_, ?_, ?_⟩
  · exact fun e he => ((p.sound_begun ds request d) e he).2
  · intro _
    show 0 ≤ ((p.clock.cancelAll.setScale 1).scheduleAll (p.begun ds request d).plan).elapsed
    rw [helapsed, Clock.setScale_elapsed]
    show (0 : Float) ≤ 0
    decide +kernel
  · have hunit : (1 : Float).isFinite = true ∧ (0 : Float) < 1 := by decide +kernel
    rw [← hone, ← hscale] at hunit
    exact hunit
  · intro hcompleted
    cases hcompleted

theorem tweens_advance (p : Player κ) (dt : Float) (s : Scene) :
    (p.advance dt s).1.clock.tweens = p.clock.tweens := by
  by_cases hrunning : p.state = .playing ∧ 0 ≤ dt
  · obtain ⟨hentries, _⟩ := p.advance_playing hrunning.1 hrunning.2 s
    rw [Clock.tweens, hentries, Entry.runAll_tweens]
    rfl
  · rw [(p.advance_still dt s (Decidable.not_and_iff_or_not.1 hrunning)).1]

theorem regular_begun {ds : List (Directive Float)} {request : κ} :
    ∀ t ∈ (p.begun ds request d).clock.tweens, t.Regular := by
  intro t ht
  obtain ⟨e, he, rfl⟩ := List.mem_map.1 ht
  exact Planner.regular_sequence _ ds _ ((p.sound_begun ds request d) e he).1

/-! ## The resting diagram -/

/-- The player and the diagram behind a play. -/
def started (p : Player κ) (ds : List (Directive Float)) (request : κ) (d : Scene) :
    Player κ × Scene :=
  ((p.play ds request d).1, (p.play ds request d).2.1)

/-- A play leaves an animation that runs, or one that is complete. -/
theorem started_state (p : Player κ) (ds : List (Directive Float)) (request : κ) (d : Scene) :
    (p.started ds request d).1.state = .playing ∨
      (p.started ds request d).1.state = .completed := by
  show (p.play ds request d).1.state = .playing ∨ (p.play ds request d).1.state = .completed
  have hprogress := p.play_progress ds request d
  generalize (p.play ds request d).2.2 = back at hprogress
  cases hprogress with
  | running hplay => exact .inl hplay
  | complete hdone => exact .inr hdone

/-- What has been complete at some time is complete in the end. -/
theorem over_infinity {t : Tween Float} {now : Float} (h : t.Over now) : t.Over (1 / 0) :=
  ⟨Decimal.not_infinity_lt _, Decimal.le_infinity_sub h.1 h.2⟩

/-- If every tween can be complete, a running animation can be finished. -/
theorem OnCourse.completed_finish {x : Player κ × Scene} (h : OnCourse d ts x)
    (harranged : Tween.Arranged d.condense ts) (hmild : ∀ t ∈ ts, t.Mild d)
    (hover : ∀ t ∈ ts, ∃ now, t.Over now)
    (hstate : x.1.state = .playing ∨ x.1.state = .completed) :
    (x.1.finish x.2).1.state = .completed := by
  rcases hstate with hplay | hcompleted
  · have hdt : (0 : Float) ≤ 1 / 0 := by decide +kernel
    obtain ⟨hcourse, hran⟩ := h.advance_playing harranged hmild hplay hdt
    rw [Decimal.add_infinity_mul (h.elapsed hplay) h.scale.2 h.scale.1] at hran
    obtain ⟨hentries, _, _, hstate⟩ := x.1.advance_playing hplay hdt x.2
    rcases hstate with ⟨hcompleted, _⟩ | ⟨_, _, hnot⟩
    · exact hcompleted
    · refine absurd (fun e he => ?_) hnot
      rw [← hentries] at he
      obtain ⟨i, hi⟩ := List.mem_iff_getElem?.1 he
      obtain ⟨now, hnow⟩ := hover e.tween (List.mem_of_getElem? (hcourse.course.tween? hi))
      exact (hran e he).done (over_infinity hnow)
  · have hstill : x.1.state ≠ .playing ∨ ¬ (0 : Float) ≤ 1 / 0 := by
      rw [hcompleted]
      exact .inl Playback.noConfusion
    obtain ⟨_, _, hsame | ⟨hdone, _⟩⟩ := x.1.advance_still (1 / 0) x.2 hstill
    · exact hsame.trans hcompleted
    · exact hdone

/-- An animation whose tweens do not get into each other's way ends with one diagram, whether
    it is finished at once or runs at any pace. -/
theorem rest_unique {p : Player κ} {ds : List (Directive Float)} {request : κ} {d : Scene}
    (hmild : ∀ t ∈ (p.started ds request d).1.clock.tweens,
      t.Mild (hideTokens p.settings.tokens d))
    (horderly : (p.started ds request d).1.clock.tweens.Pairwise
      (Tween.Orderly (hideTokens p.settings.tokens d)))
    {ticks : List Tick}
    (hcompleted : (tickAll (p.started ds request d) ticks).1.state = .completed) :
    let q := p.started ds request d
    let f := q.1.finish q.2
    let r := tickAll q ticks
    f.1.state = .completed ∧ f.2.1.ids = r.2.ids ∧
      (∀ key, f.2.1.text? key = r.2.text? key ∧
        ∀ name, f.2.1.attribute? key name = r.2.attribute? key name) ∧
      f.2.1.viewport? = r.2.viewport? := by
  intro q f r
  have hq : q = tick (p.begun ds request (hideTokens p.settings.tokens d),
    hideTokens p.settings.tokens d) (.advance 0) := rfl
  generalize hideTokens p.settings.tokens d = s at hmild horderly hq
  have htweens : q.1.clock.tweens = (p.begun ds request s).clock.tweens := by
    rw [hq]
    exact tweens_advance _ 0 s
  have hsame : (p.started ds request d).1.clock.tweens = (p.begun ds request s).clock.tweens :=
    htweens
  rw [hsame] at hmild horderly
  have harranged : Tween.Arranged s.condense (p.begun ds request s).clock.tweens :=
    { regular := regular_begun
      plain := fun t ht => (hmild t ht).plain
      orderly := horderly.imp fun h => h.condense }
  have hcourse : OnCourse s (p.begun ds request s).clock.tweens q := by
    rw [hq]
    exact (onCourse_begun harranged).tick harranged hmild (.advance 0)
  have hr : OnCourse s _ r := hcourse.tickAll harranged hmild ticks
  have hf : OnCourse s _ (tick q (.advance (1 / 0))) :=
    hcourse.tick harranged hmild (.advance (1 / 0))
  have hrdone := hr.completed hcompleted
  -- the run that was completed shows that every tween can be, so finishing completes them all
  have hover : ∀ t ∈ (p.begun ds request s).clock.tweens, ∃ now, t.Over now := by
    intro t ht
    obtain ⟨i, hi⟩ := List.mem_iff_getElem?.1 ht
    obtain ⟨e, he, rfl⟩ := hr.course.exists_entry hi
    have hmem := List.mem_of_getElem? he
    exact hr.course.elapsed e hmem (hrdone e hmem)
  have hfinished :=
    hcourse.completed_finish harranged hmild hover (p.started_state ds request d)
  have hfdone := hf.completed hfinished
  -- both ways end where the tweens end that run one after another
  have hralike := hr.course.alike harranged hrdone
  have hfalike := hf.course.alike harranged hfdone
  have halike : Scene.Alike f.2.1.condense r.2.condense :=
    ⟨hfalike.skeleton.trans hralike.skeleton.symm,
      fun c => (hfalike.cells c).trans (hralike.cells c).symm⟩
  refine ⟨hfinished, ?_, fun key => ⟨?_, fun name => ?_⟩, ?_⟩
  · rw [← f.2.1.ids_condense, halike.ids, r.2.ids_condense]
  · rw [← f.2.1.text?_condense, halike.text?, r.2.text?_condense]
  · rw [← f.2.1.attribute?_condense, halike.attribute?, r.2.attribute?_condense]
  · rw [← f.2.1.viewport?_condense, halike.viewport?, r.2.viewport?_condense]

/-- A camera that moves, a shape that blinks, and an attribute that two directives change
    alongside each other. -/
theorem rest_unique_demo :
    let d : Scene :=
      { namespaces := []
        tag := ⟨none, "svg", [("viewBox", "0 0 10 10")]⟩
        children := [
          .element ⟨some "r", "rect", [("id", "r"), ("class", "a")]⟩ [],
          .element ⟨some "t", "text", [("id", "t")]⟩ [.element ⟨none, "tspan", []⟩ [.text "1"]]]
        detached := [] }
    let ds : List (Directive Float) := [.parallel [
      .attributes "r" (.ofList [("class", "b")]) (some 2) none,
      .camera ⟨0, 0, 5, 5⟩ (some 1) none, .pulse "r" none none, .setValue "t" "2",
      .attributes "r" (.ofList [("class", "c")]) (some 2) none]]
    let ticks : List Tick := [.advance 0.5, .fastForward, .advance 0.125, .advance 5]
    (∀ t ∈ ((new .usual).started ds 0 d).1.clock.tweens,
        t.Mild (hideTokens Settings.usual.tokens d)) ∧
      ((new .usual).started ds 0 d).1.clock.tweens.Pairwise
        (Tween.Orderly (hideTokens Settings.usual.tokens d)) ∧
      (tickAll ((new .usual).started ds 0 d) ticks).1.state = .completed ∧
      (tickAll ((new .usual).started ds 0 d) ticks).2.attribute? "r" "class" =
        (((new .usual).started ds 0 d).1.finish
          ((new .usual).started ds 0 d).2).2.1.attribute? "r" "class" := by
  intro d ds ticks
  have hmild : ∀ t ∈ ((new .usual).started ds 0 d).1.clock.tweens,
      t.Mild (hideTokens Settings.usual.tokens d) := by decide +kernel
  have hpairs : ((new .usual).started ds 0 d).1.clock.tweens.Pairwise fun t u =>
      t.Apart (hideTokens Settings.usual.tokens d) u ∨ t.Alongside u := by decide +kernel
  have horderly : ((new .usual).started ds 0 d).1.clock.tweens.Pairwise
      (Tween.Orderly (hideTokens Settings.usual.tokens d)) :=
    hpairs.imp fun h => h.elim Tween.Apart.orderly Tween.Alongside.orderly
  have hcompleted : (tickAll ((new .usual).started ds 0 d) ticks).1.state = .completed := by
    decide +kernel
  obtain ⟨_, _, hread, _⟩ :=
    @rest_unique Nat (new .usual) ds 0 d hmild horderly ticks hcompleted
  exact ⟨hmild, horderly, hcompleted, ((hread "r").2 "class").symm⟩

/-- Of two directives that change an attribute at once the later one in the plan wins if the
    animation is finished at once, and the longer one if it runs. -/
theorem rest_depends_on_pace :
    ∃ d, Scene.load "<svg><rect id=\"r\" fill=\"green\"/></svg>" = .ok d ∧
      let ds : List (Directive Float) := [.parallel [
        .attributes "r" (.ofList [("fill", "red")]) (some 2) none,
        .attributes "r" (.ofList [("fill", "blue")]) (some 1) none]]
      let q := (new .usual).started ds 0 d
      (q.1.finish q.2).1.state = .completed ∧
        (q.1.finish q.2).2.1.attribute? "r" "fill" = some "blue" ∧
        (tickAll q [.advance 1, .advance 1]).1.state = .completed ∧
        (tickAll q [.advance 1, .advance 1]).2.attribute? "r" "fill" = some "red" := by
  obtain ⟨d, hload, hcheck⟩ := Scene.exists_load_of_any
    "<svg><rect id=\"r\" fill=\"green\"/></svg>" (fun d =>
      let ds : List (Directive Float) := [.parallel [
        .attributes "r" (.ofList [("fill", "red")]) (some 2) none,
        .attributes "r" (.ofList [("fill", "blue")]) (some 1) none]]
      let q := (new .usual).started ds 0 d
      decide ((q.1.finish q.2).1.state = .completed ∧
        (q.1.finish q.2).2.1.attribute? "r" "fill" = some "blue" ∧
        (tickAll q [.advance 1, .advance 1]).1.state = .completed ∧
        (tickAll q [.advance 1, .advance 1]).2.attribute? "r" "fill" = some "red"))
    (by decide +kernel)
  exact ⟨d, hload, of_decide_eq_true hcheck⟩

end Player

end Slideshow

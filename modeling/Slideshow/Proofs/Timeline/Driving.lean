/-
  Slideshow.Proofs.Timeline.Driving

  Which cells an animation can write. The tweens on a player's clock are those of its plan,
  and what they save for later is named by their own tracks (`Player.Sound`); so a
  running animation only changes cells that its plan drives (`Sound.driven_advanceChanges`).
-/
import Slideshow.Proofs.Timeline.Changes
import Slideshow.Proofs.Timeline.Playback

namespace Slideshow

variable {S : Type} [Stage S] {d : Scene} {c : Cell}

/-! ## Tweens -/

namespace Tween

/-- The cell that a track of a tween writes, if the diagram has it. -/
def trackCell? (t : Tween Float) (d : Scene) : Track → Option Cell
  | .attribute name _ _ =>
    (t.target.key?.bind d.resolve?).map fun a => ⟨a, .attribute name⟩
  | .text _ => (t.target.key?.bind d.resolve?).map fun a => ⟨a, .text⟩
  | .viewport _ => some .camera
  | .motion .. => (t.target.key?.bind d.resolve?).map fun a => ⟨a, .attribute "transform"⟩

/-- A track of the tween writes the cell. -/
def Drives (t : Tween Float) (d : Scene) (c : Cell) : Prop :=
  ∃ track ∈ t.tracks, t.trackCell? d track = some c

instance (t : Tween Float) (d : Scene) (c : Cell) : Decidable (t.Drives d c) :=
  inferInstanceAs (Decidable (∃ track ∈ t.tracks, _))

/-- The saved values are those of attributes that the tween drives. -/
def Owns (t : Tween Float) (saved : List (String × Option String)) : Prop :=
  ∀ e ∈ saved, ∃ start goal, .attribute e.1 start goal ∈ t.tracks

/-- A track changes its own cell. -/
theorem cell?_trackChange {t : Tween Float} {progress : Float} {complete : Bool} {track : Track}
    {state : TrackState} {ch : Change}
    (h : t.trackChange? progress complete (track, state) = some ch) :
    ch.cell? d = t.trackCell? d track := by
  unfold trackChange? at h
  split at h
  · -- an attribute that is blended
    rename_i heq
    cases heq
    obtain ⟨key, hkey, h⟩ := Option.bind_eq_some_iff.1 h
    obtain ⟨v, _, rfl⟩ := Option.map_eq_some_iff.1 h
    simp only [trackCell?, hkey, Option.bind_some, Change.cell?]
  · -- a text, which is set at the end
    rename_i heq
    cases heq
    obtain ⟨key, hkey, h⟩ := Option.bind_eq_some_iff.1 h
    split at h
    · cases h
      simp only [trackCell?, hkey, Option.bind_some, Change.cell?]
    · cases h
  · -- the camera
    rename_i heq
    cases heq
    cases h
    rfl
  · -- a token that travels along a path
    rename_i heq
    cases heq
    obtain ⟨key, hkey, h⟩ := Option.bind_eq_some_iff.1 h
    obtain ⟨v, _, rfl⟩ := Option.map_eq_some_iff.1 h
    simp only [trackCell?, hkey, Option.bind_some, Change.cell?]
  · cases h

theorem drives_of_mem_writeChanges {t : Tween Float} {states : List TrackState} {progress : Float}
    {complete : Bool} {ch : Change} (h : ch ∈ t.writeChanges states progress complete)
    (hc : ch.cell? d = some c) : t.Drives d c := by
  obtain ⟨⟨track, state⟩, hmem, hch⟩ := List.mem_filterMap.1 h
  exact ⟨track, (List.of_mem_zip hmem).1, (cell?_trackChange hch).symm.trans hc⟩

theorem drives_of_mem_settleChanges {t : Tween Float} {saved : List (String × Option String)}
    (hsaved : t.Owns saved) {ch : Change} (h : ch ∈ t.settleChanges saved)
    (hc : ch.cell? d = some c) : t.Drives d c := by
  unfold settleChanges at h
  split at h
  · cases h
  · rename_i key hkey
    split at h
    · obtain ⟨e, he, rfl⟩ := List.mem_map.1 h
      obtain ⟨start, goal, htrack⟩ := hsaved e he
      refine ⟨_, htrack, ?_⟩
      rw [← hc]
      simp only [trackCell?, hkey, Option.bind_some, Change.cell?]
    · cases h

end Tween

/-! ## Entries -/

namespace Entry

/-- What a running tween has saved belongs to it. -/
def Sound (e : Entry) : Prop :=
  ∀ tracks saved, e.phase = .active tracks saved → e.tween.Owns saved

/-- What a tween saves when it begins belongs to it. -/
theorem owns_begun {e : Entry} (h : e.Sound) {s : S} {tracks : List TrackState}
    {saved : List (String × Option String)} (hbegun : e.begun s = .active tracks saved) :
    e.tween.Owns saved := by
  unfold begun at hbegun
  split at hbegun
  · -- it begins now, and only tracks of attributes save something
    cases hbegun
    intro x hx
    obtain ⟨track, hmem, hsaved⟩ := List.mem_filterMap.1 hx
    unfold Tween.saved? at hsaved
    split at hsaved
    · rename_i name start goal
      split at hsaved
      · cases hsaved
        exact ⟨start, goal, hmem⟩
      · cases hsaved
    · cases hsaved
  · rename_i phase hphase
    exact h tracks saved hbegun

theorem run_tween (e : Entry) (now : Float) (s : S) : (e.run now s).1.tween = e.tween := by
  unfold run
  split
  · rfl
  · cases e.begun s with
    | active tracks saved =>
      simp only
      split <;> rfl
    | pending => rfl
    | done => rfl

theorem Sound.run {e : Entry} (h : e.Sound) (now : Float) (s : S) : (e.run now s).1.Sound := by
  unfold Entry.run
  split
  · exact h
  · cases hbegun : e.begun s with
    | active tracks saved =>
      simp only
      split
      · -- a tween that is done has nothing saved any more
        intro _ _ hphase
        cases hphase
      · intro _ _ hphase
        cases hphase
        exact owns_begun h hbegun
    | pending => exact h
    | done => exact h

theorem Sound.drives_of_mem_changes {e : Entry} (h : e.Sound) {now : Float} {s : S} {ch : Change}
    (hch : ch ∈ e.changes now s) (hc : ch.cell? d = some c) : e.tween.Drives d c := by
  unfold changes at hch
  split at hch
  · cases hch
  · cases hbegun : e.begun s with
    | active tracks saved =>
      rw [hbegun] at hch
      -- the values of its tracks, and at its end the values that it saved
      rcases List.mem_append.1 hch with hch | hch
      · exact Tween.drives_of_mem_writeChanges hch hc
      · split at hch
        · exact Tween.drives_of_mem_settleChanges (owns_begun h hbegun) hch hc
        · cases hch
    | pending =>
      rw [hbegun] at hch
      cases hch
    | done =>
      rw [hbegun] at hch
      cases hch

theorem runAll_tweens (now : Float) (es : List Entry) (s : S) :
    (runAll now es s).1.map (·.tween) = es.map (·.tween) := by
  induction es generalizing s with
  | nil => rfl
  | cons e es ih =>
    rw [List.map_cons, ← e.run_tween now s, ← ih (e.run now s).2]
    rfl

/-- Running entries keeps them sound and keeps their tweens. -/
theorem runAll_entries (now : Float) (es : List Entry) (s : S) :
    ∀ e ∈ (runAll now es s).1, ∃ e' ∈ es, e.tween = e'.tween ∧ (e'.Sound → e.Sound) := by
  induction es generalizing s with
  | nil =>
    intro e he
    cases he
  | cons x es ih =>
    intro e he
    rcases List.mem_cons.1 he with rfl | he
    · exact ⟨x, List.mem_cons_self, x.run_tween now s, fun hx => hx.run now s⟩
    · obtain ⟨e', hmem, hsame⟩ := ih _ e he
      exact ⟨e', List.mem_cons_of_mem _ hmem, hsame⟩

theorem drives_of_mem_allChanges {now : Float} {es : List Entry} (h : ∀ e ∈ es, e.Sound) {s : S}
    {ch : Change} (hch : ch ∈ allChanges now es s) (hc : ch.cell? d = some c) :
    ∃ e ∈ es, e.tween.Drives d c := by
  induction es generalizing s with
  | nil => cases hch
  | cons x es ih =>
    rcases List.mem_append.1 hch with hch | hch
    · exact ⟨x, List.mem_cons_self, (h x List.mem_cons_self).drives_of_mem_changes hch hc⟩
    · obtain ⟨e, hmem, hdrives⟩ := ih (fun e he => h e (List.mem_cons_of_mem _ he)) hch
      exact ⟨e, List.mem_cons_of_mem _ hmem, hdrives⟩

end Entry

/-! ## The player -/

namespace Clock

theorem mem_schedule {c : Clock} {t : Tween Float} {e : Entry} (h : e ∈ (c.schedule t).2.entries) :
    e ∈ c.entries ∨ (e.tween = t ∧ e.phase = .pending) := by
  have hmem : e = ⟨c.nextHandle, t, .pending⟩ ∨ e ∈ c.entries := by
    rcases Nat.lt_or_ge c.entries.length
      (insertionIndex (c.entries.map fun e => e.tween.start).toArray t.start) with hlt | hle
    · rw [schedule, List.insertIdx_of_length_lt hlt] at h
      exact .inr h
    · exact (List.mem_insertIdx hle).1 h
  rcases hmem with rfl | hmem
  · exact .inr ⟨rfl, rfl⟩
  · exact .inl hmem

theorem mem_scheduleAll {c : Clock} {ts : List (Tween Float)} {e : Entry}
    (h : e ∈ (c.scheduleAll ts).entries) : e ∈ c.entries ∨ (e.tween ∈ ts ∧ e.phase = .pending) := by
  induction ts generalizing c with
  | nil => exact .inl h
  | cons t ts ih =>
    rcases ih h with h | ⟨hmem, hphase⟩
    · rcases mem_schedule h with h | ⟨rfl, hphase⟩
      · exact .inl h
      · exact .inr ⟨List.mem_cons_self, hphase⟩
    · exact .inr ⟨List.mem_cons_of_mem _ hmem, hphase⟩

@[simp] theorem setScale_entries (c : Clock) (scale : Float) :
    (c.setScale scale).entries = c.entries := by
  unfold setScale
  split <;> rfl

theorem setScale_elapsed (c : Clock) (scale : Float) : (c.setScale scale).elapsed = c.elapsed := by
  unfold setScale
  split <;> rfl

theorem setScale_scale (c : Clock) {scale : Float}
    (h : c.scale.isFinite = true ∧ 0 < c.scale) :
    (c.setScale scale).scale.isFinite = true ∧ 0 < (c.setScale scale).scale := by
  unfold setScale
  split
  · rename_i hscale
    rw [Bool.and_eq_true, decide_eq_true_iff] at hscale
    exact hscale
  · exact h

theorem advance_entries (c : Clock) (dt : Float) (s : S) :
    ∀ e ∈ (c.advance dt s).1.entries,
      ∃ e' ∈ c.entries, e.tween = e'.tween ∧ (e'.Sound → e.Sound) := by
  intro e he
  unfold advance at he
  split at he
  · have he' : e ∈ (Entry.runAll (c.elapsed + dt * c.scale) c.entries s).1 := by
      simp only at he
      split at he <;> exact he
    exact Entry.runAll_entries _ _ _ e he'
  · exact ⟨e, he, rfl, id⟩

end Clock

namespace Player

variable {κ : Type} {p : Player κ}

/-- The clock runs tweens of the plan, and what they have saved belongs to them. -/
def Sound (p : Player κ) : Prop := ∀ e ∈ p.clock.entries, e.tween ∈ p.plan ∧ e.Sound

theorem sound_new (settings : Settings) : (new settings : Player κ).Sound := fun _ he => by cases he

theorem sound_begun (p : Player κ) (ds : List (Directive Float)) (request : κ) (s : S) :
    (p.begun ds request s).Sound := by
  intro e he
  rcases Clock.mem_scheduleAll he with he | ⟨hmem, hphase⟩
  · -- the clock was cleared before the plan was scheduled
    rw [Clock.setScale_entries] at he
    cases he
  · refine ⟨hmem, fun tracks saved hactive => ?_⟩
    rw [hphase] at hactive
    cases hactive

@[simp] theorem advance_plan (p : Player κ) (dt : Float) (s : S) :
    (p.advance dt s).1.plan = p.plan := by
  unfold advance
  split
  · simp only
    split <;> rfl
  · rfl

theorem Sound.advance (h : p.Sound) (dt : Float) (s : S) : (p.advance dt s).1.Sound := by
  intro e he
  rw [advance_plan]
  have hentries : e ∈ p.clock.entries ∨ e ∈ (p.clock.advance dt s).1.entries := by
    unfold Player.advance at he
    split at he
    · simp only at he
      split at he <;> exact .inr he
    · exact .inl he
  rcases hentries with he | he
  · exact h e he
  · obtain ⟨e', hmem, htween, hsound⟩ := p.clock.advance_entries dt s e he
    exact ⟨htween ▸ (h e' hmem).1, hsound (h e' hmem).2⟩

theorem Sound.play (ds : List (Directive Float)) (request : κ) (s : S) :
    (p.play ds request s).1.Sound := by
  rw [play_eq]
  exact (p.sound_begun ds request _).advance 0 _

theorem Sound.stop (s : S) : (p.stop s).1.Sound := fun _ he => by cases he

theorem Sound.fastForward (h : p.Sound) : p.fastForward.Sound := by
  unfold Player.fastForward
  split
  · intro e he
    rw [Clock.setScale_entries] at he
    exact h e he
  · exact h

/-- Every change that is made while time passes is about a cell that a tween of the plan
    drives. -/
theorem Sound.driven_advanceChanges (h : p.Sound) (dt : Float) (s : S) :
    ∀ ch ∈ p.advanceChanges dt s, ∀ d c, ch.cell? d = some c → ∃ t ∈ p.plan, t.Drives d c := by
  intro ch hch d c hc
  unfold advanceChanges Clock.changes at hch
  split at hch
  · split at hch
    · obtain ⟨e, hmem, hdrives⟩ := Entry.drives_of_mem_allChanges (fun e he => (h e he).2) hch hc
      exact ⟨e.tween, (h e hmem).1, hdrives⟩
    · cases hch
  · cases hch

end Player

end Slideshow

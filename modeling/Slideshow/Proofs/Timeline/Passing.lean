/-
  Slideshow.Proofs.Timeline.Passing

  What time does to one tween on a clock, whatever the diagram is: a tween that is done, or has
  not begun, is left alone; one under way makes changes of its own tracks; and where it is
  complete it sets its texts and is done (`Entry.run_pass`). So phases go one way
  (`Phase.Onward`), and a text is set when its tween becomes done, not before and not later
  (`Entry.texts_changes`). With their handles, the changes of all tweens are `Entry.issued`.
-/
import Slideshow.Proofs.Timeline.Course

namespace Slideshow

variable {S : Type} [Stage S]

/-! ## Phases -/

/-- A phase is followed by another one: from pending to active to done, and what an active
    tween has kept stays. -/
inductive Phase.Onward : Phase → Phase → Prop
  | same (p : Phase) : Onward p p
  | begin (tracks : List TrackState) (saved : List (String × Option String)) :
      Onward .pending (.active tracks saved)
  | done (p : Phase) : Onward p .done

theorem Phase.Onward.trans {p q r : Phase} (h : p.Onward q) (h' : q.Onward r) : p.Onward r := by
  cases h' with
  | same => exact h
  | done => exact .done p
  | «begin» tracks saved =>
    cases h
    exact .begin tracks saved

/-! ## Changes of a tween -/

/-- The change is about a text. -/
def Change.isText : Change → Bool
  | text .. => true
  | _ => false

namespace Tween

variable {t : Tween Float} {states : List TrackState} {progress : Float} {complete : Bool}

/-- The text that a track sets, if the tween has an element to set it on. -/
def text? (t : Tween Float) : Track → Option Change
  | .text value => t.target.key?.map fun key => .text key value
  | _ => none

/-- The texts that a tween sets, in the order of its tracks. -/
def texts (t : Tween Float) : List Change := t.tracks.filterMap t.text?

/-- A track of the tween drives what is changed. -/
def Writes (t : Tween Float) : Change → Prop
  | .text key value => t.target.key? = some key ∧ .text value ∈ t.tracks
  | .attribute key name _ =>
    t.target.key? = some key ∧
      ((∃ start goal, .attribute name start goal ∈ t.tracks) ∨
        (name = "transform" ∧
          ∃ reference path start stop, .motion reference path start stop ∈ t.tracks))
  | .camera _ => ∃ goal, .viewport goal ∈ t.tracks

/-- A track changes what it drives. -/
theorem writes_trackChange {track : Track} {state : TrackState} (htrack : track ∈ t.tracks)
    {ch : Change} (h : t.trackChange? progress complete (track, state) = some ch) :
    t.Writes ch := by
  unfold trackChange? at h
  split at h
  · rename_i name start goal blend heq
    cases heq
    obtain ⟨key, hkey, h⟩ := Option.bind_eq_some_iff.1 h
    obtain ⟨v, _, rfl⟩ := Option.map_eq_some_iff.1 h
    exact ⟨hkey, .inl ⟨start, goal, htrack⟩⟩
  · rename_i value _ heq
    cases heq
    obtain ⟨key, hkey, h⟩ := Option.bind_eq_some_iff.1 h
    split at h
    · cases h
      exact ⟨hkey, htrack⟩
    · cases h
  · rename_i goal _ heq
    cases heq
    cases h
    exact ⟨goal, htrack⟩
  · rename_i reference path start stop _ heq
    cases heq
    obtain ⟨key, hkey, h⟩ := Option.bind_eq_some_iff.1 h
    obtain ⟨v, _, rfl⟩ := Option.map_eq_some_iff.1 h
    exact ⟨hkey, .inr ⟨rfl, reference, path, start, stop, htrack⟩⟩
  · cases h

theorem writes_of_mem_writeChanges {ch : Change}
    (h : ch ∈ t.writeChanges states progress complete) : t.Writes ch := by
  obtain ⟨⟨track, state⟩, hmem, hch⟩ := List.mem_filterMap.1 h
  exact writes_trackChange (List.of_mem_zip hmem).1 hch

/-- What is given back are attributes that the tween drives. -/
theorem writes_of_mem_settleChanges {saved : List (String × Option String)} (howns : t.Owns saved)
    {ch : Change} (h : ch ∈ t.settleChanges saved) : t.Writes ch := by
  unfold settleChanges at h
  split at h
  · cases h
  · rename_i key hkey
    split at h
    · obtain ⟨e, he, rfl⟩ := List.mem_map.1 h
      exact ⟨hkey, .inl (howns e he)⟩
    · cases h

/-- No text is given back. -/
theorem filter_settleChanges (saved : List (String × Option String)) :
    (t.settleChanges saved).filter Change.isText = [] := by
  refine List.filter_eq_nil_iff.2 fun ch hch => ?_
  unfold settleChanges at hch
  split at hch
  · cases hch
  · split at hch
    · obtain ⟨e, _, rfl⟩ := List.mem_map.1 hch
      exact Bool.false_ne_true
    · cases hch

/-- Tracks for something else set no texts. -/
theorem isText_trackChange {track : Track} {state : TrackState} {ch : Change}
    (h : t.trackChange? progress complete (track, state) = some ch) (htext : t.text? track = none) :
    ch.isText = false := by
  unfold trackChange? at h
  split at h
  · obtain ⟨key, _, h⟩ := Option.bind_eq_some_iff.1 h
    obtain ⟨v, _, rfl⟩ := Option.map_eq_some_iff.1 h
    rfl
  · rename_i heq
    cases heq
    obtain ⟨key, hkey, _⟩ := Option.bind_eq_some_iff.1 h
    rw [text?, hkey] at htext
    cases htext
  · cases h
    rfl
  · obtain ⟨key, _, h⟩ := Option.bind_eq_some_iff.1 h
    obtain ⟨v, _, rfl⟩ := Option.map_eq_some_iff.1 h
    rfl
  · cases h

/-- A track sets a text if it is one for a text and the tween is complete. -/
theorem filter_trackChange (track : Track) (state : TrackState) :
    (t.trackChange? progress complete (track, state)).filter Change.isText =
      if complete then t.text? track else none := by
  cases htext : t.text? track with
  | none =>
    have hnone : (t.trackChange? progress complete (track, state)).filter Change.isText = none :=
      Option.filter_eq_none_iff.2 fun ch hch => by simp [isText_trackChange hch htext]
    rw [hnone, ite_self]
  | some ch =>
    cases track with
    | text value =>
      obtain ⟨key, hkey, rfl⟩ := Option.map_eq_some_iff.1 htext
      simp only [trackChange?, hkey, Option.bind_some]
      cases complete <;> rfl
    | _ => cases htext

/-- When the tween is complete, all its texts are set, and none before. -/
theorem filter_writeChanges (hlength : states.length = t.tracks.length) :
    (t.writeChanges states progress complete).filter Change.isText =
      if complete then t.texts else [] := by
  have htrack : ∀ x : Track × TrackState,
      (t.trackChange? progress complete x).filter Change.isText =
        if complete then t.text? x.1 else none := fun x => filter_trackChange x.1 x.2
  rw [writeChanges, List.filter_filterMap, funext htrack]
  cases complete with
  | false => exact List.filterMap_eq_nil_iff.2 fun _ _ => rfl
  | true =>
    have hzip : (t.tracks.zip states).map Prod.fst = t.tracks :=
      List.map_fst_zip (Nat.le_of_eq hlength.symm)
    simp only [if_true, texts]
    conv_rhs => rw [← hzip, List.filterMap_map]
    rfl

end Tween

/-! ## Running one tween -/

namespace Entry

variable {e e' : Entry} {now : Float} {s : S}

/-- What a tween under way has kept belongs to it, and there is something for each track. -/
structure Fits (e : Entry) : Prop where
  sound : e.Sound
  length : ∀ tracks saved, e.phase = .active tracks saved →
    tracks.length = e.tween.tracks.length

theorem fits_pending (handle : Nat) (t : Tween Float) : Fits ⟨handle, t, .pending⟩ where
  sound _ _ h := by cases h
  length _ _ h := by cases h

/-- What it has kept when it is under way, it has kept before or keeps now. -/
theorem Fits.length_begun (h : e.Fits) {tracks : List TrackState}
    {saved : List (String × Option String)} (hbegun : e.begun s = .active tracks saved) :
    tracks.length = e.tween.tracks.length := by
  unfold begun at hbegun
  split at hbegun
  · cases hbegun
    exact List.length_map _
  · exact h.length tracks saved hbegun

/-- What letting a tween run can do: the entry that is left, and the changes that are made. -/
inductive Pass (now : Float) (e : Entry) (s : S) : Entry → List Change → Prop
  /-- It is done already or has not begun. -/
  | still (h : e.phase = .done ∨ ¬ e.tween.Begun now) : Pass now e s e []
  /-- It writes, and goes on. -/
  | going {tracks : List TrackState} {saved : List (String × Option String)}
      (hbegun : e.tween.Begun now) (hnot : ¬ e.tween.Over now) (hdone : e.phase ≠ .done)
      (hphase : e.begun s = .active tracks saved) :
      Pass now e s { e with phase := .active tracks saved }
        (e.tween.writeChanges tracks (e.tween.progress (now - e.tween.start)) false)
  /-- It writes for the last time and gives back what it has saved. -/
  | ending {tracks : List TrackState} {saved : List (String × Option String)}
      (hover : e.tween.Over now) (hdone : e.phase ≠ .done)
      (hphase : e.begun s = .active tracks saved) :
      Pass now e s { e with phase := .done }
        (e.tween.writeChanges tracks (e.tween.progress (now - e.tween.start)) true ++
          e.tween.settleChanges saved)

theorem exists_begun (h : e.phase ≠ .done) (s : S) :
    ∃ tracks saved, e.begun s = .active tracks saved := by
  unfold begun
  cases hphase : e.phase with
  | pending => exact ⟨_, _, rfl⟩
  | active tracks saved => exact ⟨tracks, saved, rfl⟩
  | done => exact absurd hphase h

theorem run_pass (now : Float) (e : Entry) (s : S) :
    Pass now e s (e.run now s).1 (e.changes now s) := by
  by_cases hstill : e.phase = .done ∨ ¬ e.tween.Begun now
  · have hguard : (e.isDone || decide (now < e.tween.start)) = true := by
      rw [Bool.or_eq_true, isDone, beq_iff_eq, decide_eq_true_iff]
      exact hstill.imp_right Decidable.not_not.1
    rw [run, changes, if_pos hguard, if_pos hguard]
    exact .still hstill
  · rw [not_or, Decidable.not_not] at hstill
    obtain ⟨hdone, hbegun⟩ := hstill
    obtain ⟨tracks, saved, hphase⟩ := exists_begun hdone s
    have hguard : ¬ (e.isDone || decide (now < e.tween.start)) = true := by
      rw [Bool.or_eq_true, isDone, beq_iff_eq, decide_eq_true_iff, not_or]
      exact ⟨hdone, hbegun⟩
    rw [run, changes, if_neg hguard, if_neg hguard, hphase]
    by_cases hcomplete : e.tween.total ≤ now - e.tween.start
    · simp only [hcomplete, decide_true, if_true]
      exact .ending ⟨hbegun, hcomplete⟩ hdone hphase
    · simp only [hcomplete, decide_false, Bool.false_eq_true, if_false, List.append_nil]
      exact .going hbegun (fun hover => hcomplete hover.2) hdone hphase

/-- The same tween later, after the clock has let its tweens run at some times. -/
structure Follows (nows : List Float) (e e' : Entry) : Prop where
  handle : e'.handle = e.handle
  tween : e'.tween = e.tween
  onward : e.phase.Onward e'.phase
  done : e'.phase = .done ↔ e.phase = .done ∨ ∃ now ∈ nows, e.tween.Over now

theorem Follows.refl (e : Entry) : e.Follows [] e where
  handle := rfl
  tween := rfl
  onward := .same _
  done := by simp only [List.not_mem_nil, false_and, exists_false, or_false]

theorem Follows.trans {e'' : Entry} {nows nows' : List Float} (h : e.Follows nows e')
    (h' : e'.Follows nows' e'') : e.Follows (nows ++ nows') e'' where
  handle := h'.handle.trans h.handle
  tween := h'.tween.trans h.tween
  onward := h.onward.trans h'.onward
  done := by
    rw [h'.done, h.done, h.tween, or_assoc]
    simp only [List.mem_append, or_and_right, exists_or]

/-- Running a tween leads on, and to its end where it is complete. -/
theorem run_follows (now : Float) (e : Entry) (s : S) : e.Follows [now] (e.run now s).1 := by
  have hpass := run_pass now e s
  generalize (e.run now s).1 = e', e.changes now s = chs at hpass
  have honly : (∃ now' ∈ [now], e.tween.Over now') ↔ e.tween.Over now := by simp
  cases hpass with
  | still hstill =>
    refine ⟨rfl, rfl, .same _, ?_⟩
    rw [honly]
    refine ⟨.inl, fun h => ?_⟩
    rcases h with h | hover
    · exact h
    · exact hstill.resolve_right fun hnot => hnot hover.1
  | going hbegun hnot hdone hphase =>
    refine ⟨rfl, rfl, ?_, ?_⟩
    · rcases hpending : e.phase with _ | ⟨tracks, saved⟩ | _
      · exact .begin _ _
      · rw [begun, hpending] at hphase
        cases hphase
        exact .same _
      · exact absurd hpending hdone
    · rw [honly]
      refine ⟨?_, fun h => ?_⟩
      · intro hactive
        cases hactive
      · rcases h with h | hover
        · exact absurd h hdone
        · exact absurd hover hnot
  | ending hover hdone hphase =>
    refine ⟨rfl, rfl, .done _, ?_⟩
    rw [honly]
    exact ⟨fun _ => .inr hover, fun _ => rfl⟩

theorem Fits.run (h : e.Fits) (now : Float) (s : S) : (e.run now s).1.Fits := by
  refine ⟨h.sound.run now s, fun tracks saved hactive => ?_⟩
  have hpass := run_pass now e s
  generalize (e.run now s).1 = e', e.changes now s = chs at hpass hactive
  cases hpass with
  | still => exact h.length tracks saved hactive
  | going _ _ _ hphase =>
    cases hactive
    exact h.length_begun hphase
  | ending => cases hactive

/-- A tween changes only what it drives, and only while it is under way. -/
theorem Fits.of_mem_changes (h : e.Fits) {ch : Change} (hch : ch ∈ e.changes now s) :
    e.phase ≠ .done ∧ e.tween.Begun now ∧ e.tween.Writes ch := by
  have hpass := run_pass now e s
  generalize (e.run now s).1 = e', e.changes now s = chs at hpass hch
  cases hpass with
  | still => cases hch
  | going hbegun _ hdone => exact ⟨hdone, hbegun, Tween.writes_of_mem_writeChanges hch⟩
  | ending hover hdone hphase =>
    refine ⟨hdone, hover.1, ?_⟩
    rcases List.mem_append.1 hch with hch | hch
    · exact Tween.writes_of_mem_writeChanges hch
    · exact Tween.writes_of_mem_settleChanges (owns_begun h.sound hphase) hch

/-- A tween sets its texts exactly when it becomes done. -/
theorem Fits.texts_changes (h : e.Fits) (now : Float) (s : S) :
    (e.changes now s).filter Change.isText =
      if e.phase ≠ .done ∧ e.tween.Over now then e.tween.texts else [] := by
  have hpass := run_pass now e s
  generalize (e.run now s).1 = e', e.changes now s = chs at hpass
  cases hpass with
  | still hstill =>
    refine (if_neg fun ⟨hdone, hover⟩ => ?_).symm
    exact hstill.elim hdone fun hnot => hnot hover.1
  | going _ hnot _ hphase =>
    rw [Tween.filter_writeChanges (h.length_begun hphase), if_neg Bool.false_ne_true]
    exact (if_neg fun hboth => hnot hboth.2).symm
  | ending hover hdone hphase =>
    rw [List.filter_append, Tween.filter_writeChanges (h.length_begun hphase),
      Tween.filter_settleChanges, List.append_nil, if_pos rfl]
    exact (if_pos ⟨hdone, hover⟩).symm

/-! ## Running all tweens -/

/-- The changes that tweens make one after another, each with the handle of its tween. -/
def issued (now : Float) : List Entry → S → List (Nat × Change)
  | [], _ => []
  | e :: es, s => (e.changes now s).map (Prod.mk e.handle) ++ issued now es (e.run now s).2

theorem map_snd_issued (now : Float) (es : List Entry) (s : S) :
    (issued now es s).map Prod.snd = allChanges now es s := by
  induction es generalizing s with
  | nil => rfl
  | cons e es ih =>
    rw [issued, allChanges, List.map_append, List.map_map, ih]
    exact congrArg (· ++ _) (List.map_id _)

variable {es : List Entry}

/-- What is on the clock behind a run was there before. -/
theorem exists_origin_runAll (h : e' ∈ (runAll now es s).1) : ∃ e ∈ es, e.Follows [now] e' ∧
    (e.Fits → e'.Fits) := by
  induction es generalizing s with
  | nil => cases h
  | cons e es ih =>
    rcases List.mem_cons.1 h with rfl | h
    · exact ⟨e, List.mem_cons_self, run_follows now e s, fun hfits => hfits.run now s⟩
    · obtain ⟨e, he, hrest⟩ := ih h
      exact ⟨e, List.mem_cons_of_mem _ he, hrest⟩

/-- What is on the clock before a run is there behind it. -/
theorem exists_follows_runAll (h : e ∈ es) (s : S) :
    ∃ e' ∈ (runAll now es s).1, e.Follows [now] e' := by
  induction es generalizing s with
  | nil => cases h
  | cons x es ih =>
    rcases List.mem_cons.1 h with rfl | h
    · exact ⟨_, List.mem_cons_self, run_follows now e s⟩
    · obtain ⟨e', he', hfollows⟩ := ih h (x.run now s).2
      exact ⟨e', List.mem_cons_of_mem _ he', hfollows⟩

theorem handles_runAll (now : Float) (es : List Entry) (s : S) :
    (runAll now es s).1.map (·.handle) = es.map (·.handle) := by
  induction es generalizing s with
  | nil => rfl
  | cons e es ih =>
    rw [runAll, List.map_cons, List.map_cons, (run_follows now e s).handle, ih]

/-- Every change is one of a tween that is under way, and drives what is changed. -/
theorem exists_of_mem_issued (hfits : ∀ e ∈ es, e.Fits) {i : Nat × Change}
    (h : i ∈ issued now es s) :
    ∃ e ∈ es, e.handle = i.1 ∧ e.phase ≠ .done ∧ e.tween.Begun now ∧ e.tween.Writes i.2 := by
  induction es generalizing s with
  | nil => cases h
  | cons x es ih =>
    rcases List.mem_append.1 h with h | h
    · obtain ⟨ch, hch, rfl⟩ := List.mem_map.1 h
      exact ⟨x, List.mem_cons_self, rfl, (hfits x List.mem_cons_self).of_mem_changes hch⟩
    · obtain ⟨e, he, hrest⟩ := ih (fun e he => hfits e (List.mem_cons_of_mem _ he)) h
      exact ⟨e, List.mem_cons_of_mem _ he, hrest⟩

/-- Under a handle that no tween has, nothing is changed. -/
theorem ne_of_mem_issued {handle : Nat} (h : ∀ e ∈ es, e.handle ≠ handle) {i : Nat × Change}
    (hi : i ∈ issued now es s) : i.1 ≠ handle := by
  induction es generalizing s with
  | nil => cases hi
  | cons x es ih =>
    rcases List.mem_append.1 hi with hi | hi
    · obtain ⟨ch, _, rfl⟩ := List.mem_map.1 hi
      exact h x List.mem_cons_self
    · exact ih (fun e he => h e (List.mem_cons_of_mem _ he)) hi

/-- The texts that are set under a handle. -/
def textsOf (handle : Nat) (is : List (Nat × Change)) : List Change :=
  (is.filter fun i => i.1 == handle && i.2.isText).map Prod.snd

theorem textsOf_append (handle : Nat) (is is' : List (Nat × Change)) :
    textsOf handle (is ++ is') = textsOf handle is ++ textsOf handle is' := by
  rw [textsOf, List.filter_append, List.map_append]
  rfl

theorem textsOf_of_ne {handle : Nat} {is : List (Nat × Change)} (h : ∀ i ∈ is, i.1 ≠ handle) :
    textsOf handle is = [] := by
  refine List.map_eq_nil_iff.2 (List.filter_eq_nil_iff.2 fun i hi => ?_)
  simp [h i hi]

theorem textsOf_own (handle : Nat) (chs : List Change) :
    textsOf handle (chs.map (Prod.mk handle)) = chs.filter Change.isText := by
  rw [textsOf, List.filter_map, List.map_map]
  simp only [Function.comp_def, beq_self_eq_true, Bool.true_and]
  exact List.map_id _

/-- Under the handle of a tween, its texts are set exactly when it becomes done. -/
theorem textsOf_issued (hfits : ∀ e ∈ es, e.Fits) (hdistinct : (es.map (·.handle)).Nodup)
    (he : e ∈ es) (now : Float) (s : S) :
    textsOf e.handle (issued now es s) =
      if e.phase ≠ .done ∧ e.tween.Over now then e.tween.texts else [] := by
  induction es generalizing s with
  | nil => cases he
  | cons x es ih =>
    obtain ⟨hx, hdistinct⟩ := List.nodup_cons.1 hdistinct
    rw [issued, textsOf_append]
    rcases List.mem_cons.1 he with rfl | he
    · -- no other tween has this handle
      have hrest : ∀ i ∈ issued now es (e.run now s).2, i.1 ≠ e.handle :=
        fun i hi => ne_of_mem_issued (fun e' he' heq => hx (List.mem_map.2 ⟨e', he', heq⟩)) hi
      rw [textsOf_own, textsOf_of_ne hrest, List.append_nil]
      exact (hfits e List.mem_cons_self).texts_changes now s
    · have hfirst : ∀ i ∈ (x.changes now s).map (Prod.mk x.handle), i.1 ≠ e.handle := by
        intro i hi heq
        obtain ⟨ch, _, rfl⟩ := List.mem_map.1 hi
        exact hx (List.mem_map.2 ⟨e, he, heq.symm⟩)
      rw [textsOf_of_ne hfirst, List.nil_append]
      exact ih (fun e he => hfits e (List.mem_cons_of_mem _ he)) hdistinct he _

/-- Where all tweens are done, nothing is left to run. -/
theorem runAll_of_done (h : ∀ e ∈ es, e.phase = .done) (now : Float) (s : S) :
    runAll now es s = (es, s) := by
  induction es with
  | nil => rfl
  | cons e es ih =>
    have hdone : e.isDone = true := beq_iff_eq.2 (h e List.mem_cons_self)
    have hrun : e.run now s = (e, s) := if_pos (by rw [hdone, Bool.true_or])
    rw [runAll, hrun]
    simp only [ih fun e he => h e (List.mem_cons_of_mem _ he)]

end Entry

end Slideshow

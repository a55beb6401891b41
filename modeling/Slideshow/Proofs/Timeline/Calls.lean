/-
  Slideshow.Proofs.Timeline.Calls

  Everything that can be asked of a clock, one call after another. No two tweens on a clock
  ever have the same handle, and none is given twice (`proper_runCalls`); so a tween can be
  followed through all calls, from its place on the clock forward (`exists_follows_runCalls`) and
  back (`exists_origin_runCalls`). The main statement is `done_never_writes`.
-/
import Mathlib.Data.List.Nodup
import Slideshow.Proofs.Timeline.Passing
import Slideshow.Proofs.Timeline.Recording

namespace Slideshow

variable {S : Type} [Stage S]

namespace Clock

/-! ## Calls -/

/-- What can be asked of a clock. -/
inductive Call where
  | schedule (t : Tween Float)
  | cancel (handle : Nat)
  | cancelAll
  | setScale (scale : Float)
  | advance (dt : Float)

namespace Call

/-- The clock and the diagram behind a call. -/
def run : Call → Clock × S → Clock × S
  | schedule t, (c, s) => ((c.schedule t).2, s)
  | cancel handle, (c, s) => ((c.cancel handle).2, s)
  | cancelAll, (c, s) => (c.cancelAll, s)
  | setScale scale, (c, s) => (c.setScale scale, s)
  | advance dt, (c, s) => c.advance dt s

/-- The time up to which a call lets tweens run, if it does. -/
def time? : Call → Clock → Option Float
  | advance dt, c => if 0 ≤ dt then some (c.elapsed + dt * c.scale) else none
  | _, _ => none

/-- The changes that a call makes, each with the handle of its tween. -/
def issued (o : Call) (x : Clock × S) : List (Nat × Change) :=
  match o.time? x.1 with
  | some now => Entry.issued now x.1.entries x.2
  | none => []

/-- A call takes a tween from the clock. -/
def Drops : Call → Nat → Prop
  | cancel handle, h => handle = h
  | cancelAll, _ => True
  | _, _ => False

instance (o : Call) (h : Nat) : Decidable (o.Drops h) :=
  match o with
  | cancel handle => inferInstanceAs (Decidable (handle = h))
  | cancelAll => .isTrue trivial
  | schedule _ => .isFalse id
  | setScale _ => .isFalse id
  | advance _ => .isFalse id

end Call

/-- The clock and the diagram behind several calls. -/
def runCalls (os : List Call) (x : Clock × S) : Clock × S := os.foldl (fun x o => o.run x) x

/-- The times up to which calls let tweens run, one after another. -/
def times : List Call → Clock × S → List Float
  | [], _ => []
  | o :: os, x => (o.time? x.1).toList ++ times os (o.run x)

/-- No call takes the tween from the clock. -/
def Keeps (handle : Nat) (os : List Call) : Prop := ∀ o ∈ os, ¬ o.Drops handle

instance (handle : Nat) (os : List Call) : Decidable (Keeps handle os) :=
  inferInstanceAs (Decidable (∀ o ∈ os, _))

variable {c : Clock} {x : Clock × S} {o : Call} {e e' : Entry}

/-! ## One call -/

/-- The search for a place ends on the clock, sorted or not. -/
theorem narrow_lt (starts : Array Float) (start : Float) (base size : Nat) (hsize : 0 < size) :
    narrow starts start base size < base + size := by
  induction size using Nat.strongRecOn generalizing base with
  | _ size ih =>
    rw [narrow]
    split
    · refine Nat.lt_of_lt_of_le (ih _ (by omega) _ (by omega)) ?_
      split <;> omega
    · omega

theorem insertionIndex_le (starts : Array Float) (start : Float) :
    insertionIndex starts start ≤ starts.size := by
  unfold insertionIndex
  split
  · exact Nat.zero_le _
  · have hlt := narrow_lt starts start 0 starts.size (by omega)
    dsimp only
    split <;> omega

/-- A tween that is scheduled stands on the clock, under a handle of its own. -/
theorem schedule_perm (c : Clock) (t : Tween Float) :
    (c.schedule t).2.entries.Perm (⟨c.nextHandle, t, .pending⟩ :: c.entries) := by
  refine List.perm_insertIdx _ _ ?_
  have hle := insertionIndex_le (c.entries.map fun e => e.tween.start).toArray t.start
  rwa [List.size_toArray, List.length_map] at hle

theorem entries_advance (c : Clock) (dt : Float) (s : S) :
    (c.advance dt s).1.entries =
      match (Call.advance dt).time? c with
      | some now => (Entry.runAll now c.entries s).1
      | none => c.entries := by
  simp only [advance, Call.time?]
  split
  · dsimp only
    split <;> rfl
  · rfl

theorem Call.nextHandle_le (o : Call) (x : Clock × S) :
    x.1.nextHandle ≤ (o.run x).1.nextHandle := by
  cases o with
  | schedule t => exact Nat.le_succ _
  | setScale scale =>
    change _ ≤ (x.1.setScale scale).nextHandle
    unfold Clock.setScale
    split <;> exact Nat.le_refl _
  | advance dt =>
    change _ ≤ (x.1.advance dt x.2).1.nextHandle
    unfold Clock.advance
    split
    · dsimp only
      split <;> exact Nat.le_refl _
    · exact Nat.le_refl _
  | _ => exact Nat.le_refl _

/-- What a call leaves on the clock was there before and was not dropped, or was scheduled. -/
theorem Call.exists_origin (h : e' ∈ (o.run x).1.entries) :
    (∃ t, o = .schedule t ∧ e' = ⟨x.1.nextHandle, t, .pending⟩) ∨
      ∃ e ∈ x.1.entries, e.Follows (o.time? x.1).toList e' ∧ (e.Fits → e'.Fits) ∧
        ¬ o.Drops e.handle := by
  cases o with
  | schedule t =>
    rcases List.mem_cons.1 ((schedule_perm x.1 t).mem_iff.1 h) with rfl | h
    · exact .inl ⟨t, rfl, rfl⟩
    · exact .inr ⟨e', h, .refl e', id, id⟩
  | cancel handle =>
    obtain ⟨h, hne⟩ := List.mem_filter.1 h
    exact .inr ⟨e', h, .refl e', id, fun heq => bne_iff_ne.1 hne heq.symm⟩
  | cancelAll => cases h
  | setScale scale => exact .inr ⟨e', (setScale_entries x.1 scale) ▸ h, .refl e', id, id⟩
  | advance dt =>
    have h : e' ∈ (x.1.advance dt x.2).1.entries := h
    rw [entries_advance] at h
    cases htime : (Call.advance dt).time? x.1 with
    | none =>
      rw [htime] at h
      exact .inr ⟨e', h, .refl e', id, id⟩
    | some now =>
      rw [htime] at h
      obtain ⟨e, he, hfollows, hfits⟩ := Entry.exists_origin_runAll h
      exact .inr ⟨e, he, hfollows, hfits, id⟩

/-- What is on the clock and is not dropped stays there. -/
theorem Call.exists_follows (he : e ∈ x.1.entries) (hkeeps : ¬ o.Drops e.handle) :
    ∃ e' ∈ (o.run x).1.entries, e.Follows (o.time? x.1).toList e' := by
  cases o with
  | schedule t =>
    exact ⟨e, (schedule_perm x.1 t).mem_iff.2 (List.mem_cons_of_mem _ he), .refl e⟩
  | cancel handle =>
    exact ⟨e, List.mem_filter.2 ⟨he, bne_iff_ne.2 fun heq => hkeeps heq.symm⟩, .refl e⟩
  | cancelAll => exact absurd trivial hkeeps
  | setScale scale => exact ⟨e, (setScale_entries x.1 scale).symm ▸ he, .refl e⟩
  | advance dt =>
    change ∃ e' ∈ (x.1.advance dt x.2).1.entries, _
    rw [entries_advance]
    cases (Call.advance dt).time? x.1 with
    | none => exact ⟨e, he, .refl e⟩
    | some now => exact Entry.exists_follows_runAll he x.2

/-! ## Handles -/

/-- The handles on a clock are different, and lower than the next one; and what tweens under
    way have kept fits them. -/
structure Proper (c : Clock) : Prop where
  distinct : (c.entries.map (·.handle)).Nodup
  fresh : ∀ e ∈ c.entries, e.handle < c.nextHandle
  fits : ∀ e ∈ c.entries, e.Fits

theorem proper_new : Proper new where
  distinct := List.nodup_nil
  fresh _ h := by cases h
  fits _ h := by cases h

theorem Proper.eq_of_handle (h : Proper c) (he : e ∈ c.entries) (he' : e' ∈ c.entries)
    (heq : e.handle = e'.handle) : e = e' :=
  List.inj_on_of_nodup_map h.distinct he he' heq

theorem Proper.distinct_run (h : Proper x.1) (o : Call) :
    ((o.run x).1.entries.map (·.handle)).Nodup := by
  cases o with
  | schedule t =>
    have hperm := (schedule_perm x.1 t).map (·.handle)
    refine hperm.nodup_iff.2 (List.nodup_cons.2 ⟨fun hmem => ?_, h.distinct⟩)
    obtain ⟨e, he, heq⟩ := List.mem_map.1 hmem
    exact Nat.ne_of_lt (h.fresh e he) heq
  | cancel handle => exact h.distinct.sublist (List.filter_sublist.map _)
  | cancelAll => exact List.nodup_nil
  | setScale scale =>
    change ((x.1.setScale scale).entries.map _).Nodup
    rw [setScale_entries]
    exact h.distinct
  | advance dt =>
    change ((x.1.advance dt x.2).1.entries.map _).Nodup
    rw [entries_advance]
    cases (Call.advance dt).time? x.1 with
    | none => exact h.distinct
    | some now =>
      dsimp only
      rw [Entry.handles_runAll]
      exact h.distinct

/-- Every call keeps the clock proper. -/
theorem Proper.run (h : Proper x.1) (o : Call) : Proper (o.run x).1 := by
  have hle := o.nextHandle_le x
  refine ⟨h.distinct_run o, fun e' he' => ?_, fun e' he' => ?_⟩
  · rcases Call.exists_origin he' with ⟨t, rfl, rfl⟩ | ⟨e, he, hfollows, -⟩
    · exact Nat.lt_succ_self _
    · rw [hfollows.handle]
      exact Nat.lt_of_lt_of_le (h.fresh e he) hle
  · rcases Call.exists_origin he' with ⟨t, rfl, rfl⟩ | ⟨e, he, -, hfits, -⟩
    · exact Entry.fits_pending _ t
    · exact hfits (h.fits e he)

/-- A clock stays proper, whatever is asked of it. -/
theorem proper_runCalls (h : Proper x.1) (os : List Call) : Proper (runCalls os x).1 := by
  induction os generalizing x with
  | nil => exact h
  | cons o os ih => exact ih (h.run o)

/-! ## Several calls -/

/-- What calls leave on the clock, under a handle that was given before, stood there before and
    was not dropped. -/
theorem exists_origin_runCalls {os : List Call} (he' : e' ∈ (runCalls os x).1.entries)
    (hold : e'.handle < x.1.nextHandle) :
    ∃ e ∈ x.1.entries, e.Follows (times os x) e' ∧ Keeps e.handle os := by
  induction os generalizing x with
  | nil => exact ⟨e', he', .refl e', fun o ho => by cases ho⟩
  | cons o os ih =>
    obtain ⟨e₁, he₁, hfollows, hkeeps⟩ :=
      ih he' (Nat.lt_of_lt_of_le hold (o.nextHandle_le x))
    rcases Call.exists_origin he₁ with ⟨t, -, rfl⟩ | ⟨e, he, hfirst, -, hdrops⟩
    · -- a tween scheduled now has a later handle
      rw [hfollows.handle] at hold
      exact absurd hold (Nat.lt_irrefl _)
    · refine ⟨e, he, hfirst.trans hfollows, fun o' ho' => ?_⟩
      rcases List.mem_cons.1 ho' with rfl | ho'
      · exact hdrops
      · rw [← hfirst.handle]
        exact hkeeps o' ho'

/-- A tween that no call drops stays on the clock. -/
theorem exists_follows_runCalls {os : List Call} (he : e ∈ x.1.entries)
    (hkeeps : Keeps e.handle os) :
    ∃ e' ∈ (runCalls os x).1.entries, e.Follows (times os x) e' := by
  induction os generalizing x e with
  | nil => exact ⟨e, he, .refl e⟩
  | cons o os ih =>
    obtain ⟨e₁, he₁, hfirst⟩ := Call.exists_follows he (hkeeps o List.mem_cons_self)
    have hrest : Keeps e₁.handle os := by
      rw [hfirst.handle]
      exact fun o' ho' => hkeeps o' (List.mem_cons_of_mem _ ho')
    obtain ⟨e', he', hfollows⟩ := ih he₁ hrest
    exact ⟨e', he', hfirst.trans hfollows⟩

/-! ## Changes -/

/-- A call that lets tweens run shows them the time and makes their changes. -/
theorem Call.issued_of_time {now : Float} (h : o.time? x.1 = some now) :
    o.issued x = Entry.issued now x.1.entries x.2 := by
  rw [issued, h]

theorem Call.issued_of_time_none (h : o.time? x.1 = none) : o.issued x = [] := by
  rw [issued, h]

/-- What is issued while time passes is what a recorder takes down. -/
theorem record_advance (x : Clock × S) (dt : Float) (record : List Change) :
    (x.1.advance dt (⟨x.2, record⟩ : Recorder S)).2.record =
      record ++ ((Call.advance dt).issued x).map Prod.snd := by
  rw [advance_recorder]
  dsimp only
  congr 1
  by_cases hdt : 0 ≤ dt
  · have htime : (Call.advance dt).time? x.1 = some (x.1.elapsed + dt * x.1.scale) := if_pos hdt
    rw [changes, if_pos hdt, Call.issued_of_time htime, Entry.map_snd_issued]
  · have htime : (Call.advance dt).time? x.1 = none := if_neg hdt
    rw [changes, if_neg hdt, Call.issued_of_time_none htime]
    rfl

/-- Only tweens on the clock that are not done make changes, to what they drive. -/
theorem Proper.exists_of_mem_issued (h : Proper x.1) {i : Nat × Change} (hi : i ∈ o.issued x) :
    ∃ e ∈ x.1.entries, e.handle = i.1 ∧ e.phase ≠ .done ∧ e.tween.Writes i.2 := by
  cases htime : o.time? x.1 with
  | none =>
    rw [Call.issued_of_time_none htime] at hi
    cases hi
  | some now =>
    rw [Call.issued_of_time htime] at hi
    obtain ⟨e, he, hhandle, hdone, -, hwrites⟩ := Entry.exists_of_mem_issued h.fits hi
    exact ⟨e, he, hhandle, hdone, hwrites⟩

/-- The texts of a tween on the clock are set by a call that completes it, if it is not done. -/
theorem Proper.textsOf_issued (h : Proper x.1) (he : e ∈ x.1.entries) (o : Call) :
    Entry.textsOf e.handle (o.issued x) =
      if e.phase ≠ .done ∧ ∃ now ∈ o.time? x.1, e.tween.Over now then e.tween.texts else [] := by
  cases htime : o.time? x.1 with
  | none =>
    rw [Call.issued_of_time_none htime, if_neg]
    · rfl
    · rintro ⟨-, now, hnow, -⟩
      cases hnow
  | some now =>
    rw [Call.issued_of_time htime, Entry.textsOf_issued h.fits h.distinct he]
    simp only [Option.mem_def, Option.some.injEq, exists_eq_left']

/-- Under a handle that is not on the clock, nothing is changed. -/
theorem textsOf_issued_of_ne {handle : Nat} (h : ∀ e ∈ x.1.entries, e.handle ≠ handle)
    (o : Call) : Entry.textsOf handle (o.issued x) = [] := by
  refine Entry.textsOf_of_ne fun i hi => ?_
  cases htime : o.time? x.1 with
  | none =>
    rw [Call.issued_of_time_none htime] at hi
    cases hi
  | some now =>
    rw [Call.issued_of_time htime] at hi
    exact Entry.ne_of_mem_issued h hi

/-! ## A clock that is finished -/

theorem isFinished_iff : c.isFinished = true ↔ ∀ e ∈ c.entries, e.phase = .done := by
  simp only [isFinished, List.all_eq_true, Entry.isDone, beq_iff_eq]

/-- Where all tweens are done, a call other than to schedule one changes nothing. -/
theorem run_of_isFinished (h : x.1.isFinished = true) (ho : ∀ t, o ≠ .schedule t) :
    (o.run x).2 = x.2 ∧ (o.run x).1.isFinished = true := by
  rw [isFinished_iff] at h
  refine ⟨?_, isFinished_iff.2 fun e' he' => ?_⟩
  · cases o with
    | advance dt =>
      change (x.1.advance dt x.2).2 = x.2
      unfold Clock.advance
      split
      · simp only [Entry.runAll_of_done h]
      · rfl
    | schedule t => exact absurd rfl (ho t)
    | _ => rfl
  · rcases Call.exists_origin he' with ⟨t, hschedule, -⟩ | ⟨e, he, hfollows, -⟩
    · exact absurd hschedule (ho t)
    · exact hfollows.done.2 (.inl (h e he))

theorem runCalls_of_isFinished (h : x.1.isFinished = true) {os : List Call}
    (hos : ∀ t, Call.schedule t ∉ os) :
    (runCalls os x).2 = x.2 ∧ (runCalls os x).1.isFinished = true := by
  induction os generalizing x with
  | nil => exact ⟨rfl, h⟩
  | cons o os ih =>
    have hfirst := run_of_isFinished h fun t ht => hos t (ht ▸ List.mem_cons_self)
    have hrest := ih hfirst.2 fun t ht => hos t (List.mem_cons_of_mem _ ht)
    exact ⟨hrest.1.trans hfirst.1, hrest.2⟩

/-! ## The course of a tween -/

/-- A tween after it was scheduled: it is on the clock as long as no call drops it, it is done if
    it was complete at some time, and its texts are set by the first call that completes it. -/
theorem Proper.scheduled (h : Proper x.1) (t : Tween Float) (later : List Call) :
    let handle := (x.1.schedule t).1
    let times := times later ((Call.schedule t).run x)
    let y := runCalls later ((Call.schedule t).run x)
    ((∃ e ∈ y.1.entries, e.handle = handle) ↔ Keeps handle later) ∧
    (∀ e ∈ y.1.entries, e.handle = handle →
      e.tween = t ∧ (e.phase = .done ↔ ∃ now ∈ times, t.Over now)) ∧
    ∀ o : Call, Entry.textsOf handle (o.issued y) =
      if Keeps handle later ∧ (∀ now ∈ times, ¬ t.Over now) ∧ ∃ now ∈ o.time? y.1, t.Over now
      then t.texts else [] := by
  intro handle times y
  have hy : Proper y.1 := proper_runCalls (h.run _) later
  have hmem : (⟨handle, t, .pending⟩ : Entry) ∈ ((Call.schedule t).run x).1.entries :=
    (schedule_perm x.1 t).mem_iff.2 List.mem_cons_self
  have hproper := h.run (.schedule t)
  have horigin : ∀ e ∈ y.1.entries, e.handle = handle →
      Entry.Follows times ⟨handle, t, .pending⟩ e ∧ Keeps handle later := by
    intro e he heq
    have hold : e.handle < ((Call.schedule t).run x).1.nextHandle := by
      rw [heq]
      exact Nat.lt_succ_self _
    obtain ⟨e₀, he₀, hfollows, hkeeps⟩ := exists_origin_runCalls he hold
    -- there is one tween with this handle
    obtain rfl : e₀ = ⟨handle, t, .pending⟩ :=
      hproper.eq_of_handle he₀ hmem (hfollows.handle.symm.trans heq)
    exact ⟨hfollows, hkeeps⟩
  have hdone : ∀ {e : Entry}, Entry.Follows times ⟨handle, t, .pending⟩ e →
      (e.phase = .done ↔ ∃ now ∈ times, t.Over now) := by
    intro e hfollows
    rw [hfollows.done]
    exact or_iff_right Phase.noConfusion
  refine ⟨⟨fun ⟨e, he, heq⟩ => (horigin e he heq).2, fun hkeeps => ?_⟩, fun e he heq => ?_, ?_⟩
  · obtain ⟨e, he, hfollows⟩ := exists_follows_runCalls hmem hkeeps
    exact ⟨e, he, hfollows.handle⟩
  · have hfollows := (horigin e he heq).1
    exact ⟨hfollows.tween, hdone hfollows⟩
  · intro o
    by_cases hkeeps : Keeps handle later
    · obtain ⟨e, he, hfollows⟩ := exists_follows_runCalls hmem hkeeps
      have htexts := hy.textsOf_issued he o
      rw [hfollows.handle, hfollows.tween] at htexts
      rw [htexts]
      simp only [hkeeps, true_and, ne_eq, hdone hfollows, not_exists, not_and]
    · rw [if_neg fun hboth => hkeeps hboth.1]
      exact textsOf_issued_of_ne (fun e he heq => hkeeps (horigin e he heq).2) o

/-- Whatever is asked of a clock, a tween that is done never writes again. Phases go one way.
    The texts of a tween are set by one call only, the first that completes it, and not at all
    if the tween is dropped before. What is written while time passes, which a recorder takes
    down, is driven by tweens that were on the clock and not done. And once all are done, the
    diagram stays as it is until another tween is scheduled. -/
theorem done_never_writes (os : List Call) (s : S) :
    let x := runCalls os (new, s)
    (∀ later, ∀ e ∈ x.1.entries, ∀ e' ∈ (runCalls later x).1.entries, e'.handle = e.handle →
      e'.tween = e.tween ∧ e.phase.Onward e'.phase) ∧
    (∀ t later,
      let handle := (x.1.schedule t).1
      let times := times later ((Call.schedule t).run x)
      let y := runCalls later ((Call.schedule t).run x)
      ((∃ e ∈ y.1.entries, e.handle = handle) ↔ Keeps handle later) ∧
      (∀ e ∈ y.1.entries, e.handle = handle →
        e.tween = t ∧ (e.phase = .done ↔ ∃ now ∈ times, t.Over now)) ∧
      ∀ o : Call, Entry.textsOf handle (o.issued y) =
        if Keeps handle later ∧ (∀ now ∈ times, ¬ t.Over now) ∧ ∃ now ∈ o.time? y.1, t.Over now
        then t.texts else []) ∧
    (∀ dt record,
      (x.1.advance dt (⟨x.2, record⟩ : Recorder S)).2.record =
        record ++ ((Call.advance dt).issued x).map Prod.snd) ∧
    (∀ o : Call, ∀ i ∈ o.issued x,
      ∃ e ∈ x.1.entries, e.handle = i.1 ∧ e.phase ≠ .done ∧ e.tween.Writes i.2) ∧
    (x.1.isFinished = true → ∀ later, (∀ t, Call.schedule t ∉ later) →
      (runCalls later x).2 = x.2 ∧ (runCalls later x).1.isFinished = true) := by
  intro x
  have hx : Proper x.1 := proper_runCalls proper_new os
  refine ⟨fun later e he e' he' heq => ?_, hx.scheduled, record_advance x,
    fun o i hi => hx.exists_of_mem_issued hi, fun hfinished later hlater => ?_⟩
  · have hold : e'.handle < x.1.nextHandle := by
      rw [heq]
      exact hx.fresh e he
    obtain ⟨e₀, he₀, hfollows, -⟩ := exists_origin_runCalls he' hold
    obtain rfl : e₀ = e := hx.eq_of_handle he₀ he (hfollows.handle.symm.trans heq)
    exact ⟨hfollows.tween, hfollows.onward⟩
  · exact runCalls_of_isFinished hfinished hlater

end Clock

end Slideshow

/-
  Slideshow.Proofs.Presentation.EventLog

  What can be told from the events of a whole run, those already taken included. An answer
  to a request comes only upon that request, and an animation is said to be complete only
  upon the step that it animates. The main statement is `event_protocol`.
-/
import Slideshow.Proofs.Presentation.Outcome

namespace Slideshow

/-! ## What events are about -/

namespace Event

/-- The slide whose diagram is requested. -/
def requested? : Event → Option Nat
  | diagramRequested slide _ => some slide
  | _ => none

/-- The slide whose request is answered, with a diagram or without. -/
def answered? : Event → Option Nat
  | diagramLoaded slide => some slide
  | loadFailed slide _ => some slide
  | _ => none

/-- The position that is shown. -/
def shown? : Event → Option Position
  | stepShown position _ _ _ => some position
  | _ => none

/-- The position whose animation is complete. -/
def completed? : Event → Option Position
  | animationCompleted position => some position
  | _ => none

/-- The slide that is shown, or that will be once its diagram is there. -/
def announced? (e : Event) : Option Nat := (e.shown?.map Position.slide).or e.requested?

/-- Requests and answers. -/
def isLoading (e : Event) : Bool := e.requested?.isSome || e.answered?.isSome

/-- What is shown or will be, and what is complete. -/
def isShowing (e : Event) : Bool := e.announced?.isSome || e.completed?.isSome

end Event

/-! ## Logs -/

/-- Every event of a log may stand behind those before it. -/
def Follows (ok : List Event → Event → Prop) (log : List Event) : Prop :=
  ∀ before e after, log = before ++ e :: after → ok before e

/-- An answer may stand where its request is the last event about loading. -/
def Answers (before : List Event) (e : Event) : Prop :=
  ∀ slide, e.answered? = some slide →
    ∃ diagram, (before.filter Event.isLoading).getLast? = some (.diagramRequested slide diagram)

/-- A completion may stand where the last thing shown is the animated step that it is about. -/
def Completes (before : List Event) (e : Event) : Prop :=
  ∀ position, e.completed? = some position →
    ∃ progress caption,
      (before.filter Event.isShowing).getLast? = some (.stepShown position progress caption true)

section Logs

variable {ok : List Event → Event → Prop} {log : List Event} {e : Event}

theorem follows_nil : Follows ok [] := by
  intro before e after h
  cases before <;> cases h

theorem Follows.concat (h : Follows ok log) (he : ok log e) : Follows ok (log ++ [e]) := by
  intro before e' after heq
  rcases List.eq_nil_or_concat after with rfl | ⟨after', last, rfl⟩
  · -- the event is the new one
    obtain ⟨hbefore, hlast⟩ := List.append_inj' heq rfl
    cases hlast
    rw [← hbefore]
    exact he
  · -- the event was in the log before
    have heq' : log ++ [e] = (before ++ e' :: after') ++ [last] := by
      rw [heq]
      simp
    exact h before e' after' (List.append_inj_left' heq' rfl)

/-- An event that answers nothing may stand everywhere. -/
theorem answers_of_none (h : e.answered? = none) : Answers log e := by
  intro slide hslide
  rw [h] at hslide
  cases hslide

theorem completes_of_none (h : e.completed? = none) : Completes log e := by
  intro position hposition
  rw [h] at hposition
  cases hposition

/-- Of two elements with a property, one stands before the other. -/
theorem exists_two_of_lt_length_filter {α : Type} {P : α → Bool} {xs : List α}
    (h : 1 < (xs.filter P).length) :
    ∃ front a middle b back, xs = front ++ a :: middle ++ b :: back ∧ P a = true ∧ P b = true := by
  cases hfilter : xs.filter P with
  | nil => simp [hfilter] at h
  | cons a rest =>
    obtain ⟨front, behind, rfl, _, ha, hrest⟩ := List.filter_eq_cons_iff.1 hfilter
    cases rest with
    | nil => simp [hfilter] at h
    | cons b _ =>
      obtain ⟨middle, back, rfl, _, hb, _⟩ := List.filter_eq_cons_iff.1 hrest
      exact ⟨front, a, middle, b, back, by simp, ha, hb⟩

/-- The last element with a property is found behind any element that has it. -/
theorem getLast?_filter_mem {α : Type} {P : α → Bool} {front back : List α} {a b : α}
    (ha : P a = true) (h : ((front ++ a :: back).filter P).getLast? = some b) :
    b ∈ a :: back := by
  rw [List.filter_append, List.filter_cons_of_pos ha, List.getLast?_append,
    Option.or_of_isSome (by simp)] at h
  have hmem : b ∈ a :: back.filter P := List.mem_of_getLast? h
  rcases List.mem_cons.1 hmem with rfl | hmem
  · exact List.mem_cons_self
  · exact List.mem_cons_of_mem _ (List.mem_filter.1 hmem).1

/-- Without a request in between, there is at most one answer. -/
theorem Follows.answered_once (h : Follows Answers log) {before during after : List Event}
    (hlog : log = before ++ during ++ after) (hnone : ∀ e ∈ during, e.requested? = none) :
    (during.filter fun e => e.answered?.isSome).length ≤ 1 := by
  refine Nat.not_lt.1 fun htwo => ?_
  obtain ⟨front, a, middle, b, back, rfl, ha, hb⟩ := exists_two_of_lt_length_filter htwo
  obtain ⟨slide, hslide⟩ := Option.isSome_iff_exists.1 hb
  obtain ⟨diagram, hlast⟩ :=
    h ((before ++ front) ++ a :: middle) b (back ++ after) (by rw [hlog]; simp) slide hslide
  -- the request would have to stand between the two answers
  have hmem := getLast?_filter_mem (by simp [Event.isLoading, ha]) hlast
  have hrequest := hnone _ (List.mem_append_left _ (List.mem_append_right _ hmem))
  cases hrequest

/-- Without a step shown in between, there is at most one completion. -/
theorem Follows.completed_once (h : Follows Completes log) {before during after : List Event}
    (hlog : log = before ++ during ++ after) (hnone : ∀ e ∈ during, e.shown? = none) :
    (during.filter fun e => e.completed?.isSome).length ≤ 1 := by
  refine Nat.not_lt.1 fun htwo => ?_
  obtain ⟨front, a, middle, b, back, rfl, ha, hb⟩ := exists_two_of_lt_length_filter htwo
  obtain ⟨position, hposition⟩ := Option.isSome_iff_exists.1 hb
  obtain ⟨progress, caption, hlast⟩ :=
    h ((before ++ front) ++ a :: middle) b (back ++ after) (by rw [hlog]; simp) position hposition
  -- the step would have to be shown between the two completions
  have hmem := getLast?_filter_mem (by simp [Event.isShowing, ha]) hlast
  have hshown := hnone _ (List.mem_append_left _ (List.mem_append_right _ hmem))
  cases hshown

end Logs

namespace Presentation

variable {p q : Presentation} {log es : List Event} {actions : List Store.Action}
  {d? : Option Scene}

/-! ## Requests and answers -/

/-- The log tells of the request that a presentation has, and every answer so far was due. -/
structure Requests (p : Presentation) (log : List Event) : Prop where
  last : ∀ slide animated, p.phase = .loading slide animated →
    ∃ diagram, (log.filter Event.isLoading).getLast? = some (.diagramRequested slide diagram)
  answers : Follows Answers log

/-- A completion says nothing about requests. -/
theorem answers_completion (hlog : Follows Answers log) (completed : Option Position) :
    Follows Answers (log ++ (completed.map Event.animationCompleted).toList) := by
  cases completed with
  | none => simpa using hlog
  | some position => exact hlog.concat (answers_of_none rfl)

/-- Showing a step says nothing about requests. -/
theorem Shown.requests (h : Shown p q es actions) (hphase : q.phase = .ready)
    (hlog : Follows Answers log) : Requests q (log ++ es) := by
  refine ⟨fun slide animated hloading => ?_, ?_⟩
  · rw [hphase] at hloading
    cases hloading
  · cases h with
    | still => exact hlog.concat (answers_of_none rfl)
    | animated =>
      rw [List.append_cons]
      exact answers_completion (hlog.concat (answers_of_none rfl)) _

theorem Requests.of_effect (h : Requests p log) (he : Effect p q es actions d?) :
    Requests q (log ++ es) := by
  cases he with
  | idle _ hstand =>
    rw [List.append_nil]
    exact ⟨by rw [hstand.phase]; exact h.last, h.answers⟩
  | played store dt hstore hplay =>
    refine ⟨?_, answers_completion h.answers _⟩
    rw [(advance_sameStand hstore dt).phase]
    intro slide animated hphase
    obtain ⟨diagram, hlast⟩ := h.last slide animated hphase
    refine ⟨diagram, ?_⟩
    cases (p.player.advance dt store).2.2 with
    | none => simpa using hlast
    | some position => simpa [Event.isLoading, Event.requested?, Event.answered?] using hlast
  | stopped =>
    rw [List.append_nil]
    exact ⟨by rw [(stopPlayback_sameStand p).phase]; exact h.last, h.answers⟩
  | failed slide animated message hphase =>
    -- the phase tells of the request that is answered now
    refine ⟨(fun _ _ hloading => by cases hloading), h.answers.concat ?_⟩
    intro slide' hslide
    cases hslide
    exact h.last slide animated hphase
  | requested r animated diagram =>
    refine ⟨fun slide animated hloading => ?_, h.answers.concat (answers_of_none rfl)⟩
    cases hloading
    exact ⟨diagram, by simp [Event.isLoading, Event.requested?]⟩
  | shown r animated _ _ _ _ _ hshown =>
    exact hshown.requests (showStep_sameStand _ animated).phase h.answers
  | delivered slide animated scene _ _ hphase hshown =>
    -- the answer comes before what is shown of the diagram
    have hloaded : Follows Answers (log ++ [.diagramLoaded slide]) := by
      refine h.answers.concat fun slide' hslide => ?_
      cases hslide
      exact h.last slide animated hphase
    rw [List.append_cons]
    exact hshown.requests (showStep_sameStand _ animated).phase hloaded

/-! ## Steps and completions -/

/-- The log tells of the animated step that is being played, and every completion so far was
    due. -/
structure Shows (p : Presentation) (log : List Event) : Prop where
  last : p.isPlaying = true → ∃ progress caption,
    (log.filter Event.isShowing).getLast? = some (.stepShown p.position progress caption true)
  completes : Follows Completes log

theorem shows_of_not_isPlaying (h : q.isPlaying = false) (hlog : Follows Completes log) :
    Shows q log := by
  refine ⟨fun hplay => ?_, hlog⟩
  rw [h] at hplay
  cases hplay

/-- Where the animated step of the current position was shown last, it may be complete. -/
theorem shows_of_progress {completed : Option Position}
    (h : Player.Progress (some q.position) q.player completed)
    (hlast : ∃ progress caption,
      (log.filter Event.isShowing).getLast? = some (.stepShown q.position progress caption true))
    (hlog : Follows Completes log) :
    Shows q (log ++ (completed.map Event.animationCompleted).toList) := by
  cases h with
  | running =>
    rw [Option.map_none, Option.toList_none, List.append_nil]
    exact ⟨fun _ => hlast, hlog⟩
  | complete hstate =>
    have hdone : q.isPlaying = false := Player.not_isPlaying_of_completed hstate
    refine shows_of_not_isPlaying hdone (hlog.concat fun position hcompleted => ?_)
    cases hcompleted
    exact hlast

theorem Shown.shows (h : Shown p q es actions) (hquiet : p.isPlaying = false)
    (hposition : q.position = p.position) (hlog : Follows Completes log) :
    Shows q (log ++ es) := by
  cases h with
  | still _ _ _ _ _ _ hplayer =>
    have hstill : q.isPlaying = false := by rw [isPlaying, hplayer]; exact hquiet
    exact shows_of_not_isPlaying hstill (hlog.concat (completes_of_none rfl))
  | animated _ _ _ step _ _ _ _ left hleft hplayer =>
    have hprogress := progress_of_play hleft
    rw [← hplayer, ← hposition] at hprogress
    rw [List.append_cons]
    refine shows_of_progress hprogress ?_ (hlog.concat (completes_of_none rfl))
    refine ⟨p.navigation.progress, step.caption, ?_⟩
    simp [Event.isShowing, Event.announced?, Event.shown?, hposition]

theorem Shows.of_effect (hp : Consistent p) (h : Shows p log) (he : Effect p q es actions d?) :
    Shows q (log ++ es) := by
  cases he with
  | idle _ hstand _ hplayer =>
    rw [List.append_nil]
    refine ⟨?_, h.completes⟩
    rw [(idle_of_player hplayer).1, hstand.position]
    exact h.last
  | played store dt hstore hplay =>
    -- the step that is played was the last one shown, and it may be complete now
    have hposition := (advance_sameStand hstore dt).position
    have hprogress := hp.advance_progress hplay dt store
    refine shows_of_progress ?_ (by rw [hposition]; exact h.last hplay) h.completes
    rw [hposition, continued_player]
    exact hprogress
  | stopped =>
    rw [List.append_nil]
    exact shows_of_not_isPlaying hp.isPlaying_stopPlayback h.completes
  | failed slide animated message hphase =>
    have hquiet := hp.quiet_of_loading hphase
    exact shows_of_not_isPlaying hquiet (h.completes.concat (completes_of_none rfl))
  | requested r animated diagram _ hmoved =>
    exact shows_of_not_isPlaying hmoved.quiet (h.completes.concat (completes_of_none rfl))
  | shown r animated _ _ _ hmoved _ hshown =>
    exact hshown.shows hmoved.quiet (showStep_sameStand _ animated).position h.completes
  | delivered slide animated scene _ _ hphase hshown =>
    have hquiet := hp.quiet_of_loading hphase
    have hloaded := h.completes.concat (completes_of_none (e := .diagramLoaded slide) rfl)
    rw [List.append_cons]
    exact hshown.shows hquiet (showStep_sameStand _ animated).position hloaded

/-! ## Whole runs -/

theorem Requests.runAll (hp : Consistent p) (h : Requests p log) (os : List Operation) :
    Requests (p.runAll os) (log ++ p.emitted os) := by
  induction os generalizing p log with
  | nil =>
    rw [emitted, List.append_nil]
    exact h
  | cons o os ih =>
    rw [emitted, ← List.append_assoc]
    exact ih (hp.run o) (h.of_effect (hp.run_effect o))

theorem Shows.runAll (hp : Consistent p) (h : Shows p log) (os : List Operation) :
    Shows (p.runAll os) (log ++ p.emitted os) := by
  induction os generalizing p log with
  | nil =>
    rw [emitted, List.append_nil]
    exact h
  | cons o os ih =>
    rw [emitted, ← List.append_assoc]
    exact ih (hp.run o) (h.of_effect hp (hp.run_effect o))

/-- A presentation begins with its first request. -/
theorem new_eq {topic : Topic} {settings : Settings} (h : new topic settings = .ok p) :
    (∃ diagram, p.events = [.diagramRequested 0 diagram]) ∧ p.phase = .loading 0 false ∧
      p.isPlaying = false := by
  unfold new at h
  split at h
  · cases h
  · cases h
    exact ⟨⟨_, rfl⟩, rfl, rfl⟩

theorem requests_new {topic : Topic} {settings : Settings} (h : new topic settings = .ok p) :
    Requests p p.events := by
  obtain ⟨⟨diagram, hevents⟩, hphase, _⟩ := new_eq h
  rw [hevents]
  refine ⟨fun slide animated hloading => ?_, follows_nil.concat (answers_of_none rfl)⟩
  rw [hphase] at hloading
  cases hloading
  exact ⟨diagram, rfl⟩

theorem shows_new {topic : Topic} {settings : Settings} (h : new topic settings = .ok p) :
    Shows p p.events := by
  obtain ⟨⟨diagram, hevents⟩, _, hquiet⟩ := new_eq h
  rw [hevents]
  exact shows_of_not_isPlaying hquiet (follows_nil.concat (completes_of_none rfl))

/-! ## Intents -/

theorem Shown.announced (h : Shown p q es actions) :
    es.filterMap Event.announced? = [p.position.slide] := by
  cases h with
  | still => rfl
  | animated _ _ _ _ _ _ _ _ left =>
    cases left.2.2 <;> rfl

/-- An intent that is done announces the slide where it leads, unless it only speeds an
    animation up. -/
theorem Consistent.announced_intent (h : Consistent p) {i : Intent} (hdone : (i.run p).1 = true) :
    if i = .nextStep ∧ p.isPlaying = true then
      (Operation.intent i).emitted p = [] ∧ (i.run p).2.position = p.position
    else
      ((Operation.intent i).emitted p).filterMap Event.announced? =
        [(i.run p).2.position.slide] := by
  have houtcome := h.run_outcome i
  rw [← Prod.eta (i.run p), hdone] at houtcome
  generalize hq : (i.run p).2 = q at houtcome
  generalize (Operation.intent i).actions p = done at houtcome
  have hrun : (Operation.intent i).run p = q := hq
  cases houtcome with
  | hurried hplay =>
    rw [if_pos ⟨rfl, hplay⟩]
    refine ⟨emitted_eq ?_, rfl⟩
    rw [hrun, List.append_nil]
  | arrived _ r animated _ _ hi hloading hmoved harrival =>
    rw [if_neg fun hnext => hi hnext.2 hnext.1]
    cases harrival with
    | request habsent =>
      have hevents : (Operation.run (.intent i) p).events = p.events ++
          [.diagramRequested r.position.slide ((r.diagramOf? r.position.slide).getD "")] := by
        rw [hrun, ← hmoved.events]
        rfl
      rw [emitted_eq hevents]
      rfl
    | shown hpresent =>
      obtain ⟨es, hevents, hshown⟩ :=
        exists_shown (h.ready_moved hmoved hpresent).steps hpresent animated
      have hemitted : ((Operation.intent i).run p).events = p.events ++ es := by
        rw [hrun, hevents, ← hmoved.events]
      rw [emitted_eq hemitted, hshown.announced, (showStep_sameStand _ animated).position]

/-! ## The protocol -/

/-- In the log of a run every answer comes upon its request, and but once; every completion
    comes upon the animated step that it is about, and but once; an animation that has ended
    is not said to be complete later on; and an intent that is done announces once, and
    truly, the slide where it leads, unless it only speeds an animation up. -/
theorem event_protocol {topic : Topic} {settings : Settings} {start : Presentation}
    (hstart : new topic settings = .ok start) (os : List Operation) :
    let p := start.runAll os
    let log := start.events ++ start.emitted os
    (Follows Answers log ∧ ∀ before during after, log = before ++ during ++ after →
      (∀ e ∈ during, e.requested? = none) →
        (during.filter fun e => e.answered?.isSome).length ≤ 1) ∧
    (Follows Completes log ∧ ∀ before during after, log = before ++ during ++ after →
      (∀ e ∈ during, e.shown? = none) →
        (during.filter fun e => e.completed?.isSome).length ≤ 1) ∧
    (p.isPlaying = false → ∀ later, Follows Completes (p.emitted later)) ∧
    ∀ i : Intent, (i.run p).1 = true →
      if i = .nextStep ∧ p.isPlaying = true then
        (Operation.intent i).emitted p = [] ∧ (i.run p).2.position = p.position
      else
        ((Operation.intent i).emitted p).filterMap Event.announced? =
          [(i.run p).2.position.slide] := by
  intro p log
  have hnew := consistent_new hstart
  have hp : Consistent p := hnew.runAll os
  have hanswers : Follows Answers log := ((requests_new hstart).runAll hnew os).answers
  have hcompletes : Follows Completes log := ((shows_new hstart).runAll hnew os).completes
  refine ⟨⟨hanswers, ?_⟩, ⟨hcompletes, ?_⟩, ?_, ?_⟩
  · intro before during after hlog hnone
    exact hanswers.answered_once hlog hnone
  · intro before during after hlog hnone
    exact hcompletes.completed_once hlog hnone
  · -- where nothing plays, the log may as well begin anew
    intro hquiet later
    have hshows : Shows p [] := shows_of_not_isPlaying hquiet follows_nil
    exact (hshows.runAll hp later).completes
  · intro i hdone
    exact hp.announced_intent hdone

/-- In a run with a replay that is interrupted, the only completion is that of the animation
    that ran to its end, and what follows an interruption tells of none. -/
theorem event_protocol_demo :
    ∃ start, new .demo .usual = .ok start ∧
      let os := [.attach 0 .demo, .intent .nextStep, .skip, .intent .replay,
        .intent .previousStep, .skip]
      (start.emitted os).filterMap Event.completed? = [⟨0, 1⟩] ∧
      Follows Completes (start.events ++ start.emitted os) ∧
      (start.runAll os).isPlaying = false ∧
      ∀ later, Follows Completes ((start.runAll os).emitted later) := by
  have hquiet : ∃ start, new .demo .usual = .ok start ∧
      (start.emitted [.attach 0 .demo, .intent .nextStep, .skip, .intent .replay,
        .intent .previousStep, .skip]).filterMap Event.completed? = [⟨0, 1⟩] ∧
      (start.runAll [.attach 0 .demo, .intent .nextStep, .skip, .intent .replay,
        .intent .previousStep, .skip]).isPlaying = false :=
    ⟨_, rfl, by decide +kernel, by decide +kernel⟩
  obtain ⟨start, hstart, hcompleted, hquiet⟩ := hquiet
  obtain ⟨_, hcompletes, hlater, _⟩ := event_protocol hstart [.attach 0 .demo, .intent .nextStep,
    .skip, .intent .replay, .intent .previousStep, .skip]
  exact ⟨start, hstart, hcompleted, hcompletes.1, hquiet, hlater hquiet⟩

end Presentation

end Slideshow

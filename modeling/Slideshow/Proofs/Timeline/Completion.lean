/-
  Slideshow.Proofs.Timeline.Completion

  What a player hands back over any sequence of calls. A play hands over its number among the
  calls as its request, so that requests can be told apart. The main statement is
  `completion_protocol`: a request comes back once at most, in the call that completes its own
  animation, and not behind a later play or stop.
-/
import Slideshow.Proofs.Presentation.Operation
import Slideshow.Proofs.Timeline.Playback

namespace Slideshow

namespace Player

/-! ## Calls -/

/-- What a player can be asked for. Every call brings the diagram that it works on. -/
inductive Call (S : Type) where
  | play (ds : List (Directive Float)) (s : S)
  | advance (dt : Float) (s : S)
  | finish (s : S)
  | fastForward
  | stop (s : S)

variable {S : Type}

namespace Call

/-- The call begins an animation. -/
def isPlay : Call S → Bool
  | play .. => true
  | _ => false

/-- The call ends what was played before. -/
def interrupts : Call S → Bool
  | play .. => true
  | stop _ => true
  | _ => false

/-- The call lets time pass. -/
def passesTime : Call S → Bool
  | advance .. => true
  | finish _ => true
  | _ => false

theorem isPlay_of_calm {c : Call S} (h : c.interrupts = false) : c.isPlay = false := by
  cases c with
  | play ds s => cases h
  | _ => rfl

theorem calm_of_passesTime {c : Call S} (h : c.passesTime = true) : c.interrupts = false := by
  cases c with
  | advance dt s => rfl
  | finish s => rfl
  | play ds s => cases h
  | fastForward => cases h
  | stop s => cases h

end Call

/-- The play with number `r` is the last call that began or ended an animation. -/
def LastPlay (cs : List (Call S)) (r : Nat) : Prop :=
  ∃ before ds s after, cs = before ++ .play ds s :: after ∧ before.length = r ∧
    ∀ c ∈ after, c.interrupts = false

theorem lastPlay_concat_play (cs : List (Call S)) (ds : List (Directive Float)) (s : S) :
    LastPlay (cs ++ [.play ds s]) cs.length :=
  ⟨cs, ds, s, [], rfl, rfl, fun _ hc => by cases hc⟩

theorem LastPlay.concat {cs : List (Call S)} {r : Nat} (h : LastPlay cs r) {c : Call S}
    (hc : c.interrupts = false) : LastPlay (cs ++ [c]) r := by
  obtain ⟨before, ds, s, after, rfl, hlength, hafter⟩ := h
  refine ⟨before, ds, s, after ++ [c], by simp, hlength, ?_⟩
  intro c' hc'
  rcases List.mem_append.1 hc' with hmem | hmem
  · exact hafter c' hmem
  · rw [List.mem_singleton.1 hmem]
    exact hc

theorem LastPlay.lt_length {cs : List (Call S)} {r : Nat} (h : LastPlay cs r) :
    r < cs.length := by
  obtain ⟨before, ds, s, after, rfl, hlength, _⟩ := h
  rw [List.length_append, List.length_cons]
  omega

/-! ## Requests -/

/-- What is held behind a play, and what it hands back, is the request of that play. -/
theorem Progress.eq_of_mem {request r : Nat} {q : Player Nat} {back : Option Nat}
    (h : Progress (some request) q back) (hr : q.pending = some r ∨ back = some r) :
    r = request := by
  cases h with
  | running hstate hpending =>
    rcases hr with hr | hr
    · rw [hpending] at hr
      exact (Option.some.inj hr).symm
    · cases hr
  | complete hstate hpending =>
    rcases hr with hr | hr
    · rw [hpending] at hr
      cases hr
    · exact (Option.some.inj hr).symm

theorem Progress.playing {request : Nat} {q : Player Nat} {back : Option Nat}
    (h : Progress (some request) q back) : q.pending.isSome = true ↔ q.state = .playing := by
  cases h with
  | running hstate hpending => simp [hstate, hpending]
  | complete hstate hpending => simp [hstate, hpending]

/-- A request is handed back in the call that completes the animation. -/
theorem Progress.isSome_iff {request : Nat} {q : Player Nat} {back : Option Nat}
    (h : Progress (some request) q back) : back.isSome = true ↔ q.state = .completed := by
  cases h with
  | running hstate => simp [hstate]
  | complete hstate => simp [hstate]

/-- All that a call can do to the request that a player holds. -/
inductive Outcome (number : Nat) (p : Player Nat) : Call S → Player Nat → Option Nat → Prop
  /-- An animation has begun. -/
  | played {ds s q back} (h : Progress (some number) q back) :
      Outcome number p (.play ds s) q back
  /-- The animation that was running has gone on. -/
  | continued {c q back} (hc : c.passesTime = true) (hplay : p.state = .playing)
      (h : Progress p.pending q back) : Outcome number p c q back
  | kept {c q} (hc : c.interrupts = false) (hstate : q.state = p.state)
      (hpending : q.pending = p.pending) : Outcome number p c q none
  | stopped {s q} (hstate : q.state = .cancelled ∨ q.state = .idle) (hpending : q.pending = none) :
      Outcome number p (.stop s) q none

/-- A player that has been called holds a request exactly while it is playing, and it is the
    one of the last play, which no stop has followed. -/
structure Holds (cs : List (Call S)) (p : Player Nat) : Prop where
  playing : p.pending.isSome = true ↔ p.state = .playing
  last : ∀ r, p.pending = some r → LastPlay cs r

theorem holds_new (settings : Settings) : Holds ([] : List (Call S)) (new settings) := by
  refine ⟨?_, fun r hr => by cases hr⟩
  simp [new]

namespace Holds

variable {cs : List (Call S)} {p q : Player Nat} {c : Call S} {back : Option Nat} {r : Nat}

/-- A player that is playing holds the request of its last play. -/
theorem exists_pending (h : Holds cs p) (hplay : p.state = .playing) :
    ∃ r, p.pending = some r ∧ LastPlay cs r := by
  obtain ⟨r, hr⟩ := Option.isSome_iff_exists.1 (h.playing.2 hplay)
  exact ⟨r, hr, h.last r hr⟩

/-- What a player holds behind a call it held before, or the call has handed it over. -/
theorem pending_of_outcome (h : Holds cs p) (ho : Outcome cs.length p c q back)
    (hr : q.pending = some r) : p.pending = some r ∨ r = cs.length := by
  cases ho with
  | played hprogress => exact .inr (hprogress.eq_of_mem (.inl hr))
  | continued hc hplay hprogress =>
    obtain ⟨request, hrequest, _⟩ := h.exists_pending hplay
    rw [hrequest] at hprogress
    rw [hrequest, hprogress.eq_of_mem (.inl hr)]
    exact .inl rfl
  | kept hc hstate hpending =>
    rw [← hpending]
    exact .inl hr
  | stopped hstate hpending =>
    rw [hpending] at hr
    cases hr

theorem step (h : Holds cs p) (ho : Outcome cs.length p c q back) : Holds (cs ++ [c]) q := by
  cases ho with
  | played hprogress =>
    refine ⟨hprogress.playing, fun r hr => ?_⟩
    rw [hprogress.eq_of_mem (.inl hr)]
    exact lastPlay_concat_play cs _ _
  | continued hc hplay hprogress =>
    -- what runs on keeps its request, and time alone interrupts nothing
    obtain ⟨request, hrequest, hlast⟩ := h.exists_pending hplay
    rw [hrequest] at hprogress
    refine ⟨hprogress.playing, fun r hr => ?_⟩
    rw [hprogress.eq_of_mem (.inl hr)]
    exact hlast.concat (Call.calm_of_passesTime hc)
  | kept hc hstate hpending =>
    refine ⟨by rw [hpending, hstate]; exact h.playing, fun r hr => ?_⟩
    rw [hpending] at hr
    exact (h.last r hr).concat hc
  | stopped hstate hpending =>
    refine ⟨?_, fun r hr => ?_⟩
    · rcases hstate with hstate | hstate <;> simp [hstate, hpending]
    · rw [hpending] at hr
      cases hr

/-- A call that hands a request back either began its animation itself or went on with it, and
    behind it nothing is held. -/
theorem of_back (h : Holds cs p) (ho : Outcome cs.length p c q (some r)) :
    LastPlay (cs ++ [c]) r ∧ q.pending = none ∧
      (c.isPlay = true ∧ r = cs.length ∨
        c.passesTime = true ∧ p.state = .playing ∧ p.pending = some r) := by
  cases ho with
  | played hprogress =>
    have hr : r = cs.length := hprogress.eq_of_mem (.inr rfl)
    subst hr
    cases hprogress with
    | complete hstate hpending =>
      exact ⟨lastPlay_concat_play cs _ _, hpending, .inl ⟨rfl, rfl⟩⟩
  | continued hc hplay hprogress =>
    obtain ⟨request, hrequest, hlast⟩ := h.exists_pending hplay
    rw [hrequest] at hprogress
    have hr : r = request := hprogress.eq_of_mem (.inr rfl)
    subst hr
    cases hprogress with
    | complete hstate hpending =>
      exact ⟨hlast.concat (Call.calm_of_passesTime hc), hpending, .inr ⟨hc, hplay, hrequest⟩⟩

/-- A call hands something back exactly when it completes an animation: one that it began or
    one that was running. -/
theorem isSome_back_iff (h : Holds cs p) (ho : Outcome cs.length p c q back) :
    back.isSome = true ↔ (c.isPlay = true ∨ p.state = .playing) ∧ q.state = .completed := by
  cases ho with
  | played hprogress =>
    rw [hprogress.isSome_iff]
    simp [Call.isPlay]
  | continued hc hplay hprogress =>
    obtain ⟨request, hrequest, _⟩ := h.exists_pending hplay
    rw [hrequest] at hprogress
    rw [hprogress.isSome_iff]
    simp [hplay]
  | kept hc hstate hpending =>
    rw [hstate, Call.isPlay_of_calm hc]
    constructor
    · intro hsome
      cases hsome
    · rintro ⟨hrunning | hrunning, hcompleted⟩
      · cases hrunning
      · -- what was running still is
        rw [hrunning] at hcompleted
        cases hcompleted
  | stopped hstate hpending =>
    rcases hstate with hstate | hstate <;> simp [hstate]

end Holds

/-! ## Runs -/

variable [Stage S]

/-- Makes the call with a given number. Answers the player and the request that is handed
    back, if one is. -/
def Call.run (number : Nat) (p : Player Nat) : Call S → Player Nat × Option Nat
  | play ds s => ((p.play ds number s).1, (p.play ds number s).2.2)
  | advance dt s => ((p.advance dt s).1, (p.advance dt s).2.2)
  | finish s => ((p.finish s).1, (p.finish s).2.2)
  | fastForward => (p.fastForward, none)
  | stop s => ((p.stop s).1, none)

/-- The player behind calls, the first of which has number `n`. -/
def callAll (p : Player Nat) (n : Nat) : List (Call S) → Player Nat
  | [] => p
  | c :: cs => (c.run n p).1.callAll (n + 1) cs

/-- The requests that calls hand back, in order. -/
def handedBack (p : Player Nat) (n : Nat) : List (Call S) → List Nat
  | [] => []
  | c :: cs => (c.run n p).2.toList ++ (c.run n p).1.handedBack (n + 1) cs

theorem callAll_append (p : Player Nat) (n : Nat) (cs cs' : List (Call S)) :
    p.callAll n (cs ++ cs') = (p.callAll n cs).callAll (n + cs.length) cs' := by
  induction cs generalizing p n with
  | nil => rfl
  | cons c cs ih =>
    rw [List.cons_append, callAll, callAll, ih, List.length_cons]
    congr 1
    omega

theorem advance_of_not_isPlaying {p : Player Nat} (h : p.isPlaying = false) (dt : Float) (s : S) :
    p.advance dt s = (p, s, none) := by
  unfold advance
  rw [if_neg (by rw [h]; exact Bool.false_ne_true)]

/-- A call that lets time pass goes on with what is running, and does nothing else. -/
theorem advance_outcome (number : Nat) (p : Player Nat) (dt : Float) (s : S) {c : Call S}
    (hc : c.passesTime = true) :
    Outcome number p c (p.advance dt s).1 (p.advance dt s).2.2 := by
  by_cases hplay : p.isPlaying = true
  · exact .continued hc (isPlaying_iff.1 hplay) (advance_progress hplay dt s)
  · rw [advance_of_not_isPlaying (Bool.eq_false_iff.2 hplay)]
    exact .kept (Call.calm_of_passesTime hc) rfl rfl

theorem run_outcome (number : Nat) (p : Player Nat) (c : Call S) :
    Outcome number p c (c.run number p).1 (c.run number p).2 := by
  cases c with
  | play ds s => exact .played (p.play_progress ds number s)
  | advance dt s => exact p.advance_outcome number dt s rfl
  | finish s => exact p.advance_outcome number (1 / 0) s rfl
  | fastForward => exact .kept rfl p.fastForward_state p.fastForward_pending
  | stop s =>
    have hstate : (p.stop s).1.state = if p.isPlaying then .cancelled else .idle := rfl
    refine .stopped ?_ rfl
    by_cases hplay : p.isPlaying = true
    · exact .inl (hstate.trans (if_pos hplay))
    · exact .inr (hstate.trans (if_neg hplay))

namespace Holds

variable {cs : List (Call S)} {p : Player Nat}

theorem call (h : Holds cs p) (c : Call S) : Holds (cs ++ [c]) (c.run cs.length p).1 :=
  h.step (p.run_outcome cs.length c)

theorem callAll (h : Holds cs p) (cs' : List (Call S)) :
    Holds (cs ++ cs') (p.callAll cs.length cs') := by
  induction cs' generalizing cs p with
  | nil =>
    rw [List.append_nil]
    exact h
  | cons c cs' ih =>
    have hrest := ih (h.call c)
    rw [List.length_append, List.length_singleton] at hrest
    rw [List.append_cons]
    exact hrest

/-- What comes back is what is held, or the request of a call that is still to come. -/
theorem mem_handedBack (h : Holds cs p) {cs' : List (Call S)} {r : Nat}
    (hr : r ∈ p.handedBack cs.length cs') : p.pending = some r ∨ cs.length ≤ r := by
  -- the number of a call is how many were made before, so the first call is `cs.length`
  induction cs' generalizing cs p with
  | nil => cases hr
  | cons c cs' ih =>
    have ho := p.run_outcome cs.length c
    rcases List.mem_append.1 hr with hr | hr
    · rw [Option.mem_toList.1 hr] at ho
      rcases (h.of_back ho).2.2 with ⟨_, hown⟩ | ⟨_, _, hheld⟩
      · exact .inr (Nat.le_of_eq hown.symm)
      · exact .inl hheld
    · have hlength : (cs ++ [c]).length = cs.length + 1 := by simp
      rcases ih (h.call c) (by rw [hlength]; exact hr) with hheld | hlater
      · rcases h.pending_of_outcome ho hheld with hheld | hown
        · exact .inl hheld
        · exact .inr (Nat.le_of_eq hown.symm)
      · rw [hlength] at hlater
        exact .inr (by omega)

/-- No request comes back twice. -/
theorem nodup_handedBack (h : Holds cs p) (cs' : List (Call S)) :
    (p.handedBack cs.length cs').Nodup := by
  induction cs' generalizing cs p with
  | nil => exact List.nodup_nil
  | cons c cs' ih =>
    have ho := p.run_outcome cs.length c
    have hlength : (cs ++ [c]).length = cs.length + 1 := by simp
    have hrest := ih (h.call c)
    rw [hlength] at hrest
    rw [handedBack]
    cases hback : (c.run cs.length p).2 with
    | none => exact hrest
    | some r =>
      rw [hback] at ho
      obtain ⟨hlast, hpending, _⟩ := h.of_back ho
      refine List.nodup_cons.2 ⟨fun hmem => ?_, hrest⟩
      -- nothing is held any more, and later requests have higher numbers
      rcases (h.call c).mem_handedBack (by rw [hlength]; exact hmem) with hheld | hlater
      · rw [hpending] at hheld
        cases hheld
      · exact absurd hlast.lt_length (by omega)

end Holds

/-! ## The protocol -/

/-- Over any calls, whatever is played, on whatever diagrams and in whatever steps of time:
    a request is held exactly while an animation is playing, and it is that of the last play;
    no request is handed back twice; a call hands one back exactly when it completes an
    animation, which it began itself or which was running; and what it hands back is the
    request of that animation's play, which no other play and no stop has followed. -/
theorem completion_protocol (settings : Settings) (before : List (Call S)) (c : Call S) :
    let p := (new settings).callAll 0 before
    let q := (new settings).callAll 0 (before ++ [c])
    let back := (c.run before.length p).2
    ((p.pending.isSome = true ↔ p.state = .playing) ∧
      ∀ r, p.pending = some r → LastPlay before r) ∧
    ((new settings).handedBack 0 (before ++ [c])).Nodup ∧
    (back.isSome = true ↔ (c.isPlay = true ∨ p.state = .playing) ∧ q.state = .completed) ∧
    ∀ r, back = some r →
      LastPlay (before ++ [c]) r ∧
        (c.isPlay = true ∧ r = before.length ∨
          c.passesTime = true ∧ p.state = .playing ∧ p.pending = some r) := by
  intro p q back
  have hnew : Holds ([] : List (Call S)) (new settings) := holds_new settings
  have hp : Holds before p := hnew.callAll before
  have hq : q = (c.run before.length p).1 := by
    show (new settings).callAll 0 (before ++ [c]) = _
    rw [callAll_append, Nat.zero_add]
    rfl
  have ho : Outcome before.length p c q back := by
    rw [hq]
    exact p.run_outcome before.length c
  refine ⟨⟨hp.playing, hp.last⟩, hnew.nodup_handedBack (before ++ [c]), hp.isSome_back_iff ho, ?_⟩
  intro r hback
  rw [hback] at ho
  obtain ⟨hlast, _, hcause⟩ := hp.of_back ho
  exact ⟨hlast, hcause⟩

/-- A play that is replaced and one that is stopped hand nothing back; the one that is played
    to its end hands its request back once. -/
theorem completion_protocol_demo :
    let ds : List (Directive Float) := [.wait none, .setValue "val_x" "2"]
    let before : List (Call Scene) :=
      [.play ds .demo, .advance 0.1 .demo, .play ds .demo, .stop .demo, .finish .demo,
        .play ds .demo, .fastForward]
    ((new .usual).callAll 0 before).pending = some 5 ∧ LastPlay before 5 ∧
      ((new .usual).handedBack 0 (before ++ [.finish .demo])) = [5] ∧
      LastPlay (before ++ [.finish .demo]) 5 := by
  intro ds before
  have hpending : ((new .usual).callAll 0 before).pending = some 5 := by decide +kernel
  have hback : ((Call.finish Scene.demo).run before.length ((new .usual).callAll 0 before)).2 =
      some 5 := by decide +kernel
  have hall : (new .usual).handedBack 0 (before ++ [.finish .demo]) = [5] := by decide +kernel
  obtain ⟨⟨_, hlast⟩, _, _, hcause⟩ := completion_protocol .usual before (.finish Scene.demo)
  exact ⟨hpending, hlast 5 hpending, hall, (hcause 5 hback).1⟩

end Player

end Slideshow

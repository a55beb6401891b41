/-
  Slideshow.Proofs.Navigation.Observers

  Who hears of a move. Over any sequence of calls the numbers handed out to observers, the
  observers that listen and those that were removed account for each other (`Attended`). The
  main statement is `heard_by_listeners`: a move is heard once by each observer that has
  subscribed and was not removed since, in the order in which they subscribed, and by nobody
  else.
-/
import Slideshow.Proofs.Navigation.Moves

namespace Slideshow

namespace Navigation

variable {start n n' : Navigation} {calls : List Call} {call : Call} {g : Go} {m : Move}
  {observer : Nat}

/-! ## What calls answer -/

/-- The number that a new observer gets. -/
def Call.handed? : Call → Navigation → Option Nat
  | subscribe, n => some n.subscribe.1
  | _, _ => none

/-- The observer that a call says to have removed. -/
def Call.removed? : Call → Navigation → Option Nat
  | unsubscribe observer, n => if (n.unsubscribe observer).1 then some observer else none
  | _, _ => none

/-- The observers that are named in the answers to several calls, in the order of the calls. -/
def answers (f : Call → Navigation → Option Nat) (n : Navigation) : List Call → List Nat
  | [] => []
  | call :: calls => (f call n).toList ++ (call.run n).answers f calls

theorem answers_concat (f : Call → Navigation → Option Nat) (n : Navigation)
    (calls : List Call) (call : Call) :
    n.answers f (calls ++ [call]) = n.answers f calls ++ (f call (n.runAll calls)).toList := by
  induction calls generalizing n with
  | nil => exact List.append_nil _
  | cons first calls ih =>
    rw [List.cons_append, answers, ih, answers, List.append_assoc]
    rfl

/-- An observer has subscribed, and nobody has asked to remove it since. -/
def Listens (start : Navigation) (calls : List Call) (observer : Nat) : Prop :=
  ∃ before after, calls = before ++ .subscribe :: after ∧
    (start.runAll before).subscribe.1 = observer ∧ .unsubscribe observer ∉ after

theorem listens_concat_iff : Listens start (calls ++ [call]) observer ↔
    (Listens start calls observer ∧ call ≠ .unsubscribe observer) ∨
      (call = .subscribe ∧ (start.runAll calls).subscribe.1 = observer) := by
  constructor
  · rintro ⟨before, after, hcalls, hnumber, hafter⟩
    rcases List.eq_nil_or_concat after with rfl | ⟨after, last, rfl⟩
    · obtain ⟨rfl, hcall⟩ := List.append_inj' hcalls rfl
      exact .inr ⟨List.head_eq_of_cons_eq hcall, hnumber⟩
    · rw [List.concat_eq_append] at hcalls hafter
      rw [← List.cons_append, ← List.append_assoc] at hcalls
      obtain ⟨hbefore, hcall⟩ := List.append_inj' hcalls rfl
      cases List.head_eq_of_cons_eq hcall
      rw [List.mem_append, not_or, List.mem_singleton] at hafter
      exact .inl ⟨⟨before, after, hbefore, hnumber, hafter.1⟩, fun h => hafter.2 h.symm⟩
  · rintro (⟨⟨before, after, rfl, hnumber, hafter⟩, hcall⟩ | ⟨rfl, hnumber⟩)
    · refine ⟨before, after ++ [call], by simp, hnumber, ?_⟩
      rw [List.mem_append, not_or, List.mem_singleton]
      exact ⟨hafter, fun h => hcall h.symm⟩
    · exact ⟨calls, [], rfl, hnumber, List.not_mem_nil⟩

/-! ## Moves and observers -/

/-- Every move goes to a position and tells all observers. -/
theorem exists_moveTo (h : g.move? n = some (m, n')) : ∃ p hp, n' = n.moveTo p hp := by
  cases g with
  | advanceStep =>
    simp only [Go.move?, advanceStep?] at h
    split at h
    · cases h
      exact ⟨_, _, rfl⟩
    · split at h <;> cases h
      exact ⟨_, _, rfl⟩
  | retreatStep =>
    simp only [Go.move?, retreatStep?] at h
    split at h
    · cases h
      exact ⟨_, _, rfl⟩
    · split at h <;> cases h
      exact ⟨_, _, rfl⟩
  | advanceSlide =>
    simp only [Go.move?, advanceSlide?] at h
    split at h <;> cases h
    exact ⟨_, _, rfl⟩
  | retreatSlide =>
    simp only [Go.move?, retreatSlide?] at h
    split at h <;> cases h
    exact ⟨_, _, rfl⟩
  | restart =>
    cases h
    exact ⟨_, _, rfl⟩
  | goToStep step =>
    simp only [Go.move?, goToStep?] at h
    split at h <;> cases h
    exact ⟨_, _, rfl⟩

/-- A move leaves the observers as they are. -/
theorem observers_move (g : Go) (n : Navigation) :
    ((Call.move g).run n).observers = n.observers ∧
      ((Call.move g).run n).nextObserver = n.nextObserver := by
  cases h : g.move? n with
  | none =>
    rw [run_refused h]
    exact ⟨rfl, rfl⟩
  | some moved =>
    obtain ⟨m, n'⟩ := moved
    obtain ⟨p, hp, hmoved⟩ := exists_moveTo h
    rw [run_move h, hmoved]
    exact ⟨rfl, rfl⟩

theorem notices_move (h : g.move? n = some (m, n')) : n'.notices =
    n.notices ++ n.observers.map fun o => ⟨o, n'.position, n'.position.progress n.steps⟩ := by
  obtain ⟨p, hp, rfl⟩ := exists_moveTo h
  rfl

/-! ## Accounting for observers -/

/-- The observers behind some calls are accounted for by what the calls were and answered. -/
structure Attended (start : Navigation) (calls : List Call) : Prop where
  /-- Numbers are handed out in order. -/
  next : (start.runAll calls).nextObserver = calls.count .subscribe
  handed : start.answers Call.handed? calls = List.range (calls.count .subscribe)
  ordered : (start.runAll calls).observers.Sublist (start.answers Call.handed? calls)
  listens : ∀ o, o ∈ (start.runAll calls).observers ↔ Listens start calls o
  /-- Who got a number is there or was removed. -/
  accounted : ∀ o, (start.answers Call.removed? calls).count o +
    (start.runAll calls).observers.count o = (start.answers Call.handed? calls).count o

theorem attended_ofSteps {steps : List Nat} (h : ofSteps steps = .ok start) :
    Attended start [] := by
  have hempty : start.observers = [] ∧ start.nextObserver = 0 := by
    unfold ofSteps at h
    split at h
    · cases h
      exact ⟨rfl, rfl⟩
    · cases h
  refine ⟨hempty.2, rfl, List.sublist_nil.2 hempty.1, fun o => ?_, fun o => ?_⟩
  · show o ∈ start.observers ↔ _
    rw [hempty.1]
    constructor
    · intro ho
      exact absurd ho List.not_mem_nil
    · rintro ⟨before, after, hcalls, _⟩
      exact absurd hcalls (by simp)
  · show List.count o [] + start.observers.count o = List.count o []
    rw [hempty.1]
    rfl

/-- Only a subscription hands out a number. -/
theorem handed_of_ne_subscribe (start : Navigation) (calls : List Call)
    (hcall : call ≠ .subscribe) :
    (calls ++ [call]).count .subscribe = calls.count .subscribe ∧
      start.answers Call.handed? (calls ++ [call]) = start.answers Call.handed? calls := by
  have hnone : call.handed? (start.runAll calls) = none := by
    cases call with
    | subscribe => exact absurd rfl hcall
    | _ => rfl
  have hzero : [call].count .subscribe = 0 := by
    rw [List.count_eq_zero, List.mem_singleton]
    exact hcall.symm
  rw [List.count_append, answers_concat, hnone, hzero]
  exact ⟨rfl, List.append_nil _⟩

section Attended

variable (h : Attended start calls)
include h

/-- No number is handed out twice. -/
theorem Attended.nodup_handed : (start.answers Call.handed? calls).Nodup := by
  rw [h.handed]
  exact List.nodup_range

theorem Attended.nodup_observers : (start.runAll calls).observers.Nodup :=
  h.nodup_handed.sublist h.ordered

theorem Attended.move (g : Go) : Attended start (calls ++ [.move g]) := by
  obtain ⟨hobservers, hnext⟩ := observers_move g (start.runAll calls)
  have hcall : Call.move g ≠ .subscribe := Call.noConfusion
  obtain ⟨hcount, hhanded⟩ := handed_of_ne_subscribe start calls hcall
  have hremoved : start.answers Call.removed? (calls ++ [.move g]) =
      start.answers Call.removed? calls := by
    rw [answers_concat]
    exact List.append_nil _
  rw [← runAll_concat] at hobservers hnext
  refine ⟨?_, ?_, ?_, fun o => ?_, fun o => ?_⟩
  · rw [hnext, hcount, h.next]
  · rw [hhanded, hcount, h.handed]
  · rw [hobservers, hhanded]
    exact h.ordered
  · rw [hobservers, h.listens, listens_concat_iff]
    simp
  · rw [hobservers, hhanded, hremoved, h.accounted]

theorem Attended.subscribe : Attended start (calls ++ [.subscribe]) := by
  have hcount : (calls ++ [Call.subscribe]).count .subscribe = calls.count .subscribe + 1 :=
    List.count_append
  have hhanded : start.answers Call.handed? (calls ++ [.subscribe]) =
      start.answers Call.handed? calls ++ [(start.runAll calls).nextObserver] :=
    answers_concat _ _ _ _
  have hremoved : start.answers Call.removed? (calls ++ [.subscribe]) =
      start.answers Call.removed? calls := by
    rw [answers_concat]
    exact List.append_nil _
  have hobservers : (start.runAll (calls ++ [.subscribe])).observers =
      (start.runAll calls).observers ++ [(start.runAll calls).nextObserver] := by
    rw [runAll_concat]
    rfl
  refine ⟨?_, ?_, ?_, fun o => ?_, fun o => ?_⟩
  · rw [runAll_concat, hcount, ← h.next]
    rfl
  · -- the new number is the count of those before it
    rw [hhanded, hcount, List.range_succ, h.handed, h.next]
  · rw [hobservers, hhanded]
    exact h.ordered.append (List.Sublist.refl _)
  · rw [hobservers, List.mem_append, List.mem_singleton, h.listens, listens_concat_iff]
    simp [Navigation.subscribe, eq_comm]
  · rw [hobservers, hhanded, hremoved, List.count_append, List.count_append, ← h.accounted]
    omega

/-- Who is removed was there, once. -/
theorem Attended.count_unsubscribe (observer o : Nat) :
    ((Call.unsubscribe observer).removed? (start.runAll calls)).toList.count o +
        ((start.runAll calls).observers.filter fun o' => o' != observer).count o =
      (start.runAll calls).observers.count o := by
  have hkept : ((start.runAll calls).observers.filter fun o' => o' != observer).Nodup :=
    h.nodup_observers.sublist List.filter_sublist
  -- nobody is there twice, so the counts say who is there
  rw [h.nodup_observers.count, hkept.count]
  simp only [Call.removed?, Navigation.unsubscribe, List.contains_iff_mem, List.mem_filter,
    bne_iff_ne]
  by_cases ho : o = observer
  · subst ho
    by_cases hthere : o ∈ (start.runAll calls).observers <;> simp [hthere]
  · by_cases hthere : observer ∈ (start.runAll calls).observers <;>
      simp [hthere, ho, Ne.symm ho]

theorem Attended.unsubscribe (observer : Nat) :
    Attended start (calls ++ [.unsubscribe observer]) := by
  have hcall : Call.unsubscribe observer ≠ .subscribe := Call.noConfusion
  obtain ⟨hcount, hhanded⟩ := handed_of_ne_subscribe start calls hcall
  have hobservers : (start.runAll (calls ++ [.unsubscribe observer])).observers =
      (start.runAll calls).observers.filter fun o => o != observer := by
    rw [runAll_concat]
    rfl
  refine ⟨?_, ?_, ?_, fun o => ?_, fun o => ?_⟩
  · rw [runAll_concat, hcount, ← h.next]
    rfl
  · rw [hhanded, hcount, h.handed]
  · rw [hobservers, hhanded]
    exact List.filter_sublist.trans h.ordered
  · rw [hobservers, List.mem_filter, h.listens, listens_concat_iff, bne_iff_ne]
    simp only [ne_eq, Call.unsubscribe.injEq, reduceCtorEq, false_and, or_false, eq_comm]
  · rw [hobservers, hhanded, answers_concat, List.count_append, Nat.add_assoc,
      h.count_unsubscribe, h.accounted]

theorem Attended.concat (call : Call) : Attended start (calls ++ [call]) := by
  cases call with
  | move g => exact h.move g
  | subscribe => exact h.subscribe
  | unsubscribe observer => exact h.unsubscribe observer

theorem Attended.append (later : List Call) : Attended start (calls ++ later) := by
  induction later generalizing calls with
  | nil => rwa [List.append_nil]
  | cons call later ih =>
    have hrest := ih (h.concat call)
    rwa [List.append_assoc, List.singleton_append] at hrest

/-- Who was removed got a number and is not there any more, and was removed once. -/
theorem Attended.count_removed (o : Nat) : (start.answers Call.removed? calls).count o =
    if o ∈ start.answers Call.handed? calls ∧ o ∉ (start.runAll calls).observers then 1 else 0 := by
  have haccount := h.accounted o
  rw [h.nodup_observers.count, h.nodup_handed.count] at haccount
  by_cases hthere : o ∈ (start.runAll calls).observers
  · have hhanded := h.ordered.subset hthere
    rw [if_pos hthere, if_pos hhanded] at haccount
    rw [if_neg fun hgone => hgone.2 hthere]
    omega
  · rw [if_neg hthere, Nat.add_zero] at haccount
    rw [haccount]
    simp only [hthere, not_false_eq_true, and_true]

end Attended

/-! ## Who hears of a move -/

/-- Numbers are handed out once. A move that is made is heard once by every observer that has
    subscribed and was not removed since, in the order in which they subscribed, with the new
    position and the progress there; nobody hears of anything else. An observer is removed if
    it listens, hence once at most, and no other one with it. -/
theorem heard_by_listeners {steps : List Nat} (hstart : ofSteps steps = .ok start)
    (calls : List Call) :
    let n := start.runAll calls
    let handed := start.answers Call.handed? calls
    (handed.Nodup ∧ handed = List.range (calls.count .subscribe)) ∧
    (∀ (g : Go) m n', g.move? n = some (m, n') → ∃ heard : List Nat,
      heard.Sublist handed ∧ (∀ o, o ∈ heard ↔ Listens start calls o) ∧
        ((Call.move g).run n).notices =
          n.notices ++ heard.map fun o => ⟨o, n'.position, n'.position.progress steps⟩) ∧
    (∀ call : Call, (∀ g, call = .move g → g.move? n = none) →
      (call.run n).notices = n.notices) ∧
    (∀ o, (n.unsubscribe o).1 = true ↔ Listens start calls o) ∧
    (∀ o, (start.answers Call.removed? calls).count o =
      if o ∈ handed ∧ o ∉ n.observers then 1 else 0) ∧
    ∀ o other, other ≠ o →
      (other ∈ ((Call.unsubscribe o).run n).observers ↔ other ∈ n.observers) := by
  intro n handed
  have h : Attended start calls := (attended_ofSteps hstart).append calls
  have hsteps : n.steps = steps := (steps_runAll start calls).trans (of_ofSteps hstart).1
  refine ⟨⟨h.nodup_handed, h.handed⟩, ?_, ?_, ?_, h.count_removed, ?_⟩
  · intro g m n' hmove
    refine ⟨n.observers, h.ordered, h.listens, ?_⟩
    rw [run_move hmove, notices_move hmove, hsteps]
  · intro call hrefused
    cases call with
    | move g => rw [run_refused (hrefused g rfl)]
    | subscribe => rfl
    | unsubscribe observer => rfl
  · intro o
    rw [← h.listens]
    exact List.contains_iff_mem
  · intro o other hne
    show other ∈ n.observers.filter (fun o' => o' != o) ↔ _
    simp [hne]

/-- Of three observers the second one is removed before the move and asked to be removed
    again; the first and the third hear of it. -/
theorem heard_by_listeners_demo :
    ∃ start, ofSteps [3, 2] = .ok start ∧
      let calls : List Call := [.subscribe, .subscribe, .move .advanceStep, .unsubscribe 1,
        .subscribe, .unsubscribe 1, .move .restart]
      let n := start.runAll calls
      start.answers Call.handed? calls = [0, 1, 2] ∧ start.answers Call.removed? calls = [1] ∧
        n.notices.map (·.observer) = [0, 1, 0, 2] ∧
        ∃ heard : List Nat, heard.Sublist [0, 1, 2] ∧
          (∀ o, o ∈ heard ↔ Listens start calls o) ∧
          ((Call.move .advanceSlide).run n).notices =
            n.notices ++ heard.map fun o => ⟨o, ⟨1, 0⟩, ⟨1, 2, 2, 2⟩⟩ := by
  obtain ⟨start, hstart⟩ : ∃ start, ofSteps [3, 2] = .ok start := ⟨_, rfl⟩
  have hheard := heard_by_listeners hstart [.subscribe, .subscribe, .move .advanceStep,
    .unsubscribe 1, .subscribe, .unsubscribe 1, .move .restart]
  cases hstart
  exact ⟨_, rfl, rfl, rfl, rfl, hheard.2.1 .advanceSlide ⟨.slide, true⟩ _ rfl⟩

end Navigation

end Slideshow

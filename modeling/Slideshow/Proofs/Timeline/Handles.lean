/-
  Slideshow.Proofs.Timeline.Handles

  The order of a clock's tweens and the names under which they can be cancelled. As long as
  every start is a number, the tweens stand in the order of their starts, those with equal starts
  in the order in which they were scheduled (`Lined.run`), which is that of their handles
  (`pairwise_returned`). A handle names the one tween that was scheduled under it, from then until
  it is cancelled or the clock is cleared (`exists_entry_iff`). The main statement is
  `cancel_protocol`.
-/
import Slideshow.Proofs.Timeline.Calls
import Slideshow.Proofs.Timeline.Queue

namespace Slideshow

open Decimal

variable {S : Type} [Stage S]

namespace Clock

variable {c : Clock} {x : Clock × S} {o : Call} {e f : Entry} {handle : Nat} {t : Tween Float}

/-! ## What was scheduled -/

namespace Call

/-- The handle that a call returns, if it schedules a tween. -/
def returned? : Call → Clock → Option Nat
  | schedule t, c => some (c.schedule t).1
  | _, _ => none

/-- If the call schedules a tween, its start is a number. -/
def Dated : Call → Prop
  | schedule t => t.start.isNaN = false
  | _ => True

instance (o : Call) : Decidable o.Dated :=
  match o with
  | schedule t => inferInstanceAs (Decidable (t.start.isNaN = false))
  | cancel _ => .isTrue trivial
  | cancelAll => .isTrue trivial
  | setScale _ => .isTrue trivial
  | advance _ => .isTrue trivial

end Call

/-- The handles that calls return, one after another. -/
def returned : List Call → Clock × S → List Nat
  | [], _ => []
  | o :: os, x => (o.returned? x.1).toList ++ returned os (o.run x)

/-- A call returned the handle for the tween, and none after it cancelled it or cleared the
    clock. -/
def Outstanding (handle : Nat) (t : Tween Float) (os : List Call) (x : Clock × S) : Prop :=
  ∃ before later, os = before ++ .schedule t :: later ∧
    ((runCalls before x).1.schedule t).1 = handle ∧ Keeps handle later

/-- No handle is returned that is not greater than all before. -/
theorem le_of_mem_returned {os : List Call} (h : handle ∈ returned os x) :
    x.1.nextHandle ≤ handle := by
  induction os generalizing x with
  | nil => cases h
  | cons o os ih =>
    rcases List.mem_append.1 h with h | h
    · cases o with
      | schedule t =>
        obtain rfl := List.mem_singleton.1 h
        exact Nat.le_refl _
      | _ => cases h
    · exact Nat.le_trans (o.nextHandle_le x) (ih h)

theorem pairwise_returned (os : List Call) (x : Clock × S) :
    (returned os x).Pairwise (· < ·) := by
  induction os generalizing x with
  | nil => exact List.Pairwise.nil
  | cons o os ih =>
    rw [returned, List.pairwise_append]
    refine ⟨?_, ih (o.run x), fun first hfirst later hlater => ?_⟩
    · cases o with
      | schedule t => exact List.pairwise_singleton _ _
      | _ => exact List.Pairwise.nil
    · cases o with
      | schedule t =>
        obtain rfl := List.mem_singleton.1 hfirst
        -- the counter has moved past the handle that was returned
        exact Nat.lt_of_succ_le (le_of_mem_returned hlater)
      | _ => cases hfirst

/-! ## Order -/

/-- The first tween starts before the second one, or at the same time and was scheduled before
    it. -/
def Precedes (e f : Entry) : Prop :=
  e.tween.start ≤ f.tween.start ∧ (f.tween.start ≤ e.tween.start → e.handle < f.handle)

/-- The tweens of a clock stand in order, and their starts are numbers. -/
structure Lined (c : Clock) : Prop where
  ordered : c.entries.Pairwise Precedes
  numbers : ∀ e ∈ c.entries, e.tween.start ≤ e.tween.start

theorem lined_new : Lined new where
  ordered := List.Pairwise.nil
  numbers _ h := by cases h

theorem Lined.sorted (h : Lined c) : Sorted c.entries := h.ordered.imp fun hbefore => hbefore.1

/-- A new tween is put before those that start later, and behind all others: these were scheduled
    before. -/
theorem Lined.ordered_schedule (h : Lined c) (hproper : Proper c) (ht : t.start ≤ t.start) :
    (c.schedule t).2.entries.Pairwise Precedes := by
  obtain ⟨before, behind, hsplit, hentries, hbefore, hbehind⟩ := exists_split_schedule h.sorted t
  have hordered := h.ordered
  have hnumbers := h.numbers
  have hfresh := hproper.fresh
  rw [hsplit] at hordered hnumbers hfresh
  obtain ⟨hfirst, hrest, hacross⟩ := List.pairwise_append.1 hordered
  rw [hentries, List.pairwise_append, List.pairwise_cons]
  refine ⟨hfirst, ⟨fun f hf => ?_, hrest⟩, fun e he f hf => ?_⟩
  · have hnumber := hnumbers f (List.mem_append_right _ hf)
    have hlater := hbehind f hf
    exact ⟨Number.le_of_not_le hnumber ht hlater, fun hle => absurd hle hlater⟩
  · rcases List.mem_cons.1 hf with rfl | hf
    · exact ⟨hbefore e he, fun _ => hfresh e (List.mem_append_left _ he)⟩
    · exact hacross e he f hf

theorem Lined.of_sublist (h : Lined c) {es : List Entry} (hes : es.Sublist c.entries) :
    Lined { c with entries := es } where
  ordered := h.ordered.sublist hes
  numbers e he := h.numbers e (hes.subset he)

/-- The order of tweens does not depend on how far they have come. -/
theorem pairwise_precedes_runAll {es : List Entry} (h : es.Pairwise Precedes) (now : Float)
    (s : S) : (Entry.runAll now es s).1.Pairwise Precedes := by
  induction es generalizing s with
  | nil => exact List.Pairwise.nil
  | cons e es ih =>
    obtain ⟨hfirst, hrest⟩ := List.pairwise_cons.1 h
    rw [Entry.runAll, List.pairwise_cons]
    refine ⟨fun f' hf' => ?_, ih hrest _⟩
    obtain ⟨f, hf, hfollows, -⟩ := Entry.exists_origin_runAll hf'
    have hrun := Entry.run_follows now e s
    rw [Precedes, hfollows.tween, hfollows.handle, hrun.tween, hrun.handle]
    exact hfirst f hf

theorem Lined.advance (h : Lined c) (dt : Float) (s : S) : Lined (c.advance dt s).1 where
  ordered := by
    rw [entries_advance]
    cases (Call.advance dt).time? c with
    | none => exact h.ordered
    | some now => exact pairwise_precedes_runAll h.ordered now s
  numbers := by
    intro e' he'
    have he' : e' ∈ ((Call.advance dt).run (c, s)).1.entries := he'
    rcases Call.exists_origin he' with ⟨t, ht, -⟩ | ⟨e, he, hfollows, -⟩
    · cases ht
    · rw [hfollows.tween]
      exact h.numbers e he

/-- Every call keeps the tweens in order, if what it schedules starts at a number. -/
theorem Lined.run (h : Lined x.1) (hproper : Proper x.1) (ho : o.Dated) : Lined (o.run x).1 := by
  cases o with
  | schedule t =>
    have ht : t.start ≤ t.start := Number.self_iff.2 ho
    refine ⟨h.ordered_schedule hproper ht, fun e he => ?_⟩
    rcases List.mem_cons.1 ((schedule_perm x.1 t).mem_iff.1 he) with rfl | he
    · exact ht
    · exact h.numbers e he
  | cancel handle => exact h.of_sublist List.filter_sublist
  | cancelAll => exact ⟨List.Pairwise.nil, fun e he => by cases he⟩
  | setScale scale =>
    have hentries := setScale_entries x.1 scale
    refine ⟨?_, ?_⟩
    · show (x.1.setScale scale).entries.Pairwise Precedes
      rw [hentries]
      exact h.ordered
    · show ∀ e ∈ (x.1.setScale scale).entries, _
      rw [hentries]
      exact h.numbers
  | advance dt => exact h.advance dt x.2

theorem lined_runCalls (h : Lined x.1) (hproper : Proper x.1) {os : List Call}
    (hos : ∀ o ∈ os, o.Dated) : Lined (runCalls os x).1 := by
  induction os generalizing x with
  | nil => exact h
  | cons o os ih =>
    exact ih (h.run hproper (hos o List.mem_cons_self)) (hproper.run o) fun o' ho' =>
      hos o' (List.mem_cons_of_mem _ ho')

/-! ## Names -/

/-- A tween is on the clock behind a call if the call scheduled it, or if it was there before and
    the call did not take it away. -/
theorem Call.exists_entry_iff :
    (∃ e ∈ (o.run x).1.entries, e.handle = handle ∧ e.tween = t) ↔
      (o = .schedule t ∧ (x.1.schedule t).1 = handle) ∨
        ∃ e ∈ x.1.entries, e.handle = handle ∧ e.tween = t ∧ ¬ o.Drops handle := by
  constructor
  · rintro ⟨e', he', rfl, rfl⟩
    rcases Call.exists_origin he' with ⟨t, rfl, rfl⟩ | ⟨e, he, hfollows, -, hdrops⟩
    · exact .inl ⟨rfl, rfl⟩
    · rw [← hfollows.handle] at hdrops
      exact .inr ⟨e, he, hfollows.handle.symm, hfollows.tween.symm, hdrops⟩
  · rintro (⟨rfl, rfl⟩ | ⟨e, he, rfl, rfl, hdrops⟩)
    · exact ⟨_, (schedule_perm x.1 t).mem_iff.2 List.mem_cons_self, rfl, rfl⟩
    · obtain ⟨e', he', hfollows⟩ := Call.exists_follows he hdrops
      exact ⟨e', he', hfollows.handle, hfollows.tween⟩

theorem keeps_cons {os : List Call} : Keeps handle (o :: os) ↔ ¬ o.Drops handle ∧ Keeps handle os :=
  List.forall_mem_cons

theorem outstanding_nil : ¬ Outstanding handle t [] x := by
  rintro ⟨before, later, hsplit, -⟩
  exact absurd hsplit.symm (List.append_ne_nil_of_right_ne_nil before (List.cons_ne_nil _ _))

theorem outstanding_cons {os : List Call} :
    Outstanding handle t (o :: os) x ↔
      (o = .schedule t ∧ (x.1.schedule t).1 = handle ∧ Keeps handle os) ∨
        Outstanding handle t os (o.run x) := by
  constructor
  · rintro ⟨before, later, hsplit, hreturned, hkeeps⟩
    cases before with
    | nil =>
      obtain ⟨rfl, rfl⟩ := List.cons.inj hsplit
      exact .inl ⟨rfl, hreturned, hkeeps⟩
    | cons o' before =>
      obtain ⟨rfl, rfl⟩ := List.cons.inj hsplit
      exact .inr ⟨before, later, rfl, hreturned, hkeeps⟩
  · rintro (⟨rfl, hreturned, hkeeps⟩ | ⟨before, later, rfl, hreturned, hkeeps⟩)
    · exact ⟨[], os, rfl, hreturned, hkeeps⟩
    · exact ⟨o :: before, later, rfl, hreturned, hkeeps⟩

/-- A tween is on the clock behind several calls if one of them scheduled it, or if it was there
    before, and none of them took it away after that. -/
theorem exists_entry_iff {os : List Call} :
    (∃ e ∈ (runCalls os x).1.entries, e.handle = handle ∧ e.tween = t) ↔
      (∃ e ∈ x.1.entries, e.handle = handle ∧ e.tween = t ∧ Keeps handle os) ∨
        Outstanding handle t os x := by
  induction os generalizing x with
  | nil =>
    have hkeeps : Keeps handle [] := fun o ho => by cases ho
    simp only [outstanding_nil, hkeeps, and_true, or_false]
    rfl
  | cons o os ih =>
    have hfirst : (∃ e ∈ (o.run x).1.entries, e.handle = handle ∧ e.tween = t) ↔ _ :=
      Call.exists_entry_iff
    have hrest : (∃ e ∈ (o.run x).1.entries, e.handle = handle ∧ e.tween = t ∧ Keeps handle os) ↔
        (∃ e ∈ (o.run x).1.entries, e.handle = handle ∧ e.tween = t) ∧ Keeps handle os := by
      simp only [← and_assoc, exists_and_right]
    have hhere : (∃ e ∈ x.1.entries, e.handle = handle ∧ e.tween = t ∧ ¬ o.Drops handle ∧
        Keeps handle os) ↔
        (∃ e ∈ x.1.entries, e.handle = handle ∧ e.tween = t ∧ ¬ o.Drops handle) ∧
          Keeps handle os := by
      simp only [← and_assoc, exists_and_right]
    simp only [keeps_cons, hhere]
    rw [outstanding_cons]
    refine ih.trans ?_
    rw [hrest, hfirst, or_and_right, and_assoc, or_assoc, or_left_comm]

/-! ## Cancelling -/

theorem cancel_fst_iff : (c.cancel handle).1 = true ↔ ∃ e ∈ c.entries, e.handle = handle := by
  simp only [cancel, List.any_eq_true, beq_iff_eq]

/-- To cancel a tween takes it out of the line, where all others stay. -/
theorem Proper.cancel_eq (h : Proper c) (he : e ∈ c.entries) :
    ∃ before behind, c.entries = before ++ e :: behind ∧
      c.cancel e.handle = (true, { c with entries := before ++ behind }) := by
  obtain ⟨before, behind, hsplit⟩ := List.append_of_mem he
  have hdistinct := h.distinct
  rw [hsplit, List.map_append, List.map_cons, List.nodup_middle, ← List.map_append] at hdistinct
  have hothers : ∀ f ∈ before ++ behind, (f.handle != e.handle) = true := by
    intro f hf
    refine bne_iff_ne.2 fun heq => (List.nodup_cons.1 hdistinct).1 ?_
    exact List.mem_map.2 ⟨f, hf, heq⟩
  refine ⟨before, behind, hsplit, ?_⟩
  have hkept : c.entries.filter (fun f => f.handle != e.handle) = before ++ behind := by
    rw [hsplit, List.filter_append, List.filter_cons_of_neg (by simp), ← List.filter_append]
    exact List.filter_eq_self.2 hothers
  refine Prod.ext (cancel_fst_iff.2 ⟨e, he, rfl⟩) ?_
  rw [← hkept]
  rfl

theorem cancel_of_forall_ne (h : ∀ e ∈ c.entries, e.handle ≠ handle) :
    c.cancel handle = (false, c) := by
  have hkept : c.entries.filter (fun e => e.handle != handle) = c.entries :=
    List.filter_eq_self.2 fun e he => bne_iff_ne.2 (h e he)
  refine Prod.ext ?_ ?_
  · refine Bool.eq_false_iff.2 fun htrue => ?_
    obtain ⟨e, he, heq⟩ := cancel_fst_iff.1 htrue
    exact h e he heq
  · show { c with entries := c.entries.filter fun e => e.handle != handle } = c
    rw [hkept]

/-- Whatever is asked of a new clock, as long as all starts are numbers: its tweens stand in the
    order of their starts and, among equal starts, of their handles. The handles that were returned
    grow, so this is the order in which the tweens were scheduled, and no handle is returned twice.
    To cancel a handle succeeds if the handle was returned for a tween since the clock was last
    cleared and not cancelled yet; then this tween alone is taken out of the line. Otherwise nothing
    changes. -/
theorem cancel_protocol (os : List Call) (s : S) (hos : ∀ o ∈ os, o.Dated) :
    let x := runCalls os (new, s)
    x.1.entries.Pairwise Precedes ∧
    (returned os (new, s)).Pairwise (· < ·) ∧
    ∀ handle,
      ((x.1.cancel handle).1 = true ↔ ∃ t, Outstanding handle t os (new, s)) ∧
      (∀ t, Outstanding handle t os (new, s) →
        ∃ before e behind, x.1.entries = before ++ e :: behind ∧ e.handle = handle ∧ e.tween = t ∧
          x.1.cancel handle = (true, { x.1 with entries := before ++ behind })) ∧
      ((¬ ∃ t, Outstanding handle t os (new, s)) → x.1.cancel handle = (false, x.1)) := by
  intro x
  have hproper : Proper x.1 := proper_runCalls proper_new os
  have hlined : Lined x.1 := lined_runCalls lined_new proper_new hos
  have hentry : ∀ {handle t}, (∃ e ∈ x.1.entries, e.handle = handle ∧ e.tween = t) ↔
      Outstanding handle t os (new, s) := by
    intro handle t
    refine exists_entry_iff.trans (or_iff_right ?_)
    -- a new clock has no tweens
    rintro ⟨e, he, -⟩
    cases he
  have hnamed : ∀ {handle}, (∃ e ∈ x.1.entries, e.handle = handle) ↔
      ∃ t, Outstanding handle t os (new, s) := by
    intro handle
    simp only [← hentry]
    exact ⟨fun ⟨e, he, hhandle⟩ => ⟨e.tween, e, he, hhandle, rfl⟩,
      fun ⟨t, e, he, hhandle, _⟩ => ⟨e, he, hhandle⟩⟩
  refine ⟨hlined.ordered, pairwise_returned os _, fun handle => ⟨?_, ?_, fun hnone => ?_⟩⟩
  · rw [cancel_fst_iff, hnamed]
  · intro t ht
    obtain ⟨e, he, rfl, htween⟩ := hentry.2 ht
    obtain ⟨before, behind, hsplit, hcancel⟩ := hproper.cancel_eq he
    exact ⟨before, e, behind, hsplit, rfl, htween, hcancel⟩
  · apply cancel_of_forall_ne
    intro e he heq
    exact hnone (hnamed.1 ⟨e, he, heq⟩)

/-- Of two tweens that start together, the one scheduled later stands behind. It can be cancelled,
    unlike the one whose handle was returned before the clock was cleared. -/
theorem cancel_protocol_demo :
    let s : Scene := ⟨[], ⟨none, "svg", []⟩, [], []⟩
    let before : List Call := [.schedule (.basic .gap 0 1 []), .cancelAll,
      .schedule (.basic .gap 2 1 []), .schedule (.basic .gap 1 1 [])]
    let later : List Call := [.advance 1, .cancel 1]
    let os := before ++ .schedule (.basic .gap 1 5 []) :: later
    let x := runCalls os (new, s)
    (∀ o ∈ os, o.Dated) ∧ returned os (new, s) = [0, 1, 2, 3] ∧
      x.1.entries.map (·.handle) = [2, 3] ∧ x.1.entries.Pairwise Precedes ∧
      (x.1.cancel 3).1 = true ∧ ((x.1.cancel 0).1 = true ↔ ∃ t, Outstanding 0 t os (new, s)) := by
  intro s before later os x
  have hos : ∀ o ∈ os, o.Dated := by decide +kernel
  obtain ⟨hordered, -, hcancel⟩ := cancel_protocol os s hos
  have hthree : Outstanding 3 (.basic .gap 1 5 []) os (new, s) :=
    ⟨before, later, rfl, by decide +kernel, by decide +kernel⟩
  exact ⟨hos, by decide +kernel, by decide +kernel, hordered, (hcancel 3).1.2 ⟨_, hthree⟩,
    (hcancel 0).1⟩

end Clock

end Slideshow

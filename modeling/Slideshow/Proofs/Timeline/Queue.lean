/-
  Slideshow.Proofs.Timeline.Queue

  The clock keeps its tweens in the order of their starts. The search for the place of a new
  one halves a stretch of the sorted starts (`narrow_spec`), and ends between those that are no
  later and those that are later (`exists_split_schedule`). So tweens whose starts are numbers
  stand sorted on the clock (`sorted_scheduleAll`), and one that starts no sooner than one
  scheduled before it stands behind it.
-/
import Slideshow.Proofs.Decimal.Order
import Slideshow.Proofs.Timeline.Driving

namespace Slideshow

namespace Clock

open Decimal

/-! ## The search -/

/-- A start among several, as the search reads it. -/
def startAt (starts : Array Float) (i : Nat) : Float := starts[i]?.getD 0

/-- Starts in order. -/
def SortedStarts (starts : Array Float) : Prop :=
  ∀ i j, i < j → j < starts.size → startAt starts i ≤ startAt starts j

section Search

variable {starts : Array Float} {start : Float}

/-- The place of a new start lies in a stretch: all before it are no later, all behind it are
    not. -/
structure Encloses (starts : Array Float) (start : Float) (base size : Nat) : Prop where
  inside : base + size ≤ starts.size
  before : ∀ i, i < base → startAt starts i ≤ start
  behind : ∀ i, base + size ≤ i → i < starts.size → ¬ startAt starts i ≤ start

/-- A start that is no later than the new one has only such before it. -/
theorem le_of_startAt_le (hsorted : SortedStarts starts) {i j : Nat} (hj : j < starts.size)
    (hle : startAt starts j ≤ start) (hij : i < j) : startAt starts i ≤ start :=
  Number.le_trans (hsorted i j hij hj) hle

/-- Halving a stretch keeps the place inside. -/
theorem Encloses.halve (hsorted : SortedStarts starts) {base size half : Nat}
    (h : Encloses starts start base size) (hhalf : half < size) (hlong : half ≤ size - half) :
    Encloses starts start
      (if startAt starts (base + half) ≤ start then base + half else base) (size - half) := by
  have hinside := h.inside
  split
  · rename_i hle
    refine ⟨by omega, fun i hi => ?_, fun i hi => h.behind i (by omega)⟩
    exact le_of_startAt_le hsorted (by omega) hle hi
  · -- the middle is later, and so is all that comes behind it
    rename_i hnot
    refine ⟨by omega, h.before, fun i hi hsize hle => hnot ?_⟩
    rcases Nat.lt_or_ge (base + half) i with hlt | hge
    · exact le_of_startAt_le hsorted hsize hle hlt
    · obtain rfl : i = base + half := by omega
      exact hle

theorem narrow_spec (hsorted : SortedStarts starts) (base size : Nat) (hsize : 0 < size)
    (h : Encloses starts start base size) :
    Encloses starts start (narrow starts start base size) 1 := by
  -- each step leaves a shorter stretch that still encloses the place
  induction size using Nat.strong_induction_on generalizing base with
  | _ size ih =>
    rw [narrow]
    split
    · exact ih _ (by omega) _ (by omega) (h.halve hsorted (by omega) (by omega))
    · obtain rfl : size = 1 := by omega
      exact h

/-- The place of a new start stands behind all that are no later, and before all others. -/
theorem insertionIndex_spec (hsorted : SortedStarts starts) :
    Encloses starts start (insertionIndex starts start) 0 := by
  unfold insertionIndex
  by_cases hempty : starts.size = 0
  · rw [if_pos hempty]
    exact ⟨by omega, fun i hi => by omega, fun i _ hi => by omega⟩
  · rw [if_neg hempty]
    have hwhole : Encloses starts start 0 starts.size :=
      ⟨by omega, fun i hi => by omega, fun i hi hi' => by omega⟩
    have hbase := narrow_spec hsorted 0 starts.size (by omega) hwhole
    generalize narrow starts start 0 starts.size = base at hbase
    have hinside := hbase.inside
    -- one start is left, and the place is before or behind it
    simp only
    split
    · rename_i hle
      refine ⟨by omega, fun i hi => ?_, fun i hi => hbase.behind i (by omega)⟩
      rcases Nat.lt_or_ge i base with hlt | hge
      · exact hbase.before i hlt
      · obtain rfl : i = base := by omega
        exact hle
    · rename_i hnot
      refine ⟨by omega, hbase.before, fun i hi hsize hle => ?_⟩
      rcases Nat.lt_or_ge i (base + 1) with hlt | hge
      · obtain rfl : i = base := by omega
        exact hnot hle
      · exact hbase.behind i hge hsize hle

end Search

/-! ## Entries in order -/

/-- Entries in the order of their starts. -/
def Sorted (es : List Entry) : Prop := es.Pairwise fun e f => e.tween.start ≤ f.tween.start

theorem startAt_entries {es : List Entry} {i : Nat} {e : Entry} (he : es[i]? = some e) :
    startAt (es.map fun e => e.tween.start).toArray i = e.tween.start := by
  simp only [startAt, List.getElem?_toArray, List.getElem?_map, he, Option.map_some,
    Option.getD_some]

theorem Sorted.starts {es : List Entry} (h : Sorted es) :
    SortedStarts (es.map fun e => e.tween.start).toArray := by
  intro i j hij hj
  rw [List.size_toArray, List.length_map] at hj
  rw [startAt_entries (List.getElem?_eq_getElem hj),
    startAt_entries (List.getElem?_eq_getElem (hij.trans hj))]
  exact List.pairwise_iff_getElem.1 h i j (hij.trans hj) hj hij

theorem insertIdx_length {α : Type} (xs ys : List α) (x : α) :
    (xs ++ ys).insertIdx xs.length x = xs ++ x :: ys := by
  induction xs with
  | nil => rfl
  | cons y xs ih =>
    rw [List.cons_append, List.length_cons, List.insertIdx_succ_cons, ih, List.cons_append]

/-- A tween is put behind those that start no later, and before the others. -/
theorem exists_split_schedule {c : Clock} (h : Sorted c.entries) (t : Tween Float) :
    ∃ before behind, c.entries = before ++ behind ∧
      (c.schedule t).2.entries = before ++ ⟨c.nextHandle, t, .pending⟩ :: behind ∧
      (∀ e ∈ before, e.tween.start ≤ t.start) ∧ ∀ e ∈ behind, ¬ e.tween.start ≤ t.start := by
  have hspec := @insertionIndex_spec _ t.start h.starts
  generalize hi : insertionIndex (c.entries.map fun e => e.tween.start).toArray t.start = i
    at hspec
  obtain ⟨hinside, hbefore, hbehind⟩ := hspec
  rw [List.size_toArray, List.length_map] at hinside hbehind
  rw [Nat.add_zero] at hinside hbehind
  -- the place that was found cuts the entries
  refine ⟨c.entries.take i, c.entries.drop i, (List.take_append_drop i _).symm, ?_, ?_, ?_⟩
  · have hlength : (c.entries.take i).length = i := by
      rw [List.length_take, Nat.min_eq_left hinside]
    have hinsert := insertIdx_length (c.entries.take i) (c.entries.drop i)
      (⟨c.nextHandle, t, .pending⟩ : Entry)
    rw [List.take_append_drop, hlength] at hinsert
    rw [← hinsert, ← hi]
    rfl
  · intro e he
    obtain ⟨j, hj, rfl⟩ := List.mem_take_iff_getElem.1 he
    have hlt : j < c.entries.length := by omega
    rw [← startAt_entries (List.getElem?_eq_getElem hlt)]
    exact hbefore j (by omega)
  · intro e he
    obtain ⟨j, hj, rfl⟩ := List.mem_drop_iff_getElem.1 he
    have hlt : i + j < c.entries.length := by omega
    rw [← startAt_entries (List.getElem?_eq_getElem hlt)]
    exact hbehind _ (by omega) hlt

/-- A start that is a number keeps the order of others that are. -/
theorem sorted_schedule {c : Clock} (h : Sorted c.entries) {t : Tween Float}
    (hnumbers : ∀ e ∈ c.entries, e.tween.start ≤ e.tween.start) (ht : t.start ≤ t.start) :
    Sorted (c.schedule t).2.entries := by
  obtain ⟨before, behind, hsplit, hentries, hbefore, hbehind⟩ := exists_split_schedule h t
  unfold Sorted at h ⊢
  rw [hsplit] at h hnumbers
  obtain ⟨hfirst, hrest, hacross⟩ := List.pairwise_append.1 h
  rw [hentries, List.pairwise_append, List.pairwise_cons]
  refine ⟨hfirst, ⟨fun e he => ?_, hrest⟩, fun e he f hf => ?_⟩
  · -- not to be no later is to be later only among numbers
    have hnumber := hnumbers e (List.mem_append.2 (.inr he))
    exact Number.le_of_not_le hnumber ht (hbehind e he)
  · rcases List.mem_cons.1 hf with rfl | hf
    · exact hbefore e he
    · exact hacross e he f hf

theorem mem_scheduleAll_of_mem {c : Clock} {e : Entry} (h : e ∈ c.entries)
    (ts : List (Tween Float)) : e ∈ (c.scheduleAll ts).entries := by
  induction ts generalizing c with
  | nil => exact h
  | cons t ts ih => exact ih (List.subset_insertIdx _ _ _ h)

theorem exists_mem_schedule {c : Clock} (h : Sorted c.entries) (t : Tween Float) :
    ∃ e ∈ (c.schedule t).2.entries, e.tween = t := by
  obtain ⟨before, behind, _, hentries, _⟩ := exists_split_schedule h t
  refine ⟨⟨c.nextHandle, t, .pending⟩, ?_, rfl⟩
  rw [hentries]
  exact List.mem_append_right _ List.mem_cons_self

/-- If all starts are going to be numbers, the first tween that is added keeps the order. -/
theorem sorted_schedule_first {c : Clock} (h : Sorted c.entries) {t : Tween Float}
    {ts : List (Tween Float)}
    (hnumbers : ∀ e ∈ (c.scheduleAll (t :: ts)).entries, e.tween.start ≤ e.tween.start) :
    Sorted (c.schedule t).2.entries := by
  have hnext : ∀ e ∈ (c.schedule t).2.entries, e.tween.start ≤ e.tween.start :=
    fun e he => hnumbers e (mem_scheduleAll_of_mem he ts)
  have hold : ∀ e ∈ c.entries, e.tween.start ≤ e.tween.start :=
    fun e he => hnumbers e (mem_scheduleAll_of_mem he (t :: ts))
  obtain ⟨e, he, rfl⟩ := exists_mem_schedule h t
  exact sorted_schedule h hold (hnext e he)

/-- Tweens whose starts are numbers stand sorted on the clock. -/
theorem sorted_scheduleAll {c : Clock} (h : Sorted c.entries) {ts : List (Tween Float)}
    (hnumbers : ∀ e ∈ (c.scheduleAll ts).entries, e.tween.start ≤ e.tween.start) :
    Sorted (c.scheduleAll ts).entries := by
  induction ts generalizing c with
  | nil => exact h
  | cons t ts ih => exact ih (sorted_schedule_first h hnumbers) hnumbers

end Clock

end Slideshow

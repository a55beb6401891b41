/-
  Slideshow.Proofs.Timeline.Course

  Tweens on a clock, compared with the same tweens one after another. If those that write the
  same cell are over in order, and none begins while another one still writes what it reads
  (`Orderly`), then at any time a cell holds what it would hold in turn, as soon as no tween
  is under way that writes it (`OnCourse`). Letting one tween run keeps this (`OnCourse.run`),
  whatever the time, and so does every run of all of them (`OnCourse.runAll`).
-/
import Slideshow.Proofs.Timeline.Sequential

namespace Slideshow

namespace Tween

/-! ## Times -/

/-- The tween has begun. -/
def Begun (t : Tween Float) (now : Float) : Prop := ¬ now < t.start

instance (t : Tween Float) (now : Float) : Decidable (t.Begun now) :=
  inferInstanceAs (Decidable (¬ now < t.start))

/-- The tween is complete. -/
def Over (t : Tween Float) (now : Float) : Prop := t.Begun now ∧ t.total ≤ now - t.start

instance (t : Tween Float) (now : Float) : Decidable (t.Over now) :=
  inferInstanceAs (Decidable (t.Begun now ∧ t.total ≤ now - t.start))

/-- The first tween does not get into the way of the second one, which stands behind it. -/
structure Orderly (d : Scene) (t u : Tween Float) : Prop where
  /-- What both write, the second one writes last. -/
  ends : ∀ c, t.Drives d c → u.Drives d c → ∀ now, 0 ≤ now → u.Over now → t.Over now
  /-- What the second one reads, the first one has written before. -/
  written : ∀ c, t.Drives d c → u.Reads d c → ∀ now, 0 ≤ now → u.Begun now → t.Over now
  /-- What the first one reads, the second one writes later. -/
  read : ∀ c, t.Reads d c → u.Drives d c → ∀ now, 0 ≤ now → u.Begun now → t.Begun now

variable {d : Scene} {t u : Tween Float} {c : Cell}

/-- The tweens have to do with different cells. -/
def Apart (d : Scene) (t u : Tween Float) : Prop :=
  (∀ track ∈ t.tracks, ∀ c ∈ t.trackCell? d track, ¬ u.Drives d c ∧ ¬ u.Reads d c) ∧
    ∀ track ∈ u.tracks, ∀ c ∈ u.trackCell? d track, ¬ t.Reads d c

/-- The tweens take the same time, and neither reads anything. -/
def Alongside (t u : Tween Float) : Prop :=
  (t.start = u.start ∧ t.total = u.total) ∧ (t.restore = false ∧ ¬ t.MovesCamera) ∧
    (u.restore = false ∧ ¬ u.MovesCamera)

instance (d : Scene) (t u : Tween Float) : Decidable (t.Apart d u) :=
  inferInstanceAs (Decidable
    ((∀ track ∈ t.tracks, ∀ c ∈ t.trackCell? d track, ¬ u.Drives d c ∧ ¬ u.Reads d c) ∧
      ∀ track ∈ u.tracks, ∀ c ∈ u.trackCell? d track, ¬ t.Reads d c))

instance (t u : Tween Float) : Decidable (t.Alongside u) :=
  inferInstanceAs (Decidable ((t.start = u.start ∧ t.total = u.total) ∧
    (t.restore = false ∧ ¬ t.MovesCamera) ∧ (u.restore = false ∧ ¬ u.MovesCamera)))

theorem Apart.orderly (h : t.Apart d u) : t.Orderly d u where
  ends := by
    rintro c ⟨track, htrack, hcell⟩ hdrives
    exact absurd hdrives (h.1 track htrack c hcell).1
  written := by
    rintro c ⟨track, htrack, hcell⟩ hreads
    exact absurd hreads (h.1 track htrack c hcell).2
  read := by
    rintro c hreads ⟨track, htrack, hcell⟩
    exact absurd hreads (h.2 track htrack c hcell)

theorem not_reads_of (h : t.restore = false ∧ ¬ t.MovesCamera) : ¬ t.Reads d c := by
  rintro (⟨hrestore, _⟩ | ⟨hmoves, _⟩)
  · rw [h.1] at hrestore
    cases hrestore
  · exact h.2 hmoves

/-- Tweens that take the same time are complete at once. -/
theorem Alongside.orderly (h : t.Alongside u) : t.Orderly d u where
  ends c _ _ now _ hover := by
    obtain ⟨⟨hstart, htotal⟩, _⟩ := h
    rw [Over, Begun, hstart, htotal]
    exact hover
  written c _ hreads := absurd hreads (not_reads_of h.2.2)
  read c hreads := absurd hreads (not_reads_of h.2.1)

/-- Tweens that a clock can run with the same result at any pace. -/
structure Arranged (d : Scene) (ts : List (Tween Float)) : Prop where
  regular : ∀ t ∈ ts, t.Regular
  plain : ∀ t ∈ ts, t.Plain d
  orderly : ts.Pairwise (Orderly d)

theorem Arranged.of_lt {ts : List (Tween Float)} (h : Arranged d ts) {i j : Nat}
    (hij : i < j) (ht : ts[i]? = some t) (hu : ts[j]? = some u) :
    t.Orderly d u := by
  obtain ⟨hi, rfl⟩ := List.getElem?_eq_some_iff.1 ht
  obtain ⟨hj, rfl⟩ := List.getElem?_eq_some_iff.1 hu
  exact List.pairwise_iff_getElem.1 h.orderly i j hi hj hij

end Tween

namespace Entry

/-! ## Running one tween -/

variable {d s : Scene} {ts : List (Tween Float)} {es : List Entry} {e : Entry} {i : Nat}
  {now : Float}

/-- The tween is as far as it can be. -/
structure Ran (now : Float) (e : Entry) : Prop where
  begun : e.tween.Begun now → e.phase ≠ .pending
  done : e.tween.Over now → e.phase = .done

/-- A tween that has nothing to do. -/
theorem run_of_still (h : e.phase = .done ∨ ¬ e.tween.Begun now) : e.run now s = (e, s) := by
  unfold run
  refine if_pos ?_
  rw [Bool.or_eq_true, isDone, beq_iff_eq, decide_eq_true_iff]
  rcases h with h | h
  · exact .inl h
  · exact .inr (Decidable.not_not.1 h)

theorem ran_of_still (h : e.phase = .done ∨ ¬ e.tween.Begun now) : e.Ran now where
  begun hbegun hpending := by
    rcases h with h | h
    · rw [h] at hpending
      cases hpending
    · exact h hbegun
  done hover := by
    rcases h with h | h
    · exact h
    · exact absurd hover.1 h

/-- A tween under way makes its changes; when it is complete it is done. -/
theorem run_of_begun {s' : Scene} (hdone : e.phase ≠ .done) (hbegun : e.tween.Begun now)
    (hphase : e.begun s = e.tween.firstPhase s') :
    e.run now s =
      ({ e with
          phase := if e.tween.total ≤ now - e.tween.start then .done
            else e.tween.firstPhase s' },
        Stage.makeAll s (e.tween.made s' (e.tween.progress (now - e.tween.start))
          (decide (e.tween.total ≤ now - e.tween.start)))) := by
  have hnot : (e.isDone || decide (now < e.tween.start)) = false := by
    rw [Bool.or_eq_false_iff, isDone, beq_eq_false_iff_ne, decide_eq_false_iff_not]
    exact ⟨hdone, hbegun⟩
  unfold run
  rw [hnot, if_neg Bool.false_ne_true, hphase]
  simp only [Tween.firstPhase, Tween.made, Stage.makeAll_append, Tween.write_eq, Tween.settle_eq]
  split
  · rename_i hcomplete
    rw [decide_eq_true_iff] at hcomplete
    simp only [hcomplete, decide_true, if_true]
  · rename_i hcomplete
    rw [decide_eq_true_iff] at hcomplete
    simp only [hcomplete, decide_false, if_false]
    rfl

/-! ## The course of a run -/

/-- Where tweens on a clock stand compared with the same tweens one after another. -/
structure OnCourse (d : Scene) (ts : List (Tween Float)) (es : List Entry) (s : Scene) :
    Prop where
  tweens : es.map (·.tween) = ts
  skeleton : s.skeleton = d.skeleton
  /-- A tween under way has found what it would have found in turn. -/
  began : ∀ (i : Nat) (e : Entry), es[i]? = some e → e.phase ≠ .pending → e.phase ≠ .done →
    ∃ s', e.phase = e.tween.firstPhase s' ∧ e.tween.StartsAlike s' (Tween.before d ts i)
  elapsed : ∀ e ∈ es, e.phase = .done → ∃ now, e.tween.Over now
  /-- While a tween has not begun, no later one has written what it will read. -/
  unread : ∀ (i j : Nat) (e u : Entry), i < j → es[i]? = some e → es[j]? = some u →
    ∀ c, e.tween.Reads d c → u.tween.Drives d c → e.phase = .pending → u.phase = .pending
  /-- A tween is done before later ones that write the same cell. -/
  ends : ∀ (i j : Nat) (e u : Entry), i < j → es[i]? = some e → es[j]? = some u →
    ∀ c, e.tween.Drives d c → u.tween.Drives d c → u.phase = .done → e.phase = .done
  /-- A cell that no tween is writing holds what it would hold in turn. -/
  cells : ∀ (c : Cell) (k : Nat), (∀ (i : Nat) (e : Entry), es[i]? = some e →
    Tween.Leaves d ts i c → e.phase = if i < k then .done else .pending) →
      s.cell? c = (Tween.before d ts k).cell? c

namespace OnCourse

theorem tween? (h : OnCourse d ts es s) (he : es[i]? = some e) : ts[i]? = some e.tween := by
  rw [← h.tweens, List.getElem?_map, he, Option.map_some]

theorem exists_entry (h : OnCourse d ts es s) {t : Tween Float} (ht : ts[i]? = some t) :
    ∃ e, es[i]? = some e ∧ e.tween = t := by
  rw [← h.tweens, List.getElem?_map] at ht
  exact Option.map_eq_some_iff.1 ht

/-- Before any tween has begun. -/
theorem of_pending (harranged : Tween.Arranged d ts) (htweens : es.map (·.tween) = ts)
    (hpending : ∀ e ∈ es, e.phase = .pending) : OnCourse d ts es d where
  tweens := htweens
  skeleton := rfl
  began i e he hne := absurd (hpending e (List.mem_of_getElem? he)) hne
  elapsed e he hdone := by
    rw [hpending e he] at hdone
    cases hdone
  unread i j e u _ _ hu c _ _ _ := hpending u (List.mem_of_getElem? hu)
  ends i j e u _ _ hu c _ _ hdone := by
    rw [hpending u (List.mem_of_getElem? hu)] at hdone
    cases hdone
  cells c k hk := by
    refine (Tween.cell?_before_eq harranged.plain (Nat.zero_le k) fun j _ hjk hleaves => ?_).symm
    obtain ⟨t, ht, _⟩ := id hleaves
    rw [← htweens, Option.mem_def, List.getElem?_map] at ht
    obtain ⟨e, he, _⟩ := Option.map_eq_some_iff.1 ht
    have hdone := hk j e he hleaves
    rw [if_pos hjk, hpending e (List.mem_of_getElem? he)] at hdone
    cases hdone

/-- Which entries there are when one has been exchanged. -/
theorem of_getElem?_set {e u : Entry} (hu : (es.set i e)[j]? = some u) :
    j = i ∧ u = e ∨ j ≠ i ∧ es[j]? = some u := by
  rw [List.getElem?_set] at hu
  by_cases hij : i = j
  · rw [if_pos hij] at hu
    obtain ⟨_, heq⟩ := Option.ite_none_right_eq_some.1 hu
    exact .inl ⟨hij.symm, (Option.some.inj heq).symm⟩
  · rw [if_neg hij] at hu
    exact .inr ⟨fun heq => hij heq.symm, hu⟩

section Cells

variable (h : OnCourse d ts es s) (harranged : Tween.Arranged d ts) (he : es[i]? = some e)
include h harranged he

/-- A cell that a complete tween leaves holds what it would hold behind it in turn. -/
theorem cell?_of_leaves (hdone : e.phase ≠ .done) {chs : List Change} {c : Cell} {k : Nat}
    (hleaves : Tween.Leaves d ts i c) (hik : i < k)
    (hlast : Change.last? d c chs = Change.last? d c (e.tween.whole (Tween.before d ts i)))
    (hk : ∀ j u, j ≠ i → es[j]? = some u → Tween.Leaves d ts j c →
      u.phase = if j < k then .done else .pending) :
    (Change.last? d c chs).getD (s.cell? c) = (Tween.before d ts k).cell? c := by
  have htween := h.tween? he
  obtain ⟨t, ht, hsome⟩ := hleaves
  obtain rfl : e.tween = t := Option.some.inj (htween.symm.trans ht)
  have hvalue : (Change.last? d c chs).getD (s.cell? c) =
      (Change.last? d c (e.tween.whole (Tween.before d ts i))).getD
        ((Tween.before d ts i).cell? c) := by
    rw [hlast]
    exact Change.last?_getD_of_isSome hsome
  rw [hvalue, ← Tween.cell?_before_succ harranged.plain htween]
  refine (Tween.cell?_before_eq harranged.plain hik fun j hij hjk hlater => ?_).symm
  -- a later one that leaves the cell would be done, and then this one would have been before
  obtain ⟨t, ht, hdrives⟩ := hlater.drives
  obtain ⟨u, hu, rfl⟩ := h.exists_entry ht
  have hudone := hk j u (by omega) hu hlater
  rw [if_pos hjk] at hudone
  obtain ⟨t, ht, hdrives'⟩ := Tween.Leaves.drives ⟨e.tween, htween, hsome⟩
  obtain rfl : e.tween = t := Option.some.inj (htween.symm.trans ht)
  exact hdone (h.ends i j e u (by omega) he hu c hdrives' hdrives hudone)

/-- A cell that no tween is writing holds what it would hold in turn, also behind the changes of
    one more. -/
theorem cell?_made (hdone : e.phase ≠ .done) {s' : Scene}
    (hstart : e.tween.StartsAlike s' (Tween.before d ts i)) {p : Phase} (hnew : p ≠ .pending)
    (hcomplete : p = .done → e.tween.total ≤ now - e.tween.start) {chs : List Change}
    (hchs : e.tween.made s' (e.tween.progress (now - e.tween.start))
      (decide (e.tween.total ≤ now - e.tween.start)) = chs) {c : Cell} {k : Nat}
    (hk : ∀ j u, (es.set i { e with phase := p })[j]? = some u → Tween.Leaves d ts j c →
      u.phase = if j < k then .done else .pending) :
    (Change.last? d c chs).getD (s.cell? c) = (Tween.before d ts k).cell? c := by
  have htween := h.tween? he
  have hregular := harranged.regular _ (List.mem_of_getElem? htween)
  have hlt : i < es.length := (List.getElem?_eq_some_iff.1 he).1
  have hothers : ∀ j u, j ≠ i → es[j]? = some u → Tween.Leaves d ts j c →
      u.phase = if j < k then .done else .pending := by
    intro j u hji hu
    apply hk j u
    rw [List.getElem?_set_ne fun heq => hji heq.symm]
    exact hu
  by_cases hleaves : Tween.Leaves d ts i c
  · -- it is complete, and no later one has written the cell
    have hpk : p = if i < k then Phase.done else Phase.pending :=
      hk i _ (List.getElem?_set_self hlt) hleaves
    by_cases hik : i < k
    · rw [if_pos hik] at hpk
      have hle := hcomplete hpk
      apply cell?_of_leaves h harranged he hdone hleaves hik _ hothers
      rw [← hchs, decide_eq_true hle]
      exact Tween.last?_made hregular hstart hle
    · rw [if_neg hik] at hpk
      exact absurd hpk hnew
  · have hnone : Change.last? d c chs = none := by
      rw [Change.last?_eq_none_iff, ← hchs]
      intro ch hch hcell
      exact hleaves ⟨e.tween, htween, Tween.isSome_whole hregular hstart hch hcell⟩
    rw [hnone, Option.getD_none]
    refine h.cells c k fun j u hu hleaves' => hothers j u ?_ hu hleaves'
    rintro rfl
    exact hleaves hleaves'

end Cells

section Step

variable (h : OnCourse d ts es s) (harranged : Tween.Arranged d ts) (he : es[i]? = some e)
  (hnow : 0 ≤ now) (hran : ∀ j u, j < i → es[j]? = some u → u.Ran now)
include h harranged he hnow hran

/-- A tween that begins finds what it would find in turn. -/
theorem startsAlike (hpending : e.phase = .pending) (hbegun : e.tween.Begun now) :
    e.tween.StartsAlike s (Tween.before d ts i) := by
  refine Tween.startsAlike_of_reads h.skeleton (Tween.skeleton_before harranged.plain i) ?_
  intro c hreads
  refine h.cells c i fun j u hu hleaves => ?_
  obtain ⟨t, ht, hdrives⟩ := hleaves.drives
  obtain rfl : u.tween = t := Option.some.inj ((h.tween? hu).symm.trans ht)
  rcases Nat.lt_trichotomy j i with hji | rfl | hij
  · -- an earlier one that writes what it reads is done
    have horder := harranged.of_lt hji (h.tween? hu) (h.tween? he)
    rw [if_pos hji]
    exact (hran j u hji hu).done (horder.written c hdrives hreads now hnow hbegun)
  · rw [he] at hu
    cases hu
    rw [if_neg (Nat.lt_irrefl j)]
    exact hpending
  · rw [if_neg (by omega)]
    exact h.unread i j e u hij he hu c hreads hdrives hpending

/-- A tween that has begun and is not done has found what it would have found in turn. -/
theorem exists_start (hdone : e.phase ≠ .done) (hbegun : e.tween.Begun now) :
    ∃ s', e.begun s = e.tween.firstPhase s' ∧ e.tween.StartsAlike s' (Tween.before d ts i) := by
  by_cases hpending : e.phase = .pending
  · refine ⟨s, ?_, startsAlike h harranged he hnow hran hpending hbegun⟩
    rw [begun, hpending]
  · obtain ⟨s', hphase, hstart⟩ := h.began i e he hpending hdone
    refine ⟨s', ?_, hstart⟩
    rw [← hphase, begun]
    split
    · rename_i heq
      exact absurd heq hpending
    · rfl

/-- Letting a tween run that has begun keeps the course. -/
theorem run_of_begun (hdone : e.phase ≠ .done) (hbegun : e.tween.Begun now) :
    OnCourse d ts (es.set i (e.run now s).1) (e.run now s).2 ∧ (e.run now s).1.Ran now := by
  obtain ⟨s', hphase, hstart⟩ := exists_start h harranged he hnow hran hdone hbegun
  rw [Entry.run_of_begun hdone hbegun hphase]
  have htween := h.tween? he
  have hplain := harranged.plain _ (List.mem_of_getElem? htween)
  generalize hp : (if e.tween.total ≤ now - e.tween.start then Phase.done
    else e.tween.firstPhase s') = p
  have hnew : p ≠ .pending := by
    rw [← hp]
    split <;> exact Phase.noConfusion
  have hcomplete : p = .done ↔ e.tween.total ≤ now - e.tween.start := by
    rw [← hp]
    split
    · rename_i hle
      exact iff_of_true rfl hle
    · rename_i hle
      exact iff_of_false Phase.noConfusion hle
  generalize hchs : e.tween.made s' (e.tween.progress (now - e.tween.start))
    (decide (e.tween.total ≤ now - e.tween.start)) = chs
  have hmade := Scene.cell?_makeAll (hchs ▸ hplain s' _ _) s h.skeleton
  refine ⟨⟨?tweens, hmade.1, ?began, ?elapsed, ?unread, ?ends, ?cells⟩,
    ⟨fun _ => hnew, fun hover => hcomplete.2 hover.2⟩⟩
  case tweens =>
    rw [List.map_set, h.tweens]
    obtain ⟨hi, hget⟩ := List.getElem?_eq_some_iff.1 htween
    rw [← hget, List.set_getElem_self]
  case began =>
    intro j u hu hne hne'
    rcases of_getElem?_set hu with ⟨rfl, rfl⟩ | ⟨_, hu⟩
    · refine ⟨s', ?_, hstart⟩
      rw [← hp, if_neg fun hle => hne' (hcomplete.2 hle)]
    · exact h.began j u hu hne hne'
  case elapsed =>
    intro u hu hudone
    obtain ⟨j, hu⟩ := List.mem_iff_getElem?.1 hu
    rcases of_getElem?_set hu with ⟨rfl, rfl⟩ | ⟨_, hu⟩
    · exact ⟨now, hbegun, hcomplete.1 hudone⟩
    · exact h.elapsed u (List.mem_of_getElem? hu) hudone
  case unread =>
    intro j k u v hjk hu hv c hreads hdrives hpending
    rcases of_getElem?_set hu with ⟨rfl, rfl⟩ | ⟨_, hold⟩
    · exact absurd hpending hnew
    · rcases of_getElem?_set hv with ⟨rfl, rfl⟩ | ⟨_, hold'⟩
      · -- the earlier one has begun, for it reads what this one writes
        have horder := harranged.of_lt hjk (h.tween? hold) htween
        exact absurd hpending
          ((hran j u hjk hold).begun (horder.read c hreads hdrives now hnow hbegun))
      · exact h.unread j k u v hjk hold hold' c hreads hdrives hpending
  case ends =>
    intro j k u v hjk hu hv c hdrives hdrives' hvdone
    rcases of_getElem?_set hv with ⟨rfl, rfl⟩ | ⟨_, hold'⟩
    · rcases of_getElem?_set hu with ⟨rfl, rfl⟩ | ⟨_, hold⟩
      · exact absurd hjk (Nat.lt_irrefl j)
      · have horder := harranged.of_lt hjk (h.tween? hold) htween
        exact (hran j u hjk hold).done
          (horder.ends c hdrives hdrives' now hnow ⟨hbegun, hcomplete.1 hvdone⟩)
    · rcases of_getElem?_set hu with ⟨rfl, rfl⟩ | ⟨_, hold⟩
      · exact absurd (h.ends j k e v hjk he hold' c hdrives hdrives' hvdone) hdone
      · exact h.ends j k u v hjk hold hold' c hdrives hdrives' hvdone
  case cells =>
    intro c k hk
    rw [hmade.2]
    exact cell?_made h harranged he hdone hstart hnew hcomplete.1 hchs hk

/-- Letting one tween run keeps the course. -/
theorem run : OnCourse d ts (es.set i (e.run now s).1) (e.run now s).2 ∧
    (e.run now s).1.Ran now := by
  by_cases hstill : e.phase = .done ∨ ¬ e.tween.Begun now
  · obtain ⟨hi, hget⟩ := List.getElem?_eq_some_iff.1 he
    rw [run_of_still hstill, ← hget, List.set_getElem_self, hget]
    exact ⟨h, ran_of_still hstill⟩
  · rw [not_or, Decidable.not_not] at hstill
    exact run_of_begun h harranged he hnow hran hstill.1 hstill.2

end Step

/-! ## Running all tweens -/

theorem runAll_append (done : List Entry) {rest : List Entry} (h : OnCourse d ts (done ++ rest) s)
    (harranged : Tween.Arranged d ts) (hnow : 0 ≤ now) (hran : ∀ e ∈ done, e.Ran now) :
    OnCourse d ts (done ++ (Entry.runAll now rest s).1) (Entry.runAll now rest s).2 ∧
      ∀ e ∈ (Entry.runAll now rest s).1, e.Ran now := by
  induction rest generalizing done s with
  | nil => exact ⟨h, fun e he => by cases he⟩
  | cons e rest ih =>
    have he : (done ++ e :: rest)[done.length]? = some e := by
      rw [List.getElem?_append_right (Nat.le_refl _), Nat.sub_self, List.getElem?_cons_zero]
    obtain ⟨hcourse, hrun⟩ := h.run harranged he hnow fun j u hj hu => by
      rw [List.getElem?_append_left hj] at hu
      exact hran u (List.mem_of_getElem? hu)
    rw [List.set_append_right _ _ (Nat.le_refl _), Nat.sub_self, List.set_cons_zero,
      ← List.singleton_append, ← List.append_assoc] at hcourse
    have hran' : ∀ u ∈ done ++ [(e.run now s).1], u.Ran now := by
      intro u hu
      rcases List.mem_append.1 hu with hu | hu
      · exact hran u hu
      · rw [List.mem_singleton.1 hu]
        exact hrun
    obtain ⟨hcourse', hrest⟩ := ih _ hcourse hran'
    rw [List.append_assoc] at hcourse'
    refine ⟨hcourse', fun u hu => ?_⟩
    rcases List.mem_cons.1 hu with rfl | hu
    · exact hrun
    · exact hrest u hu

/-- Letting all tweens run keeps the course, and then each is as far as it can be. -/
theorem runAll (h : OnCourse d ts es s) (harranged : Tween.Arranged d ts) (hnow : 0 ≤ now) :
    OnCourse d ts (Entry.runAll now es s).1 (Entry.runAll now es s).2 ∧
      ∀ e ∈ (Entry.runAll now es s).1, e.Ran now :=
  runAll_append [] h harranged hnow fun e he => by cases he

/-- When all tweens are done, the diagram is as they leave it in turn. -/
theorem alike (h : OnCourse d ts es s) (harranged : Tween.Arranged d ts)
    (hdone : ∀ e ∈ es, e.phase = .done) : Scene.Alike s (Tween.inTurn d ts) := by
  have hall : Tween.before d ts ts.length = Tween.inTurn d ts := by
    rw [Tween.before, List.take_length]
  rw [← hall]
  refine ⟨h.skeleton.trans (Tween.skeleton_before harranged.plain _).symm, fun c => ?_⟩
  refine h.cells c ts.length fun i e he _ => ?_
  have hlt : i < ts.length := by
    rw [← h.tweens, List.length_map]
    exact (List.getElem?_eq_some_iff.1 he).1
  rw [if_pos hlt]
  exact hdone e (List.mem_of_getElem? he)

end OnCourse

end Entry

end Slideshow

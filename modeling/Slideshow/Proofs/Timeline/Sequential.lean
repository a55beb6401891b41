/-
  Slideshow.Proofs.Timeline.Sequential

  Tweens that run alone, one after another, each from its beginning to its end. Of the
  diagram in which a tween begins only little counts for what it leaves behind: what a tween
  that gives back has saved, and whether there is a camera to move (`StartsAlike`,
  `last?_made`). On its way a tween writes no other cells than at its end (`isSome_whole`).
-/
import Mathlib.Data.List.Basic
import Slideshow.Proofs.Timeline.Driving

namespace Slideshow

/-- The attributes of the root element that say what the camera shows. -/
def Cell.frame : List Cell :=
  ["viewBox", "width", "height"].map fun name => ⟨[0], .attribute name⟩

/-- The track moves the camera. -/
def Track.isCamera : Track → Bool
  | .viewport _ => true
  | _ => false

namespace Tween

variable {t : Tween Float} {d s s' : Scene} {c : Cell} {ch : Change}

/-! ## What a tween reads -/

/-- The tween moves the camera. -/
def MovesCamera (t : Tween Float) : Prop := ∃ track ∈ t.tracks, track.isCamera = true

instance (t : Tween Float) : Decidable t.MovesCamera :=
  inferInstanceAs (Decidable (∃ track ∈ t.tracks, track.isCamera = true))

/-- What the tween finds in the cell when it begins counts later: it gives it back, or it
    moves the camera and needs a frame. -/
def Reads (t : Tween Float) (d : Scene) (c : Cell) : Prop :=
  (t.restore = true ∧ t.Drives d c) ∨ (t.MovesCamera ∧ c ∈ Cell.frame)

instance (t : Tween Float) (d : Scene) (c : Cell) : Decidable (t.Reads d c) :=
  inferInstanceAs (Decidable ((t.restore = true ∧ t.Drives d c) ∨ (t.MovesCamera ∧ c ∈ Cell.frame)))

/-- The tweens that directives are planned as: what goes back and forth gives back what it
    found, and gives back attributes only. -/
structure Regular (t : Tween Float) : Prop where
  restore : t.yoyo = true → t.restore = true
  attributes : t.restore = true → ∀ track ∈ t.tracks, ∃ name start goal,
    track = .attribute name start goal

/-- The diagrams make no difference to what a tween that begins there leaves behind. -/
structure StartsAlike (t : Tween Float) (s s' : Scene) : Prop where
  saved : t.tracks.filterMap (t.saved? s) = t.tracks.filterMap (t.saved? s')
  camera : t.MovesCamera → (Stage.viewport? s).isSome = (Stage.viewport? s').isSome

theorem StartsAlike.refl (t : Tween Float) (s : Scene) : t.StartsAlike s s := ⟨rfl, fun _ => rfl⟩

theorem current?_eq_cell? (t : Tween Float) (s : Scene) (name : String) :
    t.current? s name =
      (t.target.key?.bind s.resolve?).bind fun a => s.cell? ⟨a, .attribute name⟩ := by
  unfold current?
  cases t.target.key? with
  | none => rfl
  | some key => exact s.attribute?_eq_cell? key name

/-- Diagrams that agree on what a tween reads. -/
theorem startsAlike_of_reads (hs : s.skeleton = d.skeleton) (hs' : s'.skeleton = d.skeleton)
    (h : ∀ c, t.Reads d c → s.cell? c = s'.cell? c) : t.StartsAlike s s' where
  saved := by
    refine List.filterMap_congr fun track htrack => ?_
    unfold saved?
    split
    · rename_i name start goal
      split
      · rename_i hrestore
        have hcurrent : t.current? s name = t.current? s' name := by
          have hresolve : s.resolve? = d.resolve? := funext (Scene.resolve?_congr hs)
          have hresolve' : s'.resolve? = d.resolve? := funext (Scene.resolve?_congr hs')
          rw [current?_eq_cell?, current?_eq_cell?, hresolve, hresolve']
          cases ha : t.target.key?.bind d.resolve? with
          | none => rfl
          | some a =>
            refine h _ (.inl ⟨hrestore, _, htrack, ?_⟩)
            rw [trackCell?, ha, Option.map_some]
        rw [hcurrent]
      · rfl
    · rfl
  camera hmoves := by
    have hroot : ∀ name, (⟨[0], .attribute name⟩ : Cell) ∈ Cell.frame →
        s.tag.get? name = s'.tag.get? name := fun name hname => h _ (.inr ⟨hmoves, hname⟩)
    have hbox := hroot "viewBox" (by decide)
    have hwidth := hroot "width" (by decide)
    have hheight := hroot "height" (by decide)
    show s.viewport?.isSome = s'.viewport?.isSome
    rw [Scene.viewport?, Scene.viewport?, Scene.length?, Scene.length?, Scene.length?,
      Scene.length?, hbox, hwidth, hheight]

/-! ## The changes of one tween -/

/-- The changes that a tween makes at some progress, given the diagram in which it began. -/
def made (t : Tween Float) (s : Scene) (progress : Float) (complete : Bool) : List Change :=
  t.writeChanges (t.tracks.map (t.trackState s)) progress complete ++
    if complete then t.settleChanges (t.tracks.filterMap (t.saved? s)) else []

/-- The changes of a tween that runs alone, at its end. -/
def whole (t : Tween Float) (s : Scene) : List Change := t.made s Scalar.one true

theorem writeChanges_eq (t : Tween Float) (s : Scene) (progress : Float) (complete : Bool) :
    t.writeChanges (t.tracks.map (t.trackState s)) progress complete =
      t.tracks.filterMap fun track =>
        t.trackChange? progress complete (track, t.trackState s track) := by
  rw [writeChanges, ← List.map_prod_left_eq_zip, List.filterMap_map]
  rfl

theorem owns_saved (t : Tween Float) (s : Scene) : t.Owns (t.tracks.filterMap (t.saved? s)) := by
  intro e he
  obtain ⟨track, htrack, hsaved⟩ := List.mem_filterMap.1 he
  unfold saved? at hsaved
  split at hsaved
  · split at hsaved
    · cases hsaved
      exact ⟨_, _, htrack⟩
    · cases hsaved
  · cases hsaved

theorem drives_of_mem_made {progress : Float} {complete : Bool}
    (hch : ch ∈ t.made s progress complete) (hc : ch.cell? d = some c) : t.Drives d c := by
  rcases List.mem_append.1 hch with hch | hch
  · exact drives_of_mem_writeChanges hch hc
  · split at hch
    · exact drives_of_mem_settleChanges (t.owns_saved s) hch hc
    · cases hch

/-- At its end a track writes its goal, whatever the tween found. -/
theorem trackChange?_one (h : t.StartsAlike s s') {track : Track} (htrack : track ∈ t.tracks) :
    t.trackChange? Scalar.one true (track, t.trackState s track) =
      t.trackChange? Scalar.one true (track, t.trackState s' track) := by
  have hone : (true && decide ((1 : Float) ≤ Scalar.one)) = true := by decide +kernel
  cases track with
  | text value => rfl
  | motion reference path start stop => rfl
  | viewport goal =>
    have hcamera := h.camera ⟨_, htrack, rfl⟩
    unfold trackState
    cases hview : Stage.viewport? s with
    | none =>
      rw [hview, Option.isSome_none] at hcamera
      rw [Option.isNone_iff_eq_none.1 (Option.isSome_eq_false_iff.1 hcamera.symm)]
    | some r =>
      rw [hview, Option.isSome_some] at hcamera
      obtain ⟨r', hview'⟩ := Option.isSome_iff_exists.1 hcamera.symm
      rw [hview']
      show t.trackChange? Scalar.one true (.viewport goal, .viewport r) =
        t.trackChange? Scalar.one true (.viewport goal, .viewport r')
      simp only [trackChange?, hone, if_true]
  | _ name start goal => simp only [trackState, trackChange?, attributeValue?, hone, if_true]

theorem whole_eq (h : t.StartsAlike s s') : t.whole s = t.whole s' := by
  have hwrites : t.writeChanges (t.tracks.map (t.trackState s)) Scalar.one true =
      t.writeChanges (t.tracks.map (t.trackState s')) Scalar.one true := by
    rw [writeChanges_eq, writeChanges_eq]
    exact List.filterMap_congr fun track htrack => trackChange?_one h htrack
  rw [whole, made, hwrites, h.saved]
  rfl

/-- A track that writes on its way also writes at its end. -/
theorem isSome_trackChange?_one {progress : Float} {complete : Bool} {track : Track}
    (h : (t.trackChange? progress complete (track, t.trackState s track)).isSome = true) :
    (t.trackChange? Scalar.one true (track, t.trackState s track)).isSome = true := by
  have hone : (true && decide ((1 : Float) ≤ Scalar.one)) = true := by decide +kernel
  cases track with
  | text value =>
    simp only [trackChange?] at h ⊢
    cases hkey : t.target.key? with
    | none =>
      rw [hkey] at h
      cases h
    | some key => rfl
  | viewport goal =>
    unfold trackState at h ⊢
    cases hview : Stage.viewport? s with
    | none =>
      rw [hview] at h
      cases h
    | some r => rfl
  | motion reference path start stop =>
    simp only [trackChange?] at h ⊢
    cases hkey : t.target.key? with
    | none =>
      rw [hkey] at h
      cases h
    | some key =>
      rw [hkey] at h
      -- only a path without pieces has no places
      cases path with
      | nil => cases h
      | cons first rest =>
        simp only [Option.bind_some, Path.pointAt?]
        split <;> rfl
  | _ name start goal =>
    simp only [trackState, trackChange?, attributeValue?, hone, if_true] at h ⊢
    cases hkey : t.target.key? with
    | none =>
      rw [hkey] at h
      cases h
    | some key => rfl

/-- A tween that gives nothing back ends with its goals. -/
theorem progress_of_complete (hyoyo : t.yoyo = false) {time : Float} (h : t.total ≤ time) :
    t.progress time = Scalar.one := by
  unfold progress
  rw [hyoyo, Bool.false_and, if_neg Bool.false_ne_true]
  split
  · rfl
  · rw [cycle, if_pos h]
    rfl

/-! ## What a tween leaves behind -/

/-- What a tween that gives back has saved covers all cells that it drives. -/
theorem isSome_last?_settle (hreg : t.Regular) (hrestore : t.restore = true)
    (hc : t.Drives d c) :
    (Change.last? d c (t.settleChanges (t.tracks.filterMap (t.saved? s)))).isSome = true := by
  obtain ⟨track, htrack, hcell⟩ := hc
  obtain ⟨name, start, goal, rfl⟩ := hreg.attributes hrestore track htrack
  obtain ⟨a, ha, rfl⟩ := Option.map_eq_some_iff.1 hcell
  obtain ⟨key, hkey, ha⟩ := Option.bind_eq_some_iff.1 ha
  have hmem : (name, t.current? s name) ∈ t.tracks.filterMap (t.saved? s) :=
    List.mem_filterMap.2 ⟨_, htrack, by rw [saved?, hrestore, if_pos rfl]⟩
  have hchange : Change.attribute key name (t.current? s name) ∈
      t.settleChanges (t.tracks.filterMap (t.saved? s)) := by
    rw [settleChanges, hkey, hrestore]
    exact List.mem_map.2 ⟨_, hmem, rfl⟩
  refine Change.isSome_last?_of_mem hchange ?_
  rw [Change.cell?, ha, Option.map_some]

/-- A tween that gives nothing back has nothing to settle. -/
theorem settleChanges_eq_nil (hrestore : t.restore = false)
    (saved : List (String × Option String)) : t.settleChanges saved = [] := by
  unfold settleChanges
  rw [hrestore]
  split <;> rfl

/-- On its way a tween writes only cells that it also writes at its end. -/
theorem isSome_whole (hreg : t.Regular) (h : t.StartsAlike s s') {progress : Float}
    {complete : Bool} (hch : ch ∈ t.made s progress complete) (hc : ch.cell? d = some c) :
    (Change.last? d c (t.whole s')).isSome = true := by
  rw [← whole_eq h, whole, made, if_pos rfl, Change.last?_append]
  cases hrestore : t.restore with
  | true =>
    have hsettled := isSome_last?_settle (s := s) hreg hrestore (drives_of_mem_made hch hc)
    rw [Option.isSome_or, hsettled, Bool.true_or]
  | false =>
    rw [made, settleChanges_eq_nil hrestore, ite_self, List.append_nil, writeChanges_eq] at hch
    obtain ⟨track, htrack, hsome⟩ := List.mem_filterMap.1 hch
    have hend := isSome_trackChange?_one (s := s) (Option.isSome_iff_exists.2 ⟨ch, hsome⟩)
    obtain ⟨ch', hch'⟩ := Option.isSome_iff_exists.1 hend
    have hcell : ch'.cell? d = some c := by
      rw [cell?_trackChange hch', ← cell?_trackChange hsome]
      exact hc
    have hmem : ch' ∈ t.writeChanges (t.tracks.map (t.trackState s)) Scalar.one true := by
      rw [writeChanges_eq]
      exact List.mem_filterMap.2 ⟨track, htrack, hch'⟩
    rw [Option.isSome_or, Bool.or_eq_true]
    exact .inr (Change.isSome_last?_of_mem hmem hcell)

/-- What a tween that is complete leaves behind, it would have left alone. -/
theorem last?_made (hreg : t.Regular) (h : t.StartsAlike s s') {time : Float}
    (hcomplete : t.total ≤ time) :
    Change.last? d c (t.made s (t.progress time) true) = Change.last? d c (t.whole s') := by
  rw [← whole_eq h, whole]
  cases hrestore : t.restore with
  | false =>
    have hyoyo : t.yoyo = false := by
      rw [Bool.eq_false_iff]
      intro hyoyo
      rw [hreg.restore hyoyo] at hrestore
      cases hrestore
    rw [progress_of_complete hyoyo hcomplete]
  | true =>
    by_cases hc : t.Drives d c
    · -- what it writes last is what it gives back
      have hsettled := isSome_last?_settle (s := s) hreg hrestore hc
      obtain ⟨v, hv⟩ := Option.isSome_iff_exists.1 hsettled
      rw [made, made, if_pos rfl, Change.last?_append, Change.last?_append, hv, Option.some_or,
        Option.some_or]
    · have hnone : ∀ progress, Change.last? d c (t.made s progress true) = none := fun progress =>
        Change.last?_eq_none_iff.2 fun ch hch hcell => hc (drives_of_mem_made hch hcell)
      rw [hnone, hnone]

/-! ## Tweens one after another -/

/-- All changes that the tween can make are plain. -/
def Plain (t : Tween Float) (d : Scene) : Prop :=
  ∀ s progress complete, ∀ ch ∈ t.made s progress complete, ch.Plain d

/-- The diagram after tweens that ran one after another, each from its beginning to its end. -/
def inTurn (s : Scene) (ts : List (Tween Float)) : Scene :=
  ts.foldl (fun s t => Stage.makeAll s (t.whole s)) s

variable {ts : List (Tween Float)}

/-- The diagram in which the tween at a place begins, if they run one after another. -/
def before (d : Scene) (ts : List (Tween Float)) (i : Nat) : Scene := inTurn d (ts.take i)

/-- The tween at a place, one after another, writes the cell. -/
def Leaves (d : Scene) (ts : List (Tween Float)) (i : Nat) (c : Cell) : Prop :=
  ∃ t ∈ ts[i]?, (Change.last? d c (t.whole (before d ts i))).isSome = true

theorem Leaves.drives {i : Nat} (h : Leaves d ts i c) : ∃ t ∈ ts[i]?, t.Drives d c := by
  obtain ⟨t, ht, hsome⟩ := h
  obtain ⟨v, hv⟩ := Option.isSome_iff_exists.1 hsome
  obtain ⟨ch, hch, hcell, _⟩ := Change.exists_of_last? hv
  exact ⟨t, ht, drives_of_mem_made hch hcell⟩

theorem before_succ {i : Nat} (ht : ts[i]? = some t) :
    before d ts (i + 1) = Stage.makeAll (before d ts i) (t.whole (before d ts i)) := by
  rw [before, List.take_add_one, ht, Option.toList_some, inTurn, List.foldl_append]
  rfl

section Plain

variable (hplain : ∀ t ∈ ts, t.Plain d)
include hplain

theorem skeleton_before (i : Nat) : (before d ts i).skeleton = d.skeleton := by
  induction i with
  | zero => rfl
  | succ i ih =>
    cases ht : ts[i]? with
    | none =>
      have hlength := List.getElem?_eq_none_iff.1 ht
      rw [before, List.take_of_length_le (by omega), ← List.take_of_length_le hlength]
      exact ih
    | some t =>
      rw [before_succ ht]
      exact (Scene.cell?_makeAll (hplain t (List.mem_of_getElem? ht) _ _ _) _ ih).1

theorem cell?_before_succ {i : Nat} (ht : ts[i]? = some t) :
    (before d ts (i + 1)).cell? c =
      (Change.last? d c (t.whole (before d ts i))).getD ((before d ts i).cell? c) := by
  rw [before_succ ht]
  exact (Scene.cell?_makeAll (hplain t (List.mem_of_getElem? ht) _ _ _) _
    (skeleton_before hplain i)).2 c

/-- A cell keeps what it holds while no tween writes it. -/
theorem cell?_before_eq {i k : Nat} (hik : i ≤ k)
    (h : ∀ j, i ≤ j → j < k → ¬ Leaves d ts j c) :
    (before d ts k).cell? c = (before d ts i).cell? c := by
  obtain ⟨n, rfl⟩ := Nat.exists_eq_add_of_le hik
  induction n with
  | zero => rfl
  | succ n ih =>
    rw [← ih (by omega) fun j hij hjk => h j hij (by omega), ← Nat.add_assoc]
    cases ht : ts[i + n]? with
    | none =>
      have hlength := List.getElem?_eq_none_iff.1 ht
      rw [before, before, List.take_of_length_le hlength, List.take_of_length_le (by omega)]
    | some t =>
      have hnone : Change.last? d c (t.whole (before d ts (i + n))) = none := by
        rw [← Option.not_isSome_iff_eq_none]
        exact fun hsome => h (i + n) (by omega) (by omega) ⟨t, ht, hsome⟩
      rw [cell?_before_succ hplain ht, hnone, Option.getD_none]

end Plain

end Tween

end Slideshow

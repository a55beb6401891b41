/-
  Slideshow.Proofs.Timeline.Pulses

  Pulses change a diagram only for a while. Of the tweens under way that write a cell, the first
  on the clock has saved what the cell held before the play (`Entry.Keeps`), as long as none ends
  under a later one (`Entry.Parted`); so when all are done, everything is as before
  (`pulses_fade`). One that ends under a later one leaves its mark: the later one gives back what
  it found, and that was not there before the play (`pulse_leaves_mark`).
-/
import Slideshow.Proofs.Timeline.Elapsed
import Slideshow.Proofs.Timeline.Layout
import Slideshow.Proofs.Timeline.Steps

namespace Slideshow

/-! ## Directives that fade -/

/-- Nothing but pulses and waits, at any depth. -/
inductive Directive.Fades {τ : Type} : Directive τ → Prop
  | pulse {target : String} {duration : Option τ} {repetitions : Option Nat} :
      Fades (.pulse target duration repetitions)
  | wait {duration : Option τ} : Fades (.wait duration)
  | parallel {ds : List (Directive τ)} (hds : ∀ d ∈ ds, Fades d) : Fades (.parallel ds)

/-- A tween that gives back everything that it changes, and does not change ids. -/
structure Tween.Fades (t : Tween Float) : Prop extends t.Regular where
  gives : ∀ track ∈ t.tracks, t.restore = true
  noId : ∀ start goal, .attribute "id" start goal ∉ t.tracks

namespace Planner

variable {S : Type} [Stage S] {p : Planner Float S}

theorem fades_pulse (target : String) (duration : Option Float) (repetitions : Option Nat)
    (time : Float) : ∀ t ∈ p.pulse target duration repetitions time, t.Fades := by
  intro t ht
  unfold pulse at ht
  split at ht
  · cases ht
  · cases List.mem_singleton.1 ht
    refine ⟨⟨fun _ => rfl, fun _ track htrack => ?_⟩, fun _ _ => rfl, fun start goal hid => ?_⟩
    · rcases List.mem_cons.1 htrack with rfl | htrack
      · exact ⟨_, _, _, rfl⟩
      · rw [List.mem_singleton.1 htrack]
        exact ⟨_, _, _, rfl⟩
    · simp [Tween.basic] at hid

theorem covers_fades :
    Covers p (fun _ => True) Directive.Fades fun ts => ∀ t ∈ ts, t.Fades where
  nil t ht := by cases ht
  append ts us hts hus t ht := (List.mem_append.1 ht).elim (hts t) (hus t)
  inside ds hd := by
    cases hd with
    | parallel hds => exact hds
  single d time index hnot hd _ := by
    cases hd with
    | pulse => exact fades_pulse _ _ _ time
    | wait =>
      intro t ht
      cases List.mem_singleton.1 ht
      exact ⟨regular_of_steady rfl rfl, by simp [Tween.basic], by simp [Tween.basic]⟩
    | parallel => exact absurd rfl (hnot _)

theorem fades_sequence (time : Float) {ds : List (Directive Float)} (hds : ∀ d ∈ ds, d.Fades) :
    ∀ t ∈ (p.sequence time ds).tweens, t.Fades :=
  covers_fades.sequence (fun _ _ _ _ => trivial) trivial hds

end Planner

/-! ## What a fading tween writes -/

namespace Tween

variable {t u : Tween Float} {d s : Scene} {c : Cell} {ch : Change}

/-- The tweens write no cell in common. -/
def Disjoint (d : Scene) (t u : Tween Float) : Prop :=
  ∀ track ∈ t.tracks, ∀ c ∈ t.trackCell? d track, ¬ u.Drives d c

instance (d : Scene) (t u : Tween Float) : Decidable (t.Disjoint d u) :=
  inferInstanceAs (Decidable (∀ track ∈ t.tracks, ∀ c ∈ t.trackCell? d track, ¬ u.Drives d c))

theorem trackCell?_congr {d' : Scene} (h : d.skeleton = d'.skeleton) (t : Tween Float) :
    t.trackCell? d = t.trackCell? d' := by
  have hresolve : d.resolve? = d'.resolve? := funext (Scene.resolve?_congr h)
  funext track
  cases track <;> simp only [trackCell?, hresolve]

theorem Disjoint.congr {d' : Scene} (h : t.Disjoint d u) (hskel : d.skeleton = d'.skeleton) :
    t.Disjoint d' u := by
  unfold Disjoint Drives at h ⊢
  rw [← trackCell?_congr hskel, ← trackCell?_congr hskel]
  exact h

theorem Disjoint.not_drives (h : t.Disjoint d u) (hc : t.Drives d c) : ¬ u.Drives d c := by
  obtain ⟨track, htrack, hcell⟩ := hc
  exact h track htrack c hcell

/-- It writes attributes only, and no id. -/
theorem Fades.part (h : t.Fades) (hc : t.Drives d c) :
    ∃ name, c.part = .attribute name ∧ name ≠ "id" := by
  obtain ⟨track, htrack, hcell⟩ := hc
  obtain ⟨name, start, goal, rfl⟩ := h.attributes (h.gives track htrack) track htrack
  obtain ⟨a, _, rfl⟩ := Option.map_eq_some_iff.1 hcell
  refine ⟨name, rfl, ?_⟩
  rintro rfl
  exact h.noId start goal htrack

/-- A change to what a fading tween writes is plain. -/
theorem Fades.plain (h : t.Fades) (hch : ∀ c, ch.cell? d = some c → t.Drives d c) :
    ch.Plain d :=
  Change.plain_of_cell? fun c hc => h.part (hch c hc)

/-- What a tween saves when it begins is what it finds. -/
theorem Fades.last?_saved (h : t.Fades) (hskel : s.skeleton = d.skeleton) (hc : t.Drives d c) :
    Change.last? d c (t.settleChanges (t.tracks.filterMap (t.saved? s))) = some (s.cell? c) := by
  have hrestore : t.restore = true := by
    obtain ⟨track, htrack, _⟩ := hc
    exact h.gives track htrack
  obtain ⟨v, hv⟩ := Option.isSome_iff_exists.1 (isSome_last?_settle h.toRegular hrestore hc)
  obtain ⟨ch, hch, hcell, rfl⟩ := Change.exists_of_last? hv
  rw [hv]
  unfold settleChanges at hch
  split at hch
  · cases hch
  · rename_i key hkey
    rw [if_pos hrestore] at hch
    obtain ⟨⟨name, value⟩, hsaved, rfl⟩ := List.mem_map.1 hch
    obtain ⟨track, htrack, hsaved⟩ := List.mem_filterMap.1 hsaved
    obtain ⟨a, ha, rfl⟩ := Option.map_eq_some_iff.1 hcell
    obtain ⟨name', start, goal, rfl⟩ := h.attributes hrestore track htrack
    rw [saved?, if_pos hrestore] at hsaved
    cases hsaved
    rw [Change.value, current?_eq_cell?, hkey, Option.bind_some, Scene.resolve?_congr hskel, ha,
      Option.bind_some]

end Tween

/-! ## One tween among others -/

namespace Entry

variable {e : Entry} {es rest : List Entry} {d s : Scene} {c : Cell} {now : Float}

/-- The tween has begun and is not done. -/
def UnderWay (e : Entry) : Prop := e.phase ≠ .pending ∧ e.phase ≠ .done

instance (e : Entry) : Decidable e.UnderWay :=
  inferInstanceAs (Decidable (e.phase ≠ .pending ∧ e.phase ≠ .done))

/-- The tween is under way and writes the cell. -/
def On (d : Scene) (c : Cell) (e : Entry) : Prop := e.UnderWay ∧ e.tween.Drives d c

instance (d : Scene) (c : Cell) (e : Entry) : Decidable (e.On d c) :=
  inferInstanceAs (Decidable (e.UnderWay ∧ e.tween.Drives d c))

/-- What a tween under way has saved. -/
def saved (e : Entry) : List (String × Option String) :=
  match e.phase with
  | .active _ saved => saved
  | _ => []

theorem saved_of_active {tracks : List TrackState} {saved : List (String × Option String)}
    (h : e.phase = .active tracks saved) : e.saved = saved := by
  rw [Entry.saved, h]

/-- What a cell held in a diagram is kept: by the tween, or if there is none by the cell. -/
def Keeps (d s : Scene) (c : Cell) : Option Entry → Prop
  | none => s.cell? c = d.cell? c
  | some e => Change.last? d c (e.tween.settleChanges e.saved) = some (d.cell? c)

/-- Where the cell is not written, it is kept as before. -/
theorem Keeps.of_cell? {behind : Option Entry} {s' : Scene} (h : Keeps d s c behind)
    (hcell : s'.cell? c = s.cell? c) : Keeps d s' c behind := by
  cases behind with
  | none => exact hcell.trans h
  | some u => exact h

/-- The first of some tweens that is under way and writes the cell. -/
def firstOn? (d : Scene) (c : Cell) (es : List Entry) : Option Entry :=
  es.find? fun e => decide (e.On d c)

theorem firstOn?_append (es es' : List Entry) :
    firstOn? d c (es ++ es') = (firstOn? d c es).or (firstOn? d c es') := List.find?_append

theorem firstOn?_cons (e : Entry) (es : List Entry) :
    firstOn? d c (e :: es) = if e.On d c then some e else firstOn? d c es := by
  by_cases h : e.On d c <;> simp [firstOn?, h]

theorem firstOn?_eq_none (h : ∀ e ∈ es, ¬ e.On d c) : firstOn? d c es = none :=
  List.find?_eq_none.2 fun e he => by simp [h e he]

/-- Of tweens under way that write the same cell, none ends under a later one. -/
def Parted (d : Scene) (now : Float) (es : List Entry) : Prop :=
  es.Pairwise fun e u => e.UnderWay → e.tween.Over now → u.UnderWay → e.tween.Disjoint d u.tween

instance (d : Scene) (now : Float) (es : List Entry) : Decidable (Parted d now es) :=
  inferInstanceAs (Decidable (es.Pairwise fun e u =>
    e.UnderWay → e.tween.Over now → u.UnderWay → e.tween.Disjoint d u.tween))

/-- The tween gives back everything, also what it has saved before. -/
structure Fades (e : Entry) : Prop where
  sound : e.Sound
  fades : e.tween.Fades

theorem Fades.run (h : e.Fades) (now : Float) (s : Scene) : (e.run now s).1.Fades :=
  ⟨h.sound.run now s, by rw [run_tween]; exact h.fades⟩

section Step

variable {tracks : List TrackState} {saved : List (String × Option String)} {behind : Option Entry}

/-- What a cell holds after changes that a fading tween makes. -/
theorem Fades.cell?_made (h : e.Fades) (hskel : s.skeleton = d.skeleton) {chs : List Change}
    (hchs : ∀ ch ∈ chs, ∀ c, ch.cell? d = some c → e.tween.Drives d c) :
    (Stage.makeAll s chs).skeleton = d.skeleton ∧
      ∀ c, (Stage.makeAll s chs).cell? c = (Change.last? d c chs).getD (s.cell? c) :=
  Scene.cell?_makeAll (fun ch hch => h.fades.plain (hchs ch hch)) s hskel

/-- A fading tween keeps the skeleton, and all cells that it does not write. -/
theorem Fades.run_frame (h : e.Fades) (hskel : s.skeleton = d.skeleton) (now : Float) :
    (e.run now s).2.skeleton = d.skeleton ∧
      ∀ c, ¬ e.tween.Drives d c → (e.run now s).2.cell? c = s.cell? c :=
  h.sound.run_frame (fun _ => h.fades.part) hskel now

/-- What a tween has saved, of the tweens from it on, that writes the cell and is under way from
    now on. -/
theorem Fades.keeps_saved (h : e.Fades) (hskel : s.skeleton = d.skeleton)
    (hphase : e.begun s = .active tracks saved) (hdrives : e.tween.Drives d c)
    (hkeeps : Keeps d s c (if e.On d c then some e else behind))
    (hbehind : e.phase = .pending → behind = none) :
    Change.last? d c (e.tween.settleChanges saved) = some (d.cell? c) := by
  rcases begun_cases hphase with ⟨hpending, rfl⟩ | hactive
  · -- it begins now, and nothing behind it has begun, so it finds what was there before
    have hnot : ¬ e.On d c := fun hon => hon.1.1 hpending
    rw [if_neg hnot, hbehind hpending] at hkeeps
    rw [h.fades.last?_saved hskel hdrives, hkeeps]
  · have hon : e.On d c := by
      refine ⟨⟨?_, ?_⟩, hdrives⟩ <;> rw [hactive] <;> exact Phase.noConfusion
    rw [if_pos hon, Keeps, saved_of_active hactive] at hkeeps
    exact hkeeps

/-- Letting a tween run keeps what a cell held, if it does not end under a later one. -/
theorem Fades.keeps_run (h : e.Fades) (hskel : s.skeleton = d.skeleton)
    (hkeeps : Keeps d s c (if e.On d c then some e else behind))
    (hpending : e.phase = .pending → behind = none)
    (hover : e.On d c → e.tween.Over now → behind = none) :
    Keeps d (e.run now s).2 c
      (if (e.run now s).1.On d c then some (e.run now s).1 else behind) := by
  have hstep := run_step now e s
  have hother := (h.run_frame hskel now).2 c
  generalize e.run now s = r at hstep hother ⊢
  cases hstep with
  | still => exact hkeeps
  | @going tracks saved hbegun hphase hnot =>
    by_cases hdrives : e.tween.Drives d c
    · -- it goes on, and keeps what it has saved
      rw [if_pos ⟨⟨Phase.noConfusion, Phase.noConfusion⟩, hdrives⟩]
      exact h.keeps_saved hskel hphase hdrives hkeeps hpending
    · rw [if_neg fun hon => hdrives hon.2] at hkeeps ⊢
      exact hkeeps.of_cell? (hother hdrives)
  | @ending tracks saved hphase hends =>
    rw [if_neg fun hon => hon.1.2 rfl]
    by_cases hdrives : e.tween.Drives d c
    · -- it gives back what it has saved, and no later one has begun on the cell
      have hsaved := h.keeps_saved hskel hphase hdrives hkeeps hpending
      have hnone : behind = none := by
        rcases begun_cases hphase with ⟨hwas, _⟩ | hactive
        · exact hpending hwas
        · refine hover ⟨⟨?_, ?_⟩, hdrives⟩ hends <;> rw [hactive] <;> exact Phase.noConfusion
      have hdriven : ∀ ch ∈ e.tween.writeChanges tracks (e.tween.progress (now - e.tween.start))
          true ++ e.tween.settleChanges saved, ∀ c, ch.cell? d = some c → e.tween.Drives d c := by
        intro ch hch c hc
        rcases List.mem_append.1 hch with hch | hch
        · exact Tween.drives_of_mem_writeChanges hch hc
        · exact Tween.drives_of_mem_settleChanges (owns_begun h.sound hphase) hch hc
      rw [hnone, Keeps, (h.cell?_made hskel hdriven).2, Change.last?_append, hsaved,
        Option.some_or, Option.getD_some]
    · rw [if_neg fun hon => hdrives hon.2] at hkeeps
      exact hkeeps.of_cell? (hother hdrives)

end Step

/-! ## All tweens -/

/-- What is kept when tweens are about to run: those that have run and those that have not. -/
structure Kept (d : Scene) (now : Float) (ran rest : List Entry) (s : Scene) : Prop where
  skeleton : s.skeleton = d.skeleton
  keeps : ∀ c, Keeps d s c (firstOn? d c (ran ++ rest))
  fades : ∀ e ∈ rest, e.Fades
  order : InOrder rest
  parted : Parted d now rest

theorem Kept.run {ran : List Entry} (h : Kept d now ran (e :: rest) s) :
    Kept d now (ran ++ [(e.run now s).1]) rest (e.run now s).2 := by
  obtain ⟨hfirst, horder⟩ := List.pairwise_cons.1 h.order
  obtain ⟨hends, hparted⟩ := List.pairwise_cons.1 h.parted
  have hfades := h.fades e List.mem_cons_self
  refine ⟨(hfades.run_frame h.skeleton now).1, fun c => ?_,
    fun u hu => h.fades u (List.mem_cons_of_mem _ hu), horder, hparted⟩
  -- either one that has run is the first on the cell, or this one, or one behind it
  have hkeeps := h.keeps c
  rw [firstOn?_append, firstOn?_cons] at hkeeps
  rw [List.append_assoc, List.singleton_append, firstOn?_append, firstOn?_cons]
  cases hran : firstOn? d c ran with
  | some u =>
    -- one that has run already keeps it
    rw [hran] at hkeeps
    exact hkeeps
  | none =>
    rw [hran, Option.none_or] at hkeeps
    rw [Option.none_or]
    refine hfades.keeps_run h.skeleton hkeeps (fun hpending => ?_) fun hon hover => ?_
    · exact firstOn?_eq_none fun u hu hon => hon.1.1 (hfirst u hu hpending)
    · exact firstOn?_eq_none fun u hu hon' =>
        (hends u hu hon.1 hover hon'.1).not_drives hon.2 hon'.2

/-- What is kept before and after all tweens have run. -/
structure AllKept (d : Scene) (es : List Entry) (s : Scene) : Prop where
  skeleton : s.skeleton = d.skeleton
  keeps : ∀ c, Keeps d s c (firstOn? d c es)
  fades : ∀ e ∈ es, e.Fades
  order : InOrder es
  sorted : Clock.Sorted es

theorem AllKept.runAll (h : AllKept d es s) (hparted : Parted d now es) :
    AllKept d (Entry.runAll now es s).1 (Entry.runAll now es s).2 := by
  have hkept : Kept d now ([] ++ (Entry.runAll now es s).1) [] (Entry.runAll now es s).2 :=
    runAll_induction (fun ran e rest s => Kept.run) []
      ⟨h.skeleton, h.keeps, h.fades, h.order, hparted⟩
  refine ⟨hkept.skeleton, fun c => ?_, fun e he => ?_, h.order.runAll h.sorted,
    sorted_runAll h.sorted⟩
  · have hkeeps := hkept.keeps c
    rw [List.nil_append, List.append_nil] at hkeeps
    exact hkeeps
  · obtain ⟨u, hu, s', rfl⟩ := exists_of_mem_runAll he
    exact (h.fades u hu).run now s'

end Entry

/-! ## Plays -/

namespace Player

variable {κ : Type} {p : Player κ} {ds : List (Directive Float)} {request : κ} {d : Scene}

/-- Whenever tweens run, none ends under a later one on the same attributes. -/
def Parted (d : Scene) (x : Player κ × Scene) (ticks : List Tick) : Prop :=
  Along (fun now es _ => Entry.Parted d now es) x ticks

instance (d : Scene) (x : Player κ × Scene) (ticks : List Tick) : Decidable (Parted d x ticks) :=
  inferInstanceAs (Decidable (Along (fun now es _ => Entry.Parted d now es) x ticks))

/-- If no tween begins before those on the same attributes that stand before it are over, none
    ends under a later one, at any pace. -/
theorem parted_of_successive
    (h : (p.started ds request d).1.clock.tweens.Pairwise fun t u =>
      t.Disjoint d u ∨ ∀ now, 0 ≤ now → u.Begun now → t.Over now) (ticks : List Tick) :
    Parted d (p.started ds request d) ticks := by
  -- when a tween has begun, those before it on the same attributes are done
  let R : Entry → Entry → Prop := fun e u =>
    (e.tween.Disjoint d u.tween ∨ ∀ now, 0 ≤ now → u.tween.Begun now → e.tween.Over now) ∧
      (e.tween.Disjoint d u.tween ∨ (u.phase ≠ .pending → e.phase = .done))
  have hrun : ∀ now, 0 ≤ now → ∀ (e u : Entry) (s s' : Scene), R e u →
      R (e.run now s).1 (u.run now s').1 := by
    intro now hnow e u s s' hR
    simp only [R, Entry.run_tween] at hR ⊢
    refine ⟨hR.1, ?_⟩
    rcases hR.1 with hdisjoint | hover
    · exact .inl hdisjoint
    · rcases hR.2 with hdisjoint | hdone
      · exact .inl hdisjoint
      · right
        intro hbegun
        by_cases hstarts : u.tween.Begun now
        · exact Entry.done_of_over (hover now hnow hstarts)
        · rw [Entry.run_of_still (.inr hstarts)] at hbegun
          rw [Entry.run_of_still (.inl (hdone hbegun))]
          exact hdone hbegun
  have hopening : (p.opening ds request d).1.clock.entries.Pairwise R := by
    have htweens := tweens_advance (p.opening ds request d).1 0 (p.opening ds request d).2
    have hpairs : (p.opening ds request d).1.clock.tweens.Pairwise fun t u =>
        t.Disjoint d u ∨ ∀ now, 0 ≤ now → u.Begun now → t.Over now := by
      rw [← htweens]
      exact h
    refine (List.pairwise_map.1 hpairs).imp_of_mem fun he hu hpair => ⟨hpair, .inr fun hne => ?_⟩
    exact absurd (pending_opening _ hu) hne
  have halong := inTime_opening.along (I := fun es _ => es.Pairwise R)
    (P := fun now es _ => Entry.Parted d now es)
    (fun now es s hnow hes => Entry.pairwise_runAll hes (hrun now hnow) s)
    (fun now es s _ hes => hes.imp fun hR hunder _ hon => ?_) hopening (.advance 0 :: ticks)
  · exact halong.2
  · exact hR.2.resolve_right fun hdone => hunder.2 (hdone hon.1)

theorem allKept_opening (hds : ∀ x ∈ ds, x.Fades) {ticks : List Tick}
    (hcompleted : (tickAll (p.started ds request d) ticks).1.state = .completed) :
    Entry.AllKept (hideTokens p.settings.tokens d) (p.opening ds request d).1.clock.entries
      (p.opening ds request d).2 := by
  have hpending : ∀ e ∈ (p.opening ds request d).1.clock.entries, e.phase = .pending :=
    pending_opening
  refine ⟨rfl, fun c => ?_, fun e he => ?_, ?_, sorted_opening hcompleted⟩
  · rw [Entry.firstOn?_eq_none fun e he hon => hon.1.1 (hpending e he)]
    rfl
  · obtain ⟨hplan, hsound⟩ := p.sound_begun ds request (hideTokens p.settings.tokens d) e he
    exact ⟨hsound, Planner.fades_sequence _ hds _ hplan⟩
  · exact List.pairwise_of_forall_mem_list fun e he u hu _ => hpending u hu

/-- When a play of pulses and waits completes, it leaves the diagram as it was when its tokens had
    been hidden. -/
theorem alike_hidden (hds : ∀ x ∈ ds, x.Fades) {ticks : List Tick}
    (hparted : Parted d (p.started ds request d) ticks)
    (hcompleted : (tickAll (p.started ds request d) ticks).1.state = .completed) :
    Scene.Alike (tickAll (p.started ds request d) ticks).2 (hideTokens p.settings.tokens d) := by
  have hskel := (hideTokens_cells p.settings.tokens d).1
  have halong : Along (fun now es _ => Entry.Parted (hideTokens p.settings.tokens d) now es)
      (p.opening ds request d) (.advance 0 :: ticks) := by
    refine ⟨fun _ _ => ?_, hparted.imp fun now es s h => ?_⟩
    · -- nothing is under way yet
      exact List.pairwise_of_forall_mem_list fun e he u hu hunderWay =>
        absurd (pending_opening e he) hunderWay.1
    · exact h.imp fun hends he hover hu => (hends he hover hu).congr hskel.symm
  obtain ⟨htime, hkept⟩ := inTime_opening.tickAll_induction
    (fun now es s _ hparted hkept => Entry.AllKept.runAll hkept hparted)
    (allKept_opening hds hcompleted) halong
  refine ⟨hkept.skeleton, fun c => ?_⟩
  have hkeeps := hkept.keeps c
  rwa [Entry.firstOn?_eq_none fun e he hon => hon.1.2 (htime.completed hcompleted e he)] at hkeeps

/-- Pulses and waits leave everything as it was, whatever their number, order and nesting, and at
    any pace, if none of them ends while another one that began behind it on the same attributes is
    under way: behind the play every attribute and every text of every element is as before, but
    the opacity of the tokens. -/
theorem pulses_fade (hds : ∀ x ∈ ds, x.Fades) {ticks : List Tick}
    (hparted : Parted d (p.started ds request d) ticks)
    (hcompleted : (tickAll (p.started ds request d) ticks).1.state = .completed) :
    let s := (tickAll (p.started ds request d) ticks).2
    s.skeleton = d.skeleton ∧
      (∀ c : Cell, ¬ c.OfToken p.settings.tokens d → s.cell? c = d.cell? c) ∧
      ∀ key, s.text? key = d.text? key ∧ ∀ name,
        (name = "opacity" → ∀ slot ∈ p.settings.tokens, d.resolve? slot.group ≠ d.resolve? key) →
          s.attribute? key name = d.attribute? key name := by
  intro s
  obtain ⟨hskel, hcells⟩ := alike_hidden hds hparted hcompleted
  obtain ⟨hhidden, hother⟩ := hideTokens_cells p.settings.tokens d
  have hsame : ∀ c : Cell, ¬ c.OfToken p.settings.tokens d → s.cell? c = d.cell? c :=
    fun c hc => (hcells c).trans ((hother c).2 hc)
  have hskel : s.skeleton = d.skeleton := hskel.trans hhidden
  refine ⟨hskel, hsame, fun key => ⟨?_, fun name hname => ?_⟩⟩
  · refine Scene.text?_congr hskel (fun a => hsame _ ?_) key
    rintro ⟨slot, _, hc⟩
    obtain ⟨_, _, hcell⟩ := Option.map_eq_some_iff.1 hc
    cases hcell
  · rw [Scene.attribute?_eq_cell?, Scene.attribute?_eq_cell?, Scene.resolve?_congr hskel]
    cases ha : d.resolve? key with
    | none => rfl
    | some a =>
      refine hsame _ ?_
      rintro ⟨slot, hslot, hc⟩
      obtain ⟨b, hb, hcell⟩ := Option.map_eq_some_iff.1 hc
      cases hcell
      exact hname rfl slot hslot (hb.trans ha.symm)

/-- Pulses on one shape, of which the second is over before the first, and a pulse inside a block
    on the shape inside a group. Pulses on one shape of which each is over before the next one
    begins leave everything as it was at any pace. -/
theorem pulses_fade_demo :
    let d : Scene :=
      { namespaces := []
        tag := ⟨none, "svg", []⟩
        children := [
          .element ⟨some "r", "rect", [("id", "r"), ("filter", "none")]⟩ [],
          .element ⟨some "g", "g", [("id", "g")]⟩ [.element ⟨none, "circle", []⟩ []],
          .element ⟨some "packet-grp", "g", [("id", "packet-grp")]⟩ []]
        detached := [] }
    let ds : List (Directive Float) := [.pulse "r" (some 1) none, .wait (some 0.125),
      .pulse "r" (some 0.25) (some 1), .parallel [.pulse "#g" none (some 0), .wait none]]
    let successive : List (Directive Float) := [.pulse "r" none (some 1),
      .pulse "g::shape" none none, .wait (some 1), .pulse "r" (some 0.25) none]
    let ticks : List Tick := [.advance 0.25, .fastForward, .advance 0.125, .advance 5]
    (∀ x ∈ ds, x.Fades) ∧ Parted d ((new .usual).started ds 0 d) ticks ∧
      (tickAll ((new .usual).started ds 0 d) [.advance 0.25]).2.attribute? "r" "filter" ≠
        some "none" ∧
      (tickAll ((new .usual).started ds 0 d) ticks).1.state = .completed ∧
      (tickAll ((new .usual).started ds 0 d) ticks).2.attribute? "r" "filter" = some "none" ∧
      ∀ ticks, let r := tickAll ((new .usual).started successive 0 d) ticks
        r.1.state = .completed → r.2.attribute? "r" "filter" = some "none" := by
  intro d ds successive ticks
  have hds : ∀ x ∈ ds, x.Fades := by
    simp only [ds, List.forall_mem_cons]
    refine ⟨.pulse, .wait, .pulse, .parallel ?_, by simp⟩
    simp only [List.forall_mem_cons]
    exact ⟨.pulse, .wait, by simp⟩
  have hparted : Parted d ((new .usual).started ds 0 d) ticks := by decide +kernel
  have hunder : (tickAll ((new .usual).started ds 0 d) [.advance 0.25]).2.attribute? "r" "filter" ≠
      some "none" := by decide +kernel
  have hcompleted : (tickAll ((new .usual).started ds 0 d) ticks).1.state = .completed := by
    decide +kernel
  refine ⟨hds, hparted, hunder, hcompleted, ?_, fun ticks hcompleted => ?_⟩
  · obtain ⟨_, _, hread⟩ := @pulses_fade Nat (new .usual) ds 0 d hds ticks hparted hcompleted
    rw [(hread "r").2 "filter" fun h => absurd h (by decide)]
    decide
  · have hsuccessive : ∀ x ∈ successive, x.Fades := by
      simp only [successive, List.forall_mem_cons]
      exact ⟨.pulse, .pulse, .wait, .pulse, by simp⟩
    -- a pulse that begins on the same shape begins behind the end of the one before
    have hafter : ((new .usual).started successive 0 d).1.clock.tweens.Pairwise fun t u =>
        t.Disjoint d u ∨ t.Timed ∧ t.finish < u.start := by decide +kernel
    have hparted : Parted d ((new .usual).started successive 0 d) ticks :=
      parted_of_successive (hafter.imp fun h => h.imp_right fun hends _ hnow hbegun =>
        hends.1.over_of_finish_lt hends.2 hnow hbegun) ticks
    obtain ⟨_, _, hread⟩ :=
      @pulses_fade Nat (new .usual) successive 0 d hsuccessive ticks hparted hcompleted
    rw [(hread "r").2 "filter" fun h => absurd h (by decide)]
    decide

/-- Two pulses on one shape that begin at once: the second one finds what the first one has
    written, and gives that back when both end. -/
theorem pulse_leaves_mark :
    ∃ d, Scene.load "<svg xmlns=\"http://www.w3.org/2000/svg\"><rect id=\"r\"/></svg>" = .ok d ∧
      let ds : List (Directive Float) := [.pulse "r" none none, .pulse "r" none none]
      let x := tickAll ((new .usual).started ds 0 d) [.advance (1 / 0)]
      x.1.state = .completed ∧ d.attribute? "r" "stroke-width" = none ∧
        x.2.attribute? "r" "stroke-width" = some "3" ∧
        x.2.attribute? "r" "filter" = some "brightness(1)" := by
  obtain ⟨d, hload, hcheck⟩ := Scene.exists_load_of_any
    "<svg xmlns=\"http://www.w3.org/2000/svg\"><rect id=\"r\"/></svg>" (fun d =>
      let ds : List (Directive Float) := [.pulse "r" none none, .pulse "r" none none]
      let x := tickAll ((new .usual).started ds 0 d) [.advance (1 / 0)]
      decide (x.1.state = .completed ∧ d.attribute? "r" "stroke-width" = none ∧
        x.2.attribute? "r" "stroke-width" = some "3" ∧
        x.2.attribute? "r" "filter" = some "brightness(1)"))
    (by decide +kernel)
  exact ⟨d, hload, of_decide_eq_true hcheck⟩

end Player

end Slideshow

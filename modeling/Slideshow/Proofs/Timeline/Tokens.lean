/-
  Slideshow.Proofs.Timeline.Tokens

  What is planned for tokens. Among the tweens of a step, in the order in which they are laid
  out, each one that makes a token visible is followed by one that hides the same token and
  starts no sooner (`PutAway`). The clock sorts tweens by their starts and keeps the order of
  those that start together, so it keeps this, too (`putAway_scheduleAll`).
-/
import Slideshow.Proofs.Timeline.Layout
import Slideshow.Proofs.Timeline.Queue

namespace Slideshow

/-! ## Transitions of attributes -/

namespace Directive

mutual

/-- What the transitions of a directive are about, at any depth: a target with new values. -/
def transitions {τ : Type} : Directive τ → List (String × Dict String)
  | .attributes target values _ _ => [(target, values)]
  | .parallel ds => listTransitions ds
  | _ => []

/-- What the transitions of some directives are about. -/
def listTransitions {τ : Type} : List (Directive τ) → List (String × Dict String)
  | [] => []
  | d :: ds => d.transitions ++ listTransitions ds

end

theorem mem_listTransitions {τ : Type} {ds : List (Directive τ)} {d : Directive τ} (hd : d ∈ ds)
    {x : String × Dict String} (hx : x ∈ d.transitions) : x ∈ listTransitions ds := by
  induction ds with
  | nil => cases hd
  | cons d' ds ih =>
    rcases List.mem_cons.1 hd with rfl | hd
    · exact List.mem_append_left _ hx
    · exact List.mem_append_right _ (ih hd)

end Directive

/-! ## Kinds of tweens -/

namespace Tween

/-- The tween is the one that a transition is laid out as. -/
def Carries (ds : List (Directive Float)) (t : Tween Float) : Prop :=
  ∃ x ∈ Directive.listTransitions ds, t.target = .element (elementId x.1) ∧
    t.tracks = x.2.entries.map fun e => .attribute e.1 none e.2

instance (ds : List (Directive Float)) (t : Tween Float) : Decidable (t.Carries ds) :=
  inferInstanceAs (Decidable (∃ x ∈ Directive.listTransitions ds, _ ∧ _))

/-- No track is about an opacity or an id. -/
def Modest (t : Tween Float) : Prop :=
  ∀ name start goal, .attribute name start goal ∈ t.tracks → name ≠ "opacity" ∧ name ≠ "id"

/-- The tween hides a token, all at once. -/
def Vanishes (group : String) (t : Tween Float) : Prop :=
  t = .basic (.element group) t.start Scalar.zero [Planner.opacity "0"]

/-- The tween makes a token visible, all at once, and may move it somewhere. -/
def Appears (group : String) (t : Tween Float) : Prop :=
  ∃ place : Option String, t = .basic (.element group) t.start Scalar.zero
    (Planner.opacity "1" :: (place.map fun v => Track.attribute "transform" none v).toList)

/-- What a tween does to tokens, given the tweens that come later. -/
inductive Role (tokens : List TokenSlot) (ds : List (Directive Float))
    (later : List (Tween Float)) (t : Tween Float) : Prop
  | modest (h : t.Modest)
  | transition (h : t.Carries ds)
  | vanish {slot : TokenSlot} (hslot : slot ∈ tokens) (h : t.Vanishes slot.group)
  /-- It makes a token visible that a later one hides. -/
  | appear {slot : TokenSlot} (hslot : slot ∈ tokens) (h : t.Appears slot.group)
      {u : Tween Float} (hu : u ∈ later) (hvanish : u.Vanishes slot.group)
      (hle : t.start ≤ u.start)

variable {tokens : List TokenSlot} {ds : List (Directive Float)} {t u : Tween Float}
  {later ts us : List (Tween Float)}

theorem Role.mono (h : Role tokens ds later t) (hsub : later ⊆ us) : Role tokens ds us t := by
  cases h with
  | modest h => exact .modest h
  | transition h => exact .transition h
  | vanish hslot h => exact .vanish hslot h
  | appear hslot h hu hvanish hle => exact .appear hslot h (hsub hu) hvanish hle

/-- One that starts sooner than another one is not hidden by it. -/
theorem Role.of_cons (h : Role tokens ds (u :: later) t) (hnot : ¬ t.start ≤ u.start) :
    Role tokens ds later t := by
  cases h with
  | modest h => exact .modest h
  | transition h => exact .transition h
  | vanish hslot h => exact .vanish hslot h
  | appear hslot h hu hvanish hle =>
    rcases List.mem_cons.1 hu with rfl | hu
    · exact absurd hle hnot
    · exact .appear hslot h hu hvanish hle

/-- Every token that becomes visible is hidden later, by one of the tweens or one of those that
    are still to come. -/
def PutAway (tokens : List TokenSlot) (ds : List (Directive Float)) (later : List (Tween Float)) :
    List (Tween Float) → Prop
  | [] => True
  | t :: ts => Role tokens ds (ts ++ later) t ∧ PutAway tokens ds later ts

theorem putAway_append :
    PutAway tokens ds later (ts ++ us) ↔
      PutAway tokens ds (us ++ later) ts ∧ PutAway tokens ds later us := by
  induction ts with
  | nil => simp only [List.nil_append, PutAway, true_and]
  | cons t ts ih => simp only [List.cons_append, PutAway, ih, List.append_assoc, and_assoc]

theorem PutAway.mono (h : PutAway tokens ds later ts) (hsub : later ⊆ us) :
    PutAway tokens ds us ts := by
  induction ts with
  | nil => trivial
  | cons t ts ih =>
    refine ⟨h.1.mono fun u hu => ?_, ih h.2⟩
    exact (List.mem_append.1 hu).elim (List.mem_append_left _)
      fun hu => List.mem_append_right _ (hsub hu)

theorem PutAway.append (h : PutAway tokens ds [] ts) (h' : PutAway tokens ds [] us) :
    PutAway tokens ds [] (ts ++ us) :=
  putAway_append.2 ⟨h.mono (List.nil_subset _), h'⟩

theorem putAway_of_modest (h : ∀ t ∈ ts, t.Modest) : PutAway tokens ds later ts := by
  induction ts with
  | nil => trivial
  | cons t ts ih =>
    exact ⟨.modest (h t List.mem_cons_self), ih fun u hu => h u (List.mem_cons_of_mem _ hu)⟩

end Tween

/-! ## The plan -/

namespace Planner

open Tween (PutAway)

variable {S : Type} [Stage S] {p : Planner Float S} {ds : List (Directive Float)}

/-- Numbers that are not negative tell a time. -/
theorem timely_nonneg : Timely fun x : Float => 0 ≤ x where
  refl _ hx := (Decimal.Number.self_of_le hx).2
  trans _ _ _ hxy hyz := Decimal.Number.le_trans hxy hyz
  add _ _ hx hd := ⟨Decimal.nonneg_add hx hd, Decimal.le_add hx hd⟩

theorem modest_ways (group : String) (time : Float) (ws : List (PathSpec Float)) :
    ∀ t ∈ (p.ways group time ws).tweens, t.Modest := by
  induction ws generalizing time with
  | nil =>
    intro t ht
    cases ht
  | cons w ws ih =>
    intro t ht
    unfold ways at ht
    split at ht
    · exact ih time t ht
    · rcases List.mem_cons.1 ht with rfl | ht
      · intro name start goal htrack
        cases List.mem_singleton.1 htrack
      · exact ih _ t ht

theorem modest_pulse (target : String) (duration : Option Float) (repetitions : Option Nat)
    (time : Float) : ∀ t ∈ p.pulse target duration repetitions time, t.Modest := by
  intro t ht
  unfold pulse at ht
  split at ht
  · cases ht
  · cases List.mem_singleton.1 ht
    intro name start goal htrack
    rcases List.mem_cons.1 htrack with heq | htrack
    · cases heq
      decide
    · cases List.mem_singleton.1 htrack
      decide

/-- A packet hides its token at the end of its way. -/
theorem putAway_packet (hp : p.defaults.Lasting) (label : Option String) (start : Option Point)
    {paths : List (PathSpec Float)} (hpaths : ∀ w ∈ paths, ∀ x ∈ w.duration, Scalar.zero ≤ x)
    {time : Float} (htime : 0 ≤ time) (index : Nat) :
    PutAway p.tokens ds [] (p.packet label start paths time index).tweens := by
  unfold packet
  cases htoken : p.token? index with
  | none => trivial
  | some slot =>
    have hslot : slot ∈ p.tokens := List.mem_of_getElem? htoken
    have hle : time ≤ (p.ways slot.group time paths).finish :=
      ((laid_ways hp.advancing slot.group time hpaths).ahead timely_nonneg htime).le
    have hnamed : ∀ t ∈ (label.map fun s =>
        Tween.basic (.element slot.label) time Scalar.zero [.text s]).toList, t.Modest := by
      intro t ht name start goal htrack
      obtain ⟨s, _, rfl⟩ := Option.map_eq_some_iff.1 (Option.mem_toList.1 ht)
      cases List.mem_singleton.1 htrack
    have hvanish : Tween.Vanishes slot.group (.basic (.element slot.group)
        (p.ways slot.group time paths).finish Scalar.zero [opacity "0"]) := rfl
    -- the token appears, and what comes between that and its end does not touch its opacity
    refine ⟨.appear hslot ⟨start.map Point.shift, ?_⟩ ?_ hvanish hle, ?_⟩
    · cases start <;> rfl
    · rw [List.append_nil]
      exact List.mem_append_right _ List.mem_cons_self
    · exact PutAway.append (PutAway.append (Tween.putAway_of_modest hnamed)
        (Tween.putAway_of_modest (modest_ways slot.group time paths)))
        ⟨.vanish hslot hvanish, trivial⟩

/-- Every plan puts tokens away, whatever it is made of. -/
theorem covers_putAway (hp : p.defaults.Lasting) :
    Covers p (fun time => 0 ≤ time)
      (fun d => d.Lasting ∧ ∀ x ∈ d.transitions, x ∈ Directive.listTransitions ds)
      (PutAway p.tokens ds []) where
  nil := trivial
  append _ _ h h' := h.append h'
  inside inner hd d hmem := by
    obtain ⟨hlasting, hin⟩ := hd
    cases hlasting with
    | parallel hinner =>
      exact ⟨hinner d hmem, fun x hx => hin x (Directive.mem_listTransitions hmem hx)⟩
  single d time index hnot hd htime := by
    have hmodest : ∀ {t : Tween Float}, (∀ track ∈ t.tracks, ∀ name start goal,
        track ≠ .attribute name start goal) → PutAway p.tokens ds [] [t] :=
      fun h => ⟨.modest fun name start goal htrack => absurd rfl (h _ htrack name start goal),
        trivial⟩
    obtain ⟨hlasting, hin⟩ := hd
    cases hlasting with
    | parallel => exact absurd rfl (hnot _)
    | packet hpaths => exact putAway_packet hp _ _ hpaths htime index
    | pulse => exact Tween.putAway_of_modest (modest_pulse _ _ _ time)
    | camera => exact hmodest (by simp [Tween.basic])
    | setValue => exact hmodest (by simp [Tween.basic])
    | wait => exact hmodest (by simp [Tween.basic])
    | attributes => exact ⟨.transition ⟨_, hin _ List.mem_cons_self, rfl, rfl⟩, trivial⟩

variable (hp : p.defaults.Lasting) (hds : ∀ d ∈ ds, d.Lasting)
include hp hds

theorem putAway_plan : PutAway p.tokens ds [] (p.plan ds) := by
  refine (covers_putAway hp).sequence (fun d time hd htime => ?_)
    (by decide +kernel : (0 : Float) ≤ 0) fun d hd =>
      ⟨hds d hd, fun x hx => Directive.mem_listTransitions hd hx⟩
  exact (laid_directive hp time 0 d hd.1).isPoint timely_nonneg htime

/-- No tween of a plan starts before the beginning. -/
theorem nonneg_start : ∀ t ∈ p.plan ds, 0 ≤ t.start :=
  ((laid_sequence hp.advancing Scalar.zero hds).ahead timely_nonneg (by decide +kernel)).starts

end Planner

/-! ## The clock -/

namespace Clock

open Tween (PutAway Role)

variable {tokens : List TokenSlot} {ds : List (Directive Float)} {c : Clock} {t : Tween Float}
  {ts : List (Tween Float)}

/-- The next tween takes its place behind all that it may have to hide. -/
theorem putAway_schedule (hsorted : Sorted c.entries)
    (hclock : PutAway tokens ds (t :: ts) c.tweens) (ht : Role tokens ds ts t) :
    PutAway tokens ds ts (c.schedule t).2.tweens := by
  obtain ⟨before, behind, hsplit, hentries, _, hbehind⟩ := exists_split_schedule hsorted t
  -- what stands behind it starts later, and so is not hidden by it
  have hdrop : ∀ es : List Entry, (∀ e ∈ es, ¬ e.tween.start ≤ t.start) →
      PutAway tokens ds (t :: ts) (es.map (·.tween)) → PutAway tokens ds ts (es.map (·.tween)) := by
    intro es hes h
    induction es with
    | nil => trivial
    | cons e es ih =>
      obtain ⟨hnot, hrest⟩ := List.forall_mem_cons.1 hes
      refine ⟨?_, ih hrest h.2⟩
      refine (h.1.mono fun u hu => ?_ : Role tokens ds (t :: _) e.tween).of_cons hnot
      exact List.perm_middle.subset hu
  rw [tweens, hsplit, List.map_append, Tween.putAway_append] at hclock
  rw [tweens, hentries, List.map_append, List.map_cons, Tween.putAway_append]
  -- for what stands before it, it comes later than before, but still behind
  refine ⟨hclock.1.mono (List.perm_middle.subset), ht.mono (List.subset_append_right _ _), ?_⟩
  exact hdrop behind hbehind hclock.2

/-- What puts tokens away as it was laid out does so on the clock. -/
theorem putAway_scheduleAll (hsorted : Sorted c.entries)
    (hnumbers : ∀ e ∈ (c.scheduleAll ts).entries, e.tween.start ≤ e.tween.start)
    (hclock : PutAway tokens ds ts c.tweens) (hplan : PutAway tokens ds [] ts) :
    PutAway tokens ds [] (c.scheduleAll ts).tweens := by
  induction ts generalizing c with
  | nil => exact hclock
  | cons t ts ih =>
    obtain ⟨ht, hrest⟩ := hplan
    rw [List.append_nil] at ht
    exact ih (sorted_schedule_first hsorted hnumbers) hnumbers
      (putAway_schedule hsorted hclock ht) hrest

end Clock

end Slideshow

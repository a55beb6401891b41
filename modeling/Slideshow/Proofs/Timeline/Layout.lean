/-
  Slideshow.Proofs.Timeline.Layout

  How directives are laid out in time. A layout is built of single tweens, one after another
  or side by side (`Laid`), so what holds of these ways to build holds of every tree of
  directives. No layout leads back in time (`Laid.ahead`); on exact numbers its end is the
  latest end of its tweens that are not pulses (`Laid.spans`), and it can be shifted in time
  (`directive_shift`). The main statement is `layout_laws`.
-/
import Mathlib.Algebra.Order.Field.Rat
import Mathlib.Tactic.Linarith
import Slideshow.Timeline.Plan

namespace Slideshow

/-! ## Lengths of time -/

section Lasting

variable {τ : Type} [Scalar τ]

/-- No usual length of time is negative. -/
structure Defaults.Lasting (d : Defaults τ) : Prop where
  camera : Scalar.zero ≤ d.cameraDuration
  segment : Scalar.zero ≤ d.segmentDuration
  wait : Scalar.zero ≤ d.waitDuration
  transition : Scalar.zero ≤ d.transitionDuration
  pulse : Scalar.zero ≤ d.pulseDuration

/-- No usual length of time that leads ahead is negative. A pulse leads nowhere. -/
structure Defaults.Advancing (d : Defaults τ) : Prop where
  camera : Scalar.zero ≤ d.cameraDuration
  segment : Scalar.zero ≤ d.segmentDuration
  wait : Scalar.zero ≤ d.waitDuration
  transition : Scalar.zero ≤ d.transitionDuration

theorem Defaults.Lasting.advancing {d : Defaults τ} (h : d.Lasting) : d.Advancing :=
  ⟨h.camera, h.segment, h.wait, h.transition⟩

/-- No length of time that a directive states is negative, at any depth. -/
inductive Directive.Lasting : Directive τ → Prop
  | camera {frame : Frame} {duration : Option τ} {ease : Option Ease}
      (hduration : ∀ x ∈ duration, Scalar.zero ≤ x) : Lasting (.camera frame duration ease)
  | packet {label : Option String} {start : Option Point} {paths : List (PathSpec τ)}
      (hpaths : ∀ w ∈ paths, ∀ x ∈ w.duration, Scalar.zero ≤ x) :
      Lasting (.packet label start paths)
  | setValue {target value : String} : Lasting (.setValue target value)
  | pulse {target : String} {duration : Option τ} {repetitions : Option Nat}
      (hduration : ∀ x ∈ duration, Scalar.zero ≤ x) :
      Lasting (.pulse target duration repetitions)
  | wait {duration : Option τ} (hduration : ∀ x ∈ duration, Scalar.zero ≤ x) :
      Lasting (.wait duration)
  | attributes {target : String} {values : Dict String} {duration : Option τ}
      {ease : Option Ease} (hduration : ∀ x ∈ duration, Scalar.zero ≤ x) :
      Lasting (.attributes target values duration ease)
  | parallel {ds : List (Directive τ)} (hds : ∀ d ∈ ds, Lasting d) : Lasting (.parallel ds)

theorem zero_le_getD {duration : Option τ} {usual : τ}
    (h : ∀ x ∈ duration, Scalar.zero ≤ x) (husual : Scalar.zero ≤ usual) :
    Scalar.zero ≤ duration.getD usual := by
  cases duration with
  | none => exact husual
  | some x => exact h x rfl

end Lasting

/-- Two layouts that differ at most in what their tweens are about. -/
def Layout.SameButTargets {τ : Type} (l l' : Layout τ) : Prop :=
  l.finish = l'.finish ∧ l.tweens.map (fun t => { t with target := .gap }) =
    l'.tweens.map fun t => { t with target := .gap }

/-- The layout moved in time. -/
def Layout.shift (l : Layout Rat) (time : Rat) : Layout Rat :=
  ⟨l.tweens.map fun t => { t with start := t.start + time }, l.finish + time⟩

namespace Planner

/-! ## How layouts are built -/

section Laid

variable {τ S : Type} [Scalar τ] [Stage S] {p : Planner τ S}

/-- A tween that a pulse is laid out as. -/
def IsPulse (p : Planner τ S) (t : Tween τ) : Prop :=
  ∃ target duration repetitions time, t ∈ p.pulse target duration repetitions time

/-- A pulse begins where it is laid out, and gives back what it found. -/
theorem of_mem_pulse {target : String} {duration : Option τ} {repetitions : Option Nat} {time : τ}
    {t : Tween τ} (ht : t ∈ p.pulse target duration repetitions time) :
    t.start = time ∧ t.restore = true := by
  unfold pulse at ht
  split at ht
  · cases ht
  · cases List.mem_singleton.1 ht
    exact ⟨rfl, rfl⟩

/-- The ways to build a layout that begins at a time. -/
inductive Laid (p : Planner τ S) : τ → Layout τ → Prop
  | empty (time : τ) : Laid p time ⟨[], time⟩
  | lasting (time : τ) (target : Target) {duration : τ} (tracks : List Track) (ease : Ease)
      (hduration : Scalar.zero ≤ duration) :
      Laid p time ⟨[{ Tween.basic target time duration tracks with ease }], time + duration⟩
  | instant (time : τ) (target : Target) (tracks : List Track) :
      Laid p time ⟨[.basic target time Scalar.zero tracks], time⟩
  | pulse (time : τ) (target : String) (duration : Option τ) (repetitions : Option Nat) :
      Laid p time ⟨p.pulse target duration repetitions time, time⟩
  | after {time : τ} {l l' : Layout τ} (h : Laid p time l) (h' : Laid p l.finish l') :
      Laid p time ⟨l.tweens ++ l'.tweens, l'.finish⟩
  | beside {time : τ} {l l' : Layout τ} (h : Laid p time l) (h' : Laid p time l') :
      Laid p time ⟨l.tweens ++ l'.tweens, Scalar.later l.finish l'.finish⟩

theorem laid_ways (hp : p.defaults.Advancing) (group : String) (time : τ)
    {ws : List (PathSpec τ)} (hws : ∀ w ∈ ws, ∀ x ∈ w.duration, Scalar.zero ≤ x) :
    Laid p time (p.ways group time ws) := by
  induction ws generalizing time with
  | nil => exact .empty time
  | cons w ws ih =>
    have hrest : ∀ w ∈ ws, ∀ x ∈ w.duration, Scalar.zero ≤ x := fun w hw =>
      hws w (List.mem_cons_of_mem _ hw)
    unfold ways
    cases p.path? w.pathId with
    | none => exact ih time hrest
    | some path =>
      have hfirst := zero_le_getD (hws w List.mem_cons_self) hp.segment
      exact (Laid.lasting time (.element group) _ _ hfirst).after (ih _ hrest)

theorem laid_packet (hp : p.defaults.Advancing) (label : Option String) (start : Option Point)
    {paths : List (PathSpec τ)} (hpaths : ∀ w ∈ paths, ∀ x ∈ w.duration, Scalar.zero ≤ x)
    (time : τ) (index : Nat) :
    Laid p time (p.packet label start paths time index) := by
  unfold packet
  cases p.token? index with
  | none => exact .empty time
  | some slot =>
    have happear : Laid p time
        ⟨[.basic (.element slot.group) time Scalar.zero (opacity "1" ::
          (start.map fun q => Track.attribute "transform" none q.shift).toList)], time⟩ :=
      .instant time _ _
    have hnamed : Laid p time ⟨(label.map fun s =>
        Tween.basic (.element slot.label) time Scalar.zero [.text s]).toList, time⟩ := by
      cases label with
      | none => exact .empty time
      | some s => exact .instant time _ _
    have hway := laid_ways hp slot.group time hpaths
    -- the token appears, its label is set, it travels, and then it disappears
    have hall := ((happear.after hnamed).after hway).after (.instant _ (.element slot.group)
      [opacity "0"])
    simpa only [List.cons_append, List.nil_append, List.append_assoc] using hall

mutual

theorem laid_of_advancing (hp : p.defaults.Advancing) (time : τ) (index : Nat) :
    (d : Directive τ) → d.Lasting → Laid p time (p.directive time index d)
  | .camera _ _ _, .camera hduration => .lasting time _ _ _ (zero_le_getD hduration hp.camera)
  | .packet label start _, .packet hpaths => laid_packet hp label start hpaths time index
  | .setValue _ _, .setValue => .instant time _ _
  | .pulse target duration repetitions, .pulse _ => .pulse time target duration repetitions
  | .wait _, .wait hduration => .lasting time _ _ .linear (zero_le_getD hduration hp.wait)
  | .attributes _ _ _ _, .attributes hduration =>
    .lasting time _ _ _ (zero_le_getD hduration hp.transition)
  | .parallel ds, .parallel hds => laid_block hp time 0 ds hds (.empty time)

/-- A block is laid out beside what was laid out before. -/
theorem laid_block (hp : p.defaults.Advancing) (time : τ) (packets : Nat) :
    (ds : List (Directive τ)) → (∀ d ∈ ds, d.Lasting) → {l : Layout τ} → Laid p time l →
      Laid p time ⟨l.tweens ++ (p.block time packets l.finish ds).tweens,
        (p.block time packets l.finish ds).finish⟩
  | [], _, l, hl => by
    rw [block, List.append_nil]
    exact hl
  | d :: ds, hds, l, hl => by
    have hfirst := laid_of_advancing hp time (if isPacket d then packets else 0) d
      (hds d List.mem_cons_self)
    have hrest := laid_block hp time (if isPacket d then packets + 1 else packets) ds
      (fun d' hd' => hds d' (List.mem_cons_of_mem _ hd')) (hl.beside hfirst)
    rw [List.append_assoc] at hrest
    exact hrest

end

theorem laid_sequence (hp : p.defaults.Advancing) (time : τ) {ds : List (Directive τ)}
    (hds : ∀ d ∈ ds, d.Lasting) : Laid p time (p.sequence time ds) := by
  induction ds generalizing time with
  | nil => exact .empty time
  | cons d ds ih =>
    exact (laid_of_advancing hp time 0 d (hds d List.mem_cons_self)).after
      (ih _ fun d' hd' => hds d' (List.mem_cons_of_mem _ hd'))

theorem laid_directive (hp : p.defaults.Lasting) (time : τ) (index : Nat) (d : Directive τ)
    (hd : d.Lasting) : Laid p time (p.directive time index d) :=
  laid_of_advancing hp.advancing time index d hd

end Laid

/-! ## Tweens of all directives -/

section Covers

variable {τ S : Type} [Scalar τ] [Stage S] {p : Planner τ S} {T : τ → Prop}
  {D : Directive τ → Prop} {Q : List (Tween τ) → Prop}

/-- What holds of the tweens of each single directive, as long as it begins at a suitable time,
    holds of several lists of tweens together. -/
structure Covers (p : Planner τ S) (T : τ → Prop) (D : Directive τ → Prop)
    (Q : List (Tween τ) → Prop) : Prop where
  nil : Q []
  append : ∀ ts us, Q ts → Q us → Q (ts ++ us)
  inside : ∀ ds, D (.parallel ds) → ∀ d ∈ ds, D d
  single : ∀ d time index, (∀ ds, d ≠ .parallel ds) → D d → T time →
    Q (p.directive time index d).tweens

mutual

theorem Covers.directive (h : Covers p T D Q) {time : τ} (htime : T time) (index : Nat) :
    (d : Directive τ) → D d → Q (p.directive time index d).tweens
  | .parallel ds, hd => h.block htime 0 time ds (h.inside ds hd)
  | .camera .., hd => h.single _ time index (fun _ => nofun) hd htime
  | .packet .., hd => h.single _ time index (fun _ => nofun) hd htime
  | .setValue .., hd => h.single _ time index (fun _ => nofun) hd htime
  | .pulse .., hd => h.single _ time index (fun _ => nofun) hd htime
  | .wait .., hd => h.single _ time index (fun _ => nofun) hd htime
  | .attributes .., hd => h.single _ time index (fun _ => nofun) hd htime

theorem Covers.block (h : Covers p T D Q) {time : τ} (htime : T time) (packets : Nat)
    (finish : τ) : (ds : List (Directive τ)) → (∀ d ∈ ds, D d) →
      Q (p.block time packets finish ds).tweens
  | [], _ => h.nil
  | d :: ds, hds =>
    h.append _ _ (h.directive htime _ d (hds d List.mem_cons_self))
      (h.block htime _ _ ds fun d' hd' => hds d' (List.mem_cons_of_mem _ hd'))

end

/-- What holds of the tweens of all directives, if each ends at a suitable time. -/
theorem Covers.sequence (h : Covers p T D Q)
    (hfinish : ∀ d time, D d → T time → T (p.directive time 0 d).finish)
    {time : τ} (htime : T time) {ds : List (Directive τ)} (hds : ∀ d ∈ ds, D d) :
    Q (p.sequence time ds).tweens := by
  induction ds generalizing time with
  | nil => exact h.nil
  | cons d ds ih =>
    have hd := hds d List.mem_cons_self
    exact h.append _ _ (h.directive htime 0 d hd)
      (ih (hfinish d time hd htime) fun d' hd' => hds d' (List.mem_cons_of_mem _ hd'))

end Covers

/-! ## Ahead in time -/

section Ahead

variable {τ S : Type} [Scalar τ] [Stage S] {p : Planner τ S}

/-- Numbers that tell a time: to add a length leads ahead. -/
structure Timely (IsPoint : τ → Prop) : Prop where
  refl : ∀ x, IsPoint x → x ≤ x
  trans : ∀ x y z : τ, x ≤ y → y ≤ z → x ≤ z
  add : ∀ x d : τ, IsPoint x → Scalar.zero ≤ d → IsPoint (x + d) ∧ x ≤ x + d

/-- The layout ends no sooner than it begins, and no tween starts before. -/
structure Ahead (time : τ) (l : Layout τ) : Prop where
  le : time ≤ l.finish
  starts : ∀ t ∈ l.tweens, time ≤ t.start

variable {IsPoint : τ → Prop} (hpoint : Timely IsPoint)
include hpoint

theorem Timely.later {x y : τ} (hx : IsPoint x) (hy : IsPoint y) :
    IsPoint (Scalar.later x y) ∧ x ≤ Scalar.later x y := by
  unfold Scalar.later
  split
  · rename_i hle
    exact ⟨hy, hle⟩
  · rw [if_pos (hpoint.refl x hx)]
    exact ⟨hx, hpoint.refl x hx⟩

theorem Laid.isPoint {time : τ} {l : Layout τ} (h : Laid p time l) (htime : IsPoint time) :
    IsPoint l.finish := by
  induction h with
  | empty => exact htime
  | lasting _ _ _ _ hduration => exact (hpoint.add _ _ htime hduration).1
  | instant => exact htime
  | pulse => exact htime
  | after _ _ ih ih' => exact ih' (ih htime)
  | beside _ _ ih ih' => exact (hpoint.later (ih htime) (ih' htime)).1

/-- No layout leads back in time. -/
theorem Laid.ahead {time : τ} {l : Layout τ} (h : Laid p time l) (htime : IsPoint time) :
    Ahead time l := by
  induction h with
  | empty => exact ⟨hpoint.refl _ htime, by simp⟩
  | lasting _ _ _ _ hduration =>
    refine ⟨(hpoint.add _ _ htime hduration).2, ?_⟩
    simp only [List.mem_singleton, forall_eq]
    exact hpoint.refl _ htime
  | instant =>
    refine ⟨hpoint.refl _ htime, ?_⟩
    simp only [List.mem_singleton, forall_eq]
    exact hpoint.refl _ htime
  | pulse =>
    refine ⟨hpoint.refl _ htime, fun t ht => ?_⟩
    rw [(of_mem_pulse ht).1]
    exact hpoint.refl _ htime
  | after hl _ ih ih' =>
    have hfirst := ih htime
    have hrest := ih' (hl.isPoint hpoint htime)
    refine ⟨hpoint.trans _ _ _ hfirst.le hrest.le, fun t ht => ?_⟩
    rcases List.mem_append.1 ht with ht | ht
    · exact hfirst.starts t ht
    · exact hpoint.trans _ _ _ hfirst.le (hrest.starts t ht)
  | beside hl hl' ih ih' =>
    have hlater := (hpoint.later (hl.isPoint hpoint htime) (hl'.isPoint hpoint htime)).2
    refine ⟨hpoint.trans _ _ _ (ih htime).le hlater, fun t ht => ?_⟩
    rcases List.mem_append.1 ht with ht | ht
    · exact (ih htime).starts t ht
    · exact (ih' htime).starts t ht

end Ahead

/-! ## Blocks -/

section Blocks

variable {τ S : Type} [Scalar τ] [Stage S] {p : Planner τ S}

/-- Only a packet depends on the turn of the tokens. -/
theorem directive_of_not_isPacket {d : Directive τ} (hd : isPacket d = false) (time : τ)
    (index index' : Nat) : p.directive time index d = p.directive time index' d := by
  cases d with
  | packet => cases hd
  | _ => simp only [directive]

omit [Scalar τ] [Stage S] in
/-- Every packet gets a token, if there are any. -/
theorem token?_eq_none_iff {index : Nat} : p.token? index = none ↔ p.tokens = [] := by
  rw [token?, List.getElem?_eq_none_iff]
  constructor
  · intro h
    by_contra hne
    have hlt := Nat.mod_lt index (List.length_pos_iff.2 hne)
    omega
  · intro h
    rw [h]
    exact Nat.zero_le _

theorem ways_sameButTargets (group group' : String) (time : τ) (ws : List (PathSpec τ)) :
    (p.ways group time ws).SameButTargets (p.ways group' time ws) := by
  induction ws generalizing time with
  | nil => exact ⟨rfl, rfl⟩
  | cons w ws ih =>
    unfold ways
    cases p.path? w.pathId with
    | none => exact ih time
    | some path =>
      obtain ⟨hfinish, htweens⟩ := ih (time + w.duration.getD p.defaults.segmentDuration)
      refine ⟨hfinish, ?_⟩
      rw [List.map_cons, List.map_cons, htweens]
      rfl

/-- Another token makes a difference only to what the tweens of a packet are about. -/
theorem packet_sameButTargets (label : Option String) (start : Option Point)
    (paths : List (PathSpec τ)) (time : τ) (index index' : Nat) :
    (p.packet label start paths time index).SameButTargets
      (p.packet label start paths time index') := by
  have hsame : p.token? index = none ↔ p.token? index' = none :=
    token?_eq_none_iff.trans token?_eq_none_iff.symm
  unfold packet
  cases htoken : p.token? index with
  | none =>
    rw [hsame.1 htoken]
    exact ⟨rfl, rfl⟩
  | some slot =>
    obtain ⟨slot', htoken'⟩ := Option.ne_none_iff_exists'.1 fun hnone =>
      Option.some_ne_none slot (htoken.symm.trans (hsame.2 hnone))
    obtain ⟨hfinish, htweens⟩ := ways_sameButTargets (p := p) slot.group slot'.group time paths
    rw [htoken']
    refine ⟨hfinish, ?_⟩
    simp only [List.map_append, List.map_cons, htweens, hfinish]
    cases label <;> rfl

theorem directive_sameButTargets (time : τ) (index index' : Nat) (d : Directive τ) :
    (p.directive time index d).SameButTargets (p.directive time index' d) := by
  cases hd : isPacket d with
  | false =>
    rw [directive_of_not_isPacket hd time index index']
    exact ⟨rfl, rfl⟩
  | true =>
    cases d with
    | packet label start paths => exact packet_sameButTargets label start paths time index index'
    | _ => cases hd

/-- The layout of a directive at some place of a block: a packet takes the token whose turn
    it is. -/
def child (p : Planner τ S) (time : τ) (ds : List (Directive τ)) (place : Nat)
    (d : Directive τ) : Layout τ :=
  p.directive time (if isPacket d then (ds.take place).countP isPacket else 0) d

theorem block_eq (time : τ) (packets : Nat) (finish : τ) (ds : List (Directive τ)) :
    let layouts := ds.mapIdx fun k d =>
      p.directive time (if isPacket d then packets + (ds.take k).countP isPacket else 0) d
    p.block time packets finish ds =
      ⟨layouts.flatMap Layout.tweens, (layouts.map Layout.finish).foldl Scalar.later finish⟩ := by
  induction ds generalizing packets finish with
  | nil => rfl
  | cons d ds ih =>
    have hcount : ∀ k, packets + ((d :: ds).take (k + 1)).countP isPacket =
        (if isPacket d then packets + 1 else packets) + (ds.take k).countP isPacket := by
      intro k
      rw [List.take_succ_cons, List.countP_cons]
      split <;> omega
    simp only [List.mapIdx_cons, hcount, List.take_zero, List.countP_nil, Nat.add_zero,
      List.flatMap_cons, List.map_cons, List.foldl_cons]
    rw [block, ih]

/-- A block is made of the layouts of its directives, and ends with the last of them. -/
theorem directive_parallel (time : τ) (index : Nat) (ds : List (Directive τ)) :
    p.directive time index (.parallel ds) =
      ⟨(ds.mapIdx (p.child time ds)).flatMap Layout.tweens,
        (ds.map fun d => (p.directive time 0 d).finish).foldl Scalar.later time⟩ := by
  have hfinish : (ds.mapIdx (p.child time ds)).map Layout.finish =
      ds.map fun d => (p.directive time 0 d).finish := by
    refine List.ext_getElem? fun k => ?_
    rw [List.getElem?_map, List.getElem?_mapIdx, List.getElem?_map, Option.map_map]
    refine congrArg (fun f => Option.map f ds[k]?) (funext fun d => ?_)
    exact (directive_sameButTargets time _ 0 d).1
  rw [directive, block_eq, ← hfinish]
  simp only [Nat.zero_add]
  rfl

/-- Directives that follow others begin where these end. -/
theorem sequence_append (time : τ) (ds ds' : List (Directive τ)) :
    p.sequence time (ds ++ ds') =
      ⟨(p.sequence time ds).tweens ++ (p.sequence (p.sequence time ds).finish ds').tweens,
        (p.sequence (p.sequence time ds).finish ds').finish⟩ := by
  induction ds generalizing time with
  | nil => rfl
  | cons d ds ih =>
    rw [List.cons_append, sequence, ih, sequence]
    simp only [List.append_assoc]

end Blocks

/-! ## Exact times -/

section Exact

variable {S : Type} [Stage S] {p : Planner Rat S}

theorem later_eq_max (x y : Rat) : Scalar.later x y = max x y := by
  unfold Scalar.later
  rw [max_def]
  split
  · rfl
  · exact if_pos le_rfl

theorem timely_rat : Timely fun _ : Rat => True where
  refl _ _ := le_rfl
  trans _ _ _ := le_trans
  add _ d _ (hd : 0 ≤ d) := ⟨trivial, le_add_of_nonneg_right hd⟩

/-- A tween of one cycle lasts as long as it should. -/
theorem finish_basic (target : Target) (time : Rat) (tracks : List Track) (ease : Ease)
    {duration : Rat} (hduration : 0 ≤ duration) :
    Tween.finish { Tween.basic target time duration tracks with ease } = time + duration := by
  have hone : (Scalar.ofNat 0 + Scalar.one : Rat) = 1 := by
    show ((0 : Nat) : Rat) + ((1 : Nat) : Rat) = 1
    norm_num
  have hlater : Scalar.later duration Scalar.zero = duration := by
    rw [later_eq_max]
    exact max_eq_left hduration
  have htotal : Scalar.later duration Scalar.zero * (Scalar.ofNat 0 + Scalar.one) = duration := by
    rw [hone, hlater]
    exact mul_one duration
  exact congrArg (time + ·) htotal

/-- The layout ends with the last of its tweens, but for pulses, and no tween starts before it
    or after its end. -/
structure Spans (p : Planner Rat S) (time : Rat) (l : Layout Rat) : Prop extends
    Ahead time l where
  starts_le : ∀ t ∈ l.tweens, t.start ≤ l.finish
  ends : ∀ t ∈ l.tweens, ¬ p.IsPulse t → t.finish ≤ l.finish
  reached : time < l.finish → ∃ t ∈ l.tweens, ¬ p.IsPulse t ∧ t.finish = l.finish

theorem not_isPulse {t : Tween Rat} (h : t.restore = false) : ¬ p.IsPulse t := by
  rintro ⟨target, duration, repetitions, time, ht⟩
  rw [(of_mem_pulse ht).2] at h
  cases h

theorem Ahead.spans_single {time : Rat} {l : Layout Rat} (hahead : Ahead time l) {t : Tween Rat}
    (hl : l.tweens = [t]) (hstart : t.start = time) (hfinish : t.finish = l.finish)
    (hpulse : ¬ p.IsPulse t) : Spans p time l where
  toAhead := hahead
  starts_le := by
    simp only [hl, List.mem_singleton, forall_eq, hstart]
    exact hahead.le
  ends := by
    simp only [hl, List.mem_singleton, forall_eq, hfinish]
    exact fun _ => le_rfl
  reached _ := ⟨t, hl ▸ List.mem_singleton_self t, hpulse, hfinish⟩

theorem Spans.after {time : Rat} {l l' : Layout Rat} (h : Spans p time l)
    (h' : Spans p l.finish l') (hahead : Ahead time ⟨l.tweens ++ l'.tweens, l'.finish⟩) :
    Spans p time ⟨l.tweens ++ l'.tweens, l'.finish⟩ where
  toAhead := hahead
  starts_le t ht := by
    rcases List.mem_append.1 ht with ht | ht
    · exact (h.starts_le t ht).trans h'.le
    · exact h'.starts_le t ht
  ends t ht hpulse := by
    rcases List.mem_append.1 ht with ht | ht
    · exact (h.ends t ht hpulse).trans h'.le
    · exact h'.ends t ht hpulse
  reached hlt := by
    -- the end is reached in the second part, or that part takes no time
    rcases h'.le.lt_or_eq with hrest | hrest
    · obtain ⟨t, ht, hreached⟩ := h'.reached hrest
      exact ⟨t, List.mem_append_right _ ht, hreached⟩
    · rw [← hrest] at hlt
      obtain ⟨t, ht, hpulse, hfinish⟩ := h.reached hlt
      exact ⟨t, List.mem_append_left _ ht, hpulse, hfinish.trans hrest⟩

theorem Spans.beside {time : Rat} {l l' : Layout Rat} (h : Spans p time l)
    (h' : Spans p time l')
    (hahead : Ahead time ⟨l.tweens ++ l'.tweens, Scalar.later l.finish l'.finish⟩) :
    Spans p time ⟨l.tweens ++ l'.tweens, Scalar.later l.finish l'.finish⟩ := by
  rw [later_eq_max] at hahead ⊢
  have hleft : l.finish ≤ max l.finish l'.finish := le_max_left _ _
  have hright : l'.finish ≤ max l.finish l'.finish := le_max_right _ _
  refine ⟨hahead, fun t ht => ?_, fun t ht hpulse => ?_, fun hlt => ?_⟩
  · rcases List.mem_append.1 ht with ht | ht
    · exact (h.starts_le t ht).trans hleft
    · exact (h'.starts_le t ht).trans hright
  · rcases List.mem_append.1 ht with ht | ht
    · exact (h.ends t ht hpulse).trans hleft
    · exact (h'.ends t ht hpulse).trans hright
  · -- one of the two ends last
    rcases max_choice l.finish l'.finish with hmax | hmax
    · simp only [hmax] at hlt ⊢
      obtain ⟨t, ht, hreached⟩ := h.reached hlt
      exact ⟨t, List.mem_append_left _ ht, hreached⟩
    · simp only [hmax] at hlt ⊢
      obtain ⟨t, ht, hreached⟩ := h'.reached hlt
      exact ⟨t, List.mem_append_right _ ht, hreached⟩

theorem Laid.spans {time : Rat} {l : Layout Rat} (h : Laid p time l) : Spans p time l := by
  have hahead := h.ahead timely_rat trivial
  induction h with
  | empty time =>
    exact ⟨hahead, by simp, by simp, fun h => absurd h (lt_irrefl time)⟩
  | lasting time target tracks ease hduration =>
    exact hahead.spans_single rfl rfl (finish_basic target time tracks ease hduration)
      (not_isPulse rfl)
  | instant time target tracks =>
    have hfinish := finish_basic target time tracks .linear le_rfl
    exact hahead.spans_single rfl rfl (hfinish.trans (add_zero time)) (not_isPulse rfl)
  | pulse time target duration repetitions =>
    refine ⟨hahead, fun t ht => ?_, fun t ht hpulse => ?_, fun h => absurd h (lt_irrefl time)⟩
    · rw [(of_mem_pulse ht).1]
    · exact absurd ⟨target, duration, repetitions, time, ht⟩ hpulse
  | after hl hl' ih ih' =>
    exact (ih (hl.ahead timely_rat trivial)).after (ih' (hl'.ahead timely_rat trivial)) hahead
  | beside hl hl' ih ih' =>
    exact (ih (hl.ahead timely_rat trivial)).beside (ih' (hl'.ahead timely_rat trivial)) hahead

/-! ## Shifting in time -/

theorem ways_shift (group : String) (time delay : Rat) (ws : List (PathSpec Rat)) :
    p.ways group (time + delay) ws = (p.ways group time ws).shift delay := by
  induction ws generalizing time with
  | nil => rfl
  | cons w ws ih =>
    unfold ways
    cases p.path? w.pathId with
    | none => exact ih time
    | some path =>
      have hrest := ih (time + w.duration.getD p.defaults.segmentDuration)
      have hcomm : time + delay + w.duration.getD p.defaults.segmentDuration =
          time + w.duration.getD p.defaults.segmentDuration + delay := add_right_comm _ _ _
      simp only [hcomm, hrest]
      rfl

theorem packet_shift (label : Option String) (start : Option Point)
    (paths : List (PathSpec Rat)) (time delay : Rat) (index : Nat) :
    p.packet label start paths (time + delay) index =
      (p.packet label start paths time index).shift delay := by
  unfold packet
  cases p.token? index with
  | none => rfl
  | some slot =>
    simp only [ways_shift, Layout.shift, List.map_append, List.map_cons]
    cases label <;> rfl

theorem pulse_shift (target : String) (duration : Option Rat) (repetitions : Option Nat)
    (time delay : Rat) : p.pulse target duration repetitions (time + delay) =
      (p.pulse target duration repetitions time).map fun t =>
        { t with start := t.start + delay } := by
  unfold pulse
  cases Stage.emphasisTarget? p.stage (elementId target) <;> rfl

mutual

theorem directive_shift (time delay : Rat) (index : Nat) : (d : Directive Rat) →
    p.directive (time + delay) index d = (p.directive time index d).shift delay
  | .camera _ _ _ => by
    simp only [directive, Layout.shift, add_right_comm time delay]
    rfl
  | .packet label start paths => packet_shift label start paths time delay index
  | .setValue _ _ => rfl
  | .pulse target duration repetitions => by
    rw [directive, pulse_shift, directive]
    rfl
  | .wait _ => by
    simp only [directive, Layout.shift, add_right_comm time delay]
    rfl
  | .attributes _ _ _ _ => by
    simp only [directive, Layout.shift, add_right_comm time delay]
    rfl
  | .parallel ds => block_shift time delay 0 time ds

theorem block_shift (time delay : Rat) (packets : Nat) (finish : Rat) :
    (ds : List (Directive Rat)) → p.block (time + delay) packets (finish + delay) ds =
      (p.block time packets finish ds).shift delay
  | [] => rfl
  | d :: ds => by
    have hlater : ∀ x y : Rat, Scalar.later (x + delay) (y + delay) = Scalar.later x y + delay :=
      fun x y => by rw [later_eq_max, later_eq_max, max_add_add_right]
    rw [block, directive_shift time delay _ d, Layout.shift, hlater, block_shift time delay _ _ ds,
      block]
    simp only [Layout.shift, List.map_append]

end

/-! ## The laws of the layout -/

/-- Where no length of time is negative, a directive ends no sooner than it begins and with the
    last of its tweens, but for pulses; it is laid out the same at all times. A block lays out
    each directive in it as if it stood alone, but for the token of a packet, and ends with the
    last of them; in a sequence each directive begins at the end of the one before. -/
theorem layout_laws (p : Planner Rat S) (hp : p.defaults.Lasting) (time : Rat) (index : Nat)
    (d : Directive Rat) (hd : d.Lasting) :
    Spans p time (p.directive time index d) ∧
    p.directive time index d = (p.directive 0 index d).shift time ∧
    (∀ ds, p.directive time index (.parallel ds) =
      ⟨(ds.mapIdx (p.child time ds)).flatMap Layout.tweens,
        (ds.map fun x => (p.directive time 0 x).finish).foldl max time⟩) ∧
    (∀ ds place x, (p.child time ds place x).SameButTargets (p.directive time 0 x) ∧
      (isPacket x = false → p.child time ds place x = p.directive time 0 x)) ∧
    ∀ ds x ds',
      let before := p.sequence time ds
      let first := p.directive before.finish 0 x
      let rest := p.sequence first.finish ds'
      p.sequence time (ds ++ x :: ds') =
        ⟨before.tweens ++ (first.tweens ++ rest.tweens), rest.finish⟩ := by
  have hmax : (Scalar.later : Rat → Rat → Rat) = max := funext₂ later_eq_max
  refine ⟨(laid_directive hp time index d hd).spans, ?_, fun ds => ?_, fun ds place x => ?_,
    fun ds x ds' => ?_⟩
  · rw [← directive_shift, zero_add]
  · rw [directive_parallel, hmax]
  · exact ⟨directive_sameButTargets time _ 0 x,
      fun hx => directive_of_not_isPacket hx time _ 0⟩
  · rw [sequence_append]
    rfl

/-- A block of two packets, one with a missing path, and a pulse that goes on after the end. -/
theorem layout_laws_demo :
    let path : Node := .element ⟨some "p", "path", [("id", "p"), ("d", "M0 0 L10 0")]⟩ []
    let p : Planner Rat Scene :=
      ⟨[⟨"a", "a-text"⟩, ⟨"b", "b-text"⟩],
        ⟨3 / 2, .linear, 1, .linear, 1 / 2, 1 / 2, .linear, 1 / 5, 3⟩,
        ⟨[], ⟨none, "svg", []⟩, [path], []⟩⟩
    let d : Directive Rat := .parallel [
      .packet none none [.whole "p", .whole "missing"],
      .packet (some "2") none [⟨"p", 0, 1, some (1 / 4), none⟩],
      .pulse "p" (some 7) none]
    p.defaults.Lasting ∧ d.Lasting ∧ Spans p 3 (p.directive 3 0 d) ∧
      p.directive 3 0 d = (p.directive 0 0 d).shift 3 := by
  intro path p d
  have hp : p.defaults.Lasting := by constructor <;> decide +kernel
  have hd : d.Lasting := by
    refine .parallel fun x hx => ?_
    simp only [List.mem_cons, List.not_mem_nil, or_false] at hx
    rcases hx with rfl | rfl | rfl
    · exact .packet (by decide +kernel)
    · exact .packet (by decide +kernel)
    · exact .pulse (by decide +kernel)
  obtain ⟨hspans, hshift, _⟩ := layout_laws p hp 3 0 d hd
  exact ⟨hp, hd, hspans, hshift⟩

end Exact

end Planner

end Slideshow

/-
  Slideshow.Proofs.Timeline.Turns

  Which tokens packets travel as. What is planned are the layouts of single directives, each at
  its time and with its turn (`Placed`). The packets of one directive of a step all set out
  together, and packets of different ones are never under way together. So no two packets
  that are under way together share a token exactly if, in each directive of the step, no two
  of those that travel have turns that lead to the same token. Each block counts its own
  packets from zero, so this holds where the packets stand side by side and all of them travel
  (`tokens_apart`), but not in blocks inside one another (`nested_packets_collide`).
-/
import Slideshow.Proofs.Decimal.Span
import Slideshow.Proofs.Timeline.Forward

namespace Slideshow

/-! ## Single directives -/

/-- A directive that is no block, with its time and its turn among the tokens. -/
structure Placed (τ : Type) where
  time : τ
  index : Nat
  directive : Directive τ

namespace Directive

variable {τ : Type}

mutual

/-- The single directives in a directive that begins at a time, as they are laid out. -/
def parts (time : τ) (index : Nat) : Directive τ → List (Placed τ)
  | .parallel ds => listParts time 0 ds
  | d => [⟨time, index, d⟩]

/-- The single directives in a block, given how many packets came before. -/
def listParts (time : τ) (packets : Nat) : List (Directive τ) → List (Placed τ)
  | [] => []
  | d :: ds =>
    d.parts time (if Planner.isPacket d then packets else 0) ++
      listParts time (if Planner.isPacket d then packets + 1 else packets) ds

end

theorem parts_single {d : Directive τ} (hd : ∀ ds, d ≠ .parallel ds) (time : τ) (index : Nat) :
    d.parts time index = [⟨time, index, d⟩] := by
  cases d with
  | parallel ds => exact absurd rfl (hd ds)
  | _ => rfl

mutual

/-- What is in a directive begins with it. -/
theorem time_of_mem_parts {time : τ} {index : Nat} {x : Placed τ} : (d : Directive τ) →
    x ∈ d.parts time index → x.time = time
  | .parallel ds, hx => time_of_mem_listParts ds hx
  | .camera .., hx => by rw [List.mem_singleton.1 hx]
  | .packet .., hx => by rw [List.mem_singleton.1 hx]
  | .setValue .., hx => by rw [List.mem_singleton.1 hx]
  | .pulse .., hx => by rw [List.mem_singleton.1 hx]
  | .wait .., hx => by rw [List.mem_singleton.1 hx]
  | .attributes .., hx => by rw [List.mem_singleton.1 hx]

theorem time_of_mem_listParts {time : τ} {packets : Nat} {x : Placed τ} :
    (ds : List (Directive τ)) → x ∈ listParts time packets ds → x.time = time
  | d :: ds, hx => (List.mem_append.1 hx).elim (time_of_mem_parts d) (time_of_mem_listParts ds)

end

end Directive

namespace Placed

variable {τ S : Type} [Scalar τ] [Stage S]

/-- How the directive is laid out. -/
def layout (p : Planner τ S) (x : Placed τ) : Layout τ := p.directive x.time x.index x.directive

/-- The group of the token whose turn it is. -/
def group? (p : Planner τ S) (x : Placed τ) : Option String :=
  (p.token? x.index).map (·.group)

/-- The directive is a packet, and its token has appeared and not yet disappeared. -/
def UnderWay (p : Planner τ S) (x : Placed τ) (now : τ) : Prop :=
  Planner.isPacket x.directive = true ∧ x.time ≤ now ∧ now < (x.layout p).finish

instance (p : Planner τ S) (x : Placed τ) (now : τ) : Decidable (x.UnderWay p now) :=
  inferInstanceAs (Decidable (_ ∧ _ ∧ _))

/-- The directive is a packet that takes time. -/
def Travels (p : Planner τ S) (x : Placed τ) : Prop :=
  Planner.isPacket x.directive = true ∧ x.time < (x.layout p).finish

/-- Two packets are under way together at some time. -/
def Meets (p : Planner τ S) (x y : Placed τ) : Prop :=
  ∃ now, x.UnderWay p now ∧ y.UnderWay p now

end Placed

namespace Planner

section Parts

variable {τ S : Type} [Scalar τ] [Stage S] {p : Planner τ S}

/-- The single directives of a step that begins at a time, as they are laid out. -/
def parts (p : Planner τ S) : τ → List (Directive τ) → List (Placed τ)
  | _, [] => []
  | time, d :: ds => d.parts time 0 ++ p.parts (p.directive time 0 d).finish ds

mutual

/-- A directive is laid out as the single directives in it are. -/
theorem tweens_directive (time : τ) (index : Nat) : (d : Directive τ) →
    (p.directive time index d).tweens =
      (d.parts time index).flatMap fun x => (x.layout p).tweens
  | .parallel ds => tweens_block time 0 time ds
  | .camera .. => (List.flatMap_singleton _ _).symm
  | .packet .. => (List.flatMap_singleton _ _).symm
  | .setValue .. => (List.flatMap_singleton _ _).symm
  | .pulse .. => (List.flatMap_singleton _ _).symm
  | .wait .. => (List.flatMap_singleton _ _).symm
  | .attributes .. => (List.flatMap_singleton _ _).symm

theorem tweens_block (time : τ) (packets : Nat) (finish : τ) : (ds : List (Directive τ)) →
    (p.block time packets finish ds).tweens =
      (Directive.listParts time packets ds).flatMap fun x => (x.layout p).tweens
  | [] => rfl
  | d :: ds => by
    rw [block, Directive.listParts, List.flatMap_append, ← tweens_directive time _ d,
      ← tweens_block time _ _ ds]

end

theorem tweens_sequence (time : τ) (ds : List (Directive τ)) :
    (p.sequence time ds).tweens = (p.parts time ds).flatMap fun x => (x.layout p).tweens := by
  induction ds generalizing time with
  | nil => rfl
  | cons d ds ih => rw [sequence, parts, List.flatMap_append, ih, tweens_directive]

/-- A packet is laid out from the appearance of its token to its disappearance. -/
theorem packet_span {label : Option String} {start : Option Point} {paths : List (PathSpec τ)}
    {time : τ} {index : Nat} {slot : TokenSlot} (hslot : p.token? index = some slot) :
    ∃ place mid, (p.packet label start paths time index).tweens =
      .basic (.element slot.group) time Scalar.zero (opacity "1" :: place) :: mid ++
        [.basic (.element slot.group) (p.packet label start paths time index).finish Scalar.zero
          [opacity "0"]] := by
  unfold packet
  rw [hslot]
  exact ⟨_, _, rfl⟩

end Parts

/-! ## Packets that meet -/

section Meeting

variable {S : Type} [Stage S] {p : Planner Float S} {x y : Placed Float} {time : Float}

/-- Packets that set out together meet if both take time. -/
theorem meets_iff (htime : 0 ≤ time) (hx : x.time = time) (hy : y.time = time) :
    x.Meets p y ↔ x.Travels p ∧ y.Travels p := by
  constructor
  · rintro ⟨now, ⟨hx, hxbegun, hxends⟩, hy, hybegun, hyends⟩
    exact ⟨⟨hx, Decimal.Number.lt_of_le_of_lt hxbegun hxends⟩,
      hy, Decimal.Number.lt_of_le_of_lt hybegun hyends⟩
  · rintro ⟨⟨hpacket, hxends⟩, hpacket', hyends⟩
    have hself := (Decimal.Number.self_of_le htime).2
    rw [hx] at hxends
    rw [hy] at hyends
    exact ⟨time, ⟨hpacket, hx ▸ hself, hxends⟩, hpacket', hy ▸ hself, hyends⟩

/-- A packet that takes time has a token. -/
theorem token?_of_travels (h : x.Travels p) : ∃ slot, p.token? x.index = some slot := by
  obtain ⟨hpacket, hlt⟩ := h
  rcases x with ⟨time, index, d⟩
  cases d with
  | packet label start paths =>
    cases hslot : p.token? index with
    | some slot => exact ⟨slot, rfl⟩
    | none =>
      -- without a token the packet would end as it begins
      have hfinish : (p.packet label start paths time index).finish = time := by
        unfold packet
        rw [hslot]
      have hlt : time < (p.packet label start paths time index).finish := hlt
      rw [hfinish] at hlt
      exact absurd hlt (Decimal.Number.not_lt_self time)
  | _ => cases hpacket

/-- Packets that take time share a token if their turns lead to the same one. -/
theorem group?_eq_iff (hgroups : (p.tokens.map (·.group)).Nodup) (hx : x.Travels p)
    (hy : y.Travels p) :
    x.group? p = y.group? p ↔ x.index % p.tokens.length = y.index % p.tokens.length := by
  obtain ⟨slot, hslot⟩ := token?_of_travels hx
  obtain ⟨slot', hslot'⟩ := token?_of_travels hy
  refine ⟨fun heq => ?_, fun heq => ?_⟩
  · have hgroup : (p.tokens.map (·.group))[x.index % p.tokens.length]? =
        (p.tokens.map (·.group))[y.index % p.tokens.length]? := by
      rw [List.getElem?_map, List.getElem?_map]
      exact heq
    have hlt : x.index % p.tokens.length < (p.tokens.map (·.group)).length := by
      rw [List.length_map]
      exact (List.getElem?_eq_some_iff.1 hslot).1
    exact (List.getElem?_inj hlt hgroups).1 hgroup
  · simp only [Placed.group?, token?, heq]

/-! ## One directive after another -/

variable (hp : p.defaults.Advancing)
include hp

theorem finish_self (htime : 0 ≤ time) (index : Nat) (d : Directive Float) (hd : d.Lasting) :
    ((⟨time, index, d⟩ : Placed Float).layout p).finish ≤ (p.directive time index d).finish :=
  (Decimal.Number.self_of_le ((laid_of_advancing hp time index d hd).isPoint timely_nonneg
    htime)).2

mutual

/-- No single directive in a directive ends after it. -/
theorem finish_le_directive (htime : 0 ≤ time) (index : Nat) : (d : Directive Float) →
    d.Lasting → ∀ x ∈ d.parts time index, (x.layout p).finish ≤ (p.directive time index d).finish
  | .parallel ds, .parallel hds, x, hx => (finish_le_block htime 0 ds hds htime).2 x hx
  | .camera .., hd, _, hx => List.mem_singleton.1 hx ▸ finish_self hp htime index _ hd
  | .packet .., hd, _, hx => List.mem_singleton.1 hx ▸ finish_self hp htime index _ hd
  | .setValue .., hd, _, hx => List.mem_singleton.1 hx ▸ finish_self hp htime index _ hd
  | .pulse .., hd, _, hx => List.mem_singleton.1 hx ▸ finish_self hp htime index _ hd
  | .wait .., hd, _, hx => List.mem_singleton.1 hx ▸ finish_self hp htime index _ hd
  | .attributes .., hd, _, hx => List.mem_singleton.1 hx ▸ finish_self hp htime index _ hd

theorem finish_le_block (htime : 0 ≤ time) (packets : Nat) : (ds : List (Directive Float)) →
    (∀ d ∈ ds, d.Lasting) → {finish : Float} → 0 ≤ finish →
      finish ≤ (p.block time packets finish ds).finish ∧
      ∀ x ∈ Directive.listParts time packets ds,
        (x.layout p).finish ≤ (p.block time packets finish ds).finish
  | [], _, _, hfinish => ⟨(Decimal.Number.self_of_le hfinish).2, by simp [Directive.listParts]⟩
  | d :: ds, hds, finish, hfinish => by
    have hd := hds d List.mem_cons_self
    have hlaid := laid_of_advancing hp time (if isPacket d then packets else 0) d hd
    have hpoint := hlaid.isPoint timely_nonneg htime
    obtain ⟨hleft, hright⟩ := Decimal.le_later hfinish hpoint
    obtain ⟨hrest, hparts⟩ := finish_le_block htime (if isPacket d then packets + 1 else packets) ds
      (fun d' hd' => hds d' (List.mem_cons_of_mem _ hd'))
      (timely_nonneg.later hfinish hpoint).1
    rw [block]
    refine ⟨Decimal.Number.le_trans hleft hrest, fun x hx => ?_⟩
    rcases List.mem_append.1 hx with hx | hx
    · have hfirst := finish_le_directive htime _ d hd x hx
      exact Decimal.Number.le_trans hfirst (Decimal.Number.le_trans hright hrest)
    · exact hparts x hx

end

/-- Nothing in a step begins before the step does. -/
theorem le_time_of_mem_parts {ds : List (Directive Float)} (hds : ∀ d ∈ ds, d.Lasting)
    (htime : 0 ≤ time) : ∀ x ∈ p.parts time ds, time ≤ x.time := by
  induction ds generalizing time with
  | nil => simp [parts]
  | cons d ds ih =>
    intro x hx
    have hlaid := laid_of_advancing hp time 0 d (hds d List.mem_cons_self)
    rcases List.mem_append.1 hx with hx | hx
    · rw [Directive.time_of_mem_parts d hx]
      exact (Decimal.Number.self_of_le htime).2
    · have hrest := ih (fun d' hd' => hds d' (List.mem_cons_of_mem _ hd'))
        (hlaid.isPoint timely_nonneg htime) x hx
      exact Decimal.Number.le_trans (hlaid.ahead timely_nonneg htime).le hrest

/-- No packet meets one of a directive that follows. -/
theorem not_meets {d : Directive Float} {ds : List (Directive Float)} (hd : d.Lasting)
    (hds : ∀ d ∈ ds, d.Lasting) (htime : 0 ≤ time) (hx : x ∈ d.parts time 0)
    (hy : y ∈ p.parts (p.directive time 0 d).finish ds) : ¬ x.Meets p y := by
  rintro ⟨now, ⟨_, _, hends⟩, _, hbegun, _⟩
  have hpoint := (laid_of_advancing hp time 0 d hd).isPoint timely_nonneg htime
  -- the first one ends before the second one begins
  have hle : (x.layout p).finish ≤ now :=
    Decimal.Number.le_trans (finish_le_directive hp htime 0 d hd x hx)
      (Decimal.Number.le_trans (le_time_of_mem_parts hp hds hpoint y hy) hbegun)
  exact Decimal.Number.not_lt_of_le hle hends

end Meeting

/-! ## Tokens apart -/

section Apart

variable {S : Type} [Stage S] {p : Planner Float S} {time : Float} {ds : List (Directive Float)}

/-- Packets that are under way together at some time travel as different tokens. -/
def Apart (p : Planner Float S) (xs : List (Placed Float)) : Prop :=
  xs.Pairwise fun x y => x.Meets p y → x.group? p ≠ y.group? p

/-- The turns of packets that take time lead to different tokens. -/
def InTurn (p : Planner Float S) (xs : List (Placed Float)) : Prop :=
  xs.Pairwise fun x y => x.Travels p → y.Travels p →
    x.index % p.tokens.length ≠ y.index % p.tokens.length

theorem apart_iff_inTurn (hgroups : (p.tokens.map (·.group)).Nodup) (htime : 0 ≤ time)
    {xs : List (Placed Float)} (hxs : ∀ x ∈ xs, x.time = time) : p.Apart xs ↔ p.InTurn xs := by
  refine List.Pairwise.iff_of_mem fun {x y} hx hy => ?_
  rw [meets_iff htime (hxs x hx) (hxs y hy)]
  constructor
  · intro h htravels htravels'
    exact fun hturn => h ⟨htravels, htravels'⟩
      ((group?_eq_iff hgroups htravels htravels').2 hturn)
  · rintro h ⟨htravels, htravels'⟩ hgroup
    exact h htravels htravels' ((group?_eq_iff hgroups htravels htravels').1 hgroup)

/-- Only the packets of one directive of a step can come in each other's way. -/
theorem apart_parts_iff (hp : p.defaults.Advancing) (hds : ∀ d ∈ ds, d.Lasting)
    (htime : 0 ≤ time) :
    p.Apart (p.parts time ds) ↔
      ∀ e ∈ (p.begins time ds).zip ds, p.Apart (e.2.parts e.1 0) := by
  induction ds generalizing time with
  | nil => simp [parts, begins, Apart]
  | cons d ds ih =>
    have hd := hds d List.mem_cons_self
    have hrest : ∀ d ∈ ds, d.Lasting := fun d' hd' => hds d' (List.mem_cons_of_mem _ hd')
    have hpoint := (laid_of_advancing hp time 0 d hd).isPoint timely_nonneg htime
    have hcross : ∀ x ∈ d.parts time 0, ∀ y ∈ p.parts (p.directive time 0 d).finish ds,
        x.Meets p y → x.group? p ≠ y.group? p :=
      fun x hx y hy hmeets => absurd hmeets (not_meets hp hd hrest htime hx hy)
    rw [Apart, parts, List.pairwise_append, begins, List.zip_cons_cons, List.forall_mem_cons]
    constructor
    · rintro ⟨hfirst, hlater, _⟩
      exact ⟨hfirst, (ih hrest hpoint).1 hlater⟩
    · rintro ⟨hfirst, hlater⟩
      exact ⟨hfirst, (ih hrest hpoint).2 hlater, hcross⟩

/-- The packets in a directive stand side by side and take time. -/
def SideBySide (p : Planner Float S) (time : Float) (d : Directive Float) : Prop :=
  ∀ ds, d = .parallel ds → ∀ c ∈ ds,
    if isPacket c then time < (p.directive time 0 c).finish
    else ∀ x ∈ c.parts time 0, isPacket x.directive = false

theorem parts_of_begins (hp : p.defaults.Advancing) (hds : ∀ d ∈ ds, d.Lasting)
    (htime : 0 ≤ time) : ∀ e ∈ (p.begins time ds).zip ds,
      0 ≤ e.1 ∧ (e.2.parts e.1 0).Sublist (p.parts time ds) := by
  induction ds generalizing time with
  | nil => simp
  | cons d ds ih =>
    have hpoint := (laid_of_advancing hp time 0 d (hds d List.mem_cons_self)).isPoint
      timely_nonneg htime
    intro e he
    rw [begins, List.zip_cons_cons, List.mem_cons] at he
    rcases he with rfl | he
    · exact ⟨htime, List.sublist_append_left _ _⟩
    · obtain ⟨hnonneg, hsub⟩ := ih (fun d' hd' => hds d' (List.mem_cons_of_mem _ hd')) hpoint e he
      exact ⟨hnonneg, hsub.trans (List.sublist_append_right _ _)⟩

/-- What is known of the packets in a block, if some came before. -/
structure Numbered (p : Planner Float S) (time : Float) (packets : Nat)
    (ds : List (Directive Float)) : Prop where
  bounds : ∀ x ∈ Directive.listParts time packets ds, isPacket x.directive = true →
    packets ≤ x.index ∧ x.index < packets + ds.countP isPacket
  increasing : (Directive.listParts time packets ds).Pairwise fun x y =>
    isPacket x.directive = true → isPacket y.directive = true → x.index < y.index
  underWay : ds.countP isPacket =
    (Directive.listParts time packets ds).countP fun x => x.UnderWay p time

/-- A packet takes the next turn. -/
theorem Numbered.packet {packets : Nat} {c : Directive Float}
    (h : p.Numbered time (packets + 1) ds)
    (hunderWay : (⟨time, packets, c⟩ : Placed Float).UnderWay p time) :
    p.Numbered time packets (c :: ds) := by
  have hpacket : isPacket c = true := hunderWay.1
  have hparts : Directive.listParts time packets (c :: ds) =
      ⟨time, packets, c⟩ :: Directive.listParts time (packets + 1) ds := by
    rw [Directive.listParts, hpacket, if_pos rfl, if_pos rfl, Directive.parts_single]
    · rfl
    · rintro cs rfl
      cases hpacket
  have hcount : (c :: ds).countP isPacket = ds.countP isPacket + 1 :=
    List.countP_cons_of_pos hpacket
  refine ⟨?_, ?_, ?_⟩
  · rw [hparts, hcount]
    rintro x hx hx'
    rcases List.mem_cons.1 hx with rfl | hx
    · exact ⟨Nat.le_refl _, by simp only; omega⟩
    · have hbound := h.bounds x hx hx'
      omega
  · rw [hparts, List.pairwise_cons]
    exact ⟨fun x hx _ hx' => (h.bounds x hx hx').1, h.increasing⟩
  · rw [hparts, hcount, h.underWay, List.countP_cons, if_pos (decide_eq_true hunderWay)]

/-- What has no packet in it takes no turn. -/
theorem Numbered.skip {packets : Nat} {c : Directive Float} (h : p.Numbered time packets ds)
    (hpacket : isPacket c = false) (hnone : ∀ x ∈ c.parts time 0, isPacket x.directive = false) :
    p.Numbered time packets (c :: ds) := by
  have hparts : Directive.listParts time packets (c :: ds) =
      c.parts time 0 ++ Directive.listParts time packets ds := by
    rw [Directive.listParts, hpacket, if_neg Bool.false_ne_true, if_neg Bool.false_ne_true]
  have hcount : (c :: ds).countP isPacket = ds.countP isPacket :=
    List.countP_cons_of_neg (by rw [hpacket]; exact Bool.false_ne_true)
  have hfalse : ∀ x ∈ c.parts time 0, ¬ isPacket x.directive = true := fun x hx htrue =>
    Bool.false_ne_true ((hnone x hx).symm.trans htrue)
  refine ⟨?_, ?_, ?_⟩
  · rw [hparts, hcount]
    intro x hx hx'
    rcases List.mem_append.1 hx with hx | hx
    · exact absurd hx' (hfalse x hx)
    · exact h.bounds x hx hx'
  · rw [hparts, List.pairwise_append]
    exact ⟨List.pairwise_of_forall_mem_list fun x hx _ _ hx' => absurd hx' (hfalse x hx),
      h.increasing, fun x hx _ _ hx' => absurd hx' (hfalse x hx)⟩
  · have hzero : (c.parts time 0).countP (fun x => decide (x.UnderWay p time)) = 0 :=
      List.countP_eq_zero.2 fun x hx hunder => hfalse x hx (of_decide_eq_true hunder).1
    rw [hparts, hcount, h.underWay, List.countP_append, hzero, Nat.zero_add]

/-- Packets that stand side by side take the turns one after another. -/
theorem numbered_of_sideBySide (htime : 0 ≤ time) (hside : ∀ c ∈ ds,
    if isPacket c then time < (p.directive time 0 c).finish
    else ∀ x ∈ c.parts time 0, isPacket x.directive = false) (packets : Nat) :
    p.Numbered time packets ds := by
  induction ds generalizing packets with
  | nil => exact ⟨by simp [Directive.listParts], .nil, rfl⟩
  | cons c ds ih =>
    have hc := hside c List.mem_cons_self
    have hds := ih fun d hd => hside d (List.mem_cons_of_mem _ hd)
    split at hc
    · rename_i hpacket
      refine (hds (packets + 1)).packet ⟨hpacket, (Decimal.Number.self_of_le htime).2, ?_⟩
      -- the turn makes no difference to the time it takes
      rw [Placed.layout, (directive_sameButTargets time packets 0 c).1]
      exact hc
    · rename_i hpacket
      exact (hds packets).skip (Bool.not_eq_true _ ▸ hpacket) hc

/-- Packets that stand side by side take different tokens, if there are enough of them. -/
theorem inTurn_of_sideBySide (htime : 0 ≤ time) {d : Directive Float}
    (hside : p.SideBySide time d)
    (hcount : (d.parts time 0).countP (fun x => x.UnderWay p time) ≤ p.tokens.length) :
    p.InTurn (d.parts time 0) := by
  by_cases hblock : ∃ ds, d = .parallel ds
  · obtain ⟨ds, rfl⟩ := hblock
    obtain ⟨hbounds, hincreasing, hunder⟩ := numbered_of_sideBySide htime (hside ds rfl) 0
    have henough : ds.countP isPacket ≤ p.tokens.length := hunder ▸ hcount
    refine hincreasing.imp_of_mem fun {x y} hx hy hlt htravels htravels' => ?_
    have hbound := hbounds x hx htravels.1
    have hbound' := hbounds y hy htravels'.1
    have hless := hlt htravels.1 htravels'.1
    rw [Nat.mod_eq_of_lt (by omega), Nat.mod_eq_of_lt (by omega)]
    omega
  · rw [Directive.parts_single fun ds hd => hblock ⟨ds, hd⟩]
    exact List.pairwise_singleton _ _

end Apart

end Planner

namespace Player

variable {κ : Type} {p : Player κ} {ds : List (Directive Float)}

/-- What is played are single directives. Among them, packets that are under way together travel
    as different tokens exactly if in each directive of the step those that take time have turns
    that lead to different tokens. This is so if the packets in each of these directives stand
    side by side and take time, and never more of them are under way than there are tokens. -/
theorem tokens_apart (hgroups : (p.settings.tokens.map (·.group)).Nodup)
    (hdefaults : p.settings.defaults.Advancing) (hds : ∀ d ∈ ds, d.Lasting) (request : κ)
    (s : Scene) :
    let planner := p.planner s
    let parts := planner.parts 0 ds
    let begun := (planner.begins 0 ds).zip ds
    (p.play ds request s).1.plan = parts.flatMap (fun x => (x.layout planner).tweens) ∧
    (planner.Apart parts ↔ ∀ e ∈ begun, planner.InTurn (e.2.parts e.1 0)) ∧
    ((∀ now, parts.countP (fun x => x.UnderWay planner now) ≤ p.settings.tokens.length) →
      (∀ e ∈ begun, planner.SideBySide e.1 e.2) → planner.Apart parts) := by
  intro planner parts begun
  have hzero : (0 : Float) ≤ 0 := by decide +kernel
  have hbegun := Planner.parts_of_begins (p := planner) hdefaults hds hzero
  have hiff : planner.Apart parts ↔ ∀ e ∈ begun, planner.InTurn (e.2.parts e.1 0) := by
    rw [Planner.apart_parts_iff (p := planner) hdefaults hds hzero]
    exact forall₂_congr fun e he => Planner.apart_iff_inTurn hgroups (hbegun e he).1
      fun x hx => Directive.time_of_mem_parts _ hx
  refine ⟨?_, hiff, fun hcount hside => hiff.2 fun e he => ?_⟩
  · rw [plan_play]
    exact Planner.tweens_sequence 0 ds
  · obtain ⟨hnonneg, hsub⟩ := hbegun e he
    exact Planner.inTurn_of_sideBySide hnonneg (hside e he)
      (hsub.countP_le.trans (hcount e.1))

/-- A diagram with two paths. -/
def twoPaths : Scene :=
  let path (id d : String) : Node := .element ⟨some id, "path", [("id", id), ("d", d)]⟩ []
  ⟨[], ⟨none, "svg", []⟩, [path "a" "M0 0L1 0", path "b" "M0 0L0 1"], []⟩

/-- Two packets side by side, with a block between them that has no packet in it. -/
theorem tokens_apart_demo :
    let p : Player Unit := .new .usual
    let ds : List (Directive Float) := [.parallel [.packet (some "A") none [.whole "a"],
      .parallel [.wait none], .packet (some "B") none [.whole "b"]]]
    (p.settings.tokens.map (·.group)).Nodup ∧ p.settings.defaults.Advancing ∧
      (∀ d ∈ ds, d.Lasting) ∧
      (p.play ds () twoPaths).1.plan =
        ((p.planner twoPaths).parts 0 ds).flatMap
          (fun x => (x.layout (p.planner twoPaths)).tweens) ∧
      (p.planner twoPaths).Apart ((p.planner twoPaths).parts 0 ds) := by
  intro p ds
  have hgroups : (p.settings.tokens.map (·.group)).Nodup := by decide +kernel
  have hdefaults : p.settings.defaults.Advancing := by constructor <;> decide +kernel
  have hds : ∀ d ∈ ds, d.Lasting := by
    simp only [ds, List.mem_singleton, forall_eq]
    refine .parallel fun d hd => ?_
    simp only [List.mem_cons, List.not_mem_nil, or_false] at hd
    rcases hd with rfl | rfl | rfl
    · exact .packet (by decide +kernel)
    · refine .parallel fun d hd => ?_
      rw [List.mem_singleton.1 hd]
      exact .wait (by decide +kernel)
    · exact .packet (by decide +kernel)
  obtain ⟨hplan, -, hapart⟩ := tokens_apart hgroups hdefaults hds () twoPaths
  refine ⟨hgroups, hdefaults, hds, hplan, hapart (fun now => ?_) ?_⟩
  · refine (List.countP_mono_left (q := fun x => Planner.isPacket x.directive)
      fun x _ h => (of_decide_eq_true h).1).trans ?_
    decide +kernel
  · have hbegun : ((p.planner twoPaths).begins 0 ds).zip ds = [(0, ds.head (by decide))] := rfl
    rw [hbegun]
    simp only [List.mem_singleton, forall_eq]
    intro cs hcs
    cases hcs
    simp only [List.forall_mem_cons, List.not_mem_nil, false_imp_iff, implies_true, and_true]
    decide +kernel

/-- The packet in the inner block takes the first token again, though two tokens would do. -/
theorem nested_packets_collide :
    let p : Player Unit := .new .usual
    let ds : List (Directive Float) := [.parallel [.packet none none [.whole "a"],
      .parallel [.packet none none [.whole "b"]]]]
    let planner := p.planner twoPaths
    let parts := planner.parts 0 ds
    (p.settings.tokens.map (·.group)).Nodup ∧ p.settings.defaults.Advancing ∧
      (∀ d ∈ ds, d.WellFormed) ∧
      (∀ now, parts.countP (fun x => x.UnderWay planner now) ≤ p.settings.tokens.length) ∧
      parts.map (·.group? planner) = [some "packet-grp", some "packet-grp"] ∧
      ¬ planner.Apart parts := by
  intro p ds planner parts
  have hstart : IsFraction 0 := ⟨by decide +kernel, by decide +kernel⟩
  have hstop : IsFraction 1 := ⟨by decide +kernel, by decide +kernel⟩
  have hspec : ∀ id, Text.isBlankText id = false →
      (PathSpec.whole id : PathSpec Float).WellFormed :=
    fun id hid => ⟨hid, hstart, hstop, fun x hx => nomatch hx⟩
  refine ⟨by decide +kernel, by constructor <;> decide +kernel, ?_, fun now => ?_,
    by decide +kernel, fun hapart => ?_⟩
  · simp only [ds, List.mem_singleton, forall_eq]
    refine .parallel fun d hd => ?_
    simp only [List.mem_cons, List.not_mem_nil, or_false] at hd
    rcases hd with rfl | rfl
    · exact .packet (by simp) (by simpa using hspec "a" (by decide +kernel))
    · refine .parallel fun d hd => ?_
      rw [List.mem_singleton.1 hd]
      exact .packet (by simp) (by simpa using hspec "b" (by decide +kernel))
  · exact List.countP_le_length
  · -- both set out when the step begins
    have hmeets : (⟨0, 0, .packet none none [.whole "a"]⟩ : Placed Float).Meets planner
        ⟨0, 0, .packet none none [.whole "b"]⟩ := ⟨0, by decide +kernel, by decide +kernel⟩
    exact (List.pairwise_cons.1 hapart).1 _ List.mem_cons_self hmeets rfl

end Player

end Slideshow

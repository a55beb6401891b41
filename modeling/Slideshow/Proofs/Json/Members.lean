/-
  Slideshow.Proofs.Json.Members

  Documents as they are when they come from a text: members sorted by key, finite numbers.
  A record reads its fields from an object by looking them up under their names;
  `fields?_obj` says when it can.
-/
import Mathlib.Algebra.Group.Int.Defs
import Slideshow.Json.Record
import Slideshow.Proofs.Dict

namespace Slideshow

/-! ## Well-formed documents -/

/-- A whole number of 64 bits, signed or not, or a finite float. -/
def Number.WellFormed : Number → Prop
  | .int i => -(2 ^ 63) ≤ i ∧ i < 2 ^ 64
  | .float x => x.isFinite = true

namespace Json

mutual

/-- Every object has its members in the order of their keys, and every number is one that
    can be held. -/
def WellFormed : Json → Prop
  | num n => n.WellFormed
  | arr xs => WellFormedItems xs
  | obj ms => SortedKeys ms ∧ WellFormedMembers ms
  | _ => True

def WellFormedItems : List Json → Prop
  | [] => True
  | x :: xs => x.WellFormed ∧ WellFormedItems xs

def WellFormedMembers : List (String × Json) → Prop
  | [] => True
  | (_, x) :: ms => x.WellFormed ∧ WellFormedMembers ms

end

theorem wellFormedItems_iff {xs : List Json} :
    WellFormedItems xs ↔ ∀ x ∈ xs, x.WellFormed := by
  induction xs with
  | nil => exact iff_of_true trivial nofun
  | cons x xs ih => rw [WellFormedItems, ih, List.forall_mem_cons]

theorem wellFormedMembers_iff {ms : List (String × Json)} :
    WellFormedMembers ms ↔ ∀ m ∈ ms, m.2.WellFormed := by
  induction ms with
  | nil => exact iff_of_true trivial nofun
  | cons m ms ih => rw [WellFormedMembers, ih, List.forall_mem_cons]

mutual

def decideWellFormed : (j : Json) → Decidable j.WellFormed
  | null => isTrue trivial
  | bool _ => isTrue trivial
  | num (.int i) => inferInstanceAs (Decidable (-(2 ^ 63) ≤ i ∧ i < 2 ^ 64))
  | num (.float x) => inferInstanceAs (Decidable (x.isFinite = true))
  | str _ => isTrue trivial
  | arr xs => decideItems xs
  | obj ms =>
    @instDecidableAnd _ _ (inferInstanceAs (Decidable (ms.Pairwise fun a b => a.1 < b.1)))
      (decideMembers ms)

def decideItems : (xs : List Json) → Decidable (WellFormedItems xs)
  | [] => isTrue trivial
  | x :: xs => @instDecidableAnd _ _ (decideWellFormed x) (decideItems xs)

def decideMembers : (ms : List (String × Json)) → Decidable (WellFormedMembers ms)
  | [] => isTrue trivial
  | (_, x) :: ms => @instDecidableAnd _ _ (decideWellFormed x) (decideMembers ms)

end

instance (j : Json) : Decidable j.WellFormed := decideWellFormed j

theorem WellFormed.item {xs : List Json} (h : (arr xs).WellFormed) {x : Json} (hx : x ∈ xs) :
    x.WellFormed := by
  rw [WellFormed, wellFormedItems_iff] at h
  exact h x hx

theorem WellFormed.sorted {ms : List (String × Json)} (h : (obj ms).WellFormed) :
    SortedKeys ms := by
  rw [WellFormed] at h
  exact h.1

theorem WellFormed.member {ms : List (String × Json)} (h : (obj ms).WellFormed)
    {m : String × Json} (hm : m ∈ ms) : m.2.WellFormed := by
  rw [WellFormed, wellFormedMembers_iff] at h
  exact h.2 m hm

theorem WellFormed.lookup {ms : List (String × Json)} (h : (obj ms).WellFormed) {key : String}
    {j : Json} (hj : lookupIn? key ms = some j) : j.WellFormed :=
  h.member (Dict.mem_of_lookupIn? hj)

/-! ## Fields with several names -/

variable {names : List String} {ms : List (String × Json)}

/-- The member under the first of the names that has one. -/
def lookupAny? (names : List String) (ms : List (String × Json)) : Option Json :=
  names.findSome? fun name => lookupIn? name ms

@[simp] theorem lookupAny?_one (name : String) (ms : List (String × Json)) :
    lookupAny? [name] ms = lookupIn? name ms := by
  cases h : lookupIn? name ms <;> simp [lookupAny?, h]

@[simp] theorem lookupAny?_two (name other : String) (ms : List (String × Json)) :
    lookupAny? [name, other] ms = (lookupIn? name ms).or (lookupIn? other ms) := by
  cases h : lookupIn? name ms <;> cases h' : lookupIn? other ms <;> simp [lookupAny?, h, h']

theorem mem_filter_of_lookupIn? {name : String} (hname : name ∈ names) {j : Json}
    (hj : lookupIn? name ms = some j) :
    (name, j) ∈ ms.filter fun m => names.contains m.1 :=
  List.mem_filter.2 ⟨Dict.mem_of_lookupIn? hj, List.contains_iff_mem.2 hname⟩

theorem isSome_lookupIn?_of_mem {m : String × Json} (hm : m ∈ ms) :
    (lookupIn? m.1 ms).isSome = true := by
  induction ms with
  | nil => cases hm
  | cons x xs ih =>
    rw [lookupIn?]
    split
    · rfl
    · rename_i hne
      rcases List.mem_cons.1 hm with rfl | hm
      · exact absurd rfl hne
      · exact ih hm

/-- What a field reads is the member under the first of its names that has one. -/
theorem eq_lookupAny?_of_member? {value : Option Json} (h : member? names ms = some value) :
    value = lookupAny? names ms := by
  unfold member? at h
  split at h
  · rename_i hfilter
    cases h
    refine (List.findSome?_eq_none_iff.2 fun name hname => ?_).symm
    rw [Option.eq_none_iff_forall_ne_some]
    intro j hj
    have hmem := mem_filter_of_lookupIn? hname hj
    rw [hfilter] at hmem
    cases hmem
  · -- whatever is found under one of the names is the only member among them
    rename_i m hfilter
    cases h
    have hm : m ∈ ms.filter fun m => names.contains m.1 := hfilter ▸ List.mem_singleton_self m
    obtain ⟨hms, hnames⟩ := List.mem_filter.1 hm
    cases hvalue : lookupAny? names ms with
    | none =>
      have hnone := List.findSome?_eq_none_iff.1 hvalue m.1 (List.contains_iff_mem.1 hnames)
      have hsome := isSome_lookupIn?_of_mem hms
      rw [hnone] at hsome
      cases hsome
    | some j =>
      obtain ⟨name, hname, hj⟩ := List.exists_of_findSome?_eq_some hvalue
      have hmem := mem_filter_of_lookupIn? hname hj
      rw [hfilter, List.mem_singleton] at hmem
      rw [← hmem]
  · cases h

/-- Where no key occurs twice, a field can be read unless two of its names are used. -/
theorem isSome_member?_iff (h : SortedKeys ms) :
    (member? names ms).isSome = true ↔
      ∀ name ∈ names, ∀ other ∈ names, (lookupIn? name ms).isSome = true →
        (lookupIn? other ms).isSome = true → name = other := by
  -- the members found have different keys, which are the names in use
  have hkeys := ((Dict.nodup_keys h).sublist
    ((List.filter_sublist (l := ms) (p := fun m => names.contains m.1)).map fun m => m.1))
  have hname : ∀ name ∈ names, (lookupIn? name ms).isSome = true →
      name ∈ (ms.filter fun m => names.contains m.1).map (·.1) := by
    intro name hname hsome
    obtain ⟨j, hj⟩ := Option.isSome_iff_exists.1 hsome
    exact List.mem_map.2 ⟨(name, j), mem_filter_of_lookupIn? hname hj, rfl⟩
  have hsome : ∀ m ∈ ms.filter fun m => names.contains m.1,
      m.1 ∈ names ∧ (lookupIn? m.1 ms).isSome = true := by
    intro m hm
    obtain ⟨hms, hnames⟩ := List.mem_filter.1 hm
    exact ⟨List.contains_iff_mem.1 hnames, isSome_lookupIn?_of_mem hms⟩
  unfold member?
  generalize ms.filter (fun m => names.contains m.1) = found at hkeys hname hsome
  match found with
  | [] =>
    refine iff_of_true rfl fun name hmem _ _ hgiven _ => ?_
    cases hname name hmem hgiven
  | [m] =>
    refine iff_of_true rfl fun name hmem other hmem' hgiven hgiven' => ?_
    rw [List.mem_singleton.1 (hname name hmem hgiven),
      List.mem_singleton.1 (hname other hmem' hgiven')]
  | a :: b :: rest =>
    -- two members under the same name would have the same key
    refine iff_of_false nofun fun hone => ?_
    obtain ⟨ha, hga⟩ := hsome a List.mem_cons_self
    obtain ⟨hb, hgb⟩ := hsome b (List.mem_cons_of_mem _ List.mem_cons_self)
    refine (List.nodup_cons.1 hkeys).1 ?_
    rw [List.map_cons]
    exact hone a.1 ha b.1 hb hga hgb ▸ List.mem_cons_self

/-! ## Records -/

/-- No field of a record is given twice. -/
def Unambiguous (names : List (List String)) (ms : List (String × Json)) : Prop :=
  ∀ ns ∈ names, (member? ns ms).isSome = true

instance (names : List (List String)) (ms : List (String × Json)) :
    Decidable (Unambiguous names ms) :=
  inferInstanceAs (Decidable (∀ ns ∈ names, (member? ns ms).isSome = true))

/-- A record is read from an object when no field is given twice, and then each field has
    the value that is found under its names. -/
theorem fields?_obj (names : List (List String)) (ms : List (String × Json)) :
    fields? names (obj ms) =
      if Unambiguous names ms then some (names.map fun ns => lookupAny? ns ms) else none := by
  rw [fields?]
  -- one field after another, where one that is given twice spoils the whole record
  induction names with
  | nil => rfl
  | cons ns names ih =>
    rw [List.mapM_cons, ih]
    cases hm : member? ns ms with
    | none =>
      have hnot : ¬ Unambiguous (ns :: names) ms := fun h => by
        have hns := h ns List.mem_cons_self
        rw [hm] at hns
        cases hns
      rw [if_neg hnot]
      rfl
    | some value =>
      have hvalue := eq_lookupAny?_of_member? hm
      have hcons : Unambiguous (ns :: names) ms ↔ Unambiguous names ms := by
        rw [Unambiguous, List.forall_mem_cons, hm]
        exact and_iff_right rfl
      simp only [hcons]
      split
      · rw [hvalue]
        rfl
      · rfl

/-- A field with one name is never given twice. -/
theorem unambiguous_of_singles {names : List (List String)} (h : SortedKeys ms)
    (hsingle : ∀ ns ∈ names, ns.length = 1) : Unambiguous names ms := by
  intro ns hns
  obtain ⟨name, rfl⟩ := List.length_eq_one_iff.1 (hsingle ns hns)
  refine (isSome_member?_iff h).2 fun a ha b hb _ _ => ?_
  rw [List.mem_singleton.1 ha, List.mem_singleton.1 hb]

end Json

end Slideshow

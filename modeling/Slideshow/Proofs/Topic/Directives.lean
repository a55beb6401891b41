/-
  Slideshow.Proofs.Topic.Directives

  Directives are trees: a parallel block holds directives, which may be blocks again. `Passes`
  is what the check asks of a document, as an induction over its nesting, and
  `directiveProblems_eq_nil_iff` says that it is the check; the reader follows the same
  nesting.
-/
import Slideshow.Proofs.Json.Fields
import Slideshow.Topic.Reader
import Slideshow.Topic.Validation

namespace Slideshow

open Json

/-! ## Nesting -/

theorem Json.sizeOf_lt_of_lookupIn? {key : String} {ms : List (String × Json)} {j : Json}
    (h : lookupIn? key ms = some j) : sizeOf j < sizeOf (obj ms) := by
  have hmem := List.sizeOf_lt_of_mem (Dict.mem_of_lookupIn? h)
  simp only [Prod.mk.sizeOf_spec] at hmem
  simp only [obj.sizeOf_spec]
  omega

theorem Json.sizeOf_lt_of_item {js : List Json} {j : Json} (h : j ∈ js) :
    sizeOf j < sizeOf (arr js) := by
  have hmem := List.sizeOf_lt_of_mem h
  simp only [arr.sizeOf_spec]
  omega

/-! ## Kinds -/

namespace Directive

theorem Kind.ofName?_eq_some_iff {name : String} {kind : Kind} :
    Kind.ofName? name = some kind ↔ name = kind.name := by
  constructor
  · intro h
    unfold Kind.ofName? at h
    have hname := List.find?_some h
    exact (beq_iff_eq.1 hname).symm
  · rintro rfl
    cases kind <;> decide

/-! ## Documents that pass the check -/

/-- A document that passes the check of directives: its own fields do, and in a parallel
    block the documents of the directives do. -/
inductive Passes : Json → Prop
  | simple {ms : Topic.Members} {kind : Kind} (hkind : kind ≠ .parallel)
      (htype : lookupIn? "type" ms = some (.str kind.name))
      (hfields : Topic.fieldProblems ms kind = []) : Passes (.obj ms)
  | parallel {ms : Topic.Members} {js : List Json}
      (htype : lookupIn? "type" ms = some (.str Kind.parallel.name))
      (hblock : lookupIn? "animations" ms = some (.arr js)) (hjs : ∀ j ∈ js, Passes j) :
      Passes (.obj ms)

end Directive

namespace Topic

open Directive

theorem blockProblems_eq (ms : Members) :
    blockProblems ms =
      ((lookupIn? "animations" ms).map childProblems).getD
        [Problem.here (.notArray "animations")] := by
  induction ms with
  | nil => rfl
  | cons m ms ih =>
    obtain ⟨key, j⟩ := m
    rw [blockProblems, lookupIn?]
    split
    · rfl
    · exact ih

theorem directivesProblems_eq_nil_iff {i : Nat} {js : List Json} :
    directivesProblems i js = [] ↔ ∀ j ∈ js, directiveProblems j = [] := by
  induction js generalizing i with
  | nil => exact iff_of_true rfl nofun
  | cons j js ih =>
    rw [directivesProblems, List.append_eq_nil_iff, ih, List.forall_mem_cons, Problem.inside,
      List.map_eq_nil_iff]

theorem blockProblems_eq_nil_iff {ms : Members} :
    blockProblems ms = [] ↔
      ∃ js, lookupIn? "animations" ms = some (.arr js) ∧ ∀ j ∈ js, directiveProblems j = [] := by
  rw [blockProblems_eq]
  cases lookupIn? "animations" ms with
  | none => exact iff_of_false nofun nofun
  | some j =>
    cases j with
    | arr js =>
      rw [Option.map_some, Option.getD_some, childProblems, directivesProblems_eq_nil_iff]
      exact ⟨fun h => ⟨js, rfl, h⟩, fun ⟨_, hjs, h⟩ => arr.inj (Option.some.inj hjs) ▸ h⟩
    | _ => exact iff_of_false nofun nofun

/-- A directive whose kind is known has the problems of its parts, or of its fields. -/
theorem directiveProblems_obj {ms : Members} {kind : Kind}
    (htype : lookupIn? "type" ms = some (.str kind.name)) :
    directiveProblems (.obj ms) =
      if kind = .parallel then blockProblems ms else fieldProblems ms kind := by
  have hkind : Kind.ofName? kind.name = some kind := Kind.ofName?_eq_some_iff.2 rfl
  rw [directiveProblems, htype]
  simp only [hkind]
  cases kind <;> rfl

/-- Without a known kind there is a problem. -/
theorem exists_kind {j : Json} (h : directiveProblems j = []) :
    ∃ ms, ∃ kind : Kind, j = .obj ms ∧ lookupIn? "type" ms = some (.str kind.name) := by
  cases j with
  | obj ms =>
    rw [directiveProblems] at h
    split at h
    · rename_i name htype
      cases hname : Kind.ofName? name with
      | none =>
        rw [hname] at h
        cases h
      | some kind => exact ⟨ms, kind, rfl, Kind.ofName?_eq_some_iff.1 hname ▸ htype⟩
    · cases h
  | _ => cases h

theorem passes_of_directiveProblems {j : Json} (h : directiveProblems j = []) : Passes j := by
  -- the directives of a block are smaller than the block
  induction hsize : sizeOf j using Nat.strongRecOn generalizing j with
  | ind n ih =>
    obtain ⟨ms, kind, rfl, htype⟩ := exists_kind h
    rw [directiveProblems_obj htype] at h
    split at h
    · rename_i hkind
      subst hkind
      obtain ⟨js, hblock, hjs⟩ := blockProblems_eq_nil_iff.1 h
      refine .parallel htype hblock fun j hj => ?_
      have hsmaller : sizeOf j < n := by
        rw [← hsize]
        exact Nat.lt_trans (Json.sizeOf_lt_of_item hj) (Json.sizeOf_lt_of_lookupIn? hblock)
      exact ih (sizeOf j) hsmaller (hjs j hj) rfl
    · rename_i hkind
      exact .simple hkind htype h

/-- The check lets pass what passes at every depth. -/
theorem directiveProblems_eq_nil_iff {j : Json} : directiveProblems j = [] ↔ Passes j := by
  refine ⟨passes_of_directiveProblems, fun h => ?_⟩
  induction h with
  | simple hkind htype hfields => rw [directiveProblems_obj htype, if_neg hkind, hfields]
  | parallel htype hblock _ ih =>
    rw [directiveProblems_obj htype, if_pos rfl]
    exact blockProblems_eq_nil_iff.2 ⟨_, hblock, ih⟩

end Topic

/-! ## Reading -/

namespace Directive

theorem readItems?_eq (js : List Json) : readItems? js = js.mapM (read? true) := by
  induction js with
  | nil => rfl
  | cons j js ih =>
    rw [readItems?, List.mapM_cons, ih]

theorem readMember?_eq (ms : Topic.Members) :
    readMember? ms = required (listOf? (read? true)) (lookupIn? "animations" ms) := by
  induction ms with
  | nil => rfl
  | cons m ms ih =>
    obtain ⟨key, j⟩ := m
    rw [readMember?, lookupIn?]
    split
    · cases j with
      | arr js => exact readItems?_eq js
      | _ => rfl
    · exact ih

/-- Where the kind is given by its name, it makes no difference whether the directive is
    nested. -/
theorem read?_obj {nested : Bool} {ms : Topic.Members} {kind : Kind}
    (htype : lookupIn? "type" ms = some (.str kind.name)) :
    read? nested (.obj ms) =
      if kind = .parallel then
        (required (listOf? (read? true)) (lookupIn? "animations" ms)).map .parallel
      else simple? kind (.obj ms) := by
  -- only a kind given by its number is read differently in a block
  have hkind : Kind.ofTag? nested (.str kind.name) = some kind :=
    Kind.ofName?_eq_some_iff.2 rfl
  rw [read?, htype, ← readMember?_eq]
  simp only [Option.bind_eq_bind, Option.bind_some, hkind]
  cases kind <;> rfl

end Directive

end Slideshow

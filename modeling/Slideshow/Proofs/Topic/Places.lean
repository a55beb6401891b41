/-
  Slideshow.Proofs.Topic.Places

  Where problems are found. The checks of single fields find them at the value itself; those of
  lists lead on to the items, so that each problem's path leads to a value of the document
  (`located_problems`).
-/
import Mathlib.Data.List.Basic
import Slideshow.Proofs.Topic.Directives

namespace Slideshow

/-! ## Along a path -/

/-- The place of an item in the list under a name. -/
def Place.item (name : String) (i : Nat) : List Place := [.field name, .index i]

theorem Json.at?_append (j : Json) (path rest : List Place) :
    j.at? (path ++ rest) = (j.at? path).bind fun k => k.at? rest := by
  induction path generalizing j with
  | nil => rfl
  | cons p path ih =>
    cases p with
    | field name => simp only [List.cons_append, at?, ih, Option.bind_assoc]
    | index i => simp only [List.cons_append, at?, ih, Option.bind_assoc]

/-- An item that is found stands in a list, under a name of an object. -/
theorem Json.at?_item {j k : Json} {name : String} {i : Nat}
    (h : j.at? (Place.item name i) = some k) :
    ∃ ms js, j = .obj ms ∧ lookupIn? name ms = some (.arr js) ∧ js[i]? = some k := by
  obtain ⟨list, hlist, h⟩ := Option.bind_eq_some_iff.1 h
  obtain ⟨k', hk', h⟩ := Option.bind_eq_some_iff.1 h
  obtain ⟨js, hjs, hk'⟩ := Option.bind_eq_some_iff.1 hk'
  cases h
  cases j with
  | obj ms =>
    cases list with
    | arr items =>
      obtain rfl : items = js := Option.some.inj hjs
      exact ⟨ms, items, rfl, hlist, hk'⟩
    | _ => cases hjs
  | _ => cases hlist

theorem Json.at?_item_of_lookup {ms : List (String × Json)} {js : List Json} {k : Json}
    {name : String} {i : Nat} (hlist : lookupIn? name ms = some (.arr js)) (hk : js[i]? = some k) :
    (Json.obj ms).at? (Place.item name i) = some k := by
  simp only [Place.item, at?, get?, hlist, Option.bind_some, arr?, hk]

namespace Topic

open Directive Place
open Problem (here inside)

variable {ms : Members} {ps qs : List Problem} {path : List Place} {name : String}

/-! ## Problems of the value itself -/

namespace Problem

/-- All problems are found at the value under consideration itself. -/
def Own (ps : List Problem) : Prop := ∀ p ∈ ps, p.path = []

theorem own_nil : Own [] := fun _ h => nomatch h

theorem own_here (cause : Cause) : Own [here cause] := by
  intro p hp
  cases List.mem_singleton.1 hp
  rfl

theorem Own.append (h : Own ps) (h' : Own qs) : Own (ps ++ qs) := fun p hp =>
  (List.mem_append.1 hp).elim (h p) (h' p)

theorem own_ite {c : Prop} [Decidable c] (h : Own ps) (h' : Own qs) :
    Own (if c then ps else qs) := by
  split
  · exact h
  · exact h'

/-- What is found at one entry of several each is found at the value itself. -/
theorem own_filterMap {es : List (String × Json)} {f : String × Json → Option Problem}
    (h : ∀ e, ∀ p ∈ f e, p.path = []) : Own (es.filterMap f) := by
  intro p hp
  obtain ⟨e, _, hp⟩ := List.mem_filterMap.1 hp
  exact h e p hp

end Problem

open Problem

/-! ## Checks of single fields -/

theorem own_requiredText (name : String) (ms : Members) : Own (requiredText name ms) := by
  unfold requiredText
  split
  · exact own_here _
  · exact own_here _
  · exact own_ite (own_here _) own_nil
  · exact own_here _

theorem own_optionalText (name : String) (ms : Members) : Own (optionalText name ms) := by
  unfold optionalText
  split
  · exact own_nil
  · exact own_nil
  · exact own_nil
  · exact own_here _

theorem own_optionalLabel (name : String) (ms : Members) : Own (optionalLabel name ms) := by
  unfold optionalLabel
  split
  · exact own_nil
  · exact own_optionalText name ms

theorem own_optionalTime (name : String) (ms : Members) : Own (optionalTime name ms) := by
  unfold optionalTime
  split
  · exact own_nil
  · exact own_nil
  · exact own_ite own_nil (own_here _)
  · exact own_here _

theorem own_optionalEase (ms : Members) : Own (optionalEase ms) := by
  unfold optionalEase
  split
  · exact own_nil
  · exact own_nil
  · exact own_ite own_nil (own_here _)
  · exact own_here _

theorem own_optionalComponents (name : String) (ms : Members) :
    Own (optionalComponents name ms) := by
  unfold optionalComponents
  split
  · exact own_nil
  · exact own_nil
  · refine own_filterMap fun e p hp => ?_
    split at hp
    · cases hp
    · cases hp
      rfl
  · exact own_here _

theorem own_repetitionProblems (ms : Members) : Own (repetitionProblems ms) := by
  unfold repetitionProblems
  split
  · exact own_nil
  · split
    · exact own_here _
    · exact own_ite (own_here _) own_nil

theorem own_attributeProblems (ms : Members) : Own (attributeProblems ms) := by
  unfold attributeProblems
  split
  · exact own_here _
  · refine own_filterMap fun e p hp => ?_
    split at hp
    · cases hp
    · cases hp
      rfl
  · exact own_here _

theorem own_outside (what : String) (x : Float) : Own (outside what x) :=
  own_ite own_nil (own_here _)

theorem own_pathNumber (what : String) (ms : Members) : Own (pathNumber what ms) := by
  unfold pathNumber
  split
  · exact own_nil
  · exact own_ite own_nil (own_here _)

theorem own_pathProblems (j : Json) : Own (pathProblems j) := by
  cases j with
  | str s =>
    rw [pathProblems]
    split
    · exact own_here _
    · refine ((own_outside _ _).append (own_outside _ _)).append ?_
      split
      · exact own_nil
      · exact own_ite own_nil (own_here _)
  | obj ms =>
    rw [pathProblems]
    refine (((((own_requiredText _ _).append (own_pathNumber _ _)).append
      (own_pathNumber _ _)).append (own_optionalTime _ _)).append (own_optionalEase _)).append ?_
    split
    · exact own_nil
    · exact (own_outside _ _).append (own_outside _ _)
  | _ => exact own_here _

theorem own_repeated (seen : List String) (cause : String → Cause) (j : Json) :
    Own (repeated seen cause j) := by
  unfold repeated
  split
  · exact own_nil
  · exact own_ite (own_here _) own_nil

/-! ## Fields of records -/

theorem own_topicFields (ms : Members) : Own (requiredText "id" ms ++ requiredText "title" ms) :=
  (own_requiredText _ _).append (own_requiredText _ _)

theorem own_slideFields (seen : List String) (ms : Members) :
    Own (requiredText "id" ms ++ repeated seen .repeatedSlide (.obj ms) ++
      requiredText "title" ms ++ requiredText "diagram" ms ++
      optionalComponents "components" ms) :=
  ((((own_requiredText _ _).append (own_repeated _ _ _)).append (own_requiredText _ _)).append
    (own_requiredText _ _)).append (own_optionalComponents _ _)

theorem own_stepFields (seen : List String) (ms : Members) :
    Own (requiredText "id" ms ++ repeated seen .repeatedStep (.obj ms)) :=
  (own_requiredText _ _).append (own_repeated _ _ _)

/-! ## Items of a list -/

/-- Items that are checked each by itself, as items whose ids do not matter. -/
theorem itemProblems_eq (name : String) (check : Json → List Problem) (i : Nat)
    (seen : List String) (js : List Json) :
    itemProblems name check i js = distinctProblems name (fun _ => check) i seen js := by
  induction js generalizing i seen with
  | nil => rfl
  | cons j js ih => rw [itemProblems, distinctProblems, ih]

theorem directivesProblems_eq (i : Nat) (js : List Json) :
    directivesProblems i js = itemProblems "animations" directiveProblems i js := by
  induction js generalizing i with
  | nil => rfl
  | cons j js ih => rw [directivesProblems, itemProblems, ih]

/-! ## Values at the places of problems -/

/-- Each problem's path leads to a value. -/
def Located (j : Json) (ps : List Problem) : Prop := ∀ p ∈ ps, (j.at? p.path).isSome = true

theorem Problem.Own.located (h : Own ps) (j : Json) : Located j ps := by
  intro p hp
  rw [h p hp]
  rfl

theorem Located.append {j : Json} (h : Located j ps) (h' : Located j qs) :
    Located j (ps ++ qs) := fun p hp => (List.mem_append.1 hp).elim (h p) (h' p)

/-- What leads to a value inside leads there from the whole, too. -/
theorem Located.inside {j k : Json} (hk : j.at? path = some k) (h : Located k ps) :
    Located j (inside path ps) := by
  intro p hp
  obtain ⟨q, hq, rfl⟩ := List.mem_map.1 hp
  rw [Json.at?_append, hk]
  exact h q hq

theorem located_distinctProblems {check : List String → Json → List Problem} {whole : Json}
    {i : Nat} {seen : List String} {js : List Json}
    (hat : ∀ k j, js[k]? = some j → whole.at? (item name (i + k)) = some j)
    (hcheck : ∀ seen, ∀ j ∈ js, Located j (check seen j)) :
    Located whole (distinctProblems name check i seen js) := by
  induction js generalizing i seen with
  | nil => exact own_nil.located whole
  | cons j js ih =>
    refine Located.append (.inside (hat 0 j rfl) (hcheck seen j List.mem_cons_self)) ?_
    refine ih (fun k x hx => ?_) fun seen x hx => hcheck seen x (List.mem_cons_of_mem _ hx)
    rw [Nat.add_right_comm]
    exact hat (k + 1) x hx

/-- In a list under a name of an object, each problem of an item leads to a value. -/
theorem located_list {check : List String → Json → List Problem} {js : List Json}
    (hlist : lookupIn? name ms = some (.arr js))
    (hcheck : ∀ seen, ∀ j ∈ js, Located j (check seen j)) (seen : List String) :
    Located (.obj ms) (distinctProblems name check 0 seen js) := by
  refine located_distinctProblems (fun k j hj => ?_) hcheck
  rw [Nat.zero_add]
  exact Json.at?_item_of_lookup hlist hj

theorem located_directivesProblems {js : List Json}
    (hlist : lookupIn? "animations" ms = some (.arr js))
    (h : ∀ j ∈ js, Located j (directiveProblems j)) :
    Located (.obj ms) (directivesProblems 0 js) := by
  rw [directivesProblems_eq, itemProblems_eq _ _ 0 []]
  exact located_list hlist (fun _ => h) []

theorem located_packetPaths (ms : Members) : Located (.obj ms) (packetPaths ms) := by
  unfold packetPaths
  split
  · exact (own_here _).located _
  · rename_i hlist
    rw [itemProblems_eq _ _ 0 []]
    exact located_list hlist (fun _ j _ => (own_pathProblems j).located j) []
  · exact (own_here _).located _

theorem located_fieldProblems (ms : Members) (kind : Kind) :
    Located (.obj ms) (fieldProblems ms kind) := by
  cases kind with
  | camera =>
    exact Own.located (((own_ite own_nil (own_here _)).append (own_optionalTime _ _)).append
      (own_optionalEase _)) _
  | packet =>
    refine Located.append (((own_optionalLabel "text" ms).append ?_).located _)
      (located_packetPaths ms)
    split
    · exact own_nil
    · exact own_ite own_nil (own_here _)
  | setValue => exact ((own_requiredText _ _).append (own_ite own_nil (own_here _))).located _
  | pulse =>
    exact (((own_requiredText _ _).append (own_optionalTime _ _)).append
      (own_repetitionProblems _)).located _
  | wait => exact (own_optionalTime _ _).located _
  | attributes =>
    exact ((((own_requiredText _ _).append (own_attributeProblems _)).append
      (own_optionalTime _ _)).append (own_optionalEase _)).located _
  | parallel => exact own_nil.located _

theorem located_directiveProblems (j : Json) : Located j (directiveProblems j) := by
  -- the directives of a block are smaller than the block
  induction hsize : sizeOf j using Nat.strongRecOn generalizing j with
  | ind n ih =>
    cases j with
    | obj ms =>
      rw [directiveProblems]
      split
      · split
        · exact (own_here _).located _
        · rw [blockProblems_eq]
          cases hlist : lookupIn? "animations" ms with
          | none => exact (own_here _).located _
          | some list =>
            cases list with
            | arr js =>
              refine located_directivesProblems hlist fun j hj => ih (sizeOf j) ?_ j rfl
              rw [← hsize]
              exact Nat.lt_trans (Json.sizeOf_lt_of_item hj) (Json.sizeOf_lt_of_lookupIn? hlist)
            | _ => exact (own_here _).located _
        · exact located_fieldProblems ms _
      · exact (own_here _).located _
    | _ => exact (own_here _).located _

theorem located_captionProblems (ms : Members) : Located (.obj ms) (captionProblems ms) := by
  unfold captionProblems
  split
  · rename_i ui hui
    have hat : (Json.obj ms).at? [.field "ui"] = some (.obj ui) := by
      simp only [Json.at?, Json.get?, hui, Option.bind_some]
    refine Located.inside hat (Own.located ?_ _)
    exact (((((own_requiredText _ _).append (own_requiredText _ _)).append
      (own_optionalText _ _)).append (own_optionalText _ _)).append
      (own_optionalText _ _)).append (own_optionalText _ _)
  · exact (own_here _).located _

theorem located_animationProblems (ms : Members) : Located (.obj ms) (animationProblems ms) := by
  unfold animationProblems
  split
  · exact own_nil.located _
  · exact own_nil.located _
  · rename_i hlist
    exact located_directivesProblems hlist fun j _ => located_directiveProblems j
  · exact (own_here _).located _

theorem located_stepProblems (seen : List String) (j : Json) :
    Located j (stepProblems seen j) := by
  cases j with
  | obj ms =>
    have hfields := (own_stepFields seen ms).located (.obj ms)
    have hcaption := hfields.append (located_captionProblems ms)
    exact (hcaption.append (located_animationProblems ms)).append
      ((own_optionalComponents _ _).located _)
  | _ => exact (own_here _).located _

theorem located_slideProblems (seen : List String) (j : Json) :
    Located j (slideProblems seen j) := by
  cases j with
  | obj ms =>
    refine Located.append ((own_slideFields seen ms).located (.obj ms)) ?_
    unfold stepsProblems
    split
    · exact (own_here _).located _
    · rename_i hlist
      exact located_list hlist (fun seen j _ => located_stepProblems seen j) []
    · exact (own_here _).located _
  | _ => exact (own_here _).located _

/-- Each problem's path leads to a value of the document. -/
theorem located_problems (doc : Json) : Located doc (problems doc) := by
  cases doc with
  | obj ms =>
    refine Located.append ((own_topicFields ms).located (.obj ms)) ?_
    unfold slidesProblems
    split
    · exact (own_here _).located _
    · rename_i hlist
      exact located_list hlist (fun seen j _ => located_slideProblems seen j) []
    · exact (own_here _).located _
  | _ => exact (own_here _).located _

end Topic

end Slideshow

/-
  Slideshow.Proofs.Topic.Locality

  Reports are local. What is found below a slide, a step or a directive is what the check finds
  in it alone (`below_slide`, `below_step`, `below_directive`): of everything else in the
  document only the ids before a slide or a step matter, and only if its own is among them. The
  main statement is `report_complete_and_local`.
-/
import Slideshow.Proofs.Topic.Places

namespace Slideshow

namespace Topic

open Directive Place
open Problem (here inside)

variable {ms : Members} {ps qs : List Problem} {path rest : List Place} {p q : Place}
  {name : String}

namespace Problem

/-! ## Problems below a place -/

/-- The problems found at a place or further inside, seen from there. -/
def below (path : List Place) (ps : List Problem) : List Problem :=
  ps.filterMap fun p => (p.path.dropPrefix? path).map fun rest => ⟨rest, p.cause⟩

theorem below_append : below path (ps ++ qs) = below path ps ++ below path qs :=
  List.filterMap_append

/-- What lies below a longer path lies below its beginning. -/
theorem below_below (path rest : List Place) (ps : List Problem) :
    below (path ++ rest) ps = below rest (below path ps) := by
  have hdrop : ∀ xs : List Place, xs.dropPrefix? (path ++ rest) =
      (xs.dropPrefix? path).bind fun ys => ys.dropPrefix? rest := by
    induction path with
    | nil => intro xs; simp
    | cons p path ih =>
      intro xs
      cases xs with
      | nil => rfl
      | cons x xs =>
        simp only [List.cons_append, List.dropPrefix?]
        split
        · exact ih xs
        · rfl
  simp only [below, List.filterMap_filterMap]
  refine List.filterMap_congr fun p _ => ?_
  rw [hdrop, Option.map_bind, Option.bind_map]
  rfl

/-- What was found inside comes back. -/
theorem below_inside (path : List Place) (ps : List Problem) :
    below path (inside path ps) = ps := by
  have hdrop : ∀ p : Problem, (path ++ p.path).dropPrefix? path = some p.path := fun p =>
    List.dropPrefix?_append_of_beq p.path (beq_self_eq_true path)
  simp only [below, inside, List.filterMap_map, Function.comp_def, hdrop, Option.map_some]
  exact List.filterMap_some

theorem below_inside_cons (p : Place) (path rest : List Place) (ps : List Problem) :
    below (p :: rest) (inside (p :: path) ps) = below rest (inside path ps) := by
  simp only [below, inside, List.filterMap_map, Function.comp_def, List.cons_append,
    List.dropPrefix?, beq_self_eq_true, if_true]

/-- What is found somewhere else does not lie below. -/
theorem below_inside_of_ne (h : p ≠ q) : below (p :: rest) (inside (q :: path) ps) = [] := by
  have hne : (q == p) = false := beq_false_of_ne h.symm
  simp only [below, inside, List.filterMap_map, Function.comp_def, List.cons_append,
    List.dropPrefix?, hne, Bool.false_eq_true, if_false, Option.map_none]
  exact List.filterMap_none _

theorem Own.below_eq_nil (h : Own ps) : below (p :: rest) ps = [] := by
  refine List.filterMap_eq_nil_iff.2 fun x hx => ?_
  rw [h x hx]
  rfl

/-- What is found at the value itself does not lie below an item. -/
theorem Own.below_item (h : Own ps) (name : String) (i : Nat) : below (item name i) ps = [] :=
  h.below_eq_nil

end Problem

open Problem

/-! ## Items of a list -/

section Items

variable {check : List String → Json → List Problem} {seen : List String} {i k : Nat}
  {js : List Json} {j : Json}

/-- What is found in one item does not lie below another one. -/
theorem below_item_of_ne (h : k ≠ i) : below (item name k) (inside (item name i) ps) = [] := by
  rw [item, item, below_inside_cons]
  exact below_inside_of_ne fun heq => h (Place.index.inj heq)

theorem below_distinctProblems_of_lt (h : k < i) :
    below (item name k) (distinctProblems name check i seen js) = [] := by
  induction js generalizing i seen with
  | nil => rfl
  | cons j js ih =>
    rw [distinctProblems, below_append, ih (Nat.lt_succ_of_lt h), List.append_nil]
    exact below_item_of_ne (Nat.ne_of_lt h)

/-- Below an item lies what its check finds, given the ids that were seen before it. -/
theorem below_distinctProblems (name : String) (check : List String → Json → List Problem)
    (seen : List String) (i : Nat) (hj : js[k]? = some j) :
    ∃ before, (∀ id, id ∈ before ↔ id ∈ (js.take k).filterMap id? ∨ id ∈ seen) ∧
      below (item name (i + k)) (distinctProblems name check i seen js) = check before j := by
  induction js generalizing i k seen with
  | nil => cases hj
  | cons x js ih =>
    rw [distinctProblems, below_append]
    cases k with
    | zero =>
      obtain rfl : x = j := Option.some.inj hj
      refine ⟨seen, fun id => by simp, ?_⟩
      rw [Nat.add_zero, below_distinctProblems_of_lt (Nat.lt_succ_self i), List.append_nil]
      exact below_inside (item name i) _
    | succ k =>
      obtain ⟨before, hmem, hbelow⟩ := ih ((id? x).toList ++ seen) (i + 1) hj
      refine ⟨before, fun id => ?_, ?_⟩
      · rw [hmem, List.take_succ_cons, List.filterMap_cons]
        cases id? x <;> simp [or_left_comm, or_assoc]
      · have hother : below (item name (i + (k + 1)))
            (inside [.field name, .index i] (check seen x)) = [] :=
          below_item_of_ne (by omega)
        rw [hother, List.nil_append, ← hbelow, Nat.succ_add_eq_add_succ]

theorem below_itemProblems {check : Json → List Problem} (hj : js[k]? = some j) :
    below (item name k) (itemProblems name check 0 js) = check j := by
  obtain ⟨_, _, hbelow⟩ := below_distinctProblems name (fun _ => check) [] 0 hj
  rw [itemProblems_eq _ _ 0 [], ← hbelow, Nat.zero_add]

/-- Below a directive lies what the check finds in it. -/
theorem below_directivesProblems (hj : js[k]? = some j) :
    below (item "animations" k) (directivesProblems 0 js) = directiveProblems j := by
  rw [directivesProblems_eq]
  exact below_itemProblems hj

end Items

/-! ## Ids that are taken -/

/-- An item before this one has its id. -/
def idTaken (js : List Json) (i : Nat) : Bool :=
  (js[i]?.bind id?).any fun id => ((js.take i).filterMap id?).contains id

/-- What a check finds in an item alone, given whether its id is taken. -/
def alone (check : List String → Json → List Problem) (taken : Bool) (j : Json) : List Problem :=
  check (if taken then (id? j).toList else []) j

/-- Of the ids seen before an item it only matters whether its own is among them. -/
def Selective (check : List String → Json → List Problem) : Prop :=
  ∀ seen seen' j, (∀ id ∈ id? j, id ∈ seen ↔ id ∈ seen') → check seen j = check seen' j

theorem selective_repeated (cause : String → Cause) :
    Selective fun seen j => repeated seen cause j := by
  intro seen seen' j h
  simp only [repeated]
  cases hid : id? j with
  | none => rfl
  | some id =>
    have hsame : seen.contains id = seen'.contains id := by
      rw [Bool.eq_iff_iff, List.contains_iff_mem, List.contains_iff_mem]
      exact h id hid
    simp only [hsame]

theorem selective_stepProblems : Selective stepProblems := by
  intro seen seen' j h
  cases j with
  | obj ms => simp only [stepProblems, selective_repeated _ seen seen' _ h]
  | _ => rfl

theorem selective_slideProblems : Selective slideProblems := by
  intro seen seen' j h
  cases j with
  | obj ms => simp only [slideProblems, selective_repeated _ seen seen' _ h]
  | _ => rfl

/-- Below an item with an id lies what its check finds in it alone. -/
theorem below_item_alone {check : List String → Json → List Problem} (hcheck : Selective check)
    {js : List Json} {i : Nat} {j : Json} (hj : js[i]? = some j) :
    below (item name i) (distinctProblems name check 0 [] js) = alone check (idTaken js i) j := by
  obtain ⟨before, hmem, hbelow⟩ := below_distinctProblems name check [] 0 hj
  rw [Nat.zero_add] at hbelow
  rw [hbelow, alone]
  refine hcheck _ _ j fun id hid => ?_
  have htaken : idTaken js i = ((js.take i).filterMap id?).contains id := by
    rw [idTaken, hj, Option.bind_some, hid, Option.any_some]
  rw [hmem, htaken, Option.mem_def.1 hid]
  by_cases h : id ∈ (js.take i).filterMap id? <;> simp [h]

/-! ## Parts of a document -/

/-- The place of a slide. -/
def slidePath (i : Nat) : List Place := item "slides" i

/-- The place of a step. -/
def stepPath (i k : Nat) : List Place := slidePath i ++ item "steps" k

/-- The value is a directive: it stands in the list of a step or of a parallel block. -/
inductive DirectiveAt (doc : Json) : List Place → Json → Prop
  | ofStep {i k n : Nat} {j : Json}
      (h : doc.at? (stepPath i k ++ item "animations" n) = some j) :
      DirectiveAt doc (stepPath i k ++ item "animations" n) j
  | ofBlock {path : List Place} {block j : Json} {n : Nat} (hblock : DirectiveAt doc path block)
      (htype : block.get? "type" = some (.str Kind.parallel.name))
      (h : block.at? (item "animations" n) = some j) :
      DirectiveAt doc (path ++ item "animations" n) j

/-! ## What lies below a part -/

/-- The items of a list that must not be empty are checked together. -/
theorem slidesProblems_arr {js : List Json} (hlist : lookupIn? "slides" ms = some (.arr js))
    (hsome : js ≠ []) : slidesProblems ms = distinctProblems "slides" slideProblems 0 [] js := by
  rw [slidesProblems, hlist]
  cases js with
  | nil => exact absurd rfl hsome
  | cons j js => rfl

theorem stepsProblems_arr {js : List Json} (hlist : lookupIn? "steps" ms = some (.arr js))
    (hsome : js ≠ []) : stepsProblems ms = distinctProblems "steps" stepProblems 0 [] js := by
  rw [stepsProblems, hlist]
  cases js with
  | nil => exact absurd rfl hsome
  | cons j js => rfl

theorem ne_nil_of_getElem? {js : List Json} {i : Nat} {j : Json} (h : js[i]? = some j) :
    js ≠ [] := by
  rintro rfl
  cases h

/-- What is found in the caption does not lie below a list of the step. -/
theorem below_captionProblems (hname : name ≠ "ui") (i : Nat) :
    below (item name i) (captionProblems ms) = [] := by
  unfold captionProblems
  split
  · exact below_inside_of_ne fun h => hname (Place.field.inj h)
  · exact (own_here _).below_item name i

/-- Below a slide lies what the check finds in it alone. -/
theorem below_slide {doc : Json} {slides : List Json} {i : Nat} {j : Json}
    (hslides : doc.get? "slides" = some (.arr slides)) (hj : slides[i]? = some j) :
    below (slidePath i) (problems doc) = alone slideProblems (idTaken slides i) j := by
  cases doc with
  | obj ms =>
    rw [problems, slidesProblems_arr hslides (ne_nil_of_getElem? hj), below_append, slidePath,
      (own_topicFields ms).below_item, List.nil_append]
    exact below_item_alone selective_slideProblems hj
  | _ => cases hslides

theorem below_slideProblems {slide : Json} {steps : List Json} {k : Nat} {j : Json}
    (hsteps : slide.get? "steps" = some (.arr steps)) (hj : steps[k]? = some j)
    (seen : List String) :
    below (item "steps" k) (slideProblems seen slide) = alone stepProblems (idTaken steps k) j := by
  cases slide with
  | obj ms =>
    rw [slideProblems, stepsProblems_arr hsteps (ne_nil_of_getElem? hj), below_append,
      (own_slideFields seen ms).below_item, List.nil_append]
    exact below_item_alone selective_stepProblems hj
  | _ => cases hsteps

/-- Below a step lies what the check finds in it alone. -/
theorem below_step {doc slide : Json} {slides steps : List Json} {i k : Nat} {j : Json}
    (hslides : doc.get? "slides" = some (.arr slides)) (hslide : slides[i]? = some slide)
    (hsteps : slide.get? "steps" = some (.arr steps)) (hj : steps[k]? = some j) :
    below (stepPath i k) (problems doc) = alone stepProblems (idTaken steps k) j := by
  rw [stepPath, below_below, below_slide hslides hslide]
  exact below_slideProblems hsteps hj _

theorem below_stepProblems {step j : Json} {n : Nat}
    (hj : step.at? (item "animations" n) = some j) (seen : List String) :
    below (item "animations" n) (stepProblems seen step) = directiveProblems j := by
  obtain ⟨ms, js, rfl, hlist, hj⟩ := Json.at?_item hj
  have hbefore := (own_stepFields seen ms).below_item "animations" n
  have hbehind := (own_optionalComponents "finalState" ms).below_item "animations" n
  have hlist : animationProblems ms = directivesProblems 0 js := by
    rw [animationProblems, hlist]
  rw [stepProblems, below_append, below_append, below_append, hbefore, hbehind,
    below_captionProblems (by decide), hlist, below_directivesProblems hj, List.nil_append,
    List.nil_append, List.append_nil]

theorem below_block {block j : Json} {n : Nat}
    (htype : block.get? "type" = some (.str Kind.parallel.name))
    (hj : block.at? (item "animations" n) = some j) :
    below (item "animations" n) (directiveProblems block) = directiveProblems j := by
  obtain ⟨ms, js, rfl, hlist, hj⟩ := Json.at?_item hj
  rw [directiveProblems_obj htype, if_pos rfl, blockProblems_eq, hlist, Option.map_some,
    Option.getD_some, childProblems]
  exact below_directivesProblems hj

/-- Below a directive, at whatever depth of parallel blocks, lies what the check finds in it. -/
theorem below_directive {doc : Json} {path : List Place} {j : Json} (h : DirectiveAt doc path j) :
    below path (problems doc) = directiveProblems j := by
  induction h with
  | @ofStep i k n j h =>
    rw [Json.at?_append] at h
    obtain ⟨step, hpath, hj⟩ := Option.bind_eq_some_iff.1 h
    rw [stepPath, Json.at?_append] at hpath
    obtain ⟨slide, hslide, hstep⟩ := Option.bind_eq_some_iff.1 hpath
    obtain ⟨ms, slides, rfl, hslides, hslide⟩ := Json.at?_item hslide
    obtain ⟨ms', steps, rfl, hsteps, hstep⟩ := Json.at?_item hstep
    have hbelow : below (stepPath i k) (problems (.obj ms)) =
        alone stepProblems (idTaken steps k) step := below_step hslides hslide hsteps hstep
    rw [below_below, hbelow]
    exact below_stepProblems hj _
  | ofBlock _ htype hj ih => rw [below_below, ih, below_block htype hj]

/-! ## Reports -/

/-- Each reported path leads to a value of the document. What is reported below a slide is what
    the check finds in the slide alone, given whether a slide before it has its id; likewise for
    a step, among the steps of its slide. What is reported below a directive is what the check
    finds in the directive alone. -/
theorem report_complete_and_local (doc : Json) :
    (∀ p ∈ problems doc, ∃ j, doc.at? p.path = some j) ∧
    (∀ slides i j, doc.get? "slides" = some (.arr slides) → slides[i]? = some j →
      below (slidePath i) (problems doc) = alone slideProblems (idTaken slides i) j) ∧
    (∀ slides i slide steps k j, doc.get? "slides" = some (.arr slides) →
      slides[i]? = some slide → slide.get? "steps" = some (.arr steps) → steps[k]? = some j →
      below (stepPath i k) (problems doc) = alone stepProblems (idTaken steps k) j) ∧
    ∀ path j, DirectiveAt doc path j → below path (problems doc) = directiveProblems j := by
  refine ⟨fun p hp => ?_, ?_, ?_, ?_⟩
  · exact Option.isSome_iff_exists.1 (located_problems doc p hp)
  · intro slides i j hslides hj
    exact below_slide hslides hj
  · intro slides i slide steps k j hslides hslide hsteps hj
    exact below_step hslides hslide hsteps hj
  · intro path j h
    exact below_directive h

/-- A topic without title. Its second slide has the id of the first one and no title, the second
    step there has the id of the first one and no caption, and in a block of its animation
    stands a pulse without target. -/
def draft : Json :=
  .obj [("id", .str "t"), ("slides", .arr [.obj [("id", .str "s")],
    .obj [("diagram", .str "d"), ("id", .str "s"), ("steps", .arr [.obj [("id", .str "a")],
      .obj [("animations", .arr [.null, .obj [("animations", .arr [.obj [("type", .str "pulse")]]),
        ("type", .str "parallel")]]), ("id", .str "a")]])]])]

/-- In spite of all that is wrong elsewhere, what is wrong with the second slide, with its
    second step and with the pulse is reported in full. -/
theorem report_complete_and_local_demo :
    (below (slidePath 1) (problems draft)).map message =
        ["duplicate slide id 's'", "missing field: title", "steps[0]: missing field: ui",
          "steps[1]: duplicate step id 'a'", "steps[1]: missing field: ui",
          "steps[1].animations[0]: animation must be an object",
          "steps[1].animations[1].animations[0]: missing field: target"] ∧
      (below (stepPath 1 1) (problems draft)).length = 4 ∧
      (below (stepPath 1 1 ++ item "animations" 1 ++ item "animations" 0)
        (problems draft)).map message = ["missing field: target"] ∧
      ∀ p ∈ problems draft, ∃ j, draft.at? p.path = some j := by
  obtain ⟨hlocated, hslide, hstep, hdirective⟩ := report_complete_and_local draft
  have hpulse := hdirective _ _ (.ofBlock (.ofStep (i := 1) (k := 1) (n := 1) rfl) (n := 0) rfl rfl)
  refine ⟨?_, ?_, ?_, hlocated⟩
  · rw [hslide _ 1 _ rfl rfl]
    decide +kernel
  · rw [hstep _ 1 _ _ 1 _ rfl rfl rfl rfl]
    decide +kernel
  · rw [hpulse]
    decide +kernel

end Topic

end Slideshow

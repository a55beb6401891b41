/-
  Slideshow.Proofs.Topic.Checks

  What the check of a field lets pass, in terms of what the reader takes for the same field.
  Most checks pass exactly the values that are read and that make sense.
-/
import Slideshow.Proofs.Json.Fields
import Slideshow.Proofs.Topic.WellFormed
import Slideshow.Topic.Reader
import Slideshow.Topic.Validation

namespace Slideshow.Topic

open Json

variable {name : String} {ms : Members}

/-! ## Texts -/

/-- A required text passes when it is read and not blank. -/
theorem requiredText_eq_nil_iff :
    requiredText name ms = [] ↔
      ∃ s, required str? (lookupIn? name ms) = some s ∧ Text.Nonblank s := by
  unfold requiredText
  cases lookupIn? name ms with
  | none => simp [required]
  | some j =>
    cases j with
    | str s => simp [required, str?, Text.Nonblank]
    | _ => simp [required, str?]

theorem optionalText_eq_nil_iff :
    optionalText name ms = [] ↔ ∃ o, optional str? (lookupIn? name ms) = some o := by
  unfold optionalText
  cases lookupIn? name ms with
  | none => simp
  | some j =>
    cases j with
    | null => simp
    | _ => simp [optional_some, str?]

/-- A label may be anything that is spelled out, but no truth value. -/
theorem optionalLabel_eq_nil_iff :
    optionalLabel name ms = [] ↔
      (∃ o, optional spelling? (lookupIn? name ms) = some o) ∧
        ∀ b, lookupIn? name ms ≠ some (.bool b) := by
  unfold optionalLabel optionalText
  cases lookupIn? name ms with
  | none => simp
  | some j =>
    cases j with
    | null => simp
    | _ => simp [optional_some, spelling?]

/-! ## Times and curves -/

theorem isTime_iff {x : Float} : (x.isFinite && decide (0 ≤ x)) = true ↔ IsTime x := by
  rw [Bool.and_eq_true, decide_eq_true_iff, IsTime]

/-- A number that is a length of time can be read. -/
theorem float?_of_isTime {n : Number} (h : IsTime n.toFloat) :
    float? (.num n) = some n.toFloat := by
  cases n with
  | int i => rfl
  | float x => exact if_pos h.1

/-- A time passes when it is read, and is finite and not negative where it is given. -/
theorem optionalTime_eq_nil_iff :
    optionalTime name ms = [] ↔
      ∃ t, optional float? (lookupIn? name ms) = some t ∧ ∀ x ∈ t, IsTime x := by
  unfold optionalTime
  cases lookupIn? name ms with
  | none => simp
  | some j =>
    cases j with
    | null => simp
    | num n =>
      rw [optional_some (j := .num n) nofun]
      by_cases htime : IsTime n.toFloat
      · -- the check looks at the float, the reader at the number it comes from
        refine iff_of_true (if_pos (isTime_iff.2 htime)) ⟨some n.toFloat, ?_, ?_⟩
        · rw [float?_of_isTime htime, Option.map_some]
        · intro x hx
          exact Option.some.inj hx ▸ htime
      · refine iff_of_false ?_ ?_
        · show ¬ (if _ then _ else _) = _
          rw [if_neg fun h => htime (isTime_iff.1 h)]
          nofun
        · rintro ⟨t, ht, htimes⟩
          obtain ⟨x, hx, rfl⟩ := Option.map_eq_some_iff.1 ht
          simp only [float?, Option.ite_none_right_eq_some, Option.some.injEq] at hx
          exact htime (hx.2 ▸ htimes x rfl)
    | _ => simp [optional_some, float?]

theorem optionalEase_eq_nil_iff :
    optionalEase ms = [] ↔ ∃ e, optional Ease.ofJson? (lookupIn? "ease" ms) = some e := by
  unfold optionalEase
  cases lookupIn? "ease" ms with
  | none => simp
  | some j =>
    cases j with
    | null => simp
    | str s => cases hname : Ease.ofName? s <;> simp [optional_some, Ease.ofJson?, str?, hname]
    | _ => simp [optional_some, Ease.ofJson?, str?]

/-! ## Components -/

theorem isSome_component_iff {j : Json} :
    (ComponentValue.ofJson? j).isSome = true ↔ ∃ v, ComponentValue.ofJson j = .ok v := by
  unfold ComponentValue.ofJson?
  cases ComponentValue.ofJson j <;> simp [Except.toOption]

/-- Components may be `null` for the check, but not for the reader. -/
theorem optionalComponents_eq_nil_iff :
    optionalComponents name ms = [] ↔
      lookupIn? name ms = some .null ∨
        ∃ d, withDefault .empty (dictOf? ComponentValue.ofJson?) (lookupIn? name ms) =
          some d := by
  unfold optionalComponents
  cases lookupIn? name ms with
  | none => simp [withDefault]
  | some j =>
    cases j with
    | null => simp
    | obj es =>
      have hread : (∃ d, dictOf? ComponentValue.ofJson? (.obj es) = some d) ↔
          ∀ e ∈ es, ∃ v, ComponentValue.ofJson e.2 = .ok v := by
        rw [← Option.isSome_iff_exists, isSome_dictOf?_iff]
        simp only [isSome_component_iff]
      simp only [withDefault, Option.some.injEq, reduceCtorEq, false_or, hread,
        List.filterMap_eq_nil_iff]
      refine forall₂_congr fun e _ => ?_
      cases ComponentValue.ofJson e.2 <;> simp
    | _ => simp [withDefault, dictOf?]

/-! ## Numbers -/

theorem isNum_iff {j : Json} : j.isNum = true ↔ ∃ n, j = .num n := by
  cases j <;> simp [isNum]

theorem float?_of_wellFormed {j : Json} (h : j.WellFormed) (hnum : j.isNum = true) :
    (float? j).isSome = true := by
  obtain ⟨n, rfl⟩ := isNum_iff.1 hnum
  cases n with
  | int i => rfl
  | float x =>
    rw [Json.WellFormed, Number.WellFormed] at h
    rw [float?, Number.isFinite, if_pos h]
    rfl

/-- The numbers of an array, when there are as many as asked for. -/
theorem exists_numbers {count : Nat} {j : Json} (hj : j.WellFormed)
    (h : isNumbers count (some j) = true) :
    ∃ xs, listOf? float? j = some xs ∧ xs.length = count := by
  cases j with
  | arr js =>
    rw [isNumbers, Bool.and_eq_true, beq_iff_eq, List.all_eq_true] at h
    have hsome : (js.mapM float?).isSome = true :=
      isSome_mapM_iff.2 fun x hx => float?_of_wellFormed (hj.item hx) (h.2 x hx)
    obtain ⟨xs, hxs⟩ := Option.isSome_iff_exists.1 hsome
    refine ⟨xs, hxs, ?_⟩
    have hlength := congrArg List.length (mapM_eq_some_iff.1 hxs)
    rw [List.length_map, List.length_map, h.1] at hlength
    exact hlength.symm
  | _ => cases h

theorem exists_frame {j : Json} (hj : j.WellFormed) (h : isNumbers 4 (some j) = true) :
    ∃ frame, Frame.ofJson? j = some frame := by
  obtain ⟨xs, hxs, hlength⟩ := exists_numbers hj h
  match xs, hlength with
  | [x, y, w, height], _ =>
    rw [Frame.ofJson?, hxs]
    exact ⟨_, rfl⟩

theorem exists_point {j : Json} (hj : j.WellFormed) (h : isNumbers 2 (some j) = true) :
    ∃ point, Point.ofJson? j = some point := by
  obtain ⟨xs, hxs, hlength⟩ := exists_numbers hj h
  match xs, hlength with
  | [x, y], _ =>
    rw [Point.ofJson?, hxs]
    exact ⟨_, rfl⟩

theorem repetitionProblems_eq_nil_iff :
    repetitionProblems ms = [] ↔
      ∃ r, optional count? (lookupIn? "repeat" ms) = some r ∧
        ∀ n ∈ r, n ≤ Directive.maxRepetitions := by
  unfold repetitionProblems given?
  cases lookupIn? "repeat" ms with
  | none => simp
  | some j =>
    cases j with
    | null => simp
    | num n =>
      cases hn : n.toNat? with
      | none => simp [optional_some, count?, num?, hn]
      | some k =>
        have hread : optional count? (some (.num n)) =
            if k < Nat.pow 2 32 then some (some k) else none := by
          rw [optional_some (j := .num n) Json.noConfusion, count?, hn]
          by_cases hk : k < Nat.pow 2 32 <;> simp [Option.filter, hk]
        rw [hread]
        simp only [num?, Option.bind_some, hn]
        -- the bound of the check is far below what the reader can hold
        by_cases hk : k ≤ Directive.maxRepetitions
        · have hsmall : k < Nat.pow 2 32 := Nat.lt_of_le_of_lt hk (by decide)
          refine iff_of_true (if_neg (Nat.not_lt.2 hk)) ⟨some k, if_pos hsmall, ?_⟩
          intro m hm
          exact Option.some.inj hm ▸ hk
        · refine iff_of_false ?_ ?_
          · rw [if_pos (Nat.lt_of_not_le hk)]
            exact List.cons_ne_nil _ _
          · rintro ⟨r, hr, hall⟩
            split at hr
            · exact hk (hall k (Option.some.inj hr ▸ rfl))
            · cases hr
    | _ => simp [optional_some, count?, num?]

/-! ## Attributes -/

/-- Attributes are read under either name, as long as only one is used. -/
theorem attributeProblems_eq_nil_iff :
    attributeProblems ms = [] ↔
      ∃ values, required (dictOf? spelling?) (lookupAny? ["attributes", "attrs"] ms) =
        some values ∧ values.isEmpty = false := by
  unfold attributeProblems
  rw [lookupAny?_two]
  cases (lookupIn? "attributes" ms).or (lookupIn? "attrs" ms) with
  | none => simp [required]
  | some j =>
    cases j with
    | obj es =>
      have hread : (∃ values, required (dictOf? spelling?) (some (.obj es)) = some values ∧
          values.isEmpty = false) ↔ es ≠ [] ∧ ∀ e ∈ es, (spelling? e.2).isSome = true := by
        rw [← isSome_dictOf?_iff, Option.isSome_iff_exists]
        refine ⟨fun ⟨values, hvalues, hsome⟩ => ?_, fun ⟨hes, values, hvalues⟩ => ?_⟩
        · rw [isEmpty_of_dictOf? hvalues] at hsome
          exact ⟨List.isEmpty_eq_false_iff.1 hsome, values, hvalues⟩
        · refine ⟨values, hvalues, ?_⟩
          rw [isEmpty_of_dictOf? hvalues]
          exact List.isEmpty_eq_false_iff.2 hes
      rw [hread]
      cases es with
      | nil => simp
      | cons e es =>
        simp only [List.filterMap_eq_nil_iff, ne_eq, reduceCtorEq, not_false_eq_true, true_and]
        refine forall₂_congr fun e _ => ?_
        cases spelling? e.2 <;> simp
    | _ => simp [required, dictOf?]

/-! ## Items -/

theorem inside_eq_nil_iff {path : List Place} {ps : List Problem} :
    Problem.inside path ps = [] ↔ ps = [] :=
  List.map_eq_nil_iff

theorem itemProblems_eq_nil_iff {check : Json → List Problem} {i : Nat} {js : List Json} :
    itemProblems name check i js = [] ↔ ∀ j ∈ js, check j = [] := by
  induction js generalizing i with
  | nil => exact iff_of_true rfl nofun
  | cons j js ih =>
    rw [itemProblems, List.append_eq_nil_iff, inside_eq_nil_iff, ih, List.forall_mem_cons]

/-- A field that must hold a list with items, which are checked together. -/
theorem someItems_eq_nil_iff {field : Option Json} {missing other : Problem}
    {checkAll : List Json → List Problem} :
    (match field with
      | some (.arr []) => [missing]
      | some (.arr js) => checkAll js
      | _ => [other]) = [] ↔
      ∃ js, field = some (.arr js) ∧ js ≠ [] ∧ checkAll js = [] := by
  cases field with
  | none => simp
  | some j =>
    cases j with
    | arr js => cases js <;> simp
    | _ => simp

theorem packetPaths_eq_nil_iff :
    packetPaths ms = [] ↔
      ∃ js, lookupIn? "paths" ms = some (.arr js) ∧ js ≠ [] ∧ ∀ j ∈ js, pathProblems j = [] := by
  rw [packetPaths]
  refine someItems_eq_nil_iff.trans (exists_congr fun js => ?_)
  rw [itemProblems_eq_nil_iff]

/-! ## Items with ids -/

theorem id?_obj (ms : Members) : id? (.obj ms) = required str? (lookupIn? "id" ms) := by
  show (lookupIn? "id" ms).bind str? = _
  cases lookupIn? "id" ms <;> rfl

theorem repeated_eq_nil_iff {seen : List String} {cause : String → Cause} {j : Json} :
    repeated seen cause j = [] ↔ ∀ id ∈ id? j, id ∉ seen := by
  unfold repeated
  cases id? j with
  | none => exact iff_of_true rfl nofun
  | some id => simp

/-- Items pass together when each does by itself and their ids differ from one another and
    from those seen before. -/
theorem distinctProblems_eq_nil_iff {check : List String → Json → List Problem}
    (hcheck : ∀ seen j, check seen j = [] ↔ check [] j = [] ∧ ∀ id ∈ id? j, id ∉ seen)
    {i : Nat} {seen : List String} {js : List Json} :
    distinctProblems name check i seen js = [] ↔
      (∀ j ∈ js, check [] j = []) ∧ (js.filterMap id?).Nodup ∧
        ∀ id ∈ js.filterMap id?, id ∉ seen := by
  induction js generalizing i seen with
  | nil => exact iff_of_true rfl ⟨nofun, List.nodup_nil, nofun⟩
  | cons j js ih =>
    rw [distinctProblems, List.append_eq_nil_iff, inside_eq_nil_iff, ih, hcheck,
      List.forall_mem_cons]
    cases hid : id? j with
    | none =>
      rw [List.filterMap_cons_none hid]
      simp [and_assoc]
    | some id =>
      rw [List.filterMap_cons_some hid, List.nodup_cons, List.forall_mem_cons]
      simp only [Option.mem_some_iff, forall_eq', Option.toList_some, List.singleton_append,
        List.mem_cons, not_or]
      -- an id is new to the rest exactly when the rest does not use it again
      constructor
      · rintro ⟨⟨hj, hnew⟩, hjs, hdistinct, hseen⟩
        exact ⟨⟨hj, hjs⟩, ⟨fun h => (hseen id h).1 rfl, hdistinct⟩, hnew,
          fun other h => (hseen other h).2⟩
      · rintro ⟨⟨hj, hjs⟩, ⟨hother, hdistinct⟩, hnew, hseen⟩
        exact ⟨⟨hj, hnew⟩, hjs, hdistinct, fun other h =>
          ⟨fun heq => hother (heq ▸ h), hseen other h⟩⟩

/-- The ids of what is read are those that the check compares. -/
theorem filterMap_id?_of_mapM {α : Type} {f : Json → Option α} {id : α → String}
    {js : List Json} {xs : List α} (h : js.mapM f = some xs)
    (hid : ∀ j ∈ js, ∀ x, f j = some x → id? j = some (id x)) :
    js.filterMap id? = xs.map id := by
  rw [mapM_eq_some_iff] at h
  induction js generalizing xs with
  | nil =>
    cases xs with
    | nil => rfl
    | cons x xs => cases h
  | cons j js ih =>
    cases xs with
    | nil => cases h
    | cons x xs =>
      obtain ⟨hj, hjs⟩ := List.cons.inj h
      rw [List.filterMap_cons_some (hid j List.mem_cons_self x hj), List.map_cons,
        ih hjs fun j' hj' => hid j' (List.mem_cons_of_mem _ hj')]

/-! ## Records -/

theorem captionProblems_eq_nil_iff :
    captionProblems ms = [] ↔
      ∃ ui, lookupIn? "ui" ms = some (.obj ui) ∧ requiredText "title" ui = [] ∧
        requiredText "phase" ui = [] ∧ optionalText "phaseExplanation" ui = [] ∧
        optionalText "description" ui = [] ∧ optionalText "noteTitle" ui = [] ∧
        optionalText "note" ui = [] := by
  unfold captionProblems
  cases lookupIn? "ui" ms with
  | none => simp
  | some j =>
    cases j with
    | obj ui => simp [inside_eq_nil_iff]
    | _ => simp

theorem stepProblems_obj_eq_nil_iff {seen : List String} :
    stepProblems seen (.obj ms) = [] ↔
      requiredText "id" ms = [] ∧ (∀ id ∈ id? (.obj ms), id ∉ seen) ∧ captionProblems ms = [] ∧
        animationProblems ms = [] ∧ optionalComponents "finalState" ms = [] := by
  simp only [stepProblems, List.append_eq_nil_iff, repeated_eq_nil_iff, and_assoc]

/-- A step depends on the steps before it by its id alone. -/
theorem stepProblems_eq_nil_iff (seen : List String) (j : Json) :
    stepProblems seen j = [] ↔ stepProblems [] j = [] ∧ ∀ id ∈ id? j, id ∉ seen := by
  cases j with
  | obj ms =>
    rw [stepProblems_obj_eq_nil_iff, stepProblems_obj_eq_nil_iff]
    simp only [List.not_mem_nil, not_false_eq_true, implies_true, true_and]
    constructor
    · rintro ⟨hid, hnew, hrest⟩
      exact ⟨⟨hid, hrest⟩, hnew⟩
    · rintro ⟨⟨hid, hrest⟩, hnew⟩
      exact ⟨hid, hnew, hrest⟩
  | _ => exact iff_of_false nofun fun h => nomatch h.1

theorem stepsProblems_eq_nil_iff :
    stepsProblems ms = [] ↔
      ∃ js, lookupIn? "steps" ms = some (.arr js) ∧ js ≠ [] ∧
        (∀ j ∈ js, stepProblems [] j = []) ∧ (js.filterMap id?).Nodup := by
  rw [stepsProblems]
  refine someItems_eq_nil_iff.trans (exists_congr fun js => ?_)
  rw [distinctProblems_eq_nil_iff stepProblems_eq_nil_iff]
  simp

theorem slideProblems_obj_eq_nil_iff {seen : List String} :
    slideProblems seen (.obj ms) = [] ↔
      requiredText "id" ms = [] ∧ (∀ id ∈ id? (.obj ms), id ∉ seen) ∧
        requiredText "title" ms = [] ∧ requiredText "diagram" ms = [] ∧
        optionalComponents "components" ms = [] ∧ stepsProblems ms = [] := by
  simp only [slideProblems, List.append_eq_nil_iff, repeated_eq_nil_iff, and_assoc]

/-- A slide depends on the slides before it by its id alone. -/
theorem slideProblems_eq_nil_iff (seen : List String) (j : Json) :
    slideProblems seen j = [] ↔ slideProblems [] j = [] ∧ ∀ id ∈ id? j, id ∉ seen := by
  cases j with
  | obj ms =>
    rw [slideProblems_obj_eq_nil_iff, slideProblems_obj_eq_nil_iff]
    simp only [List.not_mem_nil, not_false_eq_true, implies_true, true_and]
    constructor
    · rintro ⟨hid, hnew, hrest⟩
      exact ⟨⟨hid, hrest⟩, hnew⟩
    · rintro ⟨⟨hid, hrest⟩, hnew⟩
      exact ⟨hid, hnew, hrest⟩
  | _ => exact iff_of_false nofun fun h => nomatch h.1

theorem slidesProblems_eq_nil_iff :
    slidesProblems ms = [] ↔
      ∃ js, lookupIn? "slides" ms = some (.arr js) ∧ js ≠ [] ∧
        (∀ j ∈ js, slideProblems [] j = []) ∧ (js.filterMap id?).Nodup := by
  rw [slidesProblems]
  refine someItems_eq_nil_iff.trans (exists_congr fun js => ?_)
  rw [distinctProblems_eq_nil_iff slideProblems_eq_nil_iff]
  simp

theorem problems_eq_nil_iff {j : Json} :
    problems j = [] ↔
      ∃ ms, j = .obj ms ∧ requiredText "id" ms = [] ∧ requiredText "title" ms = [] ∧
        slidesProblems ms = [] := by
  cases j with
  | obj ms => simp [problems]
  | _ => simp [problems]

/-! ## What is read where the check passes -/

theorem nonblank_of_read {s : String} (hcheck : requiredText name ms = [])
    (hread : required str? (lookupIn? name ms) = some s) : Text.Nonblank s := by
  obtain ⟨s', hs', hnonblank⟩ := requiredText_eq_nil_iff.1 hcheck
  rw [hread] at hs'
  exact Option.some.inj hs' ▸ hnonblank

theorem isTime_of_read {t : Option Float} (hcheck : optionalTime name ms = [])
    (hread : Json.optional float? (lookupIn? name ms) = some t) : ∀ x ∈ t, IsTime x := by
  obtain ⟨t', ht', htimes⟩ := optionalTime_eq_nil_iff.1 hcheck
  rw [hread] at ht'
  exact Option.some.inj ht' ▸ htimes

end Slideshow.Topic

/-
  Slideshow.Proofs.Topic.Paths

  The ways of packets. A path that can be read, in either of its spellings, passes the check
  exactly when it is well-formed.
-/
import Slideshow.Proofs.Topic.Checks
import Slideshow.Proofs.Topic.Reading

namespace Slideshow

open Json

/-! ## Texts without blank ends -/

/-- What is left when blank ends are cut off is not blank, unless nothing is left. -/
theorem Text.trim_eq_nil_of_blank {cs : List Char} (h : (trim cs).all isBlank = true) :
    trim cs = [] := by
  rw [trim, List.all_reverse] at h
  rw [trim, List.reverse_eq_nil_iff]
  cases hcut : trimLeft (trimLeft cs).reverse with
  | nil => rfl
  | cons c rest =>
    -- the first character that is kept is not blank
    have hfirst := List.head?_dropWhile_not isBlank (trimLeft cs).reverse
    rw [hcut, List.all_cons, Bool.and_eq_true] at h
    rw [← skip, ← trimLeft, hcut, List.head?_cons] at hfirst
    simp [h.1] at hfirst

theorem Text.nonblank_ofList_trim {cs : List Char} (h : String.ofList (trim cs) ≠ "") :
    Nonblank (String.ofList (trim cs)) := by
  rw [Nonblank, isBlankText, String.toList_ofList, Bool.eq_false_iff]
  intro hblank
  exact h (congrArg String.ofList (trim_eq_nil_of_blank hblank))

/-! ## Reading paths -/

namespace PathSpec

/-- A compact path names a path. -/
theorem nonblank_of_ofText {s : String} {p : PathSpec Float} (h : ofText s = .ok p) :
    Text.Nonblank p.path := by
  simp only [ofText, bind, Except.bind] at h
  split at h
  · cases h
  · rename_i hpath
    rw [Bool.or_eq_true, not_or, beq_iff_eq, beq_iff_eq] at hpath
    split at h
    · cases h
    · split at h
      · cases h
      · split at h
        · cases h
        · split at h
          · cases h
          · cases h
            exact Text.nonblank_ofList_trim hpath.1

theorem ofJson?_str_eq_some_iff {s : String} {p : PathSpec Float} :
    ofJson? (.str s) = some p ↔ ofText s = .ok p := by
  rw [ofJson?]
  cases ofText s <;> simp [Except.toOption]

end PathSpec

/-! ## Checking paths -/

namespace Topic

variable {name what : String} {ms : Members} {p : PathSpec Float}

theorem outside_eq_nil_iff {x : Float} : outside what x = [] ↔ IsFraction x := by
  rw [outside, IsFraction]
  simp

theorem pathNumber_of_optional {o : Option Float}
    (h : Json.optional float? (lookupIn? what ms) = some o) : pathNumber what ms = [] := by
  rw [pathNumber, given?]
  cases hfield : lookupIn? what ms with
  | none => rfl
  | some j =>
    cases j with
    | null => rfl
    | num n => rfl
    | _ => simp [hfield, optional_some, float?] at h

theorem exists_optional_of_pathNumber (hms : (obj ms).WellFormed) (h : pathNumber what ms = []) :
    ∃ o, Json.optional float? (lookupIn? what ms) = some o := by
  rw [← Option.isSome_iff_exists, isSome_optional_iff]
  intro j hj hnull
  rw [pathNumber, given?, hj] at h
  have hnum : j.isNum = true := by
    cases j with
    | null => exact absurd rfl hnull
    | num n => rfl
    | _ => cases h
  exact float?_of_wellFormed (hms.lookup hj) hnum

theorem pathProblems_str_eq_nil_iff {s : String} (h : PathSpec.ofText s = .ok p) :
    pathProblems (.str s) = [] ↔ p.WellFormed := by
  have hwell : p.WellFormed ↔
      (IsFraction p.start ∧ IsFraction p.stop) ∧ ∀ x ∈ p.duration, IsTime x :=
    ⟨fun hp => ⟨⟨hp.start, hp.stop⟩, hp.duration⟩,
      fun hp => ⟨PathSpec.nonblank_of_ofText h, hp.1.1, hp.1.2, hp.2⟩⟩
  rw [hwell]
  simp only [pathProblems, h, List.append_eq_nil_iff, outside_eq_nil_iff]
  refine and_congr_right fun _ => ?_
  cases p.duration with
  | none =>
    refine iff_of_true rfl fun d hd => ?_
    cases hd
  | some d => simp [IsTime]

theorem pathProblems_obj_eq_nil_iff (h : PathSpec.ofJson? (.obj ms) = some p) :
    pathProblems (.obj ms) = [] ↔ p.WellFormed := by
  obtain ⟨-, hpath, ⟨start, hstart, -⟩, ⟨stop, hstop, -⟩, hduration, hease⟩ :=
    PathSpec.ofJson?_obj_eq_some_iff.1 h
  have htext : requiredText "path" ms = [] ↔ Text.Nonblank p.path := by
    rw [requiredText_eq_nil_iff, hpath]
    simp
  have htime : optionalTime "duration" ms = [] ↔ ∀ x ∈ p.duration, IsTime x := by
    rw [optionalTime_eq_nil_iff, hduration]
    simp
  simp only [pathProblems, h, List.append_eq_nil_iff, outside_eq_nil_iff, htext, htime,
    pathNumber_of_optional hstart, pathNumber_of_optional hstop,
    optionalEase_eq_nil_iff.2 ⟨_, hease⟩]
  constructor
  · rintro ⟨⟨⟨⟨⟨hpath, -⟩, -⟩, hduration⟩, -⟩, hstart, hstop⟩
    exact ⟨hpath, hstart, hstop, hduration⟩
  · intro hp
    exact ⟨⟨⟨⟨⟨hp.path, trivial⟩, trivial⟩, hp.duration⟩, trivial⟩, hp.start, hp.stop⟩

/-- A path passes the check exactly when what is read of it is well-formed. -/
theorem pathProblems_eq_nil_iff {j : Json} (h : PathSpec.ofJson? j = some p) :
    pathProblems j = [] ↔ p.WellFormed := by
  cases j with
  | str s => exact pathProblems_str_eq_nil_iff (PathSpec.ofJson?_str_eq_some_iff.1 h)
  | obj ms => exact pathProblems_obj_eq_nil_iff h
  | _ => cases h

/-- A path that passes the check can be read. -/
theorem exists_path {j : Json} (hj : j.WellFormed) (h : pathProblems j = []) :
    ∃ p, PathSpec.ofJson? j = some p := by
  cases j with
  | str s =>
    cases htext : PathSpec.ofText s with
    | ok p => exact ⟨p, PathSpec.ofJson?_str_eq_some_iff.2 htext⟩
    | error problem =>
      rw [pathProblems, htext] at h
      cases h
  | obj ms =>
    -- the ends are not looked at here: they are checked only after a path was read
    simp only [pathProblems, List.append_eq_nil_iff] at h
    obtain ⟨⟨⟨⟨⟨hpath, hstart⟩, hstop⟩, hduration⟩, hease⟩, -⟩ := h
    obtain ⟨path, hpath, -⟩ := requiredText_eq_nil_iff.1 hpath
    obtain ⟨start, hstart⟩ := exists_optional_of_pathNumber hj hstart
    obtain ⟨stop, hstop⟩ := exists_optional_of_pathNumber hj hstop
    obtain ⟨duration, hduration, -⟩ := optionalTime_eq_nil_iff.1 hduration
    obtain ⟨ease, hease⟩ := optionalEase_eq_nil_iff.1 hease
    have hone : Unambiguous [["path"], ["start"], ["end"], ["duration"], ["ease"]] ms :=
      unambiguous_of_singles hj.sorted (by simp)
    exact ⟨⟨path, start.getD 0, stop.getD 1, duration, ease⟩,
      PathSpec.ofJson?_obj_eq_some_iff.2
        ⟨hone, hpath, ⟨start, hstart, rfl⟩, ⟨stop, hstop, rfl⟩, hduration, hease⟩⟩
  | _ => cases h

end Topic

end Slideshow

/-
  Slideshow.Proofs.Json.Canonical

  The normal form of what is written. Sorting the members of an object changes no lookup, so
  a record finds in its normal form the fields that were there.
-/
import Slideshow.Proofs.Json.Members

namespace Slideshow.Json

/-! ## Normal forms of the parts -/

theorem canonicalItems_eq (xs : List Json) : canonicalItems xs = xs.map canonical := by
  induction xs with
  | nil => rfl
  | cons x xs ih => rw [canonicalItems, ih, List.map_cons]

theorem canonicalMembers_eq (ms done : List (String × Json)) :
    canonicalMembers ms done = Dict.ofList (done ++ ms.map fun m => (m.1, m.2.canonical)) := by
  induction ms generalizing done with
  | nil => rw [canonicalMembers, List.map_nil, List.append_nil]
  | cons m ms ih =>
    obtain ⟨key, j⟩ := m
    rw [canonicalMembers, ih, List.map_cons, List.append_assoc, List.singleton_append]

@[simp] theorem canonical_ofFloat (x : Float) : (ofFloat x).canonical = ofFloat x := rfl

theorem canonical_arr (xs : List Json) : (arr xs).canonical = arr (xs.map canonical) := by
  rw [canonical, canonicalItems_eq]

theorem canonical_arr_map {α : Type} (write : α → Json) (xs : List α) :
    (arr (xs.map write)).canonical = arr (xs.map fun x => (write x).canonical) := by
  rw [canonical_arr, List.map_map]
  rfl

theorem canonical_obj (ms : List (String × Json)) :
    (obj ms).canonical = obj (Dict.ofList (ms.map fun m => (m.1, m.2.canonical))).entries := by
  rw [canonical, canonicalMembers_eq, List.nil_append]

/-- A mapping is written in normal form already, but for its values. -/
theorem canonical_ofDict {α : Type} (encode : α → Json) (d : Dict α) :
    (ofDict encode d).canonical =
      obj (d.entries.map fun e => (e.1, (encode e.2).canonical)) := by
  have hsorted : SortedKeys (d.entries.map fun e => (e.1, (encode e.2).canonical)) :=
    Dict.sortedKeys_map (fun x => (encode x).canonical) d.sorted
  rw [ofDict, canonical_obj, List.map_map]
  exact congrArg obj (Dict.entries_ofList_of_sorted hsorted)

/-! ## Objects and records -/

/-- The normal form of an object has sorted members, and finds the normal forms of what the
    object has. -/
theorem exists_canonical_obj {j : Json} {ms : List (String × Json)} (hj : j = obj ms)
    (h : (ms.map (·.1)).Nodup) :
    ∃ es, j.canonical = obj es ∧ SortedKeys es ∧
      ∀ key, lookupIn? key es = (lookupIn? key ms).map canonical := by
  subst hj
  refine ⟨_, canonical_obj ms, (Dict.ofList _).sorted, fun key => ?_⟩
  -- the values change, the keys do not
  have hkeys : ((ms.map fun m => (m.1, m.2.canonical)).map (·.1)).Nodup := by
    rw [List.map_map]
    exact h
  exact (Dict.get?_ofList hkeys key).trans (Dict.lookupIn?_map canonical key ms)

theorem keys_present_sublist (fs : List (String × Option Json)) :
    ((present fs).map (·.1)).Sublist (fs.map (·.1)) := by
  induction fs with
  | nil => exact .slnil
  | cons f fs ih =>
    obtain ⟨key, field⟩ := f
    cases field with
    | none => exact ih.cons key
    | some j => exact ih.cons_cons key

theorem lookupIn?_present {fs : List (String × Option Json)} (h : (fs.map (·.1)).Nodup)
    (key : String) : lookupIn? key (present fs) = (lookupIn? key fs).join := by
  induction fs with
  | nil => rfl
  | cons f fs ih =>
    obtain ⟨hnew, hfs⟩ := List.nodup_cons.1 h
    have hrest := ih hfs
    obtain ⟨name, field⟩ := f
    rw [lookupIn?]
    by_cases hkey : name = key
    · subst hkey
      rw [if_pos rfl]
      cases field with
      | none =>
        -- the field is dropped, and no other has its name
        refine hrest.trans ?_
        rw [Dict.lookupIn?_tail h]
        rfl
      | some j => exact if_pos rfl
    · rw [if_neg hkey]
      cases field with
      | none => exact hrest
      | some j => exact (if_neg hkey).trans hrest

/-- The normal form of a record has sorted members, and finds the normal forms of the fields
    that are there. -/
theorem exists_canonical_record {j : Json} {fs : List (String × Option Json)}
    (hj : j = record fs) (h : (fs.map (·.1)).Nodup) :
    ∃ es, j.canonical = obj es ∧ SortedKeys es ∧
      ∀ key, lookupIn? key es = (lookupIn? key fs).join.map canonical := by
  obtain ⟨es, hes, hsorted, hlookup⟩ :=
    exists_canonical_obj hj (h.sublist (keys_present_sublist fs))
  refine ⟨es, hes, hsorted, fun key => ?_⟩
  rw [hlookup, lookupIn?_present h]

end Slideshow.Json

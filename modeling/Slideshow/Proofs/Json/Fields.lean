/-
  Slideshow.Proofs.Json.Fields

  When the value of a field can be read: fields that must be there, fields that may be absent
  or `null`, arrays read item by item and objects read member by member.
-/
import Slideshow.Proofs.Json.Members

namespace Slideshow

/-! ## Reading item by item -/

section

variable {α β : Type} {f : α → Option β}

/-- All items are read, and each gives the item in its place. -/
theorem mapM_eq_some_iff {xs : List α} {ys : List β} :
    xs.mapM f = some ys ↔ xs.map f = ys.map some := by
  induction xs generalizing ys with
  | nil => cases ys <;> simp
  | cons x xs ih =>
    rw [List.mapM_cons, List.map_cons]
    cases hx : f x with
    | none => cases ys <;> simp
    | some y =>
      cases hxs : xs.mapM f with
      | none =>
        refine iff_of_false nofun fun h => ?_
        cases ys with
        | nil => cases h
        | cons y' ys => exact nomatch hxs.symm.trans (ih.2 (List.cons.inj h).2)
      | some ys' =>
        have hmap := ih.1 hxs
        cases ys with
        | nil => simp
        | cons y' ys =>
          rw [hmap, List.map_cons, List.cons.injEq, List.map_inj_right fun _ _ => Option.some.inj]
          simp

theorem mem_of_mapM {xs : List α} {ys : List β} (h : xs.mapM f = some ys) {y : β}
    (hy : y ∈ ys) : ∃ x ∈ xs, f x = some y := by
  have hmem : some y ∈ xs.map f := mapM_eq_some_iff.1 h ▸ List.mem_map_of_mem hy
  exact List.mem_map.1 hmem

theorem isSome_mapM_iff {xs : List α} :
    (xs.mapM f).isSome = true ↔ ∀ x ∈ xs, (f x).isSome = true := by
  induction xs with
  | nil => exact iff_of_true rfl nofun
  | cons x xs ih =>
    rw [List.mapM_cons, List.forall_mem_cons, ← ih]
    cases f x <;> cases xs.mapM f <;> simp

/-- What is written item by item is read back when every item is. -/
theorem mapM_map_eq_some {g : β → α} {ys : List β} (h : ∀ y ∈ ys, f (g y) = some y) :
    (ys.map g).mapM f = some ys := by
  rw [mapM_eq_some_iff, List.map_map]
  exact List.map_congr_left h

end

namespace Json

variable {α : Type} {decode : Json → Option α}

/-! ## Fields -/

theorem required_eq_some_iff {field : Option Json} {x : α} :
    required decode field = some x ↔ ∃ j, field = some j ∧ decode j = some x := by
  cases field with
  | none => exact iff_of_false nofun nofun
  | some j => exact ⟨fun h => ⟨j, rfl, h⟩, fun ⟨_, hj, h⟩ => Option.some.inj hj ▸ h⟩

@[simp] theorem optional_none : optional decode none = some none := rfl

@[simp] theorem optional_null : optional decode (some null) = some none := rfl

theorem optional_some {j : Json} (h : j ≠ null) :
    optional decode (some j) = (decode j).map some := by
  cases j with
  | null => exact absurd rfl h
  | _ => rfl

/-- Where something is read from a field that may be absent, it is there. -/
theorem eq_some_of_optional {field : Option Json} {x : α}
    (h : optional decode field = some (some x)) : ∃ j, field = some j ∧ decode j = some x := by
  cases field with
  | none => cases h
  | some j =>
    by_cases hj : j = null
    · subst hj
      cases h
    · rw [optional_some hj, Option.map_eq_some_iff] at h
      obtain ⟨y, hy, hx⟩ := h
      exact ⟨j, rfl, Option.some.inj hx ▸ hy⟩

theorem isSome_optional_iff {field : Option Json} :
    (optional decode field).isSome = true ↔
      ∀ j, field = some j → j ≠ null → (decode j).isSome = true := by
  cases field with
  | none => exact iff_of_true rfl nofun
  | some j =>
    by_cases hj : j = null
    · subst hj
      exact iff_of_true rfl fun j hj hnull => absurd (Option.some.inj hj).symm hnull
    · rw [optional_some hj, Option.isSome_map]
      exact ⟨fun h _ heq _ => Option.some.inj heq ▸ h, fun h => h j rfl hj⟩

/-- What is written only where it is there is read back. -/
theorem optional_map {encode : α → Json} {value : Option α}
    (h : ∀ x ∈ value, encode x ≠ null ∧ decode (encode x) = some x) :
    optional decode (value.map encode) = some value := by
  cases value with
  | none => rfl
  | some x =>
    obtain ⟨hnull, hx⟩ := h x rfl
    rw [Option.map_some, optional_some hnull, hx]
    rfl

/-! ## Arrays and objects -/

theorem listOf?_eq_some_iff {j : Json} {ys : List α} :
    listOf? decode j = some ys ↔ ∃ xs, j = arr xs ∧ xs.mapM decode = some ys := by
  cases j with
  | arr xs => exact ⟨fun h => ⟨xs, rfl, h⟩, fun ⟨_, hxs, h⟩ => arr.inj hxs ▸ h⟩
  | _ => exact iff_of_false nofun nofun

theorem isSome_listOf?_iff {xs : List Json} :
    (listOf? decode (arr xs)).isSome = true ↔ ∀ x ∈ xs, (decode x).isSome = true :=
  isSome_mapM_iff

theorem isSome_dictOf?_iff {ms : List (String × Json)} :
    (dictOf? decode (obj ms)).isSome = true ↔ ∀ m ∈ ms, (decode m.2).isSome = true := by
  rw [dictOf?, Option.isSome_map, isSome_mapM_iff]
  simp only [Option.isSome_map]

/-- A mapping that is written entry by entry is read back when every value is. -/
theorem dictOf?_entries (encode : α → Json) {d : Dict α}
    (h : ∀ e ∈ d.entries, decode (encode e.2) = some e.2) :
    dictOf? decode (obj (d.entries.map fun e => (e.1, encode e.2))) = some d := by
  have hentries : (d.entries.map fun e => (e.1, encode e.2)).mapM
      (fun m => (decode m.2).map fun x => (m.1, x)) = some d.entries := by
    refine mapM_map_eq_some fun e he => ?_
    rw [h e he]
    rfl
  rw [dictOf?, hentries, Option.map_some, Dict.ofList_entries]

/-- The mapping that an object stands for is empty when the object is. -/
theorem isEmpty_of_dictOf? {ms : List (String × Json)} {d : Dict α}
    (h : dictOf? decode (obj ms) = some d) : d.isEmpty = ms.isEmpty := by
  rw [dictOf?, Option.map_eq_some_iff] at h
  obtain ⟨es, hes, rfl⟩ := h
  have hmap := congrArg List.length (mapM_eq_some_iff.1 hes)
  rw [List.length_map, List.length_map] at hmap
  rw [Dict.isEmpty_ofList]
  cases es <;> cases ms <;> first | rfl | cases hmap

end Json

end Slideshow

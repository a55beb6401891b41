/-
  Slideshow.Proofs.Dict

  The entries of mappings that are built entry by entry: lookups in two mappings merged and
  in the mapping of a list, and mappings rebuilt from their own entries.
-/
import Slideshow.Dict

namespace Slideshow

namespace Dict

variable {α : Type}

theorem mem_entries_insertMany {d : Dict α} {es : List (String × α)} {e : String × α}
    (h : e ∈ (d.insertMany es).entries) : e ∈ d.entries ∨ e ∈ es := by
  induction es generalizing d with
  | nil => exact .inl h
  | cons x xs ih =>
    rcases ih h with h | h
    · rcases mem_insertEntry h with rfl | h
      · exact .inr List.mem_cons_self
      · exact .inl h
    · exact .inr (List.mem_cons_of_mem _ h)

/-- The entries of a mapping come from the list that it was made of. -/
theorem mem_of_mem_ofList {es : List (String × α)} {e : String × α}
    (h : e ∈ (ofList es).entries) : e ∈ es := by
  rcases mem_entries_insertMany h with h | h
  · cases h
  · exact h

/-! ## Keys -/

theorem lookupIn?_eq_none {key : String} {es : List (String × α)} (h : ∀ e ∈ es, e.1 ≠ key) :
    lookupIn? key es = none := by
  induction es with
  | nil => rfl
  | cons x xs ih =>
    rw [lookupIn?, if_neg (h x List.mem_cons_self)]
    exact ih fun e he => h e (List.mem_cons_of_mem _ he)

theorem lookupIn?_map {β : Type} (f : α → β) (key : String) (es : List (String × α)) :
    lookupIn? key (es.map fun e => (e.1, f e.2)) = (lookupIn? key es).map f := by
  induction es with
  | nil => rfl
  | cons x xs ih =>
    rw [List.map_cons, lookupIn?, lookupIn?, ih]
    split <;> rfl

theorem sortedKeys_map {β : Type} (f : α → β) {es : List (String × α)} (h : SortedKeys es) :
    SortedKeys (es.map fun e => (e.1, f e.2)) :=
  List.pairwise_map.2 h

/-- A key stands in sorted entries once at most. -/
theorem nodup_keys {es : List (String × α)} (h : SortedKeys es) : (es.map (·.1)).Nodup := by
  refine (List.pairwise_map.2 h).imp ?_
  intro a b hlt heq
  rw [heq] at hlt
  exact String.lt_irrefl _ hlt

theorem lookupIn?_tail {e : String × α} {es : List (String × α)}
    (h : ((e :: es).map (·.1)).Nodup) : lookupIn? e.1 es = none := by
  refine lookupIn?_eq_none fun e' he' heq => ?_
  exact (List.nodup_cons.1 h).1 (List.mem_map.2 ⟨e', he', heq⟩)

/-! ## Merged mappings -/

theorem get?_insertMany {es : List (String × α)} (h : (es.map (·.1)).Nodup) (d : Dict α)
    (key : String) : (d.insertMany es).get? key = (lookupIn? key es).or (d.get? key) := by
  induction es generalizing d with
  | nil => rfl
  | cons x xs ih =>
    have hrest : (d.insertMany (x :: xs)).get? key =
        (lookupIn? key xs).or ((d.insert x.1 x.2).get? key) :=
      ih (List.nodup_cons.1 h).2 (d.insert x.1 x.2)
    rw [hrest, get?_insert, lookupIn?]
    by_cases hkey : x.1 = key
    · subst hkey
      rw [lookupIn?_tail h, if_pos rfl, if_pos rfl, Option.none_or, Option.some_or]
    · rw [if_neg hkey, if_neg hkey]

/-- What the later mapping has counts. -/
theorem get?_merge (d d' : Dict α) (key : String) :
    (d.insertMany d'.entries).get? key = (d'.get? key).or (d.get? key) :=
  get?_insertMany (nodup_keys d'.sorted) d key

/-- Where no key is given twice, the mapping of a list finds what the list has. -/
theorem get?_ofList {es : List (String × α)} (h : (es.map (·.1)).Nodup) (key : String) :
    (ofList es).get? key = lookupIn? key es := by
  rw [ofList, get?_insertMany h, get?_empty, Option.or_none]

/-! ## Empty mappings -/

theorem isEmpty_insert (d : Dict α) (key : String) (value : α) :
    (d.insert key value).isEmpty = false := by
  show (insertEntry key value d.entries).isEmpty = false
  cases d.entries with
  | nil => rfl
  | cons e es =>
    rw [insertEntry]
    split
    · rfl
    · split <;> rfl

theorem isEmpty_insertMany (d : Dict α) (es : List (String × α)) :
    (d.insertMany es).isEmpty = (d.isEmpty && es.isEmpty) := by
  induction es generalizing d with
  | nil => exact (Bool.and_true _).symm
  | cons x xs ih =>
    rw [List.isEmpty_cons, Bool.and_false]
    refine (ih (d.insert x.1 x.2)).trans ?_
    rw [isEmpty_insert, Bool.false_and]

theorem isEmpty_ofList (es : List (String × α)) : (ofList es).isEmpty = es.isEmpty :=
  isEmpty_insertMany empty es

theorem eq_empty_of_isEmpty {d : Dict α} (h : d.isEmpty = true) : d = empty := by
  cases d with
  | mk entries sorted =>
    cases List.isEmpty_iff.1 h
    rfl

/-! ## Sorted lists -/

theorem insertEntry_last {key : String} {value : α} {es : List (String × α)}
    (h : ∀ e ∈ es, e.1 < key) : insertEntry key value es = es ++ [(key, value)] := by
  induction es with
  | nil => rfl
  | cons x xs ih =>
    have hlt : x.1 < key := h x List.mem_cons_self
    have hne : key ≠ x.1 := fun heq => String.lt_irrefl _ (heq ▸ hlt)
    rw [insertEntry, if_neg (String.lt_asymm hlt), if_neg hne,
      ih fun e he => h e (List.mem_cons_of_mem _ he), List.cons_append]

theorem entries_insertMany_of_sorted {d : Dict α} {es : List (String × α)}
    (h : SortedKeys (d.entries ++ es)) : (d.insertMany es).entries = d.entries ++ es := by
  induction es generalizing d with
  | nil => exact (List.append_nil _).symm
  | cons x xs ih =>
    have hlast : (d.insert x.1 x.2).entries = d.entries ++ [x] := by
      refine insertEntry_last fun e he => ?_
      exact (List.pairwise_append.1 h).2.2 e he x List.mem_cons_self
    have happend : (d.insert x.1 x.2).entries ++ xs = d.entries ++ x :: xs := by
      rw [hlast, List.append_assoc, List.singleton_append]
    exact (ih (d := d.insert x.1 x.2) (happend ▸ h)).trans happend

/-- A sorted list is the list of its mapping's entries. -/
theorem entries_ofList_of_sorted {es : List (String × α)} (h : SortedKeys es) :
    (ofList es).entries = es :=
  entries_insertMany_of_sorted h

/-- A mapping is rebuilt from its entries. -/
theorem ofList_entries (d : Dict α) : ofList d.entries = d := by
  have h := entries_ofList_of_sorted d.sorted
  generalize ofList d.entries = d' at h
  cases d
  cases d'
  cases h
  rfl

end Dict

end Slideshow

/-
  Slideshow.Dict

  Mappings from names to values, kept in the order of their keys, so that a mapping has one
  written form. Main statements: `Dict.get?_insert` says what an insertion does to lookups,
  and `Dict.get?_eq_some_iff` that lookups find exactly the entries.
-/

namespace Slideshow

/-! ## Sorted entries -/

/-- The entries stand in strictly increasing order of their keys. -/
def SortedKeys {α : Type} (entries : List (String × α)) : Prop :=
  entries.Pairwise fun a b => a.1 < b.1

/-- Puts a value under a key, replacing the value that was there. -/
def insertEntry {α : Type} (key : String) (value : α) :
    List (String × α) → List (String × α)
  | [] => [(key, value)]
  | e :: es =>
    if key < e.1 then (key, value) :: e :: es
    else if key = e.1 then (key, value) :: es
    else e :: insertEntry key value es

/-- The value under a key. -/
def lookupIn? {α : Type} (key : String) : List (String × α) → Option α
  | [] => none
  | e :: es => if e.1 = key then some e.2 else lookupIn? key es

theorem mem_insertEntry {α : Type} {key : String} {value : α} {e : String × α}
    {es : List (String × α)} (h : e ∈ insertEntry key value es) :
    e = (key, value) ∨ e ∈ es := by
  induction es with
  | nil => simpa [insertEntry] using h
  | cons x xs ih =>
    unfold insertEntry at h
    split at h
    · simpa using h
    · split at h
      · rcases List.mem_cons.1 h with h | h
        · exact .inl h
        · exact .inr (List.mem_cons_of_mem _ h)
      · rcases List.mem_cons.1 h with h | h
        · exact .inr (h ▸ List.mem_cons_self)
        · exact (ih h).imp_right (List.mem_cons_of_mem _)

theorem lt_of_not_lt_of_ne {a b : String} (h : ¬ a < b) (h' : a ≠ b) : b < a := by
  rcases Decidable.em (b < a) with hb | hb
  · exact hb
  · exact absurd (String.le_antisymm (String.not_lt.1 hb) (String.not_lt.1 h)) h'

theorem sortedKeys_insertEntry {α : Type} {key : String} {value : α}
    {es : List (String × α)} (h : SortedKeys es) : SortedKeys (insertEntry key value es) := by
  induction es with
  | nil => simp [insertEntry, SortedKeys]
  | cons x xs ih =>
    obtain ⟨hx, hxs⟩ := List.pairwise_cons.1 h
    unfold insertEntry
    split
    · rename_i hlt
      refine List.pairwise_cons.2 ⟨fun e he => ?_, h⟩
      rcases List.mem_cons.1 he with rfl | he
      · exact hlt
      · exact String.lt_trans hlt (hx e he)
    · split
      · rename_i heq
        exact List.pairwise_cons.2 ⟨fun e he => heq ▸ hx e he, hxs⟩
      · rename_i hlt hne
        refine List.pairwise_cons.2 ⟨fun e he => ?_, ih hxs⟩
        rcases mem_insertEntry he with rfl | he
        · exact lt_of_not_lt_of_ne hlt hne
        · exact hx e he

/-! ## Mappings -/

/-- A mapping from names to values. -/
structure Dict (α : Type) where
  entries : List (String × α)
  sorted : SortedKeys entries

namespace Dict

variable {α : Type}

instance [DecidableEq α] : DecidableEq (Dict α) := fun a b =>
  decidable_of_iff (a.entries = b.entries)
    ⟨fun h => by cases a; cases b; cases h; rfl, fun h => h ▸ rfl⟩

/-- The mapping without entries. -/
def empty : Dict α := ⟨[], List.Pairwise.nil⟩

instance : Inhabited (Dict α) := ⟨empty⟩

/-- No key has a value. -/
def isEmpty (d : Dict α) : Bool := d.entries.isEmpty

/-- The keys in increasing order. -/
def keys (d : Dict α) : List String := d.entries.map (·.1)

/-- The value under a key. -/
def get? (d : Dict α) (key : String) : Option α := lookupIn? key d.entries

/-- Puts a value under a key; a value that was there is replaced. -/
def insert (d : Dict α) (key : String) (value : α) : Dict α :=
  ⟨insertEntry key value d.entries, sortedKeys_insertEntry d.sorted⟩

/-- Adds entries one after another; later ones replace earlier ones. -/
def insertMany (d : Dict α) (es : List (String × α)) : Dict α :=
  es.foldl (fun d e => d.insert e.1 e.2) d

/-- The mapping of a list of entries, in which later ones win. -/
def ofList (es : List (String × α)) : Dict α := empty.insertMany es

/-! ## Lookups -/

@[simp] theorem get?_empty (key : String) : (empty : Dict α).get? key = none := rfl

theorem lookupIn?_insertEntry (key k : String) (value : α) (es : List (String × α)) :
    lookupIn? k (insertEntry key value es) =
      if key = k then some value else lookupIn? k es := by
  induction es with
  | nil => simp [insertEntry, lookupIn?]
  | cons x xs ih =>
    unfold insertEntry
    split
    · simp [lookupIn?]
    · split
      · rename_i heq
        by_cases hk : key = k
        · simp [lookupIn?, hk]
        · have hx : x.1 ≠ k := heq ▸ hk
          simp [lookupIn?, hk, hx]
      · rename_i hne
        by_cases hx : x.1 = k
        · have hk : key ≠ k := fun h => hne (h.trans hx.symm)
          simp [lookupIn?, hx, hk]
        · simp [lookupIn?, hx, ih]

/-- After an insertion the key has the new value and every other key its old one. -/
theorem get?_insert (d : Dict α) (key k : String) (value : α) :
    (d.insert key value).get? k = if key = k then some value else d.get? k :=
  lookupIn?_insertEntry key k value d.entries

theorem lookupIn?_eq_some_of_mem {es : List (String × α)} (h : SortedKeys es)
    {e : String × α} (he : e ∈ es) : lookupIn? e.1 es = some e.2 := by
  induction es with
  | nil => cases he
  | cons x xs ih =>
    obtain ⟨hx, hxs⟩ := List.pairwise_cons.1 h
    rcases List.mem_cons.1 he with rfl | he
    · simp [lookupIn?]
    · have hne : x.1 ≠ e.1 := fun heq => String.lt_irrefl _ (heq ▸ hx e he)
      simp [lookupIn?, hne, ih hxs he]

theorem mem_of_lookupIn? {es : List (String × α)} {key : String} {value : α}
    (h : lookupIn? key es = some value) : (key, value) ∈ es := by
  induction es with
  | nil => cases h
  | cons x xs ih =>
    unfold lookupIn? at h
    split at h
    · rename_i hx
      cases h
      exact hx ▸ List.mem_cons_self
    · exact List.mem_cons_of_mem _ (ih h)

/-- A key has a value exactly when the pair is an entry. -/
theorem get?_eq_some_iff {d : Dict α} {key : String} {value : α} :
    d.get? key = some value ↔ (key, value) ∈ d.entries :=
  ⟨mem_of_lookupIn?, fun h => lookupIn?_eq_some_of_mem d.sorted h⟩

end Dict

end Slideshow

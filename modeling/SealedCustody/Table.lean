/-!
# Tables

A finite map as a list of entries with distinct keys, in the order in which the keys were first put.
The view of a table is `Table.get?`.
-/

namespace SealedCustody

/-- A finite map. -/
structure Table (κ α : Type) where
  entries : List (κ × α)
  nodup : (entries.map Prod.fst).Nodup

namespace Table

variable {κ α : Type} [DecidableEq κ]

/-- The table without entries. -/
def empty : Table κ α := ⟨[], List.nodup_nil⟩

instance : EmptyCollection (Table κ α) := ⟨empty⟩

instance : Inhabited (Table κ α) := ⟨empty⟩

/-- The value at a key. -/
def get? (t : Table κ α) (k : κ) : Option α :=
  (t.entries.find? fun e => e.1 = k).map Prod.snd

/-- Whether a key has a value. -/
def contains (t : Table κ α) (k : κ) : Bool := t.entries.any fun e => e.1 = k

/-- The number of entries. -/
def size (t : Table κ α) : Nat := t.entries.length

/-- The keys. -/
def keys (t : Table κ α) : List κ := t.entries.map Prod.fst

/-- The values. -/
def values (t : Table κ α) : List α := t.entries.map Prod.snd

/-- Entries with the value at a key replaced, or with the key added at the end. -/
def putEntry (k : κ) (a : α) : List (κ × α) → List (κ × α)
  | [] => [(k, a)]
  | (k', a') :: rest => if k' = k then (k, a) :: rest else (k', a') :: putEntry k a rest

theorem mem_keys_putEntry (k : κ) (a : α) (es : List (κ × α)) (x : κ) :
    x ∈ (putEntry k a es).map Prod.fst ↔ x = k ∨ x ∈ es.map Prod.fst := by
  induction es with
  | nil => simp [putEntry]
  | cons e rest ih =>
    obtain ⟨k', a'⟩ := e
    by_cases h : k' = k
    · subst h; simp [putEntry]
    · simp [putEntry, h] at ih ⊢; grind

theorem nodup_putEntry (k : κ) (a : α) {es : List (κ × α)} (h : (es.map Prod.fst).Nodup) :
    ((putEntry k a es).map Prod.fst).Nodup := by
  induction es with
  | nil => simp [putEntry]
  | cons e rest ih =>
    obtain ⟨k', a'⟩ := e
    rw [List.map_cons, List.nodup_cons] at h
    by_cases hk : k' = k
    · subst hk
      simpa [putEntry] using h
    · rw [putEntry, if_neg hk, List.map_cons, List.nodup_cons]
      refine ⟨fun hmem => ?_, ih h.2⟩
      rcases (mem_keys_putEntry k a rest k').1 hmem with h' | h'
      · exact hk h'
      · exact h.1 h'

/-- Sets the value at a key. -/
def insert (t : Table κ α) (k : κ) (a : α) : Table κ α :=
  ⟨putEntry k a t.entries, nodup_putEntry k a t.nodup⟩

/-- Removes a key. -/
def erase (t : Table κ α) (k : κ) : Table κ α :=
  ⟨t.entries.filter fun e => e.1 ≠ k,
    t.nodup.sublist (List.filter_sublist.map Prod.fst)⟩

/-- Keeps the entries whose values satisfy a condition. -/
def filterValues (t : Table κ α) (keep : α → Bool) : Table κ α :=
  ⟨t.entries.filter fun e => keep e.2, t.nodup.sublist (List.filter_sublist.map Prod.fst)⟩

/-- Changes every value. -/
def mapValues {β : Type} (t : Table κ α) (f : α → β) : Table κ β :=
  ⟨t.entries.map fun e => (e.1, f e.2), by simpa [List.map_map, Function.comp_def] using t.nodup⟩

/-! ## The view after each operation -/

@[simp, grind =]
theorem get?_empty (k : κ) : (empty : Table κ α).get? k = none := rfl

theorem find?_putEntry (k : κ) (a : α) (es : List (κ × α)) (x : κ) :
    ((putEntry k a es).find? fun e => e.1 = x).map Prod.snd =
      if k = x then some a else (es.find? fun e => e.1 = x).map Prod.snd := by
  induction es with
  | nil => by_cases hx : k = x <;> simp [putEntry, hx]
  | cons e rest ih =>
    obtain ⟨k', a'⟩ := e
    by_cases hk : k' = k
    · subst hk
      by_cases hx : k' = x <;> simp [putEntry, hx]
    · by_cases hx : k' = x
      · subst hx
        simp [putEntry, hk, Ne.symm hk]
      · simp [putEntry, hk, hx, ih]

/-- Setting a key changes the value there and nowhere else. -/
@[simp, grind =]
theorem get?_insert (t : Table κ α) (k : κ) (a : α) (x : κ) :
    (t.insert k a).get? x = if k = x then some a else t.get? x :=
  find?_putEntry k a t.entries x

theorem find?_filter_ne (k x : κ) (es : List (κ × α)) :
    ((es.filter fun e => e.1 ≠ k).find? fun e => e.1 = x) =
      if k = x then none else es.find? fun e => e.1 = x := by
  induction es with
  | nil => simp
  | cons e rest ih =>
    by_cases hk : e.1 = k
    · subst hk
      rw [List.filter_cons_of_neg (by simp), ih]
      by_cases hx : e.1 = x <;> simp [hx]
    · rw [List.filter_cons_of_pos (by simpa using hk)]
      by_cases hx : e.1 = x
      · subst hx
        simp [Ne.symm hk]
      · rw [List.find?_cons_of_neg (by simpa using hx), List.find?_cons_of_neg (by simpa using hx), ih]

/-- Removing a key leaves no value there, and all others as they are. -/
@[simp, grind =]
theorem get?_erase (t : Table κ α) (k x : κ) :
    (t.erase k).get? x = if k = x then none else t.get? x := by
  unfold get? erase
  rw [find?_filter_ne]
  split <;> rfl

theorem find?_eq_of_mem {es : List (κ × α)} (h : (es.map Prod.fst).Nodup) {e : κ × α} (he : e ∈ es) :
    (es.find? fun x => x.1 = e.1) = some e := by
  induction es with
  | nil => cases he
  | cons x rest ih =>
    rw [List.map_cons, List.nodup_cons] at h
    rcases List.mem_cons.1 he with rfl | hmem
    · rw [List.find?_cons_of_pos (by simp)]
    · have hne : x.1 ≠ e.1 := fun hx => h.1 (hx ▸ List.mem_map_of_mem hmem)
      rw [List.find?_cons_of_neg (by simpa using hne), ih h.2 hmem]

/-- A value is in the table exactly when some key has it. -/
theorem mem_values {t : Table κ α} {a : α} : a ∈ t.values ↔ ∃ k, t.get? k = some a := by
  constructor
  · intro h
    obtain ⟨e, he, rfl⟩ := List.mem_map.1 h
    exact ⟨e.1, by rw [get?, find?_eq_of_mem t.nodup he, Option.map_some]⟩
  · rintro ⟨k, h⟩
    obtain ⟨e, he, rfl⟩ := Option.map_eq_some_iff.1 h
    exact List.mem_map_of_mem (List.mem_of_find?_eq_some he)

/-- The keys are where the look-up gives a value. -/
theorem mem_keys {t : Table κ α} {k : κ} : k ∈ t.keys ↔ (t.get? k).isSome := by
  rw [get?, Option.isSome_map, List.find?_isSome]
  simp [keys]

/-- The entries are the keys with their values. -/
theorem mem_entries {t : Table κ α} {k : κ} {a : α} : (k, a) ∈ t.entries ↔ t.get? k = some a := by
  constructor
  · intro h
    rw [get?, find?_eq_of_mem t.nodup h, Option.map_some]
  · intro h
    obtain ⟨e, he, rfl⟩ := Option.map_eq_some_iff.1 h
    have hkey : e.1 = k := by simpa using List.find?_some he
    exact hkey ▸ List.mem_of_find?_eq_some he

/-- Keeping some values leaves at a key the value that was there, if it is kept. -/
@[simp, grind =]
theorem get?_filterValues (t : Table κ α) (keep : α → Bool) (k : κ) :
    (t.filterValues keep).get? k = (t.get? k).filter keep := by
  ext a
  rw [← mem_entries, filterValues, List.mem_filter, mem_entries, Option.filter_eq_some_iff]

/-- Changing every value changes the value at each key. -/
@[simp, grind =]
theorem get?_mapValues {β : Type} (t : Table κ α) (f : α → β) (k : κ) :
    (t.mapValues f).get? k = (t.get? k).map f := by
  unfold get? mapValues
  rw [List.find?_map, Option.map_map, Option.map_map]
  rfl

/-- A key has a value exactly when the look-up gives one. -/
@[grind =]
theorem contains_eq_isSome (t : Table κ α) (k : κ) : t.contains k = (t.get? k).isSome := by
  rw [Bool.eq_iff_iff]
  simp [contains, get?, List.find?_isSome]

/-! ## The entries after each operation -/

end Table

end SealedCustody

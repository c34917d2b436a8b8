/-!
# Tables

A `Table` holds at most one value for each key.  `Table.find?_insert` says what is found after a
value has been put in, and `Table.mem_entries_iff` that the entries are what is found.
-/

namespace EnergyFormula

/-- Values by key.  No key occurs twice. -/
structure Table (κ α : Type) where
  entries : List (κ × α)
  distinctKeys : (entries.map Prod.fst).Nodup

namespace Table

variable {κ α : Type}

/-- The table without a value. -/
def empty : Table κ α :=
  ⟨[], List.nodup_nil⟩

variable [DecidableEq κ]

/-- The value of a key. -/
def find? (t : Table κ α) (key : κ) : Option α :=
  t.entries.lookup key

/-- The entries with the value of a key set.  A new key comes last. -/
def setEntry (key : κ) (value : α) : List (κ × α) → List (κ × α)
  | [] => [(key, value)]
  | e :: rest => if e.1 = key then (key, value) :: rest else e :: setEntry key value rest

/-- Setting a value brings in no key but its own. -/
theorem mem_keys_setEntry {key other : κ} {value : α} {entries : List (κ × α)}
    (h : other ∈ (setEntry key value entries).map Prod.fst) :
    other = key ∨ other ∈ entries.map Prod.fst := by
  induction entries with
  | nil => exact .inl (List.mem_singleton.1 h)
  | cons e rest ih =>
    unfold setEntry at h
    split at h
    · rcases List.mem_cons.1 h with h | h
      · exact .inl h
      · exact .inr (List.mem_cons_of_mem _ h)
    · rcases List.mem_cons.1 h with h | h
      · exact .inr (List.mem_cons.2 (.inl h))
      · exact (ih h).imp_right (List.mem_cons_of_mem _)

theorem nodup_keys_setEntry {key : κ} {value : α} {entries : List (κ × α)}
    (h : (entries.map Prod.fst).Nodup) : ((setEntry key value entries).map Prod.fst).Nodup := by
  induction entries with
  | nil => exact List.nodup_cons.2 ⟨List.not_mem_nil, List.nodup_nil⟩
  | cons e rest ih =>
    have ⟨hnew, hrest⟩ := List.nodup_cons.1 h
    unfold setEntry
    split
    · rename_i hkey
      exact List.nodup_cons.2 ⟨hkey ▸ hnew, hrest⟩
    · rename_i hkey
      refine List.nodup_cons.2 ⟨fun hmem => ?_, ih hrest⟩
      rcases mem_keys_setEntry hmem with h | h
      · exact hkey h
      · exact hnew h

/-- The table with the value of a key set. -/
def insert (t : Table κ α) (key : κ) (value : α) : Table κ α :=
  ⟨setEntry key value t.entries, nodup_keys_setEntry t.distinctKeys⟩

theorem lookup_cons_of_ne {key : κ} {e : κ × α} {rest : List (κ × α)} (h : key ≠ e.1) :
    (e :: rest).lookup key = rest.lookup key := by
  rw [List.lookup_cons, beq_eq_false_iff_ne.2 h]

theorem lookup_setEntry (key other : κ) (value : α) (entries : List (κ × α)) :
    (setEntry key value entries).lookup other =
      if other = key then some value else entries.lookup other := by
  induction entries with
  | nil =>
    by_cases h : other = key
    · simp [setEntry, h]
    · rw [if_neg h, setEntry, lookup_cons_of_ne h]
  | cons e rest ih =>
    unfold setEntry
    split
    · rename_i hkey
      by_cases h : other = key
      · simp [h]
      · have hne : other ≠ e.1 := fun he => h (he.trans hkey)
        rw [if_neg h, lookup_cons_of_ne h, lookup_cons_of_ne hne]
    · rename_i hkey
      by_cases h : other = e.1
      · have hne : other ≠ key := fun hk => hkey (h.symm.trans hk)
        rw [if_neg hne, h, List.lookup_cons_self, List.lookup_cons_self]
      · rw [lookup_cons_of_ne h, lookup_cons_of_ne h, ih]

/-- A value is found under its key, and under every other key what was found before. -/
theorem find?_insert (t : Table κ α) (key other : κ) (value : α) :
    (t.insert key value).find? other = if other = key then some value else t.find? other :=
  lookup_setEntry key other value t.entries

/-- The entries of a table are what is found in it. -/
theorem mem_entries_iff {t : Table κ α} {key : κ} {value : α} :
    (key, value) ∈ t.entries ↔ t.find? key = some value := by
  obtain ⟨entries, hdistinct⟩ := t
  show (key, value) ∈ entries ↔ entries.lookup key = some value
  constructor
  · intro h
    induction entries with
    | nil => cases h
    | cons e rest ih =>
      have ⟨hnew, hrest⟩ := List.nodup_cons.1 hdistinct
      rcases List.mem_cons.1 h with rfl | h
      · simp
      · have hne : key ≠ e.1 := by
          rintro rfl
          exact hnew (List.mem_map.2 ⟨_, h, rfl⟩)
        rw [lookup_cons_of_ne hne]
        exact ih hrest h
  · intro h
    obtain ⟨before, after, rfl, _⟩ := List.lookup_eq_some_iff.1 h
    exact List.mem_append_right _ List.mem_cons_self

end Table

end EnergyFormula

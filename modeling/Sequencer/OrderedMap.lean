/-!
# Maps that keep the order of insertion

A finite map as a list of entries with distinct keys. Inserting a key that is there already replaces
its value and keeps its place; a new key goes to the end. Two maps are equal exactly when they have
the same entries in the same order.

## Main definitions

* `OrderedMap`, with `get?`, `insert`, `keys`, `ofList`, `mapValues`

## Main results

* `OrderedMap.keys_insert` — the keys after an insertion
* `OrderedMap.get?_insert` — looking up after an insertion
* `OrderedMap.mem_entries_iff` — the entries are what is found under the keys
* `OrderedMap.entries_ofList` — a list without repeated keys is the entries of its map
-/

namespace Sequencer

/-- Put a value under a key in a list of entries: in place if the key is there, else at the end. -/
def insertEntry {κ α : Type} [DecidableEq κ] (entries : List (κ × α)) (key : κ) (value : α) :
    List (κ × α) :=
  match entries with
  | [] => [(key, value)]
  | entry :: rest =>
    if entry.1 = key then (key, value) :: rest else entry :: insertEntry rest key value

/-- The keys of a list of entries after one insertion. -/
theorem map_fst_insertEntry {κ α : Type} [DecidableEq κ] (entries : List (κ × α)) (key : κ)
    (value : α) :
    (insertEntry entries key value).map Prod.fst
      = if key ∈ entries.map Prod.fst then entries.map Prod.fst else entries.map Prod.fst
        ++ [key] := by
  induction entries with
  | nil => simp [insertEntry]
  | cons entry rest ih =>
    by_cases h : entry.1 = key
    · simp [insertEntry, h]
    · have h' : ¬ key = entry.1 := fun e => h e.symm
      simp only [insertEntry, h, if_false, List.map_cons, ih, List.mem_cons, h', false_or]
      split <;> simp

theorem insertEntry_of_not_mem {κ α : Type} [DecidableEq κ] {entries : List (κ × α)} {key : κ}
    (h : key ∉ entries.map Prod.fst) (value : α) :
    insertEntry entries key value = entries ++ [(key, value)] := by
  induction entries with
  | nil => rfl
  | cons entry rest ih =>
    rw [List.map_cons, List.mem_cons, not_or] at h
    rw [insertEntry, if_neg (Ne.symm h.1), ih h.2, List.cons_append]

/-- Looking up in a list of entries after one insertion. -/
theorem lookup_insertEntry {κ α : Type} [DecidableEq κ] (entries : List (κ × α)) (key other : κ)
    (value : α) :
    (insertEntry entries key value).lookup other
      = if other = key then some value else entries.lookup other := by
  induction entries with
  | nil =>
    by_cases h : other = key
    · simp [insertEntry, h]
    · simp [insertEntry, List.lookup_cons, h, beq_false_of_ne h]
  | cons entry rest ih =>
    obtain ⟨k, v⟩ := entry
    by_cases h : k = key
    · subst h
      by_cases ho : other = k
      · simp [insertEntry, ho]
      · simp [insertEntry, List.lookup_cons, ho, beq_false_of_ne ho]
    · by_cases ho : other = k
      · subst ho
        simp [insertEntry, h]
      · simp [insertEntry, List.lookup_cons, h, beq_false_of_ne ho, ih]

section MapValues

variable {κ α β : Type} [DecidableEq κ]

theorem map_insertEntry (f : α → β) (entries : List (κ × α)) (key : κ) (value : α) :
    (insertEntry entries key value).map (fun entry => (entry.1, f entry.2))
      = insertEntry (entries.map fun entry => (entry.1, f entry.2)) key (f value) := by
  induction entries with
  | nil => rfl
  | cons entry rest ih =>
    rw [insertEntry, List.map_cons, insertEntry]
    split
    · rfl
    · rw [List.map_cons, ih]

theorem lookup_map (f : α → β) (key : κ) (entries : List (κ × α)) :
    (entries.map fun entry => (entry.1, f entry.2)).lookup key = (entries.lookup key).map f := by
  induction entries with
  | nil => rfl
  | cons entry rest ih =>
    rw [List.map_cons, List.lookup_cons, List.lookup_cons, ih]
    split <;> rfl

end MapValues

/-- A finite map with its entries in the order of insertion. -/
structure OrderedMap (κ α : Type) where
  entries : List (κ × α)
  distinct : (entries.map Prod.fst).Nodup

namespace OrderedMap

variable {κ α : Type}

/-- The map without entries. -/
def empty : OrderedMap κ α := ⟨[], by simp⟩

/-- The keys of a map, in order. -/
def keys (m : OrderedMap κ α) : List κ := m.entries.map Prod.fst

/-- The number of entries. -/
def size (m : OrderedMap κ α) : Nat := m.entries.length

/-- Apply a function to all values. -/
def mapValues {β : Type} (f : α → β) (m : OrderedMap κ α) : OrderedMap κ β where
  entries := m.entries.map fun entry => (entry.1, f entry.2)
  distinct := by
    rw [List.map_map]
    exact m.distinct

theorem ext_entries {m n : OrderedMap κ α} (h : m.entries = n.entries) : m = n := by
  cases m
  cases n
  simp_all

variable [DecidableEq κ]

/-- The value under a key. -/
def get? (m : OrderedMap κ α) (key : κ) : Option α := m.entries.lookup key

/-- Whether a key has a value. -/
def contains (m : OrderedMap κ α) (key : κ) : Bool := (m.get? key).isSome

/-- Put a value under a key. -/
def insert (m : OrderedMap κ α) (key : κ) (value : α) : OrderedMap κ α where
  entries := insertEntry m.entries key value
  distinct := by
    have h := m.distinct
    rw [map_fst_insertEntry]
    split
    · exact h
    · next hn =>
      rw [List.nodup_append]
      refine ⟨h, by simp, ?_⟩
      intro a ha b hb
      rw [List.mem_singleton.1 hb]
      exact fun e => hn (e ▸ ha)

/-- The map of a list of entries, later ones replacing earlier ones. -/
def ofList (entries : List (κ × α)) : OrderedMap κ α :=
  entries.foldl (fun m entry => m.insert entry.1 entry.2) empty

@[simp] theorem get?_empty (key : κ) : (empty : OrderedMap κ α).get? key = none := rfl

/-- A new key goes to the end; a key that is there keeps its place. -/
theorem keys_insert (m : OrderedMap κ α) (key : κ) (value : α) :
    (m.insert key value).keys = if key ∈ m.keys then m.keys else m.keys ++ [key] :=
  map_fst_insertEntry m.entries key value

theorem mem_keys_iff (m : OrderedMap κ α) (key : κ) :
    key ∈ m.keys ↔ (m.get? key).isSome = true := by
  rw [keys, get?]
  induction m.entries with
  | nil => simp
  | cons entry rest ih =>
    obtain ⟨k, v⟩ := entry
    by_cases h : key = k
    · simp [h]
    · simp [List.lookup_cons, beq_false_of_ne h, h, ih]

/-- An entry is what is found under its key, because keys are distinct. -/
theorem mem_entries_iff (m : OrderedMap κ α) (key : κ) (value : α) :
    (key, value) ∈ m.entries ↔ m.get? key = some value := by
  obtain ⟨entries, hd⟩ := m
  show (key, value) ∈ entries ↔ entries.lookup key = some value
  induction entries with
  | nil => simp
  | cons entry rest ih =>
    obtain ⟨k, v⟩ := entry
    rw [List.map_cons, List.nodup_cons] at hd
    by_cases h : key = k
    · subst h
      have hrest : (key, value) ∉ rest := fun hm => hd.1 (List.mem_map.2 ⟨_, hm, rfl⟩)
      simp [hrest, eq_comm]
    · simp [List.lookup_cons, beq_false_of_ne h, h, ih hd.2]

/-- The last value put under a key is the one found there. -/
theorem get?_insert (m : OrderedMap κ α) (key other : κ) (value : α) :
    (m.insert key value).get? other = if other = key then some value else m.get? other :=
  lookup_insertEntry m.entries key other value

theorem get?_mapValues {β : Type} (f : α → β) (m : OrderedMap κ α) (key : κ) :
    (m.mapValues f).get? key = (m.get? key).map f :=
  lookup_map f key m.entries

theorem mapValues_insert {β : Type} (f : α → β) (m : OrderedMap κ α) (key : κ) (value : α) :
    (m.insert key value).mapValues f = (m.mapValues f).insert key (f value) :=
  ext_entries (map_insertEntry f m.entries key value)

/-- Entries with new keys follow those that are there. -/
theorem entries_foldl_insert (m : OrderedMap κ α) {entries : List (κ × α)}
    (h : ((m.entries ++ entries).map Prod.fst).Nodup) :
    (entries.foldl (fun m entry => m.insert entry.1 entry.2) m).entries = m.entries ++ entries := by
  induction entries generalizing m with
  | nil => simp
  | cons entry rest ih =>
    have hnew : entry.1 ∉ m.entries.map Prod.fst := by
      rw [List.map_append, List.nodup_append] at h
      exact fun hmem => h.2.2 _ hmem entry.1 (by simp) rfl
    have hinsert : (m.insert entry.1 entry.2).entries = m.entries ++ [entry] :=
      insertEntry_of_not_mem hnew entry.2
    have hassoc : (m.insert entry.1 entry.2).entries ++ rest = m.entries ++ entry :: rest := by
      rw [hinsert, List.append_assoc, List.singleton_append]
    rw [List.foldl_cons, ih _ (by rw [hassoc]; exact h), hassoc]

/-- A list without repeated keys is the entries of its map. -/
theorem entries_ofList {entries : List (κ × α)} (h : (entries.map Prod.fst).Nodup) :
    (ofList entries).entries = entries := by
  rw [ofList, entries_foldl_insert _ (by simpa [empty] using h)]
  rfl

end OrderedMap

end Sequencer

/-!
# Named parameters

A finite map from names to values, sorted by name. Names are compared by their code points, which is
the same as comparing their UTF-8 bytes. Since the entries are sorted, two maps with the same
content are equal.

## Main definitions

* `Parameters`, with `get?`, `insert`, `ofList`, `map`
-/

namespace Sequencer

/-- Put a value under a name in a sorted list of entries. -/
def insertSorted {α : Type} (name : String) (value : α) : List (String × α) → List (String × α)
  | [] => [(name, value)]
  | entry :: rest =>
    if name < entry.1 then (name, value) :: entry :: rest
    else if name = entry.1 then (name, value) :: rest
    else entry :: insertSorted name value rest

/-- Whatever holds of a name and of all names of a list holds of all names after an insertion. -/
theorem forall_fst_insertSorted {α : Type} {p : String → Prop} {name : String} {value : α}
    {entries : List (String × α)} (hn : p name) (h : ∀ entry ∈ entries, p entry.1) :
    ∀ entry ∈ insertSorted name value entries, p entry.1 := by
  induction entries with
  | nil => simpa [insertSorted] using hn
  | cons entry rest ih =>
    have ih := ih fun e he => h e (List.mem_cons_of_mem _ he)
    have he := h entry List.mem_cons_self
    unfold insertSorted
    split
    · simp only [List.forall_mem_cons] at h ⊢
      exact ⟨hn, h⟩
    · split
      · simp only [List.forall_mem_cons] at h ⊢
        exact ⟨hn, h.2⟩
      · simp only [List.forall_mem_cons]
        exact ⟨he, ih⟩

/-- Inserting keeps a list of entries sorted. -/
theorem pairwise_insertSorted {α : Type} {name : String} {value : α} {entries : List (String × α)}
    (h : entries.Pairwise fun a b => a.1 < b.1) :
    (insertSorted name value entries).Pairwise fun a b => a.1 < b.1 := by
  induction entries with
  | nil => simp [insertSorted]
  | cons entry rest ih =>
    rw [List.pairwise_cons] at h
    unfold insertSorted
    split
    · next hlt =>
      rw [List.pairwise_cons, List.pairwise_cons]
      refine ⟨?_, h⟩
      rw [List.forall_mem_cons]
      exact ⟨hlt, fun e he => String.lt_trans hlt (h.1 e he)⟩
    · next hlt =>
      split
      · next heq =>
        rw [List.pairwise_cons]
        exact ⟨fun e he => heq ▸ h.1 e he, h.2⟩
      · next hne =>
        rw [List.pairwise_cons]
        refine ⟨forall_fst_insertSorted ?_ h.1, ih h.2⟩
        exact String.not_le.1 fun hle => hne (String.le_antisymm hle (String.not_lt.1 hlt))

/-- A finite map from names to values, sorted by name. -/
structure Parameters (α : Type) where
  entries : List (String × α)
  sorted : entries.Pairwise fun a b => a.1 < b.1

namespace Parameters

variable {α β : Type}

/-- No parameters. -/
def empty : Parameters α := ⟨[], List.Pairwise.nil⟩

/-- Put a value under a name, replacing what stood there. -/
def insert (p : Parameters α) (name : String) (value : α) : Parameters α :=
  ⟨insertSorted name value p.entries, pairwise_insertSorted p.sorted⟩

/-- Put a value under a name if there is one. -/
def insert? (p : Parameters α) (name : String) : Option α → Parameters α
  | some value => p.insert name value
  | none => p

/-- The value under a name. -/
def get? (p : Parameters α) (name : String) : Option α := p.entries.lookup name

/-- Add all entries of a list, later ones replacing earlier ones. -/
def insertAll (p : Parameters α) (entries : List (String × α)) : Parameters α :=
  entries.foldl (fun p entry => p.insert entry.1 entry.2) p

/-- The parameters of a list of entries, later ones replacing earlier ones. -/
def ofList (entries : List (String × α)) : Parameters α := empty.insertAll entries

/-- Parameters with the same names and changed values. -/
def map (f : α → β) (p : Parameters α) : Parameters β where
  entries := p.entries.map fun entry => (entry.1, f entry.2)
  sorted := by
    rw [List.pairwise_map]
    exact p.sorted

theorem ext_entries {p q : Parameters α} (h : p.entries = q.entries) : p = q := by
  cases p
  cases q
  simp_all

end Parameters

end Sequencer

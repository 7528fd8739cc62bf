/-!
# Tables keyed by text

A table holds at most one value under a key. Writing under a key that is already there exchanges
the value. Where the order of the keys shows, they are sorted.

## Main definitions

* `Table`: entries with different keys.
* `Table.get?`, `Table.put`, `Table.ofList`, `Table.sorted`: reading, writing, and listing.

## Main results

* `Table.get?_put`: what a table holds after writing.
-/

namespace ClassEdit

/-- Entries with different keys. -/
structure Table (α : Type) where
  entries : List (String × α)
  distinct : (entries.map Prod.fst).Nodup

namespace Table

variable {α : Type}

/-- The table without entries. -/
def empty : Table α := ⟨[], by simp⟩

/-- The value under a key. -/
def get? (t : Table α) (key : String) : Option α := t.entries.lookup key

/-- Entries with one exchanged or added at the end. -/
def putEntry (key : String) (value : α) : List (String × α) → List (String × α)
  | [] => [(key, value)]
  | (k, v) :: rest =>
    if k = key then (key, value) :: rest else (k, v) :: putEntry key value rest

theorem mem_keys_putEntry {key k : String} {value : α} {entries : List (String × α)} :
    k ∈ (putEntry key value entries).map Prod.fst ↔ k = key ∨ k ∈ entries.map Prod.fst := by
  induction entries with
  | nil => simp [putEntry]
  | cons entry rest ih =>
    obtain ⟨k', v⟩ := entry
    by_cases h : k' = key
    · subst h
      simp [putEntry]
    · rw [putEntry, if_neg h, List.map_cons, List.mem_cons, ih, List.map_cons, List.mem_cons]
      exact or_left_comm

theorem nodup_putEntry {key : String} {value : α} {entries : List (String × α)}
    (h : (entries.map Prod.fst).Nodup) : ((putEntry key value entries).map Prod.fst).Nodup := by
  induction entries with
  | nil => simp [putEntry]
  | cons entry rest ih =>
    obtain ⟨k, v⟩ := entry
    rw [List.map_cons, List.nodup_cons] at h
    by_cases hk : k = key
    · subst hk
      rw [putEntry, if_pos rfl, List.map_cons, List.nodup_cons]
      exact h
    · rw [putEntry, if_neg hk, List.map_cons, List.nodup_cons, mem_keys_putEntry]
      exact ⟨by simp [hk, h.1], ih h.2⟩

theorem lookup_cons_if {k key : String} {value : α} {rest : List (String × α)} :
    List.lookup k ((key, value) :: rest) = if k = key then some value else rest.lookup k := by
  by_cases h : k = key
  · simp [h]
  · simp [List.lookup_cons, h, beq_eq_false_iff_ne.2 h]

theorem lookup_putEntry {key k : String} {value : α} {entries : List (String × α)} :
    (putEntry key value entries).lookup k = if k = key then some value else entries.lookup k := by
  induction entries with
  | nil => rw [putEntry, lookup_cons_if]
  | cons entry rest ih =>
    obtain ⟨k', v⟩ := entry
    by_cases hk : k' = key
    · subst hk
      rw [putEntry, if_pos rfl, lookup_cons_if, lookup_cons_if]
      split <;> rfl
    · rw [putEntry, if_neg hk, lookup_cons_if, lookup_cons_if, ih]
      by_cases h : k = k'
      · rw [if_pos h, if_pos h, if_neg (h ▸ hk)]
      · rw [if_neg h, if_neg h]

/-- Writes a value under a key. -/
def put (t : Table α) (key : String) (value : α) : Table α :=
  ⟨putEntry key value t.entries, nodup_putEntry t.distinct⟩

/-- The table to which entries are written one after the other; of several with one key the last
one stays. -/
def ofList (entries : List (String × α)) : Table α :=
  entries.foldl (fun t entry => t.put entry.1 entry.2) empty

/-- The entries sorted by their keys. -/
def sorted (t : Table α) : List (String × α) :=
  t.entries.mergeSort fun a b => decide (a.1 ≤ b.1)

@[simp] theorem get?_empty (key : String) : (empty : Table α).get? key = none := rfl

/-- After writing, a table holds the value under its key and what it held under the others. -/
theorem get?_put (t : Table α) (key k : String) (value : α) :
    (t.put key value).get? k = if k = key then some value else t.get? k :=
  lookup_putEntry

end Table

end ClassEdit

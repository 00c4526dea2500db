import Mathlib.Data.List.AList

/-!
# Tables

A table holds one value for each of its keys.  Three loops over tables: one stores values
under the keys of another table, one changes the values where they are, and one looks for
the first entry of a kind.
-/

namespace ModernC.Framework

variable {κ : Type} {α β : Type}

/-- A finite map, with its entries in the order a loop meets them. -/
abbrev Table (κ α : Type) := AList fun _ : κ => α

namespace Table

/-- Change every value in place. -/
def update (change : κ → α → β) (table : Table κ α) : Table κ β where
  entries := table.entries.map fun entry => ⟨entry.1, change entry.1 entry.2⟩
  nodupKeys := by
    rw [List.NodupKeys, List.keys, List.map_map]
    exact table.nodupKeys

/-- The first entry with the property. -/
def find (holds : κ → α → Bool) (table : Table κ α) : Option (κ × α) :=
  (table.entries.find? fun entry => holds entry.1 entry.2).map fun entry => (entry.1, entry.2)

variable [DecidableEq κ]

/-- Store what `choose` makes of each entry of `source`. -/
def putAll (choose : κ → α → Option β) (source : Table κ α) (target : Table κ β) : Table κ β :=
  source.entries.foldl (fun table entry =>
    match choose entry.1 entry.2 with
    | none => table
    | some value => table.insert entry.1 value) target

variable {table : Table κ α}

lemma lookup_eq_some_iff {key : κ} {value : α} :
    table.lookup key = some value ↔ ⟨key, value⟩ ∈ table.entries :=
  AList.mem_lookup_iff

lemma lookup_update (change : κ → α → β) (table : Table κ α) (key : κ) :
    (table.update change).lookup key = (table.lookup key).map (change key) := by
  apply Option.ext
  intro value
  rw [lookup_eq_some_iff, Option.map_eq_some_iff]
  simp only [update, List.mem_map, lookup_eq_some_iff]
  constructor
  · rintro ⟨⟨key', old⟩, hmem, heq⟩
    cases heq
    exact ⟨old, hmem, rfl⟩
  · rintro ⟨old, hmem, rfl⟩
    exact ⟨⟨key, old⟩, hmem, rfl⟩

/-- A lookup after `putAll` finds what was stored under the key, or else what was there. -/
theorem lookup_putAll (choose : κ → α → Option β) (source : Table κ α) (target : Table κ β)
    (key : κ) :
    (putAll choose source target).lookup key =
      ((source.lookup key).bind (choose key)).or (target.lookup key) := by
  obtain ⟨entries, hnodup⟩ := source
  rw [putAll]
  show (entries.foldl _ target).lookup key =
    ((entries.dlookup key).bind (choose key)).or (target.lookup key)
  induction entries generalizing target with
  | nil => rfl
  | cons entry entries ih =>
    obtain ⟨key', value⟩ := entry
    rw [List.nodupKeys_cons] at hnodup
    rw [List.foldl_cons, ih _ hnodup.2]
    by_cases hkey : key = key'
    · subst hkey
      have habsent : entries.dlookup key = none := List.dlookup_eq_none.mpr hnodup.1
      rw [habsent, List.dlookup_cons_eq]
      show (none : Option β).or _ = (choose key value).or (target.lookup key)
      rw [Option.none_or]
      cases choose key value with
      | none => rfl
      | some stored => exact AList.lookup_insert target
    · rw [List.dlookup_cons_ne _ _ hkey]
      congr 1
      cases choose key' value with
      | none => rfl
      | some stored => exact AList.lookup_insert_ne hkey

lemma exists_of_find_eq_some {holds : κ → α → Bool} {key : κ} {value : α}
    (h : table.find holds = some (key, value)) :
    table.lookup key = some value ∧ holds key value = true := by
  obtain ⟨⟨key', value'⟩, hfind, heq⟩ := Option.map_eq_some_iff.mp h
  cases heq
  exact ⟨lookup_eq_some_iff.mpr (List.mem_of_find?_eq_some hfind),
    List.find?_some (p := fun entry : Σ _, α => holds entry.1 entry.2) hfind⟩

end Table

end ModernC.Framework

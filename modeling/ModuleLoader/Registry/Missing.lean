import ModuleLoader.Registry.Basic

/-! # Missing dependencies

A module can only run when everything below it has a record. The search follows the dependencies of
records that are not evaluated yet; an evaluated record needs nothing any more.
-/

namespace ModuleLoader.Registry

variable {β : Type}

/-- The names of the dependencies that a record still needs. -/
def needs (record : Record β) : List String :=
  match record.slot with
  | .evaluated _ => []
  | _ => record.dependencies.map Dependency.name

/-- How many dependencies the record of a name still needs, unless the name was seen. -/
def owed (seen : List String) (name : String) (record : Record β) : Nat :=
  if name ∈ seen then 0 else (needs record).length

/-- How many dependencies records still need whose names were not seen yet. -/
def outstanding (seen : List String) : List (String × Record β) → Nat
  | [] => 0
  | entry :: rest => owed seen entry.1 entry.2 + outstanding seen rest

theorem owed_cons_le (seen : List String) (name other : String) (record : Record β) :
    owed (name :: seen) other record ≤ owed seen other record := by
  by_cases hs : other ∈ seen
  · simp [owed, hs]
  · by_cases hn : other = name
    · simp [owed, hn]
    · simp [owed, hs, hn]

theorem outstanding_cons_le (seen : List String) (name : String)
    (records : List (String × Record β)) :
    outstanding (name :: seen) records ≤ outstanding seen records := by
  induction records with
  | nil => exact Nat.le_refl 0
  | cons entry rest ih =>
    have ho := owed_cons_le seen name entry.1 entry.2
    simp only [outstanding]
    omega

theorem needs_add_outstanding_le {seen : List String} {name : String} {record : Record β}
    {records : List (String × Record β)} (hm : (name, record) ∈ records) (hs : name ∉ seen) :
    (needs record).length + outstanding (name :: seen) records ≤ outstanding seen records := by
  induction records with
  | nil => simp at hm
  | cons entry rest ih =>
    simp only [outstanding]
    rcases List.mem_cons.1 hm with rfl | hm
    · have hle := outstanding_cons_le seen name rest
      simp only [owed, List.mem_cons_self, if_true, if_neg hs]
      omega
    · have ho := owed_cons_le seen name entry.1 entry.2
      have hrest := ih hm
      omega

/-- Add to `missing` the names without records that can be reached from the names to do, other
than through the names in `seen`. -/
def search (r : Registry β) (seen : List String) (missing : Dict Unit) :
    List String → Dict Unit
  | [] => missing
  | name :: rest =>
    if _ : name ∈ seen then search r seen missing rest
    else
      match _ : r.get? name with
      | some record => search r (name :: seen) missing (needs record ++ rest)
      | none => search r (name :: seen) (missing.insert name ()) rest
termination_by todo => todo.length + outstanding seen r.records.entries
decreasing_by
  · simp
  · have hm := (r.records.mem_entries_iff _ _).2 ‹r.get? name = some record›
    have hle := needs_add_outstanding_le hm ‹name ∉ seen›
    simp only [List.length_append, List.length_cons]
    omega
  · have hle := outstanding_cons_le seen name r.records.entries
    simp only [List.length_cons]
    omega

/-- The names without records, in order, that a record still needs, itself or through others. The
name of the record counts as present. -/
def missingFor (r : Registry β) (name : String) (record : Record β) : List String :=
  (r.search [name] .empty (needs record)).keys

/-- The names without records, in order, that a name still needs. A name without a record needs
itself. -/
def missing (r : Registry β) (name : String) : List String :=
  match r.get? name with
  | some record => r.missingFor name record
  | none => [name]

end ModuleLoader.Registry

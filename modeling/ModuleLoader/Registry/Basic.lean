import ModuleLoader.Dialect.Unit

/-! # The registry of modules

The registry files a record for each canonical name. A record waits with its body, runs, or holds
the namespace that its body made, and then stays as it is.
-/

namespace ModuleLoader

/-- A request of a module, and the name that it stands for. -/
structure Dependency where
  specifier : String
  name : String
deriving DecidableEq, Repr

/-- How far a record has come. -/
inductive EvaluationState where
  | waiting
  | evaluating
  | evaluated
deriving DecidableEq, Repr

/-- What a record holds: a body that has not run, a body that is running, or its namespace. -/
inductive Slot (β : Type) where
  | waiting (body : β)
  | evaluating
  | evaluated (ns : Namespace)

/-- What is filed under a name. Dependencies stand in the order in which they were requested. -/
structure Record (β : Type) where
  address : Option String
  dependencies : List Dependency
  slot : Slot β

/-- Records by canonical name. -/
structure Registry (β : Type) where
  records : Dict (Record β)

variable {β : Type}

/-- How far a slot has come. -/
def Slot.state : Slot β → EvaluationState
  | waiting _ => .waiting
  | evaluating => .evaluating
  | evaluated _ => .evaluated

namespace Record

/-- A record that waits with its body. -/
def waiting (address : Option String) (dependencies : List Dependency) (body : β) : Record β :=
  ⟨address, dependencies, .waiting body⟩

/-- A record that has a namespace from the start. -/
def evaluated (ns : Namespace) : Record β := ⟨none, [], .evaluated ns⟩

/-- How far a record has come. -/
def state (record : Record β) : EvaluationState := record.slot.state

/-- The namespace of an evaluated record. -/
def namespace? (record : Record β) : Option Namespace :=
  match record.slot with
  | .evaluated ns => some ns
  | _ => none

end Record

namespace Registry

/-- The registry without records. -/
def empty : Registry β := ⟨.empty⟩

instance : Inhabited (Registry β) := ⟨empty⟩

/-- The record of a name. -/
def get? (r : Registry β) (name : String) : Option (Record β) := r.records.get? name

/-- Whether a name has a record. -/
def has (r : Registry β) (name : String) : Bool := r.records.contains name

/-- How far the record of a name has come. -/
def state? (r : Registry β) (name : String) : Option EvaluationState :=
  (r.get? name).map Record.state

/-- File a record under a name that has none. A name that has one keeps it. -/
def commit (r : Registry β) (name : String) (record : Record β) : Registry β :=
  if r.has name then r else ⟨r.records.insert name record⟩

/-- File a namespace under a name, in place of any record. -/
def setEvaluated (r : Registry β) (name : String) (ns : Namespace) : Registry β :=
  ⟨r.records.insert name (.evaluated ns)⟩

/-- Remove the record of a name. -/
def delete (r : Registry β) (name : String) : Registry β := ⟨r.records.erase name⟩

/-- The names with records, in order. -/
def names (r : Registry β) : List String := r.records.keys

/-- The number of records. -/
def size (r : Registry β) : Nat := r.records.size

/-- Whether there are no records. -/
def isEmpty (r : Registry β) : Bool := r.records.isEmpty

/-- Put another content into the slot of a name. -/
def setSlot (r : Registry β) (name : String) (slot : Slot β) : Registry β :=
  match r.get? name with
  | some record => ⟨r.records.insert name { record with slot := slot }⟩
  | none => r

/-- Remove the records whose bodies did not come to an end. -/
def dropEvaluating (r : Registry β) : Registry β :=
  ⟨r.records.filter fun record => record.state ≠ .evaluating⟩

@[simp] theorem get?_empty (name : String) : (empty : Registry β).get? name = none := rfl

theorem has_eq_isSome (r : Registry β) (name : String) : r.has name = (r.get? name).isSome := rfl

theorem mem_names_iff (r : Registry β) (name : String) : name ∈ r.names ↔ r.has name :=
  r.records.mem_keys_iff name

theorem get?_commit (r : Registry β) (name other : String) (record : Record β) :
    (r.commit name record).get? other =
      if other = name ∧ r.get? name = none then some record else r.get? other := by
  rw [commit, has_eq_isSome]
  cases h : r.get? name with
  | none => simp [get?, Dict.get?_insert]
  | some _ => simp

theorem get?_setEvaluated (r : Registry β) (name other : String) (ns : Namespace) :
    (r.setEvaluated name ns).get? other =
      if other = name then some (.evaluated ns) else r.get? other :=
  r.records.get?_insert name other _

theorem get?_delete (r : Registry β) (name other : String) :
    (r.delete name).get? other = if other = name then none else r.get? other :=
  r.records.get?_erase name other

theorem get?_setSlot (r : Registry β) (name other : String) (slot : Slot β) :
    (r.setSlot name slot).get? other =
      if other = name then (r.get? name).map fun record => { record with slot := slot }
      else r.get? other := by
  rw [setSlot]
  cases h : r.get? name with
  | none => by_cases hn : other = name <;> simp [hn, h]
  | some record => simp [get?, Dict.get?_insert]

theorem get?_dropEvaluating (r : Registry β) (name : String) :
    r.dropEvaluating.get? name = (r.get? name).filter fun record => record.state ≠ .evaluating :=
  r.records.get?_filter _ name

end Registry

end ModuleLoader

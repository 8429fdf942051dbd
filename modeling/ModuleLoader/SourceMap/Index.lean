import ModuleLoader.Dialect.Compiler

/-! # The index of source maps

The index keeps the last source map of each unit. A script and a module of one name are two units.
-/

namespace ModuleLoader.SourceMap

/-- A source map, the unit that it belongs to and the URL of its source. -/
structure Entry where
  name : String
  kind : SourceKind
  map : SourceMap
  url : String

/-- The entries of scripts and of modules by name. -/
structure Index where
  scripts : Dict Entry
  modules : Dict Entry

namespace Index

/-- The index without entries. -/
def empty : Index := ⟨.empty, .empty⟩

instance : Inhabited Index := ⟨empty⟩

/-- The entry of a unit. -/
def get? (index : Index) (name : String) : SourceKind → Option Entry
  | .script => index.scripts.get? name
  | .module => index.modules.get? name

/-- Keep the entry of a unit, in place of an older one. -/
def insert (index : Index) (e : Entry) : Index :=
  match e.kind with
  | .script => { index with scripts := index.scripts.insert e.name e }
  | .module => { index with modules := index.modules.insert e.name e }

/-- The number of entries. -/
def size (index : Index) : Nat := index.scripts.size + index.modules.size

/-- Whether there are no entries. -/
def isEmpty (index : Index) : Bool := index.scripts.isEmpty && index.modules.isEmpty

theorem get?_insert (index : Index) (e : Entry) (name : String) (kind : SourceKind) :
    (index.insert e).get? name kind =
      if name = e.name ∧ kind = e.kind then some e else index.get? name kind := by
  cases kind <;> cases h : e.kind <;> simp [insert, get?, h, Dict.get?_insert]

end Index

end ModuleLoader.SourceMap

import ModuleLoader.Registry.Missing

/-! # Evaluation

A pass runs the bodies below a record depth first, dependencies before dependents and in the order
of their requests. It starts only if nothing is missing. A record is marked while its dependencies
and its body run, so that a cycle shows when the pass comes back to it. A pass that fails removes
the records that it had entered and not finished.
-/

namespace ModuleLoader.Registry

open Dialect

variable {β σ : Type}

/-- Run a body with its imports in a world. -/
abbrev Runner (β σ : Type) := β → Imports → σ → Except LoadError Namespace × σ

/-- The registry and the world in the middle of a pass. -/
structure Pass (β σ : Type) where
  registry : Registry β
  world : σ

/-- The names from the first visit of a name on, and the name once more. -/
def cycle (path : List String) (name : String) : List String :=
  path.dropWhile (· ≠ name) ++ [name]

/-- Evaluate dependencies one after the other and bind their namespaces to the specifiers. -/
def importAll (visit : String → Record β → Pass β σ → Except LoadError Namespace × Pass β σ)
    (importer : String) (imports : Imports) (p : Pass β σ) :
    List Dependency → Except LoadError Imports × Pass β σ
  | [] => (.ok imports, p)
  | d :: rest =>
    match p.registry.get? d.name with
    | none => (.error (.instantiate importer (.dependencyNotLoaded d.name)), p)
    | some record =>
      match visit d.name record p with
      | (.error e, p) => (.error e, p)
      | (.ok ns, p) => importAll visit importer (imports.insert d.specifier ns) p rest

/-- Evaluate the record of a name, at the end of a path of records that wait for it. Every level of
the descent marks a record, so the depth is bounded by the number of records. -/
def visit (run : Runner β σ) : Nat → List String → String → Record β → Pass β σ →
    Except LoadError Namespace × Pass β σ
  | 0, _, name, _, p => (.error (.instantiate name .notLoaded), p)
  | depth + 1, path, name, record, p =>
    match record.slot with
    | .evaluated ns => (.ok ns, p)
    | .evaluating => (.error (.instantiate name (.cyclic (cycle path name))), p)
    | .waiting body =>
      let entered : Pass β σ := { p with registry := p.registry.setSlot name .evaluating }
      match importAll (visit run depth (path ++ [name])) name .empty entered
          record.dependencies with
      | (.error e, p) => (.error e, p)
      | (.ok imports, p) =>
        match run body imports p.world with
        | (.error e, world) => (.error e, { p with world := world })
        | (.ok ns, world) => (.ok ns, ⟨p.registry.setSlot name (.evaluated ns), world⟩)

/-- Start a pass if nothing is missing, and tidy up after it if it fails. -/
def guarded (r : Registry β) (world : σ) (name : String) (record : Record β)
    (pass : Pass β σ → Except LoadError Namespace × Pass β σ) :
    Except LoadError Namespace × Pass β σ :=
  match r.missingFor name record with
  | first :: _ => (.error (.instantiate name (.dependencyNotLoaded first)), ⟨r, world⟩)
  | [] =>
    match pass ⟨r, world⟩ with
    | (.ok ns, p) => (.ok ns, p)
    | (.error e, p) => (.error e, { p with registry := p.registry.dropEvaluating })

/-- Evaluate a name and what it needs. -/
def evaluate (run : Runner β σ) (r : Registry β) (world : σ) (name : String) :
    Except LoadError Namespace × Pass β σ :=
  match r.get? name with
  | none => (.error (.instantiate name .notLoaded), ⟨r, world⟩)
  | some record =>
    match record.slot with
    | .evaluated ns => (.ok ns, ⟨r, world⟩)
    | _ => r.guarded world name record (visit run (r.size + 1) [] name record)

/-- Evaluate a body that is not registered, and what it needs. -/
def evaluateDetached (run : Runner β σ) (r : Registry β) (world : σ) (name : String)
    (dependencies : List Dependency) (body : β) : Except LoadError Namespace × Pass β σ :=
  r.guarded world name (.waiting none dependencies body) fun p =>
    match importAll (visit run (r.size + 1) [name]) name .empty p dependencies with
    | (.error e, p) => (.error e, p)
    | (.ok imports, p) =>
      match run body imports p.world with
      | (result, world) => (result, { p with world := world })

end ModuleLoader.Registry

import ModuleLoader.Loader.Basic

/-! # Loads of modules

A request that needs the module of a name joins its pending load, or creates one. A load moves only
when a request waits for it: it asks the files, waits for the answer, and links what it got. A load
that fails is pending no longer.
-/

namespace ModuleLoader.Loader

open Dialect

/-- Resolve the requests of a linked module. -/
def resolveAll (l : Loader) (referrer : Option String) :
    List String → Except LoadError (List Dependency)
  | [] => .ok []
  | specifier :: rest => do
    let name ← l.nameOf specifier referrer
    return ⟨specifier, name⟩ :: (← l.resolveAll referrer rest)

/-- The unit of a load that has gone through all stages. -/
def unitOf (l : Loader) (id : Nat) (load : Load) (referrer : Option String) :
    Except LoadError LoadedUnit := do
  let linked ← match load.instantiation with
    | some (.module m) => pure m
    | some (.value _) => throw (.instantiate load.name .valueForModule)
    | none => link load.name (load.code.getD "")
  let dependencies ← l.resolveAll referrer linked.requests
  return ⟨load.name, load.address, dependencies, ⟨id, linked⟩⟩

/-- Bring a load of a module from its source to a unit. -/
def linkSource (l : Loader) (id : Nat) (load : Load) (text : String) (referrer : Option String) :
    Except LoadError LoadedUnit × Loader :=
  match l.stages.complete load text with
  | .error e => (.error e, l)
  | .ok load =>
    let l := l.keepMap load
    (l.unitOf id load referrer, l)

/-- Put another state into a numbered load. -/
def setLoad (l : Loader) (id : Nat) (state : LoadState) : Loader :=
  { l with loads := l.loads.set id state }

/-- End a load. -/
def finish (l : Loader) (id : Nat) (name : String) (result : Except LoadError LoadedUnit) :
    Loader :=
  let l := l.setLoad id (.finished result)
  match result with
  | .ok _ => l
  | .error _ => { l with pending := l.pending.erase name }

/-- Link the source of a load and end it. -/
def answer (l : Loader) (id : Nat) (load : Load) (text : String) :
    Except LoadError LoadedUnit × Loader :=
  let (result, l) := l.linkSource id load text (some load.name)
  (result, l.finish id load.name result)

/-- Take the answer of the files to a load. -/
def receive (l : Loader) (id : Nat) (load : Load) (address : String) :
    Except LoadError LoadedUnit × Loader :=
  match l.files.text address with
  | .error e => (.error e, l.finish id load.name (.error e))
  | .ok text => l.answer id load text

/-- Begin a load that was created. It ends at once if it does not have to wait. -/
def begin (l : Loader) (id : Nat) (name : String) (metadata : Metadata) :
    Option (Except LoadError LoadedUnit) × Loader :=
  let l := l.note (.began name id)
  match l.stages.prepare (.start name .module metadata) with
  | .error e => (some (.error e), l.finish id name (.error e))
  | .ok (load, .given text) =>
    let (result, l) := l.answer id load text
    (some result, l)
  | .ok (load, .stored address) =>
    let l := l.note (.asked address)
    match l.files.latency address with
    | turns + 1 => (none, l.setLoad id (.waiting load address turns))
    | 0 =>
      let (result, l) := l.receive id load address
      (some result, l)

/-- Let a load move, and tell its result if it has one. -/
def move (l : Loader) (id : Nat) : Option (Except LoadError LoadedUnit) × Loader :=
  match l.loads[id]? with
  | none => (none, l)
  | some (.finished result) => (some result, l)
  | some (.created name metadata) => l.begin id name metadata
  | some (.waiting load address (turns + 1)) => (none, l.setLoad id (.waiting load address turns))
  | some (.waiting load address 0) =>
    let (result, l) := l.receive id load address
    (some result, l)

/-- Join the pending load of a name, or create one. -/
def join (l : Loader) (name : String) (metadata : Metadata) : Nat × Loader :=
  match l.pending.get? name with
  | some id => (id, l)
  | none =>
    let id := l.loads.length
    (id, { l with
      loads := l.loads ++ [.created name metadata]
      pending := l.pending.insert name id })

/-- Load a module from a source at hand. The load is numbered, but nobody can join it. -/
def loadInline (l : Loader) (load : Load) (source : String) (referrer : Option String) :
    Except LoadError LoadedUnit × Loader :=
  let id := l.loads.length
  let l := l.note (.began load.name id)
  let (result, l) := l.linkSource id { load with source := some source } source referrer
  (result, { l with loads := l.loads ++ [.finished result] })

/-- Whether a load has ended. -/
def isFinished (l : Loader) (id : Nat) : Bool :=
  match l.loads[id]? with
  | some (.finished _) => true
  | _ => false

/-- Release the pending loads of names, except those that have not ended. -/
def release (l : Loader) (names : List String) : Loader :=
  { l with pending := names.foldl (fun pending name =>
      match pending.get? name with
      | some id => if l.isFinished id then pending.erase name else pending
      | none => pending) l.pending }

end ModuleLoader.Loader

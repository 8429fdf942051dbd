import ModuleLoader.Load.Basic
import ModuleLoader.Address
import ModuleLoader.Files.Basic

/-! # The stages of a load

A load is located, fetched, compiled and instantiated in turn; the first stage that fails ends
it. A load with an address is not located, and one with a source is neither located nor fetched.
-/

namespace ModuleLoader

open Dialect

/-- How a source text is compiled. -/
abbrev Compiler := String → CompileOptions → Except LoadError Compiled

/-- A source text at hand, or the address at which the files have it. -/
inductive SourceText where
  | given (text : String)
  | stored (address : String)

/-- What each stage answers for a load. -/
structure Stages where
  locate : Load → Except LoadError String
  fetch : Load → Except LoadError SourceText
  compile : Load → Except LoadError Compiled
  instantiate : Load → Except LoadError (Option Instantiation)

namespace Stages

/-- The source of a load is stored at its address. -/
def fetchStored (load : Load) : Except LoadError SourceText :=
  match load.address with
  | some address => .ok (.stored address)
  | none => .error (.fetch load.name .noAddress)

/-- Compile the source of a load. Without a compiler the source is the code. -/
def compileWith (compiler : Option Compiler) (load : Load) : Except LoadError Compiled :=
  match load.source, compiler with
  | none, _ => .error (.compile load.name none .noSource)
  | some source, some compile =>
    compile source ⟨load.kind, load.metadata.sourceMaps, load.name, load.url⟩
  | some source, none => .ok ⟨source, none⟩

/-- The stages that serve every load alike: the address is the name below the base, the files have
the source, the compiler makes code of it, and nothing is instantiated ahead. -/
def standard (extension : String) (compiler : Option Compiler) : Stages where
  locate load := Address.locate extension load.metadata.baseUrl load.name
  fetch := fetchStored
  compile := compileWith compiler
  instantiate _ := .ok none

/-- Give a load an address unless it has one. -/
def locateOnce (s : Stages) (load : Load) : Except LoadError Load :=
  match load.address with
  | some _ => .ok load
  | none => do
    let address ← s.locate load
    return { load with address := some address }

/-- Bring a load to the point where its source is known or asked for. -/
def prepare (s : Stages) (load : Load) : Except LoadError (Load × SourceText) :=
  match load.source with
  | some text => .ok (load, .given text)
  | none => do
    let load ← s.locateOnce load
    return (load, ← s.fetch load)

/-- Bring a load from its source to its end. -/
def complete (s : Stages) (load : Load) (text : String) : Except LoadError Load := do
  let load := { load with source := some text }
  let compiled ← s.compile load
  let load := { load with code := some compiled.code, sourceMap := compiled.sourceMap }
  let instantiation ← s.instantiate load
  return { load with instantiation := instantiation }

/-- Run all stages, and tell which address the files were asked for. -/
def run (s : Stages) (files : Files) (load : Load) : Except LoadError Load × Option String :=
  match s.prepare load with
  | .error e => (.error e, none)
  | .ok (load, .given text) => (s.complete load text, none)
  | .ok (load, .stored address) =>
    match files.text address with
    | .error e => (.error e, some address)
    | .ok text => (s.complete load text, some address)

end Stages

end ModuleLoader

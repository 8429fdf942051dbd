import ModuleLoader.Load.Stages
import ModuleLoader.Options
import ModuleLoader.Registry.Evaluation
import ModuleLoader.SourceMap.Index
import ModuleLoader.Specifier

/-! # The state of a loader

A loader owns a registry, a package map, the source maps of what it compiled, and the realm in which
bodies run. Loads of modules are numbered; a pending one is shared by all requests that need its
name.
-/

namespace ModuleLoader

open Dialect

/-- A module body, and the number of the load that linked it. -/
structure Body where
  load : Nat
  linked : Linked

/-- A linked module that is not registered yet. -/
structure LoadedUnit where
  name : String
  address : Option String
  dependencies : List Dependency
  body : Body

/-- How far a load of a module has come. -/
inductive LoadState where
  | created (name : String) (metadata : Metadata)
  | waiting (load : Load) (address : String) (turns : Nat)
  | finished (result : Except LoadError LoadedUnit)

/-- What happens in the life of a loader: a load begins, the files are asked, the unit of a load is
filed under its name, a body runs. -/
inductive Event where
  | began (name : String) (load : Nat)
  | asked (address : String)
  | filed (name : String) (load : Nat)
  | ran (load : Nat) (succeeded : Bool)
deriving DecidableEq, Repr

/-- The realm of the bodies, and what has happened, the latest first. -/
structure World where
  realm : Realm
  journal : List Event

/-- Where failed requests are reported: all errors are kept, or just that there was one. -/
inductive Reporter where
  | keeping (errors : List LoadError)
  | flagging (failed : Bool)

/-- The state of a loader. The pending loads and the names being defined belong to requests in
progress. -/
structure Loader where
  options : Options
  map : PackageMap
  stages : Stages
  files : Files
  registry : Registry Body
  world : World
  loads : List LoadState
  pending : Dict Nat
  defining : List String
  sourceMaps : SourceMap.Index
  reporter : Reporter
  anonymous : Nat

namespace Reporter

/-- Report an error. -/
def report (reporter : Reporter) (e : LoadError) : Reporter :=
  match reporter with
  | keeping errors => .keeping (errors ++ [e])
  | flagging _ => .flagging true

/-- Whether an error was reported. -/
def failed : Reporter → Bool
  | keeping errors => !errors.isEmpty
  | flagging failed => failed

/-- The errors that were kept. -/
def errors : Reporter → List LoadError
  | keeping errors => errors
  | flagging _ => []

/-- Forget the errors that were kept. -/
def clear : Reporter → Reporter
  | keeping _ => .keeping []
  | flagging failed => .flagging failed

end Reporter

namespace World

/-- Note an event. -/
def note (w : World) (e : Event) : World := { w with journal := e :: w.journal }

/-- Run a body. -/
def run (body : Body) (imports : Imports) (w : World) : Except LoadError Namespace × World :=
  let (result, realm) := body.linked.run imports w.realm
  (result, ⟨realm, .ran body.load result.isOk :: w.journal⟩)

end World

namespace LoadedUnit

/-- The record under which a unit is registered. -/
def record (u : LoadedUnit) : Record Body := .waiting u.address u.dependencies u.body

end LoadedUnit

namespace Loader

/-- The name of the module that every loader has from the start. -/
def hostName : String := "ferrule@"

/-- The exports of that module. -/
def hostExports : Dict Value := Dict.empty.insert "version" (.string "0.1.0")

/-- A loader with nothing but the host module. -/
def build (options : Options) (stages : Stages) (files : Files) (reporter : Reporter)
    (realm : Realm) : Except LoadError Loader := do
  let options ← options.check
  let (host, realm) := realm.namespaceOf hostExports
  return {
    options := options
    map := options.map
    stages := stages
    files := files
    registry := Registry.empty.setEvaluated hostName host
    world := ⟨realm, []⟩
    loads := []
    pending := .empty
    defining := []
    sourceMaps := .empty
    reporter := reporter
    anonymous := 0 }

/-- Note an event. -/
def note (l : Loader) (e : Event) : Loader := { l with world := l.world.note e }

/-- Report the error of a result, if it is one. -/
def reported {α : Type} (l : Loader) (result : Except LoadError α) : Except LoadError α × Loader :=
  match result with
  | .ok a => (.ok a, l)
  | .error e => (.error e, { l with reporter := l.reporter.report e })

/-- How often the files were asked for each address. -/
def requestCounts (l : Loader) : Dict Nat :=
  l.world.journal.foldl (fun counts e =>
    match e with
    | .asked address => counts.insert address ((counts.get? address).getD 0 + 1)
    | _ => counts) .empty

/-- The canonical name of a specifier. -/
def nameOf (l : Loader) (specifier : String) (referrer : Option String) :
    Except LoadError String :=
  Specifier.normalize l.options.baseName l.map specifier referrer

/-- Keep the source map of a load, if it has one. -/
def keepMap (l : Loader) (load : Load) : Loader :=
  match load.sourceMap with
  | some map => { l with sourceMaps := l.sourceMaps.insert ⟨load.name, load.kind, map, load.url⟩ }
  | none => l

/-- A name for a unit that was given none. -/
def freshName (l : Loader) : String × Loader :=
  ("<anonymous " ++ toString (l.anonymous + 1) ++ ">", { l with anonymous := l.anonymous + 1 })

/-- Evaluate a registered module. -/
def evaluate (l : Loader) (name : String) : Except LoadError Namespace × Loader :=
  let (result, p) := l.registry.evaluate World.run l.world name
  (result, { l with registry := p.registry, world := p.world })

/-- Evaluate a unit that is not registered. -/
def evaluateDetached (l : Loader) (u : LoadedUnit) : Except LoadError Namespace × Loader :=
  let (result, p) := l.registry.evaluateDetached World.run l.world u.name u.dependencies u.body
  (result, { l with registry := p.registry, world := p.world })

/-- File the record of a unit, unless its name is taken. -/
def file (l : Loader) (u : LoadedUnit) : Loader :=
  if l.registry.has u.name then l
  else { l.note (.filed u.name u.body.load) with registry := l.registry.commit u.name u.record }

/-- Register units, except under names that are taken, and release their pending loads. -/
def commit (l : Loader) (units : List LoadedUnit) : Loader :=
  units.foldl (fun l u =>
    let l := l.file u
    { l with pending := l.pending.erase u.name }) l

end Loader

end ModuleLoader

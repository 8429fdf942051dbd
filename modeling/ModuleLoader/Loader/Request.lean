import ModuleLoader.Loader.Graph

/-! # Requests

A request moves in turns: in each it goes on until it has to wait for the files. It ends with an
answer or an error, and an error is reported.
-/

namespace ModuleLoader

open Dialect

/-- What a request asks for: a module, the exports of a source text, the value of one, the value of
a script in the files, or that a source text be registered under a name. -/
inductive Demand where
  | importModule (specifier : String)
  | module (source : String)
  | script (source : String)
  | scriptAt (specifier : String)
  | define (name source : String)

/-- What a request may say besides. The name is that of a script. -/
structure RequestOptions where
  name : Option String
  referrer : Option String
  baseUrl : Option String
  address : Option String
  mode : Option ModuleMode
  extra : Dict Json

/-- A request. -/
structure Request where
  demand : Demand
  options : RequestOptions

/-- What a request is answered with. -/
inductive Answer where
  | exports (ns : Namespace)
  | value (v : Value)
  | defined

namespace RequestOptions

/-- Nothing besides. -/
def none : RequestOptions := ⟨.none, .none, .none, .none, .none, .empty⟩

end RequestOptions

namespace Loader

/-- What a request does with the units of its graph. -/
inductive Purpose where
  | importModule (name : String)
  | module
  | define (name : String) (mode : Option ModuleMode)

/-- How far a request has come. -/
inductive Activity where
  | delayed (turns : Nat) (request : Request)
  | script (load : Load) (address : String) (turns : Nat)
  | root (name : String) (metadata : Metadata) (load : Nat)
  | graph (purpose : Purpose) (task : GraphTask)
  | branches (name : String) (metadata : Metadata) (branches : Branches)
  | settled (result : Except LoadError Answer)

/-- What the loads of a request have in common. -/
def metadataOf (l : Loader) (options : RequestOptions) : Metadata :=
  ⟨options.baseUrl.getD l.options.baseUrl, l.options.sourceMaps, options.extra⟩

/-- End a request, and report its error. -/
def settle (l : Loader) (result : Except LoadError Answer) : Activity × Loader :=
  let (result, l) := l.reported result
  (.settled result, l)

/-- End a request with an error. -/
def reject (l : Loader) (e : LoadError) : Activity × Loader := l.settle (.error e)

/-! ## Scripts -/

/-- Run a script from its source. -/
def runSource (l : Loader) (load : Load) (text : String) : Except LoadError Value × Loader :=
  match l.stages.complete load text with
  | .error e => (.error e, l)
  | .ok load =>
    let l := l.keepMap load
    match load.instantiation with
    | some (.value v) => (.ok v, l)
    | some (.module _) => (.error (.instantiate load.name .moduleForScript), l)
    | none =>
      let (result, realm) := runScript load.name (load.code.getD "") l.world.realm
      (result, { l with world := { l.world with realm := realm } })

/-- Run a script from its source and end the request. -/
def settleScript (l : Loader) (load : Load) (text : String) : Activity × Loader :=
  let (result, l) := l.runSource load text
  l.settle (result.map .value)

/-- Take the answer of the files to a script. -/
def receiveScript (l : Loader) (load : Load) (address : String) : Activity × Loader :=
  match l.files.text address with
  | .error e => l.reject e
  | .ok text => l.settleScript load text

/-- Begin the load of a script. -/
def startScript (l : Loader) (load : Load) : Activity × Loader :=
  match l.stages.prepare load with
  | .error e => l.reject e
  | .ok (load, .given text) => l.settleScript load text
  | .ok (load, .stored address) =>
    let l := l.note (.asked address)
    match l.files.latency address with
    | turns + 1 => (.script load address turns, l)
    | 0 => l.receiveScript load address

/-! ## Modules -/

/-- Evaluate a registered module and end the request. -/
def settleImport (l : Loader) (name : String) : Activity × Loader :=
  let (result, l) := l.evaluate name
  l.settle (result.map .exports)

/-- Give up the claim to define a name. -/
def unclaim (l : Loader) (name : String) : Loader :=
  { l with defining := l.defining.erase name }

/-- Register the units of a definition, and run the root unless that is left to the first import.
A name that was registered meanwhile stays as it is. -/
def settleDefine (l : Loader) (name : String) (mode : Option ModuleMode) (g : Graph) :
    Activity × Loader :=
  if l.registry.has name then (l.unclaim name).reject (.instantiate name .alreadyDefined)
  else
    let l := (l.file g.root).commit g.below
    match mode.getD l.options.mode with
    | .instantiate => (l.unclaim name).settle (.ok .defined)
    | .register =>
      let (result, l) := l.evaluate name
      (l.unclaim name).settle (result.map fun _ => .defined)

/-- Use a graph that was loaded and end the request. -/
def settleGraph (l : Loader) (purpose : Purpose) (g : Graph) : Activity × Loader :=
  match purpose with
  | .importModule name => (l.commit g.units).settleImport name
  | .define name mode => l.settleDefine name mode g
  | .module =>
    let (result, l) := (l.commit g.below).evaluateDetached g.root
    l.settle (result.map .exports)

/-- End a request whose graph failed. -/
def rejectGraph (l : Loader) (purpose : Purpose) (e : LoadError) : Activity × Loader :=
  match purpose with
  | .define name _ => (l.unclaim name).reject e
  | _ => l.reject e

/-- Let the graph of a request move. -/
def advanceGraph (budget : Nat) (l : Loader) (purpose : Purpose) (task : GraphTask) :
    Activity × Loader :=
  match moveGraph budget l task with
  | (.going task, l) => (.graph purpose task, l)
  | (.done (.error e), l) => l.rejectGraph purpose e
  | (.done (.ok g), l) => l.settleGraph purpose g

/-- Let the root of an import move. -/
def advanceRoot (budget : Nat) (l : Loader) (name : String) (metadata : Metadata) (id : Nat) :
    Activity × Loader :=
  match l.move id with
  | (none, l) => (.root name metadata id, l)
  | (some (.error e), l) => l.reject e
  | (some (.ok u), l) =>
    let (task, l) := l.startGraph metadata u
    advanceGraph budget l (.importModule name) task

/-- Let the graphs of missing dependencies move. -/
def advanceBranches (budget : Nat) (l : Loader) (name : String) (metadata : Metadata)
    (branches : Branches) : Activity × Loader :=
  match branches.move (moveBranch budget metadata) l with
  | (.error e, l) => l.reject e
  | (.ok branches, l) =>
    match branches.values? with
    | none => (.branches name metadata branches, l)
    | some graphs => (graphs.foldl (fun l g => l.commit g.units) l).settleImport name

/-- Begin an import. A registered module only needs what is missing below it. -/
def startImport (l : Loader) (specifier : String) (options : RequestOptions) :
    Activity × Loader :=
  match l.nameOf specifier options.referrer with
  | .error e => l.reject e
  | .ok name =>
    let metadata := l.metadataOf options
    if l.registry.has name then
      let (branches, l) := joinAll metadata l (l.registry.missing name)
      (.branches name metadata (.ofTasks branches), l)
    else
      let (id, l) := l.join name metadata
      (.root name metadata id, l)

/-- Load a module from a source at hand, under a name, and begin its graph. -/
def startInline (l : Loader) (purpose : Purpose) (name source : String)
    (referrer : Option String) (options : RequestOptions) : Activity × Loader :=
  let metadata := l.metadataOf options
  let load := { Load.start name .module metadata with
    referrer := options.referrer
    address := options.address }
  match l.loadInline load source referrer with
  | (.error e, l) => l.rejectGraph purpose e
  | (.ok root, l) =>
    let (task, l) := l.startGraph metadata root
    (.graph purpose task, l)

/-- Begin a definition. A name that is registered or being defined is refused. -/
def startDefine (l : Loader) (name source : String) (options : RequestOptions) :
    Activity × Loader :=
  match l.nameOf name options.referrer with
  | .error e => l.reject e
  | .ok name =>
    if l.registry.has name || l.defining.contains name then
      l.reject (.instantiate name .alreadyDefined)
    else
      startInline { l with defining := name :: l.defining } (.define name options.mode)
        name source (some name) options

/-- Begin a script from a source at hand. -/
def startNamedScript (l : Loader) (source : String) (options : RequestOptions) :
    Activity × Loader :=
  let start (name : String) (l : Loader) : Activity × Loader :=
    l.startScript { Load.start name .script (l.metadataOf options) with
      referrer := options.referrer
      address := options.address
      source := some source }
  match options.name with
  | none =>
    let (name, l) := l.freshName
    start name l
  | some given =>
    match l.nameOf given options.referrer with
    | .error e => l.reject e
    | .ok name => start name l

/-- Begin a request. -/
def start (l : Loader) (request : Request) : Activity × Loader :=
  let options := request.options
  match request.demand with
  | .importModule specifier => l.startImport specifier options
  | .define name source => l.startDefine name source options
  | .script source => l.startNamedScript source options
  | .module source =>
    let (name, l) := l.freshName
    l.startInline .module name source options.referrer options
  | .scriptAt specifier =>
    match l.nameOf specifier options.referrer with
    | .error e => l.reject e
    | .ok name =>
      l.startScript { Load.start name .script (l.metadataOf options) with
        referrer := options.referrer }

/-- Let a request for modules go on until it has to wait. -/
def advance (budget : Nat) (l : Loader) : Activity → Activity × Loader
  | .root name metadata id => advanceRoot budget l name metadata id
  | .graph purpose task => advanceGraph budget l purpose task
  | .branches name metadata branches => advanceBranches budget l name metadata branches
  | a => (a, l)

/-- Give a request a turn. -/
def turn (budget : Nat) (l : Loader) : Activity → Activity × Loader
  | .delayed (turns + 1) request => (.delayed turns request, l)
  | .delayed 0 request =>
    let (a, l) := l.start request
    advance budget l a
  | .script load address (turns + 1) => (.script load address turns, l)
  | .script load address 0 => l.receiveScript load address
  | a => advance budget l a

end Loader

end ModuleLoader

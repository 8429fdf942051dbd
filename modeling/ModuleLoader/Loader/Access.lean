import ModuleLoader.Loader.Basic

/-! # Access to a loader

Names, single stages, registered modules and settings, apart from requests.
-/

namespace ModuleLoader.Loader

/-- The canonical name of a specifier; a failure is reported. -/
def normalize (l : Loader) (specifier : String) (referrer : Option String) :
    Except LoadError String × Loader :=
  l.reported (l.nameOf specifier referrer)

/-- A load of a name with the settings of the loader. -/
def newLoad (l : Loader) (name : String) (kind : SourceKind) : Load :=
  .start name kind ⟨l.options.baseUrl, l.options.sourceMaps, .empty⟩

/-- The address of a load. -/
def locate (l : Loader) (load : Load) : Except LoadError String × Loader :=
  l.reported (l.stages.locate load)

/-- The source of a load. -/
def fetch (l : Loader) (load : Load) : Except LoadError String × Loader :=
  match l.stages.fetch load with
  | .error e => l.reported (.error e)
  | .ok (.given text) => (.ok text, l)
  | .ok (.stored address) => (l.note (.asked address)).reported (l.files.text address)

/-- The code of a load. -/
def compile (l : Loader) (load : Load) : Except LoadError Compiled × Loader :=
  l.reported (l.stages.compile load)

/-- The instantiation of a load, if it has one ahead of its code. -/
def instantiate (l : Loader) (load : Load) :
    Except LoadError (Option Instantiation) × Loader :=
  l.reported (l.stages.instantiate load)

/-- The namespace of a registered module, which is evaluated if it was not. -/
def get (l : Loader) (name : String) : Except LoadError (Option Namespace) × Loader :=
  if l.registry.has name then
    let (result, l) := l.evaluate name
    l.reported (result.map some)
  else (.ok none, l)

/-- Register a namespace under a name, in place of any record. -/
def set (l : Loader) (name : String) (ns : Namespace) : Loader :=
  { l with registry := l.registry.setEvaluated name ns }

/-- Remove the record of a name, and tell whether there was one. -/
def delete (l : Loader) (name : String) : Bool × Loader :=
  (l.registry.has name, { l with registry := l.registry.delete name })

/-- Make a namespace of exports. -/
def namespaceOf (l : Loader) (exports : Dict Value) : Namespace × Loader :=
  let (ns, realm) := l.world.realm.namespaceOf exports
  (ns, { l with world := { l.world with realm := realm } })

/-- Replace the package map. -/
def setMap (l : Loader) (map : PackageMap) : Loader := { l with map := map }

/-- Say whether later loads get source maps. -/
def setSourceMaps (l : Loader) (enabled : Bool) : Loader :=
  { l with options := { l.options with sourceMaps := enabled } }

/-- Say where later loads are located. -/
def setBaseUrl (l : Loader) (base : String) : Loader :=
  { l with options := { l.options with baseUrl := base } }

/-- Say when later definitions run. -/
def setMode (l : Loader) (mode : ModuleMode) : Loader :=
  { l with options := { l.options with mode := mode } }

/-- Forget the reported errors. -/
def clearErrors (l : Loader) : Loader := { l with reporter := l.reporter.clear }

end ModuleLoader.Loader

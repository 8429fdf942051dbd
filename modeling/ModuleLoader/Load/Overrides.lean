import ModuleLoader.Load.Stages

/-! # Overrides

Fixed answers that take the place of a stage for loads of certain names. Loads of other names go
through the stage itself.
-/

namespace ModuleLoader

open Dialect

/-- Code: a given text, the text that the metadata hold under a key, or a refusal. -/
inductive FixedCode where
  | given (text : String)
  | extra (key : String)
  | refuse (reason : String)

/-- An instantiation: a value, code to link, whose requests may be replaced, or a refusal. -/
inductive FixedInstantiation where
  | value (v : Value)
  | module (code : String) (requests : Option (List String))
  | refuse (reason : String)

/-- Fixed answers by the names of loads. Addresses and sources may be refused with a reason. -/
structure Overrides where
  locate : Dict (Except String String)
  fetch : Dict (Except String String)
  compile : Dict FixedCode
  instantiate : Dict FixedInstantiation

namespace Overrides

/-- No fixed answers. -/
def none : Overrides := ⟨.empty, .empty, .empty, .empty⟩

/-- The code of a load. It has no source map. -/
def codeOf (load : Load) : FixedCode → Except LoadError Compiled
  | .given text => .ok ⟨text, .none⟩
  | .extra key => .ok ⟨((load.metadata.extra.get? key).bind Json.text?).getD "", .none⟩
  | .refuse reason => .error (.compile load.name .none (.refused reason))

/-- The instantiation of a load. -/
def instantiation (load : Load) : FixedInstantiation → Except LoadError (Option Instantiation)
  | .value v => .ok (some (.value v))
  | .module code requests => do
    let m ← link load.name code
    return some (.module { m with requests := requests.getD m.requests })
  | .refuse reason => .error (.instantiate load.name (.refused reason))

/-- Put fixed answers in front of stages. -/
def inFrontOf (o : Overrides) (s : Stages) : Stages where
  locate load :=
    match o.locate.get? load.name with
    | some (.ok address) => .ok address
    | some (.error reason) => .error (.fetch load.name (.refused reason))
    | .none => s.locate load
  fetch load :=
    match o.fetch.get? load.name with
    | some (.ok text) => .ok (.given text)
    | some (.error reason) => .error (.fetch load.url (.refused reason))
    | .none => s.fetch load
  compile load :=
    match o.compile.get? load.name with
    | some fixed => codeOf load fixed
    | .none => s.compile load
  instantiate load :=
    match o.instantiate.get? load.name with
    | some fixed => instantiation load fixed
    | .none => s.instantiate load

end Overrides

end ModuleLoader

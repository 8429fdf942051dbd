import ModuleLoader.Dialect.Compiler
import ModuleLoader.Json.Basic

/-! # Loads

A load is one attempt to bring a unit from its name to code that can run. It gains an address, a
source text, code and perhaps a result of its own on its way.
-/

namespace ModuleLoader

open Dialect

/-- What all loads of a request have in common. -/
structure Metadata where
  baseUrl : String
  sourceMaps : Bool
  extra : Dict Json

/-- What a load may be instantiated as without running its code. -/
inductive Instantiation where
  | module (m : Linked)
  | value (v : Value)

/-- An attempt to load a unit. -/
structure Load where
  name : String
  kind : SourceKind
  metadata : Metadata
  referrer : Option String
  address : Option String
  source : Option String
  code : Option String
  sourceMap : Option SourceMap
  instantiation : Option Instantiation

namespace Load

/-- A load that knows nothing but its name. -/
def start (name : String) (kind : SourceKind) (metadata : Metadata) : Load :=
  ⟨name, kind, metadata, none, none, none, none, none, none⟩

/-- Where the source of a load is listed: its address, or its name if it has none. -/
def url (load : Load) : String := load.address.getD load.name

end Load

end ModuleLoader

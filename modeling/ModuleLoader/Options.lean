import ModuleLoader.PackageMap
import ModuleLoader.Json.Reader
import ModuleLoader.Text.Blank

/-! # Loader options

Options are read from JSON, where every field may be missing, and overridden by variables of the
environment. The extension has to begin with a point and the base name may not be relative.
-/

namespace ModuleLoader

open Text

/-- Whether a defined module is run at once or when it is first imported. -/
inductive ModuleMode where
  | register
  | instantiate
deriving DecidableEq, Repr

/-- The options of a loader. -/
structure Options where
  baseUrl : String
  baseName : String
  extension : String
  sourceMaps : Bool
  mode : ModuleMode
  map : PackageMap

namespace ModuleMode

/-- The word for a mode. -/
def word : ModuleMode → String
  | register => "register"
  | instantiate => "instantiate"

/-- The mode of a word. -/
def ofWord (s : String) : Except LoadError ModuleMode :=
  if s = "register" then .ok register
  else if s = "instantiate" then .ok instantiate
  else .error (.config (.unknownMode s))

/-- The mode that a JSON value names: its word, or an object with the word as its only key. -/
def ofJson? (j : Json) : Option ModuleMode :=
  match j with
  | .string (some s) => (ofWord s).toOption
  | .object [(some s, .null)] => (ofWord s).toOption
  | _ => none

end ModuleMode

namespace Options

/-- The options of a loader that is told nothing. -/
def default : Options := ⟨"./", "", ".js", false, .register, .empty⟩

/-- Refuse options that contradict the rules. -/
def check (o : Options) : Except LoadError Options :=
  if o.extension ≠ "" ∧ o.extension.toList.head? ≠ some '.' then
    .error (.config (.extension o.extension))
  else if startsWith ['.', '/'] o.baseName.toList ∨
      startsWith ['.', '.', '/'] o.baseName.toList then
    .error (.config (.baseName o.baseName))
  else .ok o

/-- The fields of options in order. -/
def fieldNames : List String :=
  ["baseURL", "baseName", "defaultExtension", "sourceMaps", "modules", "map"]

/-- The options that a JSON value describes. -/
def ofJson? (j : Json) : Option Options := do
  let fields ← j.fields? fieldNames
  let baseUrl ← Json.field? fields "baseURL" Json.text? (some default.baseUrl)
  let baseName ← Json.field? fields "baseName" Json.text? (some default.baseName)
  let extension ← Json.field? fields "defaultExtension" Json.text? (some default.extension)
  let sourceMaps ← Json.field? fields "sourceMaps" Json.bool? (some default.sourceMaps)
  let mode ← Json.field? fields "modules" ModuleMode.ofJson? (some default.mode)
  let map ← Json.field? fields "map" PackageMap.ofJson? (some default.map)
  return ⟨baseUrl, baseName, extension, sourceMaps, mode, map⟩

/-- Read options. -/
def read (text : String) : Except LoadError Options :=
  match (Json.read? text.toList).bind ofJson? with
  | some o => o.check
  | none => .error (.config .malformed)

/-- Read the options in a file. -/
def readAt (read : List UInt8 → Except SystemError String) (path : String) :
    Except LoadError Options :=
  match read (utf8 path.toList) with
  | .ok text => Options.read text
  | .error e => .error (.config (.cannotRead path e))

/-- Read a truth value, in any case and with blanks around it. -/
def readFlag? (s : String) : Option Bool :=
  let word := String.ofList ((trim s.toList).map Char.toLower)
  if ["1", "true", "yes", "on"].contains word then some true
  else if ["0", "false", "no", "off"].contains word then some false
  else none

/-- Override options by variables of the environment. -/
def override (o : Options) (environment : String → Option String) : Except LoadError Options := do
  let o := match environment "FERRULE_BASE_URL" with
    | some base => { o with baseUrl := base }
    | none => o
  let o ← match environment "FERRULE_SOURCE_MAPS" with
    | some s =>
      match readFlag? s with
      | some flag => pure { o with sourceMaps := flag }
      | none => throw (.config (.sourceMapsFlag s))
    | none => pure o
  let o ← match environment "FERRULE_MODULES" with
    | some s => do
      let mode ← ModuleMode.ofWord s
      pure { o with mode := mode }
    | none => pure o
  o.check

end Options

end ModuleLoader

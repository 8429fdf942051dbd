import ModuleLoader.SourceMap.Basic
import ModuleLoader.Json.Reader

/-! # Source maps as JSON

A source map is written as an object with its fields in a fixed order. Texts of sources and names
may be missing when it is read.
-/

namespace ModuleLoader.SourceMap

/-- The fields of a source map in order. -/
def fieldNames : List String :=
  ["version", "file", "sources", "sourcesContent", "names", "mappings"]

/-- A list of texts. -/
def textsJson (l : List String) : Json := .array (l.map fun s => .string (some s))

/-- A source map as a JSON value. -/
def toJson (m : SourceMap) : Json :=
  .object [
    (some "version", .number (Nat.toDigits 10 m.version.toNat)),
    (some "file", .string (some m.file)),
    (some "sources", textsJson m.sources),
    (some "sourcesContent", .array (m.contents.map fun
      | some s => .string (some s)
      | none => .null)),
    (some "names", textsJson m.names),
    (some "mappings", .string (some m.mappings))]

/-- The text of a source that may be missing. -/
def contentOfJson? : Json → Option (Option String)
  | .null => some none
  | j => j.text?.map some

/-- The source map that a JSON value describes. -/
def ofJson? (j : Json) : Option SourceMap := do
  let fields ← j.fields? fieldNames
  let version ← Json.field? fields "version" Json.byte? none
  let file ← Json.field? fields "file" Json.text? none
  let sources ← Json.field? fields "sources" Json.texts? none
  let contents ← Json.field? fields "sourcesContent"
    (fun j => j.items?.bind fun items => items.mapM contentOfJson?) (some [])
  let names ← Json.field? fields "names" Json.texts? (some [])
  let mappings ← Json.field? fields "mappings" Json.text? none
  return ⟨version, file, sources, contents, names, mappings⟩

/-- Write a source map. -/
def write (m : SourceMap) : String := String.ofList m.toJson.write

/-- Read a source map. -/
def read? (text : String) : Option SourceMap := (Json.read? text.toList).bind ofJson?

end ModuleLoader.SourceMap

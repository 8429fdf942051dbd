import ModuleLoader.Proofs.Dialect.LineOrigins
import ModuleLoader.Proofs.Json.Values
import ModuleLoader.SourceMap.Json

/-! # Source maps written and read back

A source map is the same after it has been written as JSON and read back, whatever characters its
texts consist of. So the text of a source that was compiled with a source map can be had from the
document alone.
-/

namespace ModuleLoader

namespace Json

/-- An object whose keys are fields, none twice, is the record of its members. -/
theorem fields?_object {names : List String} (members : List (String × Json))
    (hnames : ∀ m ∈ members, m.1 ∈ names) (hnodup : (members.map (·.1)).Nodup) :
    (object (members.map fun m => (some m.1, m.2))).fields? names = some (Dict.ofList members) := by
  have hkeyed : (members.map fun m => (some m.1, m.2)).mapM keyed? = some members :=
    mapM_eq_some_iff.2 (by rw [List.map_map]; rfl)
  have hknown : (members.filter fun m => names.contains m.1) = members :=
    List.filter_eq_self.2 fun m hm => List.contains_iff_mem.2 (hnames m hm)
  rw [fields?, hkeyed]
  simp only [Option.bind_eq_bind, Option.bind_some, hknown, if_pos hnodup]

theorem byte?_toDigits (v : UInt8) : (number (Nat.toDigits 10 v.toNat)).byte? = some v := by
  have hdigits : (Nat.toDigits 10 v.toNat).all Char.isDigit = true :=
    List.all_eq_true.2 fun c hc => Nat.isDigit_of_mem_toDigits (by decide) (by decide) hc
  have hvalue : (Nat.toDigits 10 v.toNat).foldl (fun n c => 10 * n + (c.toNat - 48)) 0 = v.toNat :=
    Nat.ofDigitChars_ten_toDigits
  simp only [byte?, if_pos hdigits, hvalue, if_pos v.toNat_lt, UInt8.ofNat_toNat]

theorem texts?_map (l : List String) :
    (array (l.map fun s => .string (some s))).texts? = some l :=
  mapM_eq_some_iff.2 (by rw [List.map_map]; rfl)

end Json

namespace SourceMap

/-- The text of a source, or nothing where it is missing. -/
def contentJson : Option String → Json
  | some s => .string (some s)
  | none => .null

/-- The fields of a source map and their values. -/
def members (m : SourceMap) : List (String × Json) :=
  [("version", .number (Nat.toDigits 10 m.version.toNat)), ("file", .string (some m.file)),
    ("sources", textsJson m.sources), ("sourcesContent", .array (m.contents.map contentJson)),
    ("names", textsJson m.names), ("mappings", .string (some m.mappings))]

theorem told_textsJson (l : List String) : (textsJson l).Told :=
  Json.told_array (f := fun s => .string (some s)) (fun _ => rfl) l

theorem told_contentJson (s : Option String) : (contentJson s).Told := by
  cases s with
  | none => trivial
  | some s => rfl

theorem mapM_contentJson (l : List (Option String)) :
    (l.map contentJson).mapM contentOfJson? = some l := by
  have hread : contentOfJson? ∘ contentJson = some := funext fun s => by cases s <;> rfl
  exact mapM_eq_some_iff.2 (by rw [List.map_map, hread])

variable (m : SourceMap)

theorem toJson_eq : m.toJson = .object (m.members.map fun f => (some f.1, f.2)) := rfl

theorem told_toJson : m.toJson.Told := by
  rw [toJson_eq]
  refine Json.told_object fun f hf => ?_
  simp only [members, List.mem_cons, List.not_mem_nil, or_false] at hf
  rcases hf with rfl | rfl | rfl | rfl | rfl | rfl
  · exact ⟨_, rfl⟩
  · rfl
  · exact told_textsJson m.sources
  · exact Json.told_array told_contentJson m.contents
  · exact told_textsJson m.names
  · rfl

theorem fields?_toJson : m.toJson.fields? fieldNames = some (.ofList m.members) :=
  Json.fields?_object m.members (by simp [members, fieldNames]) (by simp [members])

/-- A field is read from the value that the map has for it. -/
theorem field?_members {α : Type} {name : String} {j : Json} {read : Json → Option α}
    (missing : Option α) (h : Dict.find name m.members = some j) :
    Json.field? (.ofList m.members) name read missing = read j := by
  rw [Json.field?, Dict.get?_ofList (by simp [members]), h]

/-- A source map is had back from its JSON value. -/
theorem ofJson?_toJson : ofJson? m.toJson = some m := by
  have hversion : Json.field? (.ofList m.members) "version" Json.byte? none = some m.version :=
    (m.field?_members none rfl).trans (Json.byte?_toDigits m.version)
  have hfile : Json.field? (.ofList m.members) "file" Json.text? none = some m.file :=
    (m.field?_members none rfl).trans rfl
  have hsources : Json.field? (.ofList m.members) "sources" Json.texts? none = some m.sources :=
    (m.field?_members none rfl).trans (Json.texts?_map m.sources)
  have hcontents : Json.field? (.ofList m.members) "sourcesContent"
      (fun j => j.items?.bind fun items => items.mapM contentOfJson?) (some []) = some m.contents :=
    (m.field?_members (j := .array (m.contents.map contentJson)) _ rfl).trans
      (mapM_contentJson m.contents)
  have hnames : Json.field? (.ofList m.members) "names" Json.texts? (some []) = some m.names :=
    (m.field?_members _ rfl).trans (Json.texts?_map m.names)
  have hmappings : Json.field? (.ofList m.members) "mappings" Json.text? none = some m.mappings :=
    (m.field?_members none rfl).trans rfl
  simp only [ofJson?, fields?_toJson, hversion, hfile, hsources, hcontents, hnames, hmappings,
    Option.bind_eq_bind, Option.bind_some, Option.pure_def]

/-- A source map is read back from what is written. -/
theorem read?_write : read? m.write = some m := by
  rw [read?, write, String.toList_ofList, Json.read?_write m.told_toJson, Option.bind_some,
    ofJson?_toJson]

end SourceMap

namespace Dialect

/-- Every source map is had back from its document, and with it the text of each source that was
compiled with a map. -/
theorem source_survives_writing :
    (∀ m : SourceMap, SourceMap.read? m.write = some m) ∧
      ∀ {source : String} {options : CompileOptions} {compiled : Compiled},
        compile source options = .ok compiled → options.sourceMap = true →
        ∃ m, compiled.sourceMap = some m ∧
          (SourceMap.read? m.write).bind (·.contentOf? options.url) = some source := by
  refine ⟨SourceMap.read?_write, fun {source options compiled} h hmap => ?_⟩
  rw [compile_eq, map_eq_ok_iff] at h
  obtain ⟨p, -, rfl⟩ := h
  refine ⟨_, if_pos hmap, ?_⟩
  rw [SourceMap.read?_write, Option.bind_some, SourceMap.contentOf?_ofLines]

/-- A comment with a quotation mark, a backslash, a control character and letters of two and four
bytes, and a statement. -/
def markedSource : String :=
  String.ofList ['/', '/', '"', '\\', '\x01', '\t', 'é', '😀', '\n', 'x', ';']

theorem source_survives_writing_marked :
    ∃ compiled m, compile markedSource ⟨.module, true, "unit", "unit.js"⟩ = .ok compiled ∧
      compiled.sourceMap = some m ∧
      (SourceMap.read? m.write).bind (·.contentOf? "unit.js") = some markedSource := by
  have hcompiles : (compile markedSource ⟨.module, true, "unit", "unit.js"⟩).toOption.isSome :=
    by decide +kernel
  obtain ⟨compiled, hc⟩ := Option.isSome_iff_exists.1 hcompiles
  rw [toOption_eq_some_iff] at hc
  obtain ⟨m, hm, hread⟩ := source_survives_writing.2 hc rfl
  exact ⟨compiled, m, hc, hm, hread⟩

end Dialect

end ModuleLoader

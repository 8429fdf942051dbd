import ModuleLoader.Dict
import ModuleLoader.Error
import ModuleLoader.Url.Parser

/-! # Files

A loader asks for texts by address, and may have to wait for an answer. Texts come from a table of
addresses, or from local files, which are addressed by path or by `file` URL.
-/

namespace ModuleLoader

open Text

/-- What the files answer for an address, and for how many turns a request for it has to wait. -/
structure Files where
  text : String → Except LoadError String
  latency : String → Nat

/-- Texts by address. -/
structure FileTable where
  files : Dict String

namespace FileTable

/-- The table without texts. -/
def empty : FileTable := ⟨.empty⟩

instance : Inhabited FileTable := ⟨empty⟩

/-- Put a text under an address, in place of an older one. -/
def insert (t : FileTable) (address text : String) : FileTable :=
  ⟨t.files.insert address text⟩

/-- Remove the text of an address. -/
def erase (t : FileTable) (address : String) : FileTable := ⟨t.files.erase address⟩

/-- The text of an address, if there is one. -/
def get? (t : FileTable) (address : String) : Option String := t.files.get? address

/-- The number of texts. -/
def size (t : FileTable) : Nat := t.files.size

/-- Whether there are no texts. -/
def isEmpty (t : FileTable) : Bool := t.files.isEmpty

/-- A table of texts. -/
def ofList (files : List (String × String)) : FileTable := ⟨.ofList files⟩

/-- Fetch the text of an address. -/
def fetch (t : FileTable) (address : String) : Except LoadError String :=
  match t.files.get? address with
  | some text => .ok text
  | none => .error (.fetch address .noSuchFile)

end FileTable

namespace Files

/-- The path of the local file that an address names, in bytes. -/
def localPath (address : String) : Except LoadError (List UInt8) :=
  if isAbsoluteUrl address.toList then
    match Url.read address.toList with
    | .error e => .error (.fetch address (.badUrl e))
    | .ok u =>
      if ¬ Url.isFile u.scheme then
        .error (.fetch address (.unsupportedScheme (String.ofList u.scheme)))
      else if u.host = .name [] ∨ u.host = .name "localhost".toList then
        .ok (Url.decode u.path)
      else .error (.fetch address .notLocal)
  else .ok (utf8 address.toList)

/-- Fetch the text of a local file. -/
def fetchLocal (read : List UInt8 → Except SystemError String) (address : String) :
    Except LoadError String := do
  let path ← localPath address
  match read path with
  | .ok text => return text
  | .error e => throw (.fetch address (.system e))

/-- The files of a table that answers after some turns. -/
def ofTable (t : FileTable) (latency : Nat) : Files := ⟨t.fetch, fun _ => latency⟩

/-- Local files. The system takes one turn to read a file, in addition to other latency. -/
def ofLocal (read : List UInt8 → Except SystemError String) (latency : Nat) : Files :=
  ⟨fetchLocal read, fun _ => latency + 1⟩

end Files

end ModuleLoader

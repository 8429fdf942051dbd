import ModuleLoader.Dict
import ModuleLoader.Error
import ModuleLoader.Text.Segment
import ModuleLoader.Text.Utf8

/-! # File trees

A tree of text files below a working directory. A path is followed segment by segment; directories
exist where files are below them. Nothing is known above the working directory but that there are
directories, and below the root the directories that every system has.
-/

namespace ModuleLoader

open Text

/-- Text files by their path below the working directory. -/
structure FileTree where
  files : Dict String

namespace FileTree

/-- What a path leads to: a file, a directory of the tree, a directory above it, or a directory of
the system, the root included. -/
inductive Node where
  | file (text : String)
  | directory (path : List (List Char))
  | above
  | system (path : List (List Char))
deriving DecidableEq, Repr

/-- The directories that every system has below the root. -/
def systemDirectories : List String :=
  ["bin", "boot", "dev", "etc", "home", "lib", "media", "mnt", "opt", "proc", "run", "sbin", "srv",
    "sys", "tmp", "usr", "usr/bin", "usr/lib", "usr/local", "usr/sbin", "usr/share", "var",
    "var/cache", "var/lib", "var/log", "var/tmp"]

/-- The tree without files. -/
def empty : FileTree := ⟨.empty⟩

instance : Inhabited FileTree := ⟨empty⟩

/-- A path without the segments that lead nowhere. -/
def plain (path : String) : String :=
  String.ofList (joined '/' ((segments '/' path.toList).filter fun s => s ≠ [] ∧ s ≠ ['.']))

/-- Write a file. -/
def insert (t : FileTree) (path text : String) : FileTree := ⟨t.files.insert (plain path) text⟩

/-- Remove a file. -/
def erase (t : FileTree) (path : String) : FileTree := ⟨t.files.erase (plain path)⟩

/-- The text of the file at a path, if there is one. -/
def get? (t : FileTree) (path : String) : Option String := t.files.get? (plain path)

/-- The number of files. -/
def size (t : FileTree) : Nat := t.files.size

/-- Whether there are no files. -/
def isEmpty (t : FileTree) : Bool := t.files.isEmpty

/-- A tree of files. -/
def ofList (files : List (String × String)) : FileTree :=
  files.foldl (fun t f => t.insert f.1 f.2) empty

/-- The entry of a directory of the tree under a name. -/
def child (t : FileTree) (path : List (List Char)) : Except SystemError Node :=
  let spelled := joined '/' path
  match t.files.get? (String.ofList spelled) with
  | some text => .ok (.file text)
  | none =>
    if t.files.keys.any fun key => startsWith (spelled ++ ['/']) key.toList then
      .ok (.directory path)
    else .error .notFound

/-- The entry of a directory of the system. The one file that every system has is empty. -/
def systemChild (path : List (List Char)) : Except SystemError Node :=
  let spelled := String.ofList (joined '/' path)
  if spelled ∈ systemDirectories then .ok (.system path)
  else if spelled = "dev/null" then .ok (.file "")
  else .error .notFound

/-- Go one directory up. The root is above itself. -/
def Node.up : Node → Except SystemError Node
  | .file _ => .error .notDirectory
  | .above => .ok .above
  | .directory path => if path = [] then .ok .above else .ok (.directory path.dropLast)
  | .system path => .ok (.system path.dropLast)

/-- Go one segment further. No entry has a name of more than 255 bytes, or one that is no text. -/
def enter (t : FileTree) (here : Node) (segment : List UInt8) : Except SystemError Node :=
  match here, ofUtf8? segment with
  | .file _, _ => .error .notDirectory
  | here, some [] => .ok here
  | here, some ['.'] => .ok here
  | here, some ['.', '.'] => here.up
  | here, name =>
    if 255 < segment.length then .error .nameTooLong
    else match here, name with
      | .directory path, some name => t.child (path ++ [name])
      | .system path, some name => systemChild (path ++ [name])
      | _, _ => .error .notFound

/-- The text of the file that a path leads to. A path has less than 4096 bytes. -/
def read (t : FileTree) (path : List UInt8) : Except SystemError String := do
  if 0 ∈ path then throw .zeroByte
  if path = [] then throw .notFound
  if 4096 ≤ path.length then throw .nameTooLong
  let slash := '/'.toUInt8
  let start := if path.head? = some slash then Node.system [] else .directory []
  match ← (segments slash path).foldlM t.enter start with
  | .file text => return text
  | _ => throw .isDirectory

end FileTree

end ModuleLoader

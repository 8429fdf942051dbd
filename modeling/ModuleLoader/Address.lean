import ModuleLoader.Error
import ModuleLoader.Url.Parser

/-! # Addresses

The address of a module is its canonical name with an extension, below a base, which is a URL or a
directory.
-/

namespace ModuleLoader.Address

open Text

/-- A name with the extension at its end. -/
def withExtension (extension name : List Char) : List Char :=
  if endsWith extension name then name else name ++ extension

/-- The address of a path below a URL. A path without a slash in front is kept from being read as a
URL of its own. -/
def belowUrl (base path : List Char) : Except UrlError (List Char) := do
  let base ← Url.read (if base.getLast? = some '/' then base else base ++ ['/'])
  let joined ← base.join (if path.head? = some '/' then path else '.' :: '/' :: path)
  return joined.text

/-- The address of a path below a directory. -/
def belowDirectory (base path : List Char) : List Char :=
  if path.head? = some '/' ∨ base = [] then path
  else
    let directory := (dropStart? ['.', '/'] base).getD base
    if directory = [] then path
    else directory ++ (if base.getLast? = some '/' then [] else ['/']) ++ path

/-- The address of a name. -/
def locate (extension base name : String) : Except LoadError String :=
  let path := withExtension extension.toList name.toList
  if isAbsoluteUrl path then .ok (String.ofList path)
  else if isAbsoluteUrl base.toList then
    match belowUrl base.toList path with
    | .ok address => .ok (String.ofList address)
    | .error e => .error (.fetch name (.badUrl e))
  else .ok (String.ofList (belowDirectory base.toList path))

end ModuleLoader.Address

import ModuleLoader.Error
import ModuleLoader.PackageMap
import ModuleLoader.Url.Parser

/-! # Specifiers and canonical names

A specifier is what an import statement says; its canonical name is what the loader files the module
under. Relative specifiers start from the directory of the referrer, URLs are brought into canonical
form, and all other specifiers stand for themselves. The package map has the last word.
-/

namespace ModuleLoader

open Text

/-- The shapes of specifiers. -/
inductive SpecifierKind where
  | relative
  | scoped
  | bare
  | url
deriving DecidableEq, Repr

namespace Specifier

/-- The shape of a specifier. -/
def kindOf (cs : List Char) : SpecifierKind :=
  if cs = ['.'] ∨ cs = ['.', '.'] ∨ startsWith ['.', '/'] cs ∨ startsWith ['.', '.', '/'] cs then
    .relative
  else if cs.head? = some '@' then .scoped
  else if isAbsoluteUrl cs then .url
  else .bare

/-- Characters that no specifier may hold. -/
def isIllegal (c : Char) : Bool := isBlank c || isControl c || c = '\\'

/-- Refuse what no specifier may be: nothing, a text with illegal characters, or one with a slash
at its end. -/
def check (cs : List Char) : Except ResolutionCause Unit :=
  if cs = [] then .error .emptySpecifier
  else match cs.find? isIllegal with
    | some c => .error (.illegalCharacter c)
    | none => if 1 < cs.length ∧ cs.getLast? = some '/' then .error .trailingSlash else .ok ()

/-- A scoped name has a scope, a slash and a name. -/
def checkScoped (cs : List Char) : Except ResolutionCause Unit :=
  let (scope, package) := cutFirst '/' cs.tail
  match package with
  | some (c :: _) => if scope = [] ∨ c = '/' then .error .scopedForm else .ok ()
  | _ => .error .scopedForm

/-- Walk from a directory along segments. Two points lead one directory up, but not above the root,
which is the empty directory, or the leading empty segment of a rooted one. -/
def walk (rooted : Bool) (dir : List (List Char)) :
    List (List Char) → Except ResolutionCause (List (List Char))
  | [] => .ok dir
  | s :: rest =>
    if s = [] ∨ s = ['.'] then walk rooted dir rest
    else if s = ['.', '.'] then
      if dir = [] ∨ (rooted ∧ dir.length = 1) then .error .aboveRoot
      else walk rooted dir.dropLast rest
    else walk rooted (dir ++ [s]) rest

/-- The name at the end of a path that starts from a directory. -/
def follow (dir : List (List Char)) (path : List Char) : Except ResolutionCause (List Char) := do
  let reached ← walk (dir.head? = some []) dir (segments '/' path)
  let name := joined '/' reached
  if name = [] then throw .emptyName
  return name

/-- The canonical form of a URL. -/
def canonicalUrl (cs : List Char) : Except ResolutionCause (List Char) :=
  match Url.read cs with
  | .ok u => .ok u.text
  | .error e => .error (.badUrl e)

/-- What a reference means at a URL. -/
def followUrl (base reference : List Char) : Except ResolutionCause (List Char) :=
  match Url.read base with
  | .error e => .error (.badReferrer e)
  | .ok u =>
    match u.join reference with
    | .error e => .error (.badUrl e)
    | .ok joined => .ok joined.text

/-- A URL with a slash at its end. -/
def asDirectory (cs : List Char) : List Char :=
  if cs.getLast? = some '/' then cs else cs ++ ['/']

/-- The directory that a base name denotes. -/
def baseDirectory (baseName : List Char) : List (List Char) :=
  let dir := (segments '/' baseName).filter (· ≠ [])
  if baseName.head? = some '/' then [] :: dir else dir

/-- What a relative specifier means for a referrer, or at the base name if there is none. -/
def resolveRelative (baseName : List Char) (cs : List Char) (referrer : Option (List Char)) :
    Except ResolutionCause (List Char) :=
  match referrer with
  | some r =>
    if isAbsoluteUrl r then followUrl r cs else follow (segments '/' r).dropLast cs
  | none =>
    if isAbsoluteUrl baseName then followUrl (asDirectory baseName) cs
    else follow (baseDirectory baseName) cs

/-- What a specifier means before the package map is applied. -/
def resolve (baseName : List Char) (cs : List Char) (referrer : Option (List Char)) :
    Except ResolutionCause (List Char) := do
  check cs
  match kindOf cs with
  | .url => canonicalUrl cs
  | .relative => resolveRelative baseName cs referrer
  | .scoped => do
    checkScoped cs
    follow [] cs
  | .bare => follow (if cs.head? = some '/' then [[]] else []) (cs.dropWhile (· = '/'))

/-- The canonical name of a specifier. -/
def normalize (baseName : String) (map : PackageMap) (specifier : String)
    (referrer : Option String) : Except LoadError String := do
  match resolve baseName.toList specifier.toList (referrer.map String.toList) with
  | .error cause => throw (.resolution specifier cause)
  | .ok name => map.apply (String.ofList name) referrer

end Specifier

end ModuleLoader

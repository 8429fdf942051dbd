import ModuleLoader.PackageMap
import ModuleLoader.Text.Hidden

/-! # Versions and versioned names

A version is three numbers, an optional pre-release behind a hyphen and optional build metadata
behind a plus sign. A versioned name has a version behind the `@` of its package segment; the
package alone and with one or two numbers of the version are aliases of it.
-/

namespace ModuleLoader

/-- A version of three numbers of 64 bits. -/
structure Version where
  major : Nat
  minor : Nat
  patch : Nat
  pre : String
  build : String
deriving DecidableEq, Repr

/-- The parts of a version. -/
inductive VersionPart where
  | major
  | minor
  | patch
  | pre
  | build
deriving DecidableEq, Repr

/-- Why a text is no version. -/
inductive VersionCause where
  | empty
  | unexpectedEnd (part : VersionPart)
  | unexpectedIn (c : Char) (part : VersionPart)
  | unexpectedAfter (c : Char) (part : VersionPart)
  | leadingZero (part : VersionPart)
  | tooLarge (part : VersionPart)
  | emptySegment (part : VersionPart)
deriving DecidableEq, Repr

/-- What a part is called. -/
def VersionPart.describe : VersionPart → String
  | major => "major version number"
  | minor => "minor version number"
  | patch => "patch version number"
  | pre => "pre-release identifier"
  | build => "build metadata"

/-- The wording of a version error. -/
def VersionCause.message : VersionCause → String
  | empty => "empty string, expected a semver version"
  | unexpectedEnd part => "unexpected end of input while parsing " ++ part.describe
  | unexpectedIn c part =>
    "unexpected character " ++ Text.quotedChar c ++ " while parsing " ++ part.describe
  | unexpectedAfter c part =>
    "unexpected character " ++ Text.quotedChar c ++ " after " ++ part.describe
  | leadingZero part => "invalid leading zero in " ++ part.describe
  | tooLarge part => "value of " ++ part.describe ++ " exceeds u64::MAX"
  | emptySegment part => "empty identifier segment in " ++ part.describe

namespace Version

/-- The number of a row of digits that begins with `value`, unless a zero leads it or it takes more
than 64 bits; of two faults the first in the text counts. -/
def numberFrom (part : VersionPart) (value : Nat) : List Char → Except VersionCause Nat
  | [] => .ok value
  | c :: rest =>
    if value = 0 then .error (.leadingZero part)
    else
      let next := 10 * value + (c.toNat - 48)
      if next < Nat.pow 2 64 then numberFrom part next rest else .error (.tooLarge part)

/-- A number without leading zeros, and what follows. -/
def number (part : VersionPart) (cs : List Char) : Except VersionCause (Nat × List Char) :=
  match cs with
  | [] => .error (.unexpectedEnd part)
  | c :: rest =>
    if c.isDigit then
      (numberFrom part (c.toNat - 48) (rest.takeWhile Char.isDigit)).map fun n =>
        (n, rest.dropWhile Char.isDigit)
    else .error (.unexpectedIn c part)

/-- The point behind a part. -/
def point (part : VersionPart) : List Char → Except VersionCause (List Char)
  | [] => .error (.unexpectedEnd part)
  | c :: rest => if c = '.' then .ok rest else .error (.unexpectedAfter c part)

/-- Characters of identifiers. -/
def isIdentifier (c : Char) : Bool := c.isAlphanum || c = '-'

/-- Segments of identifier characters between points. A pre-release has no segment of digits with a
leading zero; of two faults the first in the text counts. -/
def checkSegments (part : VersionPart) : List (List Char) → Except VersionCause Unit
  | [] => .ok ()
  | s :: rest =>
    if s = [] then .error (.emptySegment part)
    else if part = .pre ∧ 1 < s.length ∧ s.head? = some '0' ∧ s.all Char.isDigit then
      .error (.leadingZero part)
    else checkSegments part rest

/-- The identifier behind the mark that announces it, and what follows. -/
def identifier (part : VersionPart) (cs : List Char) :
    Except VersionCause (List Char × List Char) := do
  let text := cs.takeWhile fun c => isIdentifier c || c = '.'
  checkSegments part (Text.segments '.' text)
  return (text, cs.drop text.length)

/-- An identifier if its mark comes next. -/
def marked (mark : Char) (part : VersionPart) (cs : List Char) :
    Except VersionCause (List Char × List Char) :=
  if cs.head? = some mark then identifier part cs.tail else .ok ([], cs)

/-- Read a version. -/
def read (cs : List Char) : Except VersionCause Version := do
  if cs = [] then throw .empty
  let (major, cs) ← number .major cs
  let cs ← point .major cs
  let (minor, cs) ← number .minor cs
  let cs ← point .minor cs
  let (patch, cs) ← number .patch cs
  let (pre, rest) ← marked '-' .pre cs
  let (build, last) ← marked '+' .build rest
  match last with
  | [] => return ⟨major, minor, patch, String.ofList pre, String.ofList build⟩
  | c :: _ =>
    let part : VersionPart :=
      if rest.head? = some '+' then .build else if cs.head? = some '-' then .pre else .patch
    throw (.unexpectedAfter c part)

end Version

/-- Package, version and path of a versioned name. -/
structure VersionedName where
  package : String
  version : Version
  versionText : String
  subpath : Option String
deriving DecidableEq, Repr

/-- Why a name is not versioned. -/
inductive VersionError where
  | missing (name : String)
  | invalid (version : String) (cause : VersionCause)
deriving DecidableEq, Repr

/-- The wording of a failure to read a versioned name. -/
def VersionError.message : VersionError → String
  | missing name => "no version in '" ++ name ++ "'"
  | invalid version cause => "invalid version '" ++ version ++ "': " ++ cause.message

namespace VersionedName

/-- The scope of a name with its slash, and the rest. A scope without a slash is none. -/
def cutScope? (cs : List Char) : Option (List Char × List Char) :=
  match cs with
  | '@' :: rest =>
    match Text.cutFirst '/' rest with
    | (scope, some behind) => some ('@' :: (scope ++ ['/']), behind)
    | (_, none) => none
  | _ => some ([], cs)

/-- Read a versioned name. -/
def read (name : String) : Except VersionError VersionedName :=
  match cutScope? name.toList with
  | none => .error (.missing name)
  | some (scope, rest) =>
    let (segment, subpath) := Text.cutFirst '/' rest
    match Text.cutFirst '@' segment with
    | (_, none) => .error (.missing name)
    | ([], some _) => .error (.missing name)
    | (package, some version) =>
      match Version.read version with
      | .error cause => .error (.invalid (String.ofList version) cause)
      | .ok v =>
        .ok ⟨String.ofList (scope ++ package), v, String.ofList version,
          subpath.map String.ofList⟩

/-- The package with its version as written. -/
def packageId (n : VersionedName) : String := n.package ++ "@" ++ n.versionText

/-- Package, version and path put together again. -/
def text (n : VersionedName) : String :=
  n.packageId ++ match n.subpath with
    | some path => "/" ++ path
    | none => ""

/-- The rules that lead the aliases of a versioned name to it. -/
def aliases (n : VersionedName) : PackageMap :=
  let major := n.package ++ "@" ++ toString n.version.major
  ((PackageMap.empty.insert n.package n.packageId).insert major n.packageId).insert
    (major ++ "." ++ toString n.version.minor) n.packageId

end VersionedName

/-- The aliases of a name; a name without a version has none. -/
def aliasesOf (name : String) : PackageMap :=
  match VersionedName.read name with
  | .ok n => n.aliases
  | .error _ => .empty

end ModuleLoader

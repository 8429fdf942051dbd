import ModuleLoader.Url.Basic

/-! # Paths of URLs

A path is written segment by segment behind what there is of it. A segment of one point is left out,
a segment of two points takes back the segment before it. A segment that names a drive, as in `C:`,
is not taken back.
-/

namespace ModuleLoader.Url

open Text

/-- Whether a segment names a drive: a letter and a colon or a bar. -/
def namesDrive : List Char → Bool
  | [c, d] => c.isAlpha && (d = ':' || d = '|')
  | _ => false

/-- Whether a segment names a drive with a colon. -/
def isDrive : List Char → Bool
  | [c, d] => c.isAlpha && d = ':'
  | _ => false

/-- Whether a text begins with a segment that names a drive. -/
def startsWithDrive : List Char → Bool
  | c :: d :: rest =>
    c.isAlpha && (d = ':' || d = '|') &&
      match rest with
      | [] => true
      | e :: _ => e = '/' || e = '\\' || e = '?' || e = '#'
  | _ => false

/-- Whether a character separates the segments of a path. -/
def isSlash (special : Bool) (c : Char) : Bool := c = '/' || (special && c = '\\')

/-- How many points a segment is made of, if of one or two. A point may be percent encoded. -/
def dots? (segment : List Char) : Option Nat :=
  match segment.map Char.toLower with
  | ['.'] | ['%', '2', 'e'] => some 1
  | ['.', '.'] | ['%', '2', 'e', '.'] | ['.', '%', '2', 'e'] | ['%', '2', 'e', '%', '2', 'e'] =>
    some 2
  | _ => none

/-- What stands behind the last slash. -/
def lastSegment (path : List Char) : List Char :=
  (path.reverse.takeWhile (· ≠ '/')).reverse

/-- Whether a path ends with a slash. -/
def endsWithSlash (path : List Char) : Bool := path.getLast? = some '/'

/-- Take back what stands behind the last slash. In a file URL a drive stays. -/
def shorten (file : Bool) (path : List Char) : List Char :=
  let segment := lastSegment path
  if file && isDrive segment then path else path.take (path.length - segment.length)

/-- Whether the last slash of a path that ends with one may go: there is a slash before it, and what
stands between them does not begin with a drive. -/
def lastSlashMayGo (path : List Char) : Bool :=
  let segment := lastSegment path.dropLast
  path.dropLast.contains '/' && !startsWithDrive (segment ++ ['/'])

/-- Take back the last segment of a path that may end with a slash. -/
def climb (file : Bool) (path : List Char) : List Char :=
  shorten file (if endsWithSlash path && lastSlashMayGo path then path.dropLast else path)

/-- A path that is being written. A drive was named if a segment of it names one right behind the
first slash. -/
structure PathDraft where
  path : List Char
  driveNamed : Bool

/-- Write a segment behind a path, and tell where it starts. In a file URL a slash is put between a
drive and what follows it. -/
def writeSegment (file : Bool) (path segment : List Char) : List Char × Nat :=
  segment.foldl (fun (path, start) c =>
    if file && isDrive path.tail then (path ++ '/' :: encode pathSet [c], start + 1)
    else (path ++ encode pathSet [c], start)) (path, path.length)

/-- Add a segment to a path, with or without a slash behind it. -/
def addSegment (file : Bool) (draft : PathDraft) (segment : List Char) (slash : Bool) :
    PathDraft :=
  let (path, start) := writeSegment file draft.path segment
  let written := path.drop start
  match dots? written with
  | some 1 =>
    let path := path.take start
    { draft with path := if endsWithSlash path then path else path ++ ['/'] }
  | some _ =>
    let path := climb file (path.take start)
    { draft with path := if slash && !endsWithSlash path then path ++ ['/'] else path }
  | none =>
    let drive := file && start = 1 && namesDrive written
    let path := if drive then path.dropLast ++ [':'] else path
    ⟨if slash then path ++ ['/'] else path, draft.driveNamed || drive⟩

/-- Add a row of segments with slashes between them. -/
def addSegments (file : Bool) (draft : PathDraft) : List (List Char) → PathDraft
  | [] => draft
  | [segment] => addSegment file draft segment false
  | segment :: rest => addSegments file (addSegment file draft segment true) rest

/-- The path of a file URL begins with one slash. -/
def rooted (file : Bool) (path : List Char) : List Char :=
  if file then '/' :: path.dropWhile (· = '/') else path

/-- Write a row of segments behind a path. -/
def writePath (scheme path cs : List Char) : PathDraft :=
  let file := isFile scheme
  let cs := if isSpecial scheme then cs.map fun c => if c = '\\' then '/' else c else cs
  let draft := addSegments file ⟨path, false⟩ (segments '/' cs)
  { draft with path := rooted file draft.path }

/-- Write a path that follows an authority. The path of a special URL is never empty. -/
def writeWhole (scheme cs : List Char) : PathDraft :=
  let special := isSpecial scheme
  match cs with
  | [] => writePath scheme (if special then ['/'] else []) []
  | c :: rest =>
    if isSlash special c then writePath scheme ['/'] rest else writePath scheme ['/'] cs

end ModuleLoader.Url

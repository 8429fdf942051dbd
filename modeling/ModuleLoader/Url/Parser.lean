import ModuleLoader.Url.Host
import ModuleLoader.Url.Path
import ModuleLoader.Text.Blank

/-! # Reading and joining URLs

A URL with an authority is read part by part: scheme, user, host with its number, path, query and
fragment. A reference that begins with a slash or a path segment is read against a base.
-/

namespace ModuleLoader

open Text

/-- Whether a text begins with a scheme and `://`: a letter, then letters, digits, `+`, `-`
and `.`. -/
def isAbsoluteUrl (cs : List Char) : Bool :=
  match cs with
  | [] => false
  | c :: _ =>
    let scheme := cs.takeWhile fun c => c.isAlphanum || c = '+' || c = '-' || c = '.'
    c.isAlpha && startsWith "://".toList (cs.drop scheme.length)

namespace Url

/-- Leave out the blanks and controls of ASCII at both ends, and tabs and line breaks anywhere. -/
def cleaned (cs : List Char) : List Char :=
  let edge (c : Char) : Bool := c.toNat ≤ 32
  ((cs.dropWhile edge).reverse.dropWhile edge).reverse.filter fun c =>
    c ≠ '\t' ∧ c ≠ '\n' ∧ c ≠ '\r'

/-- Whether a character ends the path. -/
def endsPath (c : Char) : Bool := c = '?' || c = '#'

/-- Whether a character ends the authority. -/
def endsAuthority (special : Bool) (c : Char) : Bool := isSlash special c || endsPath c

/-- Read a query and a fragment, which follow the path. -/
def readTail (u : Url) (cs : List Char) : Url :=
  let query := match cs with
    | '?' :: rest => some (encode (querySet (isSpecial u.scheme)) (rest.takeWhile (· ≠ '#')))
    | _ => none
  let fragment := match cs.dropWhile (· ≠ '#') with
    | '#' :: rest => some (encode fragmentSet rest)
    | _ => none
  { u with query := query, fragment := fragment }

/-- Read path, query and fragment, the path in a given way. -/
def readPath (u : Url) (write : List Char → PathDraft) (cs : List Char) : Url × Bool :=
  let draft := write (cs.takeWhile (!endsPath ·))
  (readTail { u with path := draft.path } (cs.dropWhile (!endsPath ·)), draft.driveNamed)

/-- Read the number of a host, and tell what follows it. The number that the scheme has by itself is
left out. -/
def readPortNumber (scheme cs : List Char) : Except UrlError (Option Nat × List Char) :=
  let digits := cs.takeWhile Char.isDigit
  let rest := cs.dropWhile Char.isDigit
  let n := digits.foldl (fun n c => 10 * n + (c.toNat - 48)) 0
  let ended := match rest with
    | [] => true
    | c :: _ => isSlash true c || endsPath c
  if 65535 < n ∨ !ended then .error .invalidPort
  else .ok (if digits = [] ∨ defaultPortNumber? scheme = some n then none else some n, rest)

/-- The text of a host, and what follows it. A colon ends it unless it stands in brackets. -/
def cutHost (special bracket : Bool) : List Char → List Char × List Char
  | [] => ([], [])
  | c :: rest =>
    if (c = ':' ∧ !bracket) ∨ endsAuthority special c then ([], c :: rest)
    else
      let inner := if c = '[' then true else if c = ']' then false else bracket
      (c :: (cutHost special inner rest).1, (cutHost special inner rest).2)

/-- What stands before and behind the last `@` of an authority, and what follows it. -/
def cutUser? (special : Bool) (cs : List Char) : Option (List Char × List Char) :=
  let authority := cs.takeWhile (!endsAuthority special ·)
  if authority.contains '@' then
    let behind := (authority.reverse.takeWhile (· ≠ '@')).reverse
    let before := authority.take (authority.length - behind.length - 1)
    some (before, cs.drop (before.length + 1))
  else none

/-- Read an authority and what follows it. A user needs a host, even one without a name. -/
def readAuthority (scheme cs : List Char) : Except UrlError Url := do
  let special := isSpecial scheme
  let (user, place) := (cutUser? special cs).getD ([], cs)
  if (cutUser? special cs).isSome ∧ user = [] ∧ place.head?.any (endsAuthority special) then
    throw .emptyHost
  let (username, password) := Text.cutFirst ':' user
  let password := password.getD []
  let (name, rest) := cutHost special false place
  if special ∧ name = [] then throw .emptyHost
  let host ← if special then readHost name else readOpaqueHost name
  if name = [] ∧ rest.head? = some ':' then throw .emptyHost
  let (portNumber, rest) ← match rest with
    | ':' :: digits => readPortNumber scheme digits
    | _ => pure (none, rest)
  if name = [] ∧ (username ≠ [] ∨ password ≠ []) then throw .emptyHost
  let u : Url := ⟨scheme, encode userSet username, encode userSet password, host, portNumber, [],
    none, none⟩
  return (readPath u (writeWhole scheme) rest).1

/-- The scheme of local files. -/
def fileScheme : List Char := "file".toList

/-- A file URL without a host and a path. -/
def emptyFile : Url := ⟨fileScheme, [], [], .name [], none, [], none, none⟩

/-- Read what follows the two slashes of a file URL. A drive may stand in place of the host, and
`localhost` is as good as none. A path that names a drive leaves out the host. -/
def readFile (cs : List Char) : Except UrlError Url := do
  let name := cs.takeWhile (!endsAuthority true ·)
  let rest := cs.drop name.length
  let withoutHost (cs : List Char) := (readPath emptyFile (writePath fileScheme ['/']) cs).1
  if namesDrive name then return withoutHost cs
  if name = [] then return withoutHost rest
  let host ← readHost name
  if host = .name "localhost".toList then return withoutHost rest
  let (u, driveNamed) := readPath { emptyFile with host := host } (writeWhole fileScheme) rest
  return if driveNamed then { u with host := .name [] } else u

/-- Read a URL with an authority. -/
def read (cs : List Char) : Except UrlError Url :=
  let cs := cleaned cs
  if isAbsoluteUrl cs then
    let written := cs.takeWhile (· ≠ ':')
    let scheme := written.map Char.toLower
    let rest := cs.drop (written.length + 3)
    if isFile scheme then readFile rest
    else if isSpecial scheme then readAuthority scheme (rest.dropWhile (isSlash true))
    else readAuthority scheme rest
  else .error .noScheme

/-! ## References -/

/-- The drive that the path of a base begins with. -/
def driveOf? (path : List Char) : Option (List Char) :=
  let segment := path.tail.takeWhile (· ≠ '/')
  if isDrive segment then some segment else none

/-- Go from a file URL to a path that begins with a slash. The path keeps the drive, and a path
without a drive keeps the host, unless the reference begins with a drive itself. -/
def joinRoot (base : Url) (cs : List Char) : Url :=
  let start (host : Host) (path : List Char) : Url :=
    (readPath { emptyFile with host := host } (writePath fileScheme path) cs).1
  if startsWithDrive cs.tail then start (.name []) []
  else match driveOf? base.path with
    | some drive => start (.name []) ('/' :: drive)
    | none => start base.host []

/-- Read a reference against a file URL. -/
def joinFile (base : Url) (cs : List Char) : Except UrlError Url :=
  match cs with
  | c :: d :: rest =>
    if isSlash true c ∧ isSlash true d then readFile rest
    else if isSlash true c then .ok (joinRoot base cs)
    else if startsWithDrive cs then
      .ok (readPath emptyFile (writePath fileScheme ['/']) cs).1
    else .ok (readPath base (writePath fileScheme (shorten true base.path)) cs).1
  | [c] =>
    if isSlash true c then .ok (joinRoot base cs)
    else .ok (readPath base (writePath fileScheme (shorten true base.path)) cs).1
  | [] => .ok { base with fragment := none }

/-- Read a reference against a URL of any other scheme. Two slashes or more begin an authority. -/
def joinOther (base : Url) (cs : List Char) : Except UrlError Url :=
  let slashes := (cs.takeWhile (isSlash true)).length
  if slashes ≥ 2 then
    readAuthority base.scheme (cs.drop (if startsWith ['/', '/'] cs then 2 else slashes))
  else if slashes = 1 then .ok (readPath base (writePath base.scheme ['/']) cs.tail).1
  else if cs = [] then .ok { base with fragment := none }
  else
    let directory := shorten false base.path
    let directory := if directory = [] then ['/'] else directory
    .ok (readPath base (writePath base.scheme directory) cs).1

/-- Read a reference against a base. The reference begins with a slash or a path segment. -/
def join (base : Url) (reference : List Char) : Except UrlError Url :=
  let cs := cleaned reference
  if isFile base.scheme then joinFile base cs else joinOther base cs

end Url

end ModuleLoader

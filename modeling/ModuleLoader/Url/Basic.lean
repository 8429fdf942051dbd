import ModuleLoader.Text.Hexadecimal
import ModuleLoader.Text.Utf8

/-! # URLs

The parts of a URL with an authority, and their text. Characters that a part may not hold are
written as the bytes of their UTF-8 form behind percent signs.
-/

namespace ModuleLoader

/-- Who a URL addresses. A name may be empty where the scheme allows it. -/
inductive Host where
  | name (cs : List Char)
  | ipv4 (address : Nat)
  | ipv6 (pieces : List Nat)
deriving DecidableEq, Repr

/-- A URL with an authority. The path is empty or begins with a slash. -/
structure Url where
  scheme : List Char
  username : List Char
  password : List Char
  host : Host
  portNumber : Option Nat
  path : List Char
  query : Option (List Char)
  fragment : Option (List Char)
deriving DecidableEq, Repr

/-- Why a text is no URL. -/
inductive UrlError where
  | emptyHost
  | invalidPort
  | invalidIpv4
  | invalidIpv6
  | invalidInternationalName
  | invalidHostCharacter
  | noScheme
deriving DecidableEq, Repr

/-- The wording of a URL error. -/
def UrlError.message : UrlError → String
  | emptyHost => "empty host"
  | invalidPort => "invalid port number"
  | invalidIpv4 => "invalid IPv4 address"
  | invalidIpv6 => "invalid IPv6 address"
  | invalidInternationalName => "invalid international domain name"
  | invalidHostCharacter => "invalid domain character"
  | noScheme => "relative URL without a base"

namespace Url

open Text

/-- The schemes whose URLs always have a host and a path, with the numbers that their
hosts have by themselves. -/
def specialSchemes : List (String × Option Nat) :=
  [("http", some 80), ("https", some 443), ("ws", some 80), ("wss", some 443), ("ftp", some 21),
    ("file", none)]

/-- Whether a scheme is special. -/
def isSpecial (scheme : List Char) : Bool :=
  specialSchemes.any fun s => s.1.toList = scheme

/-- Whether a scheme is that of local files. -/
def isFile (scheme : List Char) : Bool := scheme = "file".toList

/-- The number that the hosts of a scheme have by themselves. -/
def defaultPortNumber? (scheme : List Char) : Option Nat :=
  (specialSchemes.find? fun s => s.1.toList = scheme).bind (·.2)

/-! ## Percent encoding -/

/-- The digit of a number below sixteen, in upper case. -/
def hexDigit (n : Nat) : Char := if n < 10 then Char.ofNat (48 + n) else Char.ofNat (55 + n)

/-- A byte behind a percent sign. -/
def encodeByte (b : UInt8) : List Char := ['%', hexDigit (b.toNat / 16), hexDigit (b.toNat % 16)]

/-- Write the control characters, the characters beyond ASCII and those of a set as bytes. -/
def encode (reserved : List Char) (cs : List Char) : List Char :=
  cs.flatMap fun c =>
    if c.toNat < 32 ∨ 126 < c.toNat ∨ c ∈ reserved then (utf8 [c]).flatMap encodeByte else [c]

/-- What a fragment may not hold. -/
def fragmentSet : List Char := [' ', '"', '<', '>', '\x60']

/-- What a query may not hold. -/
def querySet (special : Bool) : List Char :=
  [' ', '"', '#', '<', '>'] ++ if special then ['\''] else []

/-- What a path segment may not hold. -/
def pathSet : List Char := fragmentSet ++ ['#', '?', '\x7b', '\x7d']

/-- What a user name or password may not hold. -/
def userSet : List Char :=
  pathSet ++ ['/', ':', ';', '=', '@', '[', '\\', ']', '^', '|']

/-- The bytes of a text, with two hexadecimal digits behind a percent sign read as one byte. -/
def decode : List Char → List UInt8
  | '%' :: a :: b :: rest =>
    match hexValue? a, hexValue? b with
    | some x, some y => UInt8.ofNat (16 * x + y) :: decode rest
    | _, _ => 37 :: decode (a :: b :: rest)
  | c :: rest => utf8 [c] ++ decode rest
  | [] => []

/-! ## Text -/

/-- A number in hexadecimal digits of lower case. -/
def hexText (n : Nat) : List Char := Nat.toDigits 16 n

/-- The position and length of the longest run of zeros from `start` on, the first of equals. -/
def longestZeros (start : Nat) (run : Nat) (best : Nat × Nat) : List Nat → Nat × Nat
  | [] => if best.2 < run then (start - run, run) else best
  | p :: rest =>
    if p = 0 then longestZeros (start + 1) (run + 1) best rest
    else longestZeros (start + 1) 0 (if best.2 < run then (start - run, run) else best) rest

/-- The pieces of an address of 128 bits, the longest run of two zeros or more left out. -/
def ipv6Text (pieces : List Nat) : List Char :=
  let gap := longestZeros 0 0 (0, 0) pieces
  if gap.2 < 2 then Text.joined ':' (pieces.map hexText)
  else Text.joined ':' ((pieces.take gap.1).map hexText) ++ [':', ':'] ++
    Text.joined ':' ((pieces.drop (gap.1 + gap.2)).map hexText)

/-- The four bytes of an address of 32 bits in decimal digits. -/
def ipv4Text (address : Nat) : List Char :=
  Text.joined '.' ([16777216, 65536, 256, 1].map fun unit =>
    Nat.toDigits 10 (address / unit % 256))

/-- The text of a host. -/
def hostText : Host → List Char
  | .name cs => cs
  | .ipv4 address => ipv4Text address
  | .ipv6 pieces => '[' :: (ipv6Text pieces ++ [']'])

/-- The text of a URL. -/
def text (u : Url) : List Char :=
  u.scheme ++ "://".toList ++
    (if u.username = [] ∧ u.password = [] then []
      else u.username ++ (if u.password = [] then [] else ':' :: u.password) ++ ['@']) ++
    hostText u.host ++
    (match u.portNumber with | some p => ':' :: Nat.toDigits 10 p | none => []) ++
    u.path ++ (match u.query with | some q => '?' :: q | none => []) ++
    (match u.fragment with | some f => '#' :: f | none => [])

end Url

end ModuleLoader

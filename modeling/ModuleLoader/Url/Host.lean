import ModuleLoader.Domain.Name
import ModuleLoader.Url.Basic

/-! # Reading hosts

A host is a name, an address of 32 bits in up to four numbers, or an address of 128 bits in
brackets. A name whose last part is a number has to be an address.
-/

namespace ModuleLoader.Url

open Text

/-- A number in decimal digits, in octal digits behind `0`, or in hexadecimal digits behind `0x`.
Nothing behind the mark of the base means zero. -/
def ipv4Number? (cs : List Char) : Option Nat :=
  let ofBase (base : Nat) (ds : List Char) : Option Nat :=
    ds.foldl (fun n c => n.bind fun n => (hexValue? c).bind fun v =>
      if v < base then some (base * n + v) else none) (some 0)
  match cs with
  | [] => none
  | '0' :: 'x' :: rest | '0' :: 'X' :: rest => ofBase 16 rest
  | '0' :: c :: rest => ofBase 8 (c :: rest)
  | _ => ofBase 10 cs

/-- The parts of a name between points, without an empty last one. -/
def nameParts (cs : List Char) : List (List Char) :=
  let parts := Text.segments '.' cs
  if parts.length > 1 ∧ parts.getLast? = some [] then parts.dropLast else parts

/-- Whether the last part of a name is a number. -/
def endsInNumber (cs : List Char) : Bool :=
  match (nameParts cs).getLast? with
  | none => false
  | some last => (last ≠ [] && last.all Char.isDigit) || (ipv4Number? last).isSome

/-- Put together up to four numbers: all but the last are bytes, the last fills what is left. -/
def ipv4OfNumbers? (numbers : List Nat) : Option Nat :=
  match numbers.getLast? with
  | none => none
  | some last =>
    let bytes := numbers.dropLast
    if numbers.length > 4 ∨ bytes.any (· > 255) ∨ last ≥ Nat.pow 256 (5 - numbers.length) then none
    else
      let high := bytes.foldl (fun n b => 256 * n + b) 0
      some (high * Nat.pow 256 (5 - numbers.length) + last)

/-- The address that a name ending in a number denotes. -/
def ipv4? (cs : List Char) : Option Nat :=
  ((nameParts cs).mapM ipv4Number?).bind ipv4OfNumbers?

/-- A piece of one to four hexadecimal digits. -/
def ipv6Piece? (cs : List Char) : Option Nat :=
  if cs = [] ∨ cs.length > 4 then none
  else cs.foldl (fun n c => n.bind fun n => (hexValue? c).map fun v => 16 * n + v) (some 0)

/-- A byte in decimal digits without leading zeros. -/
def decimalByte? (cs : List Char) : Option Nat :=
  if cs = [] ∨ cs.length > 3 ∨ !cs.all Char.isDigit ∨ (cs.length > 1 ∧ cs.head? = some '0') then
    none
  else
    let n := cs.foldl (fun n c => 10 * n + (c.toNat - 48)) 0
    if n < 256 then some n else none

/-- The pieces between colons. The last one may be an address of 32 bits, worth two pieces. -/
def ipv6Pieces? (cs : List Char) : Option (List Nat) :=
  if cs = [] then some []
  else
    let parts := Text.segments ':' cs
    match parts.getLast? with
    | none => none
    | some last =>
      if last.contains '.' then do
        let front ← parts.dropLast.mapM ipv6Piece?
        match ← (Text.segments '.' last).mapM decimalByte? with
        | [a, b, c, d] => some (front ++ [256 * a + b, 256 * c + d])
        | _ => none
      else parts.mapM ipv6Piece?

/-- What stands before and behind the first pair of colons. -/
def cutAtGap? : List Char → Option (List Char × List Char)
  | ':' :: ':' :: rest => some ([], rest)
  | c :: rest => (cutAtGap? rest).map fun p => (c :: p.1, p.2)
  | [] => none

/-- The eight pieces of an address of 128 bits. A pair of colons stands for zeros. -/
def ipv6? (cs : List Char) : Option (List Nat) :=
  match cutAtGap? cs with
  | none => (ipv6Pieces? cs).bind fun pieces => if pieces.length = 8 then some pieces else none
  | some (before, behind) => do
    if before.contains '.' then none
    else
      let front ← ipv6Pieces? before
      let back ← ipv6Pieces? behind
      let used := front.length + back.length
      if used ≤ 7 then some (front ++ List.replicate (8 - used) 0 ++ back) else none

/-- Characters that no host may hold. -/
def forbiddenHost (c : Char) : Bool :=
  c.toNat = 0 || c = '\t' || c = '\n' || c = '\r' || c = ' ' || c = '#' || c = '/' || c = ':' ||
    c = '<' || c = '>' || c = '?' || c = '@' || c = '[' || c = '\\' || c = ']' || c = '^' || c = '|'

/-- Read an address in brackets. -/
def bracketedHost (cs : List Char) : Except UrlError Host :=
  if cs.getLast? = some ']' then
    match ipv6? (cs.drop 1).dropLast with
    | some pieces => .ok (.ipv6 pieces)
    | none => .error .invalidIpv6
  else .error .invalidIpv6

/-- Read the host of a special scheme: a domain name, percent encoded or not. -/
def readHost (cs : List Char) : Except UrlError Host :=
  if cs.head? = some '[' then bracketedHost cs
  else
    match (Text.ofUtf8? (decode cs)).bind Domain.toAscii? with
    | none => .error .invalidInternationalName
    | some name =>
      if name = [] then .error .emptyHost
      else if endsInNumber name then
        match ipv4? name with
        | some address => .ok (.ipv4 address)
        | none => .error .invalidIpv4
      else .ok (.name name)

/-- Read the host of any other scheme. -/
def readOpaqueHost (cs : List Char) : Except UrlError Host :=
  if cs.head? = some '[' then bracketedHost cs
  else if cs.any forbiddenHost then .error .invalidHostCharacter
  else .ok (.name (encode [] cs))

end ModuleLoader.Url

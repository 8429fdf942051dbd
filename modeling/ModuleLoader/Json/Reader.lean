import ModuleLoader.Json.Basic
import ModuleLoader.Text.Hexadecimal

/-! # Reading JSON

A descent over the grammar of JSON. Each nested value begins behind at least one character, so the
depth of the descent is bounded by the length of the text.
-/

namespace ModuleLoader.Json

open Text

/-- The four blanks of JSON. -/
def isBlank (c : Char) : Bool := c = ' ' || c = '\n' || c = '\r' || c = '\t'

/-- Leave out blanks. -/
def skip (cs : List Char) : List Char := cs.dropWhile isBlank

/-- The number of four hexadecimal digits. -/
def hexUnit? (a b c d : Char) : Option Nat := do
  return 4096 * (← hexValue? a) + 256 * (← hexValue? b) + 16 * (← hexValue? c) + (← hexValue? d)

/-- The character that a short escape stands for. -/
def unescape? (c : Char) : Option Char :=
  if c = '"' then some '"'
  else if c = '\\' then some '\\'
  else if c = '/' then some '/'
  else if c = 'b' then some '\x08'
  else if c = 'f' then some '\x0c'
  else if c = 'n' then some '\n'
  else if c = 'r' then some '\r'
  else if c = 't' then some '\t'
  else none

/-- The codes of a string up to its closing quote, and what follows. -/
def stringCodes? : List Char → Option (List Nat × List Char)
  | [] => none
  | '"' :: rest => some ([], rest)
  | '\\' :: 'u' :: a :: b :: c :: d :: rest =>
    (hexUnit? a b c d).bind fun u => (stringCodes? rest).map fun r => (u :: r.1, r.2)
  | '\\' :: c :: rest =>
    (unescape? c).bind fun e => (stringCodes? rest).map fun r => (e.toNat :: r.1, r.2)
  | c :: rest =>
    if c.toNat < 32 ∨ c = '\\' then none
    else (stringCodes? rest).map fun r => (c.toNat :: r.1, r.2)

/-- The characters of a row of codes. Codes of surrogates have to come in pairs. -/
def spell? : List Nat → Option (List Char)
  | [] => some []
  | u :: rest =>
    if 0xD800 ≤ u ∧ u ≤ 0xDBFF then
      match rest with
      | v :: others =>
        if 0xDC00 ≤ v ∧ v ≤ 0xDFFF then
          (spell? others).map (Char.ofNat (0x10000 + 0x400 * (u - 0xD800) + (v - 0xDC00)) :: ·)
        else none
      | [] => none
    else if 0xDC00 ≤ u ∧ u ≤ 0xDFFF then none
    else (spell? rest).map (Char.ofNat u :: ·)

/-- A string behind its opening quote. -/
def string? (cs : List Char) : Option (Option String × List Char) :=
  (stringCodes? cs).map fun r => ((spell? r.1).map String.ofList, r.2)

/-- A row of at least one digit, and what follows. -/
def digits? (cs : List Char) : Option (List Char × List Char) :=
  let ds := cs.takeWhile Char.isDigit
  if ds = [] then none else some (ds, cs.dropWhile Char.isDigit)

/-- The whole part of a numeral: zero, or digits that begin with another one. -/
def whole? (cs : List Char) : Option (List Char × List Char) :=
  match cs with
  | '0' :: rest => if (digits? rest).isSome then none else some (['0'], rest)
  | _ => digits? cs

/-- A point and digits, or nothing. -/
def fraction? (cs : List Char) : Option (List Char × List Char) :=
  match cs with
  | '.' :: rest => (digits? rest).map fun r => ('.' :: r.1, r.2)
  | _ => some ([], cs)

/-- An exponent, or nothing. -/
def exponent? (cs : List Char) : Option (List Char × List Char) :=
  match cs with
  | c :: rest =>
    if c = 'e' ∨ c = 'E' then
      match rest with
      | s :: more =>
        if s = '+' ∨ s = '-' then (digits? more).map fun r => (c :: s :: r.1, r.2)
        else (digits? rest).map fun r => (c :: r.1, r.2)
      | [] => none
    else some ([], cs)
  | [] => some ([], cs)

/-- A numeral without a sign. -/
def magnitude? (cs : List Char) : Option (List Char × List Char) := do
  let (whole, rest) ← whole? cs
  let (fraction, rest) ← fraction? rest
  let (exponent, rest) ← exponent? rest
  return (whole ++ fraction ++ exponent, rest)

/-- A numeral. -/
def numeral? (cs : List Char) : Option (List Char × List Char) :=
  match cs with
  | '-' :: rest => (magnitude? rest).map fun r => ('-' :: r.1, r.2)
  | _ => magnitude? cs

mutual

/-- A value, blanks before it left out, and what follows. -/
def value? : Nat → List Char → Option (Json × List Char)
  | 0, _ => none
  | n + 1, cs =>
    match skip cs with
    | 'n' :: 'u' :: 'l' :: 'l' :: rest => some (.null, rest)
    | 't' :: 'r' :: 'u' :: 'e' :: rest => some (.bool true, rest)
    | 'f' :: 'a' :: 'l' :: 's' :: 'e' :: rest => some (.bool false, rest)
    | '"' :: rest => (string? rest).map fun r => (.string r.1, r.2)
    | '[' :: rest =>
      match skip rest with
      | ']' :: rest => some (.array [], rest)
      | _ => (itemsFrom? n rest).map fun r => (.array r.1, r.2)
    | '\x7b' :: rest =>
      match skip rest with
      | '\x7d' :: rest => some (.object [], rest)
      | _ => (membersFrom? n rest).map fun r => (.object r.1, r.2)
    | rest => (numeral? rest).map fun r => (.number r.1, r.2)

/-- The items of an array up to its closing bracket, and what follows. -/
def itemsFrom? : Nat → List Char → Option (List Json × List Char)
  | 0, _ => none
  | n + 1, cs => do
    let (first, rest) ← value? n cs
    match skip rest with
    | ',' :: rest => do
      let (others, rest) ← itemsFrom? n rest
      return (first :: others, rest)
    | ']' :: rest => return ([first], rest)
    | _ => none

/-- The members of an object up to its closing brace, and what follows. -/
def membersFrom? : Nat → List Char → Option (List (Option String × Json) × List Char)
  | 0, _ => none
  | n + 1, cs =>
    match skip cs with
    | '"' :: rest => do
      let (key, rest) ← string? rest
      match skip rest with
      | ':' :: rest => do
        let (first, rest) ← value? n rest
        match skip rest with
        | ',' :: rest => do
          let (others, rest) ← membersFrom? n rest
          return ((key, first) :: others, rest)
        | '\x7d' :: rest => return ([(key, first)], rest)
        | _ => none
      | _ => none
    | _ => none

end

/-- The value of a JSON text. Only blanks may follow it. -/
def read? (cs : List Char) : Option Json :=
  match value? (2 * cs.length + 2) cs with
  | some (j, rest) => if skip rest = [] then some j else none
  | none => none

end ModuleLoader.Json

/-! # Decimal numerals

A decimal is a natural number of units of a power of ten. It is read from digits with an optional
point and exponent, and written without an exponent, padded with zeros on either side of the point.
-/

namespace ModuleLoader

/-- The number `digits * 10 ^ exponent`. -/
structure Decimal where
  digits : Nat
  exponent : Int
deriving DecidableEq, Repr

namespace Decimal

/-- The number that a row of digits denotes. -/
def ofDigits (cs : List Char) : Nat := cs.foldl (fun n c => 10 * n + (c.toNat - '0'.toNat)) 0

/-- The digits of a number, without leading zeros. -/
def digitChars (n : Nat) : List Char := Nat.toDigits 10 n

/-- Drop the zeros at the end of the digits. Zero keeps its digit. -/
def strip : Nat → Decimal → Decimal
  | 0, d => d
  | fuel + 1, d =>
    if d.digits ≠ 0 ∧ d.digits % 10 = 0 then strip fuel ⟨d.digits / 10, d.exponent + 1⟩ else d

/-- The decimal without a point in its digits and without zeros at their end. -/
def normal (d : Decimal) : Decimal := strip (digitChars d.digits).length d

/-- Digits, point and digits. The point stands only between digits, and zero is never dropped. -/
def positional (d : Decimal) : List Char :=
  let ds := digitChars d.digits
  if 0 ≤ d.exponent then
    if d.digits = 0 then ds else ds ++ List.replicate d.exponent.toNat '0'
  else
    let places := (-d.exponent).toNat
    if ds.length ≤ places then '0' :: '.' :: (List.replicate (places - ds.length) '0' ++ ds)
    else ds.take (ds.length - places) ++ '.' :: ds.drop (ds.length - places)

/-- Read an exponent: a letter `e`, an optional sign and at least one digit, or nothing at all. -/
def readExponent? : List Char → Option Int
  | [] => some 0
  | c :: rest =>
    if c = 'e' ∨ c = 'E' then
      match rest with
      | '-' :: ds => if ds ≠ [] ∧ ds.all Char.isDigit then some (-(ofDigits ds : Int)) else none
      | '+' :: ds => if ds ≠ [] ∧ ds.all Char.isDigit then some (ofDigits ds) else none
      | ds => if ds ≠ [] ∧ ds.all Char.isDigit then some (ofDigits ds) else none
    else none

/-- Read a numeral without a sign. Digits may be missing on one side of the point, not on both. -/
def read? (cs : List Char) : Option Decimal :=
  let whole := cs.takeWhile Char.isDigit
  match cs.dropWhile Char.isDigit with
  | '.' :: rest =>
    let part := rest.takeWhile Char.isDigit
    if whole = [] ∧ part = [] then none
    else (readExponent? (rest.dropWhile Char.isDigit)).map fun e =>
      ⟨ofDigits (whole ++ part), e - part.length⟩
  | rest =>
    if whole = [] then none else (readExponent? rest).map fun e => ⟨ofDigits whole, e⟩

end Decimal

end ModuleLoader

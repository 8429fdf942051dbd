/-! # Numbers of variable length

A signed number is written in digits of five bits, the lowest first and the sign in the lowest bit
of all. A sixth bit tells that more digits follow, and the six bits make one letter of an alphabet
of sixty-four. Numbers are words of 64 bits, which wrap.
-/

namespace ModuleLoader.Vlq

/-- The letter of a number below 64. -/
def letter (n : Nat) : Char :=
  if n < 26 then Char.ofNat (65 + n)
  else if n < 52 then Char.ofNat (71 + n)
  else if n < 62 then Char.ofNat (n - 4)
  else if n = 62 then '+' else '/'

/-- The number of a letter. -/
def value? (c : Char) : Option Nat :=
  if 'A' ≤ c ∧ c ≤ 'Z' then some (c.toNat - 65)
  else if 'a' ≤ c ∧ c ≤ 'z' then some (c.toNat - 71)
  else if '0' ≤ c ∧ c ≤ '9' then some (c.toNat + 4)
  else if c = '+' then some 62
  else if c = '/' then some 63
  else none

/-- The digits of a natural number. -/
def digits (n : Nat) : List Char :=
  if n < 32 then [letter n] else letter (n % 32 + 32) :: digits (n / 32)

/-- How many words of 64 bits there are. -/
def wordCount : Nat := Nat.pow 2 64

/-- The digits of a signed number. Its double keeps the lowest 64 bits. -/
def encode (v : Int) : List Char :=
  let double := 2 * v.natAbs % wordCount
  digits (if v < 0 then double + 1 else double)

/-- A number as a word of 64 bits with a sign. -/
def word (n : Int) : Int := n.bmod wordCount

/-- The signed number of a word whose lowest bit is the sign. -/
def signed (n : Int) : Int := if n % 2 = 1 then word (-(n / 2)) else n / 2

/-- The numbers that a row of letters spells. Digits behind the last complete number are left out;
a character beyond the alphabet spoils the row. -/
def decode? (value : Int) (shift : Nat) : List Char → Option (List Int)
  | [] => some []
  | c :: rest =>
    (value? c).bind fun n =>
      let sum := word (value + word (n % 32 * Nat.pow 2 (shift % 64) : Nat))
      if 32 ≤ n then decode? sum (shift + 5) rest
      else (decode? 0 0 rest).map (signed sum :: ·)

end ModuleLoader.Vlq

import ModuleLoader.Decimal.Basic

/-! # Double precision

A positive double is `m * 2 ^ q` with `m` below `2 ^ 53` and `q` from `-1074` on. A positive
rational rounds to the nearest such number, a tie to the even `m`, and past the largest one to
infinity.
-/

namespace ModuleLoader.Binary64

/-- What the bits of a double say about its magnitude. -/
inductive Magnitude where
  | finite (m : Nat) (q : Int)
  | infinite
  | nan
deriving DecidableEq, Repr

/-- The magnitude in the lower 63 bits. -/
def magnitude (bits : Nat) : Magnitude :=
  let biased : Nat := bits / Nat.pow 2 52 % 2048
  let fraction : Nat := bits % Nat.pow 2 52
  if biased = 2047 then (if fraction = 0 then .infinite else .nan)
  else if biased = 0 then .finite fraction (-1074)
  else .finite (fraction + Nat.pow 2 52) ((biased : Int) - 1075)

/-- Whether the sign bit is set. -/
def isNegative (bits : Nat) : Bool := bits / Nat.pow 2 63 % 2 = 1

/-- The bits of positive infinity. -/
def infinity : Nat := 2047 * Nat.pow 2 52

/-- The quotient rounded to the nearest natural number, a half to the even one. -/
def roundDiv (num den : Nat) : Nat :=
  let n := num / den
  let twice := 2 * (num % den)
  if twice < den ∨ (twice = den ∧ n % 2 = 0) then n else n + 1

/-- Numerator and denominator of `num / den * 2 ^ e`. -/
def scale (num den : Nat) (e : Int) : Nat × Nat :=
  if 0 ≤ e then (num * Nat.pow 2 e.toNat, den) else (num, den * Nat.pow 2 (-e).toNat)

/-- The exponent `e` with `2 ^ e ≤ num / den < 2 ^ (e + 1)`, for positive numbers. -/
def binaryExponent (num den : Nat) : Int :=
  let e := (num.log2 : Int) - den.log2
  let scaled := scale num den (-e)
  if scaled.2 ≤ scaled.1 then e else e - 1

/-- The bits of the double nearest to `num / den`. -/
def ofRatio (num den : Nat) : Nat :=
  if num = 0 then 0
  else
    let q := max (binaryExponent num den - 52) (-1074)
    let scaled := scale num den (-q)
    let m := roundDiv scaled.1 scaled.2
    min ((q + 1074).toNat * Nat.pow 2 52 + m) infinity

/-- The bits of the double nearest to a decimal. Exponents out of all reach are not worked out. -/
def ofDecimal (d : Decimal) : Nat :=
  let top := d.exponent + (Decimal.digitChars d.digits).length
  if d.digits = 0 ∨ top < -400 then 0
  else if 400 < top then infinity
  else if 0 ≤ d.exponent then ofRatio (d.digits * Nat.pow 10 d.exponent.toNat) 1
  else ofRatio d.digits (Nat.pow 10 (-d.exponent).toNat)

/-- The natural number that a double equals, if it is one. Both zeros count. -/
def toNat? (x : Float) : Option Nat :=
  let bits := x.toBits.toNat
  match magnitude bits with
  | .finite m q =>
    if m = 0 then some 0
    else if isNegative bits then none
    else if 0 ≤ q then some (m * Nat.pow 2 q.toNat)
    else
      let unit := Nat.pow 2 (-q).toNat
      if m % unit = 0 then some (m / unit) else none
  | _ => none

end ModuleLoader.Binary64

import ModuleLoader.Decimal.Binary64

/-! # Shortest decimals

The decimal with the fewest digits that reads back as a given double, and of those the nearest one;
at equal distance the larger. On each decimal grid only the two neighbours of the double can be
nearest, so seventeen grids of one to seventeen digits are tried in turn. The exact value stands
last, so that every result reads back.
-/

namespace ModuleLoader.Decimal

/-- The value as a fraction. -/
def ratio (d : Decimal) : Nat × Nat :=
  if 0 ≤ d.exponent then (d.digits * Nat.pow 10 d.exponent.toNat, 1)
  else (d.digits, Nat.pow 10 (-d.exponent).toNat)

/-- The distance of a decimal from `num / den`, in units of one over both denominators. -/
def distance (d : Decimal) (num den : Nat) : Nat :=
  let r := d.ratio
  (r.1 * den - num * r.2) + (num * r.2 - r.1 * den)

/-- The number of digits before the point of `num / den`: the least `k` from `start` on with
`num / den < 10 ^ k`. -/
def pointAfter (num den : Nat) : Nat → Int → Int
  | 0, k => k
  | fuel + 1, k =>
    let below :=
      if 0 ≤ k then num < den * Nat.pow 10 k.toNat else num * Nat.pow 10 (-k).toNat < den
    if below then k else pointAfter num den fuel (k + 1)

/-- The two neighbours of `num / den` among the multiples of `10 ^ e`. -/
def neighbours (num den : Nat) (e : Int) : Decimal × Decimal :=
  let n :=
    if 0 ≤ e then num / (den * Nat.pow 10 e.toNat) else num * Nat.pow 10 (-e).toNat / den
  (⟨n, e⟩, ⟨n + 1, e⟩)

/-- The better of two neighbours that reads back as the given bits, if one does. -/
def choose? (bits num den : Nat) (pair : Decimal × Decimal) : Option Decimal :=
  match Binary64.ofDecimal pair.1 == bits, Binary64.ofDecimal pair.2 == bits with
  | true, true =>
    some (if pair.1.distance num den < pair.2.distance num den then pair.1 else pair.2)
  | true, false => some pair.1
  | false, true => some pair.2
  | false, false => none

/-- The exact value of `m * 2 ^ q`. -/
def exact (m : Nat) (q : Int) : Decimal :=
  if 0 ≤ q then ⟨m * Nat.pow 2 q.toNat, 0⟩ else ⟨m * Nat.pow 5 (-q).toNat, q⟩

/-- The shortest decimal that reads back as the positive double `m * 2 ^ q` with these bits. -/
def shortest (bits m : Nat) (q : Int) : Decimal :=
  let value := Binary64.scale m 1 q
  let start := ((m.log2 : Int) + q) * 30103 / 100000 - 1
  let k := pointAfter value.1 value.2 5 start
  let found := (List.range 17).findSome? fun (i : Nat) =>
    choose? bits value.1 value.2 (neighbours value.1 value.2 (k - ((i : Int) + 1)))
  (found.getD (exact m q)).normal

end ModuleLoader.Decimal

namespace ModuleLoader.Number

/-- The text of a double: the shortest digits that read back, never an exponent. -/
def text (x : Float) : String :=
  let bits := x.toBits.toNat
  let sign := if Binary64.isNegative bits then "-" else ""
  match Binary64.magnitude bits with
  | .nan => "NaN"
  | .infinite => sign ++ "inf"
  | .finite m q =>
    if m = 0 then sign ++ "0"
    else sign ++ String.ofList (Decimal.shortest (bits % Nat.pow 2 63) m q).positional

/-- The text of a double as a value of the language shows it: both zeros are written `0`. -/
def display (x : Float) : String := if x == 0.0 then "0" else text x

/-- Letters of ASCII in lower case, all else unchanged. -/
def lowerCase (cs : List Char) : List Char := cs.map Char.toLower

/-- Read the magnitude of a number: a decimal numeral, or a word for infinity or for no number. -/
def readMagnitude? (cs : List Char) : Option Nat :=
  let word := lowerCase cs
  if word = ['i', 'n', 'f'] ∨ word = ['i', 'n', 'f', 'i', 'n', 'i', 't', 'y'] then
    some Binary64.infinity
  else if word = ['n', 'a', 'n'] then some (Binary64.infinity + Nat.pow 2 51)
  else (Decimal.read? cs).map Binary64.ofDecimal

/-- Read a number with an optional sign. -/
def read? : List Char → Option Float
  | '-' :: cs => (readMagnitude? cs).map fun n => Float.ofBits (UInt64.ofNat (n + Nat.pow 2 63))
  | '+' :: cs => (readMagnitude? cs).map fun n => Float.ofBits (UInt64.ofNat n)
  | cs => (readMagnitude? cs).map fun n => Float.ofBits (UInt64.ofNat n)

/-- The number of a row of digits with at most one point between or before them. -/
def ofNumeral (cs : List Char) : Float :=
  match Decimal.read? cs with
  | some d => Float.ofBits (UInt64.ofNat (Binary64.ofDecimal d))
  | none => 0.0

end ModuleLoader.Number

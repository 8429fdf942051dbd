/-! # Labels in ASCII

A label with characters beyond ASCII is written as its ASCII characters and, behind a hyphen, a row
of digits that tells which other characters are inserted where. A digit is a letter or a decimal
digit; how many of them make up a number depends on the numbers before it.
-/

namespace ModuleLoader.Domain.Punycode

/-- The digit of a number below 36. -/
def digit (n : Nat) : Char := if n < 26 then Char.ofNat (97 + n) else Char.ofNat (22 + n)

/-- The number of a digit, which may be a letter of either case. -/
def value? (c : Char) : Option Nat :=
  if 'a' ≤ c ∧ c ≤ 'z' then some (c.toNat - 97)
  else if 'A' ≤ c ∧ c ≤ 'Z' then some (c.toNat - 65)
  else if '0' ≤ c ∧ c ≤ '9' then some (c.toNat - 22)
  else none

/-- The least number whose digit is not the last one. `k` grows by 36 from digit to digit. -/
def threshold (bias k : Nat) : Nat :=
  if k ≤ bias then 1 else if bias + 26 ≤ k then 26 else k - bias

theorem one_le_threshold (bias k : Nat) : 1 ≤ threshold bias k := by
  unfold threshold
  split
  · exact Nat.le_refl 1
  · split <;> omega

theorem threshold_le (bias k : Nat) : threshold bias k ≤ 26 := by
  unfold threshold
  split
  · decide
  · split <;> omega

/-- The bias that suits numbers about as large as a given one. -/
def biasFrom (k delta : Nat) : Nat :=
  if 455 < delta then biasFrom (k + 36) (delta / 35) else k + 36 * delta / (delta + 38)
termination_by delta
decreasing_by exact Nat.div_lt_self (by omega) (by decide)

/-- The bias behind a number, when the label has a given count of characters. -/
def adapt (delta count : Nat) (first : Bool) : Nat :=
  let delta := if first then delta / 700 else delta / 2
  biasFrom 0 (delta + delta / count)

/-! ## Writing -/

/-- The digits of a number. -/
def digits (bias k n : Nat) : List Char :=
  let t := threshold bias k
  if n < t then [digit n]
  else digit (t + (n - t) % (36 - t)) :: digits bias (k + 36) ((n - t) / (36 - t))
termination_by n
decreasing_by
  have h := one_le_threshold bias k
  exact Nat.lt_of_le_of_lt (Nat.div_le_self _ _) (by omega)

/-- A label that is being written: how many of its characters are, and how many places were passed
since the last of them. -/
structure Draft where
  output : List Char
  written : Nat
  delta : Nat
  bias : Nat

/-- Pass a place of the label when the characters of a code point are written. -/
def passPlace (basic code : Nat) (d : Draft) (c : Char) : Draft :=
  if c.toNat < code then { d with delta := d.delta + 1 }
  else if c.toNat = code then
    { output := d.output ++ digits d.bias 36 d.delta
      written := d.written + 1
      delta := 0
      bias := adapt d.delta (d.written + 1) (d.written = basic) }
  else d

/-- Write the characters of ascending code points. -/
def writeCodes (basic : Nat) (label : List Char) (d : Draft) (next : Nat) : List Nat → Draft
  | [] => d
  | code :: rest =>
    let d := { d with delta := d.delta + (code - next) * (d.written + 1) }
    let d := label.foldl (passPlace basic code) d
    writeCodes basic label { d with delta := d.delta + 1 } (code + 1) rest

/-- Put a number into an ascending row, unless it is there. -/
def insertCode (n : Nat) : List Nat → List Nat
  | [] => [n]
  | m :: rest => if n < m then n :: m :: rest else if n = m then m :: rest
    else m :: insertCode n rest

/-- Write a label. -/
def encode (label : List Char) : List Char :=
  let basic := label.filter (·.toNat < 128)
  let codes := (label.filter (128 ≤ ·.toNat)).foldr (fun c codes => insertCode c.toNat codes) []
  let start := if basic = [] then [] else basic ++ ['-']
  (writeCodes basic.length label ⟨start, basic.length, 0, 72⟩ 128 codes).output

/-! ## Reading -/

/-- A label that is being read: the last code point, the place behind the last insertion, and the
number whose digits are being read. -/
structure Reading where
  output : List Char
  code : Nat
  bias : Nat
  start : Nat
  place : Nat
  weight : Nat
  k : Nat
  midway : Bool

/-- Insert the character of a number that was read. -/
def insertRead (r : Reading) : Option Reading :=
  let count := r.output.length + 1
  let code := r.code + r.place / count
  let place := r.place % count
  if h : code.isValidChar then
    some {
      output := r.output.take place ++ Char.ofNatAux code h :: r.output.drop place
      code := code
      bias := adapt (r.place - r.start) count (r.start = 0)
      start := place + 1
      place := place + 1
      weight := 1
      k := 36
      midway := false }
  else none

/-- Read a digit. -/
def readDigit (r : Reading) (c : Char) : Option Reading := do
  let n ← value? c
  let t := threshold r.bias r.k
  let r := { r with place := r.place + n * r.weight }
  if n < t then insertRead r
  else return { r with weight := r.weight * (36 - t), k := r.k + 36, midway := true }

/-- What stands before the last hyphen, if anything does, and what stands behind it. -/
def cut (cs : List Char) : List Char × List Char :=
  let behind := (cs.reverse.takeWhile (· ≠ '-')).reverse
  if behind.length + 1 < cs.length then (cs.take (cs.length - behind.length - 1), behind)
  else ([], cs)

/-- Read a label. -/
def decode? (cs : List Char) : Option (List Char) :=
  let (basic, digits) := cut cs
  match digits.foldlM readDigit ⟨basic, 128, 72, 0, 0, 1, 36, false⟩ with
  | some r => if r.midway then none else some r.output
  | none => none

end ModuleLoader.Domain.Punycode

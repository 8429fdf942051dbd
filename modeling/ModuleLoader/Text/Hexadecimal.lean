import ModuleLoader.Text.Segment

/-! # Hexadecimal digits

Numbers and code points in hexadecimal digits, and tables of code points. The rows of a table are
separated by semicolons and their words by blanks.
-/

namespace ModuleLoader.Text

/-- The value of a hexadecimal digit. -/
def hexValue? (c : Char) : Option Nat :=
  if c.isDigit then some (c.toNat - 48)
  else if 'a' ≤ c ∧ c ≤ 'f' then some (c.toNat - 87)
  else if 'A' ≤ c ∧ c ≤ 'F' then some (c.toNat - 55)
  else none

/-- The number that digits denote. Other characters count as zero. -/
def hexNumber (digits : List Char) : Nat :=
  digits.foldl (fun n c => 16 * n + (hexValue? c).getD 0) 0

/-- The character whose code point is written in digits. -/
def hexChar (digits : List Char) : Char := Char.ofNat (hexNumber digits)

/-- The words of a text between blanks and line breaks. -/
def wordsOf (cs : List Char) : List (List Char) :=
  (segments ' ' (cs.map fun c => if c = '\n' then ' ' else c)).filter (· ≠ [])

/-- The rows of a table, each as a list of words. -/
def rowsOf (table : String) : List (List (List Char)) :=
  (segments ';' table.toList).map wordsOf

end ModuleLoader.Text

import ModuleLoader.Text.Utf8

/-! # Positions

A position in a source text counts lines and, within the line, characters, both from one. It is
found from an offset in bytes.
-/

namespace ModuleLoader

open Text

/-- A place in a source text; lines and columns start at one. -/
structure Position where
  line : Nat
  column : Nat
deriving DecidableEq, Repr

namespace Position

/-- The characters behind the last line break. -/
def lastLine (cs : List Char) : List Char :=
  (cs.reverse.takeWhile (· ≠ '\n')).reverse

/-- The position of a byte offset. Offsets past the end denote the end. -/
def ofOffset (source : List Char) (offset : Nat) : Position :=
  let before := takeBytes offset source
  ⟨before.count '\n' + 1, (lastLine before).length + 1⟩

/-- Line and column with a colon between them. -/
def text (p : Position) : String := toString p.line ++ ":" ++ toString p.column

end Position

end ModuleLoader

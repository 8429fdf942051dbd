import ModuleLoader.Text.Utf8

/-! # Visible text

What is left of a text that was written for a terminal when no terminal reads it: control characters
and the sequences behind an escape are left out, and blanks are kept.
-/

namespace ModuleLoader.Text

/-- Where a text is: outside of a sequence, behind an escape, behind a mark that follows one, in a
row of parameters, in a title, or in another string for the terminal. -/
inductive Sequence where
  | outside
  | escape
  | marked
  | parameters
  | title
  | string
deriving DecidableEq, Repr

/-- Whether a character is a control character of ASCII. -/
def isAsciiControl (c : Char) : Bool := c.toNat < 32 || c.toNat = 127

/-- Whether a control character moves on within a line or to the next one. -/
def isBlankControl (c : Char) : Bool := c = '\t' || c = '\n' || c = '\x0c' || c = '\r'

namespace Sequence

/-- Whether a character is seen. -/
def shows (state : Sequence) (c : Char) : Bool :=
  match state with
  | outside => !isAsciiControl c || isBlankControl c
  | escape | marked | parameters => isBlankControl c
  | title | string => false

/-- Where a text is behind a character that is seen or not. -/
def next (state : Sequence) (c : Char) : Sequence :=
  if c = '\x1b' then escape
  else if c = '\x18' ∨ c = '\x1a' ∨ state.shows c then outside
  else match state with
    | outside => outside
    | escape =>
      if ' ' ≤ c ∧ c ≤ '/' then marked
      else if c = '[' then parameters
      else if c = ']' then title
      else if c = 'P' ∨ c = 'X' ∨ c = '^' ∨ c = '_' then string
      else if '0' ≤ c ∧ c ≤ '~' then outside
      else escape
    | marked => if '0' ≤ c ∧ c ≤ '~' then outside else marked
    | parameters => if '@' ≤ c ∧ c ≤ '~' then outside else parameters
    | title => if c = '\x07' then outside else title
    | string => if 0x9c ∈ utf8 [c] then outside else string

end Sequence

/-- The characters of a text that are seen. -/
def visibleFrom (state : Sequence) : List Char → List Char
  | [] => []
  | c :: rest =>
    let behind := visibleFrom (state.next c) rest
    if state.shows c then c :: behind else behind

/-- What is left of a text. -/
def visible (text : String) : String := String.ofList (visibleFrom .outside text.toList)

end ModuleLoader.Text

import ModuleLoader.Domain.Direction
import ModuleLoader.Domain.Joining
import ModuleLoader.Domain.Mapping
import ModuleLoader.Domain.Punycode
import ModuleLoader.Text.Mark

/-! # Domain names

A domain name is a row of labels with points between them. Names that look different may be the
same; each has one form in ASCII, in which a label with characters beyond ASCII is written in
letters and digits behind `xn--`.
-/

namespace ModuleLoader.Domain

open Text

/-- Characters of ASCII that no name may hold. -/
def isForbidden (c : Char) : Bool :=
  c.toNat ≤ 32 || c.toNat = 127 || "%#/:<>?@[\\]^|".toList.contains c

/-- What a label in ASCII begins with that stands for other characters. -/
def mark : List Char := "xn--".toList

/-- How many characters a label may have, in ASCII behind its mark and beyond. -/
def markedLimit : Nat := 2000

/-- How many characters a label beyond ASCII may have. -/
def labelLimit : Nat := 1000

/-- Whether all characters are of ASCII. -/
def isAscii (cs : List Char) : Bool := cs.all (·.toNat < 128)

/-- Whether a label does not begin with a mark, its joiners make a difference, and it is not too
long. -/
def isProper (label : List Char) : Bool :=
  !label.head?.any isMark && joinersFit [] label && (isAscii label || label.length ≤ labelLimit)

/-- Whether a label is the one that stands for itself in all names. -/
def isNormal (label : List Char) : Bool :=
  label.all (fun c => mapped? c = some [c] && !isForbidden c && c ≠ '.') && normalForm label = label

/-- The characters that a label in ASCII stands for. -/
def unmarked? (label : List Char) : Option (List Char) :=
  if label.getLast? = some '-' ∨ ¬ isAscii label ∨ markedLimit < label.length then none
  else match Punycode.decode? label with
    | some decoded => if isNormal decoded && isProper decoded then some decoded else none
    | none => none

/-- The characters of a label of a name that was mapped. -/
def label? (label : List Char) : Option (List Char) :=
  match dropStart? mark label with
  | some rest => unmarked? rest
  | none => if isAscii label || isProper label then some label else none

/-- The form of a label in ASCII. -/
def asciiLabel (label : List Char) : List Char :=
  if isAscii label then label else mark ++ Punycode.encode label

/-- The form of a name in ASCII, if it is a name. -/
def toAscii? (name : List Char) : Option (List Char) := do
  let name := normalForm (← mapAll? name)
  if name.any isForbidden then none
  else
    let labels ← (segments '.' name).mapM label?
    if directionsFit labels then some (joined '.' (labels.map asciiLabel)) else none

end ModuleLoader.Domain

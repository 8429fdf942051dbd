import ModuleLoader.Dict

/-! # JSON values and their text

The value of a JSON text, with numbers as they are written. A string whose escapes spell no text,
because they name half of a surrogate pair, is kept without a text.
-/

namespace ModuleLoader

/-- A JSON value. The members of an object stand in the order in which they are written. -/
inductive Json where
  | null
  | bool (b : Bool)
  | number (numeral : List Char)
  | string (s : Option String)
  | array (items : List Json)
  | object (members : List (Option String × Json))

namespace Json

instance : Inhabited Json := ⟨null⟩

/-- The digit of a number below sixteen, in lower case. -/
def hexDigit (n : Nat) : Char := if n < 10 then Char.ofNat (48 + n) else Char.ofNat (87 + n)

/-- A character inside a string. -/
def escape (c : Char) : List Char :=
  if c = '"' then ['\\', '"']
  else if c = '\\' then ['\\', '\\']
  else if c = '\x08' then ['\\', 'b']
  else if c = '\x0c' then ['\\', 'f']
  else if c = '\n' then ['\\', 'n']
  else if c = '\r' then ['\\', 'r']
  else if c = '\t' then ['\\', 't']
  else if c.toNat < 32 then
    ['\\', 'u', '0', '0', hexDigit (c.toNat / 16), hexDigit (c.toNat % 16)]
  else [c]

/-- A string in quotes. -/
def quoted (s : String) : List Char := '"' :: (s.toList.flatMap escape ++ ['"'])

mutual

/-- The shortest text of a value, without blanks. A string without a text is written empty. -/
def write : Json → List Char
  | null => "null".toList
  | bool true => "true".toList
  | bool false => "false".toList
  | number numeral => numeral
  | string s => quoted (s.getD "")
  | array items => '[' :: (writeItems items ++ [']'])
  | object members => '\x7b' :: (writeMembers members ++ ['\x7d'])

/-- The items of an array with commas between them. -/
def writeItems : List Json → List Char
  | [] => []
  | [j] => write j
  | j :: k :: rest => write j ++ ',' :: writeItems (k :: rest)

/-- The members of an object with commas between them. -/
def writeMembers : List (Option String × Json) → List Char
  | [] => []
  | [(k, j)] => quoted (k.getD "") ++ ':' :: write j
  | (k, j) :: m :: rest => quoted (k.getD "") ++ ':' :: write j ++ ',' :: writeMembers (m :: rest)

end

/-! ## Parts of values -/

/-- The text of a string. -/
def text? : Json → Option String
  | string s => s
  | _ => none

/-- A truth value. -/
def bool? : Json → Option Bool
  | bool b => some b
  | _ => none

/-- The items of an array. -/
def items? : Json → Option (List Json)
  | array items => some items
  | _ => none

/-- The texts in an array of strings. -/
def texts? (j : Json) : Option (List String) := j.items?.bind fun items => items.mapM text?

/-- A byte, written as a numeral without sign, point and exponent. -/
def byte? : Json → Option UInt8
  | number numeral =>
    if numeral.all Char.isDigit then
      let n := numeral.foldl (fun n c => 10 * n + (c.toNat - 48)) 0
      if n < 256 then some (UInt8.ofNat n) else none
    else none
  | _ => none

/-- A member whose key is a text. -/
def keyed? (m : Option String × Json) : Option (String × Json) := m.1.map fun k => (k, m.2)

/-- The members of an object by key, if every key is a text. Of equal keys the last counts. -/
def dict? : Json → Option (Dict Json)
  | object members =>
    (members.mapM keyed?).map Dict.ofList
  | _ => none

/-- The values of the named fields of a record. A record is an object, in which no field may stand
twice and other members are left out, or an array of the first fields in order. -/
def fields? (names : List String) : Json → Option (Dict Json)
  | object members => do
    let named ← members.mapM keyed?
    let known := named.filter fun m => names.contains m.1
    if (known.map (·.1)).Nodup then some (Dict.ofList known) else none
  | array items => if items.length ≤ names.length then some (.ofList (names.zip items)) else none
  | _ => none

/-- The value of a field, or a default where the field is missing. -/
def field? {α : Type} (fields : Dict Json) (name : String) (read : Json → Option α)
    (missing : Option α) : Option α :=
  match fields.get? name with
  | some j => read j
  | none => missing

end Json

end ModuleLoader

import ModuleLoader.Dialect.Tree
import ModuleLoader.Decimal.Shortest

/-! # Canonical source text

Every statement is written on a line of its own and ends with a semicolon. Operands that are
themselves built by an operator stand in parentheses, so the text shows the tree.
-/

namespace ModuleLoader.Dialect

/-- The escape of a character inside double quotes, or the character itself. -/
def escape (c : Char) : List Char :=
  if c = '"' then ['\\', '"']
  else if c = '\\' then ['\\', '\\']
  else if c = '\n' then ['\\', 'n']
  else if c = '\r' then ['\\', 'r']
  else if c = '\t' then ['\\', 't']
  else if c = '\x00' then ['\\', '0']
  else [c]

/-- A string literal in double quotes. -/
def quoted (s : String) : List Char := '"' :: (s.toList.flatMap escape ++ ['"'])

/-- Texts with a comma and a space between each two. -/
def commaList : List (List Char) → List Char
  | [] => []
  | [t] => t
  | t :: u :: rest => t ++ ',' :: ' ' :: commaList (u :: rest)

namespace Expression

/-- Whether an operand needs parentheses. -/
def isCompound : Expression → Bool
  | binary _ _ _ | assign _ _ _ | negate _ | increment _ => true
  | number x => x < 0.0
  | _ => false

/-- Put a text in parentheses if asked to. -/
def enclosed (wanted : Bool) (text : List Char) : List Char :=
  if wanted then '(' :: (text ++ [')']) else text

mutual

/-- The canonical text of an expression. -/
def print : Expression → List Char
  | number x => (Number.display x).toList
  | string s => quoted s
  | boolean true => "true".toList
  | boolean false => "false".toList
  | null => "null".toList
  | identifier name => name.toList
  | self => "this".toList
  | array elements => '[' :: (commaList (printAll elements) ++ [']'])
  | member object property => enclosed object.isCompound (print object) ++ '.' :: property.toList
  | index object key =>
    enclosed object.isCompound (print object) ++ '[' :: (print key ++ [']'])
  | negate operand => '-' :: enclosed operand.isCompound (print operand)
  | binary op left right =>
    enclosed left.isCompound (print left) ++ [' ', op.sign, ' '] ++
      enclosed right.isCompound (print right)
  | assign true target value => print target ++ [' ', '+', '=', ' '] ++ print value
  | assign false target value => print target ++ [' ', '=', ' '] ++ print value
  | increment target => print target ++ ['+', '+']

/-- The canonical texts of several expressions. -/
def printAll : List Expression → List (List Char)
  | [] => []
  | e :: rest => print e :: printAll rest

end

end Expression

/-- A name of a `var` statement with its value. -/
def Declarator.print (d : Declarator) : List Char :=
  match d.value with
  | none => d.name.toList
  | some value => d.name.toList ++ [' ', '=', ' '] ++ value.print

/-- A `var` statement without its semicolon. -/
def printVar (declarators : List Declarator) : List Char :=
  "var ".toList ++ commaList (declarators.map Declarator.print)

/-- A name, and behind `as` the other name if it differs. -/
def printRenamed (first second : String) : List Char :=
  if first = second then first.toList else first.toList ++ " as ".toList ++ second.toList

/-- A binding inside the braces of an import. -/
def ImportBinding.print : ImportBinding → List Char
  | named imported bound => printRenamed imported bound
  | whole bound => "* as ".toList ++ bound.toList

/-- A list in braces. -/
def braced (texts : List (List Char)) : List Char := '\x7b' :: (commaList texts ++ ['\x7d'])

/-- A statement without its semicolon. -/
def StatementKind.printBody : StatementKind → List Char
  | importFrom [] source => "import ".toList ++ quoted source
  | importFrom [.whole bound] source =>
    "import * as ".toList ++ bound.toList ++ " from ".toList ++ quoted source
  | importFrom bindings source =>
    "import ".toList ++ braced (bindings.map ImportBinding.print) ++ " from ".toList ++
      quoted source
  | moduleFrom bound source =>
    "module ".toList ++ bound.toList ++ " from ".toList ++ quoted source
  | exportVar declarators => "export ".toList ++ printVar declarators
  | exportNamed specifiers source =>
    "export ".toList ++ braced (specifiers.map fun s => printRenamed s.name s.exported) ++
      match source with
      | none => []
      | some s => " from ".toList ++ quoted s
  | exportAll source => "export * from ".toList ++ quoted source
  | exportDefault value => "export default ".toList ++ value.print
  | var declarators => printVar declarators
  | expression value => value.print

/-- The canonical text of a statement. -/
def StatementKind.print (kind : StatementKind) : List Char := kind.printBody ++ [';']

/-- The canonical text of a program, one line for each statement. -/
def Program.print (p : Program) : List Char := p.body.flatMap fun s => s.kind.print ++ ['\n']

end ModuleLoader.Dialect

import ModuleLoader.Dialect.Lexer
import ModuleLoader.Dialect.Tree

/-! # Syntax trees of token rows

A descent over the grammar of the dialect. Statements end with a semicolon or with the input. Every
step either takes a token or goes down one of eight levels of the grammar, so the depth of the
descent is bounded by eight for every token that is left.
-/

namespace ModuleLoader.Dialect

/-- What the grammar wants at a place. -/
inductive Wanted where
  | mark (m : Mark)
  | word (w : String)
  | identifier
  | name
  | specifier
deriving DecidableEq, Repr

/-- Why a token row is no program. -/
inductive SyntaxCause where
  | expected (wanted : Wanted) (found : Option TokenKind)
  | unexpected (found : Option TokenKind)
  | exportForm
  | assignmentTarget
  | incrementOperand

/-- A cause and the byte where the offending token starts. -/
structure SyntaxError where
  cause : SyntaxCause
  offset : Nat

/-- What is wanted, in the words of a diagnostic. -/
def Wanted.describe : Wanted → String
  | mark m => "'" ++ m.spelling ++ "'"
  | word w => "'" ++ w ++ "'"
  | identifier => "identifier"
  | name => "name"
  | specifier => "module specifier string"

/-- The wording of a syntax error. -/
def SyntaxCause.message : SyntaxCause → String
  | expected wanted found =>
    "expected " ++ wanted.describe ++ ", found " ++ TokenKind.describe? found
  | unexpected found => "unexpected " ++ TokenKind.describe? found
  | exportForm => "expected 'var', 'default', '*' or '\x7b' after 'export'"
  | assignmentTarget => "invalid assignment target"
  | incrementOperand => "invalid increment operand"

/-- The tokens that are left, the end of the last one taken, and the length of the source. -/
structure Cursor where
  rest : List Token
  last : Nat
  size : Nat

namespace Cursor

/-- The next token, if the input has not ended. -/
def kind? (c : Cursor) : Option TokenKind := c.rest.head?.map (·.kind)

/-- Where the next token starts. -/
def offset (c : Cursor) : Nat :=
  match c.rest with
  | [] => c.size
  | t :: _ => t.start

/-- Take a token. -/
def next (c : Cursor) : Cursor :=
  match c.rest with
  | [] => c
  | t :: rest => ⟨rest, t.stop, c.size⟩

/-- Whether the next token is a given mark. -/
def atMark (c : Cursor) (m : Mark) : Bool :=
  match c.kind? with
  | some (.mark n) => n = m
  | _ => false

/-- Whether the next token is a given identifier. -/
def atWord (c : Cursor) (w : String) : Bool :=
  match c.kind? with
  | some (.identifier name) => name = w
  | _ => false

/-- Whether a `module` declaration starts here: the word and an identifier behind it. -/
def atModule (c : Cursor) : Bool :=
  c.atWord "module" &&
    match c.next.kind? with
    | some (.identifier _) => true
    | _ => false

end Cursor

/-- A step over the tokens. -/
abbrev Parse := StateT Cursor (Except SyntaxError)

namespace Parse

/-- Take a token. -/
def skip : Parse Unit := modify Cursor.next

/-- Refuse the next token. -/
def refuse {α : Type} (cause : Option TokenKind → SyntaxCause) : Parse α :=
  fun c => .error ⟨cause c.kind?, c.offset⟩

/-- Take a given mark. -/
def mark (m : Mark) : Parse Unit := do
  if (← get).atMark m then skip else refuse (.expected (.mark m))

/-- Take a given word. -/
def word (w : String) : Parse Unit := do
  if (← get).atWord w then skip else refuse (.expected (.word w))

/-- Take an identifier. -/
def identifier : Parse String := do
  match (← get).kind? with
  | some (.identifier name) =>
    skip
    return name
  | _ => refuse (.expected .identifier)

/-- Take a property or export name, which may be a reserved word. -/
def name : Parse String := do
  match (← get).kind? with
  | some (.identifier name) =>
    skip
    return name
  | some (.keyword k) =>
    skip
    return k.word
  | _ => refuse (.expected .name)

/-- Take a module specifier. -/
def specifier : Parse String := do
  match (← get).kind? with
  | some (.string s) =>
    skip
    return s
  | _ => refuse (.expected .specifier)

/-- End a statement. -/
def semicolon : Parse Unit := do
  if (← get).rest.isEmpty then return () else mark .semicolon

/-- Items with commas between them up to a closing mark, which stays. A comma may stand last. -/
def items {α : Type} (closing : Mark) (item : Parse α) : Nat → Parse (List α)
  | 0 => return []
  | n + 1 => do
    if (← get).atMark closing then return []
    let first ← item
    if (← get).atMark .comma then
      skip
      return first :: (← items closing item n)
    else return [first]

/-- One item or more with commas between them. -/
def separated {α : Type} (item : Parse α) : Nat → Parse (List α)
  | 0 => return []
  | n + 1 => do
    let first ← item
    if (← get).atMark .comma then
      skip
      return first :: (← separated item n)
    else return [first]

/-- The operator of a sum at this place. -/
def sumOp? (c : Cursor) : Option BinaryOp :=
  if c.atMark .plus then some .add else if c.atMark .minus then some .sub else none

/-- The operator of a product at this place. -/
def productOp? (c : Cursor) : Option BinaryOp :=
  if c.atMark .star then some .mul else if c.atMark .slash then some .div else none

/-- The assignment at this place, and whether it adds. -/
def assignment? (c : Cursor) : Option Bool :=
  if c.atMark .equal then some false else if c.atMark .plusEqual then some true else none

mutual

/-- An assignment, or a sum alone. Assignments nest to the right. -/
def expression : Nat → Parse Expression
  | 0 => refuse .unexpected
  | n + 1 => do
    let start := (← get).offset
    let target ← sum n
    match assignment? (← get) with
    | none => return target
    | some adding =>
      if target.isAssignable then
        skip
        return .assign adding target (← expression n)
      else fun _ => .error ⟨.assignmentTarget, start⟩

/-- Products with `+` and `-` between them. -/
def sum : Nat → Parse Expression
  | 0 => refuse .unexpected
  | n + 1 => do sumTail n (← product n)

/-- The rest of a sum behind its left operand. -/
def sumTail : Nat → Expression → Parse Expression
  | 0, left => return left
  | n + 1, left => do
    match sumOp? (← get) with
    | none => return left
    | some op =>
      skip
      sumTail n (.binary op left (← product n))

/-- Factors with `*` and `/` between them. -/
def product : Nat → Parse Expression
  | 0 => refuse .unexpected
  | n + 1 => do productTail n (← factor n)

/-- The rest of a product behind its left operand. -/
def productTail : Nat → Expression → Parse Expression
  | 0, left => return left
  | n + 1, left => do
    match productOp? (← get) with
    | none => return left
    | some op =>
      skip
      productTail n (.binary op left (← factor n))

/-- Minus signs before a chain. -/
def factor : Nat → Parse Expression
  | 0 => refuse .unexpected
  | n + 1 => do
    if (← get).atMark .minus then
      skip
      return .negate (← factor n)
    else chain n

/-- A primary with members and indices behind it, and at most one increment. -/
def chain : Nat → Parse Expression
  | 0 => refuse .unexpected
  | n + 1 => do
    let start := (← get).offset
    let place ← chainTail n (← primary n)
    if (← get).atMark .plusPlus then
      if place.isAssignable then
        skip
        return .increment place
      else fun _ => .error ⟨.incrementOperand, start⟩
    else return place

/-- The members and indices behind an object. -/
def chainTail : Nat → Expression → Parse Expression
  | 0, object => return object
  | n + 1, object => do
    if (← get).atMark .dot then
      skip
      chainTail n (.member object (← name))
    else if (← get).atMark .leftBracket then
      skip
      let key ← expression n
      mark .rightBracket
      chainTail n (.index object key)
    else return object

/-- A literal, an identifier, an array or an expression in parentheses. -/
def primary : Nat → Parse Expression
  | 0 => refuse .unexpected
  | n + 1 => do
    match (← get).kind? with
    | some (.number x) =>
      skip
      return .number x
    | some (.string s) =>
      skip
      return .string s
    | some (.identifier name) =>
      skip
      return .identifier name
    | some (.keyword .trueWord) =>
      skip
      return .boolean true
    | some (.keyword .falseWord) =>
      skip
      return .boolean false
    | some (.keyword .nullWord) =>
      skip
      return .null
    | some (.keyword .thisWord) =>
      skip
      return .self
    | some (.mark .leftBracket) =>
      skip
      let elements ← items .rightBracket (expression n) n
      mark .rightBracket
      return .array elements
    | some (.mark .leftParen) =>
      skip
      let inner ← expression n
      mark .rightParen
      return inner
    | _ => refuse .unexpected

end

/-- An expression, with depth enough for all tokens that are left. -/
def wholeExpression : Parse Expression := do
  expression (8 * (← get).rest.length + 8)

/-- A name of a `var` statement with an optional value. -/
def declarator : Parse Declarator := do
  let name ← identifier
  if (← get).atMark .equal then
    skip
    return ⟨name, some (← wholeExpression)⟩
  else return ⟨name, none⟩

/-- The names of a `var` statement. -/
def declarators : Parse (List Declarator) := do separated declarator ((← get).rest.length + 1)

/-- A name, and the name behind `as` if that word follows. -/
def renamed (second : Parse String) : Parse (String × String) := do
  let first ← name
  if (← get).atWord "as" then
    skip
    return (first, ← second)
  else return (first, first)

/-- A list in braces. -/
def braces {α : Type} (item : Parse α) : Parse (List α) := do
  mark .leftBrace
  let list ← items .rightBrace item ((← get).rest.length + 1)
  mark .rightBrace
  return list

/-- What follows `import`. -/
def importClause : Parse StatementKind := do
  match (← get).kind? with
  | some (.string s) =>
    skip
    return .importFrom [] s
  | _ =>
    let bindings ← if (← get).atMark .star then do
        skip
        word "as"
        pure [ImportBinding.whole (← identifier)]
      else braces do
        let (imported, bound) ← renamed identifier
        pure (ImportBinding.named imported bound)
    word "from"
    return .importFrom bindings (← specifier)

/-- What follows `module`. -/
def moduleClause : Parse StatementKind := do
  let bound ← identifier
  word "from"
  return .moduleFrom bound (← specifier)

/-- What follows `export`. -/
def exportClause : Parse StatementKind := do
  match (← get).kind? with
  | some (.keyword .varWord) =>
    skip
    return .exportVar (← declarators)
  | some (.keyword .defaultWord) =>
    skip
    return .exportDefault (← wholeExpression)
  | some (.mark .star) =>
    skip
    word "from"
    return .exportAll (← specifier)
  | some (.mark .leftBrace) =>
    let specifiers ← braces do
      let (name, exported) ← renamed name
      pure (ExportSpecifier.mk name exported)
    if (← get).atWord "from" then
      skip
      return .exportNamed specifiers (some (← specifier))
    else return .exportNamed specifiers none
  | _ => refuse fun _ => .exportForm

/-- A statement without its semicolon. -/
def statementKind : Parse StatementKind := do
  match (← get).kind? with
  | some (.keyword .importWord) =>
    skip
    importClause
  | some (.keyword .exportWord) =>
    skip
    exportClause
  | some (.keyword .varWord) =>
    skip
    return .var (← declarators)
  | _ =>
    if (← get).atModule then
      skip
      moduleClause
    else return .expression (← wholeExpression)

/-- A statement. -/
def statement : Parse Statement := do
  let start := (← get).offset
  let kind ← statementKind
  semicolon
  return ⟨kind, start, (← get).last⟩

/-- Statements up to the end of the input, semicolons between them left out. -/
def statements : Nat → Parse (List Statement)
  | 0 => return []
  | n + 1 => do
    if (← get).rest.isEmpty then return []
    else if (← get).atMark .semicolon then
      skip
      statements n
    else
      let first ← statement
      return first :: (← statements n)

end Parse

namespace Program

/-- The program that a row of tokens from a source of `size` bytes spells. -/
def ofTokens (tokens : List Token) (size : Nat) : Except SyntaxError Program :=
  ((Parse.statements (tokens.length + 1)).run' ⟨tokens, 0, size⟩).map Program.mk

/-- The program that a source text spells. -/
def ofSource (source : List Char) : Except SyntaxError Program :=
  ofTokens (tokens source) (Text.byteLength source)

end Program

end ModuleLoader.Dialect

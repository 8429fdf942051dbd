/-! # Syntax trees of the module dialect

Programs are lists of statements with the bytes that each takes up. A program requests the
specifiers that its import and export statements name, each once, in order of first appearance.
-/

namespace ModuleLoader.Dialect

/-- The operators between two operands. -/
inductive BinaryOp where
  | add
  | sub
  | mul
  | div
deriving DecidableEq, Repr

/-- Expressions. `self` is the object of the global bindings. -/
inductive Expression where
  | number (x : Float)
  | string (s : String)
  | boolean (b : Bool)
  | null
  | identifier (name : String)
  | self
  | array (elements : List Expression)
  | member (object : Expression) (property : String)
  | index (object key : Expression)
  | negate (operand : Expression)
  | binary (op : BinaryOp) (left right : Expression)
  | assign (adding : Bool) (target value : Expression)
  | increment (target : Expression)

/-- One name of a `var` statement with its initial value. -/
structure Declarator where
  name : String
  value : Option Expression

/-- One binding of an import: a single export under a name, or the whole namespace. -/
inductive ImportBinding where
  | named (imported bound : String)
  | whole (bound : String)
deriving DecidableEq, Repr

/-- A name and the name under which importers see it. -/
structure ExportSpecifier where
  name : String
  exported : String
deriving DecidableEq, Repr

/-- What a statement is. -/
inductive StatementKind where
  | importFrom (bindings : List ImportBinding) (source : String)
  | moduleFrom (bound source : String)
  | exportVar (declarators : List Declarator)
  | exportNamed (specifiers : List ExportSpecifier) (source : Option String)
  | exportAll (source : String)
  | exportDefault (value : Expression)
  | var (declarators : List Declarator)
  | expression (value : Expression)

/-- A statement and the bytes of the source that it takes up, its semicolon included. -/
structure Statement where
  kind : StatementKind
  start : Nat
  stop : Nat

/-- The statements of a source text in order. -/
structure Program where
  body : List Statement

/-- The sign of an operator. -/
def BinaryOp.sign : BinaryOp → Char
  | add => '+'
  | sub => '-'
  | mul => '*'
  | div => '/'

/-- Identifiers, members and index expressions can be assigned to. -/
def Expression.isAssignable : Expression → Bool
  | identifier _ | member _ _ | index _ _ => true
  | _ => false

namespace StatementKind

/-- Whether a statement is allowed in modules only. -/
def isModuleOnly : StatementKind → Bool
  | var _ | expression _ => false
  | _ => true

/-- The specifier that a statement requests. -/
def source? : StatementKind → Option String
  | importFrom _ source | moduleFrom _ source | exportAll source => some source
  | exportNamed _ source => source
  | _ => none

end StatementKind

/-- Keep the first of equal elements. -/
def distinct : List String → List String
  | [] => []
  | s :: rest => s :: (distinct rest).filter (· ≠ s)

theorem mem_distinct {s : String} {l : List String} : s ∈ distinct l ↔ s ∈ l := by
  induction l with
  | nil => simp [distinct]
  | cons t rest ih =>
    by_cases h : s = t <;> simp [distinct, h, ih]

theorem nodup_distinct (l : List String) : (distinct l).Nodup := by
  induction l with
  | nil => simp [distinct]
  | cons t rest ih =>
    exact List.nodup_cons.2 ⟨by simp, ih.filter _⟩

namespace Program

/-- The requested specifiers in order of first appearance. -/
def requests (p : Program) : List String := distinct (p.body.filterMap (·.kind.source?))

/-- The first statement that scripts may not hold. -/
def moduleOnly? (p : Program) : Option Statement := p.body.find? (·.kind.isModuleOnly)

end Program

end ModuleLoader.Dialect

import ModuleLoader.Proofs.Dialect.RowReading

/-! # The grammar of the dialect

Which rows of tokens are programs, and of which trees, as derivations that follow no order of
reading. Expressions have six levels; statements end with a semicolon or with the input.
-/

namespace ModuleLoader.Dialect

/-! ## Names and lists -/

/-- The name that a token is where reserved words are names, too. -/
def TokenKind.name? : TokenKind → Option String
  | identifier name => some name
  | keyword k => some k.word
  | _ => none

/-- The identifier that a token is. -/
def TokenKind.identifier? : TokenKind → Option String
  | identifier name => some name
  | _ => none

section Lists

variable {α : Type}

/-- Items in braces with commas between them. A comma may stand behind the last item. -/
inductive BracesRow (Item : List TokenKind → α → Prop) : List TokenKind → List α → Prop where
  | braces {rows : List (List TokenKind × α)} (trailing : Bool) : (∀ r ∈ rows, Item r.1 r.2) →
      BracesRow Item (.mark .leftBrace :: (listRow trailing (rows.map Prod.fst) ++
        [.mark .rightBrace])) (rows.map Prod.snd)

/-- One item or more with commas between them and none behind the last. -/
inductive SeparatedRow (Item : List TokenKind → α → Prop) : List TokenKind → List α → Prop where
  | separated {rows : List (List TokenKind × α)} : rows ≠ [] → (∀ r ∈ rows, Item r.1 r.2) →
      SeparatedRow Item (commaRow (rows.map Prod.fst)) (rows.map Prod.snd)

end Lists

/-! ## Expressions -/

/-- The levels of the grammar of expressions. -/
inductive Level where
  | primary
  | chain
  | factor
  | product
  | sum
  | expression
deriving DecidableEq, Repr

/-- Whether a row of tokens is an expression of a level. Parentheses leave no trace in the tree. -/
inductive Derives : Level → List TokenKind → Expression → Prop where
  | atom {k : TokenKind} {e : Expression} : Parse.atom? k = some e → Derives .primary [k] e
  | parentheses {ks : List TokenKind} {e : Expression} : Derives .expression ks e →
      Derives .primary (.mark .leftParen :: (ks ++ [.mark .rightParen])) e
  | array {rows : List (List TokenKind × Expression)} (trailing : Bool) :
      (∀ r ∈ rows, Derives .expression r.1 r.2) →
      Derives .primary (.mark .leftBracket :: (listRow trailing (rows.map Prod.fst) ++
        [.mark .rightBracket])) (.array (rows.map Prod.snd))
  | primary {ks : List TokenKind} {e : Expression} : Derives .primary ks e → Derives .chain ks e
  | member {ks : List TokenKind} {k : TokenKind} {object : Expression} {property : String} :
      Derives .chain ks object → k.name? = some property →
      Derives .chain (ks ++ [.mark .dot, k]) (.member object property)
  | index {ks ks' : List TokenKind} {object key : Expression} : Derives .chain ks object →
      Derives .expression ks' key →
      Derives .chain (ks ++ .mark .leftBracket :: (ks' ++ [.mark .rightBracket]))
        (.index object key)
  | chain {ks : List TokenKind} {e : Expression} : Derives .chain ks e → Derives .factor ks e
  | increment {ks : List TokenKind} {target : Expression} : Derives .chain ks target →
      target.isAssignable = true → Derives .factor (ks ++ [.mark .plusPlus]) (.increment target)
  | negate {ks : List TokenKind} {e : Expression} : Derives .factor ks e →
      Derives .factor (.mark .minus :: ks) (.negate e)
  | factor {ks : List TokenKind} {e : Expression} : Derives .factor ks e → Derives .product ks e
  | multiply {op : BinaryOp} {ks ks' : List TokenKind} {left right : Expression} :
      op = .mul ∨ op = .div → Derives .product ks left → Derives .factor ks' right →
      Derives .product (ks ++ .mark op.mark :: ks') (.binary op left right)
  | product {ks : List TokenKind} {e : Expression} : Derives .product ks e → Derives .sum ks e
  | add {op : BinaryOp} {ks ks' : List TokenKind} {left right : Expression} :
      op = .add ∨ op = .sub → Derives .sum ks left → Derives .product ks' right →
      Derives .sum (ks ++ .mark op.mark :: ks') (.binary op left right)
  | sum {ks : List TokenKind} {e : Expression} : Derives .sum ks e → Derives .expression ks e
  | assign {adding : Bool} {ks ks' : List TokenKind} {target value : Expression} :
      Derives .chain ks target → target.isAssignable = true → Derives .expression ks' value →
      Derives .expression (ks ++ .mark (assignMark adding) :: ks') (.assign adding target value)

/-! ## Statements -/

/-- A name of a `var` statement, alone or with its value. -/
inductive DeclaratorRow : List TokenKind → Declarator → Prop where
  | bare (name : String) : DeclaratorRow [.identifier name] ⟨name, none⟩
  | value {ks : List TokenKind} {e : Expression} (name : String) : Derives .expression ks e →
      DeclaratorRow (.identifier name :: .mark .equal :: ks) ⟨name, some e⟩

/-- A name, alone or with another name behind `as`. -/
inductive RenamedRow (second? : TokenKind → Option String) :
    List TokenKind → String × String → Prop where
  | plain {k : TokenKind} {s : String} : k.name? = some s → RenamedRow second? [k] (s, s)
  | renamed {k k' : TokenKind} {s t : String} : k.name? = some s → second? k' = some t →
      RenamedRow second? [k, .identifier "as", k'] (s, t)

/-- The names that an import binds. -/
inductive BindingRow : List TokenKind → ImportBinding → Prop where
  | named {ks : List TokenKind} {r : String × String} : RenamedRow TokenKind.identifier? ks r →
      BindingRow ks (.named r.1 r.2)

/-- The names that an export gives. -/
inductive SpecifierRow : List TokenKind → ExportSpecifier → Prop where
  | named {ks : List TokenKind} {r : String × String} : RenamedRow TokenKind.name? ks r →
      SpecifierRow ks ⟨r.1, r.2⟩

/-- Whether a row of tokens is a statement without its semicolon. -/
inductive StatementRow : List TokenKind → StatementKind → Prop where
  | importBare (source : String) :
      StatementRow [.keyword .importWord, .string source] (.importFrom [] source)
  | importWhole (bound source : String) : StatementRow [.keyword .importWord, .mark .star,
      .identifier "as", .identifier bound, .identifier "from", .string source]
      (.importFrom [.whole bound] source)
  | importNamed {ks : List TokenKind} {bindings : List ImportBinding} (source : String) :
      BracesRow BindingRow ks bindings → StatementRow
        (.keyword .importWord :: (ks ++ [.identifier "from", .string source]))
        (.importFrom bindings source)
  | moduleFrom (bound source : String) : StatementRow [.identifier "module", .identifier bound,
      .identifier "from", .string source] (.moduleFrom bound source)
  | exportVar {ks : List TokenKind} {l : List Declarator} : SeparatedRow DeclaratorRow ks l →
      StatementRow (.keyword .exportWord :: .keyword .varWord :: ks) (.exportVar l)
  | exportDefault {ks : List TokenKind} {e : Expression} : Derives .expression ks e →
      StatementRow (.keyword .exportWord :: .keyword .defaultWord :: ks) (.exportDefault e)
  | exportAll (source : String) : StatementRow [.keyword .exportWord, .mark .star,
      .identifier "from", .string source] (.exportAll source)
  | exportNamed {ks : List TokenKind} {l : List ExportSpecifier} : BracesRow SpecifierRow ks l →
      StatementRow (.keyword .exportWord :: ks) (.exportNamed l none)
  | exportFrom {ks : List TokenKind} {l : List ExportSpecifier} (source : String) :
      BracesRow SpecifierRow ks l → StatementRow
        (.keyword .exportWord :: (ks ++ [.identifier "from", .string source]))
        (.exportNamed l (some source))
  | var {ks : List TokenKind} {l : List Declarator} : SeparatedRow DeclaratorRow ks l →
      StatementRow (.keyword .varWord :: ks) (.var l)
  | expression {ks : List TokenKind} {e : Expression} : Derives .expression ks e →
      StatementRow ks (.expression e)

/-- Whether a row of tokens is a program. A statement takes up the bytes from its first token to its
semicolon or, at the end of the input, to its last token. -/
inductive ProgramRow : List Token → List Statement → Prop where
  | nil : ProgramRow [] []
  | semicolon {t : Token} {rest : List Token} {body : List Statement} :
      t.kind = .mark .semicolon → ProgramRow rest body → ProgramRow (t :: rest) body
  | statement {first t : Token} {row rest : List Token} {kind : StatementKind}
      {body : List Statement} : StatementRow ((first :: row).map (·.kind)) kind →
      t.kind = .mark .semicolon → ProgramRow rest body →
      ProgramRow (first :: (row ++ t :: rest)) (⟨kind, first.start, t.stop⟩ :: body)
  | last {first : Token} {row : List Token} {kind : StatementKind} :
      StatementRow ((first :: row).map (·.kind)) kind →
      ProgramRow (first :: row)
        [⟨kind, first.start, ((first :: row).getLast (List.cons_ne_nil first row)).stop⟩]

end ModuleLoader.Dialect

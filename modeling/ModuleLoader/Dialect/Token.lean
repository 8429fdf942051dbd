import ModuleLoader.Decimal.Shortest

/-! # Tokens of the module dialect

The words and marks of the dialect and the tokens made of them, each with the wording that
diagnostics use. The words `from`, `as` and `module` have a meaning in some places only and are
identifiers.
-/

namespace ModuleLoader.Dialect

/-- The reserved words. -/
inductive Keyword where
  | importWord
  | exportWord
  | varWord
  | defaultWord
  | thisWord
  | trueWord
  | falseWord
  | nullWord
deriving DecidableEq, Repr

/-- The marks made of one or two characters. -/
inductive Mark where
  | leftBrace
  | rightBrace
  | leftParen
  | rightParen
  | leftBracket
  | rightBracket
  | semicolon
  | comma
  | dot
  | plus
  | plusPlus
  | plusEqual
  | minus
  | star
  | slash
  | equal
deriving DecidableEq, Repr

/-- What a token is. A string literal carries its text with the escapes resolved. -/
inductive TokenKind where
  | number (x : Float)
  | string (s : String)
  | identifier (name : String)
  | keyword (k : Keyword)
  | mark (m : Mark)
  | unterminatedString
  | invalid (c : Char)

/-- A token and the bytes of the source that it takes up. -/
structure Token where
  kind : TokenKind
  start : Nat
  stop : Nat

namespace Keyword

/-- Every reserved word. -/
def all : List Keyword :=
  [importWord, exportWord, varWord, defaultWord, thisWord, trueWord, falseWord, nullWord]

/-- The spelling of a reserved word. -/
def word : Keyword → String
  | importWord => "import"
  | exportWord => "export"
  | varWord => "var"
  | defaultWord => "default"
  | thisWord => "this"
  | trueWord => "true"
  | falseWord => "false"
  | nullWord => "null"

/-- The reserved word of a spelling. -/
def ofWord? (s : String) : Option Keyword := all.find? fun k => k.word = s

theorem mem_all (k : Keyword) : k ∈ all := by cases k <;> decide

theorem ofWord?_word (k : Keyword) : ofWord? k.word = some k := by cases k <;> decide

theorem word_of_ofWord? {s : String} {k : Keyword} (h : ofWord? s = some k) : k.word = s := by
  simpa using List.find?_some h

end Keyword

/-- The spelling of a mark. -/
def Mark.spelling : Mark → String
  | leftBrace => "\x7b"
  | rightBrace => "\x7d"
  | leftParen => "("
  | rightParen => ")"
  | leftBracket => "["
  | rightBracket => "]"
  | semicolon => ";"
  | comma => ","
  | dot => "."
  | plus => "+"
  | plusPlus => "++"
  | plusEqual => "+="
  | minus => "-"
  | star => "*"
  | slash => "/"
  | equal => "="

namespace TokenKind

/-- A token in the words of a diagnostic. -/
def describe : TokenKind → String
  | number x => "number " ++ Number.text x
  | string s => "string \"" ++ s ++ "\""
  | identifier name => "identifier '" ++ name ++ "'"
  | keyword k => "'" ++ k.word ++ "'"
  | mark m => "'" ++ m.spelling ++ "'"
  | unterminatedString => "unterminated string"
  | invalid c => "unexpected character '" ++ c.toString ++ "'"

/-- A token, or the end of the input where there is none. -/
def describe? : Option TokenKind → String
  | some k => k.describe
  | none => "end of input"

end TokenKind

end ModuleLoader.Dialect

import ModuleLoader.Dialect.Unit
import ModuleLoader.Dialect.Printer
import ModuleLoader.SourceMap.Basic

/-! # Compilation

Compiling checks a source text and writes it canonically, one statement a line. The source map of
the result leads each line to the first character of its statement.
-/

namespace ModuleLoader

/-- How a source text is compiled and run. -/
inductive SourceKind where
  | script
  | module
deriving DecidableEq, Repr

/-- What a unit is compiled as, under which name and address, and whether a map is wanted. -/
structure CompileOptions where
  kind : SourceKind
  sourceMap : Bool
  name : String
  url : String

/-- Code, and its source map if one was wanted. -/
structure Compiled where
  code : String
  sourceMap : Option SourceMap

namespace Dialect

/-- Compile a source text. -/
def compile (source : String) (options : CompileOptions) : Except LoadError Compiled := do
  let p ← match options.kind with
    | .script => scriptOf options.name source
    | .module => programOf options.name source
  let lines := p.body.map fun s => some (Position.ofOffset source.toList s.start)
  return {
    code := String.ofList p.print
    sourceMap :=
      if options.sourceMap then some (.ofLines options.name options.url source lines) else none }

end Dialect

end ModuleLoader

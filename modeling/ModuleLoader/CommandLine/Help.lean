import ModuleLoader.CommandLine.Arguments
import ModuleLoader.Text.Visible

/-! # Help

The texts that explain the command line: what a command does, how it is called, what it works on and
which switches it has.
-/

namespace ModuleLoader.CommandLine

/-- The name of the program. -/
def programName : String := "ferrule"

/-- The version of the program. -/
def programVersion : String := "0.1.0"

namespace Help

/-- What the program or a command does. -/
def about : Option Command → String
  | none => "ferrule - load and run modules through an asynchronous module pipeline"
  | some .importModule => "Import a module and print its exports"
  | some .script => "Run a file as a script and print its completion value"
  | some .evaluate => "Evaluate inline source"

/-- What a command works on, and what that is. -/
def operand : Command → String × String
  | .importModule => ("<SPECIFIER>", "Module specifier")
  | .script => ("<FILE>", "Script file")
  | .evaluate => ("<CODE>", "Source text")

/-- How the program or a command is called. -/
def usage : Option Command → String
  | none => programName ++ " [OPTIONS] <COMMAND>"
  | some command => programName ++ " " ++ command.name ++ " [OPTIONS] " ++ (operand command).1

/-- The switches of a command alone. -/
def ownSwitches : Option Command → List (String × String)
  | some .importModule =>
    [("    --referrer <REFERRER>", "Canonical name of the requesting module")]
  | some .evaluate => [("-m, --module", "Evaluate as an anonymous module instead of a script")]
  | _ => []

/-- The switches of the program. The options file of the environment is shown. -/
def commonSwitches (environment : Option String) : List (String × String) := [
  ("-v, --verbose", "Enable verbose output"),
  ("-c, --config <CONFIG>", "Read loader options from a JSON file [env: FERRULE_CONFIG=" ++
    environment.getD "" ++ "]"),
  ("    --base-url <BASE_URL>", "Base URL or directory modules are located under"),
  ("    --map <MAP>", "Package map rule, \x60prefix=target\x60 (repeatable)"),
  ("    --source-maps", "Emit source maps for every compile"),
  ("-h, --help", "Print help"),
  ("-V, --version", "Print version")]

/-- A row of blanks. -/
def blanks (n : Nat) : List Char := List.replicate n ' '

/-- Begin each line of a text but the first with blanks. -/
def indented (n : Nat) (text : String) : String :=
  String.ofList (text.toList.flatMap fun c => if c = '\n' then '\n' :: blanks n else [c])

/-- Rows of two columns, the second as far to the right as the widest text of the first needs. -/
def rows (entries : List (String × String)) : String :=
  let width := (entries.map fun e => e.1.length).foldl Nat.max 0
  String.join (entries.map fun e =>
    "  " ++ e.1 ++ String.ofList (blanks (width - e.1.length)) ++ "  " ++
      indented (width + 4) e.2 ++ "\n")

/-- What help does. -/
def aboutHelp : String := "Print this message or the help of the given subcommand(s)"

/-- What a command works on, or which commands there are. -/
def subjects : Option Command → String
  | some command => "Arguments:\n" ++ rows [operand command]
  | none => "Commands:\n" ++ rows (
      [Command.importModule, .script, .evaluate].map (fun c => (c.name, about (some c))) ++
        [("help", aboutHelp)])

/-- The help for the program or a command. -/
def text (environment : Option String) (command : Option Command) : String :=
  Text.visible (about command ++ "\n\nUsage: " ++ usage command ++ "\n\n" ++ subjects command ++
    "\nOptions:\n" ++ rows (ownSwitches command ++ commonSwitches environment))

/-- The help for help. -/
def textOnHelp : String :=
  aboutHelp ++ "\n\nUsage: " ++ programName ++ " help [COMMAND]...\n\nArguments:\n" ++
    rows [("[COMMAND]...", "Print help for the subcommand(s)")]

/-- The version of the program, under its name or that of a command. -/
def version : Option Command → String
  | none => programName ++ " " ++ programVersion ++ "\n"
  | some command => programName ++ "-" ++ command.name ++ " " ++ programVersion ++ "\n"

end Help

end ModuleLoader.CommandLine

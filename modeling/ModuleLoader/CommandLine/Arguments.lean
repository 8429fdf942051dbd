import ModuleLoader.Dict
import ModuleLoader.Text.Segment

/-! # Arguments

The command line names a command, what the command works on, and switches. Switches of the program
may stand before and behind the command; what stands behind it wins. A value that is a word of its
own is checked when the next thing is said on its side of the command. The first thing that is found
wrong, or a wish for help, ends the reading.
-/

namespace ModuleLoader.CommandLine

open Text

/-- The commands: import a module, run a script file, evaluate a text. -/
inductive Command where
  | importModule
  | script
  | evaluate
deriving DecidableEq, Repr

/-- What can be switched. -/
inductive Switch where
  | verbose
  | config
  | baseUrl
  | rule
  | sourceMaps
  | referrer
  | asModule
  | help
  | version
deriving DecidableEq, Repr

/-- Why there is nothing to run: the command line is wrong, or asks for help with the program or a
command, for help with help, or for the version. -/
inductive Stop where
  | misuse
  | help (command : Option Command)
  | helpOnHelp
  | version (command : Option Command)
deriving DecidableEq, Repr

/-- A word that has not been checked: the value of a switch, or what the command works on. -/
inductive Unchecked where
  | value (switch : Switch) (word : String)
  | operand (word : String)
deriving DecidableEq, Repr

/-- What is said before or behind the command. -/
structure Given where
  verbose : Bool
  config : Option String
  baseUrl : Option String
  rules : List (String × String)
  sourceMaps : Bool
  referrer : Option String
  asModule : Bool
  operand : Option String
  unchecked : Option Unchecked
deriving DecidableEq, Repr

/-- What a command works on: a specifier, a file or a text. -/
inductive Task where
  | importModule (specifier : String) (referrer : Option String)
  | script (file : String)
  | evaluate (code : String) (asModule : Bool)
deriving DecidableEq, Repr

/-- A command line that can be run. -/
structure Invocation where
  config : Option String
  baseUrl : Option String
  rules : List (String × String)
  sourceMaps : Bool
  task : Task
deriving DecidableEq, Repr

namespace Command

/-- The name of a command. -/
def name : Command → String
  | importModule => "import"
  | script => "script"
  | evaluate => "eval"

/-- The command of a word. Two commands may be named by their first letters. -/
def ofWord? (word : String) : Option Command :=
  if word = "import" ∨ word = "i" then some importModule
  else if word = "script" then some script
  else if word = "eval" ∨ word = "e" then some evaluate
  else none

end Command

namespace Switch

/-- Whether a switch is followed by a value. -/
def takesValue : Switch → Bool
  | config | baseUrl | rule | referrer => true
  | _ => false

/-- The switch of a word. Some commands have switches of their own. -/
def ofWord? (command : Option Command) (word : String) : Option Switch :=
  match word with
  | "verbose" => some verbose
  | "config" => some config
  | "base-url" => some baseUrl
  | "map" => some rule
  | "source-maps" => some sourceMaps
  | "help" => some help
  | "version" => some version
  | "referrer" => if command = some .importModule then some referrer else none
  | "module" => if command = some .evaluate then some asModule else none
  | _ => none

/-- The switch of a letter. -/
def ofLetter? (command : Option Command) (c : Char) : Option Switch :=
  match c with
  | 'v' => some verbose
  | 'c' => some config
  | 'h' => some help
  | 'V' => some version
  | 'm' => if command = some .evaluate then some asModule else none
  | _ => none

end Switch

namespace Given

/-- Nothing is said. -/
def none : Given := ⟨false, .none, .none, [], false, .none, false, .none, .none⟩

/-- Turn a switch on. It can be turned on once. -/
def turnOn (g : Given) (command : Option Command) : Switch → Except Stop Given
  | .verbose => if g.verbose then .error .misuse else .ok { g with verbose := true }
  | .sourceMaps => if g.sourceMaps then .error .misuse else .ok { g with sourceMaps := true }
  | .asModule => if g.asModule then .error .misuse else .ok { g with asModule := true }
  | .help => .error (.help command)
  | .version => .error (.version command)
  | _ => .error .misuse

/-- A rule of a package map: what is replaced and by what, with an equals sign between them. -/
def rule? (value : String) : Option (String × String) :=
  match cutFirst '=' value.toList with
  | (start, some target) =>
    if start = [] ∨ target = [] then .none else some (String.ofList start, String.ofList target)
  | (_, .none) => .none

/-- Give a switch its value. All but rules have one value, and a file has a name. -/
def put (g : Given) (value : String) : Switch → Except Stop Given
  | .config =>
    if g.config.isSome ∨ value = "" then .error .misuse else .ok { g with config := value }
  | .baseUrl => if g.baseUrl.isSome then .error .misuse else .ok { g with baseUrl := value }
  | .referrer => if g.referrer.isSome then .error .misuse else .ok { g with referrer := value }
  | .rule =>
    match rule? value with
    | some rule => .ok { g with rules := g.rules ++ [rule] }
    | .none => .error .misuse
  | _ => .error .misuse

/-- Say what the command works on. A script file has a name. -/
def work (g : Given) (command : Option Command) (value : String) : Except Stop Given :=
  if command = some .script ∧ value = "" then .error .misuse else .ok { g with operand := value }

/-- Check the word that was said last, if it has not been checked. -/
def check (g : Given) (command : Option Command) : Except Stop Given :=
  let rest := { g with unchecked := .none }
  match g.unchecked with
  | .none => .ok g
  | some (.value switch word) => rest.put word switch
  | some (.operand word) => rest.work command word

/-- Whether it was said what the command works on. -/
def hasOperand (g : Given) : Bool :=
  match g.unchecked with
  | some (.operand _) => true
  | _ => g.operand.isSome

end Given

/-- Whether a word is a switch or the mark behind which there are no switches. -/
def looksLikeSwitch : List Char → Bool
  | '-' :: _ :: _ => true
  | _ => false

/-- Read a row of letters. The last one may want a value, which may follow it at once. -/
def readLetters (command : Option Command) (g : Given) :
    List Char → Except Stop (Given × Option Switch)
  | [] => .ok (g, none)
  | c :: rest =>
    match Switch.ofLetter? command c with
    | none => .error .misuse
    | some switch =>
      (g.check command).bind fun g =>
        if switch.takesValue then
          if rest = [] then .ok (g, some switch)
          else
            let value := if rest.head? = some '=' then rest.tail else rest
            (g.put (String.ofList value) switch).map fun g => (g, none)
        else (g.turnOn command switch).bind fun g => readLetters command g rest

/-- Read a word behind two hyphens. An equals sign separates a value from it. -/
def readWord (command : Option Command) (g : Given) (word : List Char) :
    Except Stop (Given × Option Switch) := do
  let (name, value) := cutFirst '=' word
  let g ← g.check command
  match Switch.ofWord? command (String.ofList name), value with
  | none, _ => throw .misuse
  | some switch, some value =>
    if switch.takesValue then return (← g.put (String.ofList value) switch, none)
    else throw .misuse
  | some switch, none =>
    if switch.takesValue then return (g, some switch)
    else return (← g.turnOn command switch, none)

/-- Read one word where a switch may stand. -/
def readSwitch (command : Option Command) (g : Given) (word : List Char) :
    Except Stop (Given × Option Switch) :=
  match word with
  | '-' :: '-' :: rest => readWord command g rest
  | _ => readLetters command g word.tail

/-- Keep the value that a switch wants, unless it looks like a switch. -/
def keepValue (g : Given) (switch : Switch) (word : String) : Except Stop Given :=
  if looksLikeSwitch word.toList then .error .misuse
  else .ok { g with unchecked := some (.value switch word) }

/-- Keep what the command works on, which is said once. -/
def keepOperand (command : Command) (g : Given) (word : String) : Except Stop Given :=
  if g.hasOperand then .error .misuse
  else (g.check command).map fun g => { g with unchecked := some (.operand word) }

/-- The words behind a command. A switch may be open that wants a value. -/
def readBehind (command : Command) (g : Given) (wanting : Option Switch) (plain : Bool) :
    List String → Except Stop Given
  | [] => if wanting.isSome then .error .misuse else g.check command
  | word :: rest =>
    match wanting with
    | some switch =>
      (keepValue g switch word).bind fun g => readBehind command g none plain rest
    | none =>
      if plain ∨ ¬ looksLikeSwitch word.toList then
        (keepOperand command g word).bind fun g => readBehind command g none plain rest
      else if word = "--" then readBehind command g none true rest
      else (readSwitch (some command) g word.toList).bind fun r =>
        readBehind command r.1 r.2 plain rest

/-- The help that is asked for by a word and not by a switch. -/
def helpAbout : List String → Stop
  | [] => .help none
  | [word] =>
    if word = "help" then .helpOnHelp
    else match Command.ofWord? word with
      | some command => .help (some command)
      | none => .misuse
  | _ => .misuse

/-- The words before a command, the command and the words behind it. -/
def readBefore (g : Given) (wanting : Option Switch) :
    List String → Except Stop (Given × Command × List String)
  | [] => .error .misuse
  | word :: rest =>
    match wanting with
    | some switch => (keepValue g switch word).bind fun g => readBefore g none rest
    | none =>
      if word = "--" then .error .misuse
      else if looksLikeSwitch word.toList then
        (readSwitch none g word.toList).bind fun r => readBefore r.1 r.2 rest
      else if word = "help" then .error (helpAbout rest)
      else
        match Command.ofWord? word with
        | some command => .ok (g, command, rest)
        | none => .error .misuse

/-- What a command works on. -/
def taskOf (command : Command) (g : Given) : Except Stop Task :=
  match command, g.operand with
  | _, none => .error .misuse
  | .importModule, some specifier => .ok (.importModule specifier g.referrer)
  | .script, some file => .ok (.script file)
  | .evaluate, some code => .ok (.evaluate code g.asModule)

/-- The options file: one that is named behind the command, before it, or in the environment, whose
name may be empty only if it is not needed. -/
def configOf (before behind : Given) (environment : Option String) :
    Except Stop (Option String) :=
  if environment = some "" ∧ (before.config.isNone ∨ behind.config.isNone) then .error .misuse
  else .ok ((behind.config.or before.config).or environment)

/-- Read a command line. -/
def readArguments (environment : Option String) (words : List String) :
    Except Stop Invocation := do
  let (before, command, rest) ← readBefore .none none words
  let behind ← readBehind command .none none false rest
  let task ← taskOf command behind
  let before ← before.check none
  let config ← configOf before behind environment
  return {
    config := config
    baseUrl := behind.baseUrl.or before.baseUrl
    rules := if behind.rules = [] then before.rules else behind.rules
    sourceMaps := before.sourceMaps || behind.sourceMaps
    task := task }

end ModuleLoader.CommandLine

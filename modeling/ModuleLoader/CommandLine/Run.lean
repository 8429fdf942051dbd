import ModuleLoader.CommandLine.Help
import ModuleLoader.Loader.Schedule

/-! # Running a command line

A command line ends with an exit code, an output, and a report if it fails. Options come from a
file, the environment and the switches, in this order.
-/

namespace ModuleLoader.CommandLine

open Text

/-- What a command reads: local files and variables of the environment. -/
structure Surroundings where
  read : List UInt8 → Except SystemError String
  environment : String → Option String

/-- Why a command fails. -/
inductive Failure where
  | load (e : LoadError)
  | cannotRead (path : String) (e : SystemError)

/-- How a command line ends. The paths are those of the files that it needed. -/
structure Outcome where
  code : Nat
  output : String
  report : Option String
  paths : List (List UInt8)

/-- The wording of a failure. -/
def Failure.message : Failure → String
  | load e => e.message
  | cannotRead path e => "cannot read " ++ path ++ ": " ++ e.message

/-- The options of an invocation. -/
def optionsOf (s : Surroundings) (i : Invocation) : Except LoadError Options := do
  let options ← match i.config with
    | some path => Options.readAt s.read path
    | none => pure .default
  let options ← options.override s.environment
  let map := i.rules.foldl (fun m r => m.insert r.1 r.2) options.map
  Options.check { options with
    baseUrl := i.baseUrl.getD options.baseUrl
    sourceMaps := options.sourceMaps || i.sourceMaps
    map := map }

/-- A loader of local files. -/
def loaderOf (s : Surroundings) (options : Options) : Except LoadError Loader :=
  Loader.build options (.standard options.extension (some Dialect.compile)) (.ofLocal s.read 0)
    (.flagging false) .empty

/-- The request of a task. A script is named by its file. -/
def requestOf (s : Surroundings) : Task → Except Failure Request
  | .importModule specifier referrer =>
    .ok ⟨.importModule specifier, { RequestOptions.none with referrer := referrer }⟩
  | .evaluate code true => .ok ⟨.module code, .none⟩
  | .evaluate code false => .ok ⟨.script code, .none⟩
  | .script file =>
    match s.read (utf8 file.toList) with
    | .error e => .error (.cannotRead file e)
    | .ok source =>
      .ok ⟨.script source, { RequestOptions.none with name := file, address := file }⟩

/-- A text in a colour, which is switched on and off by codes. -/
def coloured (on off : String) (text : String) : String :=
  "\x1b[" ++ on ++ "m" ++ text ++ "\x1b[" ++ off ++ "m"

/-- What is printed for an answer: the exports line by line, or a value that is defined. -/
def printed : Answer → String
  | .exports ns => String.join (ns.exports.entries.map fun b =>
      coloured "36" "39" (b.1 ++ ":") ++ " " ++ b.2.text ++ "\n")
  | .value v => if v.isUndefined then "" else v.text ++ "\n"
  | .defined => ""

/-- The report of a failure. -/
def reportOf (f : Failure) : String :=
  coloured "1" "0" (coloured "31" "39" "Error") ++ ": " ++ f.message ++ "\n"

/-- The result of a request that is settled. -/
def resultOf : Loader.Activity → Except LoadError Answer
  | .settled result => result
  | _ => .ok .defined

/-- The answer to an invocation, and the paths that the loader asked for. -/
def answerOf (s : Surroundings) (i : Invocation) : Except Failure Answer × List (List UInt8) :=
  match (optionsOf s i).bind (loaderOf s) with
  | .error e => (.error (.load e), [])
  | .ok loader =>
    match requestOf s i.task with
    | .error f => (.error f, [])
    | .ok request =>
      let (activity, loader) := loader.performOne request
      let paths := loader.requestCounts.keys.filterMap fun address =>
        (Files.localPath address).toOption
      match resultOf activity with
      | .ok answer => (.ok answer, paths)
      | .error e => (.error (.load e), paths)

/-- The files that an invocation names. -/
def namedPaths (i : Invocation) : List (List UInt8) :=
  let scripts := match i.task with
    | .script file => [file]
    | _ => []
  (i.config.toList ++ scripts).map fun path => utf8 path.toList

/-- Run an invocation. -/
def runInvocation (s : Surroundings) (i : Invocation) : Outcome :=
  let (answer, asked) := answerOf s i
  let paths := namedPaths i ++ asked
  match answer with
  | .ok answer => ⟨0, printed answer, none, paths⟩
  | .error f => ⟨1, "", some (reportOf f), paths⟩

/-- Run a command line. -/
def run (s : Surroundings) (words : List String) : Outcome :=
  let environment := s.environment "FERRULE_CONFIG"
  match readArguments environment words with
  | .ok i => runInvocation s i
  | .error .misuse => ⟨2, "", none, []⟩
  | .error (.help command) => ⟨0, Help.text environment command, none, []⟩
  | .error .helpOnHelp => ⟨0, Help.textOnHelp, none, []⟩
  | .error (.version command) => ⟨0, Help.version command, none, []⟩

end ModuleLoader.CommandLine

import ModuleLoader.CommandLine.Run

/-! # The program

The command line runs on what is known of the local files. As long as it needs a file that is not
known yet, the file is read and the command line runs again.
-/

namespace ModuleLoader.Program

/-- The files that are known: for each path its text or why there is none. -/
abbrev Known := List (List UInt8 × Except SystemError String)

/-- What is known of a path. -/
def Known.find? (files : Known) (path : List UInt8) : Option (Except SystemError String) :=
  (List.find? (fun f => f.1 = path) files).map (·.2)

/-- The variables of the environment that matter. -/
def variableNames : List String :=
  ["FERRULE_CONFIG", "FERRULE_BASE_URL", "FERRULE_SOURCE_MAPS", "FERRULE_MODULES"]

/-- Why a file was not read. -/
def causeOf : IO.Error → SystemError
  | .inappropriateType _ code _ => if code = 21 then .isDirectory else .notDirectory
  | .invalidArgument .. => .nameTooLong
  | .permissionDenied .. => .denied
  | _ => .notFound

/-- Read a local file. -/
def readLocal (path : List UInt8) : IO (Except SystemError String) := do
  if 0 ∈ path then return .error .zeroByte
  match Text.ofUtf8? path with
  | none => return .error .notFound
  | some path =>
    try
      match String.fromUTF8? (← IO.FS.readBinFile (String.ofList path)) with
      | some text => return .ok text
      | none => return .error .notText
    catch e => return .error (causeOf e)

/-- Run a command line until all files that it needs are known. -/
partial def settle (words : List String) (environment : List (String × String)) (files : Known) :
    IO CommandLine.Outcome := do
  let read (path : List UInt8) := (files.find? path).getD (.error .notFound)
  let outcome := CommandLine.run ⟨read, (Dict.ofList environment).get?⟩ words
  match outcome.paths.find? fun path => (files.find? path).isNone with
  | none => return outcome
  | some path => settle words environment ((path, ← readLocal path) :: files)

end ModuleLoader.Program

open ModuleLoader Program in
/-- Run the command line of the process. -/
def main (words : List String) : IO UInt32 := do
  let environment ← variableNames.filterMapM fun name => do
    return (← IO.getEnv name).map fun value => (name, value)
  let outcome ← settle words environment []
  IO.print outcome.output
  match outcome.report with
  | some report => IO.eprint report
  | none => pure ()
  return UInt32.ofNat outcome.code

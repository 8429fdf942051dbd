import ModuleLoader.Dialect.Parser
import ModuleLoader.Text.Hidden
import ModuleLoader.Url.Basic

/-! # Errors

Why a request is rejected. Every error is one of five kinds, names what it is about, and has a
cause; the wording is a function of these.
-/

namespace ModuleLoader

open Dialect

/-- Why a file cannot be read. -/
inductive SystemError where
  | notFound
  | notDirectory
  | isDirectory
  | nameTooLong
  | denied
  | zeroByte
  | notText
deriving DecidableEq, Repr

/-- Why a specifier has no canonical name. -/
inductive ResolutionCause where
  | emptySpecifier
  | illegalCharacter (c : Char)
  | trailingSlash
  | scopedForm
  | aboveRoot
  | emptyName
  | badReferrer (e : UrlError)
  | badUrl (e : UrlError)
  | mapCycle (name : String)
deriving DecidableEq, Repr

/-- Why a source text is out of reach. -/
inductive FetchCause where
  | noSuchFile
  | noAddress
  | badUrl (e : UrlError)
  | unsupportedScheme (scheme : String)
  | notLocal
  | system (e : SystemError)
  | refused (reason : String)
deriving DecidableEq, Repr

/-- Why a source text is no code. -/
inductive CompileCause where
  | grammar (cause : SyntaxCause)
  | moduleOnlySyntax
  | noSource
  | refused (reason : String)

/-- Why a body stops. -/
inductive RunCause where
  | notDefined (name : String)
  | noProperties (property value : String)
  | immutableTarget
  | notImported (specifier : String)
  | noExport (specifier name : String)
deriving DecidableEq, Repr

/-- Why a module or script does not come to an end. -/
inductive InstantiateCause where
  | run (cause : RunCause)
  | notLoaded
  | dependencyNotLoaded (name : String)
  | cyclic (path : List String)
  | alreadyDefined
  | moduleForScript
  | valueForModule
  | refused (reason : String)
deriving DecidableEq, Repr

/-- Why loader options are refused. -/
inductive ConfigCause where
  | extension (found : String)
  | baseName (found : String)
  | unknownMode (found : String)
  | sourceMapsFlag (found : String)
  | cannotRead (path : String) (e : SystemError)
  | malformed
deriving DecidableEq, Repr

/-- A rejection. -/
inductive LoadError where
  | resolution (specifier : String) (cause : ResolutionCause)
  | fetch (address : String) (cause : FetchCause)
  | compile (name : String) (position : Option Position) (cause : CompileCause)
  | instantiate (name : String) (cause : InstantiateCause)
  | config (cause : ConfigCause)

/-- The kinds of rejection. -/
inductive ErrorKind where
  | resolution
  | fetch
  | compile
  | instantiate
  | config
deriving DecidableEq, Repr

namespace SystemError

/-- The wording of the operating system. -/
def message : SystemError → String
  | notFound => "No such file or directory (os error 2)"
  | notDirectory => "Not a directory (os error 20)"
  | isDirectory => "Is a directory (os error 21)"
  | nameTooLong => "File name too long (os error 36)"
  | denied => "Permission denied (os error 13)"
  | zeroByte => "file name contained an unexpected NUL byte"
  | notText => "stream did not contain valid UTF-8"

end SystemError

namespace ResolutionCause

/-- The wording of a resolution failure. -/
def message : ResolutionCause → String
  | emptySpecifier => "empty specifier"
  | illegalCharacter c => "illegal character " ++ Text.quotedChar c
  | trailingSlash => "trailing '/'"
  | scopedForm => "scoped name needs the form @scope/name"
  | aboveRoot => "'..' climbs above the root"
  | emptyName => "resolves to an empty name"
  | badReferrer e => "bad referrer: " ++ e.message
  | badUrl e => e.message
  | mapCycle name => "package map cycle through '" ++ name ++ "'"

end ResolutionCause

namespace FetchCause

/-- The wording of a fetch failure. -/
def message : FetchCause → String
  | noSuchFile => "no such file"
  | noAddress => "load has no address"
  | badUrl e => e.message
  | unsupportedScheme scheme => "unsupported scheme '" ++ scheme ++ "'"
  | notLocal => "not a local file URL"
  | system e => e.message
  | refused reason => reason

end FetchCause

namespace CompileCause

/-- The wording of a compile failure. -/
def message : CompileCause → String
  | grammar cause => cause.message
  | moduleOnlySyntax => "module syntax is not allowed in a script"
  | noSource => "load has no source text"
  | refused reason => reason

end CompileCause

namespace RunCause

/-- The wording of a failure of a running body. -/
def message : RunCause → String
  | notDefined name => name ++ " is not defined"
  | noProperties property value => "cannot read property '" ++ property ++ "' of " ++ value
  | immutableTarget => "cannot assign to a property of an immutable value"
  | notImported specifier => "'" ++ specifier ++ "' was not loaded"
  | noExport specifier name => "module '" ++ specifier ++ "' does not export '" ++ name ++ "'"

end RunCause

namespace InstantiateCause

/-- The wording of an instantiation failure. -/
def message : InstantiateCause → String
  | run cause => cause.message
  | notLoaded => "module is not loaded"
  | dependencyNotLoaded name => "dependency '" ++ name ++ "' is not loaded"
  | cyclic path => "cyclic dependency: " ++ " -> ".intercalate path
  | alreadyDefined => "already defined"
  | moduleForScript => "instantiate produced a module for a script"
  | valueForModule => "instantiate produced a script value for a module"
  | refused reason => reason

end InstantiateCause

namespace ConfigCause

/-- The wording of refused options. -/
def message : ConfigCause → String
  | extension found => "defaultExtension must start with '.', got '" ++ found ++ "'"
  | baseName found => "baseName must not be relative, got '" ++ found ++ "'"
  | unknownMode found =>
    "unknown module mode '" ++ found ++ "' (expected 'register' or 'instantiate')"
  | sourceMapsFlag found => "FERRULE_SOURCE_MAPS: not a boolean: '" ++ found ++ "'"
  | cannotRead path e => "cannot read " ++ path ++ ": " ++ e.message
  | malformed => "malformed options"

end ConfigCause

namespace LoadError

/-- The kind of a rejection. -/
def kind : LoadError → ErrorKind
  | resolution _ _ => .resolution
  | fetch _ _ => .fetch
  | compile _ _ _ => .compile
  | instantiate _ _ => .instantiate
  | config _ => .config

/-- The wording of a rejection. -/
def message : LoadError → String
  | resolution specifier cause =>
    "ResolutionError: cannot resolve '" ++ specifier ++ "': " ++ cause.message
  | fetch address cause => "FetchError: cannot fetch '" ++ address ++ "': " ++ cause.message
  | compile name none cause => "CompileError: " ++ name ++ ": " ++ cause.message
  | compile name (some p) cause =>
    "CompileError: " ++ name ++ ":" ++ p.text ++ ": " ++ cause.message
  | instantiate name cause => "InstantiateError: " ++ name ++ ": " ++ cause.message
  | config cause => "Configuration error: " ++ cause.message

end LoadError

end ModuleLoader

import ModuleLoader.Dialect.Evaluation

/-! # Scripts and modules

A script runs its statements in the realm and ends with the value of its last expression. A module
is linked first, which tells its requests; its body then runs in three passes: the imports are
bound, the statements run, and the exports are collected with the values they have by then.
-/

namespace ModuleLoader.Dialect

/-- A module ready to run: its name for diagnostics, its requests and its program. -/
structure Linked where
  name : String
  requests : List String
  program : Program

/-- The program of a unit's source text. -/
def programOf (name : String) (code : String) : Except LoadError Program :=
  let source := code.toList
  match Program.ofSource source with
  | .ok p => .ok p
  | .error e => .error (.compile name (some (.ofOffset source e.offset)) (.grammar e.cause))

/-- The program of a script, which holds no import or export statements. -/
def scriptOf (name : String) (code : String) : Except LoadError Program := do
  let p ← programOf name code
  match p.moduleOnly? with
  | none => return p
  | some s => throw (.compile name (some (.ofOffset code.toList s.start)) .moduleOnlySyntax)

/-- Link a module. -/
def link (name : String) (code : String) : Except LoadError Linked := do
  let p ← programOf name code
  return ⟨name, p.requests, p⟩

/-! ## Scripts -/

/-- Run statements. The value is that of the last expression statement, if there is one. -/
def complete (value : Value) : List Statement → Run Value
  | [] => return value
  | s :: rest =>
    match s.kind with
    | .var declarators => do
      declare declarators
      complete value rest
    | .expression e => do
      let v ← eval e
      complete v rest
    | _ => complete value rest

/-- Name the unit in which a body stopped. -/
def named {α : Type} (name : String) : Except RunCause α → Except LoadError α
  | .ok a => .ok a
  | .error cause => .error (.instantiate name (.run cause))

/-- Run a script. What it assigned stays assigned also if it stops. -/
def runScript (name : String) (code : String) (realm : Realm) : Except LoadError Value × Realm :=
  match scriptOf name code with
  | .error e => (.error e, realm)
  | .ok p =>
    let (result, scope) := (complete .undefined p.body).run.run ⟨realm, none⟩
    (named name result, scope.realm)

/-! ## Modules -/

/-- The namespaces that a module imports, by specifier. -/
abbrev Imports := Dict Namespace

/-- The namespace imported from a specifier. -/
def importOf (imports : Imports) (specifier : String) : Except RunCause Namespace :=
  match imports.get? specifier with
  | some ns => .ok ns
  | none => .error (.notImported specifier)

/-- An export of the namespace imported from a specifier. -/
def exportOf (ns : Namespace) (specifier name : String) : Except RunCause Value :=
  match ns.exports.get? name with
  | some v => .ok v
  | none => .error (.noExport specifier name)

/-- Bind the names of one import. -/
def bindAll (ns : Namespace) (specifier : String) : List ImportBinding → Run Unit
  | [] => return ()
  | .named imported bound :: rest => do
    let v ← liftExcept (exportOf ns specifier imported)
    modify (·.bind bound v)
    bindAll ns specifier rest
  | .whole bound :: rest => do
    modify (·.bind bound ns.toValue)
    bindAll ns specifier rest

/-- Bind the imports of a module, wherever they stand in its body. -/
def bindImports (imports : Imports) : List Statement → Run Unit
  | [] => return ()
  | s :: rest => do
    match s.kind with
    | .importFrom bindings specifier =>
      let ns ← liftExcept (importOf imports specifier)
      bindAll ns specifier bindings
    | .moduleFrom bound specifier =>
      let ns ← liftExcept (importOf imports specifier)
      modify (·.bind bound ns.toValue)
    | _ => pure ()
    bindImports imports rest

/-- The name under which a module binds its default export. It is no identifier. -/
def defaultName : String := "*default*"

/-- Run the statements of a module. -/
def execute : List Statement → Run Unit
  | [] => return ()
  | s :: rest => do
    match s.kind with
    | .var declarators | .exportVar declarators => declare declarators
    | .expression e => discard (eval e)
    | .exportDefault e =>
      let v ← eval e
      modify (·.bind defaultName v)
    | _ => pure ()
    execute rest

/-- The value of a name, or the failure to have one. -/
def valueOf (s : Scope) (name : String) : Except RunCause Value :=
  match s.lookup? name with
  | some v => .ok v
  | none => .error (.notDefined name)

/-- Export the values of names, each under another name. -/
def exportLocals (s : Scope) (exports : Dict Value) :
    List (String × String) → Except RunCause (Dict Value)
  | [] => .ok exports
  | (name, exported) :: rest => do
    let v ← valueOf s name
    exportLocals s (exports.insert exported v) rest

/-- Export the exports of another module, each under another name. -/
def exportForeign (ns : Namespace) (specifier : String) (exports : Dict Value) :
    List ExportSpecifier → Except RunCause (Dict Value)
  | [] => .ok exports
  | e :: rest => do
    let v ← exportOf ns specifier e.name
    exportForeign ns specifier (exports.insert e.exported v) rest

/-- The explicit exports of a module and the namespaces that it exports as a whole. -/
def collect (s : Scope) (imports : Imports) (exports : Dict Value) (stars : List Namespace) :
    List Statement → Except RunCause (Dict Value × List Namespace)
  | [] => .ok (exports, stars)
  | st :: rest => do
    match st.kind with
    | .exportVar declarators =>
      let exports ← exportLocals s exports (declarators.map fun d => (d.name, d.name))
      collect s imports exports stars rest
    | .exportDefault _ =>
      let exports ← exportLocals s exports [(defaultName, "default")]
      collect s imports exports stars rest
    | .exportNamed specifiers none =>
      let exports ← exportLocals s exports (specifiers.map fun e => (e.name, e.exported))
      collect s imports exports stars rest
    | .exportNamed specifiers (some specifier) =>
      let ns ← importOf imports specifier
      let exports ← exportForeign ns specifier exports specifiers
      collect s imports exports stars rest
    | .exportAll specifier =>
      let ns ← importOf imports specifier
      collect s imports exports (stars ++ [ns]) rest
    | _ => collect s imports exports stars rest

/-- Add a binding unless its name is exported already or is `default`. -/
def addStar (exports : Dict Value) (binding : String × Value) : Dict Value :=
  if binding.1 = "default" ∨ exports.contains binding.1 then exports
  else exports.insert binding.1 binding.2

/-- Add the exports of whole namespaces, the first of equal names. -/
def addStars (exports : Dict Value) (stars : List Namespace) : Dict Value :=
  stars.foldl (fun exports ns => ns.exports.entries.foldl addStar exports) exports

/-- The exports of a module body. -/
def runModule (imports : Imports) (p : Program) : Run (Dict Value) := do
  bindImports imports p.body
  execute p.body
  let (exports, stars) ← liftExcept (collect (← get) imports .empty [] p.body)
  return addStars exports stars

/-- Run the body of a module. What it assigned to global names stays assigned also if it stops. -/
def Linked.run (m : Linked) (imports : Imports) (realm : Realm) :
    Except LoadError Namespace × Realm :=
  match (runModule imports m.program).run.run ⟨realm, some .empty⟩ with
  | (.ok exports, scope) =>
    let (ns, realm) := scope.realm.namespaceOf exports
    (.ok ns, realm)
  | (.error cause, scope) => (.error (.instantiate m.name (.run cause)), scope.realm)

end ModuleLoader.Dialect

import ModuleLoader.Proofs.Dialect.LocalNames

/-! # Acts of a unit

A running unit binds names and assigns to targets, in an order that its statements determine. Where an
act leaves its value depends on the bindings that the unit sees by then.
-/

namespace ModuleLoader.Dialect

/-! ## Bindings -/

/-- Where a value is bound: among the unit's own bindings, or among the global ones. -/
inductive Place where
  | own (name : String)
  | global (name : String)

/-- A value that is bound anew. -/
structure Write where
  place : Place
  value : Value

/-- The bindings that a unit sees. -/
structure Bindings where
  globals : Dict Value
  locals : Option (Dict Value)

namespace Bindings

/-- Bind a value in its place. -/
def write (b : Bindings) (w : Write) : Bindings :=
  match w.place with
  | .own name => { b with locals := b.locals.map (·.insert name w.value) }
  | .global name => { b with globals := b.globals.insert name w.value }

end Bindings

namespace Scope

/-- The bindings of a scope. -/
def bindings (s : Scope) : Bindings := ⟨s.realm.globals, s.locals⟩

/-- Where an assignment to a name goes. -/
def placeOf (s : Scope) (name : String) : Place :=
  if (s.locals.bind (·.get? name)).isSome then .own name else .global name

theorem bindings_store (s : Scope) (name : String) (v : Value) :
    (s.store name v).bindings = s.bindings.write ⟨s.placeOf name, v⟩ := by
  obtain ⟨realm, locals⟩ := s
  cases locals with
  | none => rfl
  | some locals =>
    have hstore : Scope.store ⟨realm, some locals⟩ name v =
        if locals.contains name then ⟨realm, some (locals.insert name v)⟩
        else ⟨realm.set name v, some locals⟩ := rfl
    have hplace : placeOf ⟨realm, some locals⟩ name =
        if locals.contains name then .own name else .global name := rfl
    rw [hstore, hplace]
    split <;> rfl

end Scope

/-! ## Targets -/

mutual

/-- The targets of the assignments and increments in an expression. -/
def Expression.targets : Expression → List Expression
  | array elements => Expression.targetsAll elements
  | member object _ => object.targets
  | index object key => key.targets ++ object.targets
  | negate operand => operand.targets
  | binary _ left right => left.targets ++ right.targets
  | assign _ target value => target :: (value.targets ++ target.targets)
  | increment target => target :: target.targets
  | number _ | string _ | boolean _ | null | identifier _ | self => []

/-- The targets of the assignments and increments in several expressions. -/
def Expression.targetsAll : List Expression → List Expression
  | [] => []
  | e :: rest => e.targets ++ Expression.targetsAll rest

end

/-- The targets of the initial values of some names. -/
def targetsOf (declarators : List Declarator) : List Expression :=
  declarators.flatMap fun d => (d.value.map Expression.targets).getD []

/-- The targets of the assignments and increments in a statement. -/
def StatementKind.targets : StatementKind → List Expression
  | var declarators | exportVar declarators => targetsOf declarators
  | expression e | exportDefault e => e.targets
  | _ => []

/-- The targets of the assignments and increments in a program. -/
def Program.targets (p : Program) : List Expression := p.body.flatMap (·.kind.targets)

/-- A target may stand for a global binding: it is the identifier of that name, that member of the
object of the global bindings, or an index expression on this object. -/
inductive Expression.Designates : Expression → String → Prop
  | identifier (name : String) : Designates (.identifier name) name
  | member (name : String) : Designates (.member .self name) name
  | index (key : Expression) (name : String) : Designates (.index .self key) name

/-- An expression is an identifier. -/
def Expression.isIdentifier : Expression → Bool
  | identifier _ => true
  | _ => false

/-! ## Acts -/

/-- A unit binds a name, or it assigns a value to a target that stands for a name. -/
inductive Act where
  | bind (name : String) (value : Value)
  | assign (target : Expression) (name : String) (value : Value)

namespace Bindings

variable {b : Bindings}

/-- The unit has bound a name. -/
def binds (b : Bindings) (name : String) : Bool := (b.locals.bind (·.get? name)).isSome

/-- A unit without bindings of its own binds the names globally, as a script does. An assignment goes
to the unit's own binding only if its target is an identifier that the unit has bound. -/
def placeOf (b : Bindings) : Act → Place
  | .bind name _ => if b.locals.isSome then .own name else .global name
  | .assign target name _ =>
    if target.isIdentifier && b.binds name then .own name else .global name

/-- The bindings after an act. -/
def act (b : Bindings) (a : Act) : Bindings :=
  match a with
  | .bind _ v | .assign _ _ v => b.write ⟨b.placeOf a, v⟩

/-- The bindings after acts one after the other. -/
def actAll (b : Bindings) (acts : List Act) : Bindings := acts.foldl act b

theorem actAll_append (b : Bindings) (before after : List Act) :
    b.actAll (before ++ after) = (b.actAll before).actAll after :=
  List.foldl_append

theorem isSome_locals_write (b : Bindings) (w : Write) :
    (b.write w).locals.isSome = b.locals.isSome := by
  rw [write]
  cases w.place with
  | own name => exact Option.isSome_map
  | global name => rfl

theorem isSome_locals_actAll (b : Bindings) (acts : List Act) :
    (b.actAll acts).locals.isSome = b.locals.isSome := by
  induction acts generalizing b with
  | nil => rfl
  | cons a rest ih =>
    refine (ih (b.act a)).trans ?_
    cases a <;> exact isSome_locals_write _ _

end Bindings

namespace Scope

theorem bindings_bind (s : Scope) (name : String) (v : Value) :
    (s.bind name v).bindings = s.bindings.act (.bind name v) := by
  obtain ⟨realm, locals⟩ := s
  cases locals <;> rfl

theorem bindings_store_eq_act (s : Scope) (name : String) (v : Value) :
    (s.store name v).bindings = s.bindings.act (.assign (.identifier name) name v) :=
  s.bindings_store name v

end Scope

/-! ## Acts of a step -/

section Steps

variable {α β : Type}

/-- The acts of a step, and those of what goes on from its result. -/
def actsThen (m : Run α) (w : Scope → List Act) (k : α → Scope → List Act) (s : Scope) :
    List Act :=
  w s ++ match m.run.run s with
    | (.ok a, s') => k a s'
    | (.error _, _) => []

end Steps

/-! ## Acts of an expression -/

mutual

/-- The acts of an expression. -/
def acts : Expression → Scope → List Act
  | .array elements => actsAll elements
  | .member object _ => acts object
  | .index object key => actsThen (eval key) (acts key) fun _ => acts object
  | .negate operand => acts operand
  | .binary _ left right => actsThen (eval left) (acts left) fun _ => acts right
  | .assign true target value => actsThen (eval value) (acts value) fun v =>
      actsThen (eval target) (acts target) fun current => actsTo target (operate .add current v)
  | .assign false target value => actsThen (eval value) (acts value) (actsTo target)
  | .increment target => actsThen (eval target) (acts target) fun old =>
      actsTo target (.number (toNumber old + 1.0))
  | .number _ | .string _ | .boolean _ | .null | .identifier _ | .self => fun _ => []

/-- The acts of several expressions, from left to right. -/
def actsAll : List Expression → Scope → List Act
  | [] => fun _ => []
  | e :: rest => actsThen (eval e) (acts e) fun _ => actsAll rest

/-- The acts of the assignment of a value. -/
def actsTo : Expression → Value → Scope → List Act
  | .identifier name, v => fun _ => [.assign (.identifier name) name v]
  | .member .self name, v => fun _ => [.assign (.member .self name) name v]
  | .index .self key, v => actsThen (eval key) (acts key) fun k _ =>
      [.assign (.index .self key) k.text v]
  | _, _ => fun _ => []

end

/-! ## Acts of a statement -/

/-- What a statement does when it runs. -/
def StatementKind.perform : StatementKind → Run Unit
  | var declarators | exportVar declarators => declare declarators
  | expression e => discard (eval e)
  | exportDefault e => eval e >>= fun v => modify (·.bind defaultName v)
  | _ => pure ()

theorem execute_cons (st : Statement) (rest : List Statement) :
    execute (st :: rest) = st.kind.perform >>= fun _ => execute rest := by
  rw [execute]
  cases st.kind with
  | exportDefault e => exact (bind_assoc _ _ _).symm
  | _ => rfl

/-! ## Acts of a module -/

/-- The acts of `var` declarators. -/
def declareActs : List Declarator → Scope → List Act
  | [] => fun _ => []
  | d :: rest =>
    let bound (v : Value) := actsThen (modify (·.bind d.name v) : Run PUnit)
      (fun _ => [.bind d.name v]) fun _ => declareActs rest
    match d.value with
    | some e => actsThen (eval e) (acts e) bound
    | none => bound .undefined

/-- The acts of the bindings of one import. -/
def bindAllActs (ns : Namespace) (specifier : String) : List ImportBinding → Scope → List Act
  | [] => fun _ => []
  | .named imported bound :: rest =>
    actsThen (liftExcept (exportOf ns specifier imported)) (fun _ => []) fun v =>
      actsThen (modify (·.bind bound v) : Run PUnit) (fun _ => [.bind bound v]) fun _ =>
        bindAllActs ns specifier rest
  | .whole bound :: rest =>
    actsThen (modify (·.bind bound ns.toValue) : Run PUnit) (fun _ => [.bind bound ns.toValue])
      fun _ => bindAllActs ns specifier rest

/-- The acts of the imports of a body. -/
def importActs (imports : Imports) : List Statement → Scope → List Act
  | [] => fun _ => []
  | st :: rest =>
    match st.kind with
    | .importFrom bindings specifier =>
      actsThen (liftExcept (importOf imports specifier)) (fun _ => []) fun ns =>
        actsThen (bindAll ns specifier bindings) (bindAllActs ns specifier bindings) fun _ =>
          importActs imports rest
    | .moduleFrom bound specifier =>
      actsThen (liftExcept (importOf imports specifier)) (fun _ => []) fun ns =>
        actsThen (modify (·.bind bound ns.toValue) : Run PUnit) (fun _ => [.bind bound ns.toValue])
          fun _ => importActs imports rest
    | _ => importActs imports rest

/-- The acts of a statement. -/
def StatementKind.acts : StatementKind → Scope → List Act
  | var declarators | exportVar declarators => declareActs declarators
  | expression e => Dialect.acts e
  | exportDefault e => actsThen (eval e) (Dialect.acts e) fun v _ => [.bind defaultName v]
  | _ => fun _ => []

/-- The acts of the statements of a body. -/
def executeActs : List Statement → Scope → List Act
  | [] => fun _ => []
  | st :: rest => actsThen st.kind.perform st.kind.acts fun _ => executeActs rest

/-- The acts of a module body. -/
def Program.acts (p : Program) (imports : Imports) : Scope → List Act :=
  actsThen (bindImports imports p.body) (importActs imports p.body) fun _ => executeActs p.body

end ModuleLoader.Dialect

import ModuleLoader.Error
import ModuleLoader.Value
import ModuleLoader.Text.Blank

/-! # Evaluation of expressions

All scripts and modules share the global bindings of a realm; a module has bindings of its own in
front of them. An expression yields a value or stops with a cause, and what it assigned before it
stopped stays assigned.
-/

namespace ModuleLoader

/-- The global bindings, and how many namespaces exist so far, which numbers the next one. -/
structure Realm where
  globals : Dict Value
  instances : Nat

namespace Realm

/-- A realm without bindings and namespaces. -/
def empty : Realm := ⟨.empty, 0⟩

/-- Bind a global name. -/
def set (r : Realm) (name : String) (v : Value) : Realm :=
  { r with globals := r.globals.insert name v }

/-- Make a namespace of some exports. -/
def namespaceOf (r : Realm) (exports : Dict Value) : Namespace × Realm :=
  (⟨r.instances, exports⟩, { r with instances := r.instances + 1 })

end Realm

namespace Dialect

/-- Where a unit runs: its realm, and its own bindings unless it is a script. -/
structure Scope where
  realm : Realm
  locals : Option (Dict Value)

/-- A step of a running unit. -/
abbrev Run := ExceptT RunCause (StateM Scope)

namespace Scope

/-- The value of a name: the unit's own binding, then the global one. The name `undefined` has a
value of its own when nothing binds it. -/
def lookup? (s : Scope) (name : String) : Option Value :=
  match s.locals.bind (·.get? name) with
  | some v => some v
  | none =>
    match s.realm.globals.get? name with
    | some v => some v
    | none => if name = "undefined" then some .undefined else none

/-- Bind a name of the unit. The names of a script are global. -/
def bind (s : Scope) (name : String) (v : Value) : Scope :=
  match s.locals with
  | some locals => { s with locals := some (locals.insert name v) }
  | none => { s with realm := s.realm.set name v }

/-- Assign to a name that the unit has bound, otherwise to the global one. -/
def store (s : Scope) (name : String) (v : Value) : Scope :=
  match s.locals with
  | some locals =>
    if locals.contains name then { s with locals := some (locals.insert name v) }
    else { s with realm := s.realm.set name v }
  | none => { s with realm := s.realm.set name v }

/-- The value of a global name, or no value. -/
def global (s : Scope) (name : String) : Value := (s.realm.globals.get? name).getD .undefined

end Scope

/-- The value of a double that is no number. -/
def notANumber : Float := 0.0 / 0.0

/-- A value as a number. Texts are read without the blanks around them, and no text is zero. -/
def toNumber : Value → Float
  | .number x => x
  | .boolean true => 1.0
  | .boolean false => 0.0
  | .null => 0.0
  | .string s =>
    let cs := Text.trim s.toList
    if cs = [] then 0.0 else (Number.read? cs).getD notANumber
  | _ => notANumber

/-- Whether the sum of two such values is a number. -/
def isNumeric : Value → Bool
  | .number _ | .boolean _ | .null | .undefined => true
  | _ => false

/-- The value of an operator. A sum with a text, an array or a namespace joins the texts. -/
def operate (op : BinaryOp) (left right : Value) : Value :=
  match op with
  | .add =>
    if isNumeric left && isNumeric right then .number (toNumber left + toNumber right)
    else .string (left.text ++ right.text)
  | .sub => .number (toNumber left - toNumber right)
  | .mul => .number (toNumber left * toNumber right)
  | .div => .number (toNumber left / toNumber right)

/-- The value of a property. Only namespaces have properties of any name; arrays and texts have a
length. -/
def property (object : Value) (name : String) : Except RunCause Value :=
  match object with
  | .undefined | .null => .error (.noProperties name object.text)
  | .ofNamespace _ bindings => .ok ((Dict.find name bindings).getD .undefined)
  | .array items =>
    .ok (if name = "length" then .number (Float.ofNat items.length) else .undefined)
  | .string s => .ok (if name = "length" then .number (Float.ofNat s.length) else .undefined)
  | _ => .ok .undefined

/-- The value at an index: an element for an array and a number, otherwise a property. -/
def element (object key : Value) : Except RunCause Value :=
  match object, key with
  | .array items, .number x => .ok (((Binary64.toNat? x).bind (items[·]?)).getD .undefined)
  | _, _ => property object key.text

/-- The object of all global bindings, as they are now. -/
def snapshot : Run Value := do
  let s ← get
  let (ns, realm) := s.realm.namespaceOf s.realm.globals
  set { s with realm := realm }
  return ns.toValue

/-- Bind a global name. -/
def setGlobal (name : String) (v : Value) : Run Unit :=
  modify fun s => { s with realm := s.realm.set name v }

mutual

/-- The value of an expression. The key of an index is evaluated before its object, and the value of
an assignment before its target. -/
def eval : Expression → Run Value
  | .number x => return .number x
  | .string s => return .string s
  | .boolean b => return .boolean b
  | .null => return .null
  | .identifier name => do
    match (← get).lookup? name with
    | some v => return v
    | none => throw (.notDefined name)
  | .self => snapshot
  | .array elements => return .array (← evalAll elements)
  | .member .self name => return (← get).global name
  | .member object name => do
    let v ← eval object
    liftExcept (property v name)
  | .index .self key => do
    let k ← eval key
    return (← get).global k.text
  | .index object key => do
    let k ← eval key
    let v ← eval object
    liftExcept (element v k)
  | .negate operand => return .number (-(toNumber (← eval operand)))
  | .binary op left right => do
    let l ← eval left
    let r ← eval right
    return operate op l r
  | .assign adding target value => do
    let v ← eval value
    let v ← if adding then do
        let current ← eval target
        pure (operate .add current v)
      else pure v
    assignTo target v
    return v
  | .increment target => do
    let old := toNumber (← eval target)
    assignTo target (.number (old + 1.0))
    return .number old

/-- The values of several expressions from left to right. -/
def evalAll : List Expression → Run (List Value)
  | [] => return []
  | e :: rest => do
    let v ← eval e
    return v :: (← evalAll rest)

/-- Assign a value. Besides names, only the global bindings can be assigned to. -/
def assignTo : Expression → Value → Run Unit
  | .identifier name, v => modify (·.store name v)
  | .member .self name, v => setGlobal name v
  | .index .self key, v => do
    let k ← eval key
    setGlobal k.text v
  | _, _ => throw .immutableTarget

end

/-- Bind the names of a `var` statement one after the other. -/
def declare : List Declarator → Run Unit
  | [] => return ()
  | d :: rest => do
    let v ← match d.value with
      | some e => eval e
      | none => pure .undefined
    modify (·.bind d.name v)
    declare rest

end Dialect

end ModuleLoader

import ModuleLoader.Dict
import ModuleLoader.Decimal.Shortest

/-! # Values

The values that scripts compute and modules export. A namespace value carries the number of the
instance that it is; two namespaces are the same only if they are the same instance.
-/

namespace ModuleLoader

/-- A value of the language. The bindings of a namespace are in key order. -/
inductive Value where
  | undefined
  | null
  | boolean (b : Bool)
  | number (x : Float)
  | string (s : String)
  | array (items : List Value)
  | ofNamespace (instanceId : Nat) (bindings : List (String × Value))

/-- The exports of a module, and which instance they are. -/
structure Namespace where
  instanceId : Nat
  exports : Dict Value

namespace Value

instance : Inhabited Value := ⟨undefined⟩

/-- The texts of the bindings of a namespace in braces. -/
def braced (bindings : List String) : String :=
  if bindings.isEmpty then "[Module: null prototype] \x7b\x7d"
  else "[Module: null prototype] \x7b " ++ ", ".intercalate bindings ++ " \x7d"

mutual

/-- The text of a value. -/
def text : Value → String
  | undefined => "undefined"
  | null => "null"
  | boolean true => "true"
  | boolean false => "false"
  | number x => Number.display x
  | string s => s
  | array items => ",".intercalate (texts items)
  | ofNamespace _ bindings => braced (bindingTexts bindings)

/-- The texts of several values. -/
def texts : List Value → List String
  | [] => []
  | v :: rest => text v :: texts rest

/-- The texts of several bindings. -/
def bindingTexts : List (String × Value) → List String
  | [] => []
  | (name, v) :: rest => (name ++ ": " ++ text v) :: bindingTexts rest

end

/-- The name of the type of a value. -/
def typeName : Value → String
  | undefined => "undefined"
  | boolean _ => "boolean"
  | number _ => "number"
  | string _ => "string"
  | null | array _ | ofNamespace _ _ => "object"

mutual

/-- Whether two values are equal: numbers as numbers, so that no number differs from itself but
the undefined one, arrays element by element, and namespaces by instance. -/
def same : Value → Value → Bool
  | undefined, undefined => true
  | null, null => true
  | boolean a, boolean b => a == b
  | number a, number b => a == b
  | string a, string b => a == b
  | array a, array b => sameAll a b
  | ofNamespace a _, ofNamespace b _ => a == b
  | _, _ => false

/-- Whether two lists of values are equal element by element. -/
def sameAll : List Value → List Value → Bool
  | [], [] => true
  | v :: vs, w :: ws => same v w && sameAll vs ws
  | _, _ => false

end

/-- Whether this is the value of what was never assigned. -/
def isUndefined : Value → Bool
  | undefined => true
  | _ => false

end Value

namespace Namespace

/-- The namespace as a value. -/
def toValue (ns : Namespace) : Value := .ofNamespace ns.instanceId ns.exports.entries

/-- The text of a namespace. -/
def text (ns : Namespace) : String := ns.toValue.text

end Namespace

end ModuleLoader

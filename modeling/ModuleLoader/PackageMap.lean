import ModuleLoader.Error
import ModuleLoader.Json.Basic
import ModuleLoader.Text.Segment

/-! # Package maps

A package map replaces names by rules. A rule replaces a beginning of a name that ends at a segment
boundary; a global rule holds for every referrer, a contextual one for referrers below a given name.
The best rule is tried again on its result until it changes nothing or has fired before.
-/

namespace ModuleLoader

open Text

/-- The entry of a name: a global rule, or rules for referrers below the name. -/
inductive MapEntry where
  | target (name : String)
  | contextual (rules : Dict String)

/-- Entries by name. -/
structure PackageMap where
  entries : Dict MapEntry

/-- A rule: for which referrers it holds, what it replaces and by what. -/
structure MapRule where
  context : Option String
  start : String
  target : String
deriving DecidableEq, Repr

namespace PackageMap

/-- The map without rules. -/
def empty : PackageMap := ⟨.empty⟩

instance : Inhabited PackageMap := ⟨empty⟩

/-- Add a global rule. -/
def insert (m : PackageMap) (start target : String) : PackageMap :=
  ⟨m.entries.insert start (.target target)⟩

/-- Add a rule for referrers below a name. It takes the place of a global rule for the name. -/
def insertContextual (m : PackageMap) (context start target : String) : PackageMap :=
  let rules := match m.entries.get? context with
    | some (.contextual rules) => rules
    | _ => .empty
  ⟨m.entries.insert context (.contextual (rules.insert start target))⟩

/-- The target of a global rule. -/
def get? (m : PackageMap) (start : String) : Option String :=
  match m.entries.get? start with
  | some (.target name) => some name
  | _ => none

/-- Add the entries of another map, which win. -/
def extend (m other : PackageMap) : PackageMap := ⟨m.entries.merge other.entries⟩

/-- The number of entries. -/
def size (m : PackageMap) : Nat := m.entries.size

/-- Whether there are no entries. -/
def isEmpty (m : PackageMap) : Bool := m.entries.isEmpty

/-- A map of global rules. -/
def ofRules (rules : Dict String) : PackageMap := ⟨rules.map .target⟩

/-- Whether `start` is a name, or leads to a segment boundary of it. Nothing is no start. -/
def startMatches (start name : List Char) : Bool :=
  match dropStart? start name with
  | none => false
  | some [] => start ≠ []
  | some (c :: _) => start ≠ [] && (start.getLast? = some '/' || c = '/')

/-- The rules of a table that match a name, in the order of what they replace. All replace
beginnings of one text, so this is also the order of their lengths. -/
def matching (context : Option String) (rules : List (String × String)) (name : String) :
    List MapRule :=
  (rules.filter fun r => startMatches r.1.toList name.toList).map fun r => ⟨context, r.1, r.2⟩

/-- The global rules. -/
def globalRules (m : PackageMap) : List (String × String) :=
  m.entries.entries.filterMap fun e =>
    match e.2 with
    | .target name => some (e.1, name)
    | .contextual _ => none

/-- The contexts that a referrer is in, the longest last. -/
def contextsOf (m : PackageMap) (referrer : String) : List (String × Dict String) :=
  m.entries.entries.filterMap fun e =>
    match e.2 with
    | .target _ => none
    | .contextual rules =>
      if startMatches e.1.toList referrer.toList then some (e.1, rules) else none

/-- The best contextual rule: of the longest context with a matching rule, the longest rule. -/
def contextualRule? (m : PackageMap) (name referrer : String) : Option MapRule :=
  (m.contextsOf referrer).reverse.findSome? fun c =>
    (matching (some c.1) c.2.entries name).getLast?

/-- The best rule for a name: contextual rules come before global ones. -/
def rule? (m : PackageMap) (name : String) (referrer : Option String) : Option MapRule :=
  match referrer.bind (m.contextualRule? name) with
  | some rule => some rule
  | none => (matching none m.globalRules name).getLast?

/-- The result of a rule on a name that it matches. -/
def replace (rule : MapRule) (name : String) : String :=
  rule.target ++ String.ofList ((dropStart? rule.start.toList name.toList).getD [])

/-- The number of rules. -/
def ruleCount (m : PackageMap) : Nat :=
  m.entries.entries.foldl (fun n e =>
    match e.2 with
    | .target _ => n + 1
    | .contextual rules => n + rules.size) 0

/-- Replace by the best rule until it is one of `fired` or changes nothing. A name that was `seen`
before is a cycle. -/
def chase (m : PackageMap) (referrer : Option String) (fired : List MapRule)
    (seen : List String) (current : String) : Nat → Except ResolutionCause String
  | 0 => .ok current
  | n + 1 =>
    match m.rule? current referrer with
    | none => .ok current
    | some rule =>
      let next := replace rule current
      if rule ∈ fired ∨ next = current then .ok current
      else if next ∈ seen then .error (.mapCycle next)
      else chase m referrer (rule :: fired) (next :: seen) next n

/-- Apply a map to a name. No rule fires twice, so there are no more replacements than rules. -/
def apply (m : PackageMap) (name : String) (referrer : Option String) : Except LoadError String :=
  match m.chase referrer [] [name] name (m.ruleCount + 1) with
  | .ok result => .ok result
  | .error cause => .error (.resolution name cause)

/-! ## JSON -/

/-- A map as a JSON object: texts are global rules, objects the rules of a context. -/
def toJson (m : PackageMap) : Json :=
  .object (m.entries.entries.map fun e => (some e.1,
    match e.2 with
    | .target name => .string (some name)
    | .contextual rules => .object (rules.entries.map fun r => (some r.1, .string (some r.2)))))

/-- A dictionary of texts. -/
def rulesOfJson? (j : Json) : Option (Dict String) := do
  let members ← j.dict?
  let texts ← members.entries.mapM fun m => m.2.text?.map fun t => (m.1, t)
  return .ofList texts

/-- The entry that a JSON value describes. Every member of an object counts, also one that a later
member replaces. -/
def entryOfJson? (j : Json) : Option MapEntry :=
  match j with
  | .string (some s) => some (.target s)
  | .object members =>
    if members.all fun m => m.1.isSome && m.2.text?.isSome then
      (rulesOfJson? j).map .contextual
    else none
  | _ => none

/-- The map that a JSON value describes. -/
def ofJson? (j : Json) : Option PackageMap :=
  match j with
  | .object members => do
    let named ← members.mapM Json.keyed?
    let entries ← named.mapM fun m => (entryOfJson? m.2).map fun e => (m.1, e)
    return ⟨.ofList entries⟩
  | _ => none

end PackageMap

end ModuleLoader

import ModuleLoader.Dialect.Unit

/-! # Renumbered instances

The number of a namespace only tells which instance it is. No operation of the language depends on
it, so operations on renumbered values give the renumbered results.
-/

namespace ModuleLoader

namespace Dict

variable {α β : Type}

@[simp] theorem map_empty (f : α → β) : (empty : Dict α).map f = empty := rfl

theorem map_insert (f : α → β) (d : Dict α) (key : String) (a : α) :
    (d.insert key a).map f = (d.map f).insert key (f a) := by
  apply ext_get?
  intro other
  simp only [get?_map, get?_insert]
  split <;> rfl

theorem contains_map (f : α → β) (d : Dict α) (key : String) :
    (d.map f).contains key = d.contains key := by
  rw [contains, contains, get?_map, Option.isSome_map]

theorem find_map (f : α → β) (key : String) (l : List (String × α)) :
    find key (l.map fun b => (b.1, f b.2)) = (find key l).map f := by
  induction l with
  | nil => rfl
  | cons b rest ih =>
    simp only [List.map_cons, find]
    split
    · rfl
    · exact ih

end Dict

/-! ## Values -/

namespace Value

mutual

/-- The value with other numbers for the instances. -/
def renumber (f : Nat → Nat) : Value → Value
  | undefined => undefined
  | null => null
  | boolean b => boolean b
  | number x => number x
  | string s => string s
  | array items => array (renumberAll f items)
  | ofNamespace i bindings => ofNamespace (f i) (renumberBindings f bindings)

/-- The values with other numbers for the instances. -/
def renumberAll (f : Nat → Nat) : List Value → List Value
  | [] => []
  | v :: rest => renumber f v :: renumberAll f rest

/-- The bindings with other numbers for the instances. -/
def renumberBindings (f : Nat → Nat) : List (String × Value) → List (String × Value)
  | [] => []
  | (name, v) :: rest => (name, renumber f v) :: renumberBindings f rest

end

variable (f : Nat → Nat)

theorem renumberAll_eq (items : List Value) : renumberAll f items = items.map (renumber f) := by
  induction items with
  | nil => rfl
  | cons v rest ih => rw [renumberAll, ih, List.map_cons]

theorem renumberBindings_eq (bindings : List (String × Value)) :
    renumberBindings f bindings = bindings.map fun b => (b.1, renumber f b.2) := by
  induction bindings with
  | nil => rfl
  | cons b rest ih => rw [renumberBindings, ih, List.map_cons]

mutual

/-- The text of a namespace does not show which instance it is. -/
theorem text_renumber (v : Value) : (v.renumber f).text = v.text := by
  cases v with
  | array items => rw [renumber, text, text, texts_renumberAll items]
  | ofNamespace i bindings => rw [renumber, text, text, bindingTexts_renumberBindings bindings]
  | _ => rfl

theorem texts_renumberAll (items : List Value) : texts (renumberAll f items) = texts items := by
  cases items with
  | nil => rfl
  | cons v rest => rw [renumberAll, texts, texts, text_renumber v, texts_renumberAll rest]

theorem bindingTexts_renumberBindings (bindings : List (String × Value)) :
    bindingTexts (renumberBindings f bindings) = bindingTexts bindings := by
  cases bindings with
  | nil => rfl
  | cons b rest =>
    rw [renumberBindings, bindingTexts, bindingTexts, text_renumber b.2,
      bindingTexts_renumberBindings rest]

end

end Value

namespace Namespace

/-- The namespace with other numbers for the instances. -/
def renumber (f : Nat → Nat) (ns : Namespace) : Namespace :=
  ⟨f ns.instanceId, ns.exports.map (Value.renumber f)⟩

theorem toValue_renumber (f : Nat → Nat) (ns : Namespace) :
    (ns.renumber f).toValue = ns.toValue.renumber f := by
  rw [toValue, toValue, Value.renumber, Value.renumberBindings_eq]
  rfl

end Namespace

/-! ## Operations -/

namespace Dialect

open Value

/-- A step with a mapped result, and what goes on from there. -/
theorem bind_mapped {α α' β β' : Type} {x : Except RunCause α} {x' : Except RunCause α'}
    {g : α → α'} {g' : β → β'} {k : α → Except RunCause β} {k' : α' → Except RunCause β'}
    (hx : x' = x.map g) (hk : ∀ a, k' (g a) = (k a).map g') : x' >>= k' = (x >>= k).map g' := by
  subst hx
  cases x with
  | error cause => rfl
  | ok a => exact hk a

variable (f : Nat → Nat)

theorem toNumber_renumber (v : Value) : toNumber (v.renumber f) = toNumber v := by
  cases v <;> rfl

theorem isNumeric_renumber (v : Value) : isNumeric (v.renumber f) = isNumeric v := by
  cases v <;> rfl

theorem operate_renumber (op : BinaryOp) (left right : Value) :
    operate op (left.renumber f) (right.renumber f) = (operate op left right).renumber f := by
  cases op with
  | add =>
    simp only [operate, isNumeric_renumber, toNumber_renumber, text_renumber]
    split <;> rfl
  | _ => simp only [operate, toNumber_renumber, renumber]

theorem property_renumber (object : Value) (name : String) :
    property (object.renumber f) name = (property object name).map (renumber f) := by
  cases object with
  | ofNamespace i bindings =>
    simp only [renumber, property, renumberBindings_eq, Dict.find_map, Except.map]
    cases Dict.find name bindings <;> rfl
  | array items =>
    simp only [renumber, property, renumberAll_eq, List.length_map, Except.map]
    split <;> rfl
  | string s =>
    simp only [renumber, property, Except.map]
    split <;> rfl
  | _ => rfl

theorem element_renumber (object key : Value) :
    element (object.renumber f) (key.renumber f) = (element object key).map (renumber f) := by
  have hproperty : property (object.renumber f) (key.renumber f).text =
      (property object key.text).map (renumber f) := by
    rw [text_renumber, property_renumber]
  cases object with
  | array items =>
    cases key with
    | number x =>
      simp only [renumber, element, renumberAll_eq, Except.map]
      cases Binary64.toNat? x with
      | none => rfl
      | some i =>
        simp only [Option.bind_some, List.getElem?_map]
        cases items[i]? <;> rfl
    | _ => exact hproperty
  | _ => exact hproperty

theorem exportOf_renumber (ns : Namespace) (specifier name : String) :
    exportOf (ns.renumber f) specifier name = (exportOf ns specifier name).map (renumber f) := by
  simp only [exportOf, Namespace.renumber, Dict.get?_map]
  cases ns.exports.get? name <;> rfl

theorem importOf_renumber (imports : Imports) (specifier : String) :
    importOf (imports.map (Namespace.renumber f)) specifier =
      (importOf imports specifier).map (Namespace.renumber f) := by
  simp only [importOf, Dict.get?_map]
  cases imports.get? specifier <;> rfl

theorem exportForeign_renumber (ns : Namespace) (specifier : String) (exports : Dict Value)
    (specifiers : List ExportSpecifier) :
    exportForeign (ns.renumber f) specifier (exports.map (renumber f)) specifiers =
      (exportForeign ns specifier exports specifiers).map (Dict.map (renumber f)) := by
  induction specifiers generalizing exports with
  | nil => rfl
  | cons e rest ih =>
    refine bind_mapped (exportOf_renumber f ns specifier e.name) fun v => ?_
    rw [← Dict.map_insert]
    exact ih _

theorem addStar_renumber (exports : Dict Value) (b : String × Value) :
    addStar (exports.map (renumber f)) (b.1, renumber f b.2) =
      (addStar exports b).map (renumber f) := by
  simp only [addStar, Dict.contains_map]
  split
  · rfl
  · rw [Dict.map_insert]

theorem addStars_renumber (exports : Dict Value) (stars : List Namespace) :
    addStars (exports.map (renumber f)) (stars.map (Namespace.renumber f)) =
      (addStars exports stars).map (renumber f) := by
  have hone (exports : Dict Value) (bindings : List (String × Value)) :
      (bindings.map fun b => (b.1, renumber f b.2)).foldl addStar (exports.map (renumber f)) =
        (bindings.foldl addStar exports).map (renumber f) := by
    induction bindings generalizing exports with
    | nil => rfl
    | cons b rest ih => rw [List.map_cons, List.foldl_cons, List.foldl_cons, addStar_renumber, ih]
  induction stars generalizing exports with
  | nil => rfl
  | cons ns rest ih =>
    have hns : (ns.renumber f).exports.entries =
        ns.exports.entries.map fun b => (b.1, renumber f b.2) := rfl
    simp only [addStars, List.map_cons, List.foldl_cons, hns, hone]
    exact ih _

end Dialect

end ModuleLoader

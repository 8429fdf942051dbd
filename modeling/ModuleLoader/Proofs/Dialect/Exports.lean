import ModuleLoader.Proofs.Dialect.OwnBindings
import ModuleLoader.Proofs.Results

/-! # Exports

When the body of a module has run, each explicit export gets the value that its source has by then,
and the last export of a name stands. A namespace that is exported as a whole adds what has no value
yet, but no default export.
-/

namespace ModuleLoader

/-- Bind pairs from left to right, over what is bound. -/
def Dict.insertAll {α : Type} (d : Dict α) (bindings : List (String × α)) : Dict α :=
  bindings.foldl (fun d b => d.insert b.1 b.2) d

namespace Dialect

/-- Where an explicit export has its value from: a name of the module, or an export of another
module. -/
inductive ExportSource where
  | own (name : String)
  | foreign (specifier name : String)

/-- The value of a source, if it has one. -/
def ExportSource.value? (s : Scope) (imports : Imports) : ExportSource → Option Value
  | own name => s.lookup? name
  | foreign specifier name => (imports.get? specifier).bind (·.exports.get? name)

/-- The names under which a statement exports, each with the source of its value. -/
def StatementKind.explicitExports : StatementKind → List (String × ExportSource)
  | exportVar declarators => declarators.map fun d => (d.name, .own d.name)
  | exportDefault _ => [("default", .own defaultName)]
  | exportNamed specifiers none => specifiers.map fun e => (e.exported, .own e.name)
  | exportNamed specifiers (some specifier) =>
    specifiers.map fun e => (e.exported, .foreign specifier e.name)
  | _ => []

/-- The specifier of the module that a statement exports as a whole. -/
def StatementKind.star? : StatementKind → Option String
  | exportAll specifier => some specifier
  | _ => none

/-- The explicit exports of a body, in the order of its statements. -/
def explicitExports (body : List Statement) : List (String × ExportSource) :=
  body.flatMap (·.kind.explicitExports)

/-- The specifiers of the modules that a body exports as a whole, in the order of its statements. -/
def starSpecifiers (body : List Statement) : List String := body.filterMap (·.kind.star?)

/-- Each export gets the value of its source. -/
def Gives (s : Scope) (imports : Imports) (exports : List (String × ExportSource))
    (bindings : List (String × Value)) : Prop :=
  exports.map (fun e => (e.1, e.2.value? s imports)) = bindings.map fun b => (b.1, some b.2)

/-! ## Bindings one after the other -/

section Bindings

variable {α : Type}

theorem insertAll_append (d : Dict α) (before after : List (String × α)) :
    d.insertAll (before ++ after) = (d.insertAll before).insertAll after :=
  List.foldl_append

theorem get?_insertAll_of_notMem (d : Dict α) {bindings : List (String × α)} {key : String}
    (h : ∀ b ∈ bindings, b.1 ≠ key) : (d.insertAll bindings).get? key = d.get? key := by
  induction bindings generalizing d with
  | nil => rfl
  | cons b rest ih =>
    obtain ⟨hb, hrest⟩ := List.forall_mem_cons.1 h
    rw [Dict.insertAll, List.foldl_cons]
    exact (ih _ hrest).trans (d.get?_insert_of_ne _ hb.symm)

/-- The last of the bindings of a key stands. -/
theorem get?_insertAll_last (d : Dict α) (before : List (String × α)) {after : List (String × α)}
    {key : String} (v : α) (h : ∀ b ∈ after, b.1 ≠ key) :
    (d.insertAll (before ++ (key, v) :: after)).get? key = some v := by
  rw [Dict.insertAll, List.foldl_append, List.foldl_cons]
  exact (get?_insertAll_of_notMem _ h).trans (Dict.get?_insert_self _ key v)

theorem isSome_get?_insertAll (d : Dict α) (bindings : List (String × α)) (key : String) :
    ((d.insertAll bindings).get? key).isSome ↔
      (d.get? key).isSome ∨ ∃ b ∈ bindings, b.1 = key := by
  induction bindings generalizing d with
  | nil => simp [Dict.insertAll]
  | cons b rest ih =>
    have hcons : d.insertAll (b :: rest) = (d.insert b.1 b.2).insertAll rest := rfl
    rw [hcons, ih, Dict.get?_insert]
    by_cases hb : b.1 = key
    · simp [hb]
    · simp [hb, Ne.symm hb]

end Bindings

/-! ## Explicit exports -/

section Explicit

variable {s : Scope} {imports : Imports} {exports exports' : Dict Value}

theorem Gives.append {x y : List (String × ExportSource)} {b c : List (String × Value)}
    (hx : Gives s imports x b) (hy : Gives s imports y c) : Gives s imports (x ++ y) (b ++ c) := by
  rw [Gives, List.map_append, List.map_append, hx, hy]

theorem Gives.cons {key : String} {source : ExportSource} {v : Value}
    (hv : source.value? s imports = some v) {x : List (String × ExportSource)}
    {b : List (String × Value)} (hx : Gives s imports x b) :
    Gives s imports ((key, source) :: x) ((key, v) :: b) := by
  rw [Gives, List.map_cons, List.map_cons, hv, hx]

/-- What is bound for an export, between what is bound for those before and after it. -/
theorem Gives.split {x y : List (String × ExportSource)} {key : String} {source : ExportSource}
    {bindings : List (String × Value)} (h : Gives s imports (x ++ (key, source) :: y) bindings) :
    ∃ b v c, bindings = b ++ (key, v) :: c ∧ source.value? s imports = some v ∧
      Gives s imports y c := by
  rw [Gives, List.map_append, List.map_cons] at h
  obtain ⟨b, rest, rfl, -, hrest⟩ := List.map_eq_append_iff.1 h.symm
  obtain ⟨⟨k, v⟩, c, rfl, hv, hc⟩ := List.map_eq_cons_iff.1 hrest
  simp only [Prod.mk.injEq] at hv
  obtain ⟨rfl, hv⟩ := hv
  exact ⟨b, v, c, rfl, hv.symm, hc.symm⟩

theorem Gives.keys {x : List (String × ExportSource)} {b : List (String × Value)}
    (h : Gives s imports x b) : x.map (·.1) = b.map (·.1) := by
  have hkeys := congrArg (List.map Prod.fst) h
  rwa [List.map_map, List.map_map] at hkeys

theorem exportLocals_eq_ok (imports : Imports) {names : List (String × String)}
    (h : exportLocals s exports names = .ok exports') :
    ∃ b, Gives s imports (names.map fun e => (e.2, .own e.1)) b ∧ exports' = exports.insertAll b := by
  induction names generalizing exports with
  | nil =>
    cases h
    exact ⟨[], rfl, rfl⟩
  | cons e rest ih =>
    obtain ⟨v, hv, hrest⟩ := bind_eq_ok_iff.1 h
    obtain ⟨b, hb, rfl⟩ := ih hrest
    have hvalue : (ExportSource.own e.1).value? s imports = some v := by
      rw [valueOf] at hv
      rw [ExportSource.value?]
      split at hv
      · cases hv
        assumption
      · cases hv
    exact ⟨(e.2, v) :: b, hb.cons hvalue, rfl⟩

theorem importOf_eq_ok {specifier : String} {ns : Namespace}
    (h : importOf imports specifier = .ok ns) : imports.get? specifier = some ns := by
  rw [importOf] at h
  split at h
  · cases h
    assumption
  · cases h

theorem exportForeign_eq_ok {specifier : String} {ns : Namespace}
    (hns : imports.get? specifier = some ns) {specifiers : List ExportSpecifier}
    (h : exportForeign ns specifier exports specifiers = .ok exports') :
    ∃ b, Gives s imports (specifiers.map fun e => (e.exported, .foreign specifier e.name)) b ∧
      exports' = exports.insertAll b := by
  induction specifiers generalizing exports with
  | nil =>
    cases h
    exact ⟨[], rfl, rfl⟩
  | cons e rest ih =>
    obtain ⟨v, hv, hrest⟩ := bind_eq_ok_iff.1 h
    obtain ⟨b, hb, rfl⟩ := ih hrest
    have hvalue : (ExportSource.foreign specifier e.name).value? s imports = some v := by
      rw [exportOf] at hv
      rw [ExportSource.value?, hns, Option.bind_some]
      split at hv
      · cases hv
        assumption
      · cases hv
    exact ⟨(e.exported, v) :: b, hb.cons hvalue, rfl⟩

/-- What one statement adds to what is collected. -/
theorem collect_cons {st : Statement} {rest : List Statement} {stars stars' : List Namespace}
    (h : collect s imports exports stars (st :: rest) = .ok (exports', stars')) :
    ∃ b more, Gives s imports st.kind.explicitExports b ∧
      st.kind.star?.toList.map imports.get? = more.map some ∧
      collect s imports (exports.insertAll b) (stars ++ more) rest = .ok (exports', stars') := by
  have hnone {exports₁ : Dict Value} (h : collect s imports exports₁ stars rest =
      .ok (exports', stars')) : collect s imports exports₁ (stars ++ []) rest =
      .ok (exports', stars') := by
    rwa [List.append_nil]
  rw [collect] at h
  cases hk : st.kind with
  | exportVar declarators =>
    rw [hk] at h
    obtain ⟨exports₁, hlocals, hrest⟩ := bind_eq_ok_iff.1 h
    obtain ⟨b, hb, rfl⟩ := exportLocals_eq_ok imports hlocals
    rw [List.map_map] at hb
    exact ⟨b, [], hb, rfl, hnone hrest⟩
  | exportDefault e =>
    rw [hk] at h
    obtain ⟨exports₁, hlocals, hrest⟩ := bind_eq_ok_iff.1 h
    obtain ⟨b, hb, rfl⟩ := exportLocals_eq_ok imports hlocals
    exact ⟨b, [], hb, rfl, hnone hrest⟩
  | exportNamed specifiers source =>
    cases source with
    | none =>
      rw [hk] at h
      obtain ⟨exports₁, hlocals, hrest⟩ := bind_eq_ok_iff.1 h
      obtain ⟨b, hb, rfl⟩ := exportLocals_eq_ok imports hlocals
      rw [List.map_map] at hb
      exact ⟨b, [], hb, rfl, hnone hrest⟩
    | some specifier =>
      rw [hk] at h
      obtain ⟨ns, hns, h⟩ := bind_eq_ok_iff.1 h
      obtain ⟨exports₁, hforeign, hrest⟩ := bind_eq_ok_iff.1 h
      obtain ⟨b, hb, rfl⟩ := exportForeign_eq_ok (importOf_eq_ok hns) hforeign
      exact ⟨b, [], hb, rfl, hnone hrest⟩
  | exportAll specifier =>
    rw [hk] at h
    obtain ⟨ns, hns, hrest⟩ := bind_eq_ok_iff.1 h
    exact ⟨[], [ns], rfl, congrArg ([·]) (importOf_eq_ok hns), hrest⟩
  | _ =>
    rw [hk] at h
    exact ⟨[], [], rfl, rfl, hnone h⟩

/-- What is collected from a body: its explicit exports are bound in their order, and the namespaces
that it exports as a whole are listed. -/
theorem collect_eq_ok {body : List Statement} {stars stars' : List Namespace}
    (h : collect s imports exports stars body = .ok (exports', stars')) :
    ∃ b more, Gives s imports (explicitExports body) b ∧
      (starSpecifiers body).map imports.get? = more.map some ∧
      exports' = exports.insertAll b ∧ stars' = stars ++ more := by
  induction body generalizing exports stars with
  | nil =>
    cases h
    exact ⟨[], [], rfl, rfl, rfl, (List.append_nil _).symm⟩
  | cons st rest ih =>
    obtain ⟨b, more, hb, hmore, hrest⟩ := collect_cons h
    obtain ⟨c, others, hc, hothers, rfl, rfl⟩ := ih hrest
    have hstars : starSpecifiers (st :: rest) = st.kind.star?.toList ++ starSpecifiers rest := by
      rw [starSpecifiers, List.filterMap_cons]
      cases st.kind.star? <;> rfl
    refine ⟨b ++ c, more ++ others, hb.append hc, ?_, (insertAll_append _ _ _).symm,
      List.append_assoc ..⟩
    rw [hstars, List.map_append, List.map_append, hmore, hothers]

end Explicit

/-! ## Namespaces that are exported as a whole -/

/-- The value that the first of several namespaces gives to a key. The default export is none. -/
def starValue? (key : String) (stars : List Namespace) : Option Value :=
  if key = "default" then none else stars.findSome? (·.exports.get? key)

section Stars

variable (exports : Dict Value) (key : String)

theorem get?_addStar (b : String × Value) : (addStar exports b).get? key =
    (exports.get? key).or (if key = "default" then none else if key = b.1 then some b.2 else none) := by
  rw [addStar, Dict.contains]
  by_cases hd : b.1 = "default"
  · rw [if_pos (.inl hd)]
    grind
  · by_cases hb : (exports.get? b.1).isSome = true
    · rw [if_pos (.inr hb)]
      obtain ⟨v, hv⟩ := Option.isSome_iff_exists.1 hb
      by_cases hkey : key = b.1
      · subst hkey
        rw [hv, Option.some_or]
      · simp [hkey]
    · rw [if_neg (by simp [hd, hb]), Dict.get?_insert]
      by_cases hkey : key = b.1
      · subst hkey
        simp [hd, Option.not_isSome_iff_eq_none.1 hb]
      · simp [hkey]

theorem get?_addStar_entries (entries : List (String × Value)) :
    (entries.foldl addStar exports).get? key =
      (exports.get? key).or (if key = "default" then none else Dict.find key entries) := by
  induction entries generalizing exports with
  | nil => simp [Dict.find]
  | cons b rest ih =>
    rw [List.foldl_cons, ih, get?_addStar, Option.or_assoc, Dict.find]
    obtain ⟨k, v⟩ := b
    by_cases hd : key = "default"
    · simp [hd]
    · by_cases hkey : key = k
      · subst hkey
        simp [hd]
      · simp [hd, hkey]

theorem get?_addStars (stars : List Namespace) :
    (addStars exports stars).get? key = (exports.get? key).or (starValue? key stars) := by
  induction stars generalizing exports with
  | nil => simp [addStars, starValue?]
  | cons ns rest ih =>
    have hcons : addStars exports (ns :: rest) =
        addStars (ns.exports.entries.foldl addStar exports) rest := rfl
    rw [hcons, ih, get?_addStar_entries, Option.or_assoc, starValue?, starValue?]
    by_cases hd : key = "default"
    · simp [hd]
    · have hfind : Dict.find key ns.exports.entries = ns.exports.get? key := rfl
      rw [if_neg hd, if_neg hd, if_neg hd, List.findSome?_cons, hfind]
      cases ns.exports.get? key <;> rfl

theorem isSome_starValue? (stars : List Namespace) : (starValue? key stars).isSome ↔
    key ≠ "default" ∧ ∃ ns ∈ stars, key ∈ ns.exports.keys := by
  rw [starValue?]
  split
  · simp [*]
  · simp [*, Dict.mem_keys_iff, List.findSome?_isSome_iff]

/-- The first namespace that has a key gives its value. -/
theorem starValue?_append {key : String} {before : List Namespace} {ns : Namespace} {v : Value}
    (hkey : key ≠ "default") (h : ∀ other ∈ before, other.exports.get? key = none)
    (hv : ns.exports.get? key = some v) (after : List Namespace) :
    starValue? key (before ++ ns :: after) = some v := by
  rw [starValue?, if_neg hkey, List.findSome?_append, List.findSome?_eq_none_iff.2 h,
    List.findSome?_cons, hv, Option.none_or]

end Stars

/-! ## Modules -/

/-- A module exports what is collected from its body with the values at its end, and after that what
the namespaces give that it exports as a whole. -/
theorem run_eq_ok {m : Linked} {imports : Imports} {realm realm' : Realm} {ns : Namespace}
    (h : m.run imports realm = (.ok ns, realm')) :
    ∃ s b stars, Leads imports m.program.body m.program.body ⟨realm, some .empty⟩ s ∧
      Gives s imports (explicitExports m.program.body) b ∧
      (starSpecifiers m.program.body).map imports.get? = stars.map some ∧
      ns.exports = addStars (Dict.empty.insertAll b) stars := by
  rw [Linked.run] at h
  rcases hr : (runModule imports m.program).run.run ⟨realm, some .empty⟩ with ⟨result, s'⟩
  rw [hr] at h
  cases result with
  | error cause => cases h
  | ok exports =>
    cases h
    rw [runModule, ← bind_assoc, run_bind_eq_ok_iff] at hr
    obtain ⟨_, s, hleads, hr⟩ := hr
    have hget : (get : Run Scope).run.run s = (.ok s, s) := rfl
    rw [run_bind_of_ok hget, run_bind_eq_ok_iff] at hr
    obtain ⟨⟨explicit, stars⟩, s₁, hcollect, hr⟩ := hr
    cases hc : collect s imports .empty [] m.program.body with
    | error cause =>
      rw [hc] at hcollect
      cases hcollect
    | ok collected =>
      rw [hc] at hcollect
      cases hcollect
      cases hr
      obtain ⟨b, more, hb, hmore, rfl, rfl⟩ := collect_eq_ok hc
      exact ⟨_, b, _, hleads, hb, hmore, rfl⟩

/-- When a module has run, its keys are the names that it exports explicitly and those of the
namespaces that it exports as a whole, except for their default exports. Of equal names the last
explicit export stands, with the value at the end of the body, and otherwise that of the first such
namespace. The value of `export default` is the one that the last such statement computed. -/
theorem run_exports {m : Linked} {imports : Imports} {realm realm' : Realm} {ns : Namespace}
    (h : m.run imports realm = (.ok ns, realm')) :
    ∃ s, Leads imports m.program.body m.program.body ⟨realm, some .empty⟩ s ∧
      (∀ key, key ∈ ns.exports.keys ↔ key ∈ (explicitExports m.program.body).map (·.1) ∨
        key ≠ "default" ∧ ∃ star ∈ starSpecifiers m.program.body,
          ∃ n, imports.get? star = some n ∧ key ∈ n.exports.keys) ∧
      (∀ before key source after,
        explicitExports m.program.body = before ++ (key, source) :: after →
        key ∉ after.map (·.1) →
        ∃ v, source.value? s imports = some v ∧ ns.exports.get? key = some v) ∧
      (∀ before star after n key v,
        starSpecifiers m.program.body = before ++ star :: after → imports.get? star = some n →
        n.exports.get? key = some v → key ≠ "default" →
        key ∉ (explicitExports m.program.body).map (·.1) →
        (∀ other ∈ before, ∀ n', imports.get? other = some n' → key ∉ n'.exports.keys) →
        ns.exports.get? key = some v) ∧
      ∀ before st e after, m.program.body = before ++ st :: after → st.kind = .exportDefault e →
        (∀ t ∈ m.program.body, t.kind.WellFormed) → (∀ t ∈ after, t.kind.isDefault = false) →
        ∃ s₁ s₂ v, Leads imports m.program.body before ⟨realm, some .empty⟩ s₁ ∧
          (eval e).run.run s₁ = (.ok v, s₂) ∧
          (ExportSource.own defaultName).value? s imports = some v := by
  obtain ⟨s, b, stars, hleads, hgives, hstars, hexports⟩ := run_eq_ok h
  have hget (key : String) : ns.exports.get? key =
      ((Dict.empty.insertAll b).get? key).or (starValue? key stars) := by
    rw [hexports, get?_addStars]
  have hexplicit (key : String) : ((Dict.empty.insertAll b).get? key).isSome ↔
      key ∈ (explicitExports m.program.body).map (·.1) := by
    rw [isSome_get?_insertAll, hgives.keys]
    simp
  refine ⟨s, hleads, fun key => ?_, fun before key source after hsplit hlast => ?_,
    fun before star after n key v hsplit hn hv hkey hnone hfirst => ?_,
    fun before st e after hbody hst hw hlast => ?_⟩
  · rw [Dict.mem_keys_iff, hget, Option.isSome_or, Bool.or_eq_true, hexplicit, isSome_starValue?]
    refine or_congr Iff.rfl (and_congr_right fun _ => ?_)
    have hmem (n : Namespace) : n ∈ stars ↔ ∃ star ∈ starSpecifiers m.program.body,
        imports.get? star = some n := by
      rw [← List.mem_map, hstars, List.mem_map]
      simp
    simp only [hmem]
    constructor
    · rintro ⟨n, ⟨star, hstar, hn⟩, hkey⟩
      exact ⟨star, hstar, n, hn, hkey⟩
    · rintro ⟨star, hstar, n, hn, hkey⟩
      exact ⟨n, ⟨star, hstar, hn⟩, hkey⟩
  · rw [hsplit] at hgives
    obtain ⟨b, v, c, rfl, hv, hc⟩ := hgives.split
    refine ⟨v, hv, ?_⟩
    have hafter : ∀ d ∈ c, d.1 ≠ key := by
      rintro d hd rfl
      rw [hc.keys] at hlast
      exact hlast (List.mem_map_of_mem hd)
    rw [hget, get?_insertAll_last .empty b v hafter, Option.some_or]
  · rw [hsplit, List.map_append, List.map_cons, hn] at hstars
    obtain ⟨stars, rest, rfl, hbefore, hrest⟩ := List.map_eq_append_iff.1 hstars.symm
    obtain ⟨n', others, rfl, hn', -⟩ := List.map_eq_cons_iff.1 hrest
    cases hn'
    have hothers : ∀ other ∈ stars, other.exports.get? key = none := by
      intro other hother
      obtain ⟨star, hstar, hget⟩ := List.mem_map.1 (hbefore ▸ List.mem_map_of_mem hother)
      have hkeys := hfirst star hstar other hget
      rwa [Dict.mem_keys_iff, Option.not_isSome_iff_eq_none] at hkeys
    have hempty : (Dict.empty.insertAll b).get? key = none := by
      rwa [← Option.not_isSome_iff_eq_none, hexplicit]
    rw [hget, hempty, Option.none_or, starValue?_append hkey hothers hv]
  · rw [hbody] at hw hleads ⊢
    exact lookup?_defaultName hst hw hlast hleads

/-- A module that exports a name before it gets its value, one name twice, and two namespaces as a
whole. -/
def overlapping : Linked :=
  ⟨"m", ["p", "q"],
    ⟨[⟨.exportNamed [⟨"a", "x"⟩, ⟨"a", "y"⟩] none, 0, 24⟩, ⟨.exportAll "p", 25, 42⟩,
      ⟨.exportAll "q", 43, 60⟩, ⟨.exportNamed [⟨"c", "x"⟩] (some "q"), 61, 87⟩,
      ⟨.exportDefault (.string "d"), 88, 107⟩, ⟨.var [⟨"a", some (.string "a")⟩], 108, 120⟩]⟩⟩

/-- What it imports: two namespaces with a key in common, one of them with a default export. -/
def overlappingImports : Imports :=
  .ofList [("p", ⟨0, .ofList [("default", .string "p"), ("s", .string "p")]⟩),
    ("q", ⟨1, .ofList [("c", .string "q"), ("s", .string "q"), ("y", .null)]⟩)]

theorem wellFormed_overlapping : ∀ t ∈ overlapping.program.body, t.kind.WellFormed := by
  have hname (s : String) (h : s ∈ ["a", "c", "x", "y"]) : IsIdentifier s := by
    fin_cases h <;> exact isIdentifier_iff.2 ⟨isWord_of_all rfl (by decide) (by decide), by decide⟩
  intro t ht
  fin_cases ht
  · simp [StatementKind.WellFormed, IsName, hname]
  · trivial
  · trivial
  · simp [StatementKind.WellFormed, IsName, hname]
  · trivial
  · simp [StatementKind.WellFormed, Declarator.WellFormed, Expression.WellFormed, hname]

theorem run_exports_overlapping : ∃ ns realm, ∃ s : Scope,
    overlapping.run overlappingImports .empty = (.ok ns, realm) ∧
      ns.exports.get? "x" = some (.string "q") ∧ ns.exports.get? "y" = s.lookup? "a" ∧
      ns.exports.get? "s" = some (.string "p") ∧ "t" ∉ ns.exports.keys ∧
      s.lookup? defaultName = some (.string "d") := by
  obtain ⟨ns, realm, hrun⟩ : ∃ ns realm,
      overlapping.run overlappingImports .empty = (.ok ns, realm) := ⟨_, _, rfl⟩
  obtain ⟨s, -, hkeys, hlast, hfirst, hdefault⟩ := run_exports hrun
  refine ⟨ns, realm, s, hrun, ?_, ?_, ?_, ?_, ?_⟩
  · obtain ⟨v, hv, hx⟩ := hlast [("x", .own "a"), ("y", .own "a")] "x" (.foreign "q" "c")
      [("default", .own defaultName)] rfl (by decide)
    cases hv
    exact hx
  · obtain ⟨v, hv, hy⟩ := hlast [("x", .own "a")] "y" (.own "a")
      [("x", .foreign "q" "c"), ("default", .own defaultName)] rfl (by decide)
    exact hy.trans hv.symm
  · exact hfirst [] "p" ["q"] _ "s" (.string "p") rfl rfl rfl (by decide) (by decide)
      (List.forall_mem_nil _)
  · rw [hkeys "t"]
    decide
  · obtain ⟨s₁, s₂, v, -, he, hv⟩ := hdefault (overlapping.program.body.take 4)
      ⟨.exportDefault (.string "d"), 88, 107⟩ (.string "d") (overlapping.program.body.drop 5) rfl
      rfl wellFormed_overlapping (by decide)
    cases he
    exact hv

end Dialect

end ModuleLoader

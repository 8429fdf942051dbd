import ModuleLoader.Proofs.Dialect.Effects

/-! # What a module leaves in the realm

A running module binds names and assigns to targets, in an order that its statements determine. The
names that it binds are its own, so a global binding changes only where an assignment or an increment
of the program designates it, and one of an identifier only while the module has not bound that name.
-/

namespace ModuleLoader.Dialect

/-! ## Global bindings -/

namespace Bindings

variable {b : Bindings}

theorem globals_act_bind (h : b.locals.isSome) (name : String) (v : Value) :
    (b.act (.bind name v)).globals = b.globals := by
  rw [act, placeOf, if_pos h]
  rfl

theorem globals_act_assign (target : Expression) (name : String) (v : Value) :
    (b.act (.assign target name v)).globals =
      if target.isIdentifier && b.binds name then b.globals else b.globals.insert name v := by
  rw [act, placeOf]
  split <;> rfl

/-- A unit with bindings of its own changes a global one by assignments only. -/
theorem exists_assign_of_globals_ne (h : b.locals.isSome) {acts : List Act} {name : String}
    (hne : (b.actAll acts).globals.get? name ≠ b.globals.get? name) :
    ∃ target v, Act.assign target name v ∈ acts := by
  induction acts generalizing b with
  | nil => exact absurd rfl hne
  | cons a rest ih =>
    by_cases hrest : (b.actAll (a :: rest)).globals.get? name = (b.act a).globals.get? name
    · rw [hrest] at hne
      cases a with
      | bind other v =>
        rw [globals_act_bind h] at hne
        exact absurd rfl hne
      | assign target other v =>
        rw [globals_act_assign] at hne
        split at hne
        · exact absurd rfl hne
        · by_cases hname : name = other
          · exact ⟨target, v, hname ▸ List.mem_cons_self⟩
          · exact absurd (b.globals.get?_insert_of_ne v hname) hne
    · have hsome := (isSome_locals_actAll b [a]).trans h
      obtain ⟨target, v, hmem⟩ := ih hsome hrest
      exact ⟨target, v, List.mem_cons_of_mem a hmem⟩

/-- The bindings that a module sees before it runs: it has none of its own. -/
def ofRealm (realm : Realm) : Bindings := ⟨realm.globals, some .empty⟩

end Bindings

/-! ## Modules -/

/-- An assignment goes to one of some targets, and to a name that this target may stand for. -/
def Act.AssignsIn (targets : List Expression) : Act → Prop
  | bind _ _ => True
  | assign target name _ => target ∈ targets ∧ target.Designates name

/-- A module body binds and assigns as its acts tell, and assigns to its own targets only. -/
theorem effects_runModule (imports : Imports) (p : Program) :
    Effects (Act.AssignsIn p.targets) (fun _ => True) (p.acts imports) (runModule imports p) := by
  have himports : Effects (Act.AssignsIn p.targets) (fun _ => True) (importActs imports p.body)
      (bindImports imports p.body) :=
    effects_bindImports (fun _ _ _ => trivial) fun _ _ _ _ _ => trivial
  have hexecute : Effects (Act.AssignsIn p.targets) (fun _ => True) (executeActs p.body)
      (execute p.body) :=
    effects_execute (fun _ ht _ _ hd => ⟨ht, hd⟩) fun _ _ _ => trivial
  exact himports.bind fun _ => hexecute.bind_nil fun _ => Effects.get.bind_nil fun s =>
    (Effects.lift fun _ _ => trivial).bind_nil fun _ => .pure _

namespace Linked

/-- What a module binds and assigns in a realm, until it ends or stops. -/
def acts (m : Linked) (imports : Imports) (realm : Realm) : List Act :=
  m.program.acts imports ⟨realm, some .empty⟩

theorem globals_run (m : Linked) (imports : Imports) (realm : Realm) :
    (m.run imports realm).2.globals =
      ((Bindings.ofRealm realm).actAll (m.acts imports realm)).globals := by
  have hrun := (effects_runModule imports m.program).bindings ⟨realm, some .empty⟩
  have hglobals := congrArg Bindings.globals hrun
  refine Eq.trans ?_ hglobals
  rw [run]
  rcases (runModule imports m.program).run.run ⟨realm, some .empty⟩ with ⟨_ | exports, s⟩ <;> rfl

/-- Whether a module ends or stops, the global bindings are then what its acts make of them one after
the other. What it binds changes none of them. What it assigns goes to a target of its program, and
changes the global binding that the target designates unless the target is an identifier that the
module has bound by then. So a global binding changes only if a target of the program designates
it. -/
theorem globals_change_only_by_targets (m : Linked) (imports : Imports) (realm : Realm) :
    (m.run imports realm).2.globals =
        ((Bindings.ofRealm realm).actAll (m.acts imports realm)).globals ∧
      (∀ before name v after, m.acts imports realm = before ++ .bind name v :: after →
        (((Bindings.ofRealm realm).actAll before).act (.bind name v)).globals =
          ((Bindings.ofRealm realm).actAll before).globals) ∧
      (∀ before target name v after,
        m.acts imports realm = before ++ .assign target name v :: after →
        target ∈ m.program.targets ∧ target.Designates name ∧
          (((Bindings.ofRealm realm).actAll before).act (.assign target name v)).globals =
            if target.isIdentifier && ((Bindings.ofRealm realm).actAll before).binds name then
              ((Bindings.ofRealm realm).actAll before).globals
            else ((Bindings.ofRealm realm).actAll before).globals.insert name v) ∧
      ∀ name, (m.run imports realm).2.globals.get? name ≠ realm.globals.get? name →
        ∃ target ∈ m.program.targets, target.Designates name := by
  have hassigns (target : Expression) (name : String) (v : Value)
      (hmem : .assign target name v ∈ m.acts imports realm) :
      target ∈ m.program.targets ∧ target.Designates name :=
    (effects_runModule imports m.program).admitted ⟨realm, some .empty⟩
      (.assign target name v) hmem
  have hlocals (acts : List Act) : ((Bindings.ofRealm realm).actAll acts).locals.isSome :=
    ((Bindings.ofRealm realm).isSome_locals_actAll acts).trans rfl
  refine ⟨m.globals_run imports realm, ?_, ?_, ?_⟩
  · intro before name v after _
    exact Bindings.globals_act_bind (hlocals before) name v
  · intro before target name v after hacts
    have hmem : Act.assign target name v ∈ m.acts imports realm :=
      hacts ▸ List.mem_append_right before List.mem_cons_self
    obtain ⟨htarget, hdesignates⟩ := hassigns target name v hmem
    exact ⟨htarget, hdesignates, Bindings.globals_act_assign target name v⟩
  · intro name hne
    rw [m.globals_run] at hne
    obtain ⟨target, v, hmem⟩ := Bindings.exists_assign_of_globals_ne (hlocals []) hne
    exact ⟨target, hassigns target name v hmem⟩

/-- `import { a } from "p"; var g = h = "1"; g = "2"; export default this["k"] = a; missing;` -/
def nested : Linked where
  name := "nested"
  requests := ["p"]
  program := ⟨[
    ⟨.importFrom [.named "a" "a"] "p", 0, 22⟩,
    ⟨.var [⟨"g", some (.assign false (.identifier "h") (.string "1"))⟩], 23, 39⟩,
    ⟨.expression (.assign false (.identifier "g") (.string "2")), 40, 48⟩,
    ⟨.exportDefault (.assign false (.index .self (.string "k")) (.identifier "a")), 49, 78⟩,
    ⟨.expression (.identifier "missing"), 79, 87⟩]⟩

/-- The module that `nested` imports. -/
def nestedImports : Imports := .ofList [("p", ⟨0, .ofList [("a", .string "3")]⟩)]

/-- The module stops at its last statement. Of its names, `a` and `g` are its own, so `g` stays as it
was in the realm, and `h` and `k` are global. -/
theorem globals_change_only_by_targets_nested :
    (nested.run nestedImports (Realm.empty.set "g" .null)).2.globals =
        .ofList [("g", .null), ("h", .string "1"), ("k", .string "3")] ∧
      nested.acts nestedImports (Realm.empty.set "g" .null) =
        [.bind "a" (.string "3"), .assign (.identifier "h") "h" (.string "1"),
          .bind "g" (.string "1"), .assign (.identifier "g") "g" (.string "2"),
          .assign (.index .self (.string "k")) "k" (.string "3"),
          .bind defaultName (.string "3")] ∧
      (∃ target ∈ nested.program.targets, target.Designates "h") ∧
      ∃ target ∈ nested.program.targets, target.Designates "k" := by
  have h := globals_change_only_by_targets nested nestedImports (Realm.empty.set "g" .null)
  have hrun : (nested.run nestedImports (Realm.empty.set "g" .null)).2.globals =
      .ofList [("g", .null), ("h", .string "1"), ("k", .string "3")] := rfl
  refine ⟨hrun, rfl, h.2.2.2 "h" ?_, h.2.2.2 "k" ?_⟩
  · intro he
    cases he
  · intro he
    cases he

end Linked

end ModuleLoader.Dialect

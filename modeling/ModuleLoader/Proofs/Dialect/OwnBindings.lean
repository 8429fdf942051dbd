import ModuleLoader.Proofs.Dialect.Effects
import ModuleLoader.Proofs.Dialect.StatementRows

/-! # Bindings that a running unit keeps

The name under which a module binds its default export is no identifier. So no expression assigns to
it, and of the statements only `export default` binds it.
-/

namespace ModuleLoader.Dialect

variable {α : Type} {name : String}

/-! ## Acts that leave a binding alone -/

/-- A step leaves the unit's own binding of a name as it is. -/
def Keeps (name : String) (m : Run α) : Prop :=
  ∀ s, (m.run.run s).2.locals.map (·.get? name) = s.locals.map (·.get? name)

/-- An act may reach the unit's own binding of a name. -/
def Act.Reaches (name : String) : Act → Prop
  | bind other _ => other = name
  | assign target other _ => target.isIdentifier = true ∧ other = name

namespace Bindings

variable {b : Bindings}

theorem get?_locals_write_own {other : String} (h : other ≠ name) (v : Value) :
    (b.write ⟨.own other, v⟩).locals.map (·.get? name) = b.locals.map (·.get? name) := by
  obtain ⟨globals, locals⟩ := b
  cases locals with
  | none => rfl
  | some locals => exact congrArg some (locals.get?_insert_of_ne v h.symm)

theorem get?_locals_act {a : Act} (h : ¬ a.Reaches name) :
    (b.act a).locals.map (·.get? name) = b.locals.map (·.get? name) := by
  cases a with
  | bind other v =>
    rw [act, placeOf]
    split
    · exact get?_locals_write_own h v
    · rfl
  | assign target other v =>
    rw [act, placeOf]
    split
    · rename_i hplace
      rw [Bool.and_eq_true] at hplace
      exact get?_locals_write_own (fun he => h ⟨hplace.1, he⟩) v
    · rfl

theorem get?_locals_actAll {acts : List Act} (h : ∀ a ∈ acts, ¬ a.Reaches name) :
    (b.actAll acts).locals.map (·.get? name) = b.locals.map (·.get? name) := by
  induction acts generalizing b with
  | nil => rfl
  | cons a rest ih =>
    obtain ⟨ha, hrest⟩ := List.forall_mem_cons.1 h
    exact (ih hrest).trans (get?_locals_act ha)

end Bindings

namespace Effects

variable {admits : Act → Prop} {lacks : String → Prop} {w : Scope → List Act} {m : Run α}

theorem keeps (h : Effects (¬ ·.Reaches name) lacks w m) : Keeps name m := by
  intro s
  have hlocals := congrArg Bindings.locals (h.bindings s)
  have hkept := Bindings.get?_locals_actAll (b := s.bindings) (h.admitted s)
  rw [← hlocals] at hkept
  exact hkept

theorem isSome_locals (h : Effects admits lacks w m) {s s' : Scope} {a : α}
    (hr : m.run.run s = (.ok a, s')) (hs : s.locals.isSome) : s'.locals.isSome := by
  have hlocals := congrArg Bindings.locals (h.bindings s)
  rw [hr] at hlocals
  have hsome := s.bindings.isSome_locals_actAll (w s)
  rw [← hlocals] at hsome
  exact hsome.trans hs

end Effects

/-! ## Names of a program -/

mutual

/-- A program assigns to what can stand in it. -/
theorem Expression.wellFormed_of_mem_targets {t : Expression} (e : Expression) (h : e.WellFormed)
    (ht : t ∈ e.targets) : t.WellFormed := by
  cases e with
  | array elements => exact Expression.wellFormed_of_mem_targetsAll elements h ht
  | member object property => exact Expression.wellFormed_of_mem_targets object h.1 ht
  | index object key =>
    exact (List.mem_append.1 ht).elim (Expression.wellFormed_of_mem_targets key h.2)
      (Expression.wellFormed_of_mem_targets object h.1)
  | negate operand => exact Expression.wellFormed_of_mem_targets operand h ht
  | binary op left right =>
    exact (List.mem_append.1 ht).elim (Expression.wellFormed_of_mem_targets left h.1)
      (Expression.wellFormed_of_mem_targets right h.2)
  | assign adding target value =>
    obtain ⟨-, htarget, hvalue⟩ := h
    rcases List.mem_cons.1 ht with rfl | ht
    · exact htarget
    · exact (List.mem_append.1 ht).elim (Expression.wellFormed_of_mem_targets value hvalue)
        (Expression.wellFormed_of_mem_targets target htarget)
  | increment target =>
    rcases List.mem_cons.1 ht with rfl | ht
    · exact h.2
    · exact Expression.wellFormed_of_mem_targets target h.2 ht
  | _ => cases ht

theorem Expression.wellFormed_of_mem_targetsAll {t : Expression} (es : List Expression)
    (h : Expression.AllWellFormed es) (ht : t ∈ Expression.targetsAll es) : t.WellFormed := by
  cases es with
  | nil => cases ht
  | cons e rest =>
    exact (List.mem_append.1 ht).elim (Expression.wellFormed_of_mem_targets e h.1)
      (Expression.wellFormed_of_mem_targetsAll rest h.2)

end

/-- An assignment of a program reaches identifiers only. -/
theorem Expression.WellFormed.admitted (hname : ¬ IsIdentifier name) {t : Expression}
    (h : t.WellFormed) : t.Admitted (¬ ·.Reaches name) := by
  rintro other v hd ⟨htarget, rfl⟩
  cases hd with
  | identifier => exact hname h
  | member | index => cases htarget

namespace StatementKind

variable {kind : StatementKind}

theorem wellFormed_of_mem_targets (h : kind.WellFormed) {t : Expression} (ht : t ∈ kind.targets) :
    t.WellFormed := by
  have hdeclared {declarators : List Declarator} (h : ∀ d ∈ declarators, d.WellFormed)
      (ht : t ∈ targetsOf declarators) : t.WellFormed := by
    obtain ⟨d, hd, ht⟩ := List.mem_flatMap.1 ht
    cases hv : d.value with
    | none => simp [hv] at ht
    | some e =>
      rw [hv] at ht
      exact Expression.wellFormed_of_mem_targets e ((h d hd).2 e hv) ht
  cases kind with
  | var declarators | exportVar declarators => exact hdeclared h.2 ht
  | expression e | exportDefault e => exact Expression.wellFormed_of_mem_targets e h ht
  | _ => cases ht

/-- A statement binds the default export. -/
def isDefault : StatementKind → Bool
  | exportDefault _ => true
  | _ => false

theorem isIdentifier_of_mem_declared (h : kind.WellFormed) (hd : kind.isDefault = false)
    (hn : name ∈ kind.declared) : IsIdentifier name := by
  cases kind with
  | var declarators | exportVar declarators =>
    obtain ⟨d, hd, rfl⟩ := List.mem_map.1 hn
    exact (h.2 d hd).1
  | exportDefault e => cases hd
  | _ => cases hn

end StatementKind

theorem not_isIdentifier_defaultName : ¬ IsIdentifier defaultName := by
  intro h
  obtain ⟨c, rest, hcs, hc, -⟩ := h.isWord
  cases hcs
  exact absurd hc (by decide)

/-! ## Statements one after the other -/

/-- Once the imports of a body are bound, the first of its statements lead from one scope to
another. -/
def Leads (imports : Imports) (body first : List Statement) (s s' : Scope) : Prop :=
  (bindImports imports body >>= fun _ => execute first).run.run s = (.ok (), s')

/-- A module goes on having bindings of its own. -/
theorem Leads.isSome_locals {imports : Imports} {body first : List Statement} {realm : Realm}
    {s : Scope} (h : Leads imports body first ⟨realm, some .empty⟩ s) : s.locals.isSome := by
  have himports : Effects (fun _ => True) (fun _ => True) (importActs imports body)
      (bindImports imports body) :=
    effects_bindImports (fun _ _ _ => trivial) fun _ _ _ _ _ => trivial
  have hexecute : Effects (fun _ => True) (fun _ => True) (executeActs first) (execute first) :=
    effects_execute (fun _ _ _ _ _ => trivial) fun _ _ _ => trivial
  exact (himports.bind fun _ => hexecute).isSome_locals h rfl

theorem execute_append (before after : List Statement) :
    execute (before ++ after) = execute before >>= fun _ => execute after := by
  induction before with
  | nil => rfl
  | cons st rest ih => rw [List.cons_append, execute_cons, execute_cons, ih, bind_assoc]

/-- Statements that do not bind the default export keep every name that is no identifier. -/
theorem keeps_execute (hname : ¬ IsIdentifier name) {body : List Statement}
    (h : ∀ st ∈ body, st.kind.WellFormed) (hd : ∀ st ∈ body, st.kind.isDefault = false) :
    Keeps name (execute body) := by
  have heffects : Effects (¬ ·.Reaches name) (fun _ => True) (executeActs body) (execute body) := by
    refine effects_execute (fun t ht => ?_) fun n hn v hr => ?_
    · obtain ⟨st, hst, ht⟩ := List.mem_flatMap.1 ht
      exact (StatementKind.wellFormed_of_mem_targets (h st hst) ht).admitted hname
    · obtain ⟨st, hst, hn⟩ := List.mem_flatMap.1 hn
      exact hname (hr ▸ StatementKind.isIdentifier_of_mem_declared (h st hst) (hd st hst) hn)
  exact heffects.keeps

/-- When a body has run, the default export of the module is the value that the expression of its
last `export default` had. -/
theorem lookup?_defaultName {imports : Imports} {before after : List Statement} {st : Statement}
    {e : Expression} (hk : st.kind = .exportDefault e)
    (h : ∀ t ∈ before ++ st :: after, t.kind.WellFormed)
    (hd : ∀ t ∈ after, t.kind.isDefault = false) {realm : Realm} {s : Scope}
    (hleads : Leads imports (before ++ st :: after) (before ++ st :: after) ⟨realm, some .empty⟩ s) :
    ∃ s₁ s₂ v, Leads imports (before ++ st :: after) before ⟨realm, some .empty⟩ s₁ ∧
      (eval e).run.run s₁ = (.ok v, s₂) ∧ s.lookup? defaultName = some v := by
  have hafter : ∀ t ∈ after, t.kind.WellFormed :=
    fun t ht => h t (List.mem_append_right before (List.mem_cons_of_mem st ht))
  rw [Leads, run_bind_eq_ok_iff] at hleads
  obtain ⟨_, s₀, himports, hr⟩ := hleads
  rw [execute_append, run_bind_eq_ok_iff] at hr
  obtain ⟨_, s₁, hrun, hr⟩ := hr
  rw [execute_cons, hk, StatementKind.perform, bind_assoc, run_bind_eq_ok_iff] at hr
  obtain ⟨v, s₂, heval, hr⟩ := hr
  have hbefore : Leads imports (before ++ st :: after) before ⟨realm, some .empty⟩ s₁ :=
    run_bind_eq_ok_iff.2 ⟨_, s₀, himports, hrun⟩
  have heffects : Effects (fun _ => True) (fun _ => True) (acts e) (eval e) :=
    effects_eval e fun _ _ _ _ _ => trivial
  have hs₂ := heffects.isSome_locals heval hbefore.isSome_locals
  have hkept := keeps_execute not_isIdentifier_defaultName hafter hd (s₂.bind defaultName v)
  refine ⟨s₁, s₂, v, hbefore, heval, ?_⟩
  have hbind : (modify (Scope.bind · defaultName v) : Run PUnit).run.run s₂ =
      (.ok ⟨⟩, s₂.bind defaultName v) := rfl
  rw [run_bind_of_ok hbind] at hr
  obtain ⟨locals, hlocals⟩ := Option.isSome_iff_exists.1 hs₂
  have hbound : (s₂.bind defaultName v).locals = some (locals.insert defaultName v) := by
    rw [Scope.bind, hlocals]
  rw [hr, hbound, Option.map_some, Dict.get?_insert_self] at hkept
  obtain ⟨locals', hlocals', hv⟩ := Option.map_eq_some_iff.1 hkept
  rw [Scope.lookup?, hlocals', Option.bind_some, hv]

end ModuleLoader.Dialect

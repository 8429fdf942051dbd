import ModuleLoader.Proofs.Dialect.Effects
import ModuleLoader.Proofs.Results

/-! # Requests

A program requests each specifier that its statements name, once and where it is named first. Only a
specifier that a statement names can stop its body for lack of an import, and only if no namespace
is bound to it.
-/

namespace ModuleLoader

/-- A body stopped for lack of an import. -/
def LoadError.IsNotImported (e : LoadError) : Prop :=
  ∃ name specifier, e = .instantiate name (.run (.notImported specifier))

theorem LoadError.IsNotImported.kind {e : LoadError} (h : e.IsNotImported) :
    e.kind = .instantiate := by
  obtain ⟨name, specifier, rfl⟩ := h
  rfl

/-- Errors of other kinds do not tell of a missing import. -/
theorem LoadError.not_isNotImported {e : LoadError} (h : e.kind ≠ .instantiate) :
    ¬ e.IsNotImported :=
  fun he => h he.kind

namespace Dialect

/-- A statement names the module that it imports from or exports from. -/
inductive StatementKind.Names : StatementKind → String → Prop where
  | importFrom {bindings : List ImportBinding} {specifier : String} :
      Names (.importFrom bindings specifier) specifier
  | moduleFrom {bound specifier : String} : Names (.moduleFrom bound specifier) specifier
  | exportNamed {specifiers : List ExportSpecifier} {specifier : String} :
      Names (.exportNamed specifiers (some specifier)) specifier
  | exportAll {specifier : String} : Names (.exportAll specifier) specifier

theorem StatementKind.names_iff {kind : StatementKind} {specifier : String} :
    kind.Names specifier ↔ kind.source? = some specifier := by
  constructor
  · rintro (_ | _ | _ | _) <;> rfl
  · intro h
    cases kind with
    | exportNamed specifiers source =>
      cases h
      exact .exportNamed
    | importFrom | moduleFrom | exportAll =>
      cases h
      constructor
    | _ => cases h

/-! ## The requests of a program -/

namespace Program

variable {p : Program} {s : String}

/-- A statement names `s`, and no statement up to it names `t`. -/
def NamesFirst (p : Program) (s t : String) : Prop :=
  ∃ before st after, p.body = before ++ st :: after ∧ st.kind.Names s ∧
    ∀ st' ∈ before ++ [st], ¬ st'.kind.Names t

/-- A list has what the statements name, each specifier once and where it is named first. -/
structure Lists (p : Program) (specifiers : List String) : Prop where
  nodup : specifiers.Nodup
  mem_iff : ∀ s, s ∈ specifiers ↔ ∃ st ∈ p.body, st.kind.Names s
  ordered : specifiers.Pairwise p.NamesFirst

theorem mem_requests_iff : s ∈ p.requests ↔ ∃ st ∈ p.body, st.kind.Names s := by
  simp only [requests, mem_distinct, List.mem_filterMap, StatementKind.names_iff]

/-- Distinct elements stand in the order in which they appear first. -/
theorem pairwise_distinct (l : List String) : (distinct l).Pairwise fun s t =>
    ∃ before after, l = before ++ s :: after ∧ t ∉ before ++ [s] := by
  induction l with
  | nil => exact .nil
  | cons a rest ih =>
    have hne {t : String} (ht : t ∈ (distinct rest).filter (· ≠ a)) : t ≠ a := by
      simpa using (List.mem_filter.1 ht).2
    refine List.pairwise_cons.2 ⟨fun t ht => ?_, (ih.filter _).imp_of_mem fun _ ht hst => ?_⟩
    · exact ⟨[], rest, rfl, by simpa using hne ht⟩
    · obtain ⟨before, after, rfl, hbefore⟩ := hst
      exact ⟨a :: before, after, rfl, by simpa [hne ht] using hbefore⟩

/-- A specifier is requested before those that are first named after it. -/
theorem pairwise_requests (p : Program) : p.requests.Pairwise p.NamesFirst := by
  refine (pairwise_distinct _).imp fun {s t} hst => ?_
  obtain ⟨named, later, hsources, ht⟩ := hst
  obtain ⟨before, rest, hbody, rfl, hrest⟩ := List.filterMap_eq_append_iff.1 hsources
  obtain ⟨skipped, st, after, rfl, hskipped, hst, -⟩ := List.filterMap_eq_cons_iff.1 hrest
  refine ⟨before ++ skipped, st, after, by simpa using hbody, StatementKind.names_iff.2 hst, ?_⟩
  intro st' hst' hnames
  rw [StatementKind.names_iff] at hnames
  simp only [List.mem_append, List.mem_singleton] at hst'
  rcases hst' with (hst' | hst') | rfl
  · exact ht (List.mem_append_left _ (List.mem_filterMap.2 ⟨st', hst', hnames⟩))
  · simp [hskipped st' hst'] at hnames
  · rw [hst, Option.some.injEq] at hnames
    exact ht (by simp [hnames])

theorem lists_requests (p : Program) : p.Lists p.requests :=
  ⟨nodup_distinct _, fun _ => mem_requests_iff, pairwise_requests p⟩

end Program

theorem link_eq_ok_iff {name code : String} {m : Linked} :
    link name code = .ok m ↔ ∃ p, programOf name code = .ok p ∧ m = ⟨name, p.requests, p⟩ := by
  simp only [link, bind_eq_ok_iff, pure, Except.pure, Except.ok.injEq, eq_comm (b := m)]

/-! ## Missing imports -/

section Steps

variable {α β : Type} {Q : String → Prop}

/-- A step that stops for lack of an import lacks that of a specifier with some property. -/
def LacksOnly (Q : String → Prop) (m : Run α) : Prop :=
  ∀ s specifier, (m.run.run s).1 = .error (.notImported specifier) → Q specifier

namespace LacksOnly

theorem pure (a : α) : LacksOnly Q (Pure.pure a) := by
  intro s specifier he
  cases he

theorem get : LacksOnly Q (MonadState.get : Run Scope) := by
  intro s specifier he
  cases he

theorem lift {x : Except RunCause α} (h : ∀ specifier, x = .error (.notImported specifier) →
    Q specifier) : LacksOnly Q (liftExcept x) := by
  intro s specifier he
  cases x with
  | ok a => cases he
  | error cause =>
    cases he
    exact h specifier rfl

theorem bind {m : Run α} {k : α → Run β} (hm : LacksOnly Q m) (hk : ∀ a, LacksOnly Q (k a)) :
    LacksOnly Q (m >>= k) := by
  intro s specifier he
  rcases hr : m.run.run s with ⟨result, s'⟩
  cases result with
  | ok a =>
    rw [run_bind_of_ok hr] at he
    exact hk a s' specifier he
  | error cause =>
    rw [run_bind_of_error hr] at he
    cases he
    exact hm s specifier (by rw [hr])

end LacksOnly

theorem Effects.lacksOnly {w : Scope → List Act} {m : Run α} (h : Effects (fun _ => True) Q w m) :
    LacksOnly Q m :=
  h.lacking

end Steps

/-! ## Expressions -/

section Expressions

variable {Q : String → Prop}

/-- No expression stops for lack of an import. -/
theorem lacksOnly_eval (e : Expression) : LacksOnly Q (eval e) :=
  Effects.lacksOnly (effects_eval e fun _ _ _ _ _ => trivial)

theorem lacksOnly_declare (declarators : List Declarator) : LacksOnly Q (declare declarators) :=
  Effects.lacksOnly (effects_declare (fun _ _ _ _ _ => trivial) fun _ _ _ => trivial)

/-- Scripts import nothing. -/
theorem lacksOnly_complete (value : Value) (body : List Statement) :
    LacksOnly Q (complete value body) := by
  induction body generalizing value with
  | nil => exact .pure value
  | cons st rest ih =>
    rw [complete]
    cases st.kind with
    | var declarators => exact (lacksOnly_declare declarators).bind fun _ => ih value
    | expression e => exact (lacksOnly_eval e).bind fun v => ih v
    | _ => exact ih value

end Expressions

/-! ## Module bodies -/

section Modules

variable {Q : String → Prop} {imports : Imports}

theorem lacksOnly_execute (body : List Statement) : LacksOnly Q (execute body) :=
  Effects.lacksOnly (effects_execute (fun _ _ _ _ _ => trivial) fun _ _ _ => trivial)

theorem exportLocals_ne_notImported {s : Scope} {exports : Dict Value}
    {names : List (String × String)} {specifier : String} :
    exportLocals s exports names ≠ .error (.notImported specifier) := by
  induction names generalizing exports with
  | nil => exact fun h => by cases h
  | cons e rest ih =>
    rw [exportLocals]
    intro h
    rcases bind_eq_error_iff.1 h with hv | ⟨v, -, hrest⟩
    · unfold valueOf at hv
      split at hv <;> cases hv
    · exact ih hrest

theorem exportForeign_ne_notImported {ns : Namespace} {source : String} {exports : Dict Value}
    {specifiers : List ExportSpecifier} {specifier : String} :
    exportForeign ns source exports specifiers ≠ .error (.notImported specifier) := by
  induction specifiers generalizing exports with
  | nil => exact fun h => by cases h
  | cons e rest ih =>
    rw [exportForeign]
    intro h
    rcases bind_eq_error_iff.1 h with hv | ⟨v, -, hrest⟩
    · exact exportOf_ne_notImported ns source e.name specifier hv
    · exact ih hrest

section Imports

variable {body : List Statement}
  (hQ : ∀ st ∈ body, ∀ specifier, st.kind.Names specifier → imports.get? specifier = none →
    Q specifier)

include hQ

theorem lacksOnly_bindImports : LacksOnly Q (bindImports imports body) := by
  refine Effects.lacksOnly (effects_bindImports (fun _ _ _ => trivial) fun st hst specifier hs => ?_)
  exact hQ st hst specifier (StatementKind.names_iff.2 hs)

theorem collect_eq_notImported {s : Scope} {exports : Dict Value} {stars : List Namespace}
    {specifier : String}
    (h : collect s imports exports stars body = .error (.notImported specifier)) :
    Q specifier := by
  induction body generalizing exports stars with
  | nil => cases h
  | cons st rest ih =>
    obtain ⟨hst, hrest⟩ := List.forall_mem_cons.1 hQ
    have himport {source : String} (hn : st.kind.Names source)
        (h : importOf imports source = .error (.notImported specifier)) : Q specifier := by
      obtain ⟨hnone, rfl⟩ := importOf_eq_notImported_iff.1 h
      exact hst _ hn hnone
    have hlocals {exports : Dict Value} {names : List (String × String)}
        (h : (exportLocals s exports names >>= fun exports =>
          collect s imports exports stars rest) = .error (.notImported specifier)) :
        Q specifier := by
      rcases bind_eq_error_iff.1 h with h | ⟨_, -, h⟩
      · exact absurd h exportLocals_ne_notImported
      · exact ih hrest h
    rw [collect] at h
    cases hk : st.kind with
    | exportVar | exportDefault =>
      rw [hk] at h
      exact hlocals h
    | exportNamed specifiers source =>
      rw [hk] at h
      cases source with
      | none => exact hlocals h
      | some source =>
        rcases bind_eq_error_iff.1 h with h | ⟨ns, -, h⟩
        · exact himport (hk ▸ .exportNamed) h
        · rcases bind_eq_error_iff.1 h with h | ⟨_, -, h⟩
          · exact absurd h exportForeign_ne_notImported
          · exact ih hrest h
    | exportAll source =>
      rw [hk] at h
      rcases bind_eq_error_iff.1 h with h | ⟨ns, -, h⟩
      · exact himport (hk ▸ .exportAll) h
      · exact ih hrest h
    | _ =>
      rw [hk] at h
      exact ih hrest h

end Imports

/-- The body of a module lacks an import only if it names it and nothing is bound to it. -/
theorem lacksOnly_runModule (imports : Imports) (p : Program) :
    LacksOnly (fun specifier => specifier ∈ p.requests ∧ imports.get? specifier = none)
      (runModule imports p) := by
  have hQ : ∀ st ∈ p.body, ∀ specifier, st.kind.Names specifier →
      imports.get? specifier = none →
      specifier ∈ p.requests ∧ imports.get? specifier = none :=
    fun st hst specifier hn hnone => ⟨Program.mem_requests_iff.2 ⟨st, hst, hn⟩, hnone⟩
  exact (lacksOnly_bindImports hQ).bind fun _ => (lacksOnly_execute p.body).bind fun _ =>
    LacksOnly.get.bind fun s => LacksOnly.bind
      (.lift fun specifier h => collect_eq_notImported hQ h) fun _ => .pure _

end Modules

/-! ## Linked modules and scripts -/

/-- A module that stops for lack of an import lacks that of one of its requests. -/
theorem Linked.exists_unbound {m : Linked} {imports : Imports} {realm : Realm}
    {name specifier : String}
    (h : (m.run imports realm).1 = .error (.instantiate name (.run (.notImported specifier)))) :
    specifier ∈ m.program.requests ∧ imports.get? specifier = none := by
  have hlacks := lacksOnly_runModule imports m.program ⟨realm, some .empty⟩ specifier
  rw [run] at h
  rcases hr : (runModule imports m.program).run.run ⟨realm, some .empty⟩ with ⟨_ | exports, s⟩
  · rw [hr] at h hlacks
    cases h
    exact hlacks rfl
  · rw [hr] at h
    cases h

theorem programOf_kind {name code : String} {e : LoadError} (h : programOf name code = .error e) :
    e.kind = .compile := by
  unfold programOf at h
  simp only at h
  split at h <;> cases h
  rfl

theorem scriptOf_kind {name code : String} {e : LoadError} (h : scriptOf name code = .error e) :
    e.kind = .compile := by
  rcases bind_eq_error_iff.1 h with h | ⟨p, -, h⟩
  · exact programOf_kind h
  · split at h <;> cases h
    rfl

theorem link_kind {name code : String} {e : LoadError} (h : link name code = .error e) :
    e.kind = .compile := by
  rcases bind_eq_error_iff.1 h with h | ⟨p, -, h⟩
  · exact programOf_kind h
  · cases h

/-- A script never stops for lack of an import. -/
theorem runScript_not_isNotImported {name code : String} {realm : Realm} {e : LoadError}
    (h : (runScript name code realm).1 = .error e) : ¬ e.IsNotImported := by
  rw [runScript] at h
  split at h
  · rename_i e' he
    cases h
    exact LoadError.not_isNotImported (by simp [scriptOf_kind he])
  · rename_i p _
    rintro ⟨n, specifier, rfl⟩
    have hlacks := lacksOnly_complete (Q := fun _ => False) .undefined p.body ⟨realm, none⟩
      specifier
    rcases hr : (complete .undefined p.body).run.run ⟨realm, none⟩ with ⟨result, s⟩
    rw [hr] at h hlacks
    cases result with
    | ok v => cases h
    | error cause =>
      cases h
      exact hlacks rfl

end Dialect

end ModuleLoader

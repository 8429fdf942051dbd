import ModuleLoader.Proofs.Dialect.Acts

/-! # Effects of a unit

What the steps of a running unit do is settled here once: the acts that they make are all that changes
the bindings, and of the imports only the missing ones can stop them. What a unit keeps, what it
assigns to and what it lacks follows for each step from its effects.
-/

namespace ModuleLoader.Dialect

/-! ## Effects of a step -/

section Steps

variable {α β : Type}

/-- A step changes the bindings by some acts and in no other way. All of them are admitted, and if the
step stops for lack of an import, it may lack that one. -/
structure Effects (admits : Act → Prop) (lacks : String → Prop) (w : Scope → List Act)
    (m : Run α) : Prop where
  bindings : ∀ s, (m.run.run s).2.bindings = s.bindings.actAll (w s)
  admitted : ∀ s, ∀ a ∈ w s, admits a
  lacking : ∀ s specifier, (m.run.run s).1 = .error (.notImported specifier) → lacks specifier

namespace Effects

variable {admits : Act → Prop} {lacks : String → Prop}

/-- A step that leaves the bindings as they are and does not stop. -/
theorem of_ok {m : Run α} (h : ∀ s, ∃ a s', m.run.run s = (.ok a, s') ∧ s'.bindings = s.bindings) :
    Effects admits lacks (fun _ => []) m := by
  refine ⟨fun s => ?_, fun _ _ hmem => absurd hmem List.not_mem_nil, fun s specifier hr => ?_⟩
  · obtain ⟨a, s', hrun, hs⟩ := h s
    rw [hrun]
    exact hs
  · obtain ⟨a, s', hrun, -⟩ := h s
    rw [hrun] at hr
    cases hr

theorem pure (a : α) : Effects admits lacks (fun _ => []) (Pure.pure a) :=
  of_ok fun s => ⟨a, s, rfl, rfl⟩

theorem get : Effects admits lacks (fun _ => []) (MonadState.get : Run Scope) :=
  of_ok fun s => ⟨s, s, rfl, rfl⟩

theorem lift {x : Except RunCause α}
    (h : ∀ specifier, x = .error (.notImported specifier) → lacks specifier) :
    Effects admits lacks (fun _ => []) (liftExcept x) := by
  cases x with
  | ok a => exact pure a
  | error cause =>
    refine ⟨fun _ => rfl, fun _ _ hmem => absurd hmem List.not_mem_nil, fun _ specifier hr => ?_⟩
    cases hr
    exact h specifier rfl

theorem throw {cause : RunCause} (h : ∀ specifier, cause ≠ .notImported specifier) :
    Effects admits lacks (fun _ => []) (MonadExcept.throw cause : Run α) := by
  have hlift : Effects admits lacks (fun _ => []) (liftExcept (.error cause : Except RunCause α)) :=
    lift fun specifier he => absurd (Except.error.inj he) (h specifier)
  exact hlift

/-- A step that makes one act. -/
theorem changes {a : Act} {f : Scope → Scope} (ha : admits a)
    (h : ∀ s, (f s).bindings = s.bindings.act a) :
    Effects admits lacks (fun _ => [a]) (modify f : Run PUnit) := by
  refine ⟨h, fun _ _ hmem => ?_, fun _ _ hr => by cases hr⟩
  rw [List.mem_singleton.1 hmem]
  exact ha

theorem binds {name : String} {v : Value} (h : admits (.bind name v)) :
    Effects admits lacks (fun _ => [.bind name v]) (modify (Scope.bind · name v) : Run PUnit) :=
  changes h fun s => s.bindings_bind name v

theorem bind {m : Run α} {k : α → Run β} {w : Scope → List Act} {wk : α → Scope → List Act}
    (hm : Effects admits lacks w m) (hk : ∀ a, Effects admits lacks (wk a) (k a)) :
    Effects admits lacks (actsThen m w wk) (m >>= k) := by
  have hrun (s : Scope) : ((m >>= k).run.run s).2.bindings = s.bindings.actAll (actsThen m w wk s) ∧
      (∀ a ∈ actsThen m w wk s, admits a) ∧
      ∀ specifier, ((m >>= k).run.run s).1 = .error (.notImported specifier) → lacks specifier := by
    have hs := hm.bindings s
    have hl := hm.lacking s
    rw [actsThen]
    rcases hr : m.run.run s with ⟨result, s'⟩
    rw [hr] at hs hl
    cases result with
    | ok a =>
      rw [run_bind_of_ok hr, (hk a).bindings s', hs, Bindings.actAll_append]
      exact ⟨rfl, List.forall_mem_append.2 ⟨hm.admitted s, (hk a).admitted s'⟩, (hk a).lacking s'⟩
    | error cause =>
      rw [run_bind_of_error hr, hs, List.append_nil]
      exact ⟨rfl, hm.admitted s, fun specifier he => hl specifier (by cases he; rfl)⟩
  exact ⟨fun s => (hrun s).1, fun s => (hrun s).2.1, fun s => (hrun s).2.2⟩

/-- What goes on without acts adds none. -/
theorem bind_nil {m : Run α} {k : α → Run β} {w : Scope → List Act}
    (hm : Effects admits lacks w m) (hk : ∀ a, Effects admits lacks (fun _ => []) (k a)) :
    Effects admits lacks w (m >>= k) := by
  have hacts : actsThen m w (fun _ _ => []) = w := by
    funext s
    rw [actsThen]
    split <;> exact List.append_nil _
  have hboth := hm.bind hk
  rwa [hacts] at hboth

end Effects

end Steps

/-! ## Effects of an expression -/

theorem property_ne_notImported (v : Value) (name specifier : String) :
    property v name ≠ .error (.notImported specifier) := by
  intro h
  unfold property at h
  split at h <;> cases h

theorem element_ne_notImported (v key : Value) (specifier : String) :
    element v key ≠ .error (.notImported specifier) := by
  unfold element
  split
  · exact fun h => by cases h
  · exact property_ne_notImported v _ specifier

/-- Whatever is assigned to a target, the act is admitted. -/
def Expression.Admitted (target : Expression) (admits : Act → Prop) : Prop :=
  ∀ name v, target.Designates name → admits (.assign target name v)

section Expressions

variable {admits : Act → Prop} {lacks : String → Prop}

mutual

theorem effects_eval (e : Expression) (h : ∀ t ∈ e.targets, t.Admitted admits) :
    Effects admits lacks (acts e) (eval e) := by
  cases e with
  | identifier name =>
    rw [eval, acts]
    refine Effects.get.bind_nil fun s => ?_
    cases s.lookup? name with
    | some v => exact .pure v
    | none => exact .throw fun _ hc => by cases hc
  | self =>
    rw [eval, acts]
    exact .of_ok fun s => ⟨_, _, rfl, rfl⟩
  | array elements =>
    rw [eval, acts]
    exact (effects_evalAll elements h).bind_nil fun vs => .pure _
  | member object property =>
    rw [acts]
    by_cases ho : object = .self
    · subst ho
      rw [eval, acts]
      exact Effects.get.bind_nil fun s => .pure _
    · rw [eval_member ho]
      exact (effects_eval object h).bind_nil fun v =>
        .lift fun _ he => absurd he (property_ne_notImported v property _)
  | index object key =>
    obtain ⟨hk, hobject⟩ := List.forall_mem_append.1 h
    rw [acts]
    by_cases ho : object = .self
    · subst ho
      rw [eval, acts]
      exact (effects_eval key hk).bind fun k => Effects.get.bind_nil fun s => .pure _
    · rw [eval_index ho]
      exact (effects_eval key hk).bind fun k => (effects_eval object hobject).bind_nil fun v =>
        .lift fun _ he => absurd he (element_ne_notImported v k _)
  | negate operand =>
    rw [eval, acts]
    exact (effects_eval operand h).bind_nil fun v => .pure _
  | binary op left right =>
    obtain ⟨hl, hr⟩ := List.forall_mem_append.1 h
    rw [eval, acts]
    exact (effects_eval left hl).bind fun l => (effects_eval right hr).bind_nil fun r => .pure _
  | assign adding target value =>
    obtain ⟨ht, hrest⟩ := List.forall_mem_cons.1 h
    obtain ⟨hvalue, htarget⟩ := List.forall_mem_append.1 hrest
    have hassigned (v : Value) :
        Effects admits lacks (actsTo target v) (assignTo target v >>= fun _ => pure v) :=
      (effects_assignTo target ht htarget v).bind_nil fun _ => .pure v
    cases adding with
    | true =>
      rw [eval, acts]
      refine (effects_eval value hvalue).bind fun v => ?_
      rw [if_pos rfl]
      refine (effects_eval target htarget).bind fun current => ?_
      rw [pure_bind]
      exact hassigned _
    | false =>
      rw [eval, acts]
      exact (effects_eval value hvalue).bind hassigned
  | increment target =>
    obtain ⟨ht, htarget⟩ := List.forall_mem_cons.1 h
    rw [eval, acts]
    exact (effects_eval target htarget).bind fun old =>
      (effects_assignTo target ht htarget _).bind_nil fun _ => .pure _
  | _ =>
    rw [eval, acts]
    exact .pure _

theorem effects_evalAll (es : List Expression)
    (h : ∀ t ∈ Expression.targetsAll es, t.Admitted admits) :
    Effects admits lacks (actsAll es) (evalAll es) := by
  cases es with
  | nil => exact .pure []
  | cons e rest =>
    obtain ⟨he, hrest⟩ := List.forall_mem_append.1 h
    rw [evalAll, actsAll]
    exact (effects_eval e he).bind fun v => (effects_evalAll rest hrest).bind_nil fun vs => .pure _

theorem effects_assignTo (target : Expression) (ht : target.Admitted admits)
    (h : ∀ t ∈ target.targets, t.Admitted admits) (v : Value) :
    Effects admits lacks (actsTo target v) (assignTo target v) := by
  have hthrow : Effects admits lacks (fun _ => []) (throw .immutableTarget : Run Unit) :=
    .throw fun _ hc => by cases hc
  cases target with
  | identifier name =>
    rw [assignTo, actsTo]
    exact .changes (ht name v (.identifier name)) fun s => s.bindings_store_eq_act name v
  | member object property =>
    cases object with
    | self =>
      rw [assignTo, actsTo]
      exact .changes (ht property v (.member property)) fun _ => rfl
    | _ => exact hthrow
  | index object key =>
    obtain ⟨hk, -⟩ := List.forall_mem_append.1 h
    cases object with
    | self =>
      rw [assignTo, actsTo]
      exact (effects_eval key hk).bind fun k =>
        .changes (ht k.text v (.index key k.text)) fun _ => rfl
    | _ => exact hthrow
  | _ => exact hthrow

end

end Expressions

/-! ## Effects of a module -/

theorem exportOf_ne_notImported (ns : Namespace) (specifier name other : String) :
    exportOf ns specifier name ≠ .error (.notImported other) := by
  intro h
  unfold exportOf at h
  split at h <;> cases h

theorem importOf_eq_notImported_iff {imports : Imports} {specifier other : String} :
    importOf imports specifier = .error (.notImported other) ↔
      imports.get? specifier = none ∧ other = specifier := by
  unfold importOf
  split
  · rename_i ns h
    simp [h]
  · rename_i h
    simp [h, eq_comm]

section Modules

variable {admits : Act → Prop} {lacks : String → Prop}

theorem effects_declare {declarators : List Declarator}
    (ht : ∀ t ∈ targetsOf declarators, t.Admitted admits)
    (hb : ∀ n ∈ declarators.map (·.name), ∀ v, admits (.bind n v)) :
    Effects admits lacks (declareActs declarators) (declare declarators) := by
  induction declarators with
  | nil => exact .pure ()
  | cons d rest ih =>
    rw [targetsOf, List.flatMap_cons, List.forall_mem_append] at ht
    rw [List.map_cons, List.forall_mem_cons] at hb
    obtain ⟨hd, hrest⟩ := ht
    obtain ⟨hname, hnames⟩ := hb
    have hbound (v : Value) := (Effects.binds (hname v)).bind fun _ => ih hrest hnames
    rw [declare, declareActs]
    cases hv : d.value with
    | none => exact hbound .undefined
    | some e =>
      rw [hv] at hd
      exact (effects_eval e hd).bind hbound

theorem effects_bindAll (ns : Namespace) (specifier : String) {bindings : List ImportBinding}
    (hb : ∀ n ∈ bindings.map ImportBinding.bound, ∀ v, admits (.bind n v)) :
    Effects admits lacks (bindAllActs ns specifier bindings) (bindAll ns specifier bindings) := by
  induction bindings with
  | nil => exact .pure ()
  | cons b rest ih =>
    obtain ⟨hname, hnames⟩ := List.forall_mem_cons.1 hb
    cases b with
    | named imported bound =>
      refine Effects.bind (.lift fun other he => ?_) fun v =>
        (Effects.binds (hname v)).bind fun _ => ih hnames
      exact absurd he (exportOf_ne_notImported ns specifier imported other)
    | whole bound => exact (Effects.binds (hname _)).bind fun _ => ih hnames

/-- The imports of a body are bound, unless one is missing. -/
theorem effects_bindImports {imports : Imports} {body : List Statement}
    (hb : ∀ n ∈ body.flatMap (·.kind.imported), ∀ v, admits (.bind n v))
    (hl : ∀ st ∈ body, ∀ specifier, st.kind.source? = some specifier →
      imports.get? specifier = none → lacks specifier) :
    Effects admits lacks (importActs imports body) (bindImports imports body) := by
  induction body with
  | nil => exact .pure ()
  | cons st rest ih =>
    rw [List.flatMap_cons, List.forall_mem_append] at hb
    obtain ⟨hst, hrest⟩ := hb
    obtain ⟨hlst, hlrest⟩ := List.forall_mem_cons.1 hl
    have himport {specifier : String} (hs : st.kind.source? = some specifier) :
        Effects admits lacks (fun _ => []) (liftExcept (importOf imports specifier)) := by
      refine .lift fun other he => ?_
      obtain ⟨hnone, rfl⟩ := importOf_eq_notImported_iff.1 he
      exact hlst _ hs hnone
    rw [bindImports, importActs]
    cases hk : st.kind with
    | importFrom bindings specifier =>
      rw [hk] at hst himport
      exact (himport rfl).bind fun ns => (effects_bindAll ns specifier hst).bind fun _ =>
        ih hrest hlrest
    | moduleFrom bound specifier =>
      rw [hk] at hst himport
      exact (himport rfl).bind fun ns =>
        (Effects.binds (hst bound List.mem_cons_self _)).bind fun _ => ih hrest hlrest
    | _ => exact ih hrest hlrest

theorem effects_perform {kind : StatementKind} (ht : ∀ t ∈ kind.targets, t.Admitted admits)
    (hb : ∀ n ∈ kind.declared, ∀ v, admits (.bind n v)) :
    Effects admits lacks kind.acts kind.perform := by
  cases kind with
  | var declarators | exportVar declarators => exact effects_declare ht hb
  | expression e =>
    rw [StatementKind.perform, discard_eq]
    exact (effects_eval e ht).bind_nil fun _ => .pure ()
  | exportDefault e =>
    exact (effects_eval e ht).bind fun v => .binds (hb defaultName List.mem_cons_self v)
  | _ => exact .pure ()

/-- The statements of a body make their acts one after the other. -/
theorem effects_execute {body : List Statement}
    (ht : ∀ t ∈ body.flatMap (·.kind.targets), t.Admitted admits)
    (hb : ∀ n ∈ body.flatMap (·.kind.declared), ∀ v, admits (.bind n v)) :
    Effects admits lacks (executeActs body) (execute body) := by
  induction body with
  | nil => exact .pure ()
  | cons st rest ih =>
    obtain ⟨htst, htrest⟩ := List.forall_mem_append.1 ht
    obtain ⟨hbst, hbrest⟩ := List.forall_mem_append.1 hb
    rw [execute_cons]
    exact (effects_perform htst hbst).bind fun _ => ih htrest hbrest

end Modules

end ModuleLoader.Dialect

import ModuleLoader.Proofs.Dialect.Renumbering

/-! # Local names

A module that uses its names only where they are bound, and no `this`, neither reads nor writes the
global bindings. What its body comes to is then settled by the namespaces that it imports, up to the
numbers of the instances.
-/

namespace ModuleLoader.Dialect

open Value

/-! ## Names that are bound where they are used -/

section Check

variable (globals : Dict Value)

/-- A name that a unit can read without a global binding: it is bound, or it is `undefined`. -/
def readable (bound : List String) (name : String) : Bool :=
  bound.contains name || (name == "undefined" && !globals.contains name)

/-- An expression that is no name, or one that is bound. -/
def Expression.isBound (bound : List String) : Expression → Bool
  | identifier name => bound.contains name
  | _ => true

mutual

/-- An expression reads and assigns bound names only. -/
def Expression.isLocal (bound : List String) : Expression → Bool
  | number _ | string _ | boolean _ | null => true
  | identifier name => readable globals bound name
  | self => false
  | array elements => areLocal bound elements
  | member object _ => object.isLocal bound
  | index object key => key.isLocal bound && object.isLocal bound
  | negate operand => operand.isLocal bound
  | binary _ left right => left.isLocal bound && right.isLocal bound
  | assign _ target value =>
    target.isBound bound && target.isLocal bound && value.isLocal bound
  | increment target => target.isBound bound && target.isLocal bound

/-- Expressions read and assign bound names only. -/
def Expression.areLocal (bound : List String) : List Expression → Bool
  | [] => true
  | e :: rest => e.isLocal bound && Expression.areLocal bound rest

end

/-- Each value of a `var` statement uses names that are bound before it. -/
def declaresLocally : List String → List Declarator → Bool
  | _, [] => true
  | bound, d :: rest =>
    d.value.all (·.isLocal globals bound) && declaresLocally (d.name :: bound) rest

/-- The names that imports bind. -/
def ImportBinding.bound : ImportBinding → String
  | named _ bound | whole bound => bound

/-- The names that a statement binds before the body runs. -/
def StatementKind.imported : StatementKind → List String
  | importFrom bindings _ => bindings.map ImportBinding.bound
  | moduleFrom bound _ => [bound]
  | _ => []

/-- The names that a statement binds when it runs. -/
def StatementKind.declared : StatementKind → List String
  | var declarators | exportVar declarators => declarators.map (·.name)
  | exportDefault _ => [defaultName]
  | _ => []

/-- A statement uses bound names only. -/
def StatementKind.isLocal (bound : List String) : StatementKind → Bool
  | var declarators | exportVar declarators => declaresLocally globals bound declarators
  | expression e | exportDefault e => e.isLocal globals bound
  | _ => true

/-- Each statement uses names that are bound before it runs. -/
def runsLocally : List String → List Statement → Bool
  | _, [] => true
  | bound, s :: rest => s.kind.isLocal globals bound && runsLocally (s.kind.declared ++ bound) rest

/-- A statement exports bound names only. -/
def StatementKind.exportsLocally (bound : List String) : StatementKind → Bool
  | exportNamed specifiers none => specifiers.all fun e => readable globals bound e.name
  | _ => true

/-- The names that are bound when a body has run. -/
def boundBy (body : List Statement) : List String :=
  body.flatMap (·.kind.declared) ++ body.flatMap (·.kind.imported)

/-- A module uses and exports its names only where they are bound, and does not use `this`. -/
def Program.isLocal (p : Program) : Bool :=
  runsLocally globals (p.body.flatMap (·.kind.imported)) p.body &&
    p.body.all (·.kind.exportsLocally globals (boundBy p.body))

end Check

/-! ## Steps in two realms -/

section Steps

variable {α β : Type}

theorem run_bind_of_ok {m : Run α} {k : α → Run β} {s s' : Scope} {a : α}
    (h : m.run.run s = (.ok a, s')) : (m >>= k).run.run s = (k a).run.run s' := by
  rw [ExceptT.run_bind, StateT.run_bind, h]
  rfl

theorem run_bind_of_error {m : Run α} {k : α → Run β} {s s' : Scope} {cause : RunCause}
    (h : m.run.run s = (.error cause, s')) : (m >>= k).run.run s = (.error cause, s') := by
  rw [ExceptT.run_bind, StateT.run_bind, h]
  rfl

/-- When two steps succeed one after the other, the first did, and the second goes on from there. -/
theorem run_bind_eq_ok_iff {m : Run α} {k : α → Run β} {s s' : Scope} {b : β} :
    (m >>= k).run.run s = (.ok b, s') ↔
      ∃ a s₁, m.run.run s = (.ok a, s₁) ∧ (k a).run.run s₁ = (.ok b, s') := by
  rcases hm : m.run.run s with ⟨result, s₁⟩
  cases result with
  | ok a =>
    rw [run_bind_of_ok hm]
    constructor
    · intro h
      exact ⟨a, s₁, rfl, h⟩
    · rintro ⟨a, s₁, h, hk⟩
      cases h
      exact hk
  | error cause =>
    rw [run_bind_of_error hm]
    constructor
    · intro h
      cases h
    · rintro ⟨a, s₁, h, -⟩
      cases h

theorem run_get (s : Scope) : (get : Run Scope).run.run s = (.ok s, s) := rfl

/-- All names are bound. -/
def Binds (names : List String) (locals : Dict Value) : Prop :=
  ∀ name ∈ names, locals.contains name = true

/-- The scope of a module in a realm of some number of instances. -/
def moduleScope (globals : Dict Value) (n : Nat) (locals : Dict Value) : Scope :=
  ⟨⟨globals, n⟩, some locals⟩

/-- Two steps leave the realm alone. With renumbered bindings the second does what the first does
without, and what is bound before and after the first is bound for both. -/
def Mirrors (f : Nat → Nat) (globals : Dict Value) (bound bound' : List String) (g : α → β)
    (m : Run α) (m' : Run β) : Prop :=
  ∀ (locals : Dict Value) (n n' : Nat), Binds bound locals →
    ∃ (result : Except RunCause α) (locals' : Dict Value),
      m.run.run (moduleScope globals n locals) = (result, moduleScope globals n locals') ∧
      m'.run.run (moduleScope globals n' (locals.map (renumber f))) =
        (result.map g, moduleScope globals n' (locals'.map (renumber f))) ∧
      (result.isOk = true → Binds bound' locals')

end Steps

section Mirrors

variable {f : Nat → Nat} {globals : Dict Value} {α α' β β' : Type} {b b' b'' : List String}
  {g : α → α'} {g' : β → β'} {m : Run α} {m' : Run α'}

theorem Mirrors.bind {k : α → Run β} {k' : α' → Run β'} (h : Mirrors f globals b b' g m m')
    (hk : ∀ a, Mirrors f globals b' b'' g' (k a) (k' (g a))) :
    Mirrors f globals b b'' g' (m >>= k) (m' >>= k') := by
  intro locals n n' hb
  obtain ⟨result, locals', hrun, hrun', hb'⟩ := h locals n n' hb
  cases result with
  | error cause =>
    exact ⟨.error cause, locals', run_bind_of_error hrun, run_bind_of_error hrun',
      fun h => absurd h Bool.false_ne_true⟩
  | ok a =>
    obtain ⟨result, locals'', hcont, hcont', hb''⟩ := hk a locals' n n' (hb' rfl)
    exact ⟨result, locals'', (run_bind_of_ok hrun).trans hcont,
      (run_bind_of_ok hrun').trans hcont', hb''⟩

theorem mirrors_pure {a : α} {a' : α'} (h : a' = g a) :
    Mirrors f globals b b g (pure a) (pure a') := by
  intro locals n n' hb
  exact ⟨.ok a, locals, rfl, by rw [h]; rfl, fun _ => hb⟩

theorem mirrors_throw (cause : RunCause) :
    Mirrors f globals b b' g (throw cause) (throw cause) := by
  intro locals n n' _
  exact ⟨.error cause, locals, rfl, rfl, fun h => absurd h Bool.false_ne_true⟩

theorem mirrors_lift {x : Except RunCause α} {x' : Except RunCause α'} (h : x' = x.map g) :
    Mirrors f globals b b g (liftExcept x) (liftExcept x') := by
  subst h
  cases x with
  | ok a => exact mirrors_pure rfl
  | error cause => exact mirrors_throw cause

/-- A scope that changes its own bindings only. -/
theorem mirrors_modify {change change' : Scope → Scope} (set : Dict Value → Dict Value)
    (h : ∀ (locals : Dict Value) n, Binds b locals →
      change (moduleScope globals n locals) = moduleScope globals n (set locals) ∧
      change' (moduleScope globals n (locals.map (renumber f))) =
        moduleScope globals n ((set locals).map (renumber f)) ∧ Binds b' (set locals)) :
    Mirrors f globals b b' id (modify change) (modify change') := by
  intro locals n n' hb
  obtain ⟨hc, -, hb'⟩ := h locals n hb
  obtain ⟨-, hc', -⟩ := h locals n' hb
  refine ⟨.ok (), set locals, ?_, ?_, fun _ => hb'⟩
  · rw [← hc]
    rfl
  · rw [← hc']
    rfl

theorem Binds.insert {locals : Dict Value} (h : Binds b locals) (name : String) (v : Value) :
    Binds (name :: b) (locals.insert name v) := by
  intro other hm
  rw [Dict.contains, Dict.get?_insert]
  split
  · rfl
  · exact h other ((List.mem_cons.1 hm).resolve_left ‹_›)

theorem Binds.mono {locals : Dict Value} (h : Binds b locals) (hs : b' ⊆ b) : Binds b' locals :=
  fun name hm => h name (hs hm)

theorem Mirrors.mono (h : Mirrors f globals b b' g m m') (hs : b'' ⊆ b') :
    Mirrors f globals b b'' g m m' := by
  intro locals n n' hb
  obtain ⟨result, locals', hrun, hrun', hb'⟩ := h locals n n' hb
  exact ⟨result, locals', hrun, hrun', fun hok => (hb' hok).mono hs⟩

theorem mirrors_bind (name : String) (v : Value) :
    Mirrors f globals b (name :: b) id (modify (·.bind name v))
      (modify (·.bind name (v.renumber f))) := by
  apply mirrors_modify (·.insert name v)
  intro locals n hb
  refine ⟨rfl, ?_, hb.insert name v⟩
  rw [Dict.map_insert]
  rfl

theorem mirrors_store {name : String} (hn : b.contains name = true) (v : Value) :
    Mirrors f globals b b id (modify (·.store name v)) (modify (·.store name (v.renumber f))) := by
  apply mirrors_modify (·.insert name v)
  intro locals n hb
  have hc : locals.contains name = true := hb name (by simpa using hn)
  refine ⟨?_, ?_, (hb.insert name v).mono fun _ => List.mem_cons_of_mem _⟩
  · simp only [moduleScope, Scope.store, hc, if_true]
  · simp only [moduleScope, Scope.store, Dict.contains_map, hc, if_true, Dict.map_insert]

end Mirrors

/-! ## Expressions -/

section Expressions

variable {f : Nat → Nat} {globals : Dict Value} {b : List String}

theorem lookup?_renumber {name : String} (h : readable globals b name = true) {locals : Dict Value}
    (hb : Binds b locals) (n n' : Nat) : ∃ v,
      (moduleScope globals n locals).lookup? name = some v ∧
      (moduleScope globals n' (locals.map (renumber f))).lookup? name = some (v.renumber f) := by
  simp only [moduleScope, Scope.lookup?, Option.bind_some, Dict.get?_map]
  cases hl : locals.get? name with
  | some v => exact ⟨v, rfl, rfl⟩
  | none =>
    have hunbound : b.contains name = false := by
      rw [Bool.eq_false_iff]
      intro hc
      have hc := hb name (by simpa using hc)
      simp [Dict.contains, hl] at hc
    simp only [readable, hunbound, Bool.false_or, Bool.and_eq_true, beq_iff_eq, Bool.not_eq_true',
      Dict.contains, Option.isSome_eq_false_iff, Option.isNone_iff_eq_none] at h
    obtain ⟨rfl, hg⟩ := h
    rw [hg]
    exact ⟨.undefined, rfl, rfl⟩

theorem assignTo_mirrors {target : Expression} (hb : target.isBound b = true)
    (hl : target.isLocal globals b = true) (v : Value) :
    Mirrors f globals b b id (assignTo target v) (assignTo target (v.renumber f)) := by
  cases target with
  | identifier name => exact mirrors_store hb v
  | member object name =>
    cases object <;> first | exact mirrors_throw _ | exact absurd hl Bool.false_ne_true
  | index object key =>
    cases object <;> first | exact mirrors_throw _ | simp [Expression.isLocal] at hl
  | _ => exact mirrors_throw _

theorem eval_identifier {name : String} {s : Scope} {v : Value} (h : s.lookup? name = some v) :
    (eval (.identifier name)).run.run s = (.ok v, s) := by
  rw [eval, run_bind_of_ok (run_get s), h]
  rfl

theorem ne_self_of_isLocal {e : Expression} (h : e.isLocal globals b = true) : e ≠ .self := by
  rintro rfl
  exact absurd h Bool.false_ne_true

theorem eval_member {object : Expression} (h : object ≠ .self) (name : String) :
    eval (.member object name) = eval object >>= fun v => liftExcept (property v name) := by
  rw [eval]
  exact h

theorem eval_index {object : Expression} (h : object ≠ .self) (key : Expression) :
    eval (.index object key) =
      eval key >>= fun k => eval object >>= fun v => liftExcept (element v k) := by
  rw [eval]
  exact h

mutual

/-- A local expression has the renumbered value where the bindings are renumbered. -/
theorem eval_mirrors (e : Expression) (h : e.isLocal globals b = true) :
    Mirrors f globals b b (renumber f) (eval e) (eval e) := by
  cases e with
  | identifier name =>
    intro locals n n' hb
    obtain ⟨v, hv, hv'⟩ := lookup?_renumber h hb n n'
    exact ⟨.ok v, locals, eval_identifier hv, eval_identifier hv', fun _ => hb⟩
  | self => exact absurd h Bool.false_ne_true
  | array elements =>
    rw [eval]
    exact (evalAll_mirrors elements h).bind fun vs => mirrors_pure rfl
  | member object name =>
    have ho : object.isLocal globals b = true := h
    rw [eval_member (ne_self_of_isLocal ho)]
    exact (eval_mirrors object ho).bind fun v => mirrors_lift (property_renumber f v name)
  | index object key =>
    simp only [Expression.isLocal, Bool.and_eq_true] at h
    rw [eval_index (ne_self_of_isLocal h.2)]
    refine (eval_mirrors key h.1).bind fun k => (eval_mirrors object h.2).bind fun v => ?_
    exact mirrors_lift (element_renumber f v k)
  | negate operand =>
    rw [eval]
    refine (eval_mirrors operand h).bind fun v => mirrors_pure ?_
    rw [toNumber_renumber, renumber]
  | binary op left right =>
    simp only [Expression.isLocal, Bool.and_eq_true] at h
    rw [eval]
    refine (eval_mirrors left h.1).bind fun l => (eval_mirrors right h.2).bind fun r => ?_
    exact mirrors_pure (operate_renumber f op l r)
  | assign adding target value =>
    simp only [Expression.isLocal, Bool.and_eq_true] at h
    obtain ⟨⟨hb, ht⟩, hv⟩ := h
    rw [eval]
    refine (eval_mirrors value hv).bind fun v => ?_
    have hassigned (w : Value) : Mirrors f globals b b (renumber f)
        (assignTo target w >>= fun _ => pure w)
        (assignTo target (w.renumber f) >>= fun _ => pure (w.renumber f)) :=
      (assignTo_mirrors hb ht w).bind fun _ => mirrors_pure rfl
    cases adding with
    | true =>
      refine (eval_mirrors target ht).bind fun w => ?_
      exact (mirrors_pure (operate_renumber f .add w v)).bind hassigned
    | false => exact (mirrors_pure rfl).bind hassigned
  | increment target =>
    simp only [Expression.isLocal, Bool.and_eq_true] at h
    rw [eval]
    refine (eval_mirrors target h.2).bind fun v => ?_
    rw [toNumber_renumber]
    exact (assignTo_mirrors h.1 h.2 _).bind fun _ => mirrors_pure rfl
  | _ =>
    rw [eval]
    exact mirrors_pure rfl

theorem evalAll_mirrors (es : List Expression) (h : Expression.areLocal globals b es = true) :
    Mirrors f globals b b (renumberAll f) (evalAll es) (evalAll es) := by
  cases es with
  | nil => exact mirrors_pure rfl
  | cons e rest =>
    simp only [Expression.areLocal, Bool.and_eq_true] at h
    rw [evalAll]
    refine (eval_mirrors e h.1).bind fun v => (evalAll_mirrors rest h.2).bind fun vs => ?_
    exact mirrors_pure rfl

end

end Expressions

/-! ## Bodies -/

section Bodies

variable {f : Nat → Nat} {globals : Dict Value} {b : List String}

/-- Names that one part of a body binds after another. -/
theorem Mirrors.append {m m' k k' : Run Unit} {x y : List String}
    (h : Mirrors f globals b (x ++ b) id m m')
    (hk : Mirrors f globals (x ++ b) (y ++ (x ++ b)) id k k') :
    Mirrors f globals b (x ++ y ++ b) id (m >>= fun _ => k) (m' >>= fun _ => k') := by
  refine (h.bind fun _ => hk).mono ?_
  intro name hn
  simp only [List.mem_append] at hn ⊢
  rcases hn with (hn | hn) | hn <;> simp [hn]

theorem discard_eq {α : Type} (m : Run α) : discard m = m >>= fun _ => pure () := by
  rw [Functor.discard, LawfulFunctor.map_const, Function.comp_apply, map_eq_pure_bind]

theorem declare_mirrors {declarators : List Declarator}
    (h : declaresLocally globals b declarators = true) :
    Mirrors f globals b (declarators.map (·.name) ++ b) id (declare declarators)
      (declare declarators) := by
  induction declarators generalizing b with
  | nil => exact mirrors_pure rfl
  | cons d rest ih =>
    simp only [declaresLocally, Bool.and_eq_true] at h
    have hbound (v : Value) : Mirrors f globals b ((d :: rest).map (·.name) ++ b) id
        (modify (·.bind d.name v) >>= fun _ => declare rest)
        (modify (·.bind d.name (v.renumber f)) >>= fun _ => declare rest) :=
      .append (x := [d.name]) (mirrors_bind d.name v) (ih h.2)
    rw [declare]
    cases hd : d.value with
    | none =>
      have hpure : Mirrors f globals b b (renumber f) (pure .undefined) (pure .undefined) :=
        mirrors_pure rfl
      exact hpure.bind hbound
    | some e =>
      rw [hd, Option.all_some] at h
      exact (eval_mirrors e h.1).bind hbound

theorem bindAll_mirrors (ns : Namespace) (specifier : String) (bindings : List ImportBinding) :
    Mirrors f globals b (bindings.map ImportBinding.bound ++ b) id (bindAll ns specifier bindings)
      (bindAll (ns.renumber f) specifier bindings) := by
  induction bindings generalizing b with
  | nil => exact mirrors_pure rfl
  | cons binding rest ih =>
    have hbound (name : String) (v : Value) : Mirrors f globals b
        (name :: rest.map ImportBinding.bound ++ b) id
        (modify (·.bind name v) >>= fun _ => bindAll ns specifier rest)
        (modify (·.bind name (v.renumber f)) >>= fun _ =>
          bindAll (ns.renumber f) specifier rest) :=
      .append (x := [name]) (mirrors_bind name v) ih
    cases binding with
    | named imported bound =>
      rw [bindAll, bindAll]
      exact (mirrors_lift (exportOf_renumber f ns specifier imported)).bind (hbound bound)
    | whole bound =>
      rw [bindAll, bindAll, Namespace.toValue_renumber]
      exact hbound bound ns.toValue

theorem bindImports_mirrors (imports : Imports) (body : List Statement) :
    Mirrors f globals b (body.flatMap (·.kind.imported) ++ b) id (bindImports imports body)
      (bindImports (imports.map (Namespace.renumber f)) body) := by
  induction body generalizing b with
  | nil => exact mirrors_pure rfl
  | cons s rest ih =>
    rw [bindImports, bindImports, List.flatMap_cons]
    cases s.kind with
    | importFrom bindings specifier =>
      refine (mirrors_lift (importOf_renumber f imports specifier)).bind fun ns => ?_
      exact .append (bindAll_mirrors ns specifier bindings) ih
    | moduleFrom bound specifier =>
      refine (mirrors_lift (importOf_renumber f imports specifier)).bind fun ns => ?_
      simp only [Namespace.toValue_renumber]
      exact .append (mirrors_bind bound ns.toValue) ih
    | _ => exact ih

theorem execute_mirrors {body : List Statement} (h : runsLocally globals b body = true) :
    Mirrors f globals b (body.flatMap (·.kind.declared) ++ b) id (execute body) (execute body) := by
  induction body generalizing b with
  | nil => exact mirrors_pure rfl
  | cons s rest ih =>
    simp only [runsLocally, Bool.and_eq_true] at h
    obtain ⟨hs, hrest⟩ := h
    rw [execute, List.flatMap_cons]
    cases hk : s.kind with
    | var declarators =>
      rw [hk] at hs hrest
      exact .append (declare_mirrors hs) (ih hrest)
    | exportVar declarators =>
      rw [hk] at hs hrest
      exact .append (declare_mirrors hs) (ih hrest)
    | expression e =>
      rw [hk] at hs hrest
      have hpass : Mirrors f globals b b id (discard (eval e)) (discard (eval e)) := by
        rw [discard_eq]
        exact (eval_mirrors e hs).bind fun _ => mirrors_pure rfl
      exact hpass.bind fun _ => ih hrest
    | exportDefault e =>
      rw [hk] at hs hrest
      refine (eval_mirrors e hs).bind fun v => ?_
      exact .append (mirrors_bind defaultName v) (ih hrest)
    | _ =>
      rw [hk] at hrest
      exact ih hrest

theorem valueOf_renumber {name : String} (h : readable globals b name = true)
    {locals : Dict Value} (hb : Binds b locals) (n n' : Nat) :
    valueOf (moduleScope globals n' (locals.map (renumber f))) name =
      (valueOf (moduleScope globals n locals) name).map (renumber f) := by
  obtain ⟨v, hv, hv'⟩ := lookup?_renumber (f := f) h hb n n'
  rw [valueOf, valueOf, hv, hv']
  rfl

theorem exportLocals_renumber {names : List (String × String)}
    (h : ∀ e ∈ names, readable globals b e.1 = true) {locals : Dict Value} (hb : Binds b locals)
    (n n' : Nat) (exports : Dict Value) :
    exportLocals (moduleScope globals n' (locals.map (renumber f))) (exports.map (renumber f))
        names =
      (exportLocals (moduleScope globals n locals) exports names).map (Dict.map (renumber f)) := by
  induction names generalizing exports with
  | nil => rfl
  | cons e rest ih =>
    refine bind_mapped (valueOf_renumber (h e (by simp)) hb n n') fun v => ?_
    rw [← Dict.map_insert]
    exact ih (fun e he => h e (by simp [he])) _

theorem readable_of_mem {name : String} (h : name ∈ b) : readable globals b name = true := by
  simp [readable, h]

/-- The exports that the statements of a body make from bound names. -/
theorem collect_renumber {body : List Statement}
    (h : ∀ s ∈ body, s.kind.exportsLocally globals b = true ∧ s.kind.declared ⊆ b)
    {locals : Dict Value} (hb : Binds b locals) (n n' : Nat) (imports : Imports)
    (exports : Dict Value) (stars : List Namespace) :
    collect (moduleScope globals n' (locals.map (renumber f))) (imports.map (Namespace.renumber f))
        (exports.map (renumber f)) (stars.map (Namespace.renumber f)) body =
      (collect (moduleScope globals n locals) imports exports stars body).map fun c =>
        (c.1.map (renumber f), c.2.map (Namespace.renumber f)) := by
  induction body generalizing exports stars with
  | nil => rfl
  | cons s rest ih =>
    obtain ⟨hexports, hdeclared⟩ := h s (by simp)
    have hrest := ih fun s hs => h s (by simp [hs])
    rw [collect, collect]
    cases hk : s.kind with
    | exportVar declarators =>
      rw [hk] at hdeclared
      refine bind_mapped (exportLocals_renumber (fun e he => ?_) hb n n' exports) fun exports =>
        hrest exports stars
      obtain ⟨d, hd, rfl⟩ := List.mem_map.1 he
      exact readable_of_mem (hdeclared (List.mem_map_of_mem hd))
    | exportDefault e =>
      rw [hk] at hdeclared
      refine bind_mapped (exportLocals_renumber (fun e he => ?_) hb n n' exports) fun exports =>
        hrest exports stars
      rw [List.mem_singleton.1 he]
      exact readable_of_mem (hdeclared (by simp [StatementKind.declared]))
    | exportNamed specifiers source =>
      cases source with
      | none =>
        rw [hk] at hexports
        refine bind_mapped (exportLocals_renumber (fun e he => ?_) hb n n' exports) fun exports =>
          hrest exports stars
        obtain ⟨x, hx, rfl⟩ := List.mem_map.1 he
        exact List.all_eq_true.1 hexports x hx
      | some specifier =>
        refine bind_mapped (importOf_renumber f imports specifier) fun ns => ?_
        exact bind_mapped (exportForeign_renumber f ns specifier exports specifiers) fun exports =>
          hrest exports stars
    | exportAll specifier =>
      refine bind_mapped (importOf_renumber f imports specifier) fun ns => ?_
      have hstars := hrest exports (stars ++ [ns])
      rwa [List.map_append] at hstars
    | _ => exact hrest exports stars

theorem exports_mirrors {body : List Statement}
    (h : ∀ s ∈ body, s.kind.exportsLocally globals b = true ∧ s.kind.declared ⊆ b)
    (imports : Imports) : Mirrors f globals b b (Dict.map (renumber f))
      (get >>= fun s => liftExcept (collect s imports .empty [] body) >>= fun c =>
        pure (addStars c.1 c.2))
      (get >>= fun s =>
        liftExcept (collect s (imports.map (Namespace.renumber f)) .empty [] body) >>= fun c =>
          pure (addStars c.1 c.2)) := by
  intro locals n n' hb
  have hget (s : Scope) : (get : Run Scope).run.run s = (.ok s, s) := rfl
  rw [run_bind_of_ok (hget _), run_bind_of_ok (hget _)]
  have hcollect : Mirrors f globals b b
      (fun c : Dict Value × List Namespace =>
        (c.1.map (renumber f), c.2.map (Namespace.renumber f)))
      (liftExcept (collect (moduleScope globals n locals) imports .empty [] body))
      (liftExcept (collect (moduleScope globals n' (locals.map (renumber f)))
        (imports.map (Namespace.renumber f)) .empty [] body)) :=
    mirrors_lift (collect_renumber h hb n n' imports .empty [])
  refine (hcollect.bind fun c => ?_) locals n n' hb
  exact mirrors_pure (addStars_renumber f c.1 c.2)

/-- The exports of a local module are renumbered with what it imports. -/
theorem runModule_mirrors {p : Program} (h : p.isLocal globals = true) (imports : Imports) :
    Mirrors f globals [] (boundBy p.body) (Dict.map (renumber f)) (runModule imports p)
      (runModule (imports.map (Namespace.renumber f)) p) := by
  simp only [Program.isLocal, Bool.and_eq_true, List.all_eq_true] at h
  obtain ⟨hruns, hexports⟩ := h
  refine (bindImports_mirrors imports p.body).bind fun _ => ?_
  rw [List.append_nil]
  refine (execute_mirrors hruns).bind fun _ => exports_mirrors (fun s hs => ?_) imports
  refine ⟨hexports s hs, fun name hn => List.mem_append_left _ ?_⟩
  exact List.mem_flatMap.2 ⟨s, hs, hn⟩

/-- A local module that comes to its end makes one namespace and leaves the global bindings alone.
With renumbered imports it has the renumbered exports, whatever else happened in the realm. -/
theorem Linked.run_renumber (f : Nat → Nat) {m : Linked} {realm realm' realm₁ : Realm}
    (h : m.program.isLocal realm.globals = true) (hg : realm'.globals = realm.globals)
    {imports : Imports} {ns : Namespace} (hr : m.run imports realm = (.ok ns, realm₁)) :
    ns.instanceId = realm.instances ∧
      realm₁ = { realm with instances := realm.instances + 1 } ∧
      m.run (imports.map (Namespace.renumber f)) realm' =
        (.ok ⟨realm'.instances, ns.exports.map (renumber f)⟩,
          { realm' with instances := realm'.instances + 1 }) := by
  obtain ⟨globals, n⟩ := realm
  obtain ⟨_, n'⟩ := realm'
  cases hg
  obtain ⟨result, locals, hrun, hrun', -⟩ :=
    runModule_mirrors (f := f) h imports .empty n n' fun _ hm => absurd hm List.not_mem_nil
  have hscope : (runModule imports m.program).run.run ⟨⟨globals, n⟩, some .empty⟩ =
      (result, moduleScope globals n locals) := hrun
  have hscope' : (runModule (imports.map (Namespace.renumber f)) m.program).run.run
      ⟨⟨globals, n'⟩, some .empty⟩ =
      (result.map (Dict.map (renumber f)), moduleScope globals n' (locals.map (renumber f))) :=
    hrun'
  rw [Linked.run, hscope] at hr
  rw [Linked.run, hscope']
  cases result with
  | error cause => cases hr
  | ok exports =>
    cases hr
    exact ⟨rfl, rfl, rfl⟩

end Bodies

end ModuleLoader.Dialect

import ModuleLoader.Proofs.Dialect.LineOrigins

/-! # Names of units

The name of a unit stands in the errors of its compilation and of its run, and nowhere else. Under
every name a source text has the same code, the same requests and a body that does the same.
-/

namespace ModuleLoader

/-- Both have results, which are related, or both have errors of the same kind. -/
inductive Matching {α β : Type} (R : α → β → Prop) :
    Except LoadError α → Except LoadError β → Prop where
  | ok {a : α} {b : β} : R a b → Matching R (.ok a) (.ok b)
  | error {e e' : LoadError} : e.kind = e'.kind → Matching R (.error e) (.error e')

namespace Matching

variable {α β γ δ : Type} {R : α → β → Prop} {S : γ → δ → Prop}

theorem refl (x : Except LoadError α) : Matching (· = ·) x x := by
  cases x with
  | ok a => exact .ok rfl
  | error e => exact .error rfl

theorem bind {x : Except LoadError α} {y : Except LoadError β} {f : α → Except LoadError γ}
    {g : β → Except LoadError δ} (h : Matching R x y) (hf : ∀ a b, R a b → Matching S (f a) (g b)) :
    Matching S (x >>= f) (y >>= g) := by
  cases h with
  | ok hr => exact hf _ _ hr
  | error he => exact .error he

/-- A fact about the first result can be added. -/
theorem and_left {x : Except LoadError α} {y : Except LoadError β} {P : α → Prop}
    (h : Matching R x y) (hp : ∀ a, x = .ok a → P a) : Matching (fun a b => R a b ∧ P a) x y := by
  cases h with
  | ok hr => exact .ok ⟨hr, hp _ rfl⟩
  | error he => exact .error he

theorem map {x : Except LoadError α} {y : Except LoadError β} {f : α → γ} {g : β → δ}
    (h : Matching R x y) (hf : ∀ a b, R a b → S (f a) (g b)) :
    Matching S (x.map f) (y.map g) := by
  cases h with
  | ok hr => exact .ok (hf _ _ hr)
  | error he => exact .error he

end Matching

namespace Dialect

/-! ## Requests of a source text -/

/-- The requests of a source text. A text that is no program makes none. -/
def requestsOf (source : String) : List String :=
  match Program.ofSource source.toList with
  | .ok p => p.requests
  | .error _ => []

theorem source?_reread (k : StatementKind) : k.reread.source? = k.source? := by
  cases k <;> rfl

theorem requests_reread (p : Program) : p.reread.requests = p.requests := by
  rw [requests_of_kinds (map_kind_reread p), requests_of_kinds rfl, List.filterMap_map]
  exact congrArg distinct (List.filterMap_congr fun k _ => source?_reread k)

theorem requestsOf_of_programOf {name source : String} {p : Program}
    (h : programOf name source = .ok p) : requestsOf source = p.requests := by
  rw [requestsOf, programOf_eq_ok h]

theorem link_requests {name source : String} {m : Linked} (h : link name source = .ok m) :
    m.requests = requestsOf source := by
  rw [link_eq] at h
  cases hp : programOf name source with
  | error e =>
    rw [hp] at h
    cases h
  | ok p =>
    rw [hp] at h
    cases h
    exact (requestsOf_of_programOf hp).symm

/-- Compiled code makes the requests of its source. -/
theorem requestsOf_compiled {source : String} {options : CompileOptions} {compiled : Compiled}
    (h : compile source options = .ok compiled) :
    requestsOf compiled.code = requestsOf source := by
  rw [compile_eq] at h
  cases hu : unitOf source options with
  | error e =>
    rw [hu] at h
    cases h
  | ok p =>
    rw [hu] at h
    cases h
    have hp := ofSource_of_unitOf hu
    obtain ⟨q, hq, hk⟩ := programOf_print hp options.name
    rw [requestsOf_of_programOf hq, requests_congr hk, requests_reread, requestsOf, hp]

/-! ## One text under two names -/

variable (name name' source : String)

theorem programOf_matching :
    Matching (· = ·) (programOf name source) (programOf name' source) := by
  rw [programOf, programOf]
  cases Program.ofSource source.toList with
  | ok p => exact .ok rfl
  | error e => exact .error rfl

theorem link_matching : Matching
    (fun m m' : Linked => m'.program = m.program ∧ m.requests = requestsOf source ∧
      m'.requests = requestsOf source) (link name source) (link name' source) := by
  rw [link_eq, link_eq, programOf, programOf]
  cases hp : Program.ofSource source.toList with
  | error e => exact .error rfl
  | ok p =>
    have hr : p.requests = requestsOf source := by rw [requestsOf, hp]
    exact .ok ⟨rfl, hr, hr⟩

/-- The code of a module does not depend on its name and its address. -/
theorem compile_matching {options options' : CompileOptions} (h : options.kind = .module)
    (h' : options'.kind = .module) : Matching
      (fun c c' => c'.code = c.code ∧ requestsOf c.code = requestsOf source)
      (compile source options) (compile source options') := by
  have hc : Matching (fun c c' => c'.code = c.code) (compile source options)
      (compile source options') := by
    rw [compile_eq, compile_eq, unitOf, unitOf, h, h']
    apply (programOf_matching options.name options'.name source).map
    rintro p p' rfl
    rfl
  exact hc.and_left fun c hc => requestsOf_compiled hc

/-- What a body does does not depend on its name either. -/
theorem run_matching {m m' : Linked} (h : m.program = m'.program) (imports : Imports)
    (realm : Realm) : Matching (· = ·) (m.run imports realm).1 (m'.run imports realm).1 ∧
      (m.run imports realm).2 = (m'.run imports realm).2 := by
  rw [Linked.run, Linked.run, h]
  rcases (runModule imports m'.program).run.run ⟨realm, some .empty⟩ with ⟨result, scope⟩
  cases result with
  | ok exports => exact ⟨.ok rfl, rfl⟩
  | error cause => exact ⟨.error rfl, rfl⟩

end Dialect

end ModuleLoader

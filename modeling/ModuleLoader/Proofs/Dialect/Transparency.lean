import ModuleLoader.Dialect.Compiler
import ModuleLoader.Proofs.Dialect.ParsedTrees

/-! # Compiled units

What a unit does depends on what its statements are, not on where they stand. So a compiled unit
does what its source does, except that a literal past all finite numbers is printed as the name
`inf`.
-/

namespace ModuleLoader.Dialect

open Expression

/-! ## Units with the same statements -/

section SameStatements

variable {body body' : List Statement}

theorem complete_congr (h : body.map (·.kind) = body'.map (·.kind)) (value : Value) :
    complete value body = complete value body' := by
  induction body generalizing body' value with
  | nil => rw [List.map_eq_nil_iff.1 h.symm]
  | cons s rest ih =>
    obtain ⟨s', rest', rfl, hs, hrest⟩ := List.map_eq_cons_iff.1 h.symm
    simp only [complete, hs, ih hrest.symm]

theorem bindImports_congr (h : body.map (·.kind) = body'.map (·.kind)) (imports : Imports) :
    bindImports imports body = bindImports imports body' := by
  induction body generalizing body' with
  | nil => rw [List.map_eq_nil_iff.1 h.symm]
  | cons s rest ih =>
    obtain ⟨s', rest', rfl, hs, hrest⟩ := List.map_eq_cons_iff.1 h.symm
    simp only [bindImports, hs, ih hrest.symm]

theorem execute_congr (h : body.map (·.kind) = body'.map (·.kind)) :
    execute body = execute body' := by
  induction body generalizing body' with
  | nil => rw [List.map_eq_nil_iff.1 h.symm]
  | cons s rest ih =>
    obtain ⟨s', rest', rfl, hs, hrest⟩ := List.map_eq_cons_iff.1 h.symm
    simp only [execute, hs, ih hrest.symm]

theorem collect_congr (h : body.map (·.kind) = body'.map (·.kind)) (s : Scope) (imports : Imports)
    (exports : Dict Value) (stars : List Namespace) :
    collect s imports exports stars body = collect s imports exports stars body' := by
  induction body generalizing body' exports stars with
  | nil => rw [List.map_eq_nil_iff.1 h.symm]
  | cons st rest ih =>
    obtain ⟨st', rest', rfl, hs, hrest⟩ := List.map_eq_cons_iff.1 h.symm
    simp only [collect, hs, ih hrest.symm]

end SameStatements

theorem runModule_congr {p p' : Program} (h : p.body.map (·.kind) = p'.body.map (·.kind))
    (imports : Imports) : runModule imports p = runModule imports p' := by
  simp only [runModule, bindImports_congr h, execute_congr h, collect_congr h]

theorem requests_of_kinds {p : Program} {kinds : List StatementKind}
    (h : p.body.map (·.kind) = kinds) :
    p.requests = distinct (kinds.filterMap StatementKind.source?) := by
  rw [Program.requests, ← h, List.filterMap_map]
  rfl

theorem requests_congr {p p' : Program} (h : p.body.map (·.kind) = p'.body.map (·.kind)) :
    p.requests = p'.requests := by
  rw [requests_of_kinds h, requests_of_kinds rfl]

theorem moduleOnly?_eq_none_iff {p : Program} : p.moduleOnly? = none ↔
    ∀ k ∈ p.body.map (·.kind), ¬ k.isModuleOnly = true := by
  rw [Program.moduleOnly?, List.find?_eq_none, List.forall_mem_map]

/-! ## Printed programs -/

/-- What the text of a program is read as. -/
def Program.reread (p : Program) : Program := ⟨p.body.map fun s => { s with kind := s.kind.reread }⟩

theorem map_kind_reread (p : Program) :
    p.reread.body.map (·.kind) = (p.body.map (·.kind)).map StatementKind.reread := by
  rw [Program.reread, List.map_map, List.map_map]
  rfl

theorem isModuleOnly_reread (k : StatementKind) : k.reread.isModuleOnly = k.isModuleOnly := by
  cases k <;> rfl

theorem moduleOnly?_reread {p : Program} (h : p.moduleOnly? = none) :
    p.reread.moduleOnly? = none := by
  rw [moduleOnly?_eq_none_iff, List.forall_mem_map] at h
  rw [moduleOnly?_eq_none_iff, map_kind_reread, List.map_map, List.forall_mem_map]
  intro s hs
  rw [Function.comp_apply, isModuleOnly_reread]
  exact h s hs

theorem kinds_program {l : List Statement} (h : ∀ s ∈ l, s.kind.WellFormed) :
    kinds (l.flatMap fun s => s.kind.print ++ ['\n']) =
      ((l.map (·.kind)).map StatementKind.reread).flatMap StatementKind.row := by
  induction l with
  | nil => exact kinds_nil
  | cons s l ih =>
    have hs := StatementKind.kinds_print (h s (by simp))
    rw [List.flatMap_cons, List.append_assoc, hs, List.singleton_append, kinds_newline,
      ih fun t ht => h t (by simp [ht])]
    rfl

/-- The printed text of a parsed program is the text of the program as it is read again. -/
theorem programOf_print {source : List Char} {p : Program} (h : Program.ofSource source = .ok p)
    (name : String) : ∃ q, programOf name (String.ofList p.print) = .ok q ∧
      q.body.map (·.kind) = p.reread.body.map (·.kind) := by
  have hw : ∀ s ∈ p.body, s.kind.WellFormed := fun s hs => (parsed_ofSource h s hs).1
  have hr : ∀ k ∈ (p.body.map (·.kind)).map StatementKind.reread, k.WellFormed := by
    intro k hk
    obtain ⟨a, ha, rfl⟩ := List.mem_map.1 hk
    obtain ⟨s, hs, rfl⟩ := List.mem_map.1 ha
    exact StatementKind.wellFormed_reread (hw s hs)
  obtain ⟨q, hq, hmap⟩ := ofSource_of_kinds hr (kinds_program hw)
  refine ⟨q, ?_, hmap.trans (map_kind_reread p).symm⟩
  rw [programOf, String.toList_ofList, Program.print, hq]

/-! ## Running and linking the source -/

/-- Run the statements of a script. -/
def Program.runScript (p : Program) (name : String) (realm : Realm) :
    Except LoadError Value × Realm :=
  let (result, scope) := (complete .undefined p.body).run.run ⟨realm, none⟩
  (named name result, scope.realm)

theorem Program.runScript_congr {p p' : Program} (h : p.body.map (·.kind) = p'.body.map (·.kind))
    (name : String) (realm : Realm) : p.runScript name realm = p'.runScript name realm := by
  rw [Program.runScript, Program.runScript, complete_congr h]

theorem runScript_eq (name source : String) (realm : Realm) : runScript name source realm =
    match scriptOf name source with
    | .error e => (.error e, realm)
    | .ok p => p.runScript name realm := rfl

theorem programOf_eq_ok {name source : String} {p : Program} (h : programOf name source = .ok p) :
    Program.ofSource source.toList = .ok p := by
  rw [programOf] at h
  split at h
  · cases h
    assumption
  · cases h

theorem scriptOf_of_moduleOnly {name source : String} {p : Program}
    (h : programOf name source = .ok p) (hm : p.moduleOnly? = none) :
    scriptOf name source = .ok p := by
  simp only [scriptOf, h, bind, Except.bind, hm]
  rfl

theorem scriptOf_eq_ok {name source : String} {p : Program} (h : scriptOf name source = .ok p) :
    programOf name source = .ok p ∧ p.moduleOnly? = none := by
  rw [scriptOf] at h
  cases hp : programOf name source with
  | error e => rw [hp] at h; cases h
  | ok q =>
    simp only [hp, bind, Except.bind] at h
    split at h
    · cases h
      exact ⟨rfl, ‹_›⟩
    · cases h

/-- A module is linked as its program. -/
def Program.linked (p : Program) (name : String) : Linked := ⟨name, p.requests, p⟩

theorem link_eq (name source : String) :
    link name source = (programOf name source).map (·.linked name) := by
  rw [link]
  cases programOf name source <;> rfl

/-- Whether two modules have the same requests and bodies that do the same. -/
structure Linked.Alike (m m' : Linked) : Prop where
  requests : m.requests = m'.requests
  run : ∀ imports realm, m.run imports realm = m'.run imports realm

theorem linked_alike {p p' : Program} (h : p.body.map (·.kind) = p'.body.map (·.kind))
    (name : String) : (p.linked name).Alike (p'.linked name) := by
  refine ⟨requests_congr h, fun imports realm => ?_⟩
  rw [Linked.run, Linked.run, Program.linked, Program.linked, runModule_congr h]

/-! ## Running and linking the compiled text -/

/-- The program that a unit is compiled from. -/
def unitOf (source : String) (options : CompileOptions) : Except LoadError Program :=
  match options.kind with
  | .script => scriptOf options.name source
  | .module => programOf options.name source

theorem map_code_compile (source : String) (options : CompileOptions) :
    (compile source options).map Compiled.code =
      (unitOf source options).map fun p => String.ofList p.print := by
  rw [compile, unitOf]
  cases options.kind with
  | script => cases scriptOf options.name source <;> rfl
  | module => cases programOf options.name source <;> rfl

/-- Run a script by compiling it first. -/
def runCompiled (source : String) (options : CompileOptions) (realm : Realm) :
    Except LoadError Value × Realm :=
  match (compile source { options with kind := .script }).map Compiled.code with
  | .error e => (.error e, realm)
  | .ok code => runScript options.name code realm

/-- Link a module by compiling it first. -/
def linkCompiled (source : String) (options : CompileOptions) : Except LoadError Linked := do
  let code ← (compile source { options with kind := .module }).map Compiled.code
  link options.name code

/-- A compiled script does what the script does as its text is read again. -/
theorem runCompiled_eq (source : String) (options : CompileOptions) (realm : Realm) :
    runCompiled source options realm =
      match scriptOf options.name source with
      | .error e => (.error e, realm)
      | .ok p => p.reread.runScript options.name realm := by
  rw [runCompiled, map_code_compile, unitOf]
  cases h : scriptOf options.name source with
  | error e => simp only [Except.map]
  | ok p =>
    obtain ⟨hp, hm⟩ := scriptOf_eq_ok h
    obtain ⟨q, hq, hk⟩ := programOf_print (programOf_eq_ok hp) options.name
    have hqm : q.moduleOnly? = none := by
      rw [moduleOnly?_eq_none_iff, hk, ← moduleOnly?_eq_none_iff]
      exact moduleOnly?_reread hm
    simp only [Except.map, runScript_eq, scriptOf_of_moduleOnly hq hqm,
      Program.runScript_congr hk]

/-- A compiled module does what the module does as its text is read again. -/
theorem linkCompiled_alike (source : String) (options : CompileOptions) :
    match programOf options.name source with
    | .error e => linkCompiled source options = .error e
    | .ok p =>
      ∃ m, linkCompiled source options = .ok m ∧ m.Alike (p.reread.linked options.name) := by
  rw [linkCompiled, map_code_compile, unitOf]
  cases h : programOf options.name source with
  | error e => rfl
  | ok p =>
    obtain ⟨q, hq, hk⟩ := programOf_print (programOf_eq_ok h) options.name
    refine ⟨q.linked options.name, ?_, linked_alike hk _⟩
    show link options.name (String.ofList p.print) = _
    rw [link_eq, hq]
    rfl

/-! ## Transparency -/

/-- Whether every number literal of a source text is finite. -/
def HasFiniteNumbers (source : String) : Prop :=
  ∀ p, Program.ofSource source.toList = .ok p → ∀ s ∈ p.body, ∀ x ∈ s.kind.numbers,
    x.isFinite = true

theorem reread_eq_of_finite {source : String} {p : Program}
    (h : Program.ofSource source.toList = .ok p) (hf : HasFiniteNumbers source) : p.reread = p := by
  have hs : ∀ s ∈ p.body, ({ s with kind := s.kind.reread } : Statement) = s := by
    intro s hs
    rw [StatementKind.reread_eq fun x hx => ⟨hf p h s hs x hx, (parsed_ofSource h s hs).2 x hx⟩]
  rw [Program.reread, List.map_congr_left hs, List.map_id']

/-- Compiling keeps what a unit does, its errors included, up to literals past all finite numbers:
these become the name `inf`. Where there are none, a compiled script ends in the same value or error
with the same global bindings, and a compiled module has the same link error, or else the same
requests and a body that does the same for all imports and bindings. -/
theorem compiled_unit_does_as_source (source : String) (options : CompileOptions) :
    (∀ realm, runCompiled source options realm =
      match scriptOf options.name source with
      | .error e => (.error e, realm)
      | .ok p => p.reread.runScript options.name realm) ∧
    (match programOf options.name source with
      | .error e => linkCompiled source options = .error e
      | .ok p =>
        ∃ m, linkCompiled source options = .ok m ∧ m.Alike (p.reread.linked options.name)) ∧
    (HasFiniteNumbers source →
      (∀ realm, runCompiled source options realm = runScript options.name source realm) ∧
      match link options.name source with
      | .error e => linkCompiled source options = .error e
      | .ok m => ∃ m', linkCompiled source options = .ok m' ∧ m'.Alike m) := by
  refine ⟨runCompiled_eq source options, linkCompiled_alike source options, fun hf => ⟨?_, ?_⟩⟩
  · intro realm
    rw [runCompiled_eq, runScript_eq]
    cases h : scriptOf options.name source with
    | error e => rfl
    | ok p =>
      simp only
      rw [reread_eq_of_finite (programOf_eq_ok (scriptOf_eq_ok h).1) hf]
  · have hc := linkCompiled_alike source options
    rw [link_eq]
    cases h : programOf options.name source with
    | error e =>
      rw [h] at hc
      exact hc
    | ok p =>
      rw [h] at hc
      simp only [reread_eq_of_finite (programOf_eq_ok h) hf] at hc
      exact hc

theorem exists_alike {linked compiled : Except LoadError Linked} {m : Linked}
    (h : match linked with
      | .error e => compiled = .error e
      | .ok m => ∃ m', compiled = .ok m' ∧ m'.Alike m)
    (hm : linked = .ok m) : ∃ m', compiled = .ok m' ∧ m'.Alike m := by
  rw [hm] at h
  exact h

/-- The text of the statements whose words have a meaning elsewhere. -/
def contextualSource : String :=
  String.ofList (['\n'].intercalate (contextualStatements.map StatementKind.print))

theorem ofSource_contextual : ∃ p, Program.ofSource contextualSource.toList = .ok p ∧
    p.body.map (·.kind) = contextualStatements := by
  have hr : contextualStatements.map StatementKind.reread = contextualStatements := by
    have hk : ∀ k ∈ contextualStatements, k.reread = k := fun k hk =>
      StatementKind.reread_eq fun x hx => by
        obtain ⟨hf, hz⟩ := numbers_contextual k hk x hx
        exact ⟨hf, fun h => absurd h (by simp [hz])⟩
    exact (List.map_congr_left hk).trans (List.map_id _)
  have ht := kinds_lines wellFormed_contextual
  rw [hr] at ht
  rw [contextualSource, String.toList_ofList]
  exact ofSource_of_kinds wellFormed_contextual ht

theorem hasFiniteNumbers_contextual : HasFiniteNumbers contextualSource := by
  obtain ⟨p, hp, hk⟩ := ofSource_contextual
  intro q hq s hs x hx
  cases hp.symm.trans hq
  exact (numbers_contextual s.kind (hk ▸ List.mem_map_of_mem hs) x hx).1

theorem compiled_unit_does_as_contextual : HasFiniteNumbers contextualSource ∧
    (∀ realm, runCompiled contextualSource ⟨.module, true, "unit", "unit.js"⟩ realm =
      runScript "unit" contextualSource realm) ∧
    ∃ m m', link "unit" contextualSource = .ok m ∧
      linkCompiled contextualSource ⟨.module, true, "unit", "unit.js"⟩ = .ok m' ∧
      m'.requests = ["a\"\n", "\\", "\x00"] ∧ m'.Alike m := by
  obtain ⟨p, hp, hk⟩ := ofSource_contextual
  obtain ⟨hrun, hmod⟩ := (compiled_unit_does_as_source contextualSource
    ⟨.module, true, "unit", "unit.js"⟩).2.2 hasFiniteNumbers_contextual
  have hlink : link "unit" contextualSource = .ok (p.linked "unit") := by
    rw [link_eq, programOf, hp]
    rfl
  obtain ⟨m', hm', halike⟩ := exists_alike hmod hlink
  refine ⟨hasFiniteNumbers_contextual, hrun, _, m', hlink, hm', ?_, halike⟩
  rw [halike.requests, Program.linked, requests_of_kinds hk, contextualStatements]
  simp only [List.filterMap_cons, List.filterMap_nil, StatementKind.source?]
  decide

/-! ## Literals past all finite numbers -/

theorem ofSource_numeral {cs : List Char} (h : IsNumeral cs) :
    ∃ p, Program.ofSource (cs ++ [';']) = .ok p ∧
      p.body.map (·.kind) = [.expression (.number (Number.ofNumeral cs))] := by
  have hw : ∀ k ∈ [StatementKind.expression (.number (Number.ofNumeral cs))], k.WellFormed :=
    List.forall_mem_singleton.2 (Number.zero_le_ofNumeral _)
  refine ofSource_of_kinds hw ?_
  rw [kinds_numeral h (breaks_cons (by decide) (by decide) _), kinds_mark ';' rfl (by decide),
    kinds_nil]
  rfl

theorem Program.runScript_number {p : Program} {x : Float}
    (h : p.body.map (·.kind) = [.expression (.number x)]) (name : String) (realm : Realm) :
    p.runScript name realm = (.ok (.number x), realm) := by
  have hsame : p.body.map (·.kind) =
      (Program.mk [⟨.expression (.number x), 0, 0⟩]).body.map (·.kind) := h
  rw [Program.runScript_congr hsame]
  rfl

theorem Program.runScript_infinity {p : Program}
    (h : p.body.map (·.kind) = [.expression (.identifier "inf")]) (name : String) :
    p.runScript name .empty = (.error (.instantiate name (.run (.notDefined "inf"))), .empty) := by
  have hsame : p.body.map (·.kind) =
      (Program.mk [⟨.expression (.identifier "inf"), 0, 0⟩]).body.map (·.kind) := h
  rw [Program.runScript_congr hsame]
  rfl

/-- A literal past all finite numbers runs to a number, but its compiled text to a name that nothing
binds. -/
theorem runCompiled_infinite {cs : List Char} (h : IsNumeral cs)
    (hf : (Number.ofNumeral cs).isFinite = false) (options : CompileOptions) :
    runScript options.name (String.ofList (cs ++ [';'])) .empty =
        (.ok (.number (Number.ofNumeral cs)), .empty) ∧
      runCompiled (String.ofList (cs ++ [';'])) options .empty =
        (.error (.instantiate options.name (.run (.notDefined "inf"))), .empty) := by
  obtain ⟨p, hp, hk⟩ := ofSource_numeral h
  have hprogram : programOf options.name (String.ofList (cs ++ [';'])) = .ok p := by
    rw [programOf, String.toList_ofList, hp]
  have honly : p.moduleOnly? = none := by
    rw [moduleOnly?_eq_none_iff, hk]
    simp [StatementKind.isModuleOnly]
  have hreread : p.reread.body.map (·.kind) = [.expression (.identifier "inf")] := by
    rw [map_kind_reread, hk, List.map_singleton, StatementKind.reread, Expression.reread,
      rereadNumber, if_neg (by simp [hf])]
  have hscript := scriptOf_of_moduleOnly hprogram honly
  constructor
  · rw [runScript_eq, hscript]
    exact Program.runScript_number hk _ _
  · rw [runCompiled_eq, hscript]
    exact Program.runScript_infinity hreread _

/-- A literal past all finite numbers. -/
def hugeNumeral : List Char := '1' :: List.replicate 400 '0'

theorem isNumeral_hugeNumeral : IsNumeral hugeNumeral := by
  refine .whole (List.forall_mem_cons.2 ⟨rfl, fun c hc => ?_⟩) (List.cons_ne_nil _ _)
  rw [List.eq_of_mem_replicate hc]
  rfl

theorem isFinite_hugeNumeral : (Number.ofNumeral hugeNumeral).isFinite = false := by
  decide +kernel

theorem compiled_infinity_is_not_defined :
    runScript "<anonymous 1>" (String.ofList (hugeNumeral ++ [';'])) .empty =
        (.ok (.number (Number.ofNumeral hugeNumeral)), .empty) ∧
      runCompiled (String.ofList (hugeNumeral ++ [';'])) ⟨.script, false, "<anonymous 1>", ""⟩
          .empty =
        (.error (.instantiate "<anonymous 1>" (.run (.notDefined "inf"))), .empty) :=
  runCompiled_infinite isNumeral_hugeNumeral isFinite_hugeNumeral
    ⟨.script, false, "<anonymous 1>", ""⟩

end ModuleLoader.Dialect

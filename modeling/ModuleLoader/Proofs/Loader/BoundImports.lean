import ModuleLoader.Loader.Access
import ModuleLoader.Proofs.Dialect.Requests
import ModuleLoader.Proofs.Loader.Compilations
import ModuleLoader.Proofs.Loader.Effects
import ModuleLoader.Proofs.Loader.Fates

/-! # Imports that are bound

Where no load is instantiated ahead of its code, the dependencies of a unit name every specifier that
its program requests, and so do those of the record under which it waits. When the body runs, all of
these are bound. So a request ends for lack of an import only if the stages or the files say so.
-/

namespace ModuleLoader

open Dialect Relation

/-- The dependencies name every specifier that the program of a body requests. -/
def Body.BoundBy (body : Body) (dependencies : List Dependency) : Prop :=
  body.linked.program.requests ⊆ dependencies.map Dependency.specifier

/-- An error that tells of a missing import comes from outside. -/
def LoadError.Excused (outside : LoadError → Prop) (e : LoadError) : Prop :=
  e.IsNotImported → outside e

/-- One of the stages that lead to code answers some load with an error. -/
def Stages.Gives (s : Stages) (e : LoadError) : Prop :=
  ∃ load, s.locate load = .error e ∨ s.fetch load = .error e ∨ s.compile load = .error e

/-- No load is instantiated ahead of its code. -/
def Stages.Plain (s : Stages) : Prop := ∀ load, s.instantiate load = .ok none

/-- The files answer for some address with an error. -/
def Files.Gives (files : Files) (e : LoadError) : Prop := ∃ address, files.text address = .error e

theorem LoadError.excused_of_not {outside : LoadError → Prop} {e : LoadError}
    (h : ¬ e.IsNotImported) : e.Excused outside :=
  fun he => absurd he h

/-! ## Evaluations -/

namespace Registry

/-- The dependencies of a record that waits bind what its body requests. -/
def Bound (r : Registry Body) : Prop :=
  ∀ n record body, r.get? n = some record → record.slot = .waiting body →
    body.BoundBy record.dependencies

variable {r r' : Registry Body}

/-- What is bound stays so where records settle. -/
theorem Bound.settles (h : r.Bound) (hs : ∀ {n record}, r'.get? n = some record →
    ∃ record', r.get? n = some record' ∧ Settles record' record) : r'.Bound := by
  intro n record body hg hslot
  obtain ⟨record', hg', rfl | ⟨_, ns, -, rfl⟩⟩ := hs hg
  · exact h n _ body hg' hslot
  · cases hslot

theorem Bound.commit (h : r.Bound) {u : LoadedUnit} (hu : u.body.BoundBy u.dependencies) :
    (r.commit u.name u.record).Bound := by
  intro n record body hg hslot
  rw [get?_commit] at hg
  split at hg
  · cases hg
    cases hslot
    exact hu
  · exact h n record body hg hslot

theorem Bound.setEvaluated (h : r.Bound) (name : String) (ns : Namespace) :
    (r.setEvaluated name ns).Bound := by
  intro n record body hg hslot
  rw [get?_setEvaluated] at hg
  split at hg
  · cases hg
    cases hslot
  · exact h n record body hg hslot

theorem Bound.delete (h : r.Bound) (name : String) : (r.delete name).Bound := by
  intro n record body hg hslot
  rw [get?_delete] at hg
  split at hg
  · cases hg
  · exact h n record body hg hslot

theorem empty_bound : (empty : Registry Body).Bound := by
  intro n record body hg
  cases hg

/-- The specifiers of dependencies that are evaluated are bound. -/
theorem importsOf?_get? {β : Type} {r : Registry β} {imports imports' : Imports}
    {dependencies : List Dependency} (h : r.importsOf? imports dependencies = some imports')
    {specifier : String} (hs : specifier ∈ dependencies.map Dependency.specifier ∨
      imports.get? specifier ≠ none) : imports'.get? specifier ≠ none := by
  induction dependencies generalizing imports with
  | nil =>
    cases h
    simpa using hs
  | cons d rest ih =>
    rw [importsOf?] at h
    split at h
    · rename_i ns _
      refine ih h ?_
      rw [List.map_cons, List.mem_cons] at hs
      rw [Dict.get?_insert]
      by_cases hd : specifier = d.specifier
      · simp [hd]
      · simpa [hd] using hs
    · cases h

/-- A body whose dependencies bind its requests does not stop for lack of an import. -/
theorem run_not_isNotImported {β : Type} {r : Registry β} {imports : Imports}
    {dependencies : List Dependency} {body : Body} {w w' : World} {e : LoadError}
    (hb : body.BoundBy dependencies) (hi : r.importsOf? .empty dependencies = some imports)
    (hrun : World.run body imports w = (.error e, w')) : ¬ e.IsNotImported := by
  rintro ⟨name, specifier, rfl⟩
  have hr : (body.linked.run imports w.realm).1 =
      .error (.instantiate name (.run (.notImported specifier))) := congrArg Prod.fst hrun
  obtain ⟨hs, hn⟩ := Linked.exists_unbound hr
  exact importsOf?_get? hi (Or.inl (hb hs)) hn

theorem Fault.not_isNotImported (h : r.Bound) {world : World} {s : Pass Body World}
    (hrows : ReflTransGen (Ran World.run) ⟨r, world⟩ s) {roots entered : List String}
    {e : LoadError} {w : World} (hf : Fault World.run r roots entered s e w) :
    ¬ e.IsNotImported := by
  cases hf with
  | missing | cyclic =>
    rintro ⟨name, specifier, h⟩
    cases h
  | body hready hrun =>
    have hs : s.registry.Bound := h.settles fun hg => rows_some hrows hg
    exact run_not_isNotImported (hs _ _ _ hready.get hready.slot) hready.imports hrun

end Registry

namespace Loader

variable {outside : LoadError → Prop} {l l' l'' : Loader} {u : LoadedUnit} {e : LoadError}

/-- A registered module does not fail for lack of an import. -/
theorem evaluate_not_isNotImported (hr : l.registry.Resting) (hb : l.registry.Bound)
    {name : String} (h : (l.evaluate name).1 = .error e) : ¬ e.IsNotImported := by
  have he := Registry.evaluate_evaluated World.run hr l.world name
  simp only [evaluate] at h
  generalize l.registry.evaluate World.run l.world name = out at he h
  cases he with
  | ok => cases h
  | unknown | missing =>
    cases h
    rintro ⟨n, specifier, h⟩
    cases h
  | fault _ hrows _ hf =>
    cases h
    exact hf.not_isNotImported hb hrows

/-- A registered module is not refused for lack of an import. -/
theorem get_not_isNotImported (hr : l.registry.Resting) (hb : l.registry.Bound) {name : String}
    (h : (l.get name).1 = .error e) : ¬ e.IsNotImported := by
  rw [Loader.get] at h
  split at h
  · apply evaluate_not_isNotImported hr hb
    rcases he : (l.evaluate name).1 with e' | ns
    · simp only [he] at h
      cases h
      rfl
    · simp only [he] at h
      cases h
  · cases h

theorem evaluateDetached_not_isNotImported (hr : l.registry.Resting) (hb : l.registry.Bound)
    (hu : u.body.BoundBy u.dependencies) (h : (l.evaluateDetached u).1 = .error e) :
    ¬ e.IsNotImported := by
  have he := Registry.evaluateDetached_evaluated World.run hr l.world u.name u.dependencies u.body
  simp only [evaluateDetached] at h
  generalize l.registry.evaluateDetached World.run l.world u.name u.dependencies u.body = out
    at he h
  cases he with
  | missing =>
    cases h
    rintro ⟨n, specifier, h⟩
    cases h
  | ran _ himp hrun =>
    simp only at h
    subst h
    exact Registry.run_not_isNotImported hu himp hrun
  | fault hrows _ hf =>
    cases h
    exact hf.not_isNotImported hb hrows

/-! ## What a load comes to -/

/-- A load comes to a unit whose dependencies bind what it requests, or to an error that is
excused. -/
def Sane (outside : LoadError → Prop) : Except LoadError LoadedUnit → Prop
  | .ok u => u.body.BoundBy u.dependencies
  | .error e => e.Excused outside

theorem normalize_not_isNotImported {baseName : String} {map : PackageMap} {specifier : String}
    {referrer : Option String}
    (h : Specifier.normalize baseName map specifier referrer = .error e) : ¬ e.IsNotImported := by
  apply LoadError.not_isNotImported
  unfold Specifier.normalize at h
  split at h
  · cases h
    simp [LoadError.kind]
  · unfold PackageMap.apply at h
    split at h <;> cases h
    simp [LoadError.kind]

theorem resolveAll_not_isNotImported {referrer : Option String} {specifiers : List String}
    (h : l.resolveAll referrer specifiers = .error e) : ¬ e.IsNotImported := by
  induction specifiers with
  | nil => cases h
  | cons s rest ih =>
    rcases bind_eq_error_iff.1 h with h | ⟨name, -, h⟩
    · exact normalize_not_isNotImported h
    · rcases bind_eq_error_iff.1 h with h | ⟨_, -, h⟩
      · exact ih h
      · cases h

/-- There is a dependency for each specifier, in their order. -/
theorem resolveAll_specifiers {referrer : Option String} {specifiers : List String}
    {dependencies : List Dependency} (h : l.resolveAll referrer specifiers = .ok dependencies) :
    dependencies.map Dependency.specifier = specifiers := by
  induction specifiers generalizing dependencies with
  | nil =>
    cases h
    rfl
  | cons s rest ih =>
    simp only [resolveAll, bind_eq_ok_iff, pure, Except.pure, Except.ok.injEq] at h
    obtain ⟨name, -, others, hothers, rfl⟩ := h
    rw [List.map_cons, ih hothers]

/-- A unit that is linked from its code binds what it requests. -/
theorem unitOf_sane {id : Nat} {load : Load} {referrer : Option String}
    (hn : load.instantiation = none) : Sane outside (l.unitOf id load referrer) := by
  cases hu : l.unitOf id load referrer with
  | ok u =>
    simp only [unitOf, hn, bind_eq_ok_iff, pure, Except.pure, Except.ok.injEq] at hu
    obtain ⟨linked, hlink, dependencies, hall, rfl⟩ := hu
    obtain ⟨p, -, rfl⟩ := link_eq_ok_iff.1 hlink
    change p.requests ⊆ dependencies.map Dependency.specifier
    rw [resolveAll_specifiers hall]
    exact List.Subset.refl _
  | error e =>
    simp only [unitOf, hn] at hu
    apply LoadError.excused_of_not
    rcases bind_eq_error_iff.1 hu with hlink | ⟨linked, -, hu⟩
    · exact LoadError.not_isNotImported (by simp [link_kind hlink])
    · rcases bind_eq_error_iff.1 hu with hall | ⟨_, -, hu⟩
      · exact resolveAll_not_isNotImported hall
      · cases hu

/-- The errors of stages and files come from outside, and no load is instantiated ahead. -/
structure Guarded (outside : LoadError → Prop) (l : Loader) : Prop where
  stages : ∀ e, l.stages.Gives e → outside e
  plain : l.stages.Plain
  files : ∀ e, l.files.Gives e → outside e

theorem Guarded.prepare (h : l.Guarded outside) {load : Load}
    (hp : l.stages.prepare load = .error e) : outside e := by
  rw [Stages.prepare] at hp
  split at hp
  · cases hp
  · rcases bind_eq_error_iff.1 hp with hlocate | ⟨located, -, hp⟩
    · rw [Stages.locateOnce] at hlocate
      split at hlocate
      · cases hlocate
      · rcases bind_eq_error_iff.1 hlocate with hlocate | ⟨_, -, hlocate⟩
        · exact h.stages e ⟨load, Or.inl hlocate⟩
        · cases hlocate
    · rcases bind_eq_error_iff.1 hp with hfetch | ⟨_, -, hp⟩
      · exact h.stages e ⟨located, Or.inr (Or.inl hfetch)⟩
      · cases hp

theorem Guarded.complete_error (h : l.Guarded outside) {load : Load} {text : String}
    (hc : l.stages.complete load text = .error e) : outside e := by
  rcases bind_eq_error_iff.1 hc with hc | ⟨compiled, -, hc⟩
  · exact h.stages e ⟨_, Or.inr (Or.inr hc)⟩
  · rcases bind_eq_error_iff.1 hc with hi | ⟨_, -, hc⟩
    · rw [h.plain] at hi
      cases hi
    · cases hc

theorem Guarded.complete_ok (h : l.Guarded outside) {load load' : Load} {text : String}
    (hc : l.stages.complete load text = .ok load') : load'.instantiation = none := by
  simp only [Stages.complete, bind_eq_ok_iff, pure, Except.pure, Except.ok.injEq] at hc
  obtain ⟨compiled, -, instantiation, hi, rfl⟩ := hc
  rw [h.plain] at hi
  cases hi
  rfl

theorem Guarded.linkSource (h : l.Guarded outside) (id : Nat) (load : Load) (text : String)
    (referrer : Option String) : Sane outside (l.linkSource id load text referrer).1 := by
  rw [Loader.linkSource]
  split
  · rename_i e hc
    exact fun _ => h.complete_error hc
  · rename_i load' hc
    exact unitOf_sane (h.complete_ok hc)

theorem Guarded.answered (h : l.Guarded outside) (id : Nat) (load : Load) (address : String) :
    Sane outside (l.answered id load address) := by
  rw [Loader.answered]
  split
  · rename_i e ht
    exact fun _ => h.files e ⟨address, ht⟩
  · exact h.linkSource id load _ _

theorem Guarded.outcome (h : l.Guarded outside) (id : Nat) {st : LoadState}
    (hf : st.isFinished = false) : Sane outside (l.outcome id st) := by
  cases st with
  | finished r => cases hf
  | waiting load address turns => exact h.answered id load address
  | created name metadata =>
    rw [Loader.outcome]
    split
    · rename_i e hp
      exact fun _ => h.prepare hp
    · exact h.linkSource id _ _ _
    · exact h.answered id _ _

/-! ## Loaders -/

/-- A guarded loader in which all loads have come to what is sane, and all records that wait are
bound. -/
structure Binds (outside : LoadError → Prop) (l : Loader) : Prop where
  guarded : l.Guarded outside
  loads : ∀ {id : Nat} {r : Except LoadError LoadedUnit}, l.loads[id]? = some (.finished r) →
    Sane outside r
  registry : l.registry.Bound

/-- Stages, files and registry are the same, and no load has ended. -/
structure Pauses (l l' : Loader) : Prop where
  stages : l'.stages = l.stages
  files : l'.files = l.files
  registry : l'.registry = l.registry
  ended : ∀ {id : Nat} {r : Except LoadError LoadedUnit},
    l'.loads[id]? = some (.finished r) → l.loads[id]? = some (.finished r)

theorem Pauses.refl (l : Loader) : Pauses l l := ⟨rfl, rfl, rfl, id⟩

theorem Pauses.trans (h : Pauses l l') (h' : Pauses l' l'') : Pauses l l'' :=
  ⟨h'.stages.trans h.stages, h'.files.trans h.files, h'.registry.trans h.registry,
    fun hr => h.ended (h'.ended hr)⟩

theorem Guarded.of_eq (h : l.Guarded outside) (hs : l'.stages = l.stages)
    (hf : l'.files = l.files) : l'.Guarded outside := by
  refine ⟨?_, ?_, ?_⟩
  · rw [hs]
    exact h.stages
  · rw [hs]
    exact h.plain
  · rw [hf]
    exact h.files

theorem Binds.pauses (h : l.Binds outside) (hp : Pauses l l') : l'.Binds outside :=
  ⟨h.guarded.of_eq hp.stages hp.files, fun hr => h.loads (hp.ended hr),
    hp.registry ▸ h.registry⟩

theorem Binds.arrived (h : l.Binds outside) (hu : l.Arrived u) :
    u.body.BoundBy u.dependencies :=
  h.loads hu

theorem reported_pauses {α : Type} (l : Loader) (r : Except LoadError α) :
    Pauses l (l.reported r).2 := by
  cases r <;> exact ⟨rfl, rfl, rfl, id⟩

theorem settle_pauses (l : Loader) (r : Except LoadError Answer) : Pauses l (l.settle r).2 :=
  reported_pauses l r

theorem unclaim_pauses (l : Loader) (name : String) : Pauses l (l.unclaim name) :=
  ⟨rfl, rfl, rfl, id⟩

theorem note_pauses (l : Loader) (event : Event) : Pauses l (l.note event) :=
  ⟨rfl, rfl, rfl, id⟩

theorem release_pauses (l : Loader) (names : List String) : Pauses l (l.release names) :=
  ⟨rfl, rfl, rfl, id⟩

theorem freshName_pauses (l : Loader) : Pauses l l.freshName.2 := ⟨rfl, rfl, rfl, id⟩

theorem claim_pauses (l : Loader) (names : List String) :
    Pauses l { l with defining := names } :=
  ⟨rfl, rfl, rfl, id⟩

theorem keepMap_pauses (l : Loader) (load : Load) : Pauses l (l.keepMap load) := by
  obtain ⟨maps, h⟩ := keepMap_eq l load
  rw [h]
  exact ⟨rfl, rfl, rfl, id⟩

theorem join_pauses (l : Loader) (name : String) (metadata : Metadata) :
    Pauses l (l.join name metadata).2 := by
  rw [join]
  split
  · exact .refl l
  · refine ⟨rfl, rfl, rfl, fun {id r} hr => ?_⟩
    rcases getElem?_concat_eq_some_iff.1 hr with hr | ⟨-, hr⟩
    · exact hr
    · cases hr

theorem Joins.pauses {metadata : Metadata} (h : Joins metadata l l') : Pauses l l' :=
  h.preserves (P := Pauses l) (fun name hp => hp.trans (join_pauses _ name metadata)) (.refl l)

theorem startGraph_pauses (l : Loader) (metadata : Metadata) (root : LoadedUnit) :
    Pauses l (l.startGraph metadata root).2 :=
  (wantAll_joins metadata l [root.name] root.dependencies).pauses

theorem expand_pauses (l : Loader) (task : GraphTask) (units : List LoadedUnit) :
    Pauses l (l.expand task units).2 :=
  (wantAll_joins task.metadata l task.seen _).pauses

/-- Whatever a load is going to come to is sane. -/
theorem Binds.fate (h : l.Binds outside) {id : Nat} {r : Except LoadError LoadedUnit}
    (hr : l.fate id = some r) : Sane outside r := by
  obtain ⟨st, hst, rfl⟩ := Option.map_eq_some_iff.1 hr
  cases hf : st.isFinished with
  | false => exact h.guarded.outcome id hf
  | true =>
    cases st with
    | finished r => exact h.loads hst
    | _ => cases hf

theorem Binds.move (h : l.Binds outside) (id : Nat) : (l.move id).2.Binds outside := by
  have hg := move_grows l id
  refine ⟨h.guarded.of_eq hg.alike.stages hg.files, fun {i r} hr => ?_, hg.registry ▸ h.registry⟩
  have hfate : (l.move id).2.fate i = some r := fate_eq hr
  rw [fate_move] at hfate
  exact h.fate hfate

theorem Binds.moved (h : l.Binds outside) {id : Nat} {r : Except LoadError LoadedUnit}
    (hm : l.move id = (some r, l')) : l'.Binds outside ∧ Sane outside r := by
  have hb := h.move id
  rw [hm] at hb
  exact ⟨hb, hb.loads (move_finished hm)⟩

theorem Binds.loadInline (h : l.Binds outside) (load : Load) (source : String)
    (referrer : Option String) :
    (l.loadInline load source referrer).2.Binds outside ∧
      Sane outside (l.loadInline load source referrer).1 := by
  have hsane := h.guarded.linkSource l.loads.length load source referrer
  rw [loadInline_eq]
  refine ⟨⟨h.guarded.of_eq rfl rfl, fun {id r} hr => ?_, h.registry⟩, hsane⟩
  rcases getElem?_concat_eq_some_iff.1 hr with hr | ⟨-, hr⟩
  · exact h.loads hr
  · cases hr
    exact hsane

theorem Binds.file (h : l.Binds outside) (hu : u.body.BoundBy u.dependencies) :
    (l.file u).Binds outside := by
  rw [Loader.file]
  split
  · exact h
  · exact ⟨h.guarded.of_eq rfl rfl, h.loads, h.registry.commit hu⟩

theorem Binds.commit (h : l.Binds outside) {units : List LoadedUnit}
    (hu : ∀ u ∈ units, u.body.BoundBy u.dependencies) : (l.commit units).Binds outside := by
  induction units generalizing l with
  | nil => exact h
  | cons u rest ih =>
    obtain ⟨hfirst, hrest⟩ := List.forall_mem_cons.1 hu
    rw [commit_cons]
    exact ih ((h.file hfirst).pauses ⟨rfl, rfl, rfl, id⟩) hrest

theorem Binds.evaluate (h : l.Binds outside) (hr : l.registry.Resting) (name : String) :
    (l.evaluate name).2.Binds outside :=
  ⟨h.guarded.of_eq rfl rfl, h.loads, h.registry.settles (Registry.evaluate_tends hr name).known⟩

theorem Binds.evaluateDetached (h : l.Binds outside) (hr : l.registry.Resting) (u : LoadedUnit) :
    (l.evaluateDetached u).2.Binds outside :=
  ⟨h.guarded.of_eq rfl rfl, h.loads,
    h.registry.settles (Registry.evaluateDetached_tends hr u.name u.dependencies u.body).known⟩

end Loader

end ModuleLoader

import ModuleLoader.Proofs.Loader.RestingSteps

/-! # Effects of a step

Until a request is settled its steps leave the registry and the realm alone, and tell the journal of
loads only. The step that settles it may run a script, or register the units of its graphs and
evaluate a module.
-/

namespace ModuleLoader

open Dialect Relation

namespace Loader

open Gathering

/-- Nothing has happened to registry and realm, and the journal tells of loads only. -/
structure Calm (l l' : Loader) : Prop where
  registry : l'.registry = l.registry
  realm : l'.world.realm = l.world.realm
  journal : ∃ events, l'.world.journal = events ++ l.world.journal ∧ ∀ e ∈ events, e.IsLoading

/-- Two loaders have the same registry, and the same has happened in them. -/
structure Same (l l' : Loader) : Prop where
  registry : l'.registry = l.registry
  world : l'.world = l.world

/-- The units that a request registers when it has all of its graphs. -/
def Activity.units : Activity → List LoadedUnit
  | .graph .module task => task.graph.below
  | .graph _ task => task.graph.units
  | .branches _ _ b => b.values.flatMap Graph.units
  | _ => []

/-- A request evaluates the module of a name, and is answered with what becomes of its namespace. -/
def Activity.Evaluates (name : String) (answer : Namespace → Answer) : Activity → Prop
  | .graph (.importModule n) _ => n = name ∧ answer = .exports
  | .graph (.define n _) _ => n = name ∧ answer = fun _ => .defined
  | .branches n _ _ => n = name ∧ answer = .exports
  | _ => False

/-- A request evaluates the unit of its source, which is not registered. -/
def Activity.Detaches (u : LoadedUnit) : Activity → Prop
  | .graph .module task => task.graph.root = u
  | _ => False

/-- What a step does to registry, realm and journal. -/
inductive Effect (a : Activity) (l : Loader) : Activity → Loader → Prop where
  | calm {a' : Activity} {l' : Loader} : Calm l l' → Effect a l a' l'
  | script {r : Except LoadError Answer} {l₁ l' : Loader} :
      Calm l l₁ → l'.registry = l₁.registry → l'.world.journal = l₁.world.journal →
      (∀ e, r = .error e → e.kind = .instantiate) → Effect a l (.settled r) l'
  | registers {l' : Loader} :
      Same (l.commit a.units) l' → Effect a l (.settled (.ok .defined)) l'
  | evaluates {name : String} {answer : Namespace → Answer} {l' : Loader} :
      a.Evaluates name answer → Same ((l.commit a.units).evaluate name).2 l' →
      Effect a l (.settled (((l.commit a.units).evaluate name).1.map answer)) l'
  | detaches {u : LoadedUnit} {l' : Loader} :
      a.Detaches u → Same ((l.commit a.units).evaluateDetached u).2 l' →
      Effect a l (.settled (((l.commit a.units).evaluateDetached u).1.map .exports)) l'

section Calm

variable {l l' l'' : Loader}

theorem Same.trans (h : Same l l') (h' : Same l' l'') : Same l l'' :=
  ⟨h'.registry.trans h.registry, h'.world.trans h.world⟩

theorem reported_same {α : Type} (l : Loader) (r : Except LoadError α) :
    Same l (l.reported r).2 := by
  cases r <;> exact ⟨rfl, rfl⟩

theorem settle_same (l : Loader) (r : Except LoadError Answer) : Same l (l.settle r).2 :=
  reported_same l r

theorem unclaim_same (l : Loader) (name : String) : Same l (l.unclaim name) := ⟨rfl, rfl⟩

theorem Calm.refl (l : Loader) : Calm l l := ⟨rfl, rfl, [], rfl, by simp⟩

theorem Calm.trans (h : Calm l l') (h' : Calm l' l'') : Calm l l'' := by
  obtain ⟨events, hj, he⟩ := h.journal
  obtain ⟨events', hj', he'⟩ := h'.journal
  refine ⟨h'.registry.trans h.registry, h'.realm.trans h.realm, events' ++ events, ?_, ?_⟩
  · rw [hj', hj, List.append_assoc]
  · intro e hm
    rcases List.mem_append.1 hm with hm | hm
    · exact he' e hm
    · exact he e hm

theorem Same.calm (h : Same l l') : Calm l l' :=
  ⟨h.registry, congrArg World.realm h.world, [], congrArg World.journal h.world, by simp⟩

theorem Grows.calm (h : Grows l l') : Calm l l' := ⟨h.registry, h.realm, h.journal⟩

theorem note_calm (l : Loader) {e : Event} (h : e.IsLoading) : Calm l (l.note e) :=
  ⟨rfl, rfl, [e], rfl, by simpa using h⟩

theorem settle_calm (l : Loader) (r : Except LoadError Answer) : Calm l (l.settle r).2 :=
  (settle_same l r).calm

theorem rejectGraph_calm (l : Loader) (purpose : Purpose) (e : LoadError) :
    Calm l (l.rejectGraph purpose e).2 := by
  cases purpose <;> exact Same.calm ⟨rfl, rfl⟩

theorem keepMap_calm (l : Loader) (load : Load) : Calm l (l.keepMap load) := by
  obtain ⟨maps, h⟩ := keepMap_eq l load
  rw [h]
  exact Same.calm ⟨rfl, rfl⟩

end Calm

/-! ## Scripts -/

theorem runScript_cases (name code : String) (realm : Realm) :
    (runScript name code realm).2 = realm ∨
      ∀ e, (runScript name code realm).1 = .error e → e.kind = .instantiate := by
  unfold runScript
  split
  · exact Or.inl rfl
  · rename_i p _
    right
    intro e he
    rcases hr : (complete .undefined p.body).run.run ⟨realm, none⟩ with ⟨result, scope⟩
    simp only [hr] at he
    cases result with
    | ok v => simp [named] at he
    | error cause =>
      cases he
      rfl

/-- A script that runs fails with an instantiation or not at all. -/
theorem runSource_cases (l : Loader) (load : Load) (text : String) :
    Calm l (l.runSource load text).2 ∨
      (l.runSource load text).2.registry = l.registry ∧
      (l.runSource load text).2.world.journal = l.world.journal ∧
      ∀ e, (l.runSource load text).1 = .error e → e.kind = .instantiate := by
  unfold runSource
  split
  · exact Or.inl (.refl l)
  · rename_i load' hc
    have hk := keepMap_calm l load'
    simp only
    split
    · exact Or.inl hk
    · exact Or.inl hk
    · obtain ⟨maps, hm⟩ := keepMap_eq l load'
      rcases runScript_cases load'.name (load'.code.getD "") (l.keepMap load').world.realm with
        hr | he
      · left
        apply hk.trans
        refine Same.calm ⟨rfl, ?_⟩
        simp only [hr]
      · right
        refine ⟨hk.registry, ?_, he⟩
        simp only [hm]

section Scripts

variable {a : Activity} {l l₁ : Loader} (hc : Calm l l₁)

include hc

theorem settle_effect (r : Except LoadError Answer) :
    Effect a l (l₁.settle r).1 (l₁.settle r).2 :=
  .calm (hc.trans (settle_calm l₁ r))

theorem settleScript_effect (load : Load) (text : String) :
    Effect a l (l₁.settleScript load text).1 (l₁.settleScript load text).2 := by
  unfold settleScript
  rcases runSource_cases l₁ load text with hr | ⟨hreg, hj, he⟩
  · exact settle_effect (hc.trans hr) _
  · have hs := settle_same (l₁.runSource load text).2 ((l₁.runSource load text).1.map .value)
    simp only [settle_settled]
    refine .script hc (hs.registry.trans hreg) ?_ ?_
    · rw [hs.world, hj]
    · intro e h
      cases hr : (l₁.runSource load text).1 with
      | ok v => simp [hr, Except.map] at h
      | error e' =>
        rw [hr] at h
        cases h
        exact he e hr

theorem receiveScript_effect (load : Load) (address : String) :
    Effect a l (l₁.receiveScript load address).1 (l₁.receiveScript load address).2 := by
  unfold receiveScript
  split
  · exact settle_effect hc _
  · exact settleScript_effect hc load _

theorem startScript_effect (load : Load) :
    Effect a l (l₁.startScript load).1 (l₁.startScript load).2 := by
  unfold startScript
  split
  · exact settle_effect hc _
  · exact settleScript_effect hc _ _
  · rename_i load address _
    have hn : Calm l (l₁.note (.asked address)) := hc.trans (note_calm l₁ trivial)
    simp only
    split
    · exact .calm hn
    · exact receiveScript_effect hn _ _

end Scripts

/-! ## Beginnings -/

theorem loadInline_calm (l : Loader) (load : Load) (source : String) (referrer : Option String) :
    Calm l (l.loadInline load source referrer).2 := by
  have hn : Calm l (l.note (.began load.name l.loads.length)) := note_calm l trivial
  obtain ⟨maps, hm⟩ := linkSource_snd (l.note (.began load.name l.loads.length)) l.loads.length
    { load with source := some source } source referrer
  simp only [loadInline, hm]
  exact hn.trans (Same.calm ⟨rfl, rfl⟩)

theorem startGraph_calm (l : Loader) (metadata : Metadata) (root : LoadedUnit) :
    Calm l (l.startGraph metadata root).2 :=
  (wantAll_wanted metadata l [root.name] root.dependencies).grows.calm

theorem startInline_calm (l : Loader) (purpose : Purpose) (name source : String)
    (referrer : Option String) (options : RequestOptions) :
    Calm l (l.startInline purpose name source referrer options).2 := by
  have hi := loadInline_calm l (l.inlineLoad name options) source referrer
  rcases h : l.loadInline (l.inlineLoad name options) source referrer with ⟨e | root, l'⟩
  · rw [h] at hi
    rw [startInline_of_error h]
    exact hi.trans (rejectGraph_calm l' purpose e)
  · rw [h] at hi
    rw [startInline_of_ok h]
    exact hi.trans (startGraph_calm l' _ root)

theorem startImport_calm (l : Loader) (specifier : String) (options : RequestOptions) :
    Calm l (l.startImport specifier options).2 := by
  unfold startImport
  split
  · exact settle_calm l _
  · simp only
    split
    · exact (joinAll_grows _ l _).calm
    · exact (join_grows l _ _).calm

theorem start_effect {a : Activity} (l : Loader) (request : Request) :
    Effect a l (l.start request).1 (l.start request).2 := by
  have hs := start_starts l request
  generalize l.start request = c at hs
  cases hs with
  | imports specifier => exact .calm (startImport_calm l _ _)
  | misnamed | taken => exact settle_effect (.refl l) _
  | defines | detached =>
    refine .calm (.trans ?_ (startInline_calm _ _ _ _ _ _))
    exact Same.calm ⟨rfl, rfl⟩
  | script load => exact startScript_effect (.refl l) _
  | namelessScript load =>
    apply startScript_effect
    exact Same.calm ⟨rfl, rfl⟩

/-! ## Steps -/

theorem frontier_calm {f : Frontier} {l l' : Loader} {e : LoadError}
    (h : Fails LoadEnds (f, l) (e, l')) : Calm l l' :=
  (frontier_fails h).1.calm

theorem branchEnds_calm {branch : Branch} {l l' : Loader} {e : LoadError}
    (h : BranchEnds (branch, l) (.error e, l')) : Calm l l' := by
  cases h with
  | @root id _ _ _ hm =>
    have hg := move_grows l id
    rw [hm] at hg
    exact hg.calm
  | graph he =>
    cases he with
    | fails hf => exact (frontier_calm hf).trans (Same.calm ⟨rfl, rfl⟩)

theorem branchesFail_calm {b : Branches} {l l' : Loader} {e : LoadError}
    (h : Fails BranchEnds (b, l) (e, l')) : Calm l l' := by
  rcases h.tasks_cases with ⟨-, rfl⟩ | ⟨branch, -, he⟩
  · exact .refl l'
  · exact branchEnds_calm he

theorem branches_calm {metadata : Metadata} {b b' : Branches} {l l' : Loader}
    (h : Gathering.Step (BranchStep metadata) BranchEnds (b, l) (b', l')) (hl : l.Sound)
    (hb : Branches.Sound l b) : Calm l l' := by
  obtain ⟨branch, rest, hp, ⟨branch', hs, -⟩ | ⟨r, he, -⟩⟩ := h.tasks_cases hb.numbered
  · have hm : branch ∈ b.tasks := hp.mem_iff.2 List.mem_cons_self
    exact (branchStep_spec hs hl (hb.tasks branch hm)).2.grows.calm
  · have hm : branch ∈ b.tasks := hp.mem_iff.2 List.mem_cons_self
    cases r with
    | ok g =>
      rw [(branchEnds_ok he (hb.tasks branch hm)).1]
      exact .refl l
    | error e => exact branchEnds_calm he

theorem Same.file {l l' : Loader} (h : Same l l') (u : LoadedUnit) :
    Same (l.file u) (l'.file u) := by
  unfold Loader.file
  rw [h.registry]
  split
  · exact h
  · constructor
    · rfl
    · simp only [note, h.world]

theorem Same.commit {l l' : Loader} (h : Same l l') (units : List LoadedUnit) :
    Same (l.commit units) (l'.commit units) := by
  induction units generalizing l l' with
  | nil => exact h
  | cons u rest ih =>
    have hf := h.file u
    have ho : Same (l.commitOne u) (l'.commitOne u) := ⟨hf.registry, hf.world⟩
    exact ih ho

/-- To file the root of a graph and to register the units below it is to register all units. -/
theorem file_commit_same (l : Loader) (g : Graph) :
    Same (l.commit g.units) ((l.file g.root).commit g.below) := by
  have ho : Same (l.commitOne g.root) (l.file g.root) := ⟨rfl, rfl⟩
  exact ho.commit g.below

theorem Same.evaluate {l l' : Loader} (h : Same l l') (name : String) :
    (l'.evaluate name).1 = (l.evaluate name).1 ∧ Same (l.evaluate name).2 (l'.evaluate name).2 := by
  unfold Loader.evaluate
  rw [h.registry, h.world]
  exact ⟨rfl, rfl, rfl⟩

section Settle

variable {a : Activity} {l : Loader}

theorem settleImport_effect {name : String} (ha : a.Evaluates name .exports) :
    Effect a l ((l.commit a.units).settleImport name).1
      ((l.commit a.units).settleImport name).2 := by
  unfold settleImport
  simp only [settle_settled]
  exact .evaluates ha (settle_same _ _)

theorem settleDefine_effect (l : Loader) (name : String) (mode : Option ModuleMode)
    (task : GraphTask) :
    Effect (.graph (.define name mode) task) l (l.settleDefine name mode task.graph).1
      (l.settleDefine name mode task.graph).2 := by
  have hc := file_commit_same l task.graph
  unfold settleDefine
  split
  · exact settle_effect (unclaim_same l name).calm _
  · simp only
    split
    · simp only [settle_settled]
      exact .registers (hc.trans ((unclaim_same _ name).trans (settle_same _ _)))
    · obtain ⟨hr, hs⟩ := hc.evaluate name
      simp only [settle_settled, hr]
      exact .evaluates ⟨rfl, rfl⟩ (hs.trans ((unclaim_same _ name).trans (settle_same _ _)))

theorem settleGraph_effect (l : Loader) (purpose : Purpose) (task : GraphTask) :
    Effect (.graph purpose task) l (l.settleGraph purpose task.graph).1
      (l.settleGraph purpose task.graph).2 := by
  cases purpose with
  | importModule name => exact settleImport_effect ⟨rfl, rfl⟩
  | define name mode => exact settleDefine_effect l name mode task
  | module =>
    unfold settleGraph
    simp only [settle_settled]
    exact .detaches rfl (settle_same _ _)

end Settle

/-- What every step of a request does to registry, realm and journal. -/
theorem advance_effect {a a' : Activity} {l l' : Loader} (h : Advance (a, l) (a', l'))
    (hl : l.Sound) (ha : a.Sound l) : Effect a l a' l' := by
  have hmove (id : Nat) {r : Option (Except LoadError LoadedUnit)} {l₁ : Loader}
      (hm : l.move id = (r, l₁)) : Calm l l₁ := by
    have hg := move_grows l id
    rw [hm] at hg
    exact hg.calm
  have hreject {e : LoadError} {l₁ : Loader} (hc : Calm l l₁) (hr : l₁.reject e = (a', l')) :
      Effect a l a' l' := by
    have he := settle_effect (a := a) hc (.error e)
    rw [reject] at hr
    rwa [hr] at he
  cases h with
  | tick | scriptWaits | branchesIdle => exact .calm (.refl l)
  | @start request _ _ _ hs =>
    have he := start_effect (a := .delayed 0 request) l request
    rwa [hs] at he
  | @scriptAnswered load address _ _ _ hs =>
    have he := receiveScript_effect (a := .script load address 0) (.refl l) load address
    rwa [hs] at he
  | rootWaits hm => exact .calm (hmove _ hm)
  | rootFails hm hr => exact hreject (hmove _ hm) hr
  | @rootArrives _ metadata _ u _ _ l₁ _ hm hs =>
    have hg := startGraph_calm l₁ metadata u
    rw [hs] at hg
    exact .calm ((hmove _ hm).trans hg)
  | @graph purpose task _ _ _ hs =>
    have ht : task.Sound l := by
      cases purpose <;> exact ha
    exact .calm (graphStep_spec hs hl ht).2.2.grows.calm
  | @graphFails purpose task e _ _ l₁ _ he hr =>
    have hb : BranchEnds (.loading task, l) (.error e, l₁) := .graph he
    have hg := rejectGraph_calm l₁ purpose e
    rw [hr] at hg
    exact .calm ((branchEnds_calm hb).trans hg)
  | @graphDone purpose task _ _ _ _ _ he hs =>
    cases he with
    | complete hv =>
      have hg := settleGraph_effect l purpose task
      rwa [hs] at hg
  | branches hs => exact .calm (branches_calm hs hl ha)
  | branchesFail hf hr => exact hreject (branchesFail_calm hf) hr
  | @branchesDone name metadata b graphs _ _ _ hv hs =>
    have hu : (Activity.branches name metadata b).units = graphs.flatMap Graph.units := by
      rw [Activity.units, values_of_values? hv]
    have ha : (Activity.branches name metadata b).Evaluates name .exports := ⟨rfl, rfl⟩
    have he := settleImport_effect (l := l) ha
    rw [commitAll_eq] at hs
    rwa [hu, hs] at he

/-! ## Rejections -/

/-- A body that fails fails with an instantiation. -/
theorem run_error_kind {body : Body} {imports : Dialect.Imports} {w w' : World} {e : LoadError}
    (h : World.run body imports w = (.error e, w')) : e.kind = .instantiate := by
  have hr : (body.linked.run imports w.realm).1 = .error e := congrArg Prod.fst h
  unfold Linked.run at hr
  split at hr
  · simp at hr
  · cases hr
    rfl

theorem fault_error_kind {r : Registry Body} {roots entered : List String}
    {s : Registry.Pass Body World} {e : LoadError} {w : World}
    (h : Registry.Fault World.run r roots entered s e w) : e.kind = .instantiate := by
  cases h with
  | missing | cyclic => rfl
  | body _ hrun => exact run_error_kind hrun

theorem evaluate_error_kind {l : Loader} (hr : l.registry.Resting) {name : String} {e : LoadError}
    (h : (l.evaluate name).1 = .error e) : e.kind = .instantiate := by
  have he := Registry.evaluate_evaluated World.run hr l.world name
  simp only [evaluate] at h
  generalize l.registry.evaluate World.run l.world name = out at he h
  cases he with
  | ok => simp at h
  | unknown | missing =>
    cases h
    rfl
  | fault _ _ _ hf =>
    cases h
    exact fault_error_kind hf

theorem evaluateDetached_error_kind {l : Loader} (hr : l.registry.Resting) {u : LoadedUnit}
    {e : LoadError} (h : (l.evaluateDetached u).1 = .error e) : e.kind = .instantiate := by
  have he := Registry.evaluateDetached_evaluated World.run hr l.world u.name u.dependencies u.body
  simp only [evaluateDetached] at h
  generalize l.registry.evaluateDetached World.run l.world u.name u.dependencies u.body = out
    at he h
  cases he with
  | missing =>
    cases h
    rfl
  | ran _ _ hrun =>
    simp only at h
    subst h
    exact run_error_kind hrun
  | fault _ _ hf =>
    cases h
    exact fault_error_kind hf

/-- A request that has not come to the evaluation of its module is not settled, or rejected for
another reason than a failed instantiation. -/
def Activity.IsEarly : Activity → Prop
  | .settled (.ok _) => False
  | .settled (.error e) => e.kind ≠ .instantiate
  | _ => True

/-- Before the evaluation of its module a request leaves registry and realm as they are. -/
theorem Effect.of_early {a a' : Activity} {l l' : Loader} (h : Effect a l a' l')
    (hr : l.registry.Resting) (ha' : a'.IsEarly) :
    l'.registry = l.registry ∧ l'.world.realm = l.world.realm := by
  have hrest : (l.commit a.units).registry.Resting :=
    ((commit_settling l a.units).registers hr).resting
  cases h with
  | calm hc => exact ⟨hc.registry, hc.realm⟩
  | @script r _ _ _ _ _ he =>
    cases r with
    | ok => exact ha'.elim
    | error e => exact absurd (he e rfl) ha'
  | registers => exact ha'.elim
  | @evaluates name =>
    cases he : ((l.commit a.units).evaluate name).1 with
    | ok =>
      rw [he] at ha'
      exact ha'.elim
    | error e =>
      rw [he] at ha'
      exact absurd (evaluate_error_kind hrest he) ha'
  | @detaches u =>
    cases he : ((l.commit a.units).evaluateDetached u).1 with
    | ok =>
      rw [he] at ha'
      exact ha'.elim
    | error e =>
      rw [he] at ha'
      exact absurd (evaluateDetached_error_kind hrest he) ha'

/-- A row of steps that does not come to the evaluation of the module leaves registry and realm as
they are. -/
theorem early_of_advances {c d : Activity × Loader} (h : ReflTransGen Advance c d)
    (hl : c.2.Sound) (ha : c.1.Sound c.2) (hr : c.2.registry.Resting) (hd : d.1.IsEarly) :
    d.2.registry = c.2.registry ∧ d.2.world.realm = c.2.world.realm := by
  suffices hs : (d.2.Sound ∧ d.1.Sound d.2 ∧ d.2.registry.Resting) ∧
      (d.1.IsEarly → d.2.registry = c.2.registry ∧ d.2.world.realm = c.2.world.realm) from
    hs.2 hd
  clear hd
  induction h with
  | refl => exact ⟨⟨hl, ha, hr⟩, fun _ => ⟨rfl, rfl⟩⟩
  | @tail m d _ hstep ih =>
    obtain ⟨⟨hl, ha, hr⟩, ih⟩ := ih
    have ht := advance_steps hstep hl ha
    refine ⟨⟨ht.sound, ht.activity, advance_resting hstep hl ha hr⟩, fun hd => ?_⟩
    have hm : m.1.IsEarly := by
      obtain ⟨a, l⟩ := m
      cases a with
      | settled => exact absurd hstep not_advance_settled
      | _ => trivial
    obtain ⟨hreg, hrealm⟩ := (advance_effect hstep hl ha).of_early hr hd
    obtain ⟨hreg', hrealm'⟩ := ih hm
    exact ⟨hreg.trans hreg', hrealm.trans hrealm'⟩

end Loader

end ModuleLoader

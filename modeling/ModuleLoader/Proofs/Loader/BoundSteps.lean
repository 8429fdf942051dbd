import ModuleLoader.Proofs.Loader.BoundImports

/-! # Steps of a loader whose imports are bound

A step of a request leaves all that is loaded and registered bound, and the errors that a request
holds, or is settled with, excused.
-/

namespace ModuleLoader

open Dialect Relation

namespace Gathering

variable {σ τ α : Type} {outside : LoadError → Prop} {goes : τ × σ → τ × σ → Prop}
  {ends : τ × σ → Except LoadError α × σ → Prop} {g g' : Gathering τ LoadError α} {s s' : σ}

/-- The errors to which tasks have come are excused. -/
def Excused (outside : LoadError → Prop) (g : Gathering τ LoadError α) : Prop :=
  ∀ e, .error e ∈ g.outcomes → e.Excused outside

theorem excused_ofTasks (ts : List τ) : (ofTasks ts : Gathering τ LoadError α).Excused outside := by
  intro e he
  rw [outcomes_ofTasks] at he
  cases he

theorem Step.excused (h : Step goes ends (g, s) (g', s')) (hn : g.Numbered)
    (hg : g.Excused outside)
    (he : ∀ t ∈ g.tasks, ∀ e, ends (t, s) (.error e, s') → e.Excused outside) :
    g'.Excused outside := by
  intro e hm
  obtain ⟨t, rest, hp, ⟨_, -, -, ho⟩ | ⟨r, hr, -, ho⟩⟩ := h.tasks_cases hn
  · exact hg e (ho ▸ hm)
  · rcases List.mem_cons.1 (ho.mem_iff.1 hm) with rfl | hm
    · exact he t (hp.mem_iff.2 List.mem_cons_self) e hr
    · exact hg e hm

theorem Fails.excused {e : LoadError} (h : Fails ends (g, s) (e, s')) (hg : g.Excused outside)
    (he : ∀ t ∈ g.tasks, ends (t, s) (.error e, s') → e.Excused outside) : e.Excused outside := by
  rcases h.tasks_cases with ⟨hm, -⟩ | ⟨t, ht, hend⟩
  · exact hg e hm
  · exact he t ht hend

end Gathering

namespace Loader

open Gathering

variable {outside : LoadError → Prop} {l l' : Loader} {e : LoadError}

/-- The errors in the frontier of a branch are excused. -/
def Branch.Excused (outside : LoadError → Prop) : Branch → Prop
  | .root _ => True
  | .loading task => task.frontier.Excused outside

/-- The errors that a request holds are excused, and so is the one that it is settled with. -/
def Activity.Excused (outside : LoadError → Prop) : Activity → Prop
  | .graph _ task => task.frontier.Excused outside
  | .branches _ _ b => Gathering.Excused outside b ∧ ∀ branch ∈ b.tasks, branch.Excused outside
  | .settled (.error e) => e.Excused outside
  | _ => True

/-- A request in a loader that binds, with excused errors only. -/
structure InOrder (outside : LoadError → Prop) (c : Activity × Loader) : Prop where
  loader : c.2.Binds outside
  activity : c.1.Excused outside

/-! ## Settling -/

theorem Binds.settle (h : l.Binds outside) {r : Except LoadError Answer}
    (hr : ∀ e, r = .error e → e.Excused outside) : InOrder outside (l.settle r) := by
  refine ⟨h.pauses (settle_pauses l r), ?_⟩
  rw [settle_settled]
  cases r with
  | ok a => trivial
  | error e => exact hr e rfl

theorem Binds.reject (h : l.Binds outside) (he : e.Excused outside) :
    InOrder outside (l.reject e) :=
  h.settle fun _ h => by
    cases h
    exact he

theorem Binds.rejectGraph (h : l.Binds outside) (purpose : Purpose) (he : e.Excused outside) :
    InOrder outside (l.rejectGraph purpose e) := by
  cases purpose with
  | define name mode => exact (h.pauses (unclaim_pauses l name)).reject he
  | _ => exact h.reject he

theorem Binds.reject_nameOf (h : l.Binds outside) {specifier : String} {referrer : Option String}
    (he : l.nameOf specifier referrer = .error e) : InOrder outside (l.reject e) :=
  h.reject (LoadError.excused_of_not (normalize_not_isNotImported he))

/-! ## Scripts -/

theorem Binds.runSource (h : l.Binds outside) (load : Load) (text : String) :
    (l.runSource load text).2.Binds outside ∧
      ∀ e, (l.runSource load text).1 = .error e → e.Excused outside := by
  rw [Loader.runSource]
  split
  · rename_i e' hc
    refine ⟨h, fun e he => ?_⟩
    cases he
    exact fun _ => h.guarded.complete_error hc
  · rename_i load' hc
    have hk := h.pauses (keepMap_pauses l load')
    simp only [h.guarded.complete_ok hc]
    refine ⟨hk.pauses ⟨rfl, rfl, rfl, id⟩, fun e he => ?_⟩
    exact LoadError.excused_of_not (runScript_not_isNotImported he)

theorem Binds.settleScript (h : l.Binds outside) (load : Load) (text : String) :
    InOrder outside (l.settleScript load text) := by
  obtain ⟨hb, he⟩ := h.runSource load text
  exact hb.settle fun e hm => he e (map_eq_error_iff.1 hm)

theorem Binds.receiveScript (h : l.Binds outside) (load : Load) (address : String) :
    InOrder outside (l.receiveScript load address) := by
  rw [Loader.receiveScript]
  split
  · rename_i e ht
    exact h.reject fun _ => h.guarded.files e ⟨address, ht⟩
  · exact h.settleScript load _

theorem Binds.startScript (h : l.Binds outside) (load : Load) :
    InOrder outside (l.startScript load) := by
  rw [Loader.startScript]
  split
  · rename_i e hp
    exact h.reject fun _ => h.guarded.prepare hp
  · exact h.settleScript _ _
  · rename_i load' address hp
    have hn := h.pauses (note_pauses l (.asked address))
    simp only
    split
    · exact ⟨hn, trivial⟩
    · exact hn.receiveScript load' address

/-! ## Beginnings -/

theorem Binds.startGraph (h : l.Binds outside) {metadata : Metadata} {root : LoadedUnit}
    {task : GraphTask} (hs : l.startGraph metadata root = (task, l')) :
    l'.Binds outside ∧ task.frontier.Excused outside := by
  have hp := startGraph_pauses l metadata root
  rw [hs] at hp
  refine ⟨h.pauses hp, ?_⟩
  cases hs
  exact excused_ofTasks _

theorem Binds.startInline (h : l.Binds outside) (purpose : Purpose) (name source : String)
    (referrer : Option String) (options : RequestOptions) :
    InOrder outside (l.startInline purpose name source referrer options) := by
  have hi := h.loadInline (l.inlineLoad name options) source referrer
  rcases he : l.loadInline (l.inlineLoad name options) source referrer with ⟨e | root, m⟩
  · rw [he] at hi
    rw [startInline_of_error he]
    exact hi.1.rejectGraph purpose hi.2
  · rw [he] at hi
    rw [startInline_of_ok he]
    have ht := startGraph_pauses m (l.metadataOf options) root
    exact ⟨hi.1.pauses ht, excused_ofTasks _⟩

theorem Binds.startImport (h : l.Binds outside) (specifier : String) (options : RequestOptions) :
    InOrder outside (l.startImport specifier options) := by
  rw [Loader.startImport]
  split
  · rename_i e hn
    exact h.reject_nameOf hn
  · simp only
    split
    · refine ⟨h.pauses ((joinAll_joins _ l _).pauses), excused_ofTasks _, fun branch hm => ?_⟩
      rw [tasks_ofTasks] at hm
      obtain ⟨id, rfl⟩ := joinAll_roots _ l _ hm
      trivial
    · exact ⟨h.pauses (join_pauses l _ _), trivial⟩

theorem Binds.start (h : l.Binds outside) (request : Request) :
    InOrder outside (l.start request) := by
  have hfresh := h.pauses (freshName_pauses l)
  have hs := start_starts l request
  generalize l.start request = c at hs
  cases hs with
  | imports specifier => exact h.startImport _ _
  | misnamed hn => exact h.reject_nameOf hn
  | taken name =>
    refine h.reject (LoadError.excused_of_not ?_)
    rintro ⟨n, s, he⟩
    cases he
  | defines => exact (h.pauses (claim_pauses l _)).startInline _ _ _ _ _
  | detached => exact hfresh.startInline _ _ _ _ _
  | script load => exact h.startScript _
  | namelessScript load => exact hfresh.startScript _

/-! ## Steps of graphs and branches -/

theorem Binds.loadWaits (h : l.Binds outside) {id id' : Nat}
    (hw : LoadWaits (id, l) (id', l')) : l'.Binds outside := by
  cases hw with
  | mk hm =>
    have hb := h.move id
    rwa [hm] at hb

theorem Binds.loadEnds (h : l.Binds outside) {id : Nat} {r : Except LoadError LoadedUnit}
    (he : LoadEnds (id, l) (r, l')) : l'.Binds outside ∧ Sane outside r := by
  cases he with
  | mk hm => exact h.moved hm

theorem Binds.frontierStep (h : l.Binds outside) {f f' : Frontier} (hn : f.Numbered)
    (hf : f.Excused outside) (hs : Gathering.Step LoadWaits LoadEnds (f, l) (f', l')) :
    l'.Binds outside ∧ f'.Excused outside := by
  refine ⟨?_, hs.excused hn hf fun id _ e he => (h.loadEnds he).2⟩
  obtain ⟨id, rest, -, ⟨id', hw, -⟩ | ⟨r, he, -⟩⟩ := hs.tasks_cases hn
  · exact h.loadWaits hw
  · exact (h.loadEnds he).1

theorem Binds.frontierFails (h : l.Binds outside) {f : Frontier} (hf : f.Excused outside)
    (hs : Fails LoadEnds (f, l) (e, l')) : l'.Binds outside ∧ e.Excused outside := by
  refine ⟨?_, hs.excused hf fun id _ he => (h.loadEnds he).2⟩
  rcases hs.tasks_cases with ⟨-, rfl⟩ | ⟨id, -, he⟩
  · exact h
  · exact (h.loadEnds he).1

theorem Binds.graphStep (h : l.Binds outside) {task task' : GraphTask} (ht : task.Sound l)
    (hf : task.frontier.Excused outside) (hs : GraphStep (task, l) (task', l')) :
    l'.Binds outside ∧ task'.frontier.Excused outside := by
  cases hs with
  | load hs => exact h.frontierStep ht.numbered hf hs
  | @expand _ _ _ _ units _ _ he =>
    have hp := expand_pauses l task units
    rw [he] at hp
    refine ⟨h.pauses hp, ?_⟩
    cases he
    exact excused_ofTasks _
  | idle => exact ⟨h, hf⟩

theorem Binds.graphEnds (h : l.Binds outside) {task : GraphTask}
    (hf : task.frontier.Excused outside) {r : Except LoadError Graph}
    (hs : GraphEnds (task, l) (r, l')) :
    l'.Binds outside ∧ ∀ e, r = .error e → e.Excused outside := by
  cases hs with
  | complete => exact ⟨h, fun _ h => by cases h⟩
  | fails hs =>
    obtain ⟨hb, he⟩ := h.frontierFails hf hs
    refine ⟨hb.pauses (release_pauses _ _), fun e h => ?_⟩
    cases h
    exact he

theorem Binds.branchStep (h : l.Binds outside) {metadata : Metadata} {branch branch' : Branch}
    (hb : branch.Sound l) (he : branch.Excused outside)
    (hs : BranchStep metadata (branch, l) (branch', l')) :
    l'.Binds outside ∧ branch'.Excused outside := by
  cases hs with
  | @wait id _ _ hm =>
    have hmove := h.move id
    rw [hm] at hmove
    exact ⟨hmove, trivial⟩
  | arrive hm hg => exact (h.moved hm).1.startGraph hg
  | graph hs => exact h.graphStep hb he hs

theorem Binds.branchEnds (h : l.Binds outside) {branch : Branch} (he : branch.Excused outside)
    {r : Except LoadError Graph} (hs : BranchEnds (branch, l) (r, l')) :
    l'.Binds outside ∧ ∀ e, r = .error e → e.Excused outside := by
  cases hs with
  | root hm =>
    obtain ⟨hb, hsane⟩ := h.moved hm
    refine ⟨hb, fun e h => ?_⟩
    cases h
    exact hsane
  | graph hs => exact h.graphEnds he hs

theorem Binds.branchesStep (h : l.Binds outside) {metadata : Metadata} {b b' : Branches}
    (hsound : Branches.Sound l b) (hb : Gathering.Excused outside b)
    (ht : ∀ branch ∈ b.tasks, branch.Excused outside)
    (hs : Gathering.Step (BranchStep metadata) BranchEnds (b, l) (b', l')) :
    l'.Binds outside ∧ Gathering.Excused outside b' ∧
      ∀ branch ∈ b'.tasks, branch.Excused outside := by
  have hb' := hs.excused hsound.numbered hb fun branch hm e he =>
    (h.branchEnds (ht branch hm) he).2 e rfl
  obtain ⟨branch, rest, hp, hcases⟩ := hs.tasks_cases hsound.numbered
  have hmem : branch ∈ b.tasks := hp.mem_iff.2 List.mem_cons_self
  have hrest : ∀ c ∈ rest, c.Excused outside := fun c hc =>
    ht c (hp.mem_iff.2 (List.mem_cons_of_mem _ hc))
  rcases hcases with ⟨branch', hstep, hp', -⟩ | ⟨r, he, hp', -⟩
  · obtain ⟨hl', hbranch⟩ := h.branchStep (hsound.tasks branch hmem) (ht branch hmem) hstep
    exact ⟨hl', hb', fun c hc => List.forall_mem_cons.2 ⟨hbranch, hrest⟩ c (hp'.mem_iff.1 hc)⟩
  · exact ⟨(h.branchEnds (ht branch hmem) he).1, hb', fun c hc => hrest c (hp'.mem_iff.1 hc)⟩

theorem Binds.branchesFail (h : l.Binds outside) {b : Branches}
    (hb : Gathering.Excused outside b) (ht : ∀ branch ∈ b.tasks, branch.Excused outside)
    (hs : Fails BranchEnds (b, l) (e, l')) : l'.Binds outside ∧ e.Excused outside := by
  refine ⟨?_, hs.excused hb fun branch hm he => (h.branchEnds (ht branch hm) he).2 e rfl⟩
  rcases hs.tasks_cases with ⟨-, rfl⟩ | ⟨branch, hm, he⟩
  · exact h
  · exact (h.branchEnds (ht branch hm) he).1

/-! ## The end of a graph -/

section Settle

variable (h : l.Binds outside) (hr : l.registry.Resting)

include h hr

theorem Binds.settleImport (name : String) : InOrder outside (l.settleImport name) :=
  (h.evaluate hr name).settle fun _ he =>
    LoadError.excused_of_not (evaluate_not_isNotImported hr h.registry (map_eq_error_iff.1 he))

theorem Binds.settleUnits {units : List LoadedUnit} (hu : ∀ u ∈ units, l.Arrived u)
    (name : String) : InOrder outside ((l.commit units).settleImport name) :=
  (h.commit fun u hm => h.arrived (hu u hm)).settleImport
    ((commit_settling l units).registers hr).resting name

theorem Binds.settleDefine {name : String} {mode : Option ModuleMode} {g : Graph}
    (hu : ∀ u ∈ g.units, l.Arrived u) : InOrder outside (l.settleDefine name mode g) := by
  obtain ⟨hroot, hbelow⟩ := List.forall_mem_cons.1 hu
  have hb : ((l.file g.root).commit g.below).Binds outside :=
    (h.file (h.arrived hroot)).commit fun u hm => h.arrived (hbelow u hm)
  have hrest : ((l.file g.root).commit g.below).registry.Resting :=
    (((file_settling l g.root).trans (commit_settling _ g.below)).registers hr).resting
  rw [Loader.settleDefine]
  split
  · refine (h.pauses (unclaim_pauses l name)).reject (LoadError.excused_of_not ?_)
    rintro ⟨n, s, he⟩
    cases he
  · simp only
    split
    · exact (hb.pauses (unclaim_pauses _ name)).settle fun _ he => by cases he
    · refine ((hb.evaluate hrest name).pauses (unclaim_pauses _ name)).settle fun e he => ?_
      exact LoadError.excused_of_not
        (evaluate_not_isNotImported hrest hb.registry (map_eq_error_iff.1 he))

theorem Binds.settleGraph (purpose : Purpose) {g : Graph} (hu : ∀ u ∈ g.units, l.Arrived u) :
    InOrder outside (l.settleGraph purpose g) := by
  cases purpose with
  | importModule name => exact h.settleUnits hr hu name
  | define name mode => exact h.settleDefine hr hu
  | module =>
    obtain ⟨hroot, hbelow⟩ := List.forall_mem_cons.1 hu
    have hb : (l.commit g.below).Binds outside :=
      h.commit fun u hm => h.arrived (hbelow u hm)
    have hrest := ((commit_settling l g.below).registers hr).resting
    refine (hb.evaluateDetached hrest g.root).settle fun e he => ?_
    exact LoadError.excused_of_not (evaluateDetached_not_isNotImported hrest hb.registry
      (h.arrived hroot) (map_eq_error_iff.1 he))

end Settle

/-- A step of a request keeps all imports bound and all errors excused. -/
theorem InOrder.advance {a a' : Activity} (h : InOrder outside (a, l)) (ha : a.Sound l)
    (hr : l.registry.Resting) (hs : Advance (a, l) (a', l')) : InOrder outside (a', l') := by
  obtain ⟨hb, he⟩ := h
  cases hs with
  | tick | scriptWaits => exact ⟨hb, trivial⟩
  | branchesIdle => exact ⟨hb, he⟩
  | @start request _ _ _ hstart => exact hstart ▸ hb.start request
  | @scriptAnswered load address _ _ _ hstep => exact hstep ▸ hb.receiveScript load address
  | @rootWaits _ _ id _ _ hm =>
    have hmove := hb.move id
    rw [hm] at hmove
    exact ⟨hmove, trivial⟩
  | rootFails hm hreject =>
    obtain ⟨hb', hsane⟩ := hb.moved hm
    exact hreject ▸ hb'.reject hsane
  | rootArrives hm hgraph =>
    obtain ⟨hb', ht⟩ := (hb.moved hm).1.startGraph hgraph
    exact ⟨hb', ht⟩
  | @graph purpose task _ _ _ hstep =>
    have ht : task.Sound l := by
      cases purpose <;> exact ha
    obtain ⟨hb', he'⟩ := hb.graphStep ht he hstep
    exact ⟨hb', he'⟩
  | graphFails hends hreject =>
    obtain ⟨hb', he'⟩ := hb.graphEnds he hends
    exact hreject ▸ hb'.rejectGraph _ (he' _ rfl)
  | @graphDone purpose task _ _ _ _ _ hends hsettle =>
    cases hends with
    | complete hv =>
      have ht : task.Sound l := by
        cases purpose <;> exact ha
      exact hsettle ▸ hb.settleGraph hr purpose (complete_spec ht hv).1
  | branches hstep =>
    obtain ⟨hb', he'⟩ := hb.branchesStep ha he.1 he.2 hstep
    exact ⟨hb', he'⟩
  | branchesFail hfails hreject =>
    obtain ⟨hb', he'⟩ := hb.branchesFail he.1 he.2 hfails
    exact hreject ▸ hb'.reject he'
  | @branchesDone name metadata b graphs _ _ _ hv hsettle =>
    rw [commitAll_eq] at hsettle
    refine hsettle ▸ hb.settleUnits hr (fun u hu => ?_) name
    obtain ⟨g, hg, hu⟩ := List.mem_flatMap.1 hu
    have hvalues : g ∈ Gathering.values b := by
      rwa [Gathering.values_of_values? hv]
    exact Branches.Sound.values ha g hvalues u hu

end Loader

end ModuleLoader

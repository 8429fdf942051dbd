import ModuleLoader.Proofs.Loader.Departures

/-! # Records between steps

No step of a request leaves a record in the middle of its evaluation. Only the end of a request
changes the registry.
-/

namespace ModuleLoader.Loader

open Gathering

/-! ## Beginnings -/

section Start

variable (l : Loader)

@[simp] theorem reported_registry {α : Type} (r : Except LoadError α) :
    (l.reported r).2.registry = l.registry := by
  cases r <;> rfl

@[simp] theorem settle_registry (r : Except LoadError Answer) :
    (l.settle r).2.registry = l.registry :=
  reported_registry l r

@[simp] theorem reject_registry (e : LoadError) : (l.reject e).2.registry = l.registry := rfl

@[simp] theorem rejectGraph_registry (purpose : Purpose) (e : LoadError) :
    (l.rejectGraph purpose e).2.registry = l.registry := by
  cases purpose <;> rfl

@[simp] theorem keepMap_registry (load : Load) : (l.keepMap load).registry = l.registry := by
  obtain ⟨maps, h⟩ := keepMap_eq l load
  rw [h]

@[simp] theorem settleScript_registry (load : Load) (text : String) :
    (l.settleScript load text).2.registry = l.registry := by
  rw [settleScript]
  simp only [settle_registry]
  rw [runSource]
  split
  · rfl
  · simp only
    split <;> simp

@[simp] theorem receiveScript_registry (load : Load) (address : String) :
    (l.receiveScript load address).2.registry = l.registry := by
  rw [receiveScript]
  split <;> simp

@[simp] theorem startScript_registry (load : Load) :
    (l.startScript load).2.registry = l.registry := by
  rw [startScript]
  split
  · simp
  · simp
  · simp only
    split
    · rfl
    · exact receiveScript_registry (l.note _) _ _

@[simp] theorem joinAll_registry (metadata : Metadata) (names : List String) :
    (joinAll metadata l names).2.registry = l.registry :=
  (joinAll_grows metadata l names).registry

@[simp] theorem startImport_registry (specifier : String) (options : RequestOptions) :
    (l.startImport specifier options).2.registry = l.registry := by
  rw [startImport]
  split
  · simp
  · simp only
    split
    · exact joinAll_registry l _ _
    · exact (join_grows l _ _).registry

@[simp] theorem startGraph_registry (metadata : Metadata) (root : LoadedUnit) :
    (l.startGraph metadata root).2.registry = l.registry :=
  (wantAll_wanted metadata l [root.name] root.dependencies).grows.registry

@[simp] theorem startInline_registry (purpose : Purpose) (name source : String)
    (referrer : Option String) (options : RequestOptions) :
    (l.startInline purpose name source referrer options).2.registry = l.registry := by
  have hl (load : Load) : (l.loadInline load source referrer).2.registry = l.registry := by
    simp only [loadInline]
    rw [(linkSource_snd _ _ _ _ _).choose_spec]
    rfl
  rcases h : l.loadInline (l.inlineLoad name options) source referrer with ⟨e | root, l'⟩
  · rw [startInline_of_error h, rejectGraph_registry, ← hl, h]
  · rw [startInline_of_ok h, startGraph_registry, ← hl, h]

/-- Nothing is registered when a request begins. -/
theorem start_registry (request : Request) : (l.start request).2.registry = l.registry := by
  have hs := start_starts l request
  generalize l.start request = c at hs
  cases hs with
  | imports specifier => exact startImport_registry l _ _
  | misnamed | taken => rfl
  | defines | detached => exact startInline_registry _ _ _ _ _ _
  | script load | namelessScript load => exact startScript_registry _ _

end Start

/-! ## Steps -/

variable {a a' : Activity} {l l' : Loader}

theorem branches_registry {metadata : Metadata} {b b' : Branches}
    (h : Gathering.Step (BranchStep metadata) BranchEnds (b, l) (b', l')) (hl : l.Sound)
    (hb : Branches.Sound l b) : l'.registry = l.registry := by
  obtain ⟨branch, rest, hp, ⟨branch', hs, -⟩ | ⟨r, he, -⟩⟩ := h.tasks_cases hb.numbered
  · have hm : branch ∈ b.tasks := hp.mem_iff.2 List.mem_cons_self
    exact (branchStep_spec hs hl (hb.tasks branch hm)).2.grows.registry
  · have hm : branch ∈ b.tasks := hp.mem_iff.2 List.mem_cons_self
    cases r with
    | ok g => rw [(branchEnds_ok he (hb.tasks branch hm)).1]
    | error e => exact (branchEnds_fades he).registry

/-- No step leaves a record in the middle of its evaluation. -/
theorem advance_resting (h : Advance (a, l) (a', l')) (hl : l.Sound) (ha : a.Sound l)
    (hr : l.registry.Resting) : l'.registry.Resting := by
  have hsame (h : l'.registry = l.registry) : l'.registry.Resting := by rwa [h]
  cases h with
  | tick | scriptWaits | branchesIdle => exact hr
  | @start request _ _ _ hs =>
    have he := start_registry l request
    rw [hs] at he
    exact hsame he
  | @scriptAnswered load address _ _ _ hs =>
    have he := receiveScript_registry l load address
    rw [hs] at he
    exact hsame he
  | @rootWaits _ _ id _ _ hm =>
    have hg := move_grows l id
    rw [hm] at hg
    exact hsame hg.registry
  | @rootFails _ _ id e _ _ l₁ _ hm hs =>
    have hg := move_grows l id
    have he := reject_registry l₁ e
    rw [hm] at hg
    rw [hs] at he
    exact hsame (he.trans hg.registry)
  | @rootArrives _ metadata id u _ _ l₁ _ hm hs =>
    have hg := move_grows l id
    have he := startGraph_registry l₁ metadata u
    rw [hm] at hg
    rw [hs] at he
    exact hsame (he.trans hg.registry)
  | @graph purpose task _ _ _ hs =>
    have ht : task.Sound l := by
      cases purpose <;> exact ha
    exact hsame (graphStep_spec hs hl ht).2.2.grows.registry
  | @graphFails purpose task e _ _ l₁ _ hf hs =>
    have he := rejectGraph_registry l₁ purpose e
    have hf : BranchEnds (.loading task, l) (.error e, l₁) := .graph hf
    rw [hs] at he
    exact hsame (he.trans (branchEnds_fades hf).registry)
  | @graphDone purpose _ g _ _ _ _ he hs =>
    have hset := settleGraph_settling l purpose g
    cases he with
    | complete hv =>
      rw [hs] at hset
      exact (hset.registers hr).resting
  | branches hs => exact hsame (branches_registry hs hl ha)
  | @branchesFail _ _ _ e _ _ l₁ _ hf hs =>
    have he := reject_registry l₁ e
    rw [hs] at he
    exact hsame (he.trans (branches_fades hf).registry)
  | @branchesDone name _ _ graphs _ _ _ hv hs =>
    rw [commitAll_eq] at hs
    have hset := (commit_settling l (graphs.flatMap Graph.units)).trans
      (settleImport_settling _ name)
    rw [hs] at hset
    exact (hset.registers hr).resting

end ModuleLoader.Loader

import ModuleLoader.Proofs.Loader.Compilations

/-! # Steps of a loader that keeps source maps

Where the standard stages make a source map of every module, a step puts the map of what it compiles
into the index, and touches no other entry of a module.
-/

namespace ModuleLoader

open Dialect

/-- A load of a module that is on its way will have a source map. -/
def LoadState.Maps : LoadState → Prop
  | .created _ metadata => metadata.sourceMaps = true
  | .waiting load _ _ => load.kind = .module ∧ load.metadata.sourceMaps = true
  | .finished _ => True

namespace Loader

open Gathering

/-- The graph of a branch is loaded with source maps. -/
def Branch.Maps : Branch → Prop
  | .root _ => True
  | .loading task => task.metadata.sourceMaps = true

/-- The modules of a request are loaded with source maps. -/
def Activity.Maps : Activity → Prop
  | .script load _ _ => load.kind = .script
  | .root _ metadata _ => metadata.sourceMaps = true
  | .graph _ task => task.metadata.sourceMaps = true
  | .branches _ metadata b => metadata.sourceMaps = true ∧ ∀ branch ∈ b.tasks, branch.Maps
  | _ => True

/-- A loader makes a source map of every module, and goes through the standard stages. -/
structure Maps (l : Loader) : Prop where
  options : l.options.sourceMaps = true
  stages : ∃ extension, l.stages = .standard extension (some Dialect.compile)
  loads : ∀ st ∈ l.loads, st.Maps

/-- No load has ended, and the entries of modules are the same. -/
structure Idles (l l' : Loader) : Prop where
  options : l'.options = l.options
  stages : l'.stages = l.stages
  entries : ∀ n, l'.sourceMaps.get? n .module = l.sourceMaps.get? n .module
  ended : ∀ {id : Nat} {r : Except LoadError LoadedUnit},
    l'.loads[id]? = some (.finished r) ↔ l.loads[id]? = some (.finished r)
  loads : ∀ st ∈ l'.loads, st ∈ l.loads ∨ st.Maps

/-- A load moves, or none does, and after that no load ends. -/
def Works (l l' : Loader) : Prop :=
  ∃ m, (m = l ∨ ∃ id, m = (l.move id).2) ∧ Idles m l'

/-- What was compiled between two loaders: the entry of that module is the new one, and what has
arrived since was linked from its code. -/
structure Compiles (l l' : Loader) (c : Option Compilation) : Prop where
  maps : l'.Maps
  completed : ∀ c' ∈ c, ∃ text, c'.load.CompletedFrom text
  entries : ∀ n, l'.sourceMaps.get? n .module =
    (l.sourceMaps.keep (c.map Compilation.load)).get? n .module
  fresh : ∀ c' ∈ c, l.isFinished c'.id = false
  arrived : ∀ {id : Nat} {u : LoadedUnit}, l'.loads[id]? = some (.finished (.ok u)) →
    l.loads[id]? = some (.finished (.ok u)) ∨ ∃ c' text, c = some c' ∧ c'.id = id ∧
      c'.load.name = u.name ∧ c'.load.CompletedFrom text ∧ u.LinkedFrom text

variable {l l' l'' m : Loader} {c : Option Compilation}

/-! ## Loaders at rest -/

theorem Idles.of_eq (hl : l'.loads = l.loads) (ho : l'.options = l.options)
    (hs : l'.stages = l.stages) (he : l'.sourceMaps = l.sourceMaps) : Idles l l' :=
  ⟨ho, hs, fun n => by rw [he], by rw [hl], fun st hst => Or.inl (hl ▸ hst)⟩

theorem Idles.refl (l : Loader) : Idles l l := .of_eq rfl rfl rfl rfl

theorem Idles.trans (h : Idles l l') (h' : Idles l' l'') : Idles l l'' := by
  refine ⟨h'.options.trans h.options, h'.stages.trans h.stages,
    fun n => (h'.entries n).trans (h.entries n), h'.ended.trans h.ended, fun st hst => ?_⟩
  rcases h'.loads st hst with hst | hst
  · exact h.loads st hst
  · exact Or.inr hst

theorem Idles.maps (h : Idles l l') (hl : l.Maps) : l'.Maps := by
  refine ⟨h.options ▸ hl.options, h.stages ▸ hl.stages, fun st hst => ?_⟩
  rcases h.loads st hst with hst | hst
  · exact hl.loads st hst
  · exact hst

theorem Idles.isFinished (h : Idles l l') (id : Nat) : l'.isFinished id = l.isFinished id := by
  rw [Bool.eq_iff_iff, isFinished_iff, isFinished_iff]
  exact exists_congr fun r => h.ended

theorem Idles.works (h : Idles l l') : Works l l' := ⟨l, Or.inl rfl, h⟩

theorem Works.of_move (id : Nat) (h : Idles (l.move id).2 l') : Works l l' :=
  ⟨_, Or.inr ⟨id, rfl⟩, h⟩

theorem Works.idles (h : Works l l') (h' : Idles l' l'') : Works l l'' := by
  obtain ⟨m, hm, hi⟩ := h
  exact ⟨m, hm, hi.trans h'⟩

theorem reported_idles {α : Type} (l : Loader) (r : Except LoadError α) :
    Idles l (l.reported r).2 := by
  cases r <;> exact .of_eq rfl rfl rfl rfl

theorem settle_idles (l : Loader) (r : Except LoadError Answer) : Idles l (l.settle r).2 :=
  reported_idles l r

theorem reject_idles {e : LoadError} {a : Activity} (h : l.reject e = (a, l')) : Idles l l' := by
  have hs := settle_idles l (.error e)
  rw [reject] at h
  rwa [h] at hs

theorem rejectGraph_idles (l : Loader) (purpose : Purpose) (e : LoadError) :
    Idles l (l.rejectGraph purpose e).2 := by
  cases purpose <;> exact .of_eq rfl rfl rfl rfl

theorem file_idles (l : Loader) (u : LoadedUnit) : Idles l (l.file u) := by
  rw [file]
  split
  · exact .refl l
  · exact .of_eq rfl rfl rfl rfl

theorem commit_idles (l : Loader) (units : List LoadedUnit) : Idles l (l.commit units) := by
  induction units generalizing l with
  | nil => exact .refl l
  | cons u rest ih =>
    rw [commit_cons]
    have hp (l : Loader) : Idles l { l with pending := l.pending.erase u.name } :=
      .of_eq rfl rfl rfl rfl
    exact ((file_idles l u).trans (hp _)).trans (ih _)

theorem settleImport_idles (l : Loader) (name : String) : Idles l (l.settleImport name).2 := by
  have he : Idles l (l.evaluate name).2 := .of_eq rfl rfl rfl rfl
  exact he.trans (settle_idles _ _)

theorem settleDefine_idles (l : Loader) (name : String) (mode : Option ModuleMode) (g : Graph) :
    Idles l (l.settleDefine name mode g).2 := by
  have hu (l : Loader) : Idles l (l.unclaim name) := .of_eq rfl rfl rfl rfl
  rw [settleDefine]
  split
  · exact (hu l).trans (settle_idles _ _)
  · have hc := (file_idles l g.root).trans (commit_idles _ g.below)
    simp only
    split
    · exact hc.trans ((hu _).trans (settle_idles _ _))
    · have he (l : Loader) : Idles l (l.evaluate name).2 := .of_eq rfl rfl rfl rfl
      exact ((hc.trans (he _)).trans (hu _)).trans (settle_idles _ _)

theorem settleGraph_idles (l : Loader) (purpose : Purpose) (g : Graph) :
    Idles l (l.settleGraph purpose g).2 := by
  cases purpose with
  | importModule name => exact (commit_idles l g.units).trans (settleImport_idles _ name)
  | define name mode => exact settleDefine_idles l name mode g
  | module =>
    have he (l : Loader) : Idles l (l.evaluateDetached g.root).2 := .of_eq rfl rfl rfl rfl
    exact ((commit_idles l g.below).trans (he _)).trans (settle_idles _ _)

/-! ## Joining loads -/

section Join

variable {metadata : Metadata} (hm : metadata.sourceMaps = true)

include hm

theorem join_idles (l : Loader) (name : String) : Idles l (l.join name metadata).2 := by
  rw [join]
  split
  · exact .refl l
  · refine ⟨rfl, rfl, fun _ => rfl, fun {id r} => ?_, fun st hst => ?_⟩
    · rw [getElem?_concat_eq_some_iff]
      simp
    · rcases List.mem_append.1 hst with hst | hst
      · exact Or.inl hst
      · rw [List.mem_singleton.1 hst]
        exact Or.inr hm

theorem Joins.idles (h : Joins metadata l l') : Idles l l' :=
  h.preserves (P := Idles l) (fun name hi => hi.trans (join_idles hm _ name)) (.refl l)

theorem startGraph_idles {root : LoadedUnit} {task : GraphTask}
    (h : l.startGraph metadata root = (task, l')) :
    Idles l l' ∧ task.metadata.sourceMaps = true := by
  have hw := (wantAll_joins metadata l [root.name] root.dependencies).idles hm
  cases h
  exact ⟨hw, hm⟩

end Join

theorem expand_idles {task task' : GraphTask} {units : List LoadedUnit}
    (hm : task.metadata.sourceMaps = true) (h : l.expand task units = (task', l')) :
    Idles l l' ∧ task'.metadata.sourceMaps = true := by
  have hw := (wantAll_joins task.metadata l task.seen (units.flatMap (·.dependencies))).idles hm
  cases h
  exact ⟨hw, hm⟩

/-! ## Moving a load -/

theorem move_none_idles (hl : l.Maps) {id : Nat} (h : l.move id = (none, l')) : Idles l l' := by
  have hm := move_moved l id
  rw [h] at hm
  generalize hc : (none, l') = p at hm
  have hset {st st' : LoadState} (hst : l.loads[id]? = some st) (hf : st.isFinished = false)
      (hf' : st'.isFinished = false) (hm : st'.Maps) : Idles l (l.setLoad id st') := by
    refine ⟨rfl, rfl, fun _ => rfl, fun {i r} => ?_, fun s hs => ?_⟩
    · rw [get?_setLoad hst]
      split
      · rename_i hi
        subst hi
        rw [hst]
        constructor
        · rintro ⟨⟩
          cases hf'
        · rintro ⟨⟩
          cases hf
      · exact Iff.rfl
    · rcases List.mem_or_eq_of_mem_set hs with hs | rfl
      · exact Or.inl hs
      · exact Or.inr hm
  cases hm with
  | absent =>
    cases hc
    exact .refl l
  | known | ends => simp at hc
  | @begins name address metadata load turns hst hp =>
    cases hc
    obtain ⟨hk, hmeta⟩ := Stages.prepare_frame hp
    have hi := hset hst rfl (rfl : (LoadState.waiting load address turns).isFinished = false)
      ⟨hk, hmeta ▸ hl.loads _ (List.mem_of_getElem? hst)⟩
    exact ⟨hi.options, hi.stages, hi.entries, hi.ended, hi.loads⟩
  | waits hst =>
    cases hc
    have hmaps := hl.loads _ (List.mem_of_getElem? hst)
    exact hset hst rfl rfl hmaps

/-- A load that is completed has a map. -/
theorem Maps.completed (hl : l.Maps) {st : LoadState} (hst : st ∈ l.loads) {load : Load}
    (h : l.completed? st = some load) : ∃ text, load.CompletedFrom text := by
  obtain ⟨extension, hs⟩ := hl.stages
  have hcomplete {load₀ : Load} {text : String}
      (hm : load₀.kind = .module ∧ load₀.metadata.sourceMaps = true)
      (h : (l.stages.complete load₀ text).toOption = some load) :
      ∃ text, load.CompletedFrom text := by
    rw [toOption_eq_some_iff, hs] at h
    exact ⟨text, Stages.complete_standard hm.1 hm.2 h⟩
  have hreceived {load₀ : Load} {address : String}
      (hm : load₀.kind = .module ∧ load₀.metadata.sourceMaps = true)
      (h : l.received? load₀ address = some load) : ∃ text, load.CompletedFrom text := by
    obtain ⟨text, -, h⟩ := Option.bind_eq_some_iff.1 h
    exact hcomplete hm h
  have hmaps := hl.loads st hst
  cases st with
  | finished => cases h
  | waiting load₀ address turns => exact hreceived hmaps h
  | created name metadata =>
    have hprep {load₀ : Load} {t : SourceText}
        (hp : l.stages.prepare (.start name .module metadata) = .ok (load₀, t)) :
        load₀.kind = .module ∧ load₀.metadata.sourceMaps = true := by
      obtain ⟨hk, hm⟩ := Stages.prepare_frame hp
      exact ⟨hk, hm ▸ hmaps⟩
    rw [completed?] at h
    split at h <;> rename_i hp
    · cases h
    · exact hcomplete (hprep hp) h
    · exact hreceived (hprep hp) h

section Ends

variable {id : Nat} {st : LoadState} {r : Except LoadError LoadedUnit}
  (h : l.move id = (some r, l')) (hst : l.loads[id]? = some st) (hf : st.isFinished = false)

include h hst hf

theorem move_outcome : r = l.outcome id st := by
  have hm := move_moved l id
  rw [h] at hm
  generalize hc : (some r, l') = p at hm
  cases hm with
  | absent | begins | waits => simp at hc
  | known hst' =>
    rw [hst] at hst'
    cases hst'
    cases hf
  | ends hst' =>
    rw [hst] at hst'
    cases hst'
    cases hc
    rfl

/-- No other load ends when a load does. -/
theorem move_ended (i : Nat) : (l.isFinished i = false ∧ l'.isFinished i = true) ↔ i = id := by
  have hfin := move_finished h
  have hother := @move_other l id i
  rw [h] at hother
  constructor
  · rintro ⟨hi, hi'⟩
    by_contra hne
    obtain ⟨r', hr'⟩ := isFinished_iff.1 hi'
    exact isFinished_eq_false_iff.1 hi r' ((hother hne).symm.trans hr')
  · rintro rfl
    refine ⟨isFinished_eq_false_iff.2 fun r' hr' => ?_, isFinished_iff.2 ⟨r, hfin⟩⟩
    rw [hst] at hr'
    cases hr'
    cases hf

/-- The map of a load that ends is kept. -/
theorem move_compiles (hl : l.Maps) : Compiles l l' ((l.completed? st).map (⟨id, ·⟩)) := by
  have hfin := move_finished h
  have hal := (move_grows l id).alike
  have hother {i : Nat} (hi : i ≠ id) : l'.loads[i]? = l.loads[i]? := by
    have ho := move_other l hi
    rwa [h] at ho
  rw [h] at hal
  refine ⟨⟨?_, ?_, ?_⟩, ?_, ?_, ?_, ?_⟩
  · rw [hal.options]
    exact hl.options
  · rw [hal.stages]
    exact hl.stages
  · intro s hs
    obtain ⟨i, hi⟩ := List.mem_iff_getElem?.1 hs
    by_cases hid : i = id
    · subst hid
      rw [hfin] at hi
      cases hi
      trivial
    · rw [hother hid] at hi
      exact hl.loads s (List.mem_of_getElem? hi)
  · intro c hc
    obtain ⟨load, hload, rfl⟩ := Option.map_eq_some_iff.1 hc
    exact hl.completed (List.mem_of_getElem? hst) hload
  · intro n
    rw [move_sourceMaps h hst, Option.map_map]
    simp [Function.comp_def]
  · intro c hc
    obtain ⟨load, -, rfl⟩ := Option.map_eq_some_iff.1 hc
    exact ((move_ended h hst hf id).2 rfl).1
  · intro i u hu
    by_cases hid : i = id
    · subst hid
      rw [hfin] at hu
      cases hu
      obtain ⟨load, l₁, referrer, hload, hunit⟩ :=
        completed_of_outcome (move_outcome h hst hf).symm hf
      obtain ⟨text, hc⟩ := hl.completed (List.mem_of_getElem? hst) hload
      exact Or.inr ⟨⟨i, load⟩, text, by rw [hload]; rfl, rfl, (unitOf_ok hunit).1.symm, hc,
        hc.linked hunit⟩
    · exact Or.inl (hother hid ▸ hu)

end Ends

/-! ## Steps -/

/-- What was compiled stays so while no load ends. -/
theorem Compiles.idles (h : Compiles l m c) (hi : Idles m l') : Compiles l l' c :=
  ⟨hi.maps h.maps, h.completed, fun n => (hi.entries n).trans (h.entries n), h.fresh,
    fun hu => h.arrived (hi.ended.1 hu)⟩

theorem compiles_refl (hl : l.Maps) : Compiles l l none :=
  ⟨hl, by simp, fun _ => rfl, by simp, Or.inl⟩

theorem compiled?_of_idles (h : Idles l l') : l.compiled? l' = none := by
  have he : l.ended? l' = none := by
    rw [ended?, List.find?_eq_none]
    intro id _
    rw [h.isFinished]
    simp
  rw [compiled?, he]
  rfl

/-- A step that lets one load move compiles what that load comes to. -/
theorem Works.compiles (hw : Works l l') (hl : l.Maps) : Compiles l l' (l.compiled? l') := by
  obtain ⟨m, rfl | ⟨id, rfl⟩, hi⟩ := hw
  · rw [compiled?_of_idles hi]
    exact (compiles_refl hl).idles hi
  · have hidle (hi' : Idles l (l.move id).2) : Compiles l l' (l.compiled? l') := by
      rw [compiled?_of_idles (hi'.trans hi)]
      exact (compiles_refl hl).idles (hi'.trans hi)
    rcases hm : l.move id with ⟨r, m⟩
    rw [hm] at hi hidle
    cases r with
    | none => exact hidle (move_none_idles hl hm)
    | some r =>
      cases hst : l.loads[id]? with
      | none =>
        rw [move, hst] at hm
        cases hm
      | some st =>
        cases hf : st.isFinished with
        | true =>
          cases st with
          | finished r' =>
            rw [move, hst] at hm
            cases hm
            exact hidle (.refl l)
          | _ => cases hf
        | false =>
          have he : l.ended? l' = some id := by
            rw [ended?, List.find?_range_eq_some]
            have hid := move_ended hm hst hf
            have hlt := (List.getElem?_eq_some_iff.1 hst).1
            refine ⟨?_, List.mem_range.2 hlt, fun j hj => ?_⟩
            · simpa [hi.isFinished] using (hid id).2 rfl
            · rw [hi.isFinished]
              have hne := mt (hid j).1 (Nat.ne_of_lt hj)
              simpa [imp_iff_not_or] using hne
          have hc : l.compiled? l' = (l.completed? st).map (⟨id, ·⟩) := by
            rw [compiled?, he]
            simp only [Option.bind_eq_bind, Option.bind_some, hst]
            cases l.completed? st <;> rfl
          rw [hc]
          exact (move_compiles hm hst hf hl).idles hi

/-! ## Graphs and branches -/

theorem loadEnds_works {id : Nat} {r : Except LoadError LoadedUnit}
    (h : LoadEnds (id, l) (r, l')) : Works l l' := by
  cases h with
  | mk hm => exact .of_move id (by rw [hm]; exact .refl l')

theorem frontier_works {f f' : Frontier} (hf : f.Numbered)
    (h : Gathering.Step LoadWaits LoadEnds (f, l) (f', l')) : Works l l' := by
  obtain ⟨id, rest, -, ⟨id', hs, -⟩ | ⟨r, he, -⟩⟩ := h.tasks_cases hf
  · cases hs with
    | mk hm => exact .of_move id (by rw [hm]; exact .refl l')
  · exact loadEnds_works he

theorem graphStep_works {task task' : GraphTask} (ht : task.metadata.sourceMaps = true)
    (hn : task.frontier.Numbered) (h : GraphStep (task, l) (task', l')) :
    Works l l' ∧ task'.metadata.sourceMaps = true := by
  cases h with
  | load hs => exact ⟨frontier_works hn hs, ht⟩
  | expand _ _ he => exact (expand_idles ht he).imp_left Idles.works
  | idle => exact ⟨(Idles.refl l).works, ht⟩

theorem graphEnds_works {task : GraphTask} {r : Except LoadError Graph}
    (h : GraphEnds (task, l) (r, l')) : Works l l' := by
  have hrelease (l : Loader) : Idles l (l.release task.seen) := .of_eq rfl rfl rfl rfl
  cases h with
  | complete => exact (Idles.refl l).works
  | fails hf =>
    rcases hf.tasks_cases with ⟨-, rfl⟩ | ⟨id, -, he⟩
    · exact (hrelease _).works
    · exact (loadEnds_works he).idles (hrelease _)

theorem branchStep_works {metadata : Metadata} {branch branch' : Branch}
    (hm : metadata.sourceMaps = true) (hb : branch.Maps)
    (hn : ∀ task, branch = .loading task → task.frontier.Numbered)
    (h : BranchStep metadata (branch, l) (branch', l')) : Works l l' ∧ branch'.Maps := by
  cases h with
  | @wait id _ _ hmove => exact ⟨.of_move id (by rw [hmove]; exact .refl l'), trivial⟩
  | @arrive id _ l₁ _ u task hmove hs =>
    obtain ⟨hi, ht⟩ := startGraph_idles hm hs
    exact ⟨.of_move id (by rw [hmove]; exact hi), ht⟩
  | graph hs => exact graphStep_works hb (hn _ rfl) hs

theorem branchEnds_works {branch : Branch} {r : Except LoadError Graph}
    (h : BranchEnds (branch, l) (r, l')) : Works l l' := by
  cases h with
  | @root id _ _ _ hmove => exact .of_move id (by rw [hmove]; exact .refl l')
  | graph he => exact graphEnds_works he

/-! ## Scripts -/

section Scripts

variable {load : Load} (hk : load.kind = .script)

include hk

theorem runSource_idles (l : Loader) (text : String) : Idles l (l.runSource load text).2 := by
  rw [runSource]
  split
  · exact .refl l
  · rename_i load' hc
    have hkeep : Idles l (l.keepMap load') := by
      obtain ⟨maps, hmaps⟩ := keepMap_eq l load'
      refine ⟨by rw [hmaps], by rw [hmaps], fun n => ?_, by simp [hmaps], ?_⟩
      · rw [keepMap_sourceMaps]
        exact SourceMap.Index.get?_keep_script ((Stages.complete_kind hc).trans hk) _ n
      · exact fun st hst => Or.inl (by rwa [hmaps] at hst)
    simp only
    split
    · exact hkeep
    · exact hkeep
    · exact hkeep.trans (.of_eq rfl rfl rfl rfl)

theorem receiveScript_idles (l : Loader) (address : String) :
    Idles l (l.receiveScript load address).2 := by
  rw [receiveScript]
  split
  · exact settle_idles l _
  · exact (runSource_idles hk l _).trans (settle_idles _ _)

theorem startScript_idles (l : Loader) :
    Idles l (l.startScript load).2 ∧ (l.startScript load).1.Maps := by
  have hsettled {a : Activity} {r : Except LoadError Answer} (h : a = .settled r) : a.Maps := by
    rw [h]
    trivial
  rw [startScript]
  split
  · exact ⟨settle_idles l _, hsettled (settle_settled l _)⟩
  · rename_i load' text hp
    have hk' := (Stages.prepare_frame hp).1.trans hk
    exact ⟨(runSource_idles hk' l _).trans (settle_idles _ _), hsettled (settle_settled _ _)⟩
  · rename_i load' address hp
    have hk' := (Stages.prepare_frame hp).1.trans hk
    have hn : Idles l (l.note (.asked address)) := .of_eq rfl rfl rfl rfl
    simp only
    split
    · exact ⟨hn, hk'⟩
    · obtain ⟨r, hr⟩ := receiveScript_settled (l.note (.asked address)) load' address
      exact ⟨hn.trans (receiveScript_idles hk' _ address), hsettled hr⟩

end Scripts

/-! ## Beginnings -/

/-- The map of a source at hand is kept. -/
theorem loadInline_compiles (hl : l.Maps) (load : Load) (hk : load.kind = .module)
    (hm : load.metadata.sourceMaps = true) (source : String) (referrer : Option String) :
    Compiles l (l.loadInline load source referrer).2
      ((l.stages.complete load source).toOption.map (⟨l.loads.length, ·⟩)) := by
  obtain ⟨extension, hs⟩ := hl.stages
  have hcomplete {load' : Load} (h : (l.stages.complete load source).toOption = some load') :
      load'.CompletedFrom source := by
    rw [toOption_eq_some_iff, hs] at h
    exact Stages.complete_standard hk hm h
  rw [loadInline_eq]
  refine ⟨⟨hl.options, hl.stages, ?_⟩, ?_, ?_, ?_, ?_⟩
  · intro st hst
    rcases List.mem_append.1 hst with hst | hst
    · exact hl.loads st hst
    · rw [List.mem_singleton.1 hst]
      trivial
  · intro c hc
    obtain ⟨load', hload, rfl⟩ := Option.map_eq_some_iff.1 hc
    exact ⟨source, hcomplete hload⟩
  · intro n
    rw [Option.map_map]
    simp [Function.comp_def]
  · intro c hc
    obtain ⟨load', -, rfl⟩ := Option.map_eq_some_iff.1 hc
    simp [isFinished]
  · intro id u hu
    simp only [getElem?_concat_eq_some_iff] at hu
    rcases hu with hu | ⟨rfl, hu⟩
    · exact Or.inl hu
    · obtain ⟨load', l₁, hc, hunit⟩ := linkSource_completed (LoadState.finished.inj hu)
      have hfrom := hcomplete (toOption_eq_some_iff.2 hc)
      refine Or.inr ⟨⟨l.loads.length, load'⟩, source, ?_, rfl, (unitOf_ok hunit).1.symm, hfrom,
        hfrom.linked hunit⟩
      rw [toOption_eq_some_iff.2 hc]
      rfl

theorem Maps.metadataOf (hl : l.Maps) (options : RequestOptions) :
    (l.metadataOf options).sourceMaps = true :=
  hl.options

theorem startInline_compiles (hl : l.Maps) (purpose : Purpose) (name source : String)
    (referrer : Option String) (options : RequestOptions) :
    Compiles l (l.startInline purpose name source referrer options).2
      (l.inline? name source options) ∧
      (l.startInline purpose name source referrer options).1.Maps := by
  have hmeta := hl.metadataOf options
  have hi := loadInline_compiles hl (l.inlineLoad name options) rfl hmeta source referrer
  rcases he : l.loadInline (l.inlineLoad name options) source referrer with ⟨e | root, m⟩
  · rw [he] at hi
    rw [startInline_of_error he, rejectGraph_settled]
    exact ⟨hi.idles (rejectGraph_idles m purpose e), trivial⟩
  · rw [he] at hi
    rw [startInline_of_ok he]
    have hg : m.startGraph (l.metadataOf options) root = _ := rfl
    obtain ⟨hidle, htask⟩ := startGraph_idles hmeta hg
    exact ⟨hi.idles hidle, htask⟩

theorem startImport_idles (hl : l.Maps) (specifier : String) (options : RequestOptions) :
    Idles l (l.startImport specifier options).2 ∧ (l.startImport specifier options).1.Maps := by
  have hmeta := hl.metadataOf options
  unfold startImport
  split
  · exact ⟨settle_idles l _, trivial⟩
  · rename_i name _
    simp only
    split
    · refine ⟨(joinAll_joins _ l _).idles hmeta, hmeta, fun branch hmem => ?_⟩
      rw [tasks_ofTasks] at hmem
      obtain ⟨id, rfl⟩ := joinAll_roots _ l _ hmem
      trivial
    · exact ⟨join_idles hmeta l name, hmeta⟩

/-- What the beginning of a request compiles is the source that it brings along. -/
theorem start_compiles (hl : l.Maps) (request : Request) :
    Compiles l (l.start request).2 (l.brought? request) ∧ (l.start request).1.Maps := by
  have hidle {p : Activity × Loader} (h : Idles l p.2 ∧ p.1.Maps) :
      Compiles l p.2 none ∧ p.1.Maps := h.imp_left (compiles_refl hl).idles
  have hreject (e : LoadError) : Compiles l (l.reject e).2 none ∧ (l.reject e).1.Maps :=
    hidle ⟨settle_idles l _, trivial⟩
  rcases request with ⟨demand, options⟩
  cases demand with
  | importModule specifier => exact hidle (startImport_idles hl specifier options)
  | module source =>
    have hf : l.freshName.2.Maps := ⟨hl.options, hl.stages, hl.loads⟩
    obtain ⟨hc, ha⟩ :=
      startInline_compiles hf .module l.freshName.1 source options.referrer options
    exact ⟨⟨hc.maps, hc.completed, hc.entries, hc.fresh, hc.arrived⟩, ha⟩
  | define given source =>
    simp only [start, startDefine, brought?]
    cases hn : l.nameOf given options.referrer with
    | error e => exact hreject e
    | ok name =>
      simp only
      split
      · exact hreject _
      · have hd : Maps { l with defining := name :: l.defining } :=
          ⟨hl.options, hl.stages, hl.loads⟩
        obtain ⟨hc, ha⟩ :=
          startInline_compiles hd (.define name options.mode) name source (some name) options
        exact ⟨⟨hc.maps, hc.completed, hc.entries, hc.fresh, hc.arrived⟩, ha⟩
  | script source =>
    have hf : Idles l l.freshName.2 := .of_eq rfl rfl rfl rfl
    simp only [start, startNamedScript]
    cases options.name with
    | none => exact hidle ((startScript_idles rfl _).imp_left hf.trans)
    | some given =>
      simp only
      split
      · exact hreject _
      · exact hidle (startScript_idles rfl l)
  | scriptAt specifier =>
    simp only [start]
    split
    · exact hreject _
    · exact hidle (startScript_idles rfl l)

/-! ## Steps of a request -/

theorem branches_works {metadata : Metadata} {b b' : Branches} (hm : metadata.sourceMaps = true)
    (hb : ∀ branch ∈ b.tasks, branch.Maps) (hs : Branches.Sound l b)
    (h : Gathering.Step (BranchStep metadata) BranchEnds (b, l) (b', l')) :
    Works l l' ∧ ∀ branch ∈ b'.tasks, branch.Maps := by
  obtain ⟨branch, rest, hp, ⟨branch', hstep, hp', -⟩ | ⟨r, he, hp', -⟩⟩ :=
    h.tasks_cases hs.numbered
  · have hmem : branch ∈ b.tasks := hp.mem_iff.2 List.mem_cons_self
    obtain ⟨hw, hbranch⟩ := branchStep_works hm (hb branch hmem)
      (fun task ht => GraphTask.Sound.numbered (ht ▸ hs.tasks branch hmem)) hstep
    refine ⟨hw, fun c hc => ?_⟩
    rcases List.mem_cons.1 (hp'.mem_iff.1 hc) with rfl | hc
    · exact hbranch
    · exact hb c (hp.mem_iff.2 (List.mem_cons_of_mem _ hc))
  · refine ⟨branchEnds_works he, fun c hc => ?_⟩
    exact hb c (hp.mem_iff.2 (List.mem_cons_of_mem _ (hp'.mem_iff.1 hc)))

/-- A step compiles one module at most, and the requests that it leaves compile with maps, too. -/
theorem advance_compiles {a a' : Activity} (h : Advance (a, l) (a', l')) (hl : l.Maps)
    (ha : a.Maps) (hs : a.Sound l) : Compiles l l' (l.compilation? l' a) ∧ a'.Maps := by
  have hworks {m : Loader} (hw : Works l m) : Compiles l m (l.compiled? m) := hw.compiles hl
  have hmove (id : Nat) {r : Option (Except LoadError LoadedUnit)} {m : Loader}
      (hm : l.move id = (r, m)) : Works l m := .of_move id (by rw [hm]; exact .refl m)
  have hsettled {b : Activity} {r : Except LoadError Answer} (hb : b = .settled r) : b.Maps := by
    rw [hb]
    trivial
  cases h with
  | @tick turns request _ => exact ⟨hworks (Idles.refl l).works, trivial⟩
  | @start request _ _ _ hst =>
    have hc := start_compiles hl request
    rwa [hst] at hc
  | scriptWaits => exact ⟨hworks (Idles.refl l).works, ha⟩
  | @scriptAnswered load address _ _ _ hst =>
    have hi := receiveScript_idles ha l address
    obtain ⟨r, hr⟩ := receiveScript_settled l load address
    rw [hst] at hi hr
    exact ⟨hworks hi.works, hsettled hr⟩
  | rootWaits hm => exact ⟨hworks (hmove _ hm), ha⟩
  | rootFails hm hr =>
    exact ⟨hworks ((hmove _ hm).idles (reject_idles hr)), hsettled (reject_settled hr)⟩
  | rootArrives hm hg =>
    obtain ⟨hi, ht⟩ := startGraph_idles ha hg
    exact ⟨hworks ((hmove _ hm).idles hi), ht⟩
  | @graph purpose task _ _ _ hg =>
    have ht : task.Sound l := by
      cases purpose <;> exact hs
    exact (graphStep_works ha ht.numbered hg).imp_left hworks
  | @graphFails purpose task e _ _ m _ he hr =>
    have hi := rejectGraph_idles m purpose e
    have hset := rejectGraph_settled m purpose e
    rw [hr] at hi hset
    exact ⟨hworks ((graphEnds_works he).idles hi), hsettled hset⟩
  | @graphDone purpose task g _ _ m _ he hg =>
    have hi := settleGraph_idles m purpose g
    obtain ⟨r, hset⟩ := settleGraph_settled m purpose g
    rw [hg] at hi hset
    exact ⟨hworks ((graphEnds_works he).idles hi), hsettled hset⟩
  | branches hb =>
    obtain ⟨hw, hb'⟩ := branches_works ha.1 ha.2 hs hb
    exact ⟨hworks hw, ha.1, hb'⟩
  | branchesIdle => exact ⟨hworks (Idles.refl l).works, ha⟩
  | branchesFail hf hr =>
    refine ⟨hworks ?_, hsettled (reject_settled hr)⟩
    rcases hf.tasks_cases with ⟨-, rfl⟩ | ⟨branch, -, he⟩
    · exact (reject_idles hr).works
    · exact (branchEnds_works he).idles (reject_idles hr)
  | @branchesDone name metadata b graphs _ _ _ hv hg =>
    rw [commitAll_eq] at hg
    have hi := (commit_idles l (graphs.flatMap Graph.units)).trans (settleImport_idles _ name)
    obtain ⟨r, hset⟩ := settleImport_settled (l.commit (graphs.flatMap Graph.units)) name
    rw [hg] at hi hset
    exact ⟨hworks hi.works, hsettled hset⟩

end Loader

end ModuleLoader

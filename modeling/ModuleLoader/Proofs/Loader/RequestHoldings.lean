import ModuleLoader.Proofs.Loader.Holdings

/-! # What a request leaves behind

A request that goes on holds its loads. One that ends well has released them, and one that fails has
released some: which it leaves behind depends on how it failed.
-/

namespace ModuleLoader.Loader

open Gathering

/-- The loads that a request holds. A unit from a source at hand has no pending load. -/
def Activity.loads : Activity → List Nat
  | .root _ _ id => [id]
  | .graph (.importModule _) task => task.graph.root.body.load :: task.loads
  | .graph _ task => task.loads
  | .branches _ _ b => b.loads
  | _ => []

/-- A request knows its loads. -/
def Activity.Sound (l : Loader) : Activity → Prop
  | .root _ _ id => id < l.loads.length
  | .graph _ task => task.Sound l
  | .branches _ _ b => Branches.Sound l b
  | _ => True

theorem Activity.Sound.mono {l l' : Loader} {a : Activity} (h : a.Sound l) (he : Evolves l l') :
    a.Sound l' := by
  cases a with
  | root name metadata id => exact Nat.lt_of_lt_of_le h he.length_le
  | graph purpose task => exact GraphTask.Sound.mono h he
  | branches name metadata b => exact Branches.Sound.mono h he
  | _ => trivial

/-- A request has not begun. -/
def Activity.IsDelayed : Activity → Prop
  | .delayed _ _ => True
  | _ => False

/-! ## Beginning a request -/

/-- What the beginning of a request does to loads and pending table. -/
structure Begins (l : Loader) (a : Activity) (l' : Loader) : Prop where
  begun : ¬ a.IsDelayed
  sound : l'.Sound
  evolves : Evolves l l'
  activity : a.Sound l'
  gains : Gains l l' a.loads

theorem keepMap_releases (l : Loader) (load : Load) : Releases l (l.keepMap load) := by
  obtain ⟨maps, h⟩ := keepMap_eq l load
  rw [h]
  exact ⟨rfl, id⟩

theorem runSource_releases (l : Loader) (load : Load) (text : String) :
    Releases l (l.runSource load text).2 := by
  rw [runSource]
  split
  · exact .refl l
  · rename_i load' hc
    have hk := keepMap_releases l load'
    simp only
    split
    · exact hk
    · exact hk
    · exact hk.trans ⟨rfl, id⟩

/-- A request that is settled at once, or that waits for a script, touches no pending load. -/
theorem Begins.of_releases {l l' : Loader} {a : Activity} (h : Releases l l') (hl : l.Sound)
    (hb : ¬ a.IsDelayed) (hs : a.Sound l') : Begins l a l' :=
  ⟨hb, h.sound hl, h.evolves, hs, fun _ _ hp => Or.inl (h.pending hp)⟩

theorem settle_begins {l l₁ : Loader} (h : Releases l l₁) (hl : l.Sound)
    (r : Except LoadError Answer) : Begins l (l₁.settle r).1 (l₁.settle r).2 := by
  rw [settle_settled]
  exact .of_releases (h.trans (settle_releases l₁ r)) hl id trivial

theorem note_releases (l : Loader) (e : Event) : Releases l (l.note e) := ⟨rfl, id⟩

theorem receiveScript_begins {l l₁ : Loader} (h : Releases l l₁) (hl : l.Sound) (load : Load)
    (address : String) :
    Begins l (l₁.receiveScript load address).1 (l₁.receiveScript load address).2 := by
  rw [receiveScript]
  split
  · exact settle_begins h hl _
  · exact settle_begins (h.trans (runSource_releases _ _ _)) hl _

theorem startScript_begins {l : Loader} (hl : l.Sound) (load : Load) :
    Begins l (l.startScript load).1 (l.startScript load).2 := by
  rw [startScript]
  split
  · exact settle_begins (.refl l) hl _
  · exact settle_begins (runSource_releases _ _ _) hl _
  · simp only
    split
    · exact .of_releases (note_releases l _) hl id trivial
    · exact receiveScript_begins (note_releases l _) hl _ _

theorem joinAll_spec (metadata : Metadata) (l : Loader) (names : List String) (hl : l.Sound) :
    Gains l (joinAll metadata l names).2 ((joinAll metadata l names).1.flatMap Branch.loads) ∧
      ∀ b ∈ (joinAll metadata l names).1, Branch.Sound (joinAll metadata l names).2 b := by
  fun_induction joinAll metadata l names with
  | case1 l => exact ⟨fun _ _ => Or.inl, by simp⟩
  | case2 l name rest id l₁ hj branches l₂ hr ih =>
    have hg := join_grows l name metadata
    have hga := join_gains l name metadata
    have hp := join_pending l name metadata
    have hgr := joinAll_grows metadata l₁ rest
    rw [hj] at hg hga hp
    obtain ⟨hga', hb'⟩ := ih (hg.sound hl)
    rw [hr] at hga' hb' hgr
    constructor
    · intro n i hi
      rcases hga' n i hi with hi | hi
      · refine (hga n i hi).imp_right fun hi => ?_
        simp only [List.mem_singleton] at hi
        simp [Branch.loads, hi]
      · exact Or.inr (by simp only [List.flatMap_cons, List.mem_append, hi, or_true])
    · intro b hb
      rcases List.mem_cons.1 hb with rfl | hb
      · exact Nat.lt_of_lt_of_le ((hg.sound hl).pending hp).lt hgr.loads.length_le
      · exact hb' b hb

theorem startImport_begins {l : Loader} (hl : l.Sound) (specifier : String)
    (options : RequestOptions) :
    Begins l (l.startImport specifier options).1 (l.startImport specifier options).2 := by
  rw [startImport]
  split
  · exact settle_begins (.refl l) hl _
  · rename_i name hn
    simp only
    split
    · have hg := joinAll_grows (l.metadataOf options) l (l.registry.missing name)
      obtain ⟨hga, hb⟩ := joinAll_spec (l.metadataOf options) l (l.registry.missing name) hl
      refine ⟨id, hg.sound hl, hg.loads, ⟨numbered_ofTasks _, ?_, by simp⟩, ?_⟩
      · simpa using hb
      · simpa [Activity.loads, Branches.loads] using hga
    · have hg := join_grows l name (l.metadataOf options)
      have hp := join_pending l name (l.metadataOf options)
      exact ⟨id, hg.sound hl, hg.loads, ((hg.sound hl).pending hp).lt, join_gains l _ _⟩

/-- A load from a source at hand ends at once, and stays out of the pending table. -/
structure Inline (l : Loader) (r : Except LoadError LoadedUnit) (l' : Loader) : Prop where
  sound : l.Sound → l'.Sound
  evolves : Evolves l l'
  pending : l'.pending = l.pending
  arrived : ∀ u, r = .ok u → l'.Arrived u

theorem loadInline_inline (l : Loader) (load : Load) (source : String)
    (referrer : Option String) :
    Inline l (l.loadInline load source referrer).1 (l.loadInline load source referrer).2 := by
  simp only [loadInline]
  obtain ⟨maps, hm⟩ := linkSource_snd (l.note (.began load.name l.loads.length)) l.loads.length
    { load with source := some source } source referrer
  have hu {u : LoadedUnit} (h : ((l.note (.began load.name l.loads.length)).linkSource
      l.loads.length { load with source := some source } source referrer).1 = .ok u) :
      u.body.load = l.loads.length :=
    (linkSource_ok h).2
  rw [hm]
  generalize (linkSource _ _ _ _ _).1 = r at hu ⊢
  have hold {id : Nat} {st : LoadState} (hst : l.loads[id]? = some st) :
      (l.loads ++ [.finished r])[id]? = some st := by
    rw [List.getElem?_append_left (List.getElem?_eq_some_iff.1 hst).1, hst]
  refine ⟨fun hl => ⟨?_, ?_⟩, fun id st hst => ⟨st, hold hst, .refl _ _⟩, rfl, ?_⟩
  · intro id u h
    simp only [note, getElem?_concat_eq_some_iff] at h
    rcases h with h | ⟨rfl, h⟩
    · exact hl.own h
    · exact hu (LoadState.finished.inj h)
  · intro n id hp
    obtain ⟨st, hst, hs⟩ := hl.pending hp
    exact ⟨st, hold hst, hs⟩
  · intro u h
    rw [Arrived, hu h, h]
    simp [note]

theorem startInline_begins {l : Loader} (hl : l.Sound) (purpose : Purpose)
    (name source : String) (referrer : Option String) (options : RequestOptions) :
    Begins l (l.startInline purpose name source referrer options).1
      (l.startInline purpose name source referrer options).2 := by
  have hi := loadInline_inline l (l.inlineLoad name options) source referrer
  rcases he : l.loadInline (l.inlineLoad name options) source referrer with ⟨e | root, l'⟩
  · rw [he] at hi
    rw [startInline_of_error he]
    have hr := rejectGraph_releases l' purpose e
    refine ⟨?_, hr.sound (hi.sound hl), hi.evolves.trans hr.evolves, ?_, ?_⟩
    · rw [rejectGraph_settled]
      exact id
    · rw [rejectGraph_settled]
      trivial
    · intro n id hp
      rw [← hi.pending]
      exact Or.inl (hr.pending hp)
  · rw [he] at hi
    rw [startInline_of_ok he]
    have hs : l'.startGraph (l.metadataOf options) root =
        l'.startGraph (l.metadataOf options) root := rfl
    obtain ⟨-, ht, hh⟩ := startGraph_spec hs (hi.sound hl) (hi.arrived root rfl)
    refine ⟨id, hh.grows.sound (hi.sound hl), hi.evolves.trans hh.grows.loads, ht, ?_⟩
    intro n id hp
    rw [← hi.pending]
    refine (hh.gains n id hp).imp_right fun hm => ?_
    cases purpose with
    | importModule name => exact List.mem_cons_of_mem _ hm
    | _ => exact hm

theorem start_begins {l : Loader} (hl : l.Sound) (request : Request) :
    Begins l (l.start request).1 (l.start request).2 := by
  have hc {l₁ l₂ : Loader} {a : Activity} (h : Releases l l₁) (hb : l₁.Sound → Begins l₁ a l₂) :
      Begins l a l₂ := by
    obtain ⟨hn, hs, he, ha, hg⟩ := hb (h.sound hl)
    exact ⟨hn, hs, h.evolves.trans he, ha, fun n id hp => (hg n id hp).imp_left h.pending⟩
  have hs := start_starts l request
  generalize l.start request = c at hs
  cases hs with
  | imports specifier => exact startImport_begins hl _ _
  | misnamed | taken => exact settle_begins (.refl l) hl _
  | defines | detached =>
    refine hc ?_ fun h => startInline_begins h _ _ _ _ _
    exact ⟨rfl, id⟩
  | script load => exact startScript_begins hl _
  | namelessScript load =>
    refine hc ?_ fun h => startScript_begins h _
    exact ⟨rfl, id⟩

/-! ## Steps of a request -/

/-- A request has failed, or one of its branches has. -/
def Activity.Failing : Activity → Prop
  | .settled (.error _) => True
  | .branches _ _ b => ∃ e, .error e ∈ b.outcomes
  | _ => False

/-- A request loads what is missing below a registered module. -/
def Activity.IsBranches : Activity → Prop
  | .branches _ _ _ => True
  | _ => False

/-- A definition found its name registered. -/
def Activity.IsRefused (l : Loader) (a : Activity) : Prop :=
  ∃ name, a = .settled (.error (.instantiate name .alreadyDefined)) ∧ l.registry.has name = true

/-- What a step of a request does to the loads it holds and to the pending table. A pending load
that is held no more was left behind by a failure. -/
structure Steps (a : Activity) (l : Loader) (a' : Activity) (l' : Loader) : Prop where
  sound : l'.Sound
  activity : a'.Sound l'
  evolves : Evolves l l'
  pending : ∀ n id, l'.pending.get? n = some id → id ∈ a'.loads ∨
    l.pending.get? n = some id ∧ (id ∉ a.loads ∨
      a'.Failing ∧ (l'.isFinished id = false ∨ a.IsBranches ∨ a'.IsRefused l'))

theorem Begins.steps {l l' : Loader} {a a' : Activity} (h : Begins l a' l') (ha : a.loads = []) :
    Steps a l a' l' := by
  refine ⟨h.sound, h.activity, h.evolves, fun n id hp => ?_⟩
  rcases h.gains n id hp with hp | hid
  · exact Or.inr ⟨hp, Or.inl (by simp [ha])⟩
  · exact Or.inl hid

section Advance

variable {a a' : Activity} {l l' : Loader}

theorem Steps.of_holds (h : Holds l l' a.loads a'.loads) (hl : l.Sound) (ha : a'.Sound l') :
    Steps a l a' l' := by
  have hl' := h.grows.sound hl
  refine ⟨hl', ha, h.grows.loads, fun n id hp => ?_⟩
  rcases h.gains n id hp with hp' | hi
  · by_cases hi : id ∈ a.loads
    · rcases h.kept id hi with hi | hf
      · exact Or.inl hi
      · exact absurd hf (hl'.pending hp).not_failed
    · exact Or.inr ⟨hp', Or.inl hi⟩
  · exact Or.inl hi

theorem Steps.of_releases (h : Releases l l') (hl : l.Sound) (ha : a'.Sound l')
    (hp : ∀ n id, l'.pending.get? n = some id → id ∈ a.loads →
      a'.Failing ∧ (l'.isFinished id = false ∨ a.IsBranches ∨ a'.IsRefused l')) :
    Steps a l a' l' := by
  refine ⟨h.sound hl, ha, h.evolves, fun n id hi => Or.inr ⟨h.pending hi, ?_⟩⟩
  by_cases hm : id ∈ a.loads
  · exact Or.inr (hp n id hi hm)
  · exact Or.inl hm

/-- The loads of units whose names were released are pending no more. -/
theorem not_mem_loads_of_commit {units : List LoadedUnit} {n : String} {id : Nat}
    (hl : l.Sound) (hu : ∀ u ∈ units, l.Arrived u) (hp : l.pending.get? n = some id)
    (hn : n ∉ units.map (·.name)) : id ∉ units.map (·.body.load) := by
  intro hid
  obtain ⟨u, hm, rfl⟩ := List.mem_map.1 hid
  have hs := (hl.pending hp).unique ⟨_, hu u hm, rfl, rfl⟩
  exact hn (hs ▸ List.mem_map_of_mem hm)

theorem commit_pending {units : List LoadedUnit} (hl : l.Sound)
    (hu : ∀ u ∈ units, l.Arrived u) (h : Releases (l.commit units) l') {n : String} {id : Nat}
    (hp : l'.pending.get? n = some id) : id ∉ units.map (·.body.load) := by
  have hc := h.pending hp
  rw [get?_commit] at hc
  split at hc
  · simp at hc
  · rename_i hn
    exact not_mem_loads_of_commit hl hu hc hn

/-- A request that is settled after its units were registered has released their loads. -/
theorem Steps.of_commit {units : List LoadedUnit} {r : Except LoadError Answer} (hl : l.Sound)
    (hu : ∀ u ∈ units, l.Arrived u) (h : Releases (l.commit units) l')
    (ha : ∀ id ∈ a.loads, id ∈ units.map (·.body.load)) : Steps a l (.settled r) l' :=
  .of_releases ((commit_releases l units).trans h) hl trivial fun _ _ hp hid =>
    absurd (ha _ hid) (commit_pending hl hu h hp)

theorem settleDefine_steps {name : String} {mode : Option ModuleMode} {task : GraphTask}
    (hl : l.Sound) (ht : task.Sound l) (hv : task.frontier.values? = some []) :
    Steps (.graph (.define name mode) task) l (l.settleDefine name mode task.graph).1
      (l.settleDefine name mode task.graph).2 := by
  obtain ⟨hu, hloads⟩ := complete_spec ht hv
  have hf := file_releases l task.graph.root
  have hbelow : ∀ u ∈ task.graph.below, (l.file task.graph.root).Arrived u := fun u hm =>
    hf.evolves.arrived (hu u (List.mem_cons_of_mem _ hm))
  have hc {r : Except LoadError Answer} {l₂ : Loader}
      (h : Releases ((l.file task.graph.root).commit task.graph.below) l₂) :
      Steps (.graph (.define name mode) task) l (.settled r) l₂ := by
    obtain ⟨hs, ha, he, hp⟩ := Steps.of_commit (a := .graph (.define name mode) task) (r := r)
      (hf.sound hl) hbelow h fun id hid => by simpa [Activity.loads, hloads] using hid
    refine ⟨hs, ha, hf.evolves.trans he, fun n id hi => ?_⟩
    exact (hp n id hi).imp_right fun h => ⟨hf.pending h.1, h.2⟩
  rw [settleDefine]
  split
  · rename_i hr
    refine .of_releases ((unclaim_releases l name).trans (settle_releases _ _)) hl trivial ?_
    intro n id _ _
    exact ⟨trivial, Or.inr (Or.inr ⟨name, rfl, hr⟩)⟩
  · simp only
    split
    · rw [settle_settled]
      exact hc ((unclaim_releases _ _).trans (settle_releases _ _))
    · rw [settle_settled]
      exact hc (((evaluate_releases _ _).trans (unclaim_releases _ _)).trans
        (settle_releases _ _))

theorem settleGraph_steps (purpose : Purpose) {task : GraphTask} (hl : l.Sound)
    (ht : task.Sound l) (hv : task.frontier.values? = some []) :
    Steps (.graph purpose task) l (l.settleGraph purpose task.graph).1
      (l.settleGraph purpose task.graph).2 := by
  obtain ⟨hu, hloads⟩ := complete_spec ht hv
  cases purpose with
  | importModule name =>
    obtain ⟨r, hr⟩ := settleImport_settled (l.commit task.graph.units) name
    rw [settleGraph, hr]
    refine .of_commit hl hu (settleImport_releases _ name) fun id hid => ?_
    simpa [Activity.loads, hloads, Graph.units] using hid
  | module =>
    rw [settleGraph, settle_settled]
    refine .of_commit hl (fun u hm => hu u (List.mem_cons_of_mem _ hm))
      ((evaluateDetached_releases _ _).trans (settle_releases _ _)) fun id hid => ?_
    simpa [Activity.loads, hloads] using hid
  | define name mode => exact settleDefine_steps hl ht hv

theorem loads_subset (purpose : Purpose) (task : GraphTask) {id : Nat}
    (h : id ∈ (Activity.graph purpose task).loads) :
    id ∈ task.graph.root.body.load :: task.loads := by
  cases purpose with
  | importModule name => exact h
  | _ => exact List.mem_cons_of_mem _ h

theorem mem_branches_loads {b : Branches} {id : Nat} : id ∈ Branches.loads b ↔
    (∃ branch ∈ b.tasks, id ∈ branch.loads) ∨ ∃ g ∈ b.values, id ∈ g.loads := by
  simp [Branches.loads, List.mem_flatMap]

section BranchesStep

variable {name : String} {metadata : Metadata} {b b' : Branches} {branch branch' : Branch}
  {rest : List Branch} (hl : l.Sound) (hb : Branches.Sound l b) (hn : b'.Numbered)
  (hp : b.tasks.Perm (branch :: rest))

include hl hb hn hp

theorem branches_going (hs : BranchStep metadata (branch, l) (branch', l'))
    (hp' : b'.tasks.Perm (branch' :: rest)) (hv : b'.values = b.values) :
    Branches.Sound l' b' ∧ Holds l l' (Branches.loads b) (Branches.loads b') := by
  obtain ⟨hb', hh⟩ := branchStep_spec hs hl (hb.tasks branch (hp.mem_iff.2 List.mem_cons_self))
  have hm := hb.mono hh.grows.loads
  have hrest : ∀ x ∈ rest, x ∈ b.tasks := fun x hx => hp.mem_iff.2 (List.mem_cons_of_mem _ hx)
  have hto : Touches l l' (Branches.loads b) := hh.touches.mono fun id hid =>
    mem_branches_loads.2 (Or.inl ⟨branch, hp.mem_iff.2 List.mem_cons_self, hid⟩)
  refine ⟨⟨hn, ?_, ?_⟩, hh.grows, hto, ?_, ?_, ?_⟩
  · intro x hx
    rcases List.mem_cons.1 (hp'.mem_iff.1 hx) with rfl | hx
    · exact hb'
    · exact hm.tasks x (hrest x hx)
  · rw [hv]
    exact hm.values
  · intro n id hi
    refine (hh.gains n id hi).imp_right fun hid => mem_branches_loads.2 (Or.inl ?_)
    exact ⟨branch', hp'.mem_iff.2 List.mem_cons_self, hid⟩
  · intro id hid
    rw [mem_branches_loads] at hid ⊢
    rw [hv]
    rcases hid with ⟨x, hx, hid⟩ | hid
    · rcases List.mem_cons.1 (hp.mem_iff.1 hx) with rfl | hx
      · refine (hh.kept id hid).imp_left fun hid => Or.inl ?_
        exact ⟨branch', hp'.mem_iff.2 List.mem_cons_self, hid⟩
      · exact Or.inl (Or.inl ⟨x, hp'.mem_iff.2 (List.mem_cons_of_mem _ hx), hid⟩)
    · exact Or.inl (Or.inr hid)
  · intro id hid
    rw [mem_branches_loads] at hid ⊢
    rw [hv] at hid
    rcases hid with ⟨x, hx, hid⟩ | hid
    · rcases List.mem_cons.1 (hp'.mem_iff.1 hx) with rfl | hx
      · refine (hh.held id hid).imp_left fun hid => Or.inl ?_
        exact ⟨branch, hp.mem_iff.2 List.mem_cons_self, hid⟩
      · exact Or.inl (Or.inl ⟨x, hrest x hx, hid⟩)
    · exact Or.inl (Or.inr hid)

theorem branches_ending {g : Graph} (he : BranchEnds (branch, l) (.ok g, l'))
    (hp' : b'.tasks.Perm rest) (hv : b'.values.Perm (g :: b.values)) :
    Branches.Sound l' b' ∧ Holds l l' (Branches.loads b) (Branches.loads b') := by
  obtain ⟨rfl, hu, hg⟩ := branchEnds_ok he (hb.tasks branch (hp.mem_iff.2 List.mem_cons_self))
  refine ⟨⟨hn, ?_, ?_⟩, .refl _, .refl _ _, fun _ _ => Or.inl, ?_, ?_⟩
  · exact fun x hx => hb.tasks x (hp.mem_iff.2 (List.mem_cons_of_mem _ (hp'.mem_iff.1 hx)))
  · intro g' hg'
    rcases List.mem_cons.1 (hv.mem_iff.1 hg') with rfl | hg'
    · exact hu
    · exact hb.values g' hg'
  · intro id hid
    rw [mem_branches_loads] at hid ⊢
    rcases hid with ⟨x, hx, hid⟩ | ⟨g', hg', hid⟩
    · rcases List.mem_cons.1 (hp.mem_iff.1 hx) with rfl | hx
      · exact Or.inl (Or.inr ⟨g, hv.mem_iff.2 List.mem_cons_self, (hg id).1 hid⟩)
      · exact Or.inl (Or.inl ⟨x, hp'.mem_iff.2 hx, hid⟩)
    · exact Or.inl (Or.inr ⟨g', hv.mem_iff.2 (List.mem_cons_of_mem _ hg'), hid⟩)
  · intro id hid
    rw [mem_branches_loads] at hid ⊢
    rcases hid with ⟨x, hx, hid⟩ | ⟨g', hg', hid⟩
    · exact Or.inl (Or.inl ⟨x, hp.mem_iff.2 (List.mem_cons_of_mem _ (hp'.mem_iff.1 hx)), hid⟩)
    · rcases List.mem_cons.1 (hv.mem_iff.1 hg') with rfl | hg'
      · exact Or.inl (Or.inl ⟨branch, hp.mem_iff.2 List.mem_cons_self, (hg id).2 hid⟩)
      · exact Or.inl (Or.inr ⟨g', hg', hid⟩)

theorem branches_failing {e : LoadError} (he : BranchEnds (branch, l) (.error e, l'))
    (hp' : b'.tasks.Perm rest) (ho : b'.outcomes.Perm (.error e :: b.outcomes)) :
    Steps (.branches name metadata b) l (.branches name metadata b') l' := by
  obtain ⟨hl', hev, hpend⟩ :=
    branchEnds_error he hl (hb.tasks branch (hp.mem_iff.2 List.mem_cons_self))
  have hm := hb.mono hev
  have hv : b'.values.Perm b.values := ho.filterMap Except.toOption
  refine ⟨hl', ⟨hn, ?_, fun g hg => hm.values g (hv.mem_iff.1 hg)⟩, hev, fun n id hi => ?_⟩
  · exact fun x hx => hm.tasks x (hp.mem_iff.2 (List.mem_cons_of_mem _ (hp'.mem_iff.1 hx)))
  · exact Or.inr ⟨hpend n id hi, Or.inr ⟨⟨e, ho.mem_iff.2 List.mem_cons_self⟩,
      Or.inr (Or.inl trivial)⟩⟩

end BranchesStep

theorem branches_steps {name : String} {metadata : Metadata} {b b' : Branches}
    (h : Gathering.Step (BranchStep metadata) BranchEnds (b, l) (b', l')) (hl : l.Sound)
    (hb : Branches.Sound l b) :
    Steps (.branches name metadata b) l (.branches name metadata b') l' := by
  have hn := h.numbered hb.numbered
  obtain ⟨branch, rest, hp, ⟨branch', hs, hp', ho⟩ | ⟨r, he, hp', ho⟩⟩ :=
    h.tasks_cases hb.numbered
  · obtain ⟨hb', hh⟩ := branches_going hl hb hn hp hs hp' (by rw [values, ho, values])
    exact .of_holds hh hl hb'
  · cases r with
    | error e => exact branches_failing hl hb hn hp he hp' ho
    | ok g =>
      obtain ⟨hb', hh⟩ := branches_ending hl hb hn hp he hp' (ho.filterMap Except.toOption)
      exact .of_holds hh hl hb'

theorem branches_fails {b : Branches} {e : LoadError} (h : Fails BranchEnds (b, l) (e, l'))
    (hl : l.Sound) (hb : Branches.Sound l b) :
    l'.Sound ∧ Evolves l l' ∧ ∀ n id, l'.pending.get? n = some id →
      l.pending.get? n = some id := by
  cases h with
  | before => exact ⟨hl, .refl l, fun _ _ => id⟩
  | now hp he =>
    refine branchEnds_error he hl (hb.tasks _ ?_)
    exact (hp.map Prod.snd).mem_iff.2 List.mem_cons_self

theorem rootFails_steps {name : String} {metadata : Metadata} {id : Nat} {e : LoadError}
    {l₁ : Loader} (hm : l.move id = (some (.error e), l₁)) (hr : l₁.reject e = (a', l'))
    (hl : l.Sound) : Steps (.root name metadata id) l a' l' := by
  have hg := move_grows l id
  have hga := move_gains l id
  have hf := move_finished hm
  rw [hm] at hg hga
  have hrel := reject_releases hr
  cases reject_settled hr
  have hl₁ := hg.sound hl
  refine ⟨hrel.sound hl₁, trivial, hg.loads.trans hrel.evolves, fun n i hp => Or.inr ⟨?_, Or.inl ?_⟩⟩
  · exact (hga n i (hrel.pending hp)).resolve_right List.not_mem_nil
  · rintro hi
    rw [Activity.loads, List.mem_singleton] at hi
    subst hi
    exact (hl₁.pending (hrel.pending hp)).not_failed ⟨e, hf⟩

theorem graph_steps {purpose : Purpose} {task task' : GraphTask}
    (h : GraphStep (task, l) (task', l')) (hl : l.Sound) (ht : task.Sound l) :
    Steps (.graph purpose task) l (.graph purpose task') l' := by
  cases purpose with
  | importModule name =>
    have hs : BranchStep task.metadata (.loading task, l) (.loading task', l') := .graph h
    have hb := branchStep_spec hs hl ht
    exact .of_holds hb.2 hl hb.1
  | _ =>
    obtain ⟨-, ht', hh⟩ := graphStep_spec h hl ht
    exact .of_holds hh hl ht'

theorem graphFails_steps {purpose : Purpose} {task : GraphTask} {e : LoadError} {l₁ : Loader}
    (h : GraphEnds (task, l) (.error e, l₁)) (hr : l₁.rejectGraph purpose e = (a', l'))
    (hl : l.Sound) (ht : task.Sound l) : Steps (.graph purpose task) l a' l' := by
  obtain ⟨hl₁, hev, hp⟩ := graphFails_spec h hl ht
  have hs := rejectGraph_settled l₁ purpose e
  have hrel := rejectGraph_releases l₁ purpose e
  rw [hr] at hs hrel
  simp only at hs
  subst hs
  refine ⟨hrel.sound hl₁, trivial, hev.trans hrel.evolves, fun n id hi => Or.inr ?_⟩
  obtain ⟨hpend, hu⟩ := hp n id (hrel.pending hi)
  refine ⟨hpend, ?_⟩
  by_cases hid : id ∈ (Activity.graph purpose task).loads
  · refine Or.inr ⟨trivial, Or.inl ?_⟩
    have hf := hu (loads_subset purpose task hid)
    have hloads : l'.loads = l₁.loads := hrel.loads
    rw [isFinished_eq_false_iff] at hf ⊢
    rw [hloads]
    exact hf
  · exact Or.inl hid

theorem branchesFail_steps {name : String} {metadata : Metadata} {b : Branches} {e : LoadError}
    {l₁ : Loader} (h : Fails BranchEnds (b, l) (e, l₁)) (hr : l₁.reject e = (a', l'))
    (hl : l.Sound) (hb : Branches.Sound l b) : Steps (.branches name metadata b) l a' l' := by
  obtain ⟨hl₁, hev, hp⟩ := branches_fails h hl hb
  have hrel := reject_releases hr
  cases reject_settled hr
  exact ⟨hrel.sound hl₁, trivial, hev.trans hrel.evolves, fun n id hi => Or.inr
    ⟨hp n id (hrel.pending hi), Or.inr ⟨trivial, Or.inr (Or.inl trivial)⟩⟩⟩

theorem branchesDone_steps {name : String} {metadata : Metadata} {b : Branches}
    {graphs : List Graph} (hv : b.values? = some graphs)
    (hd : (graphs.foldl (fun l g => l.commit g.units) l).settleImport name = (a', l'))
    (hl : l.Sound) (hb : Branches.Sound l b) : Steps (.branches name metadata b) l a' l' := by
  have hg : b.values = graphs := values_of_values? hv
  have hn : b.tasks = [] := tasks_of_values? hb.numbered hv
  rw [commitAll_eq] at hd
  have hc := commit_releases l (graphs.flatMap Graph.units)
  obtain ⟨r, hs⟩ := settleImport_settled (l.commit (graphs.flatMap Graph.units)) name
  have hrel := settleImport_releases (l.commit (graphs.flatMap Graph.units)) name
  rw [hd] at hs hrel
  simp only at hs
  subst hs
  refine .of_releases (hc.trans hrel) hl trivial fun n id hp hid => ?_
  have hnot : id ∉ (graphs.flatMap Graph.units).map (·.body.load) := by
    refine not_mem_loads_of_commit hl ?_ (hc.pending (hrel.pending hp)) ?_
    · intro u hu
      obtain ⟨g, hm, hu⟩ := List.mem_flatMap.1 hu
      exact hb.values g (hg ▸ hm) u hu
    · intro hm
      have hp' := hrel.pending hp
      rw [get?_commit, if_pos hm] at hp'
      simp at hp'
  refine absurd ?_ hnot
  · simp only [Activity.loads, mem_branches_loads, hn, hg, List.not_mem_nil, false_and,
      exists_false, false_or] at hid
    obtain ⟨g, hm, hid⟩ := hid
    rw [List.map_flatMap, List.mem_flatMap]
    exact ⟨g, hm, hid⟩

/-- What every step of a request does. -/
theorem advance_steps (h : Advance (a, l) (a', l')) (hl : l.Sound) (ha : a.Sound l) :
    Steps a l a' l' := by
  cases h with
  | tick | scriptWaits => exact .of_holds (.refl l _) hl trivial
  | @start request _ _ _ hs =>
    have hb := start_begins hl request
    rw [hs] at hb
    exact hb.steps rfl
  | @scriptAnswered load address _ _ _ hs =>
    have hb := receiveScript_begins (.refl l) hl load address
    rw [hs] at hb
    exact hb.steps rfl
  | @rootWaits name metadata id _ _ hm =>
    have hs : BranchStep metadata (.root id, l) (.root id, l') := .wait hm
    have hb := branchStep_spec hs hl ha
    exact .of_holds hb.2 hl hb.1
  | rootFails hm hr => exact rootFails_steps hm hr hl
  | @rootArrives name metadata id u task _ _ _ hm hs =>
    have hb := branchStep_spec (.arrive hm hs) hl ha
    exact .of_holds hb.2 hl hb.1
  | @graph purpose task task' _ _ hs => exact graph_steps hs hl ha
  | graphFails he hr => exact graphFails_steps he hr hl ha
  | @graphDone purpose task _ _ _ _ _ he hd =>
    cases he with
    | complete hv =>
      have hs := settleGraph_steps purpose hl ha hv
      rw [hd] at hs
      exact hs
  | branches hs => exact branches_steps hs hl ha
  | branchesIdle => exact .of_holds (.refl l _) hl ha
  | branchesFail hf hr => exact branchesFail_steps hf hr hl ha
  | branchesDone hv hd => exact branchesDone_steps hv hd hl ha

end Advance

/-! ## Turns of a request -/

/-- What every step of a sound request preserves holds after every turn of it. -/
theorem Sound.turn_preserves {P : Activity → Loader → Prop} (budget : Nat)
    (hp : ∀ {a a' : Activity} {l l' : Loader}, Advance (a, l) (a', l') → l.Sound → a.Sound l →
      P a l → P a' l')
    {l : Loader} {a : Activity} (hl : l.Sound) (ha : a.Sound l) (h : P a l) :
    P (turn (budget + 1) l a).1 (turn (budget + 1) l a).2 := by
  have hturn := Loader.turn_preserves (P := fun a l => l.Sound ∧ a.Sound l ∧ P a l) budget
    (fun hadv ⟨hl, ha, h⟩ => by
      have ht := advance_steps hadv hl ha
      exact ⟨ht.sound, ht.activity, hp hadv hl ha h⟩) ⟨hl, ha, h⟩
  exact hturn.2.2

/-- A request loads, or is about to load, what is missing below a registered module. -/
def Activity.Reloads (l : Loader) : Activity → Prop
  | .delayed 0 request => (l.start request).1.IsBranches
  | a => a.IsBranches

/-- What a turn of a request does to the loads it holds and to the pending table. -/
structure Turns (a : Activity) (l : Loader) (a' : Activity) (l' : Loader) : Prop where
  sound : l'.Sound
  activity : a'.Sound l'
  evolves : Evolves l l'
  pending : ∀ n id, l'.pending.get? n = some id → id ∈ a'.loads ∨
    l.pending.get? n = some id ∧ id ∉ a.loads ∨
    a'.Failing ∧ (l'.isFinished id = false ∨ a.Reloads l ∨ a'.IsRefused l')

theorem Activity.Failing.advance {a a' : Activity} {l l' : Loader} (ha : a.Failing)
    (h : Advance (a, l) (a', l')) (hs : a.Sound l) : a'.Failing := by
  cases h with
  | branches hb =>
    obtain ⟨e, he⟩ := ha
    obtain ⟨-, -, -, ⟨-, -, -, ho⟩ | ⟨r, -, -, ho⟩⟩ := hb.tasks_cases hs.numbered
    · exact ⟨e, ho ▸ he⟩
    · exact ⟨e, ho.mem_iff.2 (List.mem_cons_of_mem _ he)⟩
  | branchesIdle => exact ha
  | branchesFail _ hr =>
    cases reject_settled hr
    trivial
  | branchesDone hv =>
    obtain ⟨e, he⟩ := ha
    rw [outcomes_of_values? hv] at he
    simp at he
  | _ => exact ha.elim

/-- Only a request for a registered module has branches. -/
theorem Activity.IsBranches.of_advance {a a' : Activity} {l l' : Loader}
    (h : Advance (a, l) (a', l')) (ha : a'.IsBranches) : a.Reloads l := by
  cases h with
  | start hs =>
    rw [Activity.Reloads, hs]
    exact ha
  | branches | branchesIdle | branchesFail | branchesDone => trivial
  | tick | scriptWaits | rootWaits | rootArrives | graph => exact ha.elim
  | @scriptAnswered load address _ _ _ hr =>
    obtain ⟨r, hs⟩ := receiveScript_settled l load address
    rw [hr] at hs
    cases hs
    exact ha.elim
  | rootFails _ hr =>
    cases reject_settled hr
    exact ha.elim
  | @graphFails purpose _ e _ _ l₁ _ _ hr =>
    have hs := rejectGraph_settled l₁ purpose e
    rw [hr] at hs
    cases hs
    exact ha.elim
  | @graphDone purpose _ g _ _ l₁ _ _ hr =>
    obtain ⟨r, hs⟩ := settleGraph_settled l₁ purpose g
    rw [hr] at hs
    cases hs
    exact ha.elim

/-- A step leads to a request that has begun, unless it only shortens the delay. -/
theorem begun_of_advance {a a' : Activity} {l l' : Loader} (h : Advance (a, l) (a', l'))
    (hl : l.Sound) (ha : ∀ turns request, a ≠ .delayed (turns + 1) request) :
    ¬ a'.IsDelayed := by
  have hsettled {a' : Activity} (hr : ∃ r, a' = .settled r) : ¬ a'.IsDelayed := by
    obtain ⟨r, rfl⟩ := hr
    exact id
  cases h with
  | tick => exact absurd rfl (ha _ _)
  | @start request _ _ _ hs =>
    have hb := start_begins hl request
    rw [hs] at hb
    exact hb.begun
  | @scriptAnswered load address _ _ _ hr =>
    have hs := receiveScript_settled l load address
    rw [hr] at hs
    exact hsettled hs
  | rootFails _ hr => exact hsettled ⟨_, reject_settled hr⟩
  | branchesFail _ hr => exact hsettled ⟨_, reject_settled hr⟩
  | @graphFails purpose _ e _ _ l₁ _ _ hr =>
    have hs := rejectGraph_settled l₁ purpose e
    rw [hr] at hs
    exact hsettled ⟨_, hs⟩
  | @graphDone purpose _ g _ _ l₁ _ _ hr =>
    have hs := settleGraph_settled l₁ purpose g
    rw [hr] at hs
    exact hsettled hs
  | @branchesDone name _ _ graphs _ _ _ _ hr =>
    have hs := settleImport_settled (graphs.foldl (fun l g => l.commit g.units) l) name
    rw [hr] at hs
    exact hsettled hs
  | _ => exact id

/-- Where a request stands in the middle of a turn that began with `a` in `l`. -/
structure MidTurn (a : Activity) (l : Loader) (c : Activity) (m : Loader) : Prop where
  turns : Turns a l c m
  begun : ¬ c.IsDelayed
  reloads : c.IsBranches → a.Reloads l

theorem MidTurn.of_steps {a c : Activity} {l m : Loader} (h : Steps a l c m)
    (hb : ¬ c.IsDelayed) (ha : a.IsBranches → a.Reloads l) (hr : c.IsBranches → a.Reloads l) :
    MidTurn a l c m := by
  refine ⟨⟨h.sound, h.activity, h.evolves, fun n id hp => ?_⟩, hb, hr⟩
  rcases h.pending n id hp with hid | ⟨hp', hid | ⟨hf, hid | hid | hid⟩⟩
  · exact Or.inl hid
  · exact Or.inr (Or.inl ⟨hp', hid⟩)
  · exact Or.inr (Or.inr ⟨hf, Or.inl hid⟩)
  · exact Or.inr (Or.inr ⟨hf, Or.inr (Or.inl (ha hid))⟩)
  · exact Or.inr (Or.inr ⟨hf, Or.inr (Or.inr hid)⟩)

theorem Activity.IsBranches.reloads {a : Activity} (h : a.IsBranches) (l : Loader) :
    a.Reloads l := by
  cases a with
  | branches => trivial
  | _ => exact h.elim

/-- A failing request is settled, or one that reloads. -/
theorem Activity.Failing.isBranches {a a' : Activity} {l l' : Loader} (h : a.Failing)
    (hs : Advance (a, l) (a', l')) : a.IsBranches := by
  cases hs with
  | branches | branchesIdle | branchesFail | branchesDone => trivial
  | _ => exact h.elim

theorem MidTurn.step {a c d : Activity} {l m k : Loader} (h : MidTurn a l c m)
    (hs : Advance (c, m) (d, k)) : MidTurn a l d k := by
  have ht := advance_steps hs h.turns.sound h.turns.activity
  have hnot : ∀ turns request, c ≠ .delayed (turns + 1) request := by
    rintro turns request rfl
    exact h.begun trivial
  have hbr : d.IsBranches → c.IsBranches := by
    intro hd
    have hc := hd.of_advance hs
    cases c with
    | delayed turns request => exact absurd trivial h.begun
    | _ => exact hc
  refine ⟨⟨ht.sound, ht.activity, h.turns.evolves.trans ht.evolves, fun n id hp => ?_⟩,
    begun_of_advance hs h.turns.sound hnot, fun hd => h.reloads (hbr hd)⟩
  rcases ht.pending n id hp with hid | ⟨hp', hcase⟩
  · exact Or.inl hid
  · rcases h.turns.pending n id hp' with hid | hid | ⟨hf, -⟩
    · rcases hcase with hid' | ⟨hf, hu | hb | hr⟩
      · exact absurd hid hid'
      · exact Or.inr (Or.inr ⟨hf, Or.inl hu⟩)
      · exact Or.inr (Or.inr ⟨hf, Or.inr (Or.inl (h.reloads hb))⟩)
      · exact Or.inr (Or.inr ⟨hf, Or.inr (Or.inr hr)⟩)
    · exact Or.inr (Or.inl hid)
    · exact Or.inr (Or.inr ⟨hf.advance hs h.turns.activity,
        Or.inr (Or.inl (h.reloads (hf.isBranches hs)))⟩)

theorem midTurn_of_transGen {a : Activity} {l : Loader} {c : Activity × Loader}
    (h : Relation.TransGen Advance (a, l) c) (hl : l.Sound) (ha : a.Sound l)
    (hnot : ∀ turns request, a ≠ .delayed (turns + 1) request) : MidTurn a l c.1 c.2 := by
  induction h with
  | single hs =>
    exact .of_steps (advance_steps hs hl ha) (begun_of_advance hs hl hnot)
      (fun hb => hb.reloads l) (fun hb => hb.of_advance hs)
  | tail _ hs ih => exact ih.step hs

/-- A pending load that a turn leaves without a request was left before, or the request fails in
that turn: with the load unfinished, with a registered module to reload, or as a definition that
came too late. -/
theorem turn_turns (budget : Nat) {l : Loader} {a : Activity} (hl : l.Sound) (ha : a.Sound l) :
    Turns a l (turn (budget + 1) l a).1 (turn (budget + 1) l a).2 := by
  have hstay {a' : Activity} (h : a.loads = []) (ha' : a'.Sound l) : Turns a l a' l :=
    ⟨hl, ha', .refl l, fun n id hp => Or.inr (Or.inl ⟨hp, by simp [h]⟩)⟩
  cases hs : a.isSettled with
  | true =>
    cases a with
    | settled r => exact hstay rfl trivial
    | _ => simp [Activity.isSettled] at hs
  | false =>
    by_cases hd : ∃ turns request, a = .delayed (turns + 1) request
    · obtain ⟨turns, request, rfl⟩ := hd
      exact hstay rfl trivial
    · refine (midTurn_of_transGen (turn_advances budget l hs) hl ha ?_).turns
      exact fun turns request h => hd ⟨turns, request, h⟩

end ModuleLoader.Loader

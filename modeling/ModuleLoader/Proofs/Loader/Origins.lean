import ModuleLoader.Proofs.Loader.Effects

/-! # Origins of loads

A request holds no load that it did not hold before, unless it was pending or is new. The load of a
source that comes with a request is held by no other request, and never pending.
-/

namespace ModuleLoader.Loader

open Gathering

/-- The load of the source that came with a request. -/
def Activity.own? : Activity → Option Nat
  | .graph (.importModule _) _ => none
  | .graph _ task => some task.graph.root.body.load
  | _ => none

/-- Where pending loads, and those that a request holds, come from in a step. -/
structure Draws (a : Activity) (l : Loader) (a' : Activity) (l' : Loader) : Prop where
  pending : ∀ {n id}, l'.pending.get? n = some id →
    l.pending.get? n = some id ∨ l.loads.length ≤ id
  held : ∀ {id}, id ∈ a'.loads →
    id ∈ a.loads ∨ (∃ n, l.pending.get? n = some id) ∨ l.loads.length ≤ id
  own : ∀ {id}, a'.own? = some id → a.own? = some id ∨
    l.loads.length ≤ id ∧ id ∉ a'.loads ∧ ∀ n, l'.pending.get? n ≠ some id

section Draws

variable {a a' : Activity} {l l' : Loader}

theorem Draws.of_holds (h : Holds l l' a.loads a'.loads)
    (ho : ∀ id, a'.own? = some id → a.own? = some id) : Draws a l a' l' := by
  constructor
  · exact h.grows.fresh
  · intro id hid
    rcases h.held _ hid with hid | ⟨n, -, hp⟩
    · exact Or.inl hid
    · exact Or.inr ((h.grows.fresh hp).imp_left fun hp => ⟨n, hp⟩)
  · intro id hid
    exact Or.inl (ho _ hid)

/-- A step that adds nothing to the pending table, and nothing to what is held. -/
theorem Draws.of_pending
    (hp : ∀ {n id}, l'.pending.get? n = some id → l.pending.get? n = some id)
    (hh : ∀ id ∈ a'.loads, id ∈ a.loads) (ho : ∀ id, a'.own? = some id → a.own? = some id) :
    Draws a l a' l' :=
  ⟨fun h => Or.inl (hp h), fun h => Or.inl (hh _ h), fun h => Or.inl (ho _ h)⟩

theorem Draws.of_settled {c : Activity × Loader} {r : Except LoadError Answer}
    (hc : c.1 = .settled r)
    (hp : ∀ {n id}, c.2.pending.get? n = some id → l.pending.get? n = some id) :
    Draws a l c.1 c.2 := by
  refine .of_pending hp ?_ ?_
  · rw [hc]
    exact fun _ h => absurd h List.not_mem_nil
  · rw [hc]
    exact fun _ h => by simp [Activity.own?] at h

theorem Draws.of_settle {l₁ : Loader} {r : Except LoadError Answer}
    (hp : ∀ {n id}, l₁.pending.get? n = some id → l.pending.get? n = some id) :
    Draws a l (l₁.settle r).1 (l₁.settle r).2 :=
  .of_settled (settle_settled l₁ r) fun h => hp ((settle_releases l₁ r).pending h)

theorem Draws.of_reject {l₁ : Loader} {e : LoadError}
    (hp : ∀ {n id}, l₁.pending.get? n = some id → l.pending.get? n = some id)
    (hr : l₁.reject e = (a', l')) : Draws a l a' l' := by
  have hd := Draws.of_settle (a := a) (r := .error e) hp
  rw [reject] at hr
  rwa [hr] at hd

theorem Draws.of_eq {l₁ : Loader} (hp : l₁.pending = l.pending) (hn : l₁.loads = l.loads)
    (h : Draws a l₁ a' l') : Draws a l a' l' := by
  obtain ⟨hpending, hheld, hown⟩ := h
  rw [hp] at hpending hheld
  rw [hn] at hpending hheld hown
  exact ⟨hpending, hheld, hown⟩

/-! ## Beginnings -/

theorem receiveScript_draws {l₁ : Loader} (h : Releases l l₁) (load : Load) (address : String) :
    Draws a l (l₁.receiveScript load address).1 (l₁.receiveScript load address).2 := by
  unfold receiveScript
  split
  · exact .of_settle h.pending
  · exact .of_settle (h.trans (runSource_releases _ _ _)).pending

theorem startScript_draws (l : Loader) (load : Load) :
    Draws a l (l.startScript load).1 (l.startScript load).2 := by
  unfold startScript
  split
  · exact .of_settle id
  · exact .of_settle (runSource_releases _ _ _).pending
  · rename_i load address _
    simp only
    split
    · exact .of_pending id (fun _ h => absurd h List.not_mem_nil) fun _ h => by
        simp [Activity.own?] at h
    · exact receiveScript_draws (note_releases l (.asked address)) _ _

/-- A load from a source at hand has a new number. -/
theorem loadInline_ok {load : Load} {source : String} {referrer : Option String} {u : LoadedUnit}
    (h : l.loadInline load source referrer = (.ok u, l')) :
    u.body.load = l.loads.length ∧ l'.loads.length = l.loads.length + 1 ∧
      l'.pending = l.pending := by
  obtain ⟨maps, hm⟩ := linkSource_snd (l.note (.began load.name l.loads.length)) l.loads.length
    { load with source := some source } source referrer
  simp only [loadInline, Prod.mk.injEq] at h
  obtain ⟨hu, rfl⟩ := h
  refine ⟨(linkSource_ok hu).2, ?_, ?_⟩
  · rw [hm]
    simp [note]
  · rw [hm]
    rfl

theorem startInline_draws (hl : l.Sound) (purpose : Purpose)
    (hp : ∀ name, purpose ≠ .importModule name) (name source : String)
    (referrer : Option String) (options : RequestOptions) :
    Draws a l (l.startInline purpose name source referrer options).1
      (l.startInline purpose name source referrer options).2 := by
  have hi := loadInline_inline l (l.inlineLoad name options) source referrer
  rcases he : l.loadInline (l.inlineLoad name options) source referrer with ⟨e | root, l₁⟩
  · rw [he] at hi
    rw [startInline_of_error he]
    refine .of_settled (rejectGraph_settled l₁ purpose e) fun h => ?_
    rw [← hi.pending]
    exact (rejectGraph_releases l₁ purpose e).pending h
  · obtain ⟨hroot, hlen, hpend⟩ := loadInline_ok he
    rw [he] at hi
    rw [startInline_of_ok he]
    rcases hs : l₁.startGraph (l.metadataOf options) root with ⟨task, l₂⟩
    obtain ⟨hgr, -, hh⟩ := startGraph_spec hs (hi.sound hl) (hi.arrived root rfl)
    simp only
    have hnew {n : String} {id : Nat} (h : l₂.pending.get? n = some id) :
        l.pending.get? n = some id ∨ l.loads.length + 1 ≤ id := by
      rw [← hpend, ← hlen]
      exact hh.grows.fresh h
    have hheld {id : Nat} (hid : id ∈ task.loads) : ∃ n, l₂.pending.get? n = some id := by
      obtain ⟨n, -, hn⟩ := (hh.held id hid).resolve_left List.not_mem_nil
      exact ⟨n, hn⟩
    have hloads : (Activity.graph purpose task).loads = task.loads := by
      cases purpose with
      | importModule n => exact absurd rfl (hp n)
      | _ => rfl
    have hown : (Activity.graph purpose task).own? = some l.loads.length := by
      rw [← hroot, ← hgr]
      cases purpose with
      | importModule n => exact absurd rfl (hp n)
      | _ => rfl
    have hnot (n : String) : l₂.pending.get? n ≠ some l.loads.length := by
      intro h
      rcases hnew h with h | h
      · exact Nat.lt_irrefl _ (hl.pending h).lt
      · omega
    constructor
    · intro n id h
      exact (hnew h).imp_right Nat.le_of_succ_le
    · intro id hid
      rw [hloads] at hid
      obtain ⟨n, hn⟩ := hheld hid
      right
      exact (hnew hn).imp (fun h => ⟨n, h⟩) Nat.le_of_succ_le
    · intro id hid
      rw [hown, Option.some.injEq] at hid
      subst hid
      right
      refine ⟨Nat.le_refl _, fun hid => ?_, hnot⟩
      rw [hloads] at hid
      obtain ⟨n, hn⟩ := hheld hid
      exact hnot n hn

theorem start_draws (hl : l.Sound) (ha : a.loads = []) (request : Request) :
    Draws a l (l.start request).1 (l.start request).2 := by
  have hreject (e : LoadError) : Draws a l (l.reject e).1 (l.reject e).2 := .of_reject id rfl
  have hs := start_starts l request
  generalize l.start request = c at hs
  cases hs with
  | imports specifier =>
    rcases startImport_holds hl specifier request.options with ⟨e, hr⟩ | ⟨hi, hh⟩
    · rw [hr]
      exact hreject e
    · rw [← ha] at hh
      refine .of_holds hh fun id hid => ?_
      generalize (l.startImport specifier request.options).1 = b at hi hid
      cases b with
      | graph purpose task =>
        obtain ⟨name, rfl⟩ := hi
        simp [Activity.own?] at hid
      | _ => simp [Activity.own?] at hid
  | misnamed | taken => exact hreject _
  | defines =>
    have hs (names : List String) : Sound { l with defining := names } := ⟨hl.1, hl.2⟩
    refine .of_eq ?_ ?_ (startInline_draws (hs _) _ ?_ _ _ _ _)
    · rfl
    · rfl
    · simp
  | detached =>
    have hs : l.freshName.2.Sound := ⟨hl.1, hl.2⟩
    refine .of_eq ?_ ?_ (startInline_draws hs _ ?_ _ _ _ _)
    · rfl
    · rfl
    · simp
  | script load => exact startScript_draws l _
  | namelessScript load =>
    refine .of_eq ?_ ?_ (startScript_draws l.freshName.2 _)
    · rfl
    · rfl

/-! ## Steps -/

theorem branches_draws {name : String} {metadata : Metadata} {b b' : Branches}
    (h : Gathering.Step (BranchStep metadata) BranchEnds (b, l) (b', l')) (hl : l.Sound)
    (hb : Branches.Sound l b) :
    Draws (.branches name metadata b) l (.branches name metadata b') l' := by
  have hn := h.numbered hb.numbered
  obtain ⟨branch, rest, hp, ⟨branch', hs, hp', ho⟩ | ⟨r, he, hp', ho⟩⟩ :=
    h.tasks_cases hb.numbered
  · obtain ⟨-, hh⟩ := branches_going hl hb hn hp hs hp' (by rw [values, ho, values])
    exact .of_holds hh fun _ h => h
  · cases r with
    | ok g =>
      obtain ⟨-, hh⟩ := branches_ending hl hb hn hp he hp' (ho.filterMap Except.toOption)
      exact .of_holds hh fun _ h => h
    | error e =>
      have hv : b'.values.Perm b.values := ho.filterMap Except.toOption
      refine .of_pending (branchEnds_fades he).pending (fun id hid => ?_) fun _ h => h
      rw [Activity.loads, mem_branches_loads] at hid ⊢
      rcases hid with ⟨x, hx, hid⟩ | ⟨g, hg, hid⟩
      · exact Or.inl ⟨x, hp.mem_iff.2 (List.mem_cons_of_mem _ (hp'.mem_iff.1 hx)), hid⟩
      · exact Or.inr ⟨g, hv.mem_iff.1 hg, hid⟩

/-- Where every step of a request has its loads from. -/
theorem advance_draws (h : Advance (a, l) (a', l')) (hl : l.Sound) (ha : a.Sound l) :
    Draws a l a' l' := by
  cases h with
  | tick | scriptWaits | branchesIdle => exact .of_pending id (fun _ h => h) fun _ h => h
  | @start request _ _ _ hs =>
    have hd := start_draws (a := .delayed 0 request) hl rfl request
    rwa [hs] at hd
  | @scriptAnswered load address _ _ _ hs =>
    have hd := receiveScript_draws (a := .script load address 0) (.refl l) load address
    rwa [hs] at hd
  | @rootWaits name metadata id _ _ hm =>
    have hs : BranchStep metadata (.root id, l) (.root id, l') := .wait hm
    exact .of_holds (branchStep_spec hs hl ha).2 fun _ h => h
  | @rootFails name metadata id e _ _ l₁ _ hm hr =>
    have hf := move_fades l id
    rw [hm] at hf
    exact .of_reject hf.pending hr
  | rootArrives hm hs =>
    have hb := branchStep_spec (.arrive hm hs) hl ha
    exact .of_holds hb.2 fun _ h => by simp [Activity.own?] at h
  | @graph purpose task task' _ _ hs =>
    cases purpose with
    | importModule name =>
      have hb : BranchStep task.metadata (.loading task, l) (.loading task', l') := .graph hs
      exact .of_holds (branchStep_spec hb hl ha).2 fun _ h => h
    | _ =>
      obtain ⟨hroot, -, hh⟩ := graphStep_spec hs hl ha
      refine .of_holds hh fun id hid => ?_
      simpa only [Activity.own?, hroot] using hid
  | @graphFails purpose task e _ _ l₁ _ he hr =>
    have hb : BranchEnds (.loading task, l) (.error e, l₁) := .graph he
    have hrel := rejectGraph_releases l₁ purpose e
    have hd : Draws (.graph purpose task) l (l₁.rejectGraph purpose e).1
        (l₁.rejectGraph purpose e).2 :=
      .of_settled (rejectGraph_settled l₁ purpose e) fun h =>
        (branchEnds_fades hb).pending (hrel.pending h)
    rwa [hr] at hd
  | @graphDone purpose task g _ _ _ _ he hs =>
    cases he with
    | complete hv =>
      obtain ⟨r, hset⟩ := settleGraph_settled l purpose task.graph
      have hd : Draws (.graph purpose task) l (l.settleGraph purpose task.graph).1
          (l.settleGraph purpose task.graph).2 :=
        .of_settled hset (settleGraph_releases l purpose task.graph).pending
      rwa [hs] at hd
  | branches hs => exact branches_draws hs hl ha
  | branchesFail hf hr => exact .of_reject (branches_fades hf).pending hr
  | @branchesDone name metadata b graphs _ _ _ hv hs =>
    rw [commitAll_eq] at hs
    have hrel := (commit_releases l (graphs.flatMap Graph.units)).trans
      (settleImport_releases _ name)
    obtain ⟨r, hset⟩ := settleImport_settled (l.commit (graphs.flatMap Graph.units)) name
    have hd := Draws.of_settled (a := .branches name metadata b) hset hrel.pending
    rwa [hs] at hd

/-! ## Units -/

/-- The units that a request will register have arrived. -/
theorem Activity.Sound.units (h : a.Sound l) : ∀ u ∈ a.units, l.Arrived u := by
  intro u hu
  cases a with
  | graph purpose task =>
    have hm : u ∈ task.graph.units := by
      cases purpose with
      | module => exact List.mem_cons_of_mem _ hu
      | _ => exact hu
    exact GraphTask.Sound.arrived h u (List.mem_append_left _ hm)
  | branches name metadata b =>
    obtain ⟨g, hg, hu⟩ := List.mem_flatMap.1 hu
    exact Branches.Sound.values h g hg u hu
  | _ => exact absurd hu List.not_mem_nil

theorem GraphTask.mem_loads_of_below {task : GraphTask} {u : LoadedUnit}
    (h : u ∈ task.graph.below) : u.body.load ∈ task.loads := by
  simp only [GraphTask.loads, List.mem_append, List.map_append, List.mem_map]
  exact Or.inl (Or.inl ⟨u, h, rfl⟩)

/-- Their loads are held, but for the one of the source that came with the request. -/
theorem Activity.mem_loads_of_unit {u : LoadedUnit} (h : u ∈ a.units) :
    u.body.load ∈ a.loads ∨ a.own? = some u.body.load := by
  cases a with
  | graph purpose task =>
    cases purpose with
    | importModule name =>
      rcases List.mem_cons.1 h with rfl | h
      · exact Or.inl List.mem_cons_self
      · exact Or.inl (List.mem_cons_of_mem _ (GraphTask.mem_loads_of_below h))
    | define name mode =>
      rcases List.mem_cons.1 h with rfl | h
      · exact Or.inr rfl
      · exact Or.inl (GraphTask.mem_loads_of_below h)
    | module => exact Or.inl (GraphTask.mem_loads_of_below h)
  | branches name metadata b =>
    obtain ⟨g, hg, hu⟩ := List.mem_flatMap.1 h
    exact Or.inl (mem_branches_loads.2 (Or.inr ⟨g, hg, List.mem_map_of_mem hu⟩))
  | _ => exact absurd h List.not_mem_nil

theorem Activity.Detaches.mem_loads {u v : LoadedUnit} (h : a.Detaches u) (hv : v ∈ a.units) :
    v.body.load ∈ a.loads := by
  cases a with
  | graph purpose task =>
    cases purpose with
    | module => exact GraphTask.mem_loads_of_below hv
    | _ => exact h.elim
  | _ => exact h.elim

theorem Activity.Detaches.own {u : LoadedUnit} (h : a.Detaches u) :
    a.own? = some u.body.load := by
  cases a with
  | graph purpose task =>
    cases purpose with
    | module =>
      rw [← show task.graph.root = u from h]
      rfl
    | _ => exact h.elim
  | _ => exact h.elim

theorem Activity.Sound.own_lt (h : a.Sound l) {id : Nat} (ho : a.own? = some id) :
    id < l.loads.length := by
  cases a with
  | graph purpose task =>
    have hroot : id = task.graph.root.body.load := by
      cases purpose with
      | importModule name => simp [own?] at ho
      | _ => exact (Option.some.inj ho).symm
    rw [hroot]
    have hr : l.Arrived task.graph.root :=
      GraphTask.Sound.arrived h _ (by simp [GraphTask.units, Graph.units])
    exact (List.getElem?_eq_some_iff.1 hr).1
  | _ => simp [own?] at ho

/-! ## Registration -/

theorem settleGraph_commits (l : Loader) {purpose : Purpose}
    (hp : ∀ name, purpose ≠ .importModule name) (g : Graph) :
    Calm l (l.settleGraph purpose g).2 ∨
      ∃ l₁, Releases l l₁ ∧ Releases (l₁.commit g.below) (l.settleGraph purpose g).2 := by
  cases purpose with
  | importModule name => exact absurd rfl (hp name)
  | module =>
    exact Or.inr ⟨l, .refl l, (evaluateDetached_releases _ g.root).trans (settle_releases _ _)⟩
  | define name mode =>
    unfold settleGraph settleDefine
    simp only
    split
    · exact Or.inl ((unclaim_same l name).trans (settle_same _ _)).calm
    · refine Or.inr ⟨l.file g.root, file_releases l g.root, ?_⟩
      split
      · exact (unclaim_releases _ name).trans (settle_releases _ _)
      · exact ((evaluate_releases _ name).trans (unclaim_releases _ name)).trans
          (settle_releases _ _)

/-- A step that registers units releases their loads. -/
theorem advance_releases (h : Advance (a, l) (a', l')) (hl : l.Sound) (ha : a.Sound l) :
    Calm l l' ∨ ∀ u ∈ a.units, u.body.load ∈ a.loads →
      ∀ n, l'.pending.get? n ≠ some u.body.load := by
  have hu := ha.units
  have hunits {l₁ : Loader} {us : List LoadedUnit} (hs : Sound l₁) (hu : ∀ u ∈ us, l₁.Arrived u)
      (hr : Releases (l₁.commit us) l') {u : LoadedUnit} (hm : u ∈ us) (n : String) :
      l'.pending.get? n ≠ some u.body.load :=
    fun hp => commit_pending hs hu hr hp (List.mem_map_of_mem hm)
  cases h with
  | tick | start | scriptWaits | scriptAnswered | rootWaits | rootFails | rootArrives =>
    exact Or.inr fun u hm => absurd hm List.not_mem_nil
  | branchesIdle => exact Or.inl (.refl l)
  | @graph purpose task _ _ _ hs =>
    have ht : task.Sound l := by
      cases purpose <;> exact ha
    exact Or.inl (graphStep_spec hs hl ht).2.2.grows.calm
  | @graphFails purpose task e _ _ l₁ _ he hr =>
    have hb : BranchEnds (.loading task, l) (.error e, l₁) := .graph he
    have hg := rejectGraph_calm l₁ purpose e
    rw [hr] at hg
    exact Or.inl ((branchEnds_calm hb).trans hg)
  | branches hs => exact Or.inl (branches_calm hs hl ha)
  | @branchesFail _ _ _ e _ _ l₁ _ hf hr =>
    have hg := settle_calm l₁ (.error e)
    rw [reject] at hr
    rw [hr] at hg
    exact Or.inl ((branchesFail_calm hf).trans hg)
  | @graphDone purpose task g _ _ _ _ he hs =>
    cases he with
    | complete hv =>
      obtain ⟨hall, hloads⟩ := complete_spec ha hv
      by_cases hp : ∃ name, purpose = .importModule name
      · obtain ⟨name, rfl⟩ := hp
        have hrel := settleImport_releases (l.commit task.graph.units) name
        change (l.commit task.graph.units).settleImport name = _ at hs
        rw [hs] at hrel
        exact Or.inr fun u hm _ => hunits hl hu hrel hm
      · have hp : ∀ name, purpose ≠ .importModule name := fun name hn => hp ⟨name, hn⟩
        have hc := settleGraph_commits l hp task.graph
        rw [hs] at hc
        refine hc.imp_right ?_
        rintro ⟨l₁, hr, hrel⟩ u - hid
        -- the root of such a graph holds no load, so this is the load of a unit below it
        have hbelow : u.body.load ∈ task.graph.below.map (·.body.load) := by
          cases purpose with
          | importModule name => exact absurd rfl (hp name)
          | _ => simpa only [Activity.loads, hloads] using hid
        obtain ⟨v, hv, he⟩ := List.mem_map.1 hbelow
        rw [← he]
        refine hunits (hr.sound hl) (fun w hw => ?_) hrel hv
        exact hr.evolves.arrived (hall w (List.mem_cons_of_mem _ hw))
  | @branchesDone name metadata b graphs _ _ _ hv hs =>
    have he : (Activity.branches name metadata b).units = graphs.flatMap Graph.units := by
      rw [Activity.units, values_of_values? hv]
    have hrel := settleImport_releases (l.commit (graphs.flatMap Graph.units)) name
    rw [commitAll_eq] at hs
    rw [hs] at hrel
    rw [he] at hu ⊢
    exact Or.inr fun u hm _ => hunits hl hu hrel hm

end Draws

end ModuleLoader.Loader

import ModuleLoader.Proofs.Loader.Movement

/-! # What requests hold

A request holds the loads that its graphs wait for and those whose units they have. It holds on to
them until it is settled, and whatever it adds to the pending table it holds.
-/

namespace ModuleLoader

/-- The values that tasks of a gathering have come to. -/
def Gathering.values {τ ε α : Type} (g : Gathering τ ε α) : List α :=
  g.outcomes.filterMap Except.toOption

@[simp] theorem Gathering.values_ofTasks {τ ε α : Type} (ts : List τ) :
    (Gathering.ofTasks ts : Gathering τ ε α).values = [] := by
  simp [values]

theorem Gathering.values_of_values? {τ ε α : Type} {g : Gathering τ ε α} {vs : List α}
    (h : g.values? = some vs) : g.values = vs := by
  rw [values, outcomes_of_values? h, List.filterMap_map]
  exact (congrFun List.filterMap_eq_map vs).trans (List.map_id vs)

namespace Loader

theorem join_pending (l : Loader) (name : String) (metadata : Metadata) :
    (l.join name metadata).2.pending.get? name = some (l.join name metadata).1 := by
  rw [join]
  split
  · rename_i id hp
    exact hp
  · simp

theorem join_gains (l : Loader) (name : String) (metadata : Metadata) :
    Gains l (l.join name metadata).2 [(l.join name metadata).1] := by
  intro n id hp
  rw [join] at hp ⊢
  split at hp
  · exact Or.inl hp
  · simp only [Dict.get?_insert] at hp
    split at hp
    · simp only [Option.some.injEq] at hp
      exact Or.inr (by simp [hp])
    · exact Or.inl hp

theorem join_kept (l : Loader) (name : String) (metadata : Metadata) {n : String} {id : Nat}
    (h : l.pending.get? n = some id) : (l.join name metadata).2.pending.get? n = some id := by
  rw [join]
  split
  · exact h
  · rename_i hp
    simp only
    rw [Dict.get?_insert_of_ne _ _ ?_]
    · exact h
    · rintro rfl
      rw [hp] at h
      simp at h

/-- What it means to want dependencies: those that are neither registered nor seen become seen, and
their pending loads are the wanted ones. -/
structure Wanted (l : Loader) (seen : List String) (dependencies : List Dependency)
    (ids : List Nat) (seen' : List String) (l' : Loader) : Prop where
  grows : Grows l l'
  touches : Touches l l' []
  gains : Gains l l' ids
  kept : ∀ {n id}, l.pending.get? n = some id → l'.pending.get? n = some id
  pending : ∀ id ∈ ids, ∃ n ∈ seen', n ∉ seen ∧ l.registry.has n = false ∧
    l'.pending.get? n = some id
  seen_mono : ∀ n ∈ seen, n ∈ seen'
  mem_seen : ∀ d ∈ dependencies, l.registry.has d.name = false → d.name ∈ seen'
  of_seen : ∀ n ∈ seen', n ∈ seen ∨
    (l.registry.has n = false ∧ n ∈ dependencies.map (·.name) ∧
      ∃ id ∈ ids, l'.pending.get? n = some id)

theorem wantAll_wanted (metadata : Metadata) (l : Loader) (seen : List String)
    (dependencies : List Dependency) :
    Wanted l seen dependencies (wantAll metadata l seen dependencies).1
      (wantAll metadata l seen dependencies).2.1 (wantAll metadata l seen dependencies).2.2 := by
  fun_induction wantAll metadata l seen dependencies with
  | case1 l seen =>
    exact ⟨.refl l, .refl l [], fun _ _ => Or.inl, id, by simp, fun _ h => h, by simp,
      fun _ h => Or.inl h⟩
  | case2 l seen d rest hs ih =>
    refine ⟨ih.grows, ih.touches, ih.gains, ih.kept, ih.pending, ih.seen_mono, ?_, ?_⟩
    · intro d' hd' hr
      rcases List.mem_cons.1 hd' with rfl | hd'
      · simp only [hr, Bool.false_or, List.contains_iff_mem] at hs
        exact ih.seen_mono _ hs
      · exact ih.mem_seen _ hd' hr
    · intro n hn
      refine (ih.of_seen n hn).imp_right ?_
      rintro ⟨hr, hm, hp⟩
      exact ⟨hr, List.mem_cons_of_mem _ hm, hp⟩
  | case3 l seen d rest hs id l₁ hj ids seen' l₂ hw ih =>
    rw [hw] at ih
    have hg := join_grows l d.name metadata
    have ht := join_touches l d.name metadata
    have hga := join_gains l d.name metadata
    have hk {n : String} {i : Nat} (h : l.pending.get? n = some i) :
        (l.join d.name metadata).2.pending.get? n = some i :=
      join_kept l d.name metadata h
    have hp := join_pending l d.name metadata
    rw [hj] at hg ht hga hk hp
    simp only [Bool.or_eq_true, List.contains_iff_mem, not_or, Bool.not_eq_true] at hs
    have hseen := ih.seen_mono d.name List.mem_cons_self
    refine ⟨hg.trans ih.grows, ht.trans_nil ih.touches, ?_, ?_, ?_, ?_, ?_, ?_⟩
    · intro n i hi
      rcases ih.gains n i hi with hi | hi
      · rcases hga n i hi with hi | hi
        · exact Or.inl hi
        · simp only [List.mem_singleton] at hi
          exact Or.inr (by simp [hi])
      · exact Or.inr (List.mem_cons_of_mem _ hi)
    · exact fun hi => ih.kept (hk hi)
    · intro i hi
      rcases List.mem_cons.1 hi with rfl | hi
      · exact ⟨d.name, hseen, hs.2, hs.1, ih.kept hp⟩
      · obtain ⟨n, hn, hne, hr, hp⟩ := ih.pending i hi
        rw [hg.registry] at hr
        exact ⟨n, hn, fun hm => hne (List.mem_cons_of_mem _ hm), hr, hp⟩
    · exact fun n hn => ih.seen_mono n (List.mem_cons_of_mem _ hn)
    · intro d' hd' hr
      rcases List.mem_cons.1 hd' with rfl | hd'
      · exact hseen
      · exact ih.mem_seen d' hd' (by rw [hg.registry, hr])
    · intro n hn
      rcases ih.of_seen n hn with hn | ⟨hr, hm, i, hi, hpi⟩
      · rcases List.mem_cons.1 hn with rfl | hn
        · exact Or.inr ⟨hs.1, by simp, id, List.mem_cons_self, ih.kept hp⟩
        · exact Or.inl hn
      · rw [hg.registry] at hr
        exact Or.inr ⟨hr, List.mem_cons_of_mem _ hm, i, List.mem_cons_of_mem _ hi, hpi⟩

/-! ## Loads that move -/

/-- What a step of a frontier does: one load moves, and if it ends well its unit is a value. -/
theorem frontier_step {f f' : Frontier} {l l' : Loader} (hl : l.Sound) (hf : f.Numbered)
    (h : Gathering.Step LoadWaits LoadEnds (f, l) (f', l')) :
    f'.Numbered ∧ Grows l l' ∧ Touches l l' f.tasks ∧ Gains l l' [] ∧ ∃ id rest, f.tasks.Perm (id :: rest) ∧
      ((f'.tasks.Perm (id :: rest) ∧ f'.values.Perm f.values) ∨
        (l'.Failed id ∧ f'.tasks.Perm rest ∧ f'.values.Perm f.values) ∨
        ∃ u, l'.Arrived u ∧ u.body.load = id ∧ f'.tasks.Perm rest ∧
          f'.values.Perm (u :: f.values)) := by
  refine ⟨h.numbered hf, ?_⟩
  obtain ⟨id, rest, hp, ⟨id', hw, hp', ho⟩ | ⟨r, he, hp', ho⟩⟩ := h.tasks_cases hf
  all_goals
    have hmem : ∀ i ∈ [id], i ∈ f.tasks := fun i hi =>
      hp.mem_iff.2 (List.mem_singleton.1 hi ▸ List.mem_cons_self)
    have hg := move_grows l id
    have hto := (move_touches l id).mono hmem
    have hga := move_gains l id
  · cases hw with
    | mk hm =>
      rw [hm] at hg hto hga
      exact ⟨hg, hto, hga, id, rest, hp, Or.inl ⟨hp', by rw [Gathering.values, ho, Gathering.values]⟩⟩
  · cases he with
    | mk hm =>
      rw [hm] at hg hto hga
      have hfin := move_finished hm
      have hv := ho.filterMap Except.toOption
      refine ⟨hg, hto, hga, id, rest, hp, Or.inr ?_⟩
      cases r with
      | error e => exact Or.inl ⟨⟨e, hfin⟩, hp', hv⟩
      | ok u =>
        have hu := (hg.sound hl).own hfin
        exact Or.inr ⟨u, by rw [Arrived, hu, hfin], hu, hp', hv⟩

/-- The same, as it concerns each load and each value. -/
theorem frontier_step_mem {f f' : Frontier} {l l' : Loader} (hl : l.Sound) (hf : f.Numbered)
    (h : Gathering.Step LoadWaits LoadEnds (f, l) (f', l')) :
    (∀ id ∈ f'.tasks, id ∈ f.tasks) ∧ (∀ u ∈ f.values, u ∈ f'.values) ∧
      (∀ u ∈ f'.values, u ∈ f.values ∨ l'.Arrived u ∧ u.body.load ∈ f.tasks) ∧
      ∀ id ∈ f.tasks, id ∈ f'.tasks ∨ id ∈ f'.values.map (·.body.load) ∨ l'.Failed id := by
  obtain ⟨-, -, -, -, id, rest, hp, hc⟩ := frontier_step hl hf h
  have hmem : ∀ i, i ∈ f.tasks ↔ i = id ∨ i ∈ rest := fun i => by rw [hp.mem_iff, List.mem_cons]
  rcases hc with ⟨hp', hv⟩ | ⟨hfail, hp', hv⟩ | ⟨u, hu, rfl, hp', hv⟩
  · refine ⟨fun i hi => hp.mem_iff.2 (hp'.mem_iff.1 hi), fun u hu => hv.mem_iff.2 hu,
      fun u hu => Or.inl (hv.mem_iff.1 hu), fun i hi => Or.inl (hp'.mem_iff.2 (hp.mem_iff.1 hi))⟩
  · refine ⟨fun i hi => (hmem i).2 (Or.inr (hp'.mem_iff.1 hi)), fun u hu => hv.mem_iff.2 hu,
      fun u hu => Or.inl (hv.mem_iff.1 hu), ?_⟩
    intro i hi
    rcases (hmem i).1 hi with rfl | hi
    · exact Or.inr (Or.inr hfail)
    · exact Or.inl (hp'.mem_iff.2 hi)
  · refine ⟨fun i hi => (hmem i).2 (Or.inr (hp'.mem_iff.1 hi)),
      fun v hv' => hv.mem_iff.2 (List.mem_cons_of_mem _ hv'), ?_, ?_⟩
    · intro v hv'
      rcases List.mem_cons.1 (hv.mem_iff.1 hv') with rfl | hv'
      · exact Or.inr ⟨hu, (hmem _).2 (Or.inl rfl)⟩
      · exact Or.inl hv'
    · intro i hi
      rcases (hmem i).1 hi with rfl | hi
      · exact Or.inr (Or.inl (List.mem_map_of_mem (hv.mem_iff.2 List.mem_cons_self)))
      · exact Or.inl (hp'.mem_iff.2 hi)

/-! ## Graphs -/

/-- The units that a graph has so far. -/
def GraphTask.units (task : GraphTask) : List LoadedUnit :=
  task.graph.units ++ task.frontier.values

/-- The loads below the root of a graph. -/
def GraphTask.loads (task : GraphTask) : List Nat :=
  (task.graph.below ++ task.frontier.values).map (·.body.load) ++ task.frontier.tasks

/-- A graph knows which loads it waits for, and has seen the names of all that it holds. -/
structure GraphTask.Sound (l : Loader) (task : GraphTask) : Prop where
  numbered : task.frontier.Numbered
  arrived : ∀ u ∈ task.units, l.Arrived u
  seen : ∀ u ∈ task.units, u.name ∈ task.seen
  valid : ∀ id ∈ task.frontier.tasks, id < l.loads.length
  wanted : ∀ id ∈ task.frontier.tasks, ∀ n, l.Serves id n → n ∈ task.seen

theorem GraphTask.Sound.mono {l l' : Loader} {task : GraphTask} (h : task.Sound l)
    (he : Evolves l l') : task.Sound l' where
  numbered := h.numbered
  arrived u hu := he.arrived (h.arrived u hu)
  seen := h.seen
  valid id hid := Nat.lt_of_lt_of_le (h.valid id hid) he.length_le
  wanted id hid n hn := h.wanted id hid n (he.serves_back hn (h.valid id hid))

/-- What a step does to what is held: the loads that were held still are or have failed, and no
others move. What is new in the pending table is held, and what is held was held, or is pending for
a name that is not registered. -/
structure Holds (l l' : Loader) (ids ids' : List Nat) : Prop where
  grows : Grows l l'
  touches : Touches l l' ids
  gains : Gains l l' ids'
  kept : ∀ id ∈ ids, id ∈ ids' ∨ l'.Failed id
  held : ∀ id ∈ ids', id ∈ ids ∨ ∃ n, l.registry.has n = false ∧ l'.pending.get? n = some id

theorem Holds.refl (l : Loader) (ids : List Nat) : Holds l l ids ids :=
  ⟨.refl l, .refl l ids, fun _ _ => Or.inl, fun _ => Or.inl, fun _ => Or.inl⟩

/-- A graph whose units have been seen, with the loads that were wanted below them. -/
theorem Wanted.sound {l l' : Loader} {seen seen' : List String} {dependencies : List Dependency}
    {ids : List Nat} (h : Wanted l seen dependencies ids seen' l') (hl : l.Sound)
    (metadata : Metadata) {g : Graph} (hg : ∀ u ∈ g.units, l.Arrived u ∧ u.name ∈ seen) :
    GraphTask.Sound l' ⟨metadata, g, seen', .ofTasks ids⟩ := by
  have hl' := h.grows.sound hl
  refine ⟨Gathering.numbered_ofTasks ids, ?_, ?_, ?_, ?_⟩
  · intro u hu
    simp only [GraphTask.units, Gathering.values_ofTasks, List.append_nil] at hu
    exact h.grows.loads.arrived (hg u hu).1
  · intro u hu
    simp only [GraphTask.units, Gathering.values_ofTasks, List.append_nil] at hu
    exact h.seen_mono _ (hg u hu).2
  · intro id hid
    rw [Gathering.tasks_ofTasks] at hid
    obtain ⟨n, -, -, -, hp⟩ := h.pending id hid
    exact (hl'.pending hp).lt
  · intro id hid n hn
    rw [Gathering.tasks_ofTasks] at hid
    obtain ⟨m, hm, -, -, hp⟩ := h.pending id hid
    exact (hl'.pending hp).unique hn ▸ hm

theorem startGraph_wanted {l l' : Loader} {metadata : Metadata} {root : LoadedUnit}
    {task : GraphTask} (h : l.startGraph metadata root = (task, l')) :
    ∃ ids, task = ⟨metadata, ⟨root, []⟩, task.seen, .ofTasks ids⟩ ∧
      Wanted l [root.name] root.dependencies ids task.seen l' := by
  have hw := wantAll_wanted metadata l [root.name] root.dependencies
  rw [startGraph] at h
  simp only [Prod.mk.injEq] at h
  obtain ⟨rfl, rfl⟩ := h
  exact ⟨_, rfl, hw⟩

theorem expand_wanted {l l' : Loader} {task task' : GraphTask} {units : List LoadedUnit}
    (h : l.expand task units = (task', l')) :
    ∃ ids, task' = ⟨task.metadata, ⟨task.graph.root, task.graph.below ++ units⟩, task'.seen,
        .ofTasks ids⟩ ∧
      Wanted l task.seen (units.flatMap (·.dependencies)) ids task'.seen l' := by
  have hw := wantAll_wanted task.metadata l task.seen (units.flatMap (·.dependencies))
  rw [expand] at h
  simp only [Prod.mk.injEq] at h
  obtain ⟨rfl, rfl⟩ := h
  exact ⟨_, rfl, hw⟩

section Graphs

variable {l l' : Loader} {task task' : GraphTask}

theorem startGraph_spec {metadata : Metadata} {root : LoadedUnit}
    (h : l.startGraph metadata root = (task, l')) (hl : l.Sound) (hr : l.Arrived root) :
    task.graph.root = root ∧ task.Sound l' ∧ Holds l l' [] task.loads := by
  obtain ⟨ids, ht, hw⟩ := startGraph_wanted h
  rw [ht]
  refine ⟨rfl, hw.sound hl metadata ?_, hw.grows, hw.touches, ?_, by simp, ?_⟩
  · intro u hu
    simp only [Graph.units, List.mem_singleton] at hu
    subst hu
    exact ⟨hr, List.mem_singleton_self _⟩
  · simpa [GraphTask.loads] using hw.gains
  · intro id hid
    obtain ⟨n, -, -, hn⟩ := hw.pending id (by simpa [GraphTask.loads] using hid)
    exact Or.inr ⟨n, hn⟩

theorem expand_spec {units : List LoadedUnit} (h : l.expand task units = (task', l'))
    (hl : l.Sound) (ht : task.Sound l) (hv : task.frontier.values? = some units) :
    task'.graph.root = task.graph.root ∧ task'.Sound l' ∧ Holds l l' task.loads task'.loads := by
  have hu : task.frontier.values = units := Gathering.values_of_values? hv
  have hn : task.frontier.tasks = [] := Gathering.tasks_of_values? ht.numbered hv
  have hunits : task.units = task.graph.units ++ units := by rw [GraphTask.units, hu]
  obtain ⟨ids, ht', hw⟩ := expand_wanted h
  rw [ht']
  refine ⟨rfl, hw.sound hl task.metadata ?_, hw.grows, hw.touches.mono (by simp), ?_, ?_, ?_⟩
  · intro u hm
    have hm : u ∈ task.units := by simpa [hunits, Graph.units] using hm
    exact ⟨ht.arrived u hm, ht.seen u hm⟩
  · intro n id hp
    refine (hw.gains n id hp).imp_right fun hi => ?_
    simp [GraphTask.loads, hi]
  · intro id hi
    simp only [GraphTask.loads, hu, hn, List.append_nil] at hi
    simp only [GraphTask.loads, Gathering.values_ofTasks, List.append_nil, List.mem_append]
    exact Or.inl (Or.inl hi)
  · intro id hid
    simp only [GraphTask.loads, Gathering.values_ofTasks, List.append_nil, List.mem_append,
      Gathering.tasks_ofTasks] at hid
    rcases hid with hid | hid
    · refine Or.inl ?_
      simpa [GraphTask.loads, hu, hn] using hid
    · obtain ⟨n, -, -, hn⟩ := hw.pending id hid
      exact Or.inr ⟨n, hn⟩

theorem graphStep_load_spec {frontier : Frontier} (hl : l.Sound) (ht : task.Sound l)
    (h : Gathering.Step LoadWaits LoadEnds (task.frontier, l) (frontier, l')) :
    GraphTask.Sound l' { task with frontier := frontier } ∧
      Holds l l' task.loads (GraphTask.loads { task with frontier := frontier }) := by
  obtain ⟨hnum, hg, hto, hga, -⟩ := frontier_step hl ht.numbered h
  obtain ⟨htasks, hkept, hvalues, hends⟩ := frontier_step_mem hl ht.numbered h
  have hm := ht.mono hg.loads
  have hunits : ∀ u ∈ GraphTask.units { task with frontier := frontier },
      u ∈ task.units ∨ l'.Arrived u ∧ u.body.load ∈ task.frontier.tasks := by
    intro u hu
    simp only [GraphTask.units, List.mem_append] at hu ⊢
    rcases hu with hu | hu
    · exact Or.inl (Or.inl hu)
    · exact (hvalues u hu).imp_left Or.inr
  have htouch : Touches l l' task.loads :=
    hto.mono fun id hid => List.mem_append_right _ hid
  refine ⟨⟨hnum, ?_, ?_, ?_, ?_⟩, hg, htouch, ?_, ?_, ?_⟩
  · intro u hu
    rcases hunits u hu with hu | ⟨hu, -⟩
    · exact hm.arrived u hu
    · exact hu
  · intro u hu
    rcases hunits u hu with hu | ⟨hu, hid⟩
    · exact hm.seen u hu
    · exact hm.wanted _ hid _ ⟨_, hu, rfl, rfl⟩
  · exact fun id hid => hm.valid id (htasks id hid)
  · exact fun id hid => hm.wanted id (htasks id hid)
  · intro n id hp
    exact (hga n id hp).imp_right fun hi => absurd hi (List.not_mem_nil)
  · intro id hi
    simp only [GraphTask.loads, List.mem_append, List.map_append] at hi ⊢
    rcases hi with (hi | hi) | hi
    · exact Or.inl (Or.inl (Or.inl hi))
    · obtain ⟨u, hu, rfl⟩ := List.mem_map.1 hi
      exact Or.inl (Or.inl (Or.inr (List.mem_map_of_mem (hkept u hu))))
    · rcases hends id hi with hi | hi | hi
      · exact Or.inl (Or.inr hi)
      · exact Or.inl (Or.inl (Or.inr hi))
      · exact Or.inr hi
  · intro id hid
    refine Or.inl ?_
    simp only [GraphTask.loads, List.map_append, List.mem_append] at hid ⊢
    rcases hid with (hid | hid) | hid
    · exact Or.inl (Or.inl hid)
    · obtain ⟨u, hu, rfl⟩ := List.mem_map.1 hid
      rcases hvalues u hu with hu | ⟨-, hid⟩
      · exact Or.inl (Or.inr (List.mem_map_of_mem hu))
      · exact Or.inr hid
    · exact Or.inr (htasks id hid)

/-- A graph that moves holds on to its loads. -/
theorem graphStep_spec (h : GraphStep (task, l) (task', l')) (hl : l.Sound) (ht : task.Sound l) :
    task'.graph.root = task.graph.root ∧ task'.Sound l' ∧ Holds l l' task.loads task'.loads := by
  cases h with
  | idle hr hv => exact ⟨rfl, ht, .refl l _⟩
  | expand hv hn he => exact expand_spec he hl ht hv
  | load hs => exact ⟨rfl, graphStep_load_spec hl ht hs⟩

/-- A graph that is complete has units that have arrived, and no other loads. -/
theorem complete_spec (ht : task.Sound l) (hv : task.frontier.values? = some []) :
    (∀ u ∈ task.graph.units, l.Arrived u) ∧
      task.loads = task.graph.below.map (·.body.load) := by
  have hu : task.frontier.values = [] := Gathering.values_of_values? hv
  have hn : task.frontier.tasks = [] := Gathering.tasks_of_values? ht.numbered hv
  refine ⟨fun u hm => ht.arrived u (List.mem_append_left _ hm), ?_⟩
  simp [GraphTask.loads, hu, hn]

/-- A failure in a frontier: a load has failed, now or before. -/
theorem frontier_fails {f : Frontier} {e : LoadError} (h : Gathering.Fails LoadEnds (f, l) (e, l')) :
    Grows l l' ∧ Gains l l' [] := by
  cases h with
  | before => exact ⟨.refl l, fun _ _ => Or.inl⟩
  | @now running rest results i load e s s' hp he =>
    cases he with
    | mk hm =>
      have hg := move_grows l load
      have hga := move_gains l load
      rw [hm] at hg hga
      exact ⟨hg, hga⟩

/-- A graph that fails has released its loads, but for those that have not ended. -/
theorem graphFails_spec {e : LoadError} (h : GraphEnds (task, l) (.error e, l')) (hl : l.Sound)
    (ht : task.Sound l) :
    l'.Sound ∧ Evolves l l' ∧ (∀ n id, l'.pending.get? n = some id →
      l.pending.get? n = some id ∧ (id ∈ task.graph.root.body.load :: task.loads →
        l'.isFinished id = false)) := by
  cases h with
  | @fails _ _ l₁ _ hf =>
    obtain ⟨hg, hga⟩ := frontier_fails hf
    have hr := release_releases l₁ task.seen
    refine ⟨hr.sound (hg.sound hl), hg.loads.trans hr.evolves, fun n id hp => ⟨?_, ?_⟩⟩
    · exact (hga n id (hr.pending hp)).resolve_right List.not_mem_nil
    · intro hid
      have hm := ht.mono hg.loads
      have hs := (hg.sound hl).pending (hr.pending hp)
      have hn : n ∈ task.seen := by
        have hunit : ∀ u ∈ task.units, u.body.load = id → n ∈ task.seen := by
          rintro u hu rfl
          rw [hs.unique ⟨_, hm.arrived u hu, rfl, rfl⟩]
          exact hm.seen u hu
        simp only [GraphTask.loads, List.mem_cons, List.mem_append, List.mem_map] at hid
        rcases hid with hid | ⟨u, hu, hid⟩ | hid
        · exact hunit _ (by simp [GraphTask.units, Graph.units]) hid.symm
        · exact hunit u (by
            rcases hu with hu | hu <;> simp [GraphTask.units, Graph.units, hu]) hid
        · exact hm.wanted id hid n hs
      rw [get?_release, if_pos hn, Option.filter_eq_some_iff] at hp
      simpa [isFinished, release] using hp.2

end Graphs

/-! ## Branches -/

/-- The loads of a branch. -/
def Branch.loads : Branch → List Nat
  | .root id => [id]
  | .loading task => task.graph.root.body.load :: task.loads

/-- The loads of a graph that is complete. -/
def Graph.loads (g : Graph) : List Nat := g.units.map (·.body.load)

/-- The loads of branches. -/
def Branches.loads (b : Branches) : List Nat :=
  b.tasks.flatMap Branch.loads ++ b.values.flatMap Graph.loads

/-- A branch knows its loads. -/
def Branch.Sound (l : Loader) : Branch → Prop
  | .root id => id < l.loads.length
  | .loading task => task.Sound l

/-- Branches know their loads. -/
structure Branches.Sound (l : Loader) (b : Branches) : Prop where
  numbered : b.Numbered
  tasks : ∀ branch ∈ b.tasks, branch.Sound l
  values : ∀ g ∈ b.values, ∀ u ∈ g.units, l.Arrived u

theorem Branch.Sound.mono {l l' : Loader} {b : Branch} (h : b.Sound l) (he : Evolves l l') :
    b.Sound l' := by
  cases b with
  | root id => exact Nat.lt_of_lt_of_le h he.length_le
  | loading task => exact GraphTask.Sound.mono h he

theorem Branches.Sound.mono {l l' : Loader} {b : Branches} (h : Branches.Sound l b)
    (he : Evolves l l') : Branches.Sound l' b where
  numbered := h.numbered
  tasks branch hb := (h.tasks branch hb).mono he
  values g hg u hu := he.arrived (h.values g hg u hu)

section Branches

variable {l l' : Loader} {branch branch' : Branch}

theorem branchStep_spec {metadata : Metadata}
    (h : BranchStep metadata (branch, l) (branch', l')) (hl : l.Sound) (hb : branch.Sound l) :
    branch'.Sound l' ∧ Holds l l' branch.loads branch'.loads := by
  cases h with
  | @wait id _ _ hm =>
    have hg := move_grows l id
    have hto := move_touches l id
    have hga := move_gains l id
    rw [hm] at hg hto hga
    refine ⟨Branch.Sound.mono hb hg.loads, hg, hto, ?_, fun _ => Or.inl, fun _ => Or.inl⟩
    exact fun n i hp => (hga n i hp).imp_right fun hi => absurd hi List.not_mem_nil
  | @arrive id _ l₁ _ u task hm hs =>
    have hg := move_grows l id
    have hto := move_touches l id
    have hga := move_gains l id
    have hf := move_finished hm
    rw [hm] at hg hto hga
    have hu := (hg.sound hl).own hf
    have ha : l₁.Arrived u := by rw [Arrived, hu, hf]
    obtain ⟨hroot, ht, hh⟩ := startGraph_spec hs (hg.sound hl) ha
    refine ⟨ht, hg.trans hh.grows, hto.trans_nil hh.touches, ?_, ?_, ?_⟩
    · intro n i hp
      rcases hh.gains n i hp with hp | hi
      · exact Or.inl ((hga n i hp).resolve_right List.not_mem_nil)
      · exact Or.inr (List.mem_cons_of_mem _ hi)
    · intro i hi
      rw [Branch.loads, List.mem_singleton] at hi
      exact Or.inl (by simp [Branch.loads, hroot, hu, hi])
    · intro i hi
      simp only [Branch.loads, List.mem_cons, hroot, hu] at hi
      rcases hi with rfl | hi
      · exact Or.inl (List.mem_singleton_self _)
      · refine Or.inr ((hh.held i hi).resolve_left List.not_mem_nil |>.imp fun n hn => ?_)
        rwa [hg.registry] at hn
  | @graph task task' _ _ hs =>
    obtain ⟨hroot, ht, hh⟩ := graphStep_spec hs hl hb
    have hto : Touches l l' (Branch.loads (.loading task)) :=
      hh.touches.mono fun i hi => List.mem_cons_of_mem _ hi
    refine ⟨ht, hh.grows, hto, ?_, ?_, ?_⟩
    · exact fun n i hp => (hh.gains n i hp).imp_right (List.mem_cons_of_mem _)
    · intro i hi
      simp only [Branch.loads, List.mem_cons, hroot] at hi ⊢
      rcases hi with rfl | hi
      · exact Or.inl (Or.inl rfl)
      · exact (hh.kept i hi).imp_left Or.inr
    · intro i hi
      simp only [Branch.loads, List.mem_cons, hroot] at hi ⊢
      rcases hi with rfl | hi
      · exact Or.inl (Or.inl rfl)
      · exact (hh.held i hi).imp_left Or.inr

/-- A branch that ends well has a graph with all its loads. -/
theorem branchEnds_ok {g : Graph} (h : BranchEnds (branch, l) (.ok g, l'))
    (hb : branch.Sound l) :
    l' = l ∧ (∀ u ∈ g.units, l.Arrived u) ∧ ∀ id, id ∈ branch.loads ↔ id ∈ g.loads := by
  cases h with
  | graph he =>
    cases he with
    | @complete task _ hv =>
      obtain ⟨ha, hloads⟩ := complete_spec hb hv
      refine ⟨rfl, ha, fun id => ?_⟩
      simp [Branch.loads, hloads, Graph.loads, Graph.units]

theorem branchEnds_error {e : LoadError} (h : BranchEnds (branch, l) (.error e, l'))
    (hl : l.Sound) (hb : branch.Sound l) :
    l'.Sound ∧ Evolves l l' ∧ ∀ n id, l'.pending.get? n = some id →
      l.pending.get? n = some id := by
  cases h with
  | @root id _ _ _ hm =>
    have hg := move_grows l id
    have hga := move_gains l id
    rw [hm] at hg hga
    exact ⟨hg.sound hl, hg.loads, fun n i hp => (hga n i hp).resolve_right List.not_mem_nil⟩
  | graph he =>
    obtain ⟨hs, hev, hp⟩ := graphFails_spec he hl hb
    exact ⟨hs, hev, fun n i hi => (hp n i hi).1⟩

end Branches

end Loader

end ModuleLoader

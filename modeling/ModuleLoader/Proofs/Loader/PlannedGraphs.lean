import Mathlib.Algebra.GroupWithZero.Nat
import Mathlib.Algebra.Order.BigOperators.Group.List
import Mathlib.Algebra.Order.Group.Nat
import ModuleLoader.Proofs.Loader.Plans

/-! # Graphs that follow a plan

A graph whose loads keep to a plan comes to its end with a unit for each name that it has seen. Each
of its steps brings down its toil, a bound for the steps that are left.
-/

namespace ModuleLoader.Plan

open Loader Gathering Relation

variable (p : Plan)

/-- A planned unit needs another one. -/
def Dep (a b : String) : Prop :=
  a ∈ p.names ∧ b ∈ p.names ∧ b ∈ (p.unit a).dependencies.map (·.name)

/-- How many planned names are not among the seen ones. -/
def unseen (seen : List String) : Nat := (p.names.filter (· ∉ seen)).card

/-- A bound for the steps of a graph. -/
def toil (l : Loader) (task : GraphTask) : Nat :=
  (p.patience + 3) * p.unseen task.seen + (task.frontier.tasks.map fun id => l.rest id + 1).sum +
    if task.frontier.results = [] then 0 else 1

/-- A graph below a root follows a plan: it has planned units, waits for planned loads, and has seen
what its units need unless that is registered. -/
structure Follows (l : Loader) (name : String) (task : GraphTask) : Prop where
  sound : task.Sound l
  metadata : task.metadata = p.metadata
  root : task.graph.root.name = name
  units : ∀ u ∈ task.units, u.name ∈ p.names ∧ u = (p.unit u.name).withLoad u.body.load
  loads : ∀ id ∈ task.frontier.tasks, ∃ n ∈ p.names, l.Comes id (p.unit n)
  closed : ∀ u ∈ task.graph.units, ∀ d ∈ u.dependencies,
    l.registry.has d.name = true ∨ d.name ∈ task.seen
  seen : ∀ n ∈ task.seen, ReflTransGen p.Dep name n ∧
    (n ∈ task.units.map (·.name) ∨ ∃ id ∈ task.frontier.tasks, l.Serves id n)
  outcomes : ∀ r ∈ task.frontier.outcomes, ∃ u, r = .ok u

variable {p}

theorem unseen_cons {n : String} {seen : List String} (hn : n ∈ p.names) (hs : n ∉ seen) :
    p.unseen (n :: seen) + 1 = p.unseen seen := by
  have he : p.names.filter (· ∉ n :: seen) = (p.names.filter (· ∉ seen)).erase n := by
    ext m
    simp only [Finset.mem_filter, Finset.mem_erase, List.mem_cons, not_or]
    constructor
    · rintro ⟨hm, hmn, hs⟩
      exact ⟨hmn, hm, hs⟩
    · rintro ⟨hmn, hm, hs⟩
      exact ⟨hm, hmn, hs⟩
  rw [unseen, he, unseen, Finset.card_erase_add_one]
  exact Finset.mem_filter.2 ⟨hn, by simpa using hs⟩

theorem sum_rest_le {l l' : Loader} {ids : List Nat} (h : ∀ id ∈ ids, l'.rest id ≤ l.rest id) :
    (ids.map fun id => l'.rest id + 1).sum ≤ (ids.map fun id => l.rest id + 1).sum :=
  List.sum_le_sum fun id hid => Nat.succ_le_succ (h id hid)

/-! ## Wanting dependencies -/

section Want

variable {l : Loader} (seen : List String) {dependencies : List Dependency}

theorem wantAll_keeps (h : p.Keeps l)
    (hd : ∀ d ∈ dependencies, l.registry.has d.name = true ∨ d.name ∈ p.names) :
    p.Keeps (wantAll p.metadata l seen dependencies).2.2 ∧
      p.Proceeds l (wantAll p.metadata l seen dependencies).2.2 := by
  generalize hm : p.metadata = metadata
  fun_induction wantAll metadata l seen dependencies with
  | case1 => exact ⟨h, .refl _⟩
  | case2 l seen d rest hs ih => exact ih h fun d hm => hd d (List.mem_cons_of_mem _ hm)
  | case3 l seen d rest hs id l₁ hj ids seen' l₂ hw ih =>
    simp only [Bool.or_eq_true, not_or, Bool.not_eq_true] at hs
    have hn : d.name ∈ p.names :=
      (hd d List.mem_cons_self).resolve_left fun hr => by simp [hs.1] at hr
    have hk := h.join hn hs.1
    have hp := join_proceeds hn hs.1
    rw [hm, hj] at hk hp
    have hi := ih hk fun d hm => by
      rw [hp.grows.registry]
      exact hd d (List.mem_cons_of_mem _ hm)
    rw [hw] at hi
    exact ⟨hi.1, hp.trans hi.2⟩

/-- Each load that is wanted is for a name that was not seen. -/
theorem wantAll_unseen (hd : ∀ d ∈ dependencies, l.registry.has d.name = true ∨ d.name ∈ p.names) :
    p.unseen (wantAll p.metadata l seen dependencies).2.1 +
      (wantAll p.metadata l seen dependencies).1.length = p.unseen seen := by
  generalize p.metadata = metadata
  fun_induction wantAll metadata l seen dependencies with
  | case1 => rfl
  | case2 l seen d rest hs ih => exact ih fun d hm => hd d (List.mem_cons_of_mem _ hm)
  | case3 l seen d rest hs id l₁ hj ids seen' l₂ hw ih =>
    simp only [Bool.or_eq_true, not_or, Bool.not_eq_true, List.contains_iff_mem] at hs
    have hn : d.name ∈ p.names :=
      (hd d List.mem_cons_self).resolve_left fun hr => by simp [hs.1] at hr
    have hg := join_grows l d.name metadata
    rw [hj] at hg
    have hi := ih fun d hm => by
      rw [hg.registry]
      exact hd d (List.mem_cons_of_mem _ hm)
    rw [hw] at hi
    have hc := unseen_cons hn hs.2
    simp only [List.length_cons] at hi ⊢
    omega

/-- The loads that are wanted are planned and bring the toil of what is left no further up than
their names brought it down. -/
theorem wanted_planned {l' : Loader} {seen seen' : List String} {ids : List Nat}
    (hw : Wanted l seen dependencies ids seen' l') (hk : p.Keeps l')
    (hd : ∀ d ∈ dependencies, l.registry.has d.name = true ∨ d.name ∈ p.names) :
    (∀ id ∈ ids, ∃ n ∈ p.names, l'.Comes id (p.unit n)) ∧
      (ids.map fun id => l'.rest id + 1).sum ≤ ids.length * (p.patience + 1) := by
  have hids : ∀ id ∈ ids, ∃ n ∈ p.names, l'.Comes id (p.unit n) ∧ l'.rest id ≤ p.patience := by
    intro id hid
    obtain ⟨n, hn, hns, hr, hp⟩ := hw.pending id hid
    obtain ⟨-, hm, -⟩ := (hw.of_seen n hn).resolve_left hns
    obtain ⟨d, hdm, rfl⟩ := List.mem_map.1 hm
    have hmem : d.name ∈ p.names :=
      (hd d hdm).resolve_left fun h => by simp [hr] at h
    exact ⟨d.name, hmem, hk.pending d.name hmem id hp⟩
  refine ⟨fun id hid => ?_, ?_⟩
  · obtain ⟨n, hn, hc, -⟩ := hids id hid
    exact ⟨n, hn, hc⟩
  · have hle : ∀ x ∈ ids.map fun id => l'.rest id + 1, x ≤ p.patience + 1 := by
      intro x hx
      obtain ⟨id, hid, rfl⟩ := List.mem_map.1 hx
      obtain ⟨n, -, -, hr⟩ := hids id hid
      exact Nat.succ_le_succ hr
    have hs := List.sum_le_card_nsmul _ _ hle
    simpa using hs

end Want

/-! ## Steps of a graph -/

section Graphs

variable {l l' : Loader} {name : String} {task task' : GraphTask}

/-- What a graph follows it still follows when loads have moved and more is registered. -/
theorem Follows.mono (h : p.Follows l name task) (he : Evolves l l')
    (hc : ∀ {id u}, l.Comes id u → l'.Comes id u)
    (hr : ∀ {n}, l.registry.has n = true → l'.registry.has n = true) :
    p.Follows l' name task := by
  refine ⟨h.sound.mono he, h.metadata, h.root, h.units, fun id hid => ?_, fun u hu d hd => ?_,
    fun n hn => ?_, h.outcomes⟩
  · obtain ⟨n, hn, hcn⟩ := h.loads id hid
    exact ⟨n, hn, hc hcn⟩
  · exact (h.closed u hu d hd).imp_left hr
  · obtain ⟨hp, hs⟩ := h.seen n hn
    refine ⟨hp, hs.imp_right ?_⟩
    rintro ⟨id, hid, hserves⟩
    obtain ⟨m, -, hcm⟩ := h.loads id hid
    exact ⟨id, hid, hserves.unique hcm.serves ▸ (hc hcm).serves⟩

/-- The toil of a graph that has just wanted dependencies. -/
theorem toil_wanted {seen seen' : List String} {ids : List Nat} (graph : Graph)
    (hs : (ids.map fun id => l.rest id + 1).sum ≤ ids.length * (p.patience + 1))
    (hu : p.unseen seen' + ids.length = p.unseen seen) :
    p.toil l ⟨p.metadata, graph, seen', .ofTasks ids⟩ ≤ (p.patience + 3) * p.unseen seen := by
  have hmul : (p.patience + 3) * p.unseen seen =
      (p.patience + 3) * p.unseen seen' + (ids.length * (p.patience + 1) + ids.length * 2) := by
    rw [← hu, Nat.mul_add, ← Nat.mul_add ids.length, Nat.mul_comm _ ids.length]
  have hres : (ofTasks ids : Frontier).results = [] ↔ ids = [] := List.map_eq_nil_iff
  simp only [toil, tasks_ofTasks, hres]
  split
  · omega
  · rename_i hne
    have hpos : 0 < ids.length := List.length_pos_iff.2 hne
    omega

/-- A graph that has just wanted the dependencies of its latest units follows the plan. -/
theorem follows_wanted {seen seen' : List String} {dependencies : List Dependency}
    {ids : List Nat} {g : Graph} (hl : l.Sound) (hk : p.Keeps l')
    (hw : Wanted l seen dependencies ids seen' l') (hroot : g.root.name = name)
    (hd : ∀ d ∈ dependencies, l.registry.has d.name = true ∨ d.name ∈ p.names)
    (harr : ∀ u ∈ g.units, l.Arrived u ∧ u.name ∈ seen)
    (hunits : ∀ u ∈ g.units, u.name ∈ p.names ∧ u = (p.unit u.name).withLoad u.body.load)
    (hclosed : ∀ u ∈ g.units, ∀ d ∈ u.dependencies,
      l.registry.has d.name = true ∨ d.name ∈ seen ∨ d ∈ dependencies)
    (hseen : ∀ n ∈ seen, ReflTransGen p.Dep name n ∧ n ∈ g.units.map (·.name))
    (hof : ∀ d ∈ dependencies, ∃ u ∈ g.units, d ∈ u.dependencies) :
    p.Follows l' name ⟨p.metadata, g, seen', .ofTasks ids⟩ := by
  obtain ⟨hcomes, -⟩ := wanted_planned hw hk hd
  have hunits' : GraphTask.units ⟨p.metadata, g, seen', .ofTasks ids⟩ = g.units := by
    simp [GraphTask.units]
  refine ⟨hw.sound hl p.metadata harr, rfl, hroot, ?_, ?_, ?_, ?_, by simp⟩
  · rw [hunits']
    exact hunits
  · simpa using hcomes
  · intro u hu d hdu
    rw [hw.grows.registry]
    cases hr : l.registry.has d.name with
    | true => exact Or.inl rfl
    | false =>
      refine Or.inr ?_
      rcases hclosed u hu d hdu with h | h | h
      · simp [hr] at h
      · exact hw.seen_mono _ h
      · exact hw.mem_seen d h hr
  · intro n hn
    rw [hunits', tasks_ofTasks]
    rcases hw.of_seen n hn with hn | ⟨hr, hm, id, hid, hp⟩
    · obtain ⟨hp, hm⟩ := hseen n hn
      exact ⟨hp, Or.inl hm⟩
    · obtain ⟨d, hdm, rfl⟩ := List.mem_map.1 hm
      obtain ⟨u, hu, hdu⟩ := hof d hdm
      obtain ⟨hun, hueq⟩ := hunits u hu
      have hpath := (hseen u.name (harr u hu).2).1
      have hmem : d.name ∈ p.names :=
        (hd d hdm).resolve_left fun h => by simp [hr] at h
      refine ⟨hpath.tail ⟨hun, hmem, ?_⟩, Or.inr ⟨id, hid, hk.sound.pending hp⟩⟩
      rw [hueq] at hdu
      exact List.mem_map_of_mem hdu

/-- The units of a planned graph need what is registered or planned. -/
theorem Keeps.of_unit (h : p.Keeps l) {u : LoadedUnit}
    (hu : u.name ∈ p.names ∧ u = (p.unit u.name).withLoad u.body.load) {d : Dependency}
    (hd : d ∈ u.dependencies) : l.registry.has d.name = true ∨ d.name ∈ p.names := by
  rw [hu.2] at hd
  exact h.closed u.name hu.1 d hd

theorem startGraph_follows {root : LoadedUnit} (h : l.startGraph p.metadata root = (task, l'))
    (hk : p.Keeps l) (ha : l.Arrived root)
    (hu : root.name ∈ p.names ∧ root = (p.unit root.name).withLoad root.body.load) :
    p.Keeps l' ∧ p.Proceeds l l' ∧ p.Follows l' root.name task ∧
      p.toil l' task < (p.patience + 3) * p.names.card := by
  have hd : ∀ d ∈ root.dependencies, l.registry.has d.name = true ∨ d.name ∈ p.names :=
    fun d hd => hk.of_unit hu hd
  have hw := wantAll_wanted p.metadata l [root.name] root.dependencies
  obtain ⟨hk', hp⟩ := wantAll_keeps [root.name] hk hd
  have hun := wantAll_unseen (l := l) [root.name] hd
  rw [startGraph] at h
  simp only [Prod.mk.injEq] at h
  obtain ⟨rfl, rfl⟩ := h
  refine ⟨hk', hp, ?_, ?_⟩
  · refine follows_wanted hk.sound hk' hw rfl hd ?_ ?_ ?_ ?_ ?_
    · simpa [Graph.units] using ha
    · simpa [Graph.units] using hu
    · simp only [Graph.units, List.mem_singleton, forall_eq]
      exact fun d hd => Or.inr (Or.inr hd)
    · simp only [Graph.units, List.mem_singleton, forall_eq, List.map_cons, List.map_nil, and_true]
      exact .refl
    · exact fun d hd => ⟨root, by simp [Graph.units], hd⟩
  · have ht := toil_wanted ⟨root, []⟩ (wanted_planned hw hk' hd).2 hun
    have hone : p.unseen [root.name] + 1 = p.names.card := by
      rw [unseen_cons hu.1 List.not_mem_nil, unseen]
      simp
    refine Nat.lt_of_le_of_lt ht (Nat.mul_lt_mul_of_pos_left ?_ (Nat.succ_pos _))
    omega

theorem Follows.graph_units (h : p.Follows l name task) {u : LoadedUnit}
    (hu : u ∈ task.graph.units) :
    u.name ∈ p.names ∧ u = (p.unit u.name).withLoad u.body.load :=
  h.units u (List.mem_append_left _ hu)

/-- A frontier that has arrived gives way to the next one. -/
theorem expand_follows {units : List LoadedUnit} (h : l.expand task units = (task', l'))
    (hk : p.Keeps l) (ht : p.Follows l name task) (hv : task.frontier.values? = some units)
    (hne : units ≠ []) :
    p.Keeps l' ∧ p.Proceeds l l' ∧ p.Follows l' name task' ∧ p.toil l' task' < p.toil l task := by
  have hvals : task.frontier.values = units := values_of_values? hv
  have htasks : task.frontier.tasks = [] := tasks_of_values? ht.sound.numbered hv
  have hall : task.units = task.graph.units ++ units := by rw [GraphTask.units, hvals]
  have hres : task.frontier.results ≠ [] := by
    intro hr
    rw [values?, hr] at hv
    exact hne (Option.some.inj hv).symm
  have hu : ∀ u ∈ units, u.name ∈ p.names ∧ u = (p.unit u.name).withLoad u.body.load :=
    fun u hu => ht.units u (by simp [hall, hu])
  have hd : ∀ d ∈ units.flatMap (·.dependencies),
      l.registry.has d.name = true ∨ d.name ∈ p.names := by
    intro d hd
    obtain ⟨u, hm, hdu⟩ := List.mem_flatMap.1 hd
    exact hk.of_unit (hu u hm) hdu
  have hw := wantAll_wanted task.metadata l task.seen (units.flatMap (·.dependencies))
  obtain ⟨hk', hp⟩ := wantAll_keeps task.seen hk hd
  have hun := wantAll_unseen task.seen hd
  rw [← ht.metadata] at hk' hp hun
  rw [expand] at h
  simp only [Prod.mk.injEq] at h
  obtain ⟨rfl, rfl⟩ := h
  have hgraph : ∀ u ∈ Graph.units { task.graph with below := task.graph.below ++ units },
      u ∈ task.graph.units ∨ u ∈ units := by
    intro u hu
    simpa [Graph.units, or_assoc] using hu
  have hsub : ∀ u ∈ task.units,
      u ∈ Graph.units { task.graph with below := task.graph.below ++ units } := by
    intro u hu
    rw [hall] at hu
    simpa [Graph.units, or_assoc] using hu
  refine ⟨hk', hp, ?_, ?_⟩
  · rw [ht.metadata] at hw hk' ⊢
    refine follows_wanted hk.sound hk' hw ht.root hd ?_ ?_ ?_ ?_ ?_
    · intro u hm
      have hm : u ∈ task.units := by simpa [hall] using hgraph u hm
      exact ⟨ht.sound.arrived u hm, ht.sound.seen u hm⟩
    · exact fun u hm => (hgraph u hm).elim ht.graph_units (hu u)
    · intro u hm d hdu
      rcases hgraph u hm with hm | hm
      · exact (ht.closed u hm d hdu).imp_right Or.inl
      · exact Or.inr (Or.inr (List.mem_flatMap.2 ⟨u, hm, hdu⟩))
    · intro n hn
      obtain ⟨hpath, hs⟩ := ht.seen n hn
      refine ⟨hpath, ?_⟩
      simp only [htasks, List.not_mem_nil, false_and, exists_false, or_false] at hs
      obtain ⟨u, hm, rfl⟩ := List.mem_map.1 hs
      exact List.mem_map_of_mem (hsub u hm)
    · intro d hd
      obtain ⟨u, hm, hdu⟩ := List.mem_flatMap.1 hd
      exact ⟨u, hsub u (by simp [hall, hm]), hdu⟩
  · rw [ht.metadata] at hw hk' hun ⊢
    have ht' := toil_wanted { task.graph with below := task.graph.below ++ units }
      (wanted_planned hw hk' hd).2 hun
    refine Nat.lt_of_le_of_lt ht' ?_
    simp [toil, htasks, hres]

theorem Proceeds.follows (h : p.Proceeds l l') (ht : p.Follows l name task) :
    p.Follows l' name task :=
  ht.mono h.grows.loads h.comes fun hr => by rwa [h.grows.registry]

theorem flag_le (r : List (Option (Except LoadError LoadedUnit))) :
    (if r = [] then 0 else 1) ≤ 1 := by
  split <;> omega

/-- The toil of a graph in whose frontier a load has moved, in terms of the loads it waits for. -/
theorem toil_frontier {frontier : Frontier} {id : Nat} {rest : List Nat} (ht : task.Sound l)
    (hp : task.frontier.tasks.Perm (id :: rest)) {n : Nat}
    (hs : (frontier.tasks.map fun i => l'.rest i + 1).sum <
      l.rest id + 1 + (rest.map fun i => l.rest i + 1).sum) (hn : n = p.toil l task) :
    p.toil l' { task with frontier := frontier } < n := by
  have hflag : task.frontier.results ≠ [] :=
    results_of_tasks ht.numbered (hp.mem_iff.2 List.mem_cons_self)
  have hsum : (task.frontier.tasks.map fun i => l.rest i + 1).sum =
      l.rest id + 1 + (rest.map fun i => l.rest i + 1).sum := by
    rw [(hp.map _).sum_eq, List.map_cons, List.sum_cons]
  have hle := flag_le frontier.results
  rw [hn, toil, toil, hsum, if_neg hflag]
  simp only
  omega

/-- The loads of the frontier stand in another order. -/
theorem Follows.reorder {frontier : Frontier} (ht : p.Follows l name task)
    (hs : GraphTask.Sound l { task with frontier := frontier })
    (htasks : frontier.tasks.Perm task.frontier.tasks)
    (ho : frontier.outcomes = task.frontier.outcomes) :
    p.Follows l name { task with frontier := frontier } := by
  have hunits : GraphTask.units { task with frontier := frontier } = task.units := by
    rw [GraphTask.units, GraphTask.units, values, values, ho]
  refine ⟨hs, ht.metadata, ht.root, hunits ▸ ht.units, ?_, ht.closed, ?_, ho ▸ ht.outcomes⟩
  · exact fun i hi => ht.loads i (htasks.mem_iff.1 hi)
  · intro m hm
    rw [hunits]
    obtain ⟨hpath, hcase⟩ := ht.seen m hm
    refine ⟨hpath, hcase.imp_right ?_⟩
    rintro ⟨i, hi, hsi⟩
    exact ⟨i, htasks.mem_iff.2 hi, hsi⟩

/-- The unit of a load of the frontier has arrived. -/
theorem Follows.arrive {frontier : Frontier} {id : Nat} {rest : List Nat} {n : String}
    (ht : p.Follows l name task) (hs : GraphTask.Sound l { task with frontier := frontier })
    (hn : n ∈ p.names) (hserves : l.Serves id n) (hp : task.frontier.tasks.Perm (id :: rest))
    (hp' : frontier.tasks.Perm rest)
    (ho : frontier.outcomes.Perm (.ok ((p.unit n).withLoad id) :: task.frontier.outcomes)) :
    p.Follows l name { task with frontier := frontier } := by
  have hvals : frontier.values.Perm ((p.unit n).withLoad id :: task.frontier.values) :=
    ho.filterMap Except.toOption
  have hunits : ∀ u, u ∈ GraphTask.units { task with frontier := frontier } ↔
      u = (p.unit n).withLoad id ∨ u ∈ task.units := by
    intro u
    simp only [GraphTask.units, List.mem_append, hvals.mem_iff, List.mem_cons]
    rw [or_left_comm]
  refine ⟨hs, ht.metadata, ht.root, ?_, ?_, ht.closed, ?_, ?_⟩
  · intro u hu
    rcases (hunits u).1 hu with rfl | hu
    · rw [LoadedUnit.withLoad_name, p.named n hn]
      exact ⟨hn, rfl⟩
    · exact ht.units u hu
  · intro i hi
    exact ht.loads i (hp.mem_iff.2 (List.mem_cons_of_mem _ (hp'.mem_iff.1 hi)))
  · intro m hm
    obtain ⟨hpath, hcase⟩ := ht.seen m hm
    refine ⟨hpath, ?_⟩
    rcases hcase with hcase | ⟨i, hi, hsi⟩
    · obtain ⟨u, hu, rfl⟩ := List.mem_map.1 hcase
      exact Or.inl (List.mem_map_of_mem ((hunits u).2 (Or.inr hu)))
    · rcases List.mem_cons.1 (hp.mem_iff.1 hi) with rfl | hi
      · refine Or.inl (List.mem_map.2 ⟨_, (hunits _).2 (Or.inl rfl), ?_⟩)
        rw [LoadedUnit.withLoad_name, p.named n hn]
        exact hserves.unique hsi
      · exact Or.inr ⟨i, hp'.mem_iff.2 hi, hsi⟩
  · intro r hr
    rcases List.mem_cons.1 (ho.mem_iff.1 hr) with rfl | hr
    · exact ⟨_, rfl⟩
    · exact ht.outcomes r hr

/-- A load of a frontier moves: it has to wait a turn less, or its unit has arrived. -/
theorem frontier_follows {frontier : Frontier} (hk : p.Keeps l) (ht : p.Follows l name task)
    (h : Gathering.Step LoadWaits LoadEnds (task.frontier, l) (frontier, l')) :
    p.Keeps l' ∧ p.Proceeds l l' ∧ p.Follows l' name { task with frontier := frontier } ∧
      p.toil l' { task with frontier := frontier } < p.toil l task := by
  have hsound := (graphStep_load_spec hk.sound ht.sound h).1
  obtain ⟨id, rest, hp, hcase⟩ := h.tasks_cases ht.sound.numbered
  obtain ⟨n, hn, hc⟩ := ht.loads id (hp.mem_iff.2 List.mem_cons_self)
  have hk' := hk.move hn hc
  have hpr := move_proceeds hn hc
  have hm := (move_of_comes hc).2
  have hsum : (rest.map fun i => (l.move id).2.rest i + 1).sum ≤
      (rest.map fun i => l.rest i + 1).sum := sum_rest_le fun i _ => rest_move_le l id i
  rcases hcase with ⟨id', hw, hp', ho⟩ | ⟨r, he, hp', ho⟩
  · cases hw with
    | mk hmove =>
      rw [hmove] at hk' hpr hm hsum
      obtain ⟨-, hlt⟩ := hm.resolve_right (by simp)
      refine ⟨hk', hpr, (hpr.follows ht).reorder hsound (hp'.trans hp.symm) ho, ?_⟩
      refine toil_frontier ht.sound hp ?_ rfl
      rw [(hp'.map _).sum_eq, List.map_cons, List.sum_cons]
      simp only at hlt hsum
      omega
  · cases he with
    | mk hmove =>
      rw [hmove] at hk' hpr hm hsum
      simp only [reduceCtorEq, false_and, false_or, Option.some.injEq] at hm
      subst hm
      have hserves := (hpr.comes hc).serves
      rw [p.named n hn] at hserves
      refine ⟨hk', hpr, (hpr.follows ht).arrive hsound hn hserves hp hp' ho, ?_⟩
      refine toil_frontier ht.sound hp ?_ rfl
      rw [(hp'.map _).sum_eq]
      simp only at hsum
      omega

/-- Every step of a graph that follows a plan brings it closer to its end. -/
theorem graphStep_follows (hk : p.Keeps l) (ht : p.Follows l name task)
    (h : GraphStep (task, l) (task', l')) :
    p.Keeps l' ∧ p.Proceeds l l' ∧ p.Follows l' name task' ∧ p.toil l' task' < p.toil l task := by
  cases h with
  | load hs => exact frontier_follows hk ht hs
  | expand hv hne he => exact expand_follows he hk ht hv hne
  | idle hr hv =>
    obtain ⟨values, hv'⟩ := exists_values? ht.sound.numbered hr ht.outcomes
    rw [hv] at hv'
    simp at hv'

/-- It does not fail. -/
theorem Follows.not_fails (ht : p.Follows l name task) {e : LoadError} :
    ¬ GraphEnds (task, l) (.error e, l') := by
  intro h
  cases h with
  | fails hf =>
    rcases hf.tasks_cases with ⟨hm, -⟩ | ⟨id, hid, he⟩
    · obtain ⟨u, hu⟩ := ht.outcomes _ hm
      simp at hu
    · cases he with
      | mk hmove =>
        obtain ⟨n, -, hc⟩ := ht.loads id hid
        have hm := (move_of_comes hc).2
        rw [hmove] at hm
        simp at hm

variable (p)

/-- A graph that is complete: it has planned units that can be reached from its root, and what they
need unless that is registered. -/
structure Complete (l : Loader) (name : String) (g : Graph) : Prop where
  root : g.root.name = name
  arrived : ∀ u ∈ g.units, l.Arrived u
  units : ∀ u ∈ g.units, u.name ∈ p.names ∧ u = (p.unit u.name).withLoad u.body.load
  closed : ∀ u ∈ g.units, ∀ d ∈ u.dependencies,
    l.registry.has d.name = true ∨ d.name ∈ g.units.map (·.name)
  path : ∀ u ∈ g.units, ReflTransGen p.Dep name u.name

variable {p}

theorem Complete.mono {g : Graph} (h : p.Complete l name g) (he : Evolves l l')
    (hr : ∀ {n}, l.registry.has n = true → l'.registry.has n = true) : p.Complete l' name g :=
  ⟨h.root, fun u hu => he.arrived (h.arrived u hu), h.units,
    fun u hu d hd => (h.closed u hu d hd).imp_left hr, h.path⟩

/-- When a graph that follows a plan ends it is complete. -/
theorem Follows.complete (ht : p.Follows l name task) {g : Graph}
    (h : GraphEnds (task, l) (.ok g, l')) : l' = l ∧ p.Complete l name g := by
  cases h with
  | complete hv =>
    have hvals : task.frontier.values = [] := values_of_values? hv
    have htasks : task.frontier.tasks = [] := tasks_of_values? ht.sound.numbered hv
    have hall : task.units = task.graph.units := by simp [GraphTask.units, hvals]
    have hseen : ∀ n ∈ task.seen, ReflTransGen p.Dep name n ∧
        n ∈ task.graph.units.map (·.name) := by
      intro n hn
      have hs := ht.seen n hn
      rw [hall, htasks] at hs
      simpa only [List.not_mem_nil, false_and, exists_false, or_false] using hs
    refine ⟨rfl, ht.root, fun u hu => ht.sound.arrived u (hall ▸ hu), fun u => ht.graph_units,
      fun u hu d hd => ?_, fun u hu => ?_⟩
    · exact (ht.closed u hu d hd).imp_right fun hn => (hseen _ hn).2
    · exact (hseen _ (ht.sound.seen u (hall ▸ hu))).1

end Graphs

end ModuleLoader.Plan

import Mathlib.Algebra.GroupWithZero.Nat
import Mathlib.Algebra.Order.BigOperators.Group.List
import Mathlib.Algebra.Order.Group.Nat
import ModuleLoader.Proofs.Loader.FiniteTables
import ModuleLoader.Proofs.Loader.GatheringTurns

/-! # Exploration of graphs

A graph asks once for each name that its units need. If its loads can only come to finitely many
names, it has a new unit of one of them in each frontier, and so it comes to an end. Loads may fail
on the way.
-/

namespace ModuleLoader.Loader

open Gathering Relation

/-- A unit of a graph needs another one. -/
def Graph.Leads (g : Graph) (u v : LoadedUnit) : Prop :=
  u ∈ g.units ∧ v ∈ g.units ∧ v.name ∈ u.dependencies.map (·.name)

/-- A graph spans what is below a root: it has the root in front, no name twice, and below the root
nothing that is registered. All units can be reached from the root, and nothing that they need is
missing. -/
structure Graph.Spans (l : Loader) (root : LoadedUnit) (g : Graph) : Prop where
  units : g.units = root :: g.below
  nodup : (g.units.map (·.name)).Nodup
  unregistered : ∀ u ∈ g.below, l.registry.has u.name = false
  reached : ∀ u ∈ g.units, ReflTransGen g.Leads root u
  closed : ∀ u ∈ g.units, ∀ d ∈ u.dependencies,
    d.name ∈ g.units.map (·.name) ∨ l.registry.has d.name = true

/-- A load has failed with an error that had not failed before. -/
def Breaks (l l' : Loader) (e : LoadError) : Prop :=
  ∃ id, ¬ l.Failed id ∧ l'.loads[id]? = some (.finished (.error e))

/-- The names of a frontier: those of its values and those that it waits for. -/
def Frontier.names (l : Loader) (f : Frontier) : List String :=
  f.values.map (·.name) ++ f.tasks.map l.served

/-- A bound for the steps of a frontier, up to the one that goes on to the next. -/
def Frontier.toil (l : Loader) (f : Frontier) : Nat :=
  (f.tasks.map fun id => l.rest id + 1).sum

/-- A graph stems from a root: its units can be reached from there, and have names from a set. It
has seen no name twice, and but for the root none that is registered. -/
structure Graph.Stems (names : Finset String) (l₀ : Loader) (root : LoadedUnit) (g : Graph)
    (seen : List String) : Prop where
  first : g.root = root
  units : ∀ u ∈ g.below, u.name ∈ names
  reached : ∀ u ∈ g.units, ReflTransGen g.Leads root u
  unregistered : ∀ n ∈ seen, n = root.name ∨ l₀.registry.has n = false
  nodup : seen.Nodup

/-- A graph explores what is below a root. It has units and loads for the names that it has seen,
but for those of loads that have failed, and each name is needed by a unit that it has. -/
structure GraphTask.Explores (names : Finset String) (l₀ : Loader) (root : LoadedUnit)
    (l : Loader) (task : GraphTask) : Prop where
  grows : Grows l₀ l
  sound : l.Sound
  limited : l.Limited task.metadata names
  stems : task.graph.Stems names l₀ root task.seen
  numbered : task.frontier.Numbered
  serves : ∀ id ∈ task.frontier.tasks, ∃ n, l.Serves id n
  values : ∀ u ∈ task.frontier.values, u.name ∈ names
  failures : ∀ e, .error e ∈ task.frontier.outcomes → Breaks l₀ l e
  seen : ∃ lost, (task.graph.units.map (·.name) ++ task.frontier.names l ++ lost).Perm task.seen ∧
    (lost = [] ∨ ∃ e, .error e ∈ task.frontier.outcomes)
  wanted : ∀ n ∈ task.frontier.names l, ∃ u ∈ task.graph.units, n ∈ u.dependencies.map (·.name)
  closed : ∀ u ∈ task.graph.units, ∀ d ∈ u.dependencies,
    l₀.registry.has d.name = true ∨ d.name ∈ task.seen

/-! ## Wanting dependencies -/

section Want

variable {l : Loader} (metadata : Metadata) (seen : List String) (dependencies : List Dependency)

theorem wantAll_limited {names : Finset String} (h : l.Limited metadata names) :
    (wantAll metadata l seen dependencies).2.2.Limited metadata names :=
  (wantAll_joins metadata l seen dependencies).preserves
    (P := fun l => l.Limited metadata names) (fun name hl => hl.join name) h

/-- Each load that is wanted serves a name that was not seen, and no name is seen twice. -/
theorem wantAll_seen (hl : l.Sound) (hn : seen.Nodup) :
    (wantAll metadata l seen dependencies).2.1.Nodup ∧
      (wantAll metadata l seen dependencies).2.1.Perm
        ((wantAll metadata l seen dependencies).1.map
          (wantAll metadata l seen dependencies).2.2.served ++ seen) := by
  fun_induction wantAll metadata l seen dependencies with
  | case1 => exact ⟨hn, .refl _⟩
  | case2 l seen d rest hs ih => exact ih hl hn
  | case3 l seen d rest hs id l₁ hj ids seen' l₂ hw ih =>
    simp only [Bool.or_eq_true, List.contains_iff_mem, not_or, Bool.not_eq_true] at hs
    have hl₁ := (join_grows l d.name metadata).sound hl
    have hp := join_pending l d.name metadata
    rw [hj] at hl₁ hp
    have hwanted := wantAll_wanted metadata l₁ (d.name :: seen) rest
    obtain ⟨hnodup, hperm⟩ := ih hl₁ (List.nodup_cons.2 ⟨hs.2, hn⟩)
    rw [hw] at hwanted hnodup hperm
    have hserved := ((hwanted.grows.sound hl₁).pending (hwanted.kept hp)).served
    refine ⟨hnodup, hperm.trans ?_⟩
    rw [List.map_cons, hserved]
    exact List.perm_middle

end Want

/-! ## Loads that move -/

section Frontiers

variable {l l' : Loader} {f f' : Frontier}

theorem mem_values_iff {u : LoadedUnit} : u ∈ f.values ↔ .ok u ∈ f.outcomes := by
  rw [values, List.mem_filterMap]
  constructor
  · rintro ⟨r, hr, hu⟩
    rwa [toOption_eq_some_iff.1 hu] at hr
  · exact fun hu => ⟨_, hu, rfl⟩

theorem Breaks.mono {l₀ : Loader} {e : LoadError} (h : Breaks l₀ l e) (hg : Grows l l') :
    Breaks l₀ l' e :=
  h.imp fun _ hid => ⟨hid.1, hg.loads.finished hid.2⟩

theorem Serves.name_of_fate {id : Nat} {n : String} {u : LoadedUnit} (h : l.Serves id n)
    (hu : l.fate id = some (.ok u)) : u.name = n := by
  obtain ⟨st, hst, hn⟩ := h
  rw [fate_eq hst, Option.some.injEq] at hu
  exact (outcome_ok hn hu).1

/-- What a step of a frontier does: one of its loads has to wait a turn less, or comes to its
fate. -/
theorem frontier_cases (hf : f.Numbered) (hs : ∀ id ∈ f.tasks, ∃ n, l.Serves id n)
    (h : Gathering.Step LoadWaits LoadEnds (f, l) (f', l')) :
    ∃ id n rest, f.tasks.Perm (id :: rest) ∧ l.Serves id n ∧ (l.move id).2 = l' ∧
      ((f'.tasks.Perm (id :: rest) ∧ f'.outcomes = f.outcomes ∧ l'.Serves id n ∧
          l'.rest id < l.rest id) ∨
        ∃ r, l.fate id = some r ∧ l'.loads[id]? = some (.finished r) ∧ f'.tasks.Perm rest ∧
          f'.outcomes.Perm (r :: f.outcomes)) := by
  obtain ⟨id, rest, hp, hcase⟩ := h.tasks_cases hf
  obtain ⟨n, hn⟩ := hs id (hp.mem_iff.2 List.mem_cons_self)
  refine ⟨id, n, rest, hp, hn, ?_⟩
  rcases hcase with ⟨id', hw, hp', ho⟩ | ⟨r, he, hp', ho⟩
  · cases hw with
    | mk hm =>
      obtain ⟨hr, hn'⟩ := hn.waits hm
      exact ⟨by rw [hm], Or.inl ⟨hp', ho, hn', hr⟩⟩
  · cases he with
    | mk hm => exact ⟨by rw [hm], Or.inr ⟨r, hn.ends hm, move_finished hm, hp', ho⟩⟩

/-- What a step of a frontier leaves of it. -/
structure Frontier.Proceeds (l l' : Loader) (f f' : Frontier) : Prop where
  serves : ∀ id ∈ f'.tasks, ∃ n, l'.Serves id n
  names : ∃ lost, (f'.names l' ++ lost).Perm (f.names l) ∧
    (lost = [] ∨ ∃ e, .error e ∈ f'.outcomes)
  kept : ∀ r ∈ f.outcomes, r ∈ f'.outcomes
  outcomes : ∀ r ∈ f'.outcomes, r ∈ f.outcomes ∨
    ∃ id n, l.Serves id n ∧ l.fate id = some r ∧ l'.loads[id]? = some (.finished r)
  toil : f'.toil l' < f.toil l

theorem frontier_proceeds (hf : f.Numbered) (hs : ∀ id ∈ f.tasks, ∃ n, l.Serves id n)
    (hd : f.tasks.Nodup) (h : Gathering.Step LoadWaits LoadEnds (f, l) (f', l')) :
    Frontier.Proceeds l l' f f' := by
  obtain ⟨id, n, rest, hp, hn, rfl, hcase⟩ := frontier_cases hf hs h
  -- the loads of a frontier differ, so the others stay as they are
  have hrest : ∀ i ∈ rest, i ≠ id ∧ ∃ m, l.Serves i m := by
    intro i hi
    refine ⟨?_, hs i (hp.mem_iff.2 (List.mem_cons_of_mem _ hi))⟩
    rintro rfl
    exact (List.nodup_cons.1 (hp.nodup_iff.1 hd)).1 hi
  have hserved : rest.map (l.move id).2.served = rest.map l.served := by
    refine List.map_congr_left fun i hi => ?_
    obtain ⟨hne, m, hm⟩ := hrest i hi
    rw [(hm.other hne).served, hm.served]
  have htoil : (rest.map fun i => (l.move id).2.rest i + 1) = rest.map fun i => l.rest i + 1 :=
    List.map_congr_left fun i hi => congrArg (· + 1) (rest_other (hrest i hi).1)
  have hnames : (f.names l).Perm (n :: (f.values.map (·.name) ++ rest.map l.served)) := by
    refine ((hp.map l.served).append_left _).trans ?_
    rw [List.map_cons, hn.served]
    exact List.perm_middle
  have hsum : f.toil l = l.rest id + 1 + (rest.map fun i => l.rest i + 1).sum := by
    rw [Frontier.toil, (hp.map _).sum_eq, List.map_cons, List.sum_cons]
  rcases hcase with ⟨hp', ho, hn', hr⟩ | ⟨r, hr, hfin, hp', ho⟩
  · have hvals : f'.values = f.values := by rw [values, ho, values]
    refine ⟨?_, ⟨[], ?_, Or.inl rfl⟩, fun r hr => ho ▸ hr, fun r hr => Or.inl (ho ▸ hr), ?_⟩
    · intro i hi
      rcases List.mem_cons.1 (hp'.mem_iff.1 hi) with rfl | hi
      · exact ⟨n, hn'⟩
      · obtain ⟨hne, m, hm⟩ := hrest i hi
        exact ⟨m, hm.other hne⟩
    · rw [List.append_nil, Frontier.names, hvals]
      refine (((hp'.map _).append_left _).trans ?_).trans hnames.symm
      rw [List.map_cons, hn'.served, hserved]
      exact List.perm_middle
    · rw [hsum, Frontier.toil, (hp'.map _).sum_eq, List.map_cons, List.sum_cons, htoil]
      omega
  · have hvals : f'.values.Perm ((r :: f.outcomes).filterMap Except.toOption) :=
      ho.filterMap Except.toOption
    have htasks : (f'.tasks.map (l.move id).2.served).Perm (rest.map l.served) := by
      rw [← hserved]
      exact hp'.map _
    refine ⟨?_, ?_, fun r' hr' => ho.mem_iff.2 (List.mem_cons_of_mem _ hr'), ?_, ?_⟩
    · intro i hi
      obtain ⟨hne, m, hm⟩ := hrest i (hp'.mem_iff.1 hi)
      exact ⟨m, hm.other hne⟩
    · cases r with
      | ok u =>
        refine ⟨[], ?_, Or.inl rfl⟩
        rw [List.append_nil]
        have hu : u.name = n := hn.name_of_fate hr
        refine ((hvals.map (·.name)).append htasks).trans (.trans ?_ hnames.symm)
        rw [← hu]
        exact .refl _
      | error e =>
        refine ⟨[n], ?_, Or.inr ⟨e, ho.mem_iff.2 List.mem_cons_self⟩⟩
        refine (((hvals.map (·.name)).append htasks).append_right [n]).trans (.trans ?_ hnames.symm)
        exact List.perm_append_singleton _ _
    · intro r' hr'
      rcases List.mem_cons.1 (ho.mem_iff.1 hr') with rfl | hr'
      · exact Or.inr ⟨id, n, hn, hr, hfin⟩
      · exact Or.inl hr'
    · rw [hsum, Frontier.toil, (hp'.map _).sum_eq, htoil]
      omega

end Frontiers

/-! ## Steps of a graph -/

section Graphs

variable {names : Finset String} {l₀ l l' : Loader} {root : LoadedUnit} {task task' : GraphTask}

theorem Graph.units_append (g : Graph) (units : List LoadedUnit) :
    Graph.units ⟨g.root, g.below ++ units⟩ = g.units ++ units := rfl

theorem Graph.Leads.mono {g g' : Graph} (hg : ∀ u ∈ g.units, u ∈ g'.units) {u v : LoadedUnit}
    (h : g.Leads u v) : g'.Leads u v :=
  ⟨hg u h.1, hg v h.2.1, h.2.2⟩

/-- A graph that has just wanted the dependencies of its latest units goes on exploring. -/
theorem explores_wantAll {metadata : Metadata} {g : Graph} {seen : List String}
    {dependencies : List Dependency} (hgrows : Grows l₀ l) (hl : l.Sound)
    (hlim : l.Limited metadata names) (hg : g.Stems names l₀ root seen)
    (hperm : (g.units.map (·.name)).Perm seen)
    (hclosed : ∀ u ∈ g.units, ∀ d ∈ u.dependencies,
      l₀.registry.has d.name = true ∨ d.name ∈ seen ∨ d ∈ dependencies)
    (hof : ∀ d ∈ dependencies, ∃ u ∈ g.units, d ∈ u.dependencies) :
    GraphTask.Explores names l₀ root (wantAll metadata l seen dependencies).2.2
      ⟨metadata, g, (wantAll metadata l seen dependencies).2.1,
        .ofTasks (wantAll metadata l seen dependencies).1⟩ := by
  have hw := wantAll_wanted metadata l seen dependencies
  obtain ⟨hnodup', hperm'⟩ := wantAll_seen metadata seen dependencies hl hg.nodup
  have hlim' := wantAll_limited metadata seen dependencies hlim
  generalize wantAll metadata l seen dependencies = out at *
  obtain ⟨ids, seen', l'⟩ := out
  have hl' := hw.grows.sound hl
  have hserves : ∀ id ∈ ids, ∃ d ∈ dependencies, l'.Serves id d.name := by
    intro id hid
    obtain ⟨n, hn, hns, -, hp⟩ := hw.pending id hid
    obtain ⟨-, hm, -⟩ := (hw.of_seen n hn).resolve_left hns
    obtain ⟨d, hd, rfl⟩ := List.mem_map.1 hm
    exact ⟨d, hd, hl'.pending hp⟩
  have hnames : Frontier.names l' (.ofTasks ids) = ids.map l'.served := by simp [Frontier.names]
  have hunreg : ∀ n ∈ seen', n = root.name ∨ l₀.registry.has n = false := by
    intro n hn
    rcases hw.of_seen n hn with hn | ⟨hr, -⟩
    · exact hg.unregistered n hn
    · rw [hgrows.registry] at hr
      exact Or.inr hr
  refine ⟨hgrows.trans hw.grows, hl', hlim', ⟨hg.first, hg.units, hg.reached, hunreg, hnodup'⟩,
    numbered_ofTasks ids, ?_, by simp, by simp, ⟨[], ?_, Or.inl rfl⟩, ?_, ?_⟩
  · intro id hid
    rw [tasks_ofTasks] at hid
    obtain ⟨d, -, hs⟩ := hserves id hid
    exact ⟨d.name, hs⟩
  · rw [List.append_nil, hnames]
    exact ((hperm.append_right _).trans List.perm_append_comm).trans hperm'.symm
  · rw [hnames]
    intro n hn
    obtain ⟨id, hid, rfl⟩ := List.mem_map.1 hn
    obtain ⟨d, hd, hs⟩ := hserves id hid
    obtain ⟨u, hu, hdu⟩ := hof d hd
    rw [hs.served]
    exact ⟨u, hu, List.mem_map_of_mem hdu⟩
  · intro u hu d hd
    cases hr : l₀.registry.has d.name with
    | true => exact Or.inl rfl
    | false =>
      refine Or.inr ?_
      rcases hclosed u hu d hd with h | h | h
      · simp [hr] at h
      · exact hw.seen_mono _ h
      · exact hw.mem_seen d h (by rw [hgrows.registry, hr])

theorem startGraph_explores {metadata : Metadata} (hl : l.Sound)
    (hlim : l.Limited metadata names) (h : l.startGraph metadata root = (task, l')) :
    task.Explores names l root l' := by
  rw [startGraph] at h
  simp only [Prod.mk.injEq] at h
  obtain ⟨rfl, rfl⟩ := h
  have hunits : Graph.units ⟨root, []⟩ = [root] := rfl
  have hg : Graph.Stems names l root ⟨root, []⟩ [root.name] := by
    refine ⟨rfl, by simp, ?_, fun n hn => Or.inl (List.mem_singleton.1 hn), List.nodup_singleton _⟩
    rw [hunits]
    intro u hu
    rw [List.mem_singleton.1 hu]
  apply explores_wantAll (.refl l) hl hlim hg (.refl _)
  · simp only [hunits, List.mem_singleton, forall_eq]
    exact fun d hd => Or.inr (Or.inr hd)
  · exact fun d hd => ⟨root, List.mem_singleton_self _, hd⟩

/-- When the values of a frontier are there, the graph has a unit for each name that it has seen. -/
theorem GraphTask.Explores.of_values? (h : task.Explores names l₀ root l) {units : List LoadedUnit}
    (hv : task.frontier.values? = some units) :
    task.frontier.names l = units.map (·.name) ∧
      ((task.graph.units ++ units).map (·.name)).Perm task.seen := by
  have hnames : task.frontier.names l = units.map (·.name) := by
    rw [Frontier.names, values_of_values? hv, tasks_of_values? h.numbered hv]
    simp
  refine ⟨hnames, ?_⟩
  obtain ⟨lost, hperm, rfl | ⟨e, he⟩⟩ := h.seen
  · rwa [List.append_nil, hnames, ← List.map_append] at hperm
  · rw [outcomes_of_values? hv] at he
    simp at he

/-- The units of a frontier can be reached from the root. -/
theorem GraphTask.Explores.stems_append (h : task.Explores names l₀ root l)
    {units : List LoadedUnit} (hv : task.frontier.values? = some units) :
    Graph.Stems names l₀ root ⟨task.graph.root, task.graph.below ++ units⟩ task.seen := by
  have hg := h.stems
  have hall := task.graph.units_append units
  have hold : ∀ u ∈ task.graph.units,
      u ∈ Graph.units ⟨task.graph.root, task.graph.below ++ units⟩ := fun u hu =>
    hall ▸ List.mem_append_left units hu
  have hreached : ∀ u ∈ task.graph.units,
      ReflTransGen (Graph.Leads ⟨task.graph.root, task.graph.below ++ units⟩) root u := fun u hu =>
    ReflTransGen.mono (fun _ _ hd => hd.mono hold) _ _ (hg.reached u hu)
  refine ⟨hg.first, ?_, ?_, hg.unregistered, hg.nodup⟩
  · intro u hu
    rcases List.mem_append.1 hu with hu | hu
    · exact hg.units u hu
    · exact h.values u (values_of_values? hv ▸ hu)
  · rw [hall]
    intro u hu
    rcases List.mem_append.1 hu with hu | hu
    · exact hreached u hu
    · obtain ⟨v, hm, hd⟩ := h.wanted u.name ((h.of_values? hv).1 ▸ List.mem_map_of_mem hu)
      exact (hreached v hm).tail ⟨hold v hm, hall ▸ List.mem_append_right _ hu, hd⟩

theorem expand_explores {units : List LoadedUnit} (h : task.Explores names l₀ root l)
    (hv : task.frontier.values? = some units) (he : l.expand task units = (task', l')) :
    task'.Explores names l₀ root l' ∧ task'.graph.below = task.graph.below ++ units := by
  rw [expand] at he
  simp only [Prod.mk.injEq] at he
  obtain ⟨rfl, rfl⟩ := he
  refine ⟨?_, rfl⟩
  apply explores_wantAll h.grows h.sound h.limited (h.stems_append hv) (h.of_values? hv).2
  · rw [Graph.units_append]
    intro u hu d hd
    rcases List.mem_append.1 hu with hu | hu
    · exact (h.closed u hu d hd).imp_right Or.inl
    · exact Or.inr (Or.inr (List.mem_flatMap.2 ⟨u, hu, hd⟩))
  · rw [Graph.units_append]
    intro d hd
    obtain ⟨u, hu, hdu⟩ := List.mem_flatMap.1 hd
    exact ⟨u, List.mem_append_right _ hu, hdu⟩

/-- What still serves a name had not failed at the start. -/
theorem GraphTask.Explores.not_failed (h : task.Explores names l₀ root l) {id : Nat} {n : String}
    (hn : l.Serves id n) : ¬ l₀.Failed id := fun hf =>
  hn.not_failed (h.grows.loads.failed hf)

theorem GraphTask.Explores.tasks_nodup (h : task.Explores names l₀ root l) :
    task.frontier.tasks.Nodup := by
  obtain ⟨lost, hperm, -⟩ := h.seen
  have hn := hperm.nodup_iff.2 h.stems.nodup
  rw [List.append_assoc, Frontier.names] at hn
  exact ((hn.of_append_right.of_append_left).of_append_right).of_map _

theorem load_explores {frontier : Frontier} (h : task.Explores names l₀ root l)
    (hs : Gathering.Step LoadWaits LoadEnds (task.frontier, l) (frontier, l')) :
    GraphTask.Explores names l₀ root l' { task with frontier := frontier } ∧
      frontier.toil l' < task.frontier.toil l := by
  obtain ⟨id, n, rest, -, -, hl', -⟩ := frontier_cases h.numbered h.serves hs
  have hp := frontier_proceeds h.numbered h.serves h.tasks_nodup hs
  have hgrows : Grows l l' := hl' ▸ move_grows l id
  obtain ⟨lost, hnames, hlost⟩ := hp.names
  refine ⟨⟨h.grows.trans hgrows, hgrows.sound h.sound, hl' ▸ h.limited.move id, h.stems,
    hs.numbered h.numbered, hp.serves, ?_, ?_, ?_, ?_, h.closed⟩, hp.toil⟩
  · intro u hu
    rw [mem_values_iff] at hu
    rcases hp.outcomes _ hu with hu | ⟨i, -, -, hi, -⟩
    · exact h.values u (mem_values_iff.2 hu)
    · exact h.limited.loads hi
  · intro e he
    rcases hp.outcomes _ he with he | ⟨i, m, hm, -, hi⟩
    · exact (h.failures e he).mono hgrows
    · exact ⟨i, h.not_failed hm, hi⟩
  · obtain ⟨lost', hseen, hlost'⟩ := h.seen
    refine ⟨lost ++ lost', ?_, ?_⟩
    · rw [← List.append_assoc, List.append_assoc _ _ lost]
      exact ((hnames.append_left _).append_right _).trans hseen
    · rcases hlost with rfl | he
      · exact hlost'.imp_right fun ⟨e, he⟩ => ⟨e, hp.kept _ he⟩
      · exact Or.inr he
  · exact fun m hm => h.wanted m (hnames.subset (List.mem_append_left _ hm))

end Graphs

end ModuleLoader.Loader

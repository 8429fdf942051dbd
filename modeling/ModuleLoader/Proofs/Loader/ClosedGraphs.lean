import ModuleLoader.Proofs.Loader.Holdings
import ModuleLoader.Proofs.Loader.PlannedEvaluations

/-! # Closed graphs

A graph that comes to its end has a unit for all that its units need, unless that is registered. So
once the units are registered, whatever is missing is needed by what was registered before.
-/

namespace ModuleLoader.Loader

open Gathering Relation

/-- The units of a graph need what is registered or what has a unit in it. -/
def Graph.Closed (l : Loader) (g : Graph) : Prop :=
  ∀ u ∈ g.units, ∀ d ∈ u.dependencies,
    l.registry.has d.name = true ∨ d.name ∈ g.units.map (·.name)

/-- A graph has seen what its units need. What it has seen has a unit or is waited for, unless one
of its loads has failed. -/
structure GraphTask.Covers (l : Loader) (task : GraphTask) : Prop where
  closed : ∀ u ∈ task.graph.units, ∀ d ∈ u.dependencies,
    l.registry.has d.name = true ∨ d.name ∈ task.seen
  seen : ∀ n ∈ task.seen, n ∈ task.units.map (·.name) ∨
    (∃ id ∈ task.frontier.tasks, l.Serves id n ∨ l.Failed id) ∨
      ∃ e, .error e ∈ task.frontier.outcomes

section Steps

variable {l l' : Loader} {task task' : GraphTask}

/-- A graph that has just wanted the dependencies of its latest units. -/
theorem Wanted.covers {seen seen' : List String} {dependencies : List Dependency} {ids : List Nat}
    {g : Graph} (hw : Wanted l seen dependencies ids seen' l') (hl : l.Sound) (metadata : Metadata)
    (hclosed : ∀ u ∈ g.units, ∀ d ∈ u.dependencies,
      l.registry.has d.name = true ∨ d.name ∈ seen ∨ d ∈ dependencies)
    (hseen : ∀ n ∈ seen, n ∈ g.units.map (·.name)) :
    GraphTask.Covers l' ⟨metadata, g, seen', .ofTasks ids⟩ := by
  constructor
  · intro u hu d hd
    rw [hw.grows.registry]
    cases hr : l.registry.has d.name with
    | true => exact Or.inl rfl
    | false =>
      right
      rcases hclosed u hu d hd with h | h | h
      · simp [hr] at h
      · exact hw.seen_mono _ h
      · exact hw.mem_seen d h hr
  · intro n hn
    rcases hw.of_seen n hn with hn | ⟨-, -, id, hid, hp⟩
    · exact Or.inl (by simpa [GraphTask.units] using hseen n hn)
    · right
      left
      refine ⟨id, ?_, Or.inl ((hw.grows.sound hl).pending hp)⟩
      rwa [tasks_ofTasks]

theorem startGraph_covers {metadata : Metadata} {root : LoadedUnit}
    (h : l.startGraph metadata root = (task, l')) (hl : l.Sound) : task.Covers l' := by
  obtain ⟨ids, ht, hw⟩ := startGraph_wanted h
  rw [ht]
  apply hw.covers hl
  · simp only [Graph.units, List.mem_singleton, forall_eq]
    exact fun d hd => Or.inr (Or.inr hd)
  · simp [Graph.units]

/-- The names that a frontier has come to. -/
theorem GraphTask.Covers.of_values? (h : task.Covers l) (hs : task.Sound l)
    {units : List LoadedUnit} (hv : task.frontier.values? = some units) :
    ∀ n ∈ task.seen, n ∈ (task.graph.units ++ units).map (·.name) := by
  intro n hn
  rcases h.seen n hn with hm | ⟨id, hid, -⟩ | ⟨e, he⟩
  · rwa [GraphTask.units, values_of_values? hv] at hm
  · rw [tasks_of_values? hs.numbered hv] at hid
    exact absurd hid List.not_mem_nil
  · rw [outcomes_of_values? hv] at he
    simp at he

theorem expand_covers {units : List LoadedUnit} (h : l.expand task units = (task', l'))
    (hl : l.Sound) (hs : task.Sound l) (hc : task.Covers l)
    (hv : task.frontier.values? = some units) : task'.Covers l' := by
  obtain ⟨ids, ht, hw⟩ := expand_wanted h
  have hunits : Graph.units ⟨task.graph.root, task.graph.below ++ units⟩ =
      task.graph.units ++ units := rfl
  rw [ht]
  apply hw.covers hl
  · rw [hunits]
    intro u hu d hd
    rcases List.mem_append.1 hu with hu | hu
    · exact (hc.closed u hu d hd).imp_right Or.inl
    · exact Or.inr (Or.inr (List.mem_flatMap.2 ⟨u, hu, hd⟩))
  · rw [hunits]
    exact hc.of_values? hs hv

theorem Serves.name_of_finished {id : Nat} {u : LoadedUnit} {n : String} (h : l.Serves id n)
    (hfin : l.loads[id]? = some (.finished (.ok u))) : u.name = n := by
  obtain ⟨st, hst, hn⟩ := h
  rw [hfin, Option.some.injEq] at hst
  subst hst
  exact hn.1

/-- A load of a frontier moves: it still serves its name, its unit has arrived, or it fails. -/
theorem frontier_covers {frontier : Frontier} (hl : l.Sound) (hs : task.Sound l)
    (hc : task.Covers l)
    (h : Gathering.Step LoadWaits LoadEnds (task.frontier, l) (frontier, l')) :
    GraphTask.Covers l' { task with frontier := frontier } := by
  have hg := (graphStep_load_spec hl hs h).2.grows
  have hkept {id : Nat} {n : String} (hid : l.Serves id n ∨ l.Failed id) :
      l'.Serves id n ∨ l'.Failed id := by
    rcases hid with hid | hid
    · exact hg.loads.serves hid
    · exact Or.inr (hg.loads.failed hid)
  constructor
  · rw [hg.registry]
    exact hc.closed
  intro n hn
  obtain ⟨id, rest, hp, ⟨id', hw, hp', ho⟩ | ⟨r, he, hp', ho⟩⟩ := h.tasks_cases hs.numbered
  · cases hw with
    | mk hm =>
      rcases hc.seen n hn with hn | ⟨i, hi, hserves⟩ | he
      · rw [GraphTask.units, values, ← ho] at hn
        exact Or.inl hn
      · exact Or.inr (Or.inl ⟨i, hp'.mem_iff.2 (hp.mem_iff.1 hi), hkept hserves⟩)
      · exact Or.inr (Or.inr (ho ▸ he))
  · cases he with
    | mk hm =>
      have hfin := move_finished hm
      have hvals : frontier.values.Perm ((r :: task.frontier.outcomes).filterMap Except.toOption) :=
        ho.filterMap Except.toOption
      rcases hc.seen n hn with hn | ⟨i, hi, hserves⟩ | ⟨e, he⟩
      · obtain ⟨u, hu, rfl⟩ := List.mem_map.1 hn
        left
        apply List.mem_map_of_mem
        rcases List.mem_append.1 hu with hu | hu
        · exact List.mem_append_left _ hu
        · apply List.mem_append_right
          rw [hvals.mem_iff]
          exact (List.sublist_cons_self r _).filterMap _ |>.subset hu
      · rcases List.mem_cons.1 (hp.mem_iff.1 hi) with rfl | hi
        · cases r with
          | error e => exact Or.inr (Or.inr ⟨e, ho.mem_iff.2 List.mem_cons_self⟩)
          | ok u =>
            have hserves' : l'.Serves i n := by
              apply (hkept hserves).resolve_right
              rintro ⟨e, he⟩
              simp [hfin] at he
            have hname : u.name = n := hserves'.name_of_finished hfin
            subst hname
            left
            apply List.mem_map_of_mem
            apply List.mem_append_right
            rw [hvals.mem_iff]
            exact List.mem_cons_self
        · exact Or.inr (Or.inl ⟨i, hp'.mem_iff.2 hi, hkept hserves⟩)
      · exact Or.inr (Or.inr ⟨e, ho.mem_iff.2 (List.mem_cons_of_mem _ he)⟩)

theorem graphStep_covers (h : GraphStep (task, l) (task', l')) (hl : l.Sound) (hs : task.Sound l)
    (hc : task.Covers l) : task'.Covers l' := by
  cases h with
  | load hstep => exact frontier_covers hl hs hc hstep
  | expand hv _ he => exact expand_covers he hl hs hc hv
  | idle => exact hc

/-- A graph that comes to its end is closed. -/
theorem GraphTask.Covers.closed_of_values? (h : task.Covers l) (hs : task.Sound l)
    (hv : task.frontier.values? = some []) : task.graph.Closed l := by
  intro u hu d hd
  refine (h.closed u hu d hd).imp_right fun hn => ?_
  have hm := h.of_values? hs hv d.name hn
  rwa [List.append_nil] at hm

end Steps

/-! ## What is missing -/

/-- Once the units of a closed graph are registered, what is missing was needed before. -/
theorem Graph.Closed.needs_of_missing {l : Loader} {g : Graph} (h : g.Closed l) {x y : String}
    (hn : (l.commit g.units).registry.Needs x y)
    (hy : (l.commit g.units).registry.get? y = none) : l.registry.Needs x y := by
  obtain ⟨record, hg, hm⟩ := hn
  cases hx : l.registry.get? x with
  | some record' =>
    rw [commit_get?_of_some hx, Option.some.injEq] at hg
    exact ⟨record', hx, hg ▸ hm⟩
  | none =>
    rcases commit_get?_of_none g.units hx with ⟨hnone, -⟩ | ⟨u, hu, -, hrec⟩
    · rw [hnone] at hg
      simp at hg
    · rw [hrec, Option.some.injEq] at hg
      subst hg
      obtain ⟨d, hd, rfl⟩ := List.mem_map.1 hm
      have hhas : (l.commit g.units).registry.has d.name = true := by
        rcases h u hu d hd with hr | hr
        · exact has_commit_of_has hr _
        · exact has_commit hr
      rw [Registry.has_eq_isSome, hy] at hhas
      simp at hhas

end ModuleLoader.Loader

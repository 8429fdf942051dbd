import ModuleLoader.Proofs.Loader.Departures
import ModuleLoader.Proofs.Loader.PlannedGraphs

/-! # Imports that follow a plan

An import whose loads keep to a plan goes on until it has all units that it needs, registers them
and evaluates its module. Each of its steps brings down its toil.
-/

namespace ModuleLoader.Plan

open Loader Gathering Relation

variable (p : Plan)

/-- A branch for a name follows a plan: its root is planned, or its graph follows the plan. -/
def BranchFollows (l : Loader) (name : String) : Branch → Prop
  | .root id => name ∈ p.names ∧ l.Comes id (p.unit name)
  | .loading task => p.Follows l name task

/-- Branches for some names follow a plan. -/
structure BranchesFollow (l : Loader) (roots : List String) (b : Branches) : Prop where
  numbered : b.Numbered
  tasks : ∀ branch ∈ b.tasks, ∃ k ∈ roots, p.BranchFollows l k branch
  values : ∀ g ∈ b.values, ∃ k ∈ roots, p.Complete l k g
  covers : ∀ k ∈ roots, (∃ branch ∈ b.tasks, p.BranchFollows l k branch) ∨
    ∃ g ∈ b.values, p.Complete l k g
  outcomes : ∀ r ∈ b.outcomes, ∃ g, r = .ok g

/-- An import of a name follows a plan. It has some roots, below which it loads. -/
def RequestFollows (l : Loader) (name : String) (roots : List String) : Activity → Prop
  | .root n metadata id =>
    n = name ∧ metadata = p.metadata ∧ roots = [name] ∧ name ∈ p.names ∧ l.Comes id (p.unit name)
  | .graph purpose task =>
    purpose = .importModule name ∧ roots = [name] ∧ p.Follows l name task
  | .branches n metadata b => n = name ∧ metadata = p.metadata ∧ p.BranchesFollow l roots b
  | _ => False

/-- An import of a name has not begun yet. -/
def RequestWaits (l : Loader) (name : String) (roots : List String) : Activity → Prop
  | .delayed _ request => ∃ specifier, request.demand = .importModule specifier ∧
    l.nameOf specifier request.options.referrer = .ok name ∧
    l.metadataOf request.options = p.metadata ∧
    roots = l.registry.missing name ∧ ∀ k ∈ roots, k ∈ p.names
  | _ => False

/-- An import of a name is on its way by a plan. -/
def RequestGoes (l : Loader) (name : String) (roots : List String) (a : Activity) : Prop :=
  p.RequestWaits l name roots a ∨ p.RequestFollows l name roots a

/-- A bound for the toil of a graph. -/
def graphToil : Nat := (p.patience + 3) * p.names.card

/-- A bound for the steps of a branch. -/
def branchToil (l : Loader) : Branch → Nat
  | .root id => l.rest id + p.graphToil + 1
  | .loading task => p.toil l task + 1

/-- A bound for the steps of an import that begins with some number of roots at most. -/
def requestToil (l : Loader) (size : Nat) : Activity → Nat
  | .delayed turns _ => turns + size * (p.patience + p.graphToil + 1) + 2
  | .root _ _ id => l.rest id + p.graphToil + 2
  | .graph _ task => p.toil l task + 1
  | .branches _ _ b => (b.tasks.map (p.branchToil l)).sum + 1
  | _ => 0

/-- The units that an import registers: all that it needs below its roots. -/
structure Whole (l : Loader) (roots : List String) (units : List LoadedUnit) : Prop where
  arrived : ∀ u ∈ units, l.Arrived u
  planned : ∀ u ∈ units, u.name ∈ p.names ∧ u = (p.unit u.name).withLoad u.body.load
  closed : ∀ u ∈ units, ∀ d ∈ u.dependencies,
    l.registry.has d.name = true ∨ d.name ∈ units.map (·.name)
  path : ∀ u ∈ units, ∃ k ∈ roots, ReflTransGen p.Dep k u.name
  covers : ∀ k ∈ roots, k ∈ units.map (·.name)

variable {p}

section Branches

variable {l l' : Loader} {name : String} {branch branch' : Branch}

theorem BranchFollows.mono (h : p.BranchFollows l name branch) (he : Evolves l l')
    (hc : ∀ {id u}, l.Comes id u → l'.Comes id u)
    (hr : ∀ {n}, l.registry.has n = true → l'.registry.has n = true) :
    p.BranchFollows l' name branch := by
  cases branch with
  | root id => exact ⟨h.1, hc h.2⟩
  | loading task => exact Follows.mono h he hc hr

theorem BranchesFollow.mono {roots : List String} {b : Branches} (h : p.BranchesFollow l roots b)
    (he : Evolves l l') (hc : ∀ {id u}, l.Comes id u → l'.Comes id u)
    (hr : ∀ {n}, l.registry.has n = true → l'.registry.has n = true) :
    p.BranchesFollow l' roots b := by
  refine ⟨h.numbered, fun branch hb => ?_, fun g hg => ?_, fun k hk => ?_, h.outcomes⟩
  · obtain ⟨k, hk, hf⟩ := h.tasks branch hb
    exact ⟨k, hk, hf.mono he hc hr⟩
  · obtain ⟨k, hk, hf⟩ := h.values g hg
    exact ⟨k, hk, hf.mono he hr⟩
  · rcases h.covers k hk with ⟨branch, hb, hf⟩ | ⟨g, hg, hf⟩
    · exact Or.inl ⟨branch, hb, hf.mono he hc hr⟩
    · exact Or.inr ⟨g, hg, hf.mono he hr⟩

theorem RequestFollows.mono {roots : List String} {a : Activity}
    (h : p.RequestFollows l name roots a) (he : Evolves l l')
    (hc : ∀ {id u}, l.Comes id u → l'.Comes id u)
    (hr : ∀ {n}, l.registry.has n = true → l'.registry.has n = true) :
    p.RequestFollows l' name roots a := by
  cases a with
  | root n metadata id =>
    obtain ⟨hn, hm, hks, hmem, hcomes⟩ := h
    exact ⟨hn, hm, hks, hmem, hc hcomes⟩
  | graph purpose task =>
    obtain ⟨hp, hks, hf⟩ := h
    exact ⟨hp, hks, hf.mono he hc hr⟩
  | branches n metadata b =>
    obtain ⟨hn, hm, hf⟩ := h
    exact ⟨hn, hm, hf.mono he hc hr⟩
  | _ => exact h

theorem BranchFollows.unique {name' : String} (h : p.BranchFollows l name branch)
    (h' : p.BranchFollows l name' branch) : name = name' := by
  cases branch with
  | root id =>
    rw [← p.named name h.1, ← p.named name' h'.1]
    exact h.2.serves.unique h'.2.serves
  | loading task => exact (Follows.root h).symm.trans (Follows.root h')

theorem branchToil_le (h : ∀ id < l.loads.length, l'.rest id ≤ l.rest id)
    (hb : p.BranchFollows l name branch) : p.branchToil l' branch ≤ p.branchToil l branch := by
  cases branch with
  | root id =>
    have hle := h id hb.2.serves.lt
    simp only [branchToil]
    omega
  | loading task =>
    have hs := sum_rest_le fun id hid => by
      obtain ⟨n, -, hc⟩ := Follows.loads hb id hid
      exact h id hc.serves.lt
    simp only [branchToil, toil]
    omega

theorem requestToil_le {roots : List String} {a : Activity} {size : Nat}
    (h : ∀ id < l.loads.length, l'.rest id ≤ l.rest id)
    (ha : p.RequestFollows l name roots a) : p.requestToil l' size a ≤ p.requestToil l size a := by
  cases a with
  | root n metadata id =>
    have hle := h id ha.2.2.2.2.serves.lt
    simp only [requestToil]
    omega
  | graph purpose task =>
    have hb : p.BranchFollows l name (.loading task) := ha.2.2
    exact branchToil_le h hb
  | branches n metadata b =>
    refine Nat.succ_le_succ (List.sum_le_sum fun branch hb => ?_)
    obtain ⟨k, -, hf⟩ := ha.2.2.tasks branch hb
    exact branchToil_le h hf
  | _ => exact ha.elim

theorem arrive_follows {id : Nat} {u : LoadedUnit} {task : GraphTask} {l₁ : Loader}
    (hm : l.move id = (some (.ok u), l₁)) (hs : l₁.startGraph p.metadata u = (task, l'))
    (hk : p.Keeps l) (hn : name ∈ p.names) (hc : l.Comes id (p.unit name)) :
    p.Keeps l' ∧ p.Proceeds l l' ∧ p.Follows l' name task ∧ p.toil l' task < p.graphToil := by
  have hk₁ := hk.move hn hc
  have hp₁ := move_proceeds hn hc
  have hu := (move_of_comes hc).2
  rw [hm] at hk₁ hp₁ hu
  simp only [reduceCtorEq, false_and, Option.some.injEq, Except.ok.injEq, false_or] at hu
  subst hu
  have hname : ((p.unit name).withLoad id).name = name := p.named name hn
  have ha : l₁.Arrived ((p.unit name).withLoad id) := move_finished hm
  obtain ⟨hk', hp', hf, ht⟩ := startGraph_follows hs hk₁ ha (by
    rw [hname]
    exact ⟨hn, rfl⟩)
  rw [hname] at hf
  exact ⟨hk', hp₁.trans hp', hf, ht⟩

theorem branchStep_follows (hk : p.Keeps l) (hb : p.BranchFollows l name branch)
    (h : BranchStep p.metadata (branch, l) (branch', l')) :
    p.Keeps l' ∧ p.Proceeds l l' ∧ p.BranchFollows l' name branch' ∧
      p.branchToil l' branch' < p.branchToil l branch := by
  cases h with
  | @wait id _ _ hm =>
    have hk' := hk.move hb.1 hb.2
    have hp := move_proceeds hb.1 hb.2
    have hr := (move_of_comes hb.2).2
    rw [hm] at hk' hp hr
    obtain ⟨-, hlt⟩ := hr.resolve_right (by simp)
    refine ⟨hk', hp, ⟨hb.1, hp.comes hb.2⟩, ?_⟩
    simp only [branchToil] at hlt ⊢
    omega
  | arrive hm hs =>
    obtain ⟨hk', hp, hf, ht⟩ := arrive_follows hm hs hk hb.1 hb.2
    refine ⟨hk', hp, hf, ?_⟩
    simp only [branchToil]
    omega
  | graph hs =>
    obtain ⟨hk', hp, hf, ht⟩ := graphStep_follows hk hb hs
    exact ⟨hk', hp, hf, Nat.succ_lt_succ ht⟩

theorem BranchFollows.not_fails (hb : p.BranchFollows l name branch) {e : LoadError} :
    ¬ BranchEnds (branch, l) (.error e, l') := by
  intro h
  cases h with
  | root hm =>
    have hr := (move_of_comes hb.2).2
    rw [hm] at hr
    simp at hr
  | graph he => exact Follows.not_fails hb he

theorem BranchFollows.complete (hb : p.BranchFollows l name branch) {g : Graph}
    (h : BranchEnds (branch, l) (.ok g, l')) : l' = l ∧ p.Complete l name g := by
  cases h with
  | graph he => exact Follows.complete hb he

/-- What joining the loads of several roots comes to. -/
theorem joinAll_follows {roots : List String} (hk : p.Keeps l)
    (hn : ∀ k ∈ roots, k ∈ p.names ∧ l.registry.has k = false) :
    p.Keeps (joinAll p.metadata l roots).2 ∧ p.Proceeds l (joinAll p.metadata l roots).2 ∧
      (∀ branch ∈ (joinAll p.metadata l roots).1, ∃ k ∈ roots,
        p.BranchFollows (joinAll p.metadata l roots).2 k branch ∧
          p.branchToil (joinAll p.metadata l roots).2 branch ≤ p.patience + p.graphToil + 1) ∧
      (∀ k ∈ roots, ∃ branch ∈ (joinAll p.metadata l roots).1,
        p.BranchFollows (joinAll p.metadata l roots).2 k branch) ∧
      (joinAll p.metadata l roots).1.length = roots.length := by
  induction roots generalizing l with
  | nil => exact ⟨hk, .refl l, by simp [joinAll], by simp, rfl⟩
  | cons k rest ih =>
    obtain ⟨hmem, hr⟩ := hn k List.mem_cons_self
    have hk₁ := hk.join hmem hr
    have hp₁ := join_proceeds hmem hr
    obtain ⟨hc, hle⟩ := hk₁.pending k hmem _ (join_pending l k p.metadata)
    obtain ⟨hk', hp', hb, hall, hlen⟩ := ih hk₁ fun m hm => by
      rw [hp₁.grows.registry]
      exact hn m (List.mem_cons_of_mem _ hm)
    have hc' := hp'.comes hc
    have hle' := Nat.le_trans (hp'.rest _ hc.serves.lt) hle
    rw [joinAll]
    refine ⟨hk', hp₁.trans hp', ?_, ?_, congrArg (· + 1) hlen⟩
    · intro branch hbr
      rcases List.mem_cons.1 hbr with rfl | hbr
      · refine ⟨k, List.mem_cons_self, ⟨hmem, hc'⟩, ?_⟩
        rw [branchToil]
        exact Nat.succ_le_succ (Nat.add_le_add_right hle' _)
      · obtain ⟨m, hm, hf⟩ := hb branch hbr
        exact ⟨m, List.mem_cons_of_mem _ hm, hf⟩
    · intro m hm
      rcases List.mem_cons.1 hm with rfl | hm
      · exact ⟨_, List.mem_cons_self, hmem, hc'⟩
      · obtain ⟨branch, hbr, hf⟩ := hall m hm
        exact ⟨branch, List.mem_cons_of_mem _ hbr, hf⟩

end Branches

section Requests

variable {l l' : Loader} {name : String} {roots : List String} {a a' : Activity} {size : Nat}

/-- What the beginning of an import comes to. -/
theorem start_follows {request : Request} (hk : p.Keeps l)
    (ha : p.RequestWaits l name roots (.delayed 0 request)) (hsize : roots.length ≤ size)
    (h : l.start request = (a', l')) :
    p.Keeps l' ∧ p.Proceeds l l' ∧ p.RequestFollows l' name roots a' ∧
      p.requestToil l' size a' < p.requestToil l size (.delayed 0 request) := by
  obtain ⟨specifier, hd, hname, hmeta, hroots, hmem⟩ := ha
  have hmul : roots.length * (p.patience + p.graphToil + 1) ≤
      size * (p.patience + p.graphToil + 1) := Nat.mul_le_mul_right _ hsize
  rw [start] at h
  simp only [hd, startImport, hname, hmeta] at h
  split at h
  · subst hroots
    obtain ⟨hk', hp, hb, hall, hlen⟩ :=
      joinAll_follows hk fun k hm => ⟨hmem k hm, has_of_mem_missing hm⟩
    simp only [Prod.mk.injEq] at h
    obtain ⟨rfl, rfl⟩ := h
    refine ⟨hk', hp, ⟨rfl, rfl, numbered_ofTasks _, ?_, by simp, ?_, by simp⟩, ?_⟩
    · rw [tasks_ofTasks]
      intro branch hbr
      obtain ⟨k, hm, hf, -⟩ := hb branch hbr
      exact ⟨k, hm, hf⟩
    · rw [tasks_ofTasks]
      exact fun k hm => Or.inl (hall k hm)
    · have hsum := List.sum_le_card_nsmul
        ((joinAll p.metadata l (l.registry.missing name)).1.map (p.branchToil
          (joinAll p.metadata l (l.registry.missing name)).2)) (p.patience + p.graphToil + 1)
        (by
          intro t ht
          obtain ⟨branch, hbr, rfl⟩ := List.mem_map.1 ht
          obtain ⟨k, -, -, hle⟩ := hb branch hbr
          exact hle)
      rw [List.length_map, hlen, Nat.nsmul_eq_mul] at hsum
      simp only [requestToil, tasks_ofTasks]
      omega
  · rename_i hr
    have hr : l.registry.has name = false := by simpa using hr
    have hg : l.registry.get? name = none := by
      rwa [Registry.has_eq_isSome, Option.isSome_eq_false_iff, Option.isNone_iff_eq_none] at hr
    rw [Registry.missing, hg] at hroots
    subst hroots
    have hn : name ∈ p.names := hmem name List.mem_cons_self
    have hk' := hk.join hn hr
    have hp := join_proceeds hn hr
    obtain ⟨hc, hle⟩ := hk'.pending name hn _ (join_pending l name p.metadata)
    simp only [Prod.mk.injEq] at h
    obtain ⟨rfl, rfl⟩ := h
    refine ⟨hk', hp, ⟨rfl, rfl, rfl, hn, hc⟩, ?_⟩
    rw [List.length_singleton] at hmul
    simp only [requestToil]
    omega

/-- A branch of an import moves, or its graph is complete. -/
theorem branches_follow {b b' : Branches} (hk : p.Keeps l) (hb : p.BranchesFollow l roots b)
    (h : Gathering.Step (BranchStep p.metadata) BranchEnds (b, l) (b', l')) :
    p.Keeps l' ∧ p.Proceeds l l' ∧ p.BranchesFollow l' roots b' ∧
      (b'.tasks.map (p.branchToil l')).sum < (b.tasks.map (p.branchToil l)).sum := by
  have hnum := h.numbered hb.numbered
  obtain ⟨branch, rest, hperm, hcase⟩ := h.tasks_cases hb.numbered
  have hmem : branch ∈ b.tasks := hperm.mem_iff.2 List.mem_cons_self
  have hrest : ∀ br ∈ rest, br ∈ b.tasks := fun br hm =>
    hperm.mem_iff.2 (List.mem_cons_of_mem _ hm)
  obtain ⟨k, hkr, hf⟩ := hb.tasks branch hmem
  have hsum : (b.tasks.map (p.branchToil l)).sum =
      p.branchToil l branch + (rest.map (p.branchToil l)).sum := by
    rw [(hperm.map _).sum_eq, List.map_cons, List.sum_cons]
  rcases hcase with ⟨branch', hs, hperm', ho⟩ | ⟨r, he, hperm', ho⟩
  · obtain ⟨hk', hp, hf', hlt⟩ := branchStep_follows hk hf hs
    have hb' := hb.mono hp.grows.loads hp.comes fun hr => by rwa [hp.grows.registry]
    have hle : (rest.map (p.branchToil l')).sum ≤ (rest.map (p.branchToil l)).sum :=
      List.sum_le_sum fun br hm => by
        obtain ⟨m, -, hfm⟩ := hb.tasks br (hrest br hm)
        exact branchToil_le hp.rest hfm
    have hvals : b'.values = b.values := by rw [values, values, ho]
    refine ⟨hk', hp, ⟨hnum, ?_, hvals ▸ hb'.values, ?_, ho ▸ hb.outcomes⟩, ?_⟩
    · intro br hm
      rcases List.mem_cons.1 (hperm'.mem_iff.1 hm) with rfl | hm
      · exact ⟨k, hkr, hf'⟩
      · exact hb'.tasks br (hrest br hm)
    · intro m hm
      rcases hb'.covers m hm with ⟨br, hbr, hfm⟩ | hg
      · rcases List.mem_cons.1 (hperm.mem_iff.1 hbr) with rfl | hbr
        · rw [hfm.unique (hf.mono hp.grows.loads hp.comes fun hr => by rwa [hp.grows.registry])]
          exact Or.inl ⟨branch', hperm'.mem_iff.2 List.mem_cons_self, hf'⟩
        · exact Or.inl ⟨br, hperm'.mem_iff.2 (List.mem_cons_of_mem _ hbr), hfm⟩
      · rw [hvals]
        exact Or.inr hg
    · rw [hsum, (hperm'.map _).sum_eq, List.map_cons, List.sum_cons]
      omega
  · cases r with
    | error e => exact absurd he hf.not_fails
    | ok g =>
      obtain ⟨rfl, hc⟩ := hf.complete he
      have hvals : b'.values.Perm (g :: b.values) := ho.filterMap Except.toOption
      refine ⟨hk, .refl _, ⟨hnum, ?_, ?_, ?_, ?_⟩, ?_⟩
      · exact fun br hm => hb.tasks br (hrest br (hperm'.mem_iff.1 hm))
      · intro g' hg
        rcases List.mem_cons.1 (hvals.mem_iff.1 hg) with rfl | hg
        · exact ⟨k, hkr, hc⟩
        · exact hb.values g' hg
      · intro m hm
        rcases hb.covers m hm with ⟨br, hbr, hfm⟩ | ⟨g', hg, hcm⟩
        · rcases List.mem_cons.1 (hperm.mem_iff.1 hbr) with rfl | hbr
          · rw [hfm.unique hf]
            exact Or.inr ⟨g, hvals.mem_iff.2 List.mem_cons_self, hc⟩
          · exact Or.inl ⟨br, hperm'.mem_iff.2 hbr, hfm⟩
        · exact Or.inr ⟨g', hvals.mem_iff.2 (List.mem_cons_of_mem _ hg), hcm⟩
      · intro r hr
        rcases List.mem_cons.1 (ho.mem_iff.1 hr) with rfl | hr
        · exact ⟨g, rfl⟩
        · exact hb.outcomes r hr
      · rw [hsum, (hperm'.map _).sum_eq]
        have hpos : 0 < p.branchToil l' branch := by
          cases branch <;> exact Nat.succ_pos _
        omega

/-- An import that follows a plan has all units that it registers. -/
theorem Complete.whole {g : Graph} (h : p.Complete l name g) : p.Whole l [name] g.units := by
  refine ⟨h.arrived, h.units, h.closed, fun u hu => ⟨name, by simp, h.path u hu⟩, fun k hk => ?_⟩
  rw [List.mem_singleton.1 hk, ← h.root]
  exact List.mem_map_of_mem List.mem_cons_self

theorem BranchesFollow.whole {b : Branches} (h : p.BranchesFollow l roots b)
    {graphs : List Graph} (hv : b.values? = some graphs) :
    p.Whole l roots (graphs.flatMap Graph.units) := by
  have hvals : b.values = graphs := values_of_values? hv
  have htasks : b.tasks = [] := tasks_of_values? h.numbered hv
  have hof : ∀ u ∈ graphs.flatMap Graph.units, ∃ k ∈ roots, ∃ g ∈ graphs,
      p.Complete l k g ∧ u ∈ g.units := by
    intro u hu
    obtain ⟨g, hg, hu⟩ := List.mem_flatMap.1 hu
    obtain ⟨k, hk, hc⟩ := h.values g (hvals ▸ hg)
    exact ⟨k, hk, g, hg, hc, hu⟩
  refine ⟨fun u hu => ?_, fun u hu => ?_, fun u hu d hd => ?_, fun u hu => ?_, fun k hk => ?_⟩
  · obtain ⟨k, -, g, -, hc, hu⟩ := hof u hu
    exact hc.arrived u hu
  · obtain ⟨k, -, g, -, hc, hu⟩ := hof u hu
    exact hc.units u hu
  · obtain ⟨k, -, g, hg, hc, hu⟩ := hof u hu
    refine (hc.closed u hu d hd).imp_right fun hm => ?_
    obtain ⟨v, hv, hn⟩ := List.mem_map.1 hm
    exact List.mem_map.2 ⟨v, List.mem_flatMap.2 ⟨g, hg, hv⟩, hn⟩
  · obtain ⟨k, hk, g, -, hc, hu⟩ := hof u hu
    exact ⟨k, hk, hc.path u hu⟩
  · rcases h.covers k hk with ⟨br, hbr, -⟩ | ⟨g, hg, hc⟩
    · simp [htasks] at hbr
    · refine List.mem_map.2 ⟨g.root, List.mem_flatMap.2 ⟨g, hvals ▸ hg, ?_⟩, hc.root⟩
      exact List.mem_cons_self

theorem advance_follows (hk : p.Keeps l) (ha : p.RequestFollows l name roots a)
    (h : Advance (a, l) (a', l')) :
    (p.Keeps l' ∧ p.Proceeds l l' ∧ p.RequestFollows l' name roots a' ∧
      p.requestToil l' size a' < p.requestToil l size a) ∨
    ∃ units, p.Whole l roots units ∧ (l.commit units).settleImport name = (a', l') := by
  cases h with
  | tick | start | scriptWaits | scriptAnswered => exact ha.elim
  | rootWaits hm =>
    obtain ⟨rfl, rfl, rfl, hn, hc⟩ := ha
    have hb : p.BranchFollows l _ (.root _) := ⟨hn, hc⟩
    obtain ⟨hk', hp, hb, ht⟩ := branchStep_follows hk hb (.wait hm)
    exact Or.inl ⟨hk', hp, ⟨rfl, rfl, rfl, hn, hb.2⟩, by simpa [requestToil, branchToil] using ht⟩
  | rootFails hm hr =>
    obtain ⟨rfl, rfl, rfl, hn, hc⟩ := ha
    have hb : p.BranchFollows l _ (.root _) := ⟨hn, hc⟩
    exact absurd (.root hm) hb.not_fails
  | rootArrives hm hs =>
    obtain ⟨rfl, rfl, rfl, hn, hc⟩ := ha
    obtain ⟨hk', hp, hf, ht⟩ := arrive_follows hm hs hk hn hc
    refine Or.inl ⟨hk', hp, ⟨rfl, rfl, hf⟩, ?_⟩
    simp only [requestToil]
    omega
  | graph hs =>
    obtain ⟨rfl, rfl, hf⟩ := ha
    obtain ⟨hk', hp, hf', ht⟩ := graphStep_follows hk hf hs
    exact Or.inl ⟨hk', hp, ⟨rfl, rfl, hf'⟩, Nat.succ_lt_succ ht⟩
  | graphFails he hr => exact absurd he (Follows.not_fails ha.2.2)
  | graphDone he hs =>
    obtain ⟨rfl, rfl, hf⟩ := ha
    obtain ⟨rfl, hc⟩ := hf.complete he
    exact Or.inr ⟨_, hc.whole, hs⟩
  | branches hs =>
    obtain ⟨rfl, rfl, hb⟩ := ha
    obtain ⟨hk', hp, hb', ht⟩ := branches_follow hk hb hs
    exact Or.inl ⟨hk', hp, ⟨rfl, rfl, hb'⟩, Nat.succ_lt_succ ht⟩
  | branchesIdle hr hv =>
    obtain ⟨values, hv'⟩ := exists_values? ha.2.2.numbered hr ha.2.2.outcomes
    simp [hv] at hv'
  | branchesFail hf hr =>
    obtain ⟨rfl, rfl, hb⟩ := ha
    rcases hf.tasks_cases with ⟨hm, -⟩ | ⟨branch, hbr, he⟩
    · obtain ⟨g, hg⟩ := hb.outcomes _ hm
      simp at hg
    · obtain ⟨k, -, hfb⟩ := hb.tasks branch hbr
      exact absurd he hfb.not_fails
  | branchesDone hv hs =>
    obtain ⟨rfl, rfl, hb⟩ := ha
    rw [commitAll_eq] at hs
    exact Or.inr ⟨_, hb.whole hv, hs⟩

/-- A step of an import that goes by a plan brings it closer to its end, or is the end: it registers
all units that it needs and evaluates its module. -/
theorem advance_goes (hk : p.Keeps l) (ha : p.RequestGoes l name roots a)
    (hsize : roots.length ≤ size) (h : Advance (a, l) (a', l')) :
    (p.Keeps l' ∧ p.Proceeds l l' ∧ p.RequestGoes l' name roots a' ∧
      p.requestToil l' size a' < p.requestToil l size a) ∨
    ∃ units, p.Whole l roots units ∧ (l.commit units).settleImport name = (a', l') := by
  rcases ha with ha | ha
  · cases h with
    | tick =>
      refine Or.inl ⟨hk, .refl l, Or.inl ha, ?_⟩
      simp only [requestToil]
      omega
    | start hs =>
      obtain ⟨hk', hp, ha', ht⟩ := start_follows hk ha hsize hs
      exact Or.inl ⟨hk', hp, Or.inr ha', ht⟩
    | _ => exact ha.elim
  · rcases advance_follows hk ha h with ⟨hk', hp, ha', ht⟩ | hw
    · exact Or.inl ⟨hk', hp, Or.inr ha', ht⟩
    · exact Or.inr hw

/-- A row of steps of an import that goes by a plan. -/
theorem transGen_goes {c : Activity × Loader} (hk : p.Keeps l) (ha : p.RequestGoes l name roots a)
    (hsize : roots.length ≤ size) (h : TransGen Advance (a, l) c) :
    (p.Keeps c.2 ∧ p.Proceeds l c.2 ∧ p.RequestGoes c.2 name roots c.1 ∧
      p.requestToil c.2 size c.1 < p.requestToil l size a) ∨
    ∃ m units, p.Proceeds l m ∧ p.Whole m roots units ∧ (m.commit units).settleImport name = c := by
  induction h with
  | single hs =>
    rcases advance_goes hk ha hsize hs with hg | ⟨units, hw, he⟩
    · exact Or.inl hg
    · exact Or.inr ⟨l, units, .refl l, hw, he⟩
  | @tail c d _ hs ih =>
    rcases ih with ⟨hk', hp, ha', ht⟩ | ⟨m, units, -, -, he⟩
    · rcases advance_goes hk' ha' hsize hs with ⟨hk'', hp', ha'', ht'⟩ | ⟨units, hw, he⟩
      · exact Or.inl ⟨hk'', hp.trans hp', ha'', ht'.trans ht⟩
      · exact Or.inr ⟨c.2, units, hp, hw, he⟩
    · obtain ⟨r, hr⟩ := settleImport_settled (m.commit units) name
      obtain ⟨b, m'⟩ := c
      rw [he] at hr
      subst hr
      exact absurd hs not_advance_settled

end Requests

end ModuleLoader.Plan

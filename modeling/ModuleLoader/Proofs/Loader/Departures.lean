import ModuleLoader.Proofs.Loader.Registration
import ModuleLoader.Proofs.Loader.RequestHoldings
import ModuleLoader.Proofs.Registry.Reachability

/-! # Departures from the pending table

Where modules are only imported, a registered name has no pending load. A load leaves the table when
it fails or is registered, and else because a request that fails releases it, or because another
load of its name fails or is registered.
-/

namespace ModuleLoader.Loader

open Gathering

/-- What holds of a loader of which only imports are requested. -/
structure Orderly (l : Loader) : Prop where
  sound : l.Sound
  resting : l.registry.Resting
  begun : ∀ {n id}, .began n id ∈ l.world.journal → l.Serves id n ∨ l.Failed id
  filed : ∀ {n id}, .filed n id ∈ l.world.journal → l.Serves id n ∧ l.isFinished id = true
  apart : ∀ {n}, l.registry.has n = true → l.pending.get? n = none

/-- A request imports a module. -/
def Activity.IsImport : Activity → Prop
  | .delayed _ request => ∃ specifier, request.demand = .importModule specifier
  | .script _ _ _ => False
  | .graph purpose _ => ∃ name, purpose = .importModule name
  | _ => True

/-- How the name of a pending load loses it in a step of a request. -/
inductive Loses (a : Activity) (l : Loader) (a' : Activity) (l' : Loader) (n : String) (r : Nat) :
    Prop where
  | failed : l'.Failed r → Loses a l a' l' n r
  | filed : .filed n r ∈ l'.world.journal → Loses a l a' l' n r
  | released : a'.Failing → l'.isFinished r = true → Loses a l a' l' n r
  | crossed {q : Nat} : q ≠ r → q ∈ a.loads → l.Underway q n → Loses a l a' l' n r
  | displaced {q : Nat} : q ≠ r → q ∈ a.loads → l.Serves q n → News l l' (.filed n q) →
      Loses a l a' l' n r

/-- What a step of an import does. -/
structure Imports (a : Activity) (l : Loader) (a' : Activity) (l' : Loader) : Prop where
  orderly : l'.Orderly
  isImport : a'.IsImport
  touches : Touches l l' a.loads
  held : ∀ id ∈ a'.loads, id ∈ a.loads ∨ ∃ n, l'.pending.get? n = some id
  journal : l.world.journal <:+ l'.world.journal
  lost : ∀ n r, l.pending.get? n = some r → l'.pending.get? n = some r ∨ Loses a l a' l' n r

theorem Activity.Sound.lt {l : Loader} {a : Activity} (h : a.Sound l) {id : Nat}
    (hid : id ∈ a.loads) : id < l.loads.length := by
  have hu {u : LoadedUnit} (h : l.Arrived u) : u.body.load < l.loads.length :=
    (List.getElem?_eq_some_iff.1 h).1
  have htask {task : GraphTask} (h : task.Sound l)
      (hid : id ∈ task.graph.root.body.load :: task.loads) : id < l.loads.length := by
    simp only [GraphTask.loads, List.mem_cons, List.mem_append, List.mem_map] at hid
    rcases hid with rfl | ⟨u, hm, rfl⟩ | hid
    · exact hu (h.arrived _ (by simp [GraphTask.units, Graph.units]))
    · refine hu (h.arrived u ?_)
      rcases hm with hm | hm <;> simp [GraphTask.units, Graph.units, hm]
    · exact h.valid id hid
  cases a with
  | root name metadata i =>
    rw [Activity.loads, List.mem_singleton] at hid
    exact hid ▸ h
  | graph purpose task => exact htask h (loads_subset purpose task hid)
  | branches name metadata b =>
    rcases mem_branches_loads.1 hid with ⟨branch, hb, hid⟩ | ⟨g, hg, hid⟩
    · have hs := Branches.Sound.tasks h branch hb
      cases branch with
      | root i =>
        rw [Branch.loads, List.mem_singleton] at hid
        exact hid ▸ hs
      | loading task => exact htask hs hid
    · obtain ⟨u, hm, rfl⟩ := List.mem_map.1 hid
      exact hu (Branches.Sound.values h g hg u hm)
  | _ => exact absurd hid List.not_mem_nil

/-! ## Loads that move -/

/-- The journal still tells the truth once loads have moved. -/
theorem Orderly.of_touches {l l' : Loader} (hl : l.Orderly) {ids : List Nat} (he : Evolves l l')
    (ht : Touches l l' ids) (hs : l'.Sound) (hr : l'.registry = l.registry)
    (hj : ∀ e ∈ l'.world.journal, e ∈ l.world.journal ∨ e.IsLoading)
    (hp : ∀ n, l.registry.has n = true → l'.pending.get? n = none) : l'.Orderly := by
  refine ⟨hs, hr ▸ hl.resting, ?_, ?_, ?_⟩
  · intro n id h
    rcases ht.began h with h | ⟨-, h⟩
    · rcases hl.begun h with h | h
      · exact he.serves h
      · exact Or.inr (he.failed h)
    · exact he.serves h.1
  · intro n id h
    obtain ⟨hn, hf⟩ := hl.filed ((hj _ h).resolve_right fun h => h)
    have hf' := he.isFinished hf
    refine ⟨?_, hf'⟩
    obtain ⟨r, hr⟩ := isFinished_iff.1 hf
    obtain ⟨st, hst, hn⟩ := hn
    rw [hr, Option.some.injEq] at hst
    exact ⟨_, he.finished hr, hst ▸ hn⟩
  · intro n h
    exact hp n (hr ▸ h)

theorem Grows.mem_journal {l l' : Loader} (h : Grows l l') {e : Event}
    (he : e ∈ l'.world.journal) : e ∈ l.world.journal ∨ e.IsLoading := by
  obtain ⟨events, hj, hl⟩ := h.journal
  rw [hj] at he
  exact (List.mem_append.1 he).symm.imp_right (hl e)

theorem Grows.journal_suffix {l l' : Loader} (h : Grows l l') :
    l.world.journal <:+ l'.world.journal := by
  obtain ⟨events, hj, -⟩ := h.journal
  exact ⟨events, hj.symm⟩

/-- A name loses its load to one that fails. -/
theorem Loses.of_failed {a a' : Activity} {l l' : Loader} {n : String} {r i : Nat}
    (ht : Touches l l' a.loads) (ha : ∀ id ∈ a.loads, id < l.loads.length)
    (hi : l.Serves i n ∨ l.loads.length ≤ i) (hn : ¬ l.Failed i) (hf : l'.Failed i) :
    Loses a l a' l' n r := by
  by_cases hir : i = r
  · exact .failed (hir ▸ hf)
  · obtain ⟨hm, m, hu⟩ := (ht.failed hf).resolve_left hn
    have hs := hi.resolve_right (Nat.not_le_of_lt (ha i hm))
    exact .crossed hir hm (hs.unique hu.1 ▸ hu)

theorem Imports.of_holds {a a' : Activity} {l l' : Loader} (h : Holds l l' a.loads a'.loads)
    (hl : l.Orderly) (ha : a.Sound l) (hi : a'.IsImport) : Imports a l a' l' := by
  have hs := h.grows.sound hl.sound
  refine ⟨hl.of_touches h.grows.loads h.touches hs h.grows.registry
      (fun e he => h.grows.mem_journal he) ?_, hi, h.touches, ?_, h.grows.journal_suffix, ?_⟩
  · intro n hn
    rw [Option.eq_none_iff_forall_ne_some]
    intro r hr
    have hnone := hl.apart hn
    rcases h.grows.fresh hr with hp | hge
    · rw [hp] at hnone
      simp at hnone
    · -- a load that is new in the table is held, and was joined for a name without a record
      have hid := (h.gains n r hr).resolve_left fun hp => by
        rw [hp] at hnone
        simp at hnone
      obtain ⟨m, hm, hp⟩ := (h.held r hid).resolve_left fun hid =>
        Nat.not_le_of_lt (ha.lt hid) hge
      rw [(hs.pending hp).unique (hs.pending hr), hn] at hm
      simp at hm
  · intro id hid
    exact (h.held id hid).imp_right fun ⟨n, _, hp⟩ => ⟨n, hp⟩
  · intro n r hp
    refine (h.grows.kept hp).imp_right ?_
    rintro ⟨i, hi, hn, hf⟩
    exact .of_failed h.touches (fun id => ha.lt) hi hn hf

/-! ## Failures -/

/-- What a failure does: loads may have moved, and others that have ended may be released. -/
structure Fades (l l' : Loader) (ids : List Nat) : Prop where
  sound : l.Sound → l'.Sound
  evolves : Evolves l l'
  touches : Touches l l' ids
  registry : l'.registry = l.registry
  journal : ∃ events, l'.world.journal = events ++ l.world.journal ∧ ∀ e ∈ events, e.IsLoading
  pending : ∀ {n id}, l'.pending.get? n = some id → l.pending.get? n = some id
  lost : ∀ {n r}, l.pending.get? n = some r → l'.pending.get? n = some r ∨
    l'.isFinished r = true ∨ ∃ i, (l.Serves i n ∨ l.loads.length ≤ i) ∧ ¬ l.Failed i ∧ l'.Failed i

theorem Fades.refl (l : Loader) (ids : List Nat) : Fades l l ids :=
  ⟨id, .refl l, .refl l ids, rfl, ⟨[], rfl, by simp⟩, id, Or.inl⟩

theorem Fades.mono {l l' : Loader} {ids ids' : List Nat} (h : Fades l l' ids)
    (hi : ∀ i ∈ ids, i ∈ ids') : Fades l l' ids' :=
  ⟨h.sound, h.evolves, h.touches.mono hi, h.registry, h.journal, h.pending, h.lost⟩

theorem move_fades (l : Loader) (id : Nat) : Fades l (l.move id).2 [id] := by
  have hg := move_grows l id
  refine ⟨hg.sound, hg.loads, move_touches l id, hg.registry, hg.journal, fun hp => ?_, fun hp => ?_⟩
  · exact (move_gains l id _ _ hp).resolve_right List.not_mem_nil
  · exact (hg.kept hp).imp_right Or.inr

/-- Loads that have ended are released after a failure. -/
theorem Fades.releases {l l' l'' : Loader} {ids : List Nat} (h : Fades l l' ids)
    (hr : Releases l' l'') (hreg : l''.registry = l'.registry)
    (hj : l''.world.journal = l'.world.journal)
    (hp : ∀ {n r}, l'.pending.get? n = some r → l''.pending.get? n = some r ∨
      l'.isFinished r = true) : Fades l l'' ids := by
  have hfin {r : Nat} (hf : l'.isFinished r = true) : l''.isFinished r = true :=
    hr.evolves.isFinished hf
  have hback {i : Nat} (hf : l''.Failed i) : l'.Failed i := by
    rwa [Failed, hr.loads] at hf
  refine ⟨fun hs => hr.sound (h.sound hs), h.evolves.trans hr.evolves, ?_, hreg.trans h.registry,
    hj ▸ h.journal, fun hp => h.pending (hr.pending hp), ?_⟩
  · exact ⟨fun hf => h.touches.failed (hback hf), fun hb => h.touches.began (hj ▸ hb)⟩
  · intro n r hn
    rcases h.lost hn with hn | hf | ⟨i, hi, hnf, hf⟩
    · exact (hp hn).imp_right fun hf => Or.inl (hfin hf)
    · exact Or.inr (Or.inl (hfin hf))
    · exact Or.inr (Or.inr ⟨i, hi, hnf, hr.evolves.failed hf⟩)

theorem Fades.reject {l l' l'' : Loader} {ids : List Nat} (h : Fades l l' ids) {e : LoadError}
    {a : Activity} (hr : l'.reject e = (a, l'')) : Fades l l'' ids := by
  have hl : l'' = (l'.reject e).2 := by rw [hr]
  rw [hl]
  exact h.releases ⟨rfl, id⟩ rfl rfl Or.inl

theorem Fades.release {l l' : Loader} {ids : List Nat} (h : Fades l l' ids)
    (names : List String) : Fades l (l'.release names) ids := by
  refine h.releases (release_releases l' names) rfl rfl fun {n r} hp => ?_
  rw [get?_release]
  split
  · cases hf : l'.isFinished r with
    | true => exact Or.inr rfl
    | false =>
      rw [hp]
      simp [Option.filter, hf]
  · exact Or.inl hp

theorem frontier_fades {f : Frontier} {l l' : Loader} {e : LoadError}
    (h : Fails LoadEnds (f, l) (e, l')) : Fades l l' f.tasks := by
  rcases h.tasks_cases with ⟨-, rfl⟩ | ⟨id, hid, he⟩
  · exact .refl l' _
  · cases he with
    | mk hm =>
      have hf := move_fades l id
      rw [hm] at hf
      exact hf.mono fun j hj => List.mem_singleton.1 hj ▸ hid

theorem branchEnds_fades {branch : Branch} {l l' : Loader} {e : LoadError}
    (h : BranchEnds (branch, l) (.error e, l')) : Fades l l' branch.loads := by
  cases h with
  | @root id _ _ _ hm =>
    have hf := move_fades l id
    rwa [hm] at hf
  | graph he =>
    cases he with
    | fails hf =>
      refine ((frontier_fades hf).release _).mono fun id hid => ?_
      simp [Branch.loads, GraphTask.loads, hid]

theorem branches_fades {b : Branches} {l l' : Loader} {e : LoadError}
    (h : Fails BranchEnds (b, l) (e, l')) : Fades l l' b.loads := by
  rcases h.tasks_cases with ⟨-, rfl⟩ | ⟨branch, hb, he⟩
  · exact .refl l' _
  · exact (branchEnds_fades he).mono fun id hid => mem_branches_loads.2 (Or.inl ⟨branch, hb, hid⟩)

theorem Imports.of_fades {a a' : Activity} {l l' : Loader} (h : Fades l l' a.loads)
    (hl : l.Orderly) (ha : a.Sound l) (hi : a'.IsImport) (hf : a'.Failing)
    (hh : ∀ id ∈ a'.loads, id ∈ a.loads) : Imports a l a' l' := by
  obtain ⟨events, hj, he⟩ := h.journal
  refine ⟨?_, hi, h.touches, fun id hid => Or.inl (hh id hid), ⟨events, hj.symm⟩, ?_⟩
  · refine hl.of_touches h.evolves h.touches (h.sound hl.sound) h.registry ?_ ?_
    · intro e hm
      rw [hj] at hm
      exact (List.mem_append.1 hm).symm.imp_right (he e)
    · intro n hn
      rw [Option.eq_none_iff_forall_ne_some]
      intro r hr
      have hnone := hl.apart hn
      rw [h.pending hr] at hnone
      simp at hnone
  · intro n r hp
    refine (h.lost hp).imp_right ?_
    rintro (hfin | ⟨i, hi, hn, hfail⟩)
    · exact .released hf hfin
    · exact .of_failed h.touches (fun id => ha.lt) hi hn hfail

/-! ## Registration -/

theorem mem_settleImport_journal {l : Loader} (hr : l.registry.Resting) {name : String}
    {e : Event} (h : e ∈ (l.settleImport name).2.world.journal) :
    e ∈ l.world.journal ∨ ∃ id ok, e = .ran id ok := by
  have hj : (l.settleImport name).2.world = (l.evaluate name).2.world := by
    simp only [settleImport, settle, reported]
    split <;> rfl
  rw [hj] at h
  exact mem_evaluate_journal hr h

theorem has_of_settleImport {l : Loader} (hr : l.registry.Resting) {name n : String}
    (h : (l.settleImport name).2.registry.has n = true) : l.registry.has n = true := by
  have hreg : (l.settleImport name).2.registry = (l.evaluate name).2.registry := by
    simp only [settleImport, settle, reported]
    split <;> rfl
  rw [hreg] at h
  exact has_of_evaluate hr h

section Settle

variable {l : Loader} {units : List LoadedUnit} (hl : l.Orderly)
  (hu : ∀ u ∈ units, l.Arrived u)

include hl hu

theorem settle_orderly (name : String) : ((l.commit units).settleImport name).2.Orderly := by
  have hc := commit_settling l units
  have hs := hc.trans (settleImport_settling (l.commit units) name)
  have hr := (hc.registers hl.resting).resting
  have hloads := hs.releases.loads
  have hserves {id : Nat} {n : String} (h : l.Serves id n) :
      ((l.commit units).settleImport name).2.Serves id n := by
    rwa [Serves, hloads]
  have hfin {id : Nat} (h : l.isFinished id = true) :
      ((l.commit units).settleImport name).2.isFinished id = true :=
    hs.releases.evolves.isFinished h
  refine ⟨hs.releases.sound hl.sound, (hs.registers hl.resting).resting, ?_, ?_, ?_⟩
  · intro n id h
    have hold := ((hs.registers hl.resting).settling _ h).resolve_right fun h => h
    exact (hl.begun hold).imp hserves hs.releases.evolves.failed
  · intro n id h
    rcases mem_settleImport_journal hr h with h | ⟨i, ok, h⟩
    · rcases mem_commit_journal h with h | ⟨u, hm, he⟩
      · exact (hl.filed h).imp hserves hfin
      · cases he
        exact ⟨hserves ⟨_, hu u hm, rfl, rfl⟩, hfin (isFinished_iff.2 ⟨_, hu u hm⟩)⟩
    · cases h
  · intro n hn
    rw [Option.eq_none_iff_forall_ne_some]
    intro r hp
    replace hp := (settleImport_releases (l.commit units) name).pending hp
    rw [get?_commit] at hp
    split at hp
    · simp at hp
    · rename_i hnot
      rcases has_of_commit (has_of_settleImport hr hn) with h | h
      · rw [hl.apart h] at hp
        simp at hp
      · exact hnot h

/-- An import that is settled once its units are registered has displaced other loads of their
names at most. -/
theorem Imports.of_commit {a : Activity} (name : String)
    (ha : ∀ u ∈ units, u.body.load ∈ a.loads) :
    Imports a l ((l.commit units).settleImport name).1 ((l.commit units).settleImport name).2 := by
  have hc := commit_settling l units
  have hi := settleImport_settling (l.commit units) name
  have hs := hc.trans hi
  have hj := (hi.registers (hc.registers hl.resting).resting).journal
  obtain ⟨r, hr⟩ := settleImport_settled (l.commit units) name
  refine ⟨settle_orderly hl hu name, ?_, ⟨fun hf => Or.inl ?_, fun hb => Or.inl ?_⟩, ?_,
    (hs.registers hl.resting).journal, ?_⟩
  · rw [hr]
    trivial
  · rwa [Failed, hs.releases.loads] at hf
  · exact ((hs.registers hl.resting).settling _ hb).resolve_right fun h => h
  · rw [hr]
    exact fun id hid => absurd hid List.not_mem_nil
  · intro n q hp
    by_cases hn : n ∈ units.map (·.name)
    · -- the name was not registered before, so one of the units is filed under it now
      have hnot : l.registry.has n = false := by
        rw [← Bool.not_eq_true]
        intro hreg
        rw [hl.apart hreg] at hp
        simp at hp
      obtain ⟨u, hm, rfl, hnews⟩ := filed_of_commit hnot hn
      have hnews := hnews.mono hj
      refine Or.inr ?_
      by_cases hq : u.body.load = q
      · exact .filed (hq ▸ hnews.mem)
      · exact .displaced hq (ha u hm) ⟨_, hu u hm, rfl, rfl⟩ hnews
    · refine Or.inl ?_
      have hkeep : ((l.commit units).settleImport name).2.pending = (l.commit units).pending := by
        simp only [settleImport, settle, reported]
        split <;> rfl
      rw [hkeep, get?_commit, if_neg hn, hp]

end Settle

/-! ## Steps of imports -/

theorem joinAll_kept (metadata : Metadata) {l : Loader} (names : List String) {n : String}
    {id : Nat} (h : l.pending.get? n = some id) :
    (joinAll metadata l names).2.pending.get? n = some id :=
  (joinAll_joins metadata l names).preserves (P := fun l => l.pending.get? n = some id)
    (fun name h => join_kept _ name metadata h) h

theorem joinAll_held (metadata : Metadata) (l : Loader) (names : List String) :
    Touches l (joinAll metadata l names).2 [] ∧
      ∀ id ∈ (joinAll metadata l names).1.flatMap Branch.loads,
        ∃ n ∈ names, (joinAll metadata l names).2.pending.get? n = some id := by
  fun_induction joinAll metadata l names with
  | case1 l => exact ⟨.refl l [], by simp⟩
  | case2 l name rest id l₁ hj branches l₂ hr ih =>
    have ht := join_touches l name metadata
    have hp := join_pending l name metadata
    have hk := joinAll_kept metadata rest hp
    rw [hj] at ht hk
    rw [hr] at ih hk
    refine ⟨ht.trans_nil ih.1, fun i hi => ?_⟩
    simp only [List.flatMap_cons, Branch.loads, List.mem_append, List.mem_singleton] at hi
    rcases hi with rfl | hi
    · exact ⟨name, List.mem_cons_self, hk⟩
    · obtain ⟨n, hn, hp⟩ := ih.2 i hi
      exact ⟨n, List.mem_cons_of_mem _ hn, hp⟩

theorem has_of_mem_missing {l : Loader} {name n : String} (h : n ∈ l.registry.missing name) :
    l.registry.has n = false := by
  rw [Registry.has_eq_isSome, (Registry.mem_missing_iff.1 h).1]
  rfl

/-- The beginning of an import takes hold of the loads that it joins. -/
theorem startImport_holds {l : Loader} (hl : l.Sound) (specifier : String)
    (options : RequestOptions) :
    (∃ e, l.startImport specifier options = l.reject e) ∨
      (l.startImport specifier options).1.IsImport ∧
        Holds l (l.startImport specifier options).2 [] (l.startImport specifier options).1.loads := by
  rw [startImport]
  split
  · exact Or.inl ⟨_, rfl⟩
  · rename_i name hn
    refine Or.inr ?_
    simp only
    split
    · obtain ⟨ht, hh⟩ := joinAll_held (l.metadataOf options) l (l.registry.missing name)
      obtain ⟨hga, -⟩ := joinAll_spec (l.metadataOf options) l (l.registry.missing name) hl
      refine ⟨trivial, joinAll_grows _ _ _, ht, ?_, by simp, fun id hid => Or.inr ?_⟩
      · simpa [Activity.loads, Branches.loads] using hga
      · obtain ⟨n, hm, hp⟩ := hh id (by simpa [Activity.loads, Branches.loads] using hid)
        exact ⟨n, has_of_mem_missing hm, hp⟩
    · rename_i hr
      have hp := join_pending l name (l.metadataOf options)
      refine ⟨trivial, join_grows _ _ _, join_touches _ _ _, join_gains _ _ _, by simp, ?_⟩
      intro id hid
      rw [Activity.loads, List.mem_singleton] at hid
      subst hid
      exact Or.inr ⟨name, by simpa using hr, hp⟩

section Advance

variable {a a' : Activity} {l l' : Loader}

theorem branches_imports {name : String} {metadata : Metadata} {b b' : Branches}
    (h : Gathering.Step (BranchStep metadata) BranchEnds (b, l) (b', l')) (hl : l.Orderly)
    (hb : Branches.Sound l b) :
    Imports (.branches name metadata b) l (.branches name metadata b') l' := by
  have hn := h.numbered hb.numbered
  obtain ⟨branch, rest, hp, ⟨branch', hs, hp', ho⟩ | ⟨r, he, hp', ho⟩⟩ :=
    h.tasks_cases hb.numbered
  · obtain ⟨-, hh⟩ := branches_going hl.sound hb hn hp hs hp' (by rw [values, ho, values])
    exact .of_holds hh hl hb trivial
  · cases r with
    | ok g =>
      obtain ⟨-, hh⟩ := branches_ending hl.sound hb hn hp he hp' (ho.filterMap Except.toOption)
      exact .of_holds hh hl hb trivial
    | error e =>
      have hv : b'.values.Perm b.values := ho.filterMap Except.toOption
      have hf : Fades l l' b.loads := (branchEnds_fades he).mono fun id hid =>
        mem_branches_loads.2 (Or.inl ⟨branch, hp.mem_iff.2 List.mem_cons_self, hid⟩)
      refine .of_fades hf hl hb trivial ⟨e, ho.mem_iff.2 List.mem_cons_self⟩ ?_
      intro id hid
      rw [Activity.loads, mem_branches_loads] at hid ⊢
      rcases hid with ⟨x, hx, hid⟩ | ⟨g, hg, hid⟩
      · exact Or.inl ⟨x, hp.mem_iff.2 (List.mem_cons_of_mem _ (hp'.mem_iff.1 hx)), hid⟩
      · exact Or.inr ⟨g, hv.mem_iff.1 hg, hid⟩

theorem Imports.of_rejection {l₁ : Loader} {e : LoadError} (hf : Fades l l₁ a.loads)
    (hr : l₁.reject e = (a', l')) (hl : l.Orderly) (ha : a.Sound l) : Imports a l a' l' := by
  have hfr := hf.reject hr
  cases reject_settled hr
  exact .of_fades hfr hl ha trivial trivial fun id hid => absurd hid List.not_mem_nil

/-- What every step of an import does. -/
theorem advance_imports (h : Advance (a, l) (a', l')) (hl : l.Orderly) (ha : a.Sound l)
    (hi : a.IsImport) : Imports a l a' l' := by
  cases h with
  | tick => exact .of_holds (.refl l _) hl ha hi
  | scriptWaits | scriptAnswered => exact hi.elim
  | @start request _ _ _ hs =>
    obtain ⟨specifier, hd⟩ := hi
    simp only [start, hd] at hs
    have hh := startImport_holds hl.sound specifier request.options
    rw [hs] at hh
    rcases hh with ⟨e, hr⟩ | ⟨hi, hh⟩
    · exact .of_rejection (.refl l _) hr.symm hl ha
    · exact .of_holds hh hl ha hi
  | @rootWaits name metadata id _ _ hm =>
    have hs : BranchStep metadata (.root id, l) (.root id, l') := .wait hm
    exact .of_holds (branchStep_spec hs hl.sound ha).2 hl ha trivial
  | @rootFails name metadata id e _ _ l₁ _ hm hr =>
    have hf := move_fades l id
    rw [hm] at hf
    exact .of_rejection hf hr hl ha
  | @rootArrives name metadata id u task _ _ _ hm hs =>
    have hb := branchStep_spec (.arrive hm hs) hl.sound ha
    exact .of_holds hb.2 hl ha ⟨name, rfl⟩
  | @graph purpose task task' _ _ hs =>
    obtain ⟨name, rfl⟩ := hi
    have hs : BranchStep task.metadata (.loading task, l) (.loading task', l') := .graph hs
    exact .of_holds (branchStep_spec hs hl.sound ha).2 hl ha ⟨name, rfl⟩
  | @graphFails purpose task e _ _ l₁ _ he hr =>
    obtain ⟨name, rfl⟩ := hi
    have hf : BranchEnds (.loading task, l) (.error e, l₁) := .graph he
    exact .of_rejection (branchEnds_fades hf) hr hl ha
  | @graphDone purpose task g _ _ _ _ he hd =>
    obtain ⟨name, rfl⟩ := hi
    cases he with
    | complete hv =>
      obtain ⟨hu, hloads⟩ := complete_spec ha hv
      have ha : ∀ u ∈ task.graph.units,
          u.body.load ∈ (Activity.graph (.importModule name) task).loads := by
        intro u hm
        simp only [Activity.loads, hloads, List.mem_cons, List.mem_map]
        rcases List.mem_cons.1 hm with rfl | hm
        · exact Or.inl rfl
        · exact Or.inr ⟨u, hm, rfl⟩
      have hc := Imports.of_commit hl hu name ha
      change (l.commit task.graph.units).settleImport name = _ at hd
      rwa [hd] at hc
  | branches hs => exact branches_imports hs hl ha
  | branchesIdle => exact .of_holds (.refl l _) hl ha trivial
  | branchesFail hf hr => exact .of_rejection (branches_fades hf) hr hl ha
  | @branchesDone name metadata b graphs _ _ _ hv hd =>
    have hg : b.values = graphs := values_of_values? hv
    rw [commitAll_eq] at hd
    have hu : ∀ u ∈ graphs.flatMap Graph.units, l.Arrived u := by
      intro u hu
      obtain ⟨g, hm, hu⟩ := List.mem_flatMap.1 hu
      exact Branches.Sound.values ha g (hg ▸ hm) u hu
    have ha : ∀ u ∈ graphs.flatMap Graph.units,
        u.body.load ∈ (Activity.branches name metadata b).loads := by
      intro u hm
      obtain ⟨g, hm, hu⟩ := List.mem_flatMap.1 hm
      exact mem_branches_loads.2 (Or.inr ⟨g, hg ▸ hm, List.mem_map_of_mem hu⟩)
    have hc := Imports.of_commit hl hu name ha
    rwa [hd] at hc

end Advance

end ModuleLoader.Loader

import ModuleLoader.Proofs.Loader.Releases
import ModuleLoader.Proofs.Registry.Passes

/-! # Registration

Units are registered when a request has all of its graph, and bodies run when a registered module is
evaluated. The journal tells of both, and of nothing else that happens then.
-/

namespace ModuleLoader

open Dialect Relation

/-- Whether an event belongs to registration or evaluation. -/
def Event.IsSettling : Event → Prop
  | .filed _ _ => True
  | .ran _ _ => True
  | _ => False

namespace Loader

/-- What happens to registry and journal at the end of a request: units are filed, bodies run. -/
structure Registers (l l' : Loader) : Prop where
  resting : l'.registry.Resting
  journal : l.world.journal <:+ l'.world.journal
  settling : ∀ e ∈ l'.world.journal, e ∈ l.world.journal ∨ e.IsSettling

/-- What the end of a request does. No load moves, and if no record was in the middle of its
evaluation none is afterwards. -/
structure Settling (l l' : Loader) : Prop where
  releases : Releases l l'
  registers : l.registry.Resting → Registers l l'

theorem Registers.trans {l l' l'' : Loader} (h : Registers l l') (h' : Registers l' l'') :
    Registers l l'' := by
  refine ⟨h'.resting, h.journal.trans h'.journal, fun e he => ?_⟩
  rcases h'.settling e he with he | he
  · exact h.settling e he
  · exact Or.inr he

theorem Settling.trans {l l' l'' : Loader} (h : Settling l l') (h' : Settling l' l'') :
    Settling l l'' :=
  ⟨h.releases.trans h'.releases,
    fun hr => (h.registers hr).trans (h'.registers (h.registers hr).resting)⟩

/-- Nothing has happened to the registry or the journal. -/
theorem Settling.of_eq {l l' : Loader} (h : Releases l l')
    (hj : l'.world.journal = l.world.journal) (hr : l'.registry = l.registry) : Settling l l' := by
  exact ⟨h, fun hrest => ⟨hr ▸ hrest, hj ▸ List.suffix_rfl, fun e he => Or.inl (hj ▸ he)⟩⟩

theorem Settling.refl (l : Loader) : Settling l l := .of_eq (.refl l) rfl rfl

theorem reported_settling {α : Type} (l : Loader) (r : Except LoadError α) :
    Settling l (l.reported r).2 := by
  cases r <;> exact .of_eq ⟨rfl, id⟩ rfl rfl

theorem settle_settling (l : Loader) (r : Except LoadError Answer) : Settling l (l.settle r).2 :=
  reported_settling l r

/-! ## Filing units -/

theorem file_of_has {l : Loader} {u : LoadedUnit} (h : l.registry.has u.name = true) :
    l.file u = l := by
  rw [file, if_pos h]

theorem file_of_not_has {l : Loader} {u : LoadedUnit} (h : l.registry.has u.name = false) :
    l.file u = { l.note (.filed u.name u.body.load) with
      registry := l.registry.commit u.name u.record } := by
  rw [file, h]
  simp

theorem file_settling (l : Loader) (u : LoadedUnit) : Settling l (l.file u) := by
  cases h : l.registry.has u.name with
  | true =>
    rw [file_of_has h]
    exact .refl l
  | false =>
    rw [file_of_not_has h]
    refine ⟨⟨rfl, id⟩, fun hr => ⟨hr.commit ?_, List.suffix_cons _ _, ?_⟩⟩
    · simp [LoadedUnit.record, Record.waiting]
    · intro e he
      rcases List.mem_cons.1 he with rfl | he
      · exact Or.inr trivial
      · exact Or.inl he

/-- The loader after one unit of several was registered. -/
def commitOne (l : Loader) (u : LoadedUnit) : Loader :=
  { l.file u with pending := (l.file u).pending.erase u.name }

theorem commitOne_settling (l : Loader) (u : LoadedUnit) : Settling l (l.commitOne u) := by
  refine (file_settling l u).trans (.of_eq ⟨rfl, fun hp => ?_⟩ rfl rfl)
  simp only [commitOne, Dict.get?_erase] at hp
  split at hp
  · simp at hp
  · exact hp

theorem commit_settling (l : Loader) (units : List LoadedUnit) : Settling l (l.commit units) := by
  induction units generalizing l with
  | nil => exact .refl l
  | cons u rest ih => exact (commitOne_settling l u).trans (ih _)

theorem has_file (l : Loader) (u : LoadedUnit) : (l.file u).registry.has u.name = true := by
  cases h : l.registry.has u.name with
  | true => rw [file_of_has h, h]
  | false =>
    have hn : l.registry.get? u.name = none := by
      rwa [Registry.has_eq_isSome, Option.isSome_eq_false_iff, Option.isNone_iff_eq_none] at h
    simp [file_of_not_has h, Registry.has_eq_isSome, Registry.get?_commit, hn]

theorem has_file_of_has {l : Loader} {n : String} (h : l.registry.has n = true) (u : LoadedUnit) :
    (l.file u).registry.has n = true := by
  cases hu : l.registry.has u.name with
  | true => rw [file_of_has hu, h]
  | false =>
    rw [file_of_not_has hu, Registry.has_eq_isSome, Registry.get?_commit]
    split
    · rfl
    · exact h

theorem has_commit_of_has {l : Loader} {n : String} (h : l.registry.has n = true)
    (units : List LoadedUnit) : (l.commit units).registry.has n = true := by
  induction units generalizing l with
  | nil => exact h
  | cons u rest ih => exact ih (has_file_of_has h u)

theorem has_of_file {l : Loader} {u : LoadedUnit} {n : String}
    (h : (l.file u).registry.has n = true) : l.registry.has n = true ∨ n = u.name := by
  cases hu : l.registry.has u.name with
  | true =>
    rw [file_of_has hu] at h
    exact Or.inl h
  | false =>
    rw [file_of_not_has hu, Registry.has_eq_isSome, Registry.get?_commit] at h
    split at h
    · rename_i hc
      exact Or.inr hc.1
    · exact Or.inl h

/-- No other names are taken than those of the units. -/
theorem has_of_commit {l : Loader} {n : String} {units : List LoadedUnit}
    (h : (l.commit units).registry.has n = true) :
    l.registry.has n = true ∨ n ∈ units.map (·.name) := by
  induction units generalizing l with
  | nil => exact Or.inl h
  | cons u rest ih =>
    rcases ih h with h | h
    · rcases has_of_file h with h | rfl
      · exact Or.inl h
      · exact Or.inr List.mem_cons_self
    · exact Or.inr (List.mem_cons_of_mem _ h)

/-- All names of registered units are taken. -/
theorem has_commit {l : Loader} {n : String} {units : List LoadedUnit}
    (h : n ∈ units.map (·.name)) : (l.commit units).registry.has n = true := by
  induction units generalizing l with
  | nil => simp at h
  | cons u rest ih =>
    rcases List.mem_cons.1 h with hn | h
    · have ho : (l.commitOne u).registry.has n = true := hn ▸ has_file l u
      exact has_commit_of_has ho rest
    · exact ih h

theorem file_journal (l : Loader) (u : LoadedUnit) :
    l.world.journal <:+ (l.file u).world.journal := by
  cases h : l.registry.has u.name with
  | true => exact (file_of_has h).symm ▸ List.suffix_rfl
  | false => exact (file_of_not_has h).symm ▸ List.suffix_cons _ _

theorem commit_journal (l : Loader) (units : List LoadedUnit) :
    l.world.journal <:+ (l.commit units).world.journal := by
  induction units generalizing l with
  | nil => exact List.suffix_rfl
  | cons u rest ih => exact (file_journal l u).trans (ih (l.commitOne u))

/-- The latest events of a journal have an event among them. -/
def News (l l' : Loader) (e : Event) : Prop :=
  ∃ events, l'.world.journal = events ++ l.world.journal ∧ e ∈ events

theorem News.of_suffix {l l' l'' : Loader} {e : Event}
    (h : l.world.journal <:+ l'.world.journal) (h' : News l' l'' e) : News l l'' e := by
  obtain ⟨older, ho⟩ := h
  obtain ⟨events, hj, he⟩ := h'
  exact ⟨events ++ older, by rw [hj, ← ho, List.append_assoc], List.mem_append_left _ he⟩

theorem News.mono {l l' l'' : Loader} {e : Event} (h : News l l' e)
    (h' : l'.world.journal <:+ l''.world.journal) : News l l'' e := by
  obtain ⟨events, hj, he⟩ := h
  obtain ⟨later, hl⟩ := h'
  exact ⟨later ++ events, by rw [← hl, hj, List.append_assoc], List.mem_append_right _ he⟩

theorem News.mem {l l' : Loader} {e : Event} (h : News l l' e) : e ∈ l'.world.journal := by
  obtain ⟨events, hj, he⟩ := h
  rw [hj]
  exact List.mem_append_left _ he

theorem News.mem_take {l l' : Loader} {e : Event} (h : News l l' e) :
    e ∈ l'.world.journal.take (l'.world.journal.length - l.world.journal.length) := by
  obtain ⟨events, hj, he⟩ := h
  simpa [hj] using he

/-- A name that was free is taken by one of its units. -/
theorem filed_of_commit {l : Loader} {n : String} {units : List LoadedUnit}
    (hn : l.registry.has n = false) (h : n ∈ units.map (·.name)) :
    ∃ u ∈ units, u.name = n ∧ News l (l.commit units) (.filed n u.body.load) := by
  induction units generalizing l with
  | nil => simp at h
  | cons u rest ih =>
    by_cases hu : u.name = n
    · refine ⟨u, List.mem_cons_self, hu, News.mono ?_ (commit_journal (l.commitOne u) rest)⟩
      rw [← hu] at hn ⊢
      refine ⟨[.filed u.name u.body.load], ?_, List.mem_singleton_self _⟩
      rw [commitOne, file_of_not_has hn]
      rfl
    · have hm : n ∈ rest.map (·.name) := (List.mem_cons.1 h).resolve_left fun h => hu h.symm
      have hn' : (l.commitOne u).registry.has n = false := by
        cases hu' : l.registry.has u.name with
        | true => rw [commitOne, file_of_has hu', hn]
        | false =>
          rw [commitOne, file_of_not_has hu', Registry.has_eq_isSome, Registry.get?_commit,
            if_neg fun hc => hu hc.1.symm]
          exact hn
      obtain ⟨v, hv, hvn, hf⟩ := ih hn' hm
      exact ⟨v, List.mem_cons_of_mem _ hv, hvn, hf.of_suffix (file_journal l u)⟩

/-- All that is filed are the units. -/
theorem mem_commit_journal {l : Loader} {units : List LoadedUnit} {e : Event}
    (h : e ∈ (l.commit units).world.journal) :
    e ∈ l.world.journal ∨ ∃ u ∈ units, e = .filed u.name u.body.load := by
  induction units generalizing l with
  | nil => exact Or.inl h
  | cons u rest ih =>
    rcases ih h with h | ⟨v, hv, rfl⟩
    · change e ∈ (l.file u).world.journal at h
      cases hu : l.registry.has u.name with
      | true =>
        rw [file_of_has hu] at h
        exact Or.inl h
      | false =>
        rw [file_of_not_has hu] at h
        rcases List.mem_cons.1 h with rfl | h
        · exact Or.inr ⟨u, List.mem_cons_self, rfl⟩
        · exact Or.inl h
    · exact Or.inr ⟨v, List.mem_cons_of_mem _ hv, rfl⟩

/-! ## Evaluation -/

/-- The journal after some runs. -/
def RanSince (journal : List Event) (w : World) : Prop :=
  journal <:+ w.journal ∧ ∀ e ∈ w.journal, e ∈ journal ∨ ∃ id ok, e = .ran id ok

theorem RanSince.run {journal : List Event} {w : World} (h : RanSince journal w) (body : Body)
    (imports : Imports) : RanSince journal (World.run body imports w).2 := by
  refine ⟨h.1.trans (List.suffix_cons _ _), fun e he => ?_⟩
  rcases List.mem_cons.1 he with rfl | he
  · exact Or.inr ⟨_, _, rfl⟩
  · exact h.2 e he

theorem ranSince_of_tends {l : Loader} {q : Registry.Pass Body World}
    (h : Registry.Tends World.run l.registry l.world q) : RanSince l.world.journal q.world :=
  h.world (RanSince l.world.journal) ⟨List.suffix_rfl, fun _ => Or.inl⟩
    fun body imports _ hw => hw.run body imports

theorem registers_of_tends {l : Loader} {q : Registry.Pass Body World}
    (h : Registry.Tends World.run l.registry l.world q) :
    Registers l { l with registry := q.registry, world := q.world } := by
  obtain ⟨hj, hs⟩ := ranSince_of_tends h
  refine ⟨h.resting, hj, fun e he => (hs e he).imp_right ?_⟩
  rintro ⟨id, ok, rfl⟩
  trivial

/-- Evaluation only runs bodies. -/
theorem mem_evaluate_journal {l : Loader} (hr : l.registry.Resting) {name : String} {e : Event}
    (h : e ∈ (l.evaluate name).2.world.journal) :
    e ∈ l.world.journal ∨ ∃ id ok, e = .ran id ok :=
  (ranSince_of_tends (Registry.evaluate_tends hr name)).2 e h

/-- The evaluation of a registered module, below which nothing is missing and nothing is cyclic,
comes to its namespace unless a body fails. -/
theorem evaluate_cases {l : Loader} (hr : l.registry.Resting) {name : String}
    (hn : l.registry.get? name ≠ none) :
    (∃ y ∈ l.registry.missing name,
      (l.evaluate name).1 = .error (.instantiate name (.dependencyNotLoaded y))) ∨
    l.registry.missing name = [] ∧
      ((∃ ns, (l.evaluate name).1 = .ok ns ∧
        ((l.evaluate name).2.registry.get? name).bind Record.namespace? = some ns) ∨
      (∃ x, ReflTransGen l.registry.Needs name x ∧ TransGen l.registry.Needs x x) ∨
      ∃ id, News l (l.evaluate name).2 (.ran id false)) := by
  have h := Registry.evaluate_evaluated World.run hr l.world name
  simp only [evaluate]
  generalize l.registry.evaluate World.run l.world name = out at h
  cases h with
  | unknown hg => exact absurd hg hn
  | missing hy => exact Or.inl ⟨_, hy, rfl⟩
  | ok hm _ hns => exact Or.inr ⟨hm, Or.inl ⟨_, rfl, hns⟩⟩
  | @fault e s path marked world' hm hrows _ hf =>
    refine Or.inr ⟨hm, Or.inr ?_⟩
    cases hf with
    | missing hreach hg =>
      obtain ⟨x, hx, hreach⟩ := hreach
      rw [List.mem_singleton] at hx
      subst hx
      have hy := Registry.mem_missing_iff.2 ⟨hg, hreach⟩
      simp [hm] at hy
    | cyclic hreach hc =>
      obtain ⟨x, hx, hreach⟩ := hreach
      rw [List.mem_singleton] at hx
      subst hx
      exact Or.inl ⟨_, hreach, hc⟩
    | @body _ _ body imports _ _ _ hrun =>
      obtain ⟨events, he⟩ := (ranSince_of_tends (Registry.tends_of_rows hr hrows)).1
      refine Or.inr ⟨body.load, .ran body.load false :: events, ?_, List.mem_cons_self⟩
      simp only [World.run, Prod.mk.injEq] at hrun
      rw [List.cons_append, he, ← hrun.2, hrun.1]
      rfl

theorem evaluate_settling (l : Loader) (name : String) : Settling l (l.evaluate name).2 :=
  ⟨evaluate_releases l name, fun hr => registers_of_tends (Registry.evaluate_tends hr name)⟩

/-- Evaluation registers nothing. -/
theorem has_of_evaluate {l : Loader} (hr : l.registry.Resting) {name n : String}
    (h : (l.evaluate name).2.registry.has n = true) : l.registry.has n = true := by
  have ht := (Registry.evaluate_tends hr name : Registry.Tends World.run l.registry l.world _)
  rw [Registry.has_eq_isSome, Option.isSome_iff_exists] at h ⊢
  obtain ⟨record, hg⟩ := h
  obtain ⟨record', hg', -⟩ := ht.known hg
  exact ⟨record', hg'⟩

theorem evaluateDetached_settling (l : Loader) (u : LoadedUnit) :
    Settling l (l.evaluateDetached u).2 :=
  ⟨evaluateDetached_releases l u,
    fun hr => registers_of_tends (Registry.evaluateDetached_tends hr u.name u.dependencies u.body)⟩

theorem settleImport_settling (l : Loader) (name : String) : Settling l (l.settleImport name).2 :=
  (evaluate_settling l name).trans (settle_settling _ _)

theorem settleDefine_settling (l : Loader) (name : String) (mode : Option ModuleMode)
    (g : Graph) : Settling l (l.settleDefine name mode g).2 := by
  have hu (l : Loader) : Settling l (l.unclaim name) := .of_eq ⟨rfl, id⟩ rfl rfl
  rw [settleDefine]
  split
  · exact (hu l).trans (settle_settling _ _)
  · have hc := (file_settling l g.root).trans (commit_settling _ g.below)
    simp only
    split
    · exact hc.trans ((hu _).trans (settle_settling _ _))
    · exact ((hc.trans (evaluate_settling _ name)).trans (hu _)).trans (settle_settling _ _)

theorem settleGraph_settling (l : Loader) (purpose : Purpose) (g : Graph) :
    Settling l (l.settleGraph purpose g).2 := by
  cases purpose with
  | importModule name => exact (commit_settling l g.units).trans (settleImport_settling _ name)
  | define name mode => exact settleDefine_settling l name mode g
  | module =>
    exact (commit_settling l g.below).trans
      ((evaluateDetached_settling _ g.root).trans (settle_settling _ _))

end Loader

end ModuleLoader

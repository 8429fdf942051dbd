import ModuleLoader.Proofs.Loader.Growth

/-! # Releases

When a request ends, pending loads are released: all names of a graph that is registered, and those
of a graph that failed whose loads have ended. No load moves meanwhile.
-/

namespace ModuleLoader.Loader

/-- The pending table has lost entries, and no load has moved. -/
structure Releases (l l' : Loader) : Prop where
  loads : l'.loads = l.loads
  pending : ∀ {n id}, l'.pending.get? n = some id → l.pending.get? n = some id

theorem Releases.refl (l : Loader) : Releases l l := ⟨rfl, id⟩

theorem Releases.trans {l l' l'' : Loader} (h : Releases l l') (h' : Releases l' l'') :
    Releases l l'' :=
  ⟨h'.loads.trans h.loads, fun hp => h.pending (h'.pending hp)⟩

theorem Releases.evolves {l l' : Loader} (h : Releases l l') : Evolves l l' :=
  fun id st hst => ⟨st, by rw [h.loads, hst], .refl _ _⟩

theorem Releases.sound {l l' : Loader} (h : Releases l l') (hl : l.Sound) : l'.Sound := by
  constructor
  · intro id u hu
    rw [h.loads] at hu
    exact hl.own hu
  · intro n id hp
    obtain ⟨st, hst, hs⟩ := hl.pending (h.pending hp)
    exact ⟨st, by rw [h.loads, hst], hs⟩

theorem isFinished_eq_false_iff {l : Loader} {id : Nat} :
    l.isFinished id = false ↔ ∀ r, l.loads[id]? ≠ some (.finished r) := by
  rw [isFinished]
  split
  · rename_i r h
    simp [h]
  · rename_i h
    simpa using h

/-- One name released from a pending table. -/
def releaseName (l : Loader) (pending : Dict Nat) (name : String) : Dict Nat :=
  match pending.get? name with
  | some id => if l.isFinished id then pending.erase name else pending
  | none => pending

theorem get?_releaseName (l : Loader) (pending : Dict Nat) (name n : String) :
    (l.releaseName pending name).get? n =
      if n = name then (pending.get? n).filter fun id => !l.isFinished id
      else pending.get? n := by
  rw [releaseName]
  split
  · rename_i id hp
    cases hf : l.isFinished id with
    | true =>
      rw [if_pos rfl, Dict.get?_erase]
      split
      · rename_i hn
        rw [hn, hp]
        simp [Option.filter, hf]
      · rfl
    | false =>
      simp only [Bool.false_eq_true, if_false]
      split
      · rename_i hn
        rw [hn, hp]
        simp [Option.filter, hf]
      · rfl
  · rename_i hp
    split
    · rename_i hn
      rw [hn, hp]
      rfl
    · rfl

theorem get?_release (l : Loader) (names : List String) (n : String) :
    (l.release names).pending.get? n = if n ∈ names then
      (l.pending.get? n).filter fun id => !l.isFinished id else l.pending.get? n := by
  change (names.foldl l.releaseName l.pending).get? n = _
  generalize l.pending = pending
  induction names generalizing pending with
  | nil => simp
  | cons name rest ih =>
    rw [List.foldl_cons, ih, get?_releaseName]
    by_cases hn : n = name
    · subst hn
      simp
    · simp [hn]

theorem release_releases (l : Loader) (names : List String) : Releases l (l.release names) := by
  refine ⟨rfl, fun {n id} hp => ?_⟩
  rw [get?_release] at hp
  split at hp
  · exact (Option.filter_eq_some_iff.1 hp).1
  · exact hp

theorem reported_releases {α : Type} (l : Loader) (r : Except LoadError α) :
    Releases l (l.reported r).2 := by
  cases r <;> exact ⟨rfl, id⟩

theorem settle_releases (l : Loader) (r : Except LoadError Answer) :
    Releases l (l.settle r).2 :=
  reported_releases l r

theorem file_releases (l : Loader) (u : LoadedUnit) : Releases l (l.file u) := by
  rw [file]
  split
  · exact .refl l
  · exact ⟨rfl, id⟩

theorem commit_cons (l : Loader) (u : LoadedUnit) (units : List LoadedUnit) :
    l.commit (u :: units) =
      commit { l.file u with pending := (l.file u).pending.erase u.name } units :=
  rfl

theorem file_pending (l : Loader) (u : LoadedUnit) : (l.file u).pending = l.pending := by
  rw [file]
  split <;> rfl

theorem get?_commit (l : Loader) (units : List LoadedUnit) (n : String) :
    (l.commit units).pending.get? n =
      if n ∈ units.map (·.name) then none else l.pending.get? n := by
  induction units generalizing l with
  | nil => simp [commit]
  | cons u rest ih =>
    rw [commit_cons, ih]
    simp only [file_pending, Dict.get?_erase, List.map_cons, List.mem_cons]
    by_cases hn : n = u.name
    · simp [hn]
    · simp [hn]

theorem commit_releases (l : Loader) (units : List LoadedUnit) :
    Releases l (l.commit units) := by
  constructor
  · induction units generalizing l with
    | nil => rfl
    | cons u rest ih =>
      rw [commit_cons, ih]
      exact (file_releases l u).loads
  · intro n id hp
    rw [get?_commit] at hp
    split at hp
    · simp at hp
    · exact hp

theorem commitAll_eq (l : Loader) (graphs : List Graph) :
    graphs.foldl (fun l g => l.commit g.units) l = l.commit (graphs.flatMap Graph.units) := by
  simp only [commit, List.foldl_flatMap]

theorem evaluate_releases (l : Loader) (name : String) : Releases l (l.evaluate name).2 :=
  ⟨rfl, id⟩

theorem evaluateDetached_releases (l : Loader) (u : LoadedUnit) :
    Releases l (l.evaluateDetached u).2 :=
  ⟨rfl, id⟩

/-! ## Requests that end -/

theorem settle_settled (l : Loader) (r : Except LoadError Answer) :
    (l.settle r).1 = .settled r := by
  cases r <;> rfl

theorem reject_settled {l l' : Loader} {e : LoadError} {a : Activity}
    (h : l.reject e = (a, l')) : a = .settled (.error e) := by
  have hs := settle_settled l (.error e)
  rw [reject] at h
  rw [h] at hs
  exact hs

theorem reject_releases {l l' : Loader} {e : LoadError} {a : Activity}
    (h : l.reject e = (a, l')) : Releases l l' := by
  have hs := settle_releases l (.error e)
  rw [reject] at h
  rw [h] at hs
  exact hs

theorem receiveScript_settled (l : Loader) (load : Load) (address : String) :
    ∃ r, (l.receiveScript load address).1 = .settled r := by
  rw [receiveScript]
  split
  · exact ⟨_, settle_settled _ _⟩
  · exact ⟨_, settle_settled _ _⟩

theorem settleImport_releases (l : Loader) (name : String) :
    Releases l (l.settleImport name).2 :=
  (evaluate_releases l name).trans (settle_releases _ _)

theorem rejectGraph_releases (l : Loader) (purpose : Purpose) (e : LoadError) :
    Releases l (l.rejectGraph purpose e).2 := by
  cases purpose <;> exact ⟨rfl, id⟩

theorem rejectGraph_settled (l : Loader) (purpose : Purpose) (e : LoadError) :
    (l.rejectGraph purpose e).1 = .settled (.error e) := by
  cases purpose <;> rfl

theorem settleImport_eq (l : Loader) (name : String) :
    ∃ l', l.settleImport name = (.settled ((l.evaluate name).1.map .exports), l') ∧
      l'.registry = (l.evaluate name).2.registry ∧ l'.world = (l.evaluate name).2.world := by
  rw [settleImport]
  obtain ⟨r, l'⟩ := l.evaluate name
  cases r <;> exact ⟨_, rfl, rfl, rfl⟩

theorem settleImport_settled (l : Loader) (name : String) :
    ∃ r, (l.settleImport name).1 = .settled r :=
  ⟨_, settle_settled _ _⟩

theorem unclaim_releases (l : Loader) (name : String) : Releases l (l.unclaim name) :=
  ⟨rfl, id⟩

theorem settleDefine_releases (l : Loader) (name : String) (mode : Option ModuleMode) (g : Graph) :
    Releases l (l.settleDefine name mode g).2 := by
  rw [settleDefine]
  split
  · exact ⟨rfl, id⟩
  · have hc := (file_releases l g.root).trans (commit_releases _ g.below)
    simp only
    split
    · exact hc.trans ((unclaim_releases _ name).trans (settle_releases _ _))
    · exact ((hc.trans (evaluate_releases _ name)).trans (unclaim_releases _ name)).trans
        (settle_releases _ _)

theorem settleGraph_settled (l : Loader) (purpose : Purpose) (g : Graph) :
    ∃ r, (l.settleGraph purpose g).1 = .settled r := by
  cases purpose with
  | importModule name => exact settleImport_settled _ name
  | module => exact ⟨_, settle_settled _ _⟩
  | define name mode =>
    rw [settleGraph, settleDefine]
    split
    · exact ⟨_, settle_settled _ _⟩
    · simp only
      split
      · exact ⟨_, settle_settled _ _⟩
      · exact ⟨_, settle_settled _ _⟩

theorem settleGraph_releases (l : Loader) (purpose : Purpose) (g : Graph) :
    Releases l (l.settleGraph purpose g).2 := by
  cases purpose with
  | importModule name => exact (commit_releases l g.units).trans (settleImport_releases _ name)
  | define name mode => exact settleDefine_releases l name mode g
  | module =>
    exact (commit_releases l g.below).trans
      ((evaluateDetached_releases _ g.root).trans (settle_releases _ _))

end ModuleLoader.Loader

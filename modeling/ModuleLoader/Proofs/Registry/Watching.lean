import ModuleLoader.Proofs.Loader.Deeds

/-! # Watched evaluations

An evaluation does the same when each body also sees the registry in which it starts, as long as it
does not act on what it sees. So a recorder can keep for each run of a body what it has found.
-/

namespace ModuleLoader.Registry

open Dialect

variable {β σ τ : Type}

/-- Run a body with its imports in a world, in sight of the registry. -/
abbrev Watcher (β σ : Type) := Registry β → Runner β σ

/-- A visit whose bodies run in sight of the registry. -/
def watchedVisit (watch : Watcher β σ) : Nat → List String → String → Record β → Pass β σ →
    Except LoadError Namespace × Pass β σ
  | 0, _, name, _, p => (.error (.instantiate name .notLoaded), p)
  | depth + 1, path, name, record, p =>
    match record.slot with
    | .evaluated ns => (.ok ns, p)
    | .evaluating => (.error (.instantiate name (.cyclic (cycle path name))), p)
    | .waiting body =>
      let entered : Pass β σ := { p with registry := p.registry.setSlot name .evaluating }
      match importAll (watchedVisit watch depth (path ++ [name])) name .empty entered
          record.dependencies with
      | (.error e, p) => (.error e, p)
      | (.ok imports, p) =>
        match watch p.registry body imports p.world with
        | (.error e, world) => (.error e, { p with world := world })
        | (.ok ns, world) => (.ok ns, ⟨p.registry.setSlot name (.evaluated ns), world⟩)

/-- An evaluation of a name whose bodies run in sight of the registry. -/
def watchedEvaluate (watch : Watcher β σ) (r : Registry β) (world : σ) (name : String) :
    Except LoadError Namespace × Pass β σ :=
  match r.get? name with
  | none => (.error (.instantiate name .notLoaded), ⟨r, world⟩)
  | some record =>
    match record.slot with
    | .evaluated ns => (.ok ns, ⟨r, world⟩)
    | _ => r.guarded world name record (watchedVisit watch (r.size + 1) [] name record)

/-- An evaluation of a body that is not registered, in sight of the registry. -/
def watchedDetached (watch : Watcher β σ) (r : Registry β) (world : σ) (name : String)
    (dependencies : List Dependency) (body : β) : Except LoadError Namespace × Pass β σ :=
  r.guarded world name (.waiting none dependencies body) fun p =>
    match importAll (watchedVisit watch (r.size + 1) [name]) name .empty p dependencies with
    | (.error e, p) => (.error e, p)
    | (.ok imports, p) =>
      match watch p.registry body imports p.world with
      | (result, world) => (result, { p with world := world })

/-! ## Watching changes nothing -/

/-- The pass with what is kept of its world. -/
def Pass.map (f : τ → σ) (p : Pass β τ) : Pass β σ := ⟨p.registry, f p.world⟩

/-- What a watcher sees does not change what a body does to the part of the world that is kept. -/
def Watches (f : τ → σ) (watch : Watcher β τ) (run : Runner β σ) : Prop :=
  ∀ r body imports world,
    Prod.map id f (watch r body imports world) = run body imports (f world)

section Kept

variable {f : τ → σ} {watch : Watcher β τ} {run : Runner β σ}

theorem map_importAll {visit : String → Record β → Pass β τ → Except LoadError Namespace × Pass β τ}
    {visit' : String → Record β → Pass β σ → Except LoadError Namespace × Pass β σ}
    (hv : ∀ name record p,
      Prod.map id (Pass.map f) (visit name record p) = visit' name record (p.map f))
    (importer : String) (imports : Imports) (p : Pass β τ) (dependencies : List Dependency) :
    Prod.map id (Pass.map f) (importAll visit importer imports p dependencies) =
      importAll visit' importer imports (p.map f) dependencies := by
  induction dependencies generalizing imports p with
  | nil => rfl
  | cons d rest ih =>
    rw [importAll, importAll]
    show _ = match p.registry.get? d.name with
      | none => _
      | some record => _
    cases p.registry.get? d.name with
    | none => rfl
    | some record =>
      have hd := hv d.name record p
      rcases hr : visit d.name record p with ⟨result, q⟩
      rw [hr] at hd
      simp only [← hd, hr, Prod.map_apply, id_eq]
      cases result with
      | error e => rfl
      | ok ns => exact ih _ _

theorem map_watchedVisit (hw : Watches f watch run) (depth : Nat) (path : List String)
    (name : String) (record : Record β) (p : Pass β τ) :
    Prod.map id (Pass.map f) (watchedVisit watch depth path name record p) =
      visit run depth path name record (p.map f) := by
  induction depth generalizing path name record p with
  | zero => rfl
  | succ depth ih =>
    rw [watchedVisit, visit]
    cases record.slot with
    | evaluated ns => rfl
    | evaluating => rfl
    | waiting body =>
      have himp := map_importAll (f := f) (ih (path ++ [name])) name .empty
        { p with registry := p.registry.setSlot name .evaluating } record.dependencies
      simp only [Pass.map] at himp ⊢
      rcases hi : importAll (watchedVisit watch depth (path ++ [name])) name .empty
        { p with registry := p.registry.setSlot name .evaluating } record.dependencies
        with ⟨result, q⟩
      rw [hi] at himp
      simp only [← himp, Prod.map_apply, id_eq]
      cases result with
      | error e => rfl
      | ok imports =>
        have hb := hw q.registry body imports q.world
        rcases hr : watch q.registry body imports q.world with ⟨result, world⟩
        rw [hr] at hb
        simp only [Pass.map, hr, ← hb, Prod.map_apply, id_eq]
        cases result <;> rfl

theorem map_guarded {pass : Pass β τ → Except LoadError Namespace × Pass β τ}
    {pass' : Pass β σ → Except LoadError Namespace × Pass β σ}
    (hp : ∀ p, Prod.map id (Pass.map f) (pass p) = pass' (p.map f)) (r : Registry β) (world : τ)
    (name : String) (record : Record β) :
    Prod.map id (Pass.map f) (r.guarded world name record pass) =
      r.guarded (f world) name record pass' := by
  rw [guarded, guarded]
  cases r.missingFor name record with
  | cons first rest => rfl
  | nil =>
    have h := hp ⟨r, world⟩
    rcases hr : pass ⟨r, world⟩ with ⟨result, q⟩
    rw [hr, Pass.map] at h
    simp only [← h, Prod.map_apply, id_eq]
    cases result <;> rfl

theorem map_watchedEvaluate (hw : Watches f watch run) (r : Registry β) (world : τ)
    (name : String) :
    Prod.map id (Pass.map f) (r.watchedEvaluate watch world name) =
      r.evaluate run (f world) name := by
  have hg (record : Record β) := map_guarded
    (map_watchedVisit hw (r.size + 1) [] name record) r world name record
  rw [watchedEvaluate, evaluate]
  cases r.get? name with
  | none => rfl
  | some record =>
    simp only
    cases record.slot with
    | evaluated ns => rfl
    | evaluating | waiting => exact hg record

theorem map_watchedDetached (hw : Watches f watch run) (r : Registry β) (world : τ) (name : String)
    (dependencies : List Dependency) (body : β) :
    Prod.map id (Pass.map f) (r.watchedDetached watch world name dependencies body) =
      r.evaluateDetached run (f world) name dependencies body := by
  refine map_guarded (fun p => ?_) r world name _
  have himp := map_importAll (f := f) (map_watchedVisit hw (r.size + 1) [name]) name .empty p
    dependencies
  rcases hi : importAll (watchedVisit watch (r.size + 1) [name]) name .empty p dependencies with
    ⟨result, q⟩
  rw [hi] at himp
  simp only [← himp, Prod.map_apply, id_eq]
  cases result with
  | error e => rfl
  | ok imports =>
    have hb := hw q.registry body imports q.world
    rcases hr : watch q.registry body imports q.world with ⟨result, world⟩
    rw [hr] at hb
    simp only [Pass.map, hr, ← hb, Prod.map_apply, id_eq]

end Kept

end ModuleLoader.Registry

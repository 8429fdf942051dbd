import ModuleLoader.Proofs.Dialect.UnitNames
import ModuleLoader.Registry.Evaluation

/-! # Detached evaluation

A body that is evaluated apart from the registry does the same as one that has a record in it, if no
record depends on that one: the same bodies run below it, with the same results, in the same order.
-/

namespace ModuleLoader.Registry

open Dialect

variable {β σ : Type}

/-- Two registries agree, but for the record of one name. -/
def AgreeBut (y : String) (r r' : Registry β) : Prop :=
  ∀ n, n ≠ y → r'.get? n = r.get? n

/-- No dependency has a name. -/
def Avoids (dependencies : List Dependency) (y : String) : Prop := ∀ d ∈ dependencies, d.name ≠ y

/-- No record but its own depends on a name. -/
def Aside (r : Registry β) (y : String) : Prop :=
  ∀ n, n ≠ y → ∀ record, r.get? n = some record → Avoids record.dependencies y

/-- Runs of a body in related worlds match. -/
def Runs (W : σ → σ → Prop) (run : Runner β σ) (body body' : β) : Prop :=
  ∀ imports {w w'}, W w w' → Matching (· = ·) (run body imports w).1 (run body' imports w').1 ∧
    W (run body imports w).2 (run body' imports w').2

/-! ## Missing names -/

theorem mem_needs {record : Record β} {n : String} (h : n ∈ needs record) :
    n ∈ record.dependencies.map Dependency.name := by
  rw [needs] at h
  split at h
  · simp at h
  · exact h

theorem Avoids.not_mem {dependencies : List Dependency} {y : String} (h : Avoids dependencies y) :
    y ∉ dependencies.map Dependency.name := by
  intro hn
  obtain ⟨d, hd, hy⟩ := List.mem_map.1 hn
  exact h d hd hy

theorem not_mem_needs_append {record : Record β} {y : String} {rest : List String}
    (h : Avoids record.dependencies y) (hr : y ∉ rest) : y ∉ needs record ++ rest := by
  rw [List.mem_append, not_or]
  exact ⟨fun hn => h.not_mem (mem_needs hn), hr⟩

/-- The search finds the same if it starts from records that depend on neither of two names. -/
theorem search_congr {r r' : Registry β} {x y : String} (h : AgreeBut y r r') (hx : r.Aside x)
    (hy : r.Aside y) (seen seen' : List String)
    (hs : ∀ n, n ≠ x → n ≠ y → (n ∈ seen' ↔ n ∈ seen)) (missing : Dict Unit) {todo : List String}
    (htx : x ∉ todo) (hty : y ∉ todo) :
    r'.search seen' missing todo = r.search seen missing todo := by
  fun_induction search r seen missing todo generalizing seen' with
  | case1 seen missing => rw [search]
  | case2 seen missing name rest hseen ih =>
    rw [List.mem_cons, not_or] at htx hty
    rw [search, dif_pos ((hs name (Ne.symm htx.1) (Ne.symm hty.1)).2 hseen)]
    exact ih seen' hs htx.2 hty.2
  | case3 seen missing name rest hseen record hg ih =>
    rw [List.mem_cons, not_or] at htx hty
    have hnx := Ne.symm htx.1
    have hny := Ne.symm hty.1
    have hseen' : name ∉ seen' := fun hm => hseen ((hs name hnx hny).1 hm)
    rw [search, dif_neg hseen']
    have hg' := (h name hny).trans hg
    split
    · rename_i record' hr'
      obtain rfl : record' = record := Option.some.inj (hr'.symm.trans hg')
      apply ih
      · intro n hx hy
        simp only [List.mem_cons, hs n hx hy]
      · exact not_mem_needs_append (hx name hnx record' hg) htx.2
      · exact not_mem_needs_append (hy name hny record' hg) hty.2
    · rename_i hr'
      cases hr'.symm.trans hg'
  | case4 seen missing name rest hseen hg ih =>
    rw [List.mem_cons, not_or] at htx hty
    have hnx := Ne.symm htx.1
    have hny := Ne.symm hty.1
    have hseen' : name ∉ seen' := fun hm => hseen ((hs name hnx hny).1 hm)
    rw [search, dif_neg hseen']
    have hg' := (h name hny).trans hg
    split
    · rename_i record' hr'
      cases hr'.symm.trans hg'
    · apply ih
      · intro n hx hy
        simp only [List.mem_cons, hs n hx hy]
      · exact htx.2
      · exact hty.2

/-! ## Passes -/

section Pass

variable {W : σ → σ → Prop} {run : Runner β σ} {y : String} {root : Record β} {p p' : Pass β σ}

/-- Two passes have come equally far. The second registry has a record of its own. -/
structure Alongside (W : σ → σ → Prop) (y : String) (root : Record β) (p p' : Pass β σ) :
    Prop where
  agree : AgreeBut y p.registry p'.registry
  aside : p.registry.Aside y
  root : p'.registry.get? y = some root
  world : W p.world p'.world

/-- Two passes have come to the same. -/
def Together {α : Type} (W : σ → σ → Prop) (y : String) (root : Record β)
    (c c' : Except LoadError α × Pass β σ) : Prop :=
  Matching (· = ·) c.1 c'.1 ∧ Alongside W y root c.2 c'.2

theorem Together.cases {α : Type} {c c' : Except LoadError α × Pass β σ}
    (h : Together W y root c c') :
    (∃ a q q', c = (.ok a, q) ∧ c' = (.ok a, q') ∧ Alongside W y root q q') ∨
      ∃ e e' q q', c = (.error e, q) ∧ c' = (.error e', q') ∧ e.kind = e'.kind ∧
        Alongside W y root q q' := by
  obtain ⟨result, q⟩ := c
  obtain ⟨result', q'⟩ := c'
  obtain ⟨hm, ha⟩ := h
  cases hm with
  | @ok a b heq =>
    subst heq
    exact Or.inl ⟨a, q, q', rfl, rfl, ha⟩
  | @error e e' he => exact Or.inr ⟨e, e', q, q', rfl, rfl, he, ha⟩

theorem Alongside.setSlot (h : Alongside W y root p p') {name : String} (hn : name ≠ y)
    (slot : Slot β) {w w' : σ} (hw : W w w') : Alongside W y root
      ⟨p.registry.setSlot name slot, w⟩ ⟨p'.registry.setSlot name slot, w'⟩ := by
  constructor
  · intro n hny
    rw [get?_setSlot, get?_setSlot, h.agree name hn, h.agree n hny]
  · intro n hny record hg
    rw [get?_setSlot] at hg
    split at hg
    · rw [Option.map_eq_some_iff] at hg
      obtain ⟨before, hb, rfl⟩ := hg
      exact h.aside name hn before hb
    · exact h.aside n hny record hg
  · rw [get?_setSlot, if_neg (Ne.symm hn)]
    exact h.root
  · exact hw

/-- Importing the same dependencies in two passes comes to the same if visiting does. -/
theorem importAll_together {visit visit' : String → Record β → Pass β σ →
      Except LoadError Namespace × Pass β σ}
    (hvisit : ∀ {name record p p'}, name ≠ y → Avoids record.dependencies y →
      Alongside W y root p p' → Together W y root (visit name record p) (visit' name record p'))
    {dependencies : List Dependency} (hd : Avoids dependencies y) (importer importer' : String)
    (imports : Imports) (h : Alongside W y root p p') :
    Together W y root (importAll visit importer imports p dependencies)
      (importAll visit' importer' imports p' dependencies) := by
  induction dependencies generalizing imports p p' with
  | nil => exact ⟨.ok rfl, h⟩
  | cons d rest ih =>
    have hdy : d.name ≠ y := hd d (by simp)
    rw [importAll, importAll, h.agree d.name hdy]
    cases hg : p.registry.get? d.name with
    | none => exact ⟨.error rfl, h⟩
    | some record =>
      simp only
      rcases (hvisit hdy (h.aside d.name hdy record hg) h).cases with
        ⟨ns, q, q', hv, hv', ha⟩ | ⟨e, e', q, q', hv, hv', he, ha⟩
      · rw [hv, hv']
        exact ih (fun d hmem => hd d (by simp [hmem])) _ ha
      · rw [hv, hv']
        exact ⟨.error he, ha⟩

/-- Visiting a record does not depend on the path to it, but for the wording of a cycle. -/
theorem visit_together (hrun : ∀ body, Runs W run body body) (depth : Nat)
    {path path' : List String} {name : String} (hn : name ≠ y) {record : Record β}
    (hd : Avoids record.dependencies y) (h : Alongside W y root p p') :
    Together W y root (visit run depth path name record p)
      (visit run depth path' name record p') := by
  induction depth generalizing path path' name record p p' with
  | zero => exact ⟨.error rfl, h⟩
  | succ depth ih =>
    rw [visit, visit]
    cases record.slot with
    | evaluated ns => exact ⟨.ok rfl, h⟩
    | evaluating => exact ⟨.error rfl, h⟩
    | waiting body =>
      have hvisit {n : String} {record : Record β} {q q' : Pass β σ} (hn : n ≠ y)
          (hd : Avoids record.dependencies y) (h : Alongside W y root q q') :
          Together W y root (visit run depth (path ++ [name]) n record q)
            (visit run depth (path' ++ [name]) n record q') :=
        ih hn hd h
      have himports := importAll_together hvisit hd name name .empty
        (h.setSlot hn .evaluating h.world)
      simp only
      rcases himports.cases with ⟨imports, q, q', hi, hi', ha⟩ | ⟨e, e', q, q', hi, hi', he, ha⟩
      · rw [hi, hi']
        obtain ⟨hm, hw⟩ := hrun body imports ha.world
        rcases hr : run body imports q.world with ⟨result, w⟩
        rcases hr' : run body imports q'.world with ⟨result', w'⟩
        rw [hr, hr'] at hm hw
        simp only [hr, hr']
        cases hm with
        | @ok ns ns' heq =>
          subst heq
          exact ⟨.ok rfl, ha.setSlot hn (.evaluated ns) hw⟩
        | error he => exact ⟨.error he, { ha with world := hw }⟩
      · rw [hi, hi']
        exact ⟨.error he, ha⟩

end Pass

/-! ## A body apart and a body with a record -/

section Root

variable {W : σ → σ → Prop} {run : Runner β σ} {x y : String} {r r' : Registry β} {w w' : σ}
  {address : Option String} {dependencies : List Dependency} {body body' : β}

theorem missingFor_congr (h : AgreeBut y r r') (hx : r.Aside x) (hy : r.Aside y)
    (hdx : Avoids dependencies x) (hdy : Avoids dependencies y) (address' : Option String) :
    r'.missingFor y (.waiting address dependencies body') =
      r.missingFor x (.waiting address' dependencies body) := by
  have hneeds (a : Option String) (b : β) :
      needs (Record.waiting a dependencies b) = dependencies.map Dependency.name := rfl
  rw [missingFor, missingFor, hneeds, hneeds]
  rw [search_congr h hx hy [x] [y] ?_ .empty hdx.not_mem hdy.not_mem]
  intro n hnx hny
  simp [hnx, hny]

theorem visit_waiting (run : Runner β σ) (depth : Nat) (path : List String) (name : String)
    (p : Pass β σ) : visit run (depth + 1) path name (.waiting address dependencies body) p =
      match importAll (visit run depth (path ++ [name])) name .empty
          { p with registry := p.registry.setSlot name .evaluating } dependencies with
      | (.error e, p) => (.error e, p)
      | (.ok imports, p) =>
        match run body imports p.world with
        | (.error e, world) => (.error e, { p with world := world })
        | (.ok ns, world) => (.ok ns, ⟨p.registry.setSlot name (.evaluated ns), world⟩) :=
  rfl

theorem AgreeBut.dropEvaluating (h : AgreeBut y r r') :
    AgreeBut y r.dropEvaluating r'.dropEvaluating := by
  intro n hn
  rw [get?_dropEvaluating, get?_dropEvaluating, h n hn]

/-- How an evaluation apart and one with a record compare. The record then holds the namespace, or
it is gone, or nothing has happened. -/
inductive Compares (W : σ → σ → Prop) (y : String) (start : Pass β σ) :
    Except LoadError Namespace × Pass β σ → Except LoadError Namespace × Pass β σ → Prop where
  | ran {ns : Namespace} {q q' : Pass β σ} : AgreeBut y q.registry q'.registry →
      W q.world q'.world → (∃ record, q'.registry.get? y = some record ∧
        record.slot = .evaluated ns) → Compares W y start (.ok ns, q) (.ok ns, q')
  | stopped {e e' : LoadError} {q q' : Pass β σ} : AgreeBut y q.registry q'.registry →
      W q.world q'.world → e.kind = e'.kind → q'.registry.get? y = none →
      Compares W y start (.error e, q) (.error e', q')
  | missing {e e' : LoadError} {q : Pass β σ} : AgreeBut y q.registry start.registry →
      W q.world start.world → e.kind = e'.kind → Compares W y start (.error e, q) (.error e', start)

/-- A body that is evaluated apart does the same as one whose record nothing depends on. -/
theorem evaluateDetached_compares (hagree : AgreeBut y r r') (hx : r.Aside x) (hy : r.Aside y)
    (hroot : r'.get? y = some (.waiting address dependencies body')) (hsize : r'.size = r.size + 1)
    (hdx : Avoids dependencies x) (hdy : Avoids dependencies y)
    (hruns : ∀ body, Runs W run body body) (hbody : Runs W run body body') (hw : W w w') :
    Compares W y ⟨r', w'⟩ (r.evaluateDetached run w x dependencies body)
      (r'.evaluate run w' y) := by
  have hslot : (Record.waiting address dependencies body').slot = .waiting body' := rfl
  rw [evaluateDetached, evaluate, hroot]
  simp only [hslot]
  rw [guarded, guarded, missingFor_congr hagree hx hy hdx hdy none]
  cases hmissing : r.missingFor x (.waiting none dependencies body) with
  | cons first rest => exact .missing hagree hw rfl
  | nil =>
    have hstart : Alongside W y
        { Record.waiting address dependencies body' with slot := .evaluating } ⟨r, w⟩ ⟨r'.setSlot y .evaluating, w'⟩ := by
      constructor
      · intro n hn
        rw [get?_setSlot, if_neg hn, hagree n hn]
      · exact hy
      · rw [get?_setSlot, if_pos rfl, hroot]
        rfl
      · exact hw
    have hvisit {n : String} {record : Record β} {q q' : Pass β σ} (hn : n ≠ y)
        (hd : Avoids record.dependencies y) (h : Alongside W y
          { Record.waiting address dependencies body' with slot := .evaluating } q q') :
        Together W y { Record.waiting address dependencies body' with slot := .evaluating }
          (visit run (r.size + 1) [x] n record q)
          (visit run (r.size + 1) ([] ++ [y]) n record q') :=
      visit_together hruns (r.size + 1) hn hd h
    have hstopped {e e' : LoadError} (he : e.kind = e'.kind) {q q' : Pass β σ}
        (ha : Alongside W y
          { Record.waiting address dependencies body' with slot := .evaluating } q q')
        {v v' : σ} (hv : W v v') : Compares W y ⟨r', w'⟩
          (.error e, ⟨q.registry.dropEvaluating, v⟩)
          (.error e', ⟨q'.registry.dropEvaluating, v'⟩) := by
      refine .stopped ha.agree.dropEvaluating hv he ?_
      rw [get?_dropEvaluating, ha.root]
      rfl
    have himports := importAll_together hvisit hdy x y .empty hstart
    simp only [hsize, visit_waiting]
    rcases himports.cases with ⟨imports, q, q', hi, hi', ha⟩ | ⟨e, e', q, q', hi, hi', he, ha⟩
    · rw [hi, hi']
      obtain ⟨hm, hworld⟩ := hbody imports ha.world
      rcases hr : run body imports q.world with ⟨result, v⟩
      rcases hr' : run body' imports q'.world with ⟨result', v'⟩
      rw [hr, hr'] at hm hworld
      simp only [hr, hr']
      cases hm with
      | @ok ns ns' heq =>
        subst heq
        apply Compares.ran
        · intro n hn
          rw [get?_setSlot, if_neg hn, ha.agree n hn]
        · exact hworld
        · exact ⟨_, by rw [get?_setSlot, if_pos rfl, ha.root]; rfl, rfl⟩
      | error he => exact hstopped he ha hworld
    · rw [hi, hi']
      exact hstopped he ha ha.world

end Root

end ModuleLoader.Registry

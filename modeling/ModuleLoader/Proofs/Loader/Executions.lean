import Mathlib.Logic.Function.Basic
import ModuleLoader.Proofs.Loader.Ledgers
import ModuleLoader.Proofs.Loader.PlannedEvaluations

/-! # Executions

The bodies of planned modules run one after the other, each after those that it depends on. Where
none of them can fail, an import that has all its units succeeds, and every module that is
registered is evaluated once more.
-/

namespace ModuleLoader

open Dialect Relation

namespace Registry

variable {β : Type}

/-- The namespaces of the modules that are evaluated. -/
def known (r : Registry β) (n : String) : Option Namespace := (r.get? n).bind Record.namespace?

theorem known_of_evaluated {r : Registry β} {n : String} {record : Record β} {ns : Namespace}
    (hg : r.get? n = some record) (hs : record.slot = .evaluated ns) : r.known n = some ns := by
  simp [known, hg, Record.namespace?, hs]

theorem known_setSlot {r : Registry β} {n : String} {record : Record β} {ns : Namespace}
    (hg : r.get? n = some record) :
    (r.setSlot n (.evaluated ns)).known = Function.update r.known n (some ns) := by
  funext m
  by_cases hm : m = n
  · subst hm
    simp [known, get?_setSlot, hg, Record.namespace?]
  · simp [known, get?_setSlot, hm]

end Registry

/-- The namespaces of dependencies by specifier, if all of them are known. -/
def importsFrom (known : String → Option Namespace) (imports : Imports) :
    List Dependency → Option Imports
  | [] => some imports
  | d :: rest =>
    match known d.name with
    | some ns => importsFrom known (imports.insert d.specifier ns) rest
    | none => none

theorem importsOf?_eq {β : Type} (r : Registry β) (imports : Imports)
    (dependencies : List Dependency) :
    r.importsOf? imports dependencies = importsFrom r.known imports dependencies := by
  induction dependencies generalizing imports with
  | nil => rfl
  | cons d rest ih =>
    rw [Registry.importsOf?, importsFrom, Registry.known]
    cases (r.get? d.name).bind Record.namespace? with
    | none => rfl
    | some ns => exact ih _

theorem importsFrom_known {known : String → Option Namespace} {imports imports' : Imports}
    {dependencies : List Dependency} (h : importsFrom known imports dependencies = some imports')
    {d : Dependency} (hd : d ∈ dependencies) : known d.name ≠ none := by
  induction dependencies generalizing imports with
  | nil => exact absurd hd List.not_mem_nil
  | cons e rest ih =>
    rw [importsFrom] at h
    split at h
    · rename_i ns hns
      rcases List.mem_cons.1 hd with rfl | hd
      · simp [hns]
      · exact ih h hd
    · simp at h

namespace Plan

open Loader

/-- In the states of a set no planned body fails that can run, and it leads to another state of the
set. A state is a realm, and the namespaces of the modules that are evaluated. -/
def Safe (p : Plan) (E : Realm → (String → Option Namespace) → Prop) : Prop :=
  ∀ {realm known n imports}, E realm known → n ∈ p.names → known n = none →
    importsFrom known .empty (p.unit n).dependencies = some imports →
    ∃ ns realm', (p.unit n).body.linked.run imports realm = (.ok ns, realm') ∧
      E realm' (Function.update known n (some ns))

/-- The names whose bodies have run, in this order. The journal tells the same, and that none of
them failed. Records that wait are those of planned units. -/
structure Running (p : Plan) (E : Realm → (String → Option Namespace) → Prop) (l : Loader)
    (loaded fetched ran : List String) : Prop where
  state : E l.world.realm l.registry.known
  waiting : ∀ {n record body}, l.registry.get? n = some record → record.slot = .waiting body →
    n ∈ p.names ∧ record.dependencies = (p.unit n).dependencies ∧
      body.linked = (p.unit n).body.linked ∧ loaded[body.load]? = some n ∧ n ∈ fetched
  tells : l.world.journal.reverse.filterMap Event.ran? = ran.map fun n => (loaded.idxOf n, true)
  once : ran.Nodup
  mem_iff : ∀ n, n ∈ ran ↔ n ∈ p.names ∧ l.registry.known n ≠ none
  subset : ∀ n ∈ ran, n ∈ fetched
  closed : ∀ n ∈ ran, ∀ d ∈ (p.unit n).dependencies, l.registry.known d.name ≠ none
  order : ∀ n ∈ ran, ∀ d ∈ (p.unit n).dependencies, d.name ∈ p.names →
    ran.idxOf d.name < ran.idxOf n

section Rows

variable {p : Plan} {E : Realm → (String → Option Namespace) → Prop} {l : Loader}
  {loaded fetched ran : List String}

/-- A body that is ready runs well. -/
theorem Running.run_ok (h : p.Running E l loaded fetched ran) (hE : p.Safe E) {n : String}
    {record : Record Body} {body : Body} {imports : Imports}
    (hr : l.registry.Ready n record body imports) :
    ∃ ns realm, World.run body imports l.world =
        (.ok ns, ⟨realm, .ran body.load true :: l.world.journal⟩) ∧
      E realm (Function.update l.registry.known n (some ns)) := by
  obtain ⟨hn, hd, hb, -, -⟩ := h.waiting hr.get hr.slot
  have himp := hr.imports
  rw [importsOf?_eq, hd] at himp
  have hk : l.registry.known n = none := by
    simp [Registry.known, hr.get, Record.namespace?, hr.slot]
  obtain ⟨ns, realm, hrun, hs⟩ := hE h.state hn hk himp
  refine ⟨ns, realm, ?_, hs⟩
  rw [World.run, hb, hrun]
  rfl

theorem Running.step (h : p.Running E l loaded fetched ran) (hE : p.Safe E)
    (hl : loaded.Nodup) {q : Registry.Pass Body World}
    (hr : Registry.Ran World.run ⟨l.registry, l.world⟩ q) :
    ∃ n, p.Running E { l with registry := q.registry, world := q.world } loaded fetched
      (ran ++ [n]) := by
  cases hr with
  | @mk n record body imports ns world hready hrun =>
    obtain ⟨ns', realm, hok, hstate⟩ := h.run_ok hE hready
    rw [hok] at hrun
    simp only [Prod.mk.injEq, Except.ok.injEq] at hrun
    obtain ⟨rfl, rfl⟩ := hrun
    obtain ⟨hn, hd, -, hload, hfetched⟩ := h.waiting hready.get hready.slot
    have hk : l.registry.known n = none := by
      simp [Registry.known, hready.get, Record.namespace?, hready.slot]
    have hnew : n ∉ ran := fun hm => ((h.mem_iff n).1 hm).2 hk
    have hupdate : (l.registry.setSlot n (.evaluated ns')).known =
        Function.update l.registry.known n (some ns') := Registry.known_setSlot hready.get
    have hkept {m : String} (hm : l.registry.known m ≠ none) :
        (l.registry.setSlot n (.evaluated ns')).known m ≠ none := by
      rw [hupdate, Function.update_apply]
      split
      · simp
      · exact hm
    have hidx : loaded.idxOf n = body.load := by
      obtain ⟨hi, rfl⟩ := List.getElem?_eq_some_iff.1 hload
      exact hl.idxOf_getElem _ hi
    have hdeps : ∀ d ∈ (p.unit n).dependencies, l.registry.known d.name ≠ none := by
      intro d hdm
      have himp := hready.imports
      rw [importsOf?_eq, hd] at himp
      exact importsFrom_known himp hdm
    refine ⟨n, by rw [hupdate]; exact hstate, ?_, ?_, ?_, ?_, ?_, ?_, ?_⟩
    · intro m record' body' hg hs
      simp only [Registry.get?_setSlot] at hg
      split at hg
      · rw [hready.get, Option.map_some, Option.some.injEq] at hg
        subst hg
        simp at hs
      · exact h.waiting hg hs
    · simp [h.tells, Event.ran?, hidx]
    · simpa [List.nodup_append, hnew] using ⟨h.once, fun a ha han => hnew (han ▸ ha)⟩
    · intro m
      rw [hupdate, Function.update_apply, List.mem_append, List.mem_singleton, h.mem_iff]
      by_cases hm : m = n
      · subst hm
        simp [hn]
      · simp [hm]
    · intro m hm
      rcases List.mem_append.1 hm with hm | hm
      · exact h.subset m hm
      · exact List.mem_singleton.1 hm ▸ hfetched
    · intro m hm d hdm
      rcases List.mem_append.1 hm with hm | hm
      · exact hkept (h.closed m hm d hdm)
      · rw [List.mem_singleton.1 hm] at hdm
        exact hkept (hdeps d hdm)
    · intro m hm d hdm hdn
      rcases List.mem_append.1 hm with hm | hm
      · have hdr := (h.mem_iff d.name).2 ⟨hdn, h.closed m hm d hdm⟩
        rw [List.idxOf_append_of_mem hdr, List.idxOf_append_of_mem hm]
        exact h.order m hm d hdm hdn
      · rw [List.mem_singleton.1 hm] at hdm ⊢
        have hdr := (h.mem_iff d.name).2 ⟨hdn, hdeps d hdm⟩
        rw [List.idxOf_append_of_mem hdr, List.idxOf_append_of_notMem hnew]
        exact Nat.lt_of_lt_of_le (List.idxOf_lt_length_of_mem hdr) (Nat.le_add_right _ _)

theorem Running.rows (h : p.Running E l loaded fetched ran) (hE : p.Safe E)
    (hl : loaded.Nodup) {q : Registry.Pass Body World}
    (hr : ReflTransGen (Registry.Ran World.run) ⟨l.registry, l.world⟩ q) :
    ∃ ran', p.Running E { l with registry := q.registry, world := q.world } loaded fetched ran' := by
  induction hr with
  | refl => exact ⟨ran, h⟩
  | tail _ hs ih =>
    obtain ⟨ran', h'⟩ := ih
    obtain ⟨n, h''⟩ := h'.step hE hl hs
    exact ⟨ran' ++ [n], h''⟩

end Rows

end Plan

end ModuleLoader

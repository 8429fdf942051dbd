import ModuleLoader.Proofs.Dialect.LocalNames
import ModuleLoader.Proofs.Loader.ModuleGraphs

/-! # Executions of local modules

Modules that use local names only come to the same exports in every order of execution, up to the
numbers of the instances. If all of them evaluate in one order, they do in every order.
-/

namespace ModuleLoader

open Loader Dialect Relation

/-! ## Instances -/

/-- No two modules have the same instance, and none has the next one. -/
structure Numbered (realm : Realm) (known : String → Option Namespace) : Prop where
  lt : ∀ {n ns}, known n = some ns → ns.instanceId < realm.instances
  inj : ∀ {m n ns ns'}, known m = some ns → known n = some ns' →
    ns.instanceId = ns'.instanceId → m = n

/-- Modules that are known elsewhere are renumbered here. -/
def Renumbers (f : Nat → Nat) (known known' : String → Option Namespace) : Prop :=
  ∀ {n ns'}, known' n = some ns' → ∃ ns, known n = some ns ∧ ns' = ns.renumber f

/-- Two numbers are those of one module. -/
def SameModule (known known' : String → Option Namespace) (i j : Nat) : Prop :=
  ∃ n ns ns', known n = some ns ∧ known' n = some ns' ∧ ns.instanceId = i ∧ ns'.instanceId = j

section Instances

variable {realm realm' : Realm} {known known' : String → Option Namespace} {i j k : Nat}

theorem SameModule.symm (h : SameModule known known' i j) : SameModule known' known j i := by
  obtain ⟨n, ns, ns', hn, hn', hi, hj⟩ := h
  exact ⟨n, ns', ns, hn', hn, hj, hi⟩

end Instances

/-! ## What is imported -/

section Imported

variable {known known' : String → Option Namespace} {imports imports' : Imports}
  {dependencies : List Dependency} {f : Nat → Nat}

theorem importsFrom_mono (hk : ∀ {n ns}, known n = some ns → known' n = some ns)
    (h : importsFrom known imports dependencies = some imports') :
    importsFrom known' imports dependencies = some imports' := by
  induction dependencies generalizing imports with
  | nil => exact h
  | cons d rest ih =>
    rw [importsFrom] at h ⊢
    cases hd : known d.name with
    | none => simp [hd] at h
    | some ns =>
      rw [hd] at h
      rw [hk hd]
      exact ih h

/-- Of renumbered modules the renumbered namespaces are imported. -/
theorem Renumbers.importsFrom (hr : Renumbers f known known') (h : importsFrom known'
      (imports.map (Namespace.renumber f)) dependencies = some imports') :
    ∃ found, ModuleLoader.importsFrom known imports dependencies = some found ∧
      imports' = found.map (Namespace.renumber f) := by
  induction dependencies generalizing imports with
  | nil =>
    cases h
    exact ⟨imports, rfl, rfl⟩
  | cons d rest ih =>
    rw [ModuleLoader.importsFrom] at h ⊢
    cases hd : known' d.name with
    | none => simp [hd] at h
    | some ns' =>
      obtain ⟨ns, hn, rfl⟩ := hr hd
      simp only [hd, ← Dict.map_insert] at h
      simp only [hn]
      exact ih h

end Imported

/-! ## Executions -/

section Executions

variable {l : Loader} {names : Finset String} {unit : String → LoadedUnit}
  {realm realm' : Realm} {known known' : String → Option Namespace} {n : String} {ns : Namespace}

/-- The modules that a loader has from the start have instances of their own, and export no
namespaces. -/
structure Loader.Plain (l : Loader) : Prop where
  numbered : Numbered l.world.realm l.registry.known
  exports : ∀ {n ns} (f : Nat → Nat), l.registry.known n = some ns →
    ns.exports.map (Value.renumber f) = ns.exports

variable (l names unit) in
/-- The bodies of some names use local names only. -/
def AllLocal : Prop :=
  ∀ n ∈ names, (unit n).body.linked.program.isLocal l.world.realm.globals = true

theorem Execution.mono {names' : Finset String} (hs : names ⊆ names')
    (h : Execution l names unit realm known) : Execution l names' unit realm known := by
  induction h with
  | start => exact .start
  | run _ hn hk hi hr ih => exact ih.run (hs hn) hk hi hr

theorem Execution.globals (h : Execution l names unit realm known) (hl : AllLocal l names unit) :
    realm.globals = l.world.realm.globals := by
  induction h with
  | start => rfl
  | run _ hn _ _ hr ih =>
    have hlocal := hl _ hn
    rw [← ih] at hlocal
    obtain ⟨-, rfl, -⟩ := Linked.run_renumber id hlocal rfl hr
    exact ih

/-- Every module gets an instance of its own. -/
theorem Execution.numbered (h : Execution l names unit realm known) (hl : AllLocal l names unit)
    (h0 : Numbered l.world.realm l.registry.known) : Numbered realm known := by
  induction h with
  | start => exact h0
  | @run realm _ known n _ ns he hn _ _ hr ih =>
    have hlocal := hl _ hn
    rw [← he.globals hl] at hlocal
    obtain ⟨hid, rfl, -⟩ := Linked.run_renumber id hlocal rfl hr
    have hold {m : String} {ms : Namespace} (hm : Function.update known n (some ns) m = some ms) :
        m = n ∧ ms = ns ∨ known m = some ms := by
      rw [Function.update_apply] at hm
      split at hm
      · exact Or.inl ⟨‹_›, (Option.some.inj hm).symm⟩
      · exact Or.inr hm
    constructor
    · intro m ms hm
      rcases hold hm with ⟨-, rfl⟩ | hm
      · exact hid ▸ Nat.lt_succ_self _
      · exact Nat.lt_succ_of_lt (ih.lt hm)
    · intro m m' ms ms' hm hm' heq
      rcases hold hm with ⟨rfl, rfl⟩ | hk <;> rcases hold hm' with ⟨rfl, rfl⟩ | hk'
      · rfl
      · have hlt := ih.lt hk'
        omega
      · have hlt := ih.lt hk
        omega
      · exact ih.inj hk hk' heq

/-- What a module comes to it keeps. -/
theorem known_update {ns' : Namespace} (hk : known n = none) {m : String}
    (hm : known m = some ns) : Function.update known n (some ns') m = some ns := by
  rw [Function.update_of_ne, hm]
  rintro rfl
  simp [hk] at hm

/-- What is known was known from the start, or it came from imports that are still known. -/
theorem Execution.ran (h : Execution l names unit realm known) (hl : AllLocal l names unit)
    (hn : known n = some ns) : l.registry.known n = some ns ∨ n ∈ names ∧
      ∃ imports before after, importsFrom known .empty (unit n).dependencies = some imports ∧
        (unit n).body.linked.run imports before = (.ok ns, after) ∧
        before.globals = l.world.realm.globals := by
  induction h with
  | start => exact Or.inl hn
  | @run realm realm' known m imports ms he hm hk hi hr ih =>
    rw [Function.update_apply] at hn
    split at hn
    · rename_i heq
      subst heq
      cases hn
      exact Or.inr ⟨hm, imports, realm, realm', importsFrom_mono (known_update hk) hi, hr,
        he.globals hl⟩
    · refine (ih hn).imp_right fun ⟨hmem, imports, before, after, hi', hr', hg⟩ => ?_
      exact ⟨hmem, imports, before, after, importsFrom_mono (known_update hk) hi', hr', hg⟩

/-- Only the modules of the graph can get known. -/
theorem Execution.known_or_mem (h : Execution l names unit realm known) (hn : known n = some ns) :
    l.registry.known n = some ns ∨ n ∈ names := by
  induction h with
  | start => exact Or.inl hn
  | run _ hm _ _ _ ih =>
    rw [Function.update_apply] at hn
    split at hn
    · rename_i heq
      exact Or.inr (heq ▸ hm)
    · exact ih hn

end Executions

/-! ## Registries that coincide -/

section Coincidence

variable {l : Loader} {names : Finset String} {unit : String → LoadedUnit}
  {realm realm' : Realm} {r r' : Registry Body}

theorem Registry.known_ne_none_iff {n : String}
    (hr : ∀ {n record}, r.get? n = some record → ∃ ns, record.slot = .evaluated ns) :
    r.known n ≠ none ↔ r.has n = true := by
  rw [Registry.has_eq_isSome]
  cases hg : r.get? n with
  | none => simp [Registry.known, hg]
  | some record =>
    obtain ⟨ns, hs⟩ := hr hg
    simp [Registry.known_of_evaluated hg hs]

end Coincidence

/-! ## Graphs of local modules -/

/-- A complete graph without cycles of modules that can be loaded and use local names only, and that
evaluate in some order. -/
structure LocalGraph (l : Loader) (metadata : Metadata) where
  names : Finset String
  unit : String → LoadedUnit
  unregistered : ∀ n ∈ names, l.registry.has n = false
  loads : ∀ n ∈ names, l.outcome 0 (.created n metadata) = .ok (unit n)
  complete : ∀ n ∈ names, ∀ d ∈ (unit n).dependencies,
    l.registry.has d.name = true ∨ d.name ∈ names
  acyclic : ∀ n, ¬ TransGen (Depends names unit) n n
  allLocal : AllLocal l names unit
  evaluates : ∃ realm known, Execution l names unit realm known ∧ ∀ n ∈ names, known n ≠ none

namespace LocalGraph

variable {l : Loader} {metadata : Metadata}

open ModuleGraph

/-- The bodies of some names run one after the other without a failure, the last name first. -/
def Replays (l : Loader) (unit : String → LoadedUnit) : List String → Prop
  | [] => True
  | n :: before => Replays l unit before ∧ ((replay l unit before).2 n).isNone = true ∧
      ((importsFrom (replay l unit before).2 .empty (unit n).dependencies).any fun imports =>
        ((unit n).body.linked.run imports (replay l unit before).1).1.isOk) = true

instance decidableReplays (l : Loader) (unit : String → LoadedUnit) (order : List String) :
    Decidable (Replays l unit order) :=
  match order with
  | [] => inferInstanceAs (Decidable True)
  | _ :: before =>
    have := decidableReplays l unit before
    inferInstanceAs (Decidable (_ ∧ _ ∧ _))

/-- Bodies that run one after the other are an execution, after which all of them are known. -/
theorem Replays.execution {names : Finset String} {unit : String → LoadedUnit}
    {order : List String} (h : Replays l unit order) (hm : ∀ n ∈ order, n ∈ names) :
    Execution l names unit (replay l unit order).1 (replay l unit order).2 ∧
      ∀ n ∈ order, (replay l unit order).2 n ≠ none := by
  induction order with
  | nil => exact ⟨.start, fun n hn => absurd hn List.not_mem_nil⟩
  | cons n before ih =>
    obtain ⟨hb, hk, hr⟩ := h
    obtain ⟨he, hall⟩ := ih hb fun m hmem => hm m (by simp [hmem])
    obtain ⟨imports, hi, hok⟩ := (Option.any_eq_true ..).1 hr
    have hmem := hm n (by simp)
    have hnone := Option.isNone_iff_eq_none.1 hk
    rw [replay]
    generalize replay l unit before = c at *
    obtain ⟨realm, known⟩ := c
    simp only [hi]
    cases hrun : (unit n).body.linked.run imports realm with
    | mk result realm' =>
      cases result with
      | error e => simp [hrun, Except.isOk, Except.toBool] at hok
      | ok ns =>
        refine ⟨he.run hmem hnone hi hrun, fun m hm => ?_⟩
        simp only [Function.update_apply]
        split
        · simp
        · exact hall m ((List.mem_cons.1 hm).resolve_left ‹_›)

/-- Each of some names is free, can be loaded, and uses local names only. What it needs is registered
or comes before it. -/
def InOrder (l : Loader) (metadata : Metadata) (names : List String) : Prop :=
  ∀ n ∈ names, l.registry.has n = false ∧ (l.outcome 0 (.created n metadata)).isOk = true ∧
    (unitNamed l metadata n).body.linked.program.isLocal l.world.realm.globals = true ∧
    ∀ d ∈ (unitNamed l metadata n).dependencies, l.registry.has d.name = true ∨
      d.name ∈ names ∧ names.idxOf d.name < names.idxOf n

instance (l : Loader) (metadata : Metadata) (names : List String) :
    Decidable (InOrder l metadata names) :=
  inferInstanceAs (Decidable (∀ n ∈ names, _ ∧ _ ∧ _ ∧ _))

/-- A graph of modules that use local names only, in an order in which each comes after those that
it needs and all bodies run. -/
def ofOrder (l : Loader) (metadata : Metadata) (names : List String) (h : InOrder l metadata names)
    (hr : Replays l (unitNamed l metadata) names.reverse) : LocalGraph l metadata where
  names := names.toFinset
  unit := unitNamed l metadata
  unregistered n hn := (h n (List.mem_toFinset.1 hn)).1
  loads n hn := outcome_unitNamed (h n (List.mem_toFinset.1 hn)).2.1
  complete n hn d hd :=
    ((h n (List.mem_toFinset.1 hn)).2.2.2 d hd).imp_right fun hd => List.mem_toFinset.2 hd.1
  acyclic := acyclic_of_order (fun n hn => (h n hn).1) fun n hn => (h n hn).2.2.2
  allLocal n hn := (h n (List.mem_toFinset.1 hn)).2.2.1
  evaluates := by
    have hm : ∀ n ∈ names.reverse, n ∈ names.toFinset := fun n hn =>
      List.mem_toFinset.2 (List.mem_reverse.1 hn)
    obtain ⟨he, hall⟩ := hr.execution hm
    exact ⟨_, _, he, fun n hn => hall n (List.mem_reverse.2 (List.mem_toFinset.1 hn))⟩

end LocalGraph

namespace ModuleGraph

variable {l : Loader} {metadata : Metadata} {g : ModuleGraph l metadata} {roots : List String}
  {a b n : String}

theorem Wanted.mono {roots' : List String} (h : g.Wanted roots n) (hr : ∀ r ∈ roots, r ∈ roots') :
    g.Wanted roots' n :=
  h.imp_right fun ⟨r, hm, hp⟩ => ⟨r, hr r hm, hp⟩

end ModuleGraph

end ModuleLoader

import Mathlib.Data.Finset.Lattice.Fold
import Mathlib.Order.Lattice.Nat
import ModuleLoader.Proofs.Loader.SteadyLoaders

/-! # Graphs of modules

A loader can load a finite graph of modules, in which dependencies form no cycle, lead to other
modules of the graph or to registered ones, and no body fails in any order of execution. The modules
that some imports want make a plan, to which a fresh loader keeps.
-/

namespace ModuleLoader

open Loader Dialect Relation

/-- The units of some names need one another. -/
def Depends (names : Finset String) (unit : String → LoadedUnit) (a b : String) : Prop :=
  a ∈ names ∧ b ∈ names ∧ b ∈ (unit a).dependencies.map (·.name)

/-- The states that bodies of some names lead to, each run at most once and when all that it imports
is evaluated. -/
inductive Execution (l : Loader) (names : Finset String) (unit : String → LoadedUnit) :
    Realm → (String → Option Namespace) → Prop where
  | start : Execution l names unit l.world.realm l.registry.known
  | run {realm realm' : Realm} {known : String → Option Namespace} {n : String}
      {imports : Imports} {ns : Namespace} :
      Execution l names unit realm known → n ∈ names → known n = none →
      importsFrom known .empty (unit n).dependencies = some imports →
      (unit n).body.linked.run imports realm = (.ok ns, realm') →
      Execution l names unit realm' (Function.update known n (some ns))

/-- A complete graph without cycles of modules that can be loaded and whose bodies do not fail. -/
structure ModuleGraph (l : Loader) (metadata : Metadata) where
  names : Finset String
  unit : String → LoadedUnit
  unregistered : ∀ n ∈ names, l.registry.has n = false
  loads : ∀ n ∈ names, l.outcome 0 (.created n metadata) = .ok (unit n)
  complete : ∀ n ∈ names, ∀ d ∈ (unit n).dependencies,
    l.registry.has d.name = true ∨ d.name ∈ names
  acyclic : ∀ n, ¬ TransGen (Depends names unit) n n
  runs : ∀ {realm known n imports}, Execution l names unit realm known → n ∈ names →
    known n = none → importsFrom known .empty (unit n).dependencies = some imports →
    ((unit n).body.linked.run imports realm).1.isOk = true

/-- Nothing has been loaded yet, and whatever is registered is evaluated. -/
structure Loader.Fresh (l : Loader) : Prop where
  loads : l.loads = []
  pending : l.pending = .empty
  journal : l.world.journal = []
  evaluated : ∀ {n record}, l.registry.get? n = some record → ∃ ns, record.slot = .evaluated ns
  stores : l.Stores

theorem Loader.fresh_build {options : Options} {extension : String} {compiler : Option Compiler}
    {files : Files} {reporter : Reporter} {realm : Realm} {l : Loader}
    (h : Loader.build options (.standard extension compiler) files reporter realm = .ok l) :
    l.Fresh := by
  simp only [build, bind_eq_ok_iff, pure, Except.pure, Except.ok.injEq] at h
  obtain ⟨options, -, rfl⟩ := h
  refine ⟨rfl, rfl, rfl, ?_, stores_standard rfl⟩
  intro n record hg
  simp only [Registry.get?_setEvaluated] at hg
  split at hg
  · rw [Option.some.injEq] at hg
    subst hg
    exact ⟨_, rfl⟩
  · simp at hg

namespace ModuleGraph

variable {l : Loader} {metadata : Metadata} (g : ModuleGraph l metadata)

/-- A name is in the graph or registered. -/
def Provides (n : String) : Prop := n ∈ g.names ∨ l.registry.has n = true

/-- A module of the graph is imported, or needed below an import. -/
def Wanted (roots : List String) (n : String) : Prop :=
  n ∈ g.names ∧ ∃ r ∈ roots, ReflTransGen (Depends g.names g.unit) r n

variable {g}

theorem unit_name {n : String} (hn : n ∈ g.names) : (g.unit n).name = n := by
  have hs : (LoadState.created n metadata).Serves 0 n := rfl
  exact (outcome_ok hs (g.loads n hn)).1

theorem Wanted.depends {roots : List String} {a b : String} (ha : g.Wanted roots a)
    (h : Depends g.names g.unit a b) : g.Wanted roots b := by
  obtain ⟨-, r, hr, hp⟩ := ha
  exact ⟨h.2.1, r, hr, hp.tail h⟩

variable (g)

open Classical in
/-- The plan of imports of some names. -/
noncomputable def plan (roots : List String) : Plan where
  names := g.names.filter (g.Wanted roots)
  unit := g.unit
  metadata := metadata
  patience := g.names.sup fun n => l.turnsOf (.created n metadata)
  named _ hn := unit_name (Finset.mem_filter.1 hn).1

variable {g} {roots : List String}

open Classical in
@[simp] theorem mem_plan_iff {n : String} : n ∈ (g.plan roots).names ↔ g.Wanted roots n := by
  constructor
  · exact fun hn => (Finset.mem_filter.1 hn).2
  · exact fun hn => Finset.mem_filter.2 ⟨hn.1, hn⟩

@[simp] theorem plan_unit : (g.plan roots).unit = g.unit := rfl

theorem plan_dep_iff {a b : String} :
    (g.plan roots).Dep a b ↔ g.Wanted roots a ∧ Depends g.names g.unit a b := by
  simp only [Plan.Dep, mem_plan_iff, plan_unit]
  constructor
  · exact fun ⟨ha, hb, hd⟩ => ⟨ha, ha.1, hb.1, hd⟩
  · exact fun ⟨ha, hd⟩ => ⟨ha, ha.depends hd, hd.2.2⟩

theorem plan_acyclic (n : String) : ¬ TransGen (g.plan roots).Dep n n :=
  fun h => g.acyclic n (TransGen.mono (fun _ _ hd => (plan_dep_iff.1 hd).2) _ _ h)

/-- What the plan has is needed below a root by the plan itself. -/
theorem plan_path {n : String} (hn : g.Wanted roots n) :
    ∃ r ∈ roots, ReflTransGen (g.plan roots).Dep r n := by
  obtain ⟨-, r, hr, hp⟩ := hn
  refine ⟨r, hr, ?_⟩
  induction hp with
  | refl => exact .refl
  | tail hp hd ih => exact ih.tail (plan_dep_iff.2 ⟨⟨hd.1, r, hr, hp⟩, hd⟩)

theorem plan_safe : (g.plan roots).Safe (Execution l g.names g.unit) := by
  intro realm known n imports he hn hk hi
  have hn : n ∈ g.names := (mem_plan_iff.1 hn).1
  have hok := g.runs he hn hk hi
  rw [plan_unit]
  cases hr : (g.unit n).body.linked.run imports realm with
  | mk result realm' =>
    cases result with
    | ok ns => exact ⟨ns, realm', rfl, he.run hn hk hi hr⟩
    | error e => simp [hr, Except.isOk, Except.toBool] at hok

theorem plan_keeps (hl : l.Fresh) : (g.plan roots).Keeps l := by
  refine ⟨⟨?_, ?_⟩, ?_, ?_, ?_⟩
  · simp [hl.loads]
  · simp [hl.pending]
  · intro n hn d hd
    have hw := mem_plan_iff.1 hn
    refine (g.complete n hw.1 d hd).imp_right fun hd' => mem_plan_iff.2 (hw.depends ?_)
    exact ⟨hw.1, hd', List.mem_map_of_mem hd⟩
  · intro n hn id hp
    simp [hl.pending] at hp
  · intro n hn _ _
    have hn : n ∈ g.names := (mem_plan_iff.1 hn).1
    exact ⟨fun id => outcome_withLoad (g.loads n hn),
      Finset.le_sup (f := fun n => l.turnsOf (.created n metadata)) hn⟩

/-- A fresh loader is steady: nothing was loaded and no body has run. -/
theorem plan_steady (hl : l.Fresh) :
    (g.plan roots).Steady (Execution l g.names g.unit) l [] [] [] := by
  have hledger : (g.plan roots).Ledger l [] [] := by
    constructor <;> simp [hl.loads, hl.journal]
  refine ⟨plan_keeps hl, hl.stores, hledger, ?_, hl.evaluated⟩
  have hknown {n : String} (hn : g.Wanted roots n) : l.registry.known n = none := by
    have hr := g.unregistered n hn.1
    rw [Registry.has_eq_isSome, Option.isSome_eq_false_iff, Option.isNone_iff_eq_none] at hr
    simp [Registry.known, hr]
  refine ⟨.start, ?_, ?_, .nil, ?_, ?_, ?_, ?_⟩
  · intro n record body hg hs
    obtain ⟨ns, he⟩ := hl.evaluated hg
    simp [hs] at he
  · simp [hl.journal]
  · intro n
    refine iff_of_false List.not_mem_nil ?_
    rintro ⟨hn, hk⟩
    exact hk (hknown (mem_plan_iff.1 hn))
  all_goals simp

/-! ## Graphs that are checked -/

/-- The unit that the load of a name comes to. -/
def unitNamed (l : Loader) (metadata : Metadata) (n : String) : LoadedUnit :=
  match l.outcome 0 (.created n metadata) with
  | .ok u => u
  | .error _ => ⟨n, none, [], 0, n, [], ⟨[]⟩⟩

theorem outcome_unitNamed {l : Loader} {metadata : Metadata} {n : String}
    (h : (l.outcome 0 (.created n metadata)).isOk = true) :
    l.outcome 0 (.created n metadata) = .ok (unitNamed l metadata n) := by
  rw [unitNamed]
  cases ho : l.outcome 0 (.created n metadata) with
  | ok u => rfl
  | error e => simp [ho, Except.isOk, Except.toBool] at h

/-- Names that each come after those that they need form no cycle. -/
theorem acyclic_of_order {l : Loader} {names : List String} {unit : String → LoadedUnit}
    (hu : ∀ n ∈ names, l.registry.has n = false)
    (hd : ∀ n ∈ names, ∀ d ∈ (unit n).dependencies,
      l.registry.has d.name = true ∨ d.name ∈ names ∧ names.idxOf d.name < names.idxOf n)
    (n : String) : ¬ TransGen (Depends names.toFinset unit) n n := by
  intro h
  have hlt {a b : String} (hab : Depends names.toFinset unit a b) :
      names.idxOf b < names.idxOf a := by
    obtain ⟨ha, hb, hmem⟩ := hab
    obtain ⟨d, hdm, rfl⟩ := List.mem_map.1 hmem
    rcases hd a (List.mem_toFinset.1 ha) d hdm with hreg | ⟨-, hlt⟩
    · simp [hu d.name (List.mem_toFinset.1 hb)] at hreg
    · exact hlt
  have hall {b : String} (hp : TransGen (Depends names.toFinset unit) n b) :
      names.idxOf b < names.idxOf n := by
    induction hp with
    | single hab => exact hlt hab
    | tail _ hab ih => exact (hlt hab).trans ih
  exact Nat.lt_irrefl _ (hall h)

/-- The state after the bodies of some names have run, the last one first. -/
def replay (l : Loader) (unit : String → LoadedUnit) :
    List String → Realm × (String → Option Namespace)
  | [] => (l.world.realm, l.registry.known)
  | n :: before =>
    let (realm, known) := replay l unit before
    match importsFrom known .empty (unit n).dependencies with
    | none => (realm, known)
    | some imports =>
      match (unit n).body.linked.run imports realm with
      | (.ok ns, realm) => (realm, Function.update known n (some ns))
      | (.error _, realm) => (realm, known)

/-- After the bodies of some names have run, another one does not run, or it does so without a
failure and leads to one of the given rows. -/
def RunsOn (l : Loader) (unit : String → LoadedUnit) (orders : List (List String))
    (before : List String) (n : String) : Prop :=
  let (realm, known) := replay l unit before
  (known n).isSome = true ∨ (importsFrom known .empty (unit n).dependencies).all (fun imports =>
    ((unit n).body.linked.run imports realm).1.isOk && (n :: before) ∈ orders) = true

instance (unit : String → LoadedUnit) (orders : List (List String)) (before : List String)
    (n : String) : Decidable (RunsOn l unit orders before n) :=
  inferInstanceAs (Decidable (_ ∨ _))

theorem execution_replay {names : List String} {unit : String → LoadedUnit}
    {orders : List (List String)} (h0 : [] ∈ orders)
    (hr : ∀ before ∈ orders, ∀ n ∈ names, RunsOn l unit orders before n) {realm : Realm}
    {known : String → Option Namespace} (h : Execution l names.toFinset unit realm known) :
    ∃ before ∈ orders, replay l unit before = (realm, known) := by
  induction h with
  | start => exact ⟨[], h0, rfl⟩
  | @run _ _ _ n imports ns _ hn hk hi hrun ih =>
    obtain ⟨before, hb, he⟩ := ih
    have hstep := hr before hb n (List.mem_toFinset.1 hn)
    simp only [RunsOn, he, hk, hi, Option.isSome_none, Bool.false_eq_true, false_or,
      Option.all_some, Bool.and_eq_true, decide_eq_true_eq] at hstep
    refine ⟨n :: before, hstep.2, ?_⟩
    simp only [replay, he, hi, hrun]

/-- A graph of modules in an order in which each comes after those that it needs, with all rows in
which the bodies may run. -/
def ofOrder (l : Loader) (metadata : Metadata) (names : List String) (orders : List (List String))
    (hu : ∀ n ∈ names, l.registry.has n = false)
    (hl : ∀ n ∈ names, (l.outcome 0 (.created n metadata)).isOk = true)
    (hd : ∀ n ∈ names, ∀ d ∈ (unitNamed l metadata n).dependencies,
      l.registry.has d.name = true ∨ d.name ∈ names ∧ names.idxOf d.name < names.idxOf n)
    (h0 : [] ∈ orders)
    (hr : ∀ before ∈ orders, ∀ n ∈ names, RunsOn l (unitNamed l metadata) orders before n) :
    ModuleGraph l metadata where
  names := names.toFinset
  unit := unitNamed l metadata
  unregistered n hn := hu n (List.mem_toFinset.1 hn)
  loads n hn := outcome_unitNamed (hl n (List.mem_toFinset.1 hn))
  complete n hn d hdm :=
    (hd n (List.mem_toFinset.1 hn) d hdm).imp_right fun h => List.mem_toFinset.2 h.1
  acyclic := acyclic_of_order hu hd
  runs := by
    intro realm known n imports he hn hk hi
    obtain ⟨before, hb, he⟩ := execution_replay h0 hr he
    have hstep := hr before hb n (List.mem_toFinset.1 hn)
    simp only [RunsOn, he, hk, hi, Option.isSome_none, Bool.false_eq_true, false_or,
      Option.all_some, Bool.and_eq_true] at hstep
    exact hstep.1

end ModuleGraph

end ModuleLoader

import Mathlib.Data.Prod.Lex
import ModuleLoader.Proofs.Loader.GraphExploration
import ModuleLoader.Proofs.Loader.ModuleGraphs
import ModuleLoader.Proofs.Session.Basic

/-! # Graphs that are loaded alone

While no other request moves, a graph takes turns until it ends. With files from a table it does
come to its end, whether modules need each other in cycles or not. If it ends well it spans what is
below its root.
-/

namespace ModuleLoader.Loader

open Gathering Relation

/-- Give a graph turns until it ends, at most as many as told. -/
def turnGraph (budget : Nat) :
    Nat → Loader → GraphTask → Progress GraphTask LoadError Graph × Loader
  | 0, l, task => (.going task, l)
  | turns + 1, l, task =>
    match moveGraph budget l task with
    | (.going task, l) => turnGraph budget turns l task
    | (.done r, l) => (.done r, l)

/-- Load the graph below a root, in at most as many turns as told. -/
def loadGraph (budget turns : Nat) (l : Loader) (metadata : Metadata) (root : LoadedUnit) :
    Progress GraphTask LoadError Graph × Loader :=
  let (task, l) := l.startGraph metadata root
  turnGraph budget turns l task

section Turns

variable {budget : Nat} {l l' : Loader} {task : GraphTask}

/-- What a request does once its graph has taken turns. -/
def conclude (purpose : Purpose) :
    Progress GraphTask LoadError Graph × Loader → Activity × Loader
  | (.going task, l) => (.graph purpose task, l)
  | (.done (.error e), l) => l.rejectGraph purpose e
  | (.done (.ok g), l) => l.settleGraph purpose g

theorem conclude_settled (purpose : Purpose) (r : Except LoadError Graph) (l : Loader) :
    (conclude purpose (.done r, l)).1.isSettled = true := by
  cases r with
  | error e =>
    rw [conclude, rejectGraph_settled]
    rfl
  | ok g =>
    obtain ⟨r, hr⟩ := settleGraph_settled l purpose g
    rw [conclude, hr]
    rfl

theorem advanceGraph_eq (budget : Nat) (l : Loader) (purpose : Purpose) (task : GraphTask) :
    advanceGraph budget l purpose task = conclude purpose (moveGraph budget l task) := by
  rw [advanceGraph]
  split <;> rename_i h <;> rw [h] <;> rfl

theorem rounds_of_settled {turns : Nat} {activities : List Activity}
    (h : activities.all Activity.isSettled = true) :
    rounds budget turns l activities = (activities, l) := by
  cases turns with
  | zero => rfl
  | succ turns => rw [rounds, if_pos h]

/-- The rounds of a request that is alone are turns of its graph, until that ends. -/
theorem rounds_graph (budget turns : Nat) (l : Loader) (purpose : Purpose) (task : GraphTask) :
    rounds budget turns l [.graph purpose task] =
      ([(conclude purpose (turnGraph budget turns l task)).1],
        (conclude purpose (turnGraph budget turns l task)).2) := by
  induction turns generalizing l task with
  | zero => rfl
  | succ turns ih =>
    have hround : round budget l [.graph purpose task] =
        ([(conclude purpose (moveGraph budget l task)).1],
          (conclude purpose (moveGraph budget l task)).2) := by
      rw [← advanceGraph_eq]
      rfl
    rw [rounds, if_neg (by simp [Activity.isSettled]), hround, turnGraph]
    rcases hm : moveGraph budget l task with ⟨task' | r, l'⟩
    · exact ih l' task'
    · exact rounds_of_settled (by simpa using conclude_settled purpose r l')

/-- A graph that has ended takes no further turns. -/
theorem turnGraph_of_done {turns : Nat} {r : Except LoadError Graph}
    (h : turnGraph budget turns l task = (.done r, l')) (more : Nat) :
    turnGraph budget (turns + more) l task = (.done r, l') := by
  induction turns generalizing l task with
  | zero => simp [turnGraph] at h
  | succ turns ih =>
    rw [turnGraph] at h
    rw [Nat.succ_add, turnGraph]
    split at h
    · exact ih h
    · exact h

/-- A graph that goes on after a turn has no failure that goes unnoticed. -/
theorem moveGraph_hopeful {task' : GraphTask} (h : moveGraph budget l task = (.going task', l'))
    (hf : task.frontier.Hopeful) : task'.frontier.Hopeful := by
  induction budget generalizing l task with
  | zero =>
    simp only [moveGraph, Prod.mk.injEq, Progress.going.injEq] at h
    rw [← h.1]
    exact hf
  | succ budget ih =>
    rw [moveGraph] at h
    split at h
    · simp at h
    · rename_i frontier l₁ hm
      split at h
      · simp only [Prod.mk.injEq, Progress.going.injEq] at h
        rw [← h.1]
        exact hf.move hm
      · simp at h
      · exact ih h (hopeful_ofTasks _)

end Turns

/-! ## Termination -/

/-- How many frontiers may be left to a graph, and how much there is to do for the one that it
has. -/
def GraphTask.left (names : Finset String) (l : Loader) (task : GraphTask) : ℕ ×ₗ ℕ :=
  toLex (names.card - task.graph.below.length, task.frontier.toil l)

section Termination

variable {names : Finset String} {l₀ l l' : Loader} {root : LoadedUnit} {task task' : GraphTask}
  {budget : Nat}

/-- The units below a root have as many names from the set. -/
theorem GraphTask.Explores.length_below (h : task.Explores names l₀ root l) :
    task.graph.below.length ≤ names.card := by
  obtain ⟨lost, hperm, -⟩ := h.seen
  have hn := (hperm.nodup_iff.2 h.stems.nodup).of_append_left.of_append_left
  rw [Graph.units, List.map_cons] at hn
  have hcard := List.toFinset_card_of_nodup (List.nodup_cons.1 hn).2
  rw [← List.length_map (·.name), ← hcard]
  refine Finset.card_le_card fun n hn => ?_
  obtain ⟨u, hu, rfl⟩ := List.mem_map.1 (List.mem_toFinset.1 hn)
  exact h.stems.units u hu

/-- A step of a graph leaves less to do, unless it is idle. -/
theorem graphStep_explores (h : task.Explores names l₀ root l)
    (hs : GraphStep (task, l) (task', l')) :
    task'.Explores names l₀ root l' ∧ (task'.left names l' < task.left names l ∨
      task.frontier.running = [] ∧ task.frontier.values? = none ∧ task' = task ∧ l' = l) := by
  cases hs with
  | load hs =>
    obtain ⟨h', ht⟩ := load_explores h hs
    exact ⟨h', Or.inl (Prod.Lex.toLex_lt_toLex.2 (Or.inr ⟨rfl, ht⟩))⟩
  | expand hv hne he =>
    obtain ⟨h', hb⟩ := expand_explores h hv he
    -- the frontier was not empty, and its units have names from the set that are new to the graph
    have hle := h'.length_below
    rw [hb, List.length_append] at hle
    have hpos := List.length_pos_iff.2 hne
    refine ⟨h', Or.inl (Prod.Lex.toLex_lt_toLex.2 (Or.inl ?_))⟩
    simp only [hb, List.length_append]
    omega
  | idle hr hv => exact ⟨h, Or.inr ⟨hr, hv, rfl, rfl⟩⟩

theorem graphSteps_explores {c d : GraphTask × Loader} (h : c.1.Explores names l₀ root c.2)
    (hs : TransGen GraphStep c d) :
    d.1.Explores names l₀ root d.2 ∧ (d.1.left names d.2 < c.1.left names c.2 ∨
      c.1.frontier.running = [] ∧ c.1.frontier.values? = none ∧ d = c) := by
  induction hs with
  | single hs =>
    obtain ⟨h', hl⟩ := graphStep_explores h hs
    exact ⟨h', hl.imp_right fun ⟨hr, hv, ht, hl⟩ => ⟨hr, hv, Prod.ext ht hl⟩⟩
  | tail _ hs ih =>
    obtain ⟨hb, hlt⟩ := ih
    obtain ⟨h', hlt'⟩ := graphStep_explores hb hs
    refine ⟨h', ?_⟩
    rcases hlt with hlt | ⟨hr, hv, rfl⟩
    · rcases hlt' with hlt' | ⟨-, -, ht, hl⟩
      · exact Or.inl (hlt'.trans hlt)
      · rw [ht, hl]
        exact Or.inl hlt
    · exact hlt'.imp_right fun ⟨_, _, ht, hl⟩ => ⟨hr, hv, Prod.ext ht hl⟩

theorem reflTransGen_explores {c d : GraphTask × Loader} (h : c.1.Explores names l₀ root c.2)
    (hs : ReflTransGen GraphStep c d) : d.1.Explores names l₀ root d.2 := by
  induction hs with
  | refl => exact h
  | tail _ hs ih => exact (graphStep_explores ih hs).1

/-- A graph that goes on after a turn has less to do than before. -/
theorem GraphTask.Explores.going (h : task.Explores names l₀ root l)
    (hf : task.frontier.Hopeful) (hm : moveGraph (budget + 1) l task = (.going task', l')) :
    task'.Explores names l₀ root l' ∧ task'.frontier.Hopeful ∧
      task'.left names l' < task.left names l := by
  obtain ⟨h', hlt⟩ := graphSteps_explores (c := (task, l)) h (transGen_of_going hm)
  -- the graph cannot have been idle: then it would have had the values of its frontier
  refine ⟨h', moveGraph_hopeful hm hf, hlt.resolve_right ?_⟩
  rintro ⟨hr, hv, -⟩
  obtain ⟨values, hv'⟩ := hf.exists_values? h.numbered hr
  simp only [hv] at hv'
  cases hv'

theorem GraphTask.Explores.terminates (h : task.Explores names l₀ root l) (budget : Nat)
    (hf : task.frontier.Hopeful) :
    ∃ turns r l', turnGraph (budget + 1) turns l task = (.done r, l') := by
  induction hn : task.left names l using WellFoundedLT.induction generalizing l task with
  | ind n ih =>
    rcases hm : moveGraph (budget + 1) l task with ⟨task' | r, l'⟩
    · obtain ⟨h', hf', hlt⟩ := h.going hf hm
      obtain ⟨turns, r, l'', ht⟩ := ih _ (hn ▸ hlt) h' hf' rfl
      refine ⟨turns + 1, r, l'', ?_⟩
      rw [turnGraph, hm]
      exact ht
    · refine ⟨1, r, l', ?_⟩
      rw [turnGraph, hm]

/-! ## Graphs that have ended well -/

theorem GraphTask.Explores.spans (h : task.Explores names l₀ root l)
    (hv : task.frontier.values? = some []) : task.graph.Spans l₀ root := by
  have hg := h.stems
  have hperm := (h.of_values? hv).2
  rw [List.append_nil] at hperm
  have hunits : task.graph.units = root :: task.graph.below := by rw [Graph.units, hg.first]
  have hnodup := hperm.nodup_iff.2 hg.nodup
  refine ⟨hunits, hnodup, fun u hu => ?_, hg.reached, fun u hu d hd => ?_⟩
  · have hm : u.name ∈ task.graph.below.map (·.name) := List.mem_map_of_mem hu
    have hseen : u.name ∈ task.seen := by
      rw [← hperm.mem_iff, hunits, List.map_cons]
      exact List.mem_cons_of_mem _ hm
    refine (hg.unregistered _ hseen).resolve_left fun he => ?_
    rw [hunits, List.map_cons, List.nodup_cons, ← he] at hnodup
    exact hnodup.1 hm
  · exact (h.closed u hu d hd).symm.imp_left fun hs => hperm.mem_iff.2 hs

/-- A graph that fails does so with the error of a load that has failed meanwhile. -/
theorem GraphTask.Explores.breaks (h : task.Explores names l₀ root l) {e : LoadError}
    (he : GraphEnds (task, l) (.error e, l')) : Breaks l₀ l' e := by
  cases he with
  | @fails _ _ l₁ _ hf =>
    have hb : Breaks l₀ l₁ e := by
      rcases hf.tasks_cases with ⟨hm, rfl⟩ | ⟨id, hid, hend⟩
      · exact h.failures e hm
      · obtain ⟨n, hn⟩ := h.serves id hid
        cases hend with
        | mk hm => exact ⟨id, h.not_failed hn, move_finished hm⟩
    exact hb

/-- How the graph below a root may end: it spans what is there, or a load has failed. -/
def EndsWith (l : Loader) (root : LoadedUnit) (l' : Loader) : Except LoadError Graph → Prop
  | .ok g => g.Spans l root
  | .error e => Breaks l l' e

theorem turnGraph_endsWith {turns : Nat} {r : Except LoadError Graph}
    (h : task.Explores names l₀ root l)
    (ht : turnGraph budget turns l task = (.done r, l')) : EndsWith l₀ root l' r := by
  induction turns generalizing l task with
  | zero => simp [turnGraph] at ht
  | succ turns ih =>
    rw [turnGraph] at ht
    split at ht
    · rename_i task' l₁ hm
      exact ih (reflTransGen_explores (c := (task, l)) h (reflTransGen_of_going hm)) ht
    · rename_i r l₁ hm
      simp only [Prod.mk.injEq, Progress.done.injEq] at ht
      obtain ⟨rfl, rfl⟩ := ht
      obtain ⟨c, hc, he⟩ := moveGraph_done hm
      have hx := reflTransGen_explores (c := (task, l)) h hc
      cases r with
      | error e => exact hx.breaks he
      | ok g =>
        cases he with
        | complete hv => exact hx.spans hv

end Termination

section Tables

variable {l l₁ : Loader} {extension : String} {compiler : Option Compiler} {t : FileTable}
  {latency : Nat} {metadata : Metadata} {root : LoadedUnit} {task : GraphTask}

/-- A graph that is about to be loaded from a table takes finitely many turns. -/
theorem startGraph_ends (hl : l.Sound) (hs : l.stages = .standard extension compiler)
    (hf : l.files = .ofTable t latency) (hb : isAbsoluteUrl metadata.baseUrl.toList = false)
    (hstart : l.startGraph metadata root = (task, l₁)) (budget : Nat) :
    ∃ n r l', (∀ turns ≥ n, turnGraph (budget + 1) turns l₁ task = (.done r, l')) ∧
      EndsWith l root l' r := by
  obtain ⟨names, hlim⟩ := exists_limited hs hf hb
  have hx : task.Explores names l root l₁ := startGraph_explores hl hlim hstart
  have hhopeful : task.frontier.Hopeful := by
    obtain ⟨ids, ht, -⟩ := startGraph_wanted hstart
    rw [ht]
    exact hopeful_ofTasks ids
  obtain ⟨n, r, l', hn⟩ := hx.terminates budget hhopeful
  refine ⟨n, r, l', fun turns hle => ?_, turnGraph_endsWith hx hn⟩
  obtain ⟨more, rfl⟩ := Nat.exists_eq_add_of_le hle
  exact turnGraph_of_done hn more

/-- A request that is alone is settled once its graph was loaded from a table. -/
theorem rounds_settled (hl : l.Sound) (hs : l.stages = .standard extension compiler)
    (hf : l.files = .ofTable t latency) (hb : isAbsoluteUrl metadata.baseUrl.toList = false)
    (hstart : l.startGraph metadata root = (task, l₁)) (budget : Nat) (purpose : Purpose) :
    ∃ n, ∀ turns ≥ n, ∀ a ∈ (rounds (budget + 1) turns l₁ [.graph purpose task]).1,
      a.isSettled = true := by
  obtain ⟨n, r, l', hn, -⟩ := startGraph_ends hl hs hf hb hstart budget
  refine ⟨n, fun turns hle a ha => ?_⟩
  rw [rounds_graph, hn turns hle, List.mem_singleton] at ha
  rw [ha]
  exact conclude_settled purpose r l'

/-- A graph that is loaded alone with files from a table comes to an end. If it ends well it spans
what is below its root, and if it fails then one of its loads has failed with that error. -/
theorem loadGraph_ends (hl : l.Sound) (hs : l.stages = .standard extension compiler)
    (hf : l.files = .ofTable t latency) (hb : isAbsoluteUrl metadata.baseUrl.toList = false)
    (root : LoadedUnit) (budget : Nat) :
    ∃ n r l', (∀ turns ≥ n, l.loadGraph (budget + 1) turns metadata root = (.done r, l')) ∧
      (∀ g, r = .ok g → g.Spans l root) ∧ ∀ e, r = .error e → Breaks l l' e := by
  rcases hstart : l.startGraph metadata root with ⟨task, l₁⟩
  obtain ⟨n, r, l', hn, hg⟩ := startGraph_ends hl hs hf hb hstart budget
  refine ⟨n, r, l', fun turns hle => ?_, ?_, ?_⟩
  · rw [loadGraph, hstart]
    exact hn turns hle
  · rintro g rfl
    exact hg
  · rintro e rfl
    exact hg

end Tables

/-- Files of modules that need each other in a ring, and one that needs itself. -/
def ringFiles : List (String × String) :=
  [("lib/a.js", "import 'b'; import 'c';"), ("lib/b.js", "import 'a';"),
    ("lib/c.js", "import 'b'; import 'c';")]

/-- What the loads of these modules have in common. -/
def ringMetadata : Metadata := ⟨"lib", false, .empty⟩

/-- The unit of the first of them. -/
def ringRoot : LoadedUnit := ModuleGraph.unitNamed (ofFiles 1 ringFiles) ringMetadata "a"

/-- The names of the units of a graph that has ended well. -/
def namesOf : Progress GraphTask LoadError Graph → List String
  | .done (.ok g) => g.units.map (·.name)
  | _ => []

theorem loadGraph_ends_ring :
    ∃ g l', (ofFiles 1 ringFiles).loadGraph 1 5 ringMetadata ringRoot = (.done (.ok g), l') ∧
      g.units.map (·.name) = ["a", "b", "c"] ∧ g.Spans (ofFiles 1 ringFiles) ringRoot := by
  have hl : (ofFiles 1 ringFiles).Sound := (Session.sound_build (build_ofFiles 1 ringFiles)).1
  have hb : isAbsoluteUrl ringMetadata.baseUrl.toList = false := by decide
  obtain ⟨n, r, l', hend, hspans, -⟩ := loadGraph_ends hl rfl rfl hb ringRoot 0
  have hnames : namesOf ((ofFiles 1 ringFiles).loadGraph 1 5 ringMetadata ringRoot).1 =
      ["a", "b", "c"] := by decide +kernel
  rcases hfive : (ofFiles 1 ringFiles).loadGraph 1 5 ringMetadata ringRoot with ⟨p, l''⟩
  rw [hfive] at hnames
  cases p with
  | going task => simp [namesOf] at hnames
  | done r' =>
    cases r' with
    | error e => simp [namesOf] at hnames
    | ok g =>
      have hsame := (turnGraph_of_done hfive n).symm.trans (hend (5 + n) (Nat.le_add_left n 5))
      simp only [Prod.mk.injEq, Progress.done.injEq] at hsame
      exact ⟨g, l'', rfl, hnames, hspans g hsame.1.symm⟩

end ModuleLoader.Loader

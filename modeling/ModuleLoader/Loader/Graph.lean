import ModuleLoader.Loader.Gathering
import ModuleLoader.Loader.Pending

/-! # Loading a graph

The units below a root are loaded frontier by frontier: the dependencies of one frontier that are
neither registered nor seen make the next one. The loads of a frontier are gathered, and one that
fails ends the graph, so that the loads behind it may never begin.
-/

namespace ModuleLoader.Loader

/-- The units of a graph: its root and what was loaded below it. -/
structure Graph where
  root : LoadedUnit
  below : List LoadedUnit

/-- All units of a graph, the root in front. -/
def Graph.units (g : Graph) : List LoadedUnit := g.root :: g.below

/-- Loads by number that are gathered for their units. -/
abbrev Frontier := Gathering Nat LoadError LoadedUnit

/-- A graph that is being loaded: the units of earlier frontiers, the names seen so far, and the
frontier. -/
structure GraphTask where
  metadata : Metadata
  graph : Graph
  seen : List String
  frontier : Frontier

/-- Join the loads of dependencies that are neither registered nor seen. -/
def wantAll (metadata : Metadata) (l : Loader) (seen : List String) :
    List Dependency → List Nat × List String × Loader
  | [] => ([], seen, l)
  | d :: rest =>
    if l.registry.has d.name || seen.contains d.name then wantAll metadata l seen rest
    else
      let (id, l) := l.join d.name metadata
      let (ids, seen, l) := wantAll metadata l (d.name :: seen) rest
      (id :: ids, seen, l)

/-- Go on from units that have arrived to the frontier below them. -/
def expand (l : Loader) (task : GraphTask) (units : List LoadedUnit) : GraphTask × Loader :=
  let (ids, seen, l) := wantAll task.metadata l task.seen (units.flatMap (·.dependencies))
  let graph := { task.graph with below := task.graph.below ++ units }
  ({ task with graph := graph, seen := seen, frontier := .ofTasks ids }, l)

/-- A graph that is about to be loaded below a root. -/
def startGraph (l : Loader) (metadata : Metadata) (root : LoadedUnit) : GraphTask × Loader :=
  let (ids, seen, l) := wantAll metadata l [root.name] root.dependencies
  (⟨metadata, ⟨root, []⟩, seen, .ofTasks ids⟩, l)

/-- Let a load of a frontier move. -/
def moveLoad (l : Loader) (id : Nat) : Progress Nat LoadError LoadedUnit × Loader :=
  match l.move id with
  | (none, l) => (.going id, l)
  | (some result, l) => (.done result, l)

/-- Let a graph move through at most as many frontiers as the budget allows. A graph that fails
releases its loads. -/
def moveGraph : Nat → Loader → GraphTask → Progress GraphTask LoadError Graph × Loader
  | 0, l, task => (.going task, l)
  | budget + 1, l, task =>
    match task.frontier.move moveLoad l with
    | (.error e, l) => (.done (.error e), l.release task.seen)
    | (.ok frontier, l) =>
      match frontier.values? with
      | none => (.going { task with frontier := frontier }, l)
      | some [] => (.done (.ok task.graph), l)
      | some units =>
        let (task, l) := l.expand task units
        moveGraph budget l task

/-- One of several graphs that are loaded side by side: its root is on its way, or the graph is. -/
inductive Branch where
  | root (load : Nat)
  | loading (task : GraphTask)

/-- Branches that are gathered for their graphs. -/
abbrev Branches := Gathering Branch LoadError Graph

/-- Join the loads of several roots. -/
def joinAll (metadata : Metadata) (l : Loader) : List String → List Branch × Loader
  | [] => ([], l)
  | name :: rest =>
    let (id, l) := l.join name metadata
    let (branches, l) := joinAll metadata l rest
    (.root id :: branches, l)

/-- Let the graph of a branch move. -/
def moveBranchGraph (budget : Nat) (l : Loader) (task : GraphTask) :
    Progress Branch LoadError Graph × Loader :=
  match moveGraph budget l task with
  | (.going task, l) => (.going (.loading task), l)
  | (.done result, l) => (.done result, l)

/-- Let a branch move. -/
def moveBranch (budget : Nat) (metadata : Metadata) (l : Loader) :
    Branch → Progress Branch LoadError Graph × Loader
  | .loading task => moveBranchGraph budget l task
  | .root id =>
    match l.move id with
    | (none, l) => (.going (.root id), l)
    | (some (.error e), l) => (.done (.error e), l)
    | (some (.ok u), l) =>
      let (task, l) := l.startGraph metadata u
      moveBranchGraph budget l task

end ModuleLoader.Loader

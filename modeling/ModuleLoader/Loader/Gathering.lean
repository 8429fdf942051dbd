/-! # Gatherings

Several tasks go on side by side until all have ended well or one has failed. A small gathering lets
all of its tasks move in each turn and fails with the first that fails. A crowd lets its tasks move
until two have to wait, each going to the back, and fails when the results in front of a failure
are known. The values keep the order in which the tasks were given.
-/

namespace ModuleLoader

/-- A task that is not done, or its result. -/
inductive Progress (τ ε α : Type) where
  | going (task : τ)
  | done (result : Except ε α)

/-- Tasks that are gathered: those that have not ended, numbered, and the results by number. -/
structure Gathering (τ ε α : Type) where
  running : List (Nat × τ)
  results : List (Option (Except ε α))

namespace Gathering

variable {σ τ ε α : Type}

/-- How many tasks a small gathering may have. -/
def smallSize : Nat := 30

/-- Gather tasks. -/
def ofTasks (tasks : List τ) : Gathering τ ε α :=
  ⟨tasks.mapIdx fun i task => (i, task), tasks.map fun _ => none⟩

/-- The values of results, if all are known and none is an error. -/
def valuesOf? : List (Option (Except ε α)) → Option (List α)
  | [] => some []
  | some (.ok a) :: rest => (valuesOf? rest).map (a :: ·)
  | _ :: _ => none

/-- The values of a gathering that has ended well. -/
def values? (g : Gathering τ ε α) : Option (List α) := valuesOf? g.results

/-- The first error, if the results in front of it are known. -/
def failure? : List (Option (Except ε α)) → Option ε
  | some (.ok _) :: rest => failure? rest
  | some (.error e) :: _ => some e
  | _ => none

/-- Let all tasks move in turn, up to the first that fails. -/
def moveAll (step : σ → τ → Progress τ ε α × σ) (s : σ) (results : List (Option (Except ε α))) :
    List (Nat × τ) → Except ε (Gathering τ ε α) × σ
  | [] => (.ok ⟨[], results⟩, s)
  | (i, task) :: rest =>
    match step s task with
    | (.done (.error e), s) => (.error e, s)
    | (.done (.ok a), s) => moveAll step s (results.set i (some (.ok a))) rest
    | (.going task, s) =>
      let (moved, s) := moveAll step s results rest
      (moved.map fun g => { g with running := (i, task) :: g.running }, s)

/-- Let tasks move in turn until as many of them as told have to wait one after the other. Each
task that ends renews the patience. -/
def moveCrowd (step : σ → τ → Progress τ ε α × σ) (patience : Nat) (s : σ)
    (results : List (Option (Except ε α))) (running : List (Nat × τ)) :
    Except ε (Gathering τ ε α) × σ :=
  match patience, running with
  | patience + 1, (i, task) :: rest =>
    match step s task with
    | (.going task, s) => moveCrowd step patience s results (rest ++ [(i, task)])
    | (.done result, s) =>
      let results := results.set i (some result)
      match failure? results with
      | some e => (.error e, s)
      | none => moveCrowd step (min 2 rest.length) s results rest
  | _, running => (.ok ⟨running, results⟩, s)
termination_by (running.length, patience)
decreasing_by all_goals grind

/-- Give a gathering a turn. -/
def move (step : σ → τ → Progress τ ε α × σ) (s : σ) (g : Gathering τ ε α) :
    Except ε (Gathering τ ε α) × σ :=
  if g.results.length ≤ smallSize then moveAll step s g.results g.running
  else moveCrowd step (min 2 g.running.length) s g.results g.running

end Gathering

end ModuleLoader

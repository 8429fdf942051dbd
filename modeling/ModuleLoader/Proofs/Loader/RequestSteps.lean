import ModuleLoader.Loader.Schedule
import ModuleLoader.Proofs.Loader.GatheringSteps

/-! # Steps of a request

A turn of a request is a row of steps: a load moves, a graph goes on to its next frontier, a branch
gets its root, or the request comes to its end. A step is small enough to be described in a line,
so a property of all turns is shown once for each kind of step.
-/

namespace ModuleLoader.Loader

open Gathering Relation

/-! ## Loads and graphs -/

/-- A load has to wait. -/
inductive LoadWaits : Nat × Loader → Nat × Loader → Prop where
  | mk {id : Nat} {l l' : Loader} : l.move id = (none, l') → LoadWaits (id, l) (id, l')

/-- A load has ended. -/
inductive LoadEnds : Nat × Loader → Except LoadError LoadedUnit × Loader → Prop where
  | mk {id : Nat} {l l' : Loader} {r : Except LoadError LoadedUnit} :
      l.move id = (some r, l') → LoadEnds (id, l) (r, l')

theorem moveLoad_refines : Refines moveLoad LoadWaits LoadEnds := by
  constructor
  · intro l l' id id' h
    rw [moveLoad] at h
    split at h
    · rename_i l₁ hm
      simp only [Prod.mk.injEq, Progress.going.injEq] at h
      obtain ⟨rfl, rfl⟩ := h
      exact .single (.mk hm)
    · simp at h
  · intro l l' id r h
    rw [moveLoad] at h
    split at h
    · simp at h
    · rename_i r' l₁ hm
      simp only [Prod.mk.injEq, Progress.done.injEq] at h
      obtain ⟨rfl, rfl⟩ := h
      exact ⟨_, .refl, .mk hm⟩

/-- A graph moves: a load of its frontier does, or the frontier has arrived and gives way to the
next one. A frontier that holds a failure, and nothing else on its way, keeps the graph idle. -/
inductive GraphStep : GraphTask × Loader → GraphTask × Loader → Prop where
  | load {task : GraphTask} {frontier : Frontier} {l l' : Loader} :
      Gathering.Step LoadWaits LoadEnds (task.frontier, l) (frontier, l') →
      GraphStep (task, l) ({ task with frontier := frontier }, l')
  | expand {task task' : GraphTask} {l l' : Loader} {units : List LoadedUnit} :
      task.frontier.values? = some units → units ≠ [] → l.expand task units = (task', l') →
      GraphStep (task, l) (task', l')
  | idle {task : GraphTask} {l : Loader} :
      task.frontier.running = [] → task.frontier.values? = none → GraphStep (task, l) (task, l)

/-- A graph ends: a load of its frontier fails, or there is no further frontier. -/
inductive GraphEnds : GraphTask × Loader → Except LoadError Graph × Loader → Prop where
  | fails {task : GraphTask} {l l' : Loader} {e : LoadError} :
      Fails LoadEnds (task.frontier, l) (e, l') →
      GraphEnds (task, l) (.error e, l'.release task.seen)
  | complete {task : GraphTask} {l : Loader} :
      task.frontier.values? = some [] → GraphEnds (task, l) (.ok task.graph, l)

theorem transGen_frontier {task : GraphTask} {frontier : Frontier} {l l' : Loader}
    (h : TransGen (Gathering.Step LoadWaits LoadEnds) (task.frontier, l) (frontier, l')) :
    TransGen GraphStep (task, l) ({ task with frontier := frontier }, l') :=
  TransGen.lift (fun c : Frontier × Loader => ({ task with frontier := c.1 }, c.2))
    (fun _ _ h => .load h) _ _ h

theorem reflTransGen_frontier {task : GraphTask} {c : Frontier × Loader} {l : Loader}
    (h : ReflTransGen (Gathering.Step LoadWaits LoadEnds) (task.frontier, l) c) :
    ReflTransGen GraphStep (task, l) ({ task with frontier := c.1 }, c.2) :=
  ReflTransGen.lift (fun c : Frontier × Loader => ({ task with frontier := c.1 }, c.2))
    (fun _ _ h => .load h) _ _ h

theorem reflTransGen_of_move {task : GraphTask} {frontier : Frontier} {l l' : Loader}
    (h : task.frontier.move moveLoad l = (.ok frontier, l')) :
    ReflTransGen GraphStep (task, l) ({ task with frontier := frontier }, l') := by
  rcases move_ok moveLoad_refines h with ⟨-, rfl, rfl⟩ | ht
  · exact .refl
  · exact (transGen_frontier ht).to_reflTransGen

/-- A turn after which a graph goes on is a row of steps. -/
theorem reflTransGen_of_going {budget : Nat} {l l' : Loader} {task task' : GraphTask}
    (h : moveGraph budget l task = (.going task', l')) :
    ReflTransGen GraphStep (task, l) (task', l') := by
  induction budget generalizing l task with
  | zero =>
    simp only [moveGraph, Prod.mk.injEq, Progress.going.injEq] at h
    obtain ⟨rfl, rfl⟩ := h
    exact .refl
  | succ budget ih =>
    rw [moveGraph] at h
    split at h
    · simp at h
    · rename_i frontier l₁ hm
      split at h
      · simp only [Prod.mk.injEq, Progress.going.injEq] at h
        obtain ⟨rfl, rfl⟩ := h
        exact reflTransGen_of_move hm
      · simp at h
      · rename_i units hn hv
        exact ((reflTransGen_of_move hm).tail (.expand hv hn rfl)).trans (ih h)

/-- With a budget it is not an empty one. -/
theorem transGen_of_going {budget : Nat} {l l' : Loader} {task task' : GraphTask}
    (h : moveGraph (budget + 1) l task = (.going task', l')) :
    TransGen GraphStep (task, l) (task', l') := by
  rw [moveGraph] at h
  split at h
  · simp at h
  · rename_i frontier l₁ hm
    split at h
    · rename_i hv
      simp only [Prod.mk.injEq, Progress.going.injEq] at h
      obtain ⟨rfl, rfl⟩ := h
      rcases move_ok moveLoad_refines hm with ⟨hr, rfl, rfl⟩ | ht
      · exact .single (.idle hr hv)
      · exact transGen_frontier ht
    · simp at h
    · rename_i units hn hv
      exact (TransGen.tail' (reflTransGen_of_move hm) (.expand hv hn rfl)).trans_left
        (reflTransGen_of_going h)

/-- A turn that ends a graph is a row of steps up to the end. -/
theorem moveGraph_done {budget : Nat} {l l' : Loader} {task : GraphTask}
    {r : Except LoadError Graph} (h : moveGraph budget l task = (.done r, l')) :
    ∃ c, ReflTransGen GraphStep (task, l) c ∧ GraphEnds c (r, l') := by
  induction budget generalizing l task with
  | zero => simp [moveGraph] at h
  | succ budget ih =>
    rw [moveGraph] at h
    split at h
    · rename_i e l₁ hm
      simp only [Prod.mk.injEq, Progress.done.injEq] at h
      obtain ⟨rfl, rfl⟩ := h
      obtain ⟨c, hc, hf⟩ := move_error moveLoad_refines hm
      have he : GraphEnds ({ task with frontier := c.1 }, c.2) (.error e, l₁.release task.seen) :=
        .fails hf
      exact ⟨_, reflTransGen_frontier hc, he⟩
    · rename_i frontier l₁ hm
      split at h
      · simp at h
      · rename_i hv
        simp only [Prod.mk.injEq, Progress.done.injEq] at h
        obtain ⟨rfl, rfl⟩ := h
        exact ⟨_, reflTransGen_of_move hm, .complete hv⟩
      · rename_i units hn hv
        obtain ⟨c, hc, he⟩ := ih h
        exact ⟨c, ((reflTransGen_of_move hm).tail (.expand hv hn rfl)).trans hc, he⟩

/-! ## Branches -/

/-- A branch moves: its root is awaited or has arrived, or its graph moves. -/
inductive BranchStep (metadata : Metadata) : Branch × Loader → Branch × Loader → Prop where
  | wait {id : Nat} {l l' : Loader} :
      l.move id = (none, l') → BranchStep metadata (.root id, l) (.root id, l')
  | arrive {id : Nat} {l l' l'' : Loader} {u : LoadedUnit} {task : GraphTask} :
      l.move id = (some (.ok u), l') → l'.startGraph metadata u = (task, l'') →
      BranchStep metadata (.root id, l) (.loading task, l'')
  | graph {task task' : GraphTask} {l l' : Loader} :
      GraphStep (task, l) (task', l') →
      BranchStep metadata (.loading task, l) (.loading task', l')

/-- A branch ends: its root fails, or its graph ends. -/
inductive BranchEnds : Branch × Loader → Except LoadError Graph × Loader → Prop where
  | root {id : Nat} {l l' : Loader} {e : LoadError} :
      l.move id = (some (.error e), l') → BranchEnds (.root id, l) (.error e, l')
  | graph {task : GraphTask} {l l' : Loader} {r : Except LoadError Graph} :
      GraphEnds (task, l) (r, l') → BranchEnds (.loading task, l) (r, l')

/-- A graph in a loader, as a branch. -/
def loading (c : GraphTask × Loader) : Branch × Loader := (.loading c.1, c.2)

theorem transGen_loading (metadata : Metadata) {c d : GraphTask × Loader}
    (h : TransGen GraphStep c d) : TransGen (BranchStep metadata) (loading c) (loading d) :=
  TransGen.lift loading (fun _ _ h => .graph h) _ _ h

theorem reflTransGen_loading (metadata : Metadata) {c d : GraphTask × Loader}
    (h : ReflTransGen GraphStep c d) :
    ReflTransGen (BranchStep metadata) (loading c) (loading d) :=
  ReflTransGen.lift loading (fun _ _ h => .graph h) _ _ h

theorem transGen_of_branchGraph_going (metadata : Metadata) {budget : Nat} {l l' : Loader}
    {task : GraphTask} {branch : Branch}
    (h : moveBranchGraph (budget + 1) l task = (.going branch, l')) :
    TransGen (BranchStep metadata) (.loading task, l) (branch, l') := by
  rw [moveBranchGraph] at h
  split at h
  · rename_i task' l₁ hm
    simp only [Prod.mk.injEq, Progress.going.injEq] at h
    obtain ⟨rfl, rfl⟩ := h
    exact transGen_loading metadata (transGen_of_going hm)
  · simp at h

theorem exists_of_branchGraph_done (metadata : Metadata) {budget : Nat} {l l' : Loader}
    {task : GraphTask} {r : Except LoadError Graph}
    (h : moveBranchGraph budget l task = (.done r, l')) :
    ∃ c, ReflTransGen (BranchStep metadata) (.loading task, l) c ∧ BranchEnds c (r, l') := by
  rw [moveBranchGraph] at h
  split at h
  · simp at h
  · rename_i r' l₁ hm
    simp only [Prod.mk.injEq, Progress.done.injEq] at h
    obtain ⟨rfl, rfl⟩ := h
    obtain ⟨c, hc, he⟩ := moveGraph_done hm
    exact ⟨loading c, reflTransGen_loading metadata hc, .graph he⟩

theorem moveBranch_refines (budget : Nat) (metadata : Metadata) :
    Refines (moveBranch (budget + 1) metadata) (BranchStep metadata) BranchEnds := by
  constructor
  · intro l l' branch branch' h
    cases branch with
    | loading task => exact transGen_of_branchGraph_going metadata h
    | root id =>
      rw [moveBranch] at h
      split at h
      · rename_i l₁ hm
        simp only [Prod.mk.injEq, Progress.going.injEq] at h
        obtain ⟨rfl, rfl⟩ := h
        exact .single (.wait hm)
      · simp at h
      · rename_i u l₁ hm
        exact .head (.arrive hm rfl) (transGen_of_branchGraph_going metadata h)
  · intro l l' branch r h
    cases branch with
    | loading task => exact exists_of_branchGraph_done metadata h
    | root id =>
      rw [moveBranch] at h
      split at h
      · simp at h
      · rename_i e l₁ hm
        simp only [Prod.mk.injEq, Progress.done.injEq] at h
        obtain ⟨rfl, rfl⟩ := h
        exact ⟨_, .refl, .root hm⟩
      · rename_i u l₁ hm
        obtain ⟨c, hc, he⟩ := exists_of_branchGraph_done metadata h
        exact ⟨c, .head (.arrive hm rfl) hc, he⟩

/-! ## Beginnings -/

/-- The load of a source text at hand. -/
def inlineLoad (l : Loader) (name : String) (options : RequestOptions) : Load :=
  { Load.start name .module (l.metadataOf options) with
    referrer := options.referrer
    address := options.address }

section Inline

variable {l l' : Loader} {purpose : Purpose} {name source : String} {referrer : Option String}
  {options : RequestOptions}

theorem startInline_of_ok {u : LoadedUnit}
    (h : l.loadInline (l.inlineLoad name options) source referrer = (.ok u, l')) :
    l.startInline purpose name source referrer options =
      (.graph purpose (l'.startGraph (l.metadataOf options) u).1,
        (l'.startGraph (l.metadataOf options) u).2) := by
  unfold inlineLoad at h
  simp only [startInline, h]

theorem startInline_of_error {e : LoadError}
    (h : l.loadInline (l.inlineLoad name options) source referrer = (.error e, l')) :
    l.startInline purpose name source referrer options = l'.rejectGraph purpose e := by
  unfold inlineLoad at h
  simp only [startInline, h]

end Inline

/-- How a request begins: it is an import, it is refused, a source at hand is loaded for it, or a
script is run. -/
inductive Starts (l : Loader) (options : RequestOptions) : Activity × Loader → Prop where
  | imports (specifier : String) : Starts l options (l.startImport specifier options)
  | misnamed {specifier : String} {e : LoadError} :
      l.nameOf specifier options.referrer = .error e → Starts l options (l.reject e)
  | taken (name : String) : Starts l options (l.reject (.instantiate name .alreadyDefined))
  | defines {name : String} (source : String) :
      l.registry.has name = false → name ∉ l.defining →
      Starts l options (startInline { l with defining := name :: l.defining }
        (.define name options.mode) name source (some name) options)
  | detached (source : String) : Starts l options
      (l.freshName.2.startInline .module l.freshName.1 source options.referrer options)
  | script (load : Load) : Starts l options (l.startScript load)
  | namelessScript (load : Load) : Starts l options (l.freshName.2.startScript load)

theorem start_starts (l : Loader) (request : Request) :
    Starts l request.options (l.start request) := by
  rcases request with ⟨demand, options⟩
  cases demand with
  | importModule specifier => exact .imports specifier
  | define given source =>
    simp only [start, startDefine]
    split
    · exact .misnamed ‹_›
    · split
      · exact .taken _
      · rename_i hfree
        rw [Bool.or_eq_true, not_or, Bool.not_eq_true, List.contains_iff_mem] at hfree
        exact .defines source hfree.1 hfree.2
  | script source =>
    simp only [start, startNamedScript]
    split
    · exact .namelessScript _
    · split
      · exact .misnamed ‹_›
      · exact .script _
  | module source => exact .detached source
  | scriptAt specifier =>
    simp only [start]
    split
    · exact .misnamed ‹_›
    · exact .script _

/-! ## Requests -/

/-- A request moves by one step. -/
inductive Advance : Activity × Loader → Activity × Loader → Prop where
  | tick {turns : Nat} {request : Request} {l : Loader} :
      Advance (.delayed (turns + 1) request, l) (.delayed turns request, l)
  | start {request : Request} {a : Activity} {l l' : Loader} :
      l.start request = (a, l') → Advance (.delayed 0 request, l) (a, l')
  | scriptWaits {load : Load} {address : String} {turns : Nat} {l : Loader} :
      Advance (.script load address (turns + 1), l) (.script load address turns, l)
  | scriptAnswered {load : Load} {address : String} {a : Activity} {l l' : Loader} :
      l.receiveScript load address = (a, l') → Advance (.script load address 0, l) (a, l')
  | rootWaits {name : String} {metadata : Metadata} {id : Nat} {l l' : Loader} :
      l.move id = (none, l') → Advance (.root name metadata id, l) (.root name metadata id, l')
  | rootFails {name : String} {metadata : Metadata} {id : Nat} {e : LoadError} {a : Activity}
      {l l' l'' : Loader} :
      l.move id = (some (.error e), l') → l'.reject e = (a, l'') →
      Advance (.root name metadata id, l) (a, l'')
  | rootArrives {name : String} {metadata : Metadata} {id : Nat} {u : LoadedUnit}
      {task : GraphTask} {l l' l'' : Loader} :
      l.move id = (some (.ok u), l') → l'.startGraph metadata u = (task, l'') →
      Advance (.root name metadata id, l) (.graph (.importModule name) task, l'')
  | graph {purpose : Purpose} {task task' : GraphTask} {l l' : Loader} :
      GraphStep (task, l) (task', l') → Advance (.graph purpose task, l) (.graph purpose task', l')
  | graphFails {purpose : Purpose} {task : GraphTask} {e : LoadError} {a : Activity}
      {l l' l'' : Loader} :
      GraphEnds (task, l) (.error e, l') → l'.rejectGraph purpose e = (a, l'') →
      Advance (.graph purpose task, l) (a, l'')
  | graphDone {purpose : Purpose} {task : GraphTask} {g : Graph} {a : Activity}
      {l l' l'' : Loader} :
      GraphEnds (task, l) (.ok g, l') → l'.settleGraph purpose g = (a, l'') →
      Advance (.graph purpose task, l) (a, l'')
  | branches {name : String} {metadata : Metadata} {b b' : Branches} {l l' : Loader} :
      Gathering.Step (BranchStep metadata) BranchEnds (b, l) (b', l') →
      Advance (.branches name metadata b, l) (.branches name metadata b', l')
  | branchesIdle {name : String} {metadata : Metadata} {b : Branches} {l : Loader} :
      b.running = [] → b.values? = none →
      Advance (.branches name metadata b, l) (.branches name metadata b, l)
  | branchesFail {name : String} {metadata : Metadata} {b : Branches} {e : LoadError}
      {a : Activity} {l l' l'' : Loader} :
      Fails BranchEnds (b, l) (e, l') → l'.reject e = (a, l'') →
      Advance (.branches name metadata b, l) (a, l'')
  | branchesDone {name : String} {metadata : Metadata} {b : Branches} {graphs : List Graph}
      {a : Activity} {l l' : Loader} :
      b.values? = some graphs →
      (graphs.foldl (fun l g => l.commit g.units) l).settleImport name = (a, l') →
      Advance (.branches name metadata b, l) (a, l')

/-- A graph in a loader, as the request that it is loaded for. -/
def graphOf (purpose : Purpose) (c : GraphTask × Loader) : Activity × Loader :=
  (.graph purpose c.1, c.2)

/-- Branches in a loader, as the request that they are loaded for. -/
def branchesOf (name : String) (metadata : Metadata) (c : Branches × Loader) :
    Activity × Loader :=
  (.branches name metadata c.1, c.2)

theorem reflTransGen_graphOf (purpose : Purpose) {c d : GraphTask × Loader}
    (h : ReflTransGen GraphStep c d) :
    ReflTransGen Advance (graphOf purpose c) (graphOf purpose d) :=
  ReflTransGen.lift (graphOf purpose) (fun _ _ h => .graph h) _ _ h

theorem transGen_graphOf (purpose : Purpose) {c d : GraphTask × Loader}
    (h : TransGen GraphStep c d) : TransGen Advance (graphOf purpose c) (graphOf purpose d) :=
  TransGen.lift (graphOf purpose) (fun _ _ h => .graph h) _ _ h

theorem reflTransGen_branchesOf (name : String) (metadata : Metadata) {c d : Branches × Loader}
    (h : ReflTransGen (Gathering.Step (BranchStep metadata) BranchEnds) c d) :
    ReflTransGen Advance (branchesOf name metadata c) (branchesOf name metadata d) :=
  ReflTransGen.lift (branchesOf name metadata) (fun _ _ h => .branches h) _ _ h

theorem transGen_branchesOf (name : String) (metadata : Metadata) {c d : Branches × Loader}
    (h : TransGen (Gathering.Step (BranchStep metadata) BranchEnds) c d) :
    TransGen Advance (branchesOf name metadata c) (branchesOf name metadata d) :=
  TransGen.lift (branchesOf name metadata) (fun _ _ h => .branches h) _ _ h

theorem advanceGraph_advances (budget : Nat) (l : Loader) (purpose : Purpose)
    (task : GraphTask) :
    TransGen Advance (.graph purpose task, l) (advanceGraph (budget + 1) l purpose task) := by
  rw [advanceGraph]
  split
  · rename_i task' l' hm
    exact transGen_graphOf purpose (transGen_of_going hm)
  · rename_i e l' hm
    obtain ⟨c, hc, he⟩ := moveGraph_done hm
    exact .tail' (reflTransGen_graphOf purpose hc) (.graphFails he rfl)
  · rename_i g l' hm
    obtain ⟨c, hc, he⟩ := moveGraph_done hm
    exact .tail' (reflTransGen_graphOf purpose hc) (.graphDone he rfl)

theorem advanceRoot_advances (budget : Nat) (l : Loader) (name : String) (metadata : Metadata)
    (id : Nat) :
    TransGen Advance (.root name metadata id, l) (advanceRoot (budget + 1) l name metadata id) := by
  rw [advanceRoot]
  split
  · rename_i l' hm
    exact .single (.rootWaits hm)
  · rename_i e l' hm
    exact .single (.rootFails hm rfl)
  · rename_i u l' hm
    exact .head (.rootArrives hm rfl) (advanceGraph_advances budget _ _ _)

theorem advanceBranches_advances (budget : Nat) (l : Loader) (name : String)
    (metadata : Metadata) (b : Branches) :
    TransGen Advance (.branches name metadata b, l)
      (advanceBranches (budget + 1) l name metadata b) := by
  have hr := moveBranch_refines budget metadata
  rw [advanceBranches]
  split
  · rename_i e l' hm
    obtain ⟨c, hc, hf⟩ := move_error hr hm
    exact .tail' (reflTransGen_branchesOf name metadata hc) (.branchesFail hf rfl)
  · rename_i b' l' hm
    split
    · rename_i hv
      rcases move_ok hr hm with ⟨hn, rfl, rfl⟩ | ht
      · exact .single (.branchesIdle hn hv)
      · exact transGen_branchesOf name metadata ht
    · rename_i graphs hv
      have hd : Advance (branchesOf name metadata (b', l'))
          ((graphs.foldl (fun l g => l.commit g.units) l').settleImport name) :=
        .branchesDone hv rfl
      rcases move_ok hr hm with ⟨-, rfl, rfl⟩ | ht
      · exact .single hd
      · exact (transGen_branchesOf name metadata ht).tail hd

theorem advance_advances (budget : Nat) (l : Loader) (a : Activity) :
    ReflTransGen Advance (a, l) (advance (budget + 1) l a) := by
  cases a with
  | root name metadata id => exact (advanceRoot_advances budget l _ _ _).to_reflTransGen
  | graph purpose task => exact (advanceGraph_advances budget l _ _).to_reflTransGen
  | branches name metadata b => exact (advanceBranches_advances budget l _ _ _).to_reflTransGen
  | _ => exact .refl

/-- A turn is a row of steps, and not an empty one unless the request is settled. -/
theorem turn_advances (budget : Nat) (l : Loader) {a : Activity} (ha : a.isSettled = false) :
    TransGen Advance (a, l) (turn (budget + 1) l a) := by
  cases a with
  | delayed turns request =>
    cases turns with
    | zero => exact .head' (.start rfl) (advance_advances budget _ _)
    | succ turns => exact .single .tick
  | script load address turns =>
    cases turns with
    | zero => exact .single (.scriptAnswered rfl)
    | succ turns => exact .single .scriptWaits
  | root name metadata id => exact advanceRoot_advances budget l name metadata id
  | graph purpose task => exact advanceGraph_advances budget l purpose task
  | branches name metadata b => exact advanceBranches_advances budget l name metadata b
  | settled result => simp [Activity.isSettled] at ha

theorem turn_settled (budget : Nat) (l : Loader) {a : Activity} (ha : a.isSettled = true) :
    turn budget l a = (a, l) := by
  cases a with
  | settled result => rfl
  | _ => simp [Activity.isSettled] at ha

/-- A turn is a row of steps, which may be empty. -/
theorem turn_steps (budget : Nat) (l : Loader) (a : Activity) :
    ReflTransGen Advance (a, l) (turn (budget + 1) l a) := by
  cases ha : a.isSettled with
  | true => rw [turn_settled _ _ ha]
  | false => exact (turn_advances budget l ha).to_reflTransGen

theorem not_advance_settled {r : Except LoadError Answer} {l : Loader} {c : Activity × Loader} :
    ¬ Advance (.settled r, l) c := by
  intro h
  cases h

/-- What every step preserves holds after every turn. -/
theorem turn_preserves {P : Activity → Loader → Prop} (budget : Nat)
    (hp : ∀ {a a' : Activity} {l l' : Loader}, Advance (a, l) (a', l') → P a l → P a' l')
    {l : Loader} {a : Activity} (h : P a l) :
    P (turn (budget + 1) l a).1 (turn (budget + 1) l a).2 := by
  cases ha : a.isSettled with
  | true => simpa [turn_settled _ l ha] using h
  | false =>
    have ht := turn_advances budget l ha
    generalize turn (budget + 1) l a = c at ht
    induction ht with
    | single hs => exact hp hs h
    | tail _ hs ih => exact hp hs ih

end ModuleLoader.Loader

import ModuleLoader.Proofs.Registry.Outcomes
import ModuleLoader.Proofs.Registry.Watching
import ModuleLoader.Proofs.Text.Segments

/-! # Cycles

A body only runs when everything that its record needs has been left, so no body runs whose record
lies on a cycle. A traversal that comes back to a name on its path has gone around a cycle, and the
path from there on leads around it.
-/

namespace ModuleLoader.Registry

open Dialect Relation

variable {β σ : Type} {run : Runner β σ} {r : Registry β} {world : σ} {name : String}

/-- A way around a cycle. It goes along the dependencies of records that wait, and passes no name
twice before it is back at the one from which it starts. -/
structure IsCircuit (r : Registry β) (start : String) (path : List String) : Prop where
  closed : ∃ inner, path = start :: inner ++ [start] ∧ (start :: inner).Nodup
  chain : path.IsChain r.Needs
  waits : ∀ x ∈ path, r.Waits x

/-- Bodies that have run, and what came of them, oldest first. -/
abbrev Log (β : Type) := List (β × Except LoadError Namespace)

/-- The bodies that have run. -/
def Log.bodies (log : Log β) : List β := log.map Prod.fst

/-- Run bodies and keep a log of them. -/
def logging (run : Runner β σ) : Runner β (σ × Log β) := fun body imports world =>
  ((run body imports world.1).1,
    (run body imports world.1).2, world.2 ++ [(body, (run body imports world.1).1)])

/-- The log of an evaluation. -/
def evaluationLog (run : Runner β σ) (r : Registry β) (world : σ) (name : String) : Log β :=
  (r.evaluate (logging run) (world, []) name).2.world.2

/-! ## Logs -/

section Logs

theorem watchedEvaluate_const (run : Runner β σ) (r : Registry β) (world : σ) (name : String) :
    r.watchedEvaluate (fun _ => run) world name = r.evaluate run world name :=
  map_watchedEvaluate (f := id) (fun _ _ _ _ => rfl) r world name

/-- A log changes nothing else. -/
theorem evaluate_logging (run : Runner β σ) (r : Registry β) (world : σ) (name : String) :
    Prod.map id (Pass.map Prod.fst) (r.evaluate (logging run) (world, []) name) =
      r.evaluate run world name := by
  rw [← watchedEvaluate_const]
  exact map_watchedEvaluate (f := Prod.fst) (fun _ _ _ _ => rfl) r (world, []) name

theorem log_of_logging {body : β} {imports : Imports} {world after : σ × Log β}
    {result : Except LoadError Namespace} (h : logging run body imports world = (result, after)) :
    after.2 = world.2 ++ [(body, result)] := by
  cases h
  rfl

theorem Finishes.body?_of_ready {order : List String} {s t : Pass β σ} {n : String}
    {record : Record β} {body : β} {imports : Imports} (h : Finishes run s order t)
    (hready : t.registry.Ready n record body imports) : s.registry.body? n = some body :=
  body?_of_slot (h.turns.of_waiting hready.get hready.slot).2 hready.slot

/-- The log has the bodies of the names in their order. -/
theorem Finishes.map_body? {order : List String} {s t : Pass β (σ × Log β)}
    (h : Finishes (logging run) s order t) (hs : s.world.2 = []) :
    order.map s.registry.body? = t.world.2.bodies.map some := by
  induction h with
  | nil => rw [hs]; rfl
  | @concat order t n record body imports ns world ht hready hrun ih =>
    simp [ih, ht.body?_of_ready hready, log_of_logging hrun, Log.bodies]

end Logs

/-! ## Cycles on the way -/

/-- A row of names that wait and need one another, the last one of them a name of the row, ends in a
circuit. -/
theorem isCircuit_cycle {names : List String} {d : String} (hnodup : names.Nodup)
    (hchain : (names ++ [d]).IsChain r.Needs) (hwaits : ∀ x ∈ names, r.Waits x)
    (hd : d ∈ names) : r.IsCircuit d (cycle names d) := by
  obtain ⟨before, inner, rfl, hbefore⟩ := List.eq_append_cons_of_mem hd
  have hcycle : cycle (before ++ d :: inner) d = d :: inner ++ [d] := by
    rw [cycle, dropWhile_append_stop (fun x hx => by simpa using ne_of_mem_of_not_mem hx hbefore)
      (by simp)]
  rw [hcycle]
  refine ⟨⟨inner, rfl, (List.nodup_append.1 hnodup).2.1⟩, ?_, fun x hx => ?_⟩
  · rw [List.append_assoc] at hchain
    exact hchain.right_of_append
  · rcases List.mem_append.1 hx with hx | hx
    · exact hwaits x (List.mem_append_right _ hx)
    · exact hwaits x (List.mem_singleton.1 hx ▸ hd)

namespace Traversal

variable {t : Traversal} {n d : String} {todo order : List String}
  {path : List (String × List String)}

/-- What is needed by a name that was left, and waits, was left before. -/
theorem Sound.mem_of_transGen (hr : r.Resting) (h : Sound r name t) {x y : String}
    {before after : List String} (hx : t.order = before ++ x :: after)
    (hreach : TransGen r.Needs x y) (hy : r.Waits y) : y ∈ before := by
  induction hreach with
  | single hxy => exact (h.ordered before x after hx _ hxy).resolve_right hy.not_isEvaluated
  | @tail y z _ hyz ih =>
    obtain ⟨front, back, hsplit⟩ := List.append_of_mem (ih (hr.waits_of_needs hyz))
    have hyorder : t.order = front ++ y :: (back ++ x :: after) := by rw [hx, hsplit]; simp
    rw [hsplit]
    exact List.mem_append_left _
      ((h.ordered front y _ hyorder z hyz).resolve_right hy.not_isEvaluated)

/-- No name that was left lies on a cycle. -/
theorem Sound.not_cyclic (hr : r.Resting) (h : Sound r name t) {x : String} (hx : x ∈ t.order) :
    ¬TransGen r.Needs x x := by
  intro hcycle
  obtain ⟨before, after, hsplit⟩ := List.append_of_mem hx
  have hwaits := (h.pending x (List.mem_append_right _ hx)).1
  have hback := h.mem_of_transGen hr hsplit hcycle hwaits
  have hnodup := (List.nodup_append.1 h.nodup).2.1
  rw [hsplit] at hnodup
  exact (List.nodup_append.1 hnodup).2.2 x hback x List.mem_cons_self rfl

/-- The path of a traversal that comes back to a name goes around a cycle from there on. -/
theorem Sound.isCircuit (h : Sound r name ⟨(n, d :: todo) :: path, order⟩)
    (hd : d ∈ entered ⟨(n, d :: todo) :: path, order⟩) :
    r.IsCircuit d (cycle (n :: path.map Prod.fst).reverse d) := by
  refine isCircuit_cycle ?_ ?_ (fun x hx => ?_) (List.mem_reverse.2 hd)
  · exact List.nodup_reverse.2 (List.nodup_append.1 h.nodup).1
  · rw [← List.reverse_cons, List.isChain_reverse]
    exact .cons_cons h.needs_next h.chain
  · exact (h.pending x (List.mem_append_left _ (List.mem_reverse.1 hx))).1

end Traversal

/-! ## Evaluations -/

/-- The bodies of a log are those of different records, none of which lies on a cycle. -/
def OffCycles (r : Registry β) (log : Log β) : Prop :=
  ∃ names : List String, names.Nodup ∧ names.map r.body? = log.bodies.map some ∧
    ∀ x ∈ names, ¬TransGen r.Needs x x

section Evaluations

theorem offCycles_nil (r : Registry β) : r.OffCycles [] :=
  ⟨[], List.nodup_nil, rfl, List.forall_mem_nil _⟩

theorem offCycles_order (hr : r.Resting) {t : Traversal} (ht : t.Sound r name) {log : Log β}
    (hlog : t.order.map r.body? = log.bodies.map some) : r.OffCycles log :=
  ⟨t.order, (List.nodup_append.1 ht.nodup).2.1, hlog, fun _ hx => ht.not_cyclic hr hx⟩

theorem Stops.offCycles (hr : r.Resting) {s : Pass β (σ × Log β)} {t : Traversal} {e : LoadError}
    {after : σ × Log β} (h : Stops (logging run) s t e after) (ht : r.Traverses name t)
    (hrun : Finishes (logging run) ⟨r, world, []⟩ t.order s) : r.OffCycles after.2 := by
  cases h with
  | cyclic => exact offCycles_order hr ht.sound (hrun.map_body? rfl)
  | @body n order path record body imports e after hready hfails =>
    -- the name whose body fails is not left, but all that it needs is
    refine offCycles_order hr ht.sound.leave ?_
    have hlast : r.body? n = some body := hrun.body?_of_ready hready
    simp [hrun.map_body? rfl, hlast, log_of_logging hfails, Log.bodies]

/-- The bodies that run in an evaluation are off the cycles. -/
theorem Outcome.offCycles (hr : r.Resting)
    {out : Except LoadError Namespace × Pass β (σ × Log β)}
    (h : Outcome (logging run) r (world, []) name out) : r.OffCycles out.2.world.2 := by
  cases h with
  | incomplete => exact offCycles_nil r
  | succeeds _ ht hrun => exact offCycles_order hr ht.sound (hrun.map_body? rfl)
  | stops _ ht hrun hstops => exact hstops.offCycles hr ht hrun

theorem Stops.isCircuit {s : Pass β (σ × Log β)} {t : Traversal} {m : String} {path : List String}
    {after : σ × Log β} (h : Stops (logging run) s t (.instantiate m (.cyclic path)) after)
    (ht : r.Traverses name t) : r.IsCircuit m path ∨
      ∃ body, (body, .error (.instantiate m (.cyclic path))) ∈ after.2 := by
  cases h with
  | cyclic hd => exact .inl (ht.sound.isCircuit hd)
  | @body n order _ record body imports e after hready hfails =>
    refine .inr ⟨body, ?_⟩
    rw [log_of_logging hfails]
    exact List.mem_append_right _ List.mem_cons_self

/-- An error that names a cycle names a circuit, unless a body has ended with that very error. -/
theorem Outcome.isCircuit {out : Except LoadError Namespace × Pass β (σ × Log β)}
    (h : Outcome (logging run) r (world, []) name out) {m : String} {path : List String}
    (he : out.1 = .error (.instantiate m (.cyclic path))) : r.IsCircuit m path ∨
      ∃ body, (body, .error (.instantiate m (.cyclic path))) ∈ out.2.world.2 := by
  cases h with
  | incomplete => cases he
  | succeeds => cases he
  | stops _ ht _ hstops =>
    cases he
    exact hstops.isCircuit ht

/-- No evaluation runs the body of a record on a cycle. A cycle that an error names is one: it comes
back to its start, passes no other name twice, and goes along the dependencies of records that
wait. -/
theorem evaluate_avoids_cycles (run : Runner β σ) (hr : r.Resting) (world : σ) (name : String) :
    Prod.map id (Pass.map Prod.fst) (r.evaluate (logging run) (world, []) name) =
      r.evaluate run world name ∧
    r.OffCycles (r.evaluationLog run world name) ∧
    (∀ x body, r.body? x = some body → TransGen r.Needs x x →
      (∀ y, r.body? y = some body → y = x) → body ∉ (r.evaluationLog run world name).bodies) ∧
    ∀ m path, (r.evaluate run world name).1 = .error (.instantiate m (.cyclic path)) →
      r.IsCircuit m path ∨ ∃ body, (body, .error (.instantiate m (.cyclic path))) ∈
        r.evaluationLog run world name := by
  have hsame := evaluate_logging run r world name
  have hoff : r.OffCycles (r.evaluationLog run world name) := by
    by_cases hw : r.Waits name
    · exact (evaluate_outcome (logging run) hr (world, []) hw).offCycles hr
    · rw [evaluationLog]
      rcases evaluate_of_not_waits (logging run) hr (world, []) hw with h | ⟨ns, h⟩ <;>
        exact h ▸ offCycles_nil r
  refine ⟨hsame, hoff, fun x body hx hcycle hunique hmem => ?_, fun m path he => ?_⟩
  · obtain ⟨names, -, hbodies, hnames⟩ := hoff
    have hbody : some body ∈ names.map r.body? := hbodies ▸ List.mem_map_of_mem hmem
    obtain ⟨y, hy, hyb⟩ := List.mem_map.1 hbody
    exact hnames y hy (hunique y hyb ▸ hcycle)
  · rw [← hsame] at he
    by_cases hw : r.Waits name
    · exact (evaluate_outcome (logging run) hr (world, []) hw).isCircuit he
    · rcases evaluate_of_not_waits (logging run) hr (world, []) hw with h | ⟨ns, h⟩ <;>
        rw [h] at he <;> cases he

/-- Two records that need one another. Another one needs them, and a fourth that is needed first. -/
def knot : Registry String :=
  ((((Registry.empty.commit "d" (.waiting none [] "d")).commit "a"
    (.waiting none [⟨"d", "d"⟩, ⟨"b", "b"⟩] "a")).commit "b"
      (.waiting none [⟨"a", "a"⟩] "b")).commit "c" (.waiting none [⟨"d", "d"⟩, ⟨"a", "a"⟩] "c"))

theorem knot_resting : knot.Resting :=
  empty_resting.commit_waiting.commit_waiting.commit_waiting.commit_waiting

theorem eq_of_knot_body? {x y : String} (h : knot.body? x = some y) : x = y := by
  have hall : ∀ entry ∈ knot.records.entries, entry.2.body? = some entry.1 := by decide +kernel
  obtain ⟨record, hg, hbody⟩ := Option.bind_eq_some_iff.1 h
  have := hall (x, record) ((knot.records.mem_entries_iff x record).2 hg)
  rw [hbody, Option.some.injEq] at this
  exact this.symm

theorem evaluate_avoids_cycles_knot : knot.Resting ∧
    (knot.evaluate (listedRun none) [] "c").1 =
      .error (.instantiate "a" (.cyclic ["a", "b", "a"])) ∧
    knot.IsCircuit "a" ["a", "b", "a"] ∧
    (knot.evaluationLog (listedRun none) [] "c").bodies = ["d"] ∧
    "a" ∉ (knot.evaluationLog (listedRun none) [] "c").bodies := by
  have herror : (knot.evaluate (listedRun none) [] "c").1 =
      .error (.instantiate "a" (.cyclic ["a", "b", "a"])) := by
    have hmissing : knot.missingFor "c" (.waiting none [⟨"d", "d"⟩, ⟨"a", "a"⟩] "c") = [] := by
      decide +kernel
    rw [evaluate_waits (listedRun none) [] rfl rfl, guarded, hmissing]
    rfl
  have hbodies : (knot.evaluationLog (listedRun none) [] "c").bodies = ["d"] := by decide +kernel
  have hended : ((knot.evaluationLog (listedRun none) [] "c").all fun run =>
      run.2.toOption.isSome) = true := by decide +kernel
  obtain ⟨-, -, hspared, hnamed⟩ := evaluate_avoids_cycles (listedRun none) knot_resting [] "c"
  have hcircuit : knot.IsCircuit "a" ["a", "b", "a"] := by
    refine (hnamed "a" _ herror).resolve_right ?_
    rintro ⟨body, hmem⟩
    cases List.all_eq_true.1 hended _ hmem
  obtain ⟨hab, hba⟩ := List.isChain_cons_cons.1 hcircuit.chain
  have hcycle : TransGen knot.Needs "a" "a" := .tail (.single hab) (List.isChain_pair.1 hba)
  exact ⟨knot_resting, herror, hcircuit, hbodies,
    hspared "a" "a" rfl hcycle fun y hy => eq_of_knot_body? hy⟩

end Evaluations

end ModuleLoader.Registry

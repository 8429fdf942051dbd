import ModuleLoader.Proofs.Registry.DepthFirst

/-! # Outcomes of an evaluation

An evaluation of a name that waits is a depth-first traversal that runs a body whenever it leaves a
record. It does nothing if a record is missing. Otherwise it leaves everything that waits below the
name, or stops at a cycle or at a body that fails, and removes what it has entered and not left.
-/

namespace ModuleLoader.Registry

open Dialect Relation

variable {β σ : Type} {run : Runner β σ} {r : Registry β} {world : σ} {name : String}

/-- All dependencies of what waits below a name are registered. -/
def Complete (r : Registry β) (name : String) : Prop :=
  ∀ x y, r.Pending name x → r.Needs x y → r.get? y ≠ none

/-- Nothing that waits below a name needs itself. -/
def Acyclic (r : Registry β) (name : String) : Prop :=
  ∀ x, r.Pending name x → ¬ TransGen r.Needs x x

/-- The bodies of some names run one after the other, each with the namespaces of its dependencies,
and come to their ends. -/
inductive Finishes (run : Runner β σ) (s : Pass β σ) : List String → Pass β σ → Prop where
  | nil : Finishes run s [] s
  | concat {order : List String} {t : Pass β σ} {n : String} {record : Record β} {body : β}
      {imports : Imports} {ns : Namespace} {world : σ} : Finishes run s order t →
      t.registry.Ready n record body imports → run body imports t.world = (.ok ns, world) →
      Finishes run s (order ++ [n]) ⟨t.registry.setSlot n (.evaluated ns), world⟩

/-- Of the bodies of some names, run one after the other, none fails. -/
def Unfailing (run : Runner β σ) (s : Pass β σ) (order : List String) : Prop :=
  ∀ before n after t, order = before ++ n :: after → Finishes run s before t →
    ∀ record body imports e world, t.registry.Ready n record body imports →
      run body imports t.world ≠ (.error e, world)

/-- What stops a traversal with an error: it comes back to a name that it has not left, or the body
of the name that it is about to leave fails. -/
inductive Stops (run : Runner β σ) (s : Pass β σ) : Traversal → LoadError → σ → Prop where
  | cyclic {n d : String} {todo order : List String} {path : List (String × List String)} :
      d ∈ Traversal.entered ⟨(n, d :: todo) :: path, order⟩ →
      Stops run s ⟨(n, d :: todo) :: path, order⟩
        (.instantiate d (.cyclic (cycle (n :: path.map Prod.fst).reverse d))) s.world
  | body {n : String} {order : List String} {path : List (String × List String)}
      {record : Record β} {body : β} {imports : Imports} {e : LoadError} {world : σ} :
      s.registry.Ready n record body imports → run body imports s.world = (.error e, world) →
      Stops run s ⟨(n, []) :: path, order⟩ e world

/-- Some records are evaluated now, some are removed, and all others are as before. -/
structure Turns (r r' : Registry β) (done gone : List String) : Prop where
  evaluated : ∀ x ∈ done, ∃ record ns, r.get? x = some record ∧
    r'.get? x = some { record with slot := .evaluated ns }
  removed : ∀ x ∈ gone, r'.get? x = none
  others : ∀ x, x ∉ done → x ∉ gone → r'.get? x = r.get? x

/-! ## Rows of bodies -/

/-- What waits in the end has waited all the time. -/
theorem Turns.of_waiting {r' : Registry β} {done : List String} {n : String} {record : Record β}
    {body : β} (h : Turns r r' done []) (hg : r'.get? n = some record)
    (hs : record.slot = .waiting body) : n ∉ done ∧ r.get? n = some record := by
  have hn : n ∉ done := by
    intro hn
    obtain ⟨record', ns, -, hg'⟩ := h.evaluated n hn
    rw [hg, Option.some.injEq] at hg'
    rw [hg'] at hs
    cases hs
  exact ⟨hn, (h.others n hn List.not_mem_nil).symm.trans hg⟩

section Finishes

variable {s t : Pass β σ} {order : List String}

theorem Finishes.rows (h : Finishes run s order t) : ReflTransGen (Ran run) s t := by
  induction h with
  | nil => exact .refl
  | concat _ hr hrun ih => exact ih.tail (.mk hr hrun)

/-- The records whose bodies run are evaluated afterwards, and no others change. -/
theorem Finishes.turns (h : Finishes run s order t) : Turns s.registry t.registry order [] := by
  induction h with
  | nil => exact ⟨List.forall_mem_nil _, List.forall_mem_nil _, fun _ _ _ => rfl⟩
  | @concat order t n record body imports ns world _ hr _ ih =>
    obtain ⟨hn, hback⟩ := ih.of_waiting hr.get hr.slot
    refine ⟨List.forall_mem_append.2 ⟨fun x hx => ?_, List.forall_mem_singleton.2 ?_⟩,
      List.forall_mem_nil _, fun x hx _ => ?_⟩
    · obtain ⟨record', ns', hg, hg'⟩ := ih.evaluated x hx
      refine ⟨record', ns', hg, ?_⟩
      rwa [get?_setSlot, if_neg (ne_of_mem_of_not_mem hx hn)]
    · refine ⟨record, ns, hback, ?_⟩
      rw [get?_setSlot, if_pos rfl, hr.get, Option.map_some]
    · rw [List.mem_append, List.mem_singleton, not_or] at hx
      rw [get?_setSlot, if_neg hx.2]
      exact ih.others x hx.1 List.not_mem_nil

end Finishes

/-! ## Passes along a traversal -/

/-- A pass that evaluates a name stands where a traversal stands: the bodies of the names that were
left have run, and those that are entered are marked. -/
structure Stands (run : Runner β σ) (r : Registry β) (world : σ) (name : String) (t : Traversal)
    (s p : Pass β σ) : Prop where
  traverses : r.Traverses name t
  finishes : Finishes run ⟨r, world⟩ t.order s
  marks : Marks t.entered s.registry p.registry
  world : p.world = s.world

/-- How a part of a pass ends: it comes to a given path with a result, or the traversal stops. -/
inductive Ends (run : Runner β σ) (r : Registry β) (world : σ) (name : String)
    (path : List (String × List String)) (s : Pass β σ) {α : Type} (P : Registry β → α → Prop) :
    Except LoadError α × Pass β σ → Prop where
  | ok {a : α} {order : List String} {s' q : Pass β σ} :
      Stands run r world name ⟨path, order⟩ s' q → ReflTransGen (Ran run) s s' →
      P s'.registry a → Ends run r world name path s P (.ok a, q)
  | error {t : Traversal} {e : LoadError} {s' q : Pass β σ} :
      r.Traverses name t → Finishes run ⟨r, world⟩ t.order s' →
      Marks t.entered s'.registry q.registry → Stops run s' t e q.world →
      Ends run r world name path s P (.error e, q)

/-- A name is evaluated, with some namespace. -/
def Yields (n : String) (r : Registry β) (ns : Namespace) : Prop :=
  (r.get? n).bind Record.namespace? = some ns

theorem Marks.congr {path path' : List String} {r r' : Registry β} (h : Marks path r r')
    (hp : ∀ n, n ∈ path ↔ n ∈ path') : Marks path' r r' := fun n => by
  simpa only [hp] using h n

section Stands

variable {n d : String} {todo order : List String} {path : List (String × List String)}
  {s p : Pass β σ}

/-- What is evaluated in a pass was evaluated before, or its body has run. -/
theorem Stands.usable {t : Traversal} (h : Stands run r world name t s p)
    (hd : s.registry.IsEvaluated d) : d ∈ t.order ∨ r.IsEvaluated d := by
  by_cases hn : d ∈ t.order
  · exact .inl hn
  · right
    rwa [IsEvaluated, ← h.finishes.turns.others d hn List.not_mem_nil]

theorem Stands.mem_entered (hr : r.Resting) {t : Traversal} (h : Stands run r world name t s p)
    {record : Record β} (hg : p.registry.get? d = some record) (hs : record.slot = .evaluating) :
    d ∈ t.entered :=
  h.marks.mem_of_evaluating hg hs (rows_resting h.finishes.rows hr d)

/-- A dependency that still waits is entered. -/
theorem Stands.enter (h : Stands run r world name ⟨(n, d :: todo) :: path, order⟩ s p)
    {record : Record β} {body : β} (hg : p.registry.get? d = some record)
    (hs : record.slot = .waiting body) :
    r.get? d = some record ∧ Stands run r world name
      ⟨(d, record.dependencies.map Dependency.name) :: (n, d :: todo) :: path, order⟩ s
      { p with registry := p.registry.setSlot d .evaluating } := by
  obtain ⟨he, hgs⟩ := h.marks.of_slot hg (by simp [hs])
  obtain ⟨hn, hgr⟩ := h.finishes.turns.of_waiting hgs hs
  obtain ⟨dependencies, ho, hsteps⟩ := h.traverses
  refine ⟨hgr, ⟨dependencies, ho, hsteps.tail (.enter ⟨record, body, hgr, hs, rfl⟩ hn he)⟩,
    h.finishes, (h.marks.enter d).congr fun x => ?_, h.world⟩
  simp [Traversal.entered, or_left_comm, or_comm]

/-- A dependency that is evaluated is skipped. -/
theorem Stands.skip (h : Stands run r world name ⟨(n, d :: todo) :: path, order⟩ s p)
    (hd : s.registry.IsEvaluated d) :
    Stands run r world name ⟨(n, todo) :: path, order⟩ s p := by
  obtain ⟨dependencies, ho, hsteps⟩ := h.traverses
  exact ⟨⟨dependencies, ho, hsteps.tail (.skip (h.usable hd))⟩, h.finishes, h.marks, h.world⟩

/-- A name whose dependencies have been looked at is left when its body has run. -/
theorem Stands.leave (h : Stands run r world name ⟨(n, []) :: path, order⟩ s p)
    {record : Record β} {body : β} {imports : Imports} {ns : Namespace} {world' : σ}
    (hready : s.registry.Ready n record body imports)
    (hrun : run body imports s.world = (.ok ns, world')) :
    Stands run r world name ⟨path, order ++ [n]⟩ ⟨s.registry.setSlot n (.evaluated ns), world'⟩
      ⟨p.registry.setSlot n (.evaluated ns), world'⟩ := by
  obtain ⟨dependencies, ho, hsteps⟩ := h.traverses
  have hmarks : Marks (Traversal.entered ⟨path, order⟩ ++ [n]) s.registry p.registry :=
    h.marks.congr fun x => by simp [Traversal.entered, or_comm]
  exact ⟨⟨dependencies, ho, hsteps.tail .leave⟩, h.finishes.concat hready hrun,
    hmarks.leave h.traverses.sound.notMem_entered, rfl⟩

theorem Yields.isEvaluated {ns : Namespace} (h : Yields d r ns) : r.IsEvaluated d := by
  obtain ⟨record, hg, hns⟩ := Option.bind_eq_some_iff.1 h
  cases hs : record.slot with
  | evaluated ns' => exact ⟨record, ns', hg, hs⟩
  | waiting | evaluating => simp [Record.namespace?, hs] at hns

/-- In a complete registry the dependencies of what is entered have records. -/
theorem Stands.registered (hc : r.Complete name)
    (h : Stands run r world name ⟨(n, d :: todo) :: path, order⟩ s p) :
    p.registry.get? d ≠ none := by
  intro hg
  have hsound := h.traverses.sound
  refine hc n d (hsound.pending n List.mem_cons_self) hsound.needs_next ?_
  exact (rows_none h.finishes.rows).1 (h.marks.none hg)

/-- The dependencies of a record are looked at one after the other. -/
theorem importAll_ends {visit : String → Record β → Pass β σ →
      Except LoadError Namespace × Pass β σ} (hc : r.Complete name)
    (hv : ∀ {d todo order s p record}, Stands run r world name ⟨(n, d :: todo) :: path, order⟩ s p →
      p.registry.get? d = some record →
      Ends run r world name ((n, todo) :: path) s (Yields d) (visit d record p))
    {dependencies : List Dependency} (importer : String) (imports : Imports)
    (h : Stands run r world name ⟨(n, dependencies.map Dependency.name) :: path, order⟩ s p) :
    Ends run r world name ((n, []) :: path) s
      (fun r imports' => r.importsOf? imports dependencies = some imports')
      (importAll visit importer imports p dependencies) := by
  induction dependencies generalizing imports order s p with
  | nil => exact .ok h .refl rfl
  | cons d rest ih =>
    obtain ⟨record, hg⟩ := Option.ne_none_iff_exists'.1 (h.registered hc)
    have hvisit := hv h hg
    rw [importAll, hg]
    simp only
    generalize visit d.name record p = out at hvisit
    cases hvisit with
    | error ht hrun hm hstops => exact .error ht hrun hm hstops
    | @ok ns order' s' q h' hrows hns =>
      have hrest := ih (imports.insert d.specifier ns) h'
      simp only
      generalize importAll visit importer _ q rest = out at hrest
      cases hrest with
      | error ht hrun hm hstops => exact .error ht hrun hm hstops
      | @ok _ _ _ _ h'' hrows' himp =>
        refine .ok h'' (hrows.trans hrows') ?_
        rw [importsOf?, rows_namespace? hrows' hns]
        exact himp

/-- A record that waits is left when its dependencies have been looked at and its body has run. -/
theorem visit_waiting_ends {depth : Nat} (hc : r.Complete name)
    (hv : ∀ {d todo order s p record}, Stands run r world name ⟨(n, d :: todo) :: path, order⟩ s p →
      p.registry.get? d = some record → Ends run r world name ((n, todo) :: path) s (Yields d)
        (visit run depth (n :: path.map Prod.fst).reverse d record p))
    {record : Record β} {body : β} (hg : r.get? n = some record)
    (hs : record.slot = .waiting body)
    (h : Stands run r world name ⟨(n, record.dependencies.map Dependency.name) :: path, order⟩ s
      { p with registry := p.registry.setSlot n .evaluating }) :
    Ends run r world name path s (Yields n)
      (visit run (depth + 1) (path.map Prod.fst).reverse n record p) := by
  have himports := importAll_ends hc hv n .empty h
  rw [List.reverse_cons] at himports
  rw [visit, hs]
  simp only
  generalize importAll _ n .empty _ record.dependencies = out at himports
  cases himports with
  | error ht hrun hm hstops => exact .error ht hrun hm hstops
  | @ok imports order' s' q h' hrows himp =>
    have hgs : s'.registry.get? n = some record :=
      (h'.finishes.turns.others n h'.traverses.sound.notMem_order List.not_mem_nil).trans hg
    have hready : s'.registry.Ready n record body imports := ⟨hgs, hs, himp⟩
    simp only
    split
    · rename_i e world' hrun
      rw [h'.world] at hrun
      exact .error h'.traverses h'.finishes h'.marks (.body hready hrun)
    · rename_i ns world' hrun
      rw [h'.world] at hrun
      refine .ok (h'.leave hready hrun) (hrows.tail (.mk hready hrun)) ?_
      rw [Yields, get?_setSlot, if_pos rfl, hgs]
      rfl

/-- A visit of the next dependency leads past it, or the traversal stops. -/
theorem visit_next_ends (hr : r.Resting) (hc : r.Complete name) {depth : Nat} {record : Record β}
    (h : Stands run r world name ⟨(n, d :: todo) :: path, order⟩ s p)
    (hg : p.registry.get? d = some record) (hd : r.size ≤ depth + path.length) :
    Ends run r world name ((n, todo) :: path) s (Yields d)
      (visit run depth (n :: path.map Prod.fst).reverse d record p) := by
  induction depth generalizing n d todo order path s p record with
  | zero =>
    have hl := h.traverses.sound.length_path_le
    simp only [List.length_cons] at hl
    omega
  | succ depth ih =>
    cases hs : record.slot with
    | evaluated ns =>
      obtain ⟨-, hgs⟩ := h.marks.of_slot hg (by simp [hs])
      rw [visit, hs]
      refine .ok (h.skip ⟨record, ns, hgs, hs⟩) .refl ?_
      simp [Yields, hgs, Record.namespace?, hs]
    | evaluating =>
      rw [visit, hs]
      refine .error h.traverses h.finishes h.marks ?_
      rw [h.world]
      exact .cyclic (h.mem_entered hr hg hs)
    | waiting body =>
      obtain ⟨hgr, hentered⟩ := h.enter hg hs
      have hbelow {d' todo' order' s' p' record'}
          (h' : Stands run r world name ⟨(d, d' :: todo') :: (n, d :: todo) :: path, order'⟩ s' p')
          (hg' : p'.registry.get? d' = some record') := ih h' hg' (by
        simp only [List.length_cons]
        omega)
      have hvisit := visit_waiting_ends hc hbelow hgr hs hentered
      rw [List.map_cons] at hvisit
      generalize visit run (depth + 1) _ d record p = out at hvisit
      cases hvisit with
      | error ht hrun hm hstops => exact .error ht hrun hm hstops
      | ok h' hrows hns => exact .ok (h'.skip hns.isEvaluated) hrows hns

end Stands

/-! ## Evaluations -/

theorem complete_iff (hr : r.Resting) (hw : r.Waits name) :
    r.Complete name ↔ ∀ y, r.get? y = none → ¬ ReflTransGen r.Needs name y := by
  constructor
  · intro hc y hy hreach
    rcases hreach.cases_tail with rfl | ⟨x, hreach, hx⟩
    · obtain ⟨record, body, hg, -⟩ := hw
      rw [hy] at hg
      cases hg
    · exact hc x y ⟨hr.waits_of_needs hx, hreach⟩ hx hy
  · intro h x y hx hy hnone
    exact h y hnone (hx.2.tail hy)

/-- What was entered is removed when a pass has failed. -/
theorem Turns.drop {r' marked : Registry β} {order entered : List String}
    (h : Turns r r' order []) (hm : Marks entered r' marked) (hr : r'.Resting)
    (hd : (entered ++ order).Nodup) : Turns r marked.dropEvaluating order entered := by
  have hget := get?_dropEvaluating_marks hr hm
  refine ⟨fun x hx => ?_, fun x hx => ?_, fun x hx hx' => ?_⟩
  · rw [hget, if_neg fun he => (List.nodup_append.1 hd).2.2 x he x hx rfl]
    exact h.evaluated x hx
  · rw [hget, if_pos hx]
  · rw [hget, if_neg hx']
    exact h.others x hx List.not_mem_nil

/-- The pass of an evaluation leads to the end of its traversal, or the traversal stops. -/
theorem visit_ends (run : Runner β σ) (hr : r.Resting) (world : σ) (hc : r.Complete name)
    {record : Record β} {body : β} (hg : r.get? name = some record)
    (hs : record.slot = .waiting body) : Ends run r world name [] ⟨r, world⟩ (Yields name)
      (visit run (r.size + 1) [] name record ⟨r, world⟩) :=
  visit_waiting_ends hc (fun h hg => visit_next_ends hr hc h hg (Nat.le_add_right _ _)) hg hs
    ⟨⟨_, ⟨record, body, hg, hs, rfl⟩, .refl⟩, .nil, (marks_nil r).enter name, rfl⟩

/-- A traversal does not stop at a cycle where there is none. -/
theorem Stops.of_acyclic {s : Pass β σ} {t : Traversal} {e : LoadError} {world' : σ}
    (h : Stops run s t e world') (ht : r.Traverses name t) (ha : r.Acyclic name) :
    ∃ n path order record body imports, t = ⟨(n, []) :: path, order⟩ ∧
      s.registry.Ready n record body imports ∧ run body imports s.world = (.error e, world') := by
  cases h with
  | cyclic hd =>
    exact absurd (ht.sound.cyclic hd) (ha _ (ht.sound.pending _ (List.mem_append_left _ hd)))
  | body hready hrun => exact ⟨_, _, _, _, _, _, rfl, hready, hrun⟩

/-- Where nothing is missing and nothing cyclic, a traversal comes to its end. -/
theorem exists_traverses (hr : r.Resting) (hw : r.Waits name) (hc : r.Complete name)
    (ha : r.Acyclic name) : ∃ order, r.Traverses name ⟨[], order⟩ := by
  obtain ⟨record, body, hg, hs⟩ := hw
  -- a pass whose bodies never fail follows it
  have h := visit_ends (fun _ _ _ => (.ok ⟨0, .empty⟩, ())) hr () hc hg hs
  generalize visit _ _ _ _ _ _ = out at h
  cases h with
  | ok h => exact ⟨_, h.traverses⟩
  | error ht _ _ hstops =>
    obtain ⟨_, _, _, _, _, _, -, -, hrun⟩ := hstops.of_acyclic ht ha
    cases hrun

/-- How the evaluation of a name that waits ends. -/
inductive Outcome (run : Runner β σ) (r : Registry β) (world : σ) (name : String) :
    Except LoadError Namespace × Pass β σ → Prop where
  /-- A dependency of what waits below the name has no record: nothing runs and nothing changes. -/
  | incomplete {y : String} :
      ¬ r.Complete name → r.get? y = none → ReflTransGen r.Needs name y →
      Outcome run r world name (.error (.instantiate name (.dependencyNotLoaded y)), ⟨r, world⟩)
  /-- The bodies of all that waits below the name have run, each once and in the order of the
  traversal, which is behind those of its dependencies. No other record has changed. -/
  | succeeds {ns : Namespace} {order : List String} {s : Pass β σ} :
      r.Complete name → r.Traverses name ⟨[], order⟩ → Finishes run ⟨r, world⟩ order s →
      order.Nodup → (∀ x, x ∈ order ↔ r.Pending name x) →
      (∀ before x after, order = before ++ x :: after →
        ∀ y, r.Needs x y → y ∈ before ∨ r.IsEvaluated y) →
      Turns r s.registry order [] → Yields name s.registry ns →
      Outcome run r world name (.ok ns, s)
  /-- The traversal stops. What was left is evaluated, what was entered and not left is removed, and
  no other record has changed. -/
  | stops {e : LoadError} {t : Traversal} {s q : Pass β σ} :
      r.Complete name → r.Traverses name t → Finishes run ⟨r, world⟩ t.order s →
      Stops run s t e q.world → (t.entered ++ t.order).Nodup →
      (∀ x ∈ t.entered ++ t.order, r.Pending name x) → Turns r q.registry t.order t.entered →
      Outcome run r world name (.error e, q)

theorem evaluate_waits (run : Runner β σ) (world : σ) {record : Record β} {body : β}
    (hg : r.get? name = some record) (hs : record.slot = .waiting body) :
    r.evaluate run world name =
      r.guarded world name record (visit run (r.size + 1) [] name record) := by
  rw [evaluate, hg]
  simp only [hs]

/-- An evaluation of a name that does not wait does nothing. -/
theorem evaluate_of_not_waits (run : Runner β σ) (hr : r.Resting) (world : σ)
    (hw : ¬r.Waits name) :
    r.evaluate run world name = (.error (.instantiate name .notLoaded), ⟨r, world⟩) ∨
      ∃ ns, r.evaluate run world name = (.ok ns, ⟨r, world⟩) := by
  cases hg : r.get? name with
  | none => exact .inl (by rw [evaluate, hg])
  | some record =>
    cases hs : record.slot with
    | waiting body => exact absurd ⟨record, body, hg, hs⟩ hw
    | evaluating => exact absurd hs (hr name record hg)
    | evaluated ns => exact .inr ⟨ns, by simp only [evaluate, hg, hs]⟩

theorem evaluate_incomplete (run : Runner β σ) (hr : r.Resting) (world : σ) (hw : r.Waits name)
    (hc : ¬ r.Complete name) : Outcome run r world name (r.evaluate run world name) := by
  have hmissing := mt (complete_iff hr hw).2 hc
  push Not at hmissing
  obtain ⟨y, hy⟩ := hmissing
  obtain ⟨record, body, hg, hs⟩ := hw
  rw [← mem_missingFor_iff hg] at hy
  rw [evaluate_waits run world hg hs, guarded]
  cases hm : r.missingFor name record with
  | nil => simp [hm] at hy
  | cons first rest =>
    obtain ⟨hnone, hreach⟩ := (mem_missingFor_iff hg).1 (hm ▸ List.mem_cons_self)
    exact .incomplete hc hnone hreach

theorem evaluate_complete (run : Runner β σ) (hr : r.Resting) (world : σ) (hw : r.Waits name)
    (hc : r.Complete name) : Outcome run r world name (r.evaluate run world name) := by
  have hmissing := (complete_iff hr hw).1 hc
  obtain ⟨record, body, hg, hs⟩ := hw
  have hm : r.missingFor name record = [] := by
    rw [List.eq_nil_iff_forall_not_mem]
    intro y hy
    obtain ⟨hnone, hreach⟩ := (mem_missingFor_iff hg).1 hy
    exact hmissing y hnone hreach
  have h := visit_ends run hr world hc hg hs
  rw [evaluate_waits run world hg hs, guarded, hm]
  simp only
  generalize visit run (r.size + 1) [] name record ⟨r, world⟩ = out at h
  cases h with
  | @ok ns order s q h _ hns =>
    obtain ⟨ht, hrun, hmarks, hworld⟩ := h
    obtain ⟨registry, w⟩ := q
    cases marks_nil_eq hmarks
    cases hworld
    have hsound := ht.sound
    exact .succeeds hc ht hrun hsound.nodup (fun _ => hsound.mem_order_iff hr) hsound.ordered
      hrun.turns hns
  | @error t e s q ht hrun hmarks hstops =>
    have hsound := ht.sound
    have hturns := hrun.turns.drop hmarks (rows_resting hrun.rows hr) hsound.nodup
    exact .stops hc ht hrun hstops hsound.nodup hsound.pending hturns

theorem evaluate_outcome (run : Runner β σ) (hr : r.Resting) (world : σ) (hw : r.Waits name) :
    Outcome run r world name (r.evaluate run world name) := by
  by_cases hc : r.Complete name
  · exact evaluate_complete run hr world hw hc
  · exact evaluate_incomplete run hr world hw hc

/-- The evaluation of a name that waits has three outcomes. It succeeds whenever nothing that waits
below the name is missing a dependency or needs itself, and no body fails in the order in which the
traversal leaves the records. -/
theorem evaluate_outcomes (run : Runner β σ) (hr : r.Resting) (world : σ) (hw : r.Waits name) :
    Outcome run r world name (r.evaluate run world name) ∧
    (r.Complete name → r.Acyclic name → ∃ order, r.Traverses name ⟨[], order⟩ ∧
      (Unfailing run ⟨r, world⟩ order → ∃ ns s, r.evaluate run world name = (.ok ns, s))) := by
  refine ⟨evaluate_outcome run hr world hw, fun hc ha => ?_⟩
  have hout := evaluate_outcome run hr world hw
  obtain ⟨order, horder⟩ := exists_traverses hr hw hc ha
  refine ⟨order, horder, fun hunfailing => ?_⟩
  generalize r.evaluate run world name = out at hout
  cases hout with
  | incomplete hnot => exact absurd hc hnot
  | @succeeds ns _ s => exact ⟨ns, s, rfl⟩
  | @stops e t s q _ ht hrun hstops =>
    obtain ⟨n, path, before, record, body, imports, rfl, hready, hfails⟩ := hstops.of_acyclic ht ha
    obtain ⟨after, hsplit⟩ := ht.order_extends horder
    rw [List.append_assoc, List.singleton_append] at hsplit
    exact absurd hfails
      (hunfailing before n after s hsplit.symm hrun record body imports e q.world hready)

/-- Two records that need one and the same, and a fourth that needs both. -/
def diamond : Registry String :=
  ((((Registry.empty.commit "d" (.waiting none [] "d")).commit "c"
    (.waiting none [⟨"d", "d"⟩] "c")).commit "b" (.waiting none [⟨"d", "d"⟩] "b")).commit "a"
      (.waiting none [⟨"b", "b"⟩, ⟨"c", "c"⟩] "a"))

/-- Keep the bodies that run in a list. One of them may fail. -/
def listedRun (failing : Option String) : Runner String (List String) := fun body _ ran =>
  if some body = failing then (.error (.instantiate body .notLoaded), ran ++ [body])
  else (.ok ⟨ran.length, .empty⟩, ran ++ [body])

theorem diamond_resting : diamond.Resting :=
  empty_resting.commit_waiting.commit_waiting.commit_waiting.commit_waiting

theorem diamond_needs {x y : String} (h : diamond.Needs x y) : diamond.get? y ≠ none ∧ x < y := by
  have hall : ∀ entry ∈ diamond.records.entries, ∀ y ∈ needs entry.2,
      (diamond.get? y).isSome = true ∧ entry.1 < y := by decide +kernel
  obtain ⟨record, hg, hy⟩ := h
  rw [← Option.isSome_iff_ne_none]
  exact hall (x, record) ((diamond.records.mem_entries_iff x record).2 hg) y hy

theorem diamond_acyclic : diamond.Acyclic "a" := by
  have hlt {x y : String} (h : TransGen diamond.Needs x y) : x < y := by
    induction h with
    | single h => exact (diamond_needs h).2
    | tail _ h ih => exact String.lt_trans ih (diamond_needs h).2
  exact fun x _ hx => String.lt_irrefl x (hlt hx)

theorem evaluate_outcomes_diamond : diamond.Resting ∧ diamond.Waits "a" ∧
    (∃ t s e q, diamond.evaluate (listedRun (some "c")) [] "a" = (.error e, q) ∧
      q.world = ["d", "b", "c"] ∧ diamond.Traverses "a" t ∧
      Finishes (listedRun (some "c")) ⟨diamond, []⟩ t.order s ∧
      Stops (listedRun (some "c")) s t e q.world ∧ Turns diamond q.registry t.order t.entered) ∧
    diamond.Complete "a" ∧ diamond.Acyclic "a" ∧ ∃ order, diamond.Traverses "a" ⟨[], order⟩ ∧
      Unfailing (listedRun none) ⟨diamond, []⟩ order ∧
      ∃ ns s, diamond.evaluate (listedRun none) [] "a" = (.ok ns, s) := by
  have hwaits : diamond.Waits "a" := ⟨_, "a", rfl, rfl⟩
  have hcomplete : diamond.Complete "a" := fun _ _ _ h => (diamond_needs h).1
  refine ⟨diamond_resting, hwaits, ?_, hcomplete, diamond_acyclic, ?_⟩
  · have hworld : (diamond.evaluate (listedRun (some "c")) [] "a").2.world = ["d", "b", "c"] := by
      decide +kernel
    have hfails : (diamond.evaluate (listedRun (some "c")) [] "a").1.toOption.isSome = false := by
      decide +kernel
    have hout := (evaluate_outcomes (listedRun (some "c")) diamond_resting [] hwaits).1
    generalize diamond.evaluate (listedRun (some "c")) [] "a" = out at hout hworld hfails
    cases hout with
    | incomplete => cases hworld
    | succeeds => cases hfails
    | @stops e t s q _ ht hrun hstops _ _ hturns =>
      exact ⟨t, s, e, q, rfl, hworld, ht, hrun, hstops, hturns⟩
  · obtain ⟨order, horder, hok⟩ :=
      (evaluate_outcomes (listedRun none) diamond_resting [] hwaits).2 hcomplete diamond_acyclic
    have hunfailing : Unfailing (listedRun none) ⟨diamond, []⟩ order := by
      intro _ _ _ _ _ _ _ _ _ _ _ _ hrun
      simp [listedRun] at hrun
    exact ⟨order, horder, hunfailing, hok hunfailing⟩

/-- The dependency that was requested first runs first. -/
example : (diamond.evaluate (listedRun none) [] "a").2.world = ["d", "b", "c", "a"] := by
  decide +kernel

end ModuleLoader.Registry

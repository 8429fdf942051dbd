import ModuleLoader.Proofs.Registry.Recordings

/-! # Operations on a registry

Between the operations of any row no record is in the middle of its evaluation, and each body runs
at most once, when its dependencies are evaluated, with their namespaces as imports.
-/

namespace ModuleLoader.Registry

open Dialect

variable {σ : Type}

/-- A record that is offered to a registry: it waits with a body, or has its namespace. No two of
its requests have the same specifier. -/
inductive Offer where
  | waiting (address : Option String) (dependencies : List Dependency)
      (distinct : (dependencies.map Dependency.specifier).Nodup)
  | evaluated (ns : Namespace)

/-- An operation on a registry. -/
inductive Operation where
  | commit (name : String) (offer : Offer)
  | setEvaluated (name : String) (ns : Namespace)
  | delete (name : String)
  | evaluate (name : String)
  | evaluateDetached (name : String) (offer : Offer)

/-- The record of an offer, with the turn in which it is made as its body. -/
def Offer.record (turn : Nat) : Offer → Record Nat
  | .waiting address dependencies _ => .waiting address dependencies turn
  | .evaluated ns => .evaluated ns

/-- Perform an operation in some turn. Bodies go by the turns in which they are offered. -/
def Operation.perform (run : Runner Nat σ) (turn : Nat) (p : Pass Nat σ) : Operation → Pass Nat σ
  | .commit name offer => { p with registry := p.registry.commit name (offer.record turn) }
  | .setEvaluated name ns => { p with registry := p.registry.setEvaluated name ns }
  | .delete name => { p with registry := p.registry.delete name }
  | .evaluate name => (p.registry.evaluate run p.world name).2
  | .evaluateDetached name (.waiting _ dependencies _) =>
    (p.registry.evaluateDetached run p.world name dependencies turn).2
  | .evaluateDetached _ (.evaluated _) => p

/-- Perform operations one after the other on an empty registry. -/
def performed (run : Runner Nat σ) (world : σ) (ops : List Operation) : Pass Nat σ :=
  ops.zipIdx.foldl (fun p op => op.1.perform run op.2 p) ⟨.empty, world⟩

/-- Perform an operation and record the runs of bodies. -/
def Operation.record (run : Runner Nat σ) (turn : Nat) (p : Pass Nat (σ × List (Moment Nat))) :
    Operation → Pass Nat (σ × List (Moment Nat))
  | .commit name offer => { p with registry := p.registry.commit name (offer.record turn) }
  | .setEvaluated name ns => { p with registry := p.registry.setEvaluated name ns }
  | .delete name => { p with registry := p.registry.delete name }
  | .evaluate name => (p.registry.watchedEvaluate (recording run turn) p.world name).2
  | .evaluateDetached name (.waiting _ dependencies _) =>
    (p.registry.watchedDetached (recording run turn) p.world name dependencies turn).2
  | .evaluateDetached _ (.evaluated _) => p

/-- Perform operations and record the runs of bodies. -/
def recorded (run : Runner Nat σ) (world : σ) (ops : List Operation) :
    Pass Nat (σ × List (Moment Nat)) :=
  ops.zipIdx.foldl (fun p op => op.1.record run op.2 p) ⟨.empty, world, []⟩

/-- The moments at which bodies start while operations are performed. -/
def moments (run : Runner Nat σ) (world : σ) (ops : List Operation) : List (Moment Nat) :=
  (recorded run world ops).world.2

/-- The requests that an operation offers with a body. -/
def Operation.dependencies? : Operation → Option (List Dependency)
  | .commit _ (.waiting _ dependencies _) => some dependencies
  | .evaluateDetached _ (.waiting _ dependencies _) => some dependencies
  | _ => none

/-- An operation that replaces or removes what is filed under a name. -/
inductive Operation.Replaces : Operation → String → Prop where
  | setEvaluated (name : String) (ns : Namespace) : Replaces (.setEvaluated name ns) name
  | delete (name : String) : Replaces (.delete name) name

theorem Operation.distinct_of_dependencies? {op : Operation} {dependencies : List Dependency}
    (h : op.dependencies? = some dependencies) :
    (dependencies.map Dependency.specifier).Nodup := by
  unfold dependencies? at h
  split at h
  · cases h
    assumption
  · cases h
    assumption
  · cases h

section Rows

variable {run : Runner Nat σ} {world : σ} {ops : List Operation}

theorem performed_append_singleton (op : Operation) : performed run world (ops ++ [op]) =
    op.perform run ops.length (performed run world ops) := by
  simp [performed, List.zipIdx_append]

theorem recorded_append_singleton (op : Operation) : recorded run world (ops ++ [op]) =
    op.record run ops.length (recorded run world ops) := by
  simp [recorded, List.zipIdx_append]

/-! ## Recording changes nothing -/

theorem map_record (turn : Nat) (p : Pass Nat (σ × List (Moment Nat))) (op : Operation) :
    (op.record run turn p).map Prod.fst = op.perform run turn (p.map Prod.fst) := by
  have hw := recording_watches run turn
  match op with
  | .commit .. | .setEvaluated .. | .delete .. | .evaluateDetached _ (.evaluated _) => rfl
  | .evaluate name => exact congrArg Prod.snd (map_watchedEvaluate hw p.registry p.world name)
  | .evaluateDetached name (.waiting _ dependencies _) =>
    exact congrArg Prod.snd (map_watchedDetached hw p.registry p.world name dependencies turn)

theorem map_recorded (run : Runner Nat σ) (world : σ) (ops : List Operation) :
    (recorded run world ops).map Prod.fst = performed run world ops := by
  induction ops using List.reverseRecOn with
  | nil => rfl
  | append_singleton ops op ih =>
    rw [recorded_append_singleton, performed_append_singleton, map_record, ih]

theorem registry_recorded :
    (recorded run world ops).registry = (performed run world ops).registry := by
  rw [← map_recorded]
  rfl

/-! ## No record is left in the middle -/

theorem perform_resting {p : Pass Nat σ} (h : p.registry.Resting) (turn : Nat) (op : Operation) :
    (op.perform run turn p).registry.Resting := by
  match op with
  | .commit name offer =>
    refine h.commit ?_
    cases offer <;> simp [Offer.record, Record.waiting, Record.evaluated]
  | .setEvaluated name ns =>
    intro n record hg
    rw [Operation.perform, get?_setEvaluated] at hg
    split at hg
    · cases hg
      simp [Record.evaluated]
    · exact h n record hg
  | .delete name =>
    intro n record hg
    rw [Operation.perform, get?_delete] at hg
    split at hg
    · cases hg
    · exact h n record hg
  | .evaluate name => exact (evaluate_tends h name).resting
  | .evaluateDetached name (.waiting _ dependencies _) =>
    exact (evaluateDetached_tends h name dependencies turn).resting
  | .evaluateDetached _ (.evaluated _) => exact h

theorem performed_resting (run : Runner Nat σ) (world : σ) (ops : List Operation) :
    (performed run world ops).registry.Resting := by
  induction ops using List.reverseRecOn with
  | nil => exact empty_resting
  | append_singleton ops op ih =>
    rw [performed_append_singleton]
    exact perform_resting ih _ _

/-! ## What is known stays known -/

theorem known_record {n : String} {ns : Namespace} {p : Pass Nat (σ × List (Moment Nat))}
    (hd : p.registry.Distinct) (turn : Nat) {op : Operation} (ho : ¬ op.Replaces n)
    (h : p.registry.known n = some ns) : (op.record run turn p).registry.known n = some ns := by
  match op with
  | .commit name offer =>
    have hg : ¬ (n = name ∧ p.registry.get? name = none) := by
      rintro ⟨rfl, hg⟩
      simp [known, hg] at h
    rwa [Operation.record, known, get?_commit, if_neg hg]
  | .setEvaluated name ns' =>
    have hne : n ≠ name := by
      rintro rfl
      exact ho (.setEvaluated n ns')
    rwa [Operation.record, known, get?_setEvaluated, if_neg hne]
  | .delete name =>
    have hne : n ≠ name := by
      rintro rfl
      exact ho (.delete n)
    rwa [Operation.record, known_delete_ne hne]
  | .evaluate name => exact (watchedEvaluate_records hd p.world name).keeps.known h
  | .evaluateDetached name (.waiting _ dependencies _) =>
    rcases watchedDetached_records hd p.world name dependencies turn with
      hr | ⟨s, imports, hr, -, hk, -⟩
    · exact hr.keeps.known h
    · exact hk.known (hr.keeps.known h)
  | .evaluateDetached _ (.evaluated _) => exact h

/-- The moments of one operation: what is known then is known when the operation is over. -/
theorem moments_record (run : Runner Nat σ) {p : Pass Nat (σ × List (Moment Nat))}
    (hd : p.registry.Distinct) (turn : Nat) (op : Operation) :
    ∃ new, (op.record run turn p).world.2 = p.world.2 ++ new ∧ ∀ x ∈ new, x.turn = turn ∧
      ∀ {n ns}, x.registry.known n = some ns →
        (op.record run turn p).registry.known n = some ns := by
  have hrecords {q : Pass Nat (σ × List (Moment Nat))} (h : Records turn p q) :
      ∃ new, q.world.2 = p.world.2 ++ new ∧ ∀ x ∈ new, x.turn = turn ∧
        ∀ {n ns}, x.registry.known n = some ns → q.registry.known n = some ns := by
    obtain ⟨new, hlog, -, hnew⟩ := h.log
    exact ⟨new, hlog, fun x hx => ⟨(hnew x hx).turn, (hnew x hx).stays⟩⟩
  match op with
  | .commit .. | .setEvaluated .. | .delete .. | .evaluateDetached _ (.evaluated _) =>
    exact ⟨[], by simp [Operation.record]⟩
  | .evaluate name => exact hrecords (watchedEvaluate_records hd p.world name)
  | .evaluateDetached name (.waiting _ dependencies _) =>
    rcases watchedDetached_records hd p.world name dependencies turn with
      h | ⟨s, imports, h, -, hk, hlog⟩
    · exact hrecords h
    · obtain ⟨new, hlog', hnew⟩ := hrecords h
      refine ⟨new ++ [⟨turn, s.registry, turn, imports⟩], ?_, fun x hx => ?_⟩
      · rw [Operation.record, hlog, hlog', List.append_assoc]
      · rcases List.mem_append.1 hx with hx | hx
        · exact ⟨(hnew x hx).1, fun hn => hk.known ((hnew x hx).2 hn)⟩
        · obtain rfl := List.mem_singleton.1 hx
          exact ⟨rfl, hk.known⟩

/-! ## Every body runs at most once -/

/-- What the moments of some turns show: the records that wait have been committed by the operations
to which their bodies belong, and the bodies that have run are others and have run once, in their
turn, with the namespaces of their dependencies. -/
structure Accounts (ops : List Operation) (turns : Nat) (p : Pass Nat (σ × List (Moment Nat))) :
    Prop where
  offered : ∀ {n record i}, p.registry.get? n = some record → record.slot = .waiting i →
    ∃ address distinct, ops[i]? = some (.commit n (.waiting address record.dependencies distinct))
  once : (p.world.2.map Moment.body).Nodup
  gone : ∀ x ∈ p.world.2, ∀ n, p.registry.body? n ≠ some x.body
  turn : ∀ x ∈ p.world.2, x.turn < turns
  ready : ∀ x ∈ p.world.2, ∃ op dependencies, ops[x.body]? = some op ∧
    op.dependencies? = some dependencies ∧
    x.registry.importsOf? .empty dependencies = some x.imports

section Accounts

variable {turns : Nat} {p q : Pass Nat (σ × List (Moment Nat))}

theorem Accounts.distinct (h : Accounts ops turns p) : p.registry.Distinct := by
  intro m n i hm hn
  obtain ⟨record, hg, hs⟩ := body?_eq_some_iff.1 hm
  obtain ⟨record', hg', hs'⟩ := body?_eq_some_iff.1 hn
  obtain ⟨_, _, ho⟩ := h.offered hg hs
  obtain ⟨_, _, ho'⟩ := h.offered hg' hs'
  simp only [ho, Option.some.injEq, Operation.commit.injEq] at ho'
  exact ho'.1

theorem Accounts.lt_of_waiting (h : Accounts ops turns p) {n : String} {i : Nat}
    (hn : p.registry.body? n = some i) : i < ops.length := by
  obtain ⟨record, hg, hs⟩ := body?_eq_some_iff.1 hn
  obtain ⟨_, _, ho⟩ := h.offered hg hs
  exact (List.getElem?_eq_some_iff.1 ho).1

theorem Accounts.lt_of_run (h : Accounts ops turns p) {x : Moment Nat} (hx : x ∈ p.world.2) :
    x.body < ops.length := by
  obtain ⟨op, dependencies, ho, -⟩ := h.ready x hx
  exact (List.getElem?_eq_some_iff.1 ho).1

/-- Later operations and turns change nothing in what has been shown. -/
theorem Accounts.mono (h : Accounts ops turns p) (more : List Operation) {turns' : Nat}
    (ht : turns ≤ turns') : Accounts (ops ++ more) turns' p := by
  have happend {i : Nat} {op : Operation} (ho : ops[i]? = some op) :
      (ops ++ more)[i]? = some op := by
    rw [List.getElem?_append_left (List.getElem?_eq_some_iff.1 ho).1, ho]
  refine ⟨fun hg hs => ?_, h.once, h.gone, fun x hx => (h.turn x hx).trans_le ht, fun x hx => ?_⟩
  · obtain ⟨address, distinct, ho⟩ := h.offered hg hs
    exact ⟨address, distinct, happend ho⟩
  · obtain ⟨op, dependencies, ho, hd, himp⟩ := h.ready x hx
    exact ⟨op, dependencies, happend ho, hd, himp⟩

theorem Accounts.records {turn : Nat} (h : Accounts ops turns p) (hr : Records turn p q)
    (ht : turn < turns) : Accounts ops turns q := by
  obtain ⟨new, hlog, hnodup, hnew⟩ := hr.log
  refine ⟨fun {n record i} hg hs => ?_, ?_, ?_, ?_, ?_⟩
  · rw [← hr.keeps.get? (body?_of_slot hg hs)] at hg
    exact h.offered hg hs
  · rw [hlog, List.map_append, List.nodup_append]
    refine ⟨h.once, hnodup, fun b hb b' hb' he => ?_⟩
    obtain ⟨x, hx, rfl⟩ := List.mem_map.1 hb
    obtain ⟨y, hy, rfl⟩ := List.mem_map.1 hb'
    obtain ⟨n, hn⟩ := (hnew y hy).body?
    exact h.gone x hx n (he ▸ hn)
  · intro x hx n hn
    rw [hlog] at hx
    rcases List.mem_append.1 hx with hx | hx
    · exact h.gone x hx n (hr.keeps.body? hn)
    · exact (hnew x hx).gone n hn
  · intro x hx
    rw [hlog] at hx
    rcases List.mem_append.1 hx with hx | hx
    · exact h.turn x hx
    · exact (hnew x hx).turn ▸ ht
  · intro x hx
    rw [hlog] at hx
    rcases List.mem_append.1 hx with hx | hx
    · exact h.ready x hx
    · obtain ⟨n, record, hg, hs, himp⟩ := (hnew x hx).waited
      obtain ⟨_, _, ho⟩ := h.offered hg hs
      exact ⟨_, _, ho, rfl, himp⟩

theorem Accounts.commit (h : Accounts ops turns p) (name : String) (offer : Offer) :
    Accounts (ops ++ [.commit name offer]) (turns + 1)
      { p with registry := p.registry.commit name (offer.record ops.length) } := by
  have hmono := h.mono [.commit name offer] (Nat.le_add_right turns 1)
  refine ⟨fun {n record i} hg hs => ?_, h.once, fun x hx n hn => ?_, hmono.turn, hmono.ready⟩
  · rw [get?_commit] at hg
    split at hg
    · rename_i hname
      obtain ⟨rfl, -⟩ := hname
      cases hg
      cases offer with
      | waiting address dependencies distinct =>
        cases hs
        exact ⟨address, distinct, by simp [Offer.record, Record.waiting]⟩
      | evaluated ns => cases hs
    · exact hmono.offered hg hs
  · obtain ⟨record, hg, hs⟩ := body?_eq_some_iff.1 hn
    rw [get?_commit] at hg
    split at hg
    · cases hg
      have hlt := h.lt_of_run hx
      cases offer with
      | waiting =>
        simp only [Offer.record, Record.waiting, Slot.waiting.injEq] at hs
        exact Nat.ne_of_gt hlt hs
      | evaluated ns => cases hs
    · exact h.gone x hx n (body?_of_slot hg hs)

theorem Accounts.of_registry {r : Registry Nat} (h : Accounts ops turns p)
    (hr : ∀ {n i}, r.body? n = some i → p.registry.get? n = r.get? n) :
    Accounts ops turns { p with registry := r } := by
  refine ⟨fun hg hs => ?_, h.once, fun x hx n hn => h.gone x hx n ?_, h.turn, h.ready⟩
  · rw [← hr (body?_of_slot hg hs)] at hg
    exact h.offered hg hs
  · rw [body?, hr hn]
    exact hn

theorem Accounts.setEvaluated (h : Accounts ops turns p) (name : String) (ns : Namespace) :
    Accounts ops turns { p with registry := p.registry.setEvaluated name ns } := by
  refine h.of_registry fun {n i} hn => ?_
  obtain ⟨record, hg, hs⟩ := body?_eq_some_iff.1 hn
  rw [get?_setEvaluated] at hg ⊢
  split at hg
  · cases hg
    cases hs
  · rename_i hne
    rw [if_neg hne]

theorem Accounts.delete (h : Accounts ops turns p) (name : String) :
    Accounts ops turns { p with registry := p.registry.delete name } := by
  refine h.of_registry fun {n i} hn => ?_
  rw [body?_delete] at hn
  split at hn
  · cases hn
  · rename_i hne
    rw [get?_delete, if_neg hne]

theorem Accounts.runs_detached {imports : Imports} {name : String} {address : Option String}
    {dependencies : List Dependency} {distinct : (dependencies.map Dependency.specifier).Nodup}
    (h : Accounts ops (turns + 1) p)
    (himp : p.registry.importsOf? .empty dependencies = some imports)
    (hk : Keeps p.registry q.registry)
    (hlog : q.world.2 = p.world.2 ++ [⟨turns, p.registry, ops.length, imports⟩]) :
    Accounts (ops ++ [.evaluateDetached name (.waiting address dependencies distinct)])
      (turns + 1) q := by
  have hmono := h.mono [.evaluateDetached name (.waiting address dependencies distinct)]
    (Nat.le_refl (turns + 1))
  refine ⟨fun {n record i} hg hs => ?_, ?_, ?_, ?_, ?_⟩
  · rw [← hk.get? (body?_of_slot hg hs)] at hg
    exact hmono.offered hg hs
  · rw [hlog, List.map_append, List.nodup_append]
    refine ⟨h.once, by simp, fun b hb b' hb' he => ?_⟩
    obtain ⟨x, hx, rfl⟩ := List.mem_map.1 hb
    rw [List.map_singleton, List.mem_singleton] at hb'
    exact Nat.ne_of_lt (h.lt_of_run hx) (he.trans hb')
  · intro x hx n hn
    rw [hlog] at hx
    rcases List.mem_append.1 hx with hx | hx
    · exact h.gone x hx n (hk.body? hn)
    · obtain rfl := List.mem_singleton.1 hx
      exact Nat.lt_irrefl _ (h.lt_of_waiting (hk.body? hn))
  · intro x hx
    rw [hlog] at hx
    rcases List.mem_append.1 hx with hx | hx
    · exact h.turn x hx
    · obtain rfl := List.mem_singleton.1 hx
      exact Nat.lt_succ_self _
  · intro x hx
    rw [hlog] at hx
    rcases List.mem_append.1 hx with hx | hx
    · exact hmono.ready x hx
    · obtain rfl := List.mem_singleton.1 hx
      exact ⟨.evaluateDetached name (.waiting address dependencies distinct), dependencies,
        by simp, rfl, himp⟩

/-- What one operation keeps. -/
theorem Accounts.record (h : Accounts ops ops.length p) (op : Operation) :
    Accounts (ops ++ [op]) (ops.length + 1) (op.record run ops.length p) := by
  have hnext := h.mono [] (Nat.le_add_right ops.length 1)
  rw [List.append_nil] at hnext
  have hmono := h.mono [op] (Nat.le_add_right ops.length 1)
  have hlt := Nat.lt_succ_self ops.length
  match op with
  | .commit name offer => exact h.commit name offer
  | .setEvaluated name ns => exact hmono.setEvaluated name ns
  | .delete name => exact hmono.delete name
  | .evaluate name => exact hmono.records (watchedEvaluate_records h.distinct p.world name) hlt
  | .evaluateDetached name (.waiting _ dependencies _) =>
    rcases watchedDetached_records h.distinct p.world name dependencies ops.length with
      hr | ⟨s, imports, hr, himp, hk, hlog⟩
    · exact hmono.records hr hlt
    · exact (hnext.records hr hlt).runs_detached himp hk hlog
  | .evaluateDetached _ (.evaluated _) => exact hmono

theorem accounts_recorded (run : Runner Nat σ) (world : σ) (ops : List Operation) :
    Accounts ops ops.length (recorded run world ops) := by
  induction ops using List.reverseRecOn with
  | nil => exact ⟨nofun, .nil, nofun, nofun, nofun⟩
  | append_singleton ops op ih =>
    rw [recorded_append_singleton, List.length_append, List.length_singleton]
    exact ih.record op

end Accounts

/-! ## Final namespaces -/

theorem known_recorded_append {n : String} {ns : Namespace}
    (h : (recorded run world ops).registry.known n = some ns) {more : List Operation}
    (hm : ∀ op ∈ more, ¬ op.Replaces n) :
    (recorded run world (ops ++ more)).registry.known n = some ns := by
  induction more using List.reverseRecOn with
  | nil => rwa [List.append_nil]
  | append_singleton more op ih =>
    rw [← List.append_assoc, recorded_append_singleton]
    exact known_record (accounts_recorded run world _).distinct _ (hm op (by simp))
      (ih fun o ho => hm o (List.mem_append_left _ ho))

/-- What is known when a body starts is known when the operation is over in which it runs. -/
theorem known_of_moment {x : Moment Nat} (hx : x ∈ moments run world ops) {n : String}
    {ns : Namespace} (h : x.registry.known n = some ns) :
    (recorded run world (ops.take (x.turn + 1))).registry.known n = some ns := by
  induction ops using List.reverseRecOn with
  | nil => cases hx
  | append_singleton ops op ih =>
    have ha := accounts_recorded run world ops
    obtain ⟨new, hlog, hnew⟩ := moments_record run ha.distinct ops.length op
    rw [moments, recorded_append_singleton, hlog] at hx
    rcases List.mem_append.1 hx with hx | hx
    · rw [List.take_append_of_le_length (ha.turn x hx)]
      exact ih hx
    · obtain ⟨hturn, hstays⟩ := hnew x hx
      rw [hturn, List.take_of_length_le (by simp), recorded_append_singleton]
      exact hstays h

theorem importsOf?_of_notMem {r : Registry Nat} {imports imports' : Imports}
    {dependencies : List Dependency} (h : r.importsOf? imports dependencies = some imports')
    {specifier : String} (hs : specifier ∉ dependencies.map Dependency.specifier) :
    imports'.get? specifier = imports.get? specifier := by
  induction dependencies generalizing imports with
  | nil =>
    cases h
    rfl
  | cons d rest ih =>
    rw [List.map_cons, List.mem_cons, not_or] at hs
    rw [importsOf?] at h
    split at h
    · rw [ih h hs.2, Dict.get?_insert_of_ne _ _ hs.1]
    · cases h

theorem importsOf?_of_mem {r : Registry Nat} {imports imports' : Imports}
    {dependencies : List Dependency} (h : r.importsOf? imports dependencies = some imports')
    (hn : (dependencies.map Dependency.specifier).Nodup) {d : Dependency}
    (hd : d ∈ dependencies) :
    ∃ ns, r.known d.name = some ns ∧ imports'.get? d.specifier = some ns := by
  induction dependencies generalizing imports with
  | nil => cases hd
  | cons e rest ih =>
    rw [List.map_cons, List.nodup_cons] at hn
    rw [importsOf?] at h
    split at h
    · rename_i ns hns
      rcases List.mem_cons.1 hd with rfl | hd
      · exact ⟨ns, hns, by rw [importsOf?_of_notMem h hn.1, Dict.get?_insert_self]⟩
      · exact ih h hn.2 hd
    · cases h

/-- Between operations no record is in the middle of its evaluation. Each body that is offered runs
at most once, and at that moment each of its dependencies is evaluated: under its specifier the body
receives the namespace that is filed under its name, which stays there until an operation replaces
it. Other specifiers are not bound. -/
theorem bodies_run_once_with_final_imports (run : Runner Nat σ) (world : σ)
    (ops : List Operation) :
    (recorded run world ops).map Prod.fst = performed run world ops ∧
    (performed run world ops).registry.Resting ∧
    ((moments run world ops).map Moment.body).Nodup ∧
    ∀ x ∈ moments run world ops, ∃ op dependencies, ops[x.body]? = some op ∧
      op.dependencies? = some dependencies ∧
      (∀ s ∉ dependencies.map Dependency.specifier, x.imports.get? s = none) ∧
      ∀ d ∈ dependencies, ∃ ns, x.registry.known d.name = some ns ∧
        x.imports.get? d.specifier = some ns ∧
        ∀ later, x.turn < later →
          (∀ o ∈ (ops.take later).drop (x.turn + 1), ¬ o.Replaces d.name) →
          (performed run world (ops.take later)).registry.known d.name = some ns := by
  have ha := accounts_recorded run world ops
  refine ⟨map_recorded run world ops, performed_resting run world ops, ha.once, fun x hx => ?_⟩
  obtain ⟨op, dependencies, ho, hd, himp⟩ := ha.ready x hx
  refine ⟨op, dependencies, ho, hd, fun s hs => importsOf?_of_notMem himp hs, fun d hdm => ?_⟩
  obtain ⟨ns, hns, hget⟩ := importsOf?_of_mem himp (Operation.distinct_of_dependencies? hd) hdm
  refine ⟨ns, hns, hget, fun later hl hm => ?_⟩
  have hsplit := List.take_append_drop (x.turn + 1) (ops.take later)
  rw [List.take_take, Nat.min_eq_left (show x.turn + 1 ≤ later from hl)] at hsplit
  rw [← registry_recorded, ← hsplit]
  exact known_recorded_append (known_of_moment hx hns) hm

end Rows

/-- Requests for one module. -/
def requestsOf (name : String) : Offer := .waiting none [⟨name, name⟩] (List.nodup_singleton _)

/-- A body that fails is committed once more, and what it needs is then replaced. -/
def repeatedOperations : List Operation :=
  [.commit "a" (.waiting none [] .nil), .commit "main" (requestsOf "a"), .evaluate "main",
    .commit "main" (requestsOf "a"), .evaluate "main", .delete "a",
    .commit "a" (.waiting none [] .nil), .evaluateDetached "other" (requestsOf "a")]

/-- Count the runs of bodies. The body that is offered in the second turn fails. -/
def countedRun : Runner Nat Nat := fun body _ count =>
  if body = 1 then (.error (.instantiate "main" .notLoaded), count + 1)
  else (.ok ⟨body, .empty⟩, count + 1)

theorem moments_repeated : (moments countedRun 0 repeatedOperations).map Moment.body =
    [0, 1, 3, 6, 7] := by
  decide +kernel

theorem bodies_run_once_with_final_imports_repeated :
    [0, 1, 3, 6, 7].Nodup ∧ ∃ x ∈ moments countedRun 0 repeatedOperations, x.body = 3 ∧
      ∃ ns, x.imports.get? "a" = some ns ∧ x.registry.known "a" = some ns := by
  obtain ⟨-, -, hnodup, hready⟩ :=
    bodies_run_once_with_final_imports countedRun 0 repeatedOperations
  rw [moments_repeated] at hnodup
  have hmem : 3 ∈ (moments countedRun 0 repeatedOperations).map Moment.body := by
    simp [moments_repeated]
  obtain ⟨x, hx, hbody⟩ := List.mem_map.1 hmem
  obtain ⟨op, dependencies, ho, hd, -, himports⟩ := hready x hx
  rw [hbody] at ho
  cases ho
  cases hd
  obtain ⟨ns, hns, hget, -⟩ := himports _ (List.mem_singleton_self _)
  exact ⟨hnodup, x, hx, hbody, ns, hget, hns⟩

end ModuleLoader.Registry

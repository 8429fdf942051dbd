import Mathlib.Data.List.Perm.Subperm
import ModuleLoader.Proofs.Registry.Reachability
import ModuleLoader.Registry.Evaluation

/-! # Passes

A pass is a row of runs of bodies, each after those of its dependencies, whatever marks it leaves
on the records that it has entered. It comes to its end unless a record is missing, the dependencies
are cyclic, or a body fails.
-/

namespace ModuleLoader.Registry

open Dialect Relation

variable {β σ : Type}

/-- The namespaces of dependencies by specifier, if all of them are evaluated. -/
def importsOf? (r : Registry β) (imports : Imports) : List Dependency → Option Imports
  | [] => some imports
  | d :: rest =>
    match (r.get? d.name).bind Record.namespace? with
    | some ns => importsOf? r (imports.insert d.specifier ns) rest
    | none => none

/-- No record is in the middle of its evaluation. -/
def Resting (r : Registry β) : Prop :=
  ∀ n record, r.get? n = some record → record.slot ≠ .evaluating

theorem empty_resting : (empty : Registry β).Resting := by
  intro n record hg
  cases hg

theorem Resting.commit {r : Registry β} (h : r.Resting) {name : String} {record : Record β}
    (hs : record.slot ≠ .evaluating) : (r.commit name record).Resting := by
  intro n record' hg
  rw [get?_commit] at hg
  split at hg
  · cases hg
    exact hs
  · exact h n record' hg

theorem Resting.commit_waiting {r : Registry β} (h : r.Resting) {name : String}
    {address : Option String} {dependencies : List Dependency} {body : β} :
    (r.commit name (.waiting address dependencies body)).Resting :=
  h.commit (by simp [Record.waiting])

/-- A body can run with some imports: it waits, and its dependencies are evaluated. -/
structure Ready (r : Registry β) (name : String) (record : Record β) (body : β)
    (imports : Imports) : Prop where
  get : r.get? name = some record
  slot : record.slot = .waiting body
  imports : r.importsOf? .empty record.dependencies = some imports

/-- A body runs and comes to its end. -/
inductive Ran (run : Runner β σ) : Pass β σ → Pass β σ → Prop where
  | mk {s : Pass β σ} {name : String} {record : Record β} {body : β} {imports : Imports}
      {ns : Namespace} {world : σ} :
      s.registry.Ready name record body imports → run body imports s.world = (.ok ns, world) →
      Ran run s ⟨s.registry.setSlot name (.evaluated ns), world⟩

/-- A name has a record that waits with its body. -/
def Waits (r : Registry β) (name : String) : Prop :=
  ∃ record body, r.get? name = some record ∧ record.slot = .waiting body

/-- A name can be reached from some others. -/
def Reached (r : Registry β) (roots : List String) (y : String) : Prop :=
  ∃ x ∈ roots, ReflTransGen r.Needs x y

/-- What ends a pass that starts from some names and has entered others: something is missing or
cyclic below them, or the body of a name that was entered fails. -/
inductive Fault (run : Runner β σ) (r : Registry β) (roots entered : List String) (s : Pass β σ) :
    LoadError → σ → Prop where
  | missing {importer y : String} :
      r.Reached roots y → r.get? y = none →
      Fault run r roots entered s (.instantiate importer (.dependencyNotLoaded y)) s.world
  | cyclic {x : String} {names : List String} :
      r.Reached roots x → TransGen r.Needs x x →
      Fault run r roots entered s (.instantiate x (.cyclic names)) s.world
  | body {name : String} {record : Record β} {body : β} {imports : Imports} {e : LoadError}
      {world : σ} :
      s.registry.Ready name record body imports → run body imports s.world = (.error e, world) →
      name ∈ entered → Fault run r roots entered s e world

/-- A record stays as it is, or its body has run. -/
def Settles (record record' : Record β) : Prop :=
  record' = record ∨ ∃ body ns, record.slot = .waiting body ∧
    record' = { record with slot := .evaluated ns }

/-- The records of some names are marked as being evaluated. -/
def Marks (path : List String) (r r' : Registry β) : Prop :=
  ∀ n, r'.get? n =
    if n ∈ path then (r.get? n).map fun record => { record with slot := .evaluating } else r.get? n

theorem Settles.trans {a b c : Record β} (h : Settles a b) (h' : Settles b c) : Settles a c := by
  rcases h with rfl | ⟨body, ns, hb, rfl⟩
  · exact h'
  · rcases h' with rfl | ⟨body', ns', hb', -⟩
    · exact Or.inr ⟨body, ns, hb, rfl⟩
    · simp at hb'

theorem Settles.needs {a b : Record β} (h : Settles a b) {y : String} (hy : y ∈ needs b) :
    y ∈ needs a := by
  rcases h with rfl | ⟨body, ns, hb, rfl⟩
  · exact hy
  · simp [Registry.needs] at hy

theorem Settles.dependencies {a b : Record β} (h : Settles a b) :
    b.dependencies = a.dependencies := by
  rcases h with rfl | ⟨body, ns, hb, rfl⟩ <;> rfl

theorem Settles.namespace? {a b : Record β} (h : Settles a b) {ns : Namespace}
    (ha : a.namespace? = some ns) : b.namespace? = some ns := by
  rcases h with rfl | ⟨body, ns', hb, rfl⟩
  · exact ha
  · simp [Record.namespace?, hb] at ha

section Rows

variable {run : Runner β σ} {s t : Pass β σ}

theorem Ran.get? (h : Ran run s t) (n : String) :
    (s.registry.get? n = none ∧ t.registry.get? n = none) ∨
      ∃ record record', s.registry.get? n = some record ∧ t.registry.get? n = some record' ∧
        Settles record record' := by
  cases h with
  | @mk name record body imports ns world hr hrun =>
    simp only [get?_setSlot]
    by_cases hn : n = name
    · subst hn
      rw [if_pos rfl, hr.get]
      exact Or.inr ⟨record, _, rfl, rfl, Or.inr ⟨body, ns, hr.slot, rfl⟩⟩
    · rw [if_neg hn]
      cases hg : s.registry.get? n with
      | none => exact Or.inl ⟨rfl, rfl⟩
      | some record' => exact Or.inr ⟨record', record', rfl, rfl, Or.inl rfl⟩

/-- What a row of runs does to the record of a name. -/
theorem rows_get? (h : ReflTransGen (Ran run) s t) (n : String) :
    (s.registry.get? n = none ∧ t.registry.get? n = none) ∨
      ∃ record record', s.registry.get? n = some record ∧ t.registry.get? n = some record' ∧
        Settles record record' := by
  induction h with
  | refl =>
    cases hg : s.registry.get? n with
    | none => exact Or.inl ⟨rfl, rfl⟩
    | some record => exact Or.inr ⟨record, record, rfl, rfl, Or.inl rfl⟩
  | tail _ hr ih =>
    rcases ih with ⟨hs, hm⟩ | ⟨a, b, hs, hm, hab⟩
    · rcases hr.get? n with ⟨-, ht⟩ | ⟨_, _, hm', -⟩
      · exact Or.inl ⟨hs, ht⟩
      · simp [hm] at hm'
    · rcases hr.get? n with ⟨hm', -⟩ | ⟨b', c, hm', ht, hbc⟩
      · simp [hm] at hm'
      · rw [hm, Option.some.injEq] at hm'
        exact Or.inr ⟨a, c, hs, ht, hab.trans (hm' ▸ hbc)⟩

theorem rows_none (h : ReflTransGen (Ran run) s t) {n : String} :
    t.registry.get? n = none ↔ s.registry.get? n = none := by
  rcases rows_get? h n with ⟨hs, ht⟩ | ⟨a, b, hs, ht, -⟩
  · simp [hs, ht]
  · simp [hs, ht]

theorem rows_some (h : ReflTransGen (Ran run) s t) {n : String} {record : Record β}
    (ht : t.registry.get? n = some record) :
    ∃ record', s.registry.get? n = some record' ∧ Settles record' record := by
  rcases rows_get? h n with ⟨-, ht'⟩ | ⟨a, b, hs, ht', hab⟩
  · simp [ht'] at ht
  · rw [ht, Option.some.injEq] at ht'
    exact ⟨a, hs, ht' ▸ hab⟩

theorem rows_needs (h : ReflTransGen (Ran run) s t) {x y : String} (hn : t.registry.Needs x y) :
    s.registry.Needs x y := by
  obtain ⟨record, hg, hy⟩ := hn
  obtain ⟨record', hg', hs⟩ := rows_some h hg
  exact ⟨record', hg', hs.needs hy⟩

theorem rows_namespace? (h : ReflTransGen (Ran run) s t) {n : String} {ns : Namespace}
    (hs : (s.registry.get? n).bind Record.namespace? = some ns) :
    (t.registry.get? n).bind Record.namespace? = some ns := by
  rcases rows_get? h n with ⟨hs', -⟩ | ⟨a, b, hs', ht, hab⟩
  · simp [hs'] at hs
  · rw [hs'] at hs
    rw [ht]
    exact hab.namespace? hs

end Rows

theorem Reached.tail {r : Registry β} {roots : List String} {x y : String}
    (h : r.Reached roots x) (hn : r.Needs x y) : r.Reached roots y := by
  obtain ⟨z, hz, hr⟩ := h
  exact ⟨z, hz, hr.tail hn⟩

theorem length_le_size {r : Registry β} {names : List String} (hn : names.Nodup)
    (hk : ∀ x ∈ names, r.get? x ≠ none) : names.length ≤ r.size := by
  have hsub : names ⊆ r.names := by
    intro x hx
    rw [mem_names_iff, has_eq_isSome, Option.isSome_iff_ne_none]
    exact hk x hx
  have hl := (hn.subperm hsub).length_le
  simpa [Registry.names, size, Dict.keys, Dict.size] using hl

/-! ## Marks -/

theorem marks_nil (r : Registry β) : Marks [] r r := fun n => by simp

theorem Marks.none {path : List String} {r r' : Registry β} (h : Marks path r r') {n : String}
    (hn : r'.get? n = none) : r.get? n = none := by
  rw [h n] at hn
  split at hn
  · exact Option.map_eq_none_iff.1 hn
  · exact hn

/-- A record that is not marked as being evaluated is not on the path. -/
theorem Marks.of_slot {path : List String} {r r' : Registry β} (h : Marks path r r') {n : String}
    {record : Record β} (hg : r'.get? n = some record) (hs : record.slot ≠ .evaluating) :
    n ∉ path ∧ r.get? n = some record := by
  rw [h n] at hg
  split at hg
  · obtain ⟨record', -, rfl⟩ := Option.map_eq_some_iff.1 hg
    exact absurd rfl hs
  · rename_i hn
    exact ⟨hn, hg⟩

/-- A record that was not being evaluated before is marked only if it is on the path. -/
theorem Marks.mem_of_evaluating {path : List String} {r r' : Registry β} (h : Marks path r r')
    {n : String} {record : Record β} (hg : r'.get? n = some record)
    (hs : record.slot = .evaluating)
    (hr : ∀ record, r.get? n = some record → record.slot ≠ .evaluating) : n ∈ path := by
  rw [h n] at hg
  split at hg
  · assumption
  · exact absurd hs (hr record hg)

theorem Marks.enter {path : List String} {r r' : Registry β} (h : Marks path r r')
    (name : String) : Marks (path ++ [name]) r (r'.setSlot name .evaluating) := by
  intro n
  rw [get?_setSlot, h n, h name]
  by_cases hn : n = name
  · subst hn
    by_cases hp : n ∈ path
    · simp [hp, Function.comp_def]
    · simp [hp]
  · simp [hn]

theorem Marks.leave {path : List String} {r r' : Registry β} {name : String} {ns : Namespace}
    (h : Marks (path ++ [name]) r r') (hn : name ∉ path) :
    Marks path (r.setSlot name (.evaluated ns)) (r'.setSlot name (.evaluated ns)) := by
  intro n
  rw [get?_setSlot, get?_setSlot, h n, h name]
  by_cases hne : n = name
  · subst hne
    simp [hn, Function.comp_def]
  · simp [hne]

/-! ## Visits -/

section Visits

variable {run : Runner β σ} {s₀ : Pass β σ} {roots : List String}

/-- Where a pass stands when it is about to visit a name at the end of a path: behind the marks of
the path, a row of runs has led here from the start. -/
structure Descent (run : Runner β σ) (s₀ : Pass β σ) (roots : List String) (path : List String)
    (name : String) (s p : Pass β σ) : Prop where
  rows : ReflTransGen (Ran run) s₀ s
  marks : Marks path s.registry p.registry
  world : p.world = s.world
  nodup : path.Nodup
  known : ∀ x ∈ path, s₀.registry.get? x ≠ none
  waits : ∀ x ∈ path, s.registry.Waits x
  chain : ∀ x ∈ path, TransGen s₀.registry.Needs x name
  reach : s₀.registry.Reached roots name

/-- A part of a pass is done: a row of runs has led on, and left the path as it was. -/
structure Done (run : Runner β σ) (path : List String) (s s' q : Pass β σ) : Prop where
  rows : ReflTransGen (Ran run) s s'
  marks : Marks path s'.registry q.registry
  world : q.world = s'.world
  path : ∀ x ∈ path, s'.registry.get? x = s.registry.get? x

/-- A part of a pass has met a fault, with marks on all records that were entered, some names among
them. -/
def Broken (run : Runner β σ) (s₀ : Pass β σ) (roots names : List String) (s : Pass β σ)
    (e : LoadError) (q : Pass β σ) : Prop :=
  ∃ s' entered, ReflTransGen (Ran run) s s' ∧ Marks entered s'.registry q.registry ∧
    names ⊆ entered ∧ (∀ x ∈ entered, s'.registry.Waits x) ∧
      Fault run s₀.registry roots entered s' e q.world

/-- How a visit of a name ends. -/
inductive Visited (run : Runner β σ) (s₀ : Pass β σ) (roots : List String) (path : List String)
    (name : String) (s : Pass β σ) : Except LoadError Namespace × Pass β σ → Prop where
  | ok {ns : Namespace} {s' q : Pass β σ} :
      Done run path s s' q → (s'.registry.get? name).bind Record.namespace? = some ns →
      Visited run s₀ roots path name s (.ok ns, q)
  | error {e : LoadError} {q : Pass β σ} :
      Broken run s₀ roots (path ++ [name]) s e q → Visited run s₀ roots path name s (.error e, q)

/-- How the imports of a record are gathered. -/
inductive Imported (run : Runner β σ) (s₀ : Pass β σ) (roots : List String) (path : List String)
    (imports : Imports) (dependencies : List Dependency) (s : Pass β σ) :
    Except LoadError Imports × Pass β σ → Prop where
  | ok {imports' : Imports} {s' q : Pass β σ} :
      Done run path s s' q → s'.registry.importsOf? imports dependencies = some imports' →
      Imported run s₀ roots path imports dependencies s (.ok imports', q)
  | error {e : LoadError} {q : Pass β σ} :
      Broken run s₀ roots path s e q → Imported run s₀ roots path imports dependencies s (.error e, q)

theorem Broken.of_rows {names : List String} {s s' q : Pass β σ} {e : LoadError}
    (h : Broken run s₀ roots names s' e q) (hr : ReflTransGen (Ran run) s s') :
    Broken run s₀ roots names s e q := by
  obtain ⟨t, entered, ht, h⟩ := h
  exact ⟨t, entered, hr.trans ht, h⟩

theorem Broken.mono {names names' : List String} {s q : Pass β σ} {e : LoadError}
    (h : Broken run s₀ roots names s e q) (hn : names' ⊆ names) :
    Broken run s₀ roots names' s e q := by
  obtain ⟨t, entered, ht, hm, hs, h⟩ := h
  exact ⟨t, entered, ht, hm, List.Subset.trans hn hs, h⟩

theorem Done.trans {path : List String} {s s' s'' q q' : Pass β σ} (h : Done run path s s' q)
    (h' : Done run path s' s'' q') : Done run path s s'' q' :=
  ⟨h.rows.trans h'.rows, h'.marks, h'.world, fun x hx => (h'.path x hx).trans (h.path x hx)⟩

theorem Descent.of_done {path : List String} {name : String} {s s' p q : Pass β σ}
    (h : Descent run s₀ roots path name s p) (hd : Done run path s s' q) :
    Descent run s₀ roots path name s' q :=
  ⟨h.rows.trans hd.rows, hd.marks, hd.world, h.nodup, h.known, fun x hx => by
    simpa only [Waits, hd.path x hx] using h.waits x hx, h.chain, h.reach⟩

theorem importAll_imported {visit : String → Record β → Pass β σ →
    Except LoadError Namespace × Pass β σ} {importer : String} {path : List String}
    (hv : ∀ {name record s p}, Descent run s₀ roots path name s p →
      p.registry.get? name = some record → Visited run s₀ roots path name s (visit name record p))
    {dependencies : List Dependency} {imports : Imports} {s p : Pass β σ}
    (hs : Done run path s s p) (hd : ∀ d ∈ dependencies, Descent run s₀ roots path d.name s p) :
    Imported run s₀ roots path imports dependencies s
      (importAll visit importer imports p dependencies) := by
  induction dependencies generalizing imports s p with
  | nil => exact .ok hs rfl
  | cons d rest ih =>
    have hdd := hd d List.mem_cons_self
    rw [importAll]
    split
    · rename_i hg
      have hn := hdd.marks.none hg
      refine .error ⟨s, path, .refl, hdd.marks, List.Subset.refl _, hdd.waits, ?_⟩
      rw [hdd.world]
      exact .missing hdd.reach ((rows_none hdd.rows).1 hn)
    · rename_i record hg
      have hvis := hv hdd hg
      split
      · rename_i e q he
        rw [he] at hvis
        cases hvis with
        | error hb => exact .error (hb.mono (List.subset_append_left _ _))
      · rename_i ns q he
        rw [he] at hvis
        cases hvis with
        | @ok _ s' _ hdone hns =>
          have hrest : Imported run s₀ roots path (imports.insert d.specifier ns) rest s'
              (importAll visit importer (imports.insert d.specifier ns) q rest) :=
            ih ⟨.refl, hdone.marks, hdone.world, fun _ _ => rfl⟩
              fun d' hd' => (hd d' (List.mem_cons_of_mem _ hd')).of_done hdone
          generalize importAll visit importer _ q rest = out at hrest
          cases hrest with
          | error hb => exact .error (hb.of_rows hdone.rows)
          | @ok _ s'' _ hdone' himp =>
            refine .ok (hdone.trans hdone') ?_
            rw [importsOf?, rows_namespace? hdone'.rows hns]
            exact himp

theorem Settles.not_evaluating {a b : Record β} (h : Settles a b) (ha : a.slot ≠ .evaluating) :
    b.slot ≠ .evaluating := by
  rcases h with rfl | ⟨body, ns, hb, rfl⟩
  · exact ha
  · simp

theorem Descent.waits_enter {path : List String} {name : String} {s p : Pass β σ}
    (h : Descent run s₀ roots path name s p) {record : Record β} {body : β}
    (hg : s.registry.get? name = some record) (hs : record.slot = .waiting body) :
    ∀ x ∈ path ++ [name], s.registry.Waits x := by
  intro x hx
  rcases List.mem_append.1 hx with hx | hx
  · exact h.waits x hx
  · exact List.mem_singleton.1 hx ▸ ⟨record, body, hg, hs⟩

/-- The dependencies of a record that waits are visited at the end of a longer path. -/
theorem Descent.below {path : List String} {name : String} {s p : Pass β σ}
    (h : Descent run s₀ roots path name s p) {record : Record β} {body : β}
    (hg : s.registry.get? name = some record) (hs : record.slot = .waiting body)
    (hn : name ∉ path) (d : Dependency) (hd : d ∈ record.dependencies) :
    Descent run s₀ roots (path ++ [name]) d.name s
      { p with registry := p.registry.setSlot name .evaluating } := by
  have hneeds : s₀.registry.Needs name d.name := by
    refine rows_needs h.rows ⟨record, hg, ?_⟩
    rw [needs, hs]
    exact List.mem_map_of_mem hd
  refine ⟨h.rows, h.marks.enter name, h.world, ?_, ?_, ?_, ?_, h.reach.tail hneeds⟩
  · rw [List.nodup_append]
    refine ⟨h.nodup, by simp, fun a ha b hb hab => hn ?_⟩
    rw [List.mem_singleton] at hb
    exact hb ▸ hab ▸ ha
  · intro x hx
    rcases List.mem_append.1 hx with hx | hx
    · exact h.known x hx
    · rw [List.mem_singleton] at hx
      subst hx
      exact hneeds.ne_none
  · exact h.waits_enter hg hs
  · intro x hx
    rcases List.mem_append.1 hx with hx | hx
    · exact (h.chain x hx).tail hneeds
    · rw [List.mem_singleton] at hx
      subst hx
      exact .single hneeds

/-- The depth of the descent is never used up, since the path has no record twice. -/
theorem Descent.length_le {path : List String} {name : String} {s p : Pass β σ}
    (h : Descent run s₀ roots path name s p) : path.length ≤ s₀.registry.size :=
  length_le_size h.nodup h.known

/-- A visit is a row of runs that ends with the evaluation of its name, or meets a fault. Which path
it would show for a cycle does not matter. -/
theorem visit_visited (h₀ : s₀.registry.Resting) {depth : Nat} {shown path : List String}
    {name : String} {record : Record β} {s p : Pass β σ}
    (h : Descent run s₀ roots path name s p) (hg : p.registry.get? name = some record)
    (hd : s₀.registry.size < depth + path.length) :
    Visited run s₀ roots path name s (visit run depth shown name record p) := by
  induction depth generalizing shown path name record s p with
  | zero =>
    have hl := h.length_le
    omega
  | succ depth ih =>
    rw [visit]
    split
    · rename_i ns hs
      obtain ⟨-, hgs⟩ := h.marks.of_slot hg (by simp [hs])
      refine .ok ⟨.refl, h.marks, h.world, fun _ _ => rfl⟩ ?_
      simp [hgs, Record.namespace?, hs]
    · rename_i hs
      have hin : name ∈ path := h.marks.mem_of_evaluating hg hs fun record' hg' => by
        obtain ⟨record₀, hg₀, hset⟩ := rows_some h.rows hg'
        exact hset.not_evaluating (h₀ name record₀ hg₀)
      refine .error ⟨s, path, .refl, h.marks, ?_, h.waits, ?_⟩
      · simpa using hin
      rw [h.world]
      exact .cyclic h.reach (h.chain name hin)
    · rename_i body hs
      obtain ⟨hn, hgs⟩ := h.marks.of_slot hg (by simp [hs])
      have hentered : Done run (path ++ [name]) s s
          { p with registry := p.registry.setSlot name .evaluating } :=
        ⟨.refl, h.marks.enter name, h.world, fun _ _ => rfl⟩
      have hwaits := h.waits_enter hgs hs
      have himp : Imported run s₀ roots (path ++ [name]) .empty record.dependencies s
          (importAll (visit run depth (shown ++ [name])) name .empty
            { p with registry := p.registry.setSlot name .evaluating } record.dependencies) := by
        refine importAll_imported (fun hd' hg' => ih hd' hg' ?_) hentered (h.below hgs hs hn)
        simp only [List.length_append, List.length_singleton]
        omega
      simp only
      generalize importAll _ name .empty _ record.dependencies = out at himp
      cases himp with
      | error hb => exact .error hb
      | @ok imports s' q hdone himports =>
        have hready : s'.registry.Ready name record body imports :=
          ⟨(hdone.path name (by simp)).trans hgs, hs, himports⟩
        simp only
        split
        · rename_i e world hrun
          rw [hdone.world] at hrun
          refine .error ⟨s', path ++ [name], hdone.rows, hdone.marks, List.Subset.refl _, ?_,
            .body hready hrun (by simp)⟩
          exact fun x hx => by simpa only [Waits, hdone.path x hx] using hwaits x hx
        · rename_i ns world hrun
          rw [hdone.world] at hrun
          refine .ok ⟨hdone.rows.tail (.mk hready hrun), hdone.marks.leave hn, rfl, ?_⟩ ?_
          · intro x hx
            have hne : x ≠ name := fun hxn => hn (hxn ▸ hx)
            rw [get?_setSlot, if_neg hne]
            exact hdone.path x (List.mem_append_left _ hx)
          · rw [get?_setSlot, if_pos rfl, hready.get]
            rfl

end Visits

/-! ## Evaluation -/

/-- How the evaluation of a name ends: the name is not registered, something below it is missing,
or bodies run until the name is evaluated or a fault is met. After a fault the records that the pass
had entered are removed. -/
inductive Evaluated (run : Runner β σ) (r : Registry β) (world : σ) (name : String) :
    Except LoadError Namespace × Pass β σ → Prop where
  | unknown : r.get? name = none →
      Evaluated run r world name (.error (.instantiate name .notLoaded), ⟨r, world⟩)
  | missing {y : String} : y ∈ r.missing name →
      Evaluated run r world name (.error (.instantiate name (.dependencyNotLoaded y)), ⟨r, world⟩)
  | ok {ns : Namespace} {s : Pass β σ} :
      r.missing name = [] → ReflTransGen (Ran run) ⟨r, world⟩ s →
      (s.registry.get? name).bind Record.namespace? = some ns →
      Evaluated run r world name (.ok ns, s)
  | fault {e : LoadError} {s : Pass β σ} {path : List String} {marked : Registry β} {world' : σ} :
      r.missing name = [] → ReflTransGen (Ran run) ⟨r, world⟩ s →
      Marks path s.registry marked → Fault run r [name] path s e world' →
      (∀ x ∈ path, s.registry.Waits x) → name ∈ path →
      Evaluated run r world name (.error e, ⟨marked.dropEvaluating, world'⟩)

theorem marks_nil_eq {r r' : Registry β} (h : Marks [] r r') : r' = r := by
  obtain ⟨records⟩ := r
  obtain ⟨records'⟩ := r'
  congr 1
  exact Dict.ext_get? fun n => by simpa [Marks, Registry.get?] using h n

theorem missing_of_evaluated {r : Registry β} {name : String} {record : Record β}
    {ns : Namespace} (hg : r.get? name = some record) (hs : record.slot = .evaluated ns) :
    r.missing name = [] := by
  rw [List.eq_nil_iff_forall_not_mem]
  intro y hy
  obtain ⟨hn, hr⟩ := mem_missing_iff.1 hy
  rcases hr.cases_head with rfl | ⟨z, ⟨record', hg', hz⟩, -⟩
  · simp [hg] at hn
  · rw [hg, Option.some.injEq] at hg'
    subst hg'
    simp [needs, hs] at hz

theorem descent_start (run : Runner β σ) (s₀ : Pass β σ) (name : String) :
    Descent run s₀ [name] [] name s₀ s₀ :=
  ⟨.refl, marks_nil _, rfl, by simp, by simp, by simp, by simp, name, by simp, .refl⟩

theorem evaluate_evaluated (run : Runner β σ) {r : Registry β} (hr : r.Resting) (world : σ)
    (name : String) : Evaluated run r world name (r.evaluate run world name) := by
  rw [evaluate]
  split
  · rename_i hg
    exact .unknown hg
  · rename_i record hg
    split
    · rename_i ns hs
      refine .ok (missing_of_evaluated hg hs) .refl ?_
      simp [hg, Record.namespace?, hs]
    · rw [guarded]
      have hm : r.missing name = r.missingFor name record := by rw [missing, hg]
      split
      · rename_i first rest hf
        exact .missing (by rw [hm, hf]; exact List.mem_cons_self)
      · rename_i hf
        have h₀ : (Pass.mk r world).registry.Resting := hr
        have hv : Visited run ⟨r, world⟩ [name] [] name ⟨r, world⟩
            (visit run (r.size + 1) [] name record ⟨r, world⟩) :=
          visit_visited h₀ (descent_start run _ name) hg (by simp)
        generalize visit run (r.size + 1) [] name record ⟨r, world⟩ = out at hv
        cases hv with
        | @ok ns s' q hd hns =>
          obtain ⟨hrows, hmarks, hworld, -⟩ := hd
          obtain ⟨registry, w⟩ := q
          cases marks_nil_eq hmarks
          simp only at hworld
          subst hworld
          exact .ok (hm.trans hf) hrows hns
        | error hb =>
          obtain ⟨s', path, hrows, hmarks, hin, hwaits, hfault⟩ := hb
          exact .fault (hm.trans hf) hrows hmarks hfault hwaits (hin (by simp))

/-- How the evaluation of a body that is not registered ends. -/
inductive EvaluatedDetached (run : Runner β σ) (r : Registry β) (world : σ)
    (dependencies : List Dependency) (body : β) :
    Except LoadError Namespace × Pass β σ → Prop where
  | missing {name y : String} : EvaluatedDetached run r world dependencies body
      (.error (.instantiate name (.dependencyNotLoaded y)), ⟨r, world⟩)
  | ran {result : Except LoadError Namespace} {imports : Imports} {s : Pass β σ} {world' : σ} :
      ReflTransGen (Ran run) ⟨r, world⟩ s →
      s.registry.importsOf? .empty dependencies = some imports →
      run body imports s.world = (result, world') →
      EvaluatedDetached run r world dependencies body (result, ⟨s.registry, world'⟩)
  | fault {e : LoadError} {s : Pass β σ} {path : List String} {marked : Registry β} {world' : σ} :
      ReflTransGen (Ran run) ⟨r, world⟩ s → Marks path s.registry marked →
      Fault run r (dependencies.map Dependency.name) path s e world' →
      (∀ x ∈ path, s.registry.Waits x) →
      EvaluatedDetached run r world dependencies body (.error e, ⟨marked.dropEvaluating, world'⟩)

theorem rows_resting {run : Runner β σ} {s t : Pass β σ} (h : ReflTransGen (Ran run) s t)
    (hs : s.registry.Resting) : t.registry.Resting := by
  intro n record hg
  obtain ⟨record', hg', hset⟩ := rows_some h hg
  exact hset.not_evaluating (hs n record' hg')

/-- After a fault all marked records are gone, and no others. -/
theorem get?_dropEvaluating_marks {path : List String} {r marked : Registry β} (hr : r.Resting)
    (hm : Marks path r marked) (n : String) :
    marked.dropEvaluating.get? n = if n ∈ path then none else r.get? n := by
  rw [get?_dropEvaluating, hm n]
  split
  · cases r.get? n <;> simp [Record.state, Slot.state]
  · cases hg : r.get? n with
    | none => rfl
    | some record =>
      have hs := hr n record hg
      have hk : record.state ≠ .evaluating := by
        rw [Record.state]
        cases h : record.slot <;> simp_all [Slot.state]
      simp [hk]

theorem dropEvaluating_eq {r : Registry β} (hr : r.Resting) : r.dropEvaluating = r :=
  marks_nil_eq fun n => by simp [get?_dropEvaluating_marks hr (marks_nil r)]

theorem evaluateDetached_evaluated (run : Runner β σ) {r : Registry β} (hr : r.Resting)
    (world : σ) (name : String) (dependencies : List Dependency) (body : β) :
    EvaluatedDetached run r world dependencies body
      (r.evaluateDetached run world name dependencies body) := by
  rw [evaluateDetached, guarded]
  split
  · exact .missing
  · have hstart : Done run [] ⟨r, world⟩ ⟨r, world⟩ (⟨r, world⟩ : Pass β σ) :=
      ⟨.refl, marks_nil r, rfl, fun _ _ => rfl⟩
    have h₀ : (Pass.mk r world).registry.Resting := hr
    have himp : Imported run ⟨r, world⟩ (dependencies.map Dependency.name) [] .empty dependencies
        ⟨r, world⟩
        (importAll (visit run (r.size + 1) [name]) name .empty ⟨r, world⟩ dependencies) := by
      refine importAll_imported (fun hd hg => visit_visited h₀ hd hg (by simp)) hstart ?_
      intro d hd
      exact ⟨.refl, marks_nil _, rfl, by simp, by simp, by simp, by simp, d.name,
        List.mem_map_of_mem hd, .refl⟩
    generalize importAll _ name .empty _ dependencies = out at himp
    cases himp with
    | error hb =>
      obtain ⟨s', path, hrows, hmarks, -, hwaits, hfault⟩ := hb
      exact .fault hrows hmarks hfault hwaits
    | @ok imports s' q hd himports =>
      obtain ⟨hrows, hmarks, hworld, -⟩ := hd
      obtain ⟨registry, w⟩ := q
      cases marks_nil_eq hmarks
      simp only at hworld
      subst hworld
      simp only
      rcases hrun : run body imports s'.world with ⟨result, world'⟩
      cases result with
      | ok ns => exact .ran hrows himports hrun
      | error e =>
        simp only
        rw [dropEvaluating_eq (rows_resting hrows h₀)]
        exact .ran hrows himports hrun

/-! ## What every evaluation keeps -/

/-- What every evaluation does: no record is added, none is left in the middle of its evaluation,
and the world changes by runs of bodies. -/
structure Tends (run : Runner β σ) (r : Registry β) (world : σ) (q : Pass β σ) : Prop where
  resting : q.registry.Resting
  known : ∀ {n record}, q.registry.get? n = some record →
    ∃ record', r.get? n = some record' ∧ Settles record' record
  world : ∀ P : σ → Prop, P world → (∀ body imports w, P w → P (run body imports w).2) → P q.world

section Tends

variable {run : Runner β σ} {r : Registry β} {world : σ} {s : Pass β σ}

theorem rows_world {t : Pass β σ} (h : ReflTransGen (Ran run) s t) {P : σ → Prop}
    (hs : P s.world) (hp : ∀ body imports w, P w → P (run body imports w).2) : P t.world := by
  induction h with
  | refl => exact hs
  | tail _ hr ih =>
    cases hr with
    | @mk name record body imports ns w _ hrun =>
      have hw := hp body imports _ ih
      rw [hrun] at hw
      exact hw

theorem Fault.preserves {roots entered : List String} {e : LoadError} {world' : σ}
    (h : Fault run r roots entered s e world') {P : σ → Prop} (hs : P s.world)
    (hp : ∀ body imports w, P w → P (run body imports w).2) : P world' := by
  cases h with
  | missing | cyclic => exact hs
  | @body name record body imports _ _ _ hrun =>
    have hw := hp body imports s.world hs
    rw [hrun] at hw
    exact hw

theorem dropEvaluating_resting (r : Registry β) : r.dropEvaluating.Resting := by
  intro n record hg
  rw [get?_dropEvaluating, Option.filter_eq_some_iff] at hg
  have hs := hg.2
  intro he
  simp [Record.state, he, Slot.state] at hs

/-- Dropping what is marked leaves only records that were not. -/
theorem get?_of_dropEvaluating {path : List String} {marked : Registry β}
    (hm : Marks path r marked) {n : String} {record : Record β}
    (hg : marked.dropEvaluating.get? n = some record) : r.get? n = some record := by
  have hs := dropEvaluating_resting marked n record hg
  rw [get?_dropEvaluating, Option.filter_eq_some_iff] at hg
  exact (hm.of_slot hg.1 hs).2

theorem tends_refl (hr : r.Resting) : Tends run r world ⟨r, world⟩ :=
  ⟨hr, fun hg => ⟨_, hg, Or.inl rfl⟩, fun _ h _ => h⟩

theorem tends_of_rows (hr : r.Resting) (h : ReflTransGen (Ran run) ⟨r, world⟩ s) :
    Tends run r world s :=
  ⟨rows_resting h hr, fun hg => rows_some h hg, fun _ hw hp => rows_world h hw hp⟩

theorem tends_of_fault {path roots : List String} {marked : Registry β} {e : LoadError}
    {world' : σ} (h : ReflTransGen (Ran run) ⟨r, world⟩ s) (hm : Marks path s.registry marked)
    (hf : Fault run r roots path s e world') : Tends run r world ⟨marked.dropEvaluating, world'⟩ :=
  ⟨dropEvaluating_resting marked, fun hg => rows_some h (get?_of_dropEvaluating hm hg),
    fun _ hw hp => hf.preserves (rows_world h hw hp) hp⟩

theorem evaluate_tends (hr : r.Resting) (name : String) :
    Tends run r world (r.evaluate run world name).2 := by
  have h := evaluate_evaluated run hr world name
  generalize r.evaluate run world name = out at h
  cases h with
  | unknown | missing => exact tends_refl hr
  | ok _ hrows _ => exact tends_of_rows hr hrows
  | fault _ hrows hm hf => exact tends_of_fault hrows hm hf

theorem evaluateDetached_tends (hr : r.Resting) (name : String) (dependencies : List Dependency)
    (body : β) : Tends run r world (r.evaluateDetached run world name dependencies body).2 := by
  have h := evaluateDetached_evaluated run hr world name dependencies body
  generalize r.evaluateDetached run world name dependencies body = out at h
  cases h with
  | missing => exact tends_refl hr
  | fault hrows hm hf => exact tends_of_fault hrows hm hf
  | @ran result imports s world' hrows _ hrun =>
    have ht := tends_of_rows hr hrows
    refine ⟨ht.resting, ht.known, fun P hw hp => ?_⟩
    have hw' := hp body imports s.world (ht.world P hw hp)
    rw [hrun] at hw'
    exact hw'

end Tends

end ModuleLoader.Registry

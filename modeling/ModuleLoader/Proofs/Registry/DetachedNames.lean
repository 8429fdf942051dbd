import ModuleLoader.Proofs.Registry.Extents

/-! # The name of a detached module

A body that is evaluated apart from the registry has a name of its own, which stands in errors only:
under any name the same bodies run and the same records change. The search for missing names is the
exception. It takes the name for one that is there, and passes over what is missing below it.
-/

namespace ModuleLoader.Registry

open Dialect Relation

variable {β σ : Type}

/-! ## Other names -/

section Names

variable {α : Type} {run : Runner β σ}

/-- Two parts of a pass have led to the same, but for the wording of an error. -/
def Same (c c' : Except LoadError α × Pass β σ) : Prop :=
  Matching (· = ·) c.1 c'.1 ∧ c'.2 = c.2

theorem same_refl (c : Except LoadError α × Pass β σ) : Same c c := ⟨.refl c.1, rfl⟩

theorem Same.cases {c c' : Except LoadError α × Pass β σ} (h : Same c c') :
    (∃ a q, c = (.ok a, q) ∧ c' = (.ok a, q)) ∨
      ∃ e e' q, c = (.error e, q) ∧ c' = (.error e', q) ∧ e.kind = e'.kind := by
  obtain ⟨result, q⟩ := c
  obtain ⟨result', q'⟩ := c'
  obtain ⟨hm, rfl⟩ := h
  cases hm with
  | @ok a b heq => exact .inl ⟨a, _, rfl, heq ▸ rfl⟩
  | @error e e' he => exact .inr ⟨e, e', _, rfl, rfl, he⟩

theorem importAll_same {visit visit' : String → Record β → Pass β σ →
      Except LoadError Namespace × Pass β σ}
    (hv : ∀ name record p, Same (visit name record p) (visit' name record p))
    (importer importer' : String) (imports : Imports) (p : Pass β σ)
    (dependencies : List Dependency) :
    Same (importAll visit importer imports p dependencies)
      (importAll visit' importer' imports p dependencies) := by
  induction dependencies generalizing imports p with
  | nil => exact same_refl _
  | cons d rest ih =>
    rw [importAll, importAll]
    cases p.registry.get? d.name with
    | none => exact ⟨.error rfl, rfl⟩
    | some record =>
      simp only
      rcases (hv d.name record p).cases with ⟨ns, q, h, h'⟩ | ⟨e, e', q, h, h', he⟩
      · rw [h, h']
        exact ih _ q
      · rw [h, h']
        exact ⟨.error he, rfl⟩

/-- The path that a cycle would be reported with does not matter. -/
theorem visit_same (run : Runner β σ) (depth : Nat) (path path' : List String) (name : String)
    (record : Record β) (p : Pass β σ) :
    Same (visit run depth path name record p) (visit run depth path' name record p) := by
  induction depth generalizing path path' name record p with
  | zero => exact same_refl _
  | succ depth ih =>
    rw [visit, visit]
    cases record.slot with
    | evaluated ns => exact same_refl _
    | evaluating => exact ⟨.error rfl, rfl⟩
    | waiting body =>
      have himports := importAll_same (ih (path ++ [name]) (path' ++ [name])) name name .empty
        { p with registry := p.registry.setSlot name .evaluating } record.dependencies
      simp only
      rcases himports.cases with ⟨imports, q, h, h'⟩ | ⟨e, e', q, h, h', he⟩
      · rw [h, h']
        exact same_refl _
      · rw [h, h']
        exact ⟨.error he, rfl⟩

end Names

/-! ## The search that passes over a name -/

section Search

variable {r : Registry β} {x y : String} {roots : List String}

/-- A name can be reached from some others without coming to one that is passed over. -/
def ReachedPast (r : Registry β) (x : String) (roots : List String) (y : String) : Prop :=
  ∃ z ∈ roots, z ≠ x ∧ ReflTransGen (r.NeedsOutside [x]) z y

/-- A name without a record can be reached from some others. -/
def Incomplete (r : Registry β) (roots : List String) : Prop :=
  ∃ y, r.get? y = none ∧ r.Reached roots y

/-- A name without a record can be reached without coming to one that is passed over. -/
def IncompletePast (r : Registry β) (x : String) (roots : List String) : Prop :=
  ∃ y, r.get? y = none ∧ r.ReachedPast x roots y

theorem ReachedPast.reached (h : r.ReachedPast x roots y) : r.Reached roots y := by
  obtain ⟨z, hz, -, hreach⟩ := h
  exact ⟨z, hz, ReflTransGen.mono (fun _ _ hn => hn.1) _ _ hreach⟩

/-- The search comes to nothing behind the seen names. -/
theorem search_outside {seen todo : List String} {missing : Dict Unit}
    (h : y ∈ (r.search seen missing todo).keys) : y ∈ missing.keys ∨
      r.get? y = none ∧ ∃ z ∈ todo, z ∉ seen ∧ ReflTransGen (r.NeedsOutside seen) z y := by
  have hmono {name : String} {seen : List String} {z : String}
      (hr : ReflTransGen (r.NeedsOutside (name :: seen)) z y) :
      ReflTransGen (r.NeedsOutside seen) z y :=
    ReflTransGen.mono (fun _ _ hn => ⟨hn.1, fun hs => hn.2 (List.mem_cons_of_mem _ hs)⟩) _ _ hr
  fun_induction search r seen missing todo with
  | case1 seen missing => exact .inl h
  | case2 seen missing name rest hs ih =>
    refine (ih h).imp_right ?_
    rintro ⟨hn, z, hz, hzs, hr⟩
    exact ⟨hn, z, List.mem_cons_of_mem _ hz, hzs, hr⟩
  | case3 seen missing name rest hs record hg ih =>
    refine (ih h).imp_right ?_
    rintro ⟨hn, z, hz, hzs, hr⟩
    obtain ⟨-, hzs⟩ := List.mem_cons.not.1 hzs |> not_or.1
    rcases List.mem_append.1 hz with hz | hz
    · exact ⟨hn, name, List.mem_cons_self, hs, .head ⟨⟨record, hg, hz⟩, hzs⟩ (hmono hr)⟩
    · exact ⟨hn, z, List.mem_cons_of_mem _ hz, hzs, hmono hr⟩
  | case4 seen missing name rest hs hg ih =>
    rcases ih h with hm | ⟨hn, z, hz, hzs, hr⟩
    · rcases mem_keys_insert.1 hm with rfl | hm
      · exact .inr ⟨hg, y, List.mem_cons_self, hs, .refl⟩
      · exact .inl hm
    · obtain ⟨-, hzs⟩ := List.mem_cons.not.1 hzs |> not_or.1
      exact .inr ⟨hn, z, List.mem_cons_of_mem _ hz, hzs, hmono hr⟩

/-- What the search finds below a body that is evaluated apart. -/
theorem mem_missingFor_waiting_iff {dependencies : List Dependency} {body : β} :
    y ∈ r.missingFor x (.waiting none dependencies body) ↔
      r.get? y = none ∧ r.ReachedPast x (dependencies.map Dependency.name) y := by
  constructor
  · intro h
    rcases search_outside h with h | ⟨hy, z, hz, hzx, hr⟩
    · simp [Dict.mem_keys_iff] at h
    · exact ⟨hy, z, hz, List.mem_singleton.not.1 hzx, hr⟩
  · rintro ⟨hy, z, hz, hzx, hr⟩
    exact search_complete hy hz (List.mem_singleton.not.2 hzx) hr

theorem incompletePast_iff {dependencies : List Dependency} (body : β) :
    r.IncompletePast x (dependencies.map Dependency.name) ↔
      r.missingFor x (.waiting none dependencies body) ≠ [] := by
  rw [Ne, List.eq_nil_iff_forall_not_mem, not_forall]
  exact exists_congr fun y => (mem_missingFor_waiting_iff.symm.trans not_not.symm)

end Search

/-! ## Where a pass begins -/

section Begins

variable {run : Runner β σ} {r : Registry β}

/-- The first dependency that is not evaluated has no record. -/
def StopsAtOnce (r : Registry β) (dependencies : List Dependency) : Prop :=
  ∃ before d after, dependencies = before ++ d :: after ∧
    (∀ e ∈ before, r.IsEvaluated e.name) ∧ r.get? d.name = none

theorem visit_evaluated {depth : Nat} {path : List String} {name : String} {record : Record β}
    {ns : Namespace} (hs : record.slot = .evaluated ns) (p : Pass β σ) :
    visit run (depth + 1) path name record p = (.ok ns, p) := by
  rw [visit, hs]

/-- Dependencies that are evaluated are passed without a change. -/
theorem importAll_skip (run : Runner β σ) (depth : Nat) (path : List String) (importer : String)
    (imports : Imports) {p : Pass β σ} {before : List Dependency} (h : ∀ e ∈ before, p.registry.IsEvaluated e.name)
    (rest : List Dependency) : ∃ imports',
      importAll (visit run (depth + 1) path) importer imports p (before ++ rest) =
        importAll (visit run (depth + 1) path) importer imports' p rest := by
  induction before generalizing imports with
  | nil => exact ⟨imports, rfl⟩
  | cons e before ih =>
    obtain ⟨⟨record, ns, hg, hs⟩, hbefore⟩ := List.forall_mem_cons.1 h
    rw [List.cons_append, importAll, hg]
    simp only [visit_evaluated hs]
    exact ih _ hbefore

/-- A pass that enters a record does not leave it waiting. -/
theorem visit_enters (run : Runner β σ) (depth : Nat) (path : List String) {name : String}
    {record : Record β} {body : β} {p : Pass β σ} (hg : p.registry.get? name = some record)
    (hs : record.slot = .waiting body) : ∃ slot, slot.state ≠ .waiting ∧
      (visit run (depth + 1) path name record p).2.registry.get? name =
        some { record with slot := slot } := by
  have hentered : (p.registry.setSlot name .evaluating).get? name =
      some { record with slot := .evaluating } := by
    rw [get?_setSlot, if_pos rfl, hg]
    rfl
  have hmarked := (imports_touch run depth (path ++ [name]) name .empty
    { p with registry := p.registry.setSlot name .evaluating } record.dependencies).kept hentered
      (by simp [Slot.state])
  rw [visit, hs]
  simp only
  generalize importAll (visit run depth (path ++ [name])) name .empty _ record.dependencies = out
    at hmarked
  obtain ⟨result, q⟩ := out
  cases result with
  | error e => exact ⟨.evaluating, by simp [Slot.state], hmarked⟩
  | ok imports =>
    simp only at hmarked ⊢
    rcases run body imports q.world with ⟨result, world⟩
    cases result with
    | error e => exact ⟨.evaluating, by simp [Slot.state], hmarked⟩
    | ok ns =>
      refine ⟨.evaluated ns, by simp [Slot.state], ?_⟩
      rw [get?_setSlot, if_pos rfl, hmarked]
      rfl

/-- Nor does one that comes to it as a dependency. -/
theorem importAll_enters (run : Runner β σ) (depth : Nat) (path : List String) (importer : String)
    (imports : Imports) {p : Pass β σ} {d : Dependency} {record : Record β} {body : β}
    (hg : p.registry.get? d.name = some record) (hs : record.slot = .waiting body)
    (rest : List Dependency) : ∃ slot, slot.state ≠ .waiting ∧
      (importAll (visit run (depth + 1) path) importer imports p (d :: rest)).2.registry.get?
        d.name = some { record with slot := slot } := by
  obtain ⟨slot, hslot, hvisited⟩ := visit_enters run depth path hg hs
  rw [importAll, hg]
  refine ⟨slot, hslot, ?_⟩
  simp only
  generalize visit run (depth + 1) path d.name record p = out at hvisited
  obtain ⟨result, q⟩ := out
  cases result with
  | error e => exact hvisited
  | ok ns => exact (imports_touch run (depth + 1) path importer _ q rest).kept hvisited hslot

theorem first_not_evaluated (r : Registry β) (dependencies : List Dependency) :
    (∀ d ∈ dependencies, r.IsEvaluated d.name) ∨
      ∃ before d after, dependencies = before ++ d :: after ∧
        (∀ e ∈ before, r.IsEvaluated e.name) ∧ ¬ r.IsEvaluated d.name := by
  induction dependencies with
  | nil => exact .inl (List.forall_mem_nil _)
  | cons d rest ih =>
    by_cases hd : r.IsEvaluated d.name
    · refine ih.imp (fun h => List.forall_mem_cons.2 ⟨hd, h⟩) ?_
      rintro ⟨before, e, after, rfl, hbefore, he⟩
      exact ⟨d :: before, e, after, rfl, List.forall_mem_cons.2 ⟨hd, hbefore⟩, he⟩
    · exact .inr ⟨[], d, rest, rfl, List.forall_mem_nil _, hd⟩

/-- A pass below which something is missing enters a record, unless it stops at once. -/
theorem importAll_enters_first (run : Runner β σ) (hr : r.Resting) (world : σ) (depth : Nat)
    (path : List String) (importer : String) {dependencies : List Dependency}
    (h : r.Incomplete (dependencies.map Dependency.name)) (hs : ¬ r.StopsAtOnce dependencies) :
    ∃ n record body slot, r.get? n = some record ∧ record.slot = .waiting body ∧
      slot.state ≠ .waiting ∧
      (importAll (visit run (depth + 1) path) importer .empty ⟨r, world⟩
        dependencies).2.registry.get? n = some { record with slot := slot } := by
  rcases first_not_evaluated r dependencies with hall | ⟨before, d, after, rfl, hbefore, hd⟩
  · obtain ⟨y, hy, x, hx, hreach⟩ := h
    obtain ⟨d, hd, rfl⟩ := List.mem_map.1 hx
    rcases hreach.cases_head with rfl | ⟨z, hz, -⟩
    · obtain ⟨record, -, hg, -⟩ := hall d hd
      rw [hg] at hy
      cases hy
    · exact absurd hz ((hall d hd).not_needs z)
  · obtain ⟨imports, hskip⟩ := importAll_skip run depth path importer .empty
      (p := ⟨r, world⟩) hbefore (d :: after)
    cases hg : r.get? d.name with
    | none => exact absurd ⟨before, d, after, rfl, hbefore, hg⟩ hs
    | some record =>
      cases hslot : record.slot with
      | waiting body =>
        obtain ⟨slot, hentered, hget⟩ := importAll_enters run depth path importer imports
          (p := ⟨r, world⟩) hg hslot after
        exact ⟨d.name, record, body, slot, hg, hslot, hentered, hskip ▸ hget⟩
      | evaluating => exact absurd hslot (hr d.name record hg)
      | evaluated ns => exact absurd ⟨record, ns, hg, hslot⟩ hd

/-- A record that was entered does not wait again, nor when the marked records are removed. -/
theorem ne_of_entered {r' : Registry β} {n : String} {record : Record β} {body : β} {slot : Slot β}
    (hg : r.get? n = some record) (hs : record.slot = .waiting body) (hslot : slot.state ≠ .waiting)
    (h : r'.get? n = some { record with slot := slot }) : r' ≠ r ∧ r'.dropEvaluating ≠ r := by
  have hne : some { record with slot := slot } ≠ some record := by
    intro he
    have hsame : slot = record.slot := congrArg Record.slot (Option.some.inj he)
    rw [hsame, hs] at hslot
    exact hslot rfl
  constructor
  · rintro rfl
    exact hne (h.symm.trans hg)
  · intro he
    rw [← he, get?_dropEvaluating, h, Option.filter_eq_some_iff] at hg
    exact hne hg.1

end Begins

/-! ## Bodies apart from the registry -/

section Apart

variable {run : Runner β σ} {r : Registry β}

/-- A body apart from the registry changes what its dependencies need and nothing else. -/
theorem evaluateDetached_confined (run : Runner β σ) (hr : r.Resting) (world : σ) (x : String)
    (dependencies : List Dependency) (body : β) :
    Confined (dependencies.map Dependency.name) r
      (r.evaluateDetached run world x dependencies body).2.registry := by
  have hresting : (r.evaluateDetached run world x dependencies body).2.registry.Resting :=
    (evaluateDetached_tends hr x dependencies body).resting
  have htouches := imports_touch run (r.size + 1) [x] x .empty ⟨r, world⟩ dependencies
  rw [evaluateDetached, guarded] at hresting ⊢
  cases hmissing : r.missingFor x (.waiting none dependencies body) with
  | cons first rest => exact fun _ => .inl rfl
  | nil =>
    rw [hmissing] at hresting
    simp only at hresting ⊢
    generalize importAll _ x .empty ⟨r, world⟩ dependencies = out at htouches hresting
    obtain ⟨result, q⟩ := out
    cases result with
    | error e => exact htouches.confined_drop hr
    | ok imports =>
      simp only at hresting ⊢
      rcases hrun : run body imports q.world with ⟨result, world'⟩
      rw [hrun] at hresting
      cases result with
      | error e => exact htouches.confined_drop hr
      | ok ns => exact htouches.confined hresting

/-- When the search comes to the same under two names, so does the whole evaluation. -/
theorem evaluateDetached_same (run : Runner β σ) (r : Registry β) (world : σ) {x y : String}
    {dependencies : List Dependency} (body : β)
    (h : r.IncompletePast x (dependencies.map Dependency.name) ↔
      r.IncompletePast y (dependencies.map Dependency.name)) :
    Same (r.evaluateDetached run world x dependencies body)
      (r.evaluateDetached run world y dependencies body) := by
  rw [incompletePast_iff body, incompletePast_iff body] at h
  rw [evaluateDetached, evaluateDetached, guarded, guarded]
  cases hx : r.missingFor x (.waiting none dependencies body) with
  | cons first rest =>
    cases hy : r.missingFor y (.waiting none dependencies body) with
    | cons first' rest' => exact ⟨.error rfl, rfl⟩
    | nil => simp [hx, hy] at h
  | nil =>
    cases hy : r.missingFor y (.waiting none dependencies body) with
    | cons first' rest' => simp [hx, hy] at h
    | nil =>
      have himports := importAll_same (visit_same run (r.size + 1) [x] [y]) x y .empty ⟨r, world⟩
        dependencies
      simp only
      rcases himports.cases with ⟨imports, q, h, h'⟩ | ⟨e, e', q, h, h', he⟩
      · rw [h, h']
        exact same_refl _
      · rw [h, h']
        exact ⟨.error he, rfl⟩

/-- A body whose dependencies cannot be completed is rejected. -/
theorem evaluateDetached_incomplete (run : Runner β σ) (hr : r.Resting) (world : σ) (x : String)
    {dependencies : List Dependency} (body : β)
    (h : r.Incomplete (dependencies.map Dependency.name)) :
    ∃ e, (r.evaluateDetached run world x dependencies body).1 = .error e := by
  have hout := evaluateDetached_evaluated run hr world x dependencies body
  generalize r.evaluateDetached run world x dependencies body = out at hout
  cases hout with
  | missing => exact ⟨_, rfl⟩
  | fault => exact ⟨_, rfl⟩
  | ran hrows himports =>
    obtain ⟨y, hy, hreach⟩ := h
    refine absurd hy (rows_registered hrows (fun x hx => ?_) hreach)
    obtain ⟨d, hd, rfl⟩ := List.mem_map.1 hx
    exact isEvaluated_of_importsOf? himports hd

/-- It is rejected without a change if the search finds what is missing, or if the pass comes to it
before it enters any record. -/
theorem evaluateDetached_untouched_iff (run : Runner β σ) (hr : r.Resting) (world : σ) (x : String)
    {dependencies : List Dependency} (body : β)
    (h : r.Incomplete (dependencies.map Dependency.name)) :
    (r.evaluateDetached run world x dependencies body).2 = ⟨r, world⟩ ↔
      r.IncompletePast x (dependencies.map Dependency.name) ∨ r.StopsAtOnce dependencies := by
  rw [incompletePast_iff body, evaluateDetached, guarded]
  cases hmissing : r.missingFor x (.waiting none dependencies body) with
  | cons first rest => simp
  | nil =>
    simp only [ne_eq, not_true_eq_false, false_or]
    constructor
    · intro hout
      by_contra hstops
      obtain ⟨n, record, body', slot, hg, hs, hslot, hentered⟩ :=
        importAll_enters_first run hr world r.size [x] x h hstops
      obtain ⟨hchanged, hdropped⟩ := ne_of_entered hg hs hslot hentered
      generalize importAll _ x .empty ⟨r, world⟩ dependencies = out at hout hchanged hdropped
      obtain ⟨result, q⟩ := out
      cases result with
      | error e => exact hdropped (congrArg Pass.registry hout)
      | ok imports =>
        simp only at hout
        rcases hrun : run body imports q.world with ⟨result, world'⟩
        rw [hrun] at hout
        cases result with
        | error e => exact hdropped (congrArg Pass.registry hout)
        | ok ns => exact hchanged (congrArg Pass.registry hout)
    · rintro ⟨before, d, after, rfl, hbefore, hnone⟩
      obtain ⟨imports, hskip⟩ := importAll_skip run r.size [x] x .empty
        (p := ⟨r, world⟩) hbefore (d :: after)
      rw [hskip, importAll, hnone]
      simp only [dropEvaluating_eq hr]

/-- A body apart from the registry is never registered. Of the records, only those that its
dependencies need change, and they are evaluated or removed. Its name is of no account but for the
search: where that comes to the same under another name, so does the rest. If something is missing
below the dependencies, the body is rejected; and nothing is changed and no other body runs exactly
if the search finds something, or the first dependency that is not evaluated has no record. -/
theorem evaluateDetached_apart (run : Runner β σ) (hr : r.Resting) (world : σ) (x : String)
    (dependencies : List Dependency) (body : β) :
    Confined (dependencies.map Dependency.name) r
        (r.evaluateDetached run world x dependencies body).2.registry ∧
      (∀ y, (r.IncompletePast x (dependencies.map Dependency.name) ↔
          r.IncompletePast y (dependencies.map Dependency.name)) →
        Same (r.evaluateDetached run world x dependencies body)
          (r.evaluateDetached run world y dependencies body)) ∧
      (r.Incomplete (dependencies.map Dependency.name) →
        (∃ e, (r.evaluateDetached run world x dependencies body).1 = .error e) ∧
          ((r.evaluateDetached run world x dependencies body).2 = ⟨r, world⟩ ↔
            r.IncompletePast x (dependencies.map Dependency.name) ∨
              r.StopsAtOnce dependencies)) :=
  ⟨evaluateDetached_confined run hr world x dependencies body,
    fun _ h => evaluateDetached_same run r world body h,
    fun h => ⟨evaluateDetached_incomplete run hr world x body h,
      evaluateDetached_untouched_iff run hr world x body h⟩⟩

/-- A record that needs one that is there and one that is not. -/
def gap : Registry String :=
  (Registry.empty.commit "ok" (.waiting none [] "ok")).commit "n"
    (.waiting none [⟨"ok", "ok"⟩, ⟨"gone", "gone"⟩] "n")

theorem gap_resting : gap.Resting := empty_resting.commit_waiting.commit_waiting

theorem gap_incomplete : gap.Incomplete ["n"] :=
  ⟨"gone", rfl, "n", List.mem_singleton_self _, .single ⟨_, rfl, by decide⟩⟩

theorem gap_found : gap.IncompletePast "m" ["n"] :=
  ⟨"gone", rfl, "n", List.mem_singleton_self _, by decide,
    .single ⟨⟨_, rfl, by decide⟩, by decide⟩⟩

theorem evaluateDetached_apart_gap : gap.Resting ∧ gap.Incomplete ["n"] ∧
    (∃ e, (gap.evaluateDetached (listedRun none) [] "m" [⟨"n", "n"⟩] "m").1 = .error e) ∧
    (gap.evaluateDetached (listedRun none) [] "m" [⟨"n", "n"⟩] "m").2 = ⟨gap, []⟩ := by
  obtain ⟨-, -, hincomplete⟩ :=
    evaluateDetached_apart (listedRun none) gap_resting [] "m" [⟨"n", "n"⟩] "m"
  obtain ⟨herror, huntouched⟩ := hincomplete gap_incomplete
  exact ⟨gap_resting, gap_incomplete, herror, huntouched.2 (.inl gap_found)⟩

/-- Under the name `n` the same body is not stopped by the search. The body of `ok` runs, and the
record of `n` is removed. -/
theorem detached_name_hides_gap : gap.Resting ∧ gap.Incomplete ["n"] ∧
    (gap.evaluateDetached (listedRun none) [] "n" [⟨"n", "n"⟩] "n").2.world = ["ok"] ∧
    gap.state? "n" = some .waiting ∧
    (gap.evaluateDetached (listedRun none) [] "n" [⟨"n", "n"⟩] "n").2.registry.state? "n" = none ∧
    gap.state? "ok" = some .waiting ∧
    (gap.evaluateDetached (listedRun none) [] "n" [⟨"n", "n"⟩] "n").2.registry.state? "ok" =
      some .evaluated := by
  refine ⟨gap_resting, gap_incomplete, ?_⟩
  decide +kernel

end Apart

end ModuleLoader.Registry

import ModuleLoader.Proofs.Registry.Detachment
import ModuleLoader.Proofs.Registry.MissingNames
import ModuleLoader.Proofs.Registry.Outcomes

/-! # How far a pass reaches

A pass enters only records that wait and that the names it starts from need, themselves or through
others. All other records stay as they are. When it comes to its end, all that those names need is
registered.
-/

namespace ModuleLoader.Registry

open Dialect Relation

variable {β σ : Type}

/-- Only records that wait and can be reached from some names have changed: they are marked or
evaluated. -/
def Touches (roots : List String) (r r' : Registry β) : Prop :=
  ∀ n, r'.get? n = r.get? n ∨
    ∃ record body slot, r.get? n = some record ∧ record.slot = .waiting body ∧
      r.Reached roots n ∧ slot.state ≠ .waiting ∧ r'.get? n = some { record with slot := slot }

/-- Only records that wait and can be reached from some names have changed: they are evaluated or
gone. -/
def Confined (roots : List String) (r r' : Registry β) : Prop :=
  ∀ n, r'.get? n = r.get? n ∨
    ∃ record body, r.get? n = some record ∧ record.slot = .waiting body ∧ r.Reached roots n ∧
      (r'.get? n = none ∨ ∃ ns, r'.get? n = some { record with slot := .evaluated ns })

section Touches

variable {roots roots' : List String} {r r' r'' : Registry β}

theorem touches_refl (roots : List String) (r : Registry β) : Touches roots r r :=
  fun _ => .inl rfl

theorem Touches.needs (h : Touches roots r r') {x y : String} (hn : r'.Needs x y) :
    r.Needs x y := by
  obtain ⟨record', hg', hy⟩ := hn
  rcases h x with he | ⟨record, body, slot, hg, hs, -, -, he⟩
  · exact ⟨record', he ▸ hg', hy⟩
  · rw [he, Option.some.injEq] at hg'
    subst hg'
    refine ⟨record, hg, ?_⟩
    have hdependencies := mem_needs hy
    rwa [Registry.needs, hs]

theorem Touches.reached (h : Touches roots r r') {names : List String} {y : String}
    (hy : r'.Reached names y) : r.Reached names y := by
  obtain ⟨x, hx, hreach⟩ := hy
  exact ⟨x, hx, ReflTransGen.mono (fun _ _ => h.needs) _ _ hreach⟩

theorem Touches.mono (h : Touches roots' r r') (hr : ∀ x ∈ roots', r.Reached roots x) :
    Touches roots r r' := by
  intro n
  refine (h n).imp_right ?_
  rintro ⟨record, body, slot, hg, hs, ⟨x, hx, hreach⟩, hslot, he⟩
  obtain ⟨z, hz, hzx⟩ := hr x hx
  exact ⟨record, body, slot, hg, hs, ⟨z, hz, hzx.trans hreach⟩, hslot, he⟩

/-- What does not wait stays as it is. -/
theorem Touches.kept (h : Touches roots r r') {n : String} {record : Record β}
    (hg : r.get? n = some record) (hs : record.slot.state ≠ .waiting) :
    r'.get? n = some record := by
  rcases h n with he | ⟨record', body, -, hg', hs', -⟩
  · exact he.trans hg
  · rw [hg, Option.some.injEq] at hg'
    subst hg'
    exact absurd (congrArg Slot.state hs') hs

theorem Touches.trans (h : Touches roots r r') (h' : Touches roots r' r'') :
    Touches roots r r'' := by
  intro n
  rcases h n with he | ⟨record, body, slot, hg, hs, hreach, hslot, he⟩
  · rcases h' n with he' | ⟨record, body, slot, hg, hs, hreach, hslot, he'⟩
    · exact .inl (he'.trans he)
    · exact .inr ⟨record, body, slot, he ▸ hg, hs, h.reached hreach, hslot, he'⟩
  · exact .inr ⟨record, body, slot, hg, hs, hreach, hslot, h'.kept he hslot⟩

theorem Touches.setSlot {name : String} (h : Touches [name] r r') {record : Record β} {body : β}
    (hg : r.get? name = some record) (hs : record.slot = .waiting body) {slot : Slot β}
    (hslot : slot.state ≠ .waiting) : Touches [name] r (r'.setSlot name slot) := by
  intro n
  rw [get?_setSlot]
  by_cases hn : n = name
  · subst hn
    rw [if_pos rfl]
    refine .inr ⟨record, body, slot, hg, hs, ⟨n, by simp, .refl⟩, hslot, ?_⟩
    rcases h n with he | ⟨record', _, _, hg', _, _, _, he⟩
    · rw [he, hg]
      rfl
    · rw [hg, Option.some.injEq] at hg'
      rw [he, ← hg']
      rfl
  · rw [if_neg hn]
    exact h n

theorem Touches.confined (h : Touches roots r r') (hr : r'.Resting) : Confined roots r r' := by
  intro n
  refine (h n).imp_right ?_
  rintro ⟨record, body, slot, hg, hs, hreach, hslot, he⟩
  refine ⟨record, body, hg, hs, hreach, .inr ?_⟩
  cases slot with
  | waiting body => exact absurd rfl hslot
  | evaluating => exact absurd rfl (hr n _ he)
  | evaluated ns => exact ⟨ns, he⟩

/-- When the marked records are removed, the others are as far as they have come. -/
theorem Touches.confined_drop (h : Touches roots r r') (hr : r.Resting) :
    Confined roots r r'.dropEvaluating := by
  intro n
  rw [get?_dropEvaluating]
  rcases h n with he | ⟨record, body, slot, hg, hs, hreach, hslot, he⟩
  · left
    rw [he, ← get?_dropEvaluating, dropEvaluating_eq hr]
  · refine .inr ⟨record, body, hg, hs, hreach, ?_⟩
    rw [he]
    cases slot with
    | waiting body => exact absurd rfl hslot
    | evaluating => exact .inl rfl
    | evaluated ns => exact .inr ⟨ns, rfl⟩

end Touches

section Visits

variable {run : Runner β σ}

theorem importAll_touches {visit : String → Record β → Pass β σ →
      Except LoadError Namespace × Pass β σ}
    (hv : ∀ {name record p}, p.registry.get? name = some record →
      Touches [name] p.registry (visit name record p).2.registry)
    (importer : String) (imports : Imports) (p : Pass β σ) (dependencies : List Dependency) :
    Touches (dependencies.map Dependency.name) p.registry
      (importAll visit importer imports p dependencies).2.registry := by
  induction dependencies generalizing imports p with
  | nil => exact touches_refl _ _
  | cons d rest ih =>
    rw [importAll]
    cases hg : p.registry.get? d.name with
    | none => exact touches_refl _ _
    | some record =>
      have hvisit : Touches (d.name :: rest.map Dependency.name) p.registry
          (visit d.name record p).2.registry :=
        (hv hg).mono fun x hx => ⟨x, by simp [List.mem_singleton.1 hx], .refl⟩
      simp only
      rcases hr : visit d.name record p with ⟨result, q⟩
      rw [hr] at hvisit
      cases result with
      | error e => exact hvisit
      | ok ns =>
        refine hvisit.trans ((ih _ q).mono fun x hx => ⟨x, List.mem_cons_of_mem _ hx, .refl⟩)

theorem visit_touches (depth : Nat) (path : List String) {name : String} {record : Record β}
    {p : Pass β σ} (hg : p.registry.get? name = some record) :
    Touches [name] p.registry (visit run depth path name record p).2.registry := by
  induction depth generalizing path name record p with
  | zero => exact touches_refl _ _
  | succ depth ih =>
    rw [visit]
    cases hs : record.slot with
    | evaluated ns => exact touches_refl _ _
    | evaluating => exact touches_refl _ _
    | waiting body =>
      have hentered : Touches [name] p.registry (p.registry.setSlot name .evaluating) :=
        (touches_refl _ _).setSlot hg hs (by simp [Slot.state])
      have himports := importAll_touches (fun hg => ih (path ++ [name]) hg) name .empty
        { p with registry := p.registry.setSlot name .evaluating } record.dependencies
      have hbelow : ∀ x ∈ record.dependencies.map Dependency.name,
          (p.registry.setSlot name .evaluating).Reached [name] x := by
        intro x hx
        refine ⟨name, by simp, .single ⟨{ record with slot := .evaluating }, ?_, hx⟩⟩
        rw [get?_setSlot, if_pos rfl, hg]
        rfl
      have htouched := hentered.trans (himports.mono hbelow)
      simp only
      generalize importAll _ name .empty _ record.dependencies = out at htouched
      obtain ⟨result, q⟩ := out
      cases result with
      | error e => exact htouched
      | ok imports =>
        simp only
        rcases run body imports q.world with ⟨result, world⟩
        cases result with
        | error e => exact htouched
        | ok ns => exact htouched.setSlot hg hs (by simp [Slot.state])

theorem imports_touch (run : Runner β σ) (depth : Nat) (path : List String) (importer : String)
    (imports : Imports) (p : Pass β σ) (dependencies : List Dependency) :
    Touches (dependencies.map Dependency.name) p.registry
      (importAll (visit run depth path) importer imports p dependencies).2.registry :=
  importAll_touches (fun hg => visit_touches depth path hg) importer imports p dependencies

end Visits

/-! ## Passes that come to their end -/

section Rows

variable {run : Runner β σ}

theorem isEvaluated_of_importsOf? {r : Registry β} {imports imports' : Imports}
    {dependencies : List Dependency} (h : r.importsOf? imports dependencies = some imports')
    {d : Dependency} (hd : d ∈ dependencies) : r.IsEvaluated d.name := by
  induction dependencies generalizing imports with
  | nil => cases hd
  | cons e rest ih =>
    rw [importsOf?] at h
    split at h
    · rename_i ns hns
      rcases List.mem_cons.1 hd with rfl | hd
      · exact Yields.isEvaluated hns
      · exact ih h hd
    · cases h

/-- After a row of runs, all that an evaluated record needed is evaluated. -/
theorem rows_evaluated {s t : Pass β σ} (h : ReflTransGen (Ran run) s t) {x y : String}
    (hx : t.registry.IsEvaluated x) (hn : s.registry.Needs x y) : t.registry.IsEvaluated y := by
  induction h with
  | refl => exact absurd hn (hx.not_needs y)
  | @tail m t hm hran ih =>
    have hkept {z : String} (hz : m.registry.IsEvaluated z) : t.registry.IsEvaluated z := by
      obtain ⟨record, ns, hg, hs⟩ := hz
      have hns : (m.registry.get? z).bind Record.namespace? = some ns := by
        rw [hg, Option.bind_some, Record.namespace?, hs]
      exact Yields.isEvaluated (rows_namespace? (.single hran) hns)
    by_cases hbefore : m.registry.IsEvaluated x
    · exact hkept (ih hbefore)
    · -- this is the run of its body, whose imports are there
      cases hran with
      | @mk name record body imports ns world hready _ =>
        have hname : x = name := by
          by_contra hne
          obtain ⟨record', ns', hg, hs⟩ := hx
          rw [get?_setSlot, if_neg hne] at hg
          exact hbefore ⟨record', ns', hg, hs⟩
        subst hname
        obtain ⟨record', hg', hy⟩ := hn
        obtain ⟨record₀, hg₀, hset⟩ := rows_some hm hready.get
        rw [hg', Option.some.injEq] at hg₀
        subst hg₀
        obtain ⟨d, hd, rfl⟩ := List.mem_map.1 (mem_needs hy)
        rw [← hset.dependencies] at hd
        exact hkept (isEvaluated_of_importsOf? hready.imports hd)

/-- What the dependencies need is registered when all of them could be evaluated. -/
theorem rows_registered {s t : Pass β σ} (h : ReflTransGen (Ran run) s t) {roots : List String}
    (hr : ∀ x ∈ roots, t.registry.IsEvaluated x) {y : String}
    (hy : s.registry.Reached roots y) : s.registry.get? y ≠ none := by
  obtain ⟨x, hx, hreach⟩ := hy
  have hevaluated : t.registry.IsEvaluated y := by
    induction hreach with
    | refl => exact hr x hx
    | tail _ hn ih => exact rows_evaluated h ih hn
  obtain ⟨record, -, hg, -⟩ := hevaluated
  rw [Ne, ← rows_none h, hg]
  simp

end Rows

end ModuleLoader.Registry

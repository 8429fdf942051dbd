import ModuleLoader.Proofs.Registry.Watching

/-! # Recorded evaluations

A recorder keeps a moment for each run of a body. In an evaluation every body that runs has waited
before and never waits again, its dependencies are evaluated at that moment, and they stay so.
-/

namespace ModuleLoader.Registry

open Dialect

variable {β σ : Type}

/-- A run of a body: in which turn it happens, and what the body finds. -/
structure Moment (β : Type) where
  turn : Nat
  registry : Registry β
  body : β
  imports : Imports

/-- Run bodies and keep the moments at which they start, oldest first. -/
def recording (run : Runner β σ) (turn : Nat) : Watcher β (σ × List (Moment β)) :=
  fun r body imports world =>
    ((run body imports world.1).1,
      ((run body imports world.1).2, world.2 ++ [⟨turn, r, body, imports⟩]))

theorem recording_watches (run : Runner β σ) (turn : Nat) :
    Watches Prod.fst (recording run turn) run := fun _ _ _ _ => rfl

/-! ## What a registry keeps -/

/-- Two different names do not wait with the same body. -/
def Distinct (r : Registry β) : Prop :=
  ∀ {m n body}, r.body? m = some body → r.body? n = some body → m = n

/-- The record of a name is in the middle of its evaluation. -/
def Marked (r : Registry β) (n : String) : Prop :=
  ∃ record, r.get? n = some record ∧ record.slot = .evaluating

/-- A namespace that is known stays, and no record begins to wait. -/
structure Keeps (r r' : Registry β) : Prop where
  known : ∀ {n ns}, r.known n = some ns → r'.known n = some ns
  get? : ∀ {n body}, r'.body? n = some body → r.get? n = r'.get? n

section Keeps

variable {r r' r'' : Registry β} {name : String}

theorem keeps_refl (r : Registry β) : Keeps r r := ⟨id, fun _ => rfl⟩

theorem Keeps.body? (h : Keeps r r') {n : String} {body : β} (hb : r'.body? n = some body) :
    r.body? n = some body := by
  rw [Registry.body?, h.get? hb]
  exact hb

theorem Keeps.trans (h : Keeps r r') (h' : Keeps r' r'') : Keeps r r'' :=
  ⟨fun hn => h'.known (h.known hn), fun hb => (h.get? (h'.body? hb)).trans (h'.get? hb)⟩

theorem Keeps.distinct (h : Keeps r r') (hd : r.Distinct) : r'.Distinct :=
  fun hm hn => hd (h.body? hm) (h.body? hn)

theorem Marked.known (h : r.Marked name) : r.known name = none := by
  obtain ⟨record, hg, hs⟩ := h
  simp [Registry.known, hg, Record.namespace?, hs]

theorem Marked.body? (h : r.Marked name) : r.body? name = none := by
  obtain ⟨record, hg, hs⟩ := h
  simp [Registry.body?, hg, Record.body?, hs]

theorem body?_eq_some_iff {body : β} : r.body? name = some body ↔
    ∃ record, r.get? name = some record ∧ record.slot = .waiting body := by
  constructor
  · intro h
    obtain ⟨record, hg, hb⟩ := Option.bind_eq_some_iff.1 h
    unfold Record.body? at hb
    split at hb
    · cases hb
      exact ⟨record, hg, by assumption⟩
    · cases hb
  · rintro ⟨record, hg, hs⟩
    exact body?_of_slot hg hs

/-- A mark is put on a record that waits, or is taken off when the namespace is there. -/
theorem keeps_setSlot {slot : Slot β} (hn : r.known name = none)
    (hs : ∀ body, slot ≠ .waiting body) :
    Keeps r (r.setSlot name slot) := by
  constructor
  · intro n ns hk
    have hne : n ≠ name := by
      rintro rfl
      simp [hn] at hk
    rwa [Registry.known, get?_setSlot, if_neg hne]
  · intro n body hb
    obtain ⟨record, hg, hw⟩ := body?_eq_some_iff.1 hb
    rw [get?_setSlot] at hg ⊢
    split at hg
    · obtain ⟨record', -, rfl⟩ := Option.map_eq_some_iff.1 hg
      exact absurd hw (hs body)
    · rename_i hne
      rw [if_neg hne]

theorem marked_setSlot_self {body : β} (hb : r.body? name = some body) :
    (r.setSlot name .evaluating).Marked name := by
  obtain ⟨record, hg, -⟩ := body?_eq_some_iff.1 hb
  exact ⟨{ record with slot := .evaluating }, by rw [get?_setSlot, if_pos rfl, hg]; rfl, rfl⟩

theorem Marked.setSlot {slot : Slot β} {n : String} (h : r.Marked n) (hn : n ≠ name) :
    (r.setSlot name slot).Marked n := by
  obtain ⟨record, hg, hs⟩ := h
  exact ⟨record, by rw [get?_setSlot, if_neg hn, hg], hs⟩

theorem keeps_dropEvaluating (r : Registry β) : Keeps r r.dropEvaluating := by
  constructor
  · intro n ns hk
    obtain ⟨record, hg, hns⟩ := Option.bind_eq_some_iff.1 hk
    have hs : record.state ≠ .evaluating := by
      intro hs
      cases hslot : record.slot <;> simp_all [Record.state, Slot.state, Record.namespace?]
    rw [Registry.known, get?_dropEvaluating, hg, Option.filter_some, if_pos (by simpa using hs)]
    exact hns
  · intro n body hb
    obtain ⟨record, hg, -⟩ := body?_eq_some_iff.1 hb
    rw [hg]
    rw [get?_dropEvaluating, Option.filter_eq_some_iff] at hg
    exact hg.1

end Keeps

/-! ## Moments -/

/-- A moment while a registry changes into another: the body has waited and does not wait any more,
and its imports are the namespaces of its dependencies, which stay known. -/
structure Moment.Within (turn : Nat) (r r' : Registry β) (x : Moment β) : Prop where
  turn : x.turn = turn
  waited : ∃ n record, r.get? n = some record ∧ record.slot = .waiting x.body ∧
    x.registry.importsOf? .empty record.dependencies = some x.imports
  gone : ∀ n, r'.body? n ≠ some x.body
  stays : ∀ {n ns}, x.registry.known n = some ns → r'.known n = some ns

/-- A part of a pass: what the registry keeps, and the moments that are added. -/
structure Records (turn : Nat) (p q : Pass β (σ × List (Moment β))) : Prop where
  keeps : Keeps p.registry q.registry
  log : ∃ new, q.world.2 = p.world.2 ++ new ∧ (new.map Moment.body).Nodup ∧
    ∀ x ∈ new, x.Within turn p.registry q.registry

section Moments

variable {turn : Nat} {r r' r'' : Registry β} {x : Moment β} {p q s : Pass β (σ × List (Moment β))}

theorem Moment.Within.body? (h : x.Within turn r r') : ∃ n, r.body? n = some x.body := by
  obtain ⟨n, record, hg, hs, -⟩ := h.waited
  exact ⟨n, body?_of_slot hg hs⟩

theorem Moment.Within.after (h : x.Within turn r r') (hk : Keeps r' r'') : x.Within turn r r'' :=
  ⟨h.turn, h.waited, fun n hb => h.gone n (hk.body? hb), fun hn => hk.known (h.stays hn)⟩

theorem Moment.Within.before (h : x.Within turn r' r'') (hk : Keeps r r') :
    x.Within turn r r'' := by
  obtain ⟨n, record, hg, hs, himp⟩ := h.waited
  refine ⟨h.turn, ⟨n, record, ?_, hs, himp⟩, h.gone, h.stays⟩
  rw [hk.get? (body?_of_slot hg hs), hg]

theorem records_refl (turn : Nat) (p : Pass β (σ × List (Moment β))) : Records turn p p :=
  ⟨keeps_refl _, [], by simp⟩

theorem Records.trans (h : Records turn p q) (h' : Records turn q s) : Records turn p s := by
  obtain ⟨new, hlog, hnodup, hnew⟩ := h.log
  obtain ⟨new', hlog', hnodup', hnew'⟩ := h'.log
  refine ⟨h.keeps.trans h'.keeps, new ++ new', by rw [hlog', hlog, List.append_assoc], ?_, ?_⟩
  · rw [List.map_append, List.nodup_append]
    refine ⟨hnodup, hnodup', fun b hb b' hb' he => ?_⟩
    obtain ⟨x, hx, rfl⟩ := List.mem_map.1 hb
    obtain ⟨y, hy, rfl⟩ := List.mem_map.1 hb'
    obtain ⟨n, hn⟩ := (hnew' y hy).body?
    exact (hnew x hx).gone n (he ▸ hn)
  · intro x hx
    rcases List.mem_append.1 hx with hx | hx
    · exact (hnew x hx).after h'.keeps
    · exact (hnew' x hx).before h.keeps

/-- A change of the registry alone. -/
theorem records_of_keeps {world : σ × List (Moment β)} (h : Keeps r r') :
    Records turn ⟨r, world⟩ ⟨r', world⟩ := ⟨h, [], by simp⟩

/-- The run of a body whose name was marked before its dependencies were visited. -/
theorem Records.runs {name : String} {record : Record β} {body : β} {imports : Imports}
    {result : Registry β} {world : σ} (hd : p.registry.Distinct)
    (hg : p.registry.get? name = some record) (hs : record.slot = .waiting body)
    (h : Records turn { p with registry := p.registry.setSlot name .evaluating } q)
    (himp : q.registry.importsOf? .empty record.dependencies = some imports)
    (hk : Keeps q.registry result) :
    Records turn p ⟨result, world, q.world.2 ++ [⟨turn, q.registry, body, imports⟩]⟩ := by
  have hb := body?_of_slot hg hs
  have henter : Keeps p.registry (p.registry.setSlot name .evaluating) :=
    keeps_setSlot (known_of_body? hb) (by simp)
  have hmark := marked_setSlot_self hb
  have hgone (n : String) : (p.registry.setSlot name .evaluating).body? n ≠ some body := by
    intro hn
    obtain rfl := hd (henter.body? hn) hb
    rw [hmark.body?] at hn
    cases hn
  obtain ⟨new, hlog, hnodup, hnew⟩ := h.log
  refine ⟨henter.trans (h.keeps.trans hk), new ++ [⟨turn, q.registry, body, imports⟩], ?_, ?_, ?_⟩
  · rw [hlog, List.append_assoc]
  · rw [List.map_append, List.nodup_append]
    refine ⟨hnodup, by simp, fun b hb' b' hb'' he => ?_⟩
    obtain ⟨x, hx, rfl⟩ := List.mem_map.1 hb'
    obtain ⟨n, hn⟩ := (hnew x hx).body?
    rw [he, List.mem_singleton.1 hb''] at hn
    exact hgone n hn
  · intro x hx
    rcases List.mem_append.1 hx with hx | hx
    · exact ((hnew x hx).after hk).before henter
    · obtain rfl := List.mem_singleton.1 hx
      exact ⟨rfl, ⟨name, record, hg, hs, himp⟩, fun n hn => hgone n ((h.keeps.trans hk).body? hn),
        hk.known⟩

end Moments

/-! ## Visits -/

/-- How a recorded visit of a name ends: marks stay, and so does the namespace that is given. -/
structure Visits (turn : Nat) (name : String) (p : Pass β (σ × List (Moment β)))
    (out : Except LoadError Namespace × Pass β (σ × List (Moment β))) : Prop where
  records : Records turn p out.2
  marked : ∀ {n}, p.registry.Marked n → out.2.registry.Marked n
  ok : ∀ {ns}, out.1 = .ok ns → out.2.registry.known name = some ns

/-- How imports are gathered in a recorded evaluation. -/
structure Gathers (turn : Nat) (imports : Imports) (dependencies : List Dependency)
    (p : Pass β (σ × List (Moment β)))
    (out : Except LoadError Imports × Pass β (σ × List (Moment β))) : Prop where
  records : Records turn p out.2
  marked : ∀ {n}, p.registry.Marked n → out.2.registry.Marked n
  ok : ∀ {imports'}, out.1 = .ok imports' →
    out.2.registry.importsOf? imports dependencies = some imports'

section Visits

variable {turn : Nat} {run : Runner β σ}

theorem importAll_gathers {visit : String → Record β → Pass β (σ × List (Moment β)) →
      Except LoadError Namespace × Pass β (σ × List (Moment β))}
    (hv : ∀ {name record p}, p.registry.Distinct → p.registry.get? name = some record →
      Visits turn name p (visit name record p))
    (importer : String) (imports : Imports) {p : Pass β (σ × List (Moment β))}
    (hd : p.registry.Distinct) (dependencies : List Dependency) :
    Gathers turn imports dependencies p (importAll visit importer imports p dependencies) := by
  induction dependencies generalizing imports p with
  | nil => exact ⟨records_refl _ _, id, fun h => by cases h; rfl⟩
  | cons d rest ih =>
    rw [importAll]
    cases hg : p.registry.get? d.name with
    | none => exact ⟨records_refl _ _, id, fun h => by cases h⟩
    | some record =>
      have hvisit := hv hd hg
      simp only
      rcases hr : visit d.name record p with ⟨result, q⟩
      rw [hr] at hvisit
      cases result with
      | error e => exact ⟨hvisit.records, hvisit.marked, fun h => by cases h⟩
      | ok ns =>
        have hrest := ih (imports.insert d.specifier ns) (hvisit.records.keeps.distinct hd)
        refine ⟨hvisit.records.trans hrest.records, fun h => hrest.marked (hvisit.marked h),
          fun h => ?_⟩
        have hns := hrest.records.keeps.known (hvisit.ok rfl)
        rw [known] at hns
        rw [importsOf?, hns]
        exact hrest.ok h

theorem watchedVisit_visits (depth : Nat) (path : List String) {name : String} {record : Record β}
    {p : Pass β (σ × List (Moment β))} (hd : p.registry.Distinct)
    (hg : p.registry.get? name = some record) :
    Visits turn name p (watchedVisit (recording run turn) depth path name record p) := by
  induction depth generalizing path name record p with
  | zero => exact ⟨records_refl _ _, id, fun h => by cases h⟩
  | succ depth ih =>
    rw [watchedVisit]
    cases hs : record.slot with
    | evaluated ns =>
      refine ⟨records_refl _ _, id, fun h => ?_⟩
      cases h
      exact known_of_evaluated hg hs
    | evaluating => exact ⟨records_refl _ _, id, fun h => by cases h⟩
    | waiting body =>
      have hb := body?_of_slot hg hs
      have hmark := marked_setSlot_self hb
      have henter : Keeps p.registry (p.registry.setSlot name .evaluating) :=
        keeps_setSlot (known_of_body? hb) (by simp)
      have hne {n : String} (hn : p.registry.Marked n) : n ≠ name := by
        rintro rfl
        rw [hn.body?] at hb
        cases hb
      have himp := importAll_gathers (fun hd hg => ih (path ++ [name]) hd hg) name .empty
        (p := { p with registry := p.registry.setSlot name .evaluating }) (henter.distinct hd)
        record.dependencies
      simp only
      rcases hr : importAll (watchedVisit (recording run turn) depth (path ++ [name])) name .empty
        { p with registry := p.registry.setSlot name .evaluating } record.dependencies
        with ⟨result, q⟩
      rw [hr] at himp
      have hq : q.registry.Marked name := himp.marked hmark
      cases result with
      | error e =>
        exact ⟨(records_of_keeps henter).trans himp.records,
          fun h => himp.marked (h.setSlot (hne h)), fun h => by cases h⟩
      | ok imports =>
        simp only [recording]
        cases hrun : (run body imports q.world.1).1 with
        | error e =>
          exact ⟨himp.records.runs hd hg hs (himp.ok rfl) (keeps_refl _),
            fun h => himp.marked (h.setSlot (hne h)), fun h => by cases h⟩
        | ok ns =>
          refine ⟨himp.records.runs hd hg hs (himp.ok rfl) (keeps_setSlot hq.known (by simp)),
            fun h => (himp.marked (h.setSlot (hne h))).setSlot (hne h), fun h => ?_⟩
          cases h
          obtain ⟨record', hg', -⟩ := hq
          simp only
          rw [known_setSlot hg', Function.update_self]

/-! ## Evaluations -/

/-- What holds before a guarded pass and after its pass also holds in the end, if it does not depend
on marks that a failed pass takes away. -/
theorem guarded_preserves {r : Registry β} {world : σ} {name : String} {record : Record β}
    {pass : Pass β σ → Except LoadError Namespace × Pass β σ} {P : Pass β σ → Prop}
    (hstart : P ⟨r, world⟩) (hdrop : ∀ q, P q → P { q with registry := q.registry.dropEvaluating })
    (h : P (pass ⟨r, world⟩).2) : P (r.guarded world name record pass).2 := by
  rw [guarded]
  cases r.missingFor name record with
  | cons first rest => exact hstart
  | nil =>
    simp only
    rcases hr : pass ⟨r, world⟩ with ⟨result, q⟩
    rw [hr] at h
    cases result with
    | error e => exact hdrop _ h
    | ok ns => exact h

theorem watchedEvaluate_records {r : Registry β} (hd : r.Distinct) (world : σ × List (Moment β))
    (name : String) :
    Records turn ⟨r, world⟩ (r.watchedEvaluate (recording run turn) world name).2 := by
  rw [watchedEvaluate]
  cases hg : r.get? name with
  | none => exact records_refl _ _
  | some record =>
    have hpass : Records turn ⟨r, world⟩ (r.guarded world name record
        (watchedVisit (recording run turn) (r.size + 1) [] name record)).2 :=
      guarded_preserves (records_refl _ _)
        (fun q h => h.trans (records_of_keeps (keeps_dropEvaluating q.registry)))
        (watchedVisit_visits _ _ hd hg).records
    simp only
    cases record.slot with
    | evaluated ns => exact records_refl _ _
    | evaluating | waiting => exact hpass

/-- The evaluation of a body that is not registered: after the moments of its dependencies there may
be one of its own. -/
def RecordsDetached (turn : Nat) (dependencies : List Dependency) (body : β)
    (p q : Pass β (σ × List (Moment β))) : Prop :=
  Records turn p q ∨ ∃ s imports, Records turn p s ∧
    s.registry.importsOf? .empty dependencies = some imports ∧ Keeps s.registry q.registry ∧
    q.world.2 = s.world.2 ++ [⟨turn, s.registry, body, imports⟩]

theorem watchedDetached_records {r : Registry β} (hd : r.Distinct) (world : σ × List (Moment β))
    (name : String) (dependencies : List Dependency) (body : β) :
    RecordsDetached turn dependencies body ⟨r, world⟩
      (r.watchedDetached (recording run turn) world name dependencies body).2 := by
  refine guarded_preserves (P := RecordsDetached turn dependencies body ⟨r, world⟩)
    (.inl (records_refl _ _)) ?_ ?_
  · rintro q (h | ⟨s, imports, h, himp, hk, hlog⟩)
    · exact .inl (h.trans (records_of_keeps (keeps_dropEvaluating q.registry)))
    · exact .inr ⟨s, imports, h, himp, hk.trans (keeps_dropEvaluating q.registry), hlog⟩
  · have himp : Gathers turn .empty dependencies ⟨r, world⟩ (importAll
        (watchedVisit (recording run turn) (r.size + 1) [name]) name .empty ⟨r, world⟩
        dependencies) :=
      importAll_gathers (fun hd hg => watchedVisit_visits _ _ hd hg) name .empty hd dependencies
    rcases hr : importAll (watchedVisit (recording run turn) (r.size + 1) [name]) name .empty
      ⟨r, world⟩ dependencies with ⟨result, s⟩
    rw [hr] at himp
    cases result with
    | error e => exact .inl himp.records
    | ok imports =>
      exact .inr ⟨s, imports, himp.records, himp.ok rfl, keeps_refl _, rfl⟩

end Visits

end ModuleLoader.Registry

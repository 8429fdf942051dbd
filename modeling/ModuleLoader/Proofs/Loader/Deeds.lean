import ModuleLoader.Proofs.Loader.Effects
import ModuleLoader.Proofs.Loader.Executions

/-! # Deeds

All that a step does to registry and journal is a row of deeds: a unit is filed, a body that waits
runs and leaves its namespace or loses its record, a record without a namespace is dropped. The row
may end with the run of a body that was never filed.
-/

namespace ModuleLoader

open Dialect Relation

/-! ## What records hold -/

/-- The body of a record that waits with it. -/
def Record.body? {β : Type} (record : Record β) : Option β :=
  match record.slot with
  | .waiting body => some body
  | _ => none

namespace Registry

variable {β : Type} {r : Registry β} {n : String}

/-- The bodies that wait, by name. -/
def body? (r : Registry β) (n : String) : Option β := (r.get? n).bind Record.body?

theorem body?_of_slot {record : Record β} {body : β} (hg : r.get? n = some record)
    (hs : record.slot = .waiting body) : r.body? n = some body := by
  simp [body?, hg, Record.body?, hs]

theorem known_of_get?_none (h : r.get? n = none) : r.known n = none := by
  simp [known, h]

theorem known_of_body? {body : β} (h : r.body? n = some body) : r.known n = none := by
  obtain ⟨record, hg, hb⟩ := Option.bind_eq_some_iff.1 h
  unfold Record.body? at hb
  split at hb
  · rename_i hs
    simp [known, hg, Record.namespace?, hs]
  · simp at hb

theorem Waits.known (h : r.Waits n) : r.known n = none := by
  obtain ⟨record, body, hg, hs⟩ := h
  exact known_of_body? (body?_of_slot hg hs)

theorem get?_commit_self {record : Record β} (h : r.get? n = none) :
    (r.commit n record).get? n = some record := by
  rw [get?_commit, if_pos ⟨rfl, h⟩]

theorem get?_commit_ne {record : Record β} {m : String} (h : m ≠ n) :
    (r.commit n record).get? m = r.get? m := by
  rw [get?_commit, if_neg fun hm => h hm.1]

theorem body?_setSlot {ns : Namespace} (m : String) :
    (r.setSlot n (.evaluated ns)).body? m = if m = n then none else r.body? m := by
  unfold body?
  rw [get?_setSlot]
  split
  · cases r.get? n <;> simp [Record.body?]
  · rfl

theorem known_setSlot_ne {ns : Namespace} {m : String} (h : m ≠ n) :
    (r.setSlot n (.evaluated ns)).known m = r.known m := by
  simp [known, get?_setSlot, h]

theorem body?_delete (m : String) :
    (r.delete n).body? m = if m = n then none else r.body? m := by
  unfold body?
  rw [get?_delete]
  split <;> rfl

theorem known_delete_ne {m : String} (h : m ≠ n) : (r.delete n).known m = r.known m := by
  simp [known, get?_delete, h]

end Registry

/-! ## Rows of deeds -/

/-- Registry and journal of a loader. -/
structure Books where
  registry : Registry Body
  journal : List Event

/-- The books of a loader. -/
def Loader.books (l : Loader) : Books := ⟨l.registry, l.world.journal⟩

/-- The books of a pass. -/
def Registry.Pass.books (p : Registry.Pass Body World) : Books := ⟨p.registry, p.world.journal⟩

/-- One thing that is done to the books by a step that may file some units. -/
inductive Deed (units : List LoadedUnit) : Books → Books → Prop where
  | loads {b : Books} {e : Event} : e.IsLoading → Deed units b ⟨b.registry, e :: b.journal⟩
  | files {b : Books} {u : LoadedUnit} : u ∈ units → b.registry.get? u.name = none →
      Deed units b ⟨b.registry.commit u.name u.record, .filed u.name u.body.load :: b.journal⟩
  | runs {b : Books} {n : String} {body : Body} {ns : Namespace} :
      b.registry.body? n = some body →
      Deed units b ⟨b.registry.setSlot n (.evaluated ns), .ran body.load true :: b.journal⟩
  | fails {b : Books} {n : String} {body : Body} : b.registry.body? n = some body →
      Deed units b ⟨b.registry.delete n, .ran body.load false :: b.journal⟩
  | drops {b : Books} {n : String} : b.registry.known n = none →
      Deed units b ⟨b.registry.delete n, b.journal⟩

/-- What is done to the books by a step: a row of deeds, and perhaps the run of a body that is not
registered. -/
def Does (units : List LoadedUnit) (detached : LoadedUnit → Prop) (b b' : Books) : Prop :=
  ∃ m, ReflTransGen (Deed units) b m ∧
    (b' = m ∨ ∃ u ok, detached u ∧ b' = ⟨m.registry, .ran u.body.load ok :: m.journal⟩)

section Rows

variable {units : List LoadedUnit}

theorem deeds_of_events (r : Registry Body) (journal events : List Event)
    (h : ∀ e ∈ events, e.IsLoading) :
    ReflTransGen (Deed units) ⟨r, journal⟩ ⟨r, events ++ journal⟩ := by
  induction events with
  | nil => exact .refl
  | cons e rest ih =>
    have hd : Deed units ⟨r, rest ++ journal⟩ ⟨r, e :: rest ++ journal⟩ :=
      .loads (b := ⟨r, rest ++ journal⟩) (h e List.mem_cons_self)
    exact (ih fun e he => h e (List.mem_cons_of_mem _ he)).tail hd

theorem Loader.Calm.deeds {l l' : Loader} (h : Calm l l') :
    ReflTransGen (Deed units) l.books l'.books := by
  obtain ⟨events, hj, he⟩ := h.journal
  unfold Loader.books
  rw [hj, h.registry]
  exact deeds_of_events _ _ _ he

theorem deeds_of_rows {s t : Registry.Pass Body World}
    (h : ReflTransGen (Registry.Ran World.run) s t) :
    ReflTransGen (Deed units) s.books t.books := by
  induction h with
  | refl => exact .refl
  | @tail m t _ hr ih =>
    refine ih.tail ?_
    cases hr with
    | @mk name record body imports ns world hready hrun =>
      have hw : world.journal = .ran body.load true :: m.world.journal := by
        simp only [World.run, Prod.mk.injEq] at hrun
        rw [← hrun.2, hrun.1]
        rfl
      unfold Registry.Pass.books
      rw [hw]
      exact .runs (b := m.books) (Registry.body?_of_slot hready.get hready.slot)

/-- To drop some records without namespaces is a row of deeds. -/
theorem deeds_of_drops {path : List String} {r r' : Registry Body} (journal : List Event)
    (hr : ∀ n, r'.get? n = if n ∈ path then none else r.get? n)
    (hk : ∀ n ∈ path, r.known n = none) :
    ReflTransGen (Deed units) ⟨r, journal⟩ ⟨r', journal⟩ := by
  induction path generalizing r with
  | nil =>
    have he : r' = r := Registry.marks_nil_eq fun n => by simpa using hr n
    exact he ▸ .refl
  | cons n rest ih =>
    have hd : Deed units ⟨r, journal⟩ ⟨r.delete n, journal⟩ :=
      .drops (b := ⟨r, journal⟩) (hk n List.mem_cons_self)
    refine .head hd (ih (fun m => ?_) fun m hm => ?_)
    · rw [hr m, Registry.get?_delete]
      by_cases hmn : m = n
      · simp [hmn]
      · simp [hmn]
    · by_cases hmn : m = n
      · exact Registry.known_of_get?_none (by simp [Registry.get?_delete, hmn])
      · rw [Registry.known_delete_ne hmn]
        exact hk m (List.mem_cons_of_mem _ hm)

/-- A pass that meets a fault loses the records that it had entered. -/
theorem deeds_of_fault {r : Registry Body} {roots path : List String}
    {s : Registry.Pass Body World} {marked : Registry Body} {e : LoadError} {w : World}
    (hr : s.registry.Resting) (hm : Registry.Marks path s.registry marked)
    (hw : ∀ x ∈ path, s.registry.Waits x) (hf : Registry.Fault World.run r roots path s e w) :
    ReflTransGen (Deed units) s.books ⟨marked.dropEvaluating, w.journal⟩ := by
  have hget := Registry.get?_dropEvaluating_marks hr hm
  have hk : ∀ x ∈ path, s.registry.known x = none := fun x hx => (hw x hx).known
  cases hf with
  | missing | cyclic => exact deeds_of_drops _ hget hk
  | @body name record body imports _ _ hready hrun hin =>
    have hj : w.journal = .ran body.load false :: s.world.journal := by
      simp only [World.run, Prod.mk.injEq] at hrun
      rw [← hrun.2, hrun.1]
      rfl
    have hget' : ∀ n, marked.dropEvaluating.get? n =
        if n ∈ path then none else (s.registry.delete name).get? n := by
      intro n
      rw [hget n, Registry.get?_delete]
      by_cases hne : n = name
      · simp [hne, hin]
      · simp [hne]
    have hk' : ∀ n ∈ path, (s.registry.delete name).known n = none := by
      intro n hn
      by_cases hne : n = name
      · exact Registry.known_of_get?_none (by simp [Registry.get?_delete, hne])
      · rw [Registry.known_delete_ne hne]
        exact hk n hn
    rw [hj]
    refine .head (.fails (Registry.body?_of_slot hready.get hready.slot)) ?_
    exact deeds_of_drops _ hget' hk'

end Rows

namespace Loader

/-! ## Steps as deeds -/

variable {units : List LoadedUnit} {l : Loader}

theorem file_deeds {u : LoadedUnit} (hu : u ∈ units) :
    ReflTransGen (Deed units) l.books (l.file u).books := by
  cases h : l.registry.has u.name with
  | true =>
    rw [file_of_has h]
  | false =>
    have hn : l.registry.get? u.name = none := by
      rwa [Registry.has_eq_isSome, Option.isSome_eq_false_iff, Option.isNone_iff_eq_none] at h
    rw [file_of_not_has h]
    exact .single (.files (b := l.books) hu hn)

theorem commit_deeds {us : List LoadedUnit} (hu : us ⊆ units) :
    ReflTransGen (Deed units) l.books (l.commit us).books := by
  induction us generalizing l with
  | nil => exact .refl
  | cons u rest ih =>
    have hf : ReflTransGen (Deed units) l.books (l.commitOne u).books :=
      file_deeds (hu List.mem_cons_self)
    exact hf.trans (ih fun v hv => hu (List.mem_cons_of_mem _ hv))

theorem evaluate_deeds (hr : l.registry.Resting) (name : String) :
    ReflTransGen (Deed units) l.books (l.evaluate name).2.books := by
  have h := Registry.evaluate_evaluated World.run hr l.world name
  simp only [evaluate]
  generalize l.registry.evaluate World.run l.world name = out at h
  cases h with
  | unknown | missing => exact .refl
  | ok _ hrows _ => exact deeds_of_rows hrows
  | fault _ hrows hm hf hw _ =>
    exact (deeds_of_rows hrows).trans
      (deeds_of_fault (Registry.rows_resting hrows hr) hm hw hf)

theorem evaluateDetached_does (hr : l.registry.Resting) (u : LoadedUnit) :
    Does units (· = u) l.books (l.evaluateDetached u).2.books := by
  have h := Registry.evaluateDetached_evaluated World.run hr l.world u.name u.dependencies u.body
  simp only [evaluateDetached]
  generalize l.registry.evaluateDetached World.run l.world u.name u.dependencies u.body = out at h
  cases h with
  | missing => exact ⟨_, .refl, Or.inl rfl⟩
  | fault hrows hm hf hw =>
    refine ⟨_, (deeds_of_rows hrows).trans ?_, Or.inl rfl⟩
    exact deeds_of_fault (Registry.rows_resting hrows hr) hm hw hf
  | @ran result imports s w hrows _ hrun =>
    refine ⟨_, deeds_of_rows hrows, Or.inr ⟨u, result.isOk, rfl, ?_⟩⟩
    simp only [World.run, Prod.mk.injEq] at hrun
    simp only [books, Registry.Pass.books, ← hrun.2, hrun.1]

theorem Same.books {l l' : Loader} (h : Same l l') : l'.books = l.books := by
  unfold Loader.books
  rw [h.registry, h.world]

/-- The deeds of a step. Only a request that is settled then has run a body of its own. -/
theorem Effect.does {a a' : Activity} {l l' : Loader} (h : Effect a l a' l')
    (hr : l.registry.Resting) :
    Does a.units (fun u => a.Detaches u ∧ a'.isSettled = true) l.books l'.books := by
  have hc : ReflTransGen (Deed a.units) l.books (l.commit a.units).books :=
    commit_deeds (List.Subset.refl _)
  have hrest : (l.commit a.units).registry.Resting :=
    ((commit_settling l a.units).registers hr).resting
  cases h with
  | calm hcalm => exact ⟨_, hcalm.deeds, Or.inl rfl⟩
  | @script r l₁ _ hcalm hreg hj _ =>
    have hb : l'.books = l₁.books := by
      unfold books
      rw [hreg, hj]
    exact ⟨_, hcalm.deeds, Or.inl hb⟩
  | registers hs => exact ⟨_, hc, Or.inl hs.books⟩
  | @evaluates name _ _ _ hs => exact ⟨_, hc.trans (evaluate_deeds hrest name), Or.inl hs.books⟩
  | @detaches u _ hu hs =>
    have hdoes : Does a.units (· = u) (l.commit a.units).books
        ((l.commit a.units).evaluateDetached u).2.books := evaluateDetached_does hrest u
    obtain ⟨m, hm, hb⟩ := hdoes
    refine ⟨m, hc.trans hm, ?_⟩
    rw [hs.books]
    refine hb.imp_right ?_
    rintro ⟨v, ok, rfl, hb⟩
    exact ⟨v, ok, ⟨hu, rfl⟩, hb⟩

end Loader

end ModuleLoader

import ModuleLoader.Proofs.Loader.Claims
import ModuleLoader.Proofs.Loader.Definitions
import ModuleLoader.Proofs.Loader.SteadyLoaders

/-! # Steps without failures

Where no load fails and no pass over the registry is rejected, records stay: a body that waits may
run and leave its namespace, and nothing else happens to them. A definition is then accepted, or
refused because its name is taken.
-/

namespace ModuleLoader

open Dialect Relation

/-- A pass over the registry is rejected with such errors, and nothing else that is done for a
module is. -/
def LoadError.EndsPass : LoadError → Prop
  | .instantiate _ (.run _) => True
  | .instantiate _ .notLoaded => True
  | .instantiate _ (.dependencyNotLoaded _) => True
  | .instantiate _ (.cyclic _) => True
  | _ => False

/-- A record stays as it is, or its body has come to its end and left its namespace. -/
def Completes (record record' : Record Body) : Prop :=
  record' = record ∨ ∃ (body : Body) (imports : Imports) (realm : Realm) (ns : Namespace),
    record.slot = .waiting body ∧ (body.linked.run imports realm).1 = .ok ns ∧
      record' = { record with slot := .evaluated ns }

/-- No name loses its record. -/
def Registry.Stays (r r' : Registry Body) : Prop :=
  ∀ n record, r.get? n = some record →
    ∃ record', r'.get? n = some record' ∧ Completes record record'

/-- The record of a name is that of a unit: the body of the unit waits in it, or has left its
namespace there. -/
def Loader.Carries (l : Loader) (n : String) (u : LoadedUnit) : Prop :=
  ∃ record, l.registry.get? n = some record ∧ Completes u.record record

theorem Completes.trans {a b c : Record Body} (h : Completes a b) (h' : Completes b c) :
    Completes a c := by
  rcases h with rfl | ⟨body, imports, realm, ns, hb, hrun, rfl⟩
  · exact h'
  · rcases h' with rfl | ⟨body', _, _, _, hb', -⟩
    · exact Or.inr ⟨body, imports, realm, ns, hb, hrun, rfl⟩
    · simp at hb'

namespace Registry

variable {r r' r'' : Registry Body}

theorem Stays.refl (r : Registry Body) : r.Stays r := fun _ _ hg => ⟨_, hg, Or.inl rfl⟩

theorem Stays.trans (h : r.Stays r') (h' : r'.Stays r'') : r.Stays r'' := by
  intro n record hg
  obtain ⟨record', hg', hc⟩ := h n record hg
  obtain ⟨record'', hg'', hc'⟩ := h' n record' hg'
  exact ⟨record'', hg'', hc.trans hc'⟩

theorem Stays.has (h : r.Stays r') {n : String} (hn : r.has n = true) : r'.has n = true := by
  rw [has_eq_isSome, Option.isSome_iff_exists] at hn ⊢
  obtain ⟨record, hg⟩ := hn
  obtain ⟨record', hg', -⟩ := h n record hg
  exact ⟨record', hg'⟩

theorem stays_of_ran {s t : Pass Body World} (h : Ran World.run s t) :
    s.registry.Stays t.registry := by
  cases h with
  | @mk name record body imports ns world hr hrun =>
    intro n record' hg
    simp only [get?_setSlot]
    split
    · rename_i hn
      subst hn
      rw [hr.get, Option.some.injEq] at hg
      subst hg
      have hns : (body.linked.run imports s.world.realm).1 = .ok ns := congrArg Prod.fst hrun
      exact ⟨_, by rw [hr.get]; rfl, Or.inr ⟨body, imports, _, ns, hr.slot, hns, rfl⟩⟩
    · exact ⟨record', hg, Or.inl rfl⟩

theorem stays_of_rows {s t : Pass Body World} (h : ReflTransGen (Ran World.run) s t) :
    s.registry.Stays t.registry := by
  induction h with
  | refl => exact .refl _
  | tail _ hr ih => exact ih.trans (stays_of_ran hr)

end Registry

namespace Loader

variable {l l' : Loader}

theorem Carries.stays {n : String} {u : LoadedUnit} (h : l.Carries n u)
    (hs : l.registry.Stays l'.registry) : l'.Carries n u := by
  obtain ⟨record, hg, hc⟩ := h
  obtain ⟨record', hg', hc'⟩ := hs n record hg
  exact ⟨record', hg', hc.trans hc'⟩

theorem commit_stays (l : Loader) (units : List LoadedUnit) :
    l.registry.Stays (l.commit units).registry :=
  fun _ _ hg => ⟨_, commit_get?_of_some hg, Or.inl rfl⟩

/-! ## Errors of passes -/

theorem endsPass_of_run {body : Body} {imports : Dialect.Imports} {w w' : World} {e : LoadError}
    (h : World.run body imports w = (.error e, w')) : e.EndsPass := by
  have hr : (body.linked.run imports w.realm).1 = .error e := congrArg Prod.fst h
  unfold Linked.run at hr
  split at hr
  · simp at hr
  · cases hr
    trivial

theorem endsPass_of_fault {r : Registry Body} {roots entered : List String}
    {s : Registry.Pass Body World} {e : LoadError} {w : World}
    (h : Registry.Fault World.run r roots entered s e w) : e.EndsPass := by
  cases h with
  | missing | cyclic => trivial
  | body _ hrun => exact endsPass_of_run hrun

/-- A pass over the registry that is rejected is so with one of its errors. Otherwise all records
stay. -/
theorem evaluate_stays (hr : l.registry.Resting) (name : String) :
    (∃ e, (l.evaluate name).1 = .error e ∧ e.EndsPass) ∨
      (∃ ns, (l.evaluate name).1 = .ok ns) ∧ l.registry.Stays (l.evaluate name).2.registry := by
  have h := Registry.evaluate_evaluated World.run hr l.world name
  simp only [evaluate]
  generalize l.registry.evaluate World.run l.world name = out at h
  cases h with
  | unknown | missing => exact Or.inl ⟨_, rfl, trivial⟩
  | ok _ hrows _ => exact Or.inr ⟨⟨_, rfl⟩, Registry.stays_of_rows hrows⟩
  | fault _ _ _ hf => exact Or.inl ⟨_, rfl, endsPass_of_fault hf⟩

theorem evaluateDetached_stays (hr : l.registry.Resting) (u : LoadedUnit) :
    (∃ e, (l.evaluateDetached u).1 = .error e ∧ e.EndsPass) ∨
      (∃ ns, (l.evaluateDetached u).1 = .ok ns) ∧
        l.registry.Stays (l.evaluateDetached u).2.registry := by
  have h := Registry.evaluateDetached_evaluated World.run hr l.world u.name u.dependencies u.body
  simp only [evaluateDetached]
  generalize l.registry.evaluateDetached World.run l.world u.name u.dependencies u.body = out at h
  cases h with
  | missing => exact Or.inl ⟨_, rfl, trivial⟩
  | @ran result _ _ _ hrows _ hrun =>
    cases result with
    | ok ns => exact Or.inr ⟨⟨ns, rfl⟩, Registry.stays_of_rows hrows⟩
    | error e => exact Or.inl ⟨e, rfl, endsPass_of_run hrun⟩
  | fault _ _ hf => exact Or.inl ⟨_, rfl, endsPass_of_fault hf⟩

/-! ## Smooth steps -/

/-- No load has failed, and the request was not rejected by a pass over the registry. -/
structure Smooth (a : Activity) (l : Loader) : Prop where
  loads : ∀ {id : Nat} {e : LoadError}, l.loads[id]? ≠ some (.finished (.error e))
  pass : ∀ {e : LoadError}, a = .settled (.error e) → ¬ e.EndsPass

section Steps

variable {a a' : Activity}

theorem Smooth.of_advance (h : Smooth a' l') (hadv : Advance (a, l) (a', l')) (hl : l.Sound)
    (ha : a.Sound l) : Smooth a l := by
  constructor
  · exact fun hid => h.loads ((advance_steps hadv hl ha).evolves.finished hid)
  · rintro e rfl
    exact absurd hadv not_advance_settled

theorem Smooth.of_advances {c d : Activity × Loader} (h : Smooth d.1 d.2)
    (hadv : ReflTransGen Advance c d) (hl : c.2.Sound) (ha : c.1.Sound c.2) : Smooth c.1 c.2 := by
  induction hadv using ReflTransGen.head_induction_on with
  | refl => exact h
  | head hs _ ih =>
    have ht := advance_steps hs hl ha
    exact (ih ht.sound ht.activity).of_advance hs hl ha

/-- What smooth steps preserve holds after a row of them. -/
theorem smooth_preserves {P : Activity → Loader → Prop}
    (hp : ∀ {a a' l l'}, Advance (a, l) (a', l') → l.Sound → a.Sound l → l.registry.Resting →
      Smooth a' l' → P a l → P a' l') {c d : Activity × Loader} (h : ReflTransGen Advance c d)
    (hl : c.2.Sound) (ha : c.1.Sound c.2) (hr : c.2.registry.Resting) (hd : Smooth d.1 d.2)
    (hc : P c.1 c.2) : P d.1 d.2 := by
  induction h using ReflTransGen.head_induction_on with
  | refl => exact hc
  | head hs hrest ih =>
    have ht := advance_steps hs hl ha
    have hsmooth := hd.of_advances hrest ht.sound ht.activity
    exact ih ht.sound ht.activity (advance_resting hs hl ha hr) (hp hs hl ha hr hsmooth hc)

/-- All records stay in a smooth step. -/
theorem Smooth.stays (h : Smooth a' l') (hadv : Advance (a, l) (a', l')) (hl : l.Sound)
    (ha : a.Sound l) (hr : l.registry.Resting) : l.registry.Stays l'.registry := by
  have hrest : (l.commit a.units).registry.Resting :=
    ((commit_settling l a.units).registers hr).resting
  have hcommit := commit_stays l a.units
  have he := advance_effect hadv hl ha
  cases he with
  | calm hc =>
    rw [hc.registry]
    exact .refl _
  | script hc hreg =>
    rw [hreg, hc.registry]
    exact .refl _
  | registers hs =>
    rw [hs.registry]
    exact hcommit
  | @evaluates name answer _ _ hs =>
    rw [hs.registry]
    rcases evaluate_stays hrest name with ⟨e, he, hends⟩ | ⟨-, hstays⟩
    · exact absurd hends (h.pass (by rw [he]; rfl))
    · exact hcommit.trans hstays
  | @detaches u _ _ hs =>
    rw [hs.registry]
    rcases evaluateDetached_stays hrest u with ⟨e, he, hends⟩ | ⟨-, hstays⟩
    · exact absurd hends (h.pass (by rw [he]; rfl))
    · exact hcommit.trans hstays

/-! ## Claims -/

theorem startInline_claim? (l : Loader) (purpose : Purpose) (name source : String)
    (referrer : Option String) (options : RequestOptions) :
    (l.startInline purpose name source referrer options).1.claim? = purpose.claim? ∨
      (l.startInline purpose name source referrer options).1.claim? = none := by
  rcases hi : l.loadInline (l.inlineLoad name options) source referrer with ⟨e | root, l₁⟩
  · rw [startInline_of_error hi, rejectGraph_settled]
    exact Or.inr rfl
  · rw [startInline_of_ok hi]
    exact Or.inl rfl

theorem start_claim? (l : Loader) (request : Request) : (l.start request).1.claim? = none ∨
    ∃ n ∉ l.defining, (l.start request).1.claim? = some n := by
  have hs := start_starts l request
  generalize l.start request = c at hs
  cases hs with
  | imports specifier => exact Or.inl (startImport_unclaiming (l := l) rfl _ _).claim
  | misnamed | taken => exact Or.inl rfl
  | @defines name source hhas hfree =>
    rcases startInline_claim? { l with defining := name :: l.defining }
      (.define name request.options.mode) name source (some name) request.options with hc | hc
    · exact Or.inr ⟨name, hfree, hc⟩
    · exact Or.inl hc
  | detached =>
    rcases startInline_claim? l.freshName.2 .module l.freshName.1 _ _ _ with hc | hc <;>
      exact Or.inl hc
  | script load => exact Or.inl (startScript_unclaiming (l := l) rfl load).claim
  | namelessScript load => exact Or.inl (startScript_unclaiming (l := l.freshName.2) rfl load).claim

/-- A name is claimed when a definition begins whose name is free. -/
theorem claim?_of_advance (h : Advance (a, l) (a', l')) :
    a'.claim? = a.claim? ∨ a'.claim? = none ∨
      a.claim? = none ∧ ∃ n ∉ l.defining, a'.claim? = some n := by
  have hsettled {c : Activity × Loader} {r : Except LoadError Answer} (hc : c.1 = .settled r)
      (hs : c = (a', l')) : a'.claim? = none := by
    rw [hs] at hc
    simp only at hc
    rw [hc]
    rfl
  cases h with
  | tick | scriptWaits | rootWaits | graph | branches | branchesIdle => exact Or.inl rfl
  | rootArrives => exact Or.inl rfl
  | rootFails _ hr => exact Or.inr (Or.inl (hsettled (settle_settled _ _) hr))
  | branchesFail _ hr => exact Or.inr (Or.inl (hsettled (settle_settled _ _) hr))
  | branchesDone _ hr => exact Or.inr (Or.inl (hsettled (settle_settled _ _) hr))
  | graphFails _ hr => exact Or.inr (Or.inl (hsettled (rejectGraph_settled _ _ _) hr))
  | graphDone _ hr =>
    obtain ⟨r, hset⟩ := settleGraph_settled _ _ _
    exact Or.inr (Or.inl (hsettled hset hr))
  | @scriptAnswered load address _ _ _ hs =>
    have hc := (receiveScript_unclaiming (l := l) rfl load address).claim
    rw [hs] at hc
    exact Or.inr (Or.inl hc)
  | @start request _ _ _ hs =>
    have hc := start_claim? l request
    rw [hs] at hc
    exact Or.inr (hc.imp_right fun hc => ⟨rfl, hc⟩)

/-- The names being defined are claimed once. -/
theorem nodup_of_claims {others : List String} (h : Claims others a l) (h' : Claims others a' l')
    (hadv : Advance (a, l) (a', l')) (hd : l.defining.Nodup) : l'.defining.Nodup := by
  unfold Claims at h h'
  rw [h'.nodup_iff]
  have hd' := h.nodup_iff.1 hd
  rcases claim?_of_advance hadv with hc | hc | ⟨hc, n, hn, hc'⟩
  · rwa [hc]
  · rw [hc]
    exact (List.nodup_append.1 hd').2.1
  · rw [hc']
    rw [hc] at h hd'
    refine List.nodup_cons.2 ⟨fun hm => hn (h.mem_iff.2 hm), hd'⟩

/-! ## Definitions -/

/-- How far a definition has come for which some units are linked: its graph is being loaded, it is
accepted, or it is refused. -/
def Pursues (linked : LoadedUnit → Prop) (n : String) : Activity → Loader → Prop
  | .graph (.define m _) task, _ =>
      m = n ∧ linked task.graph.root ∧ ∀ e, .error e ∉ task.frontier.outcomes
  | .settled (.ok _), l => ∃ u, linked u ∧ l.Carries n u
  | .settled (.error e), _ => e = .instantiate n .alreadyDefined
  | _, _ => False

/-- The units that are linked from the source of a definition when it begins. -/
def LinkedFrom (l : Loader) (n source : String) (options : RequestOptions) (u : LoadedUnit) :
    Prop :=
  (l.loadInline (l.inlineLoad n options) source (some n)).1 = .ok u

/-- A request has come to its end without an error. -/
def Activity.Accepted (a : Activity) : Prop := ∃ answer, a = .settled (.ok answer)

instance : (a : Activity) → Decidable a.Accepted
  | .settled (.ok answer) => .isTrue ⟨answer, rfl⟩
  | .settled (.error _) | .delayed _ _ | .script _ _ _ | .root _ _ _ | .graph _ _
  | .branches _ _ _ => .isFalse (by simp [Activity.Accepted])

section Pursues

variable {linked : LoadedUnit → Prop} {n : String}

theorem Pursues.stays (h : Pursues linked n a l) (hs : l.registry.Stays l'.registry) :
    Pursues linked n a l' := by
  cases a with
  | settled r =>
    cases r with
    | ok answer =>
      obtain ⟨u, hu, hc⟩ := h
      exact ⟨u, hu, hc.stays hs⟩
    | error e => exact h
  | graph purpose task => cases purpose <;> exact h
  | _ => exact h.elim

/-- A definition is accepted, refused, or claims its name. -/
theorem Pursues.cases (h : Pursues linked n a l) : a.Accepted ∨
    a = .settled (.error (.instantiate n .alreadyDefined)) ∨ a.claim? = some n := by
  cases a with
  | settled r =>
    cases r with
    | ok answer => exact Or.inl ⟨answer, rfl⟩
    | error e =>
      obtain rfl := h
      exact Or.inr (Or.inl rfl)
  | graph purpose task =>
    cases purpose with
    | define m mode =>
      obtain ⟨rfl, -⟩ := h
      exact Or.inr (Or.inr rfl)
    | _ => exact h.elim
  | _ => exact h.elim

theorem Carries.has {u : LoadedUnit} (h : l.Carries n u) : l.registry.has n = true := by
  obtain ⟨record, hg, -⟩ := h
  simp [Registry.has_eq_isSome, hg]

/-- A load of the frontier that moves without failing leaves no failure there. -/
theorem graphStep_outcomes {task task' : GraphTask} (h : GraphStep (task, l) (task', l'))
    (ht : task.Sound l) (hs : Smooth a' l') (ho : ∀ e, .error e ∉ task.frontier.outcomes) :
    ∀ e, .error e ∉ task'.frontier.outcomes := by
  cases h with
  | idle => exact ho
  | expand _ _ he =>
    have hf := congrArg (fun c => c.1.frontier) he
    simp only [expand] at hf
    rw [← hf]
    simp
  | load hl =>
    obtain ⟨id, rest, -, ⟨_, -, -, hsame⟩ | ⟨r, hend, -, hp⟩⟩ := hl.tasks_cases ht.numbered
    · rw [hsame]
      exact ho
    · cases hend with
      | mk hm =>
        intro e he
        rcases List.mem_cons.1 (hp.mem_iff.1 he) with he | he
        · subst he
          exact hs.loads (move_finished hm)
        · exact ho e he

/-- A graph without failures in its frontier can only fail by a load that fails. -/
theorem not_graphFails {task : GraphTask} {purpose : Purpose} {e : LoadError} {l₁ : Loader}
    (h : GraphEnds (task, l) (.error e, l₁)) (hr : l₁.rejectGraph purpose e = (a', l'))
    (hs : Smooth a' l') (ho : ∀ e, .error e ∉ task.frontier.outcomes) : False := by
  have hl : l'.loads = l₁.loads := by
    have hr' := congrArg (fun c => c.2.loads) hr
    cases purpose <;> exact hr'.symm
  cases h with
  | fails hf =>
    rcases hf.tasks_cases with ⟨he, -⟩ | ⟨id, -, he⟩
    · exact ho e he
    · cases he with
      | mk hm =>
        have hfin := move_finished hm
        apply hs.loads
        rw [hl]
        exact hfin

/-- The units of a definition are registered, its root among them. -/
theorem file_commit_carries {g : Graph} (hl : l.registry.has n = false) (hn : g.root.name = n) :
    ((l.file g.root).commit g.below).Carries n g.root := by
  subst hn
  have hg : (l.file g.root).registry.get? g.root.name = some g.root.record := by
    rw [file_of_not_has hl]
    exact Registry.get?_commit_self (has_eq_false_iff.1 hl)
  exact ⟨_, commit_get?_of_some hg, Or.inl rfl⟩

/-- When the graph of a definition is there, the definition is refused if its name is taken, and
accepted otherwise. -/
theorem settleDefine_pursues {mode : Option ModuleMode} {g : Graph} (hr : l.registry.Resting)
    (hg : linked g.root) (hn : g.root.name = n) (h : l.settleDefine n mode g = (a', l'))
    (hs : Smooth a' l') : Pursues linked n a' l' ∧
      (a'.Accepted ∧ l.registry.has n = false ∨ ¬ a'.Accepted ∧ Calm l l') := by
  cases hl : l.registry.has n with
  | true =>
    rw [settleDefine, if_pos hl] at h
    have ha' : a' = .settled (.error (.instantiate n .alreadyDefined)) := reject_settled h
    have hc : Calm l l' := by
      have hcalm := (unclaim_same l n).calm.trans
        (settle_calm (l.unclaim n) (.error (.instantiate n .alreadyDefined)))
      rw [reject] at h
      rwa [h] at hcalm
    subst ha'
    exact ⟨rfl, Or.inr ⟨by simp [Activity.Accepted], hc⟩⟩
  | false =>
    have hcarries := file_commit_carries hl hn
    have hrest : ((l.file g.root).commit g.below).registry.Resting :=
      (((file_settling l g.root).trans (commit_settling _ g.below)).registers hr).resting
    rw [settleDefine, hl, if_neg (by simp)] at h
    simp only at h
    generalize (l.file g.root).commit g.below = l₁ at h hcarries hrest
    have hstays : ∀ {m : Loader} {r : Except LoadError Answer}, (m.unclaim n).settle r = (a', l') →
        a' = .settled r ∧ l'.registry = m.registry := by
      intro m r hset
      have hsame := ((unclaim_same m n).registry).symm.trans
        (settle_same (m.unclaim n) r).registry.symm
      have hfst := settle_settled (m.unclaim n) r
      rw [hset] at hsame hfst
      exact ⟨hfst, hsame.symm⟩
    split at h
    · obtain ⟨rfl, hreg⟩ := hstays h
      refine ⟨⟨g.root, hg, hcarries.stays ?_⟩, Or.inl ⟨⟨_, rfl⟩, rfl⟩⟩
      rw [hreg]
      exact .refl _
    · obtain ⟨rfl, hreg⟩ := hstays h
      rcases evaluate_stays hrest n with ⟨e, he, hends⟩ | ⟨⟨ns, he⟩, hpass⟩
      · exact absurd hends (hs.pass (by rw [he]; rfl))
      · rw [he]
        refine ⟨⟨g.root, hg, hcarries.stays ?_⟩, Or.inl ⟨⟨_, rfl⟩, rfl⟩⟩
        rw [hreg]
        exact hpass

/-- What every smooth step of a definition keeps. Only the one in which it is accepted touches the
registry or runs a body, and its name was free until then. -/
theorem Pursues.advance (h : Pursues linked n a l) (hu : ∀ u, linked u → u.name = n)
    (hadv : Advance (a, l) (a', l')) (hl : l.Sound) (ha : a.Sound l) (hr : l.registry.Resting)
    (hs : Smooth a' l') : Pursues linked n a' l' ∧
      (a'.Accepted ∧ l.registry.has n = false ∨ ¬ a'.Accepted ∧ Calm l l') := by
  cases hadv with
  | @graph purpose task task' _ _ hstep =>
    cases purpose with
    | define m mode =>
      obtain ⟨rfl, hroot, ho⟩ := h
      obtain ⟨hroot', -, hh⟩ := graphStep_spec hstep hl ha
      refine ⟨⟨rfl, ?_, graphStep_outcomes hstep ha hs ho⟩, Or.inr ⟨?_, hh.grows.calm⟩⟩
      · rwa [hroot']
      · simp [Activity.Accepted]
    | _ => exact h.elim
  | @graphFails purpose task _ _ _ _ _ hend hrej =>
    cases purpose with
    | define m mode => exact (not_graphFails hend hrej hs h.2.2).elim
    | _ => exact h.elim
  | @graphDone purpose task _ _ _ _ _ hend hset =>
    cases purpose with
    | define m mode =>
      obtain ⟨rfl, hroot, -⟩ := h
      cases hend with
      | complete => exact settleDefine_pursues hr hroot (hu _ hroot) hset hs
    | _ => exact h.elim
  | _ => exact h.elim

theorem loadInline_finished (l : Loader) (load : Load) (source : String)
    (referrer : Option String) : (l.loadInline load source referrer).2.loads[l.loads.length]? =
      some (.finished (l.loadInline load source referrer).1) := by
  obtain ⟨maps, hm⟩ := linkSource_snd (l.note (.began load.name l.loads.length)) l.loads.length
    { load with source := some source } source referrer
  simp only [loadInline, hm]
  change (l.loads ++ [_])[l.loads.length]? = _
  rw [List.getElem?_append_right (Nat.le_refl _), Nat.sub_self]
  rfl

/-- A definition that has claimed its name goes on to the graph of its source. -/
theorem startInline_pursues {source : String} {options : RequestOptions}
    (h : startInline { l with defining := n :: l.defining } (.define n options.mode) n source
      (some n) options = (a', l')) (hs : Smooth a' l') :
    Pursues (l.LinkedFrom n source options) n a' l' ∧ ¬ a'.Accepted := by
  have halike : Alike l { l with defining := n :: l.defining } := ⟨rfl, rfl, rfl, rfl⟩
  have hlink := halike.loadInline rfl (l.inlineLoad n options) source (some n)
  have hfin := loadInline_finished { l with defining := n :: l.defining } (l.inlineLoad n options)
    source (some n)
  rcases hi : loadInline { l with defining := n :: l.defining } (l.inlineLoad n options) source
    (some n) with ⟨r, l₁⟩
  rw [hi] at hlink hfin
  cases r with
  | error e =>
    rw [startInline_of_error hi] at h
    cases h
    exact absurd hfin hs.loads
  | ok u =>
    rw [startInline_of_ok hi] at h
    cases h
    refine ⟨⟨rfl, hlink.symm, ?_⟩, by simp [Activity.Accepted]⟩
    simp [startGraph]

/-- A definition begins: it is refused if its name is taken, and otherwise its source is linked. -/
theorem startDefine_pursues {given source : String} {options : RequestOptions}
    (hn : l.nameOf given options.referrer = .ok n)
    (h : l.start ⟨.define given source, options⟩ = (a', l')) (hs : Smooth a' l') :
    Pursues (l.LinkedFrom n source options) n a' l' ∧ ¬ a'.Accepted ∧ Calm l l' ∧
      (l.registry.has n = true ∨ n ∈ l.defining →
        a' = .settled (.error (.instantiate n .alreadyDefined))) := by
  change l.startDefine given source options = _ at h
  simp only [startDefine, hn] at h
  split at h
  · have ha' := reject_settled h
    have hc := settle_calm l (.error (.instantiate n .alreadyDefined))
    rw [reject] at h
    rw [h] at hc
    subst ha'
    exact ⟨rfl, by simp [Activity.Accepted], hc, fun _ => rfl⟩
  · rename_i hfree
    obtain ⟨hp, ha⟩ := startInline_pursues h hs
    have hclaim : Calm l { l with defining := n :: l.defining } := Same.calm ⟨rfl, rfl⟩
    have hc := startInline_calm { l with defining := n :: l.defining }
      (.define n options.mode) n source (some n) options
    rw [h] at hc
    refine ⟨hp, ha, hclaim.trans hc, fun ht => absurd ?_ hfree⟩
    rwa [Bool.or_eq_true, List.contains_iff_mem]

/-- A row of smooth steps of a definition that is not accepted yet. -/
theorem Pursues.advances (h : Pursues linked n a l) (hna : ¬ a.Accepted)
    (hu : ∀ u, linked u → u.name = n) {d : Activity × Loader}
    (hadv : ReflTransGen Advance (a, l) d) (hl : l.Sound) (ha : a.Sound l)
    (hr : l.registry.Resting) (hs : Smooth d.1 d.2) :
    Pursues linked n d.1 d.2 ∧ (¬ d.1.Accepted → Calm l d.2) ∧
      (l.registry.has n = true → ¬ d.1.Accepted) := by
  refine smooth_preserves (P := fun b m => Pursues linked n b m ∧ (¬ b.Accepted → Calm l m) ∧
    (l.registry.has n = true → ¬ b.Accepted)) ?_ hadv hl ha hr hs
    ⟨h, fun _ => .refl l, fun _ => hna⟩
  rintro b b' m m' hstep hm hb hrm hs' ⟨hp, hc, -⟩
  have hnb : ¬ b.Accepted := by
    rintro ⟨answer, rfl⟩
    exact not_advance_settled hstep
  obtain ⟨hp', ⟨hacc, hfree⟩ | ⟨hna', hc'⟩⟩ := hp.advance hu hstep hm hb hrm hs'
  · refine ⟨hp', fun hna' => absurd hacc hna', fun hhas => ?_⟩
    rw [(hc hnb).registry, hhas] at hfree
    simp at hfree
  · exact ⟨hp', fun _ => (hc hnb).trans hc', fun _ => hna'⟩

end Pursues

end Steps

end Loader

end ModuleLoader

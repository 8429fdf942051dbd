import ModuleLoader.Loader.Access
import ModuleLoader.Proofs.Loader.Compilations
import ModuleLoader.Proofs.Loader.Definitions
import ModuleLoader.Proofs.Loader.SteadyLoaders
import ModuleLoader.Proofs.Loader.Twins
import ModuleLoader.Proofs.Registry.Detachment

/-! # Modules apart and definitions

A module that is run apart from the registry and a definition of the same source load the same graph
below roots of different names, file the same units, and run the same bodies.
-/

namespace ModuleLoader

open Dialect

/-- Two units have the same dependencies and the same program. -/
structure LoadedUnit.Renamed (u v : LoadedUnit) : Prop where
  dependencies : v.dependencies = u.dependencies
  program : v.body.linked.program = u.body.linked.program

/-- Two worlds have the same realm. -/
def World.SameRealm (w w' : World) : Prop := w'.realm = w.realm

theorem World.run_runs {body body' : Body} (h : body'.linked.program = body.linked.program) :
    Registry.Runs World.SameRealm World.run body body' := by
  intro imports w w' hw
  have hr := run_matching h.symm imports w.realm
  rw [World.run, World.run, hw]
  exact ⟨hr.1, hr.2.symm⟩

namespace Loader

open Relation

/-! ## One source under two names -/

section Source

variable {l m : Loader} {a b : Load} {source : String}

/-- Two loads have gone through the stages from one source. -/
structure OneSource (source : String) (a b : Load) : Prop where
  code : b.code = a.code
  requests : requestsOf (a.code.getD "") = requestsOf source
  first : a.instantiation = none
  second : b.instantiation = none

theorem complete_matching (h : l.Standard) (ha : a.kind = .module) (hb : b.kind = .module)
    (source : String) : Matching (OneSource source) (l.stages.complete a source)
      (l.stages.complete b source) := by
  obtain ⟨extension, compiler, hs, hc⟩ := h
  have hcode : Matching (fun c c' => c'.code = c.code ∧ requestsOf c.code = requestsOf source)
      (Stages.compileWith compiler { a with source := some source })
      (Stages.compileWith compiler { b with source := some source }) := by
    rcases hc with rfl | rfl
    · exact .ok ⟨rfl, rfl⟩
    · exact compile_matching source ha hb
  rw [hs]
  apply hcode.bind
  rintro c c' ⟨hcc, hr⟩
  exact .ok ⟨congrArg some hcc, hr, rfl, rfl⟩

theorem linkSource_fst (l : Loader) (id : Nat) (load : Load) (text : String)
    (referrer : Option String) : (l.linkSource id load text referrer).1 =
      l.stages.complete load text >>= fun load => l.unitOf id load referrer := by
  rw [linkSource]
  cases l.stages.complete load text with
  | error e => rfl
  | ok load' =>
    simp only [(keepMap_alike l load').unitOf]
    rfl

theorem resolveAll_matching (h : Alike l m) (hm : l.map.Global)
    (hr : ∀ s ∈ requestsOf source, Specifier.kindOf s.toList ≠ .relative)
    (referrer referrer' : Option String) :
    Matching (· = ·) (l.resolveAll referrer (requestsOf source))
      (m.resolveAll referrer' (requestsOf source)) := by
  rw [h.resolveAll, resolveAll_of_not_relative hm hr referrer referrer']
  exact .refl _

theorem unitOf_matching (h : Alike l m) (hm : l.map.Global) (hs : OneSource source a b)
    (hr : ∀ s ∈ requestsOf source, Specifier.kindOf s.toList ≠ .relative) (id id' : Nat)
    (referrer referrer' : Option String) :
    Matching LoadedUnit.Renamed (l.unitOf id a referrer) (m.unitOf id' b referrer') := by
  rw [unitOf, unitOf, hs.first, hs.second, hs.code]
  apply (link_matching a.name b.name (a.code.getD "")).bind
  rintro p p' ⟨hp, hreq, hreq'⟩
  simp only [hreq, hreq', hs.requests]
  apply (resolveAll_matching h hm hr referrer referrer').bind
  rintro dependencies _ rfl
  exact .ok ⟨rfl, hp⟩

/-- The unit of a source at hand has the same dependencies and program under every name. -/
theorem linkSource_matching (h : Alike l m) (hs : l.Standard) (hm : l.map.Global)
    (hr : ∀ s ∈ requestsOf source, Specifier.kindOf s.toList ≠ .relative)
    (ha : a.kind = .module) (hb : b.kind = .module) (id id' : Nat)
    (referrer referrer' : Option String) : Matching LoadedUnit.Renamed
      (l.linkSource id a source referrer).1 (m.linkSource id' b source referrer').1 := by
  rw [linkSource_fst, linkSource_fst, h.stages]
  apply (complete_matching hs ha hb source).bind
  intro a' b' hab
  exact unitOf_matching h hm hab hr id id' referrer referrer'

end Source

/-! ## Filing below two roots -/

section Filing

variable {l m : Loader} {y : String} {record : Record Body}

/-- Two loaders have the same records and realm, but for one record that only the second has. -/
structure Filed (y : String) (record : Record Body) (l m : Loader) : Prop where
  agree : Registry.AgreeBut y l.registry m.registry
  absent : l.registry.get? y = none
  present : m.registry.get? y = some record
  realm : World.SameRealm l.world m.world

theorem file_realm (l : Loader) (u : LoadedUnit) : (l.file u).world.realm = l.world.realm := by
  rw [file]
  split <;> rfl

theorem Filed.file (h : Filed y record l m) {u : LoadedUnit} (hu : u.name ≠ y) :
    Filed y record (l.commitOne u) (m.commitOne u) := by
  have hget (l : Loader) (n : String) : (l.commitOne u).registry.get? n =
      (l.registry.commit u.name u.record).get? n := by
    change (l.file u).registry.get? n = _
    cases hh : l.registry.has u.name with
    | true => rw [file_of_has hh, Registry.commit, hh, if_pos rfl]
    | false => rw [file_of_not_has hh]
  constructor
  · intro n hn
    rw [hget, hget, Registry.get?_commit, Registry.get?_commit, h.agree n hn, h.agree _ hu]
  · rw [hget, Registry.get?_commit_ne (Ne.symm hu)]
    exact h.absent
  · rw [hget, Registry.get?_commit_ne (Ne.symm hu)]
    exact h.present
  · exact (file_realm m u).trans (h.realm.trans (file_realm l u).symm)

theorem Filed.commit (h : Filed y record l m) {units : List LoadedUnit}
    (hu : ∀ u ∈ units, u.name ≠ y) : Filed y record (l.commit units) (m.commit units) := by
  induction units generalizing l m with
  | nil => exact h
  | cons u rest ih => exact ih (h.file (hu u (by simp))) fun w hw => hu w (by simp [hw])

theorem Filed.size (h : Filed y record l m) : m.registry.size = l.registry.size + 1 := by
  have hnodup (r : Registry Body) : r.names.Nodup := by
    refine List.pairwise_map.2 (r.records.sorted.imp fun hlt heq => ?_)
    exact String.lt_irrefl _ (heq ▸ hlt)
  have hperm : m.registry.names.Perm (y :: l.registry.names) := by
    rw [List.perm_ext_iff_of_nodup (hnodup _)]
    · intro n
      rw [Registry.mem_names_iff, Registry.has_eq_isSome, List.mem_cons, Registry.mem_names_iff,
        Registry.has_eq_isSome]
      by_cases hn : n = y
      · simp [hn, h.present]
      · simp [hn, h.agree n hn]
    · rw [List.nodup_cons, Registry.mem_names_iff, Registry.has_eq_isSome, h.absent]
      exact ⟨by simp, hnodup _⟩
  have hlen := hperm.length_eq
  simpa [Registry.names, Registry.size, Dict.keys, Dict.size] using hlen

end Filing

/-! ## Evaluation and look-up -/

/-- A module that was run apart and the definition of its source, when both requests are settled and
the name of the definition is looked up: both have succeeded with the same exports, or both have
failed with an error of the same kind, and the look-up gives no exports either. The globals are the
same, and so are all records but that of the definition. -/
structure Agrees (y : String) (a a' : Activity) (l m : Loader) : Prop where
  result : (∃ ns, a = .settled (.ok (.exports ns)) ∧ a' = .settled (.ok .defined) ∧
      (m.get y).1 = .ok (some ns)) ∨
    ∃ e e', a = .settled (.error e) ∧ a' = .settled (.error e') ∧ e.kind = e'.kind ∧
      ∀ ns, (m.get y).1 ≠ .ok (some ns)
  realm : (m.get y).2.world.realm = l.world.realm
  records : ∀ n, n ≠ y → (m.get y).2.registry.get? n = l.registry.get? n

section Settling

variable {l m : Loader} {x y : String}

theorem get_of_absent (h : m.registry.get? y = none) : m.get y = (.ok none, m) := by
  rw [Loader.get, Registry.has_eq_isSome, h]
  rfl

theorem get_of_evaluated {record : Record Body} {ns : Namespace}
    (h : m.registry.get? y = some record) (hs : record.slot = .evaluated ns) :
    m.get y = (.ok (some ns), m) := by
  have he : m.registry.evaluate World.run m.world y = (.ok ns, ⟨m.registry, m.world⟩) := by
    rw [Registry.evaluate, h]
    simp only [hs]
  rw [Loader.get, Registry.has_eq_isSome, h]
  simp only [Option.isSome_some, if_true, Loader.evaluate, he]
  rfl

/-- Nothing has changed if the evaluation failed before it began. -/
theorem get_of_error {e : LoadError} (h : m.registry.evaluate World.run m.world y =
    (.error e, ⟨m.registry, m.world⟩)) (hp : m.registry.get? y ≠ none) :
    m.get y = (.error e, { m with reporter := m.reporter.report e }) := by
  have hhas : m.registry.has y = true := by
    rwa [Registry.has_eq_isSome, Option.isSome_iff_ne_none]
  rw [Loader.get, hhas]
  simp only [if_true, Loader.evaluate, h]
  rfl

theorem settle_frame (l : Loader) (r : Except LoadError Answer) :
    (l.settle r).1 = .settled r ∧ (l.settle r).2.registry = l.registry ∧
      (l.settle r).2.world = l.world := by
  cases r <;> exact ⟨rfl, rfl, rfl⟩

/-- What a module that is run apart comes to. -/
theorem settleGraph_module (l : Loader) (g : Graph) :
    (l.settleGraph .module g).1 =
        .settled (((l.commit g.below).evaluateDetached g.root).1.map .exports) ∧
      (l.settleGraph .module g).2.registry =
        ((l.commit g.below).evaluateDetached g.root).2.registry ∧
      (l.settleGraph .module g).2.world = ((l.commit g.below).evaluateDetached g.root).2.world :=
  settle_frame _ _

/-- What a definition in register mode comes to. -/
theorem settleGraph_define {mode : Option ModuleMode} (hy : m.registry.get? y = none)
    (hm : mode.getD m.options.mode = .register) (g : Graph) :
    (m.settleGraph (.define y mode) g).1 =
        .settled ((((m.file g.root).commit g.below).evaluate y).1.map fun _ => .defined) ∧
      (m.settleGraph (.define y mode) g).2.registry =
        (((m.file g.root).commit g.below).evaluate y).2.registry ∧
      (m.settleGraph (.define y mode) g).2.world =
        (((m.file g.root).commit g.below).evaluate y).2.world := by
  have hoptions : ((m.file g.root).commit g.below).options = m.options := by
    rw [(commit_alike _ _).1.options, file]
    split <;> rfl
  have hhas : ¬ m.registry.has y = true := by
    rw [Registry.has_eq_isSome, hy]
    simp
  rw [settleGraph, settleDefine, if_neg hhas]
  simp only [hoptions, hm]
  exact settle_frame _ _

/-- Two requests agree that are settled as an evaluation apart and one with a record. -/
theorem agrees_of_compares {start : Registry.Pass Body World}
    {c d : Except LoadError Namespace × Registry.Pass Body World}
    (h : Registry.Compares World.SameRealm y start c d)
    (hd : start.registry.evaluate World.run start.world y = d)
    (hp : start.registry.get? y ≠ none) {a a' : Activity} (ha : a = .settled (c.1.map .exports))
    (hl : l.registry = c.2.registry ∧ l.world = c.2.world)
    (ha' : a' = .settled (d.1.map fun _ => .defined))
    (hm : m.registry = d.2.registry ∧ m.world = d.2.world) : Agrees y a a' l m := by
  cases h with
  | @ran ns q q' hagree hw hrec =>
    obtain ⟨record, hrec, hslot⟩ := hrec
    rw [← hm.1] at hrec
    have hget := get_of_evaluated hrec hslot
    constructor
    · exact Or.inl ⟨ns, ha, ha', congrArg Prod.fst hget⟩
    · rw [hget, hm.2, hl.2]
      exact hw
    · intro n hn
      rw [hget, hm.1, hl.1]
      exact hagree n hn
  | @stopped e e' q q' hagree hw hkind hnone =>
    rw [← hm.1] at hnone
    have hget := get_of_absent hnone
    constructor
    · refine Or.inr ⟨e, e', ha, ha', hkind, fun ns => ?_⟩
      rw [hget]
      simp
    · rw [hget, hm.2, hl.2]
      exact hw
    · intro n hn
      rw [hget, hm.1, hl.1]
      exact hagree n hn
  | @missing e e' q hagree hw hkind =>
    rw [← hm.1] at hp
    rw [← hm.1, ← hm.2] at hd
    have hget : m.get y = (.error e', { m with reporter := m.reporter.report e' }) := by
      apply get_of_error _ hp
      rw [hd, hm.1, hm.2]
    constructor
    · refine Or.inr ⟨e, e', ha, ha', hkind, fun ns => ?_⟩
      rw [hget]
      simp
    · rw [hget, hl.2]
      exact hm.2 ▸ hw
    · intro n hn
      rw [hget, hl.1]
      exact hm.1 ▸ hagree n hn

end Settling

/-! ## Turns -/

section Turns

variable {p : Roots} {t t' : GraphTask} {l m : Loader}

/-- The definition has a record of its own, and nothing else depends on it. -/
theorem Paired.filed (h : Paired p t t' l m) : Filed p.second.name p.second.record
    (l.commit t.graph.below) ((m.file p.second).commit t'.graph.below) := by
  have hfree : m.registry.get? p.second.name = none := by rw [h.twins.registry, h.twins.free]
  have hm : m.registry.has p.second.name = false := by rw [Registry.has_eq_isSome, hfree]; rfl
  have hstart : Filed p.second.name p.second.record l (m.file p.second) := by
    rw [file_of_not_has hm]
    constructor
    · intro n hn
      rw [← h.twins.registry]
      exact Registry.get?_commit_ne hn
    · exact h.twins.free
    · exact Registry.get?_commit_self hfree
    · exact h.twins.realm
  rw [h.below]
  apply hstart.commit
  intro w hw hwy
  have hunits : w ∈ t.units := by simp [GraphTask.units, Graph.units, hw]
  exact h.fresh (hwy ▸ h.knows.seen w hunits)

theorem Paired.aside (h : Paired p t t' l m) {n : String} (hn : l.Unrequested n) :
    (l.commit t.graph.below).registry.Aside n := by
  intro k _ record hg
  cases hk : l.registry.get? k with
  | some before =>
    rw [commit_get?_of_some hk] at hg
    cases hg
    exact hn.records hk
  | none =>
    rcases commit_get?_of_none t.graph.below hk with ⟨hnone, -⟩ | ⟨w, hw, -, hsome⟩
    · rw [hnone] at hg
      cases hg
    · rw [hsome] at hg
      cases hg
      have hunits : w ∈ t.units := by simp [GraphTask.units, Graph.units, hw]
      exact hn.units (h.knows.arrived w hunits)

/-- When both graphs have been loaded, the module that is run apart and the definition agree. -/
theorem Paired.settle (h : Paired p t t' l m) :
    Agrees p.second.name (l.settleGraph .module t.graph).1
      (m.settleGraph (.define p.second.name p.mode) t'.graph).1
      (l.settleGraph .module t.graph).2
      (m.settleGraph (.define p.second.name p.mode) t'.graph).2 := by
  have hf := h.filed
  have hunit : p.first ∈ t.units := by simp [GraphTask.units, Graph.units, h.root]
  have hdeps {n : String} (hn : l.Unrequested n) : Registry.Avoids p.first.dependencies n :=
    hn.units (h.knows.arrived _ hunit)
  have hpresent : ((m.file p.second).commit t'.graph.below).registry.get? p.second.name =
      some (.waiting p.second.address p.first.dependencies p.second.body) := by
    rw [hf.present, LoadedUnit.record, p.dependencies]
  have hcompare := Registry.evaluateDetached_compares hf.agree (h.aside h.left) (h.aside h.right)
    hpresent hf.size (hdeps h.left) (hdeps h.right) (fun _ => World.run_runs rfl)
    (World.run_runs p.program) hf.realm
  have hfree : m.registry.get? p.second.name = none := by rw [h.twins.registry, h.twins.free]
  have hregister : p.mode.getD m.options.mode = .register := by
    rw [h.twins.options, h.register]
  obtain ⟨ha, hl⟩ := settleGraph_module l t.graph
  obtain ⟨ha', hm⟩ := settleGraph_define hfree hregister t'.graph
  rw [h.root] at ha hl
  rw [h.root'] at ha' hm
  refine agrees_of_compares hcompare rfl ?_ ha hl ha' hm
  rw [hpresent]
  simp

/-- The two requests have come equally far: both load their graphs, or both are settled and
agree. -/
inductive Matches (y : String) : Activity × Loader → Activity × Loader → Prop where
  | loading {p : Roots} {t t' : GraphTask} {l m : Loader} : Paired p t t' l m →
      p.second.name = y → Matches y (.graph .module t, l) (.graph (.define y p.mode) t', m)
  | settled {a a' : Activity} {l m : Loader} : Agrees y a a' l m → Matches y (a, l) (a', m)

theorem agrees_of_errors {y : String} {e e' : LoadError} (hk : e.kind = e'.kind)
    (hy : m.registry.get? y = none) (hr : m.world.realm = l.world.realm)
    (hg : m.registry = l.registry) :
    Agrees y (.settled (.error e)) (.settled (.error e')) l m := by
  have hget := get_of_absent hy
  constructor
  · refine Or.inr ⟨e, e', rfl, rfl, hk, fun ns => ?_⟩
    rw [hget]
    simp
  · rw [hget]
    exact hr
  · intro n _
    rw [hget, hg]

theorem Paired.advance (h : Paired p t t' l m) (budget : Nat) :
    Matches p.second.name (advanceGraph budget l .module t)
      (advanceGraph budget m (.define p.second.name p.mode) t') := by
  have hmove := h.moveGraph budget
  rw [advanceGraph, advanceGraph]
  generalize Loader.moveGraph budget l t = c at hmove ⊢
  generalize Loader.moveGraph budget m t' = d at hmove ⊢
  cases hmove with
  | going hp => exact .loading hp rfl
  | failed ht =>
    refine .settled (agrees_of_errors rfl ?_ ht.realm ht.registry)
    exact ht.registry.symm ▸ ht.free
  | loaded hp => exact .settled hp.settle

theorem Matches.advance {y : String} {c d : Activity × Loader} (h : Matches y c d) (budget : Nat) :
    Matches y (Loader.advance budget c.2 c.1) (Loader.advance budget d.2 d.1) := by
  cases h with
  | @loading p t t' l m hp hy =>
    subst hy
    exact hp.advance budget
  | @settled a a' l m ha =>
    rcases ha.result with ⟨ns, rfl, rfl, -⟩ | ⟨e, e', rfl, rfl, -⟩
    · exact .settled ha
    · exact .settled ha

theorem Matches.turn {y : String} {c d : Activity × Loader} (h : Matches y c d) (budget : Nat) :
    Matches y (Loader.turn budget c.2 c.1) (Loader.turn budget d.2 d.1) := by
  have ha := h.advance budget
  cases h with
  | loading => exact ha
  | @settled a a' l m hagrees =>
    rcases hagrees.result with ⟨ns, rfl, rfl, -⟩ | ⟨e, e', rfl, rfl, -⟩
    · exact ha
    · exact ha

theorem Matches.isSettled {y : String} {c d : Activity × Loader} (h : Matches y c d) :
    d.1.isSettled = c.1.isSettled ∧ (c.1.isSettled = true → Agrees y c.1 d.1 c.2 d.2) := by
  cases h with
  | loading => exact ⟨rfl, fun hs => by simp [Activity.isSettled] at hs⟩
  | @settled a a' l m ha =>
    refine ⟨?_, fun _ => ha⟩
    rcases ha.result with ⟨ns, rfl, rfl, -⟩ | ⟨e, e', rfl, rfl, -⟩ <;> rfl

end Turns

/-! ## The beginning of the requests -/

section Beginning

variable {l : Loader} {x y source : String} {options : RequestOptions}

theorem loadInline_alike (l : Loader) (load : Load) (source : String) (referrer : Option String) :
    Alike l (l.loadInline load source referrer).2 := by
  rw [loadInline_eq]
  exact ⟨rfl, rfl, rfl, rfl⟩

theorem loadInline_load {load : Load} {referrer : Option String} {u : LoadedUnit}
    (h : (l.loadInline load source referrer).1 = .ok u) : u.body.load = l.loads.length :=
  (linkSource_ok h).2

/-- A source at hand that does not request a name leaves it unrequested. -/
theorem Unrequested.inline {n : String} (h : l.Unrequested n) (hs : l.Standard)
    (hn : ¬ l.Requests source n) (load : Load) (referrer : Option String) :
    (l.loadInline load source referrer).2.Unrequested n := by
  rw [loadInline_eq]
  refine ⟨h.records, ?_, h.files⟩
  intro u hu d hd
  rcases getElem?_concat_eq_some_iff.1 hu with hu | ⟨-, hu⟩
  · exact h.units hu d hd
  · exact fun hdn => hn (hdn ▸ linkSource_requests hs (LoadState.finished.inj hu) hd)

/-- The two sources at hand make roots that agree but for their names, or both fail. -/
theorem loadInline_matching (hs : l.Standard) (hm : l.map.Global)
    (hr : ∀ s ∈ requestsOf source, Specifier.kindOf s.toList ≠ .relative) (x y : String)
    (options : RequestOptions) (k : Nat) (defining : List String)
    (referrer referrer' : Option String) : Matching LoadedUnit.Renamed
      (({ l with anonymous := k }).loadInline (l.inlineLoad x options) source referrer).1
      (({ l with defining := defining }).loadInline (l.inlineLoad y options) source referrer').1 := by
  rw [loadInline_eq, loadInline_eq]
  have ha : Alike { l with anonymous := k } { l with defining := defining } :=
    ⟨rfl, rfl, rfl, rfl⟩
  exact linkSource_matching ha hs hm hr rfl rfl _ _ referrer referrer'

theorem loadInline_twins (hl : l.Sound) (hy : l.registry.get? y = none) (x source : String)
    (k : Nat) (defining : List String) (a b : Load) (referrer referrer' : Option String) :
    Twins x y l.loads.length (({ l with anonymous := k }).loadInline a source referrer).2
      (({ l with defining := defining }).loadInline b source referrer').2 := by
  rw [loadInline_eq, loadInline_eq]
  constructor
  · rfl
  · rfl
  · rfl
  · rfl
  · rfl
  · rfl
  · simp
  · simp
  · intro id hid
    simp only [List.getElem?_append, List.getElem?_singleton]
    split
    · rfl
    · rw [if_neg (by omega), if_neg (by omega)]
  · exact fun _ _ => rfl
  · intro n _ _ hp
    exact Nat.lt_irrefl _ (hl.pending hp).lt
  · exact hy

theorem startGraph_paired {p : Roots} {m : Loader}
    (h : Twins p.first.name p.second.name p.first.body.load l m) (hl : l.Sound) (hs : l.Standard)
    (hx : l.Unrequested p.first.name) (hy : l.Unrequested p.second.name)
    (hmode : p.mode.getD l.options.mode = .register) (hu : l.Arrived p.first)
    (hne : p.first.name ≠ p.second.name) (metadata : Metadata) :
    Paired p (l.startGraph metadata p.first).1 (m.startGraph metadata p.second).1
      (l.startGraph metadata p.first).2 (m.startGraph metadata p.second).2 := by
  have hseen : AgreeBut p.first.name p.second.name [p.first.name] [p.second.name] := by
    intro n hnx hny
    simp [hnx, hny]
  obtain ⟨hids, hall, hseen', ht⟩ := h.wantAll metadata hseen (hx.units hu) (hy.units hu)
  have hstart : l.startGraph metadata p.first =
      ((l.startGraph metadata p.first).1, (l.startGraph metadata p.first).2) := rfl
  obtain ⟨-, hknows, hholds⟩ := startGraph_spec hstart hl hu
  have harrived {w : LoadedUnit} (hw : (l.startGraph metadata p.first).2.Arrived w) : l.Arrived w :=
    wantAll_arrived hw
  have hunrequested {n : String} (hn : l.Unrequested n) :
      (l.startGraph metadata p.first).2.Unrequested n :=
    hn.grows hs hholds.grows.alike hholds.grows.registry fun hw => Or.inl (harrived hw)
  have hsecond : m.startGraph metadata p.second =
      (⟨metadata, ⟨p.second, []⟩,
          (wantAll metadata m [p.second.name] p.first.dependencies).2.1,
          .ofTasks (wantAll metadata m [p.second.name] p.first.dependencies).1⟩,
        (wantAll metadata m [p.second.name] p.first.dependencies).2.2) := by
    rw [Loader.startGraph, p.dependencies]
  rw [hsecond]
  constructor
  · exact ht
  · exact hholds.grows.sound hl
  · exact hknows
  · exact hholds.grows.alike.standard hs
  · exact hunrequested hx
  · exact hunrequested hy
  · rw [hholds.grows.alike.options]
    exact hmode
  · exact not_mem_wantAll (by simpa using Ne.symm hne) (hy.units hu)
  · rfl
  · rfl
  · rfl
  · rfl
  · exact hseen'
  · exact congrArg Gathering.ofTasks hids
  · exact fun c hc => hall c.2 (mem_running_ofTasks hc)

/-- The two requests begin alike. -/
theorem startInline_matches (hl : l.Sound) (hs : l.Standard) (hm : l.map.Global)
    (hr : ∀ s ∈ requestsOf source, Specifier.kindOf s.toList ≠ .relative)
    (hx : l.Unrequested x ∧ ¬ l.Requests source x) (hy : l.Unrequested y ∧ ¬ l.Requests source y)
    (hne : x ≠ y) (hfree : l.registry.get? y = none)
    (hmode : options.mode.getD l.options.mode = .register) (k : Nat) (defining : List String)
    (referrer referrer' : Option String) : Matches y
      (startInline { l with anonymous := k } .module x source referrer options)
      (startInline { l with defining := defining } (.define y options.mode) y source referrer'
        options) := by
  have hload := loadInline_matching hs hm hr x y options k defining referrer referrer'
  have ht := loadInline_twins hl hfree x source k defining (l.inlineLoad x options)
    (l.inlineLoad y options) referrer referrer'
  have hinline := loadInline_inline { l with anonymous := k } (l.inlineLoad x options) source
    referrer
  rcases hc : loadInline { l with anonymous := k } (l.inlineLoad x options) source referrer with
    ⟨result, l'⟩
  rcases hd : loadInline { l with defining := defining } (l.inlineLoad y options) source referrer'
    with ⟨result', m'⟩
  rw [hc, hd] at hload ht
  rw [hc] at hinline
  cases hload with
  | @error e e' he =>
    rw [startInline_of_error hc, startInline_of_error hd]
    refine .settled (agrees_of_errors he ?_ ht.realm ht.registry)
    exact ht.registry.symm ▸ ht.free
  | @ok u v hrenamed =>
    have hu : u.name = x := loadInline_name (congrArg Prod.fst hc)
    have hv : v.name = y := loadInline_name (congrArg Prod.fst hd)
    have hid : u.body.load = ({ l with anonymous := k } : Loader).loads.length :=
      loadInline_load (congrArg Prod.fst hc)
    have halike : Alike { l with anonymous := k } l' := by
      have ha := loadInline_alike { l with anonymous := k } (l.inlineLoad x options) source referrer
      rwa [hc] at ha
    have hunrequested {n : String} (hn : l.Unrequested n ∧ ¬ l.Requests source n) :
        l'.Unrequested n := by
      have hn' : Unrequested { l with anonymous := k } n :=
        ⟨hn.1.records, hn.1.units, hn.1.files⟩
      have hin := hn'.inline hs hn.2 (l.inlineLoad x options) referrer
      rwa [hc] at hin
    have hsound : l'.Sound := hinline.sound ⟨hl.own, hl.pending⟩
    have hmode' : options.mode.getD l'.options.mode = .register := by rw [halike.options, hmode]
    rw [startInline_of_ok hc, startInline_of_ok hd]
    rw [← hid] at ht
    subst hu hv
    exact .loading (startGraph_paired (p := ⟨u, v, options.mode, hrenamed.1, hrenamed.2⟩) ht hsound
      (halike.standard hs) (hunrequested hx) (hunrequested hy) hmode' (hinline.arrived u rfl) hne _)
      rfl

end Beginning

end Loader

end ModuleLoader

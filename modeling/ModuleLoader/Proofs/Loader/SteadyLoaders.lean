import ModuleLoader.Proofs.Loader.Executions

/-! # Loaders between steps

Between the steps of imports that go by a plan, every registered module is evaluated. Imports that
end register the units that they have, and run all of their bodies.
-/

namespace ModuleLoader

open Dialect Relation

namespace Loader

variable {l : Loader} {units : List LoadedUnit}

/-- What registration tells the journal is what it files. -/
theorem commit_world (l : Loader) (units : List LoadedUnit) :
    ∃ events, (l.commit units).world = ⟨l.world.realm, events ++ l.world.journal⟩ ∧
      ∀ e ∈ events, ∃ n id, e = .filed n id := by
  induction units generalizing l with
  | nil => exact ⟨[], rfl, by simp⟩
  | cons u rest ih =>
    obtain ⟨events, hw, he⟩ := ih (l.commitOne u)
    change (l.commit (u :: rest)).world =
      ⟨(l.file u).world.realm, events ++ (l.file u).world.journal⟩ at hw
    cases h : l.registry.has u.name with
    | true =>
      rw [file_of_has h] at hw
      exact ⟨events, hw, he⟩
    | false =>
      rw [file_of_not_has h] at hw
      refine ⟨events ++ [.filed u.name u.body.load], ?_, ?_⟩
      · rw [hw, List.append_assoc]
        rfl
      · intro e hm
        rcases List.mem_append.1 hm with hm | hm
        · exact he e hm
        · exact ⟨_, _, List.mem_singleton.1 hm⟩

theorem commit_alike (l : Loader) (units : List LoadedUnit) :
    Alike l (l.commit units) ∧ (l.commit units).files = l.files := by
  induction units generalizing l with
  | nil => exact ⟨.refl l, rfl⟩
  | cons u rest ih =>
    obtain ⟨ha, hf⟩ := ih (l.commitOne u)
    have hone : Alike l (l.commitOne u) ∧ (l.commitOne u).files = l.files := by
      change Alike l { l.file u with pending := (l.file u).pending.erase u.name } ∧
        (l.file u).files = l.files
      rw [file]
      split <;> exact ⟨⟨rfl, rfl, rfl, rfl⟩, rfl⟩
    exact ⟨hone.1.trans ha, hf.trans hone.2⟩

/-- Nothing is evaluated yet that was registered just now. -/
theorem commit_known (l : Loader) (units : List LoadedUnit) :
    (l.commit units).registry.known = l.registry.known := by
  funext n
  cases hg : l.registry.get? n with
  | some record => simp [Registry.known, hg, commit_get?_of_some hg]
  | none =>
    rcases commit_get?_of_none units hg with ⟨hn, -⟩ | ⟨u, -, -, hs⟩
    · simp [Registry.known, hg, hn]
    · simp [Registry.known, hg, hs, LoadedUnit.record, Record.waiting, Record.namespace?]

/-- What evaluation tells the journal is which bodies run. -/
theorem rows_journal {s t : Registry.Pass Body World}
    (h : ReflTransGen (Registry.Ran World.run) s t) :
    ∃ events, t.world.journal = events ++ s.world.journal ∧ ∀ e ∈ events, ∃ id ok, e = .ran id ok := by
  induction h with
  | refl => exact ⟨[], rfl, by simp⟩
  | @tail m _ _ hr ih =>
    obtain ⟨events, hj, he⟩ := ih
    cases hr with
    | @mk name record body imports ns world _ hrun =>
      obtain ⟨ok, hw⟩ : ∃ ok, world.journal = .ran body.load ok :: m.world.journal :=
        ⟨_, (congrArg (fun c => c.2.journal) hrun).symm⟩
      refine ⟨.ran body.load ok :: events, ?_, ?_⟩
      · rw [List.cons_append, ← hj]
        exact hw
      · intro e hm
        rcases List.mem_cons.1 hm with rfl | hm
        · exact ⟨_, _, rfl⟩
        · exact he e hm

end Loader

open Loader

namespace Plan

/-- Between the steps of imports that go by a plan every registered module is evaluated. -/
structure Steady (p : Plan) (E : Realm → (String → Option Namespace) → Prop) (l : Loader)
    (loaded fetched ran : List String) : Prop where
  keeps : p.Keeps l
  stores : l.Stores
  ledger : p.Ledger l loaded fetched
  running : p.Running E l loaded fetched ran
  evaluated : ∀ {n record}, l.registry.get? n = some record → ∃ ns, record.slot = .evaluated ns

/-- What the step of an import leaves as it was for others. -/
structure Prospers (l l' : Loader) : Prop where
  alike : Alike l l'
  evolves : Evolves l l'
  comes : ∀ {id u}, l.Comes id u → l'.Comes id u
  rest : ∀ id < l.loads.length, l'.rest id ≤ l.rest id
  has : ∀ {n}, l.registry.has n = true → l'.registry.has n = true
  known : ∀ {n ns}, l.registry.known n = some ns → l'.registry.known n = some ns

theorem Prospers.refl (l : Loader) : Prospers l l :=
  ⟨.refl l, .refl l, id, fun _ _ => Nat.le_refl _, id, id⟩

theorem Prospers.trans {l l' l'' : Loader} (h : Prospers l l') (h' : Prospers l' l'') :
    Prospers l l'' :=
  ⟨h.alike.trans h'.alike, h.evolves.trans h'.evolves, fun hc => h'.comes (h.comes hc),
    fun id hid =>
      Nat.le_trans (h'.rest id (Nat.lt_of_lt_of_le hid h.evolves.length_le)) (h.rest id hid),
    fun hr => h'.has (h.has hr), fun hk => h'.known (h.known hk)⟩

section Steady

variable {p : Plan} {E : Realm → (String → Option Namespace) → Prop} {l l' : Loader}
  {loaded fetched ran : List String} {name : String} {roots : List String}
  {units : List LoadedUnit}

theorem Proceeds.prospers (h : p.Proceeds l l') : Prospers l l' :=
  ⟨h.grows.alike, h.grows.loads, h.comes, h.rest, fun hr => by rwa [h.grows.registry],
    fun hk => by rwa [h.grows.registry]⟩

theorem Grows.settling (h : Grows l l') :
    ∃ events, l'.world.journal = events ++ l.world.journal ∧ ∀ e ∈ events, e.ran? = none := by
  obtain ⟨events, hj, he⟩ := h.journal
  refine ⟨events, hj, fun e hm => ?_⟩
  cases e with
  | ran => exact absurd (he _ hm) id
  | _ => rfl

/-- Loads that move and are joined leave a loader steady. -/
theorem Steady.proceeds (h : p.Steady E l loaded fetched ran) (hp : p.Proceeds l l') :
    ∃ loaded' fetched', p.Steady E l' loaded' fetched' ran := by
  obtain ⟨loaded', fetched', hl, hf, hledger, hk, hs⟩ :=
    h.ledger.operates h.keeps h.stores hp.operates
  have hr := hp.grows.registry
  obtain ⟨events, hj, he⟩ := Grows.settling hp.grows
  have hran : l'.world.journal.reverse.filterMap Event.ran? =
      l.world.journal.reverse.filterMap Event.ran? := by
    have hnone : events.reverse.filterMap Event.ran? = [] := by
      simpa [List.filterMap_eq_nil_iff] using he
    rw [hj, List.reverse_append, List.filterMap_append, hnone, List.append_nil]
  refine ⟨loaded', fetched', hk, hs, hledger, ?_, by rw [hr]; exact h.evaluated⟩
  obtain ⟨hstate, hwait, htells, honce, hmem, hsub, hclosed, horder⟩ := h.running
  refine ⟨by rw [hr, hp.grows.realm]; exact hstate, ?_, ?_, honce, by rw [hr]; exact hmem,
    fun n hn => hf.subset (hsub n hn), by rw [hr]; exact hclosed, horder⟩
  · rw [hr]
    intro n record body hg hs
    obtain ⟨hn, hd, hb, hload, hfet⟩ := hwait hg hs
    obtain ⟨hi, he⟩ := List.getElem?_eq_some_iff.1 hload
    refine ⟨hn, hd, hb, ?_, hf.subset hfet⟩
    rw [List.prefix_iff_getElem?.1 hl _ hi, he]
  · rw [hran, htells]
    refine List.map_congr_left fun n hn => ?_
    obtain ⟨rest, rfl⟩ := hl
    rw [List.idxOf_append_of_mem (h.ledger.mem n (hsub n hn))]

/-! ## The end of an import -/

theorem Keeps.releases (h : p.Keeps l) (hr : Releases l l') (ha : Alike l l')
    (hf : l'.files = l.files) (hreg : ∀ n, l.registry.has n = true → l'.registry.has n = true)
    (hp : ∀ n id, l.pending.get? n = some id →
      l'.pending.get? n = some id ∨ l'.registry.has n = true) : p.Keeps l' := by
  have hloads {id : Nat} : l'.loads[id]? = l.loads[id]? := by rw [hr.loads]
  refine ⟨hr.sound h.sound, fun n hn d hd => (h.closed n hn d hd).imp_left (hreg _), ?_, ?_⟩
  · intro n hn id hi
    obtain ⟨hc, hle⟩ := h.pending n hn id (hr.pending hi)
    exact ⟨hc.mono ha hloads, by rwa [rest_mono ha.stages hf hloads]⟩
  · intro n hn hi hreg'
    have hnone : l.pending.get? n = none := by
      rw [Option.eq_none_iff_forall_ne_some]
      intro id hid
      rcases hp n id hid with hid | hn'
      · simp [hi] at hid
      · simp [hreg'] at hn'
    have hfree : l.registry.has n = false := by
      rw [← Bool.not_eq_true]
      intro hn'
      simp [hreg n hn'] at hreg'
    obtain ⟨ho, ht⟩ := h.fresh n hn hnone hfree
    refine ⟨fun id => by rw [ha.outcome, ho], ?_⟩
    simpa only [turnsOf, ha.stages, hf] using ht

theorem Steady.needs_nil (h : p.Steady E l loaded fetched ran) {x y : String} :
    ¬ l.registry.Needs x y := by
  rintro ⟨record, hg, hy⟩
  obtain ⟨ns, hs⟩ := h.evaluated hg
  simp [Registry.needs, hs] at hy

/-- What registered units need is what the plan says. -/
theorem Steady.needs_iff (h : p.Steady E l loaded fetched ran) (hw : p.Whole l roots units)
    {x y : String} : (l.commit units).registry.Needs x y ↔ l.registry.get? x = none ∧
      x ∈ units.map (·.name) ∧ y ∈ (p.unit x).dependencies.map (·.name) := by
  rw [hw.needs_iff]
  exact or_iff_right h.needs_nil

/-- The units of an import are registered with all that they need. -/
theorem Steady.commit_closed (h : p.Steady E l loaded fetched ran) (hw : p.Whole l roots units)
    {x y : String} (hn : (l.commit units).registry.Needs x y) :
    (l.commit units).registry.has y = true := by
  obtain ⟨-, hx, hy⟩ := (h.needs_iff hw).1 hn
  obtain ⟨u, hu, rfl⟩ := List.mem_map.1 hx
  rw [← LoadedUnit.withLoad_dependencies _ u.body.load, ← (hw.planned u hu).2] at hy
  obtain ⟨d, hd, rfl⟩ := List.mem_map.1 hy
  exact (hw.closed u hu d hd).elim (fun hr => has_commit_of_has hr units) has_commit

theorem Steady.missing_nil (h : p.Steady E l loaded fetched ran) (hw : p.Whole l roots units)
    (hn : (l.commit units).registry.has name = true) :
    (l.commit units).registry.missing name = [] := by
  rw [List.eq_nil_iff_forall_not_mem]
  intro y hy
  obtain ⟨hg, hr⟩ := Registry.mem_missing_iff.1 hy
  have hhas : (l.commit units).registry.has y = true := by
    rcases hr.cases_tail with rfl | ⟨x, -, hxy⟩
    · exact hn
    · exact h.commit_closed hw hxy
  simp [Registry.has_eq_isSome, hg] at hhas

/-- A cycle among registered units is one of the plan. -/
theorem Steady.dep_of_needs (h : p.Steady E l loaded fetched ran) (hw : p.Whole l roots units)
    {x y z : String} (hr : TransGen (l.commit units).registry.Needs x y)
    (hz : (l.commit units).registry.Needs y z) : TransGen p.Dep x y := by
  have hnames {a b : String} (hab : (l.commit units).registry.Needs a b) : a ∈ p.names := by
    obtain ⟨-, ha, -⟩ := (h.needs_iff hw).1 hab
    obtain ⟨u, hu, rfl⟩ := List.mem_map.1 ha
    exact (hw.planned u hu).1
  induction hr generalizing z with
  | single hxy => exact .single ⟨hnames hxy, hnames hz, ((h.needs_iff hw).1 hxy).2.2⟩
  | tail _ hyz ih => exact (ih hyz).tail ⟨hnames hyz, hnames hz, ((h.needs_iff hw).1 hyz).2.2⟩

/-- Units that are about to be registered leave the account of the runs as it was. -/
theorem Steady.commit_running (h : p.Steady E l loaded fetched ran)
    (hw : p.Whole l roots units) : p.Running E (l.commit units) loaded fetched ran := by
  obtain ⟨events, hworld, he⟩ := commit_world l units
  have hk := commit_known l units
  obtain ⟨hstate, hwait, htells, honce, hmem, hsub, hclosed, horder⟩ := h.running
  refine ⟨by rw [hk, hworld]; exact hstate, ?_, ?_, honce, by rw [hk]; exact hmem, hsub,
    by rw [hk]; exact hclosed, horder⟩
  · intro n record body hg hs
    cases hgl : l.registry.get? n with
    | some record' =>
      rw [commit_get?_of_some hgl, Option.some.injEq] at hg
      exact hwait (hg ▸ hgl) hs
    | none =>
      rcases commit_get?_of_none units hgl with ⟨hn, -⟩ | ⟨u, hu, rfl, hsome⟩
      · simp [hn] at hg
      · rw [hsome, Option.some.injEq] at hg
        subst hg
        obtain rfl : u.body = body := by simpa [LoadedUnit.record, Record.waiting] using hs
        obtain ⟨hn, hplan⟩ := hw.planned u hu
        have harr : l.loads[u.body.load]? = some (.finished (.ok u)) := hw.arrived u hu
        have hcomes : l.Comes u.body.load (p.unit u.name) :=
          ⟨_, harr, ⟨(p.named _ hn).symm, rfl⟩, congrArg Except.ok hplan⟩
        have hload := h.ledger.getElem? hn hcomes
        have hd : u.dependencies = ((p.unit u.name).withLoad u.body.load).dependencies :=
          congrArg _ hplan
        have hb : u.body.linked = ((p.unit u.name).withLoad u.body.load).body.linked :=
          congrArg (fun v : LoadedUnit => v.body.linked) hplan
        refine ⟨hn, hd, hb, hload, (h.ledger.waits hload).2 ?_⟩
        rintro ⟨m, md, hc⟩
        simp [harr] at hc
  · have hnone : events.reverse.filterMap Event.ran? = [] := by
      rw [List.filterMap_eq_nil_iff]
      intro e hm
      obtain ⟨n, id, rfl⟩ := he e (List.mem_reverse.1 hm)
      rfl
    rw [hworld]
    simp only [List.reverse_append, List.filterMap_append, hnone, List.append_nil]
    exact htells

/-- The evaluation of a module comes to its end, with all bodies that were left to run. -/
theorem Steady.evaluate (h : p.Steady E l loaded fetched ran) (hE : p.Safe E)
    (hac : ∀ n, ¬ TransGen p.Dep n n) (hw : p.Whole l roots units)
    (hn : (l.commit units).registry.has name = true) :
    ∃ ns q ran', (l.commit units).registry.evaluate World.run (l.commit units).world name =
        (.ok ns, q) ∧ q.registry.known name = some ns ∧
      ReflTransGen (Registry.Ran World.run) ⟨(l.commit units).registry, (l.commit units).world⟩ q ∧
      p.Running E { l.commit units with registry := q.registry, world := q.world }
        loaded fetched ran' := by
  have hrest : l.registry.Resting := by
    intro n record hg he
    obtain ⟨ns, hs⟩ := h.evaluated hg
    simp [hs] at he
  have hrest' : (l.commit units).registry.Resting :=
    ((commit_settling l units).registers hrest).resting
  have hnil := h.missing_nil hw hn
  have hrun := h.commit_running hw
  have hev := Registry.evaluate_evaluated World.run hrest' (l.commit units).world name
  generalize (l.commit units).registry.evaluate World.run (l.commit units).world name = out at hev
  cases hev with
  | unknown hg => simp [Registry.has_eq_isSome, hg] at hn
  | missing hy => simp [hnil] at hy
  | @ok ns q _ hrows hns =>
    obtain ⟨ran', hran⟩ := hrun.rows hE h.ledger.nodup hrows
    exact ⟨ns, q, ran', rfl, hns, hrows, hran⟩
  | @fault e s path marked world' _ hrows _ hf =>
    exfalso
    cases hf with
    | missing hreach hg =>
      obtain ⟨x, hx, hreach⟩ := hreach
      rw [List.mem_singleton] at hx
      subst hx
      have hy := Registry.mem_missing_iff.2 ⟨hg, hreach⟩
      simp [hnil] at hy
    | cyclic hreach hc =>
      obtain ⟨y, hxy, -⟩ := TransGen.head'_iff.1 hc
      exact hac _ (h.dep_of_needs hw hc hxy)
    | body hready hfail =>
      obtain ⟨ran', hran⟩ := hrun.rows hE h.ledger.nodup hrows
      obtain ⟨ns, realm, hok, -⟩ := hran.run_ok hE hready
      simp [hok] at hfail

theorem Ledger.releases (h : p.Ledger l loaded fetched) (hr : Releases l l') (ha : Alike l l')
    (hp : ∀ n, l.pending.get? n ≠ none ∨ l.registry.has n = true →
      l'.pending.get? n ≠ none ∨ l'.registry.has n = true)
    (hj : ∃ events, l'.world.journal = events ++ l.world.journal ∧
      ∀ e ∈ events, e.began? = none ∧ e.asked? = none) : p.Ledger l' loaded fetched := by
  obtain ⟨events, hj, he⟩ := hj
  have hbegan : events.reverse.filterMap Event.began? = [] :=
    List.filterMap_eq_nil_iff.2 fun e hm => (he e (List.mem_reverse.1 hm)).1
  have hasked : events.reverse.filterMap Event.asked? = [] :=
    List.filterMap_eq_nil_iff.2 fun e hm => (he e (List.mem_reverse.1 hm)).2
  refine ⟨by rw [h.length, hr.loads], fun {i n} hn => ?_, h.nodup,
    fun n hn => hp n (h.placed n hn), h.once, h.mem, fun {i n} hn => ?_, ?_, ?_⟩
  · obtain ⟨hmem, hc⟩ := h.comes hn
    exact ⟨hmem, hc.mono ha (by rw [hr.loads])⟩
  · simp only [h.waits hn, Waits, hr.loads]
  · rw [hj, List.reverse_append, List.filterMap_append, hbegan, List.append_nil, h.began]
  · rw [hj, List.reverse_append, List.filterMap_append, hasked, List.append_nil, h.asked]

/-- Where the roots of an import come from: its module is not registered yet, or nothing is missing
below it. -/
def Rooted (l : Loader) (name : String) (roots : List String) : Prop :=
  roots = [name] ∨ roots = [] ∧ l.registry.has name = true

theorem Rooted.has_commit (h : Rooted l name roots) (hw : p.Whole l roots units) :
    (l.commit units).registry.has name = true := by
  rcases h with rfl | ⟨-, hr⟩
  · exact Loader.has_commit (hw.covers name (List.mem_singleton_self name))
  · exact has_commit_of_has hr units

/-- What an evaluated module needs by the plan is evaluated. -/
theorem Running.known_of_path (h : p.Running E l loaded fetched ran) {n : String}
    (hn : l.registry.known name ≠ none) (hp : ReflTransGen p.Dep name n) :
    l.registry.known n ≠ none := by
  induction hp with
  | refl => exact hn
  | tail _ hxy ih =>
    obtain ⟨hx, -, hy⟩ := hxy
    obtain ⟨d, hd, rfl⟩ := List.mem_map.1 hy
    exact h.closed _ ((h.mem_iff _).2 ⟨hx, ih⟩) d hd

/-- What the end of an import leaves. -/
structure Ends (p : Plan) (E : Realm → (String → Option Namespace) → Prop) (l l' : Loader)
    (loaded fetched : List String) (name : String) (ns : Namespace) : Prop where
  steady : ∃ ran, p.Steady E l' loaded fetched ran
  prospers : Prospers l l'
  known : l'.registry.known name = some ns

/-- An import that has all its units succeeds, and evaluates all of them. -/
theorem Steady.settles (h : p.Steady E l loaded fetched ran) (hE : p.Safe E)
    (hac : ∀ n, ¬ TransGen p.Dep n n) (hr : Rooted l name roots) (hw : p.Whole l roots units) :
    ∃ ns l', (l.commit units).settleImport name = (.settled (.ok (.exports ns)), l') ∧
      p.Ends E l l' loaded fetched name ns := by
  have hhas := hr.has_commit hw
  obtain ⟨ns, q, ran', hev, hns, hrows, hrun⟩ := h.evaluate hE hac hw hhas
  refine ⟨ns, { l.commit units with registry := q.registry, world := q.world }, ?_, ?_⟩
  · rw [settleImport, Loader.evaluate, hev]
    rfl
  · obtain ⟨halike, hfiles⟩ := commit_alike l units
    have hrel : Releases l { l.commit units with registry := q.registry, world := q.world } :=
      (commit_releases l units).trans ⟨rfl, id⟩
    have halike' : Alike l { l.commit units with registry := q.registry, world := q.world } :=
      halike.trans ⟨rfl, rfl, rfl, rfl⟩
    have hrec {n : String} (hn : (l.commit units).registry.has n = true) :
        q.registry.has n = true := by
      rw [Registry.has_eq_isSome, Option.isSome_iff_ne_none] at hn ⊢
      exact fun hq => hn ((Registry.rows_none hrows).1 hq)
    have hknown {n : String} {ns : Namespace} (hn : l.registry.known n = some ns) :
        q.registry.known n = some ns := by
      rw [← commit_known l units] at hn
      exact Registry.rows_namespace? hrows hn
    refine ⟨⟨ran', ?_, ?_, ?_, hrun, ?_⟩, ?_, hns⟩
    · refine h.keeps.releases hrel halike' hfiles
        (fun n hn => hrec (has_commit_of_has hn units)) fun n id hp => ?_
      by_cases hm : n ∈ units.map (·.name)
      · exact Or.inr (hrec (Loader.has_commit hm))
      · exact Or.inl (by simp [get?_commit, hm, hp])
    · exact h.stores.alike halike'
    · refine h.ledger.releases hrel halike' (fun n hn => ?_) ?_
      · by_cases hm : n ∈ units.map (·.name)
        · exact Or.inr (hrec (Loader.has_commit hm))
        · refine hn.imp (fun hp => ?_) fun hn => hrec (has_commit_of_has hn units)
          simpa [get?_commit, hm] using hp
      · obtain ⟨filed, hw', hf⟩ := commit_world l units
        obtain ⟨runs, hj, hq⟩ := rows_journal hrows
        refine ⟨runs ++ filed, ?_, fun e hm => ?_⟩
        · rw [hj, hw', List.append_assoc]
        · rcases List.mem_append.1 hm with hm | hm
          · obtain ⟨id, ok, rfl⟩ := hq e hm
            exact ⟨rfl, rfl⟩
          · obtain ⟨n, id, rfl⟩ := hf e hm
            exact ⟨rfl, rfl⟩
    · intro n record hg
      have hsome : q.registry.known n ≠ none := by
        have hc : (l.commit units).registry.has n = true := by
          obtain ⟨record', hg', -⟩ := Registry.rows_some hrows hg
          rw [Registry.has_eq_isSome, hg']
          rfl
        rcases has_of_commit hc with hn | hn
        · rw [Registry.has_eq_isSome, Option.isSome_iff_exists] at hn
          obtain ⟨record', hg'⟩ := hn
          obtain ⟨ns', hs⟩ := h.evaluated hg'
          rw [hknown (Registry.known_of_evaluated hg' hs)]
          simp
        · obtain ⟨u, hu, rfl⟩ := List.mem_map.1 hn
          obtain ⟨k, hk, hpath⟩ := hw.path u hu
          rcases hr with rfl | ⟨rfl, -⟩
          · rw [List.mem_singleton] at hk
            subst hk
            exact hrun.known_of_path (by rw [hns]; simp) hpath
          · exact absurd hk List.not_mem_nil
      have hslot := hsome
      simp only [Registry.known, hg, Option.bind_some, Record.namespace?] at hslot
      split at hslot
      · exact ⟨_, ‹_›⟩
      · exact absurd rfl hslot
    · refine ⟨halike', hrel.evolves, fun hc => ?_, fun id _ => ?_,
        fun hn => hrec (has_commit_of_has hn units), hknown⟩
      · exact hc.mono halike' (by rw [hrel.loads])
      · exact Nat.le_of_eq (rest_mono halike.stages hfiles (by rw [hrel.loads]))

end Steady

end Plan

end ModuleLoader

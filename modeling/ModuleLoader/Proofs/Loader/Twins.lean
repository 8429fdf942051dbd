import ModuleLoader.Proofs.Loader.Requested

/-! # Twins

Two loaders that load the same graph below roots of different names do the same, step by step, as
long as nobody requests either name: the units below the roots, and the failures, are the same.
-/

namespace ModuleLoader

/-! ## Gatherings side by side -/

namespace Gathering

variable {σ τ ε α : Type}

/-- A task does the same in related states and leaves them related, if it is one of those that are
meant. It stays one of them. -/
structure Parallel (R : σ → σ → Prop) (P : τ → Prop) (step : σ → τ → Progress τ ε α × σ) :
    Prop where
  same : ∀ {s s' t}, R s s' → P t → (step s' t).1 = (step s t).1
  related : ∀ {s s' t}, R s s' → P t → R (step s t).2 (step s' t).2
  going : ∀ {s t t'}, P t → (step s t).1 = .going t' → P t'

/-- Two turns of a gathering came to the same, and only tasks that are meant go on. -/
structure Level (R : σ → σ → Prop) (P : τ → Prop) (c c' : Except ε (Gathering τ ε α) × σ) :
    Prop where
  same : c'.1 = c.1
  related : R c.2 c'.2
  going : ∀ {g}, c.1 = .ok g → ∀ t ∈ g.running, P t.2

variable {R : σ → σ → Prop} {P : τ → Prop} {step : σ → τ → Progress τ ε α × σ}

theorem Parallel.eq (h : Parallel R P step) {s s' : σ} (hr : R s s') {t : τ} (ht : P t) :
    ∃ s₁, step s' t = ((step s t).1, s₁) ∧ R (step s t).2 s₁ :=
  ⟨(step s' t).2, Prod.ext (h.same hr ht) rfl, h.related hr ht⟩

theorem moveAll_level (h : Parallel R P step) {s s' : σ} (hr : R s s')
    (results : List (Option (Except ε α))) {running : List (Nat × τ)}
    (hp : ∀ t ∈ running, P t.2) :
    Level R P (moveAll step s results running) (moveAll step s' results running) := by
  induction running generalizing s s' results with
  | nil =>
    refine ⟨rfl, hr, ?_⟩
    rintro g hg t ht
    cases hg
    simp at ht
  | cons head rest ih =>
    obtain ⟨i, t⟩ := head
    have ht : P t := hp (i, t) (by simp)
    have hrest : ∀ c ∈ rest, P c.2 := fun c hc => hp c (by simp [hc])
    obtain ⟨s₁, he, hr'⟩ := h.eq hr ht
    have hgoing (t' : τ) : (step s t).1 = .going t' → P t' := h.going ht
    rcases hs : step s t with ⟨progress, s₂⟩
    rw [hs] at he hr' hgoing
    rw [moveAll, moveAll, hs, he]
    cases progress with
    | done result =>
      cases result with
      | error e => exact ⟨rfl, hr', by simp⟩
      | ok a => exact ih hr' _ hrest
    | going t' =>
      have hl := ih hr' results hrest
      constructor
      · simp only [hl.same]
      · exact hl.related
      · intro g hg c hc
        rcases hm : (moveAll step s₂ results rest).1 with e | g'
        · simp [hm, Except.map] at hg
        · simp only [hm, Except.map, Except.ok.injEq] at hg
          subst hg
          rcases List.mem_cons.1 hc with rfl | hc
          · exact hgoing t' rfl
          · exact hl.going hm c hc

theorem moveCrowd_level (h : Parallel R P step) (patience : Nat) {s s' : σ} (hr : R s s')
    (results : List (Option (Except ε α))) {running : List (Nat × τ)}
    (hp : ∀ t ∈ running, P t.2) :
    Level R P (moveCrowd step patience s results running)
      (moveCrowd step patience s' results running) := by
  fun_induction moveCrowd step patience s results running generalizing s' with
  | case1 s results patience i t rest t' s₂ hstep ih =>
    obtain ⟨s₁, he, hr'⟩ := h.eq hr (hp (i, t) (by simp))
    rw [hstep] at he hr'
    rw [moveCrowd, he]
    apply ih hr'
    intro c hc
    rcases List.mem_append.1 hc with hc | hc
    · exact hp c (by simp [hc])
    · rw [List.mem_singleton] at hc
      subst hc
      exact h.going (hp (i, t) (by simp)) (congrArg Prod.fst hstep)
  | case2 s results patience i t rest result s₂ hstep results' e =>
    rename_i hf
    obtain ⟨s₁, he, hr'⟩ := h.eq hr (hp (i, t) (by simp))
    rw [hstep] at he hr'
    rw [moveCrowd, he]
    simp only [results'] at hf
    simp only [hf]
    exact ⟨rfl, hr', by simp⟩
  | case3 s results patience i t rest result s₂ hstep results' hf =>
    rename_i ih
    obtain ⟨s₁, he, hr'⟩ := h.eq hr (hp (i, t) (by simp))
    rw [hstep] at he hr'
    rw [moveCrowd, he]
    simp only [results'] at hf ih ⊢
    simp only [hf]
    exact ih hr' fun c hc => hp c (by simp [hc])
  | case4 patience s results running hn =>
    rw [moveCrowd.eq_def]
    split
    · rename_i patience' i t rest
      exact (hn patience' i t rest rfl rfl).elim
    · refine ⟨rfl, hr, ?_⟩
      rintro g hg
      cases hg
      exact hp

theorem move_level (h : Parallel R P step) {s s' : σ} (hr : R s s') {g : Gathering τ ε α}
    (hp : ∀ t ∈ g.running, P t.2) : Level R P (g.move step s) (g.move step s') := by
  rw [move, move]
  split
  · exact moveAll_level h hr g.results hp
  · exact moveCrowd_level h _ hr g.results hp

end Gathering

namespace Loader

open Gathering Relation

/-! ## Twins -/

/-- Two loaders that agree, but for what is pending under two names, of which the second is free,
and for a load that no other name is pending with. -/
structure Twins (x y : String) (r : Nat) (l m : Loader) : Prop where
  options : m.options = l.options
  map : m.map = l.map
  stages : m.stages = l.stages
  files : m.files = l.files
  registry : m.registry = l.registry
  realm : m.world.realm = l.world.realm
  length : m.loads.length = l.loads.length
  lt : r < l.loads.length
  loads : ∀ {id : Nat}, id ≠ r → m.loads[id]? = l.loads[id]?
  pending : ∀ {n : String}, n ≠ x → n ≠ y → m.pending.get? n = l.pending.get? n
  apart : ∀ {n : String}, n ≠ x → n ≠ y → l.pending.get? n ≠ some r
  free : l.registry.get? y = none

section Steps

variable {x y : String} {r : Nat} {l m : Loader}

theorem Twins.alike (h : Twins x y r l m) : Alike l m :=
  ⟨h.options, h.map, h.stages, congrArg Files.text h.files⟩

theorem Twins.note (h : Twins x y r l m) (e e' : Event) : Twins x y r (l.note e) (m.note e') :=
  { h with }

theorem Twins.keep (h : Twins x y r l m) (maps maps' : SourceMap.Index) :
    Twins x y r { l with sourceMaps := maps } { m with sourceMaps := maps' } :=
  { h with }

theorem Twins.setLoad (h : Twins x y r l m) (id : Nat) (st : LoadState) :
    Twins x y r (l.setLoad id st) (m.setLoad id st) := by
  refine { h with length := ?_, lt := ?_, loads := ?_ }
  · simp only [Loader.setLoad, List.length_set]
    exact h.length
  · simp only [Loader.setLoad, List.length_set]
    exact h.lt
  · intro i hi
    simp only [Loader.setLoad, List.getElem?_set, h.length, h.loads hi]

theorem Twins.erase (h : Twins x y r l m) (name : String) :
    Twins x y r { l with pending := l.pending.erase name }
      { m with pending := m.pending.erase name } := by
  refine { h with pending := ?_, apart := ?_ }
  · intro n hx hy
    simp only [Dict.get?_erase, h.pending hx hy]
  · intro n hx hy
    simp only [Dict.get?_erase]
    split
    · simp
    · exact h.apart hx hy

theorem Twins.finish (h : Twins x y r l m) (id : Nat) (name : String)
    (result : Except LoadError LoadedUnit) :
    Twins x y r (l.finish id name result) (m.finish id name result) := by
  cases result with
  | ok u => exact h.setLoad id _
  | error e => exact (h.setLoad id _).erase name

theorem Twins.answer (h : Twins x y r l m) (id : Nat) (load : Load) (text : String) :
    (m.answer id load text).1 = (l.answer id load text).1 ∧
      Twins x y r (l.answer id load text).2 (m.answer id load text).2 := by
  obtain ⟨maps, hl⟩ := answer_eq l id load text
  obtain ⟨maps', hm⟩ := answer_eq m id load text
  rw [hl, hm, h.alike.linkSource]
  exact ⟨rfl, (h.keep maps maps').finish id _ _⟩

theorem Twins.receive (h : Twins x y r l m) (id : Nat) (load : Load) (address : String) :
    (m.receive id load address).1 = (l.receive id load address).1 ∧
      Twins x y r (l.receive id load address).2 (m.receive id load address).2 := by
  obtain ⟨maps, hl⟩ := receive_eq l id load address
  obtain ⟨maps', hm⟩ := receive_eq m id load address
  rw [hl, hm, h.alike.answered]
  exact ⟨rfl, (h.keep maps maps').finish id _ _⟩

theorem Twins.begin (h : Twins x y r l m) (id : Nat) (name : String) (metadata : Metadata) :
    (m.begin id name metadata).1 = (l.begin id name metadata).1 ∧
      Twins x y r (l.begin id name metadata).2 (m.begin id name metadata).2 := by
  have hn := h.note (.began name id) (.began name id)
  simp only [Loader.begin, hn.stages]
  split
  · rename_i e hp
    exact ⟨rfl, hn.finish id name (.error e)⟩
  · rename_i load text hp
    have ha := hn.answer id load text
    exact ⟨congrArg some ha.1, ha.2⟩
  · rename_i load address hp
    have hs := hn.note (.asked address) (.asked address)
    simp only [hs.files]
    split
    · exact ⟨rfl, hs.setLoad id _⟩
    · have ha := hs.receive id load address
      exact ⟨congrArg some ha.1, ha.2⟩

theorem Twins.move (h : Twins x y r l m) {id : Nat} (hid : id ≠ r) :
    (m.move id).1 = (l.move id).1 ∧ Twins x y r (l.move id).2 (m.move id).2 := by
  rw [Loader.move, Loader.move, h.loads hid]
  split
  · exact ⟨rfl, h⟩
  · exact ⟨rfl, h⟩
  · exact h.begin id _ _
  · exact ⟨rfl, h.setLoad id _⟩
  · rename_i load address hs
    have ha := h.receive id load address
    exact ⟨congrArg some ha.1, ha.2⟩

theorem moveLoad_parallel : Parallel (Twins x y r) (· ≠ r) moveLoad := by
  have hmove {l m : Loader} {id : Nat} (h : Twins x y r l m) (hid : id ≠ r) :
      (moveLoad m id).1 = (moveLoad l id).1 ∧ Twins x y r (moveLoad l id).2 (moveLoad m id).2 := by
    obtain ⟨hs, hr⟩ := h.move hid
    rcases hl : l.move id with ⟨result, l'⟩
    rcases hm : m.move id with ⟨result', m'⟩
    rw [hl, hm] at hs hr
    cases hs
    rw [moveLoad, moveLoad, hl, hm]
    cases result with
    | none => exact ⟨rfl, hr⟩
    | some result => exact ⟨rfl, hr⟩
  constructor
  · exact fun h hid => (hmove h hid).1
  · exact fun h hid => (hmove h hid).2
  · intro l id id' hid hg
    rw [moveLoad] at hg
    split at hg
    · cases hg
      exact hid
    · cases hg

theorem Twins.join (h : Twins x y r l m) {name : String} (hx : name ≠ x) (hy : name ≠ y)
    (metadata : Metadata) : (m.join name metadata).1 = (l.join name metadata).1 ∧
      (l.join name metadata).1 ≠ r ∧
      Twins x y r (l.join name metadata).2 (m.join name metadata).2 := by
  rw [Loader.join, Loader.join, h.pending hx hy]
  cases hp : l.pending.get? name with
  | some id =>
    refine ⟨rfl, ?_, h⟩
    rintro rfl
    exact h.apart hx hy hp
  | none =>
    refine ⟨h.length, h.lt.ne', ?_⟩
    refine { h with length := ?_, lt := ?_, loads := ?_, pending := ?_, apart := ?_ }
    · simp [h.length]
    · simpa using Nat.lt_succ_of_lt h.lt
    · intro i hi
      simp only [List.getElem?_append, h.length, h.loads hi]
    · intro n hnx hny
      simp only [Dict.get?_insert, h.length, h.pending hnx hny]
    · intro n hnx hny
      simp only [Dict.get?_insert]
      split
      · simpa using h.lt.ne'
      · exact h.apart hnx hny

/-- Two lists of names agree, but for two names. -/
def AgreeBut (x y : String) (names names' : List String) : Prop :=
  ∀ n, n ≠ x → n ≠ y → (n ∈ names' ↔ n ∈ names)

theorem Twins.wantAll (h : Twins x y r l m) (metadata : Metadata) {seen seen' : List String}
    (hs : AgreeBut x y seen seen') {dependencies : List Dependency}
    (hx : ∀ d ∈ dependencies, d.name ≠ x) (hy : ∀ d ∈ dependencies, d.name ≠ y) :
    (wantAll metadata m seen' dependencies).1 = (wantAll metadata l seen dependencies).1 ∧
      (∀ id ∈ (wantAll metadata l seen dependencies).1, id ≠ r) ∧
      AgreeBut x y (wantAll metadata l seen dependencies).2.1
        (wantAll metadata m seen' dependencies).2.1 ∧
      Twins x y r (wantAll metadata l seen dependencies).2.2
        (wantAll metadata m seen' dependencies).2.2 := by
  induction dependencies generalizing l m seen seen' with
  | nil => exact ⟨rfl, by simp [Loader.wantAll], hs, h⟩
  | cons d rest ih =>
    have hdx := hx d (by simp)
    have hdy := hy d (by simp)
    have hrestx : ∀ d ∈ rest, d.name ≠ x := fun d hd => hx d (by simp [hd])
    have hresty : ∀ d ∈ rest, d.name ≠ y := fun d hd => hy d (by simp [hd])
    have hseen : seen'.contains d.name = seen.contains d.name := by
      rw [Bool.eq_iff_iff, List.contains_iff_mem, List.contains_iff_mem]
      exact hs d.name hdx hdy
    rw [Loader.wantAll, Loader.wantAll, h.registry, hseen]
    split
    · exact ih h hs hrestx hresty
    · obtain ⟨hid, hne, hj⟩ := h.join hdx hdy metadata
      have hcons : AgreeBut x y (d.name :: seen) (d.name :: seen') := by
        intro n hnx hny
        simp only [List.mem_cons, hs n hnx hny]
      obtain ⟨hids, hall, hseen', ht⟩ := ih hj hcons hrestx hresty
      refine ⟨?_, ?_, hseen', ht⟩
      · simp only [hid, hids]
      · intro id hmem
        rcases List.mem_cons.1 hmem with rfl | hmem
        · exact hne
        · exact hall id hmem

theorem Twins.release (h : Twins x y r l m) {names names' : List String}
    (hs : AgreeBut x y names names') : Twins x y r (l.release names) (m.release names') := by
  refine { h with pending := ?_, apart := ?_ }
  · intro n hx hy
    rw [get?_release, get?_release, h.pending hx hy]
    cases hp : l.pending.get? n with
    | none => simp
    | some id =>
      have hid : id ≠ r := by
        rintro rfl
        exact h.apart hx hy hp
      have hf : m.isFinished id = l.isFinished id := by
        rw [isFinished, isFinished, h.loads hid]
      simp only [hs n hx hy, Option.filter_some, hf]
  · intro n hx hy
    rw [get?_release]
    split
    · intro hp
      exact h.apart hx hy (Option.filter_eq_some_iff.1 hp).1
    · exact h.apart hx hy

end Steps

/-! ## Graphs of twins -/

/-- The root of a module that is run apart, that of the definition of its source, and the mode that
the definition asks for. -/
structure Roots where
  first : LoadedUnit
  second : LoadedUnit
  mode : Option ModuleMode
  dependencies : second.dependencies = first.dependencies
  program : second.body.linked.program = first.body.linked.program

/-- Two graphs are loaded side by side below such roots, whose names nothing requests. -/
structure Paired (p : Roots) (t t' : GraphTask) (l m : Loader) : Prop where
  twins : Twins p.first.name p.second.name p.first.body.load l m
  sound : l.Sound
  knows : t.Sound l
  standard : l.Standard
  left : l.Unrequested p.first.name
  right : l.Unrequested p.second.name
  register : p.mode.getD l.options.mode = .register
  fresh : p.second.name ∉ t.seen
  root : t.graph.root = p.first
  root' : t'.graph.root = p.second
  metadata : t'.metadata = t.metadata
  below : t'.graph.below = t.graph.below
  seen : AgreeBut p.first.name p.second.name t.seen t'.seen
  frontier : t'.frontier = t.frontier
  running : ∀ c ∈ t.frontier.running, c.2 ≠ p.first.body.load

/-- Two such graphs have come equally far after a turn. -/
inductive Abreast (p : Roots) :
    Progress GraphTask LoadError Graph × Loader → Progress GraphTask LoadError Graph × Loader →
    Prop where
  | going {t t' : GraphTask} {l m : Loader} :
      Paired p t t' l m → Abreast p (.going t, l) (.going t', m)
  | failed {e : LoadError} {l m : Loader} :
      Twins p.first.name p.second.name p.first.body.load l m →
      Abreast p (.done (.error e), l) (.done (.error e), m)
  | loaded {t t' : GraphTask} {l m : Loader} :
      Paired p t t' l m → Abreast p (.done (.ok t.graph), l) (.done (.ok t'.graph), m)

section Graphs

variable {p : Roots} {t t' : GraphTask} {l m : Loader}

/-- The first of two graphs is elsewhere after some steps, and the second has kept up. -/
theorem Paired.steps (h : Paired p t t' l m) {s s' : GraphTask} {l' m' : Loader}
    (hsteps : ReflTransGen GraphStep (t, l) (s, l'))
    (ht : Twins p.first.name p.second.name p.first.body.load l' m')
    (hfresh : p.second.name ∉ s.seen)
    (hroot : s'.graph.root = t'.graph.root) (hmetadata : s'.metadata = s.metadata)
    (hbelow : s'.graph.below = s.graph.below)
    (hseen : AgreeBut p.first.name p.second.name s.seen s'.seen)
    (hfrontier : s'.frontier = s.frontier)
    (hrunning : ∀ c ∈ s.frontier.running, c.2 ≠ p.first.body.load) :
    Paired p s s' l' m' := by
  have hinv : l'.Sound ∧ s.Sound l' ∧ l'.Standard ∧ l'.Unrequested p.first.name ∧
      l'.Unrequested p.second.name ∧ l'.options = l.options ∧ s.graph.root = p.first := by
    generalize hc : (s, l') = c at hsteps
    clear hfresh hmetadata hbelow hseen hfrontier hrunning ht
    induction hsteps generalizing s l' with
    | refl =>
      cases hc
      exact ⟨h.sound, h.knows, h.standard, h.left, h.right, rfl, h.root⟩
    | @tail d e _ hstep ih =>
      subst hc
      obtain ⟨hl, hs, hstandard, hx, hy, ho, hr⟩ := ih rfl
      obtain ⟨hr', hs', hholds⟩ := graphStep_spec hstep hl hs
      exact ⟨hholds.grows.sound hl, hs', hholds.grows.alike.standard hstandard,
        hx.graphStep hstandard hl hs hstep, hy.graphStep hstandard hl hs hstep,
        hholds.grows.alike.options.trans ho, hr'.trans hr⟩
  obtain ⟨hl, hs, hstandard, hx, hy, ho, hr⟩ := hinv
  exact ⟨ht, hl, hs, hstandard, hx, hy, ho ▸ h.register, hfresh, hr, hroot.trans h.root',
    hmetadata, hbelow, hseen, hfrontier, hrunning⟩

theorem not_mem_wantAll {y : String} {metadata : Metadata} {seen : List String}
    {dependencies : List Dependency} (hs : y ∉ seen) (hd : ∀ d ∈ dependencies, d.name ≠ y) :
    y ∉ (wantAll metadata l seen dependencies).2.1 := by
  intro hy
  rcases (wantAll_wanted metadata l seen dependencies).of_seen y hy with hy | ⟨-, hy, -⟩
  · exact hs hy
  · obtain ⟨d, hmem, hn⟩ := List.mem_map.1 hy
    exact hd d hmem hn

theorem mem_running_ofTasks {τ ε α : Type} {tasks : List τ} {c : Nat × τ}
    (h : c ∈ (Gathering.ofTasks tasks : Gathering τ ε α).running) : c.2 ∈ tasks := by
  rw [← Gathering.tasks_ofTasks (ε := ε) (α := α) tasks]
  exact List.mem_map_of_mem h

theorem Paired.expand (h : Paired p t t' l m) {units : List LoadedUnit}
    (hv : t.frontier.values? = some units) (hn : units ≠ []) :
    Paired p (l.expand t units).1 (m.expand t' units).1 (l.expand t units).2
      (m.expand t' units).2 := by
  have hshun {n : String} (hn : l.Unrequested n) :
      ∀ d ∈ units.flatMap (·.dependencies), d.name ≠ n := by
    intro d hd
    obtain ⟨w, hw, hd⟩ := List.mem_flatMap.1 hd
    have hmem : w ∈ t.units := by
      rw [GraphTask.units, Gathering.values_of_values? hv]
      exact List.mem_append_right _ hw
    exact hn.units (h.knows.arrived w hmem) d hd
  obtain ⟨hids, hne, hseen, htwins⟩ :=
    h.twins.wantAll t.metadata h.seen (hshun h.left) (hshun h.right)
  have hstep : GraphStep (t, l) (l.expand t units) := .expand hv hn rfl
  have hsecond : m.expand t' units =
      ({ t' with
          graph := { t'.graph with below := t'.graph.below ++ units }
          seen := (wantAll t.metadata m t'.seen (units.flatMap (·.dependencies))).2.1
          frontier := .ofTasks (wantAll t.metadata m t'.seen (units.flatMap (·.dependencies))).1 },
        (wantAll t.metadata m t'.seen (units.flatMap (·.dependencies))).2.2) := by
    rw [Loader.expand, h.metadata]
  rw [hsecond]
  refine h.steps (.single hstep) htwins ?_ rfl h.metadata ?_ hseen (congrArg Gathering.ofTasks hids)
    fun c hc => hne c.2 (mem_running_ofTasks hc)
  · exact not_mem_wantAll h.fresh (hshun h.right)
  · exact congrArg (· ++ units) h.below

/-- Two graphs that go side by side are equally far after every turn. -/
theorem Paired.moveGraph (h : Paired p t t' l m) (budget : Nat) :
    Abreast p (moveGraph budget l t) (moveGraph budget m t') := by
  induction budget generalizing t t' l m with
  | zero => exact .going h
  | succ budget ih =>
    have hlevel := move_level moveLoad_parallel h.twins h.running
    rw [Loader.moveGraph, Loader.moveGraph, h.frontier]
    rcases hl : t.frontier.move moveLoad l with ⟨result, l'⟩
    rcases hm : t.frontier.move moveLoad m with ⟨result', m'⟩
    rw [hl, hm] at hlevel
    obtain rfl : result' = result := hlevel.same
    cases result' with
    | error e => exact .failed (hlevel.related.release h.seen)
    | ok frontier =>
      have hpair : Paired p { t with frontier := frontier } { t' with frontier := frontier }
          l' m' :=
        h.steps (reflTransGen_of_move hl) hlevel.related h.fresh rfl h.metadata h.below h.seen rfl
          (hlevel.going rfl)
      simp only
      split
      · exact .going hpair
      · have hloaded := Abreast.loaded hpair
        exact hloaded
      · rename_i units hn hv
        exact ih (hpair.expand hv hn)

end Graphs

end Loader

end ModuleLoader

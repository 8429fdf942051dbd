import ModuleLoader.Proofs.Loader.ModuleGraphs
import ModuleLoader.Proofs.Session.Basic

/-! # Imports side by side

Modules of a complete graph without cycles are imported side by side, in any order of turns that
forgets no request. All imports succeed, each module that is needed is loaded once, and its body
runs once, after the bodies of its dependencies.
-/

namespace ModuleLoader

open Loader Dialect Relation

namespace Plan

variable {p : Plan} {E : Realm → (String → Option Namespace) → Prop} {l l' : Loader}
  {name : String} {a a' : Activity}

/-- An import of a name is on its way, or it was answered with the namespace of the module. -/
def Answers (p : Plan) (l : Loader) (name : String) (a : Activity) : Prop :=
  (∃ roots, Rooted l name roots ∧ p.RequestGoes l name roots a) ∨
    ∃ ns, a = .settled (.ok (.exports ns)) ∧ l.registry.known name = some ns

theorem Rooted.mono {roots : List String} (h : Rooted l name roots)
    (hr : ∀ {n}, l.registry.has n = true → l'.registry.has n = true) : Rooted l' name roots :=
  h.imp_right fun ⟨hn, hreg⟩ => ⟨hn, hr hreg⟩

theorem Rooted.length_le {roots : List String} (h : Rooted l name roots) : roots.length ≤ 1 := by
  rcases h with rfl | ⟨rfl, -⟩
  · exact Nat.le_refl 1
  · exact Nat.zero_le 1

/-- An import that has not begun will find its module registered or planned. -/
theorem answers_delayed {loaded fetched ran : List String}
    (h : p.Steady E l loaded fetched ran) (hn : l.registry.has name = true ∨ name ∈ p.names)
    {turns : Nat} {request : Request} {specifier : String}
    (hd : request.demand = .importModule specifier)
    (hname : l.nameOf specifier request.options.referrer = .ok name)
    (hm : l.metadataOf request.options = p.metadata) :
    p.Answers l name (.delayed turns request) := by
  cases hg : l.registry.get? name with
  | some record =>
    obtain ⟨ns, hs⟩ := h.evaluated hg
    have hnil := Registry.missing_of_evaluated hg hs
    have hhas : l.registry.has name = true := by rw [Registry.has_eq_isSome, hg]; rfl
    exact Or.inl ⟨[], Or.inr ⟨rfl, hhas⟩,
      Or.inl ⟨specifier, hd, hname, hm, hnil.symm, fun k hk => absurd hk List.not_mem_nil⟩⟩
  | none =>
    have hone : l.registry.missing name = [name] := by rw [Registry.missing, hg]
    have hmem : name ∈ p.names := hn.resolve_left fun hr => by
      simp [Registry.has_eq_isSome, hg] at hr
    refine Or.inl ⟨[name], Or.inl rfl, Or.inl ⟨specifier, hd, hname, hm, hone.symm, ?_⟩⟩
    exact fun k hk => List.mem_singleton.1 hk ▸ hmem

/-- The steps of other imports do not disturb an import, and do not add to its toil. -/
theorem Answers.mono {loaded fetched ran : List String} (ha : p.Answers l name a)
    (h : p.Steady E l' loaded fetched ran) (hn : l.registry.has name = true ∨ name ∈ p.names)
    (hp : Prospers l l') :
    p.Answers l' name a ∧ p.requestToil l' 1 a ≤ p.requestToil l 1 a := by
  rcases ha with ⟨roots, hr, hw | hf⟩ | ⟨ns, rfl, hk⟩
  · cases a with
    | delayed turns request =>
      obtain ⟨specifier, hd, hname, hm, -, -⟩ := hw
      refine ⟨answers_delayed h (hn.imp_left hp.has) hd ?_ ?_, Nat.le_refl _⟩
      · rw [hp.alike.nameOf, hname]
      · rw [← hm, metadataOf, metadataOf, hp.alike.options]
    | _ => exact hw.elim
  · exact ⟨Or.inl ⟨roots, hr.mono hp.has, Or.inr (hf.mono hp.evolves hp.comes hp.has)⟩,
      requestToil_le hp.rest hf⟩
  · exact ⟨Or.inr ⟨ns, rfl, hp.known hk⟩, Nat.le_refl _⟩

/-- Every step of an import brings it closer to its answer. -/
theorem Answers.advance {loaded fetched ran : List String} (ha : p.Answers l name a)
    (h : p.Steady E l loaded fetched ran) (hE : p.Safe E) (hac : ∀ n, ¬ TransGen p.Dep n n)
    (hs : Advance (a, l) (a', l')) :
    (∃ loaded' fetched' ran', p.Steady E l' loaded' fetched' ran') ∧ Prospers l l' ∧
      p.Answers l' name a' ∧ p.requestToil l' 1 a' < p.requestToil l 1 a := by
  rcases ha with ⟨roots, hr, hg⟩ | ⟨ns, rfl, -⟩
  · rcases advance_goes h.keeps hg hr.length_le hs with ⟨hk, hp, hg', ht⟩ | ⟨units, hw, he⟩
    · obtain ⟨loaded', fetched', h'⟩ := h.proceeds hp
      have hpr := hp.prospers
      exact ⟨⟨loaded', fetched', ran, h'⟩, hpr, Or.inl ⟨roots, hr.mono hpr.has, hg'⟩, ht⟩
    · obtain ⟨ns, m, hm, hends⟩ := h.settles hE hac hr hw
      rw [hm] at he
      simp only [Prod.mk.injEq] at he
      obtain ⟨rfl, rfl⟩ := he
      obtain ⟨ran', h'⟩ := hends.steady
      refine ⟨⟨loaded, fetched, ran', h'⟩, hends.prospers, Or.inr ⟨ns, rfl, hends.known⟩, ?_⟩
      rcases hg with hg | hg <;> cases a <;> first | exact hg.elim | exact Nat.succ_pos _
  · exact absurd hs not_advance_settled

/-- Every turn does. -/
theorem Answers.turn {loaded fetched ran : List String} (ha : p.Answers l name a)
    (h : p.Steady E l loaded fetched ran) (hE : p.Safe E) (hac : ∀ n, ¬ TransGen p.Dep n n)
    (budget : Nat) (hns : a.isSettled = false) :
    (∃ loaded' fetched' ran',
      p.Steady E (turn (budget + 1) l a).2 loaded' fetched' ran') ∧
      Prospers l (turn (budget + 1) l a).2 ∧
      p.Answers (turn (budget + 1) l a).2 name (turn (budget + 1) l a).1 ∧
      p.requestToil (turn (budget + 1) l a).2 1 (turn (budget + 1) l a).1 <
        p.requestToil l 1 a := by
  have ht := turn_advances budget l hns
  generalize Loader.turn (budget + 1) l a = c at ht
  induction ht with
  | single hs => exact ha.advance h hE hac hs
  | tail _ hs ih =>
    obtain ⟨⟨loaded', fetched', ran', h'⟩, hp, ha', hlt⟩ := ih
    obtain ⟨h'', hp', ha'', hlt'⟩ := ha'.advance h' hE hac hs
    exact ⟨h'', hp.trans hp', ha'', hlt'.trans hlt⟩

end Plan

namespace Session

/-! ## Turns of imports -/

/-- Imports of names go by a plan, each with its request. -/
structure Planned (p : Plan) (E : Realm → (String → Option Namespace) → Prop)
    (names : List String) (s : Session) : Prop where
  steady : ∃ loaded fetched ran, p.Steady E s.loader loaded fetched ran
  length : s.activities.length = names.length
  provided : ∀ n ∈ names, s.loader.registry.has n = true ∨ n ∈ p.names
  answers : ∀ {i : Nat} {n a}, names[i]? = some n → s.activities[i]? = some a → p.Answers s.loader n a

/-- A bound for the turns that the request with a number has yet to take. -/
def toil (p : Plan) (s : Session) (i : Nat) : Nat :=
  (s.activities[i]?.map (p.requestToil s.loader 1)).getD 0

/-- The request with a number is settled, if there is one. -/
def Settled (s : Session) (i : Nat) : Prop := ∀ a, s.activities[i]? = some a → a.isSettled = true

section Turns

variable {p : Plan} {E : Realm → (String → Option Namespace) → Prop} {names : List String}
  {s : Session} {i j : Nat} {a : Activity}

theorem toil_eq (h : s.activities[i]? = some a) : s.toil p i = p.requestToil s.loader 1 a := by
  rw [toil, h]
  rfl

theorem takeTurn_settled {budget : Nat} (h : s.Settled i) : s.takeTurn budget i = s := by
  cases ha : s.activities[i]? with
  | none => exact takeTurn_none ha
  | some a => exact takeTurn_of_settled ha (h a ha)

/-- A request that is settled stays so. -/
theorem Settled.takeTurn {budget : Nat} (h : s.Settled j) (i : Nat) :
    (s.takeTurn budget i).Settled j := by
  by_cases hij : i = j
  · subst hij
    rwa [takeTurn_settled h]
  · cases ha : s.activities[i]? with
    | none => rwa [takeTurn_none ha]
    | some a =>
      rw [takeTurn_eq ha]
      intro b hb
      rw [List.getElem?_set_ne hij] at hb
      exact h b hb

/-- A turn keeps the order of imports. It brings its request closer to its end, and no request
farther from it. -/
theorem Planned.takeTurn (h : s.Planned p E names) (hE : p.Safe E)
    (hac : ∀ n, ¬ TransGen p.Dep n n) (budget i : Nat) :
    (s.takeTurn (budget + 1) i).Planned p E names ∧
      (∀ j, (s.takeTurn (budget + 1) i).toil p j ≤ s.toil p j) ∧
      (s.Settled i ∨ (s.takeTurn (budget + 1) i).toil p i < s.toil p i) := by
  by_cases hset : s.Settled i
  · rw [takeTurn_settled hset]
    exact ⟨h, fun _ => Nat.le_refl _, Or.inl hset⟩
  simp only [Settled, not_forall, Bool.not_eq_true] at hset
  obtain ⟨a, ha, hns⟩ := hset
  obtain ⟨hi, -⟩ := List.getElem?_eq_some_iff.1 ha
  obtain ⟨n, hn⟩ : ∃ n, names[i]? = some n :=
    ⟨_, List.getElem?_eq_getElem (h.length ▸ hi)⟩
  obtain ⟨loaded, fetched, ran, hsteady⟩ := h.steady
  obtain ⟨hsteady', hp, hanswers, hlt⟩ := (h.answers hn ha).turn hsteady hE hac budget hns
  obtain ⟨loaded', fetched', ran', hst⟩ := id hsteady'
  rw [takeTurn_eq ha]
  generalize Loader.turn (budget + 1) s.loader a = c at *
  have hself : (s.activities.set i c.1)[i]? = some c.1 := List.getElem?_set_self hi
  have hother {j : Nat} {m : String} {b : Activity} (hj : i ≠ j) (hm : names[j]? = some m)
      (hb : s.activities[j]? = some b) : p.Answers c.2 m b ∧
        p.requestToil c.2 1 b ≤ p.requestToil s.loader 1 b :=
    (h.answers hm hb).mono hst (h.provided m (List.mem_of_getElem? hm)) hp
  refine ⟨⟨hsteady', by simp [h.length], ?_, ?_⟩, ?_, Or.inr ?_⟩
  · exact fun m hm => (h.provided m hm).imp_left hp.has
  · intro j m b hm hb
    by_cases hij : i = j
    · subst hij
      rw [hself, Option.some.injEq] at hb
      rw [hn, Option.some.injEq] at hm
      exact hm ▸ hb ▸ hanswers
    · rw [List.getElem?_set_ne hij] at hb
      exact (hother hij hm hb).1
  · intro j
    by_cases hij : i = j
    · subst hij
      rw [toil_eq hself, toil_eq ha]
      exact Nat.le_of_lt hlt
    · cases hb : s.activities[j]? with
      | none => simp [toil, List.getElem?_set_ne hij, hb]
      | some b =>
        obtain ⟨hj, -⟩ := List.getElem?_eq_some_iff.1 hb
        obtain ⟨m, hm⟩ : ∃ m, names[j]? = some m :=
          ⟨_, List.getElem?_eq_getElem (h.length ▸ hj)⟩
        rw [toil_eq hb, toil_eq ((List.getElem?_set_ne hij).trans hb)]
        exact (hother hij hm hb).2
  · rw [toil_eq hself, toil_eq ha]
    exact hlt

/-- The same holds of turns in any order: each counts for its request until that is settled. -/
theorem Planned.turns (h : s.Planned p E names) (hE : p.Safe E)
    (hac : ∀ n, ¬ TransGen p.Dep n n) (budget : Nat) (turns : List Nat) :
    (s.play (budget + 1) (turns.map .turn)).Planned p E names ∧
      ∀ i, (s.play (budget + 1) (turns.map .turn)).Settled i ∨
        (s.play (budget + 1) (turns.map .turn)).toil p i + turns.count i ≤ s.toil p i := by
  induction turns using List.reverseRecOn with
  | nil => exact ⟨h, fun i => Or.inr (Nat.le_refl _)⟩
  | append_singleton turns j ih =>
    obtain ⟨ho, ht⟩ := ih
    rw [List.map_append, play_append]
    generalize s.play (budget + 1) (turns.map .turn) = m at ho ht
    obtain ⟨ho', hle, hlt⟩ := ho.takeTurn hE hac budget j
    refine ⟨ho', fun i => ?_⟩
    change (m.takeTurn (budget + 1) j).Settled i ∨
      (m.takeTurn (budget + 1) j).toil p i + _ ≤ _
    rcases ht i with hs | hc
    · exact Or.inl (hs.takeTurn j)
    · by_cases hij : i = j
      · subst hij
        rcases hlt with hs | hlt
        · exact Or.inl (hs.takeTurn i)
        · refine Or.inr ?_
          rw [List.count_append, List.count_singleton_self]
          omega
      · refine Or.inr ?_
        have hi := hle i
        rw [List.count_append, List.count_singleton, if_neg (by simpa using Ne.symm hij)]
        omega

end Turns

/-! ## Imports of a graph -/

/-- Imports by specifier, each after some turns of delay, that are made of a loader and then take
their turns in some order. -/
def ofImports (budget : Nat) (l : Loader) (options : RequestOptions)
    (requests : List (Nat × String)) (turns : List Nat) : Session :=
  (start l).play budget
    (requests.map (fun r => .request r.1 ⟨.importModule r.2, options⟩) ++ turns.map .turn)

/-- How the imports of some names go. The journal tells that modules were fetched, which are wanted,
each by one load that asks the files once. It tells that bodies have run without a failure, each
once and after those that it depends on. Imports that are settled have answered with what is
registered under their names. -/
structure Chronicle {l : Loader} {metadata : Metadata} (g : ModuleGraph l metadata)
    (roots : List String) (s : Session) (load : String → Nat) (fetched ran : List String) :
    Prop where
  wanted : ∀ n ∈ fetched, g.Wanted roots n
  serves : ∀ n ∈ fetched, s.loader.Serves (load n) n
  fetched_once : fetched.Nodup
  began : s.loader.world.journal.reverse.filterMap Event.began? =
    fetched.map fun n => (n, load n)
  asked : (s.loader.world.journal.reverse.filterMap Event.asked?).map some =
    fetched.map fun n => (g.unit n).address
  ran_fetched : ∀ n ∈ ran, n ∈ fetched
  ran_once : ran.Nodup
  tells : s.loader.world.journal.reverse.filterMap Event.ran? = ran.map fun n => (load n, true)
  order : ∀ n ∈ ran, ∀ d ∈ (g.unit n).dependencies, d.name ∈ g.names →
    ran.idxOf d.name < ran.idxOf n
  answered : ∀ {i : Nat} {n a}, roots[i]? = some n → s.activities[i]? = some a →
    a.isSettled = true → ∃ ns, a = .settled (.ok (.exports ns)) ∧
      s.loader.registry.known n = some ns

section Imports

variable {l : Loader} {metadata : Metadata} {g : ModuleGraph l metadata} {roots : List String}
  {s : Session}

/-- Imports that go by the plan of a graph are a chronicle. When all are settled, all modules that
are wanted have run. -/
theorem Planned.chronicle
    (h : s.Planned (g.plan roots) (Execution l g.names g.unit) roots) :
    ∃ load fetched ran, Chronicle g roots s load fetched ran ∧
      (s.Quiet → ∀ n, g.Wanted roots n → n ∈ ran) := by
  obtain ⟨loaded, fetched, ran, -, -, hledger, hrun, -⟩ := h.steady
  have hserves {n : String} (hn : n ∈ fetched) :
      g.Wanted roots n ∧ s.loader.Serves (loaded.idxOf n) n := by
    obtain ⟨hmem, hc⟩ := hledger.comes (List.getElem?_idxOf (hledger.mem n hn))
    have hs := hc.serves
    rw [(g.plan roots).named n hmem] at hs
    exact ⟨ModuleGraph.mem_plan_iff.1 hmem, hs⟩
  have hanswered {i : Nat} {n : String} {a : Activity} (hn : roots[i]? = some n)
      (ha : s.activities[i]? = some a) (hset : a.isSettled = true) :
      ∃ ns, a = .settled (.ok (.exports ns)) ∧ s.loader.registry.known n = some ns := by
    rcases h.answers hn ha with ⟨_, -, hg⟩ | hs
    · rcases hg with hg | hg <;> cases a <;> first | exact hg.elim | simp [Activity.isSettled] at hset
    · exact hs
  refine ⟨loaded.idxOf, fetched, ran, ⟨fun n hn => (hserves hn).1, fun n hn => (hserves hn).2,
    hledger.once, hledger.began, hledger.asked, hrun.subset, hrun.once, hrun.tells, ?_,
    hanswered⟩, ?_⟩
  · intro n hn d hd hdn
    have hw := ModuleGraph.mem_plan_iff.1 ((hrun.mem_iff n).1 hn).1
    refine hrun.order n hn d hd (ModuleGraph.mem_plan_iff.2 (hw.depends ?_))
    exact ⟨hw.1, hdn, List.mem_map_of_mem hd⟩
  · intro hq n hn
    obtain ⟨r, hr, hp⟩ := ModuleGraph.plan_path hn
    obtain ⟨i, hi, hri⟩ := List.getElem_of_mem hr
    have hlt : i < s.activities.length := h.length ▸ hi
    obtain ⟨ns, -, hk⟩ := hanswered (List.getElem?_eq_some_iff.2 ⟨hi, hri⟩)
      (List.getElem?_eq_getElem hlt) (hq _ (List.getElem_mem hlt))
    refine (hrun.mem_iff n).2 ⟨ModuleGraph.mem_plan_iff.2 hn, ?_⟩
    exact hrun.known_of_path (by simp [hk]) hp

/-- Imports that were just made of a fresh loader go by the plan of the graph. -/
theorem planned_imports {options : RequestOptions} {g : ModuleGraph l (l.metadataOf options)}
    {name : String → String} {requests : List (Nat × String)} (hl : l.Fresh)
    (hn : ∀ r ∈ requests, l.nameOf r.2 options.referrer = .ok (name r.2) ∧
      g.Provides (name r.2)) :
    (Session.mk l (requests.map fun r => .delayed r.1 ⟨.importModule r.2, options⟩)).Planned
      (g.plan (requests.map (name ·.2))) (Execution l g.names g.unit)
      (requests.map (name ·.2)) := by
  have hs : (g.plan (requests.map (name ·.2))).Steady (Execution l g.names g.unit) l [] [] [] :=
    ModuleGraph.plan_steady hl
  have hprovided : ∀ r ∈ requests, l.registry.has (name r.2) = true ∨
      name r.2 ∈ (g.plan (requests.map (name ·.2))).names := by
    intro r hr
    refine (hn r hr).2.symm.imp_right fun hg => ModuleGraph.mem_plan_iff.2 ⟨hg, name r.2, ?_, .refl⟩
    exact List.mem_map_of_mem (f := fun r : Nat × String => name r.2) hr
  refine ⟨⟨[], [], [], hs⟩, by simp, ?_, ?_⟩
  · intro n hm
    obtain ⟨r, hr, rfl⟩ := List.mem_map.1 hm
    exact hprovided r hr
  · intro i n a hi ha
    rw [List.getElem?_map, Option.map_eq_some_iff] at hi ha
    obtain ⟨r, hr, rfl⟩ := hi
    obtain ⟨r', hr', rfl⟩ := ha
    obtain rfl : r = r' := Option.some.inj (hr.symm.trans hr')
    have hmem := List.mem_of_getElem? hr
    exact Plan.answers_delayed hs (hprovided r hmem) rfl (hn r hmem).1 rfl

end Imports

/-- Imports of a graph of modules succeed, in whatever order they take turns, each within a bounded
number of its own turns. Each module that is wanted is fetched once, and its body runs once, after
those that it depends on. Imports of the same name get the same namespace. -/
theorem imports_succeed {options : Options} {extension : String} {compiler : Option Compiler}
    {files : Files} {reporter : Reporter} {realm : Realm} {l : Loader}
    (hl : Loader.build options (.standard extension compiler) files reporter realm = .ok l)
    {ropts : RequestOptions} (g : ModuleGraph l (l.metadataOf ropts)) (name : String → String)
    {requests : List (Nat × String)}
    (hn : ∀ r ∈ requests, l.nameOf r.2 ropts.referrer = .ok (name r.2) ∧
      g.Provides (name r.2)) (budget : Nat) :
    ∃ bound, ∀ turns : List Nat, ∃ load fetched ran,
      Chronicle g (requests.map (name ·.2)) (ofImports (budget + 1) l ropts requests turns)
        load fetched ran ∧
      ((∀ i < requests.length, bound ≤ turns.count i) →
        (ofImports (budget + 1) l ropts requests turns).activities.length = requests.length ∧
        (ofImports (budget + 1) l ropts requests turns).Quiet ∧
        ∀ n, g.Wanted (requests.map (name ·.2)) n → n ∈ ran) := by
  have hs := planned_imports (fresh_build hl) hn
  have hplay (turns : List Nat) : ofImports (budget + 1) l ropts requests turns =
      (Session.mk l (requests.map fun r => .delayed r.1 ⟨.importModule r.2, ropts⟩)).play
        (budget + 1) (turns.map .turn) := by
    have hreq := play_requests (budget + 1) (start l)
      (requests.map fun r => (r.1, ⟨.importModule r.2, ropts⟩))
    simp only [List.map_map, Function.comp_def] at hreq
    rw [ofImports, play_append, hreq]
    rfl
  generalize Session.mk l (requests.map fun r => .delayed r.1 ⟨.importModule r.2, ropts⟩) = s
    at hs hplay
  let p := g.plan (requests.map (name ·.2))
  refine ⟨(Finset.range requests.length).sup (s.toil p) + 1, fun turns => ?_⟩
  obtain ⟨ho, ht⟩ := hs.turns ModuleGraph.plan_safe ModuleGraph.plan_acyclic budget turns
  rw [hplay]
  generalize s.play (budget + 1) (turns.map .turn) = t at ho ht
  obtain ⟨load, fetched, ran, hc, hran⟩ := ho.chronicle
  refine ⟨load, fetched, ran, hc, fun hcount => ?_⟩
  have hlen : t.activities.length = requests.length := by simp [ho.length]
  have hq : t.Quiet := by
    intro a ha
    obtain ⟨i, hi, rfl⟩ := List.getElem_of_mem ha
    rcases ht i with hset | hle
    · exact hset _ (List.getElem?_eq_getElem hi)
    · have hlt : i < requests.length := hlen ▸ hi
      have hsup := Finset.le_sup (f := s.toil p) (Finset.mem_range.2 hlt)
      have hturns := hcount i hlt
      have hle : t.toil p i + turns.count i ≤ s.toil p i := hle
      omega
  exact ⟨hlen, hq, hran hq⟩

/-- Files of two modules that need the same one. -/
def commonFiles : List (String × String) :=
  [("a.js", "import {c} from 'c';\nexport var a = c;"),
    ("b.js", "import {c} from 'c';\nexport var b = c;"), ("c.js", "export var c = 'c';")]

/-- The graph of these modules. -/
def commonGraph : ModuleGraph (ofFiles 2 commonFiles)
    ((ofFiles 2 commonFiles).metadataOf .none) :=
  .ofOrder _ _ ["c", "a", "b"]
    [[], ["c"], ["a", "c"], ["b", "c"], ["b", "a", "c"], ["a", "b", "c"]]
    (by decide +kernel) (by decide +kernel) (by decide +kernel) (by decide +kernel)
    (by decide +kernel)

/-- Imports of these modules, some of the same one, some after a delay. -/
def commonRequests : List (Nat × String) := [(0, "a"), (1, "b"), (0, "a"), (3, "c")]

theorem commonRequests_provided : ∀ r ∈ commonRequests,
    (ofFiles 2 commonFiles).nameOf r.2 RequestOptions.none.referrer = .ok r.2 ∧
      commonGraph.Provides r.2 := by
  have hn : ∀ r ∈ commonRequests, ((ofFiles 2 commonFiles).nameOf r.2
      RequestOptions.none.referrer).toOption = some r.2 ∧ r.2 ∈ ["c", "a", "b"] := by
    decide +kernel
  intro r hr
  obtain ⟨ho, hm⟩ := hn r hr
  exact ⟨toOption_eq_some_iff.1 ho, Or.inl (List.mem_toFinset.2 hm)⟩

theorem imports_succeed_common :
    ∃ bound, ∀ turns : List Nat, ∃ load fetched ran,
      Chronicle commonGraph ["a", "b", "a", "c"]
        (ofImports 10 (ofFiles 2 commonFiles) .none commonRequests turns) load fetched ran ∧
      ((∀ i < 4, bound ≤ turns.count i) →
        (ofImports 10 (ofFiles 2 commonFiles) .none commonRequests turns).activities.length = 4 ∧
        (ofImports 10 (ofFiles 2 commonFiles) .none commonRequests turns).Quiet ∧
        ∀ n, commonGraph.Wanted ["a", "b", "a", "c"] n → n ∈ ran) :=
  imports_succeed (build_ofFiles 2 commonFiles) commonGraph id commonRequests_provided 9

end Session

end ModuleLoader

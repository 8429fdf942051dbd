import Mathlib.Data.Finset.Lattice.Fold
import Mathlib.Data.Set.Finite.Basic
import ModuleLoader.Proofs.Loader.Ledgers
import ModuleLoader.Proofs.Loader.PlannedEvaluations
import ModuleLoader.Proofs.Loader.RestingSteps
import ModuleLoader.Proofs.Session.Basic

/-! # Imports after failures

A session whose requests are settled may have registered modules whose dependencies never arrived.
An import then loads what is missing below records, and below what is loaded, but not what is
missing below records that only come up in what is loaded. It succeeds if that is all it needs.
-/

namespace ModuleLoader

open Relation

namespace Loader

/-- What the load of a name will come to: the pending one, or else a new one. -/
def awaited (l : Loader) (metadata : Metadata) (name : String) : Except LoadError LoadedUnit :=
  let id := (l.pending.get? name).getD l.loads.length
  l.outcome id (l.loads[id]?.getD (.created name metadata))

/-- A name needs another one: its record does, or what its load will come to. -/
def Wants (l : Loader) (metadata : Metadata) (x y : String) : Prop :=
  l.registry.Needs x y ∨ l.registry.get? x = none ∧
    ∃ u, l.awaited metadata x = .ok u ∧ y ∈ u.dependencies.map (·.name)

/-- An import of a name loads another one: records lead to a name without a record, and on from
there there are only such names. -/
def Fetches (l : Loader) (metadata : Metadata) (name y : String) : Prop :=
  ∃ k, l.registry.get? k = none ∧ ReflTransGen l.registry.Needs name k ∧
    ReflTransGen (fun x y => l.Wants metadata x y ∧ l.registry.get? y = none) k y

/-- An import fetches all names without records that it needs. -/
def FetchesAll (l : Loader) (metadata : Metadata) (name : String) : Prop :=
  ∀ y, ReflTransGen (l.Wants metadata) name y → l.registry.get? y = none →
    l.Fetches metadata name y

/-- All that a name needs can be loaded, comes to an end, and has no cycles. -/
structure Loadable (l : Loader) (metadata : Metadata) (name : String) : Prop where
  finite : {y | ReflTransGen (l.Wants metadata) name y}.Finite
  loads : ∀ y, ReflTransGen (l.Wants metadata) name y → l.registry.get? y = none →
    ∃ u, l.awaited metadata y = .ok u
  acyclic : ∀ y, ReflTransGen (l.Wants metadata) name y → ¬ TransGen (l.Wants metadata) y y

/-- The names that a name needs. -/
def wanted (l : Loader) (metadata : Metadata) (x : String) : List String :=
  match l.registry.get? x with
  | some record => Registry.needs record
  | none =>
    match l.awaited metadata x with
    | .ok u => u.dependencies.map (·.name)
    | .error _ => []

section Awaited

variable {l : Loader} {metadata : Metadata} {name : String} {u : LoadedUnit}

theorem wants_iff_mem {x y : String} : l.Wants metadata x y ↔ y ∈ l.wanted metadata x := by
  rw [Wants, wanted, Registry.Needs]
  cases l.registry.get? x with
  | some record => simp
  | none =>
    cases l.awaited metadata x with
    | ok u => simp
    | error e => simp

/-- Names in an order in which what they need comes later can be loaded if their loads succeed. -/
theorem loadable_of_order {names : List String} (hn : name ∈ names)
    (hw : ∀ x ∈ names, ∀ y ∈ l.wanted metadata x, names.idxOf x < names.idxOf y ∧ y ∈ names)
    (ho : ∀ x ∈ names, l.registry.has x = true ∨ (l.awaited metadata x).isOk = true) :
    l.Loadable metadata name := by
  have hmem {x : String} (hr : ReflTransGen (l.Wants metadata) name x) : x ∈ names := by
    induction hr with
    | refl => exact hn
    | tail _ h ih => exact (hw _ ih _ (wants_iff_mem.1 h)).2
  refine ⟨names.finite_toSet.subset fun x hx => hmem hx, fun x hx hg => ?_, fun x hx hcyc => ?_⟩
  · rcases ho x (hmem hx) with hr | ho
    · simp [Registry.has_eq_isSome, hg] at hr
    · cases h : l.awaited metadata x with
      | ok u => exact ⟨u, rfl⟩
      | error e => simp [h, Except.isOk, Except.toBool] at ho
  · have hlt : ∀ {y}, TransGen (l.Wants metadata) x y → names.idxOf x < names.idxOf y ∧ y ∈ names := by
      intro y hy
      induction hy with
      | single h => exact hw x (hmem hx) _ (wants_iff_mem.1 h)
      | tail _ h ih =>
        obtain ⟨hlt, hy⟩ := hw _ ih.2 _ (wants_iff_mem.1 h)
        exact ⟨ih.1.trans hlt, hy⟩
    exact Nat.lt_irrefl _ (hlt hcyc).1

theorem awaited_pending {id : Nat} {st : LoadState} (hp : l.pending.get? name = some id)
    (hs : l.loads[id]? = some st) : l.awaited metadata name = l.outcome id st := by
  simp [awaited, hp, hs]

theorem awaited_fresh (hp : l.pending.get? name = none) :
    l.awaited metadata name = l.outcome l.loads.length (.created name metadata) := by
  simp [awaited, hp]

theorem awaited_name (hl : l.Sound) (h : l.awaited metadata name = .ok u) : u.name = name := by
  cases hp : l.pending.get? name with
  | none =>
    rw [awaited_fresh hp] at h
    have hs : (LoadState.created name metadata).Serves l.loads.length name := rfl
    exact (outcome_ok hs h).1
  | some id =>
    obtain ⟨st, hst, hs⟩ := hl.pending hp
    rw [awaited_pending hp hst] at h
    exact (outcome_ok hs h).1

theorem comes_of_awaited (hl : l.Sound) {id : Nat} (hp : l.pending.get? name = some id)
    (h : l.awaited metadata name = .ok u) : l.Comes id u := by
  obtain ⟨st, hst, hs⟩ := hl.pending hp
  rw [awaited_pending hp hst] at h
  obtain ⟨rfl, rfl⟩ := outcome_ok hs h
  exact ⟨st, hst, hs, h⟩

theorem Wants.of_awaited {y : String} (hg : l.registry.get? name = none)
    (h : l.awaited metadata name = .ok u) :
    l.Wants metadata name y ↔ y ∈ u.dependencies.map (·.name) := by
  constructor
  · rintro (hn | ⟨-, v, hv, hy⟩)
    · exact absurd hg hn.ne_none
    · rw [h, Except.ok.injEq] at hv
      exact hv ▸ hy
  · exact fun hy => Or.inr ⟨hg, u, h, hy⟩

theorem wants_of_needs {x y : String} (h : ReflTransGen l.registry.Needs x y) :
    ReflTransGen (l.Wants metadata) x y :=
  ReflTransGen.mono (fun _ _ hn => Or.inl hn) _ _ h

end Awaited

end Loader

open Loader

namespace Plan

/-- The plan of an import covers the names without records below its own. -/
structure Covers (p : Plan) (l : Loader) (metadata : Metadata) (name : String) : Prop where
  keeps : p.Keeps l
  shared : p.metadata = metadata
  mem_iff : ∀ m, m ∈ p.names ↔ ReflTransGen (l.Wants metadata) name m ∧ l.registry.get? m = none
  unit : ∀ m ∈ p.names, l.awaited metadata m = .ok (p.unit m)

/-- An import of what can be loaded has a plan. -/
theorem exists_covers {l : Loader} {metadata : Metadata} {name : String} (hl : l.Sound)
    (h : l.Loadable metadata name) : ∃ p : Plan, p.Covers l metadata name := by
  classical
  let unit (m : String) : LoadedUnit :=
    (l.awaited metadata m).toOption.getD ⟨m, none, [], 0, m, [], ⟨[]⟩⟩
  let names := h.finite.toFinset.filter fun m => l.registry.get? m = none
  let turns (m : String) : Nat :=
    (l.pending.get? m).elim (l.turnsOf (.created m metadata)) l.rest
  have hmem (m : String) : m ∈ names ↔
      ReflTransGen (l.Wants metadata) name m ∧ l.registry.get? m = none := by
    simp [names]
  have hunit : ∀ m ∈ names, l.awaited metadata m = .ok (unit m) := by
    intro m hm
    obtain ⟨hr, hg⟩ := (hmem m).1 hm
    obtain ⟨u, hu⟩ := h.loads m hr hg
    simp [unit, hu, Except.toOption]
  refine ⟨⟨names, unit, metadata, names.sup turns, fun m hm => awaited_name hl (hunit m hm)⟩, ?_⟩
  refine ⟨⟨hl, ?_, ?_, ?_⟩, rfl, hmem, hunit⟩
  · intro m hm d hd
    cases hg : l.registry.get? d.name with
    | some record => exact Or.inl (by rw [Registry.has_eq_isSome, hg]; rfl)
    | none =>
      obtain ⟨hr, hgm⟩ := (hmem m).1 hm
      refine Or.inr ((hmem d.name).2 ⟨hr.tail ?_, hg⟩)
      exact (Wants.of_awaited hgm (hunit m hm)).2 (List.mem_map_of_mem hd)
  · intro m hm id hp
    refine ⟨comes_of_awaited hl hp (hunit m hm), ?_⟩
    have hle := Finset.le_sup (f := turns) hm
    simpa only [turns, hp, Option.elim] using hle
  · intro m hm hp _
    have hu := hunit m hm
    rw [awaited_fresh hp] at hu
    refine ⟨fun id => outcome_withLoad hu, ?_⟩
    have hle := Finset.le_sup (f := turns) hm
    simpa only [turns, hp, Option.elim] using hle

section Covers

variable {p : Plan} {l m : Loader} {metadata : Metadata} {name x y : String}
  {units : List LoadedUnit}

theorem Covers.dep_iff (hc : p.Covers l metadata name) (hx : x ∈ p.names) :
    p.Dep x y ↔ l.Wants metadata x y ∧ l.registry.get? y = none := by
  obtain ⟨hr, hg⟩ := (hc.mem_iff x).1 hx
  rw [Wants.of_awaited hg (hc.unit x hx)]
  constructor
  · rintro ⟨-, hy, hd⟩
    exact ⟨hd, ((hc.mem_iff y).1 hy).2⟩
  · rintro ⟨hd, hy⟩
    have hw : l.Wants metadata x y := (Wants.of_awaited hg (hc.unit x hx)).2 hd
    exact ⟨hx, (hc.mem_iff y).2 ⟨hr.tail hw, hy⟩, hd⟩

/-- The names below which an import loads are in its plan. -/
theorem Covers.missing (hc : p.Covers l metadata name) :
    ∀ k ∈ l.registry.missing name, k ∈ p.names := by
  intro k hk
  obtain ⟨hg, hr⟩ := Registry.mem_missing_iff.1 hk
  exact (hc.mem_iff k).2 ⟨wants_of_needs hr, hg⟩

/-- The units of an import are those that it fetches. -/
theorem Covers.mem_units_iff (hc : p.Covers l metadata name) (hr : m.registry = l.registry)
    (hw : p.Whole m (l.registry.missing name) units) :
    y ∈ units.map (·.name) ↔ l.Fetches metadata name y := by
  constructor
  · intro hy
    obtain ⟨u, hu, rfl⟩ := List.mem_map.1 hy
    obtain ⟨k, hk, hp⟩ := hw.path u hu
    obtain ⟨hg, hn⟩ := Registry.mem_missing_iff.1 hk
    refine ⟨k, hg, hn, ReflTransGen.mono (fun a b hab => ?_) _ _ hp⟩
    exact (hc.dep_iff hab.1).1 hab
  · rintro ⟨k, hg, hn, hp⟩
    have hk := Registry.mem_missing_iff.2 ⟨hg, hn⟩
    refine hw.mem_of_reaches hk ?_
    have hsteps : k ∈ p.names ∧ ReflTransGen (fun x y => p.Dep x y ∧ m.registry.get? y = none) k y
        ∧ y ∈ p.names := by
      induction hp with
      | refl => exact ⟨hc.missing k hk, .refl, hc.missing k hk⟩
      | @tail a b _ hab ih =>
        obtain ⟨hkn, hr', ha⟩ := ih
        have hd := (hc.dep_iff ha).2 hab
        exact ⟨hkn, hr'.tail ⟨hd, by rw [hr]; exact hab.2⟩, hd.2.1⟩
    exact hsteps.2.1

/-- Once the units are registered, all that is needed was needed before. -/
theorem Covers.wants (hc : p.Covers l metadata name) (hr : m.registry = l.registry)
    (hw : p.Whole m (l.registry.missing name) units)
    (h : (m.commit units).registry.Needs x y) : l.Wants metadata x y := by
  rcases hw.needs_iff.1 h with h | ⟨hg, hx, hy⟩
  · exact Or.inl (hr ▸ h)
  · obtain ⟨u, hu, rfl⟩ := List.mem_map.1 hx
    rw [hr] at hg
    exact (Wants.of_awaited hg (hc.unit _ (hw.planned u hu).1)).2 hy

/-- Nothing is missing once the units are registered if all that was needed is fetched. -/
theorem Covers.missing_eq_nil (hc : p.Covers l metadata name) (hr : m.registry = l.registry)
    (hw : p.Whole m (l.registry.missing name) units) (hall : l.FetchesAll metadata name) :
    (m.commit units).registry.missing name = [] := by
  rw [List.eq_nil_iff_forall_not_mem]
  intro y hy
  obtain ⟨hg, hn⟩ := Registry.mem_missing_iff.1 hy
  obtain ⟨hgm, hnot⟩ := commit_get?_eq_none_iff.1 hg
  rw [hr] at hgm
  refine hnot ((hc.mem_units_iff hr hw).2 (hall y ?_ hgm))
  exact ReflTransGen.mono (fun _ _ => hc.wants hr hw) _ _ hn

/-- Something is missing then if a name that was needed is not fetched. -/
theorem Covers.exists_missing (hc : p.Covers l metadata name) (hr : m.registry = l.registry)
    (hw : p.Whole m (l.registry.missing name) units)
    (hy : ReflTransGen (l.Wants metadata) name y) (hg : l.registry.get? y = none)
    (hf : ¬ l.Fetches metadata name y) : (m.commit units).registry.missing name ≠ [] := by
  have hreach : ReflTransGen (m.commit units).registry.Needs name y ∨
      (m.commit units).registry.missing name ≠ [] := by
    clear hg hf
    induction hy with
    | refl => exact Or.inl .refl
    | @tail x y _ hxy ih =>
      rcases ih with ih | ih
      · rcases hxy with hxy | ⟨hgx, u, hu, hd⟩
        · exact Or.inl (ih.tail (hw.needs_iff.2 (Or.inl (hr ▸ hxy))))
        · by_cases hx : x ∈ units.map (·.name)
          · refine Or.inl (ih.tail (hw.needs_iff.2 (Or.inr ⟨hr ▸ hgx, hx, ?_⟩)))
            obtain ⟨v, hv, rfl⟩ := List.mem_map.1 hx
            rw [hc.unit _ (hw.planned v hv).1, Except.ok.injEq] at hu
            exact hu ▸ hd
          · have hmiss := Registry.mem_missing_iff.2
              ⟨commit_get?_eq_none_iff.2 ⟨hr ▸ hgx, hx⟩, ih⟩
            exact Or.inr (List.ne_nil_of_mem hmiss)
      · exact Or.inr ih
  rcases hreach with h | h
  · refine List.ne_nil_of_mem (Registry.mem_missing_iff.2 ⟨?_, h⟩)
    exact commit_get?_eq_none_iff.2 ⟨hr ▸ hg, fun hm => hf ((hc.mem_units_iff hr hw).1 hm)⟩
  · exact h

theorem get?_commit_ne_none (hr : m.registry = l.registry)
    (hw : p.Whole m (l.registry.missing name) units) :
    (m.commit units).registry.get? name ≠ none := by
  intro hn
  obtain ⟨hg, hnot⟩ := commit_get?_eq_none_iff.1 hn
  exact hnot (hw.covers name (Registry.mem_missing_iff.2 ⟨hr ▸ hg, .refl⟩))

/-- How an import ends that has all its units. -/
theorem Covers.ends (hc : p.Covers l metadata name) (hr : m.registry = l.registry)
    (hw : p.Whole m (l.registry.missing name) units) (hrest : l.registry.Resting)
    (hl : l.Loadable metadata name) :
    (¬ l.FetchesAll metadata name ∧ ∃ y, ((m.commit units).evaluate name).1 =
      .error (.instantiate name (.dependencyNotLoaded y))) ∨
    l.FetchesAll metadata name ∧ ((∃ ns, ((m.commit units).evaluate name).1 = .ok ns ∧
        (((m.commit units).evaluate name).2.registry.get? name).bind Record.namespace? = some ns) ∨
      ∃ id, News (m.commit units) ((m.commit units).evaluate name).2 (.ran id false)) := by
  have hrest' : (m.commit units).registry.Resting :=
    ((commit_settling m units).registers (hr ▸ hrest)).resting
  have hev := evaluate_cases hrest' (get?_commit_ne_none hr hw)
  by_cases hall : l.FetchesAll metadata name
  · have hnil := hc.missing_eq_nil hr hw hall
    refine Or.inr ⟨hall, ?_⟩
    rcases hev with ⟨y, hy, -⟩ | ⟨-, hok | ⟨x, hx, hcyc⟩ | hran⟩
    · simp [hnil] at hy
    · exact Or.inl hok
    · have hwants : ∀ a b, (m.commit units).registry.Needs a b → l.Wants metadata a b :=
        fun _ _ => hc.wants hr hw
      have hx' := ReflTransGen.mono hwants _ _ hx
      exact absurd (TransGen.mono hwants _ _ hcyc) (hl.acyclic x hx')
    · exact Or.inr hran
  · refine Or.inl ⟨hall, ?_⟩
    rw [FetchesAll] at hall
    push Not at hall
    obtain ⟨y, hy, hg, hf⟩ := hall
    rcases hev with ⟨z, -, hz⟩ | ⟨hnil, -⟩
    · exact ⟨z, hz⟩
    · exact absurd hnil (hc.exists_missing hr hw hy hg hf)

end Covers

end Plan

namespace Session

/-! ## Sessions at rest -/

/-- No record is in the middle of its evaluation. -/
def Resting (s : Session) : Prop := s.loader.registry.Resting

section Resting

variable {s : Session}

theorem Resting.takeTurn (h : s.Resting) (hs : s.Sound) (budget i : Nat) :
    (s.takeTurn (budget + 1) i).Resting := by
  cases ha : s.activities[i]? with
  | none => rwa [takeTurn_none ha]
  | some a =>
    rw [takeTurn_eq ha]
    have hsound := hs.activities a (List.mem_of_getElem? ha)
    exact Loader.Sound.turn_preserves (P := fun _ l => l.registry.Resting) budget
      advance_resting hs.loader hsound h

theorem Resting.move (h : s.Resting) (hs : s.Sound) (budget : Nat) (m : Move) :
    (s.move (budget + 1) m).Resting := by
  cases m with
  | turn i => exact h.takeTurn hs budget i
  | set name ns =>
    intro n record hg
    simp only [Session.move, Loader.set, Registry.get?_setEvaluated] at hg
    split at hg
    · rw [Option.some.injEq] at hg
      subst hg
      simp [Record.evaluated]
    · exact h n record hg
  | delete name =>
    intro n record hg
    simp only [Session.move, Loader.delete, Registry.get?_delete] at hg
    split at hg
    · simp at hg
    · exact h n record hg
  | get name =>
    simp only [Session.move, Loader.get]
    split
    · exact (((evaluate_settling s.loader name).trans (reported_settling _ _)).registers h).resting
    · exact h
  | _ => exact h

theorem Resting.play (h : s.Resting) (hs : s.Sound) (budget : Nat) (moves : List Move) :
    (s.play (budget + 1) moves).Resting :=
  hs.play_preserves (fun m _ hs h => h.move hs budget m) h

end Resting

/-- A state that a session with a new loader may come to. -/
def Reached (budget : Nat) (s : Session) : Prop :=
  ∃ options stages files reporter realm l moves,
    Loader.build options stages files reporter realm = .ok l ∧
      s = (start l).play (budget + 1) moves

theorem Reached.sound {budget : Nat} {s : Session} (h : s.Reached budget) : s.Sound := by
  obtain ⟨options, stages, files, reporter, realm, l, moves, hb, rfl⟩ := h
  exact (sound_start (sound_build hb).1).play budget moves

theorem Reached.resting {budget : Nat} {s : Session} (h : s.Reached budget) : s.Resting := by
  obtain ⟨options, stages, files, reporter, realm, l, moves, hb, rfl⟩ := h
  refine Resting.play ?_ (sound_start (sound_build hb).1) budget moves
  simp only [build, bind_eq_ok_iff, pure, Except.pure, Except.ok.injEq] at hb
  obtain ⟨options', -, rfl⟩ := hb
  intro n record hg
  simp only [start, Registry.get?_setEvaluated, Registry.get?_empty] at hg
  split at hg
  · rw [Option.some.injEq] at hg
    subst hg
    simp [Record.evaluated]
  · simp at hg

/-! ## Turns of one request -/

section Turns

variable {budget : Nat} {l : Loader} {a : Activity}

/-- Some turns of a request, one after the other. -/
def turns (budget k : Nat) (c : Activity × Loader) : Activity × Loader :=
  (fun c => Loader.turn budget c.2 c.1)^[k] c

theorem play_turns (budget k : Nat) (l : Loader) (before : List Activity) (a : Activity) :
    (Session.mk l (before ++ [a])).play budget (.replicate k (.turn before.length)) =
      ⟨(turns budget k (a, l)).2, before ++ [(turns budget k (a, l)).1]⟩ := by
  induction k generalizing l a with
  | zero => rfl
  | succ k ih =>
    rw [List.replicate_succ, play_cons, Session.move, takeTurn_append, ih]
    rfl

theorem turns_settled {r : Except LoadError Answer} (k : Nat) :
    turns budget k (.settled r, l) = (.settled r, l) :=
  Function.iterate_fixed rfl k

theorem turns_add (j k : Nat) (c : Activity × Loader) :
    turns budget (j + k) c = turns budget j (turns budget k c) :=
  Function.iterate_add_apply _ j k c

/-- An import that goes by a plan is settled after some turns. -/
theorem exists_turns (budget : Nat) {p : Plan} {name : String} {roots : List String}
    (hk : p.Keeps l) (ha : p.RequestGoes l name roots a) :
    ∃ k m units, p.Proceeds l m ∧ p.Whole m roots units ∧
      turns (budget + 1) k (a, l) = (m.commit units).settleImport name := by
  induction h : p.requestToil l roots.length a using Nat.strong_induction_on generalizing l a with
  | _ t ih =>
    have hns : a.isSettled = false := by
      rcases ha with ha | ha <;> cases a <;> first | rfl | exact ha.elim
    rcases Plan.transGen_goes hk ha (Nat.le_refl _) (turn_advances budget l hns) with
      ⟨hk', hp, ha', ht⟩ | ⟨m, units, hp, hw, he⟩
    · obtain ⟨k, m, units, hp', hw, he⟩ := ih _ (h ▸ ht) hk' ha' rfl
      exact ⟨k + 1, m, units, hp.trans hp', hw, he⟩
    · exact ⟨1, m, units, hp, hw, he.symm⟩

end Turns

/-- An import of what can be loaded is settled after some turns. Unless a body fails, it succeeds
exactly if it fetches all that it needs. -/
theorem import_succeeds_iff {budget : Nat} {s : Session} (hr : s.Reached budget)
    {specifier : String} {options : RequestOptions} {name : String}
    (hn : s.loader.nameOf specifier options.referrer = .ok name)
    (hl : s.loader.Loadable (s.loader.metadataOf options) name) :
    ∃ k r l', (∀ j, (s.move (budget + 1) (.request 0 ⟨.importModule specifier, options⟩)).play
        (budget + 1) (.replicate (j + k) (.turn s.activities.length)) =
          ⟨l', s.activities ++ [.settled r]⟩) ∧
      (¬ s.loader.FetchesAll (s.loader.metadataOf options) name →
        ∃ y, r = .error (.instantiate name (.dependencyNotLoaded y))) ∧
      ((∀ id, ¬ News s.loader l' (.ran id false)) →
        ((∃ ns, r = .ok (.exports ns) ∧
          (l'.registry.get? name).bind Record.namespace? = some ns) ↔
            s.loader.FetchesAll (s.loader.metadataOf options) name)) := by
  obtain ⟨l, activities⟩ := s
  obtain ⟨p, hc⟩ := Plan.exists_covers hr.sound.loader hl
  have hgoes : p.RequestGoes l name (l.registry.missing name)
      (.delayed 0 ⟨.importModule specifier, options⟩) :=
    Or.inl ⟨specifier, rfl, hn, hc.shared.symm, rfl, hc.missing⟩
  obtain ⟨k, m, units, hp, hw, he⟩ := exists_turns budget hc.keeps hgoes
  obtain ⟨l', hset, hreg, hworld⟩ := settleImport_eq (m.commit units) name
  rw [hset] at he
  have hjournal : l.world.journal <:+ (m.commit units).world.journal :=
    hp.grows.journal_suffix.trans (commit_journal m units)
  refine ⟨k, ((m.commit units).evaluate name).1.map .exports, l', fun j => ?_, ?_⟩
  · have ht : turns (budget + 1) (j + k) (.delayed 0 ⟨.importModule specifier, options⟩, l) =
        (.settled (((m.commit units).evaluate name).1.map .exports), l') := by
      rw [turns_add, he, turns_settled]
    have hplay := play_turns (budget + 1) (j + k) l activities
      (.delayed 0 ⟨.importModule specifier, options⟩)
    rw [ht] at hplay
    exact hplay
  · rw [hreg]
    rcases hc.ends hp.grows.registry hw hr.resting hl with ⟨hall, z, hz⟩ | ⟨hall, hok⟩
    · rw [hz]
      refine ⟨fun _ => ⟨z, rfl⟩, fun _ => ⟨?_, fun h => absurd h hall⟩⟩
      rintro ⟨ns, hns, -⟩
      simp [Except.map] at hns
    · refine ⟨fun h => absurd hall h, fun hran => ⟨fun _ => hall, fun _ => ?_⟩⟩
      rcases hok with ⟨ns, hns, hrec⟩ | ⟨id, events, he', hmem⟩
      · exact ⟨ns, by rw [hns]; rfl, hrec⟩
      · refine absurd (News.of_suffix hjournal ⟨events, ?_, hmem⟩) (hran id)
        rw [hworld, he']

/-- Files of a module that needs `e`, which is not in a file but is registered and needs `f`. -/
def lateFiles (text : String) : List (String × String) :=
  [("f.js", text), ("x.js", "import {w} from 'e';\nexport var x = w;")]

/-- The definition of `e`, an import of `f` that fails, and a change of its text. -/
def lateMoves : List Move :=
  [.request 0 ⟨.define "e" "import {v} from 'f';\nexport var w = v;",
      { RequestOptions.none with mode := some .instantiate }⟩, .turn 0,
    .request 0 ⟨.importModule "f", .none⟩, .turn 1,
    .files (.ofTable (.ofList (lateFiles "export var v = 'ok';")) 0)]

/-- A session in which `e` is registered and what it needs is not. -/
def late : Session := (start (ofFiles 0 (lateFiles "export var v = nope;"))).play 9 lateMoves

theorem late_reached : late.Reached 8 :=
  ⟨_, _, _, _, _, _, _, build_ofFiles 0 _, rfl⟩

theorem late_nameOf : late.loader.nameOf "x" RequestOptions.none.referrer = .ok "x" := by
  rw [← toOption_eq_some_iff]
  decide +kernel

theorem late_loadable : late.loader.Loadable (late.loader.metadataOf .none) "x" := by
  have hn : "x" ∈ ["x", "e", "f"] := by decide
  exact loadable_of_order hn (by decide +kernel) (by decide +kernel)

theorem import_succeeds_iff_late :
    ∃ k r l', (∀ j, (late.move 9 (.request 0 ⟨.importModule "x", .none⟩)).play 9
        (.replicate (j + k) (.turn late.activities.length)) =
          ⟨l', late.activities ++ [.settled r]⟩) ∧
      (¬ late.loader.FetchesAll (late.loader.metadataOf .none) "x" →
        ∃ y, r = .error (.instantiate "x" (.dependencyNotLoaded y))) ∧
      ((∀ id, ¬ News late.loader l' (.ran id false)) →
        ((∃ ns, r = .ok (.exports ns) ∧
          (l'.registry.get? "x").bind Record.namespace? = some ns) ↔
            late.loader.FetchesAll (late.loader.metadataOf .none) "x")) :=
  import_succeeds_iff late_reached late_nameOf late_loadable

/-- The module in which a settled request has stopped, and why. -/
def stopped? : Activity → Option (String × InstantiateCause)
  | .settled (.error (.instantiate name cause)) => some (name, cause)
  | _ => none

theorem eq_of_stopped? {a : Activity} {name : String} {cause : InstantiateCause}
    (h : stopped? a = some (name, cause)) :
    a = .settled (.error (.instantiate name cause)) := by
  unfold stopped? at h
  split at h
  · simp only [Option.some.injEq, Prod.mk.injEq] at h
    rw [h.1, h.2]
  · simp at h

/-- An import of `x` in that session. -/
def lateImport : Activity × Loader := (.delayed 0 ⟨.importModule "x", .none⟩, late.loader)

/-- The import of `x` finds `e` registered and does not look below it, although `f` could be loaded
and no body fails. -/
theorem late_dependency_is_not_loaded :
    late.Reached 8 ∧ late.Quiet ∧
      late.loader.nameOf "x" RequestOptions.none.referrer = .ok "x" ∧
      late.loader.Loadable (late.loader.metadataOf .none) "x" ∧
      ∃ l', (∀ id, ¬ News late.loader l' (.ran id false)) ∧
        ∀ j, (late.move 9 (.request 0 ⟨.importModule "x", .none⟩)).play 9
          (.replicate (j + 1) (.turn late.activities.length)) =
            ⟨l', late.activities ++
              [.settled (.error (.instantiate "x" (.dependencyNotLoaded "f")))]⟩ := by
  have hq : late.Quiet := by decide +kernel
  refine ⟨late_reached, hq, late_nameOf, late_loadable, ?_⟩
  have hj : ∀ e ∈ (turns 9 1 lateImport).2.world.journal.take
      ((turns 9 1 lateImport).2.world.journal.length - late.loader.world.journal.length),
      e.ran?.map Prod.snd ≠ some false := by
    decide +kernel
  have hsettled : (turns 9 1 lateImport).1 =
      .settled (.error (.instantiate "x" (.dependencyNotLoaded "f"))) := by
    apply eq_of_stopped?
    decide +kernel
  have hturns (k : Nat) : turns 9 (k + 1) lateImport =
      (.settled (.error (.instantiate "x" (.dependencyNotLoaded "f"))),
        (turns 9 1 lateImport).2) := by
    rw [turns_add, ← turns_settled k, ← hsettled]
  refine ⟨(turns 9 1 lateImport).2, fun id hn => hj _ hn.mem_take rfl, fun k => ?_⟩
  have hplay := play_turns 9 (k + 1) late.loader late.activities lateImport.1
  rw [show (lateImport.1, late.loader) = lateImport from rfl, hturns k] at hplay
  exact hplay

end Session

end ModuleLoader

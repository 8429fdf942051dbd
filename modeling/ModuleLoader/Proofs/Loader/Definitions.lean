import ModuleLoader.Proofs.Loader.ClosedGraphs
import ModuleLoader.Proofs.Loader.Deeds

/-! # Definitions

A definition that is rejected has registered nothing, or its evaluation has removed the record of
its name, unless something was missing below a module that was registered before. A source without
dependencies is defined in one turn.
-/

namespace ModuleLoader

open Dialect Relation

/-! ## Evaluations that fail -/

namespace Registry

variable {β σ : Type} {run : Runner β σ} {r : Registry β} {world : σ} {name : String}

/-- When an evaluation fails, something was missing and nothing has happened, or the name has no
record any more. -/
theorem evaluate_error_cases (hr : r.Resting) {e : LoadError}
    (h : (r.evaluate run world name).1 = .error e) :
    (∃ y ∈ r.missing name, e = .instantiate name (.dependencyNotLoaded y)) ∧
        (r.evaluate run world name).2.registry = r ∨
      (r.evaluate run world name).2.registry.has name = false := by
  have hev := evaluate_evaluated run hr world name
  generalize r.evaluate run world name = out at h hev
  cases hev with
  | unknown hg =>
    right
    simp [has_eq_isSome, hg]
  | missing hy =>
    simp only [Except.error.injEq] at h
    exact Or.inl ⟨⟨_, hy, h.symm⟩, rfl⟩
  | ok => simp at h
  | fault _ hrows hm _ _ hin =>
    right
    simp only [has_eq_isSome]
    rw [get?_dropEvaluating_marks (rows_resting hrows hr) hm, if_pos hin]
    rfl

/-- A record without dependencies, whose body comes to its end, is evaluated. -/
theorem evaluate_standalone {record : Record β} {body : β} {ns : Namespace}
    (hg : r.get? name = some record) (hs : record.slot = .waiting body)
    (hd : record.dependencies = []) (hrun : (run body .empty world).1 = .ok ns) :
    (r.evaluate run world name).1 = .ok ns := by
  have hmissing : r.missingFor name record = [] := by
    simp only [missingFor, needs, hs, hd, List.map_nil, search]
    rfl
  rcases hout : run body .empty world with ⟨result, world'⟩
  rw [hout] at hrun
  simp only at hrun
  subst hrun
  simp only [evaluate, hg, hs, guarded, hmissing, visit, hd, importAll, hout]

end Registry

namespace Loader

open Gathering

/-- A definition whose name stays registered although it is rejected: a name that was registered
before, and that it needs, needs one that has no record. -/
def Strands (l l' : Loader) (name : String) (e : LoadError) : Prop :=
  ∃ x y, e = .instantiate name (.dependencyNotLoaded y) ∧
    ReflTransGen l'.registry.Needs name x ∧ l.registry.Needs x y ∧ l'.registry.has y = false

theorem has_eq_false_iff {r : Registry Body} {n : String} :
    r.has n = false ↔ r.get? n = none := by
  rw [Registry.has_eq_isSome, Option.isSome_eq_false_iff, Option.isNone_iff_eq_none]

/-- From a name without a record nothing is needed. -/
theorem Strands.has {l l' : Loader} {name : String} {e : LoadError} (h : Strands l l' name e)
    (hl : l.registry.has name = false) : l'.registry.has name = true := by
  obtain ⟨x, y, -, hx, hxy, -⟩ := h
  by_contra hn
  rw [Bool.not_eq_true, has_eq_false_iff] at hn
  cases Registry.eq_of_reaches_of_none hn hx
  exact hxy.ne_none (has_eq_false_iff.1 hl)

/-- A pass over registered units that finds something missing strands them. -/
theorem Graph.Closed.strands {l l' : Loader} {g : Graph} (hg : g.Closed l) {name y : String}
    (hhas : (l.commit g.units).registry.has name = true)
    (hy : y ∈ (l.commit g.units).registry.missing name)
    (hl' : l'.registry = (l.commit g.units).registry) :
    Strands l l' name (.instantiate name (.dependencyNotLoaded y)) := by
  obtain ⟨hnone, hreach⟩ := Registry.mem_missing_iff.1 hy
  rcases hreach.cases_tail with rfl | ⟨x, hx, hxy⟩
  · rw [Registry.has_eq_isSome, hnone] at hhas
    simp at hhas
  · refine ⟨x, y, rfl, ?_, hg.needs_of_missing hxy hnone, ?_⟩
    · rwa [hl']
    · rw [hl', has_eq_false_iff]
      exact hnone

/-- What is left when the graph of a definition is there. -/
theorem settleDefine_strands {l l' : Loader} {g : Graph} {name : String}
    {mode : Option ModuleMode} {e : LoadError} (hr : l.registry.Resting) (hg : g.Closed l)
    (hroot : g.root.name = name) (h : l.settleDefine name mode g = (.settled (.error e), l'))
    (hl : l.registry.has name = false) (hhas : l'.registry.has name = true) :
    Strands l l' name e := by
  have hsame := file_commit_same l g
  have hfiled : (l.commit g.units).registry.has name = true :=
    has_commit (by simp [Graph.units, hroot])
  have hrest : (l.commit g.units).registry.Resting :=
    ((commit_settling l g.units).registers hr).resting
  obtain ⟨hfst, hsnd⟩ := hsame.evaluate name
  unfold settleDefine at h
  rw [hl, if_neg (by simp)] at h
  simp only at h
  split at h
  · have hs := congrArg Prod.fst h
    rw [settle_settled] at hs
    simp at hs
  · have hs := congrArg Prod.fst h
    rw [settle_settled, Activity.settled.injEq, hfst] at hs
    have hreg : l'.registry = ((l.commit g.units).evaluate name).2.registry := by
      have hout := congrArg (fun c => c.2.registry) h
      rw [← hout]
      exact ((unclaim_same _ name).trans (settle_same _ _)).registry.trans hsnd.registry
    cases hev : ((l.commit g.units).evaluate name).1 with
    | ok ns => simp [hev, Except.map] at hs
    | error e' =>
      simp only [hev, Except.map, Except.error.injEq] at hs
      subst hs
      rcases Registry.evaluate_error_cases hrest hev with ⟨⟨y, hy, rfl⟩, hkept⟩ | hfree
      · exact hg.strands hfiled hy (hreg.trans hkept)
      · have hfree' : l'.registry.has name = false := by
          rw [hreg]
          exact hfree
        rw [hfree'] at hhas
        simp at hhas

/-! ## Definitions on their way -/

/-- How far a definition has come that began in a loader: its source is at hand, its graph is being
loaded, or it is settled. A name that it leaves registered when it is rejected is stranded. -/
def Defines (l : Loader) (given source name : String) (options : RequestOptions) :
    Activity → Loader → Prop
  | .delayed _ request, m => request = ⟨.define given source, options⟩ ∧ m = l
  | .graph purpose task, m => purpose = .define name options.mode ∧ m.registry = l.registry ∧
      task.graph.root.name = name ∧ task.Covers m
  | .settled (.error e), m => m.registry.has name = true → Strands l m name e
  | .settled (.ok _), _ => True
  | _, _ => False

section Defines

variable {l m m' : Loader} {given source name : String} {options : RequestOptions}

theorem defines_rejected {e : LoadError} {c : Activity × Loader} (hl : l.registry.has name = false)
    (hc : c.1 = .settled (.error e)) (hr : c.2.registry = l.registry) :
    Defines l given source name options c.1 c.2 := by
  rw [hc]
  intro hhas
  rw [hr, hl] at hhas
  simp at hhas

theorem loadInline_name {load : Load} {u : LoadedUnit} {referrer : Option String}
    (h : (m.loadInline load source referrer).1 = .ok u) : u.name = load.name :=
  (linkSource_ok h).1

theorem startInline_defines (hl : l.registry.has name = false) (hs : m.Sound)
    (hr : m.registry = l.registry) :
    Defines l given source name options
      (m.startInline (.define name options.mode) name source (some name) options).1
      (m.startInline (.define name options.mode) name source (some name) options).2 := by
  have hi := loadInline_inline m (m.inlineLoad name options) source (some name)
  have hcalm := loadInline_calm m (m.inlineLoad name options) source (some name)
  rcases h : m.loadInline (m.inlineLoad name options) source (some name) with ⟨e | root, m₁⟩
  · rw [h] at hcalm
    rw [startInline_of_error h]
    apply defines_rejected hl (rejectGraph_settled _ _ e)
    exact (rejectGraph_calm m₁ _ e).registry.trans (hcalm.registry.trans hr)
  · rw [h] at hcalm hi
    rw [startInline_of_ok h]
    have hname : root.name = name := loadInline_name (congrArg Prod.fst h)
    have hg := (startGraph_calm m₁ (m.metadataOf options) root).registry
    refine ⟨rfl, hg.trans (hcalm.registry.trans hr), ?_, ?_⟩
    · exact hname
    · exact startGraph_covers rfl (hi.sound hs)

/-- What every step of a definition keeps. -/
theorem Defines.advance {a a' : Activity} (h : Defines l given source name options a m)
    (hadv : Advance (a, m) (a', m')) (hs : m.Sound) (ha : a.Sound m) (hr : l.registry.Resting)
    (hn : l.nameOf given options.referrer = .ok name) (hl : l.registry.has name = false) :
    Defines l given source name options a' m' := by
  cases hadv with
  | tick => exact h
  | @start request _ _ _ hstart =>
    obtain ⟨rfl, rfl⟩ := h
    have hd : Defines m given source name options
        (m.startDefine given source options).1 (m.startDefine given source options).2 := by
      unfold startDefine
      rw [hn]
      simp only [hl, Bool.false_or]
      split
      · exact defines_rejected hl rfl rfl
      · refine startInline_defines hl ?_ rfl
        exact ⟨hs.own, hs.pending⟩
    change m.startDefine given source options = _ at hstart
    rwa [hstart] at hd
  | @graph purpose task task' _ _ hstep =>
    obtain ⟨rfl, hreg, hroot, hcov⟩ := h
    obtain ⟨hroot', -, hh⟩ := graphStep_spec hstep hs ha
    refine ⟨rfl, hh.grows.registry.trans hreg, ?_, graphStep_covers hstep hs ha hcov⟩
    rw [hroot', hroot]
  | @graphFails purpose task e _ _ m₁ _ he hrej =>
    obtain ⟨-, hreg, -, -⟩ := h
    have hb : BranchEnds (.loading task, m) (.error e, m₁) := .graph he
    have hc := (branchEnds_calm hb).trans (rejectGraph_calm m₁ purpose e)
    have hd : Defines l given source name options (m₁.rejectGraph purpose e).1
        (m₁.rejectGraph purpose e).2 :=
      defines_rejected hl (rejectGraph_settled m₁ purpose e) (hc.registry.trans hreg)
    rwa [hrej] at hd
  | @graphDone purpose task _ _ _ _ _ he hset =>
    obtain ⟨rfl, hreg, hroot, hcov⟩ := h
    cases he with
    | complete hv =>
      have hclosed := hcov.closed_of_values? ha hv
      change m.settleDefine name options.mode task.graph = _ at hset
      obtain ⟨r, hset'⟩ := settleGraph_settled m (.define name options.mode) task.graph
      have ha' : a' = .settled r := (congrArg Prod.fst hset).symm.trans hset'
      subst ha'
      cases r with
      | ok answer => trivial
      | error e =>
        intro hhas
        have hstrands := settleDefine_strands (hreg ▸ hr) hclosed hroot hset (hreg ▸ hl) hhas
        unfold Strands at hstrands ⊢
        rwa [hreg] at hstrands
  | _ => exact h.elim

theorem defines_of_advances {c d : Activity × Loader} (h : ReflTransGen Advance c d)
    (hs : c.2.Sound) (ha : c.1.Sound c.2) (hr : l.registry.Resting)
    (hn : l.nameOf given options.referrer = .ok name) (hl : l.registry.has name = false)
    (hc : Defines l given source name options c.1 c.2) :
    Defines l given source name options d.1 d.2 := by
  suffices hd : d.2.Sound ∧ d.1.Sound d.2 ∧ Defines l given source name options d.1 d.2 from hd.2.2
  induction h with
  | refl => exact ⟨hs, ha, hc⟩
  | tail _ hadv ih =>
    obtain ⟨hs', ha', hd⟩ := ih
    have ht := advance_steps hadv hs' ha'
    exact ⟨ht.sound, ht.activity, hd.advance hadv hs' ha' hr hn hl⟩

end Defines

/-! ## Definitions in one turn -/

/-- A source text that makes a module without dependencies, whose body comes to its end. -/
def Standalone (l : Loader) (name source : String) (options : RequestOptions) : Prop :=
  ∃ u, (l.loadInline (l.inlineLoad name options) source (some name)).1 = .ok u ∧
    u.dependencies = [] ∧ ∃ ns, (u.body.linked.run .empty l.world.realm).1 = .ok ns

instance (l : Loader) (name source : String) (options : RequestOptions) :
    Decidable (l.Standalone name source options) :=
  decidable_of_iff
    (∃ u ∈ (l.loadInline (l.inlineLoad name options) source (some name)).1.toOption,
      u.dependencies = [] ∧ ((u.body.linked.run .empty l.world.realm).1.toOption).isSome) <| by
    simp only [Standalone, Option.mem_def, toOption_eq_some_iff, Option.isSome_iff_exists]

section Turn

variable {l : Loader} {u : LoadedUnit} {name : String}

/-- The definition of a unit without dependencies, whose body comes to its end, succeeds. -/
theorem settleDefine_standalone (hl : l.registry.has name = false) (hu : u.name = name)
    (hd : u.dependencies = []) (hrun : ∃ ns, (u.body.linked.run .empty l.world.realm).1 = .ok ns)
    (mode : Option ModuleMode) :
    (l.settleDefine name mode ⟨u, []⟩).1 = .settled (.ok .defined) := by
  subst hu
  obtain ⟨ns, hrun⟩ := hrun
  have hget : (l.file u).registry.get? u.name = some u.record := by
    rw [file_of_not_has hl]
    simp only [Registry.get?_commit, has_eq_false_iff.1 hl, and_self, if_true]
  have hrealm : (l.file u).world.realm = l.world.realm := by
    rw [file_of_not_has hl]
    rfl
  have heval : ((l.file u).evaluate u.name).1 = .ok ns := by
    apply Registry.evaluate_standalone hget rfl hd
    rw [← hrealm] at hrun
    exact hrun
  unfold settleDefine
  rw [hl, if_neg (by simp)]
  simp only
  split
  · exact settle_settled _ _
  · rw [settle_settled]
    change Activity.settled (((l.file u).evaluate u.name).1.map _) = _
    rw [heval]
    rfl

theorem Alike.loadInline {l' : Loader} (h : Alike l l') (hlen : l'.loads = l.loads) (load : Load)
    (source : String) (referrer : Option String) :
    (l'.loadInline load source referrer).1 = (l.loadInline load source referrer).1 := by
  have hn := ((note_alike l (.began load.name l.loads.length)).symm.trans h).trans
    (note_alike l' (.began load.name l.loads.length))
  simp only [Loader.loadInline, hlen]
  exact hn.linkSource _ _ _ _

/-- A graph without dependencies is complete at once. -/
theorem advanceGraph_standalone (budget : Nat) (l : Loader) (purpose : Purpose)
    (metadata : Metadata) (hd : u.dependencies = []) :
    advanceGraph (budget + 1) (l.startGraph metadata u).2 purpose (l.startGraph metadata u).1 =
      l.settleGraph purpose ⟨u, []⟩ := by
  have hs : l.startGraph metadata u = (⟨metadata, ⟨u, []⟩, [u.name], ⟨[], []⟩⟩, l) := by
    unfold startGraph
    rw [hd]
    rfl
  rw [hs]
  simp only [advanceGraph, moveGraph, move_nil, values?, valuesOf?]

/-- A source text without dependencies is defined in one turn under a name that is free. -/
theorem define_turn {given source : String} {options : RequestOptions}
    (hn : l.nameOf given options.referrer = .ok name) (hl : l.registry.has name = false)
    (hc : name ∉ l.defining) (h : l.Standalone name source options) (budget : Nat) :
    (turn (budget + 1) l (.delayed 0 ⟨.define given source, options⟩)).1 =
      .settled (.ok .defined) := by
  obtain ⟨u, hu, hd, hrun⟩ := h
  have hname : u.name = name := loadInline_name hu
  have halike : Alike l { l with defining := name :: l.defining } := ⟨rfl, rfl, rfl, rfl⟩
  have hload := halike.loadInline rfl (l.inlineLoad name options) source (some name)
  have hcalm := loadInline_calm { l with defining := name :: l.defining }
    (l.inlineLoad name options) source (some name)
  rcases hi : Loader.loadInline { l with defining := name :: l.defining }
    (l.inlineLoad name options) source (some name) with ⟨r, l₁⟩
  rw [hi, hu] at hload
  rw [hi] at hcalm
  cases hload
  have hrefused : ¬ (l.registry.has name || l.defining.contains name) = true := by
    simp [hl, hc]
  have hstart : l.start ⟨.define given source, options⟩ =
      (.graph (.define name options.mode) (l₁.startGraph (l.metadataOf options) u).1,
        (l₁.startGraph (l.metadataOf options) u).2) := by
    simp only [start, startDefine, hn, if_neg hrefused]
    exact startInline_of_ok hi
  simp only [turn, hstart, Loader.advance, advanceGraph_standalone budget l₁ _ _ hd]
  apply settleDefine_standalone _ hname hd
  · rw [hcalm.realm]
    exact hrun
  · rw [hcalm.registry]
    exact hl

end Turn

end Loader

end ModuleLoader

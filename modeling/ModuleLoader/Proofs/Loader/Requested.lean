import ModuleLoader.Proofs.Dialect.UnitNames
import ModuleLoader.Proofs.Loader.RequestHoldings
import ModuleLoader.Proofs.PackageMap.Rules

/-! # Requested names

What a source text requests is settled by its specifiers, the base name and the package map. A
specifier that is not relative stands for the same name wherever it is used, unless the map has
contextual rules. With the default stages a unit depends on what its source text requests.
-/

namespace ModuleLoader

open Dialect

/-! ## Referrers -/

namespace Specifier

theorem resolve_of_not_relative {cs : List Char} (h : kindOf cs ≠ .relative)
    (baseName : List Char) (referrer referrer' : Option (List Char)) :
    resolve baseName cs referrer = resolve baseName cs referrer' := by
  rw [resolve, resolve]
  cases hk : kindOf cs with
  | relative => exact absurd hk h
  | _ => rfl

/-- Only relative specifiers and contextual rules ask who refers to a module. -/
theorem normalize_of_not_relative {specifier : String} (h : kindOf specifier.toList ≠ .relative)
    {map : PackageMap} (hm : map.Global) (baseName : String) (referrer referrer' : Option String) :
    normalize baseName map specifier referrer = normalize baseName map specifier referrer' := by
  rw [normalize, normalize, resolve_of_not_relative h _ (referrer.map String.toList)
    (referrer'.map String.toList)]
  simp only [hm.apply _ referrer referrer']

/-- No specifier holds an illegal character. -/
theorem not_illegal_of_normalize {baseName : String} {map : PackageMap} {specifier name : String}
    {referrer : Option String} (h : normalize baseName map specifier referrer = .ok name) {c : Char}
    (hc : c ∈ specifier.toList) : isIllegal c = false := by
  by_contra hi
  have hfind : (specifier.toList.find? isIllegal).isSome :=
    List.find?_isSome.2 ⟨c, hc, by simpa using hi⟩
  obtain ⟨d, hd⟩ := Option.isSome_iff_exists.1 hfind
  have hne : specifier.toList ≠ [] := List.ne_nil_of_mem hc
  have hr : resolve baseName.toList specifier.toList (referrer.map String.toList) =
      .error (.illegalCharacter d) := by
    rw [resolve, check, if_neg hne, hd]
    rfl
  rw [normalize, hr] at h
  cases h

end Specifier

namespace Loader

theorem resolveAll_of_not_relative {l : Loader} (hm : l.map.Global) {specifiers : List String}
    (h : ∀ s ∈ specifiers, Specifier.kindOf s.toList ≠ .relative)
    (referrer referrer' : Option String) :
    l.resolveAll referrer specifiers = l.resolveAll referrer' specifiers := by
  induction specifiers with
  | nil => rfl
  | cons s rest ih =>
    have hs : l.nameOf s referrer = l.nameOf s referrer' :=
      Specifier.normalize_of_not_relative (h s (by simp)) hm _ _ _
    rw [resolveAll, resolveAll, hs, ih fun t ht => h t (by simp [ht])]

theorem mem_resolveAll {l : Loader} {referrer : Option String} {specifiers : List String}
    {dependencies : List Dependency} (h : l.resolveAll referrer specifiers = .ok dependencies)
    {d : Dependency} (hd : d ∈ dependencies) :
    d.specifier ∈ specifiers ∧ l.nameOf d.specifier referrer = .ok d.name := by
  induction specifiers generalizing dependencies with
  | nil =>
    cases h
    simp at hd
  | cons s rest ih =>
    simp only [resolveAll, bind_eq_ok_iff, pure, Except.pure, Except.ok.injEq] at h
    obtain ⟨name, hn, others, ho, rfl⟩ := h
    rcases List.mem_cons.1 hd with rfl | hd
    · exact ⟨by simp, hn⟩
    · exact ⟨List.mem_cons_of_mem _ (ih ho hd).1, (ih ho hd).2⟩

/-! ## Default stages -/

/-- The loads go through the default stages, with the compiler or without one. -/
def Standard (l : Loader) : Prop :=
  ∃ extension compiler, l.stages = .standard extension compiler ∧
    (compiler = none ∨ compiler = some Dialect.compile)

/-- A source text requests a name, for some referrer. -/
def Requests (l : Loader) (text name : String) : Prop :=
  ∃ specifier ∈ requestsOf text, ∃ referrer, l.nameOf specifier referrer = .ok name

variable {l : Loader}

theorem complete_requests (h : l.Standard) {load load' : Load} {text : String}
    (hc : l.stages.complete load text = .ok load') :
    requestsOf (load'.code.getD "") = requestsOf text ∧ load'.instantiation = none := by
  obtain ⟨extension, compiler, hs, hcompiler⟩ := h
  simp only [hs, Stages.complete, bind_eq_ok_iff, pure, Except.pure, Except.ok.injEq,
    Stages.standard, Stages.compileWith] at hc
  obtain ⟨compiled, hc, instantiation, rfl, rfl⟩ := hc
  refine ⟨?_, rfl⟩
  rcases hcompiler with rfl | rfl
  · cases hc
    rfl
  · exact requestsOf_compiled hc

/-- The dependencies of a unit are what its source text requests. -/
theorem linkSource_requests (h : l.Standard) {id : Nat} {load : Load} {text : String}
    {referrer : Option String} {u : LoadedUnit}
    (hu : (l.linkSource id load text referrer).1 = .ok u) {d : Dependency}
    (hd : d ∈ u.dependencies) : l.Requests text d.name := by
  rw [linkSource] at hu
  split at hu
  · cases hu
  · rename_i load' hc
    obtain ⟨hcode, hnone⟩ := complete_requests h hc
    simp only [unitOf, hnone, bind_eq_ok_iff, pure, Except.pure, Except.ok.injEq] at hu
    obtain ⟨linked, hlink, dependencies, hall, rfl⟩ := hu
    obtain ⟨hm, hn⟩ := mem_resolveAll hall hd
    rw [link_requests hlink, hcode] at hm
    rw [(keepMap_alike l load').nameOf] at hn
    exact ⟨d.specifier, hm, referrer, hn⟩

theorem prepare_standard (h : l.Standard) {name : String} {metadata : Metadata} {load : Load}
    {text : String} :
    l.stages.prepare (.start name .module metadata) ≠ .ok (load, .given text) := by
  obtain ⟨extension, compiler, hs, -⟩ := h
  intro hp
  simp only [hs, Stages.prepare, Load.start, bind_eq_ok_iff, pure, Except.pure, Except.ok.injEq,
    Prod.mk.injEq, Stages.standard, Stages.fetchStored] at hp
  obtain ⟨located, -, source, hsource, -, rfl⟩ := hp
  split at hsource <;> cases hsource

/-- What is loaded from the files depends on what a file requests. -/
theorem outcome_requests (h : l.Standard) {id : Nat} {st : LoadState} {u : LoadedUnit}
    (hu : l.outcome id st = .ok u) (hf : st.isFinished = false) :
    ∃ address text, l.files.text address = .ok text ∧
      ∀ d ∈ u.dependencies, l.Requests text d.name := by
  have hanswered {load : Load} {address : String} (hu : l.answered id load address = .ok u) :
      ∃ address text, l.files.text address = .ok text ∧
        ∀ d ∈ u.dependencies, l.Requests text d.name := by
    rw [answered] at hu
    split at hu
    · cases hu
    · rename_i text ht
      exact ⟨address, text, ht, fun d hd => linkSource_requests h hu hd⟩
  cases st with
  | finished r => simp [LoadState.isFinished] at hf
  | waiting load address turns => exact hanswered hu
  | created name metadata =>
    rw [outcome] at hu
    split at hu
    · cases hu
    · rename_i hp
      exact absurd hp (prepare_standard h)
    · exact hanswered hu

/-! ## Names that nobody requests -/

/-- Nothing requests a name: no record depends on it and no unit that has arrived, and no file
requests it. -/
structure Unrequested (l : Loader) (name : String) : Prop where
  records : ∀ {n : String} {record : Record Body}, l.registry.get? n = some record →
    ∀ d ∈ record.dependencies, d.name ≠ name
  units : ∀ {u : LoadedUnit}, l.Arrived u → ∀ d ∈ u.dependencies, d.name ≠ name
  files : ∀ {address text : String}, l.files.text address = .ok text → ¬ l.Requests text name

variable {l' : Loader} {name : String}

theorem Alike.requests (h : Alike l l') (text : String) :
    l'.Requests text name ↔ l.Requests text name := by
  simp only [Requests, h.nameOf]

theorem Alike.standard (h : Alike l l') (hs : l.Standard) : l'.Standard := by
  obtain ⟨extension, compiler, hstages, hc⟩ := hs
  exact ⟨extension, compiler, h.stages.trans hstages, hc⟩

theorem move_arrived {id : Nat} {u : LoadedUnit} (h : (l.move id).2.Arrived u) :
    l.Arrived u ∨ ∃ st, st.isFinished = false ∧ l.outcome id st = .ok u := by
  by_cases hi : u.body.load = id
  · have hm := move_moved l id
    generalize l.move id = c at hm h
    cases hm with
    | absent | known => exact Or.inl h
    | begins | waits => simp [Arrived, hi, setLoad, announced, List.getElem?_set] at h
    | @ends st name maps hs hf =>
      refine Or.inr ⟨st, hf, ?_⟩
      cases ho : l.outcome id st with
      | error e => simp [ho, Arrived, hi, finish, setLoad, List.getElem?_set] at h
      | ok v =>
        simp only [ho, Arrived, hi, finish, setLoad, List.getElem?_set, if_true] at h
        split at h
        · cases h
          rfl
        · cases h
  · rw [Arrived, move_other l hi] at h
    exact Or.inl h

theorem join_arrived {n : String} {metadata : Metadata} {u : LoadedUnit}
    (h : (l.join n metadata).2.Arrived u) : l.Arrived u := by
  rw [join] at h
  split at h
  · exact h
  · rcases getElem?_concat_eq_some_iff.1 h with h | ⟨-, h⟩
    · exact h
    · cases h

theorem wantAll_arrived {metadata : Metadata} {seen : List String} {dependencies : List Dependency}
    {u : LoadedUnit} (h : (wantAll metadata l seen dependencies).2.2.Arrived u) : l.Arrived u := by
  have hback := (wantAll_joins metadata l seen dependencies).preserves
    (P := fun m => m.Arrived u → l.Arrived u) (fun name hm ha => hm (join_arrived ha)) id
  exact hback h

/-- What is loaded from the files does not depend on a name that nothing requests. -/
theorem Unrequested.grows (h : l.Unrequested name) (hs : l.Standard) (ha : Alike l l')
    (hr : l'.registry = l.registry) (hu : ∀ {u : LoadedUnit}, l'.Arrived u → l.Arrived u ∨
      ∃ id st, LoadState.isFinished st = false ∧ l.outcome id st = .ok u) :
    l'.Unrequested name := by
  constructor
  · rw [hr]
    exact h.records
  · intro u harrived d hd
    rcases hu harrived with harrived | ⟨id, st, hf, hout⟩
    · exact h.units harrived d hd
    · obtain ⟨address, text, ht, hall⟩ := outcome_requests hs hout hf
      intro hn
      exact h.files ht (hn ▸ hall d hd)
  · intro address text ht
    rw [ha.text] at ht
    rw [ha.requests]
    exact h.files ht

theorem Unrequested.graphStep {task task' : GraphTask} (h : l.Unrequested name) (hs : l.Standard)
    (hl : l.Sound) (ht : task.Sound l) (hstep : GraphStep (task, l) (task', l')) :
    l'.Unrequested name := by
  have hg := (graphStep_spec hstep hl ht).2.2.grows
  apply h.grows hs hg.alike hg.registry
  intro u hu
  cases hstep with
  | idle => exact Or.inl hu
  | expand hv hn he =>
    rw [expand, Prod.mk.injEq] at he
    rw [← he.2] at hu
    exact Or.inl (wantAll_arrived hu)
  | load hload =>
    have hmove {id : Nat} (hm : (l.move id).2 = l') : l.Arrived u ∨
        ∃ id st, LoadState.isFinished st = false ∧ l.outcome id st = .ok u := by
      rw [← hm] at hu
      exact (move_arrived hu).imp_right fun hst => ⟨id, hst⟩
    generalize task.frontier = f at hload
    cases hload with
    | going _ hgo _ =>
      cases hgo with
      | mk hm => exact hmove (congrArg Prod.snd hm)
    | ending _ hend _ =>
      cases hend with
      | mk hm => exact hmove (congrArg Prod.snd hm)

end Loader

end ModuleLoader

import ModuleLoader.Proofs.Dialect.LineOrigins
import ModuleLoader.Proofs.Loader.RequestHoldings

/-! # Compilations

A step of a request compiles one module at most: that of the load which ends in it, or the source
that the request brought along. The map of a module is kept as soon as it is compiled, whatever
becomes of the load afterwards.
-/

namespace ModuleLoader

open Dialect

/-! ## Loads that were completed -/

/-- A load as it was completed, and its number. -/
structure Compilation where
  id : Nat
  load : Load

/-- The entry under which the source map of a load is kept. -/
def Load.entry? (load : Load) : Option SourceMap.Entry :=
  load.sourceMap.map fun map => ⟨load.name, load.kind, map, load.url⟩

/-- A module went through the standard stages from a source text, and its map was made. -/
structure Load.CompletedFrom (load : Load) (text : String) : Prop where
  kind : load.kind = .module
  source : load.source = some text
  compiled : ∃ compiled, compile text ⟨.module, true, load.name, load.url⟩ = .ok compiled ∧
    load.code = some compiled.code ∧ load.sourceMap = compiled.sourceMap
  instantiation : load.instantiation = none

/-- The body of a unit was linked from the code of a source text. -/
def LoadedUnit.LinkedFrom (u : LoadedUnit) (text : String) : Prop :=
  ∃ url compiled, compile text ⟨.module, true, u.name, url⟩ = .ok compiled ∧
    link u.name compiled.code = .ok u.body.linked

/-- The map of what was compiled holds the source text. -/
theorem contentOf?_compiled {source : String} {options : CompileOptions} {compiled : Compiled}
    (h : compile source options = .ok compiled) (hm : options.sourceMap = true) :
    ∃ map, compiled.sourceMap = some map ∧ map.contentOf? options.url = some source := by
  rw [compile_eq] at h
  cases hp : unitOf source options with
  | error e =>
    rw [hp] at h
    cases h
  | ok p =>
    rw [hp] at h
    cases h
    exact ⟨_, if_pos hm, SourceMap.contentOf?_ofLines ..⟩

namespace Load.CompletedFrom

variable {load : Load} {text : String}

/-- The map of a load holds the text. -/
theorem entry (h : load.CompletedFrom text) : ∃ entry, load.entry? = some entry ∧
    entry.name = load.name ∧ entry.kind = .module ∧
    entry.map.contentOf? entry.url = some text := by
  obtain ⟨compiled, hc, -, hm⟩ := h.compiled
  obtain ⟨map, hmap, hcontent⟩ := contentOf?_compiled hc rfl
  refine ⟨⟨load.name, load.kind, map, load.url⟩, ?_, rfl, h.kind, hcontent⟩
  rw [Load.entry?, hm, hmap]
  rfl

/-- So does its unit. -/
theorem linked (h : load.CompletedFrom text) {l : Loader} {id : Nat} {referrer : Option String}
    {u : LoadedUnit} (hu : l.unitOf id load referrer = .ok u) : u.LinkedFrom text := by
  obtain ⟨compiled, hc, hcode, -⟩ := h.compiled
  rw [Loader.unitOf, h.instantiation, hcode] at hu
  simp only [bind_eq_ok_iff, pure, Except.pure, Except.ok.injEq] at hu
  obtain ⟨linked, hl, dependencies, -, rfl⟩ := hu
  exact ⟨load.url, compiled, hc, hl⟩

end Load.CompletedFrom

namespace Stages

theorem locateOnce_frame {s : Stages} {load load' : Load} (h : s.locateOnce load = .ok load') :
    load'.kind = load.kind ∧ load'.metadata = load.metadata := by
  rw [locateOnce] at h
  split at h
  · cases h
    exact ⟨rfl, rfl⟩
  · simp only [bind_eq_ok_iff, pure, Except.pure, Except.ok.injEq] at h
    obtain ⟨address, -, rfl⟩ := h
    exact ⟨rfl, rfl⟩

/-- Until its source is known, a load keeps its kind and its metadata. -/
theorem prepare_frame {s : Stages} {load load' : Load} {t : SourceText}
    (h : s.prepare load = .ok (load', t)) :
    load'.kind = load.kind ∧ load'.metadata = load.metadata := by
  rw [prepare] at h
  split at h
  · cases h
    exact ⟨rfl, rfl⟩
  · simp only [bind_eq_ok_iff, pure, Except.pure, Except.ok.injEq, Prod.mk.injEq] at h
    obtain ⟨located, hl, source, -, rfl, -⟩ := h
    exact locateOnce_frame hl

theorem complete_kind {s : Stages} {load load' : Load} {text : String}
    (h : s.complete load text = .ok load') : load'.kind = load.kind := by
  simp only [complete, bind_eq_ok_iff, pure, Except.pure, Except.ok.injEq] at h
  obtain ⟨compiled, -, instantiation, -, rfl⟩ := h
  rfl

theorem complete_standard {extension : String} {load load' : Load} {text : String}
    (hk : load.kind = .module) (hm : load.metadata.sourceMaps = true)
    (h : (standard extension (some Dialect.compile)).complete load text = .ok load') :
    load'.CompletedFrom text := by
  simp only [complete, bind_eq_ok_iff, pure, Except.pure, Except.ok.injEq, standard,
    compileWith] at h
  obtain ⟨compiled, hc, instantiation, rfl, rfl⟩ := h
  rw [hk, hm] at hc
  exact ⟨hk, rfl, ⟨compiled, hc, rfl, rfl⟩, rfl⟩

end Stages

/-- An index after a load was completed, if it was. -/
def SourceMap.Index.keep (index : SourceMap.Index) (load? : Option Load) : SourceMap.Index :=
  (load?.bind Load.entry?).elim index index.insert

theorem SourceMap.Index.get?_keep {load : Load} {text : String} (h : load.CompletedFrom text)
    (index : SourceMap.Index) (n : String) :
    (index.keep (some load)).get? n .module =
      if load.name = n then load.entry? else index.get? n .module := by
  obtain ⟨entry, he, hname, hkind, -⟩ := h.entry
  simp only [keep, Option.bind_some, he, Option.elim, get?_insert, hname, hkind, and_true]
  by_cases hn : n = load.name
  · rw [if_pos hn, if_pos hn.symm]
  · rw [if_neg hn, if_neg (Ne.symm hn)]

/-- Where scripts are kept no module is. -/
theorem SourceMap.Index.get?_keep_script {load : Load} (h : load.kind = .script)
    (index : SourceMap.Index) (n : String) :
    (index.keep (some load)).get? n .module = index.get? n .module := by
  cases hm : load.sourceMap with
  | none => simp [keep, Load.entry?, hm]
  | some map => simp [keep, Load.entry?, hm, get?_insert, h]

namespace Loader

/-- A load as it will be completed once the files have answered. -/
def received? (l : Loader) (load : Load) (address : String) : Option Load :=
  (l.files.text address).toOption.bind fun text => (l.stages.complete load text).toOption

/-- A load as it will be completed. -/
def completed? (l : Loader) : LoadState → Option Load
  | .created name metadata =>
    match l.stages.prepare (.start name .module metadata) with
    | .error _ => none
    | .ok (load, .given text) => (l.stages.complete load text).toOption
    | .ok (load, .stored address) => l.received? load address
  | .waiting load address _ => l.received? load address
  | .finished _ => none

theorem keepMap_sourceMaps (l : Loader) (load : Load) :
    (l.keepMap load).sourceMaps = l.sourceMaps.keep (some load) := by
  rw [keepMap]
  cases h : load.sourceMap with
  | none => simp [SourceMap.Index.keep, Load.entry?, h]
  | some map => simp [SourceMap.Index.keep, Load.entry?, h]

theorem linkSource_sourceMaps (l : Loader) (id : Nat) (load : Load) (text : String)
    (referrer : Option String) : (l.linkSource id load text referrer).2.sourceMaps =
      l.sourceMaps.keep (l.stages.complete load text).toOption := by
  rw [linkSource]
  split
  · rename_i e hc
    rw [hc]
    rfl
  · rename_i load' hc
    rw [hc]
    exact keepMap_sourceMaps l load'

theorem finish_sourceMaps (l : Loader) (id : Nat) (name : String)
    (r : Except LoadError LoadedUnit) : (l.finish id name r).sourceMaps = l.sourceMaps := by
  cases r <;> rfl

theorem receive_sourceMaps (l : Loader) (id : Nat) (load : Load) (address : String) :
    (l.receive id load address).2.sourceMaps = l.sourceMaps.keep (l.received? load address) := by
  rw [receive, received?]
  split
  · rename_i e ht
    rw [ht, finish_sourceMaps]
    rfl
  · rename_i text ht
    rw [ht, answer]
    simp only [finish_sourceMaps, linkSource_sourceMaps]
    rfl

/-- A load that ends has its map kept, if it gets as far as that. -/
theorem begin_sourceMaps {l l' : Loader} {id : Nat} {name : String} {metadata : Metadata}
    {r : Except LoadError LoadedUnit} (h : l.begin id name metadata = (some r, l')) :
    l'.sourceMaps = l.sourceMaps.keep (l.completed? (.created name metadata)) := by
  have hp : (l.note (.began name id)).stages = l.stages := rfl
  rw [completed?]
  simp only [begin, hp] at h
  split at h <;> rename_i hprep
  · cases h
    simp only [hprep, finish_sourceMaps]
    rfl
  · cases h
    simp only [hprep, answer, finish_sourceMaps, linkSource_sourceMaps]
    rfl
  · split at h
    · simp at h
    · cases h
      simp only [hprep, receive_sourceMaps]
      rfl

theorem move_sourceMaps {l l' : Loader} {id : Nat} {st : LoadState}
    {r : Except LoadError LoadedUnit} (h : l.move id = (some r, l'))
    (hst : l.loads[id]? = some st) : l'.sourceMaps = l.sourceMaps.keep (l.completed? st) := by
  rw [move, hst] at h
  cases st with
  | created name metadata => exact begin_sourceMaps h
  | finished result =>
    cases h
    rfl
  | waiting load address turns =>
    cases turns with
    | succ turns => simp at h
    | zero =>
      cases h
      exact receive_sourceMaps l id load address

theorem linkSource_completed {l : Loader} {id : Nat} {load : Load} {text : String}
    {referrer : Option String} {u : LoadedUnit}
    (h : (l.linkSource id load text referrer).1 = .ok u) : ∃ load' l₁,
      l.stages.complete load text = .ok load' ∧ Loader.unitOf l₁ id load' referrer = .ok u := by
  rw [linkSource] at h
  split at h
  · cases h
  · rename_i load' hc
    exact ⟨load', l.keepMap load', hc, h⟩

/-- A load that comes to a unit was completed. -/
theorem completed_of_outcome {l : Loader} {id : Nat} {st : LoadState} {u : LoadedUnit}
    (h : l.outcome id st = .ok u) (hf : st.isFinished = false) :
    ∃ load l₁ referrer, l.completed? st = some load ∧
      Loader.unitOf l₁ id load referrer = .ok u := by
  have hanswered {load : Load} {address : String} (h : l.answered id load address = .ok u) :
      ∃ load' l₁ referrer, l.received? load address = some load' ∧
        Loader.unitOf l₁ id load' referrer = .ok u := by
    rw [answered] at h
    split at h
    · cases h
    · rename_i text ht
      obtain ⟨load', l₁, hc, hu⟩ := linkSource_completed h
      exact ⟨load', l₁, _, by rw [received?, ht]; simp [Except.toOption, hc], hu⟩
  cases st with
  | finished r => simp [LoadState.isFinished] at hf
  | waiting load address turns => exact hanswered h
  | created name metadata =>
    rw [outcome] at h
    rw [completed?]
    split at h <;> rename_i hp
    · cases h
    · rename_i load text
      obtain ⟨load', l₁, hc, hu⟩ := linkSource_completed h
      exact ⟨load', l₁, _, by simp [hp, Except.toOption, hc], hu⟩
    · simpa only [hp] using hanswered h

theorem loadInline_eq (l : Loader) (load : Load) (source : String) (referrer : Option String) :
    l.loadInline load source referrer =
      ((l.linkSource l.loads.length load source referrer).1,
        { l.note (.began load.name l.loads.length) with
          loads := l.loads ++
            [.finished (l.linkSource l.loads.length load source referrer).1]
          sourceMaps := l.sourceMaps.keep (l.stages.complete load source).toOption }) := by
  have hfst := (note_alike l (.began load.name l.loads.length)).linkSource l.loads.length
    { load with source := some source } source referrer
  have hmaps := linkSource_sourceMaps (l.note (.began load.name l.loads.length)) l.loads.length
    { load with source := some source } source referrer
  obtain ⟨maps, hsnd⟩ := linkSource_snd (l.note (.began load.name l.loads.length)) l.loads.length
    { load with source := some source } source referrer
  rw [hsnd] at hmaps
  change maps = _ at hmaps
  subst hmaps
  simp only [loadInline, hfst, hsnd]
  rfl

/-! ## What a step compiles -/

/-- The first load that has ended between two states of a loader. -/
def ended? (l l' : Loader) : Option Nat :=
  (List.range l.loads.length).find? fun id => !l.isFinished id && l'.isFinished id

/-- What was compiled for the load that has ended between two states of a loader. -/
def compiled? (l l' : Loader) : Option Compilation := do
  let id ← l.ended? l'
  let st ← l.loads[id]?
  let load ← l.completed? st
  return ⟨id, load⟩

/-- What is compiled of a source at hand. -/
def inline? (l : Loader) (name source : String) (options : RequestOptions) : Option Compilation :=
  let load := { Load.start name .module (l.metadataOf options) with
    referrer := options.referrer
    address := options.address }
  (l.stages.complete load source).toOption.map (⟨l.loads.length, ·⟩)

/-- What is compiled of the source that a request brings along. -/
def brought? (l : Loader) (request : Request) : Option Compilation :=
  match request.demand with
  | .define given source =>
    match l.nameOf given request.options.referrer with
    | .error _ => none
    | .ok name =>
      if l.registry.has name || l.defining.contains name then none
      else l.inline? name source request.options
  | .module source => l.inline? l.freshName.1 source request.options
  | _ => none

/-- What is compiled in a step of a request, given the loader after it. -/
def compilation? (l l' : Loader) : Activity → Option Compilation
  | .delayed 0 request => l.brought? request
  | _ => l.compiled? l'

end Loader

end ModuleLoader

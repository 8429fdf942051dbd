import ModuleLoader.Load.Overrides
import ModuleLoader.Proofs.Dialect.LineOrigins
import ModuleLoader.Proofs.Loader.BoundSteps
import ModuleLoader.Proofs.Session.Redefinitions
import ModuleLoader.Proofs.Session.Reimport

/-! # Requests for modules that import

A module requests what its statements name, and its dependencies bind what it requests. So without
instantiations ahead of the code no request is rejected because an import is not there, in whatever
order requests take their turns and whatever is registered, removed or configured in between.
-/

namespace ModuleLoader

open Dialect Loader Relation

/-! ## Stages and files of the library -/

/-- The standard stages, behind fixed answers that instantiate nothing. -/
def Stages.Ordinary (s : Stages) : Prop :=
  ∃ (o : Overrides) (extension : String) (compiler : Option Compiler),
    o.instantiate = .empty ∧ (compiler = none ∨ compiler = some Dialect.compile) ∧
      s = o.inFrontOf (.standard extension compiler)

/-- The files of a table, or local files. -/
def Files.Ordinary (files : Files) : Prop :=
  (∃ t latency, files = .ofTable t latency) ∨ ∃ read latency, files = .ofLocal read latency

section Ordinary

variable {e : LoadError}

theorem compile_kind {source : String} {options : CompileOptions}
    (h : Dialect.compile source options = .error e) : e.kind = .compile := by
  rw [compile_eq] at h
  have hunit := map_eq_error_iff.1 h
  rw [Dialect.unitOf] at hunit
  split at hunit
  · exact scriptOf_kind hunit
  · exact programOf_kind hunit

theorem compileWith_kind {compiler : Option Compiler} {load : Load}
    (hc : compiler = none ∨ compiler = some Dialect.compile)
    (h : Stages.compileWith compiler load = .error e) : e.kind = .compile := by
  unfold Stages.compileWith at h
  split at h
  · cases h
    rfl
  · rcases hc with hc | hc <;> cases hc
    exact compile_kind h
  · cases h

theorem locate_kind {extension base name : String}
    (h : Address.locate extension base name = .error e) : e.kind = .fetch := by
  unfold Address.locate at h
  simp only at h
  repeat' split at h
  all_goals cases h
  rfl

theorem localPath_kind {address : String} (h : Files.localPath address = .error e) :
    e.kind = .fetch := by
  unfold Files.localPath at h
  repeat' split at h
  all_goals cases h
  all_goals rfl

/-- Ordinary stages instantiate nothing ahead of its code. -/
theorem Stages.Ordinary.plain {s : Stages} (h : s.Ordinary) : s.Plain := by
  obtain ⟨o, extension, compiler, ho, -, rfl⟩ := h
  intro load
  simp only [Overrides.inFrontOf, ho]
  rfl

/-- What ordinary stages refuse is out of reach, or no code. -/
theorem Stages.Ordinary.kind {s : Stages} (h : s.Ordinary) (hg : s.Gives e) :
    e.kind = .fetch ∨ e.kind = .compile := by
  obtain ⟨o, extension, compiler, -, hc, rfl⟩ := h
  obtain ⟨load, hlocate | hfetch | hcompile⟩ := hg
  · left
    simp only [Overrides.inFrontOf] at hlocate
    split at hlocate
    · cases hlocate
    · cases hlocate
      rfl
    · exact locate_kind hlocate
  · left
    simp only [Overrides.inFrontOf, standard, fetchStored] at hfetch
    split at hfetch
    · cases hfetch
    · cases hfetch
      rfl
    · split at hfetch <;> cases hfetch
      rfl
  · right
    simp only [Overrides.inFrontOf] at hcompile
    split at hcompile
    · unfold Overrides.codeOf at hcompile
      split at hcompile <;> cases hcompile
      rfl
    · exact compileWith_kind hc hcompile

theorem Files.Ordinary.kind {files : Files} (h : files.Ordinary) (hg : files.Gives e) :
    e.kind = .fetch := by
  obtain ⟨address, hg⟩ := hg
  obtain ⟨t, latency, rfl⟩ | ⟨read, latency, rfl⟩ := h
  · simp only [ofTable, FileTable.fetch] at hg
    split at hg <;> cases hg
    rfl
  · rcases bind_eq_error_iff.1 hg with hpath | ⟨path, -, hread⟩
    · exact localPath_kind hpath
    · split at hread <;> cases hread
      rfl

end Ordinary

namespace Session

variable {outside : LoadError → Prop} {s : Session} {budget : Nat}

/-- A request was rejected with an error, or evaluating a registered module fails with it. -/
def Refuses (s : Session) (e : LoadError) : Prop :=
  .settled (.error e) ∈ s.activities ∨ ∃ name, (s.loader.get name).1 = .error e

/-- An error that the stages give, or the files at some time. -/
def Given (stages : Stages) (files : Files) (moves : List Move) (e : LoadError) : Prop :=
  stages.Gives e ∨ files.Gives e ∨ ∃ other, .files other ∈ moves ∧ other.Gives e

/-- A loader that binds, and requests with excused errors only. -/
structure Binds (outside : LoadError → Prop) (s : Session) : Prop where
  loader : s.loader.Binds outside
  activities : ∀ a ∈ s.activities, a.Excused outside

theorem Binds.takeTurn (h : s.Binds outside) (hs : s.Sound) (hr : s.Resting) (i : Nat) :
    (s.takeTurn (budget + 1) i).Binds outside := by
  cases ha : s.activities[i]? with
  | none => rwa [takeTurn_none ha]
  | some a =>
    have hmem := List.mem_of_getElem? ha
    have hp := Loader.Sound.turn_preserves
      (P := fun a l => l.registry.Resting ∧ InOrder outside (a, l)) budget
      (fun hadv hl ha ⟨hr, ho⟩ => ⟨advance_resting hadv hl ha hr, ho.advance ha hr hadv⟩)
      hs.loader (hs.activities a hmem) ⟨hr, h.loader, h.activities a hmem⟩
    rw [takeTurn_eq ha]
    refine ⟨hp.2.loader, fun b hb => ?_⟩
    rcases List.mem_or_eq_of_mem_set hb with hb | rfl
    · exact h.activities b hb
    · exact hp.2.activity

/-- Other files may only add errors from outside. -/
theorem Binds.move (h : s.Binds outside) (hs : s.Sound) (hr : s.Resting) {m : Move}
    (hm : ∀ files, m = .files files → ∀ e, files.Gives e → outside e) :
    (s.move (budget + 1) m).Binds outside := by
  obtain ⟨⟨hguarded, hloads, hregistry⟩, hactivities⟩ := h
  cases m with
  | turn i => exact Binds.takeTurn ⟨⟨hguarded, hloads, hregistry⟩, hactivities⟩ hs hr i
  | request turns request =>
    refine ⟨⟨hguarded, hloads, hregistry⟩, fun a ha => ?_⟩
    rcases List.mem_append.1 ha with ha | ha
    · exact hactivities a ha
    · rw [List.mem_singleton.1 ha]
      trivial
  | files files =>
    exact ⟨⟨⟨hguarded.stages, hguarded.plain, hm files rfl⟩, hloads, hregistry⟩, hactivities⟩
  | configure options map => exact ⟨⟨hguarded.of_eq rfl rfl, hloads, hregistry⟩, hactivities⟩
  | set name ns =>
    exact ⟨⟨hguarded.of_eq rfl rfl, hloads, hregistry.setEvaluated name ns⟩, hactivities⟩
  | delete name =>
    exact ⟨⟨hguarded.of_eq rfl rfl, hloads, hregistry.delete name⟩, hactivities⟩
  | get name =>
    refine ⟨?_, hactivities⟩
    simp only [Session.move, Loader.get]
    split
    · have hb : s.loader.Binds outside := ⟨hguarded, hloads, hregistry⟩
      exact (hb.evaluate hr name).pauses (reported_pauses _ _)
    · exact ⟨hguarded, hloads, hregistry⟩

theorem Binds.play (h : s.Binds outside) (hs : s.Sound) (hr : s.Resting) {moves : List Move}
    (hm : ∀ files, .files files ∈ moves → ∀ e, files.Gives e → outside e) :
    (s.play (budget + 1) moves).Binds outside := by
  have hboth := hs.play_preserves (P := fun s => s.Resting ∧ s.Binds outside)
    (fun m hmem hs ⟨hr, h⟩ => ⟨hr.move hs budget m, h.move hs hr fun files he =>
      hm files (he ▸ hmem)⟩) ⟨hr, h⟩
  exact hboth.2

/-! ## New loaders -/

section Build

variable {options : Options} {stages : Stages} {files : Files} {reporter : Reporter}
  {realm : Realm} {l : Loader}

theorem binds_start (hb : Loader.build options stages files reporter realm = .ok l)
    (hs : ∀ e, stages.Gives e → outside e) (hp : stages.Plain)
    (hf : ∀ e, files.Gives e → outside e) : (start l).Binds outside := by
  simp only [build, bind_eq_ok_iff, pure, Except.pure, Except.ok.injEq] at hb
  obtain ⟨options', -, rfl⟩ := hb
  exact ⟨⟨⟨hs, hp, hf⟩, by simp [start], Registry.empty_bound.setEvaluated _ _⟩, by simp [start]⟩

/-- A request is rejected for lack of an import only with an error that a stage or the files give. -/
theorem given_of_not_imported (hb : Loader.build options stages files reporter realm = .ok l)
    (hp : stages.Plain) (budget : Nat) (moves : List Move) {e : LoadError}
    (he : e.IsNotImported) (h : ((start l).play (budget + 1) moves).Refuses e) :
    Given stages files moves e := by
  have hr : ((start l).play (budget + 1) moves).Reached budget := ⟨_, _, _, _, _, _, _, hb, rfl⟩
  have hr₀ : (start l).Reached budget := ⟨_, _, _, _, _, _, [], hb, rfl⟩
  have hstart : (start l).Binds (Given stages files moves) :=
    binds_start hb (fun _ h => Or.inl h) hp fun _ h => Or.inr (Or.inl h)
  have hplay : ((start l).play (budget + 1) moves).Binds (Given stages files moves) :=
    hstart.play hr₀.sound hr₀.resting fun other hm _ h => Or.inr (Or.inr ⟨other, hm, h⟩)
  rcases h with h | ⟨name, h⟩
  · exact hplay.activities _ h he
  · exact absurd he (get_not_isNotImported hr.resting hplay.loader.registry h)

/-- With ordinary stages and files no request is rejected for lack of an import. -/
theorem not_lacking_of_ordinary (hb : Loader.build options stages files reporter realm = .ok l)
    (hs : stages.Ordinary) (hf : files.Ordinary) (budget : Nat) {moves : List Move}
    (hm : ∀ other, .files other ∈ moves → other.Ordinary) {e : LoadError}
    (h : ((start l).play (budget + 1) moves).Refuses e) : ¬ e.IsNotImported := by
  intro he
  have hkind := he.kind
  rcases given_of_not_imported hb hs.plain budget moves he h with hg | hg | ⟨other, ho, hg⟩
  · rcases hs.kind hg with hk | hk <;> simp [hkind] at hk
  · have hk := hf.kind hg
    simp [hkind] at hk
  · have hk := (hm other ho).kind hg
    simp [hkind] at hk

end Build

/-- A module that links requests what its program names, and where its requests are bound, its body
does not stop for lack of an import. So however a loader is used that instantiates nothing ahead of
its code, no request is rejected for lack of an import, unless a stage or the files said so; and the
ordinary ones never do. -/
theorem no_request_lacks_imports :
    (∀ (name code : String) (m : Linked), link name code = .ok m →
      programOf name code = .ok m.program ∧ m.program.Lists m.requests ∧
      ∀ (imports : Imports) (realm : Realm) (e : LoadError),
        (∀ s ∈ m.requests, imports.get? s ≠ none) → (m.run imports realm).1 = .error e →
          ¬ e.IsNotImported) ∧
    ∀ (options : Options) (stages : Stages) (files : Files) (reporter : Reporter) (realm : Realm)
      (l : Loader), Loader.build options stages files reporter realm = .ok l → stages.Plain →
      ∀ (budget : Nat) (moves : List Move) (e : LoadError),
        ((start l).play (budget + 1) moves).Refuses e →
        (e.IsNotImported → Given stages files moves e) ∧
        (stages.Ordinary → files.Ordinary → (∀ other, .files other ∈ moves → other.Ordinary) →
          ¬ e.IsNotImported) := by
  refine ⟨fun name code m hlink => ?_, fun _ _ _ _ _ l hb hp budget moves e h => ⟨?_, ?_⟩⟩
  · obtain ⟨p, hprogram, rfl⟩ := link_eq_ok_iff.1 hlink
    refine ⟨hprogram, p.lists_requests, fun imports realm e himports hrun => ?_⟩
    rintro ⟨n, s, rfl⟩
    obtain ⟨hs, hnone⟩ := Linked.exists_unbound hrun
    exact himports s hs hnone
  · exact fun he => given_of_not_imported hb hp budget moves he h
  · exact fun hs hf hm => not_lacking_of_ordinary hb hs hf budget hm h

/-! ## A module that asks for too much -/

/-- A source that names another module in two ways, and asks it for what it does not have. -/
def namedTwice : String := "import {a} from './p';\nexport {z} from 'p';"

/-- The file of that module, and that of the other one. -/
def partialFiles : List (String × String) := [("n.js", namedTwice), ("p.js", "export var a = 1;")]

/-- An import, and its only turn. -/
def partialMoves : List Move := [.request 0 ⟨.importModule "n", .none⟩, .turn 0]

/-- Imports that bind both names. -/
def partialImports : Imports :=
  .ofList [("./p", ⟨2, .ofList [("a", .string "1")]⟩), ("p", ⟨2, .ofList [("a", .string "1")]⟩)]

/-- How the body of a linked source stops. -/
def stopOf? (name code : String) (imports : Imports) : Option String :=
  match link name code with
  | .error _ => none
  | .ok m =>
    match (m.run imports .empty).1 with
    | .error e => some e.message
    | .ok _ => none

theorem exists_run_of_stopOf? {name code message : String} {imports : Imports}
    (h : stopOf? name code imports = some message) :
    ∃ m e, link name code = .ok m ∧ (m.run imports .empty).1 = .error e ∧ e.message = message := by
  unfold stopOf? at h
  split at h
  · cases h
  · rename_i m hm
    split at h
    · rename_i e he
      cases h
      exact ⟨m, e, hm, he, rfl⟩
    · cases h

theorem refuses_of_messageAt? {s : Session} {i : Nat} {message : String}
    (h : s.messageAt? i = some message) : ∃ e, s.Refuses e ∧ e.message = message := by
  unfold messageAt? at h
  split at h
  · rename_i e he
    cases h
    exact ⟨e, Or.inl (List.mem_of_getElem? he), rfl⟩
  · cases h

theorem no_request_lacks_imports_partial :
    (∃ m e, link "n" namedTwice = .ok m ∧ m.requests = ["./p", "p"] ∧
      m.program.Lists ["./p", "p"] ∧ (m.run partialImports .empty).1 = .error e ∧
      e.message = "InstantiateError: n: module 'p' does not export 'z'" ∧ ¬ e.IsNotImported) ∧
    ∃ e, ((start (ofFiles 0 partialFiles)).play 9 partialMoves).Refuses e ∧
      e.message = "InstantiateError: n: module 'p' does not export 'z'" ∧ ¬ e.IsNotImported := by
  have hstop : stopOf? "n" namedTwice partialImports =
      some "InstantiateError: n: module 'p' does not export 'z'" := by
    decide +kernel
  have hmessage : ((start (ofFiles 0 partialFiles)).play 9 partialMoves).messageAt? 0 =
      some "InstantiateError: n: module 'p' does not export 'z'" := by
    decide +kernel
  have hrequests : (link "n" namedTwice).toOption.map Linked.requests = some ["./p", "p"] := by
    decide +kernel
  obtain ⟨m, e, hm, hrun, he⟩ := exists_run_of_stopOf? hstop
  obtain ⟨e', hrefuses, he'⟩ := refuses_of_messageAt? hmessage
  rw [hm] at hrequests
  have hr : m.requests = ["./p", "p"] := Option.some.inj hrequests
  have hbound : ∀ s ∈ m.requests, partialImports.get? s ≠ none := by
    rw [hr]
    simp [partialImports, Dict.ofList, Dict.get?_insert]
  obtain ⟨hmodule, hloader⟩ := no_request_lacks_imports
  obtain ⟨-, hlists, hsafe⟩ := hmodule "n" namedTwice m hm
  have hordinary : (Stages.standard ".js" (some Dialect.compile)).Ordinary :=
    ⟨.none, _, _, rfl, Or.inr rfl, rfl⟩
  have hgiven := hloader _ _ _ _ _ _ (build_ofFiles 0 partialFiles) hordinary.plain 8 partialMoves
    e' hrefuses
  refine ⟨⟨m, e, hm, hr, hr ▸ hlists, hrun, he, hsafe _ _ e hbound hrun⟩, e', hrefuses, he', ?_⟩
  exact hgiven.2 hordinary (Or.inl ⟨_, _, rfl⟩) (by simp [partialMoves])

/-- A module that is instantiated ahead of its code, with no requests, does lack its import. -/
example :
    let hasty : Overrides :=
      { Overrides.none with instantiate := .ofList [("n", .module namedTwice (some []))] }
    let l : Loader :=
      { ofFiles 0 partialFiles with
        stages := hasty.inFrontOf (.standard ".js" (some Dialect.compile)) }
    ((start l).play 9 partialMoves).messageAt? 0 =
      some "InstantiateError: n: './p' was not loaded" := by
  decide +kernel

end Session

end ModuleLoader
